import Mathlib.Data.List.Nodup
import StagedCompiler.Proofs.Analysis.Linking

/-!
# What resolvers are asked and what comes of it

Resolvers that never give up are asked at most once for a name and a use, and the first offer of that
name is taken unless an item of the unit has the name (`Consulted`).  So what a name stands for outside
functions is settled the first time that it is looked up, and stays so.

`Orderly` is what holds of the state all the way: a descriptor that was offered is behind those of the
items, belongs to one name and use, and is what the resolvers answer.  `Way` is what a part of
resolution leaves alone: descriptors behind those of the items, what has been asked for, and the
bindings and the reports of names that lead nowhere outside the constructs that it works on.
-/

namespace StagedCompiler.Resolution

open Source (Item Site SiteId)

/-! ## Offers -/

/-- What a resolver offers, if it is of the name that it is asked for. -/
def offer? (request : Extension.Request) (resolver : Extension.Resolver) : Option Descriptor :=
  match resolver.resolve request with
  | .ok (some offer) => if offer.name = request.name then some offer else none
  | .ok none | .error _ => none

/-- The first offer that resolvers make of the name that they are asked for. -/
def firstOffer? (request : Extension.Request)
    (resolvers : List (Registry.Record × Extension.Resolver)) : Option Descriptor :=
  resolvers.findSome? fun entry => offer? request entry.2

/-- The state in which a name and a use count as asked for. -/
def noteAsked (key : String × ReferenceKind) (consultations : List Consultation) (s : State) :
    State :=
  { s with asked := key :: s.asked, consultations := consultations }

/-- The state in which an offer for a name and a use is taken. -/
def accept (key : String × ReferenceKind) (d : Descriptor) (s : State) : State :=
  { s with
    descriptors := s.descriptors.insert d
    synthetic := s.synthetic ++ [(key, s.descriptors.size)] }

/-- The state in which an offer is taken unless an item of the unit has the name. -/
def consider (ctx : Context) (key : String × ReferenceKind) (offer : Option Descriptor)
    (s : State) : State :=
  match offer, ctx.globals.lookup key.1 with
  | some d, none => accept key d s
  | _, _ => s

/-- What asking for a name and a use does to the state. -/
inductive Consulted (ctx : Context) (key : String × ReferenceKind) (s : State) : State → Prop
  | again : key ∈ s.asked → Consulted ctx key s s
  | unused (consultations : List Consultation) : key ∉ s.asked →
    (ctx.globals.lookup key.1 = none →
      firstOffer? ⟨key.1, key.2, s.descriptors⟩ ctx.resolvers = none) →
    Consulted ctx key s (noteAsked key consultations s)
  | offered (consultations : List Consultation) (d : Descriptor) : key ∉ s.asked →
    ctx.globals.lookup key.1 = none →
    firstOffer? ⟨key.1, key.2, s.descriptors⟩ ctx.resolvers = some d →
    Consulted ctx key s (accept key d (noteAsked key consultations s))

/-- A step in two cases leaves behind what both cases do. -/
theorem ite_leaves {α : Type} {c : Prop} [Decidable c] {x y : Step α} {s : State}
    {post : α → State → Prop} (first : c → Leaves x s post) (second : ¬ c → Leaves y s post) :
    Leaves (if c then x else y) s post := by
  split
  · exact first ‹_›
  · exact second ‹_›

section Offers

variable {ctx : Context} {name : String} {kind : ReferenceKind} {s : State}

/-- Resolvers that do not give up are asked in order, and the first proper offer counts. -/
theorem askResolvers_offers {resolvers : List (Registry.Record × Extension.Resolver)}
    (calm : ∀ entry ∈ resolvers, ∀ request, ∃ offer, entry.2.resolve request = .ok offer) :
    Leaves (askResolvers ctx name kind resolvers) s fun _ s' =>
      ∃ consultations, s' = consider ctx (name, kind)
        (firstOffer? ⟨name, kind, s.descriptors⟩ resolvers)
        { s with consultations := consultations } := by
  induction resolvers generalizing s with
  | nil => exact ⟨s.consultations, rfl⟩
  | cons entry rest ih =>
      rw [List.forall_mem_cons] at calm
      obtain ⟨record, resolver⟩ := entry
      refine (get_leaves s).bind ?_
      intro _ _ post
      obtain ⟨rfl, rfl⟩ := post
      rename_i s
      refine (modify_leaves _ s).bind ?_
      intro _ _ same
      subst same
      -- Nothing is described before an offer is taken, so every resolver is shown the same table.
      have onward := fun consultations => ih (s := { s with consultations := consultations }) calm.2
      cases answered : resolver.resolve ⟨name, kind, s.descriptors⟩ with
      | error panic =>
          obtain ⟨offer, given⟩ := calm.1 ⟨name, kind, s.descriptors⟩
          cases answered.symm.trans given
      | ok offer =>
          cases offer with
          | none =>
              simp only [firstOffer?, List.findSome?_cons, offer?, answered]
              exact onward _
          | some offer =>
              refine ite_leaves (fun other => ?_) fun named => ?_
              · simp only [firstOffer?, List.findSome?_cons, offer?, answered, if_neg other]
                exact onward _
              · rw [not_ne_iff] at named
                simp only [firstOffer?, List.findSome?_cons, offer?, answered, if_pos named]
                refine ite_leaves (fun shadowed => ?_) fun free => ?_
                · obtain ⟨i, found⟩ := Option.isSome_iff_exists.mp shadowed
                  exact ⟨_, by simp only [consider, found]; rfl⟩
                · rw [Option.not_isSome_iff_eq_none] at free
                  exact ⟨_, by simp only [consider, free]; rfl⟩

/-- Resolvers that do not give up are asked once for a name and a use, and the first proper offer is
taken if the name is free. -/
theorem consult_offers (calm : Calm ctx) (fault : s.fault = none) (name : String)
    (kind : ReferenceKind) :
    Leaves (consult ctx name kind) s fun _ s' => Consulted ctx (name, kind) s s' := by
  refine (get_leaves s).bind ?_
  intro _ _ post
  obtain ⟨rfl, rfl⟩ := post
  rename_i s
  refine ite_leaves (fun known => ?_) fun new => ?_
  · rw [fault, Option.isSome_none, Bool.false_or, List.contains_iff_mem] at known
    exact .again known
  · rw [fault, Option.isSome_none, Bool.false_or, List.contains_iff_mem] at new
    refine (modify_leaves _ s).bind ?_
    intro _ _ same
    subst same
    refine (askResolvers_offers calm).mono ?_
    intro _ s' post
    obtain ⟨consultations, rfl⟩ := post
    unfold consider
    split
    · rename_i d offered free
      exact .offered consultations d new free offered
    · rename_i refused
      refine .unused consultations new fun free => ?_
      cases offered : firstOffer? ⟨name, kind, s.descriptors⟩ ctx.resolvers with
      | none => rfl
      | some d => exact absurd free (refused d offered)

end Offers

/-! ## The invariant -/

/-- What was found out for a name and a use is what the resolvers answer to what they were shown. -/
def Answered (ctx : Context) (s : State) (key : String × ReferenceKind) : Prop :=
  ∃ shown, Keeps shown s.descriptors ∧
    (s.synthetic.lookup key).map s.descriptors.get? =
      (firstOffer? ⟨key.1, key.2, shown⟩ ctx.resolvers).map some

/-- What holds of the state all the way if no resolver gives up. -/
structure Orderly (items : List (Item Site)) (ctx : Context) (s : State) : Prop where
  fault : s.fault = none
  described : ∀ i item, items[i]? = some item →
    Describes s.descriptors i item.site item.name (itemKind item)
  offers : ∀ entry ∈ s.synthetic, entry.1 ∈ s.asked ∧ ctx.globals.lookup entry.1.1 = none ∧
    items.length ≤ entry.2 ∧ entry.2 < s.descriptors.size
  apart : (s.synthetic.map (·.2)).Nodup
  answers : ∀ key ∈ s.asked, ctx.globals.lookup key.1 = none → Answered ctx s key

/-- How often it is reported at a place that a name leads nowhere. -/
def lostAt (s : State) (id : SiteId) : Nat :=
  s.diagnostics.countP fun d => d.code == unresolvedCode && d.location.order == id

/-- `s'` is behind `s`: descriptors from the given number on are the same, what has been asked for
stands, and nothing is bound or found to lead nowhere outside the given constructs. -/
structure Way (first : DescriptorId) (touched : List SiteId) (s s' : State) : Prop
    extends Moves touched s s' where
  added : ∀ i d, first ≤ i → s.descriptors.get? i = some d → s'.descriptors.get? i = some d
  asked : ∀ key ∈ s.asked, key ∈ s'.asked ∧ s'.synthetic.lookup key = s.synthetic.lookup key
  fresh : ∀ entry ∈ s'.synthetic, entry ∈ s.synthetic ∨ s.descriptors.size ≤ entry.2
  lost : ∀ id, id ∉ touched → lostAt s' id = lostAt s id
  remarks : ∀ id, id ∉ touched → ∀ b b', s.bindings.get? id = some b →
    s'.bindings.get? id = some b' → b'.flags.unresolved = b.flags.unresolved

section Way

variable {items : List (Item Site)} {ctx : Context} {first : DescriptorId} {ids jds : List SiteId}
  {s s' s'' : State}

theorem Keeps.size_le {D D' : Descriptor.Table} (kept : Keeps D D') : D.size ≤ D'.size := by
  by_contra shorter
  rw [Nat.not_le] at shorter
  have known := kept.contains (decide_eq_true shorter)
  exact Nat.lt_irrefl _ (of_decide_eq_true known)

theorem Way.refl (first : DescriptorId) (s : State) : Way first [] s s :=
  ⟨.of_same (.refl _) rfl (.of_eq rfl), fun _ _ _ found => found, fun _ member => ⟨member, rfl⟩,
    fun _ member => .inl member, fun _ _ => rfl, fun _ _ b b' there there' => by
      rw [Option.some.inj (there.symm.trans there')]⟩

/-- What two steps in sequence leave alone is what both of them leave alone. -/
theorem Way.trans (one : Way first ids s s') (two : Way first jds s' s'') :
    Way first (ids ++ jds) s s'' := by
  refine ⟨one.toMoves.trans two.toMoves, fun i d behind found => ?_, fun key member => ?_,
    fun entry member => ?_, fun id outside => ?_, fun id outside b b'' there there'' => ?_⟩
  · exact two.added i d behind (one.added i d behind found)
  · obtain ⟨member', same⟩ := one.asked key member
    obtain ⟨member'', same'⟩ := two.asked key member'
    exact ⟨member'', same'.trans same⟩
  · rcases two.fresh entry member with old | new
    · exact one.fresh entry old
    · exact .inr (Nat.le_trans one.table.size_le new)
  · rw [List.mem_append, not_or] at outside
    exact (two.lost id outside.2).trans (one.lost id outside.1)
  · rw [List.mem_append, not_or] at outside
    obtain ⟨b', there', _⟩ := one.frame id outside.1 b there
    exact (two.remarks id outside.2 b' b'' there' there'').trans
      (one.remarks id outside.1 b b' there there')

theorem Way.mono (way : Way first ids s s') (subset : ids ⊆ jds) : Way first jds s s' :=
  ⟨way.toMoves.mono subset, way.added, way.asked, way.fresh,
    fun id outside => way.lost id fun inside => outside (subset inside),
    fun id outside => way.remarks id fun inside => outside (subset inside)⟩

theorem Orderly.size_le (orderly : Orderly items ctx s) : items.length ≤ s.descriptors.size := by
  by_contra short
  rw [Nat.not_le] at short
  obtain ⟨d, found, _⟩ := orderly.described _ _ (List.getElem?_eq_getElem short)
  exact Nat.lt_irrefl _ (Array.getElem?_eq_some_iff.mp found).1

/-- What has not been asked for has not been offered. -/
theorem Orderly.lookup_eq_none (orderly : Orderly items ctx s) {key : String × ReferenceKind}
    (new : key ∉ s.asked) : s.synthetic.lookup key = none := by
  by_contra offered
  obtain ⟨i, looked⟩ := Option.ne_none_iff_exists'.mp offered
  exact new (orderly.offers _ (mem_of_lookup looked)).1

/-- What resolvers answer to a name that has been asked for stays so. -/
theorem Orderly.answers_way (orderly : Orderly items ctx s) (way : Way items.length ids s s')
    {key : String × ReferenceKind} (asked : key ∈ s.asked)
    (free : ctx.globals.lookup key.1 = none) : Answered ctx s' key := by
  obtain ⟨shown, kept, answer⟩ := orderly.answers key asked free
  refine ⟨shown, kept.trans way.table, ?_⟩
  rw [(way.asked key asked).2, ← answer]
  cases looked : s.synthetic.lookup key with
  | none => rfl
  | some i =>
      obtain ⟨_, _, behind, inside⟩ := orderly.offers _ (mem_of_lookup looked)
      have found : s.descriptors.get? i = some _ := Array.getElem?_eq_getElem inside
      exact congrArg some ((way.added i _ behind found).trans found.symm)

/-- The way from `s` to `s'` keeps the invariant and works on the given constructs. -/
structure Walks (items : List (Item Site)) (ctx : Context) (touched : List SiteId)
    (s s' : State) : Prop where
  orderly : Orderly items ctx s'
  way : Way items.length touched s s'

theorem Orderly.refl (orderly : Orderly items ctx s) : Walks items ctx [] s s :=
  ⟨orderly, .refl _ s⟩

theorem Walks.trans (one : Walks items ctx ids s s') (two : Walks items ctx jds s' s'') :
    Walks items ctx (ids ++ jds) s s'' :=
  ⟨two.orderly, one.way.trans two.way⟩

theorem Walks.mono (walks : Walks items ctx ids s s') (subset : ids ⊆ jds) :
    Walks items ctx jds s s' :=
  ⟨walks.orderly, walks.way.mono subset⟩

/-- Two ways in sequence that work on the same constructs. -/
theorem Walks.again (one : Walks items ctx ids s s') (two : Walks items ctx ids s' s'') :
    Walks items ctx ids s s'' :=
  (one.trans two).mono (List.append_subset.mpr ⟨List.Subset.refl _, List.Subset.refl _⟩)

/-- What does not concern resolvers keeps the invariant. -/
theorem Orderly.of_same (orderly : Orderly items ctx s) (way : Way items.length ids s s')
    (fault : s'.fault = s.fault) (asked : s'.asked = s.asked)
    (synthetic : s'.synthetic = s.synthetic) : Walks items ctx ids s s' := by
  refine ⟨⟨fault.trans orderly.fault, fun i item there => ?_, fun entry member => ?_, ?_,
    fun key member free => ?_⟩, way⟩
  · exact (orderly.described i item there).keeps way.table
  · rw [synthetic] at member
    obtain ⟨known, free, behind, inside⟩ := orderly.offers entry member
    exact ⟨asked ▸ known, free, behind, Nat.lt_of_lt_of_le inside way.table.size_le⟩
  · rw [synthetic]
    exact orderly.apart
  · exact orderly.answers_way way (asked ▸ member) free

/-- To take an offer leaves all descriptors alone, and all that has been asked for. -/
theorem accept_way (first : DescriptorId) {key : String × ReferenceKind} (new : key ∉ s.asked)
    (d : Descriptor) (consultations : List Consultation) :
    Way first [] s (accept key d (noteAsked key consultations s)) := by
  have extended := insert_extends s.descriptors d
  refine ⟨.of_same extended.keeps rfl (.of_eq rfl), fun i d _ found => extended i d found,
    fun other member => ⟨List.mem_cons_of_mem _ member, ?_⟩, fun entry member => ?_,
    fun _ _ => rfl, (Way.refl first s).remarks⟩
  · have differs : other ≠ key := fun same => new (same ▸ member)
    show (s.synthetic ++ [(key, s.descriptors.size)]).lookup other = s.synthetic.lookup other
    rw [List.lookup_append, List.lookup_cons, beq_false_of_ne differs]
    exact Option.or_none
  · rcases List.mem_append.mp member with old | added
    · exact .inl old
    · rw [List.mem_singleton.mp added]
      exact .inr (Nat.le_refl _)

/-- An offer that is taken is the answer to what was asked, and the only use of its number. -/
theorem Orderly.offer (orderly : Orderly items ctx s) {key : String × ReferenceKind}
    {d : Descriptor} (new : key ∉ s.asked) (free : ctx.globals.lookup key.1 = none)
    (offered : firstOffer? ⟨key.1, key.2, s.descriptors⟩ ctx.resolvers = some d)
    (consultations : List Consultation) :
    Walks items ctx [] s (accept key d (noteAsked key consultations s)) := by
  have way := accept_way items.length new d consultations
  have grown : (s.descriptors.insert d).size = s.descriptors.size + 1 := Array.size_push _
  refine ⟨⟨orderly.fault, fun i item there => (orderly.described i item there).keeps way.table,
    List.forall_mem_append.mpr ⟨fun entry member => ?_, List.forall_mem_singleton.mpr ?_⟩, ?_,
    List.forall_mem_cons.mpr ⟨fun _ => ?_, fun other member => orderly.answers_way way member⟩⟩, way⟩
  · obtain ⟨known, free, behind, inside⟩ := orderly.offers entry member
    exact ⟨List.mem_cons_of_mem _ known, free, behind, Nat.lt_of_lt_of_le inside way.table.size_le⟩
  · exact ⟨List.mem_cons_self, free, orderly.size_le,
      Nat.lt_of_lt_of_eq (Nat.lt_succ_self _) grown.symm⟩
  · show ((s.synthetic ++ [(key, s.descriptors.size)]).map (·.2)).Nodup
    rw [List.map_append, List.map_singleton]
    refine List.nodup_append.mpr ⟨orderly.apart, List.nodup_singleton _, ?_⟩
    intro i member j is
    obtain ⟨entry, among, rfl⟩ := List.mem_map.mp member
    rw [List.mem_singleton.mp is]
    exact Nat.ne_of_lt (orderly.offers entry among).2.2.2
  · refine ⟨s.descriptors, way.table, ?_⟩
    have entered : (s.descriptors.insert d).get? s.descriptors.size = some d := by
      rw [get?_insert, if_pos rfl]
    show ((s.synthetic ++ [(key, s.descriptors.size)]).lookup key).map _ = _
    rw [offered, List.lookup_append, orderly.lookup_eq_none new, Option.none_or, List.lookup_cons,
      beq_self_eq_true]
    exact congrArg some entered

/-- Asking for a name and a use once more, for nothing, or for an offer. -/
theorem Consulted.walks {key : String × ReferenceKind} (consulted : Consulted ctx key s s')
    (orderly : Orderly items ctx s) : Walks items ctx [] s s' ∧ key ∈ s'.asked := by
  cases consulted with
  | again known => exact ⟨orderly.refl, known⟩
  | unused consultations new none =>
      have way : Way items.length [] s (noteAsked key consultations s) :=
        { Way.refl items.length s with
          asked := fun _ member => ⟨List.mem_cons_of_mem _ member, rfl⟩ }
      refine ⟨⟨⟨orderly.fault, orderly.described, fun entry member => ?_, orderly.apart,
        List.forall_mem_cons.mpr ⟨fun free => ⟨s.descriptors, .refl _, ?_⟩,
          fun other member => orderly.answers_way way member⟩⟩, way⟩, List.mem_cons_self⟩
      · obtain ⟨known, rest⟩ := orderly.offers entry member
        exact ⟨List.mem_cons_of_mem _ known, rest⟩
      · rw [none free]
        exact congrArg (Option.map _) (orderly.lookup_eq_none new)
  | offered consultations d new free offered =>
      exact ⟨orderly.offer new free offered consultations, List.mem_cons_self⟩

end Way

/-! ## Steps -/

/-- A descriptor is there and no resolver offered it. -/
def Own (s : State) (i : DescriptorId) : Prop :=
  i < s.descriptors.size ∧ ∀ entry ∈ s.synthetic, entry.2 ≠ i

section Primitives

variable {items : List (Item Site)} {ctx : Context} {s s' : State}

/-- What no resolver offered is never taken for an offer later on. -/
theorem Own.way {first : DescriptorId} {touched : List SiteId} {i : DescriptorId} (own : Own s i)
    (way : Way first touched s s') : Own s' i := by
  refine ⟨Nat.lt_of_lt_of_le own.1 way.table.size_le, fun entry member => ?_⟩
  rcases way.fresh entry member with old | new
  · exact own.2 entry old
  · exact fun is => absurd (is ▸ own.1) (Nat.not_lt.mpr new)

/-- Only a report of a name that leads nowhere counts as one. -/
theorem lostAt_report (ctx : Context) (code : String) (site : Site) (message : String) (s : State)
    (id : SiteId) :
    lostAt ((report ctx code site message).run s).2 id =
      lostAt s id + if code = unresolvedCode ∧ site.id = id then 1 else 0 := by
  have appended : ((report ctx code site message).run s).2.diagnostics =
      s.diagnostics ++ [.hostError code message ⟨ctx.unit, site.id, site.path⟩] := rfl
  rw [lostAt, appended, List.countP_append, List.countP_singleton]
  simp only [Diagnostic.hostError, Bool.and_eq_true, beq_iff_eq]
  rfl

/-- A report touches the place that it is about only if it is about a name that leads nowhere. -/
theorem report_way (orderly : Orderly items ctx s) (code : String) (site : Site)
    (message : String) (touched : List SiteId)
    (inside : code = unresolvedCode → site.id ∈ touched) :
    Walks items ctx touched s ((report ctx code site message).run s).2 := by
  refine orderly.of_same ?_ rfl rfl rfl
  refine { (Way.refl items.length s).mono (List.nil_subset touched) with
    reports := report_grows ctx site code message s
    lost := fun id outside => ?_ }
  rw [lostAt_report, if_neg, Nat.add_zero]
  intro post
  obtain ⟨is, rfl⟩ := post
  exact outside (inside is)

/-- An error of a kind was reported at a place. -/
def ReportedAt (s : State) (code : String) (site : Site) : Prop :=
  ∃ d ∈ s.diagnostics, d.severity = .error ∧ d.code = code ∧ d.location.order = site.id

/-- A report stays. -/
theorem ReportedAt.moves {touched : List SiteId} {code : String} {site : Site}
    (reported : ReportedAt s code site) (moves : Moves touched s s') : ReportedAt s' code site := by
  obtain ⟨d, member, is⟩ := reported
  obtain ⟨more, appended, _⟩ := moves.reports
  exact ⟨d, appended ▸ List.mem_append_left _ member, is⟩

/-- An error that is about something else than a name leaves everything alone. -/
theorem report_walks (orderly : Orderly items ctx s) {code : String}
    (other : code ≠ unresolvedCode) (site : Site) (message : String) :
    Leaves (report ctx code site message) s fun _ s' =>
      Walks items ctx [] s s' ∧ ReportedAt s' code site :=
  ⟨report_way orderly code site message [] fun is => absurd is other,
    _, List.mem_append_right _ List.mem_cons_self, rfl, rfl, rfl⟩

/-- A name that leads nowhere is reported once at its place. -/
theorem report_lost (orderly : Orderly items ctx s) (site : Site) (message : String) :
    Leaves (report ctx unresolvedCode site message) s fun _ s' =>
      Walks items ctx [site.id] s s' ∧ lostAt s' site.id = lostAt s site.id + 1 := by
  refine ⟨report_way orderly _ site message _ fun _ => List.mem_singleton_self _, ?_⟩
  rw [lostAt_report, if_pos ⟨rfl, rfl⟩]

/-- A remark that something does not fit leaves alone what constructs refer to. -/
theorem flag_walks (orderly : Orderly items ctx s) (site : Site) :
    Leaves (flag site mismatch) s fun _ s' => Walks items ctx [] s s' := by
  refine orderly.of_same ?_ rfl rfl rfl
  refine { Way.refl items.length s with
    slots := Array.size_modify
    frame := fun id _ b there => ?_
    remarks := fun id _ b b' there there' => ?_ }
  · show ∃ b', (s.bindings.flag site.id mismatch).get? id = some b' ∧ Alike b b'
    rw [get?_flag, there]
    split
    · exact ⟨_, rfl, rfl, rfl, rfl⟩
    · exact ⟨b, rfl, .refl b⟩
  · have there' : (s.bindings.flag site.id mismatch).get? id = some b' := there'
    rw [get?_flag, there] at there'
    split at there'
    · rw [← Option.some.inj there']
      exact Bool.or_false _
    · rw [Option.some.inj there']

/-- Complaints about anything but names that lead nowhere bind nothing, and each of them is reported at
its place. -/
theorem complain_walks (orderly : Orderly items ctx s) {complaints : List Complaint}
    (found : ∀ c ∈ complaints, c.code ≠ unresolvedCode) :
    Leaves (complain ctx complaints) s fun _ s' =>
      Walks items ctx [] s s' ∧ ∀ c ∈ complaints, ReportedAt s' c.code c.site := by
  induction complaints generalizing s with
  | nil => exact .pure ⟨orderly.refl, by simp⟩
  | cons c rest ih =>
      rw [List.forall_mem_cons] at found
      refine (report_walks orderly found.1 c.site c.message).bind ?_
      intro _ s₁ post
      obtain ⟨walks₁, reported⟩ := post
      have later : ∀ {s₂ : State}, Walks items ctx [] s₁ s₂ → Leaves (complain ctx rest) s₂ fun _ s' =>
          Walks items ctx [] s s' ∧ ∀ c' ∈ c :: rest, ReportedAt s' c'.code c'.site := by
        intro s₂ walks₂
        refine (ih walks₂.orderly found.2).mono ?_
        intro _ s₃ post
        have walks := walks₂.trans post.1
        refine ⟨walks₁.trans walks, ?_⟩
        rw [List.forall_mem_cons]
        exact ⟨reported.moves walks.way.toMoves, post.2⟩
      cases c.remarked with
      | false => exact later walks₁.orderly.refl
      | true => exact (flag_walks walks₁.orderly c.site).bind fun _ s₂ walks₂ => later walks₂

/-- What is said of a construct all names in which have been found. -/
theorem judge_walks {α : Type} (orderly : Orderly items ctx s)
    {verdict : Descriptor.Table → Verdict α} (found : (verdict s.descriptors).NamesFound) :
    Leaves (judge ctx verdict) s fun a s' => Walks items ctx [] s s' ∧
      a = (verdict s.descriptors).value ∧
      ∀ c ∈ (verdict s.descriptors).complaints, ReportedAt s' c.code c.site := by
  have complained := complain_walks orderly found
  exact ⟨complained.1, rfl, complained.2⟩

/-- A declaration gets a descriptor that no resolver offered. -/
theorem describe_walks (orderly : Orderly items ctx s) (d : Descriptor) :
    Leaves (describe d) s fun i s' => Walks items ctx [] s s' ∧ Own s' i := by
  have extended := insert_extends s.descriptors d
  have grown : (s.descriptors.insert d).size = s.descriptors.size + 1 := Array.size_push _
  refine ⟨orderly.of_same ?_ rfl rfl rfl, Nat.lt_of_lt_of_eq (Nat.lt_succ_self _) grown.symm,
    fun entry member => ?_⟩
  · exact { Way.refl items.length s with
      table := extended.keeps
      added := fun i e _ found => extended i e found }
  · exact Nat.ne_of_lt (orderly.offers entry member).2.2.2

/-- To bind a construct touches this construct only, and no error is reported. -/
theorem bind_walks (orderly : Orderly items ctx s) {site : Site} (b : Binding)
    (bound : site.id < s.bindings.slots.size) :
    Leaves (bind site b) s fun _ s' =>
      Walks items ctx [site.id] s s' ∧ s'.bindings.get? site.id = some b ∧
        lostAt s' site.id = lostAt s site.id := by
  have slots : ∀ id, ((Resolution.bind site b).run s).2.bindings.get? id =
      if id = site.id then some b else s.bindings.get? id := fun id =>
    get?_insert_binding _ _ _ _ bound
  refine ⟨orderly.of_same ?_ rfl rfl rfl, by rw [slots, if_pos rfl], rfl⟩
  refine { (Way.refl items.length s).mono (List.nil_subset [site.id]) with
    slots := Array.size_setIfInBounds
    frame := fun id outside b' there => ?_
    remarks := fun id outside b' b'' there there' => ?_ }
  · rw [slots, if_neg (fun is => outside (List.mem_singleton.mpr is))]
    exact ⟨b', there, .refl b'⟩
  · rw [slots, if_neg (fun is => outside (List.mem_singleton.mpr is))] at there'
    rw [Option.some.inj (there.symm.trans there')]

end Primitives

/-! ## Names outside functions -/

/-- What a name stands for outside functions, as far as it has been looked up. -/
def outside (ctx : Context) (s : State) (name : String) (kind : ReferenceKind) :
    Option DescriptorId :=
  (ctx.globals.lookup name).or (s.synthetic.lookup (name, kind))

/-- Whether a number belongs to a class. -/
def isClass (D : Descriptor.Table) (i : DescriptorId) : Bool :=
  (D.get? i).any (·.kind == .cls)

/-- The class that a name stands for outside functions, as far as it has been looked up. -/
def classOutside (ctx : Context) (s : State) (name : String) : Option DescriptorId :=
  (outside ctx s name .type).filter (isClass s.descriptors)

section Lookup

variable {items : List (Item Site)} {ctx : Context} {s s' : State}

/-- What a name stands for outside functions is settled once it has been looked up. -/
theorem outside_way {first : DescriptorId} {touched : List SiteId} {name : String}
    {kind : ReferenceKind} (asked : (name, kind) ∈ s.asked) (way : Way first touched s s') :
    outside ctx s' name kind = outside ctx s name kind := by
  rw [outside, (way.asked _ asked).2, outside]

/-- A name that is taken by an item is the name of that item. -/
theorem lookup_globals (globals : ctx.globals = itemNames items) {name : String}
    {i : DescriptorId} (looked : ctx.globals.lookup name = some i) :
    ∃ item, items[i]? = some item ∧ item.name = name := by
  rw [globals] at looked
  obtain ⟨j, item, place, there, named⟩ := lookup_zipIdx_eq_some looked
  rw [Nat.zero_add] at place
  exact ⟨item, place ▸ there, named⟩

/-- What a name stands for outside functions is there. -/
theorem Orderly.outside_lt (globals : ctx.globals = itemNames items) (orderly : Orderly items ctx s)
    {name : String} {kind : ReferenceKind} {i : DescriptorId}
    (found : outside ctx s name kind = some i) : i < s.descriptors.size := by
  rcases Option.or_eq_some_iff.mp found with looked | ⟨_, looked⟩
  · obtain ⟨item, there, _⟩ := lookup_globals globals looked
    exact Nat.lt_of_lt_of_le (List.getElem?_eq_some_iff.mp there).1 orderly.size_le
  · exact (orderly.offers _ (mem_of_lookup looked)).2.2.2

theorem isClass_way {first : DescriptorId} {touched : List SiteId} (way : Way first touched s s')
    {i : DescriptorId} (inside : i < s.descriptors.size) :
    isClass s'.descriptors i = isClass s.descriptors i := by
  have found : s.descriptors.get? i = some _ := Array.getElem?_eq_getElem inside
  obtain ⟨d', found', _, kind, _⟩ := way.table i _ found
  rw [isClass, found', isClass, found, Option.any_some, Option.any_some, kind]

/-- Whether a name stands for a class is settled once it has been looked up. -/
theorem classOutside_way (globals : ctx.globals = itemNames items) (orderly : Orderly items ctx s)
    {touched : List SiteId} {name : String} (asked : (name, .type) ∈ s.asked)
    (way : Way items.length touched s s') :
    classOutside ctx s' name = classOutside ctx s name := by
  rw [classOutside, outside_way asked way, classOutside]
  cases found : outside ctx s name .type with
  | none => rfl
  | some i =>
      rw [Option.filter_some, Option.filter_some, isClass_way way (orderly.outside_lt globals found)]

/-- A look-up finds what the name stands for from then on. -/
theorem lookupGlobal_walks (calm : Calm ctx) (orderly : Orderly items ctx s) (name : String)
    (kind : ReferenceKind) :
    Leaves (lookupGlobal ctx name kind) s fun found s' =>
      Walks items ctx [] s s' ∧ (name, kind) ∈ s'.asked ∧ found = outside ctx s' name kind := by
  refine (consult_offers calm orderly.fault name kind).bind ?_
  intro _ s' consulted
  obtain ⟨walks, asked⟩ := consulted.walks orderly
  exact ⟨walks, asked, rfl⟩

/-- What a name of a type leads to, if it is a class. -/
theorem classAt_outside (name : String) :
    (classAt s.descriptors (outside ctx s name .type)).map (·.1) = classOutside ctx s name := by
  unfold classAt classOutside
  cases outside ctx s name .type with
  | none => rfl
  | some i =>
      rw [Option.bind_some, Option.filter_some, isClass]
      cases s.descriptors.get? i with
      | none => rfl
      | some d =>
          rw [Option.bind_some, Option.any_some]
          split <;> rfl

end Lookup

end StagedCompiler.Resolution
