import Mathlib.Data.List.Nodup
import StagedCompiler.Registry

/-!
# One more registration

What a registry looks like if one more extension is registered somewhere in between.

* Every other record keeps its identity, its order key and its place among the others; only its number
  moves on (`Record.bump`).
* At the point of the new extension, the extensions in the order in which they work are those of the
  other registry with the new one in between; at the other points there is nothing new
  (`extensionsFor_padded`).
-/

namespace StagedCompiler

/-! ## Lists with more in between -/

/-- `bs` is made of elements related to those of `as`, in order, with `extra` ones in between. -/
inductive Padded {α β : Type} (related : α → β → Prop) (extra : β → Prop) : List α → List β → Prop
  | nil : Padded related extra [] []
  | keep {a : α} {b : β} {as : List α} {bs : List β} :
    related a b → Padded related extra as bs → Padded related extra (a :: as) (b :: bs)
  | skip {b : β} {as : List α} {bs : List β} :
    extra b → Padded related extra as bs → Padded related extra as (b :: bs)

namespace Padded

variable {α β γ δ : Type} {related : α → β → Prop} {extra : β → Prop}

theorem map_map {f : γ → α} {g : γ → β} (same : ∀ c, related (f c) (g c)) (cs : List γ) :
    Padded related extra (cs.map f) (cs.map g) := by
  induction cs with
  | nil => exact .nil
  | cons c cs ih => exact .keep (same c) ih

theorem map_right (f : α → β) (as : List α) : Padded (fun a b => b = f a) extra as (as.map f) := by
  induction as with
  | nil => exact .nil
  | cons a as ih => exact .keep rfl ih

theorem only {bs : List β} (all : ∀ b ∈ bs, extra b) : Padded related extra [] bs := by
  induction bs with
  | nil => exact .nil
  | cons b bs ih =>
      rw [List.forall_mem_cons] at all
      exact .skip all.1 (ih all.2)

/-- Lists that differ by additions, one behind the other, differ by additions. -/
theorem append {as as' : List α} {bs bs' : List β} (first : Padded related extra as bs)
    (second : Padded related extra as' bs') : Padded related extra (as ++ as') (bs ++ bs') := by
  induction first with
  | nil => exact second
  | keep same _ ih => exact .keep same ih
  | skip more _ ih => exact .skip more ih

/-- A map of both lists keeps what is related and what is added. -/
theorem map {related' : γ → δ → Prop} {extra' : δ → Prop} {f : α → γ} {g : β → δ} {as : List α}
    {bs : List β} (padded : Padded related extra as bs) (same : ∀ a b, related a b → related' (f a) (g b))
    (more : ∀ b, extra b → extra' (g b)) : Padded related' extra' (as.map f) (bs.map g) := by
  induction padded with
  | nil => exact .nil
  | keep here _ ih => exact .keep (same _ _ here) ih
  | skip here _ ih => exact .skip (more _ here) ih

theorem imp {related' : α → β → Prop} {extra' : β → Prop} {as : List α} {bs : List β}
    (padded : Padded related extra as bs) (same : ∀ a b, related a b → related' a b)
    (more : ∀ b, extra b → extra' b) : Padded related' extra' as bs := by
  have mapped : Padded related' extra' (as.map id) (bs.map id) := padded.map same more
  rwa [List.map_id, List.map_id] at mapped

/-- Functions that give lists, related ones for related elements, and nothing but extra elements for
extra ones. -/
theorem flatMap {related' : γ → δ → Prop} {extra' : δ → Prop} {f : α → List γ} {g : β → List δ}
    {as : List α} {bs : List β} (padded : Padded related extra as bs)
    (same : ∀ a b, related a b → Padded related' extra' (f a) (g b))
    (more : ∀ b, extra b → Padded related' extra' [] (g b)) :
    Padded related' extra' (as.flatMap f) (bs.flatMap g) := by
  induction padded with
  | nil => exact .nil
  | keep here _ ih => exact (same _ _ here).append ih
  | skip here _ ih => exact (more _ here).append ih

/-- Functions that may give nothing, and for related elements both give nothing or related ones. -/
theorem filterMap {related' : γ → δ → Prop} {extra' : δ → Prop} {f : α → Option γ} {g : β → Option δ}
    {as : List α} {bs : List β} (padded : Padded related extra as bs)
    (same : ∀ a b, related a b → Option.Rel related' (f a) (g b))
    (more : ∀ b, extra b → ∀ d, g b = some d → extra' d) :
    Padded related' extra' (as.filterMap f) (bs.filterMap g) := by
  induction padded with
  | nil => exact .nil
  | keep here _ ih =>
      rename_i a b as bs _
      rw [List.filterMap_cons, List.filterMap_cons]
      have both := same _ _ here
      cases first : f a <;> cases second : g b <;> rw [first, second] at both <;> cases both
      · exact ih
      · rename_i related
        exact .keep related ih
  | skip here _ ih =>
      rename_i b as bs _
      rw [List.filterMap_cons]
      cases made : g b with
      | none => exact ih
      | some d => exact .skip (more b here d made) ih

end Padded

/-! ## Registrations -/

/-- What an extension is registered with. -/
structure Registration : Type where
  plugin : String
  point : Extension.Point
  extension : Extension
  order : Option Int := none
  placement : Option Placement := none

namespace Registration

/-- The identity under which an extension is registered. -/
def id (g : Registration) : Extension.Id := ⟨g.plugin, g.extension.name⟩

/-- The place of a lowering pass. -/
def place? (g : Registration) : Option Placement :=
  match g.extension with
  | .lowering pass => some (g.placement.getD pass.placement)
  | .resolver _ | .declarationChecker _ | .callChecker _ => none

/-- The record of an extension that is registered behind so many others. -/
def record (g : Registration) (number : Nat) : Registry.Record :=
  ⟨g.id, g.order.getD 0, number, g.place?, g.extension⟩

end Registration

namespace Registry

/-- Register an extension. -/
def enlist (r : Registry) (g : Registration) : Except ConfigError Registry :=
  r.insert g.plugin g.point g.extension g.order g.placement

/-- Register extensions one after another. -/
def enlistAll (r : Registry) (gs : List Registration) : Except ConfigError Registry :=
  gs.foldlM enlist r

/-- A registration is refused if it is made at the wrong point, or else if its identity is taken there.
-/
theorem enlist_eq (r : Registry) (g : Registration) : r.enlist g =
    if g.extension.point ≠ g.point then .error (.pointMismatch g.id.text g.point g.extension.point)
    else if r.isTaken g.point g.id then .error (.duplicateRegistration g.id.text g.point)
    else .ok { r with records := r.records ++ [g.record r.records.length] } := by
  rcases g with ⟨plugin, point, extension, order, placement⟩
  cases extension <;> rfl

namespace Record

/-- The record, moved on by one if it comes after a number. -/
def bump (n : Nat) (r : Record) : Record :=
  { r with sequence := if r.sequence < n then r.sequence else r.sequence + 1 }

@[simp] theorem extension_bump (n : Nat) (r : Record) : (r.bump n).extension = r.extension := rfl

/-- To make room for a new record leaves sequence numbers apart. -/
theorem sequence_bump_inj {n : Nat} {a b : Record}
    (same : (a.bump n).sequence = (b.bump n).sequence) : a.sequence = b.sequence := by
  rw [bump, bump] at same
  dsimp only at same
  split at same <;> split at same <;> omega

theorem bump_eq_self {n : Nat} {r : Record} (before : r.sequence < n) : r.bump n = r := by
  rw [bump, if_pos before]

/-- The order of records stays when room is made for a new one. -/
theorem le_bump (n : Nat) (a b : Record) : (a.bump n).le (b.bump n) = a.le b := by
  have same : decide ((a.bump n).sequence ≤ (b.bump n).sequence) =
      decide (a.sequence ≤ b.sequence) := by
    rw [bump, bump]
    dsimp only
    rw [decide_eq_decide]
    split <;> split <;> omega
  rw [le, le, same]
  rfl

/-- Records are ordered in every case. -/
theorem le_total (a b : Record) : (a.le b || b.le a) = true := by
  simp only [le, Bool.or_eq_true, decide_eq_true_eq, Bool.and_eq_true, beq_iff_eq]
  omega

theorem le_trans (a b c : Record) (first : a.le b = true) (second : b.le c = true) :
    a.le c = true := by
  simp only [le, Bool.or_eq_true, decide_eq_true_eq, Bool.and_eq_true, beq_iff_eq] at *
  omega

/-- Records that come before each other have the same sequence number. -/
theorem sequence_eq_of_le {a b : Record} (first : a.le b = true) (second : b.le a = true) :
    a.sequence = b.sequence := by
  simp only [le, Bool.or_eq_true, decide_eq_true_eq, Bool.and_eq_true, beq_iff_eq] at *
  omega

end Record

/-- `r'` is `r` with one more record, which has the number `n`. -/
structure Inserted (n : Nat) (x : Record) (r r' : Registry) : Prop where
  inside : n ≤ r.records.length
  numbered : (r.records.map Record.sequence) = List.range r.records.length
  records : ∃ before after, r.records = before ++ after ∧
    r'.records = before.map (Record.bump n) ++ x :: after.map (Record.bump n)

namespace Inserted

variable {n : Nat} {x : Record} {r r' : Registry} (inserted : Inserted n x r r')
include inserted

theorem eq_of_sequence_bump {a b : Record} (first : a ∈ r.records) (second : b ∈ r.records)
    (same : (a.bump n).sequence = (b.bump n).sequence) : a = b := by
  have distinct : (r.records.map Record.sequence).Nodup := by
    rw [inserted.numbered]
    exact List.nodup_range
  exact List.inj_on_of_nodup_map distinct first second (Record.sequence_bump_inj same)

/-- The extensions of a point, in the order in which they work, with the new one in between if it is one
of them. -/
theorem extensionsFor_padded (point : Extension.Point) :
    Padded (fun a b => b = a.bump n) (· = x) (r.extensionsFor point) (r'.extensionsFor point) := by
  obtain ⟨before, after, split, split'⟩ := inserted.records
  have bumped : ∀ records : List Record, (records.map (Record.bump n)).filter (·.point == point) =
      (records.filter (·.point == point)).map (Record.bump n) := fun _ => List.filter_map
  let here := r.records.filter (·.point == point)
  have sorted : (here.mergeSort Record.le).map (Record.bump n) =
      (here.map (Record.bump n)).mergeSort Record.le :=
    List.map_mergeSort fun a _ b _ => (Record.le_bump n a b).symm
  by_cases at' : x.point = point
  · have records : r'.records.filter (·.point == point) =
        (before.filter (·.point == point)).map (Record.bump n) ++
          x :: (after.filter (·.point == point)).map (Record.bump n) := by
      rw [split', List.filter_append, List.filter_cons, if_pos (beq_iff_eq.mpr at'), bumped, bumped]
    have perm : (r'.extensionsFor point).Perm (x :: here.map (Record.bump n)) := by
      rw [extensionsFor, records]
      apply (List.mergeSort_perm _ _).trans
      apply List.perm_middle.trans
      rw [← List.map_append, ← List.filter_append, ← split]
    obtain ⟨front, back, order⟩ := List.append_of_mem (perm.mem_iff.mpr List.mem_cons_self)
    -- Without the new record both lists are sorted and have the same elements, so they are equal.
    have others : (front ++ back).Perm ((here.mergeSort Record.le).map (Record.bump n)) := by
      rw [order] at perm
      rw [sorted]
      exact ((List.perm_middle.symm.trans perm).cons_inv).trans (List.mergeSort_perm _ _).symm
    have increasing : (front ++ back).Pairwise fun a b => a.le b = true := by
      have all : (r'.extensionsFor point).Pairwise fun a b => a.le b = true :=
        List.pairwise_mergeSort Record.le_trans Record.le_total _
      rw [order] at all
      exact all.sublist (List.Sublist.append_left (List.sublist_cons_self x back) front)
    have equal : front ++ back = (here.mergeSort Record.le).map (Record.bump n) := by
      apply List.Perm.eq_of_pairwise _ increasing _ others
      · intro a b first second least greatest
        obtain ⟨a, among, rfl⟩ := List.mem_map.mp (others.mem_iff.mp first)
        obtain ⟨b, among', rfl⟩ := List.mem_map.mp second
        have inside : ∀ c ∈ here.mergeSort Record.le, c ∈ r.records := fun c member =>
          (List.mem_filter.mp (List.mem_mergeSort.mp member)).1
        rw [inserted.eq_of_sequence_bump (inside a among) (inside b among')
          (Record.sequence_eq_of_le least greatest)]
      · rw [sorted]
        exact List.pairwise_mergeSort Record.le_trans Record.le_total _
    obtain ⟨front', back', split, rfl, rfl⟩ := List.map_eq_append_iff.mp equal.symm
    rw [order, show r.extensionsFor point = front' ++ back' from split]
    exact (Padded.map_right _ front').append (.skip rfl (Padded.map_right _ back'))
  · have records : r'.records.filter (·.point == point) = here.map (Record.bump n) := by
      rw [split', List.filter_append, List.filter_cons, if_neg (mt beq_iff_eq.mp at'), bumped, bumped,
        ← List.map_append, ← List.filter_append, ← split]
    rw [extensionsFor, extensionsFor, records, ← sorted]
    exact Padded.map_right _ _

/-- A registration that is not for the identity of the new extension fails in both registries or in
none. -/
theorem enlist {g : Registration} (other : g.point = x.point → g.id ≠ x.id) :
    (∃ e, r.enlist g = .error e ∧ r'.enlist g = .error e) ∨
      ∃ q q', r.enlist g = .ok q ∧ r'.enlist g = .ok q' ∧ Inserted n x q q' := by
  obtain ⟨before, after, split, split'⟩ := inserted.records
  have taken : r'.isTaken g.point g.id = r.isTaken g.point g.id := by
    have here : (x.point == g.point && x.id == g.id) = false := by
      rw [Bool.and_eq_false_imp]
      intro at'
      rw [beq_eq_false_iff_ne]
      exact (other (beq_iff_eq.mp at').symm).symm
    simp only [isTaken, split, split', List.any_append, List.any_cons, List.any_map, here,
      Bool.false_or]
    rfl
  rw [enlist_eq, enlist_eq, taken]
  split
  · exact Or.inl ⟨_, rfl, rfl⟩
  split
  · exact Or.inl ⟨_, rfl, rfl⟩
  refine Or.inr ⟨_, _, rfl, rfl, ?_⟩
  have later : g.record r'.records.length = (g.record r.records.length).bump n := by
    have length : r'.records.length = r.records.length + 1 := by
      rw [split, split']
      simp only [List.length_append, List.length_cons, List.length_map]
      omega
    have inside : ¬(g.record r.records.length).sequence < n := Nat.not_lt.mpr inserted.inside
    rw [Record.bump, length, if_neg inside]
    rfl
  constructor
  · rw [List.length_append]
    exact Nat.le_add_right_of_le inserted.inside
  · rw [List.map_append, inserted.numbered, List.length_append, List.length_singleton,
      List.range_succ]
    rfl
  · refine ⟨before, after ++ [g.record r.records.length], ?_, ?_⟩
    · dsimp only
      rw [split, List.append_assoc]
    · dsimp only
      rw [later, split', List.map_append, List.append_assoc, List.cons_append]
      rfl

theorem enlistAll {gs : List Registration} (other : ∀ g ∈ gs, g.point = x.point → g.id ≠ x.id) :
    (∃ e, r.enlistAll gs = .error e ∧ r'.enlistAll gs = .error e) ∨
      ∃ q q', r.enlistAll gs = .ok q ∧ r'.enlistAll gs = .ok q' ∧ Inserted n x q q' := by
  induction gs generalizing r r' with
  | nil => exact Or.inr ⟨r, r', rfl, rfl, inserted⟩
  | cons g rest ih =>
      rw [List.forall_mem_cons] at other
      rcases inserted.enlist other.1 with ⟨e, first, first'⟩ | ⟨q, q', first, first', inserted⟩
      · refine Or.inl ⟨e, ?_, ?_⟩
        · rw [Registry.enlistAll, List.foldlM_cons, first]
          rfl
        · rw [Registry.enlistAll, List.foldlM_cons, first']
          rfl
      · have here : r.enlistAll (g :: rest) = q.enlistAll rest := by
          rw [Registry.enlistAll, List.foldlM_cons, first]
          rfl
        have here' : r'.enlistAll (g :: rest) = q'.enlistAll rest := by
          rw [Registry.enlistAll, List.foldlM_cons, first']
          rfl
        rw [here, here']
        exact ih inserted other.2

end Inserted

/-- Records have numbers in order, and each stands for one of the registrations. -/
structure RecordsOf (r : Registry) (gs : List Registration) : Prop where
  numbered : r.records.map Record.sequence = List.range r.records.length
  registered : ∀ record ∈ r.records, ∃ g ∈ gs, record.point = g.point ∧ record.id = g.id

/-- A registration that succeeds adds its record. -/
theorem RecordsOf.enlist {r q : Registry} {gs : List Registration} (records : RecordsOf r gs)
    {g : Registration} (enlisted : r.enlist g = .ok q) : RecordsOf q (gs ++ [g]) := by
  rw [enlist_eq] at enlisted
  split at enlisted
  · cases enlisted
  split at enlisted
  · cases enlisted
  rename_i own _
  obtain rfl := Except.ok.inj enlisted
  constructor
  · rw [List.map_append, records.numbered, List.length_append, List.length_singleton,
      List.range_succ]
    rfl
  · intro record member
    rcases List.mem_append.mp member with old | new
    · obtain ⟨h, among, same⟩ := records.registered record old
      exact ⟨h, List.mem_append_left _ among, same⟩
    · obtain rfl := List.mem_singleton.mp new
      exact ⟨g, List.mem_append_right _ (List.mem_singleton_self g), not_not.mp own, rfl⟩

/-- So do several of them, in order. -/
theorem RecordsOf.enlistAll {r q : Registry} {gs hs : List Registration} (records : RecordsOf r gs)
    (enlisted : r.enlistAll hs = .ok q) : RecordsOf q (gs ++ hs) := by
  induction hs generalizing r gs with
  | nil =>
      obtain rfl := Except.ok.inj enlisted
      rwa [List.append_nil]
  | cons g rest ih =>
      rw [Registry.enlistAll, List.foldlM_cons] at enlisted
      cases first : r.enlist g with
      | error e =>
          rw [first] at enlisted
          cases enlisted
      | ok p =>
          rw [first] at enlisted
          have later := ih (records.enlist first) enlisted
          rwa [List.append_assoc] at later

/-- An identity that none of the registrations has is free. -/
theorem RecordsOf.isTaken_eq_false {r : Registry} {gs : List Registration} (records : RecordsOf r gs)
    {g : Registration} (fresh : ∀ h ∈ gs, h.point = g.point → h.id ≠ g.id) :
    r.isTaken g.point g.id = false := by
  rw [isTaken, List.any_eq_false]
  intro record member both
  obtain ⟨at', same⟩ := Bool.and_eq_true_iff.mp both
  obtain ⟨h, among, point, id⟩ := records.registered record member
  exact fresh h among (point.symm.trans (beq_iff_eq.mp at')) (id.symm.trans (beq_iff_eq.mp same))

/-- A record that is put behind all others is inserted at the end. -/
theorem RecordsOf.inserted {r : Registry} {gs : List Registration} (records : RecordsOf r gs)
    (x : Record) : Inserted r.records.length x r { r with records := r.records ++ [x] } := by
  have small : ∀ record ∈ r.records, record.sequence < r.records.length := by
    intro record member
    have inside := List.mem_map_of_mem (f := Record.sequence) member
    rwa [records.numbered, List.mem_range] at inside
  refine ⟨Nat.le_refl _, records.numbered, r.records, [], (List.append_nil _).symm, ?_⟩
  have same : r.records.map (Record.bump r.records.length) = r.records :=
    (List.map_congr_left fun record member => Record.bump_eq_self (small record member)).trans
      (List.map_id _)
  rw [same]
  rfl

/-- With one more registration somewhere in between, registering fails in the same way or gives a
registry with one more record. -/
theorem enlistAll_insert {before after : List Registration} {extra : Registration}
    (own : extra.extension.point = extra.point)
    (fresh : ∀ g ∈ before ++ after, g.point = extra.point → g.id ≠ extra.id) :
    (∃ e, empty.enlistAll (before ++ after) = .error e ∧
      empty.enlistAll (before ++ extra :: after) = .error e) ∨
    ∃ n r r', empty.enlistAll (before ++ after) = .ok r ∧
      empty.enlistAll (before ++ extra :: after) = .ok r' ∧ Inserted n (extra.record n) r r' := by
  rw [enlistAll, enlistAll, List.foldlM_append, List.foldlM_append]
  cases first : before.foldlM enlist empty with
  | error e => exact Or.inl ⟨e, rfl, rfl⟩
  | ok r =>
      have records : RecordsOf r ([] ++ before) :=
        RecordsOf.enlistAll ⟨rfl, fun _ member => absurd member List.not_mem_nil⟩ first
      have free : r.isTaken extra.point extra.id = false :=
        records.isTaken_eq_false fun g among => fresh g (List.mem_append_left _ among)
      have enlisted : r.enlist extra =
          .ok { r with records := r.records ++ [extra.record r.records.length] } := by
        rw [enlist_eq, if_neg (not_not.mpr own), free, if_neg Bool.false_ne_true]
      have others : ∀ g ∈ after, g.point = (extra.record r.records.length).point →
          g.id ≠ (extra.record r.records.length).id := by
        intro g member at'
        exact fresh g (List.mem_append_right _ member) (at'.trans own)
      -- The new record stands at the end now; what is enlisted behind it leaves it in its place.
      rcases (records.inserted _).enlistAll others with ⟨e, failed, failed'⟩ | ⟨q, q', ended, ended', inserted⟩
      · refine Or.inl ⟨e, failed, ?_⟩
        show List.foldlM enlist r (extra :: after) = _
        rw [List.foldlM_cons, enlisted]
        exact failed'
      · refine Or.inr ⟨r.records.length, q, q', ended, ?_, inserted⟩
        show List.foldlM enlist r (extra :: after) = _
        rw [List.foldlM_cons, enlisted]
        exact ended'

end Registry

end StagedCompiler
