import StagedCompiler.Analysis
import StagedCompiler.Proofs.Analysis.Reports
import StagedCompiler.Proofs.Registry.Insertion

/-!
# Resolvers that do not matter

A resolver that never offers a descriptor of the name that it is asked for can stand anywhere among the
others: resolution finds out the same, and only the list of consultations tells the difference.

Two steps `Agree` if they give the same result and leave the same state behind, apart from
consultations.  Asking resolvers is the only place where the two runs differ (`askResolvers_agree`), and
all of resolution agrees because the actions that it is made of do (`Follows.agree`).
-/

namespace StagedCompiler.Resolution

/-- All diagnostics of `s'` that are not from before are the host's. -/
def HostReports (s s' : State) : Prop :=
  ∀ d ∈ s'.diagnostics, d ∈ s.diagnostics ∨ d.reporter = .host

theorem HostReports.of_eq {s s' : State} (same : s'.diagnostics = s.diagnostics) : HostReports s s' :=
  fun _ member => Or.inl (same ▸ member)

/-- The second step does what the first one does, apart from the consultations that it notes, and
reports in the name of the host. -/
structure Agree {α : Type} (x y : Step α) : Prop where
  same : ∀ s c, ∃ c', y.run { s with consultations := c } =
    ((x.run s).1, { (x.run s).2 with consultations := c' })
  host : ∀ s, HostReports s (x.run s).2

namespace Agree

variable {α β : Type}

theorem ret (a : α) : Agree (pure a) (pure a) := ⟨fun _ c => ⟨c, rfl⟩, fun _ => .of_eq rfl⟩

/-- Of what follows only the results that there are matter. -/
theorem behind {x y : Step α} {f g : α → Step β} (first : Agree x y)
    (later : ∀ s, Agree (f (x.run s).1) (g (x.run s).1)) : Agree (x >>= f) (y >>= g) where
  same s c := by
    obtain ⟨c', ran⟩ := first.same s c
    obtain ⟨c'', ran'⟩ := (later s).same (x.run s).2 c'
    refine ⟨c'', ?_⟩
    rw [StateT.run_bind, ran]
    exact ran'
  host s d member := by
    rcases (later s).host (x.run s).2 d member with early | host
    · exact first.host s d early
    · exact Or.inr host

/-- Steps in sequence agree if both parts do. -/
theorem andThen {x y : Step α} {f g : α → Step β} (first : Agree x y)
    (later : ∀ a, Agree (f a) (g a)) : Agree (x >>= f) (y >>= g) :=
  first.behind fun _ => later _

/-- A step that reads the state agrees if what it goes on with has no use for the consultations. -/
theorem reads {f g : State → Step β} (later : ∀ s c, Agree (f s) (g { s with consultations := c })) :
    Agree (get >>= f) (get >>= g) :=
  ⟨fun s c => (later s c).same s c, fun s => (later s s.consultations).host s⟩

/-- Steps that only write agree if they write the same but for consultations. -/
theorem writes {f g : State → State}
    (same : ∀ s c, ∃ c', g { s with consultations := c } = { f s with consultations := c' })
    (quiet : ∀ s, (f s).diagnostics = s.diagnostics := by intro _; rfl) :
    Agree (modify f) (modify g) where
  same s c := by
    obtain ⟨c', same⟩ := same s c
    exact ⟨c', congrArg (Prod.mk PUnit.unit) same⟩
  host s := .of_eq (quiet s)

theorem ite {c : Prop} [Decidable c] {x x' y y' : Step α} (first : Agree x x') (second : Agree y y') :
    Agree (if c then x else y) (if c then x' else y') := by
  split
  · exact first
  · exact second

end Agree

/-! ## Asking resolvers -/

/-- A resolver that never offers what it is asked for. -/
def Useless (resolver : Extension.Resolver) : Prop :=
  ∀ request, resolver.resolve request = .ok none ∨
    ∃ d, resolver.resolve request = .ok (some d) ∧ d.name ≠ request.name

/-- The same resolver, registered with another number. -/
def SameResolver (a b : Registry.Record × Extension.Resolver) : Prop :=
  b.1.id = a.1.id ∧ b.1.extension = a.1.extension ∧ b.2 = a.2

/-- The same surroundings, with useless resolvers among the others. -/
structure Likewise (ctx ctx' : Context) : Prop where
  unit : ctx'.unit = ctx.unit
  globals : ctx'.globals = ctx.globals
  resolvers : Padded SameResolver (fun b => Useless b.2) ctx.resolvers ctx'.resolvers

section Primitives

variable {ctx ctx' : Context} (like : Likewise ctx ctx') (site : Source.Site)

include like in
/-- Both runs report the same. -/
theorem report_agree (code message : String) :
    Agree (report ctx code site message) (report ctx' code site message) where
  same s c := by
    unfold report
    rw [like.unit]
    exact ⟨c, rfl⟩
  host s d member := by
    rcases List.mem_append.mp member with early | new
    · exact Or.inl early
    · rw [List.mem_singleton.mp new]
      exact Or.inr rfl

theorem bind_agree (b : Binding) : Agree (bind site b) (bind site b) :=
  Agree.writes fun _ c => ⟨c, rfl⟩

theorem flag_agree (flags : Binding.Flags) : Agree (flag site flags) (flag site flags) :=
  Agree.writes fun _ c => ⟨c, rfl⟩

theorem describe_agree (d : Descriptor) : Agree (describe d) (describe d) :=
  ⟨fun _ c => ⟨c, rfl⟩, fun _ => .of_eq rfl⟩

end Primitives

/-- A useless resolver is asked, and then the next one. -/
theorem askResolvers_useless (ctx : Context) {record : Registry.Record}
    {resolver : Extension.Resolver} (useless : Useless resolver)
    (rest : List (Registry.Record × Extension.Resolver)) (name : String) (kind : ReferenceKind)
    (s : State) : ∃ c', (askResolvers ctx name kind ((record, resolver) :: rest)).run s =
      (askResolvers ctx name kind rest).run { s with consultations := c' } := by
  refine ⟨s.consultations ++ [⟨record.id, name, kind, s.descriptors.size⟩], ?_⟩
  rcases useless ⟨name, kind, s.descriptors⟩ with declined | ⟨d, offered, other⟩
  · have answer : record.answer (resolver.resolve ⟨name, kind, s.descriptors⟩) = .ok none := by
      rw [declined]
      rfl
    simp only [askResolvers, StateT.run_bind, StateT.run_get, StateT.run_modify, pure_bind, answer]
  · have answer : record.answer (resolver.resolve ⟨name, kind, s.descriptors⟩) = .ok (some d) := by
      rw [offered]
      rfl
    simp only [askResolvers, StateT.run_bind, StateT.run_get, StateT.run_modify, pure_bind, answer,
      if_pos other]

section Asking

variable {ctx ctx' : Context} (like : Likewise ctx ctx')

/-- Useless resolvers are passed over, and the others are asked the same and answer the same. -/
theorem askResolvers_agree (globals : ctx'.globals = ctx.globals)
    {rs rs' : List (Registry.Record × Extension.Resolver)}
    (same : Padded SameResolver (fun b => Useless b.2) rs rs') (name : String) (kind : ReferenceKind) :
    Agree (askResolvers ctx name kind rs) (askResolvers ctx' name kind rs') := by
  induction same with
  | nil => exact Agree.ret ()
  | skip useless _ ih =>
      refine ⟨fun s c => ?_, ih.host⟩
      obtain ⟨c', skipped⟩ := askResolvers_useless ctx' useless _ name kind
        { s with consultations := c }
      rw [skipped]
      exact ih.same s c'
  | keep here _ ih =>
      rename_i a b rs rs' _
      rcases a with ⟨record, resolver⟩
      rcases b with ⟨record', resolver'⟩
      obtain ⟨id, extension, same⟩ := here
      obtain rfl : resolver' = resolver := same
      have answer : ∀ request, record'.answer (resolver'.resolve request) =
          record.answer (resolver'.resolve request) := by
        intro request
        cases resolver'.resolve request with
        | ok offer => rfl
        | error panic =>
            have id : record'.id = record.id := id
            have extension : record'.extension = record.extension := extension
            simp only [Registry.Record.answer, Registry.Record.point, id, extension]
      refine Agree.reads fun s c => Agree.andThen (Agree.writes fun _ _ => ⟨_, rfl⟩) fun _ => ?_
      rw [answer]
      cases record.answer (resolver'.resolve ⟨name, kind, s.descriptors⟩) with
      | error fault => exact Agree.writes fun _ c => ⟨c, rfl⟩
      | ok offer =>
          cases offer with
          | none => exact ih
          | some offer =>
              refine Agree.ite ih ?_
              rw [globals]
              exact Agree.ite (Agree.ret ())
                (Agree.andThen (describe_agree offer) fun _ => Agree.writes fun _ c => ⟨c, rfl⟩)

include like

/-- Both runs find the same when they look up a name, asked before or not. -/
theorem lookupGlobal_agree (name : String) (kind : ReferenceKind) :
    Agree (lookupGlobal ctx name kind) (lookupGlobal ctx' name kind) := by
  have consulted : Agree (consult ctx name kind) (consult ctx' name kind) :=
    Agree.reads fun s c => Agree.ite (Agree.ret ()) (Agree.andThen (Agree.writes fun _ c => ⟨c, rfl⟩)
      fun _ => askResolvers_agree like.globals like.resolvers name kind)
  unfold lookupGlobal
  rw [like.globals]
  exact consulted.andThen fun _ => Agree.reads fun _ _ => Agree.ret _

end Asking

/-! ## All of resolution -/

section Walk

variable {ctx ctx' : Context} (like : Likewise ctx ctx')
include like

/-- Both runs complain about the same. -/
theorem complain_agree (complaints : List Complaint) :
    Agree (complain ctx complaints) (complain ctx' complaints) := by
  induction complaints with
  | nil => exact Agree.ret ()
  | cons c rest ih =>
      refine (report_agree like c.site c.code c.message).andThen fun _ => ?_
      exact Agree.ite ((flag_agree c.site mismatch).andThen fun _ => ih) ih

/-- What follows tasks comes to the same in both surroundings. -/
theorem Follows.agree {n : Nat} {α : Type} {tasks : List Task} {x : Context → Step α}
    {post : α → Prop} (follows : Follows n tasks x post) : Agree (x ctx) (x ctx') := by
  induction follows with
  | pure => exact Agree.ret _
  | bind first _ agree next => exact agree.behind fun s => next _ (first.result ctx s)
  | look name kind => exact lookupGlobal_agree like name kind
  | judge => exact Agree.reads fun _ _ => (complain_agree like _).andThen fun _ => Agree.ret _
  | mark site => exact (bind_agree site _).andThen fun _ => Agree.ret _
  | declare site => exact (describe_agree _).andThen fun _ => (bind_agree site _).andThen fun _ => Agree.ret _
  | sign site => exact (Agree.writes fun _ c => ⟨c, rfl⟩).andThen fun _ => bind_agree site _

end Walk

/-- With useless resolvers among the others, resolution comes to the same, apart from consultations, and
only the host reports. -/
theorem run_agree (tree : Tree) {registry registry' : Registry}
    (resolvers : Padded SameResolver (fun b => Useless b.2) registry.resolvers registry'.resolvers) :
    (∃ c, run tree registry' = { run tree registry with consultations := c }) ∧
      ∀ d ∈ (run tree registry).diagnostics, d.reporter = .host := by
  have like : Likewise ⟨tree.unit, registry.resolvers, itemNames tree.items⟩
    ⟨tree.unit, registry'.resolvers, itemNames tree.items⟩ := ⟨rfl, rfl, resolvers⟩
  have agree := (resolveItems_follows tree.items).agree like
  constructor
  · obtain ⟨c, same⟩ := agree.same
      { descriptors := itemDescriptors tree.items, bindings := .ofSize tree.size } []
    exact ⟨c, congrArg Prod.snd same⟩
  · intro d member
    rcases agree.host { descriptors := itemDescriptors tree.items, bindings := .ofSize tree.size } d
      member with early | host
    · cases early
    · exact host

end StagedCompiler.Resolution
