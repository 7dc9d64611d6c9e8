import StagedCompiler.Proofs.Lowering.PlanRuns
import StagedCompiler.Proofs.Lowering.Preservation
import StagedCompiler.Proofs.Module.BottomUp
import StagedCompiler.Proofs.Source.Numbering

/-!
# The name of a unit

The root of a module names the unit, and artifacts take their name from it.  The module that is built of
a unit has the unit's name, the host's passes and compaction keep it, and a plan keeps it if the passes
of plugins do.
-/

namespace StagedCompiler

open Source (bind_eq_ok)

namespace Module

theorem name_of_kind? {m : Module} {name : String} (isModule : m.kind? m.root = some (.module name)) :
    m.name = .ok name := by
  obtain ⟨n, found, kind⟩ := Option.map_eq_some_iff.mp isModule
  have node : m.node m.root = .ok n := by rw [Module.node, found]
  rw [Module.name, node]
  simp only [bind, Except.bind, kind]
  rfl

/-- A verified module is named by the topmost node of its tree. -/
theorem Verified.name_eq {m : Module} {D : Descriptor.Table} {t : Numbered} {name : String}
    (verified : m.Verified D t) (isModule : t.kind = .module name) : m.name = .ok name := by
  apply name_of_kind?
  rw [← verified.root, verified.held.kind?_id, isModule]

theorem name_ofTree {tree : Tree} {b : Bindings} {D : Descriptor.Table} {m : Module}
    (built : ofTree tree b D = .ok m) : m.name = .ok tree.unit ∧ m.verify D = .ok () := by
  obtain ⟨o, outline, rfl, verified⟩ := ofTree_eq_ok_iff.mp built
  obtain ⟨items, _, made⟩ := bind_eq_ok outline
  obtain rfl := Except.ok.inj made
  refine ⟨name_of_kind? ?_, verified⟩
  have held := (holds_toModule (.node (.module tree.unit) none .unit
    [.node (.file tree.unit) none .unit items])).kind?_id
  rwa [Outline.id_number] at held

end Module

namespace Extension

/-- A pass that leaves the name of a verified module alone when it succeeds. -/
def Pass.KeepsName (pass : Pass) : Prop :=
  ∀ context m m', m.verify context.descriptors = .ok () → pass.run context m = { module := m' } →
    m'.verify context.descriptors = .ok () → m'.name = m.name

end Extension

namespace Lowering

open StagedCompiler.Module

theorem keepsName_of_stands {m m' : Module} {D : Descriptor.Table} {t t' : Numbered}
    (verified : m.Verified D t) (verified' : m'.Verified D t')
    (stands : Kind.StandsFor t.kind t'.kind) : m'.name = m.name := by
  obtain ⟨name, isModule⟩ := verified.isModule
  have isModule' : t'.kind = .module name := by
    rcases stands with same | ⟨expression, _⟩
    · exact same.trans isModule
    · rw [isModule] at expression
      cases expression
  rw [verified.name_eq isModule, verified'.name_eq isModule']

/-- Passes of the host keep names. -/
theorem keepsName_of_host {pass : Extension.Pass} (host : pass ∈ hostPasses .native) :
    pass.KeepsName := by
  intro context m m' verified ran _
  obtain ⟨t, verified⟩ := verify_eq_ok_iff.mp verified
  simp only [hostPasses, List.mem_cons, List.not_mem_nil, or_false] at host
  rcases host with rfl | rfl | rfl
  · obtain ⟨left, ended, verified', _⟩ := foldConstants_rebuilds verified context
    obtain rfl : left = m' := congrArg (·.module) (ended.symm.trans ran)
    exact keepsName_of_stands verified verified' (foldRule_faithful.kind_rebuild t)
  · obtain ⟨left, ended, verified', _⟩ := eliminateDeadCode_rebuilds verified context
    obtain rfl : left = m' := congrArg (·.module) (ended.symm.trans ran)
    exact keepsName_of_stands verified verified' (pruneRule_faithful.kind_rebuild t)
  · obtain ⟨left, ended, verified', _⟩ := flattenBlocks_rebuilds verified context
    obtain rfl : left = m' := congrArg (·.module) (ended.symm.trans ran)
    exact keepsName_of_stands verified verified' (flattenRule_faithful.kind_rebuild t)

theorem name_compacted {m : Module} {D : Descriptor.Table} (verified : m.verify D = .ok ()) :
    m.compacted.name = m.name := by
  obtain ⟨t, verified⟩ := verify_eq_ok_iff.mp verified
  apply keepsName_of_stands verified verified.compacted
  rcases t with ⟨i, k, d, ty, cs⟩
  rw [Numbered.relabel_node]
  exact Kind.StandsFor.refl k

namespace Plan

theorem PassesAll.name_eq {target : Target} {D : Descriptor.Table} {steps : List Step}
    {m last : Module} (passes : PassesAll target D steps m last) (verified : m.verify D = .ok ())
    (keep : ∀ step ∈ steps, step.pass.KeepsName) : last.name = m.name := by
  induction passes with
  | nil => rfl
  | cons first _ ih =>
      rw [List.forall_mem_cons] at keep
      rw [ih first.2 keep.2]
      exact keep.1 _ _ _ verified first.1 first.2

/-- A plan keeps the name of a verified module if its passes do. -/
theorem name_of_run {plan : Plan} {D : Descriptor.Table} {m lowered : Module}
    (verified : m.verify D = .ok ()) (keep : ∀ step ∈ plan.steps, step.pass.KeepsName)
    (ran : plan.run m D = (.ok (), lowered)) : lowered.name = m.name := by
  rcases passesAll_or_fails plan.target D plan.steps m with
    ⟨last, passes⟩ | ⟨before, step, after, reached, fault, left, split, passes, fails⟩
  · rw [run_of_passesAll passes] at ran
    obtain rfl := (Prod.mk.inj ran).2
    rw [name_compacted (passes.verify_eq_ok verified), passes.name_eq verified keep]
  · have failed := run_of_fails passes fails after
    rw [← split, show (⟨plan.target, plan.steps⟩ : Plan) = plan from rfl, ran] at failed
    cases failed

end Plan

end Lowering

namespace Artifact

theorem mapError_eq_ok {ε ε' α : Type} {f : ε → ε'} {x : Except ε α} {a : α}
    (ok : x.mapError f = .ok a) : x = .ok a := by
  cases x with
  | error e => cases ok
  | ok b => exact congrArg Except.ok (Except.ok.inj ok)

/-- The shape of an artifact for a target. -/
def Suits (a : Artifact) : Target → Prop
  | .native => ∃ text, a = .listing a.unit text
  | .bundle => ∃ json, a = .bundle a.unit json

/-- An artifact suits its target, and its name is that of the module. -/
theorem generate_eq_ok {target : Target} {m : Module} {D : Descriptor.Table} {a : Artifact}
    (made : generate target m D = .ok a) : m.name = .ok a.unit ∧ a.Suits target := by
  cases target with
  | native =>
      obtain ⟨listing, listed, made⟩ := bind_eq_ok made
      obtain ⟨unit, named, listed⟩ := bind_eq_ok listed
      obtain ⟨root, _, listed⟩ := bind_eq_ok listed
      obtain ⟨items, _, listed⟩ := bind_eq_ok listed
      obtain rfl := Except.ok.inj listed
      obtain rfl := Except.ok.inj made
      exact ⟨mapError_eq_ok named, _, rfl⟩
  | bundle =>
      obtain ⟨unit, named, made⟩ := bind_eq_ok made
      obtain rfl := Except.ok.inj made
      exact ⟨mapError_eq_ok named, _, rfl⟩

end Artifact

end StagedCompiler
