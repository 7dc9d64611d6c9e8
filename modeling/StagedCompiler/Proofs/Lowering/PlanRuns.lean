import StagedCompiler.Artifact.Basic
import StagedCompiler.Lowering.Plan
import StagedCompiler.Proofs.Listing.Emission
import StagedCompiler.Proofs.Module.Canonical

/-!
# Runs of a plan

A pass is any function from modules to modules that may stop before its end, and nothing is assumed
about the passes of a plan.  `Passes` and `Fails` say what can come of one pass; they exclude each other
and one of them holds (`runStep_cases`).  A run goes on as long as passes succeed
(`runSteps_append`), so it ends in the compaction of what the last pass left behind, or with the fault
of the first pass that failed.

Verification behind every pass is enough for the backends: the compaction of a verified module is the
layout of its outline, which is verified again and has a listing (`Verified.delivered`).
-/

namespace StagedCompiler.Lowering.Plan

open StagedCompiler.Module

/-- A pass comes to its end, and what it leaves behind verifies. -/
def Passes (target : Target) (descriptors : Descriptor.Table) (step : Step) (m m' : Module) : Prop :=
  step.pass.run ⟨descriptors, step.id, target⟩ m = { module := m' } ∧ m'.verify descriptors = .ok ()

/-- A pass fails with a fault that names it: it aborts, it panics or it leaves a module behind that
does not verify. -/
inductive Fails (target : Target) (descriptors : Descriptor.Table) (step : Step) (m : Module) :
    Fault → Module → Prop
  | aborted {message : String} {m' : Module} :
    step.pass.run ⟨descriptors, step.id, target⟩ m = ⟨m', some (.aborted message)⟩ →
    Fails target descriptors step m (.passAborted step.id message) m'
  | panicked {panic : Panic} {m' : Module} :
    step.pass.run ⟨descriptors, step.id, target⟩ m = ⟨m', some (.panicked panic)⟩ →
    Fails target descriptors step m (.passPanicked step.id panic.message) m'
  | malformed {violation : Violation} {m' : Module} :
    step.pass.run ⟨descriptors, step.id, target⟩ m = { module := m' } →
    m'.verify descriptors = .error violation →
    Fails target descriptors step m (.malformedIr step.id violation) m'

/-- All passes succeed, each on what the one before it left behind. -/
inductive PassesAll (target : Target) (descriptors : Descriptor.Table) :
    List Step → Module → Module → Prop
  | nil {m : Module} : PassesAll target descriptors [] m m
  | cons {step : Step} {rest : List Step} {m m' last : Module} :
    Passes target descriptors step m m' → PassesAll target descriptors rest m' last →
    PassesAll target descriptors (step :: rest) m last

section Runs

variable {target : Target} {descriptors : Descriptor.Table} {step : Step} {steps : List Step}
  {m m' reached left last : Module} {fault : Fault}

theorem runStep_of_passes (passes : Passes target descriptors step m m') :
    runStep target descriptors step m = (.ok (), m') := by
  obtain ⟨ran, accepted⟩ := passes
  simp only [runStep, ran, accepted]

theorem runStep_of_fails (fails : Fails target descriptors step m fault m') :
    runStep target descriptors step m = (.error fault, m') := by
  cases fails with
  | aborted ran => simp only [runStep, ran, stopFault]
  | panicked ran => simp only [runStep, ran, stopFault]
  | malformed ran refused => simp only [runStep, ran, refused]

/-- A pass succeeds or fails. -/
theorem runStep_cases (target : Target) (descriptors : Descriptor.Table) (step : Step) (m : Module) :
    (∃ m', Passes target descriptors step m m') ∨
      ∃ fault m', Fails target descriptors step m fault m' := by
  rcases ran : step.pass.run ⟨descriptors, step.id, target⟩ m with ⟨m', stop⟩
  cases stop with
  | some stop =>
      cases stop with
      | aborted message => exact Or.inr ⟨_, m', .aborted ran⟩
      | panicked panic => exact Or.inr ⟨_, m', .panicked ran⟩
  | none =>
      cases verified : m'.verify descriptors with
      | error violation => exact Or.inr ⟨_, m', .malformed ran verified⟩
      | ok _ => exact Or.inl ⟨m', ran, verified⟩

/-- Behind passes that succeed a run goes on with the rest. -/
theorem runSteps_append (passes : PassesAll target descriptors steps m reached) (rest : List Step) :
    runSteps target descriptors (steps ++ rest) m = runSteps target descriptors rest reached := by
  induction passes with
  | nil => rfl
  | cons first _ ih =>
      rw [List.cons_append, runSteps, runStep_of_passes first]
      exact ih

/-- All passes of a list succeed, or there is a first one that fails. -/
theorem passesAll_or_fails (target : Target) (descriptors : Descriptor.Table) (steps : List Step)
    (m : Module) :
    (∃ last, PassesAll target descriptors steps m last) ∨
      ∃ before step after reached fault left, steps = before ++ step :: after ∧
        PassesAll target descriptors before m reached ∧
        Fails target descriptors step reached fault left := by
  induction steps generalizing m with
  | nil => exact Or.inl ⟨m, .nil⟩
  | cons step rest ih =>
      rcases runStep_cases target descriptors step m with ⟨m', passes⟩ | ⟨fault, left, fails⟩
      · rcases ih m' with ⟨last, later⟩ | ⟨before, next, after, reached, fault, left, split, later, fails⟩
        · exact Or.inl ⟨last, .cons passes later⟩
        · refine Or.inr ⟨step :: before, next, after, reached, fault, left, ?_, .cons passes later, fails⟩
          rw [split, List.cons_append]
      · exact Or.inr ⟨[], step, rest, m, fault, left, rfl, .nil, fails⟩

theorem run_of_passesAll {plan : Plan}
    (passes : PassesAll plan.target descriptors plan.steps m last) :
    plan.run m descriptors = (.ok (), last.compacted) := by
  have ran := runSteps_append passes []
  rw [List.append_nil] at ran
  simp only [run, ran, runSteps]

/-- A run ends with the first pass that fails, whatever stands behind it. -/
theorem run_of_fails (passes : PassesAll target descriptors steps m reached)
    (fails : Fails target descriptors step reached fault left) (after : List Step) :
    run ⟨target, steps ++ step :: after⟩ m descriptors = (.error fault, left) := by
  have ran : runSteps target descriptors (steps ++ step :: after) m = (.error fault, left) := by
    rw [runSteps_append passes, runSteps, runStep_of_fails fails]
  simp only [run, ran]

/-- What passes are given, and what they leave behind when they succeed, verifies. -/
theorem PassesAll.verify_eq_ok (passes : PassesAll target descriptors steps m last)
    (verified : m.verify descriptors = .ok ()) : last.verify descriptors = .ok () := by
  induction passes with
  | nil => exact verified
  | cons first _ ih => exact ih first.2

end Runs

end StagedCompiler.Lowering.Plan

namespace StagedCompiler.Module

/-- A compacted module is fit for the backends: it verifies, it is numbered in the order of the walk
and both artifacts can be made of it. -/
theorem Verified.delivered {m : Module} {descriptors : Descriptor.Table} {t : Numbered}
    (verified : m.Verified descriptors t) :
    m.compacted.verify descriptors = .ok () ∧ m.compacted.root = 0 ∧
      m.compacted.preorder = List.range m.compacted.size ∧
      (∃ unit text, Artifact.generate .native m.compacted descriptors = .ok (.listing unit text)) ∧
      ∃ unit json, Artifact.generate .bundle m.compacted descriptors = .ok (.bundle unit json) := by
  have compacted := verified.compacted
  refine ⟨verify_eq_ok_iff.mpr ⟨_, compacted⟩, rfl, ?_, ?_, ?_⟩
  · rw [verified.compacted_eq, Outline.preorder_toModule]
  · have listed := compacted.listing_eq
    refine ⟨(Listing.listingOf descriptors (t.relabel t.place).outline).unit,
      (Listing.listingOf descriptors (t.relabel t.place).outline).render, ?_⟩
    unfold Artifact.generate
    simp only [listed, bind, Except.bind]
    rfl
  · obtain ⟨name, isModule⟩ := compacted.isModule
    have named : m.compacted.name = .ok name := by
      rw [Module.name, ← compacted.root, compacted.held.node_id]
      rcases relabelled : t.relabel t.place with ⟨i, k, d, ty, cs⟩
      rw [relabelled] at isModule
      obtain rfl : k = .module name := isModule
      rfl
    refine ⟨name, (m.compacted.bundleJson name descriptors).pretty, ?_⟩
    unfold Artifact.generate
    simp only [named, Except.mapError, bind, Except.bind]
    rfl

end StagedCompiler.Module

namespace StagedCompiler.Lowering.Plan

open StagedCompiler.Module

/-- A run of any plan from a verified module succeeds exactly if all passes do.  Then the module is
the compaction of what the last pass left behind and fit for both backends.  Otherwise the fault and
the module are those of the first pass that failed, no pass behind it matters, and it was given a
verified module. -/
theorem run_delivers_verified (plan : Plan) {m : Module} {descriptors : Descriptor.Table}
    (verified : m.verify descriptors = .ok ()) :
    ((plan.run m descriptors).1 = .ok () ↔
      ∃ last, PassesAll plan.target descriptors plan.steps m last) ∧
    (∀ last, PassesAll plan.target descriptors plan.steps m last → ∃ final,
      plan.run m descriptors = (.ok (), final) ∧ last.compact = .ok final ∧
      final.verify descriptors = .ok () ∧ final.root = 0 ∧
      final.preorder = List.range final.size ∧
      (∃ unit text, Artifact.generate .native final descriptors = .ok (.listing unit text)) ∧
      ∃ unit json, Artifact.generate .bundle final descriptors = .ok (.bundle unit json)) ∧
    ((plan.run m descriptors).1 ≠ .ok () →
      ∃ before step after reached fault left, plan.steps = before ++ step :: after ∧
        PassesAll plan.target descriptors before m reached ∧
        reached.verify descriptors = .ok () ∧
        Fails plan.target descriptors step reached fault left ∧
        plan.run m descriptors = (.error fault, left) ∧
        ∀ after', run ⟨plan.target, before ++ step :: after'⟩ m descriptors = (.error fault, left)) := by
  have ended := passesAll_or_fails plan.target descriptors plan.steps m
  have first : ∀ before step after reached fault left, plan.steps = before ++ step :: after →
      PassesAll plan.target descriptors before m reached →
      Fails plan.target descriptors step reached fault left →
      plan.run m descriptors = (.error fault, left) := by
    intro before step after reached fault left split passes fails
    have ran := run_of_fails passes fails after
    rwa [← split] at ran
  refine ⟨⟨?_, ?_⟩, ?_, ?_⟩
  · intro succeeded
    rcases ended with passes | ⟨before, step, after, reached, fault, left, split, passes, fails⟩
    · exact passes
    · rw [first before step after reached fault left split passes fails] at succeeded
      cases succeeded
  · rintro ⟨last, passes⟩
    rw [run_of_passesAll passes]
  · intro last passes
    obtain ⟨t, held⟩ := verify_eq_ok_iff.mp (passes.verify_eq_ok verified)
    exact ⟨last.compacted, run_of_passesAll passes, held.compact_eq, held.delivered⟩
  · intro failed
    rcases ended with ⟨last, passes⟩ | ⟨before, step, after, reached, fault, left, split, passes, fails⟩
    · rw [run_of_passesAll passes] at failed
      exact absurd rfl failed
    · exact ⟨before, step, after, reached, fault, left, split, passes, passes.verify_eq_ok verified,
        fails, first before step after reached fault left split passes fails, run_of_fails passes fails⟩

/-- A pass that takes the bodies of functions away. -/
def dropBodies : Extension.Pass where
  name := "drop-bodies"
  placement := .after "fold-constants"
  run _ m := { module := ⟨(m.nodes.toList.map fun n =>
    if n.kind.isFunction then { n with children := n.children.dropLast } else n).toArray, m.root⟩ }

/-- The host's pass for a bundle and behind it one that takes the bodies of functions away. -/
def droppingPlan : Plan :=
  ⟨.bundle, [⟨"host/fold-constants", foldConstants⟩, ⟨"extra/drop-bodies", dropBodies⟩]⟩

/-- A module with one function, which does nothing. -/
def idle : Module :=
  (Outline.node (.module "main") none .unit [
    .node (.file "main") none .unit [
      .node (.function "f") (some 0) .unit [.node .block none .unit []]]]).toModule

/-- The descriptor of the function of `idle`. -/
def idleTable : Descriptor.Table :=
  ⟨#[{ name := "f", kind := .function, origin := .source 0 }]⟩

theorem run_delivers_verified_droppingPlan :
    idle.verify idleTable = .ok () ∧
      ∃ before step after reached fault left, droppingPlan.steps = before ++ step :: after ∧
        PassesAll .bundle idleTable before idle reached ∧
        Fails .bundle idleTable step reached fault left ∧
        droppingPlan.run idle idleTable = (.error fault, left) ∧
        fault = .malformedIr "extra/drop-bodies"
          (.arity 2 "function" "params and a trailing block" 0) := by
  have verified : idle.verify idleTable = .ok () := by decide +kernel
  have ran : (droppingPlan.run idle idleTable).1 = .error (.malformedIr "extra/drop-bodies"
      (.arity 2 "function" "params and a trailing block" 0)) := by decide +kernel
  have failed : (droppingPlan.run idle idleTable).1 ≠ .ok () := by
    rw [ran]
    exact fun same => nomatch same
  obtain ⟨before, step, after, reached, fault, left, split, passes, -, fails, ended, -⟩ :=
    (run_delivers_verified droppingPlan verified).2.2 failed
  refine ⟨verified, before, step, after, reached, fault, left, split, passes, fails, ended, ?_⟩
  rw [ended] at ran
  exact Except.error.inj ran

end StagedCompiler.Lowering.Plan
