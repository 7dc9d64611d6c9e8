import StagedCompiler.Pipeline.Basic
import StagedCompiler.Proofs.Accessors.Completeness
import StagedCompiler.Proofs.Analysis.Acceptance
import StagedCompiler.Proofs.Catalog.BuiltIn
import StagedCompiler.Proofs.Lowering.Merging
import StagedCompiler.Proofs.Lowering.PlanRuns
import StagedCompiler.Proofs.Lowering.Preservation
import StagedCompiler.Proofs.Module.LinkedTree

/-!
# Runs with built-in plugins do not fault

What one stage establishes is what the next one asks for.  Resolution links all constructs, so the
bindings of a unit without errors are complete and its module can be built; the module verifies, and
each pass of a built-in plan gives a verified module for a verified module, the one for accessors
because resolvers only offered accessors of fields that the table has; and the compaction of a verified
module has an artifact for both targets.  So every unit of a run is rejected or compiled
(`run_never_faults`).
-/

namespace StagedCompiler

open StagedCompiler.Module (Numbered)
open Source (bind_eq_ok)

/-! ## Analysis -/

namespace Analysis

open Resolution (run Calm itemNames)

/-- Analysis of a unit whose extensions do not give up comes to a decision, and it accepts a unit only
if resolution reported nothing. -/
theorem analyze_decides {tree : Tree} {registry : Registry}
    (numbers : tree.nodes.map Source.Node.id = List.range tree.size)
    (calm : Calm ⟨tree.unit, registry.resolvers, itemNames tree.items⟩)
    (checks : ∃ checked, Checks.runChecks (Checks.invocations tree (run tree registry).bindings
      (run tree registry).descriptors registry) = .ok checked) :
    ∃ log, log.hasErrors = true ∧
        analyze tree registry .empty = ⟨.ok .rejected, log, (run tree registry).consultations⟩ ∨
      log.hasErrors = false ∧ (run tree registry).diagnostics = [] ∧
        analyze tree registry .empty =
          ⟨.ok (.accepted ⟨(run tree registry).bindings, (run tree registry).descriptors⟩), log,
            (run tree registry).consultations⟩ := by
  have links := Resolution.run_links numbers registry
  have errors := Resolution.run_errors tree registry
  generalize ran : run tree registry = s at links errors checks ⊢
  obtain ⟨checked, checks⟩ := checks
  have concluded : conclude tree registry .empty s =
      if Diagnostic.Log.hasErrors ⟨s.diagnostics ++ checked, false⟩ then
        (.ok .rejected, ⟨s.diagnostics ++ checked, false⟩)
      else (.ok (.accepted ⟨s.bindings, s.descriptors⟩), ⟨s.diagnostics ++ checked, true⟩) := by
    simp only [conclude, links.steady.fault calm, checks, Diagnostic.Log.empty, addAll_open,
      List.nil_append, links.freeze_eq, Diagnostic.Log.close]
  unfold analyze
  simp only [ran, concluded]
  split
  · rename_i loud
    exact ⟨_, Or.inl ⟨loud, rfl⟩⟩
  · rename_i quiet
    refine ⟨_, Or.inr ⟨Bool.not_eq_true _ ▸ quiet, ?_, rfl⟩⟩
    have clean : Diagnostic.Log.hasErrors ⟨s.diagnostics, false⟩ = false := by
      unfold Diagnostic.Log.hasErrors at quiet ⊢
      rw [List.any_append, Bool.or_eq_true, not_or] at quiet
      exact Bool.not_eq_true _ ▸ quiet.1
    exact (hasErrors_eq_false_iff errors).mp clean

end Analysis

/-! ## Lowering -/

namespace Lowering.Plan

/-- A plan has passes of the host for its target and passes that the registry holds. -/
theorem mem_steps_of_build {target : Target} {registry : Registry} {plan : Plan}
    (built : build target registry = .ok plan) :
    plan.target = target ∧ ∀ step ∈ plan.steps, step.pass ∈ hostPasses target ∨
      ∃ record, (record, step.pass) ∈ registry.loweringPasses := by
  obtain ⟨anchored, rfl⟩ := build_eq_ok_iff.mp built
  refine ⟨rfl, fun step member => ?_⟩
  obtain ⟨entry, among, rfl⟩ := List.mem_map.mp member
  rw [(merged_perm anchored).mem_iff, List.mem_append] at among
  rcases among with plugin | host
  · obtain ⟨p, placed, rfl⟩ := List.mem_map.mp plugin
    obtain ⟨⟨record, pass⟩, listed, rfl⟩ := List.mem_map.mp placed
    exact Or.inr ⟨record, listed⟩
  · obtain ⟨pass, among, rfl⟩ := List.mem_map.mp host
    exact Or.inl among

theorem hostPasses_subset (target : Target) : hostPasses target ⊆ hostPasses .native := by
  cases target with
  | native => exact List.Subset.refl _
  | bundle => exact List.cons_subset_cons _ (List.nil_subset _)

/-- A pass of the host, or the one that lowers accessors. -/
def Dependable (pass : Extension.Pass) : Prop :=
  pass ∈ hostPasses .native ∨ pass = Accessors.lowerAccessors

section Dependable

variable {D : Descriptor.Table} {m : Module} {t : Numbered} (target : Target)

/-- Such a pass gives a verified module for a verified module. -/
theorem Dependable.passes {step : Step} (dependable : Dependable step.pass)
    (known : Accessors.SubjectsKnown D) (verified : m.Verified D t) :
    ∃ m' t', Passes target D step m m' ∧ m'.Verified D t' := by
  suffices ∃ m' t', step.pass.run ⟨D, step.id, target⟩ m = { module := m' } ∧ m'.Verified D t' by
    obtain ⟨m', t', ran, verified'⟩ := this
    exact ⟨m', t', ⟨ran, Module.verify_eq_ok_iff.mpr ⟨t', verified'⟩⟩, verified'⟩
  rcases dependable with host | accessors
  · simp only [hostPasses, List.mem_cons, List.not_mem_nil, or_false] at host
    rcases host with fold | eliminate | flatten
    · obtain ⟨m', ran, verified', _⟩ := foldConstants_rebuilds verified ⟨D, step.id, target⟩
      exact ⟨m', _, fold ▸ ran, verified'⟩
    · obtain ⟨m', ran, verified', _⟩ := eliminateDeadCode_rebuilds verified ⟨D, step.id, target⟩
      exact ⟨m', _, eliminate ▸ ran, verified'⟩
    · obtain ⟨m', ran, verified', _⟩ := flattenBlocks_rebuilds verified ⟨D, step.id, target⟩
      exact ⟨m', _, flatten ▸ ran, verified'⟩
  · let context : Extension.PassContext := ⟨D, step.id, target⟩
    have verified : m.Verified context.descriptors t := verified
    obtain ⟨m', t', ran, verified', _⟩ := Accessors.lowerAccessors_rewrites verified known
    exact ⟨m', t', accessors ▸ ran, verified'⟩

theorem passesAll_of_dependable {steps : List Step} (dependable : ∀ step ∈ steps, Dependable step.pass)
    (known : Accessors.SubjectsKnown D) (verified : m.Verified D t) :
    ∃ last t', PassesAll target D steps m last ∧ last.Verified D t' := by
  induction steps generalizing m t with
  | nil => exact ⟨m, t, .nil, verified⟩
  | cons step rest ih =>
      rw [List.forall_mem_cons] at dependable
      obtain ⟨m', t', passes, verified'⟩ := dependable.1.passes target known verified
      obtain ⟨last, t'', later, verified''⟩ := ih dependable.2 verified'
      exact ⟨last, t'', .cons passes later, verified''⟩

end Dependable

end Lowering.Plan

/-! ## Stages -/

namespace Pipeline

section Stages

variable {f : Type → Type} [Monad f] [LawfulMonad f] (p : Pipeline) {stage : Stage}
  {rest : List Stage} {u u' : UnitState}

/-- With nobody looking on, a unit that a stage lets through goes on to the next one. -/
theorem runStages_go (ran : stage.run p.registry p.plan u = (.ok .go, u')) :
    p.runStages ([] : List (Observer f)) (stage :: rest) u = p.runStages [] rest u' := by
  simp only [runStages, notify, pure_bind, ran]

theorem runStages_halt (ran : stage.run p.registry p.plan u = (.ok .halt, u')) :
    p.runStages ([] : List (Observer f)) (stage :: rest) u = pure (.ok (), u') := by
  simp only [runStages, notify, pure_bind, ran]

end Stages

/-- How a unit ends without a fault: it is rejected, or all stages succeed one after another. -/
inductive Ends (p : Pipeline) (tree : Tree) : Outcome → Prop
  | rejected : (analyze tree p.registry .empty).outcome = .ok .rejected → Ends p tree .rejected
  | compiled {a : Analysis} {m lowered : Module} {artifact : Artifact} :
    (analyze tree p.registry .empty).outcome = .ok (.accepted a) →
    Module.ofTree tree a.bindings a.descriptors = .ok m →
    p.plan.run m a.descriptors = (.ok (), lowered) →
    Artifact.generate p.target lowered a.descriptors = .ok artifact →
    Ends p tree (.compiled artifact)

section Units

variable {f : Type → Type} [Monad f] [LawfulMonad f] {p : Pipeline} {tree : Tree}

/-- The stages of a unit that is accepted and whose module is built, lowered and emitted. -/
theorem runStages_compiled {log : Diagnostic.Log}
    {consultations : List Resolution.Consultation} {a : Analysis} {m lowered : Module}
    {artifact : Artifact}
    (analyzed : analyze tree p.registry .empty = ⟨.ok (.accepted a), log, consultations⟩)
    (built : Module.ofTree tree a.bindings a.descriptors = .ok m)
    (ran : p.plan.run m a.descriptors = (.ok (), lowered))
    (generated : Artifact.generate p.target lowered a.descriptors = .ok artifact) :
    p.runStages ([] : List (Observer f)) Mode.build.stages { tree := tree } =
      pure (.ok (), ⟨tree, log, some a, some lowered, some artifact⟩) := by
  have analyzed : analyze tree p.registry {} = ⟨.ok (.accepted a), log, consultations⟩ := analyzed
  have first : Stage.analyze.run p.registry p.plan { tree := tree } =
      (.ok .go, ⟨tree, log, some a, none, none⟩) := by
    simp only [Stage.run, analyzed]
  have second : Stage.buildIr.run p.registry p.plan ⟨tree, log, some a, none, none⟩ =
      (.ok .go, ⟨tree, log, some a, some m, none⟩) := by
    simp only [Stage.run, built]
  rw [show Mode.build.stages = [.analyze, .buildIr, .lower, .codegen] from rfl,
    runStages_go p first, runStages_go p second]
  cases target : p.plan.target with
  | bundle =>
      have generated : Artifact.generate .bundle lowered a.descriptors = .ok artifact :=
        target ▸ generated
      refine runStages_halt p ?_
      simp only [Stage.run, ran, target, Stage.emit, generated]
  | native =>
      have third : Stage.lower.run p.registry p.plan ⟨tree, log, some a, some m, none⟩ =
          (.ok .go, ⟨tree, log, some a, some lowered, none⟩) := by
        simp only [Stage.run, ran, target]
      have fourth : Stage.codegen.run p.registry p.plan ⟨tree, log, some a, some lowered, none⟩ =
          (.ok .go, ⟨tree, log, some a, some lowered, some artifact⟩) := by
        simp only [Stage.run, Stage.emit, show p.plan.target = p.target from rfl, generated]
      rw [runStages_go p third, runStages_go p fourth]
      rfl

/-- A unit is rejected or compiled if the registry is built in and the plan is one for it. -/
theorem runUnit_ends (only : p.registry.BuiltInOnly)
    (planned : Lowering.Plan.build p.target p.registry = .ok p.plan)
    (numbers : tree.nodes.map Source.Node.id = List.range tree.size) :
    ∃ report, p.runUnit ([] : List (Observer f)) .build tree = pure report ∧
      report.unit = tree.unit ∧ Ends p tree report.outcome := by
  have links := Resolution.run_links numbers p.registry
  obtain ⟨log, decided⟩ := Analysis.analyze_decides numbers (only.calm rfl) (only.runChecks_eq tree _ _)
  generalize Resolution.run tree p.registry = s at links decided
  rcases decided with ⟨loud, analyzed⟩ | ⟨clean, silent, analyzed⟩
  · have stopped : Stage.analyze.run p.registry p.plan { tree := tree } =
        (.ok .halt, ⟨tree, log, none, none, none⟩) := by
      have analyzed : analyze tree p.registry {} = ⟨.ok .rejected, log, s.consultations⟩ := analyzed
      simp only [Stage.run, analyzed]
    refine ⟨⟨tree.unit, log.sorted, .rejected⟩, ?_, rfl, .rejected (by rw [analyzed])⟩
    rw [runUnit, show Mode.build.stages = .analyze :: [.buildIr, .lower, .codegen] from rfl,
      runStages_halt p stopped, pure_bind]
    simp only [outcome, loud, if_true]
  · obtain ⟨m, t, built, verified⟩ := Module.ofTree_linked silent links.linked
    have known := only.subjectsKnown links.steady.stems rfl
    obtain ⟨_, mem⟩ := Lowering.Plan.mem_steps_of_build planned
    have dependable : ∀ step ∈ p.plan.steps, Lowering.Plan.Dependable step.pass := by
      intro step member
      rcases mem step member with host | ⟨record, listed⟩
      · exact Or.inl (Lowering.Plan.hostPasses_subset p.target host)
      · exact Or.inr (only.loweringPasses_eq listed)
    obtain ⟨last, t', passes, verified'⟩ :=
      Lowering.Plan.passesAll_of_dependable p.plan.target dependable known verified
    have ran := Lowering.Plan.run_of_passesAll passes
    obtain ⟨_, _, _, native, bundle⟩ := verified'.delivered
    have generated : ∃ artifact,
        Artifact.generate p.target last.compacted s.descriptors = .ok artifact := by
      cases p.target with
      | native =>
          obtain ⟨unit, text, listed⟩ := native
          exact ⟨_, listed⟩
      | bundle =>
          obtain ⟨unit, json, bundled⟩ := bundle
          exact ⟨_, bundled⟩
    obtain ⟨artifact, generated⟩ := generated
    have accepted : (analyze tree p.registry .empty).outcome =
        .ok (.accepted ⟨s.bindings, s.descriptors⟩) := by rw [analyzed]
    refine ⟨⟨tree.unit, log.sorted, .compiled artifact⟩, ?_, rfl,
      .compiled accepted built ran generated⟩
    rw [runUnit, runStages_compiled analyzed built ran generated, pure_bind]
    simp only [outcome, clean, Bool.false_eq_true, if_false]

theorem repeatedUnit?_eq_none {units : List Tree} {seen : List String}
    (new : Resolution.NewNames Tree.unit seen units) : repeatedUnit? seen units = none := by
  induction units generalizing seen with
  | nil => rfl
  | cons tree rest ih =>
      obtain ⟨here, later⟩ := Resolution.newNames_cons_iff.mp new
      rw [repeatedUnit?, if_neg fun member => here (List.contains_iff_mem.mp member)]
      exact ih later

/-- Reports are made unit by unit. -/
theorem mapM_runUnit {units : List Tree}
    (each : ∀ tree ∈ units, ∃ report, p.runUnit ([] : List (Observer f)) .build tree = pure report ∧
      report.unit = tree.unit ∧ Ends p tree report.outcome) :
    ∃ reports, units.mapM (p.runUnit ([] : List (Observer f)) .build) = pure reports ∧
      List.Forall₂ (fun tree report => report.unit = tree.unit ∧ Ends p tree report.outcome)
        units reports := by
  induction units with
  | nil => exact ⟨[], rfl, .nil⟩
  | cons tree rest ih =>
      rw [List.forall_mem_cons] at each
      obtain ⟨report, first, ends⟩ := each.1
      obtain ⟨reports, others, all⟩ := ih each.2
      refine ⟨report :: reports, ?_, .cons ends all⟩
      rw [List.mapM_cons, first, pure_bind, others, pure_bind]

end Units

/-- Whatever a manifest asks of the built-in plugins, a run without observers rejects or compiles every
unit: analysis comes to a decision, and once it accepts a unit, its module can be built, all passes and
verifications succeed and the artifact is made. -/
theorem run_never_faults {f : Type → Type} [Monad f] [LawfulMonad f] {manifest : Manifest}
    {registry : Registry} {target : Target} {p : Pipeline}
    (discovered : Registry.discover manifest Catalog.builtin = .ok registry)
    (built : build registry target = .ok p) {units : List Tree}
    (assembled : ∀ tree ∈ units, ∃ draft : Source.Draft, ∃ unit, draft.assemble unit = .ok tree)
    (distinct : (units.map Tree.unit).Nodup) :
    ∃ reports, p.run ([] : List (Observer f)) .build units = pure (.ok ⟨reports⟩) ∧
      p.target = target ∧
      List.Forall₂ (fun tree report => report.unit = tree.unit ∧ Ends p tree report.outcome)
        units reports := by
  obtain ⟨plan, planned, made⟩ := bind_eq_ok built
  obtain rfl := Except.ok.inj made
  obtain ⟨rfl, _⟩ := Lowering.Plan.mem_steps_of_build planned
  have only := Registry.discover_builtIn discovered
  obtain ⟨reports, ran, ends⟩ := mapM_runUnit (f := f) (p := ⟨registry, plan⟩) fun tree member => by
    obtain ⟨draft, unit, assembled⟩ := assembled tree member
    exact runUnit_ends only planned (Source.assemble_numbers assembled)
  have valid : validateUnits units = .ok () := by
    rw [validateUnits, repeatedUnit?_eq_none ⟨by simp, distinct⟩]
  refine ⟨reports, ?_, rfl, ends⟩
  simp only [run, valid, ran, pure_bind]

/-- All built-in plugins: accessors begin with `read_` and are lowered behind constant folding. -/
def readingManifest : Manifest where
  name := "reading"
  plugins :=
    [ { id := "naming", order := some 3 },
      { id := "accessors", order := some (-1), placement := some (.after "fold-constants"),
        options := [("prefix", .string "read_")] },
      { id := "forbid-calls", options := [("names", .string "print, debug")] } ]

/-- `next(p: Point): int` reads a field of its parameter through an accessor. -/
def nextPoint : Source.Draft where
  items :=
    [ .cls () "Point" [⟨(), "x", ⟨(), "int"⟩⟩],
      .function () "next" [] [⟨(), "p", ⟨(), "Point"⟩⟩] (some ⟨(), "int"⟩)
        [ .ret () (some (.binary () .add (.call () "read_x" [.ref () "p"])
            (.binary () .mul (.int () 2) (.int () 3)))) ] ]

theorem run_never_faults_nextPoint : ∃ registry p tree reports,
    Registry.discover readingManifest Catalog.builtin = .ok registry ∧
    build registry .native = .ok p ∧
    p.plan.names = ["host/fold-constants", "accessors/lower-accessors", "host/eliminate-dead-code",
      "host/flatten-blocks"] ∧
    nextPoint.assemble "point" = .ok tree ∧
    p.run ([] : List (Observer Id)) .build [tree] = .ok ⟨reports⟩ ∧
    List.Forall₂ (fun tree report => report.unit = tree.unit ∧ Ends p tree report.outcome)
      [tree] reports := by
  have assembled : nextPoint.assemble "point" = .ok _ := rfl
  have planned : (Registry.discover readingManifest Catalog.builtin >>= fun registry =>
      build registry .native >>= fun p => .ok p.plan.names) =
        .ok ["host/fold-constants", "accessors/lower-accessors", "host/eliminate-dead-code",
          "host/flatten-blocks"] := by
    decide +kernel
  obtain ⟨registry, discovered, planned⟩ := bind_eq_ok planned
  obtain ⟨p, built, planned⟩ := bind_eq_ok planned
  obtain ⟨reports, ran, _, ends⟩ := run_never_faults (f := Id) discovered built
    (List.forall_mem_singleton.mpr ⟨nextPoint, "point", assembled⟩) (List.nodup_singleton _)
  exact ⟨registry, p, _, reports, discovered, built, Except.ok.inj planned, assembled, ran, ends⟩

end Pipeline

end StagedCompiler
