import StagedCompiler.Proofs.Lowering.IdlePasses
import StagedCompiler.Proofs.Lowering.UnitName
import StagedCompiler.Proofs.Pipeline.Course

/-!
# Extensions do not interfere

One more registration of an extension that does nothing, at any point of the sequence and with any order
key, changes nothing that is reported about any unit (`inert_extension_invisible`), whatever the other
extensions do: they may panic or abort, and they see the same requests, sites and modules.

Both pipelines take a unit through the same course, stage by stage; the states differ only in the ranks
of reporters, which moved on with the numbers of the records (`UnitState.rerank`).
-/

namespace StagedCompiler

open Registry (Record Inserted)
open Lowering (Plan)

/-- The state, with reporters of ranks above `n` moved on by one. -/
def UnitState.rerank (n : Nat) (u : UnitState) : UnitState := { u with log := u.log.rerank n }

namespace Pipeline

/-- What a stage finds when it is its turn: analysis an empty log, and lowering a module that was verified
when it was built. -/
def Ready : Stage → UnitState → Prop
  | .analyze, u => u.log = {}
  | .lower, u => ∀ m a, u.module = some m → u.analysis = some a → m.verify a.descriptors = .ok ()
  | .buildIr, _ | .codegen, _ => True

/-- What is built of a unit has been verified. -/
theorem ready_of_built {r : Registry} {plan : Plan} {u v : UnitState}
    (built : Stage.buildIr.run r plan u = (.ok .go, v)) : Ready .lower v := by
  intro m a isModule isAnalysis
  rw [Stage.run] at built
  split at built
  · cases built
  · rename_i a' analyzed
    split at built
    · cases built
    · rename_i m' made
      obtain rfl := (Prod.mk.inj built).2
      obtain rfl : m' = m := Option.some.inj isModule
      obtain rfl : a' = a := Option.some.inj (analyzed.symm.trans isAnalysis)
      exact (Module.name_ofTree made).2

section Inserted

variable {n : Nat} {x : Record} {r r' : Registry} (inserted : Inserted n x r r')
  (inert : x.extension.Inert) {plan plan' : Plan} (target : plan'.target = plan.target)
  (steps : Plan.IdlePadded plan.steps plan'.steps)
include inserted inert target steps

/-- A stage does the same in both pipelines. -/
theorem run_inserted {stage : Stage} {u : UnitState} (ready : Ready stage u) :
    stage.run r' plan' (u.rerank n) = Prod.map id (UnitState.rerank n) (stage.run r plan u) := by
  have emitted : ∀ stage target m a (u : UnitState) progress,
      Stage.emit stage target m a (u.rerank n) progress =
        Prod.map id (UnitState.rerank n) (stage.emit target m a u progress) := by
    intro stage target m a u progress
    unfold Stage.emit
    cases Artifact.generate target m a.descriptors <;> rfl
  rcases u with ⟨tree, log, analysis, module, artifact⟩
  -- Analysis moves ranks on, and no later stage looks at them.
  cases stage with
  | analyze =>
      obtain rfl : log = {} := ready
      obtain ⟨outcome, log⟩ := Analysis.analyze_inserted inserted inert tree
      have empty : Diagnostic.Log.rerank n {} = {} := rfl
      simp only [Stage.run, UnitState.rerank, empty, outcome, log]
      cases (analyze tree r {}).outcome with
      | error fault => rfl
      | ok decision => cases decision <;> rfl
  | buildIr =>
      simp only [Stage.run, UnitState.rerank]
      cases analysis with
      | none => rfl
      | some a =>
          dsimp only
          cases Module.ofTree tree a.bindings a.descriptors <;> rfl
  | lower =>
      simp only [Stage.run, UnitState.rerank, target]
      cases module with
      | none => cases analysis <;> rfl
      | some m =>
          cases analysis with
          | none => rfl
          | some a =>
              dsimp only
              rw [Plan.run_padded target steps (ready m a rfl rfl)]
              rcases plan.run m a.descriptors with ⟨fault | _, lowered⟩
              · rfl
              · cases plan.target with
                | bundle => exact emitted _ _ _ _ ⟨tree, log, some a, some lowered, artifact⟩ _
                | native => rfl
  | codegen =>
      simp only [Stage.run, UnitState.rerank, target]
      cases module with
      | none => cases analysis <;> rfl
      | some m =>
          cases analysis with
          | none => rfl
          | some a => exact emitted _ _ _ _ ⟨tree, log, some a, some m, artifact⟩ _

/-- Courses with the same end, but for the ranks of reporters. -/
def SameCourse (n : Nat) (c c' : Course) : Prop :=
  c'.result = c.result ∧ c'.final = c.final.rerank n

/-- Courses go on alike if the stage does the same and the rest does. -/
theorem course_inserted {stage : Stage} {rest : List Stage} {u : UnitState} (ready : Ready stage u)
    (later : ∀ v, stage.run r plan u = (.ok .go, v) →
      SameCourse n (course ⟨r, plan⟩ rest v) (course ⟨r', plan'⟩ rest (v.rerank n))) :
    SameCourse n (course ⟨r, plan⟩ (stage :: rest) u)
      (course ⟨r', plan'⟩ (stage :: rest) (u.rerank n)) := by
  have same := run_inserted inserted inert target steps ready
  rw [course, course]
  dsimp only
  rw [same]
  rcases ran : stage.run r plan u with ⟨fault | progress, v⟩
  · exact ⟨rfl, rfl⟩
  · cases progress with
    | halt => exact ⟨rfl, rfl⟩
    | go => exact later v ran

/-- Both pipelines report the same about a unit, but for the ranks of reporters. -/
theorem report_inserted (mode : Mode) (tree : Tree) :
    (unitCourse ⟨r', plan'⟩ mode tree).report tree =
      { (unitCourse ⟨r, plan⟩ mode tree).report tree with
        diagnostics := ((unitCourse ⟨r, plan⟩ mode tree).report tree).diagnostics.map
          (Diagnostic.rerank n) } := by
  have start : Ready .analyze { tree := tree } := rfl
  have build : ∀ v, Ready .buildIr v := fun _ => trivial
  have codegen : ∀ v, Ready .codegen v := fun _ => trivial
  have same : SameCourse n (unitCourse ⟨r, plan⟩ mode tree) (unitCourse ⟨r', plan'⟩ mode tree) := by
    cases mode with
    | check => exact course_inserted inserted inert target steps start fun _ _ => ⟨rfl, rfl⟩
    | build =>
        apply course_inserted inserted inert target steps start
        intro v _
        apply course_inserted inserted inert target steps (build v)
        intro w built
        apply course_inserted inserted inert target steps (ready_of_built built)
        intro _ _
        exact course_inserted inserted inert target steps (codegen _) fun _ _ => ⟨rfl, rfl⟩
  obtain ⟨result, final⟩ := same
  rw [Course.report, Course.report, result, final]
  have outcomes : ∀ result u, outcome result (UnitState.rerank n u) = outcome result u := by
    intro result u
    simp only [outcome, UnitState.rerank, Diagnostic.Log.hasErrors_rerank]
  rw [outcomes]
  exact congrArg (UnitReport.mk tree.unit · _) (Diagnostic.Log.sorted_rerank n _)

end Inserted

/-- The pipeline of a sequence of registrations for a target. -/
def ofRegistrations (gs : List Registration) (target : Target) : Except ConfigError Pipeline := do
  build (← Registry.empty.enlistAll gs) target

/-- An extension that does nothing does not interfere.  Take registrations, and the same ones with one
more in between, for an identity that is free at its point and in a place that the target has.  Either
both fail in the same way, or both give pipelines that report the same about every unit: the same
outcome, be it an artifact or a fault, and the same diagnostics in the same order, apart from the ranks
of reporters. -/
theorem inert_extension_invisible {before after : List Registration} {extra : Registration}
    {target : Target} (own : extra.extension.point = extra.point)
    (fresh : ∀ g ∈ before ++ after, g.point = extra.point → g.id ≠ extra.id)
    (inert : extra.extension.Inert)
    (valid : ∀ anchor, extra.place?.bind Placement.anchor? = some anchor →
      anchor ∈ Plan.hostNames target) :
    (∃ e, ofRegistrations (before ++ after) target = .error e ∧
      ofRegistrations (before ++ extra :: after) target = .error e) ∨
    ∃ p p', ofRegistrations (before ++ after) target = .ok p ∧
      ofRegistrations (before ++ extra :: after) target = .ok p' ∧
      ∀ mode tree, ∃ report report',
        (∀ {f : Type → Type} [Monad f] [LawfulMonad f],
          p.runUnit ([] : List (Observer f)) mode tree = pure report ∧
          p'.runUnit ([] : List (Observer f)) mode tree = pure report') ∧
        report'.unit = report.unit ∧ report'.outcome = report.outcome ∧
        report'.diagnostics.map Diagnostic.unranked = report.diagnostics.map Diagnostic.unranked := by
  rcases Registry.enlistAll_insert own fresh with ⟨e, failed, failed'⟩ | ⟨n, r, r', made, made', inserted⟩
  · refine Or.inl ⟨e, ?_, ?_⟩
    · rw [ofRegistrations, failed]
      rfl
    · rw [ofRegistrations, failed']
      rfl
  -- From here on both registries exist, and one has the other's records and the new one.
  have valid : ∀ anchor, ((extra.record n).placement.getD default).anchor? = some anchor →
      anchor ∈ Plan.hostNames target := by
    intro anchor named
    apply valid anchor
    rw [show (extra.record n).placement = extra.place? from rfl] at named
    cases placed : extra.place? with
    | none =>
        rw [placed] at named
        cases named
    | some place =>
        rw [placed] at named
        exact named
  rw [ofRegistrations, ofRegistrations, made, made']
  rcases Plan.build_inserted inserted inert valid with ⟨e, failed, failed'⟩ |
    ⟨plan, plan', planned, planned', target, steps⟩
  · refine Or.inl ⟨e, ?_, ?_⟩
    · show build r _ = _
      rw [build, failed]
      rfl
    · show build r' _ = _
      rw [build, failed']
      rfl
  · refine Or.inr ⟨⟨r, plan⟩, ⟨r', plan'⟩, ?_, ?_, fun mode tree => ?_⟩
    · show build r _ = _
      rw [build, planned]
      rfl
    · show build r' _ = _
      rw [build, planned']
      rfl
    · refine ⟨_, _, ⟨runUnit_unobserved _ mode tree, runUnit_unobserved _ mode tree⟩, ?_⟩
      rw [report_inserted inserted inert target steps mode tree]
      refine ⟨rfl, rfl, ?_⟩
      rw [List.map_map]
      exact List.map_congr_left fun d _ => Diagnostic.unranked_rerank n d

/-- The registration of the host's own resolver, with which the sequence of a project begins. -/
def hostRegistration : Registration where
  plugin := Registry.hostPlugin
  point := .syntheticDescriptors
  extension := .resolver Extension.builtins

/-- A resolver that offers a function of another name. -/
def decoy : Registration where
  plugin := "decoy"
  point := .syntheticDescriptors
  extension := .resolver
    { name := "decoy"
      resolve := fun request =>
        .ok (some { name := request.name ++ "_", kind := .function, origin := .builtin }) }
  order := some (-1)

/-- A checker that has something to say about every declaration. -/
def nosy : Registration where
  plugin := "nosy"
  point := .declarationChecker
  extension := .declarationChecker
    { name := "nosy"
      check := fun _ site =>
        .ok [⟨.warning, "X0001", "there is " ++ site.descriptor.name, site.location⟩] }

theorem decoy_inert : decoy.extension.Inert := by
  refine .resolver fun request => Or.inr ⟨_, rfl, fun same => ?_⟩
  have length := congrArg String.length same
  rw [String.length_append] at length
  exact absurd length (Nat.succ_ne_self _)

/-- `f()` does nothing. -/
def idleFunction : Source.Draft where
  items := [.function () "f" [] [] none []]

/-- The ranks of the reporters of a unit's diagnostics. -/
def UnitReport.ranks (report : UnitReport) : List Nat := report.diagnostics.map (·.reporter.rank)

/-- The ranks that a unit's diagnostics have with some registrations. -/
def ranks (gs : List Registration) : Option (List Nat) := do
  let p ← (ofRegistrations gs .native).toOption
  let tree ← (idleFunction.assemble "main").toOption
  pure (UnitReport.ranks (p.runUnit ([] : List (Observer Id)) .build tree))

/-- The checker moves on by one rank, and that is all. -/
theorem inert_extension_invisible_decoy : ∃ p p' tree report report',
    ofRegistrations ([hostRegistration] ++ [nosy]) .native = .ok p ∧
    ofRegistrations ([hostRegistration] ++ decoy :: [nosy]) .native = .ok p' ∧
    idleFunction.assemble "main" = .ok tree ∧
    p.runUnit ([] : List (Observer Id)) .build tree = report ∧
    p'.runUnit ([] : List (Observer Id)) .build tree = report' ∧
    report'.outcome = report.outcome ∧
    report'.diagnostics.map Diagnostic.unranked = report.diagnostics.map Diagnostic.unranked ∧
    UnitReport.ranks report = [2] ∧ UnitReport.ranks report' = [3] := by
  have ranks₁ : ranks ([hostRegistration] ++ [nosy]) = some [2] := by decide +kernel
  have ranks₂ : ranks ([hostRegistration] ++ decoy :: [nosy]) = some [3] := by decide +kernel
  have fresh : ∀ g ∈ [hostRegistration] ++ [nosy], g.point = decoy.point → g.id ≠ decoy.id := by
    decide
  have valid : ∀ anchor, decoy.place?.bind Placement.anchor? = some anchor →
      anchor ∈ Plan.hostNames .native := fun _ named => nomatch named
  have assembled : idleFunction.assemble "main" = .ok _ := rfl
  rcases inert_extension_invisible rfl fresh decoy_inert valid with ⟨e, failed, _⟩ |
    ⟨p, p', made, made', alike⟩
  · rw [ranks, failed] at ranks₁
    cases ranks₁
  · obtain ⟨report, report', ran, _, outcome, diagnostics⟩ := alike .build _
    obtain ⟨ran, ran'⟩ := @ran Id _ _
    rw [ranks, made, assembled] at ranks₁
    rw [ranks, made', assembled] at ranks₂
    exact ⟨p, p', _, report, report', made, made', assembled, ran, ran', outcome, diagnostics,
      (congrArg UnitReport.ranks ran).symm.trans (Option.some.inj ranks₁),
      (congrArg UnitReport.ranks ran').symm.trans (Option.some.inj ranks₂)⟩

end Pipeline

end StagedCompiler
