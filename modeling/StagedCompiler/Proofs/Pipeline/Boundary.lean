import StagedCompiler.Proofs.Lowering.UnitName
import StagedCompiler.Proofs.Pipeline.Course
import StagedCompiler.Proofs.Pipeline.Faultless

/-!
# The validity boundary

Whatever extensions do, a unit with errors never gets behind analysis, and what is reported about it is
settled there: checking and building a unit differ only in what happens behind analysis.

* `Bounded` is about the diagnostics of a unit and the stages that it gets to, in both modes.
* `Delivers` is about the artifact of a unit that is built.  Its name is that of the lowered module, and
  so that of the unit if the passes of plugins keep it (`validity_boundary`); a pass that gives the root
  another name gives it to the artifact (`artifact_named_by_pass`).
-/

namespace StagedCompiler

open Source (bind_eq_ok eq_ok_of_toOption)

theorem Diagnostic.Log.exists_error_sorted (log : Diagnostic.Log) :
    (∃ d ∈ log.sorted, d.severity.isError = true) ↔ log.hasErrors = true := by
  simp only [sorted, List.mem_mergeSort, hasErrors, List.any_eq_true]

namespace Pipeline

/-- What a report has to do with the stages that the unit got to.  With an error there is no module and
no call behind analysis, errors and no fault are what it takes to be rejected, and nothing is added to
the log once analysis is through. -/
structure Course.Bounded (c : Course) (report : UnitReport) : Prop where
  errors : (∃ d ∈ report.diagnostics, d.severity.isError = true) →
    c.final.module = none ∧ ∀ e ∈ c.events, e.stage = .analyze ∧ e.state.module = none
  rejected : report.outcome = .rejected ↔
    (∃ d ∈ report.diagnostics, d.severity.isError = true) ∧ report.fault? = none
  settled : ∀ seen ∈ c.events, seen.moment = .after → seen.stage = .analyze →
    (∀ e ∈ c.events, e.stage ≠ .analyze → e.state.log = seen.state.log) ∧
      report.diagnostics = seen.state.log.sorted

/-- What building a unit comes to: it is never just checked, and if it is compiled, the artifact suits
the target, a bundle is made without a stage of its own, and lowering left a module of its name. -/
structure Course.Delivers (c : Course) (target : Target) (report : UnitReport) : Prop where
  unchecked : report.outcome ≠ .checked
  suits : ∀ a, report.outcome = .compiled a → a.Suits target
  bundled : target = .bundle → ∀ a, report.outcome = .compiled a → ∀ e ∈ c.events, e.stage ≠ .codegen
  named : ∀ a, report.outcome = .compiled a → ∃ e ∈ c.events, e.moment = .after ∧ e.stage = .lower ∧
    ∃ m, e.state.module = some m ∧ m.name = .ok a.unit

section

variable (p : Pipeline) (tree : Tree)

theorem Course.rejected_iff (c : Course) : (c.report tree).outcome = .rejected ↔
    (∃ d ∈ (c.report tree).diagnostics, d.severity.isError = true) ∧
      (c.report tree).fault? = none := by
  rcases c with ⟨events, fault | _, final⟩
  · constructor
    · intro rejected
      cases rejected
    · rintro ⟨_, none⟩
      cases none
  · show outcome (.ok ()) final = .rejected ↔
      (∃ d ∈ final.log.sorted, d.severity.isError = true) ∧ UnitReport.fault? ⟨_, _, outcome (.ok ()) final⟩ = none
    rw [Diagnostic.Log.exists_error_sorted]
    cases loud : final.log.hasErrors with
    | true => simp [outcome, loud, UnitReport.fault?]
    | false => cases artifact : final.artifact <;> simp [outcome, loud, artifact]

theorem analyze_notMem_laterStages (mode : Mode) : .analyze ∉ laterStages mode := by
  cases mode <;> decide

theorem unitCourse_bounded (mode : Mode) :
    (p.unitCourse mode tree).Bounded ((p.unitCourse mode tree).report tree) := by
  have rejected := (p.unitCourse mode tree).rejected_iff tree
  rcases p.unitCourse_cases tree with ⟨fault, course⟩ | ⟨loud, course⟩ | ⟨a, clean, course⟩ <;>
    rw [course mode] at rejected ⊢
  · refine ⟨fun _ => ⟨rfl, ?_⟩, rejected, ?_⟩ <;> rw [List.forall_mem_singleton]
    · exact ⟨rfl, rfl⟩
    · exact fun moment => nomatch moment
  · have here : ∀ e ∈ [(⟨.before, .analyze, { tree := tree }⟩ : Event),
        ⟨.after, .analyze, p.analyzed tree none⟩], e.stage = .analyze ∧ e.state.module = none := by
      rw [List.forall_mem_cons, List.forall_mem_singleton]
      exact ⟨⟨rfl, rfl⟩, rfl, rfl⟩
    refine ⟨fun _ => ⟨rfl, here⟩, rejected, ?_⟩
    rw [List.forall_mem_cons, List.forall_mem_singleton]
    exact ⟨(fun moment => nomatch moment),
      fun _ _ => ⟨fun e member other => absurd (here e member).1 other, rfl⟩⟩
  · obtain ⟨final, events⟩ := p.course_log (analyze_notMem_laterStages mode) (p.analyzed tree (some a))
    have later : ∀ e ∈ (p.course (laterStages mode) (p.analyzed tree (some a))).events,
        e.stage ≠ .analyze := by
      intro e member same
      exact analyze_notMem_laterStages mode (same ▸ (events e member).1)
    refine ⟨?_, rejected, ?_⟩
    · rintro ⟨d, member, error⟩
      have loud := (Diagnostic.Log.exists_error_sorted _).mp ⟨d, member, error⟩
      rw [final] at loud
      exact absurd loud (Bool.eq_false_iff.mp clean)
    · intro seen member after analyze
      have log : seen.state.log = (p.analyzed tree (some a)).log := by
        rcases List.mem_cons.mp member with rfl | member
        · cases after
        · rcases List.mem_cons.mp member with rfl | member
          · rfl
          · exact absurd analyze (later seen member)
      refine ⟨fun e member other => ?_, congrArg Diagnostic.Log.sorted (final.trans log.symm)⟩
      rcases List.mem_cons.mp member with rfl | member
      · exact absurd rfl other
      · rcases List.mem_cons.mp member with rfl | member
        · exact absurd rfl other
        · exact (events e member).2.trans log.symm

/-- A check makes no artifact, and a build reports what the check reports until the unit gets behind
analysis. -/
theorem check_agrees :
    (∀ a, ((p.unitCourse .check tree).report tree).outcome ≠ .compiled a) ∧
    ((p.unitCourse .check tree).report tree).diagnostics =
      ((p.unitCourse .build tree).report tree).diagnostics ∧
    (((p.unitCourse .check tree).report tree).outcome = .rejected ↔
      ((p.unitCourse .build tree).report tree).outcome = .rejected) ∧
    ∀ fault, ((p.unitCourse .check tree).report tree).outcome = .faulted fault ↔
      ((p.unitCourse .build tree).report tree).outcome = .faulted fault ∧
        ∀ e ∈ (p.unitCourse .build tree).events, e.moment = .before := by
  have builtRejected := (p.unitCourse .build tree).rejected_iff tree
  rcases p.unitCourse_cases tree with ⟨fault, course⟩ | ⟨loud, course⟩ | ⟨a, clean, course⟩ <;>
    rw [course .build] at builtRejected ⊢ <;> rw [course .check]
  · have before : ∀ e ∈ [(⟨.before, .analyze, { tree := tree }⟩ : Event)], e.moment = .before := by
      rw [List.forall_mem_singleton]
    exact ⟨fun _ compiled => (nomatch compiled), rfl, Iff.rfl,
      fun _ => ⟨fun faulted => ⟨faulted, before⟩, fun both => both.1⟩⟩
  · have rejected : outcome (.ok ()) (p.analyzed tree none) = .rejected := by
      rw [outcome, if_pos loud]
    refine ⟨fun a compiled => ?_, rfl, Iff.rfl, fun fault => ⟨fun faulted => ?_, fun both => both.1⟩⟩
    · exact Outcome.noConfusion (rejected.symm.trans compiled)
    · exact Outcome.noConfusion (rejected.symm.trans faulted)
  · obtain ⟨final, _⟩ := p.course_log (analyze_notMem_laterStages .build) (p.analyzed tree (some a))
    have checked : outcome (.ok ()) (p.analyzed tree (some a)) = .checked := by
      rw [outcome, if_neg (Bool.eq_false_iff.mp clean)]
      rfl
    refine ⟨fun a compiled => ?_, (congrArg Diagnostic.Log.sorted final).symm,
      iff_of_false (fun rejected => ?_) (fun rejected => ?_),
      fun fault => ⟨fun faulted => ?_, fun both => ?_⟩⟩
    · exact Outcome.noConfusion (checked.symm.trans compiled)
    · exact Outcome.noConfusion (checked.symm.trans rejected)
    · have loud := (Diagnostic.Log.exists_error_sorted _).mp (builtRejected.mp rejected).1
      rw [final] at loud
      exact absurd loud (Bool.eq_false_iff.mp clean)
    · exact Outcome.noConfusion (checked.symm.trans faulted)
    · exact Moment.noConfusion (both.2 _ (List.mem_cons_of_mem _ List.mem_cons_self))

/-- A build ends with a fault, it is rejected, or it is compiled by way of all stages. -/
theorem build_cases :
    (∃ fault, ((p.unitCourse .build tree).report tree).outcome = .faulted fault) ∨
    ((p.unitCourse .build tree).report tree).outcome = .rejected ∨
    ∃ (artifact : Artifact) (a : Analysis) (m lowered : Module),
      ((p.unitCourse .build tree).report tree).outcome = .compiled artifact ∧
      Module.ofTree tree a.bindings a.descriptors = .ok m ∧
      p.plan.run m a.descriptors = (.ok (), lowered) ∧
      Artifact.generate p.target lowered a.descriptors = .ok artifact ∧
      (∃ e ∈ (p.unitCourse .build tree).events,
        e.moment = .after ∧ e.stage = .lower ∧ e.state.module = some lowered) ∧
      (p.target = .bundle → ∀ e ∈ (p.unitCourse .build tree).events, e.stage ≠ .codegen) := by
  rcases p.unitCourse_cases tree with ⟨fault, course⟩ | ⟨loud, course⟩ | ⟨a, clean, course⟩ <;>
    rw [course .build]
  · exact Or.inl ⟨fault, rfl⟩
  · refine Or.inr (Or.inl ?_)
    rw [Course.report, outcome, if_pos loud]
  · obtain ⟨log, _⟩ := p.course_log (analyze_notMem_laterStages .build) (p.analyzed tree (some a))
    rw [Course.report]
    cases ended : (p.course (laterStages .build) (p.analyzed tree (some a))).result with
    | error fault => exact Or.inl ⟨fault, rfl⟩
    | ok _ =>
        obtain ⟨m, lowered, artifact, built, ran, generated, final, ⟨e, member, shown⟩, bundled⟩ :=
          p.course_compiled (u := p.analyzed tree (some a)) rfl ended
        have quiet : ¬(p.course (laterStages .build) (p.analyzed tree (some a))).final.log.hasErrors = true := by
          rw [log, clean]
          exact Bool.false_ne_true
        refine Or.inr (Or.inr ⟨artifact, a, m, lowered, ?_, built, ran, generated,
          ⟨e, List.mem_cons_of_mem _ (List.mem_cons_of_mem _ member), shown⟩, fun target => ?_⟩)
        · have final : (p.course (laterStages .build) (p.analyzed tree (some a))).final.artifact =
              some artifact := final
          rw [outcome, if_neg quiet, final]
        · rw [List.forall_mem_cons, List.forall_mem_cons]
          exact ⟨Stage.noConfusion, Stage.noConfusion, bundled target⟩

theorem unitCourse_delivers :
    (p.unitCourse .build tree).Delivers p.target ((p.unitCourse .build tree).report tree) := by
  rcases p.build_cases tree with ⟨fault, ended⟩ | ended |
    ⟨artifact, a, m, lowered, ended, _, _, generated, ⟨e, member, moment, stage, module⟩, bundled⟩
  · constructor <;> rw [ended] <;> simp
  · constructor <;> rw [ended] <;> simp
  · obtain ⟨named, suits⟩ := Artifact.generate_eq_ok generated
    constructor <;> rw [ended]
    · simp
    · rintro b ⟨⟩
      exact suits
    · exact fun target _ _ => bundled target
    · rintro b ⟨⟩
      exact ⟨e, member, moment, stage, lowered, module, named⟩

end

/-- The artifact of a unit has the name of the unit if the passes of plugins keep the names of modules:
the host's passes do, and the module starts with the name of the unit. -/
theorem unit_of_compiled {registry : Registry} {target : Target} {p : Pipeline}
    (made : build registry target = .ok p)
    (keep : ∀ record pass, (record, pass) ∈ registry.loweringPasses → pass.KeepsName)
    {tree : Tree} {artifact : Artifact}
    (compiled : ((p.unitCourse .build tree).report tree).outcome = .compiled artifact) :
    artifact.unit = tree.unit := by
  obtain ⟨plan, planned, laid⟩ := bind_eq_ok made
  obtain rfl := Except.ok.inj laid
  obtain ⟨rfl, among⟩ := Lowering.Plan.mem_steps_of_build planned
  have keepAll : ∀ step ∈ plan.steps, step.pass.KeepsName := by
    intro step member
    rcases among step member with host | ⟨record, listed⟩
    · exact Lowering.keepsName_of_host (Lowering.Plan.hostPasses_subset plan.target host)
    · exact keep record step.pass listed
  rcases build_cases ⟨registry, plan⟩ tree with ⟨fault, ended⟩ | ended |
    ⟨artifact', a, m, lowered, ended, built, ran, generated, _⟩
  · exact Outcome.noConfusion (ended.symm.trans compiled)
  · exact Outcome.noConfusion (ended.symm.trans compiled)
  · obtain rfl := Outcome.compiled.inj (ended.symm.trans compiled)
    obtain ⟨named, verified⟩ := Module.name_ofTree built
    have kept := Lowering.Plan.name_of_run verified keepAll ran
    rw [(Artifact.generate_eq_ok generated).1, named] at kept
    exact Except.ok.inj kept

/-- The validity boundary, for any registry, target, tree and observers that succeed.  The artifact of a
unit has the name of the unit if the passes of plugins keep the names of modules. -/
theorem validity_boundary {registry : Registry} {target : Target} {p : Pipeline}
    (made : build registry target = .ok p) (tree : Tree) :
    (∀ {f : Type → Type} [Monad f] [LawfulMonad f] (observers : List (Observer f)),
      (∀ o ∈ observers, o.Succeeds) → ∀ mode, p.runUnit observers mode tree = (do
        forM (p.unitCourse mode tree).events (Event.show observers)
        pure ((p.unitCourse mode tree).report tree))) ∧
    (∀ mode, (p.unitCourse mode tree).Bounded ((p.unitCourse mode tree).report tree)) ∧
    (p.unitCourse .build tree).Delivers target ((p.unitCourse .build tree).report tree) ∧
    ((∀ record pass, (record, pass) ∈ registry.loweringPasses → pass.KeepsName) →
      ∀ a, ((p.unitCourse .build tree).report tree).outcome = .compiled a → a.unit = tree.unit) ∧
    (∀ a, ((p.unitCourse .check tree).report tree).outcome ≠ .compiled a) ∧
    ((p.unitCourse .check tree).report tree).diagnostics =
      ((p.unitCourse .build tree).report tree).diagnostics ∧
    (((p.unitCourse .check tree).report tree).outcome = .rejected ↔
      ((p.unitCourse .build tree).report tree).outcome = .rejected) ∧
    ∀ fault, ((p.unitCourse .check tree).report tree).outcome = .faulted fault ↔
      ((p.unitCourse .build tree).report tree).outcome = .faulted fault ∧
        ∀ e ∈ (p.unitCourse .build tree).events, e.moment = .before := by
  have named : (∀ record pass, (record, pass) ∈ registry.loweringPasses → pass.KeepsName) →
      ∀ a, ((p.unitCourse .build tree).report tree).outcome = .compiled a → a.unit = tree.unit :=
    fun keep _ compiled => unit_of_compiled made keep compiled
  obtain ⟨plan, planned, laid⟩ := bind_eq_ok made
  obtain rfl := Except.ok.inj laid
  obtain ⟨rfl, -⟩ := Lowering.Plan.mem_steps_of_build planned
  let p : Pipeline := ⟨registry, plan⟩
  exact ⟨fun observers succeed mode => runUnit_of_succeeds succeed p mode tree,
    p.unitCourse_bounded tree, p.unitCourse_delivers tree, named, p.check_agrees tree⟩

/-- An observer that writes down what it is asked to look at. -/
def recorder : Observer (StateM (List (Moment × Stage))) where
  name := "recorder"
  observe moment stage _ := modifyGet fun seen => (none, seen ++ [(moment, stage)])

/-- `double(n: int): int` returns `n + n`. -/
def double : Source.Draft where
  items := [ .function () "double" [] [⟨(), "n", ⟨(), "int"⟩⟩] (some ⟨(), "int"⟩)
    [.ret () (some (.binary () .add (.ref () "n") (.ref () "n")))] ]

/-- A pass that gives the root of a module another name. -/
def renameRoot : Extension.Pass where
  name := "rename-root"
  run _ m := { module := { m with nodes := m.nodes.modify m.root fun n => { n with kind := .module "other" } } }

/-- Compile a unit for a target with a registry, in an observed run. -/
def compile? (registry : Except ConfigError Registry) (target : Target) (draft : Source.Draft) :
    Option (UnitReport × List (Moment × Stage)) := do
  let registry ← registry.toOption
  let p ← (build registry target).toOption
  let tree ← (draft.assemble "main").toOption
  pure ((p.runUnit [recorder] .build tree).run [])

theorem compile?_eq_some {registry : Except ConfigError Registry} {target : Target}
    {draft : Source.Draft} {r : UnitReport × List (Moment × Stage)}
    (compiled : compile? registry target draft = some r) : ∃ registry' p tree,
      registry = .ok registry' ∧ build registry' target = .ok p ∧ draft.assemble "main" = .ok tree ∧
      (p.runUnit [recorder] .build tree).run [] = r := by
  obtain ⟨registry', registered, compiled⟩ := Option.bind_eq_some_iff.mp compiled
  obtain ⟨p, built, compiled⟩ := Option.bind_eq_some_iff.mp compiled
  obtain ⟨tree, assembled, ran⟩ := Option.bind_eq_some_iff.mp compiled
  exact ⟨registry', p, tree, eq_ok_of_toOption registered, eq_ok_of_toOption built,
    eq_ok_of_toOption assembled, Option.some.inj ran⟩

theorem recorder_succeeds : recorder.Succeeds := fun _ _ _ => rfl

theorem compiled_of_artifact? {report : UnitReport} {a : Artifact}
    (made : report.artifact? = some a) : report.outcome = .compiled a := by
  rcases report with ⟨unit, diagnostics, outcome⟩
  cases outcome <;> cases made
  rfl

theorem validity_boundary_double : ∃ p tree report a events,
    build .host .bundle = .ok p ∧ double.assemble "main" = .ok tree ∧
    (∀ record pass, (record, pass) ∈ Registry.host.loweringPasses → pass.KeepsName) ∧
    recorder.Succeeds ∧
    (p.runUnit [recorder] .build tree).run [] = (report, events) ∧
    events = [(.before, .analyze), (.after, .analyze), (.before, .buildIr), (.after, .buildIr),
      (.before, .lower), (.after, .lower)] ∧
    report.diagnostics = [] ∧ report.outcome = .compiled a ∧ a.unit = tree.unit := by
  have compiled : (compile? (.ok .host) .bundle double).map (fun r =>
      (r.1.artifact?.isSome, r.1.diagnostics, r.2)) = some (true, [],
        [(.before, .analyze), (.after, .analyze), (.before, .buildIr), (.after, .buildIr),
          (.before, .lower), (.after, .lower)]) := by
    decide +kernel
  obtain ⟨⟨report, events⟩, compiled, shown⟩ := Option.map_eq_some_iff.mp compiled
  obtain ⟨_, p, tree, ⟨⟩, built, assembled, ran⟩ := compile?_eq_some compiled
  simp only [Prod.mk.injEq] at shown
  obtain ⟨made, silent, shown⟩ := shown
  obtain ⟨a, made⟩ := Option.isSome_iff_exists.mp made
  have ended := compiled_of_artifact? made
  have noPasses : Registry.host.loweringPasses = [] :=
    congrArg (List.filterMap _) (List.mergeSort_nil)
  have keep : ∀ record pass, (record, pass) ∈ Registry.host.loweringPasses → pass.KeepsName := by
    rw [noPasses]
    exact fun _ _ member => nomatch member
  have boundary := validity_boundary built tree
  have course := boundary.1 [recorder] (List.forall_mem_singleton.mpr recorder_succeeds) .build
  have same : (p.unitCourse .build tree).report tree = report := by
    rw [course] at ran
    exact congrArg Prod.fst ran
  exact ⟨p, tree, report, a, events, built, assembled, keep, recorder_succeeds, ran, shown, silent,
    ended, boundary.2.2.2.1 keep a (same ▸ ended)⟩

/-- With a pass that gives the root another name, an artifact is not named after its unit. -/
theorem artifact_named_by_pass : ∃ registry p tree report a events,
    Registry.host.register "renamer" .irLowering (.lowering renameRoot) none = .ok registry ∧
    build registry .native = .ok p ∧ double.assemble "main" = .ok tree ∧ recorder.Succeeds ∧
    (p.runUnit [recorder] .build tree).run [] = (report, events) ∧
    report.unit = "main" ∧ report.outcome = .compiled a ∧ a.unit = "other" := by
  have compiled : (compile? (Registry.host.register "renamer" .irLowering (.lowering renameRoot) none)
      .native double).map (fun r => (r.1.unit, r.1.artifact?.map Artifact.unit)) =
        some ("main", some "other") := by
    decide +kernel
  obtain ⟨⟨report, events⟩, compiled, named⟩ := Option.map_eq_some_iff.mp compiled
  obtain ⟨registry, p, tree, registered, built, assembled, ran⟩ := compile?_eq_some compiled
  simp only [Prod.mk.injEq] at named
  obtain ⟨unit, named⟩ := named
  obtain ⟨a, made, named⟩ := Option.map_eq_some_iff.mp named
  exact ⟨registry, p, tree, report, a, events, registered, built, assembled, recorder_succeeds, ran,
    unit, compiled_of_artifact? made, named⟩

end Pipeline

end StagedCompiler
