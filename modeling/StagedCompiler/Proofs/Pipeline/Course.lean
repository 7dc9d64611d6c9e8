import StagedCompiler.Pipeline.Basic

/-!
# The course of a unit

What observers see of a unit, and what is reported about it, for any registry, any passes and any tree.

* Observers that succeed change nothing: a unit takes a `Course` that depends on the pipeline, the mode
  and the tree alone, they are shown its events, and the report is that of its end
  (`runUnit_of_succeeds`).
* Stages behind analysis leave the log alone (`course_log`).
* Analysis decides on how the course goes on (`unitCourse_cases`), and a unit that is accepted and that
  no stage fails on is compiled (`course_compiled`).
-/

namespace StagedCompiler

/-- An observer that never fails.  It may have effects. -/
def Observer.Succeeds {f : Type → Type} [Monad f] (o : Observer f) : Prop :=
  ∀ moment stage u, o.observe moment stage u = (fun _ => none) <$> o.observe moment stage u

namespace Pipeline

/-- A call of the observers: what they are shown. -/
structure Event : Type where
  moment : Moment
  stage : Stage
  state : UnitState

/-- The way of a unit through stages: the calls of observers, and how it ends. -/
structure Course : Type where
  events : List Event
  result : Except Fault Unit
  final : UnitState

/-- The course of a unit that no observer stops. -/
def course (p : Pipeline) : List Stage → UnitState → Course
  | [], u => ⟨[], .ok (), u⟩
  | stage :: rest, u =>
    match stage.run p.registry p.plan u with
    | (.error fault, u') => ⟨[⟨.before, stage, u⟩], .error fault, u'⟩
    | (.ok .halt, u') => ⟨[⟨.before, stage, u⟩, ⟨.after, stage, u'⟩], .ok (), u'⟩
    | (.ok .go, u') =>
      let later := course p rest u'
      ⟨⟨.before, stage, u⟩ :: ⟨.after, stage, u'⟩ :: later.events, later.result, later.final⟩

/-- The course of a unit in a mode. -/
def unitCourse (p : Pipeline) (mode : Mode) (tree : Tree) : Course :=
  p.course mode.stages { tree := tree }

/-- The report of a unit that takes a course. -/
def Course.report (c : Course) (tree : Tree) : UnitReport :=
  ⟨tree.unit, c.final.log.sorted, outcome c.result c.final⟩

/-! ## The names of units -/

/-- No unit is repeated exactly if names are distinct. -/
theorem repeatedUnit?_eq_none_iff (units : List Tree) (seen : List String) :
    repeatedUnit? seen units = none ↔
      (∀ tree ∈ units, tree.unit ∉ seen) ∧ (units.map Tree.unit).Nodup := by
  induction units generalizing seen with
  | nil => simp [repeatedUnit?]
  | cons tree rest ih =>
      rw [repeatedUnit?]
      by_cases held : tree.unit ∈ seen
      · simp [held]
      · rw [if_neg (by simpa using held), ih]
        simp only [List.mem_cons, not_or, forall_eq_or_imp, held, not_false_eq_true, true_and,
          List.map_cons, List.nodup_cons, List.mem_map, not_exists, not_and, forall_and, and_assoc]
        exact and_left_comm

/-- Units can be run together if and only if no two have the same name. -/
theorem validateUnits_eq_ok_iff {units : List Tree} :
    validateUnits units = .ok () ↔ (units.map Tree.unit).Nodup := by
  have none := repeatedUnit?_eq_none_iff units []
  simp only [List.not_mem_nil, not_false_eq_true, implies_true, true_and] at none
  rw [← none, validateUnits]
  cases repeatedUnit? [] units <;> simp

/-! ## Observers -/

section Observers

variable {f : Type → Type} [Monad f] [LawfulMonad f] {observers : List (Observer f)}

/-- Have observers look at an event. -/
def Event.show (observers : List (Observer f)) (e : Event) : f Unit :=
  forM observers fun o => (fun _ => ()) <$> o.observe e.moment e.stage e.state

/-- Observers that succeed are told one after another. -/
theorem notify_of_succeeds (succeed : ∀ o ∈ observers, o.Succeeds) (moment : Moment) (stage : Stage)
    (u : UnitState) : notify moment stage u observers =
      (do Event.show observers ⟨moment, stage, u⟩; pure (.ok ())) := by
  induction observers with
  | nil => simp only [notify, Event.show, List.forM_nil, pure_bind]
  | cons o rest ih =>
      rw [List.forall_mem_cons] at succeed
      rw [notify, succeed.1 moment stage u, Event.show, List.forM_cons]
      simp only [bind_map_left, ih succeed.2, Event.show, bind_assoc]

/-- With observers that succeed a unit takes its course, and they are shown its events in order. -/
theorem runStages_of_succeeds (succeed : ∀ o ∈ observers, o.Succeeds) (p : Pipeline)
    (stages : List Stage) (u : UnitState) :
    p.runStages observers stages u = (do
      forM (p.course stages u).events (Event.show observers)
      pure ((p.course stages u).result, (p.course stages u).final)) := by
  induction stages generalizing u with
  | nil => simp only [runStages, course, List.forM_nil, pure_bind]
  | cons stage rest ih =>
      rw [runStages, course, notify_of_succeeds succeed]
      rcases stage.run p.registry p.plan u with ⟨fault | progress, u'⟩
      · simp only [List.forM_cons, List.forM_nil, bind_assoc, pure_bind]
      · simp only [notify_of_succeeds succeed]
        cases progress with
        | halt => simp only [List.forM_cons, List.forM_nil, bind_assoc, pure_bind]
        | go => simp only [ih, List.forM_cons, bind_assoc, pure_bind]

/-- With observers that succeed a unit takes its course, and they are told of all its events in order.
-/
theorem runUnit_of_succeeds (succeed : ∀ o ∈ observers, o.Succeeds) (p : Pipeline) (mode : Mode)
    (tree : Tree) :
    p.runUnit observers mode tree = (do
      forM (p.unitCourse mode tree).events (Event.show observers)
      pure ((p.unitCourse mode tree).report tree)) := by
  simp only [runUnit, runStages_of_succeeds succeed, bind_assoc, pure_bind]
  rfl

/-- So do several units, one after another. -/
theorem mapM_runUnit_of_succeeds (succeed : ∀ o ∈ observers, o.Succeeds) (p : Pipeline) (mode : Mode)
    (units : List Tree) :
    units.mapM (p.runUnit observers mode) = (do
      forM (units.flatMap fun tree => (p.unitCourse mode tree).events) (Event.show observers)
      pure (units.map fun tree => (p.unitCourse mode tree).report tree)) := by
  induction units with
  | nil => simp only [List.mapM_nil, List.flatMap_nil, List.forM_nil, List.map_nil, pure_bind]
  | cons tree rest ih =>
      simp only [List.mapM_cons, runUnit_of_succeeds succeed, ih, List.flatMap_cons, List.forM_append,
        List.map_cons, bind_assoc, pure_bind]

/-- Units are taken through the stages one after another, and each is reported about by itself. -/
theorem run_of_succeeds (succeed : ∀ o ∈ observers, o.Succeeds) (p : Pipeline) (mode : Mode)
    {units : List Tree} (valid : validateUnits units = .ok ()) :
    p.run observers mode units = (do
      forM (units.flatMap fun tree => (p.unitCourse mode tree).events) (Event.show observers)
      pure (.ok ⟨units.map fun tree => (p.unitCourse mode tree).report tree⟩)) := by
  simp only [run, valid, mapM_runUnit_of_succeeds succeed, bind_assoc, pure_bind]

theorem forM_show_nil (events : List Event) :
    forM events (Event.show ([] : List (Observer f))) = pure () := by
  induction events with
  | nil => rfl
  | cons e rest ih => rw [List.forM_cons, Event.show, List.forM_nil, pure_bind, ih]

omit [LawfulMonad f] in
theorem succeeds_nil : ∀ o ∈ ([] : List (Observer f)), o.Succeeds := fun _ member => nomatch member

theorem runUnit_unobserved (p : Pipeline) (mode : Mode) (tree : Tree) :
    p.runUnit ([] : List (Observer f)) mode tree = pure ((p.unitCourse mode tree).report tree) := by
  rw [runUnit_of_succeeds succeeds_nil, forM_show_nil, pure_bind]

/-- Without observers a run is the courses of its units. -/
theorem run_unobserved (p : Pipeline) (mode : Mode) {units : List Tree}
    (valid : validateUnits units = .ok ()) :
    p.run ([] : List (Observer f)) mode units =
      pure (.ok ⟨units.map fun tree => (p.unitCourse mode tree).report tree⟩) := by
  rw [run_of_succeeds succeeds_nil p mode valid, forM_show_nil, pure_bind]

end Observers

/-! ## Stages behind analysis -/

section Stages

variable (p : Pipeline)

theorem emit_log (stage : Stage) (target : Target) (m : Module) (a : Analysis) (u : UnitState)
    (progress : Progress) : (stage.emit target m a u progress).2.log = u.log := by
  unfold Stage.emit
  split <;> rfl

/-- Only analysis writes to the log. -/
theorem run_log {stage : Stage} (behind : stage ≠ .analyze) (u : UnitState) :
    (stage.run p.registry p.plan u).2.log = u.log := by
  cases stage with
  | analyze => exact absurd rfl behind
  | buildIr =>
      simp only [Stage.run]
      split
      · rfl
      · split <;> rfl
  | lower =>
      simp only [Stage.run]
      split
      · split
        · rfl
        · split
          · exact emit_log _ _ _ _ _ _
          · rfl
      · rfl
  | codegen =>
      simp only [Stage.run]
      split
      · exact emit_log _ _ _ _ _ _
      · rfl

/-- Stages behind analysis leave the log alone. -/
theorem course_log {stages : List Stage} (behind : .analyze ∉ stages) (u : UnitState) :
    (p.course stages u).final.log = u.log ∧
      ∀ e ∈ (p.course stages u).events, e.stage ∈ stages ∧ e.state.log = u.log := by
  induction stages generalizing u with
  | nil => exact ⟨rfl, by simp [course]⟩
  | cons stage rest ih =>
      rw [List.mem_cons, not_or] at behind
      have kept := run_log p (fun same => behind.1 same.symm) u
      rw [course]
      rcases ran : stage.run p.registry p.plan u with ⟨fault | progress, u'⟩ <;> rw [ran] at kept
      · refine ⟨kept, fun e member => ?_⟩
        obtain rfl := List.mem_singleton.mp member
        exact ⟨List.mem_cons_self, rfl⟩
      · obtain ⟨final, events⟩ := ih behind.2 u'
        have here : ∀ e ∈ [(⟨.before, stage, u⟩ : Event), ⟨.after, stage, u'⟩],
            e.stage ∈ stage :: rest ∧ e.state.log = u.log := by
          rw [List.forall_mem_cons, List.forall_mem_singleton]
          exact ⟨⟨List.mem_cons_self, rfl⟩, List.mem_cons_self, kept⟩
        cases progress with
        | halt => exact ⟨kept, here⟩
        | go =>
            refine ⟨final.trans kept, fun e member => ?_⟩
            rcases List.mem_append.mp (show e ∈ [_, _] ++ (p.course rest u').events from member) with
              first | later
            · exact here e first
            · exact ⟨List.mem_cons_of_mem _ (events e later).1, (events e later).2.trans kept⟩

section Course

variable {p} {stage : Stage} {rest : List Stage} {u u' : UnitState}

theorem course_error {fault : Fault} (ran : stage.run p.registry p.plan u = (.error fault, u')) :
    p.course (stage :: rest) u = ⟨[⟨.before, stage, u⟩], .error fault, u'⟩ := by
  rw [course, ran]

theorem course_halt (ran : stage.run p.registry p.plan u = (.ok .halt, u')) :
    p.course (stage :: rest) u = ⟨[⟨.before, stage, u⟩, ⟨.after, stage, u'⟩], .ok (), u'⟩ := by
  rw [course, ran]

theorem course_go (ran : stage.run p.registry p.plan u = (.ok .go, u')) :
    p.course (stage :: rest) u =
      ⟨⟨.before, stage, u⟩ :: ⟨.after, stage, u'⟩ :: (p.course rest u').events,
        (p.course rest u').result, (p.course rest u').final⟩ := by
  rw [course, ran]

end Course

/-- How a unit with a module is made an artifact of: the module is lowered, and for a bundle that is the
last stage. -/
theorem course_lowered {a : Analysis} {m : Module} {u : UnitState} (analyzed : u.analysis = some a)
    (built : u.module = some m) (succeeded : (p.course [.lower, .codegen] u).result = .ok ()) :
    ∃ lowered artifact, p.plan.run m a.descriptors = (.ok (), lowered) ∧
      Artifact.generate p.target lowered a.descriptors = .ok artifact ∧
      (p.course [.lower, .codegen] u).final.artifact = some artifact ∧
      (∃ e ∈ (p.course [.lower, .codegen] u).events,
        e.moment = .after ∧ e.stage = .lower ∧ e.state.module = some lowered) ∧
      (p.target = .bundle → ∀ e ∈ (p.course [.lower, .codegen] u).events, e.stage ≠ .codegen) := by
  -- Whatever fails ends the course with a fault, which is no success.
  rcases ran : p.plan.run m a.descriptors with ⟨fault | _, lowered⟩
  · have lower : Stage.lower.run p.registry p.plan u =
        (.error fault, { u with module := some lowered }) := by
      simp only [Stage.run, analyzed, built, ran]
    rw [course_error lower] at succeeded
    cases succeeded
  cases target : p.plan.target with
  | bundle =>
      cases generated : Artifact.generate .bundle lowered a.descriptors with
      | error stop =>
          have lower : Stage.lower.run p.registry p.plan u =
              (.error (Stage.lower.stopFault (Artifact.backendName .bundle) stop),
                { u with module := some lowered }) := by
            simp only [Stage.run, analyzed, built, ran, target, Stage.emit, generated]
          rw [course_error lower] at succeeded
          cases succeeded
      | ok artifact =>
          have lower : Stage.lower.run p.registry p.plan u =
              (.ok .halt, { u with module := some lowered, artifact := some artifact }) := by
            simp only [Stage.run, analyzed, built, ran, target, Stage.emit, generated]
          rw [course_halt lower]
          refine ⟨lowered, artifact, rfl, (show p.target = _ from target) ▸ generated, rfl,
            ⟨_, List.mem_cons_of_mem _ List.mem_cons_self, rfl, rfl, rfl⟩, fun _ => ?_⟩
          rw [List.forall_mem_cons, List.forall_mem_singleton]
          exact ⟨Stage.noConfusion, Stage.noConfusion⟩
  | native =>
      have lower : Stage.lower.run p.registry p.plan u =
          (.ok .go, { u with module := some lowered }) := by
        simp only [Stage.run, analyzed, built, ran, target]
      cases generated : Artifact.generate p.plan.target lowered a.descriptors with
      | error stop =>
          have codegen : Stage.codegen.run p.registry p.plan { u with module := some lowered } =
              (.error (Stage.codegen.stopFault (Artifact.backendName p.plan.target) stop),
                { u with module := some lowered }) := by
            simp only [Stage.run, analyzed, Stage.emit, generated]
          rw [course_go lower, course_error codegen] at succeeded
          cases succeeded
      | ok artifact =>
          have codegen : Stage.codegen.run p.registry p.plan { u with module := some lowered } =
              (.ok .go, { u with module := some lowered, artifact := some artifact }) := by
            simp only [Stage.run, analyzed, Stage.emit, generated]
          rw [course_go lower, course_go codegen]
          refine ⟨lowered, artifact, rfl, generated, rfl,
            ⟨_, List.mem_cons_of_mem _ List.mem_cons_self, rfl, rfl, rfl⟩, fun bundled => ?_⟩
          rw [show p.target = p.plan.target from rfl, target] at bundled
          cases bundled

/-- A unit that analysis accepts and that no later stage fails on is compiled. -/
theorem course_compiled {a : Analysis} {u : UnitState} (analyzed : u.analysis = some a)
    (succeeded : (p.course [.buildIr, .lower, .codegen] u).result = .ok ()) :
    ∃ m lowered artifact, Module.ofTree u.tree a.bindings a.descriptors = .ok m ∧
      p.plan.run m a.descriptors = (.ok (), lowered) ∧
      Artifact.generate p.target lowered a.descriptors = .ok artifact ∧
      (p.course [.buildIr, .lower, .codegen] u).final.artifact = some artifact ∧
      (∃ e ∈ (p.course [.buildIr, .lower, .codegen] u).events,
        e.moment = .after ∧ e.stage = .lower ∧ e.state.module = some lowered) ∧
      (p.target = .bundle →
        ∀ e ∈ (p.course [.buildIr, .lower, .codegen] u).events, e.stage ≠ .codegen) := by
  cases built : Module.ofTree u.tree a.bindings a.descriptors with
  | error fault =>
      have first : Stage.buildIr.run p.registry p.plan u = (.error fault, u) := by
        simp only [Stage.run, analyzed, built]
      rw [course_error first] at succeeded
      cases succeeded
  | ok m =>
      have first : Stage.buildIr.run p.registry p.plan u = (.ok .go, { u with module := some m }) := by
        simp only [Stage.run, analyzed, built]
      rw [course_go first] at succeeded ⊢
      obtain ⟨lowered, artifact, ran, generated, final, ⟨e, member, shown⟩, bundled⟩ :=
        course_lowered p (u := { u with module := some m }) analyzed rfl succeeded
      refine ⟨m, lowered, artifact, rfl, ran, generated, final,
        ⟨e, List.mem_cons_of_mem _ (List.mem_cons_of_mem _ member), shown⟩, fun target => ?_⟩
      rw [List.forall_mem_cons, List.forall_mem_cons]
      exact ⟨Stage.noConfusion, Stage.noConfusion, bundled target⟩

end Stages

/-! ## Analysis -/

/-- What analysis accepts has no errors in the log, and what it rejects has some. -/
theorem conclude_hasErrors {tree : Tree} {registry : Registry} {log log' : Diagnostic.Log}
    {s : Resolution.State} {decision : Analysis.Outcome}
    (decided : Analysis.conclude tree registry log s = (.ok decision, log')) :
    log'.hasErrors = true ↔ decision = .rejected := by
  unfold Analysis.conclude at decided
  split at decided
  · cases decided
  split at decided
  · cases decided
  split at decided
  · cases decided
  split at decided
  · rename_i loud
    cases decided
    exact iff_of_true loud rfl
  · rename_i quiet
    split at decided
    · cases decided
    · cases decided
      exact iff_of_false quiet Analysis.Outcome.noConfusion

/-- The stages of a mode behind analysis. -/
def laterStages : Mode → List Stage
  | .check => []
  | .build => [.buildIr, .lower, .codegen]

/-- The state of a unit behind its analysis. -/
def analyzed (p : Pipeline) (tree : Tree) (analysis : Option Analysis) : UnitState :=
  ⟨tree, (analyze tree p.registry {}).log, analysis, none, none⟩

/-- A unit whose analysis fails ends there, and so does one that is rejected, which has errors; one that
is accepted has none and goes on.  The mode has no part in it. -/
theorem unitCourse_cases (p : Pipeline) (tree : Tree) :
    (∃ fault, ∀ mode, p.unitCourse mode tree =
      ⟨[⟨.before, .analyze, { tree := tree }⟩], .error fault, p.analyzed tree none⟩) ∨
    ((p.analyzed tree none).log.hasErrors = true ∧ ∀ mode, p.unitCourse mode tree =
      ⟨[⟨.before, .analyze, { tree := tree }⟩, ⟨.after, .analyze, p.analyzed tree none⟩], .ok (),
        p.analyzed tree none⟩) ∨
    ∃ a, (p.analyzed tree (some a)).log.hasErrors = false ∧ ∀ mode, p.unitCourse mode tree =
      ⟨⟨.before, .analyze, { tree := tree }⟩ :: ⟨.after, .analyze, p.analyzed tree (some a)⟩ ::
          (p.course (laterStages mode) (p.analyzed tree (some a))).events,
        (p.course (laterStages mode) (p.analyzed tree (some a))).result,
        (p.course (laterStages mode) (p.analyzed tree (some a))).final⟩ := by
  have first : ∀ mode, p.unitCourse mode tree =
      p.course (.analyze :: laterStages mode) { tree := tree } := by
    intro mode
    cases mode <;> rfl
  simp only [first]
  rcases outcome : (analyze tree p.registry {}).outcome with fault | decision
  · have ran : Stage.analyze.run p.registry p.plan { tree := tree } =
        (.error fault, p.analyzed tree none) := by
      simp only [Stage.run, outcome, analyzed]
    exact Or.inl ⟨fault, fun _ => course_error ran⟩
  have errors := conclude_hasErrors (Prod.ext outcome rfl)
  cases decision with
  | rejected =>
      have ran : Stage.analyze.run p.registry p.plan { tree := tree } =
          (.ok .halt, p.analyzed tree none) := by
        simp only [Stage.run, outcome, analyzed]
      exact Or.inr (Or.inl ⟨errors.mpr rfl, fun _ => course_halt ran⟩)
  | accepted a =>
      have ran : Stage.analyze.run p.registry p.plan { tree := tree } =
          (.ok .go, p.analyzed tree (some a)) := by
        simp only [Stage.run, outcome, analyzed]
      have clean := Bool.not_eq_true _ ▸ mt errors.mp Analysis.Outcome.noConfusion
      exact Or.inr (Or.inr ⟨a, clean, fun _ => course_go ran⟩)

end Pipeline

end StagedCompiler
