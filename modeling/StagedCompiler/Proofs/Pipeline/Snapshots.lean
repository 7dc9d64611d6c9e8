import StagedCompiler.Pipeline.Snapshot
import StagedCompiler.Proofs.Ordering
import StagedCompiler.Proofs.Pipeline.Course
import StagedCompiler.Proofs.Source.Numbering

/-!
# Snapshots under any schedule

Units may be compiled at the same time.  Each shows its own events to the observer in order, but the
observer sees the events of different units in turns, and nothing says in which: it sees some
`Interleaving` of them.

* An interleaving keeps the events of each unit as they were (`Interleaving.filter_key`).
* The observer keeps one snapshot of every event behind a stage (`kept_eq`), and a unit shows one for
  every stage that it completes (`snapshots_course`).
* A stable sort by name then has nothing left of the schedule (`listed_kept`).  So the snapshots of a run
  are those of its units, by name (`snapshots_of_schedule`).
-/

namespace StagedCompiler

open Source (eq_ok_of_toOption)

/-! ## Schedules -/

/-- An order in which all members of some sequences can come up: the next one is always the first that
is left of some sequence. -/
inductive Interleaving {α : Type} : List (List α) → List α → Prop
  | done {sequences : List (List α)} (ended : ∀ l ∈ sequences, l = []) : Interleaving sequences []
  | step {before after : List (List α)} {x : α} {rest order : List α}
      (later : Interleaving (before ++ rest :: after) order) :
      Interleaving (before ++ (x :: rest) :: after) (x :: order)

namespace Interleaving

variable {α κ : Type}

/-- One after another. -/
theorem flatten (sequences : List (List α)) : Interleaving sequences sequences.flatten := by
  -- Sequences that are over stay in front.
  have behind : ∀ before : List (List α), (∀ l ∈ before, l = []) →
      Interleaving (before ++ sequences) sequences.flatten := by
    induction sequences with
    | nil =>
        intro before ended
        rw [List.append_nil]
        exact .done ended
    | cons first others ih =>
        intro before ended
        induction first with
        | nil =>
            have grown : ∀ l ∈ before ++ [[]], l = [] :=
              List.forall_mem_append.mpr ⟨ended, List.forall_mem_singleton.mpr rfl⟩
            simpa using ih (before ++ [[]]) grown
        | cons x rest later => exact .step later
  exact behind [] (fun _ member => nomatch member)

/-- If members of different sequences differ in their keys, the members with a key come up in their own
order, whatever comes up between them. -/
theorem filter_key [BEq κ] [LawfulBEq κ] {key : α → κ} {sequences : List (List α)} {order : List α}
    (interleaved : Interleaving sequences order)
    (apart : sequences.Pairwise fun l l' => ∀ x ∈ l, ∀ y ∈ l', key x ≠ key y) (k : κ) :
    order.filter (key · == k) = sequences.flatten.filter (key · == k) := by
  induction interleaved with
  | done ended => rw [List.flatten_eq_nil_iff.mpr ended]
  | @step before after x rest order _ ih =>
      rw [List.pairwise_append, List.pairwise_cons] at apart
      obtain ⟨first, ⟨here, last⟩, across⟩ := apart
      have later := ih <| List.pairwise_append.mpr ⟨first,
        List.pairwise_cons.mpr ⟨fun l among y member => here l among y (List.mem_cons_of_mem _ member),
          last⟩,
        fun l among l' among' => by
          rcases List.mem_cons.mp among' with rfl | further
          · exact fun a member b member' =>
              across l among _ List.mem_cons_self a member b (List.mem_cons_of_mem _ member')
          · exact across l among l' (List.mem_cons_of_mem _ further)⟩
      simp only [List.flatten_append, List.flatten_cons, List.filter_append] at later ⊢
      by_cases mine : (key x == k) = true
      · -- Sequences before that of `x` have no member with its key.
        have others : before.flatten.filter (key · == k) = [] := by
          refine List.filter_eq_nil_iff.mpr fun y member same => ?_
          obtain ⟨l, among, member⟩ := List.mem_flatten.mp member
          exact across l among _ List.mem_cons_self y member x List.mem_cons_self
            ((eq_of_beq same).trans (eq_of_beq mine).symm)
        rw [List.filter_cons, List.filter_cons, if_pos mine, if_pos mine, later, others]
        rfl
      · rw [List.filter_cons, List.filter_cons, if_neg mine, if_neg mine, later]

/-- Turn by turn. -/
def turns : List α → List α → List α
  | [], ys => ys
  | x :: xs, [] => x :: xs
  | x :: xs, y :: ys => x :: y :: turns xs ys

theorem of_turns (xs ys : List α) : Interleaving [xs, ys] (turns xs ys) := by
  induction xs generalizing ys with
  | nil => simpa [turns] using flatten [[], ys]
  | cons x xs ih =>
      cases ys with
      | nil => simpa [turns] using flatten [x :: xs, []]
      | cons y ys => exact @step _ [] [y :: ys] x xs _ (@step _ [xs] [] y ys _ (ih ys))

end Interleaving

/-- What has a property among what some members give, if it shows in the member. -/
theorem filter_flatMap_own {α β : Type} {l : List α} {g : α → List β} {p : α → Bool} {q : β → Bool}
    (own : ∀ a ∈ l, ∀ b ∈ g a, q b = p a) : (l.flatMap g).filter q = (l.filter p).flatMap g := by
  induction l with
  | nil => rfl
  | cons a rest ih =>
      rw [List.forall_mem_cons] at own
      rw [List.flatMap_cons, List.filter_append, ih own.2]
      by_cases mine : p a = true
      · rw [List.filter_eq_self.mpr fun b member => (own.1 b member).trans mine,
          List.filter_cons_of_pos mine, List.flatMap_cons]
      · rw [List.filter_eq_nil_iff.mpr fun b member => own.1 b member ▸ mine,
          List.filter_cons_of_neg mine, List.nil_append]

/-! ## Snapshots that are kept -/

namespace Snapshot

/-- Keeps a snapshot behind those that are kept already. -/
def keep (s : Snapshot) : StateM (List Snapshot) (Option String) := do
  modify (· ++ [s])
  pure none

/-- Keeps a snapshot behind every stage. -/
def keeper : Observer (StateM (List Snapshot)) := observer keep

theorem keeper_succeeds : ∀ o ∈ [keeper], o.Succeeds := by
  rw [List.forall_mem_singleton]
  intro moment stage u
  cases moment <;> rfl

end Snapshot

namespace Pipeline

/-- The snapshots of an event: one if it is behind a stage. -/
def Event.snapshots (e : Event) : List Snapshot :=
  match e.moment with
  | .before => []
  | .after => [.capture e.stage e.state]

/-- The name of the unit that an event is about. -/
def Event.unit (e : Event) : String := e.state.tree.unit

/-- What is kept of events that come up in an order. -/
def kept (order : List Event) : List Snapshot :=
  ((forM order (Event.show [Snapshot.keeper])).run []).2

theorem run_show (e : Event) (all : List Snapshot) :
    (Event.show [Snapshot.keeper] e).run all = ((), all ++ e.snapshots) := by
  rcases e with ⟨_ | _, stage, u⟩
  · exact Prod.ext rfl (List.append_nil all).symm
  · rfl

theorem run_forM_show (order : List Event) (all : List Snapshot) :
    (forM order (Event.show [Snapshot.keeper])).run all = ((), all ++ order.flatMap Event.snapshots) := by
  induction order generalizing all with
  | nil => exact Prod.ext rfl (List.append_nil all).symm
  | cons e rest ih =>
      rw [List.forM_cons, StateT.run_bind, run_show, List.flatMap_cons, ← List.append_assoc]
      exact ih _

/-- One snapshot is kept of each event behind a stage. -/
theorem kept_eq (order : List Event) : kept order = order.flatMap Event.snapshots := by
  rw [kept, run_forM_show, List.nil_append]

theorem unit_of_mem_snapshots {e : Event} {s : Snapshot} (taken : s ∈ e.snapshots) :
    s.unit = e.unit := by
  rcases e with ⟨_ | _, stage, u⟩
  · exact nomatch taken
  · rw [List.mem_singleton.mp taken]
    rfl

/-! ## Stages that are completed -/

/-- The stages that a unit completes, with what is known about it behind each. -/
def completed (p : Pipeline) : List Stage → UnitState → List (Stage × UnitState)
  | [], _ => []
  | stage :: rest, u =>
    match stage.run p.registry p.plan u with
    | (.error _, _) => []
    | (.ok .halt, u') => [(stage, u')]
    | (.ok .go, u') => (stage, u') :: completed p rest u'

section Course

variable (p : Pipeline)

/-- A unit shows one snapshot for every stage that it completes. -/
theorem snapshots_course (stages : List Stage) (u : UnitState) :
    (p.course stages u).events.flatMap Event.snapshots =
      (p.completed stages u).map fun c => .capture c.1 c.2 := by
  induction stages generalizing u with
  | nil => rfl
  | cons stage rest ih =>
      rw [course, completed]
      rcases stage.run p.registry p.plan u with ⟨fault | _ | _, u'⟩
      · rfl
      · exact congrArg (Snapshot.capture stage u' :: ·) (ih u')
      · rfl

/-- What a unit completes is the beginning of what it is taken through. -/
theorem completed_isPrefix (stages : List Stage) (u : UnitState) :
    (p.completed stages u).map Prod.fst <+: stages := by
  induction stages generalizing u with
  | nil => exact List.nil_prefix
  | cons stage rest ih =>
      rw [completed]
      rcases stage.run p.registry p.plan u with ⟨fault | _ | _, u'⟩
      · exact List.nil_prefix
      · exact (List.prefix_cons_inj stage).mpr (ih u')
      · exact (List.prefix_cons_inj stage).mpr List.nil_prefix

theorem run_tree (stage : Stage) (u : UnitState) :
    (stage.run p.registry p.plan u).2.tree = u.tree := by
  have emit : ∀ (target : Target) (m : Module) (a : Analysis) (u : UnitState) (progress : Progress),
      (stage.emit target m a u progress).2.tree = u.tree := by
    intro target m a u progress
    unfold Stage.emit
    split <;> rfl
  unfold Stage.run
  split
  · dsimp only
    split <;> rfl
  · split
    · rfl
    · split <;> rfl
  · split
    · split
      · rfl
      · dsimp only
        split
        · exact emit _ _ _ _ _
        · rfl
    · rfl
  · split
    · exact emit _ _ _ _ _
    · rfl

/-- All events of a unit are about it. -/
theorem course_unit (stages : List Stage) (u : UnitState) :
    ∀ e ∈ (p.course stages u).events, e.unit = u.tree.unit := by
  induction stages generalizing u with
  | nil => exact fun _ member => nomatch member
  | cons stage rest ih =>
      have kept := congrArg Tree.unit (run_tree p stage u)
      rw [course]
      rcases ran : stage.run p.registry p.plan u with ⟨fault | _ | _, u'⟩ <;> rw [ran] at kept
      · simp [Event.unit]
      · have later := ih u'
        simp only [List.forall_mem_cons]
        exact ⟨rfl, kept, fun e member => (later e member).trans kept⟩
      · simpa [Event.unit] using kept

end Course

/-! ## Units by name -/

/-- Units in the order of their names. -/
def byName (units : List Tree) : List Tree := units.mergeSort fun a b => a.unit ≤ b.unit

theorem byName_perm (units : List Tree) : (byName units).Perm units := List.mergeSort_perm units _

/-- The names of units ascend, also by their bytes. -/
theorem byName_ascending {units : List Tree} (valid : validateUnits units = .ok ()) :
    (byName units).Pairwise fun a b =>
      a.unit < b.unit ∧ Ordering.utf8 a.unit < Ordering.utf8 b.unit := by
  have distinct : (byName units).Pairwise fun a b => a.unit ≠ b.unit :=
    List.pairwise_map.mp (((byName_perm units).map _).nodup_iff.mpr (validateUnits_eq_ok_iff.mp valid))
  have sorted : (byName units).Pairwise (Ordering.byText Tree.unit · ·) :=
    List.pairwise_mergeSort (Ordering.byText_trans _) (Ordering.byText_total _) units
  refine (sorted.and distinct).imp fun {a b} both => ?_
  have less : a.unit < b.unit := lt_of_le_of_ne (of_decide_eq_true both.1) both.2
  exact ⟨less, Ordering.utf8_lt less⟩

theorem filter_byName (units : List Tree) (name : String) :
    (byName units).filter (·.unit == name) = units.filter (·.unit == name) := by
  refine Ordering.filter_mergeSort (Ordering.byText_trans Tree.unit) (Ordering.byText_total _)
    (fun a b first second => Ordering.byText_of_eq _ ?_) units
  exact (eq_of_beq first).trans (eq_of_beq second).symm

/-- The order in which events come up does not show: the snapshots are those of the units, by name. -/
theorem listed_kept {units : List Tree} (valid : validateUnits units = .ok ())
    {shown : Tree → List Event} (own : ∀ tree ∈ units, ∀ e ∈ shown tree, e.unit = tree.unit)
    {order : List Event} (interleaved : Interleaving (units.map shown) order) :
    Snapshot.listed (kept order) =
      (byName units).flatMap fun tree => (shown tree).flatMap Event.snapshots := by
  have named : ∀ tree ∈ units, ∀ s ∈ (shown tree).flatMap Event.snapshots, s.unit = tree.unit := by
    intro tree among s member
    obtain ⟨e, event, taken⟩ := List.mem_flatMap.mp member
    rw [unit_of_mem_snapshots taken, own tree among e event]
  have named' : ∀ tree ∈ byName units, ∀ s ∈ (shown tree).flatMap Event.snapshots,
      s.unit = tree.unit := fun tree among => named tree ((byName_perm units).mem_iff.mp among)
  have apart : (units.map shown).Pairwise fun l l' => ∀ x ∈ l, ∀ y ∈ l', x.unit ≠ y.unit := by
    refine List.pairwise_map.mpr (List.Pairwise.imp_of_mem ?_
      (List.pairwise_map.mp (validateUnits_eq_ok_iff.mp valid)))
    intro a b among among' different x member y member' same
    exact different (own a among x member ▸ own b among' y member' ▸ same)
  refine Ordering.mergeSort_eq (Ordering.byText_trans Snapshot.unit) (Ordering.byText_total _)
    (List.pairwise_flatMap.mpr ⟨fun tree among => ?_, ?_⟩) fun a => ?_
  · refine List.pairwise_of_forall_mem_list fun s member s' member' => Ordering.byText_of_eq _ ?_
    rw [named' tree among s member, named' tree among s' member']
  · refine (byName_ascending valid).imp_of_mem fun {a b} among among' less s member s' member' => ?_
    rw [Ordering.byText, named' a among s member, named' b among' s' member']
    exact decide_eq_true (le_of_lt less.1)
  rw [Ordering.same_byText, kept_eq]
  calc (order.flatMap Event.snapshots).filter (·.unit == a.unit)
    _ = (order.filter (·.unit == a.unit)).flatMap Event.snapshots :=
        filter_flatMap_own fun e _ s taken => by rw [unit_of_mem_snapshots taken]
    _ = ((units.map shown).flatten.filter (·.unit == a.unit)).flatMap Event.snapshots := by
        rw [interleaved.filter_key apart]
    _ = ((units.map shown).flatten.flatMap Event.snapshots).filter (·.unit == a.unit) :=
        (filter_flatMap_own fun e _ s taken => by rw [unit_of_mem_snapshots taken]).symm
    _ = (units.flatMap fun tree => (shown tree).flatMap Event.snapshots).filter (·.unit == a.unit) := by
        rw [← List.flatMap_def, List.flatMap_assoc]
    _ = (units.filter (·.unit == a.unit)).flatMap fun tree => (shown tree).flatMap Event.snapshots :=
        filter_flatMap_own fun tree among s member => by rw [named tree among s member]
    _ = ((byName units).filter (·.unit == a.unit)).flatMap fun tree =>
          (shown tree).flatMap Event.snapshots := by
        rw [filter_byName]
    _ = ((byName units).flatMap fun tree => (shown tree).flatMap Event.snapshots).filter
          (·.unit == a.unit) :=
        (filter_flatMap_own fun tree among s member => by rw [named' tree among s member]).symm

/-- Snapshots do not depend on scheduling.  Units that can be run together have an order by name, which
ascends by bytes.  Whatever each of them shows to the observer, and in whatever turns they take, the
snapshots that are kept are listed by unit in that order, and those of a unit as it showed them, one for
each event behind a stage.  In a run with this observer alone a unit shows the events of its course, so
its snapshots are those of the stages that it completes, from analysis on; and units that run one after
another are one such schedule. -/
theorem snapshots_of_schedule {units : List Tree} (valid : validateUnits units = .ok ()) :
    ((byName units).Perm units ∧
      (byName units).Pairwise fun a b => Ordering.utf8 a.unit < Ordering.utf8 b.unit) ∧
    (∀ shown : Tree → List Event, (∀ tree ∈ units, ∀ e ∈ shown tree, e.unit = tree.unit) →
      ∀ order, Interleaving (units.map shown) order → Snapshot.listed (kept order) =
        (byName units).flatMap fun tree => (shown tree).flatMap Event.snapshots) ∧
    ∀ (p : Pipeline) (mode : Mode),
      (∀ tree, p.runUnit [Snapshot.keeper] mode tree = (do
        forM (p.unitCourse mode tree).events (Event.show [Snapshot.keeper])
        pure ((p.unitCourse mode tree).report tree))) ∧
      (∀ order, Interleaving (units.map fun tree => (p.unitCourse mode tree).events) order →
        Snapshot.listed (kept order) = (byName units).flatMap fun tree =>
          (p.completed mode.stages { tree := tree }).map fun c => .capture c.1 c.2) ∧
      (∀ tree, (p.completed mode.stages { tree := tree }).map Prod.fst <+: Stage.all) ∧
      Snapshot.listed ((p.run [Snapshot.keeper] mode units).run []).2 =
        (byName units).flatMap fun tree =>
          (p.completed mode.stages { tree := tree }).map fun c => .capture c.1 c.2 := by
  have scheduled : ∀ (p : Pipeline) (mode : Mode) (order : List Event),
      Interleaving (units.map fun tree => (p.unitCourse mode tree).events) order →
      Snapshot.listed (kept order) = (byName units).flatMap fun tree =>
        (p.completed mode.stages { tree := tree }).map fun c => .capture c.1 c.2 := by
    intro p mode order interleaved
    rw [listed_kept valid (fun tree _ => course_unit p mode.stages { tree := tree }) interleaved]
    exact congrArg (List.flatMap · (byName units)) (funext fun tree => snapshots_course p _ _)
  refine ⟨⟨byName_perm units, (byName_ascending valid).imp fun both => both.2⟩,
    fun shown own order interleaved => listed_kept valid own interleaved,
    fun p mode => ⟨runUnit_of_succeeds Snapshot.keeper_succeeds p mode, scheduled p mode,
      fun tree => ?_, ?_⟩⟩
  · refine (completed_isPrefix p mode.stages _).trans ?_
    cases mode <;> decide
  · rw [run_of_succeeds Snapshot.keeper_succeeds p mode valid, List.flatMap_def]
    exact scheduled p mode _ (Interleaving.flatten _)

/-- `triple(n: int): int` returns `n + n + n`. -/
def triple : Source.Draft where
  items := [ .function () "triple" [] [⟨(), "n", ⟨(), "int"⟩⟩] (some ⟨(), "int"⟩)
    [.ret () (some (.binary () .add (.ref () "n") (.binary () .add (.ref () "n") (.ref () "n"))))] ]

/-- `lost()` returns a name that nothing declares. -/
def lost : Source.Draft where
  items := [.function () "lost" [] [] none [.ret () (some (.ref () "nowhere"))]]

/-- The names of a unit that compiles and of one that is rejected, with the stages they complete. -/
def twoUnits? : Option ((String × List (String × Stage)) × String × List (String × Stage)) := do
  let p ← (build .host .native).toOption
  let first ← (triple.assemble "beta").toOption
  let second ← (lost.assemble "alpha").toOption
  let stages (tree : Tree) :=
    (p.completed Stage.all { tree := tree }).map fun c => (c.2.tree.unit, c.1)
  pure ((first.unit, stages first), second.unit, stages second)

/-- The units take turns. -/
theorem snapshots_of_schedule_turns : ∃ p first second order,
    build .host .native = .ok p ∧ triple.assemble "beta" = .ok first ∧
    lost.assemble "alpha" = .ok second ∧ validateUnits [first, second] = .ok () ∧
    Interleaving [(p.unitCourse .build first).events, (p.unitCourse .build second).events] order ∧
    order = Interleaving.turns (p.unitCourse .build first).events (p.unitCourse .build second).events ∧
    (Snapshot.listed (kept order)).map (fun s => (s.unit, s.stage)) =
      [("alpha", .analyze), ("beta", .analyze), ("beta", .buildIr), ("beta", .lower),
        ("beta", .codegen)] := by
  have ran : twoUnits? = some (("beta", [("beta", .analyze), ("beta", .buildIr), ("beta", .lower),
      ("beta", .codegen)]), "alpha", [("alpha", .analyze)]) := by
    decide +kernel
  obtain ⟨p, built, ran⟩ := Option.bind_eq_some_iff.mp ran
  obtain ⟨first, assembled, ran⟩ := Option.bind_eq_some_iff.mp ran
  obtain ⟨second, assembled', ran⟩ := Option.bind_eq_some_iff.mp ran
  obtain ⟨⟨named, stages⟩, named', stages'⟩ : (_ ∧ _) ∧ _ ∧ _ := by
    simpa only [Option.pure_def, Option.some.injEq, Prod.mk.injEq] using ran
  have valid : validateUnits [first, second] = .ok () := by
    refine validateUnits_eq_ok_iff.mpr ?_
    rw [List.map_cons, List.map_cons, named, named']
    decide
  have sorted : byName [first, second] = [second, first] := by
    simp [byName, List.mergeSort, named, named']
  have interleaved := Interleaving.of_turns (p.unitCourse .build first).events
    (p.unitCourse .build second).events
  have listed := ((snapshots_of_schedule valid).2.2 p .build).2.1 _ interleaved
  refine ⟨p, first, second, _, eq_ok_of_toOption built, eq_ok_of_toOption assembled,
    eq_ok_of_toOption assembled', valid, interleaved, rfl, ?_⟩
  rw [listed, sorted, List.map_flatMap, List.flatMap_cons, List.flatMap_singleton]
  simp only [List.map_map]
  exact congrArg₂ (· ++ ·) stages' stages

end Pipeline

end StagedCompiler
