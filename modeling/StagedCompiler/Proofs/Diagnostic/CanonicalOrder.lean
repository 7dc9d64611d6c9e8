import StagedCompiler.Diagnostic
import StagedCompiler.Proofs.Ordering

/-!
# Diagnostics in a canonical order

* A diagnostic is sorted by its `Key`: the unit, the place in the unit, and the rank of the reporter.  The
  path of the place is no part of it, so many diagnostics may have one key.
* A log holds what was reported before it was closed (`items_run`), and its sorted form holds the same
  diagnostics by ascending keys, those with one key in the order in which they were reported
  (`sorted_filter`).
* This leaves one list only: reports that agree on what was said under each key, in which order, give
  the same sorted list, however they were interleaved.
-/

namespace StagedCompiler.Diagnostic

/-! ## Keys -/

/-- What diagnostics are sorted by. -/
structure Key : Type where
  unit : String
  order : Nat
  rank : Nat
  deriving DecidableEq, Repr

/-- The key of a diagnostic. -/
def key (d : Diagnostic) : Key := ⟨d.location.unit, d.location.order, d.reporter.rank⟩

/-- The order of keys: by unit, then by place, then by rank.  Units are compared by their characters,
which comes to the same as by their bytes (`Ordering.utf8_lt`). -/
def Key.Le (a b : Key) : Prop :=
  a.unit < b.unit ∨ a.unit = b.unit ∧ (a.order < b.order ∨ a.order = b.order ∧ a.rank ≤ b.rank)

namespace Key

theorem le_total (a b : Key) : a.Le b ∨ b.Le a := by
  rcases lt_trichotomy a.unit b.unit with less | same | more
  · exact .inl (.inl less)
  · have orders : a.order < b.order ∨ a.order = b.order ∧ a.rank ≤ b.rank ∨
        b.order < a.order ∨ b.order = a.order ∧ b.rank ≤ a.rank := by omega
    rcases orders with first | first | first | first
    · exact .inl (.inr ⟨same, .inl first⟩)
    · exact .inl (.inr ⟨same, .inr first⟩)
    · exact .inr (.inr ⟨same.symm, .inl first⟩)
    · exact .inr (.inr ⟨same.symm, .inr first⟩)
  · exact .inr (.inl more)

theorem Le.trans {a b c : Key} (first : a.Le b) (second : b.Le c) : a.Le c := by
  rcases first with less | ⟨same, first⟩
  · rcases second with less' | ⟨same', -⟩
    · exact .inl (less.trans less')
    · exact .inl (same' ▸ less)
  · rcases second with less' | ⟨same', second⟩
    · exact .inl (same ▸ less')
    · exact .inr ⟨same.trans same', by omega⟩

/-- Keys that are not before one another are the same. -/
theorem Le.antisymm {a b : Key} (first : a.Le b) (second : b.Le a) : a = b := by
  rcases first with less | ⟨same, first⟩
  · rcases second with less' | ⟨same', -⟩
    · exact absurd less less'.asymm
    · exact absurd same' less.ne'
  · rcases second with less' | ⟨-, second⟩
    · exact absurd same less'.ne'
    · obtain ⟨orders, ranks⟩ : a.order = b.order ∧ a.rank = b.rank := by omega
      rcases a with ⟨unit, order, rank⟩
      rcases b with ⟨unit', order', rank'⟩
      simp_all

end Key

theorem then_ne_gt_iff {α : Type} [LinearOrder α] {a b : α} {later : Ordering} :
    ((compare a b).then later != .gt) = true ↔ a < b ∨ a = b ∧ (later != .gt) = true := by
  rw [← compare_lt_iff_lt, ← compare_eq_iff_eq (a := a)]
  cases compare a b <;> simp

/-- The comparison of diagnostics is that of their keys. -/
theorem le_iff {a b : Diagnostic} : a.le b = true ↔ a.key.Le b.key := by
  have ranks : (compare a.reporter.rank b.reporter.rank != .gt) = true ↔
      a.reporter.rank ≤ b.reporter.rank := by
    rw [← compare_le_iff_le, bne_iff_ne]
  have flat : ∀ first second third : Ordering,
      (first.then second).then third = first.then (second.then third) := by
    intro first second third
    cases first <;> rfl
  rw [le, Location.compare, flat, then_ne_gt_iff, then_ne_gt_iff, ranks]
  rfl

theorem le_trans (a b c : Diagnostic) (first : a.le b = true) (second : b.le c = true) :
    a.le c = true :=
  le_iff.mpr (Key.Le.trans (le_iff.mp first) (le_iff.mp second))

theorem le_total (a b : Diagnostic) : (a.le b || b.le a) = true := by
  rw [Bool.or_eq_true, le_iff, le_iff]
  exact a.key.le_total b.key

/-- Diagnostics have the same rank among others if they have the same key. -/
theorem same_le_iff {a b : Diagnostic} : Ordering.same le a b = true ↔ b.key = a.key := by
  rw [Ordering.same, Bool.and_eq_true, le_iff, le_iff]
  constructor
  · exact fun both => Key.Le.antisymm both.2 both.1
  · intro same
    have self : a.key.Le a.key := (a.key.le_total a.key).elim id id
    rw [same]
    exact ⟨self, self⟩

/-- The diagnostic, with another path to its place. -/
def withPath (path : String) (d : Diagnostic) : Diagnostic :=
  { d with location := { d.location with path := path } }

namespace Log

/-! ## Logs -/

/-- What is done to a log: a diagnostic is reported, or the log is closed. -/
inductive Step : Type where
  | report (d : Diagnostic)
  | close

/-- The log behind a step.  A closed log takes no diagnostic. -/
def after (log : Log) : Step → Log
  | .report d => (log.push? d).getD log
  | .close => log.close

/-- The log behind steps one after another, from the beginning. -/
def run (steps : List Step) : Log := steps.foldl after empty

/-- The diagnostics that were reported before the log was closed. -/
def reported : List Step → List Diagnostic
  | [] | .close :: _ => []
  | .report d :: rest => d :: reported rest

theorem after_of_sealed {log : Log} (closed : log.isSealed = true) (step : Step) :
    log.after step = log := by
  rcases log with ⟨items, isSealed⟩
  obtain rfl : isSealed = true := closed
  cases step <;> rfl

theorem foldl_of_sealed {log : Log} (closed : log.isSealed = true) (steps : List Step) :
    steps.foldl after log = log := by
  induction steps with
  | nil => rfl
  | cons step rest ih => rw [List.foldl_cons, after_of_sealed closed, ih]

/-- An open log gets what is reported, behind what it holds. -/
theorem items_foldl (items : List Diagnostic) (steps : List Step) :
    (steps.foldl after ⟨items, false⟩).items = items ++ reported steps := by
  induction steps generalizing items with
  | nil => exact (List.append_nil items).symm
  | cons step rest ih =>
      rw [List.foldl_cons]
      cases step with
      | report d =>
          rw [show after ⟨items, false⟩ (.report d) = ⟨items ++ [d], false⟩ from rfl, ih,
            List.append_assoc]
          rfl
      | close =>
          rw [show after ⟨items, false⟩ .close = ⟨items, true⟩ from rfl, foldl_of_sealed rfl]
          exact (List.append_nil items).symm

theorem items_run (steps : List Step) : (run steps).items = reported steps :=
  items_foldl [] steps

/-! ## Sorted logs -/

theorem sorted_perm (log : Log) : log.sorted.Perm log.items := List.mergeSort_perm _ _

theorem sorted_ascending (log : Log) : log.sorted.Pairwise fun a b => a.key.Le b.key :=
  (List.pairwise_mergeSort le_trans le_total log.items).imp le_iff.mp

/-- Diagnostics with the same key keep the order in which they were reported. -/
theorem sorted_filter (log : Log) (k : Key) :
    log.sorted.filter (·.key = k) = log.items.filter (·.key = k) := by
  refine Ordering.filter_mergeSort le_trans le_total (fun b c first second => ?_) log.items
  have same : b.key = c.key := (of_decide_eq_true first).trans (of_decide_eq_true second).symm
  exact (Bool.and_eq_true_iff.mp (same_le_iff.mpr same.symm)).1

/-- Logs with the same diagnostics under each key, in the same order, have the same sorted form. -/
theorem sorted_eq {log log' : Log}
    (alike : ∀ k, log.items.filter (·.key = k) = log'.items.filter (·.key = k)) :
    log.sorted = log'.sorted := by
  have sorted : log'.sorted.Pairwise (le · ·) := List.pairwise_mergeSort le_trans le_total _
  refine Ordering.mergeSort_eq le_trans le_total sorted fun a => ?_
  have keys : Ordering.same le a = fun b => decide (b.key = a.key) := by
    funext b
    rw [Bool.eq_iff_iff, same_le_iff, decide_eq_true_iff]
  rw [keys, alike, sorted_filter]

/-- The log, with other paths to the places of its diagnostics. -/
def withPaths (path : Diagnostic → String) (log : Log) : Log :=
  { log with items := log.items.map fun d => withPath (path d) d }

/-- Sorting does not look at paths. -/
theorem sorted_withPaths (path : Diagnostic → String) (log : Log) :
    (log.withPaths path).sorted = log.sorted.map fun d => withPath (path d) d :=
  (List.map_mergeSort (f := fun d => withPath (path d) d) fun _ _ _ _ => rfl).symm

/-- The sorted form of a log is canonical.  It is a permutation of what was reported before the log was
closed, ascending in the keys, and stable; so reports that agree under each key are sorted to the same
list, however they were interleaved, and other paths of the same places change nothing but the paths. -/
theorem sorted_canonical :
    (∀ steps : List Step,
      (run steps).sorted.Perm (reported steps) ∧
      (run steps).sorted.Pairwise (fun a b => a.key.Le b.key) ∧
      ∀ k, (run steps).sorted.filter (·.key = k) = (reported steps).filter (·.key = k)) ∧
    (∀ steps steps' : List Step,
      (∀ k, (reported steps).filter (·.key = k) = (reported steps').filter (·.key = k)) →
        (run steps).sorted = (run steps').sorted) ∧
    ∀ (path : Diagnostic → String) (log : Log),
      (log.withPaths path).sorted = log.sorted.map fun d => withPath (path d) d := by
  refine ⟨fun steps => ⟨?_, sorted_ascending _, fun k => ?_⟩, fun steps steps' alike => ?_,
    sorted_withPaths⟩
  · rw [← items_run]
    exact sorted_perm _
  · rw [sorted_filter, items_run]
  · refine sorted_eq fun k => ?_
    rw [items_run, items_run, alike]

/-- A misnamed function, reported by the fourth extension. -/
def misnamed : Diagnostic :=
  ⟨.warning, ⟨"main", 5, "items[0]"⟩, "function `F` should be snake_case", "N0001",
    .extension "naming/naming" 4⟩

/-- A forbidden call at the same place, reported by the first extension. -/
def forbidden : Diagnostic :=
  ⟨.error, ⟨"main", 5, "items[0].body[1]"⟩, "call to forbidden function `print`", "F0001",
    .extension "forbid-calls/forbid-calls" 1⟩

/-- Two reporters at one place can run in either order; what is reported behind the end is not in the
log. -/
theorem sorted_canonical_swapped :
    (∀ k, (reported [.report misnamed, .report forbidden, .close, .report misnamed]).filter (·.key = k) =
      (reported [.report forbidden, .report misnamed]).filter (·.key = k)) ∧
    (run [.report misnamed, .report forbidden, .close, .report misnamed]).sorted =
      (run [.report forbidden, .report misnamed]).sorted := by
  have alike : ∀ k,
      (reported [.report misnamed, .report forbidden, .close, .report misnamed]).filter (·.key = k) =
        (reported [.report forbidden, .report misnamed]).filter (·.key = k) := by
    intro k
    simp only [reported, List.filter_cons, List.filter_nil]
    by_cases here : misnamed.key = k
    · have apart : forbidden.key ≠ k := here ▸ by decide
      simp [here, apart]
    · simp [here]
  exact ⟨alike, sorted_canonical.2.1 _ _ alike⟩

end Log

end StagedCompiler.Diagnostic
