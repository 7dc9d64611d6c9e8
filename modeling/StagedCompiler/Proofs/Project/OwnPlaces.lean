import Mathlib.Tactic.ByContra
import Mathlib.Tactic.WLOG
import StagedCompiler.Pipeline.Snapshot
import StagedCompiler.Proofs.Project.Places
import StagedCompiler.Proofs.Source.Rejection

/-!
# What a unit writes stays in its own place

* `Path.Rules` says what counts in a path.
* An artifact lies directly in the directory that it is written to (`Artifact.path_components`).
* A snapshot lies two components below its directory, in one that has the name of its unit, unless the
  unit is called `.`: its snapshots lie beside the directories of the others
  (`Snapshot.components_below_iff`).
* `own_places` puts these together: even so no two units share a place.
-/

namespace StagedCompiler

namespace Path

/-! ## What counts in a path -/

/-- Separators count once and not at the end, a `.` behind a separator does not count, and `..` is never
an ordinary name. -/
structure Rules : Prop where
  repeated : ∀ cs ds, componentsOf (cs ++ '/' :: '/' :: ds) = componentsOf (cs ++ '/' :: ds)
  trailing : ∀ cs, cs ≠ [] → componentsOf (cs ++ ['/']) = componentsOf cs
  inner : ∀ cs ds, componentsOf (cs ++ '/' :: '.' :: '/' :: ds) = componentsOf (cs ++ '/' :: ds)
  parent : ∀ cs, Component.normal ".." ∉ componentsOf cs

theorem ofSegment?_ne_parent (segment : List Char) :
    Component.ofSegment? segment ≠ some (.normal "..") := by
  intro named
  unfold Component.ofSegment? at named
  split at named
  · cases named
  · split at named
    · cases named
    · rename_i other
      have same := congrArg String.toList (Component.normal.inj (Option.some.inj named))
      rw [String.toList_ofList] at same
      exact other same

/-- What follows a separator adds the same components however many separators there are. -/
theorem componentsOf_congr {ds es : List Char} (cs : List Char)
    (same : (segments ds).filterMap Component.ofSegment? =
      (segments es).filterMap Component.ofSegment?) :
    componentsOf (cs ++ '/' :: ds) = componentsOf (cs ++ '/' :: es) := by
  by_cases top : cs = []
  · rw [top, List.nil_append, List.nil_append, componentsOf_slash, componentsOf_slash, same]
  · rw [componentsOf_append top, componentsOf_append top, same]

theorem rules : Rules where
  repeated cs ds := componentsOf_congr cs (by
    rw [show '/' :: ds = [] ++ '/' :: ds from rfl, segments_append]
    rfl)
  trailing cs some := by
    rw [componentsOf_append some, show (segments []).filterMap Component.ofSegment? = [] from rfl,
      List.append_nil]
  inner cs ds := componentsOf_congr cs (by
    rw [show '.' :: '/' :: ds = ['.'] ++ '/' :: ds from rfl, segments_append]
    rfl)
  parent cs member := by
    have behind (rest : List (List Char)) :
        Component.normal ".." ∉ rest.filterMap Component.ofSegment? := fun found => by
      obtain ⟨segment, -, named⟩ := List.mem_filterMap.mp found
      exact ofSegment?_ne_parent segment named
    unfold componentsOf at member
    split at member
    · cases member
    · rcases List.mem_append.mp member with first | rest
      · split at first <;> simp at first
      · exact behind _ rest
    · rcases List.mem_append.mp member with first | rest
      · split at first
        · simp at first
        · exact ofSegment?_ne_parent _ (Option.mem_toList.mp first)
      · exact behind _ rest

end Path

/-! ## The directory of a unit -/

namespace Source

variable {unit : String}

theorem ne_nil_of_unitNameFlaw? (valid : unitNameFlaw? unit = none) : unit.toList ≠ [] := fun empty =>
  unitNameFlaw?_eq_none_iff.mp valid (.blank (by rw [empty]; exact nofun))

/-- The name of a unit is a name wherever it stands, unless it is a single dot. -/
theorem isName_unit (valid : unitNameFlaw? unit = none) (dotless : unit ≠ ".") : Path.IsName unit := by
  refine ⟨notMem_of_unitNameFlaw? valid, ?_⟩
  have notDot : unit.toList ≠ ['.'] := fun same => dotless (String.toList_injective same)
  have notDots : unit.toList ≠ ['.', '.'] := fun same =>
    unitNameFlaw?_eq_none_iff.mp valid (.dots (same ▸ List.infix_rfl))
  rw [Path.Component.ofSegment?, if_neg (not_or.mpr ⟨ne_nil_of_unitNameFlaw? valid, notDot⟩),
    if_neg notDots, String.ofList_toList]

end Source

/-! ## Snapshots -/

namespace Snapshot

variable {s : Snapshot}

/-- The name of the file that a snapshot is written to. -/
def file (s : Snapshot) : String := s.stage.text ++ ".json"

theorem isName_file (s : Snapshot) : Path.IsName s.file := by
  have stage : '/' ∉ s.stage.text.toList := by cases s.stage <;> simp [Stage.text]
  refine Path.isName_of_length ?_ ?_ <;> rw [file, String.toList_append]
  · simp [stage]
  · simp [List.length_append]

theorem relativePath_eq (valid : Source.unitNameFlaw? s.unit = none) :
    s.relativePath = ⟨s.unit ++ "/" ++ s.file⟩ := by
  change Path.join ⟨s.unit⟩ ⟨s.file⟩ = _
  have filled : s.unit.isEmpty = false := by
    simpa using Source.ne_nil_of_unitNameFlaw? valid
  have opened : (s.unit.toList.getLast? == some '/') = false := by
    rw [beq_eq_false_iff_ne]
    exact fun last => Source.notMem_of_unitNameFlaw? valid (List.mem_of_getLast? last)
  rw [Path.join, if_neg (by simp [s.isName_file.isAbsolute]), if_neg (by simp [filled]),
    if_neg (by simp [opened])]

theorem relativePath_toList (valid : Source.unitNameFlaw? s.unit = none) :
    s.relativePath.text.toList = s.unit.toList ++ '/' :: s.file.toList := by
  rw [relativePath_eq valid]
  simp only [String.toList_append, List.append_assoc]
  rfl

/-- The directory that holds the snapshots of a unit, below another one. -/
def directory (base : Path) (unit : String) : List Path.Component :=
  if base.text.isEmpty then Path.components ⟨unit⟩
  else base.components ++ (Path.Component.ofSegment? unit.toList).toList

theorem components_eq (valid : Source.unitNameFlaw? s.unit = none) (base : Path) :
    (base / s.relativePath).components = directory base s.unit ++ [.normal s.file] := by
  have plain := Source.notMem_of_unitNameFlaw? valid
  have relative : s.relativePath.isAbsolute = false := by
    rw [Path.isAbsolute, relativePath_toList valid, List.head?_append, beq_eq_false_iff_ne]
    cases chars : s.unit.toList with
    | nil => exact absurd chars (Source.ne_nil_of_unitNameFlaw? valid)
    | cons c rest =>
        rintro ⟨⟩
        exact plain (by rw [chars]; exact List.mem_cons_self)
  rw [Path.components_join relative, directory]
  split
  · exact s.isName_file.components_below ⟨s.unit⟩
  · rw [relativePath_toList valid, Path.segments_append, Path.segments_of_notMem plain,
      List.filterMap_append, s.isName_file.segments_eq, List.append_assoc]
    cases segment : Path.Component.ofSegment? s.unit.toList <;> simp [segment]

theorem directory_of_isName {unit : String} (named : Path.IsName unit) (base : Path) :
    directory base unit = base.components ++ [.normal unit] := by
  rw [directory, named.counts, named.components_eq]
  split
  · rename_i empty
    rw [Path.components, String.isEmpty_iff.mp empty]
    rfl
  · rfl

/-- A single dot adds nothing to a directory. -/
theorem directory_dot (base : Path) :
    directory base "." = if base.text.isEmpty then [.current] else base.components := by
  rw [directory]
  split
  · rfl
  · exact List.append_nil _

/-- A directory that a single dot stands for is not one with a name below the same base. -/
theorem directory_dot_ne (base : Path) (name : String) :
    directory base "." ≠ base.components ++ [.normal name] := by
  rw [directory_dot]
  split
  · rename_i empty
    rw [Path.components, String.isEmpty_iff.mp empty]
    rintro ⟨⟩
  · simp

/-- No two units share the directory of their snapshots. -/
theorem eq_of_directory {unit other : String} (valid : Source.unitNameFlaw? unit = none)
    (valid' : Source.unitNameFlaw? other = none) {base : Path}
    (same : directory base unit = directory base other) : unit = other := by
  by_contra differ
  -- At most one of two different names is a single dot.
  wlog dotless : unit ≠ "." generalizing unit other
  · exact this valid' valid same.symm (Ne.symm differ)
      fun dot => differ ((not_not.mp dotless).trans dot.symm)
  rw [directory_of_isName (Source.isName_unit valid dotless)] at same
  by_cases dot : other = "."
  · exact directory_dot_ne base unit (dot ▸ same.symm)
  · rw [directory_of_isName (Source.isName_unit valid' dot), List.append_cancel_left_eq] at same
    exact differ (Path.Component.normal.inj (List.singleton_inj.mp same))

/-- A snapshot lies two components below its directory, in one that has the name of its unit, exactly
if that name is not a single dot. -/
theorem components_below_iff (valid : Source.unitNameFlaw? s.unit = none) (base : Path) :
    (base / s.relativePath).components = base.components ++ [.normal s.unit, .normal s.file] ↔
      s.unit ≠ "." := by
  rw [components_eq valid, show base.components ++ [.normal s.unit, .normal s.file] =
    (base.components ++ [.normal s.unit]) ++ [Path.Component.normal s.file] by simp,
    List.append_cancel_right_eq]
  constructor
  · intro below dot
    rw [dot] at below
    exact directory_dot_ne base "." below
  · exact fun dotless => directory_of_isName (Source.isName_unit valid dotless) base

end Snapshot

/-! ## Every unit has its own places -/

/-- Where the artifacts and the snapshots of a unit lie below a directory, and that they share no place
with those of another unit. -/
structure OwnPlaces (unit : String) (base : Path) : Prop where
  artifact : ∀ a : Artifact, a.unit = unit →
    (a.path base).components = base.components ++ [.normal a.fileName]
  snapshot_iff : ∀ s : Snapshot, s.unit = unit →
    ((base / s.relativePath).components =
      base.components ++ [.normal unit, .normal (s.stage.text ++ ".json")] ↔ unit ≠ ".")
  snapshot_dot : ∀ s : Snapshot, s.unit = unit → unit = "." →
    (base / s.relativePath).components =
      (if base.text.isEmpty then [.current] else base.components) ++
        [.normal (s.stage.text ++ ".json")]
  artifacts_apart : ∀ a b : Artifact, a.unit = unit → Source.unitNameFlaw? b.unit = none →
    b.unit ≠ unit → (a.path base).components ≠ (b.path base).components
  snapshots_apart : ∀ s t : Snapshot, s.unit = unit → Source.unitNameFlaw? t.unit = none →
    t.unit ≠ unit →
      (base / s.relativePath).components.dropLast ≠ (base / t.relativePath).components.dropLast

/-- A unit with a valid name has its own places below every directory, however that is written. -/
theorem own_places {unit : String} (valid : Source.unitNameFlaw? unit = none) :
    Path.Rules ∧ ∀ base, OwnPlaces unit base := by
  refine ⟨Path.rules, fun base => ?_⟩
  constructor
  case artifact =>
    rintro a rfl
    exact Artifact.path_components valid base
  case snapshot_iff =>
    rintro s rfl
    exact Snapshot.components_below_iff valid base
  case snapshot_dot =>
    rintro s named dot
    subst named
    rw [Snapshot.components_eq valid, dot, Snapshot.directory_dot]
    rfl
  case artifacts_apart =>
    rintro a b rfl valid' differ same
    exact differ (Artifact.unit_eq_of_path valid valid' same).symm
  case snapshots_apart =>
    rintro s t rfl valid' differ same
    rw [Snapshot.components_eq valid, Snapshot.components_eq valid', List.dropLast_concat,
      List.dropLast_concat] at same
    exact differ (Snapshot.eq_of_directory valid valid' same).symm

theorem own_places_release : Source.unitNameFlaw? "v1.2 beta" = none ∧
    Path.Rules ∧ ∀ base, OwnPlaces "v1.2 beta" base :=
  have valid : Source.unitNameFlaw? "v1.2 beta" = none := by decide +kernel
  ⟨valid, own_places valid⟩

/-- A unit that is called by a single dot. -/
def dotUnit : Source.Draft where
  unit := some "."
  items := [.function () "quiet" [] [] none []]

/-- The name is accepted, and what is known about the unit is written outside of any directory of its
own. -/
theorem dotUnit_snapshot_outside : ∃ tree, Tree.ofDraft "" "main" dotUnit = .ok tree ∧
    Source.unitNameFlaw? tree.unit = none ∧
    (⟨"snap"⟩ / (Snapshot.capture .analyze { tree }).relativePath : Path).components =
      [.normal "snap", .normal "analyze.json"] ∧
    (⟨"snap"⟩ / (Snapshot.capture .analyze { tree }).relativePath : Path).components ≠
      (⟨"snap"⟩ : Path).components ++ [.normal tree.unit, .normal "analyze.json"] := by
  refine ⟨⟨".", [.function ⟨0, "items[0]"⟩ "quiet" [] [] none []]⟩, by rfl, ?_, ?_, ?_⟩ <;>
    decide +kernel

end StagedCompiler
