import StagedCompiler.Artifact.Basic
import StagedCompiler.Source.Naming

/-!
# Places below a directory

Where the files of a unit are.  A text that is one segment of a path names a place in every directory,
however the directory is written (`components_below`), and the name of a unit that has no flaw gives such
texts.  So artifacts of units with different names have different places (`path_components`).
-/

namespace StagedCompiler.Path

/-! ## Segments -/

theorem segments_ne_nil (cs : List Char) : segments cs ≠ [] := by
  cases cs with
  | nil => exact List.cons_ne_nil _ _
  | cons c rest =>
      rw [segments]
      split
      · exact List.cons_ne_nil _ _
      · split <;> exact List.cons_ne_nil _ _

/-- A slash separates segments. -/
theorem segments_append (cs ds : List Char) :
    segments (cs ++ '/' :: ds) = segments cs ++ segments ds := by
  induction cs with
  | nil => rfl
  | cons c rest ih =>
      rw [List.cons_append, segments, ih, segments]
      split
      · rfl
      · cases parts : segments rest with
        | nil => exact absurd parts (segments_ne_nil rest)
        | cons part more => rfl

theorem segments_of_notMem {cs : List Char} (plain : '/' ∉ cs) : segments cs = [cs] := by
  induction cs with
  | nil => rfl
  | cons c rest ih =>
      rw [List.mem_cons, not_or] at plain
      rw [segments, ih plain.2, if_neg (by simpa using Ne.symm plain.1)]

/-! ## Components -/

theorem componentsOf_slash (ds : List Char) :
    componentsOf ('/' :: ds) = .root :: (segments ds).filterMap Component.ofSegment? := rfl

/-- What stands behind a separator adds its own components. -/
theorem componentsOf_append {cs : List Char} (some : cs ≠ []) (ds : List Char) :
    componentsOf (cs ++ '/' :: ds) =
      componentsOf cs ++ (segments ds).filterMap Component.ofSegment? := by
  have filled : (cs ++ '/' :: ds).isEmpty = false := by cases cs <;> rfl
  have filled' : cs.isEmpty = false := by simpa using some
  unfold componentsOf
  rw [segments_append]
  rcases parts : segments cs with _ | ⟨_ | ⟨c, first⟩, rest⟩
  · exact absurd parts (segments_ne_nil cs)
  · simp only [List.cons_append, List.filterMap_append, filled, filled', List.append_assoc]
  · simp only [List.cons_append, List.filterMap_append, List.append_assoc]

/-- A relative path adds the components of its segments to a directory that is written down. -/
theorem components_join {q : Path} (relative : q.isAbsolute = false) (base : Path) :
    (base / q).components =
      if base.text.isEmpty then q.components
      else base.components ++ (segments q.text.toList).filterMap Component.ofSegment? := by
  rcases base with ⟨text⟩
  change (join ⟨text⟩ q).components = _
  rw [join, if_neg (by simp [relative])]
  by_cases empty : text.isEmpty = true
  · rw [if_pos empty, if_pos empty]
  rw [if_neg empty, if_neg empty]
  have some : text.toList ≠ [] := by simpa using empty
  split
  · -- The directory is written with a separator at its end, and the path comes behind that.
    rename_i closed
    obtain ⟨front, parts⟩ := List.getLast?_eq_some_iff.mp (eq_of_beq closed)
    simp only [components, String.toList_append, parts, List.append_assoc, List.singleton_append]
    by_cases top : front = []
    · rw [top, List.nil_append, List.nil_append, componentsOf_slash]
      rfl
    · rw [componentsOf_append top, componentsOf_append top]
      simp [segments, Component.ofSegment?]
  · simp only [components, String.toList_append, List.append_assoc]
    rw [show "/".toList = ['/'] from rfl, List.singleton_append, componentsOf_append some]

/-- A text that is one component wherever it stands. -/
structure IsName (name : String) : Prop where
  plain : '/' ∉ name.toList
  counts : Component.ofSegment? name.toList = some (.normal name)

namespace IsName

variable {name : String} (named : IsName name)

include named

theorem toList_ne_nil : name.toList ≠ [] := by
  intro empty
  have counts := named.counts
  rw [empty] at counts
  exact nomatch counts

/-- A plain name is a relative path. -/
theorem isAbsolute : Path.isAbsolute ⟨name⟩ = false := by
  unfold Path.isAbsolute
  cases cs : name.toList with
  | nil => rfl
  | cons c rest =>
      have other : c ≠ '/' := fun same => named.plain (by rw [cs, same]; exact List.mem_cons_self)
      simpa using other

theorem segments_eq : (segments name.toList).filterMap Component.ofSegment? = [.normal name] := by
  rw [segments_of_notMem named.plain, List.filterMap_cons, named.counts, List.filterMap_nil]

/-- A plain name is one component. -/
theorem components_eq : components ⟨name⟩ = [.normal name] := by
  have counts := named.counts
  rw [components, componentsOf, segments_of_notMem named.plain]
  cases cs : name.toList with
  | nil => exact absurd cs named.toList_ne_nil
  | cons c rest =>
      rw [cs] at counts
      have other : c :: rest ≠ ['.'] := by
        intro same
        rw [same] at counts
        exact nomatch counts
      simp [other, counts]

/-- A name adds one component to any directory. -/
theorem components_below (base : Path) :
    (base / (⟨name⟩ : Path)).components = base.components ++ [.normal name] := by
  rw [components_join named.isAbsolute, named.segments_eq]
  split
  · rename_i empty
    rw [named.components_eq, components, String.isEmpty_iff.mp empty]
    rfl
  · rfl

end IsName

/-- A longer text without separators is a name. -/
theorem isName_of_length {name : String} (plain : '/' ∉ name.toList)
    (long : 2 < name.toList.length) : IsName name := by
  refine ⟨plain, ?_⟩
  have others : name.toList ≠ [] ∧ name.toList ≠ ['.'] ∧ name.toList ≠ ['.', '.'] := by
    refine ⟨?_, ?_, ?_⟩ <;> (intro same; rw [same] at long; simp at long)
  rw [Component.ofSegment?, if_neg (not_or.mpr ⟨others.1, others.2.1⟩), if_neg others.2.2,
    String.ofList_toList]

end StagedCompiler.Path

namespace StagedCompiler

/-! ## Artifacts -/

theorem Source.notMem_of_unitNameFlaw? {name : String} (valid : Source.unitNameFlaw? name = none) :
    '/' ∉ name.toList := by
  intro member
  unfold Source.unitNameFlaw? at valid
  have separated : (name.toList.any fun c => c == '/' || c == '\\') = true :=
    List.any_eq_true.mpr ⟨'/', member, rfl⟩
  rw [separated] at valid
  split at valid <;> cases valid

namespace Artifact

variable {a : Artifact}

/-- What the name of an artifact's file has behind the name of its unit. -/
def suffix : Artifact → String
  | .listing _ _ => ".lst"
  | .bundle _ _ => ".bundle.json"

theorem fileName_eq (a : Artifact) : a.fileName = a.unit ++ a.suffix := by
  cases a <;> rfl

/-- The file of an artifact has a plain name if its unit has a valid one. -/
theorem isName_fileName (valid : Source.unitNameFlaw? a.unit = none) : Path.IsName a.fileName := by
  have added : '/' ∉ a.suffix.toList ∧ 2 < a.suffix.toList.length := by
    cases a <;> exact ⟨by simp [suffix], by simp [suffix]⟩
  rw [fileName_eq]
  refine Path.isName_of_length ?_ ?_ <;> rw [String.toList_append]
  · exact fun member => (List.mem_append.mp member).elim (Source.notMem_of_unitNameFlaw? valid) added.1
  · rw [List.length_append]
    omega

/-- Files of different units have different names. -/
theorem unit_eq_of_fileName {a b : Artifact} (same : a.fileName = b.fileName) : a.unit = b.unit := by
  have last : a.suffix = b.suffix := by
    have ends := congrArg (fun name => name.toList.getLast?) same
    cases a <;> cases b
    · rfl
    · simp [fileName] at ends
    · simp [fileName] at ends
    · rfl
  rw [fileName_eq, fileName_eq, last] at same
  exact (String.append_left_inj _).mp same

/-- The artifact of a unit lies in its directory, under its file name. -/
theorem path_components (valid : Source.unitNameFlaw? a.unit = none) (base : Path) :
    (a.path base).components = base.components ++ [.normal a.fileName] :=
  (isName_fileName valid).components_below base

/-- Artifacts of different units have different places. -/
theorem unit_eq_of_path {b : Artifact} (valid : Source.unitNameFlaw? a.unit = none)
    (valid' : Source.unitNameFlaw? b.unit = none) {base : Path}
    (same : (a.path base).components = (b.path base).components) : a.unit = b.unit := by
  rw [path_components valid, path_components valid', List.append_cancel_left_eq] at same
  exact unit_eq_of_fileName (Path.Component.normal.inj (List.singleton_inj.mp same))

end Artifact

end StagedCompiler
