import StagedCompiler.Project.Basic
import StagedCompiler.Proofs.Pipeline.Boundary
import StagedCompiler.Proofs.Project.Places

/-!
# Building twice

What `Project.build` does to a file system on which everything succeeds, for any pipeline, any output
directory and any files that are there before.

* A file is written unless it has its content already, so in any case it has it behind
  (`writeFile_run`).
* Artifacts with different places do not disturb each other (`writeArtifacts_run`), and they have different
  places if they are named after their units (`artifactsOf_apart`).
* So a build stores the artifacts of the units that compile and changes nothing else, and a second build
  finds them all in place (`build_then_rebuild`).

Artifacts are named after the modules that lowering leaves behind.  With a pass that renames modules two
units can share a file, and then what one of them was compiled to is lost (`build_loses_artifact`).
-/

namespace StagedCompiler

open Source (eq_ok_of_toOption)

/-- The texts of files, by their places. -/
@[ext] structure Disk : Type where
  text? : List Path.Component → Option String

namespace Disk

/-- A disk without files. -/
def empty : Disk := ⟨fun _ => none⟩

/-- The disk with a text at a path. -/
def put (d : Disk) (path : Path) (content : String) : Disk :=
  ⟨fun place => if place = path.components then some content else d.text? place⟩

/-- All operations succeed, but that there is nothing to read where no file is. -/
instance : FileStore (StateM Disk) where
  isPresent path := do return ((← get).text? path.components).isSome
  readText path := do
    match (← get).text? path.components with
    | some content => return .ok content
    | none => return .error "missing"
  makeDirs _ := pure (.ok ())
  writeText path content := do
    modify (·.put path content)
    return .ok ()

@[simp] theorem text?_put_self (d : Disk) (path : Path) (content : String) :
    (d.put path content).text? path.components = some content :=
  if_pos rfl

/-- Writing a file leaves files at other places alone. -/
theorem text?_put_of_ne {d : Disk} {path : Path} {content : String} {place : List Path.Component}
    (other : place ≠ path.components) : (d.put path content).text? place = d.text? place :=
  if_neg other

/-- Writing what is there changes nothing. -/
theorem put_of_held {d : Disk} {path : Path} {content : String}
    (held : d.text? path.components = some content) : d.put path content = d := by
  ext1
  funext place
  by_cases same : place = path.components
  · rw [same, text?_put_self, held]
  · exact text?_put_of_ne same

/-- A file that is there is read. -/
theorem readText_run {d : Disk} {path : Path} {content : String}
    (held : d.text? path.components = some content) :
    (FileStore.readText (m := StateM Disk) path).run d = (.ok content, d) := by
  change StateT.run (match d.text? path.components with
    | some content => (pure (.ok content) : StateM Disk (Except String String))
    | none => pure (.error "missing")) d = _
  rw [held]
  rfl

end Disk

/-- A computation goes on from where its first part ends. -/
theorem run_bind_of_run {σ α β : Type} {x : StateM σ α} {f : α → StateM σ β} {s s' : σ} {a : α}
    (ran : x.run s = (a, s')) : (x >>= f).run s = (f a).run s' := by
  rw [StateT.run_bind, ran]
  rfl

/-! ## One file -/

namespace FileStore

/-- Directories are no part of the state, so making one changes nothing. -/
theorem makeParent_run (path : Path) (d : Disk) :
    (makeParent (m := StateM Disk) path).run d = (.ok (), d) := by
  unfold makeParent
  split
  · rfl
  · split <;> rfl

theorem replaceFile_run (path : Path) (content : String) (d : Disk) :
    (replaceFile (m := StateM Disk) path content).run d = (.ok .written, d.put path content) := by
  rw [replaceFile, run_bind_of_run (makeParent_run path d)]
  rfl

/-- A file is left alone if it has its content, and else it is given its content. -/
theorem writeFile_run (path : Path) (content : String) (d : Disk) :
    (writeFile (m := StateM Disk) .ifChanged path content).run d =
      if d.text? path.components = some content then (.ok .unchanged, d)
      else (.ok .written, d.put path content) := by
  have present : (isPresent (m := StateM Disk) path).run d =
      ((d.text? path.components).isSome, d) := rfl
  rw [writeFile, run_bind_of_run present]
  cases held : d.text? path.components with
  | none => exact (replaceFile_run path content d).trans (if_neg nofun).symm
  | some existing =>
      rw [Option.isSome_some, Bool.and_true, beq_self_eq_true, if_pos rfl,
        run_bind_of_run (Disk.readText_run held)]
      by_cases same : existing = content
      · simp only [same, beq_self_eq_true, if_true]
        rfl
      · simp only [beq_iff_eq, Option.some.injEq, same, if_false, replaceFile_run]

end FileStore

/-! ## All artifacts -/

namespace Project

/-- Whether a file has the content of an artifact. -/
def held (out : Path) (d : Disk) (a : Artifact) : Bool :=
  d.text? (a.path out).components == some a.content

/-- The disk with all artifacts in place. -/
def stored (out : Path) (d : Disk) (artifacts : List Artifact) : Disk :=
  artifacts.foldl (fun d a => d.put (a.path out) a.content) d

/-- What becomes of artifacts that are written to a disk. -/
def sorting (out : Path) (d : Disk) (artifacts : List Artifact) : Written where
  written := (artifacts.filter fun a => !held out d a).map Artifact.fileName
  unchanged := (artifacts.filter (held out d)).map Artifact.fileName

section Artifacts

variable {out : Path} {artifacts : List Artifact}

theorem stored_cons (d : Disk) (a : Artifact) (rest : List Artifact) :
    stored out d (a :: rest) = stored out (d.put (a.path out) a.content) rest := rfl

theorem sorting_of_held {d : Disk} {a : Artifact} (here : held out d a = true)
    (rest : List Artifact) : sorting out d (a :: rest) =
      { sorting out d rest with unchanged := a.fileName :: (sorting out d rest).unchanged } := by
  simp [sorting, here]

theorem sorting_of_not_held {d : Disk} {a : Artifact} (other : held out d a = false)
    (rest : List Artifact) : sorting out d (a :: rest) =
      { sorting out d rest with written := a.fileName :: (sorting out d rest).written } := by
  simp [sorting, other]

/-- What lies at none of the places stays what it is. -/
theorem stored_of_ne {place : List Path.Component}
    (other : ∀ a ∈ artifacts, place ≠ (a.path out).components) (d : Disk) :
    (stored out d artifacts).text? place = d.text? place := by
  induction artifacts generalizing d with
  | nil => rfl
  | cons a rest ih =>
      rw [List.forall_mem_cons] at other
      exact (ih other.2 _).trans (Disk.text?_put_of_ne other.1)

/-- Artifacts with different places do not overwrite each other. -/
theorem stored_of_mem
    (apart : artifacts.Pairwise fun a b => (a.path out).components ≠ (b.path out).components)
    (d : Disk) {a : Artifact} (member : a ∈ artifacts) :
    (stored out d artifacts).text? (a.path out).components = some a.content := by
  induction artifacts generalizing d with
  | nil => exact nomatch member
  | cons b rest ih =>
      rw [List.pairwise_cons] at apart
      rcases List.mem_cons.mp member with rfl | later
      · exact (stored_of_ne apart.1 _).trans (Disk.text?_put_self _ _ _)
      · exact ih apart.2 _ later

/-- After a build every artifact is in its place, if places are different. -/
theorem held_stored
    (apart : artifacts.Pairwise fun a b => (a.path out).components ≠ (b.path out).components)
    (d : Disk) : ∀ a ∈ artifacts, held out (stored out d artifacts) a = true :=
  fun a member => by rw [held, stored_of_mem apart d member, beq_self_eq_true]

/-- If all artifacts are in place, storing them changes nothing. -/
theorem stored_of_held {d : Disk} (all : ∀ a ∈ artifacts, held out d a = true) :
    stored out d artifacts = d := by
  induction artifacts with
  | nil => rfl
  | cons a rest ih =>
      rw [List.forall_mem_cons] at all
      rw [stored_cons, Disk.put_of_held (eq_of_beq all.1)]
      exact ih all.2

/-- Each artifact is dealt with as the disk was at the start. -/
theorem writeArtifacts_run
    (apart : artifacts.Pairwise fun a b => (a.path out).components ≠ (b.path out).components)
    (d : Disk) : (writeArtifacts (m := StateM Disk) out artifacts).run d =
      (.ok (sorting out d artifacts), stored out d artifacts) := by
  induction artifacts generalizing d with
  | nil => rfl
  | cons a rest ih =>
      rw [List.pairwise_cons] at apart
      have others : sorting out (d.put (a.path out) a.content) rest = sorting out d rest := by
        have same : ∀ b ∈ rest, held out (d.put (a.path out) a.content) b = held out d b :=
          fun b member => by rw [held, held, Disk.text?_put_of_ne (apart.1 b member).symm]
        rw [sorting, sorting, List.filter_congr same,
          List.filter_congr fun b member => congrArg Bool.not (same b member)]
      have later := ih apart.2 (d.put (a.path out) a.content)
      rw [others] at later
      have wrote := FileStore.writeFile_run (a.path out) a.content d
      cases here : held out d a with
      | true =>
          have there := eq_of_beq here
          rw [Disk.put_of_held there] at later
          rw [if_pos there] at wrote
          rw [writeArtifacts, run_bind_of_run wrote, stored_cons, Disk.put_of_held there,
            sorting_of_held here]
          exact run_bind_of_run later
      | false =>
          rw [if_neg fun there => Bool.false_ne_true (here.symm.trans (beq_iff_eq.mpr there))] at wrote
          rw [writeArtifacts, run_bind_of_run wrote, stored_cons, sorting_of_not_held here]
          exact run_bind_of_run later

end Artifacts

/-! ## Builds -/

/-- The artifacts of the units that were compiled, in the order of units. -/
def artifactsOf (report : RunReport) : List Artifact := report.units.filterMap UnitReport.artifact?

/-- The artifacts of a report are those of the units that compiled. -/
theorem mem_artifactsOf {report : RunReport} {a : Artifact} :
    a ∈ artifactsOf report ↔ ∃ r ∈ report.units, r.outcome = .compiled a := by
  rw [artifactsOf, List.mem_filterMap]
  constructor
  · rintro ⟨r, among, made⟩
    exact ⟨r, among, Pipeline.compiled_of_artifact? made⟩
  · rintro ⟨r, among, made⟩
    refine ⟨r, among, ?_⟩
    rw [UnitReport.artifact?, made]

/-- What a build does to a disk, and what it says about it.  Every unit that was compiled has its artifact
in place, and there is no change elsewhere.  Files are listed in the order of units, by whether they had
their content before, and no file is listed twice. -/
structure Builds (p : Pipeline) (units : List Tree) (out : Path) (before : Disk) (report : RunReport)
    (files : Written) (after : Disk) : Prop where
  reported : p.run ([] : List (Observer Id)) .build units = .ok report
  stored : ∀ r ∈ report.units, ∀ a, r.outcome = .compiled a →
    after.text? (out / ⟨a.fileName⟩ : Path).components = some a.content
  framed : ∀ place,
    (∀ r ∈ report.units, ∀ a, r.outcome = .compiled a →
      place ≠ (out / ⟨a.fileName⟩ : Path).components) →
    after.text? place = before.text? place
  unchanged : files.unchanged = ((artifactsOf report).filter fun a =>
    before.text? (out / ⟨a.fileName⟩ : Path).components == some a.content).map Artifact.fileName
  written : files.written = ((artifactsOf report).filter fun a =>
    !(before.text? (out / ⟨a.fileName⟩ : Path).components == some a.content)).map Artifact.fileName
  once : ((artifactsOf report).map Artifact.fileName).Nodup

section Builds

variable {p : Pipeline} {units : List Tree}

/-- The report of a run without observers. -/
def reportOf (p : Pipeline) (units : List Tree) : RunReport :=
  ⟨units.map fun tree => (p.unitCourse .build tree).report tree⟩

/-- Without snapshots a build is a run whose artifacts are written. -/
theorem build_run (valid : Pipeline.validateUnits units = .ok ()) {out : Path} {d d' : Disk}
    {files : Written}
    (wrote : (writeArtifacts (m := StateM Disk) out (artifactsOf (reportOf p units))).run d =
      (.ok files, d')) :
    (build (m := StateM Disk) p units out none).run d = (.ok (reportOf p units, files), d') := by
  have ran : (p.run ([] : List (Observer (StateM Disk))) .build units).run d =
      (.ok (reportOf p units), d) := by
    rw [Pipeline.run_unobserved p .build valid]
    rfl
  exact (run_bind_of_run ran).trans (run_bind_of_run wrote)

/-- Artifacts that are named after their units have names of their own. -/
theorem artifactsOf_apart (valid : Pipeline.validateUnits units = .ok ())
    (named : ∀ tree ∈ units, ∀ a,
      ((p.unitCourse .build tree).report tree).outcome = .compiled a → a.unit = tree.unit) :
    (artifactsOf (reportOf p units)).Pairwise fun a b => a.unit ≠ b.unit := by
  refine List.pairwise_filterMap.mpr (List.pairwise_map.mpr (List.Pairwise.imp_of_mem ?_
    (List.pairwise_map.mp (Pipeline.validateUnits_eq_ok_iff.mp valid))))
  intro tree tree' among among' different a made b made' same
  have first := named tree among a (Pipeline.compiled_of_artifact? made)
  have second := named tree' among' b (Pipeline.compiled_of_artifact? made')
  exact different (first.symm.trans (same.trans second))

/-- Artifacts named after units with valid names have valid names. -/
theorem artifactsOf_valid (names : ∀ tree ∈ units, Source.unitNameFlaw? tree.unit = none)
    (named : ∀ tree ∈ units, ∀ a,
      ((p.unitCourse .build tree).report tree).outcome = .compiled a → a.unit = tree.unit) :
    ∀ a ∈ artifactsOf (reportOf p units), Source.unitNameFlaw? a.unit = none := by
  intro a member
  obtain ⟨r, among, made⟩ := mem_artifactsOf.mp member
  obtain ⟨tree, mine, rfl⟩ := List.mem_map.mp among
  rw [named tree mine a made]
  exact names tree mine

/-- Building writes exactly the compiled artifacts, and building again writes nothing.  Artifacts are to be
named after their units, as they are if the passes of plugins keep the names of modules. -/
theorem build_then_rebuild (valid : Pipeline.validateUnits units = .ok ())
    (names : ∀ tree ∈ units, Source.unitNameFlaw? tree.unit = none)
    (named : ∀ tree ∈ units, ∀ a,
      ((p.unitCourse .build tree).report tree).outcome = .compiled a → a.unit = tree.unit)
    (out : Path) (before : Disk) :
    ∃ report files after,
      (build (m := StateM Disk) p units out none).run before = (.ok (report, files), after) ∧
      Builds p units out before report files after ∧
      (build (m := StateM Disk) p units out none).run after =
        (.ok (report, ⟨[], (artifactsOf report).map Artifact.fileName⟩), after) := by
  have valids := artifactsOf_valid names named
  have distinct := artifactsOf_apart valid named
  have apart : (artifactsOf (reportOf p units)).Pairwise fun a b =>
      (a.path out).components ≠ (b.path out).components :=
    distinct.imp_of_mem fun member member' different same =>
      different (Artifact.unit_eq_of_path (valids _ member) (valids _ member') same)
  have present := held_stored apart before
  have again := writeArtifacts_run apart (stored out before (artifactsOf (reportOf p units)))
  have nothing : sorting out (stored out before (artifactsOf (reportOf p units)))
      (artifactsOf (reportOf p units)) =
        ⟨[], (artifactsOf (reportOf p units)).map Artifact.fileName⟩ := by
    rw [sorting, List.filter_eq_self.mpr present, List.filter_eq_nil_iff.mpr]
    · rfl
    · exact fun a member => by simp [present a member]
  rw [nothing, stored_of_held present] at again
  refine ⟨reportOf p units, _, _, build_run valid (writeArtifacts_run apart before), ⟨?_, ?_, ?_, rfl,
    rfl, ?_⟩, build_run valid again⟩
  · exact Pipeline.run_unobserved p .build valid
  · exact fun r among a made => stored_of_mem apart before (mem_artifactsOf.mpr ⟨r, among, made⟩)
  · refine fun place other => stored_of_ne (fun a member => ?_) before
    obtain ⟨r, among, made⟩ := mem_artifactsOf.mp member
    exact other r among a made
  · exact List.pairwise_map.mpr (distinct.imp fun different same =>
      different (Artifact.unit_eq_of_fileName same))

end Builds

/-! ## Examples -/

/-- `idle()` does nothing. -/
def idle : Source.Draft where
  items := [.function () "idle" [] [] none []]

/-- `stray()` returns what nothing declares. -/
def stray : Source.Draft where
  items := [.function () "stray" [] [] none [.ret () (some (.ref () "nowhere"))]]

/-- A pipeline for listings, and units. -/
def prepare? (registry : Except ConfigError Registry) (drafts : List (String × Source.Draft)) :
    Option (Pipeline × List Tree) := do
  let registry ← registry.toOption
  let p ← (Pipeline.build registry .native).toOption
  let units ← drafts.mapM fun d => (d.2.assemble d.1).toOption
  pure (p, units)

theorem prepare?_eq_some {registry : Except ConfigError Registry}
    {drafts : List (String × Source.Draft)} {p : Pipeline} {units : List Tree}
    (prepared : prepare? registry drafts = some (p, units)) :
    ∃ registry', registry = .ok registry' ∧ Pipeline.build registry' .native = .ok p ∧
      drafts.mapM (fun d => (d.2.assemble d.1).toOption) = some units := by
  obtain ⟨registry', registered, prepared⟩ := Option.bind_eq_some_iff.mp prepared
  obtain ⟨p, built, prepared⟩ := Option.bind_eq_some_iff.mp prepared
  obtain ⟨units, assembled, prepared⟩ := Option.bind_eq_some_iff.mp prepared
  obtain ⟨rfl, rfl⟩ := Prod.mk.inj (Option.some.inj prepared)
  exact ⟨registry', eq_ok_of_toOption registered, eq_ok_of_toOption built, assembled⟩

theorem valid_of_names {units : List Tree} {names : List String}
    (called : units.map Tree.unit = names)
    (valid : ∀ name ∈ names, Source.unitNameFlaw? name = none) :
    ∀ tree ∈ units, Source.unitNameFlaw? tree.unit = none :=
  fun tree member => valid tree.unit (called ▸ List.mem_map_of_mem member)

/-- Build units twice: the files of the first build, and those of the second. -/
def buildTwice (p : Pipeline) (units : List Tree) (out : Path) (d : Disk) :
    Option (Written × Written) :=
  let first := (build (m := StateM Disk) p units out none).run d
  let second := (build (m := StateM Disk) p units out none).run first.2
  match first.1, second.1 with
  | .ok (_, files), .ok (_, again) => some (files, again)
  | _, _ => none

theorem buildTwice_eq_some {p : Pipeline} {units : List Tree} {out : Path} {d : Disk}
    {files again : Written} (twice : buildTwice p units out d = some (files, again)) :
    ∃ report after report' after',
      (build (m := StateM Disk) p units out none).run d = (.ok (report, files), after) ∧
      (build (m := StateM Disk) p units out none).run after = (.ok (report', again), after') := by
  unfold buildTwice at twice
  rcases first : (build (m := StateM Disk) p units out none).run d with
    ⟨failure | ⟨report, files⟩, after⟩ <;> rw [first] at twice
  · cases twice
  dsimp only at twice
  rcases second : (build (m := StateM Disk) p units out none).run after with
    ⟨failure | ⟨report', again⟩, after'⟩ <;> rw [second] at twice <;> cases twice
  exact ⟨report, after, report', after', rfl, second⟩

/-- A directory with a file that is out of date and one that is not. -/
def mixed : Disk :=
  (Disk.empty.put ⟨"build/beta.lst"⟩ "; unit beta\n").put ⟨"build/gamma.lst"⟩
    "; unit gamma\n\nfn idle()\n    ret\n"

/-- One file is written, one is as it was, and the unit in the middle has none. -/
theorem build_then_rebuild_mixed : ∃ p units report files after,
    Pipeline.build .host .native = .ok p ∧
    ([("beta", Pipeline.double), ("alpha", stray), ("gamma", idle)].mapM fun d =>
      (d.2.assemble d.1).toOption) = some units ∧
    Pipeline.validateUnits units = .ok () ∧
    (∀ tree ∈ units, Source.unitNameFlaw? tree.unit = none) ∧
    (∀ tree ∈ units, ∀ a,
      ((p.unitCourse .build tree).report tree).outcome = .compiled a → a.unit = tree.unit) ∧
    (build (m := StateM Disk) p units ⟨"build"⟩ none).run mixed = (.ok (report, files), after) ∧
    files = ⟨["beta.lst"], ["gamma.lst"]⟩ ∧
    Builds p units ⟨"build"⟩ mixed report files after ∧
    (build (m := StateM Disk) p units ⟨"build"⟩ none).run after =
      (.ok (report, ⟨[], ["beta.lst", "gamma.lst"]⟩), after) := by
  have ran : (prepare? (.ok .host)
      [("beta", Pipeline.double), ("alpha", stray), ("gamma", idle)]).map (fun r =>
        (r.2.map Tree.unit, buildTwice r.1 r.2 ⟨"build"⟩ mixed)) =
      some (["beta", "alpha", "gamma"],
        some (⟨["beta.lst"], ["gamma.lst"]⟩, ⟨[], ["beta.lst", "gamma.lst"]⟩)) := by
    decide +kernel
  obtain ⟨⟨p, units⟩, prepared, shown⟩ := Option.map_eq_some_iff.mp ran
  obtain ⟨_, ⟨⟩, built, assembled⟩ := prepare?_eq_some prepared
  obtain ⟨called, twice⟩ := Prod.mk.inj shown
  have valid : Pipeline.validateUnits units = .ok () :=
    Pipeline.validateUnits_eq_ok_iff.mpr (called ▸ by decide)
  have names := valid_of_names called (by decide)
  have noPasses : Registry.host.loweringPasses = [] :=
    congrArg (List.filterMap _) (List.mergeSort_nil)
  have named : ∀ tree ∈ units, ∀ a,
      ((p.unitCourse .build tree).report tree).outcome = .compiled a → a.unit = tree.unit := by
    refine fun tree _ a compiled => Pipeline.unit_of_compiled built ?_ compiled
    rw [noPasses]
    exact fun _ _ member => nomatch member
  obtain ⟨report, files, after, first, builds, second⟩ :=
    build_then_rebuild valid names named ⟨"build"⟩ mixed
  obtain ⟨_, _, _, _, first', second'⟩ := buildTwice_eq_some twice
  cases first.symm.trans first'
  have listed := (Prod.mk.inj (Except.ok.inj (Prod.mk.inj (second.symm.trans second')).1)).2
  rw [(Written.mk.inj listed).2] at second
  exact ⟨p, units, report, _, after, built, assembled, valid, names, named, first, rfl, builds, second⟩

/-- Whether all artifacts are in place behind a build. -/
def inPlace (p : Pipeline) (units : List Tree) (out : Path) (d : Disk) : Bool :=
  match (build (m := StateM Disk) p units out none).run d with
  | (.ok (report, _), after) => (artifactsOf report).all (held out after)
  | (.error _, _) => true

/-- With a pass that gives every module the same name, what the first unit was compiled to is lost, and
building again writes again. -/
theorem build_loses_artifact : ∃ registry p units report files after,
    Registry.host.register "renamer" .irLowering (.lowering Pipeline.renameRoot) none = .ok registry ∧
    Pipeline.build registry .native = .ok p ∧
    ([("first", Pipeline.double), ("second", idle)].mapM fun d => (d.2.assemble d.1).toOption) =
      some units ∧
    Pipeline.validateUnits units = .ok () ∧
    (∀ tree ∈ units, Source.unitNameFlaw? tree.unit = none) ∧
    (build (m := StateM Disk) p units ⟨"build"⟩ none).run Disk.empty = (.ok (report, files), after) ∧
    (∃ r ∈ report.units, ∃ a, r.outcome = .compiled a ∧
      after.text? (⟨"build"⟩ / ⟨a.fileName⟩ : Path).components ≠ some a.content) ∧
    files = ⟨["other.lst", "other.lst"], []⟩ ∧
    ∃ report' after', (build (m := StateM Disk) p units ⟨"build"⟩ none).run after =
      (.ok (report', ⟨["other.lst", "other.lst"], []⟩), after') := by
  have ran : (prepare? (Registry.host.register "renamer" .irLowering
      (.lowering Pipeline.renameRoot) none) [("first", Pipeline.double), ("second", idle)]).map
        (fun r => (r.2.map Tree.unit, inPlace r.1 r.2 ⟨"build"⟩ Disk.empty,
          buildTwice r.1 r.2 ⟨"build"⟩ Disk.empty)) =
      some (["first", "second"], false,
        some (⟨["other.lst", "other.lst"], []⟩, ⟨["other.lst", "other.lst"], []⟩)) := by
    decide +kernel
  obtain ⟨⟨p, units⟩, prepared, shown⟩ := Option.map_eq_some_iff.mp ran
  obtain ⟨registry, registered, built, assembled⟩ := prepare?_eq_some prepared
  obtain ⟨called, lost, twice⟩ : _ ∧ _ ∧ _ := by simpa only [Prod.mk.injEq] using shown
  have valid : Pipeline.validateUnits units = .ok () :=
    Pipeline.validateUnits_eq_ok_iff.mpr (called ▸ by decide)
  have names := valid_of_names called (by decide)
  obtain ⟨report, after, report', after', first, second⟩ := buildTwice_eq_some twice
  rw [inPlace, first] at lost
  obtain ⟨a, member, missing⟩ := List.all_eq_false.mp lost
  obtain ⟨r, among, made⟩ := mem_artifactsOf.mp member
  exact ⟨registry, p, units, report, _, after, registered, built, assembled, valid, names, first,
    ⟨r, among, a, made, fun there => missing (beq_iff_eq.mpr there)⟩, rfl, report', after', second⟩

end Project

end StagedCompiler
