import StagedCompiler.Proofs.Analysis.Acceptance

/-!
# The order of items does not matter

* `analyze_decides_by_findings`: analysis of a unit whose items have distinct names reports, with the
  host alone, `Findings.unitFindings` of its items; it rejects the unit if there are any and accepts it
  if there are none.
* `analyze_items_perm`: items in another order get other numbers, other descriptors and other places,
  but the outcome is the same and so are the codes and messages, each as often as before.
-/

namespace StagedCompiler.Analysis

open Source (Item)
open Resolution (finding)

/-- Analysis by the host alone reports what is found in a unit, and this decides about the unit. -/
theorem analyze_decides_by_findings {d : Source.Draft} {unit : String} {tree : Tree}
    (assembled : d.assemble unit = .ok tree) (distinct : (d.items.map Item.name).Nodup) :
    (analyze tree Registry.host .empty).log.items.map finding = Findings.unitFindings d.items ∧
      (Findings.unitFindings d.items = [] →
        ∃ analysis, (analyze tree Registry.host .empty).outcome = .ok (.accepted analysis)) ∧
      (Findings.unitFindings d.items ≠ [] →
        (analyze tree Registry.host .empty).outcome = .ok .rejected) := by
  have bare := Source.assemble_bare assembled
  have names : (tree.items.map Item.name).Nodup := by
    rwa [← Source.map_bare_name, bare]
  obtain ⟨found, fault⟩ := Resolution.run_finds names
  rw [bare] at found
  have concluded := conclude_host tree fault (Resolution.run_errors tree Registry.host)
  have log : (analyze tree Registry.host .empty).log.items =
      (Resolution.run tree Registry.host).diagnostics := by
    show (conclude tree Registry.host .empty (Resolution.run tree Registry.host)).2.items = _
    rw [concluded]
    split
    · split <;> rfl
    · rfl
  rw [log]
  refine ⟨found, ?_⟩
  rw [← found, ne_eq, List.map_eq_nil_iff]
  constructor
  · intro silent
    exact ⟨_, (accepted_iff (Source.assemble_numbers assembled)).mpr ⟨silent, rfl⟩⟩
  · intro reported
    show (conclude tree Registry.host .empty (Resolution.run tree Registry.host)).1 = _
    rw [concluded, if_neg reported]

/-- A unit whose names are identifiers, no two items of which have one name, is accepted or rejected
whatever the order of its items, with the same codes and messages. -/
theorem analyze_items_perm {d d' : Source.Draft} (unit : String)
    (valid : ∀ name ∈ d.names, Source.identifierFlaw? name = none)
    (distinct : (d.items.map Item.name).Nodup) (perm : d'.items.Perm d.items) :
    ∃ tree tree', d.assemble unit = .ok tree ∧ d'.assemble unit = .ok tree' ∧
      ((∃ analysis analysis',
          (analyze tree Registry.host .empty).outcome = .ok (.accepted analysis) ∧
            (analyze tree' Registry.host .empty).outcome = .ok (.accepted analysis')) ∨
        (analyze tree Registry.host .empty).outcome = .ok .rejected ∧
          (analyze tree' Registry.host .empty).outcome = .ok .rejected) ∧
      ((analyze tree' Registry.host .empty).log.items.map fun x => (x.code, x.message)).Perm
        ((analyze tree Registry.host .empty).log.items.map fun x => (x.code, x.message)) := by
  have valid' : ∀ name ∈ d'.names, Source.identifierFlaw? name = none := fun name among =>
    valid name ((perm.flatMap_right _).mem_iff.mp among)
  have distinct' : (d'.items.map Item.name).Nodup := (perm.map Item.name).nodup_iff.mpr distinct
  obtain ⟨tree, assembled⟩ := (Source.assembles_iff d unit).mpr valid
  obtain ⟨tree', assembled'⟩ := (Source.assembles_iff d' unit).mpr valid'
  obtain ⟨found, accepts, rejects⟩ := analyze_decides_by_findings assembled distinct
  obtain ⟨found', accepts', rejects'⟩ := analyze_decides_by_findings assembled' distinct'
  have same := Findings.unitFindings_perm distinct perm
  refine ⟨tree, tree', assembled, assembled', ?_, ?_⟩
  · by_cases none : Findings.unitFindings d.items = []
    · obtain ⟨analysis, accepted⟩ := accepts none
      obtain ⟨analysis', accepted'⟩ := accepts' (none ▸ same).eq_nil
      exact Or.inl ⟨analysis, analysis', accepted, accepted'⟩
    · refine Or.inr ⟨rejects none, rejects' fun none' => none ?_⟩
      exact (none' ▸ same).symm.eq_nil
  · show (List.map finding _).Perm (List.map finding _)
    rw [found, found']
    exact same

/-- `Square` has two fields of one name; `area` and `flip` call each other with what does not fit. -/
def squares : Source.Draft where
  items :=
    [ .function () "area" [] [⟨(), "s", ⟨(), "Square"⟩⟩] (some ⟨(), "int"⟩)
        [.ret () (some (.call () "flip" [.ref () "s", .bool () true]))],
      .cls () "Square" [⟨(), "side", ⟨(), "int"⟩⟩, ⟨(), "side", ⟨(), "Colour"⟩⟩],
      .function () "flip" ["T"] [⟨(), "a", ⟨(), "T"⟩⟩, ⟨(), "b", ⟨(), "T"⟩⟩] (some ⟨(), "T"⟩)
        [ .letBind () "n" (some ⟨(), "Square"⟩) (.call () "area" [.int () 1]),
          .ret () (some (.ref () "a")) ] ]

example : Findings.unitFindings squares.items =
    [ ("E0001", "field `side` is declared more than once in `Square`"),
      ("E0002", "cannot find type `Colour`"),
      ("E0004", "expected `Square` for parameter `b` of `flip`, found `bool`"),
      ("E0004", "expected `int` to be returned, found `Square`"),
      ("E0004", "expected `Square` for parameter `s` of `area`, found `int`"),
      ("E0004", "expected `Square`, found `int`") ] := by decide

/-- The items of the unit above in reverse order. -/
theorem analyze_items_perm_squares :
    ∃ tree tree', squares.assemble "unit" = .ok tree ∧
      ({ squares with items := squares.items.reverse } : Source.Draft).assemble "unit" = .ok tree' ∧
      ((∃ analysis analysis',
          (analyze tree Registry.host .empty).outcome = .ok (.accepted analysis) ∧
            (analyze tree' Registry.host .empty).outcome = .ok (.accepted analysis')) ∨
        (analyze tree Registry.host .empty).outcome = .ok .rejected ∧
          (analyze tree' Registry.host .empty).outcome = .ok .rejected) ∧
      ((analyze tree' Registry.host .empty).log.items.map fun x => (x.code, x.message)).Perm
        ((analyze tree Registry.host .empty).log.items.map fun x => (x.code, x.message)) :=
  analyze_items_perm "unit" (by decide) (by decide) (List.reverse_perm _)

end StagedCompiler.Analysis
