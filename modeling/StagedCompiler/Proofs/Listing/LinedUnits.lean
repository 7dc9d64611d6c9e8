import StagedCompiler.Proofs.Analysis.Acceptance
import StagedCompiler.Proofs.Listing.Lines

/-!
# Units listed line by line

The native plan leaves the items of a unit where they are, so the listing of an accepted unit has the
lines of these items (`native_listing_lines`), whatever its string constants hold.

The one name that nobody checks for a line feed is that of the unit.  The unit `quiet` is accepted under
a name on two lines, and its listing then begins with two lines.
-/

namespace StagedCompiler

namespace Lowering

open StagedCompiler.Module (Kind Numbered)

/-! ## The lowered unit -/

variable {rule : Rule}

/-- A faithful rule leaves the items of a unit where they are. -/
theorem Rule.Faithful.rebuild_unit (faithful : rule.Faithful) {i j : NodeId} {unit file : String}
    {d d' : Option DescriptorId} {ty ty' : Ty} (ts : List Numbered) :
    (Numbered.node i (.module unit) d ty [.node j (.file file) d' ty' ts]).rebuild rule =
      .node i (.module unit) d ty [.node j (.file file) d' ty' (ts.map (Numbered.rebuild rule))] := by
  rw [Numbered.rebuild_node, faithful.inert _ _ rfl rfl, List.map_singleton, Numbered.rebuild_node,
    faithful.inert _ _ rfl rfl]

theorem hostRebuild_unit {i j : NodeId} {unit file : String} {d d' : Option DescriptorId} {ty ty' : Ty}
    (ts : List Numbered) :
    hostRebuild .native (.node i (.module unit) d ty [.node j (.file file) d' ty' ts]) =
      .node i (.module unit) d ty [.node j (.file file) d' ty' (ts.map (hostRebuild .native))] := by
  rw [hostRebuild, foldRule_faithful.rebuild_unit, pruneRule_faithful.rebuild_unit,
    flattenRule_faithful.rebuild_unit, List.map_map, List.map_map]
  rfl

theorem Rule.Faithful.kind_rebuild_item (faithful : rule.Faithful) {t : Numbered}
    (item : t.kind.isItem = true) : (t.rebuild rule).kind = t.kind := by
  rcases faithful.kind_rebuild t with same | ⟨expression, _⟩
  · exact same
  · revert item expression
    cases t.kind <;> simp [Kind.isItem, Kind.isExpression]

/-- The native plan leaves an item the item that it is. -/
theorem kind_hostRebuild_item {t : Numbered} (item : t.kind.isItem = true) :
    (hostRebuild .native t).kind = t.kind := by
  have folded := foldRule_faithful.kind_rebuild_item item
  have pruned := pruneRule_faithful.kind_rebuild_item (t := t.rebuild foldRule) (by rwa [folded])
  have flattened := flattenRule_faithful.kind_rebuild_item
    (t := (t.rebuild foldRule).rebuild pruneRule) (by rwa [pruned, folded])
  exact flattened.trans (pruned.trans folded)

end Lowering

namespace Listing

open Analysis (accept? accept?_eq_some)
open StagedCompiler.Module (Kind Outline Numbered TreeImage ItemImage)
open StagedCompiler.Module.Outline (Everywhere everywhere_node_iff)

variable {b : Bindings} {D : Descriptor.Table}

/-! ## Accepted units -/

/-- The kind of node that an item becomes. -/
def nodeKind : Source.Item Source.Site → Kind
  | .function _ name _ _ _ _ => .function name
  | .cls _ name _ => .cls name

theorem kind_of_image {item : Source.Item Source.Site} {o : Outline} (image : ItemImage b item o) :
    o.kind = nodeKind item := by
  cases image <;> rfl

theorem isItem_nodeKind (item : Source.Item Source.Site) : (nodeKind item).isItem = true := by
  cases item <;> rfl

/-- The module of an assembled unit without errors is verified for its image. -/
theorem image_verified {draft : Source.Draft} {unit : String} {tree : Tree} {registry : Registry}
    (assembled : draft.assemble unit = .ok tree)
    (silent : (Resolution.run tree registry).diagnostics = []) :
    ∃ m t, Module.ofTree tree (Resolution.run tree registry).bindings
        (Resolution.run tree registry).descriptors = .ok m ∧
      m.Verified (Resolution.run tree registry).descriptors t ∧
      TreeImage (Resolution.run tree registry).bindings tree t.outline := by
  have numbers := Source.assemble_numbers assembled
  have links := Resolution.run_links numbers registry
  obtain ⟨_, noted⟩ := Resolution.run_noted numbers silent
  obtain ⟨m, t, built, verified⟩ := Module.ofTree_linked silent links.linked
  obtain ⟨o, outline, image⟩ := Module.treeOutline_image noted
  obtain rfl := Module.ofTree_eq_ok outline built
  have same := verified.held.outline?_eq verified.nodup
  rw [verified.root, Outline.outline?_toModule] at same
  obtain rfl := Option.some.inj same
  exact ⟨_, t, built, verified, image⟩

/-- A tree with the image of a unit has its items below a file. -/
theorem parts_of_image {tree : Tree} {t : Numbered} (image : TreeImage b tree t.outline) :
    ∃ i j ts, t = .node i (.module tree.unit) none .unit [.node j (.file tree.unit) none .unit ts] ∧
      List.Forall₂ (fun item c => ItemImage b item c.outline) tree.items ts := by
  rcases t with ⟨i, k, d, ty, cs⟩
  rw [Numbered.outline_node] at image
  generalize parts : cs.map Numbered.outline = os at image
  cases image with
  | mk images =>
      obtain ⟨⟨j, k, d, ty, ts⟩, rfl, file⟩ := List.map_eq_singleton_iff.mp parts
      rw [Numbered.outline_node] at file
      obtain ⟨rfl, rfl, rfl, rfl⟩ := Outline.node.inj file
      exact ⟨i, j, ts, rfl, List.forall₂_map_right_iff.mp images⟩

theorem unit_of_assembled {draft : Source.Draft} {unit : String} {tree : Tree}
    (assembled : draft.assemble unit = .ok tree) : tree.unit = unit := by
  unfold Source.Draft.assemble at assembled
  obtain ⟨⟨items, last⟩, _, made⟩ := Source.bind_eq_ok assembled
  obtain rfl := Except.ok.inj made
  rfl

/-- The native plan takes the image of a unit to one with the same items. -/
theorem items_lowered {tree : Tree} {t : Numbered}
    (shaped : (Lowering.hostRebuild .native t).outline.WellShaped D)
    (image : TreeImage b tree t.outline) (legible : t.outline.Everywhere (Legible D)) :
    ∃ items, (Lowering.hostRebuild .native t).outline =
        .node (.module tree.unit) none .unit [.node (.file tree.unit) none .unit items] ∧
      List.Forall₂ (fun item o => o.kind = nodeKind item) tree.items items ∧
      ∀ o ∈ items, o.kind.isItem = true ∧ o.WellShaped D ∧ o.Everywhere (Legible D) := by
  have lowered := hostRebuild_legible legible
  obtain ⟨i, j, ts, rfl, images⟩ := parts_of_image image
  rw [Lowering.hostRebuild_unit, Numbered.outline_node, List.map_singleton, Numbered.outline_node]
    at lowered shaped ⊢
  have kinds : List.Forall₂ (fun item o => o.kind = nodeKind item) tree.items
      ((ts.map (Lowering.hostRebuild .native)).map Numbered.outline) := by
    rw [List.map_map, List.forall₂_map_right_iff]
    refine images.imp fun item c image => ?_
    have kind : c.kind = nodeKind item := by
      rw [← Numbered.kind_outline]
      exact kind_of_image image
    rw [Function.comp_apply, Numbered.kind_outline,
      Lowering.kind_hostRebuild_item (kind ▸ isItem_nodeKind item), kind]
  refine ⟨_, rfl, kinds, fun o member => ⟨?_, ?_, ?_⟩⟩
  · have each : ∀ o ∈ (ts.map (Lowering.hostRebuild .native)).map Numbered.outline,
        o.kind.isItem = true :=
      forall_of_images kinds fun item _ o kind => kind ▸ isItem_nodeKind item
    exact each o member
  · cases shaped with
    | node _ _ file =>
        cases file _ List.mem_cons_self with
        | node _ _ each => exact each o member
  · obtain ⟨-, file⟩ := everywhere_node_iff.mp lowered
    exact (everywhere_node_iff.mp (file _ List.mem_cons_self)).2 o member

/-- The lines of an item, as they are emitted. -/
def emitted (D : Descriptor.Table) (o : Outline) : String × List String :=
  ((itemListingOf D o).header, (itemListingOf D o).lines)

/-- What is generated for a module with the given items is made of their lines. -/
theorem generate_native {m : Module} {t : Numbered} {unit : String} {items : List Outline}
    (verified : m.Verified D t) (outline : t.outline =
      .node (.module unit) none .unit [.node (.file unit) none .unit items]) :
    Artifact.generate .native m D =
      .ok (.listing unit (Layout.ofLines (unitLines unit (items.map (emitted D))))) := by
  have listed := verified.listing_eq
  rw [outline] at listed
  simp only [Artifact.generate, listed, bind, Except.bind, pure, Except.pure]
  rw [render_eq]
  simp [listingOf, Outline.children, Function.comp_def]
  rfl

/-- The native plan takes the module of an assembled unit without errors to one that holds the lowered
items below its file, and these are legible. -/
theorem lowered_unit {draft : Source.Draft} {unit : String} {tree : Tree} {registry : Registry}
    (assembled : draft.assemble unit = .ok tree)
    (silent : (Resolution.run tree registry).diagnostics = []) :
    ∃ built m items, Module.ofTree tree (Resolution.run tree registry).bindings
        (Resolution.run tree registry).descriptors = .ok built ∧
      (Lowering.hostPlan .native).run built (Resolution.run tree registry).descriptors =
        (.ok (), m) ∧
      m.Verified (Resolution.run tree registry).descriptors
        ((Outline.node (.module unit) none .unit [.node (.file unit) none .unit items]).number 0) ∧
      List.Forall₂ (fun item o => o.kind = nodeKind item) tree.items items ∧
      ∀ o ∈ items, o.kind.isItem = true ∧ o.WellShaped (Resolution.run tree registry).descriptors ∧
        o.Everywhere (Legible (Resolution.run tree registry).descriptors) := by
  obtain ⟨built, t, constructed, verified, image⟩ := image_verified assembled silent
  obtain ⟨ran, lowered⟩ := Lowering.hostPlan_run verified .native
  have shaped := lowered.shaped
  rw [Outline.outline_number] at shaped
  obtain ⟨items, outline, kinds, each⟩ :=
    items_lowered shaped image (image_legible assembled silent image)
  obtain rfl := unit_of_assembled assembled
  rw [outline] at ran lowered
  exact ⟨built, _, items, constructed, ran, lowered, kinds, each⟩

/-- A unit that the host alone accepts has a native listing, whatever its string constants hold.  The
listing is made of the lines of the lowered items, and it falls into them exactly if the name of the unit
is on one line. -/
theorem native_listing_lines {draft : Source.Draft} {unit : String} {tree : Tree}
    {log : Diagnostic.Log} {analysis : Analysis} (assembled : draft.assemble unit = .ok tree)
    (accepted : (analyze tree Registry.host log).outcome = .ok (.accepted analysis)) :
    ∃ plan built m text items blocks,
      Lowering.Plan.build .native Registry.host = .ok plan ∧
      Module.ofTree tree analysis.bindings analysis.descriptors = .ok built ∧
      plan.run built analysis.descriptors = (.ok (), m) ∧
      Artifact.generate .native m analysis.descriptors = .ok (.listing unit text) ∧
      m.outline? m.root =
        some (.node (.module unit) none .unit [.node (.file unit) none .unit items]) ∧
      List.Forall₂ (fun item o => o.kind = nodeKind item) tree.items items ∧
      LineByLine unit items blocks text := by
  obtain ⟨silent, rfl⟩ := Analysis.accepted_run accepted
  obtain ⟨built, m, items, constructed, ran, lowered, kinds, each⟩ := lowered_unit assembled silent
  have outlined := lowered.held.outline?_eq lowered.nodup
  rw [lowered.root, Outline.outline_number] at outlined
  have generated := generate_native lowered (Outline.outline_number 0 _)
  refine ⟨_, built, m, _, items, items.map (emitted _), Lowering.build_host .native, constructed, ran,
    generated, outlined, kinds, lineByLine unit ?_⟩
  rw [List.forall₂_map_right_iff, List.forall₂_same]
  intro o member
  obtain ⟨item, shaped, legible⟩ := each o member
  exact itemBlock_listing shaped item legible

/-- `greet<T>(p: Point, t: T): T` prints two lines and gives its second argument back. -/
def greeting : Source.Draft where
  items :=
    [ .cls () "Point" [⟨(), "x", ⟨(), "int"⟩⟩, ⟨(), "next", ⟨(), "Point"⟩⟩],
      .function () "greet" ["T"] [⟨(), "p", ⟨(), "Point"⟩⟩, ⟨(), "t", ⟨(), "T"⟩⟩] (some ⟨(), "T"⟩)
        [ .eval () (.call () "print" [.str () "two\nlines"]),
          .ret () (some (.ref () "t")) ] ]

theorem native_listing_lines_greeting : ∃ tree analysis, greeting.assemble "unit" = .ok tree ∧
    (analyze tree Registry.host .empty).outcome = .ok (.accepted analysis) ∧
    ∃ plan built m text items blocks,
      Lowering.Plan.build .native Registry.host = .ok plan ∧
      Module.ofTree tree analysis.bindings analysis.descriptors = .ok built ∧
      plan.run built analysis.descriptors = (.ok (), m) ∧
      Artifact.generate .native m analysis.descriptors = .ok (.listing "unit" text) ∧
      m.outline? m.root =
        some (.node (.module "unit") none .unit [.node (.file "unit") none .unit items]) ∧
      List.Forall₂ (fun item o => o.kind = nodeKind item) tree.items items ∧
      LineByLine "unit" items blocks text := by
  have found : (accept? Registry.host greeting "unit").isSome = true := by decide +kernel
  obtain ⟨⟨tree, analysis⟩, found⟩ := Option.isSome_iff_exists.mp found
  obtain ⟨assembled, accepted⟩ := accept?_eq_some found
  exact ⟨tree, analysis, assembled, accepted, native_listing_lines assembled accepted⟩

/-- What a unit that the host alone accepts is compiled to for the native target, and how many lines the
items of the lowered module call for. -/
def compile? (d : Source.Draft) (unit : String) : Option (Artifact × Nat) :=
  match accept? Registry.host d unit with
  | none => none
  | some (tree, analysis) =>
    match Module.ofTree tree analysis.bindings analysis.descriptors with
    | .error _ => none
    | .ok built =>
      match (Lowering.hostPlan .native).run built analysis.descriptors with
      | (.error _, _) => none
      | (.ok (), m) =>
        match Artifact.generate .native m analysis.descriptors, m.outline? m.root with
        | .ok artifact, some (.node _ _ _ [.node _ _ _ items]) => some (artifact, unitLength items)
        | _, _ => none

example : (compile? greeting "unit").map (·.1.content) =
    some ("; unit unit\n\nclass Point\n    field x: int\n    field next: Point\n\n" ++
      "fn greet(p: Point, t: T) -> T\n    push \"two\\nlines\"\n    call print/1\n" ++
      "    load t\n    ret\n") := by
  decide +kernel

/-- `quiet()` does nothing. -/
def quiet : Source.Draft where
  items := [.function () "quiet" [] [] none []]

/-- A unit is accepted under a name on two lines.  Its item calls for four lines with that of the unit,
and the listing has five, the first of which is not that of the unit. -/
theorem quiet_on_two_lines : Source.unitNameFlaw? "two\nlines" = none ∧
    ∃ tree analysis plan built m k d ty k' d' ty' items,
      quiet.assemble "two\nlines" = .ok tree ∧
      (analyze tree Registry.host .empty).outcome = .ok (.accepted analysis) ∧
      Lowering.Plan.build .native Registry.host = .ok plan ∧
      Module.ofTree tree analysis.bindings analysis.descriptors = .ok built ∧
      plan.run built analysis.descriptors = (.ok (), m) ∧
      Artifact.generate .native m analysis.descriptors =
        .ok (.listing "two\nlines" "; unit two\nlines\n\nfn quiet()\n    ret\n") ∧
      m.outline? m.root = some (.node k d ty [.node k' d' ty' items]) ∧ unitLength items = 4 ∧
      "; unit two\nlines\n\nfn quiet()\n    ret\n".toList.splitOn '\n' =
        ["; unit two", "lines", "", "fn quiet()", "    ret", ""].map String.toList := by
  refine ⟨by decide +kernel, ?_⟩
  have ran : compile? quiet "two\nlines" =
      some (.listing "two\nlines" "; unit two\nlines\n\nfn quiet()\n    ret\n", 4) := by
    decide +kernel
  unfold compile? at ran
  split at ran <;> try cases ran
  rename_i tree analysis accepted
  obtain ⟨assembled, accepted⟩ := accept?_eq_some accepted
  split at ran <;> try cases ran
  rename_i built constructed
  split at ran <;> try cases ran
  rename_i m lowered
  split at ran <;> try cases ran
  rename_i generated outlined
  obtain ⟨rfl, length⟩ := Prod.mk.inj (Option.some.inj ran)
  exact ⟨tree, analysis, _, built, m, _, _, _, _, _, _, _, assembled, accepted,
    Lowering.build_host .native, constructed, lowered, generated, outlined, length, by decide⟩

end Listing

end StagedCompiler
