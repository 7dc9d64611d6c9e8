import StagedCompiler.Proofs.Lowering.Scoping
import StagedCompiler.Proofs.Module.ConstantText
import StagedCompiler.Proofs.Module.Image
import StagedCompiler.Proofs.Source.Identifiers
import StagedCompiler.Proofs.Source.Rejection

/-!
# What a listing writes of a node stays on its line

* `Text.OneLine` holds of texts without a line feed: identifiers, numbers, quoted strings.
* `Text.Word` holds of texts of letters, digits and underscores, so of identifiers.
* `Legible D` holds of an outline's node if the names and the types that a listing takes from it are
  words.
* The host passes keep nodes legible (`hostRebuild_legible`), because they take from a tree and put
  constants into it.
* Everything in the image of an assembled unit is legible (`image_legible`): the names are those of the
  unit's constructs.
-/

namespace StagedCompiler.Text

/-- A text without a line feed. -/
def OneLine (text : String) : Prop := '\n' ∉ text.toList

instance (text : String) : Decidable (OneLine text) :=
  inferInstanceAs (Decidable ('\n' ∉ text.toList))

@[simp] theorem oneLine_append_iff {s t : String} : OneLine (s ++ t) ↔ OneLine s ∧ OneLine t := by
  simp [OneLine]

theorem oneLine_ofList_iff {cs : List Char} : OneLine (String.ofList cs) ↔ '\n' ∉ cs := by
  rw [OneLine, String.toList_ofList]

/-- What is neither in the separator nor in a part is not in the text that is put together from them.
-/
theorem notMem_intercalate {c : Char} {separator : String} {parts : List String}
    (between : c ∉ separator.toList) (each : ∀ part ∈ parts, c ∉ part.toList) :
    c ∉ (separator.intercalate parts).toList := by
  induction parts with
  | nil => simp
  | cons first rest ih =>
      rw [List.forall_mem_cons] at each
      cases rest with
      | nil => simpa using each.1
      | cons next later =>
          rw [String.intercalate_cons_cons, String.toList_append, String.toList_append,
            List.mem_append, List.mem_append, not_or, not_or]
          exact ⟨⟨each.1, between⟩, ih each.2⟩

/-! ## Numbers and constants -/

theorem oneLine_toString_nat (n : Nat) : OneLine (toString n) :=
  oneLine_ofList_iff.mpr (lineBreak_notMem_toDigits (.inl rfl) 10 n)

theorem oneLine_constant (c : Constant) : OneLine c.text :=
  c.lineBreak_notMem_textWith (.inl rfl) isPrintable

/-! ## Words -/

/-- A letter, a digit or an underscore. -/
def WordChar (c : Char) : Prop := Source.IsLetter c ∨ Source.IsDigit c ∨ c = '_'

instance (c : Char) : Decidable (WordChar c) :=
  inferInstanceAs (Decidable (('a' ≤ c ∧ c ≤ 'z' ∨ 'A' ≤ c ∧ c ≤ 'Z') ∨
    ('0' ≤ c ∧ c ≤ '9') ∨ c = '_'))

/-- A text in which nothing stands that a listing puts between names. -/
def Word (text : String) : Prop := ∀ c ∈ text.toList, WordChar c

instance (text : String) : Decidable (Word text) :=
  List.decidableBAll WordChar text.toList

theorem Word.notMem {text : String} (word : Word text) {c : Char} (other : ¬ WordChar c) :
    c ∉ text.toList := fun member => other (word c member)

theorem Word.oneLine {text : String} (word : Word text) : OneLine text := word.notMem (by decide)

/-- Identifiers are words. -/
theorem word_identifier {name : String} (fine : Source.identifierFlaw? name = none) : Word name := by
  obtain ⟨c, rest, chars, first, others⟩ := Source.identifierFlaw?_eq_none_iff.mp fine
  rw [Word, chars, List.forall_mem_cons]
  refine ⟨?_, fun d member => ?_⟩
  · rcases first with letter | rfl
    · exact Or.inl letter
    · decide
  · have other := others d member
    unfold WordChar
    tauto

end StagedCompiler.Text

namespace StagedCompiler.Listing

open StagedCompiler.Module (Kind Outline Numbered)
open StagedCompiler.Module.Outline (Everywhere everywhere_node_iff)
open Text (Word word_identifier)

/-! ## Legible nodes -/

/-- The type of a descriptor, as a listing writes it. -/
def typeLabel (D : Descriptor.Table) (d : Option DescriptorId) : String :=
  D.tyText (((d.bind D.get?).map (·.ty)).getD .unit)

/-- What a listing takes from a node besides constants and operators are words. -/
def Legible (D : Descriptor.Table) : Outline → Prop
  | .node (.function name) _ ty _ => Word name ∧ Word (D.tyText ty)
  | .node (.cls name) _ _ _ => Word name
  | .node (.field _) d _ _ | .node (.param _) d _ _ => Word (label D d) ∧ Word (typeLabel D d)
  | .node (.letBind _) d _ _ | .node .localRef d _ _ | .node .call d _ _ => Word (label D d)
  | .node .fieldGet d _ _ => Word (ownerLabel D d) ∧ Word (label D d)
  | _ => True

section Rules

variable {D : Descriptor.Table} {rule : Lowering.Rule}

theorem legible_children {k : Kind} {d : Option DescriptorId} {ty : Ty} {cs cs' : List Outline}
    (legible : Legible D (.node k d ty cs)) : Legible D (.node k d ty cs') := by
  cases k <;> exact legible

/-- Constants are legible, and whatever a rule leaves as it was is as legible as before. -/
theorem rebuild_legible (scopes : rule.Scopes) (selects : rule.Selects) {t : Numbered}
    (legible : t.outline.Everywhere (Legible D)) :
    (t.rebuild rule).outline.Everywhere (Legible D) := by
  induction t with
  | node i k d ty cs ih =>
      rw [Numbered.outline_node, everywhere_node_iff, List.forall_mem_map] at legible
      rw [Numbered.rebuild_node, Numbered.outline_node, everywhere_node_iff, List.forall_mem_map]
      constructor
      · rcases scopes.kinds k (cs.map (Numbered.rebuild rule)) with same | ⟨c, constant⟩
        · rw [same]
          exact legible_children legible.1
        · rw [constant]
          trivial
      · intro s member
        obtain ⟨c, inside, part⟩ := selects.parts _ _ s member
        obtain ⟨c, among, rfl⟩ := List.mem_map.mp inside
        have below := ih c among (legible.2 c among)
        rw [Numbered.everywhere_outline_iff] at below ⊢
        exact fun u deeper => below u (Numbered.subtrees_trans deeper part)

/-- The native plan keeps a tree legible. -/
theorem hostRebuild_legible {t : Numbered} (legible : t.outline.Everywhere (Legible D)) :
    (Lowering.hostRebuild .native t).outline.Everywhere (Legible D) := by
  have folded := rebuild_legible Lowering.foldRule_scopes Lowering.foldRule_selects legible
  have pruned := rebuild_legible Lowering.pruneRule_scopes Lowering.pruneRule_selects folded
  exact rebuild_legible Lowering.flattenRule_scopes Lowering.flattenRule_selects pruned

end Rules

/-! ## The image of a unit is legible -/

section Images

open Source (Typed TypeRef Site Expr Stmt)
open Resolution (State Linked Names Uses Sure TypeNoted MemberNoted HeadNoted UnitNoted contextOf)
open StagedCompiler.Module (ExprImage ExprsImage StmtImage MemberImage ItemImage TreeImage)

variable {s : State}

theorem label_of_names {D : Descriptor.Table} {i : DescriptorId} {name : String}
    (names : Names D i name) : label D (some i) = name := by
  obtain ⟨d, entry, named⟩ := names
  rw [label, Option.bind_some, entry, Option.map_some, Option.getD_some, named]

/-- A use of a name is legible if the name is. -/
theorem label_of_uses {site : Site} {name : String} {note : Binding} {i : DescriptorId}
    (uses : Uses s site name) (there : s.bindings.get? site.id = some note)
    (target : note.target = some i) : label s.descriptors (some i) = name := by
  obtain ⟨b, there', names, _⟩ := uses
  obtain rfl := Option.some.inj (there.symm.trans there')
  exact label_of_names (names i target)

/-- What holds of all images holds of all members of a list of images. -/
theorem forall_of_images {α : Type} {image : α → Outline → Prop} {p : Outline → Prop} {as : List α}
    {os : List Outline} (images : List.Forall₂ image as os)
    (each : ∀ a ∈ as, ∀ o, image a o → p o) : ∀ o ∈ os, p o := by
  induction images with
  | nil => simp
  | cons first _ ih =>
      rw [List.forall_mem_cons] at each ⊢
      exact ⟨each.1 _ first, ih each.2⟩

mutual

/-- The image of a linked expression is legible if the names in the expression are words. -/
theorem expr_legible {e : Expr Site} {o : Outline} (image : ExprImage s.bindings e o)
    (linked : ∀ n ∈ e.nodes, Linked s n) (plain : ∀ name ∈ e.bare.names, Word name) :
    o.Everywhere (Legible s.descriptors) := by
  cases image with
  | int _ => exact .node trivial (by simp)
  | bool _ => exact .node trivial (by simp)
  | str _ => exact .node trivial (by simp)
  | @ref site name i note there target =>
      rw [Expr.nodes, List.forall_mem_singleton] at linked
      refine .node ?_ (by simp)
      rw [Legible, label_of_uses linked there target]
      exact plain name List.mem_cons_self
  | @call site callee args i note os there target images =>
      rw [Expr.nodes, List.forall_mem_cons] at linked
      rw [Expr.bare, Expr.names, List.forall_mem_cons] at plain
      refine .node ?_ (exprs_legible images linked.2 plain.2)
      rw [Legible, label_of_uses linked.1 there target]
      exact plain.1
  | binary _ left right =>
      rw [Expr.nodes, List.forall_mem_cons, List.forall_mem_append] at linked
      rw [Expr.bare, Expr.names, List.forall_mem_append] at plain
      refine .node trivial ?_
      rw [List.forall_mem_cons, List.forall_mem_singleton]
      exact ⟨expr_legible left linked.2.1 plain.1, expr_legible right linked.2.2 plain.2⟩

theorem exprs_legible {es : List (Expr Site)} {os : List Outline}
    (images : ExprsImage s.bindings es os) (linked : ∀ n ∈ Source.exprListNodes es, Linked s n)
    (plain : ∀ name ∈ Source.argNames (Source.bareArgs es), Word name) :
    ∀ o ∈ os, o.Everywhere (Legible s.descriptors) := by
  cases images with
  | nil => simp
  | cons first rest =>
      rw [Source.exprListNodes, List.forall_mem_append] at linked
      rw [Source.bareArgs, Source.argNames, List.forall_mem_append] at plain
      rw [List.forall_mem_cons]
      exact ⟨expr_legible first linked.1 plain.1, exprs_legible rest linked.2 plain.2⟩

end

theorem names_of_declares {site : Site} {name : String} {kind : Descriptor.Kind} {note : Binding}
    {i : DescriptorId} (declares : Resolution.Declares s site name kind)
    (there : s.bindings.get? site.id = some note) (declared : note.declares = some i) :
    Names s.descriptors i name := by
  obtain ⟨b, j, there', declared', describes⟩ := declares
  obtain rfl := Option.some.inj (there.symm.trans there')
  obtain rfl := Option.some.inj (declared.symm.trans declared')
  exact describes.names

/-- The same for statements. -/
theorem stmt_legible {stmt : Stmt Site} {o : Outline} (image : StmtImage s.bindings stmt o)
    (linked : ∀ n ∈ stmt.nodes, Linked s n) (plain : ∀ name ∈ stmt.bare.names, Word name) :
    o.Everywhere (Legible s.descriptors) := by
  cases image with
  | @letBind site name type value i note o there declared image =>
      rw [Stmt.nodes, List.forall_mem_cons, List.forall_mem_append] at linked
      rw [Stmt.bare, Stmt.names, List.forall_mem_cons, List.forall_mem_append] at plain
      refine .node ?_ ?_
      · rw [Legible, label_of_names (names_of_declares linked.1 there declared)]
        exact plain.1
      · rw [List.forall_mem_singleton]
        exact expr_legible image linked.2.2 plain.2.2
  | leave => exact .node trivial (by simp)
  | ret image =>
      rw [Stmt.nodes, List.forall_mem_cons, Option.toList_some, List.flatMap_singleton] at linked
      rw [Stmt.bare, Stmt.names, Option.map_some, Option.toList_some, List.flatMap_singleton] at plain
      refine .node trivial ?_
      rw [List.forall_mem_singleton]
      exact expr_legible image linked.2 plain
  | eval image =>
      rw [Stmt.nodes, List.forall_mem_cons] at linked
      rw [Stmt.bare, Stmt.names] at plain
      refine .node trivial ?_
      rw [List.forall_mem_singleton]
      exact expr_legible image linked.2 plain

variable {items : List (Source.Item Site)} {ctx : Resolution.Context}

theorem tyText_builtin {D : Descriptor.Table} {name : String} {ty : Ty}
    (found : Ty.builtin? name = some ty) : D.tyText ty = name := by
  unfold Ty.builtin? at found
  split at found <;> cases found <;> rfl

/-- A type that a reference stands for is written as the reference. -/
theorem word_tyText (globals : ctx.globals = Resolution.itemNames items) (sure : Sure items ctx s)
    {typeParams : List String} {t : TypeRef Site} {ty : Ty}
    (noted : TypeNoted ctx s.bindings s.descriptors typeParams t ty) (plain : Word t.name) :
    Word (s.descriptors.tyText ty) := by
  cases noted with
  | builtin found _ =>
      rw [tyText_builtin found]
      exact plain
  | param _ _ _ => exact plain
  | @cls i d _ _ leads entry _ _ =>
      obtain ⟨d', entry', named⟩ := leads.names globals sure
      rw [Descriptor.Table.tyText, entry', Option.map_some, Option.getD_some, named]
      exact plain

/-- The same for members of an item, whose types are shown as well. -/
theorem member_legible (globals : ctx.globals = Resolution.itemNames items) (sure : Sure items ctx s)
    {node : String → Kind} (sort : node = .field ∨ node = .param) {kind : Descriptor.Kind}
    {typeParams : List String} {m : Typed Site} {p : Descriptor.Param × DescriptorId} {o : Outline}
    (noted : MemberNoted ctx s.bindings s.descriptors kind typeParams m p)
    (image : MemberImage s.bindings node m o) (plain : ∀ name ∈ m.bare.names, Word name) :
    o.Everywhere (Legible s.descriptors) := by
  cases image with
  | @mk i note there declared =>
      obtain rfl := Option.some.inj (noted.declared.symm.trans there)
      obtain rfl := Option.some.inj declared
      obtain ⟨d, entry, named, -, ty⟩ := noted.entry
      rw [Typed.bare, Typed.names, TypeRef.bare, TypeRef.names, List.forall_mem_cons,
        List.forall_mem_singleton] at plain
      have written : Word (label s.descriptors (some p.2)) ∧
          Word (typeLabel s.descriptors (some p.2)) := by
        rw [label_of_names ⟨d, entry, named⟩, typeLabel, Option.bind_some, entry, Option.map_some,
          Option.getD_some, ty]
        exact ⟨plain.1, word_tyText globals sure noted.type plain.2⟩
      refine .node ?_ (by simp)
      rcases sort with rfl | rfl <;> exact written

theorem members_legible (globals : ctx.globals = Resolution.itemNames items)
    (sure : Sure items ctx s) {node : String → Kind} (sort : node = .field ∨ node = .param)
    {kind : Descriptor.Kind} {typeParams : List String} {members : List (Typed Site)}
    {ps : List (Descriptor.Param × DescriptorId)} {os : List Outline}
    (noted : List.Forall₂ (MemberNoted ctx s.bindings s.descriptors kind typeParams) members ps)
    (images : List.Forall₂ (MemberImage s.bindings node) members os)
    (plain : ∀ name ∈ (members.map Typed.bare).flatMap Typed.names, Word name) :
    ∀ o ∈ os, o.Everywhere (Legible s.descriptors) := by
  induction images generalizing ps with
  | nil => simp
  | cons image _ ih =>
      cases noted with
      | cons first rest =>
          rw [List.map_cons, List.flatMap_cons, List.forall_mem_append] at plain
          rw [List.forall_mem_cons]
          exact ⟨member_legible globals sure sort first image plain.1, ih rest plain.2⟩

/-- The same for items. -/
theorem item_legible (globals : ctx.globals = Resolution.itemNames items) (sure : Sure items ctx s)
    {i : DescriptorId} {item : Source.Item Site} {params : List DescriptorId} {o : Outline}
    (head : HeadNoted ctx s.bindings s.descriptors i item params)
    (image : ItemImage s.bindings item o) (linked : ∀ n ∈ item.nodes, Linked s n)
    (plain : ∀ name ∈ item.bare.names, Word name) : o.Everywhere (Legible s.descriptors) := by
  obtain ⟨d, ps, -, -, declared, result, members, -⟩ := head.described
  generalize d.ty = given at declared result
  cases image with
  | @cls site name fields j note os there _ images =>
      rw [Source.Item.bare, Source.Item.names, List.forall_mem_cons] at plain
      exact .node plain.1 (members_legible globals sure (.inl rfl) members images plain.2)
  | @function site name typeParams params' returns body j note os ss there _ images statements =>
      rw [Source.Item.bare, Source.Item.names, List.forall_mem_cons, List.forall_mem_append,
        List.forall_mem_append, List.forall_mem_append] at plain
      obtain ⟨named, -, paramNames, returnNames, bodyNames⟩ := plain
      rw [Source.Item.nodes, List.forall_mem_cons, List.forall_mem_append] at linked
      obtain rfl := Option.some.inj (declared.symm.trans there)
      refine .node ⟨named, ?_⟩ ?_
      · cases result with
        | function returned =>
            cases returned with
            | nothing => exact (by decide : Word "unit")
            | @value t _ type =>
                exact word_tyText globals sure type
                  (returnNames t.name (by simp [TypeRef.bare, TypeRef.names]))
      · rw [List.forall_mem_append, List.forall_mem_singleton]
        refine ⟨members_legible globals sure (.inr rfl) members images paramNames,
          .node trivial (forall_of_images statements fun stmt among o image => ?_)⟩
        refine stmt_legible image
          (fun n inside => linked.2.2 n (List.mem_flatMap.mpr ⟨stmt, among, inside⟩))
          fun name used => bodyNames name ?_
        exact List.mem_flatMap.mpr ⟨stmt.bare, List.mem_map_of_mem among, used⟩

/-- What names an assembled unit uses are identifiers. -/
theorem word_of_assembled {draft : Source.Draft} {unit : String} {tree : Tree}
    (assembled : draft.assemble unit = .ok tree) :
    ∀ item ∈ tree.items, ∀ name ∈ item.bare.names, Word name := by
  intro item member name used
  have fine := (Source.assembles_iff draft unit).mp ⟨tree, assembled⟩
  rw [Source.Draft.names, ← Source.assemble_bare assembled] at fine
  exact word_identifier
    (fine name (List.mem_flatMap.mpr ⟨item.bare, List.mem_map_of_mem member, used⟩))

/-- Everything in the image of an assembled unit is legible. -/
theorem image_legible {draft : Source.Draft} {unit : String} {tree : Tree} {registry : Registry}
    (assembled : draft.assemble unit = .ok tree)
    (silent : (Resolution.run tree registry).diagnostics = []) {o : Outline}
    (image : TreeImage (Resolution.run tree registry).bindings tree o) :
    o.Everywhere (Legible (Resolution.run tree registry).descriptors) := by
  have numbers := Source.assemble_numbers assembled
  have links := Resolution.run_links numbers registry
  obtain ⟨sure, noted⟩ := Resolution.run_noted numbers silent
  have plain := word_of_assembled assembled
  cases image with
  | @mk os images =>
      have items : ∀ o ∈ os, o.Everywhere (Legible (Resolution.run tree registry).descriptors) := by
        refine forall_of_images images fun item among o image => ?_
        obtain ⟨i, there⟩ := List.mem_iff_getElem?.mp among
        obtain ⟨params, head, -⟩ := noted i item there
        exact item_legible rfl sure head image
          (fun n inside => links.linked n (List.mem_flatMap.mpr ⟨item, among, inside⟩))
          (plain item among)
      have file : (Outline.node (.file tree.unit) none .unit os).Everywhere
          (Legible (Resolution.run tree registry).descriptors) := .node trivial items
      refine .node trivial ?_
      rw [List.forall_mem_singleton]
      exact file

end Images

end StagedCompiler.Listing
