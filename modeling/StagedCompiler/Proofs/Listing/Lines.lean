import Mathlib.Algebra.GroupWithZero.Nat
import StagedCompiler.Artifact.Basic
import StagedCompiler.Proofs.Listing.Legibility

/-!
# The lines of a listing

* `Layout.ofLines` is the text of lines that end in a line feed each; a listing is such a text
  (`render_eq`), and splitting it gives the lines back if none of them holds a line feed
  (`splitOn_flatMap`).
* `itemLength` says of an outline how many lines stand below the header of an item, without emitting
  any code.
* `ItemBlock` says what the lines of an item look like; those of a legible item do
  (`itemBlock_listing`), because the names in it are words (`Item.Clear`).
-/

namespace StagedCompiler

namespace Layout

/-! ## Texts made of lines -/

/-- The text of lines, with a line feed at the end of each. -/
def ofLines (lines : List String) : String := String.join (lines.map (· ++ "\n"))

theorem toList_ofLines (lines : List String) :
    (ofLines lines).toList = lines.flatMap fun line => line.toList ++ ['\n'] := by
  simp [ofLines, String.toList_join, List.flatMap_map]

theorem ofLines_append (lines more : List String) :
    ofLines (lines ++ more) = ofLines lines ++ ofLines more := by
  apply String.toList_injective
  rw [String.toList_append, toList_ofLines, toList_ofLines, toList_ofLines, List.flatMap_append]

theorem ofLines_cons (line : String) (more : List String) :
    ofLines (line :: more) = line ++ "\n" ++ ofLines more := by
  apply String.toList_injective
  simp [toList_ofLines]

/-- A layout with further lines in its text. -/
theorem each_line (l : Layout) (lines : List String) :
    l.each lines line = { l with
      text := l.text ++ ofLines (lines.map (String.join (List.replicate l.level l.indent.text) ++ ·)) } := by
  induction lines generalizing l with
  | nil => simp [each, ofLines, String.join]
  | cons first rest ih =>
      have step : l.each (first :: rest) line = (l.line first).each rest line := rfl
      rw [step, ih, List.map_cons, ofLines_cons]
      simp [line, String.append_assoc]

/-! ## Splitting -/

/-- Pieces without separators that are each closed by one are what splitting gives, and an empty piece
behind them. -/
theorem splitOn_flatMap {a : Char} {pieces : List (List Char)} (whole : ∀ piece ∈ pieces, a ∉ piece) :
    (pieces.flatMap (· ++ [a])).splitOn a = pieces ++ [[]] := by
  induction pieces with
  | nil => rfl
  | cons piece rest ih =>
      rw [List.forall_mem_cons] at whole
      rw [List.flatMap_cons, List.append_assoc, List.singleton_append,
        List.splitOn_append_cons_self_of_not_mem whole.1, ih whole.2]
      rfl

/-- No piece of a split text has the separator. -/
theorem notMem_of_mem_splitOn {a : Char} {xs piece : List Char} (member : piece ∈ xs.splitOn a) :
    a ∉ piece := by
  induction xs generalizing piece with
  | nil =>
      rw [List.splitOn_nil, List.mem_singleton] at member
      simp [member]
  | cons x rest ih =>
      rw [List.splitOn_cons_eq_if_modifyHead] at member
      split at member
      · rcases List.mem_cons.mp member with rfl | later
        · simp
        · exact ih later
      · rename_i other
        cases parts : rest.splitOn a with
        | nil => exact absurd parts (List.splitOn_ne_nil a rest)
        | cons first more =>
            rw [parts] at ih
            rw [parts, List.modifyHead_cons, List.mem_cons] at member
            rcases member with rfl | later
            · rw [List.mem_cons, not_or]
              exact ⟨fun same => other (beq_iff_eq.mpr same.symm), ih List.mem_cons_self⟩
            · exact ih (List.mem_cons_of_mem _ later)

end Layout

namespace Listing

open StagedCompiler.Module (Kind Outline Numbered)
open StagedCompiler.Module.Outline (Everywhere everywhere_node_iff WellShaped)
open Text (OneLine Word oneLine_append_iff notMem_intercalate oneLine_constant oneLine_toString_nat)

/-! ## Rendering -/

/-- The lines of an item with the given header and body: they stand behind an empty one, and the body is
indented by four spaces. -/
def blockLines (header : String) (body : List String) : List String :=
  "" :: header :: body.map ("    " ++ ·)

/-- The lines of a unit with the given items. -/
def unitLines (unit : String) (blocks : List (String × List String)) : List String :=
  ("; unit " ++ unit) :: blocks.flatMap fun block => blockLines block.1 block.2

theorem render_block (text header : String) (body : List String) :
    (Layout.blank ⟨0, default, text⟩).block header (fun out => out.each body Layout.line) =
      ⟨0, default, text ++ Layout.ofLines (blockLines header body)⟩ := by
  have indentation : (default : Indent).text = "    " := rfl
  rw [Layout.block, Layout.each_line, blockLines, Layout.ofLines_cons, Layout.ofLines_cons]
  simp [Layout.blank, Layout.line, Layout.deeper, Layout.shallower, indentation, String.append_assoc]

/-- A listing puts an empty line, a header, indented lines and a closing line for each item. -/
theorem render_items (text : String) (items : List Item) :
    (Layout.mk 0 default text).each items
      (fun out item => out.blank.block item.header fun out => out.each item.lines Layout.line) =
    ⟨0, default, text ++ Layout.ofLines (items.flatMap fun i => blockLines i.header i.lines)⟩ := by
  induction items generalizing text with
  | nil => simp [Layout.each, Layout.ofLines]
  | cons item rest ih =>
      rw [Layout.each, List.foldl_cons, ← Layout.each, render_block, ih, List.flatMap_cons,
        Layout.ofLines_append, String.append_assoc]

/-- A listing is the text of the lines of its items. -/
theorem render_eq (l : Listing) :
    l.render = Layout.ofLines (unitLines l.unit (l.items.map fun i => (i.header, i.lines))) := by
  have start : (Layout.empty).line ("; unit " ++ l.unit) =
      ⟨0, default, "; unit " ++ l.unit ++ "\n"⟩ := by
    simp [Layout.empty, Layout.line]
  rw [render, start, render_items, unitLines, Layout.ofLines_cons, List.flatMap_map]

/-! ## Lines that are what they seem -/

/-- A line without a line feed that begins with something other than a blank. -/
structure Flush (line : String) : Prop where
  oneLine : OneLine line
  begins : line.toList.head?.any (· != ' ') = true

instance (line : String) : Decidable (Flush line) :=
  decidable_of_iff (OneLine line ∧ line.toList.head?.any (· != ' ') = true)
    ⟨fun given => ⟨given.1, given.2⟩, fun flush => ⟨flush.oneLine, flush.begins⟩⟩

theorem Flush.append {line more : String} (flush : Flush line) (oneLine : OneLine more) :
    Flush (line ++ more) := by
  refine ⟨oneLine_append_iff.mpr ⟨flush.oneLine, oneLine⟩, ?_⟩
  have begins := flush.begins
  rw [String.toList_append, List.head?_append]
  cases first : line.toList.head? with
  | none => rw [first] at begins; cases begins
  | some c => rwa [first] at begins

/-- The names in an instruction are words. -/
def Plain : Instruction → Prop
  | .load name | .store name | .call name _ => Word name
  | .getField owner name => Word owner ∧ Word name
  | .push _ | .operate _ | .pop | .ret => True

/-- A plain instruction begins in its first column and is on one line. -/
theorem flush_text {i : Instruction} (plain : Plain i) : Flush i.text := by
  cases i with
  | push value => exact (by decide : Flush "push ").append (oneLine_constant value)
  | load name => exact (by decide : Flush "load ").append plain.oneLine
  | store name => exact (by decide : Flush "store ").append plain.oneLine
  | call name arguments =>
      exact (((by decide : Flush "call ").append plain.oneLine).append (by decide)).append
        (oneLine_toString_nat arguments)
  | getField owner name =>
      exact (((by decide : Flush "getfield ").append plain.1.oneLine).append (by decide)).append
        plain.2.oneLine
  | operate op => cases op <;> decide
  | pop => decide
  | ret => decide

/-- The name and the type of a member are words. -/
def Member.Clear (m : Member) : Prop := Word m.name ∧ Word m.ty

/-- The names in an item are words. -/
def Item.Clear : Item → Prop
  | .cls name fields => Word name ∧ ∀ f ∈ fields, f.Clear
  | .function name params result code =>
    Word name ∧ (∀ p ∈ params, p.Clear) ∧ (∀ ty ∈ result, Word ty) ∧ ∀ i ∈ code, Plain i

theorem Member.Clear.oneLine {m : Member} (clear : m.Clear) : OneLine m.text := by
  simp only [Member.text, oneLine_append_iff]
  exact ⟨⟨clear.1.oneLine, by decide⟩, clear.2.oneLine⟩

/-- The lines of an item whose names are words. -/
theorem Item.Clear.flush {item : Item} (clear : item.Clear) :
    ∀ line ∈ item.header :: item.lines, Flush line := by
  cases item with
  | cls name fields =>
      rw [List.forall_mem_cons, Item.lines, List.forall_mem_map]
      exact ⟨(by decide : Flush "class ").append clear.1.oneLine, fun f member =>
        (by decide : Flush "field ").append (clear.2 f member).oneLine⟩
  | function name params result code =>
      obtain ⟨named, members, typed, plain⟩ := clear
      rw [List.forall_mem_cons, Item.lines, List.forall_mem_map]
      refine ⟨?_, fun i member => flush_text (plain i member)⟩
      have signature : OneLine (", ".intercalate (params.map Member.text)) := by
        refine notMem_intercalate (by decide) ?_
        rw [List.forall_mem_map]
        exact fun p member => (members p member).oneLine
      refine ((((by decide : Flush "fn ").append named.oneLine).append (by decide)).append
        signature).append (by decide) |>.append ?_
      cases result with
      | none => exact (by decide : OneLine "")
      | some ty => exact oneLine_append_iff.mpr ⟨by decide, (typed ty rfl).oneLine⟩

section Code

variable {D : Descriptor.Table}

theorem plain_instruction {k : Kind} {d : Option DescriptorId} {ty : Ty} {cs : List Outline}
    (legible : Legible D (.node k d ty cs)) (operands : Nat) : Plain (instructionOf D k d operands) := by
  cases k <;> first | exact legible | exact trivial

mutual

/-- The code of a legible expression is plain. -/
theorem plain_exprCode :
    ∀ {o : Outline}, o.Everywhere (Legible D) → ∀ i ∈ exprCodeOf D o, Plain i
  | .node k d ty cs, legible => by
      obtain ⟨here, below⟩ := everywhere_node_iff.mp legible
      rw [exprCodeOf, List.forall_mem_append, List.forall_mem_singleton]
      exact ⟨plain_exprCodes below, plain_instruction here cs.length⟩

theorem plain_exprCodes :
    ∀ {os : List Outline}, (∀ o ∈ os, o.Everywhere (Legible D)) → ∀ i ∈ exprCodesOf D os, Plain i
  | [], _ => by simp [exprCodesOf]
  | o :: rest, legible => by
      rw [List.forall_mem_cons] at legible
      rw [exprCodesOf, List.forall_mem_append]
      exact ⟨plain_exprCode legible.1, plain_exprCodes legible.2⟩

end

mutual

/-- The code of a legible statement is plain. -/
theorem plain_stmtCode :
    ∀ {o : Outline}, o.Everywhere (Legible D) → ∀ i ∈ stmtCodeOf D o, Plain i
  | .node k d ty cs, legible => by
      obtain ⟨here, below⟩ := everywhere_node_iff.mp legible
      have values := plain_exprCodes below
      cases k with
      | block =>
          rw [stmtCodeOf]
          exact plain_stmtCodes below
      | letBind name =>
          rw [stmtCodeOf, List.forall_mem_append, List.forall_mem_singleton]
          exact ⟨values, here⟩
      | ret =>
          rw [stmtCodeOf, List.forall_mem_append, List.forall_mem_singleton]
          exact ⟨values, trivial⟩
      | eval =>
          rw [stmtCodeOf]
          split
          · exact values
          · rw [List.forall_mem_append, List.forall_mem_singleton]
            exact ⟨values, trivial⟩
      | _ => simp [stmtCodeOf]

theorem plain_stmtCodes :
    ∀ {os : List Outline}, (∀ o ∈ os, o.Everywhere (Legible D)) → ∀ i ∈ stmtCodesOf D os, Plain i
  | [], _ => by simp [stmtCodesOf]
  | o :: rest, legible => by
      rw [List.forall_mem_cons] at legible
      rw [stmtCodesOf, List.forall_mem_append]
      exact ⟨plain_stmtCode legible.1, plain_stmtCodes legible.2⟩

end

theorem plain_bodyCode {body : Outline} (legible : body.Everywhere (Legible D)) :
    ∀ i ∈ bodyCodeOf D body, Plain i := by
  rw [bodyCodeOf]
  split
  · exact plain_stmtCode legible
  · rw [List.forall_mem_append, List.forall_mem_singleton]
    exact ⟨plain_stmtCode legible, trivial⟩

/-! ## How many lines there are -/

mutual

/-- How many lines a statement has: each node of an expression has one, and so has what is done with the
value, unless an evaluation leaves none. -/
def stmtLength : Outline → Nat
  | .node .block _ _ stmts => stmtLengths stmts
  | .node (.letBind _) _ _ values | .node .ret _ _ values => Module.Outline.sizeAll values + 1
  | .node .eval _ ty values => Module.Outline.sizeAll values + if ty = .unit then 0 else 1
  | _ => 0

/-- How many lines statements have together. -/
def stmtLengths : List Outline → Nat
  | [] => 0
  | o :: rest => stmtLength o + stmtLengths rest

end

/-- How many lines a body has: one more if its last statement does not return. -/
def bodyLength (body : Outline) : Nat :=
  stmtLength body + if endsInReturnOf body then 0 else 1

/-- How many lines stand below the header of an item: one for each field of a class, and those of a
function's body. -/
def itemLength : Outline → Nat
  | .node (.cls _) _ _ fields => fields.length
  | .node _ _ _ parts => (parts.getLast?.map bodyLength).getD 0

theorem itemLength_function (name : String) (d : Option DescriptorId) (ty : Ty)
    (params : List Outline) (body : Outline) :
    itemLength (.node (.function name) d ty (params ++ [body])) = bodyLength body := by
  change ((params ++ [body]).getLast?.map bodyLength).getD 0 = _
  rw [List.getLast?_concat]
  rfl

mutual

/-- An expression has an instruction for each of its nodes. -/
theorem length_exprCodeOf : ∀ o : Outline, (exprCodeOf D o).length = o.size
  | .node k d ty cs => by
      rw [exprCodeOf, List.length_append, length_exprCodesOf, Module.Outline.size]
      exact Nat.add_comm _ _

theorem length_exprCodesOf : ∀ os : List Outline, (exprCodesOf D os).length = Module.Outline.sizeAll os
  | [] => rfl
  | o :: rest => by
      rw [exprCodesOf, List.length_append, length_exprCodeOf, length_exprCodesOf, Module.Outline.sizeAll]

end

mutual

/-- The code of a statement is as long as is said without emitting it. -/
theorem length_stmtCodeOf : ∀ o : Outline, (stmtCodeOf D o).length = stmtLength o
  | .node k d ty cs => by
      cases k with
      | block => rw [stmtCodeOf, length_stmtCodesOf, stmtLength]
      | letBind name =>
          rw [stmtCodeOf, List.length_append, length_exprCodesOf, stmtLength]
          rfl
      | ret =>
          rw [stmtCodeOf, List.length_append, length_exprCodesOf, stmtLength]
          rfl
      | eval =>
          rw [stmtCodeOf, stmtLength]
          by_cases unit : ty = .unit
          · rw [if_pos (beq_iff_eq.mpr unit), if_pos unit, length_exprCodesOf, Nat.add_zero]
          · rw [if_neg (by simpa using unit), if_neg unit, List.length_append, length_exprCodesOf]
            rfl
      | _ => simp [stmtCodeOf, stmtLength]

theorem length_stmtCodesOf : ∀ os : List Outline, (stmtCodesOf D os).length = stmtLengths os
  | [] => rfl
  | o :: rest => by
      rw [stmtCodesOf, List.length_append, length_stmtCodeOf, length_stmtCodesOf, stmtLengths]

end

theorem length_bodyCodeOf (body : Outline) : (bodyCodeOf D body).length = bodyLength body := by
  rw [bodyCodeOf, bodyLength]
  split
  · exact length_stmtCodeOf body
  · rw [List.length_append, length_stmtCodeOf]
    rfl

/-- The code of a body ends in a return. -/
theorem getLast?_bodyCodeOf {d : Option DescriptorId} {ty : Ty} (stmts : List Outline) :
    (bodyCodeOf D (.node .block d ty stmts)).getLast? = some .ret := by
  rw [bodyCodeOf]
  split
  · -- Nothing is appended here: the last statement emits the return itself.
    rename_i returns
    rw [endsInReturnOf, Module.Outline.children] at returns
    split at returns
    · cases returns
    · rename_i last found
      obtain ⟨front, rfl⟩ := List.getLast?_eq_some_iff.mp found
      rcases last with ⟨k, d', ty', values⟩
      obtain rfl : k = .ret := eq_of_beq returns
      rw [stmtCodeOf, stmtCodesOf_eq, List.map_append, List.flatten_append]
      simp [stmtCodeOf]
  · exact List.getLast?_concat

/-! ## The lines of an item -/

/-- What the kind of an item says about its header and its body: a class has its name in its header and
a field on each line, a function has its name and an instruction on each line, the last of which
returns. -/
def Heads : Kind → String → List String → Prop
  | .cls name, header, body =>
    header = "class " ++ name ∧ ∃ fields : List Member, body = fields.map fun f => "field " ++ f.text
  | .function name, header, body =>
    (∃ rest, header = "fn " ++ name ++ "(" ++ rest) ∧
      ∃ code : List Instruction, body = code.map Instruction.text ∧ code.getLast? = some .ret
  | _, _, _ => False

/-- The header and the body of an item. -/
structure ItemBlock (o : Outline) (header : String) (body : List String) : Prop where
  heads : Heads o.kind header body
  length : body.length = itemLength o
  flush : ∀ line ∈ header :: body, Flush line

theorem word_member {o : Outline} (legible : Legible D o)
    (sort : (o.kind.isField || o.kind.isParam) = true) : (memberListingOf D o).Clear := by
  rcases o with ⟨k, d, ty, cs⟩
  cases k <;> first | exact legible | cases sort

/-- The names in a legible item are words. -/
theorem clear_listing {o : Outline} (shaped : o.WellShaped D) (item : o.kind.isItem = true)
    (legible : o.Everywhere (Legible D)) : (itemListingOf D o).Clear := by
  cases shaped with
  | @node k d ty cs _ fits _ =>
      obtain ⟨here, below⟩ := everywhere_node_iff.mp legible
      cases k with
      | cls name =>
          have sorts : ∀ k ∈ cs.map Outline.kind, k.isField = true := fits
          rw [List.forall_mem_map] at sorts
          refine ⟨here, ?_⟩
          rw [List.forall_mem_map]
          intro f member
          exact word_member (below f member).here (by rw [sorts f member, Bool.true_or])
      | function name =>
          obtain ⟨kinds, split, sorts⟩ := fits
          obtain ⟨params, back, rfl, rfl, last⟩ := List.map_eq_append_iff.mp split
          obtain ⟨body, rfl, block⟩ := List.map_eq_singleton_iff.mp last
          rw [List.forall_mem_append, List.forall_mem_singleton] at below
          rw [List.forall_mem_map] at sorts
          rw [itemListingOf, List.dropLast_concat, List.getLast?_concat, Option.map_some,
            Option.getD_some]
          refine ⟨here.1, ?_, ?_, plain_bodyCode below.2⟩
          · rw [List.forall_mem_map]
            intro p member
            exact word_member (below.1 p member).here (by rw [sorts p member, Bool.or_true])
          · split
            · simp
            · rintro _ ⟨⟩
              exact here.2
      | _ => cases item

/-- The lines of a class. -/
theorem itemBlock_cls {name : String} {d : Option DescriptorId} {ty : Ty} {fields : List Outline}
    (clear : (Item.cls name (fields.map (memberListingOf D))).Clear) :
    ItemBlock (.node (.cls name) d ty fields) (Item.cls name (fields.map (memberListingOf D))).header
      (Item.cls name (fields.map (memberListingOf D))).lines := by
  refine ⟨⟨rfl, fields.map (memberListingOf D), rfl⟩, ?_, clear.flush⟩
  rw [Item.lines, List.length_map, List.length_map, itemLength]

/-- The lines of a function, whose body stands behind its parameters. -/
theorem itemBlock_function {name : String} {d : Option DescriptorId} {ty : Ty} {params : List Outline}
    {body : Outline} (block : body.kind = .block)
    (clear : (itemListingOf D (.node (.function name) d ty (params ++ [body]))).Clear) :
    ItemBlock (.node (.function name) d ty (params ++ [body]))
      (itemListingOf D (.node (.function name) d ty (params ++ [body]))).header
      (itemListingOf D (.node (.function name) d ty (params ++ [body]))).lines := by
  refine ⟨?_, ?_, clear.flush⟩
  all_goals
    rw [itemListingOf, List.dropLast_concat, List.getLast?_concat, Option.map_some, Option.getD_some]
  · refine ⟨?_, bodyCodeOf D body, rfl, ?_⟩
    · simp only [Item.header, String.append_assoc]
      exact ⟨_, rfl⟩
    · rcases body with ⟨k, d', ty', stmts⟩
      obtain rfl : k = .block := block
      exact getLast?_bodyCodeOf stmts
  · rw [Item.lines, List.length_map, length_bodyCodeOf, itemLength_function]

/-- The lines of a legible item. -/
theorem itemBlock_listing {o : Outline} (shaped : o.WellShaped D) (item : o.kind.isItem = true)
    (legible : o.Everywhere (Legible D)) :
    ItemBlock o (itemListingOf D o).header (itemListingOf D o).lines := by
  have clear := clear_listing shaped item legible
  cases shaped with
  | @node k d ty cs _ fits _ =>
      cases k with
      | cls name => exact itemBlock_cls clear
      | function name =>
          obtain ⟨kinds, split, isParam⟩ := fits
          obtain ⟨params, back, rfl, rfl, last⟩ := List.map_eq_append_iff.mp split
          obtain ⟨body, rfl, block⟩ := List.map_eq_singleton_iff.mp last
          exact itemBlock_function block clear
      | _ => cases item

end Code

/-! ## The lines of a unit -/

/-- How many lines the listing of a unit with the given items has: one for the unit, and two and those
below its header for each item. -/
def unitLength (items : List Outline) : Nat := 1 + (items.map fun o => 2 + itemLength o).sum

/-- A text is made of the lines of a unit with the given items, and it falls into these lines exactly if
the name of the unit is on one line. -/
structure LineByLine (unit : String) (items : List Outline) (blocks : List (String × List String))
    (text : String) : Prop where
  each : List.Forall₂ (fun o block => ItemBlock o block.1 block.2) items blocks
  made : text = Layout.ofLines (unitLines unit blocks)
  feeds : text.toList.count '\n' = unitLength items + unit.toList.count '\n'
  splits : text.toList.splitOn '\n' = (unitLines unit blocks).map String.toList ++ [[]] ↔ OneLine unit

theorem oneLine_blockLines {o : Outline} {header : String} {body : List String}
    (block : ItemBlock o header body) : ∀ line ∈ blockLines header body, OneLine line := by
  have flush := block.flush
  rw [List.forall_mem_cons] at flush
  rw [blockLines, List.forall_mem_cons, List.forall_mem_cons, List.forall_mem_map]
  exact ⟨by decide, flush.1.oneLine, fun line member =>
    oneLine_append_iff.mpr ⟨by decide, (flush.2 line member).oneLine⟩⟩

/-- All lines of items are on one line each. -/
theorem oneLine_items {items : List Outline} {blocks : List (String × List String)}
    (each : List.Forall₂ (fun o block => ItemBlock o block.1 block.2) items blocks) :
    ∀ line ∈ blocks.flatMap fun block => blockLines block.1 block.2, OneLine line := by
  induction each with
  | nil => simp
  | cons first _ ih =>
      rw [List.flatMap_cons, List.forall_mem_append]
      exact ⟨oneLine_blockLines first, ih⟩

/-- Items have as many lines as is said without emitting them. -/
theorem length_items {items : List Outline} {blocks : List (String × List String)}
    (each : List.Forall₂ (fun o block => ItemBlock o block.1 block.2) items blocks) :
    (blocks.flatMap fun block => blockLines block.1 block.2).length =
      (items.map fun o => 2 + itemLength o).sum := by
  induction each with
  | nil => rfl
  | cons first _ ih =>
      rw [List.flatMap_cons, List.length_append, ih, List.map_cons, List.sum_cons, blockLines,
        List.length_cons, List.length_cons, List.length_map, first.length]
      omega

/-- Lines on one line each have as many line feeds as there are lines. -/
theorem count_ofLines {lines : List String} (whole : ∀ line ∈ lines, OneLine line) :
    (Layout.ofLines lines).toList.count '\n' = lines.length := by
  induction lines with
  | nil => rfl
  | cons line rest ih =>
      rw [List.forall_mem_cons] at whole
      rw [Layout.ofLines_cons, String.toList_append, List.count_append, ih whole.2,
        String.toList_append, List.count_append, List.count_eq_zero.mpr whole.1, List.length_cons]
      exact Nat.add_comm _ _

/-- The text of the lines of a unit. -/
theorem lineByLine (unit : String) {items : List Outline} {blocks : List (String × List String)}
    (each : List.Forall₂ (fun o block => ItemBlock o block.1 block.2) items blocks) :
    LineByLine unit items blocks (Layout.ofLines (unitLines unit blocks)) := by
  refine ⟨each, rfl, ?_, ?_⟩
  · rw [unitLines, Layout.ofLines_cons, String.toList_append, List.count_append,
      count_ofLines (oneLine_items each), length_items each, String.toList_append,
      String.toList_append, List.count_append, List.count_append, unitLength]
    have first : "; unit ".toList.count '\n' = 0 := by decide
    have last : "\n".toList.count '\n' = 1 := by decide
    omega
  · rw [Layout.toList_ofLines, ← List.flatMap_map String.toList (· ++ ['\n'])]
    constructor
    · intro splits
      -- The line of the unit is one of the pieces, and no piece holds a separator.
      have piece : ("; unit " ++ unit).toList ∈
          (((unitLines unit blocks).map String.toList).flatMap (· ++ ['\n'])).splitOn '\n' := by
        rw [splits]
        exact List.mem_append_left _ (List.mem_map_of_mem List.mem_cons_self)
      exact (oneLine_append_iff.mp (Layout.notMem_of_mem_splitOn piece)).2
    · intro whole
      refine Layout.splitOn_flatMap ?_
      rw [List.forall_mem_map, unitLines, List.forall_mem_cons]
      exact ⟨oneLine_append_iff.mpr ⟨by decide, whole⟩, oneLine_items each⟩

end Listing

end StagedCompiler
