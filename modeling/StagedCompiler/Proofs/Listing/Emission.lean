import StagedCompiler.Artifact.Listing
import StagedCompiler.Proofs.Module.Shape

/-!
# The listing of a verified module

Emission goes down the arena of a module to a bounded depth and stops at nodes that are unfit.  In a
verified module it never stops, and what it emits follows the outline: `listingOf` gives the listing
of an outline without an arena, and `Verified.listing_eq` says that it is the listing of every
module that the outline is verified for.
-/

namespace StagedCompiler.Listing

open StagedCompiler.Module (Kind Outline Numbered Holds)
open StagedCompiler.Module.Outline (DescriptorFits ChildrenFit WellShaped)

variable (D : Descriptor.Table)

/-- The name of a descriptor. -/
def label (d : Option DescriptorId) : String := ((d.bind D.get?).map (·.name)).getD ""

/-- The name of the class that a field belongs to. -/
def ownerLabel (d : Option DescriptorId) : String := ((d.bind D.get?).map (ownerName D)).getD ""

/-- The instruction that an expression of a kind ends in. -/
def instructionOf (kind : Kind) (d : Option DescriptorId) (operands : Nat) : Instruction :=
  match kind with
  | .constant value => .push value
  | .localRef => .load (label D d)
  | .call => .call (label D d) operands
  | .fieldGet => .getField (ownerLabel D d) (label D d)
  | .binary op => .operate op
  | _ => .pop

mutual

/-- The code of an expression: operands, and then its own instruction. -/
def exprCodeOf : Outline → List Instruction
  | .node kind d _ operands =>
    exprCodesOf operands ++ [instructionOf D kind d operands.length]

/-- The code of expressions, one after another. -/
def exprCodesOf : List Outline → List Instruction
  | [] => []
  | o :: rest => exprCodeOf o ++ exprCodesOf rest

end

mutual

/-- The code of a statement. -/
def stmtCodeOf : Outline → List Instruction
  | .node .block _ _ stmts => stmtCodesOf stmts
  | .node (.letBind _) d _ values => exprCodesOf D values ++ [.store (label D d)]
  | .node .ret _ _ values => exprCodesOf D values ++ [.ret]
  | .node .eval _ ty values =>
    if ty == .unit then exprCodesOf D values else exprCodesOf D values ++ [.pop]
  | _ => []

/-- The code of statements, one after another. -/
def stmtCodesOf : List Outline → List Instruction
  | [] => []
  | o :: rest => stmtCodeOf o ++ stmtCodesOf rest

end

/-- Whether the last statement of a block returns. -/
def endsInReturnOf (block : Outline) : Bool :=
  match block.children.getLast? with
  | none => false
  | some last => last.kind == .ret

/-- The code of a body, which ends in a return. -/
def bodyCodeOf (body : Outline) : List Instruction :=
  if endsInReturnOf body then stmtCodeOf D body else stmtCodeOf D body ++ [.ret]

/-- A field or a parameter as a listing writes it. -/
def memberListingOf : Outline → Member
  | .node _ d _ _ => ⟨label D d, D.tyText (((d.bind D.get?).map (·.ty)).getD .unit)⟩

/-- An item as a listing writes it. -/
def itemListingOf : Outline → Item
  | .node (.function name) _ ty parts =>
    .function name (parts.dropLast.map (memberListingOf D))
      (if ty == .unit then none else some (D.tyText ty))
      ((parts.getLast?.map (bodyCodeOf D)).getD [])
  | .node (.cls name) _ _ fields => .cls name (fields.map (memberListingOf D))
  | _ => .cls "" []

/-- The listing of an outline. -/
def listingOf : Outline → Listing
  | .node (.module name) _ _ files =>
    ⟨name, (files.map fun f => f.children.map (itemListingOf D)).flatten⟩
  | _ => ⟨"", []⟩

variable {D}

theorem exprCodesOf_eq (os : List Outline) :
    exprCodesOf D os = (os.map (exprCodeOf D)).flatten := by
  induction os with
  | nil => rfl
  | cons o rest ih => rw [exprCodesOf, ih, List.map_cons, List.flatten_cons]

theorem stmtCodesOf_eq (os : List Outline) :
    stmtCodesOf D os = (os.map (stmtCodeOf D)).flatten := by
  induction os with
  | nil => rfl
  | cons o rest ih => rw [stmtCodesOf, ih, List.map_cons, List.flatten_cons]

/-! ## Emission follows the outline -/

/-- A step that always succeeds succeeds for every member of a list. -/
theorem mapM_eq_ok {ε α β : Type} {f : α → Except ε β} {g : α → β} {as : List α}
    (each : ∀ a ∈ as, f a = .ok (g a)) : as.mapM f = .ok (as.map g) := by
  induction as with
  | nil => rfl
  | cons a rest ih =>
      rw [List.mapM_cons, each a List.mem_cons_self,
        ih fun b member => each b (List.mem_cons_of_mem _ member)]
      rfl

/-- The same for the numbers of outlines. -/
theorem mapM_ids_eq_ok {ε β : Type} {f : NodeId → Except ε β} {g : Outline → β} {ts : List Numbered}
    (each : ∀ t ∈ ts, f t.id = .ok (g t.outline)) :
    (ts.map Numbered.id).mapM f = .ok ((ts.map Numbered.outline).map g) := by
  rw [List.mapM_map, List.map_map]
  exact mapM_eq_ok each

section Nodes

variable {m : Module} {t : Numbered}

theorem nodeOf_eq (held : Holds m t) : nodeOf m t.id = .ok t.top := by
  rw [nodeOf, held.node_id]
  rfl

/-- A declaration or reference that fits has a descriptor to be printed. -/
theorem descriptorOf_eq {k : Kind} {d : Option DescriptorId} (fits : DescriptorFits D k d)
    (declares : (k.isDeclaration || k.isReference) = true) (id : NodeId) (cs : List NodeId)
    (ty : Ty) :
    ∃ entry, d.bind D.get? = some entry ∧ descriptorOf D id ⟨k, cs, d, ty⟩ = .ok entry := by
  obtain ⟨i, rfl, known⟩ := fits declares
  have bound : i < D.descriptors.size := of_decide_eq_true known
  have entry : (some i).bind D.get? = some D.descriptors[i] := Array.getElem?_eq_getElem bound
  refine ⟨_, entry, ?_⟩
  unfold descriptorOf
  dsimp only
  rw [entry]

/-- The instruction of an expression is that of its outline. -/
theorem exprInstruction_eq {k : Kind} {d : Option DescriptorId} (fits : DescriptorFits D k d)
    (expression : k.isExpression = true) (id : NodeId) (cs : List NodeId) (ty : Ty) :
    exprInstruction D id ⟨k, cs, d, ty⟩ = .ok (instructionOf D k d cs.length) := by
  cases k with
  | constant value => rfl
  | binary op => rfl
  | localRef =>
      obtain ⟨entry, found, named⟩ := descriptorOf_eq fits rfl id cs ty
      simp only [exprInstruction, named, instructionOf, label, found]
      rfl
  | call =>
      obtain ⟨entry, found, named⟩ := descriptorOf_eq fits rfl id cs ty
      simp only [exprInstruction, named, instructionOf, label, found]
      rfl
  | fieldGet =>
      obtain ⟨entry, found, named⟩ := descriptorOf_eq fits rfl id cs ty
      simp only [exprInstruction, named, instructionOf, label, ownerLabel, found]
      rfl
  | _ => cases expression

/-- The code of an expression, if the depth is enough. -/
theorem exprCode_eq (held : Holds m t) (shaped : t.outline.WellShaped D)
    (expression : t.kind.isExpression = true) {depth : Nat} (enough : t.ids.length ≤ depth) :
    exprCode m D depth t.id = .ok (exprCodeOf D t.outline) := by
  induction t generalizing depth with
  | node i k d ty cs ih =>
      obtain ⟨described, fits, below⟩ := Numbered.wellShaped_node_iff.mp shaped
      rw [Numbered.ids_node, List.length_cons] at enough
      obtain ⟨depth, rfl⟩ : ∃ n, depth = n + 1 := ⟨depth - 1, by omega⟩
      have operands : ∀ c ∈ cs, exprCode m D depth c.id = .ok (exprCodeOf D c.outline) := by
        intro c member
        have shorter := Numbered.length_ids_le_of_mem member
        have kinds : ∀ k' ∈ cs.map Numbered.kind, k'.isExpression = true := by
          cases k with
          | call => exact fits
          | fieldGet | binary op => exact fits.2
          | localRef | constant value =>
              have empty : cs.map Numbered.kind = [] := fits
              simp [empty]
          | _ => cases expression
        exact ih c member (held.child member) (below c member)
          (kinds _ (List.mem_map_of_mem member)) (by omega)
      rw [exprCode, nodeOf_eq held]
      simp only [Numbered.top_node, bind, Except.bind, exprInstruction_eq described expression]
      rw [mapM_ids_eq_ok operands, Numbered.outline_node, exprCodeOf, exprCodesOf_eq,
        List.length_map, List.length_map]
      rfl

/-- The code of values below a node. -/
theorem valuesCode_eq {ts : List Numbered} (held : ∀ t ∈ ts, Holds m t)
    (shaped : ∀ t ∈ ts, t.outline.WellShaped D)
    (expressions : ∀ k ∈ ts.map Numbered.kind, k.isExpression = true)
    (nodup : ∀ t ∈ ts, t.ids.Nodup) :
    valuesCode m D (ts.map Numbered.id) = .ok (exprCodesOf D (ts.map Numbered.outline)) := by
  have each : ∀ t ∈ ts, exprCode m D (m.size + 1) t.id = .ok (exprCodeOf D t.outline) := by
    intro t member
    have small := (held t member).length_ids_le (nodup t member)
    exact exprCode_eq (held t member) (shaped t member)
      (expressions _ (List.mem_map_of_mem member)) (by omega)
  rw [valuesCode, mapM_ids_eq_ok each, exprCodesOf_eq]
  rfl

/-- The code of a statement, if the depth is enough. -/
theorem stmtCode_eq (held : Holds m t) (shaped : t.outline.WellShaped D)
    (statement : t.kind.isStatement = true) (nodup : t.ids.Nodup) {depth : Nat}
    (enough : t.ids.length ≤ depth) :
    stmtCode m D depth t.id = .ok (stmtCodeOf D t.outline) := by
  induction t generalizing depth with
  | node i k d ty cs ih =>
      obtain ⟨described, fits, below⟩ := Numbered.wellShaped_node_iff.mp shaped
      rw [Numbered.ids_node, List.length_cons] at enough
      rw [Numbered.ids_node, List.nodup_cons] at nodup
      obtain ⟨depth, rfl⟩ : ∃ n, depth = n + 1 := ⟨depth - 1, by omega⟩
      have values : (∀ k' ∈ cs.map Numbered.kind, k'.isExpression = true) →
          valuesCode m D (cs.map Numbered.id) = .ok (exprCodesOf D (cs.map Numbered.outline)) :=
        fun expressions => valuesCode_eq (fun c member => held.child member) below expressions
          fun c member => Numbered.nodup_ids_of_mem member nodup.2
      rw [stmtCode, nodeOf_eq held, Numbered.outline_node]
      cases k with
      | block =>
          have each : ∀ c ∈ cs, stmtCode m D depth c.id = .ok (stmtCodeOf D c.outline) := by
            intro c member
            have shorter := Numbered.length_ids_le_of_mem member
            exact ih c member (held.child member) (below c member)
              (fits _ (List.mem_map_of_mem member)) (Numbered.nodup_ids_of_mem member nodup.2)
              (by omega)
          simp only [Numbered.top_node, bind, Except.bind]
          rw [mapM_ids_eq_ok each, stmtCodeOf, stmtCodesOf_eq]
          rfl
      | letBind name =>
          obtain ⟨entry, found, named⟩ := descriptorOf_eq described rfl i (cs.map Numbered.id) ty
          simp only [Numbered.id_node, Numbered.top_node, bind, Except.bind, named, values fits.2,
            stmtCodeOf, label, found]
          rfl
      | ret =>
          simp only [Numbered.top_node, bind, Except.bind, values fits.2, stmtCodeOf]
          rfl
      | eval =>
          simp only [Numbered.top_node, bind, Except.bind, values fits.2, stmtCodeOf]
          rfl
      | _ => cases statement

/-! ## Items -/

/-- A member is printed as its outline says. -/
theorem memberOf_eq (held : Holds m t) (shaped : t.outline.WellShaped D)
    (declares : t.kind.isDeclaration = true) :
    memberOf m D t.id = .ok (memberListingOf D t.outline) := by
  cases t with
  | node i k d ty cs =>
      have declares : (k.isDeclaration || k.isReference) = true :=
        Bool.or_eq_true_iff.mpr (Or.inl declares)
      obtain ⟨described, _⟩ := Numbered.wellShaped_node_iff.mp shaped
      obtain ⟨entry, found, named⟩ := descriptorOf_eq described declares i (cs.map Numbered.id) ty
      rw [memberOf, nodeOf_eq held, Numbered.outline_node]
      simp only [Numbered.id_node, Numbered.top_node, bind, Except.bind, named, memberListingOf,
        label, found]
      rfl

/-- Whether a body ends in a return can be read off its outline. -/
theorem endsInReturn_eq (held : Holds m t) :
    endsInReturn m t.top = .ok (endsInReturnOf t.outline) := by
  cases t with
  | node i k d ty cs =>
      rw [Numbered.outline_node]
      unfold endsInReturn endsInReturnOf
      rw [Numbered.top_node, Module.Outline.children_node, List.getLast?_map, List.getLast?_map]
      cases last : cs.getLast? with
      | none => rfl
      | some c =>
          have part : Holds m c := held.child (List.mem_of_getLast? last)
          simp only [Option.map_some, bind, Except.bind, nodeOf_eq part, Numbered.kind_outline]
          cases c
          rfl

/-- The code of a body is that of its outline. -/
theorem bodyCode_eq (held : Holds m t) (shaped : t.outline.WellShaped D)
    (block : t.kind = .block) (nodup : t.ids.Nodup) :
    bodyCode m D t.id = .ok (bodyCodeOf D t.outline) := by
  have small := held.length_ids_le nodup
  have statement : t.kind.isStatement = true := by
    rw [block]
    rfl
  rw [bodyCode, stmtCode_eq held shaped statement nodup (by omega), nodeOf_eq held]
  simp only [bind, Except.bind, endsInReturn_eq held, bodyCodeOf]
  rfl

/-- An item is printed as its outline says, by cases on its kind. -/
theorem itemOf_eq (held : Holds m t) (shaped : t.outline.WellShaped D)
    (item : t.kind.isItem = true) (nodup : t.ids.Nodup) :
    itemOf m D t.id = .ok (itemListingOf D t.outline) := by
  cases t with
  | node i k d ty cs =>
      obtain ⟨_, fits, below⟩ := Numbered.wellShaped_node_iff.mp shaped
      rw [Numbered.ids_node, List.nodup_cons] at nodup
      rw [itemOf, nodeOf_eq held, Numbered.outline_node]
      cases k with
      | cls name =>
          have each : ∀ c ∈ cs, memberOf m D c.id = .ok (memberListingOf D c.outline) := by
            intro c member
            have field := fits _ (List.mem_map_of_mem member)
            refine memberOf_eq (held.child member) (below c member) ?_
            revert field
            cases c.kind <;> simp [Kind.isField, Kind.isDeclaration]
          simp only [Numbered.top_node, bind, Except.bind]
          rw [mapM_ids_eq_ok each]
          rfl
      | function name =>
          obtain ⟨params, split, isParam⟩ := fits
          obtain ⟨front, back, rfl, frontKinds, backKinds⟩ := List.map_eq_append_iff.mp split
          obtain ⟨body, rfl, block⟩ := List.map_eq_singleton_iff.mp backKinds
          have each : ∀ c ∈ front, memberOf m D c.id = .ok (memberListingOf D c.outline) := by
            intro c member
            have param := isParam _ (frontKinds ▸ List.mem_map_of_mem member)
            refine memberOf_eq (held.child (List.mem_append_left _ member))
              (below c (List.mem_append_left _ member)) ?_
            revert param
            cases c.kind <;> simp [Kind.isParam, Kind.isDeclaration]
          have last : body ∈ front ++ [body] := List.mem_append_right _ List.mem_cons_self
          have code := bodyCode_eq (held.child last) (below body last) block
            (Numbered.nodup_ids_of_mem last nodup.2)
          simp only [Numbered.top_node, List.map_append, List.map_singleton, List.getLast?_concat,
            List.dropLast_concat, bind, Except.bind, itemListingOf, Option.map_some,
            Option.getD_some]
          rw [mapM_ids_eq_ok each]
          simp only [code]
          rfl
      | _ => cases item

/-- So are the items of a file. -/
theorem fileItems_eq (held : Holds m t) (shaped : t.outline.WellShaped D)
    (file : t.kind.isFile = true) (nodup : t.ids.Nodup) :
    fileItems m D t.id = .ok (t.outline.children.map (itemListingOf D)) := by
  cases t with
  | node i k d ty cs =>
      obtain ⟨_, fits, below⟩ := Numbered.wellShaped_node_iff.mp shaped
      rw [Numbered.ids_node, List.nodup_cons] at nodup
      have items : ∀ k' ∈ cs.map Numbered.kind, k'.isItem = true := by
        cases k with
        | file name => exact fits
        | _ => cases file
      have each : ∀ c ∈ cs, itemOf m D c.id = .ok (itemListingOf D c.outline) := by
        intro c member
        exact itemOf_eq (held.child member) (below c member) (items _ (List.mem_map_of_mem member))
          (Numbered.nodup_ids_of_mem member nodup.2)
      rw [fileItems, nodeOf_eq held, Numbered.outline_node]
      exact mapM_ids_eq_ok each

end Nodes

end StagedCompiler.Listing

namespace StagedCompiler.Module

open Listing

/-- A verified module has the listing of its outline. -/
theorem Verified.listing_eq {m : Module} {D : Descriptor.Table} {t : Numbered}
    (verified : m.Verified D t) : Listing.ofModule m D = .ok (listingOf D t.outline) := by
  obtain ⟨held, root, nodup, shaped, name, kind⟩ := verified
  cases t with
  | node i k d ty cs =>
      obtain rfl : k = .module name := kind
      obtain ⟨_, fits, below⟩ := Numbered.wellShaped_node_iff.mp shaped
      rw [Numbered.ids_node, List.nodup_cons] at nodup
      have each : ∀ c ∈ cs,
          fileItems m D c.id = .ok (c.outline.children.map (itemListingOf D)) := by
        intro c member
        have file := fits _ (List.mem_map_of_mem member)
        exact fileItems_eq (held.child member) (below c member) file
          (Numbered.nodup_ids_of_mem member nodup.2)
      have named : m.name = .ok name := by
        rw [Module.name, ← root, held.node_id]
        rfl
      rw [Listing.ofModule, named, ← root, nodeOf_eq held, Numbered.outline_node]
      simp only [Except.mapError, bind, Except.bind, Numbered.top_node]
      rw [mapM_ids_eq_ok (g := fun o => o.children.map (itemListingOf D)) each]
      rfl

end StagedCompiler.Module
