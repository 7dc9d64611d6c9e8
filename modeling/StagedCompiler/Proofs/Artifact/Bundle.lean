import StagedCompiler.Artifact.Basic
import StagedCompiler.Artifact.Decoding
import StagedCompiler.Proofs.Artifact.JsonText

/-!
# Bundles lose nothing

A bundle's text gives back the module and the descriptors that it was made from.

* Types, origins, descriptors, constants, kinds and nodes are read back from their forms, one
  constructor at a time: the word in the form tells which one it is.
* `Json.ofText?` reads the form back from the text, so `Artifact.readBundle?` reads the bundle, and no
  two units have the same one (`Artifact.bundle_injective`).
-/

namespace StagedCompiler

/-! ## Numbers, lists and values that may be missing -/

namespace Json

@[simp] theorem nat?_nat (n : Nat) : (nat n).nat? = some n := rfl

@[simp] theorem str?_str (s : String) : (str s).str? = some s := rfl

theorem int64?_toInt (n : Int64) : (int n.toInt).int64? = some n := by
  have inside : Int64.minValue.toInt ≤ n.toInt ∧ n.toInt ≤ Int64.maxValue.toInt :=
    ⟨Int64.minValue_le_toInt n, Int64.toInt_le n⟩
  rw [int64?, word?, if_pos inside, Int64.ofInt_toInt]

section

variable {α : Type} {write : α → Json} {read : Json → Option α}

/-- A list of parts that are read back is read back. -/
theorem items?_arr (reads : ∀ a, read (write a) = some a) (as : List α) :
    (arr (as.map write)).items? read = some as := by
  have readers : read ∘ write = fun a => pure a := funext reads
  rw [items?, List.mapM_map, readers, List.mapM_pure, List.map_id']
  rfl

/-- A field that may be missing is read back, if no value is written as null. -/
theorem readOption?_option (reads : ∀ a, read (write a) = some a) (notNull : ∀ a, write a ≠ .null)
    {j : Json} {key : String} {a : Option α} (field : j.field? key = some (option write a)) :
    j.readOption? key read = some a := by
  rw [readOption?, field]
  cases a with
  | none => rfl
  | some a =>
      have value := reads a
      rw [option]
      split
      · contradiction
      · rename_i null
        exact absurd (Option.some.inj null) (notNull a)
      · rename_i same
        rw [← Option.some.inj same, value]
        rfl

end

/-- A number is not the absence of one. -/
theorem nat_ne_null (n : Nat) : nat n ≠ .null := by
  intro same
  cases same

end Json

theorem Ty.ofJson?_toJson (ty : Ty) : Ty.ofJson? ty.toJson = some ty := by
  cases ty <;> rfl

namespace Descriptor

theorem Kind.ofText?_text (k : Kind) : Kind.ofText? k.text = some k := by
  cases k <;> rfl

theorem Origin.ofJson?_toJson (o : Origin) : Origin.ofJson? o.toJson = some o := by
  cases o with
  | source node => rfl
  | synthetic extension subject => cases subject <;> rfl
  | builtin => rfl

theorem Param.ofJson?_toJson (p : Param) : Param.ofJson? p.toJson = some p := by
  show (do pure (Param.mk p.name (← Ty.ofJson? p.ty.toJson)) : Option Param) = some p
  rw [Ty.ofJson?_toJson]
  rfl

/-- What was written is read back, with all of its fields. -/
theorem ofJson?_toJson (d : Descriptor) : ofJson? d.toJson = some d := by
  have params : (d.toJson.read? "params" (Json.items? Param.ofJson?)) = some d.params :=
    Json.items?_arr Param.ofJson?_toJson d.params
  have typeParams : (d.toJson.read? "type_params" (Json.items? Json.str?)) = some d.typeParams :=
    Json.items?_arr Json.str?_str d.typeParams
  have kind : (d.toJson.read? "kind" Json.str?) = some d.kind.text := rfl
  have name : (d.toJson.read? "name" Json.str?) = some d.name := rfl
  have ty : (d.toJson.read? "ty" Ty.ofJson?) = some d.ty := Ty.ofJson?_toJson d.ty
  have origin : (d.toJson.read? "origin" Origin.ofJson?) = some d.origin :=
    Origin.ofJson?_toJson d.origin
  have container : (d.toJson.readOption? "container" Json.nat?) = some d.container :=
    Json.readOption?_option Json.nat?_nat Json.nat_ne_null rfl
  simp only [ofJson?, params, typeParams, kind, name, ty, origin, container, Option.bind_eq_bind,
    Option.bind_some, Kind.ofText?_text]
  rfl

theorem Table.ofJson?_toJson (t : Table) : Table.ofJson? t.toJson = some t := by
  have descriptors : t.toJson.read? "descriptors" (Json.items? Descriptor.ofJson?) =
      some t.descriptors.toList :=
    Json.items?_arr Descriptor.ofJson?_toJson t.descriptors.toList
  rw [Table.ofJson?, descriptors]
  rfl

end Descriptor

theorem Constant.ofJson?_toJson (c : Constant) : Constant.ofJson? c.toJson = some c := by
  cases c with
  | int n =>
      show (do pure (Constant.int (← (Json.int n.toInt).int64?)) : Option Constant) = _
      rw [Json.int64?_toInt]
      rfl
  | bool b => rfl
  | str s => rfl
  | unit => rfl

theorem Operator.ofSymbol?_symbol (op : Operator) : Operator.ofSymbol? op.symbol = some op := by
  cases op <;> rfl

namespace Module

/-- A kind is told from the others by its tag, and its own fields are read back. -/
theorem Kind.ofJson?_toJson (k : Kind) : Kind.ofJson? k.toJson = some k := by
  cases k with
  | constant value =>
      show (Constant.ofJson? value.toJson).map Kind.constant = _
      rw [Constant.ofJson?_toJson]
      rfl
  | binary op =>
      show (Operator.ofSymbol? op.symbol).map Kind.binary = _
      rw [Operator.ofSymbol?_symbol]
      rfl
  | _ => rfl

/-- A node is read back with its children, its descriptor and its type. -/
theorem Node.ofJson?_toJson (n : Node) : Node.ofJson? n.toJson = some n := by
  have kind : n.toJson.read? "kind" Kind.ofJson? = some n.kind := Kind.ofJson?_toJson n.kind
  have children : n.toJson.read? "children" (Json.items? Json.nat?) = some n.children :=
    Json.items?_arr Json.nat?_nat n.children
  have descriptor : n.toJson.readOption? "descriptor" Json.nat? = some n.descriptor :=
    Json.readOption?_option Json.nat?_nat Json.nat_ne_null rfl
  have ty : n.toJson.read? "ty" Ty.ofJson? = some n.ty := Ty.ofJson?_toJson n.ty
  simp only [Node.ofJson?, kind, children, descriptor, ty, Option.bind_eq_bind, Option.bind_some]
  rfl

theorem ofJson?_toJson (m : Module) : ofJson? m.toJson = some m := by
  have nodes : m.toJson.read? "nodes" (Json.items? Node.ofJson?) = some m.nodes.toList :=
    Json.items?_arr Node.ofJson?_toJson m.nodes.toList
  have root : m.toJson.read? "root" Json.nat? = some m.root := rfl
  rw [ofJson?, nodes, root]
  rfl

end Module

namespace Artifact

/-- The module and the descriptors of the bundle that a text is. -/
def readBundle? (text : String) : Option (Module × Descriptor.Table) := do
  let j ← Json.ofText? text
  pure (← j.read? "ir" Module.ofJson?, ← j.read? "descriptors" Descriptor.Table.ofJson?)

/-- A bundle is read back from its text. -/
theorem readBundle?_pretty (m : Module) (unit : String) (descriptors : Descriptor.Table) :
    readBundle? (m.bundleJson unit descriptors).pretty = some (m, descriptors) := by
  have ir : (m.bundleJson unit descriptors).read? "ir" Module.ofJson? = some m :=
    Module.ofJson?_toJson m
  have table : (m.bundleJson unit descriptors).read? "descriptors" Descriptor.Table.ofJson? =
      some descriptors :=
    Descriptor.Table.ofJson?_toJson descriptors
  rw [readBundle?, Json.ofText?_pretty, Option.bind_eq_bind, Option.bind_some, ir, table]
  rfl

/-- A bundle is read back as what it was made from. -/
theorem readBundle?_generate {m : Module} {descriptors : Descriptor.Table} {a : Artifact}
    (made : generate .bundle m descriptors = .ok a) :
    readBundle? a.content = some (m, descriptors) := by
  cases named : m.name with
  | error id =>
      rw [generate, named] at made
      cases made
  | ok unit =>
      rw [generate, named] at made
      cases made
      exact readBundle?_pretty m unit descriptors

/-- Bundles lose nothing: what a bundle was made from is read back from its text, so two bundles with
one text were made from the same module and the same descriptors. -/
theorem bundle_injective {m₁ m₂ : Module} {d₁ d₂ : Descriptor.Table} {a₁ a₂ : Artifact}
    (made₁ : generate .bundle m₁ d₁ = .ok a₁) (made₂ : generate .bundle m₂ d₂ = .ok a₂) :
    (readBundle? a₁.content = some (m₁, d₁)) ∧ (a₁.content = a₂.content → m₁ = m₂ ∧ d₁ = d₂) := by
  have read₁ := readBundle?_generate made₁
  refine ⟨read₁, fun same => ?_⟩
  rw [same, readBundle?_generate made₂] at read₁
  obtain ⟨rfl, rfl⟩ := Prod.mk.inj (Option.some.inj read₁)
  exact ⟨rfl, rfl⟩

/-- A unit with a constant that no node has as a child. -/
def detached (value : Constant) : Module where
  nodes := #[
    { kind := .module "main", children := [], descriptor := none, ty := .unit },
    { kind := .constant value, children := [], descriptor := some 7, ty := .cls 3 }]
  root := 0

/-- What a class of an extension is described as. -/
def generated : Descriptor.Table where
  descriptors := #[{
    name := "Point\t\"x\"", kind := .cls, params := [⟨"x", .param "T"⟩], typeParams := ["T"],
    ty := .error, container := none, origin := .synthetic "accessors" (some 4) }]

/-- A line break and the two characters of its escape are told apart, in a node that nothing refers
to. -/
theorem bundle_injective_escapes :
    generate .bundle (detached (.str "\n\x01\"")) generated =
      .ok (.bundle "main" ((detached (.str "\n\x01\"")).bundleJson "main" generated).pretty) ∧
    generate .bundle (detached (.str "\\n\x01\"")) generated =
      .ok (.bundle "main" ((detached (.str "\\n\x01\"")).bundleJson "main" generated).pretty) ∧
    readBundle? ((detached (.str "\n\x01\"")).bundleJson "main" generated).pretty =
      some (detached (.str "\n\x01\""), generated) ∧
    ((detached (.str "\n\x01\"")).bundleJson "main" generated).pretty ≠
      ((detached (.str "\\n\x01\"")).bundleJson "main" generated).pretty := by
  have made₁ : generate .bundle (detached (.str "\n\x01\"")) generated = .ok _ := rfl
  have made₂ : generate .bundle (detached (.str "\\n\x01\"")) generated = .ok _ := rfl
  have lossless := bundle_injective made₁ made₂
  refine ⟨made₁, made₂, lossless.1, fun same => ?_⟩
  have modules := (lossless.2 same).1
  revert modules
  decide

end Artifact

end StagedCompiler
