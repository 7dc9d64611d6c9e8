import Mathlib.Data.List.Perm.Basic
import StagedCompiler.Proofs.Analysis.Lookup

/-!
# Where the constructs of a unit are

Resolution first works on what items say about themselves and then on their bodies.  The constructs of
the one (`headNodes`) and of the other (`bodyNodes`) are apart, since all constructs of an assembled tree
have numbers of their own (`laid_of_numbers`); so what is bound in one place stays as it is while work
goes on in another one (`Amends`).
-/

namespace StagedCompiler.Resolution

open Source (Typed Item TypeRef Site SiteId Expr Stmt)

variable {items : List (Item Site)} {s : State}

/-! ## Bindings that name what there is -/

/-- A type alone refers to no descriptor. -/
theorem known_typed (D : Descriptor.Table) (ty : Ty) : Known D (.typed ty) :=
  ⟨fun _ member => (by cases member), fun _ member => (by cases member)⟩

/-- A reference to a descriptor of the table is known to it. -/
theorem known_reference {D : Descriptor.Table} {i : DescriptorId} {d : Descriptor}
    (entry : D.get? i = some d) (ty : Ty) (flags : Binding.Flags) :
    Known D ((Binding.reference ty i).withFlags flags) :=
  ⟨fun _ member => Option.some.inj member ▸ contains_iff.mpr ⟨d, entry⟩,
    fun _ member => (by cases member)⟩

theorem known_declaration {D : Descriptor.Table} {i : DescriptorId} {d : Descriptor}
    (entry : D.get? i = some d) (ty : Ty) : Known D (.declaration ty i) :=
  ⟨fun _ member => (by cases member),
    fun _ member => Option.some.inj member ▸ contains_iff.mpr ⟨d, entry⟩⟩

/-- The binding of an operation refers to no descriptor, so every table knows it. -/
theorem known_binary (D : Descriptor.Table) (site : Site) (op : Operator) (l r : Ty)
    (D' : Descriptor.Table) : Known D (binaryVerdict site op l r D').value := by
  unfold binaryVerdict
  split
  · exact known_typed D (operatorTy op)
  · exact known_typed D (operatorTy op)

/-! ## Amendments -/

/-- `s'` is `s` with other descriptors and bindings at the given numbers only. -/
structure Amends (edited : List DescriptorId) (touched : List SiteId) (s s' : State) : Prop where
  table : ∀ i d, i ∉ edited → s.descriptors.get? i = some d → s'.descriptors.get? i = some d
  slots : s'.bindings.slots.size = s.bindings.slots.size
  frame : ∀ id, id ∉ touched → s'.bindings.get? id = s.bindings.get? id

/-- A step that only binds constructs edits no descriptor. -/
theorem Later.amends {ids : List SiteId} {s s' : State} (later : Later ids s s') :
    Amends [] ids s s' :=
  ⟨fun i d _ => later.table i d, later.slots, later.frame⟩

/-- Steps in sequence edit and touch what either of them does. -/
theorem Amends.trans {is js : List DescriptorId} {ids jds : List SiteId} {s s' s'' : State}
    (first : Amends is ids s s') (second : Amends js jds s' s'') :
    Amends (is ++ js) (ids ++ jds) s s'' := by
  refine ⟨fun i d outside found => ?_, second.slots.trans first.slots, fun id outside => ?_⟩
  · rw [List.mem_append, not_or] at outside
    exact second.table i d outside.2 (first.table i d outside.1 found)
  · rw [List.mem_append, not_or] at outside
    rw [second.frame id outside.2, first.frame id outside.1]

/-- A step amends at most what is given if it amends a part of it. -/
theorem Amends.mono {is js : List DescriptorId} {ids jds : List SiteId} {s s' : State}
    (amends : Amends is ids s s') (edited : is ⊆ js) (touched : ids ⊆ jds) : Amends js jds s s' :=
  ⟨fun i d outside => amends.table i d fun inside => outside (edited inside), amends.slots,
    fun id outside => amends.frame id fun inside => outside (touched inside)⟩

/-! ## Distinct names -/

/-- Names that are distinct and none of which was seen before. -/
structure NewNames {α : Type} (name : α → String) (seen : List String) (as : List α) : Prop where
  fresh : ∀ a ∈ as, name a ∉ seen
  distinct : (as.map name).Nodup

theorem newNames_nil {α : Type} (name : α → String) (seen : List String) :
    NewNames name seen [] :=
  ⟨by simp, List.nodup_nil⟩

/-- Names are new if the first of them is and the others are also different from it. -/
theorem newNames_cons_iff {α : Type} {name : α → String} {seen : List String} {a : α}
    {rest : List α} :
    NewNames name seen (a :: rest) ↔ name a ∉ seen ∧ NewNames name (name a :: seen) rest := by
  constructor
  · intro new
    rcases new with ⟨fresh, distinct⟩
    rw [List.forall_mem_cons] at fresh
    rw [List.map_cons, List.nodup_cons] at distinct
    refine ⟨fresh.1, fun b member => ?_, distinct.2⟩
    rw [List.mem_cons, not_or]
    exact ⟨fun same => distinct.1 (same ▸ List.mem_map_of_mem member), fresh.2 b member⟩
  · intro new
    rcases new with ⟨here, fresh, distinct⟩
    constructor
    · rw [List.forall_mem_cons]
      exact ⟨here, fun b member among => fresh b member (List.mem_cons_of_mem _ among)⟩
    · rw [List.map_cons, List.nodup_cons]
      refine ⟨fun member => ?_, distinct⟩
      obtain ⟨b, among, same⟩ := List.mem_map.mp member
      exact fresh b among (same ▸ List.mem_cons_self)

/-- Names are distinct, unless an error is reported. -/
theorem reportDuplicates_passes (seen : List String) (rest : List (Item Site)) (s : State) :
    Passes (reportDuplicates ctx seen rest) s fun _ s' => s' = s ∧ NewNames Item.name seen rest := by
  induction rest generalizing seen s with
  | nil => exact .pure ⟨rfl, newNames_nil _ seen⟩
  | cons item rest ih =>
      rw [reportDuplicates_cons]
      refine (judge_passes ctx _ s).bind
        (fun _ => (reportDuplicates_follows 0 _ rest).grows ctx) ?_
      rintro _ _ ⟨rfl, silent, _⟩
      refine (ih _ _).mono fun _ s' post => ⟨post.1, newNames_cons_iff.mpr ⟨?_, post.2⟩⟩
      intro again
      rw [nameVerdict, if_pos (List.contains_iff_mem.mpr again)] at silent
      cases silent

/-! ## Constructs outside of bodies -/

/-- The constructs of a member. -/
def memberIds (m : Typed Site) : List SiteId := [m.site.id, m.type.site.id]

/-- The constructs of an item outside its body. -/
def headIds (item : Item Site) : List SiteId :=
  item.site.id ::
    ((Typing.members item).flatMap memberIds ++ (returnsOf item).toList.map (·.site.id))

theorem mem_headIds_member {item : Item Site} {m : Typed Site} (member : m ∈ Typing.members item)
    {id : SiteId} (inside : id ∈ memberIds m) : id ∈ headIds item :=
  List.mem_cons_of_mem _ (List.mem_append_left _ (List.mem_flatMap.mpr ⟨m, member, inside⟩))

theorem mem_headIds_returns {item : Item Site} {t : TypeRef Site} (member : t ∈ returnsOf item) :
    t.site.id ∈ headIds item :=
  List.mem_cons_of_mem _
    (List.mem_append_right _ (List.mem_map_of_mem (Option.mem_toList.mpr member)))

/-- The numbers of an item, of its members and of its result are apart. -/
structure HeadPlaced (item : Item Site) (s : State) : Prop where
  here : item.site.id < s.bindings.slots.size
  inside : ∀ id ∈ (Typing.members item).flatMap memberIds, id < s.bindings.slots.size
  returned : ∀ t ∈ returnsOf item, t.site.id < s.bindings.slots.size
  distinct : ((Typing.members item).flatMap memberIds).Nodup
  notMember : item.site.id ∉ (Typing.members item).flatMap memberIds
  notReturned : item.site.id ∉ (returnsOf item).toList.map (·.site.id)
  disjoint : ∀ id ∈ (Typing.members item).flatMap memberIds,
    id ∉ (returnsOf item).toList.map (·.site.id)

/-- The constructs of an item outside its body have places of their own if their numbers are distinct
and all have a place. -/
theorem headPlaced {item : Item Site} (nodup : (headIds item).Nodup)
    (bound : ∀ id ∈ headIds item, id < s.bindings.slots.size) : HeadPlaced item s := by
  have parts := nodup
  rw [headIds, List.nodup_cons, List.mem_append, not_or] at parts
  obtain ⟨⟨notMember, notReturned⟩, parts⟩ := parts
  obtain ⟨distinct, _, disjoint⟩ := List.nodup_append.mp parts
  exact ⟨bound _ List.mem_cons_self,
    fun id member => bound id (List.mem_cons_of_mem _ (List.mem_append_left _ member)),
    fun t member => bound _ (mem_headIds_returns member), distinct, notMember, notReturned,
    fun id here there => disjoint id here id there rfl⟩

/-- The items from number `first` on. -/
def Suffix (items : List (Item Site)) (first : DescriptorId) (rest : List (Item Site)) : Prop :=
  ∀ k item, rest[k]? = some item → items[first + k]? = some item

theorem Suffix.head {first : DescriptorId} {item : Item Site} {rest : List (Item Site)}
    (suffix : Suffix items first (item :: rest)) : items[first]? = some item :=
  suffix 0 item rfl

theorem Suffix.tail {first : DescriptorId} {item : Item Site} {rest : List (Item Site)}
    (suffix : Suffix items first (item :: rest)) : Suffix items (first + 1) rest := by
  intro k other there
  rw [Nat.add_assoc, Nat.add_comm 1 k]
  exact suffix (k + 1) other there

/-- The items of a unit are those from the first one on. -/
theorem Suffix.all (items : List (Item Site)) : Suffix items 0 items := by
  intro k item there
  rw [Nat.zero_add]
  exact there

/-! ## Constructs of bodies -/

/-- Constructs have numbers of their own, and there are slots for them. -/
structure Placed (ns : List Source.Node) (s : State) : Prop where
  distinct : (ns.map Source.Node.id).Nodup
  inside : ∀ id ∈ ns.map Source.Node.id, id < s.bindings.slots.size

/-- The first of several constructs with places has one that is not among the others'. -/
theorem Placed.of_cons {n : Source.Node} {ns : List Source.Node} (placed : Placed (n :: ns) s) :
    n.id < s.bindings.slots.size ∧ n.id ∉ ns.map Source.Node.id ∧ Placed ns s := by
  obtain ⟨distinct, inside⟩ := placed
  rw [List.map_cons, List.nodup_cons] at distinct
  rw [List.map_cons, List.forall_mem_cons] at inside
  exact ⟨inside.1, distinct.1, distinct.2, inside.2⟩

/-- Constructs with places in two lists have them apart from each other. -/
theorem Placed.of_append {ns ms : List Source.Node} (placed : Placed (ns ++ ms) s) :
    Placed ns s ∧ Placed ms s ∧
      ∀ id ∈ ns.map Source.Node.id, id ∉ ms.map Source.Node.id := by
  obtain ⟨distinct, inside⟩ := placed
  rw [List.map_append] at distinct inside
  rw [List.forall_mem_append] at inside
  obtain ⟨left, right, disjoint⟩ := List.nodup_append.mp distinct
  exact ⟨⟨left, inside.1⟩, ⟨right, inside.2⟩, fun id here there => disjoint id here id there rfl⟩

theorem Placed.of_slots {ns : List Source.Node} {s s' : State} (placed : Placed ns s)
    (slots : s'.bindings.slots.size = s.bindings.slots.size) : Placed ns s' :=
  ⟨placed.distinct, fun id member => slots ▸ placed.inside id member⟩

theorem letBind_ids (site : Site) (name : String) (type : Option (TypeRef Site))
    (value : Expr Site) :
    (Stmt.letBind site name type value).nodes.map Source.Node.id =
      site.id :: (type.toList.map (·.site.id) ++ value.nodes.map Source.Node.id) := by
  rw [Stmt.nodes, List.map_cons, List.map_append, List.map_map]
  rfl

/-- The numbers of a declaration, of its type and of its value are apart. -/
theorem Placed.of_letBind {site : Site} {name : String} {type : Option (TypeRef Site)}
    {value : Expr Site} (placed : Placed (Stmt.letBind site name type value).nodes s) :
    site.id < s.bindings.slots.size ∧
      (∀ id ∈ type.toList.map (·.site.id), id < s.bindings.slots.size) ∧ Placed value.nodes s ∧
      (∀ id ∈ type.toList.map (·.site.id), id ∉ value.nodes.map Source.Node.id) ∧
      site.id ∉ type.toList.map (·.site.id) ∧ site.id ∉ value.nodes.map Source.Node.id := by
  obtain ⟨distinct, inside⟩ := placed
  rw [letBind_ids] at distinct inside
  rw [List.forall_mem_cons, List.forall_mem_append] at inside
  rw [List.nodup_cons, List.mem_append, not_or] at distinct
  obtain ⟨outside, rest⟩ := distinct
  obtain ⟨_, values, disjoint⟩ := List.nodup_append.mp rest
  exact ⟨inside.1, inside.2.1, ⟨values, inside.2.2⟩,
    fun id here there => disjoint id here id there rfl, outside⟩

/-- The constructs of an item's body. -/
def bodyNodes (item : Item Site) : List Source.Node := (bodyOf item).flatMap Stmt.nodes

/-- The scope of an item's parameters. -/
def paramScope (item : Item Site) (params : List DescriptorId) : Scope :=
  (((Typing.members item).map (·.name)).zip params).reverse

/-! ## The constructs of a unit -/

/-- The constructs of an item outside its body. -/
def headNodes : Item Site → List Source.Node
  | .function site name typeParams params returns body =>
    .item (.function site name typeParams params returns body) ::
      (params.flatMap (fun p => [.param p, .typeRef p.type]) ++ returns.toList.map .typeRef)
  | .cls site name fields =>
    .item (.cls site name fields) :: fields.flatMap fun f => [.field f, .typeRef f.type]

/-- An item is what is outside of its body and then its body. -/
theorem nodes_eq (item : Item Site) : item.nodes = headNodes item ++ bodyNodes item := by
  cases item with
  | cls site name fields => exact (List.append_nil _).symm
  | function site name typeParams params returns body => rfl

/-- A member has two numbers, its own and that of its type. -/
theorem members_ids (node : Typed Site → Source.Node) (ids : ∀ m, (node m).id = m.site.id)
    (members : List (Typed Site)) :
    (members.flatMap fun m => [node m, .typeRef m.type]).map Source.Node.id =
      members.flatMap memberIds := by
  rw [List.map_flatMap]
  refine List.flatMap_congr fun m _ => ?_
  rw [List.map_cons, List.map_cons, ids]
  rfl

/-- The numbers of what is outside the body of an item. -/
theorem headNodes_ids (item : Item Site) : (headNodes item).map Source.Node.id = headIds item := by
  cases item with
  | cls site name fields =>
      rw [headNodes, List.map_cons, members_ids Source.Node.field fun _ => rfl]
      exact congrArg _ (List.append_nil _).symm
  | function site name typeParams params returns body =>
      rw [headNodes, List.map_cons, List.map_append, members_ids Source.Node.param fun _ => rfl,
        List.map_map]
      rfl

/-- The constructs of an assembled tree have numbers of their own, inside and outside of bodies. -/
structure Laid (items : List (Item Site)) (s : State) : Prop where
  heads : (items.flatMap headIds).Nodup
  inside : ∀ id ∈ items.flatMap headIds, id < s.bindings.slots.size
  bodies : Placed (items.flatMap bodyNodes) s
  apart : ∀ id ∈ items.flatMap headIds, id ∉ (items.flatMap bodyNodes).map Source.Node.id

/-- In an assembled tree all constructs are numbered one after another, so they have places of their
own if there are as many places as constructs. -/
theorem laid_of_numbers {tree : Tree} (numbers : tree.nodes.map Source.Node.id = List.range tree.size)
    (slots : s.bindings.slots.size = tree.size) : Laid tree.items s := by
  have split : (tree.items.flatMap headIds ++
      (tree.items.flatMap bodyNodes).map Source.Node.id).Perm (List.range tree.size) := by
    rw [← numbers, Tree.nodes, List.map_flatMap, List.map_flatMap]
    refine (List.flatMap_append_perm _ _ _).trans (.of_eq ?_)
    refine List.flatMap_congr fun item _ => ?_
    rw [nodes_eq, List.map_append, headNodes_ids]
  have small : ∀ id ∈ tree.items.flatMap headIds ++
      (tree.items.flatMap bodyNodes).map Source.Node.id, id < s.bindings.slots.size := by
    intro id member
    rw [slots]
    exact List.mem_range.mp (split.mem_iff.mp member)
  rw [List.forall_mem_append] at small
  obtain ⟨heads, bodies, disjoint⟩ := List.nodup_append.mp (split.nodup_iff.mpr List.nodup_range)
  exact ⟨heads, small.1, ⟨bodies, small.2⟩, fun id here there => disjoint id here id there rfl⟩

end StagedCompiler.Resolution
