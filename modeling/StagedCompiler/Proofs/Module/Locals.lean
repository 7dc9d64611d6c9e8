import StagedCompiler.Proofs.Lowering.Scoping
import StagedCompiler.Proofs.Module.Image

/-!
# Locals keep their names in the module of a unit

With the host alone, what a value stands for is always a local: outside functions there is nothing but
what can be called (`Leads.callable`).  A module refers to locals by descriptor, and the descriptor of
a local has the name of the local.  So the latest local of that name is the one that is meant, and the
functions of a unit's module are scoped (`itemImage_scoped`, `ofTree_sound`).
-/

namespace StagedCompiler.Resolution

open Source (Typed Item TypeRef Site)
open Typing (NamesType Returns SignatureOf)

variable {items : List (Item Site)} {ctx : Context} {b : Bindings} {D : Descriptor.Table} {s : State}

/-! ## Where names lead with the host alone -/

/-- The host offers its own functions to calls and nothing else. -/
theorem offered_host (resolvers : ctx.resolvers = Registry.host.resolvers) {name : String}
    {kind : ReferenceKind} {i : DescriptorId} (offered : Offered ctx D name kind i) :
    kind = .call ∧ ∃ d, Extension.builtin? name = some d ∧ D.get? i = some d := by
  obtain ⟨entry, among, request, d, rfl, rfl, answered, _, found⟩ := offered.answered
  obtain ⟨record, host⟩ := host_resolvers
  rw [resolvers, host, List.mem_singleton] at among
  subst among
  have answer := Except.ok.inj answered
  split at answer
  · rename_i call
    exact ⟨call, d, answer, found⟩
  · cases answer

/-- Items have descriptors under their numbers. -/
def ItemsListed (items : List (Item Site)) (D : Descriptor.Table) : Prop :=
  ∀ i item, items[i]? = some item →
    ∃ d, D.get? i = some d ∧ d.name = item.name ∧ d.kind = itemKind item

/-- At the end of a run the items are listed under their own numbers. -/
theorem Sure.listed (sure : Sure items ctx s) : ItemsListed items s.descriptors := by
  intro i item there
  obtain ⟨d, entry, named, kind, _⟩ := sure.items i item there
  exact ⟨d, entry, named, kind⟩

theorem Signed.listed (signed : Signed items D) : ItemsListed items D := by
  intro i item there
  obtain ⟨d, entry, named, kind, _⟩ := signed i item there
  exact ⟨d, entry, named, kind⟩

section Host

variable (globals : ctx.globals = itemNames items)
  (resolvers : ctx.resolvers = Registry.host.resolvers) (listed : ItemsListed items D)

include globals resolvers listed

/-- Whatever is not called is an item, if it is no local. -/
theorem Leads.item_of_host {name : String} {kind : ReferenceKind} {i : DescriptorId} {d : Descriptor}
    (leads : Leads ctx D name kind i) (other : kind ≠ .call)
    (entry : D.get? i = some d) :
    ∃ item, items[i]? = some item ∧ item.name = name ∧ d.kind = itemKind item := by
  cases leads with
  | offer offered => exact absurd (offered_host resolvers offered).1 other
  | item looked =>
      rw [globals] at looked
      obtain ⟨k, item, place, there, named⟩ := lookup_zipIdx_eq_some looked
      rw [Nat.zero_add] at place
      subst place
      obtain ⟨e, entry', _, kind⟩ := listed i item there
      obtain rfl := Option.some.inj (entry.symm.trans entry')
      exact ⟨item, there, named, kind⟩

/-- No value stands outside functions. -/
theorem Leads.callable {name : String} {i : DescriptorId} {d : Descriptor}
    (leads : Leads ctx D name .value i) (entry : D.get? i = some d) :
    d.isCallable = true := by
  obtain ⟨item, _, _, kind⟩ := leads.item_of_host globals resolvers listed (by simp) entry
  exact isCallable_of_item kind

/-- What a name of a value means is the latest local of that name. -/
theorem Means.lookup_eq {scope : Scope} {name : String} {i : DescriptorId} {d : Descriptor}
    (means : Means ctx D scope name i) (entry : D.get? i = some d)
    (value : d.isCallable = false) : scope.lookup name = some i := by
  cases means with
  | inner looked => exact looked
  | outer _ leads =>
      rw [leads.callable globals resolvers listed entry] at value
      cases value

/-! ## Signatures with the host alone -/

/-- A reference to a type is bound to what the typing rules say that it names. -/
theorem TypeNoted.namesType {typeParams : List String} {t : TypeRef Site} {ty : Ty}
    (noted : TypeNoted ctx b D typeParams t ty) :
    NamesType items typeParams t.name ty := by
  cases noted with
  | builtin found _ => exact .builtin found
  | param none member _ => exact .param none member
  | cls none absent leads entry kind _ =>
      obtain ⟨item, there, named, is⟩ := leads.item_of_host globals resolvers listed (by simp) entry
      cases item with
      | function => rw [kind] at is; cases is
      | cls site name fields =>
          obtain rfl : name = t.name := named
          exact .cls none absent there

theorem MemberNoted.namesTypes {kind : Descriptor.Kind} {typeParams : List String}
    {members : List (Typed Site)} {ps : List (Descriptor.Param × DescriptorId)}
    (each : List.Forall₂ (MemberNoted ctx b D kind typeParams) members ps) :
    List.Forall₂ (fun m ty => NamesType items typeParams m.type.name ty) members
      (ps.map (·.1.ty)) := by
  rw [List.forall₂_map_right_iff]
  exact each.imp fun m p noted => noted.type.namesType globals resolvers listed

/-- The result that is noted of an item makes its signature complete. -/
theorem ResultNoted.returns {i : DescriptorId} {item : Item Site} {ty : Ty}
    (noted : ResultNoted ctx b D i item ty) {tys : List Ty}
    (members : List.Forall₂ (fun m ty => NamesType items (typeParamsOf item) m.type.name ty)
      (Typing.members item) tys) : SignatureOf items i item ⟨tys, ty⟩ := by
  cases noted with
  | cls => exact .cls members
  | function returns =>
      refine .function members ?_
      cases returns with
      | nothing => exact .nothing
      | value noted => exact .value (noted.namesType globals resolvers listed)

/-- The items of a unit that was resolved without diagnostics have the signatures that the typing rules
give them. -/
theorem UnitNoted.signed (noted : UnitNoted items ctx b D) :
    Signed items D := by
  intro i item there
  obtain ⟨params, head, _⟩ := noted i item there
  obtain ⟨d, ps, entry, types, _, result, each, _⟩ := head.described
  obtain ⟨e, entry', named, kind⟩ := listed i item there
  obtain rfl := Option.some.inj (entry.symm.trans entry')
  refine ⟨d, entry, named, kind, ?_⟩
  rw [types]
  exact result.returns globals resolvers listed (MemberNoted.namesTypes globals resolvers listed each)

end Host

end StagedCompiler.Resolution

namespace StagedCompiler.Module

open Source (Typed Item Site Expr Stmt)
open Resolution (Context Scope Frame ItemsListed InScope ExprNoted ExprsNoted StmtNoted StmtsNoted
  MemberNoted HeadNoted BodyNoted UnitNoted contextOf itemNames paramScope)
open Outline (Visible ScopedValues ScopedStmts IsParam ScopedFunction Everywhere)

variable {items : List (Item Site)} {ctx : Context} {b : Bindings} {D : Descriptor.Table}

/-! ## Bodies -/

section Bodies

variable {scope : Scope}

mutual

/-- In the image of an expression uses of locals are visible. -/
theorem exprImage_visible (globals : ctx.globals = itemNames items)
    (resolvers : ctx.resolvers = Registry.host.resolvers) (listed : ItemsListed items D)
    (inScope : InScope D scope) {e : Expr Site} {ty : Ty} {o : Outline}
    (noted : ExprNoted ctx b D scope e ty) (image : ExprImage b e o) :
    o.Everywhere (Visible D scope) := by
  cases noted with
  | int | bool | str => cases image; exact .node trivial (by simp)
  | @ref site name i d means entry value there =>
      cases image with
      | ref there' target =>
          obtain rfl := Option.some.inj (there.symm.trans there')
          obtain rfl := Option.some.inj target
          have looked := means.lookup_eq globals resolvers listed entry value
          obtain ⟨e, entry', named⟩ := inScope _ (Resolution.mem_of_lookup looked)
          obtain rfl := Option.some.inj (entry.symm.trans entry')
          exact .node ⟨_, d, rfl, entry, named ▸ looked⟩ (by simp)
  | call _ _ _ args _ _ =>
      cases image with
      | call _ _ images =>
          exact .node trivial (exprsImage_visible globals resolvers listed inScope args images)
  | binary left right _ _ =>
      cases image with
      | binary _ leftImage rightImage =>
          refine .node trivial ?_
          rw [List.forall_mem_cons, List.forall_mem_singleton]
          exact ⟨exprImage_visible globals resolvers listed inScope left leftImage,
            exprImage_visible globals resolvers listed inScope right rightImage⟩

theorem exprsImage_visible (globals : ctx.globals = itemNames items)
    (resolvers : ctx.resolvers = Registry.host.resolvers) (listed : ItemsListed items D)
    (inScope : InScope D scope) {es : List (Expr Site)} {tys : List Ty}
    {os : List Outline} (noted : ExprsNoted ctx b D scope es tys)
    (images : ExprsImage b es os) : ∀ o ∈ os, o.Everywhere (Visible D scope) := by
  cases noted with
  | nil => cases images; simp
  | cons first rest =>
      cases images with
      | cons image images =>
          rw [List.forall_mem_cons]
          exact ⟨exprImage_visible globals resolvers listed inScope first image,
            exprsImage_visible globals resolvers listed inScope rest images⟩

end

end Bodies

section Host

variable (globals : ctx.globals = itemNames items)
  (resolvers : ctx.resolvers = Registry.host.resolvers) (listed : ItemsListed items D)

include globals resolvers listed

/-- The images of statements are scoped. -/
theorem stmtsImage_scoped {scope : Scope} (inScope : InScope D scope) {frame : Frame}
    {stmts : List (Stmt Site)} {os : List Outline}
    (noted : StmtsNoted ctx b D frame scope stmts)
    (images : List.Forall₂ (StmtImage b) stmts os) : ScopedStmts D scope os := by
  have visible : ∀ {scope : Scope} {e : Expr Site} {ty : Ty} {o : Outline},
      InScope D scope → ExprNoted ctx b D scope e ty → ExprImage b e o →
        ScopedValues D scope [o] := by
    intro scope e ty o inScope noted image value member
    obtain rfl := List.mem_singleton.mp member
    exact exprImage_visible globals resolvers listed inScope noted image
  induction noted generalizing os with
  | nil => cases images; exact .nil
  | cons first _ ih =>
      cases images with
      | cons image images =>
          cases first with
          | @letBind site name type value found stated i d expr _ _ entry named _ _ there =>
              cases image with
              | letBind there' declares image =>
                  obtain rfl := Option.some.inj (there.symm.trans there')
                  obtain rfl := Option.some.inj declares
                  subst named
                  refine .letBind entry (visible inScope expr image) (ih ?_ images)
                  exact List.forall_mem_cons.mpr ⟨⟨d, entry, rfl⟩, inScope⟩
          | leave _ => cases image; exact .ret (by simp [ScopedValues]) (ih inScope images)
          | ret expr _ =>
              cases image with
              | ret image => exact .ret (visible inScope expr image) (ih inScope images)
          | eval expr =>
              cases image with
              | eval image => exact .eval (visible inScope expr image) (ih inScope images)

/-! ## Functions -/

omit globals resolvers listed in
/-- The images of parameters are the parameters in scope. -/
theorem paramsImage_scoped {kind : Descriptor.Kind} {typeParams : List String}
    {members : List (Typed Site)} {ps : List (Descriptor.Param × DescriptorId)} {os : List Outline}
    (each : List.Forall₂ (MemberNoted ctx b D kind typeParams) members ps)
    (images : List.Forall₂ (MemberImage b .param) members os) :
    List.Forall₂ (IsParam D) os ((members.map (·.name)).zip (ps.map (·.2))) := by
  induction each generalizing os with
  | nil => cases images; exact .nil
  | @cons m p members ps first _ ih =>
      cases images with
      | cons image images =>
          cases image with
          | mk there declares =>
              obtain rfl := Option.some.inj (first.declared.symm.trans there)
              obtain rfl := Option.some.inj declares
              obtain ⟨d, entry, named, _⟩ := first.entry
              rcases m with ⟨site, name, type⟩
              subst named
              exact .cons (.mk entry) (ih images)

/-- The image of a function is scoped. -/
theorem itemImage_scoped {i : DescriptorId} {item : Item Site} {params : List DescriptorId}
    {o : Outline} (head : HeadNoted ctx b D i item params)
    (body : BodyNoted ctx b D i item params) (image : ItemImage b item o)
    (function : o.kind.isFunction = true) : ScopedFunction D o := by
  cases image with
  | cls => cases function
  | function _ _ params stmts =>
      obtain ⟨_, ps, _, _, _, _, each, params'⟩ := head.described
      have inScope := head.inScope rfl
      obtain ⟨_, _, noted⟩ := body
      rw [paramScope, params' rfl] at noted inScope
      exact .mk (paramsImage_scoped each params)
        (stmtsImage_scoped globals resolvers listed inScope noted stmts)

end Host

/-! ## Units -/

/-- The functions of a module are the functions among the items of its file. -/
theorem functions_of_items {t : Numbered} {d d' : Option DescriptorId}
    {ty ty' : Ty} {name name' : String} {os : List Outline} (shaped : t.outline.WellShaped D)
    (outline : t.outline = .node (.module name) d ty [.node (.file name') d' ty' os]) :
    ∀ f ∈ t.functions, f.outline ∈ os ∧ f.kind.isFunction = true := by
  intro f member
  have isModule : t.kind = .module name := by
    rw [← t.kind_outline, outline]
    rfl
  rw [Numbered.functions_eq_items shaped ⟨name, isModule⟩, List.mem_filter] at member
  obtain ⟨file, isChild, among⟩ := List.mem_flatMap.mp member.1
  have fileOutline : file.outline ∈ t.outline.children := by
    rw [t.children_outline]
    exact List.mem_map_of_mem isChild
  rw [outline, Outline.children_node, List.mem_singleton] at fileOutline
  have inside : f.outline ∈ file.outline.children := by
    rw [file.children_outline]
    exact List.mem_map_of_mem among
  rw [fileOutline] at inside
  exact ⟨inside, member.2⟩

/-- The module of a unit that the host alone resolved without diagnostics can be built, and it is
sound. -/
theorem ofTree_sound {tree : Tree} (numbers : tree.nodes.map Source.Node.id = List.range tree.size)
    (silent : (Resolution.run tree Registry.host).diagnostics = []) :
    ∃ m, ofTree tree (Resolution.run tree Registry.host).bindings
        (Resolution.run tree Registry.host).descriptors = .ok m ∧
      Lowering.Sound (Resolution.run tree Registry.host).descriptors m := by
  obtain ⟨sure, noted⟩ := Resolution.run_noted numbers silent
  obtain ⟨m, t, built, verified⟩ :=
    ofTree_linked silent (Resolution.run_links numbers Registry.host).linked
  obtain ⟨o, outline, image⟩ := treeOutline_image noted
  obtain rfl := ofTree_eq_ok outline built
  have same : t.outline = o := by
    have read := verified.held.outline?_eq verified.nodup
    rw [verified.root, Outline.outline?_toModule] at read
    exact (Option.some.inj read).symm
  refine ⟨_, built, t, verified, fun f member => ?_⟩
  cases image with
  | mk images =>
      obtain ⟨among, function⟩ := functions_of_items verified.shaped same f member
      obtain ⟨k, place⟩ := List.mem_iff_getElem?.mp among
      obtain ⟨item, there, image⟩ := exists_of_forall₂ images.flip place
      obtain ⟨params, head, body⟩ := noted k item there
      rw [← Numbered.kind_outline] at function
      exact itemImage_scoped rfl rfl sure.listed head body image function

end StagedCompiler.Module
