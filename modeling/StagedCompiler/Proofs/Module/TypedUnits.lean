import StagedCompiler.Proofs.Module.Locals
import StagedCompiler.Proofs.Module.TypeSoundness

/-!
# Modules of accepted units are typed

If the host alone accepts a unit without type parameters, then the unit's module is typed in the sense
of `TypedProgram`: all its types are closed, so that compatible types are equal, and its functions are
found under the numbers of their items.  So its runs end well (`accepted_endsWell`).
-/

namespace StagedCompiler.Module

open Analysis (accept? accept?_eq_some)
open Source (Typed Item TypeRef Site Expr Stmt eq_ok_of_toOption)
open Typing (NamesType Returns SignatureOf Fits)
open Resolution (Context Scope Frame ExprNoted ExprsNoted StmtNoted StmtsNoted MemberNoted HeadNoted
  BodyNoted UnitNoted TypeNoted Means Leads Offered Signed contextOf itemNames itemKind typeParamsOf
  paramScope operandsFit operatorTy resultTy)

variable {items : List (Item Site)} {ctx : Context} {b : Bindings} {D : Descriptor.Table}
  {program : Outline}

/-! ## Closed types -/

/-- A type that is neither left open nor the type of what could not be resolved. -/
def Closed (ty : Ty) : Prop := (∀ name, ty ≠ .param name) ∧ ty ≠ .error

/-- Closed types are compatible only if they are equal. -/
theorem Closed.eq_of_accepts {x y : Ty} (left : Closed x) (right : Closed y)
    (accepts : x.accepts y = true) : x = y := by
  unfold Ty.accepts at accepts
  split at accepts
  · exact absurd rfl left.2
  · exact absurd rfl right.2
  · exact absurd rfl (left.1 _)
  · exact absurd rfl (right.1 _)
  · exact beq_iff_eq.mp accepts

theorem builtin?_closed {name : String} {ty : Ty} (found : Ty.builtin? name = some ty) :
    Closed ty := by
  refine ⟨fun param is => ?_, Resolution.builtin?_ne_error found⟩
  subst is
  unfold Ty.builtin? at found
  split at found <;> cases found

/-- Where there are no type parameters, names stand for closed types. -/
theorem namesType_closed {name : String} {ty : Ty} (named : NamesType items [] name ty) :
    Closed ty := by
  cases named with
  | builtin found => exact builtin?_closed found
  | param _ member => cases member
  | cls _ _ _ => exact ⟨by simp, by simp⟩

theorem typeNoted_closed {t : TypeRef Site} {ty : Ty} (noted : TypeNoted ctx b D [] t ty) :
    Closed ty := by
  cases noted with
  | builtin found _ => exact builtin?_closed found
  | param _ member _ => cases member
  | cls _ _ _ _ _ _ => exact ⟨by simp, by simp⟩

/-- So are the types of members. -/
theorem namesTypes_closed {members : List (Typed Site)} {tys : List Ty}
    (each : List.Forall₂ (fun m ty => NamesType items [] m.type.name ty) members tys) :
    ∀ ty ∈ tys, Closed ty := by
  induction each with
  | nil => simp
  | cons first _ ih =>
      rw [List.forall_mem_cons]
      exact ⟨namesType_closed first, ih⟩

/-- The signature of an item without type parameters is closed. -/
theorem signature_closed {i : DescriptorId} {item : Item Site} {sig : Typing.Signature}
    (signed : SignatureOf items i item sig) (plain : typeParamsOf item = []) :
    (∀ ty ∈ sig.params, Closed ty) ∧ Closed sig.result := by
  cases signed with
  | function params returns =>
      obtain rfl := plain
      refine ⟨namesTypes_closed params, ?_⟩
      cases returns with
      | nothing => exact ⟨by simp, by simp⟩
      | value named => exact namesType_closed named
  | cls fields => exact ⟨namesTypes_closed fields, by simp, by simp⟩

theorem operatorTy_closed (op : Operator) : Closed (operatorTy op) := by
  cases op <;> simp [Closed, operatorTy, Operator.isComparison]

/-- Arguments of closed types fit parameters of the same types only. -/
theorem fits_closed {fixed final : Typing.Env} {args params : List Ty}
    (fits : Fits fixed args params final) (left : ∀ ty ∈ args, Closed ty)
    (right : ∀ ty ∈ params, Closed ty) : args = params := by
  induction fits with
  | nil => rfl
  | plain _ accepts _ ih =>
      rw [List.forall_mem_cons] at left right
      rw [right.1.eq_of_accepts left.1 accepts, ih left.2 right.2]
  | first _ _ _ => exact absurd rfl ((right _ List.mem_cons_self).1 _)
  | later _ _ _ _ => exact absurd rfl ((right _ List.mem_cons_self).1 _)

/-- A closed result type is the type of the call. -/
theorem resultTy_closed {fixed : Typing.Env} {ty : Ty} (closed : Closed ty) :
    resultTy fixed ty = ty := by
  cases ty with
  | param name => exact absurd rfl (closed.1 name)
  | _ => rfl

/-- Operands of closed types that fit an operator are what it takes when it runs. -/
theorem operands_of_fit {op : Operator} {l r : Ty} (left : Closed l) (right : Closed r)
    (fit : operandsFit op l r = true) : Operands op l r := by
  have integer : Closed .int := ⟨by simp, by simp⟩
  have integers : op ≠ .eq → (Ty.int.accepts l && Ty.int.accepts r) = true → Operands op l r := by
    intro other both
    obtain ⟨first, second⟩ := Bool.and_eq_true_iff.mp both
    obtain rfl := integer.eq_of_accepts left first
    obtain rfl := integer.eq_of_accepts right second
    exact .int other
  cases op with
  | eq =>
      obtain rfl := left.eq_of_accepts right fit
      exact .eq
  | lt | add | sub | mul | div => exact integers (by simp) fit

/-! ## Names -/

/-- A unit that the host alone resolved and that has no type parameters; its functions stand in a
module under the numbers of their items. -/
structure HostUnit (items : List (Item Site)) (ctx : Context) (D : Descriptor.Table)
    (program : Outline) : Prop where
  globals : ctx.globals = itemNames items
  resolvers : ctx.resolvers = Registry.host.resolvers
  signed : Signed items D
  plain : ∀ item ∈ items, typeParamsOf item = []
  present : ∀ i item, items[i]? = some item → itemKind item = .function →
    ∃ f, program.function? i = some f
  inside : ∀ i f, program.function? i = some f → i < items.length

/-- The functions of the host return nothing and take closed types. -/
theorem builtin?_host {name : String} {d : Descriptor} (found : Extension.builtin? name = some d) :
    d.kind = .function ∧ d.origin = .builtin ∧ d.ty = .unit ∧ ∀ p ∈ d.params, Closed p.ty := by
  unfold Extension.builtin? at found
  obtain ⟨⟨f, param, ty⟩, entry, rfl⟩ := Option.map_eq_some_iff.mp found
  have member := List.mem_of_find?_eq_some entry
  simp only [Extension.builtinFunctions, List.mem_cons, Prod.mk.injEq, List.not_mem_nil,
    or_false] at member
  rcases member with ⟨_, _, rfl⟩ | ⟨_, _, rfl⟩ <;> simp [Closed]

namespace HostUnit

variable (unit : HostUnit items ctx D program) {name : String} {i : DescriptorId} {d : Descriptor}
include unit

theorem item_of_lookup (looked : ctx.globals.lookup name = some i) :
    ∃ item, items[i]? = some item := by
  rw [unit.globals] at looked
  obtain ⟨k, item, place, there, _⟩ := Resolution.lookup_zipIdx_eq_some looked
  rw [Nat.zero_add] at place
  exact ⟨item, place ▸ there⟩

/-- An item can be called with its signature. -/
theorem item_callee {item : Item Site} (there : items[i]? = some item) :
    ∃ d, D.get? i = some d ∧ SignatureOf items i item ⟨d.params.map (·.ty), d.ty⟩ ∧
      Callee items program i d := by
  obtain ⟨d, entry, _, kind, signed⟩ := unit.signed i item there
  refine ⟨d, entry, signed, ?_⟩
  cases item with
  | function site name typeParams params returns body =>
      obtain ⟨f, found⟩ := unit.present i _ there rfl
      exact .function kind found
  | cls site name fields =>
      have ty : d.ty = .cls i := by
        generalize d.ty = ty at signed
        cases signed
        rfl
      exact .cls kind there ty (ty ▸ signed)

/-- What a call leads to can be called, and its signature is closed. -/
theorem callee (leads : Leads ctx D name .call i) (entry : D.get? i = some d) :
    Callee items program i d ∧ (∀ ty ∈ d.params.map (·.ty), Closed ty) ∧ Closed d.ty := by
  cases leads with
  | item looked =>
      obtain ⟨item, there⟩ := unit.item_of_lookup looked
      obtain ⟨e, entry', signed, callee⟩ := unit.item_callee there
      obtain rfl := Option.some.inj (entry.symm.trans entry')
      exact ⟨callee, signature_closed signed (unit.plain item (List.mem_of_getElem? there))⟩
  | offer offered =>
      obtain ⟨_, e, builtin, entry'⟩ := Resolution.offered_host unit.resolvers offered
      obtain rfl := Option.some.inj (entry.symm.trans entry')
      obtain ⟨kind, origin, ty, params⟩ := builtin?_host builtin
      have absent : program.function? i = none := by
        rw [Option.eq_none_iff_forall_ne_some]
        intro f found
        have behind := offered.behind
        rw [Resolution.length_globals unit.globals] at behind
        exact Nat.not_lt.mpr behind (unit.inside i f found)
      refine ⟨.host kind absent origin ty, List.forall_mem_map.mpr params, ?_⟩
      rw [ty]
      exact ⟨by simp, by simp⟩

/-- A name of a value means a local. -/
theorem mem_scope {scope : Scope} (means : Means ctx D scope name i) (entry : D.get? i = some d)
    (value : d.isCallable = false) : (name, i) ∈ scope := by
  have looked := means.lookup_eq unit.globals unit.resolvers unit.signed.listed entry value
  obtain ⟨before, after, rfl, _⟩ := List.lookup_eq_some_iff.mp looked
  simp

end HostUnit

/-! ## Expressions -/

/-- The locals in scope have closed types. -/
def ScopeClosed (D : Descriptor.Table) (scope : Scope) : Prop :=
  ∀ entry ∈ scope, ∀ d, D.get? entry.2 = some d → Closed d.ty

section Bodies

variable {scope : Scope}

mutual

/-- The image of an expression is typed, and its node has the type of the expression. -/
theorem exprImage_typed (unit : HostUnit items ctx D program) (locals : ScopeClosed D scope)
    {e : Expr Site} {ty : Ty} {o : Outline} (noted : ExprNoted ctx b D scope e ty)
    (image : ExprImage b e o) :
    ExprTyped items D program (scope.map (·.2)) o ∧ o.ty = ty ∧ Closed ty := by
  cases noted with
  | int there =>
      cases image with
      | int there' =>
          obtain rfl := Option.some.inj (there.symm.trans there')
          exact ⟨.constant (c := .int _), rfl, by simp, by simp⟩
  | bool there =>
      cases image with
      | bool there' =>
          obtain rfl := Option.some.inj (there.symm.trans there')
          exact ⟨.constant (c := .bool _), rfl, by simp, by simp⟩
  | str there =>
      cases image with
      | str there' =>
          obtain rfl := Option.some.inj (there.symm.trans there')
          exact ⟨.constant (c := .str _), rfl, by simp, by simp⟩
  | ref means entry value there =>
      cases image with
      | ref there' target =>
          obtain rfl := Option.some.inj (there.symm.trans there')
          obtain rfl := Option.some.inj target
          have member := unit.mem_scope means entry value
          exact ⟨.localRef (List.mem_map_of_mem member) entry, rfl, locals _ member _ entry⟩
  | call leads entry _ args fits there =>
      cases image with
      | call there' target images =>
          obtain rfl := Option.some.inj (there.symm.trans there')
          obtain rfl := Option.some.inj target
          obtain ⟨callee, params, closed⟩ := unit.callee leads entry
          obtain ⟨typed, given⟩ := exprsImage_typed unit locals args images
          -- Closed types fit only if they are equal: the arguments have the types of the parameters.
          rw [fits_closed fits given params] at typed
          rw [resultTy_closed closed]
          exact ⟨.call entry callee typed, rfl, closed⟩
  | binary left right fit there =>
      cases image with
      | binary there' leftImage rightImage =>
          obtain rfl := Option.some.inj (there.symm.trans there')
          obtain ⟨leftTyped, rfl, leftClosed⟩ := exprImage_typed unit locals left leftImage
          obtain ⟨rightTyped, rfl, rightClosed⟩ := exprImage_typed unit locals right rightImage
          exact ⟨.binary leftTyped rightTyped (operands_of_fit leftClosed rightClosed fit), rfl,
            operatorTy_closed _⟩

/-- The images of noted arguments are typed. -/
theorem exprsImage_typed (unit : HostUnit items ctx D program) (locals : ScopeClosed D scope)
    {es : List (Expr Site)} {tys : List Ty} {os : List Outline}
    (noted : ExprsNoted ctx b D scope es tys) (images : ExprsImage b es os) :
    ExprsTyped items D program (scope.map (·.2)) os tys ∧ ∀ ty ∈ tys, Closed ty := by
  cases noted with
  | nil =>
      cases images
      exact ⟨.nil, by simp⟩
  | cons first rest =>
      cases images with
      | cons image images =>
          obtain ⟨typed, rfl, closed⟩ := exprImage_typed unit locals first image
          obtain ⟨others, all⟩ := exprsImage_typed unit locals rest images
          exact ⟨.cons typed others, List.forall_mem_cons.mpr ⟨closed, all⟩⟩

end

/-! ## Statements -/

/-- The image of a statement is typed. -/
theorem stmtImage_typed (unit : HostUnit items ctx D program) (locals : ScopeClosed D scope)
    {frame : Frame} (plain : frame.typeParams = []) (closed : Closed frame.result)
    {next : Scope} {stmt : Stmt Site} {o : Outline}
    (noted : StmtNoted ctx b D frame scope stmt next) (image : StmtImage b stmt o) :
    StmtTyped items D program frame.result (scope.map (·.2)) o (next.map (·.2)) ∧
      ScopeClosed D next := by
  cases noted with
  | @letBind site name type value found stated i d expr stated' accepts entry _ kind ty there =>
      cases image with
      | @letBind _ _ _ _ _ _ o there' declares image =>
          obtain rfl := Option.some.inj (there.symm.trans there')
          obtain rfl := Option.some.inj declares
          obtain ⟨typed, rfl, valueClosed⟩ := exprImage_typed unit locals expr image
          have same : d.ty = o.ty := by
            rw [ty]
            cases stated' with
            | none => rfl
            | some noted =>
                rw [plain] at noted
                exact (typeNoted_closed noted).eq_of_accepts valueClosed (accepts _ rfl)
          refine ⟨.letBind typed entry same, List.forall_mem_cons.mpr ⟨fun e entry' => ?_, locals⟩⟩
          obtain rfl := Option.some.inj (entry.symm.trans entry')
          exact same ▸ valueClosed
  | leave accepts =>
      cases image
      exact ⟨.leave (closed.eq_of_accepts ⟨by simp, by simp⟩ accepts), locals⟩
  | ret expr accepts =>
      cases image with
      | ret image =>
          obtain ⟨typed, rfl, valueClosed⟩ := exprImage_typed unit locals expr image
          exact ⟨.ret typed (closed.eq_of_accepts valueClosed accepts).symm, locals⟩
  | eval expr =>
      cases image with
      | eval image => exact ⟨.eval (exprImage_typed unit locals expr image).1, locals⟩

/-- The images of noted statements are typed, each with the locals of those before it. -/
theorem stmtsImage_typed (unit : HostUnit items ctx D program) {frame : Frame}
    (plain : frame.typeParams = []) (closed : Closed frame.result) {stmts : List (Stmt Site)}
    {os : List Outline} (noted : StmtsNoted ctx b D frame scope stmts)
    (images : List.Forall₂ (StmtImage b) stmts os) (locals : ScopeClosed D scope) :
    StmtsTyped items D program frame.result (scope.map (·.2)) os := by
  induction noted generalizing os with
  | nil =>
      cases images
      exact .nil
  | cons first _ ih =>
      cases images with
      | cons image images =>
          obtain ⟨typed, locals⟩ := stmtImage_typed unit locals plain closed first image
          exact .cons typed (ih images locals)

end Bodies

/-! ## Functions -/

/-- The images of parameters are typed, and they declare what the names of the parameters mean. -/
theorem paramImages_typed {node : String → Kind} {kind : Descriptor.Kind}
    {members : List (Typed Site)} {ps : List (Descriptor.Param × DescriptorId)} {os : List Outline}
    (each : List.Forall₂ (MemberNoted ctx b D kind []) members ps)
    (images : List.Forall₂ (MemberImage b node) members os) :
    List.Forall₂ (ParamTyped D) os (ps.map (·.1.ty)) ∧
      os.map Outline.descriptor = ps.map (some ·.2) ∧
      ∀ p ∈ ps, ∀ d, D.get? p.2 = some d → Closed d.ty := by
  induction each generalizing os with
  | nil =>
      cases images
      exact ⟨.nil, rfl, by simp⟩
  | @cons m p members ps first _ ih =>
      cases images with
      | cons image images =>
          obtain ⟨params, declared, closed⟩ := ih images
          obtain ⟨e, entry, _, _, ty⟩ := first.entry
          cases image with
          | mk there declares =>
              obtain rfl := Option.some.inj (first.declared.symm.trans there)
              obtain rfl := Option.some.inj declares
              refine ⟨.cons ⟨p.2, e, rfl, entry, ty⟩ params, congrArg _ declared,
                List.forall_mem_cons.mpr ⟨fun d entry' => ?_, closed⟩⟩
              obtain rfl := Option.some.inj (entry.symm.trans entry')
              rw [ty]
              exact typeNoted_closed first.type

/-- The image of a function is typed. -/
theorem functionImage_typed (unit : HostUnit items ctx D program) {i : DescriptorId}
    {item : Item Site} (there : items[i]? = some item) (function : itemKind item = .function)
    {params : List DescriptorId} (head : HeadNoted ctx b D i item params)
    (body : BodyNoted ctx b D i item params) {o : Outline} (image : ItemImage b item o) :
    FunctionTyped items D program i o := by
  have plain := unit.plain item (List.mem_of_getElem? there)
  obtain ⟨d, entry, _, _, signed⟩ := unit.signed i item there
  obtain ⟨e, ps, entry', listed, declared, _, each, params'⟩ := head.described
  obtain rfl := Option.some.inj (entry.symm.trans entry')
  obtain rfl := params' function
  obtain ⟨e, entry', noted⟩ := body
  obtain rfl := Option.some.inj (entry.symm.trans entry')
  cases image with
  | cls _ _ _ => cases function
  | @function site name typeParams members returns stmts j note os ss bound declares images stmtImages =>
      obtain rfl := Option.some.inj (declared.symm.trans bound)
      obtain rfl := Option.some.inj declares
      rw [plain] at each noted
      obtain ⟨typed, descriptors, closed⟩ := paramImages_typed each images
      have among : ∀ entry ∈ paramScope (.function site name typeParams members returns stmts)
          (ps.map (·.2)), ∃ p ∈ ps, p.2 = entry.2 := by
        intro entry member
        exact List.mem_map.mp (List.of_mem_zip (List.mem_reverse.mp member)).2
      rw [← listed] at typed
      refine .mk there signed entry typed (fun k member => ?_)
        (stmtsImage_typed unit rfl (signature_closed signed plain).2 noted stmtImages ?_)
      · obtain ⟨entry, visible, rfl⟩ := List.mem_map.mp member
        obtain ⟨p, member, same⟩ := among entry visible
        rw [descriptors, ← same]
        exact List.mem_map_of_mem member
      · intro entry visible
        obtain ⟨p, member, same⟩ := among entry visible
        rw [← same]
        exact closed p member

/-! ## Units -/

/-- The image of an item has the number of the item. -/
theorem itemImage_number {i : DescriptorId} {item : Item Site} {params : List DescriptorId}
    (head : HeadNoted ctx b D i item params) {o : Outline} (image : ItemImage b item o) :
    o.descriptor = some i ∧ (o.kind.isFunction = true ↔ itemKind item = .function) := by
  obtain ⟨_, _, _, _, declared, _⟩ := head.described
  cases image with
  | cls there declares _ =>
      obtain rfl := Option.some.inj (declared.symm.trans there)
      exact ⟨declares.symm, by simp [itemKind, Kind.isFunction]⟩
  | function there declares _ _ =>
      obtain rfl := Option.some.inj (declared.symm.trans there)
      exact ⟨declares.symm, by simp [itemKind, Kind.isFunction]⟩

section Units

variable {tree : Tree} {o : Outline} (noted : UnitNoted tree.items ctx b D)
  (image : TreeImage b tree o)
include noted image

/-- The functions of a unit's module are the images of its functions, under the same numbers. -/
theorem function?_image {i : DescriptorId} {f : Outline} (found : o.function? i = some f) :
    ∃ item, tree.items[i]? = some item ∧ itemKind item = .function ∧ ItemImage b item f := by
  cases image with
  | @mk os images =>
      have found : (os ++ []).find? _ = some f := found
      rw [List.append_nil] at found
      have is := List.find?_some found
      rw [Bool.and_eq_true, beq_iff_eq] at is
      obtain ⟨k, place⟩ := List.mem_iff_getElem?.mp (List.mem_of_find?_eq_some found)
      obtain ⟨item, there, image⟩ := exists_of_forall₂ images.flip place
      obtain ⟨params, head, _⟩ := noted k item there
      obtain ⟨number, function⟩ := itemImage_number head image
      obtain rfl := Option.some.inj (number.symm.trans is.2)
      exact ⟨item, there, function.mp is.1, image⟩

/-- A function of the unit is found in its module. -/
theorem exists_function? {i : DescriptorId} {item : Item Site} (there : tree.items[i]? = some item)
    (function : itemKind item = .function) : ∃ f, o.function? i = some f := by
  cases image with
  | @mk os images =>
      obtain ⟨f, place, image⟩ := exists_of_forall₂ images there
      obtain ⟨params, head, _⟩ := noted i item there
      obtain ⟨number, is⟩ := itemImage_number head image
      refine Option.isSome_iff_exists.mp ?_
      show ((os ++ []).find? _).isSome = true
      rw [List.append_nil, List.find?_isSome]
      refine ⟨f, List.mem_of_getElem? place, ?_⟩
      rw [is.mpr function, number, beq_self_eq_true]
      rfl

end Units

/-- If the host alone accepts a unit without type parameters, then all calls in the unit's module end
well, whatever the arguments and the fuel: with a value of the declared type, out of fuel, in an
operation without result, or at the end of a function that declares a result.  All expressions have
values of the types of their nodes. -/
theorem accepted_endsWell {draft : Source.Draft} {unit : String} {tree : Tree}
    {log : Diagnostic.Log} {analysis : Analysis} (assembled : draft.assemble unit = .ok tree)
    (plain : ∀ item ∈ tree.items, typeParamsOf item = [])
    (accepted : (analyze tree Registry.host log).outcome = .ok (.accepted analysis)) :
    ∃ m, ofTree tree analysis.bindings analysis.descriptors = .ok m ∧
      ∀ i item, tree.items[i]? = some item → ∃ sig, SignatureOf tree.items i item sig ∧
        ∀ arguments, Datum.HaveTys tree.items arguments sig.params → ∀ fuel,
          EndsWell tree.items (Datum.HasTy tree.items · sig.result)
            (m.invoke analysis.descriptors fuel i arguments).1 ∧
          ∀ s ∈ (m.invoke analysis.descriptors fuel i arguments).2,
            s.value.HasTy tree.items s.expr.ty := by
  have numbers := Source.assemble_numbers assembled
  obtain ⟨silent, rfl⟩ := Analysis.accepted_run accepted
  obtain ⟨sure, noted⟩ := Resolution.run_noted numbers silent
  obtain ⟨m, _, built, _⟩ := ofTree_linked silent (Resolution.run_links numbers Registry.host).linked
  obtain ⟨o, outline, image⟩ := treeOutline_image noted
  obtain rfl := ofTree_eq_ok outline built
  have unit : HostUnit tree.items (contextOf tree Registry.host)
      (Resolution.run tree Registry.host).descriptors o := by
    refine ⟨rfl, rfl, noted.signed rfl rfl sure.listed, plain, fun i item there => exists_function? noted image there,
      fun i f found => ?_⟩
    obtain ⟨item, there, _⟩ := function?_image noted image found
    exact (List.getElem?_eq_some_iff.mp there).1
  have typed : TypedProgram tree.items (Resolution.run tree Registry.host).descriptors o := by
    intro i f found
    obtain ⟨item, there, function, image⟩ := function?_image noted image found
    obtain ⟨params, head, body⟩ := noted i item there
    exact functionImage_typed unit there function head body image
  refine ⟨_, built, fun i item there => ?_⟩
  obtain ⟨d, entry, signed, callee⟩ := unit.item_callee there
  refine ⟨_, signed, fun arguments given fuel => ?_⟩
  rw [Module.invoke, Outline.outline?_toModule]
  exact typed.invoke_safe fuel i d entry callee arguments given [] (by simp)

/-- `pair(n: int): Pair` calls a function of the host, a class and a function that hides its
parameter. -/
def pairOfNext : Source.Draft where
  items :=
    [ .cls () "Pair" [⟨(), "first", ⟨(), "int"⟩⟩, ⟨(), "second", ⟨(), "str"⟩⟩],
      .function () "next" [] [⟨(), "n", ⟨(), "int"⟩⟩] (some ⟨(), "int"⟩)
        [ .letBind () "n" none (.binary () .add (.ref () "n") (.int () 1)),
          .ret () (some (.ref () "n")) ],
      .function () "pair" [] [⟨(), "n", ⟨(), "int"⟩⟩] (some ⟨(), "Pair"⟩)
        [ .eval () (.call () "print" [.str () "pair"]),
          .ret () (some (.call () "Pair" [.call () "next" [.ref () "n"], .str () "x"])) ] ]

theorem pairOfNext_plain {tree : Tree} (assembled : pairOfNext.assemble "unit" = .ok tree) :
    ∀ item ∈ tree.items, typeParamsOf item = [] := by
  obtain rfl := Except.ok.inj assembled
  decide

/-- The unit is accepted, and its function gives an object with the next number. -/
theorem pairOfNext_runs : ∃ tree analysis m, pairOfNext.assemble "unit" = .ok tree ∧
    (analyze tree Registry.host .empty).outcome = .ok (.accepted analysis) ∧
    ofTree tree analysis.bindings analysis.descriptors = .ok m ∧
    (m.invoke analysis.descriptors 2 2 [.int 41]).1 =
      .ok (.object 0 [.int 42, .constant (.str "x")]) := by
  have ran : ((accept? Registry.host pairOfNext "unit").any fun unit =>
      (ofTree unit.1 unit.2.bindings unit.2.descriptors).toOption.any fun m =>
        (m.invoke unit.2.descriptors 2 2 [.int 41]).1.toOption.any fun v =>
          v.same (.object 0 [.int 42, .constant (.str "x")])) = true := by
    decide +kernel
  obtain ⟨⟨tree, analysis⟩, accepted, ran⟩ := (Option.any_eq_true _ _).mp ran
  obtain ⟨m, built, ran⟩ := (Option.any_eq_true _ _).mp ran
  obtain ⟨v, value, same⟩ := (Option.any_eq_true _ _).mp ran
  obtain ⟨assembled, accepted⟩ := accept?_eq_some accepted
  obtain rfl := (Datum.same_eq_true_iff _ _).mp same
  exact ⟨tree, analysis, m, assembled, accepted, eq_ok_of_toOption built, eq_ok_of_toOption value⟩

theorem accepted_endsWell_pairOfNext : ∃ tree analysis m,
    pairOfNext.assemble "unit" = .ok tree ∧ (∀ item ∈ tree.items, typeParamsOf item = []) ∧
    (analyze tree Registry.host .empty).outcome = .ok (.accepted analysis) ∧
    ofTree tree analysis.bindings analysis.descriptors = .ok m ∧
    (m.invoke analysis.descriptors 2 2 [.int 41]).1 =
      .ok (.object 0 [.int 42, .constant (.str "x")]) ∧
    ∀ i item, tree.items[i]? = some item → ∃ sig, SignatureOf tree.items i item sig ∧
      ∀ arguments, Datum.HaveTys tree.items arguments sig.params → ∀ fuel,
        EndsWell tree.items (Datum.HasTy tree.items · sig.result)
          (m.invoke analysis.descriptors fuel i arguments).1 ∧
        ∀ s ∈ (m.invoke analysis.descriptors fuel i arguments).2,
          s.value.HasTy tree.items s.expr.ty := by
  obtain ⟨tree, analysis, m, assembled, accepted, built, value⟩ := pairOfNext_runs
  have plain := pairOfNext_plain assembled
  obtain ⟨m', built', ends⟩ := accepted_endsWell assembled plain accepted
  obtain rfl := Except.ok.inj (built.symm.trans built')
  exact ⟨tree, analysis, m, assembled, plain, accepted, built, value, ends⟩

end StagedCompiler.Module
