import StagedCompiler.Proofs.Analysis.FoundTypes

/-!
# Resolution reports what is found in bodies

With the signatures of all items in the table, a name in a call leads to a descriptor with the
signature that `Findings.callee?` gives the name (`Global.found`).  From there resolution of an
expression reports `Findings.exprFindings` and gives the type `Findings.exprType` in numbers
(`resolveExpr_finds`), and statements, bodies and whole units follow (`resolveItems_finds`).
-/

namespace StagedCompiler.Resolution

open Source (Typed Item TypeRef Site Expr Stmt)
open Findings (Finding Shown Callee)

variable {items : List (Item Site)} {ctx : Context} {s s' : State}

/-! ## Names and types in scope -/

/-- Names with types, in numbers and in words. -/
def EnvShows (items : List (Item Site)) (env : Typing.Env) (words : Findings.Env) : Prop :=
  List.Forall₂ (fun a b => a.1 = b.1 ∧ Shows items a.2 b.2) env words

/-- A type parameter is settled in both ways or in neither, and then by the same type. -/
theorem EnvShows.lookup {env : Typing.Env} {words : Findings.Env} (same : EnvShows items env words)
    (name : String) :
    (env.lookup name = none ∧ words.lookup name = none) ∨
      ∃ ty shown, env.lookup name = some ty ∧ words.lookup name = some shown ∧ Shows items ty shown := by
  induction same with
  | nil => exact Or.inl ⟨rfl, rfl⟩
  | @cons a b env words first _ ih =>
      rcases a with ⟨entry, ty⟩
      rcases b with ⟨_, shown⟩
      obtain ⟨rfl, same⟩ := first
      rw [List.lookup_cons, List.lookup_cons]
      by_cases here : name = entry
      · subst here
        rw [beq_self_eq_true]
        exact Or.inr ⟨ty, shown, rfl, rfl, same⟩
      · rw [beq_false_of_ne here]
        exact ih

/-- A descriptor has the signature that calls see. -/
structure StandsFor (items : List (Item Site)) (d : Descriptor) (c : Callee) : Prop where
  callable : d.isCallable = true
  params : List.Forall₂ (fun p q => p.name = q.1 ∧ Shows items p.ty q.2) d.params c.params
  result : Shows items d.ty c.result

/-- The descriptors of items have the signatures that calls see. -/
def Described (items : List (Item Site)) (D : Descriptor.Table) : Prop :=
  ∀ i item, items[i]? = some item → ∃ d, D.get? i = some d ∧
    StandsFor items d (Findings.calleeOf (named items) item.bare)

/-- Items keep their signatures while the table grows. -/
theorem Described.extends {D D' : Descriptor.Table} (described : Described items D)
    (extended : Extends D D') : Described items D' := by
  intro i item there
  obtain ⟨d, entry, stands⟩ := described i item there
  exact ⟨d, extended i d entry, stands⟩

theorem calleeOf_kind (item : Item Site) :
    (Findings.calleeOf (named items) item.bare).kind = itemKind item := by
  cases item <;> rfl

/-- The parameters in words are those of the item with the types that their names stand for. -/
theorem calleeOf_params (item : Item Site) :
    (Findings.calleeOf (named items) item.bare).params =
      (Typing.members item).map fun m =>
        (m.name, Findings.typeOf (named items) (typeParamsOf item) m.type.bare) := by
  cases item with
  | function site name typeParams params returns body =>
      show (params.map Typed.bare).map _ = _
      rw [List.map_map]
      rfl
  | cls site name fields =>
      show (fields.map Typed.bare).map _ = _
      rw [List.map_map]
      rfl

/-- Members that are entered have the names and types of the parameters in words. -/
theorem Entered.forall₂_params {D : Descriptor.Table} {kind : Descriptor.Kind}
    {typeParams : List String} {members : List (Typed Site)}
    {ps : List (Descriptor.Param × DescriptorId)}
    (each : List.Forall₂ (Entered items D kind typeParams) members ps) :
    List.Forall₂ (fun p q => p.name = q.1 ∧ Shows items p.ty q.2) (ps.map (·.1))
      (members.map fun m => (m.name, Findings.typeOf (named items) typeParams m.type.bare)) := by
  induction each with
  | nil => exact .nil
  | cons first _ ih => exact .cons ⟨first.name, first.words⟩ ih

/-- The descriptor of an item stands for the item as calls see it. -/
theorem HeadFound.stands {i : DescriptorId} {item : Item Site} {params : List DescriptorId}
    (standing : Standing items ctx s) (there : items[i]? = some item)
    (head : HeadFound items s.descriptors i item params) :
    ∃ d, s.descriptors.get? i = some d ∧
      StandsFor items d (Findings.calleeOf (named items) item.bare) := by
  obtain ⟨d, ps, entry, listed, result, each, _⟩ := head
  obtain ⟨e, entry', _, kind⟩ := standing.items i item there
  obtain rfl := Option.some.inj (entry.symm.trans entry')
  refine ⟨d, entry, isCallable_of_item kind, ?_, result⟩
  rw [listed, calleeOf_params]
  exact Entered.forall₂_params each

/-- At the end of the first phase all items have their signatures. -/
theorem HeadsFound.described {params : List (List DescriptorId)} (standing : Standing items ctx s)
    (heads : HeadsFound items s.descriptors 0 items params) : Described items s.descriptors := by
  intro i item there
  obtain ⟨bound, rfl⟩ := List.getElem?_eq_some_iff.mp there
  have inside : i < items.zipIdx.length := by rwa [List.length_zipIdx]
  have head := heads.get inside (heads.length_eq ▸ inside)
  rw [List.get_eq_getElem, List.getElem_zipIdx, Nat.zero_add] at head
  exact head.stands standing there

/-- The host describes its functions as calls see them. -/
theorem builtin?_found (items : List (Item Site)) (name : String) :
    (Extension.builtin? name = none ∧ Findings.hostCallee? name = none) ∨
      ∃ d c, Extension.builtin? name = some d ∧ Findings.hostCallee? name = some c ∧
        StandsFor items d c := by
  unfold Findings.hostCallee?
  by_cases print : name = "print"
  · subst print
    exact Or.inr ⟨_, _, rfl, rfl, rfl, .cons ⟨rfl, .str⟩ .nil, .unit⟩
  · rw [if_neg print]
    by_cases assert : name = "assert"
    · subst assert
      exact Or.inr ⟨_, _, rfl, rfl, rfl, .cons ⟨rfl, .bool⟩ .nil, .unit⟩
    · rw [if_neg assert]
      refine Or.inl ⟨?_, rfl⟩
      simp [Extension.builtin?, Extension.builtinFunctions, Ne.symm print, Ne.symm assert]

/-- In a call a name leads to a descriptor with the signature that calls see. -/
theorem Global.found (plain : Plain items ctx) {D : Descriptor.Table} (described : Described items D)
    {callee : String} {found : Option DescriptorId} (global : Global ctx D callee .call found) :
    (∃ i d c, found = some i ∧ D.get? i = some d ∧
        Findings.callee? (named items) callee = some c ∧ StandsFor items d c) ∨
      found = none ∧ Findings.callee? (named items) callee = none := by
  unfold Findings.callee?
  cases global with
  | @item i looked =>
      obtain ⟨item, there, is⟩ := plain.named_of_lookup looked
      obtain ⟨d, entry, stands⟩ := described i item there
      rw [is]
      exact Or.inl ⟨i, d, _, rfl, entry, rfl, stands⟩
  | @host i d absent _ builtin entry =>
      rw [plain.named_of_absent absent]
      rcases builtin?_found items callee with ⟨missing, _⟩ | ⟨e, c, builtin', is, stands⟩
      · rw [builtin] at missing
        cases missing
      · obtain rfl := Option.some.inj (builtin.symm.trans builtin')
        exact Or.inl ⟨i, d, c, rfl, entry, is, stands⟩
  | nothing absent unknown =>
      rw [plain.named_of_absent absent]
      rcases builtin?_found items callee with ⟨_, is⟩ | ⟨e, c, builtin, _, _⟩
      · exact Or.inr ⟨rfl, is⟩
      · rw [unknown rfl] at builtin
        cases builtin

/-! ## Arguments and operands -/

section Arguments

variable {callee : String} {fixed : Findings.Env} {arg expected : Shown} {name t : String}
  {rest : List (Shown × (String × Shown))}

theorem fitArguments_plain (closed : ∀ t, expected ≠ .param t) :
    Findings.fitArguments callee fixed ((arg, name, expected) :: rest) =
      (if expected.accepts arg then (Findings.fitArguments callee fixed rest).1
        else Findings.misfit callee name expected arg :: (Findings.fitArguments callee fixed rest).1,
        (Findings.fitArguments callee fixed rest).2) := by
  cases expected with
  | param t => exact absurd rfl (closed t)
  | _ => rfl

theorem fitArguments_first (absent : fixed.lookup t = none) :
    Findings.fitArguments callee fixed ((arg, name, .param t) :: rest) =
      Findings.fitArguments callee ((t, arg) :: fixed) rest := by
  simp only [Findings.fitArguments, absent]

theorem fitArguments_later (found : fixed.lookup t = some expected) :
    Findings.fitArguments callee fixed ((arg, name, .param t) :: rest) =
      (if expected.accepts arg then (Findings.fitArguments callee fixed rest).1
        else Findings.misfit callee name expected arg :: (Findings.fitArguments callee fixed rest).1,
        (Findings.fitArguments callee fixed rest).2) := by
  simp only [Findings.fitArguments, found]

end Arguments

/-- An argument that does not fit, and what is found of it. -/
def MisfitFound (items : List (Item Site)) (callee : String) (m : Misfit) (f : Finding) : Prop :=
  ∃ expected arg, Shows items m.expected expected ∧ Shows items m.argument.ty arg ∧
    f = Findings.misfit callee m.param expected arg

/-- What is found of arguments, in numbers and in words. -/
def FitsAlike (items : List (Item Site)) (callee : String)
    (numbers : List Misfit × List (String × Ty)) (words : List Finding × Findings.Env) : Prop :=
  List.Forall₂ (MisfitFound items callee) numbers.1 words.1 ∧ EnvShows items numbers.2 words.2

/-- An argument that is compared with a type comes to the same in numbers and in words. -/
theorem FitsAlike.compare (names : (items.map Item.name).Nodup) {callee name : String}
    {arg : Argument} {expected : Ty} {arg' expected' : Shown}
    {numbers : List Misfit × List (String × Ty)} {words : List Finding × Findings.Env}
    (rest : FitsAlike items callee numbers words) (same : Shows items arg.ty arg')
    (expects : Shows items expected expected') :
    FitsAlike items callee
      (if expected.accepts arg.ty then numbers.1 else ⟨arg, name, expected⟩ :: numbers.1, numbers.2)
      (if expected'.accepts arg' then words.1
        else Findings.misfit callee name expected' arg' :: words.1, words.2) := by
  refine ⟨?_, rest.2⟩
  dsimp only
  rw [← expects.accepts names same]
  split
  · exact rest.1
  · exact .cons ⟨expected', arg', expects, same, rfl⟩ rest.1

/-- Matching numbers and matching words complain about the same arguments and settle the same type
parameters, by induction on the parameters. -/
theorem matchArguments_fits (names : (items.map Item.name).Nodup) (callee : String)
    {args : List Argument} {args' : List Shown} {params : List Descriptor.Param}
    {params' : List (String × Shown)} {fixed : List (String × Ty)} {fixed' : Findings.Env}
    (sameArgs : List.Forall₂ (fun a t => Shows items a.ty t) args args')
    (sameParams : List.Forall₂ (fun p q => p.name = q.1 ∧ Shows items p.ty q.2) params params')
    (sameFixed : EnvShows items fixed fixed') :
    FitsAlike items callee (matchArguments fixed (args.zip params))
      (Findings.fitArguments callee fixed' (args'.zip params')) := by
  induction sameArgs generalizing params params' fixed fixed' with
  | nil => exact ⟨.nil, sameFixed⟩
  | @cons arg arg' args args' first _ ih =>
      cases sameParams with
      | nil => exact ⟨.nil, sameFixed⟩
      | @cons param param' params params' same sameParams =>
          rcases param with ⟨name, ty⟩
          rcases param' with ⟨_, ty'⟩
          obtain ⟨rfl, same⟩ := same
          rw [List.zip_cons_cons, List.zip_cons_cons]
          rcases param_or_closed ty with ⟨t, rfl⟩ | closed
          · cases same
            rcases sameFixed.lookup t with ⟨absent, absent'⟩ | ⟨expected, expected', found, found', expects⟩
            · rw [matchArguments_first absent, fitArguments_first absent']
              exact ih sameParams (.cons ⟨rfl, first⟩ sameFixed)
            · rw [matchArguments_later found, fitArguments_later found']
              exact (ih sameParams sameFixed).compare names first expects
          · have closed' : ∀ t, ty' ≠ .param t := by
              rintro t rfl
              cases same
              exact closed t rfl
            rw [matchArguments_plain closed, fitArguments_plain closed']
            exact (ih sameParams sameFixed).compare names first same

/-- The result of a call is the same in both ways if type parameters are. -/
theorem EnvShows.result {fixed : List (String × Ty)} {fixed' : Findings.Env} {ty : Ty} {ty' : Shown}
    (sameFixed : EnvShows items fixed fixed') (same : Shows items ty ty') :
    Shows items (resultTy fixed ty) (Findings.resultOf fixed' ty') := by
  cases same with
  | @param t =>
      show Shows items ((fixed.lookup t).getD (.param t)) ((fixed'.lookup t).getD (.param t))
      rcases sameFixed.lookup t with ⟨absent, absent'⟩ | ⟨ty, shown, found, found', same⟩
      · rw [absent, absent']
        exact .param
      · rw [found, found']
        exact same
  | cls there => exact .cls there
  | int => exact .int
  | bool => exact .bool
  | str => exact .str
  | unit => exact .unit
  | error => exact .error

/-- Operands fit in numbers exactly if they do in words. -/
theorem operandsFit_eq (names : (items.map Item.name).Nodup) (op : Operator) {l r : Ty}
    {l' r' : Shown} (left : Shows items l l') (right : Shows items r r') :
    operandsFit op l r = Findings.operandsFit op l' r' := by
  cases op with
  | eq => exact left.accepts names right
  | _ =>
      show (Ty.int.accepts l && Ty.int.accepts r) = (Shown.int.accepts l' && Shown.int.accepts r')
      rw [Shows.int.accepts names left, Shows.int.accepts names right]

/-- What is said of arguments that do not fit is what is found of them. -/
theorem misfits_found {callee : String} {misfits : List Misfit} {found : List Finding}
    (standing : Standing items ctx s) (each : List.Forall₂ (MisfitFound items callee) misfits found) :
    (misfits.map (misfitComplaint callee s.descriptors)).map Complaint.finding = found := by
  induction each with
  | nil => rfl
  | @cons m f misfits found first _ ih =>
      obtain ⟨expected, arg, expects, same, rfl⟩ := first
      rw [List.map_cons, List.map_cons, ih, Complaint.finding, misfitComplaint,
        expects.quoted standing, same.quoted standing]
      rfl

/-! ## Expressions -/

/-- The state in which a body is resolved with the given locals. -/
structure Ready (items : List (Item Site)) (ctx : Context) (scope : Scope) (env : Findings.Env)
    (s : State) : Prop where
  standing : Standing items ctx s
  described : Described items s.descriptors
  locals : ∃ tys, Reflects s.descriptors scope tys ∧ EnvShows items tys env

section Bodies

variable {scope : Scope} {env : Findings.Env}

/-- What is ready for an expression stays so while the table grows. -/
theorem Ready.onward (ready : Ready items ctx scope env s) (onward : Onward items ctx s s') :
    Ready items ctx scope env s' := by
  obtain ⟨tys, reflects, same⟩ := ready.locals
  exact ⟨onward.standing, ready.described.extends onward.table, tys, reflects.extends onward.table,
    same⟩

/-- A name in scope stands for a local; of any other name there is something to report. -/
theorem valueVerdict_finds (plain : Plain items ctx) (ready : Ready items ctx scope env s)
    (site : Site) {name : String} {found : Option DescriptorId}
    (global : Global ctx s.descriptors name .value found) :
    (valueVerdict site name ((scope.lookup name).or found) s.descriptors).complaints.map
        Complaint.finding = Findings.refFindings (named items) env name ∧
      Shows items (valueVerdict site name ((scope.lookup name).or found) s.descriptors).value.ty
        ((env.lookup name).getD .error) := by
  obtain ⟨tys, reflects, same⟩ := ready.locals
  unfold valueVerdict Findings.refFindings
  rcases reflects.lookup name with ⟨absent, untyped⟩ | ⟨i, d, there, typed, entry, _, uncallable⟩
  · have unknown : env.lookup name = none := by
      rcases same.lookup name with ⟨_, none⟩ | ⟨ty, _, typed, _⟩
      · exact none
      · rw [untyped] at typed
        cases typed
    rw [absent, Option.none_or, unknown]
    cases global with
    | nothing missing _ =>
        rw [plain.named_of_absent missing]
        exact ⟨rfl, .error⟩
    | host _ call _ _ => cases call
    | @item i looked =>
        -- An item is no value: its descriptor can be called.
        obtain ⟨item, there, is⟩ := plain.named_of_lookup looked
        obtain ⟨d, entry, _, kind⟩ := ready.standing.items i item there
        dsimp only
        rw [is, entry]
        dsimp only
        rw [if_pos (isCallable_of_item kind), calleeOf_kind, ← kind]
        exact ⟨rfl, .error⟩
  · obtain ⟨none, _⟩ | ⟨ty, shown, typed', known, same⟩ := same.lookup name
    · rw [typed] at none
      cases none
    · obtain rfl := Option.some.inj (typed.symm.trans typed')
      rw [there, Option.some_or, known]
      dsimp only
      rw [entry]
      dsimp only
      rw [uncallable, if_neg Bool.false_ne_true]
      exact ⟨rfl, same⟩

/-- What is said of a call is what is found in it. -/
theorem callVerdict_finds (plain : Plain items ctx) (ready : Ready items ctx scope env s)
    (site : Site) {callee : String} {args : List Argument} {shown : List Shown}
    (same : List.Forall₂ (fun a t => Shows items a.ty t) args shown) {found : Option DescriptorId}
    (global : Global ctx s.descriptors callee .call found) :
    (callVerdict site callee args found s.descriptors).complaints.map Complaint.finding =
        Findings.callFindings (named items) callee shown ∧
      Shows items (callVerdict site callee args found s.descriptors).value.ty
        (Findings.callType (named items) callee shown) := by
  unfold callVerdict Findings.callFindings Findings.callType
  rcases global.found plain ready.described with ⟨i, d, c, rfl, entry, is, stands⟩ | ⟨rfl, is⟩
  · dsimp only
    rw [entry, is]
    dsimp only
    rw [stands.callable, if_neg (by simp), ← same.length_eq, ← stands.params.length_eq]
    by_cases differ : args.length ≠ d.params.length
    · rw [if_pos differ, if_pos differ, if_pos differ]
      exact ⟨rfl, stands.result⟩
    · rw [if_neg differ, if_neg differ, if_neg differ]
      have alike := matchArguments_fits plain.names callee same stands.params .nil
      exact ⟨misfits_found ready.standing alike.1, alike.2.result stands.result⟩
  · rw [is]
    exact ⟨rfl, .error⟩

/-- The type of an operator in both ways. -/
theorem operatorTy_shows (op : Operator) :
    Shows items (operatorTy op) (if op.isComparison then .bool else .int) := by
  unfold operatorTy
  split
  · exact .bool
  · exact .int

/-- The complaints about an operation are the findings in words, and likewise for locals and for what
is returned. -/
theorem binaryVerdict_finds (names : (items.map Item.name).Nodup) (standing : Standing items ctx s)
    (site : Site) (op : Operator) {l r : Ty} {l' r' : Shown} (left : Shows items l l')
    (right : Shows items r r') :
    (binaryVerdict site op l r s.descriptors).complaints.map Complaint.finding =
      Findings.binaryFindings op l' r' := by
  unfold binaryVerdict Findings.binaryFindings
  rw [operandsFit_eq names op left right, left.quoted standing, right.quoted standing]
  split <;> rfl

theorem localVerdict_finds (names : (items.map Item.name).Nodup) (standing : Standing items ctx s)
    (place : Site) {stated : Option Ty} {stated' : Option Shown} {found : Ty} {found' : Shown}
    (sameStated : Option.Rel (Shows items) stated stated') (same : Shows items found found') :
    (localVerdict place stated found s.descriptors).complaints.map Complaint.finding =
      Findings.localFindings stated' found' := by
  unfold localVerdict localFits Findings.localFindings
  cases sameStated with
  | none => rfl
  | @some ty shown stated =>
      rw [Option.map_some, Option.getD_some, Option.getD_some, stated.accepts names same,
        stated.quoted standing, same.quoted standing]
      dsimp only
      split <;> rfl

theorem returnVerdict_finds (names : (items.map Item.name).Nodup) (standing : Standing items ctx s)
    (frame : Frame) (scope : Scope) (place : Site) {result found' : Shown} {found : Ty}
    (returns : Shows items frame.result result) (same : Shows items found found') :
    (returnVerdict frame scope place found s.descriptors).complaints.map Complaint.finding =
      Findings.returnFindings result found' := by
  unfold returnVerdict Findings.returnFindings
  rw [returns.accepts names same, returns.quoted standing, same.quoted standing]
  split <;> rfl

/-- A literal has the type that it is bound to. -/
theorem finishExpr_finds (standing : Standing items ctx s) (site : Site) {ty : Ty} {shown : Shown}
    (same : Shows items ty shown) :
    Finds (finishExpr site (.typed ty)) s [] fun ty s' => Onward items ctx s s' ∧
      Shows items ty shown :=
  (bind_finds standing site _).andThen fun _ _ onward => .pure ⟨onward, same⟩

mutual

/-- Resolution of an expression reports what is found in it and gives its type. -/
theorem resolveExpr_finds (plain : Plain items ctx) {s : State} (ready : Ready items ctx scope env s) :
    ∀ e : Expr Site, Finds (resolveExpr ctx scope e) s
      (Findings.exprFindings (named items) env e.bare) fun ty s' => Onward items ctx s s' ∧
        Shows items ty (Findings.exprType (named items) env e.bare)
  | .int site _ => by
      rw [resolveExpr, Expr.bare, Findings.exprFindings, Findings.exprType]
      exact finishExpr_finds ready.standing site .int
  | .bool site _ => by
      rw [resolveExpr, Expr.bare, Findings.exprFindings, Findings.exprType]
      exact finishExpr_finds ready.standing site .bool
  | .str site _ => by
      rw [resolveExpr, Expr.bare, Findings.exprFindings, Findings.exprType]
      exact finishExpr_finds ready.standing site .str
  | .ref site name => by
      rw [resolveExpr_ref, Expr.bare, Findings.exprFindings, Findings.exprType]
      exact resolveUse_finds plain ready.standing site fun found s' onward global =>
        valueVerdict_finds plain (ready.onward onward) site global
  | .call site callee args => by
      rw [resolveExpr_call, Expr.bare, Findings.exprFindings, Findings.exprType]
      refine (resolveArguments_finds plain ready args).bind ?_
      intro arguments s₁ post
      rcases post with ⟨onward₁, same⟩
      have called : Finds (resolveUse ctx site callee .call (callVerdict site callee arguments)) s₁ _
          fun ty s' => Onward items ctx s₁ s' ∧ Shows items ty (Findings.callType (named items) callee
            (Findings.argTypes (named items) env (Source.bareArgs args))) :=
        resolveUse_finds plain onward₁.standing site fun found s' onward global =>
          callVerdict_finds plain (ready.onward (onward₁.trans onward)) site same global
      refine called.mono ?_
      intro ty s₂ post
      rcases post with ⟨onward₂, typed⟩
      exact ⟨onward₁.trans onward₂, typed⟩
  | .binary site op lhs rhs => by
      rw [resolveExpr_binary, Expr.bare, Findings.exprFindings, Findings.exprType]
      refine (resolveExpr_finds plain ready lhs).bind ?_
      intro l s₁ post
      rcases post with ⟨onward₁, left⟩
      refine (resolveExpr_finds plain (ready.onward onward₁) rhs).bind ?_
      intro r s₂ post
      rcases post with ⟨onward₂, right⟩
      rw [← binaryVerdict_finds plain.names onward₂.standing site op left right]
      refine (judge_finds onward₂.standing (binaryVerdict site op l r)).finish ?_
      intro b s₃ post
      rcases post with ⟨onward₃, _, rfl⟩
      refine (bind_finds onward₃.standing site _).andThen fun _ s₄ onward₄ => .pure ⟨?_, ?_⟩
      · exact ((onward₁.trans onward₂).trans onward₃).trans onward₄
      · rw [binaryVerdict_ty]
        exact operatorTy_shows op

/-- Arguments report what is found in them one by one, and each has its type in words. -/
theorem resolveArguments_finds (plain : Plain items ctx) {s : State}
    (ready : Ready items ctx scope env s) :
    ∀ es : List (Expr Site), Finds (resolveArguments ctx scope es) s
      (Findings.argFindings (named items) env (Source.bareArgs es)) fun args s' =>
        Onward items ctx s s' ∧ List.Forall₂ (fun a t => Shows items a.ty t) args
          (Findings.argTypes (named items) env (Source.bareArgs es))
  | [] => by
      rw [resolveArguments, Source.bareArgs, Findings.argFindings, Findings.argTypes]
      exact .pure ⟨.refl ready.standing, .nil⟩
  | e :: rest => by
      rw [resolveArguments, Source.bareArgs, Findings.argFindings, Findings.argTypes]
      refine (resolveExpr_finds plain ready e).bind ?_
      intro ty s₁ post
      rcases post with ⟨onward₁, typed⟩
      refine (resolveArguments_finds plain (ready.onward onward₁) rest).finish ?_
      intro more s₂ post
      rcases post with ⟨onward₂, each⟩
      exact .pure ⟨onward₁.trans onward₂, .cons typed each⟩

end

/-! ## Statements -/

variable {frame : Frame}

/-- The types that annotations stand for, in numbers and in words. -/
abbrev StatedAlike (items : List (Item Site)) : Option Ty → Option Shown → Prop :=
  Option.Rel (Shows items)

/-- A stated type reports what is found in it. -/
theorem statedType_finds (plain : Plain items ctx) (standing : Standing items ctx s)
    (frame : Frame) (type : Option (TypeRef Site)) :
    Finds (statedType ctx frame type) s
      ((type.map TypeRef.bare).toList.flatMap (Findings.typeFindings (named items) frame.typeParams))
      fun stated s' => Onward items ctx s s' ∧ StatedAlike items stated
        ((type.map TypeRef.bare).map (Findings.typeOf (named items) frame.typeParams)) := by
  cases type with
  | none => exact .pure ⟨.refl standing, .none⟩
  | some t =>
      rw [Option.map_some, Option.toList_some, List.flatMap_singleton]
      show Finds (resolveType ctx frame.typeParams t >>= fun ty => pure (some ty)) s _ _
      refine (resolveType_finds plain standing frame.typeParams t).finish ?_
      intro ty s₁ post
      rcases post with ⟨onward₁, same⟩
      exact .pure ⟨onward₁, .some same⟩

/-- A local is declared whether or not its value fits. -/
theorem declareLocal_finds (plain : Plain items ctx) (ready : Ready items ctx scope env s)
    (site : Site) (name : String) (value : Expr Site) {found : Ty} {found' : Shown}
    {stated : Option Ty} {stated' : Option Shown} (same : Shows items found found')
    (sameStated : StatedAlike items stated stated') :
    Finds (declareLocal ctx frame scope site name value found stated) s
      (Findings.localFindings stated' found') fun next s' => Onward items ctx s s' ∧
        Ready items ctx next ((name, stated'.getD found') :: env) s' := by
  have typed : Shows items (stated.getD found) (stated'.getD found') := by
    cases sameStated with
    | none => exact same
    | some stated => exact stated
  rw [← localVerdict_finds plain.names ready.standing value.site sameStated same]
  refine (judge_finds ready.standing (localVerdict value.site stated found)).finish ?_
  intro _ s₁ post
  rcases post with ⟨onward₁, _⟩
  refine (declare_finds onward₁.standing site name .localVar frame.function (stated.getD found)
    { typeMismatch := !localFits stated found }).andThen ?_
  intro i s₂ post
  rcases post with ⟨onward₂, ⟨d, entry, called, kind, ty⟩, _⟩
  have ready₂ := ready.onward (onward₁.trans onward₂)
  obtain ⟨tys, reflects, sameTys⟩ := ready₂.locals
  have uncallable : d.isCallable = false := by
    unfold Descriptor.isCallable
    rw [kind]
  exact .pure ⟨onward₁.trans onward₂, ready₂.standing, ready₂.described,
    (name, stated.getD found) :: tys, .cons ⟨rfl, d, entry, called, ty, uncallable⟩ reflects,
    .cons ⟨rfl, typed⟩ sameTys⟩

/-- What is returned reports whether it fits, and the scope stays ready. -/
theorem checkReturn_finds (plain : Plain items ctx) (ready : Ready items ctx scope env s)
    {result found : Shown} {ty : Ty} (returns : Shows items frame.result result)
    (same : Shows items ty found) (place : Site) :
    Finds (checkReturn ctx frame scope place ty) s (Findings.returnFindings result found)
      fun next s' => Onward items ctx s s' ∧ Ready items ctx next env s' := by
  rw [← returnVerdict_finds plain.names ready.standing frame scope place returns same]
  refine (judge_finds ready.standing (returnVerdict frame scope place ty)).mono ?_
  intro next s₁ post
  rcases post with ⟨onward₁, _, rfl⟩
  rw [returnVerdict_value]
  exact ⟨onward₁, ready.onward onward₁⟩

/-- A statement reports what is found in it, and a `let` adds its local in both ways. -/
theorem resolveStmt_finds (plain : Plain items ctx) (ready : Ready items ctx scope env s)
    {result : Shown} (returns : Shows items frame.result result) (stmt : Stmt Site) :
    Finds (resolveStmt ctx frame scope stmt) s
      (Findings.stmtFindings (named items) frame.typeParams result env stmt.bare)
      fun next s' => Onward items ctx s s' ∧
        Ready items ctx next (Findings.envBehind (named items) frame.typeParams env stmt.bare) s' := by
  cases stmt with
  | letBind site name type value =>
      rw [resolveStmt_letBind, Stmt.bare, Findings.stmtFindings, Findings.envBehind]
      refine (resolveExpr_finds plain ready value).bind ?_
      intro found s₁ post
      rcases post with ⟨onward₁, same⟩
      refine (statedType_finds plain onward₁.standing frame type).bind ?_
      intro stated s₂ post
      rcases post with ⟨onward₂, sameStated⟩
      have onward := onward₁.trans onward₂
      refine (declareLocal_finds plain (ready.onward onward) site name value same sameStated).mono ?_
      intro next s₃ post
      rcases post with ⟨onward₃, ready₃⟩
      exact ⟨onward.trans onward₃, ready₃⟩
  | ret site value =>
      rw [resolveStmt_ret]
      cases value with
      | none => exact checkReturn_finds plain ready returns .unit site
      | some value =>
          show Finds _ s (Findings.exprFindings (named items) env value.bare ++ _) _
          refine (resolveExpr_finds plain ready value).bind ?_
          intro found s₁ post
          rcases post with ⟨onward₁, same⟩
          refine (checkReturn_finds plain (ready.onward onward₁) returns same value.site).mono ?_
          intro next s₂ post
          rcases post with ⟨onward₂, ready₂⟩
          exact ⟨onward₁.trans onward₂, ready₂⟩
  | eval site value =>
      refine (resolveExpr_finds plain ready value).finish ?_
      intro found s₁ post
      rcases post with ⟨onward₁, _⟩
      exact .pure ⟨onward₁, ready.onward onward₁⟩

/-- Statements report what is found in them one after another. -/
theorem resolveStmts_finds (plain : Plain items ctx) {result : Shown}
    (returns : Shows items frame.result result) (stmts : List (Stmt Site)) {scope : Scope}
    {env : Findings.Env} {s : State} (ready : Ready items ctx scope env s) :
    Finds (resolveStmts ctx frame scope stmts) s
      (Findings.stmtsFindings (named items) frame.typeParams result env (stmts.map Stmt.bare))
      fun _ s' => Onward items ctx s s' := by
  induction stmts generalizing scope env s with
  | nil => exact .pure (.refl ready.standing)
  | cons stmt rest ih =>
      rw [resolveStmts, List.map_cons, Findings.stmtsFindings]
      refine (resolveStmt_finds plain ready returns stmt).bind ?_
      intro next s₁ post
      rcases post with ⟨onward₁, ready₁⟩
      exact (ih ready₁).mono fun _ s₂ onward₂ => onward₁.trans onward₂

end Bodies

/-! ## Items and units -/

/-- The parameters of a function are the same locals in numbers and in words. -/
theorem Entered.envShows {D : Descriptor.Table} {kind : Descriptor.Kind} {typeParams : List String}
    {members : List (Typed Site)} {ps : List (Descriptor.Param × DescriptorId)}
    (each : List.Forall₂ (Entered items D kind typeParams) members ps) :
    EnvShows items ((members.map (·.name)).zip (ps.map (·.1.ty))).reverse
      (Findings.memberTypes (named items) typeParams (members.map Typed.bare)).reverse := by
  unfold EnvShows Findings.memberTypes
  rw [List.forall₂_reverse_iff]
  induction each with
  | nil => exact .nil
  | cons first _ ih => exact .cons ⟨rfl, first.words⟩ ih

/-- The body of an item reports what is found in it. -/
theorem resolveBody_finds (plain : Plain items ctx) (standing : Standing items ctx s)
    (described : Described items s.descriptors) {i : DescriptorId} {item : Item Site}
    {params : List DescriptorId} (head : HeadFound items s.descriptors i item params) :
    Finds (resolveBody ctx i params item) s (Findings.bodyFindings (named items) item.bare)
      fun _ s' => Onward items ctx s s' := by
  obtain ⟨d, ps, entry, _, result, each, listed⟩ := head
  cases item with
  | cls site name fields => exact .pure (.refl standing)
  | function site name typeParams params' returns body =>
      obtain rfl := listed rfl
      rw [resolveBody, descriptor?_eq]
      refine (judge_finds standing fun D => ⟨[], D.get? i⟩).andThen ?_
      intro _ s₁ post
      rcases post with ⟨onward₁, table, rfl⟩
      dsimp only
      rw [entry]
      have reflects := reflects_members (each.imp fun _ _ entered => entered.entry)
      rw [← table] at reflects described
      exact (resolveStmts_finds plain result body
        ⟨onward₁.standing, described, _, reflects, Entered.envShows each⟩).mono
        fun _ s₂ onward₂ => onward₁.trans onward₂

/-- Bodies report what is found in them item by item. -/
theorem resolveBodies_finds (plain : Plain items ctx) {first : DescriptorId}
    {rest : List (Item Site)} {params : List (List DescriptorId)} {s : State}
    (standing : Standing items ctx s) (described : Described items s.descriptors)
    (heads : HeadsFound items s.descriptors first rest params) :
    Finds (resolveBodies ctx first (rest.zip params)) s
      (rest.flatMap fun item => Findings.bodyFindings (named items) item.bare)
      fun _ s' => Onward items ctx s s' := by
  induction rest generalizing first params s with
  | nil => exact .pure (.refl standing)
  | cons item rest ih =>
      rw [HeadsFound, List.zipIdx_cons] at heads
      cases heads with
      | @cons _ ps _ more head heads =>
          rw [List.zip_cons_cons, resolveBodies, List.flatMap_cons]
          refine (resolveBody_finds plain standing described head).bind fun _ s₁ onward₁ => ?_
          have heads₁ : HeadsFound items s₁.descriptors (first + 1) rest more :=
            heads.imp fun entry _ head => head.spares onward₁.table.spares
          exact (ih onward₁.standing (described.extends onward₁.table) heads₁).mono
            fun _ s₂ onward₂ => onward₁.trans onward₂

/-- Resolution of a unit by the host reports what is found in the unit and nothing else. -/
theorem resolveItems_finds (plain : Plain items ctx) (standing : Standing items ctx s) :
    Finds (resolveItems ctx items) s (Findings.unitFindings (items.map Item.bare)) fun _ s' =>
      Standing items ctx s' := by
  unfold Findings.unitFindings
  rw [List.flatMap_map, List.flatMap_map]
  refine (reportDuplicates_finds [] items ⟨by simp, plain.names⟩).andThen ?_
  rintro _ _ rfl
  refine (resolveSignatures_finds plain standing (Suffix.all items)).bind ?_
  intro params s₁ post
  rcases post with ⟨standing₁, _, heads⟩
  exact (resolveBodies_finds plain standing₁ (heads.described standing₁) heads).mono
    fun _ s₂ onward₂ => onward₂.standing

end StagedCompiler.Resolution
