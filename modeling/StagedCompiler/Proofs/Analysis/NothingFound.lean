import StagedCompiler.Proofs.Analysis.FoundBodies

/-!
# Nothing is found in a unit exactly if it is well formed

The findings of `Findings` set beside the rules of `Typing`, for items with distinct names.  What has a
type by the rules has no findings and the same type in words (`hasType_found`, `checks_found`), by
induction on its typing; what has no findings has a type (`hasType_of_exprFindings`,
`checks_of_stmtFindings`), by recursion on it.  `unitFindings_eq_nil_iff` puts units together.
-/

namespace StagedCompiler.Resolution

open Source (Typed Item TypeRef Site Expr Stmt)
open Typing (Signature SignatureOf HostSignature Calls Fits ResultTy Operates NamesType Returns HasType
  HaveTypes Checks ChecksAll BodyChecks WellFormed)
open Findings (Finding Shown Callee)

variable {items : List (Item Site)} {typeParams : List String}

section Unit

variable (names : (items.map Item.name).Nodup)

include names

/-! ## Types -/

/-- The type that a name stands for is found in words. -/
theorem namesType_found {t : TypeRef Site} {ty : Ty} (given : NamesType items typeParams t.name ty) :
    Findings.typeFindings (named items) typeParams t.bare = [] ∧
      Shows items ty (Findings.typeOf (named items) typeParams t.bare) := by
  have known : ∃ shown, Findings.typeOf? (named items) typeParams t.name = some shown ∧
      Shows items ty shown := by
    unfold Findings.typeOf?
    rcases builtin?_shows items t.name with
      ⟨absent, absent'⟩ | ⟨builtin, shown, found, found', words⟩
    · rw [absent']
      cases given with
      | builtin found => rw [absent] at found; cases found
      | param _ member =>
          exact ⟨_, if_pos (List.contains_iff_mem.mpr member), .param⟩
      | @cls i site fields _ free there =>
          dsimp only
          rw [if_neg fun contained => free (List.contains_iff_mem.mp contained),
            if_pos ((isClass_iff names).mpr ⟨i, site, fields, there⟩)]
          exact ⟨_, rfl, .cls there⟩
    · rw [found']
      cases given with
      | builtin found'' =>
          obtain rfl := Option.some.inj (found.symm.trans found'')
          exact ⟨shown, rfl, words⟩
      | param none _ => rw [found] at none; cases none
      | cls none _ _ => rw [found] at none; cases none
  obtain ⟨shown, is, words⟩ := known
  obtain ⟨silent, typed⟩ := typeFindings_of_some is
  exact ⟨silent, typed ▸ words⟩

/-- A name without findings stands for a type. -/
theorem namesType_of_typeFindings {t : TypeRef Site}
    (silent : Findings.typeFindings (named items) typeParams t.bare = []) :
    ∃ ty, NamesType items typeParams t.name ty := by
  rcases builtin?_shows items t.name with
    ⟨absent, absent'⟩ | ⟨builtin, shown, found, _, _⟩
  · by_cases member : t.name ∈ typeParams
    · exact ⟨_, .param absent member⟩
    · by_cases is : Findings.isClass (named items) t.name = true
      · obtain ⟨i, site, fields, there⟩ := (isClass_iff names).mp is
        exact ⟨_, .cls absent member there⟩
      · have unknown : Findings.typeOf? (named items) typeParams t.bare.name = none := by
          show Findings.typeOf? (named items) typeParams t.name = none
          unfold Findings.typeOf?
          rw [absent']
          dsimp only
          rw [if_neg fun contained => member (List.contains_iff_mem.mp contained), if_neg is]
        rw [Findings.typeFindings, unknown] at silent
        cases silent
  · exact ⟨builtin, .builtin found⟩

/-! ## Signatures -/

omit names in
/-- Members without findings are members with names of their own whose types are without findings. -/
theorem memberFindings_eq_nil_iff {duplicate : String → String} {seen : List String}
    {ms : List (Typed Site)} :
    Findings.memberFindings (named items) typeParams duplicate seen (ms.map Typed.bare) = [] ↔
      NewNames Typed.name seen ms ∧
        ∀ m ∈ ms, Findings.typeFindings (named items) typeParams m.type.bare = [] := by
  induction ms generalizing seen with
  | nil => exact ⟨fun _ => ⟨newNames_nil _ _, by simp⟩, fun _ => rfl⟩
  | cons m rest ih =>
      have fresh : (if seen.contains m.name then [(duplicateCode, duplicate m.name)] else []) = [] ↔
          m.name ∉ seen := by
        simp
      rw [List.map_cons, Findings.memberFindings, List.append_eq_nil_iff, List.append_eq_nil_iff,
        newNames_cons_iff, List.forall_mem_cons]
      constructor
      · intro silent
        rcases silent with ⟨first, typed, more⟩
        obtain ⟨new, each⟩ := ih.mp more
        exact ⟨⟨fresh.mp first, new⟩, typed, each⟩
      · intro given
        rcases given with ⟨⟨first, new⟩, typed, each⟩
        exact ⟨fresh.mpr first, typed, ih.mpr ⟨new, each⟩⟩

/-- Members with types have no findings, and their types in words are these. -/
theorem membersTyped_found {ms : List (Typed Site)} {tys : List Ty}
    (typed : List.Forall₂ (fun m ty => NamesType items typeParams m.type.name ty) ms tys) :
    (∀ m ∈ ms, Findings.typeFindings (named items) typeParams m.type.bare = []) ∧
      List.Forall₂ (fun ty q => Shows items ty q.2) tys
        (Findings.memberTypes (named items) typeParams (ms.map Typed.bare)) := by
  induction typed with
  | nil => exact ⟨by simp, .nil⟩
  | cons first _ ih =>
      obtain ⟨silent, words⟩ := namesType_found names first
      exact ⟨List.forall_mem_cons.mpr ⟨silent, ih.1⟩, .cons words ih.2⟩

/-- Members whose types have no findings have types. -/
theorem membersTyped_of_typeFindings {ms : List (Typed Site)}
    (silent : ∀ m ∈ ms, Findings.typeFindings (named items) typeParams m.type.bare = []) :
    ∃ tys, List.Forall₂ (fun m ty => NamesType items typeParams m.type.name ty) ms tys := by
  induction ms with
  | nil => exact ⟨[], .nil⟩
  | cons m rest ih =>
      obtain ⟨here, more⟩ := List.forall_mem_cons.mp silent
      obtain ⟨ty, first⟩ := namesType_of_typeFindings names here
      obtain ⟨tys, each⟩ := ih more
      exact ⟨ty :: tys, .cons first each⟩

theorem returns_found {returns : Option (TypeRef Site)} {ty : Ty}
    (given : Returns items typeParams returns ty) :
    (returns.map TypeRef.bare).toList.flatMap (Findings.typeFindings (named items) typeParams) = [] ∧
      Shows items ty (Findings.returned (named items) typeParams (returns.map TypeRef.bare)) := by
  cases given with
  | nothing => exact ⟨rfl, .unit⟩
  | value known =>
      rw [Option.map_some, Option.toList_some, List.flatMap_singleton]
      exact namesType_found names known

theorem returns_of_typeFindings {returns : Option (TypeRef Site)}
    (silent : (returns.map TypeRef.bare).toList.flatMap
      (Findings.typeFindings (named items) typeParams) = []) :
    ∃ ty, Returns items typeParams returns ty := by
  cases returns with
  | none => exact ⟨_, .nothing⟩
  | some t =>
      rw [Option.map_some, Option.toList_some, List.flatMap_singleton] at silent
      obtain ⟨ty, known⟩ := namesType_of_typeFindings names silent
      exact ⟨ty, .value known⟩

/-- A signature, in numbers and in words. -/
structure Signs (items : List (Item Site)) (sig : Signature) (c : Callee) : Prop where
  params : List.Forall₂ (fun ty q => Shows items ty q.2) sig.params c.params
  result : Shows items sig.result c.result

/-- An item with a signature by the rules has this signature in words. -/
theorem signatureOf_found {i : Nat} {item : Item Site} {sig : Signature} (there : items[i]? = some item)
    (signed : SignatureOf items i item sig) :
    Signs items sig (Findings.calleeOf (named items) item.bare) := by
  cases signed with
  | function params returns =>
      exact ⟨(membersTyped_found names params).2, (returns_found names returns).2⟩
  | cls fields => exact ⟨(membersTyped_found names fields).2, .cls there⟩

/-- Nothing is found in the signature of an item exactly if its members have names of their own and
it has a signature. -/
theorem headFindings_eq_nil_iff {i : Nat} {item : Item Site} :
    Findings.headFindings (named items) item.bare = [] ↔
      ((Typing.members item).map Typed.name).Nodup ∧ ∃ sig, SignatureOf items i item sig := by
  cases item with
  | function site name typeParams params returns body =>
      rw [Item.bare, Findings.headFindings, List.append_eq_nil_iff, memberFindings_eq_nil_iff]
      constructor
      · intro silent
        rcases silent with ⟨⟨⟨_, distinct⟩, typed⟩, returned⟩
        obtain ⟨tys, each⟩ := membersTyped_of_typeFindings names typed
        obtain ⟨ty, returns⟩ := returns_of_typeFindings names returned
        exact ⟨distinct, _, .function each returns⟩
      · intro given
        rcases given with ⟨distinct, _, signed⟩
        cases signed with
        | function each returns =>
            exact ⟨⟨⟨by simp, distinct⟩, (membersTyped_found names each).1⟩,
              (returns_found names returns).1⟩
  | cls site name fields =>
      rw [Item.bare, Findings.headFindings, memberFindings_eq_nil_iff]
      constructor
      · intro silent
        rcases silent with ⟨⟨_, distinct⟩, typed⟩
        obtain ⟨tys, each⟩ := membersTyped_of_typeFindings names typed
        exact ⟨distinct, _, .cls each⟩
      · intro given
        rcases given with ⟨distinct, _, signed⟩
        cases signed with
        | cls each => exact ⟨⟨by simp, distinct⟩, (membersTyped_found names each).1⟩

/-- All items have signatures. -/
def HaveSignatures (items : List (Item Site)) : Prop :=
  ∀ i item, items[i]? = some item → ∃ sig, SignatureOf items i item sig

/-! ## Calls -/

omit names in
/-- The functions of the host have the signatures that calls see. -/
theorem hostSignature_found {name : String} {sig : Signature} (host : HostSignature name sig) :
    ∃ c, Findings.hostCallee? name = some c ∧ Signs items sig c := by
  cases host with
  | print is => subst is; exact ⟨_, rfl, .cons .str .nil, .unit⟩
  | assert is => subst is; exact ⟨_, rfl, .cons .bool .nil, .unit⟩

omit names in
theorem hostSignature_of_hostCallee? {name : String} {c : Callee}
    (found : Findings.hostCallee? name = some c) : ∃ sig, HostSignature name sig := by
  unfold Findings.hostCallee? at found
  split at found
  · exact ⟨_, .print ‹_›⟩
  · split at found
    · exact ⟨_, .assert ‹_›⟩
    · cases found

/-- What the rules call is what calls see in words, an item before a function of the host. -/
theorem calls_found {callee : String} {sig : Signature} (calls : Calls items callee sig) :
    ∃ c, Findings.callee? (named items) callee = some c ∧ Signs items sig c := by
  unfold Findings.callee?
  cases calls with
  | item there signed =>
      rw [named_of_getElem? names there]
      exact ⟨_, rfl, signatureOf_found names there signed⟩
  | host absent host =>
      rw [named_eq_none absent]
      exact hostSignature_found host

/-- What a name stands for in a call has a signature if all items do. -/
theorem calls_of_callee? (signed : HaveSignatures items) {callee : String} {c : Callee}
    (found : Findings.callee? (named items) callee = some c) : ∃ sig, Calls items callee sig := by
  unfold Findings.callee? at found
  cases is : named items callee with
  | some bare =>
      obtain ⟨among, called⟩ :=
        (Findings.itemNamed_eq_some_iff (by rwa [Source.map_bare_name])).mp is
      obtain ⟨item, member, rfl⟩ := List.mem_map.mp among
      obtain ⟨i, there⟩ := List.mem_iff_getElem?.mp member
      obtain ⟨sig, signature⟩ := signed i item there
      rw [Item.bare_name] at called
      exact ⟨sig, called ▸ .item there signature⟩
  | none =>
      rw [is] at found
      obtain ⟨sig, host⟩ := hostSignature_of_hostCallee? found
      refine ⟨sig, .host (fun item member called => ?_) host⟩
      obtain ⟨i, there⟩ := List.mem_iff_getElem?.mp member
      rw [← called, named_of_getElem? names there] at is
      cases is

omit names in
/-- Parameters with the types of a signature and the names that calls see. -/
theorem exists_params {tys : List Ty} {qs : List (String × Shown)}
    (same : List.Forall₂ (fun ty q => Shows items ty q.2) tys qs) :
    ∃ ps : List Descriptor.Param, ps.map (·.ty) = tys ∧
      List.Forall₂ (fun p q => p.name = q.1 ∧ Shows items p.ty q.2) ps qs := by
  induction same with
  | nil => exact ⟨[], rfl, .nil⟩
  | @cons ty q _ _ first _ ih =>
      obtain ⟨ps, typed, each⟩ := ih
      exact ⟨⟨q.1, ty⟩ :: ps, congrArg (ty :: ·) typed, .cons ⟨rfl, first⟩ each⟩

/-- Arguments fit a signature exactly if nothing is found of them, and then the result of the call is
the same in numbers and in words. -/
theorem fitArguments_iff (site : Site) (callee : String) {sig : Signature} {c : Callee}
    (signs : Signs items sig c) {tys : List Ty} {shown : List Shown}
    (same : List.Forall₂ (Shows items) tys shown) (length : tys.length = sig.params.length) :
    ((Findings.fitArguments callee [] (shown.zip c.params)).1 = [] ↔
        ∃ final, Fits [] tys sig.params final) ∧
      ∀ final ty, Fits [] tys sig.params final → ResultTy final sig.result ty →
        Shows items ty (Findings.resultOf
          (Findings.fitArguments callee [] (shown.zip c.params)).2 c.result) := by
  obtain ⟨ps, typed, each⟩ := exists_params signs.params
  obtain ⟨args, arguments, sameArgs⟩ : ∃ args : List Argument, args.map (·.ty) = tys ∧
      List.Forall₂ (fun a t => Shows items a.ty t) args shown := by
    refine ⟨tys.map (⟨site, ·⟩), List.map_map.trans (List.map_id tys), ?_⟩
    rw [List.forall₂_map_left_iff]
    exact same
  obtain ⟨misfits, fixed⟩ := matchArguments_fits names callee sameArgs each .nil
  have sound : (matchArguments [] (args.zip ps)).1 = [] →
      Fits [] tys sig.params (matchArguments [] (args.zip ps)).2 := by
    rw [← arguments, ← typed] at length ⊢
    rw [List.length_map, List.length_map] at length
    exact matchArguments_sound length
  have complete : ∀ {final : Typing.Env}, Fits [] tys sig.params final →
      (matchArguments [] (args.zip ps)).1 = [] := by
    rw [← arguments, ← typed]
    exact matchArguments_complete
  have silent_iff : (Findings.fitArguments callee [] (shown.zip c.params)).1 = [] ↔
      (matchArguments [] (args.zip ps)).1 = [] := by
    rw [← List.length_eq_zero_iff, ← List.length_eq_zero_iff, misfits.length_eq]
  refine ⟨silent_iff.trans ⟨fun fit => ⟨_, sound fit⟩, ?_⟩, ?_⟩
  · intro given
    rcases given with ⟨final, fits⟩
    exact complete fits
  · intro final ty fits result
    obtain rfl := fits.unique (sound (complete fits))
    obtain rfl := result.unique (resultTy_spec _ _)
    exact fixed.result signs.result

end Unit

/-! ## Expressions -/

section Bodies

variable {env : Typing.Env} {words : Findings.Env}

mutual

/-- An expression with a type has no findings and the same type in words. -/
theorem hasType_found (names : (items.map Item.name).Nodup) (same : EnvShows items env words)
    {e : Expr Site} {ty : Ty} (typed : HasType items env e ty) :
    Findings.exprFindings (named items) words e.bare = [] ∧
      Shows items ty (Findings.exprType (named items) words e.bare) := by
  cases typed with
  | int => exact ⟨rfl, .int⟩
  | bool => exact ⟨rfl, .bool⟩
  | str => exact ⟨rfl, .str⟩
  | @ref _ name _ found =>
      rw [Expr.bare, Findings.exprFindings, Findings.exprType, Findings.refFindings]
      rcases same.lookup name with ⟨absent, _⟩ | ⟨_, shown, found', known, shows⟩
      · rw [found] at absent
        cases absent
      · obtain rfl := Option.some.inj (found.symm.trans found')
        rw [known]
        exact ⟨rfl, shows⟩
  | @call site callee args sig tys final _ calls each fits result =>
      obtain ⟨silent, shown⟩ := haveTypes_found names same each
      obtain ⟨c, is, signs⟩ := calls_found names calls
      obtain ⟨fit, typed⟩ := fitArguments_iff names site callee signs shown fits.length_eq
      have length : (Findings.argTypes (named items) words (Source.bareArgs args)).length =
          c.params.length := by
        rw [← shown.length_eq, fits.length_eq, signs.params.length_eq]
      rw [Expr.bare, Findings.exprFindings, Findings.exprType, Findings.callFindings,
        Findings.callType, is, silent]
      dsimp only
      rw [if_neg (not_not_intro length), if_neg (not_not_intro length)]
      exact ⟨fit.mpr ⟨final, fits⟩, typed final _ fits result⟩
  | @binary _ op lhs rhs a b ty left right operates =>
      obtain ⟨silent, shown⟩ := hasType_found names same left
      obtain ⟨silent', shown'⟩ := hasType_found names same right
      have fit := operandsFit_iff.mpr ⟨ty, operates⟩
      obtain rfl := operates.unique (operatorTy_spec fit)
      rw [operandsFit_eq names op shown shown'] at fit
      rw [Expr.bare, Findings.exprFindings, Findings.exprType, silent, silent',
        Findings.binaryFindings, if_pos fit]
      exact ⟨rfl, operatorTy_shows op⟩

theorem haveTypes_found (names : (items.map Item.name).Nodup) (same : EnvShows items env words)
    {es : List (Expr Site)} {tys : List Ty} (typed : HaveTypes items env es tys) :
    Findings.argFindings (named items) words (Source.bareArgs es) = [] ∧
      List.Forall₂ (Shows items) tys (Findings.argTypes (named items) words (Source.bareArgs es)) := by
  cases typed with
  | nil => exact ⟨rfl, .nil⟩
  | cons first rest =>
      obtain ⟨silent, shown⟩ := hasType_found names same first
      obtain ⟨silent', each⟩ := haveTypes_found names same rest
      rw [Source.bareArgs, Findings.argFindings, Findings.argTypes, silent, silent']
      exact ⟨rfl, .cons shown each⟩

end

mutual

/-- If all items have signatures, an expression without findings has a type. -/
theorem hasType_of_exprFindings (names : (items.map Item.name).Nodup)
    (signed : HaveSignatures items) (same : EnvShows items env words) : ∀ e : Expr Site,
    Findings.exprFindings (named items) words e.bare = [] → ∃ ty, HasType items env e ty
  | .int _ _, _ => ⟨_, .int⟩
  | .bool _ _, _ => ⟨_, .bool⟩
  | .str _ _, _ => ⟨_, .str⟩
  | .ref _ name, silent => by
      rw [Expr.bare, Findings.exprFindings, Findings.refFindings] at silent
      rcases same.lookup name with ⟨_, unknown⟩ | ⟨ty, _, found, _, _⟩
      · rw [unknown] at silent
        cases is : named items name with
        | some item => rw [is] at silent; cases silent
        | none => rw [is] at silent; cases silent
      · exact ⟨ty, .ref found⟩
  | .call site callee args, silent => by
      rw [Expr.bare, Findings.exprFindings, List.append_eq_nil_iff, Findings.callFindings] at silent
      obtain ⟨arguments, silent⟩ := silent
      obtain ⟨tys, each⟩ := haveTypes_of_argFindings names signed same args arguments
      cases is : Findings.callee? (named items) callee with
      | none =>
          rw [is] at silent
          cases silent
      | some c =>
          rw [is] at silent
          dsimp only at silent
          split at silent
          · cases silent
          · rename_i length
            obtain ⟨sig, calls⟩ := calls_of_callee? names signed is
            obtain ⟨_, is', signs⟩ := calls_found names calls
            obtain rfl := Option.some.inj (is.symm.trans is')
            have shown := (haveTypes_found names same each).2
            have lengths : tys.length = sig.params.length := by
              rw [shown.length_eq, Decidable.not_not.mp length, signs.params.length_eq]
            obtain ⟨final, fits⟩ := (fitArguments_iff names site callee signs shown lengths).1.mp silent
            exact ⟨_, .call calls each fits (resultTy_spec final sig.result)⟩
  | .binary _ op lhs rhs, silent => by
      rw [Expr.bare, Findings.exprFindings, List.append_eq_nil_iff, List.append_eq_nil_iff] at silent
      obtain ⟨left, right, silent⟩ := silent
      obtain ⟨a, left⟩ := hasType_of_exprFindings names signed same lhs left
      obtain ⟨b, right⟩ := hasType_of_exprFindings names signed same rhs right
      rw [Findings.binaryFindings, ← operandsFit_eq names op (hasType_found names same left).2
        (hasType_found names same right).2] at silent
      split at silent
      · rename_i fit
        exact ⟨_, .binary left right (operatorTy_spec fit)⟩
      · cases silent

theorem haveTypes_of_argFindings (names : (items.map Item.name).Nodup)
    (signed : HaveSignatures items) (same : EnvShows items env words) : ∀ es : List (Expr Site),
    Findings.argFindings (named items) words (Source.bareArgs es) = [] →
      ∃ tys, HaveTypes items env es tys
  | [], _ => ⟨_, .nil⟩
  | e :: rest, silent => by
      rw [Source.bareArgs, Findings.argFindings, List.append_eq_nil_iff] at silent
      obtain ⟨ty, first⟩ := hasType_of_exprFindings names signed same e silent.1
      obtain ⟨tys, each⟩ := haveTypes_of_argFindings names signed same rest silent.2
      exact ⟨_, .cons first each⟩

end

/-! ## Statements -/

section Statements

variable (names : (items.map Item.name).Nodup) (signed : HaveSignatures items)
  (same : EnvShows items env words) {result : Ty} {result' : Shown}
  (returns : Shows items result result')

include names same returns

/-- A statement that checks has no findings, and the locals behind it have the same types in words. -/
theorem checks_found {stmt : Stmt Site} {next : Typing.Env}
    (checks : Checks items typeParams result env stmt next) :
    Findings.stmtFindings (named items) typeParams result' words stmt.bare = [] ∧
      EnvShows items next (Findings.envBehind (named items) typeParams words stmt.bare) := by
  cases checks with
  | inferred typed =>
      obtain ⟨silent, shown⟩ := hasType_found names same typed
      rw [Stmt.bare, Findings.stmtFindings, Findings.envBehind, silent]
      exact ⟨rfl, .cons ⟨rfl, shown⟩ same⟩
  | annotated typed known accepted =>
      obtain ⟨silent, shown⟩ := hasType_found names same typed
      obtain ⟨silent', stated⟩ := namesType_found names known
      rw [stated.accepts names shown] at accepted
      rw [Stmt.bare, Findings.stmtFindings, Findings.envBehind, silent, Option.map_some,
        Option.toList_some, List.flatMap_singleton, silent', Option.map_some, Findings.localFindings,
        if_pos accepted]
      exact ⟨rfl, .cons ⟨rfl, stated⟩ same⟩
  | leave accepted =>
      rw [returns.accepts names .unit] at accepted
      exact ⟨if_pos accepted, same⟩
  | ret typed accepted =>
      obtain ⟨silent, shown⟩ := hasType_found names same typed
      rw [returns.accepts names shown] at accepted
      rw [Stmt.bare, Option.map_some, Findings.stmtFindings, silent, Findings.returnFindings,
        if_pos accepted]
      exact ⟨rfl, same⟩
  | eval typed => exact ⟨(hasType_found names same typed).1, same⟩

include signed

/-- If all items have signatures, a statement without findings checks. -/
theorem checks_of_stmtFindings {stmt : Stmt Site}
    (silent : Findings.stmtFindings (named items) typeParams result' words stmt.bare = []) :
    ∃ next, Checks items typeParams result env stmt next := by
  cases stmt with
  | letBind site name type value =>
      rw [Stmt.bare, Findings.stmtFindings, List.append_eq_nil_iff, List.append_eq_nil_iff] at silent
      obtain ⟨silent, annotation, fits⟩ := silent
      obtain ⟨found, typed⟩ := hasType_of_exprFindings names signed same value silent
      cases type with
      | none => exact ⟨_, .inferred typed⟩
      | some t =>
          rw [Option.map_some, Option.toList_some, List.flatMap_singleton] at annotation
          obtain ⟨ty, known⟩ := namesType_of_typeFindings names annotation
          have stated := (namesType_found names known).2
          rw [Option.map_some, Option.map_some, Findings.localFindings,
            ← stated.accepts names (hasType_found names same typed).2] at fits
          split at fits
          · exact ⟨_, .annotated typed known ‹_›⟩
          · cases fits
  | ret site value =>
      cases value with
      | none =>
          rw [Stmt.bare, Option.map_none, Findings.stmtFindings, Findings.returnFindings,
            ← returns.accepts names .unit] at silent
          split at silent
          · exact ⟨_, .leave ‹_›⟩
          · cases silent
      | some value =>
          rw [Stmt.bare, Option.map_some, Findings.stmtFindings, List.append_eq_nil_iff] at silent
          obtain ⟨silent, fits⟩ := silent
          obtain ⟨found, typed⟩ := hasType_of_exprFindings names signed same value silent
          rw [Findings.returnFindings,
            ← returns.accepts names (hasType_found names same typed).2] at fits
          split at fits
          · exact ⟨_, .ret typed ‹_›⟩
          · cases fits
  | eval site value =>
      obtain ⟨found, typed⟩ := hasType_of_exprFindings names signed same value silent
      exact ⟨_, .eval typed⟩

omit same in
/-- Statements have no findings exactly if the rules accept them, each behind those before it. -/
theorem stmtsFindings_eq_nil_iff {env : Typing.Env} {words : Findings.Env}
    (same : EnvShows items env words) {stmts : List (Stmt Site)} :
    Findings.stmtsFindings (named items) typeParams result' words (stmts.map Stmt.bare) = [] ↔
      ChecksAll items typeParams result env stmts := by
  induction stmts generalizing env words with
  | nil => exact ⟨fun _ => .nil, fun _ => rfl⟩
  | cons stmt rest ih =>
      rw [List.map_cons, Findings.stmtsFindings, List.append_eq_nil_iff]
      constructor
      · intro silent
        rcases silent with ⟨first, more⟩
        obtain ⟨next, checks⟩ := checks_of_stmtFindings names signed same returns first
        exact .cons checks ((ih (checks_found names same returns checks).2).mp more)
      · intro all
        cases all with
        | cons checks all =>
            obtain ⟨silent, same'⟩ := checks_found names same returns checks
            exact ⟨silent, (ih same').mpr all⟩

end Statements

end Bodies

/-! ## Units -/

section Units

variable (names : (items.map Item.name).Nodup)

include names

/-- Nothing is found in the body of an item exactly if it checks against the signature. -/
theorem bodyFindings_eq_nil_iff (signed : HaveSignatures items) {i : Nat} {item : Item Site} {sig : Signature}
    (signature : SignatureOf items i item sig) :
    Findings.bodyFindings (named items) item.bare = [] ↔ BodyChecks items item sig := by
  cases signature with
  | cls each => exact ⟨fun _ => .cls, fun _ => rfl⟩
  | @function site name typeParams params returns body tys result each returned =>
      have same : EnvShows items ((params.map (·.name)).zip tys).reverse
          (Findings.memberTypes (named items) typeParams (params.map Typed.bare)).reverse := by
        have shown := (membersTyped_found names each).2
        clear returned signed
        rw [EnvShows, List.forall₂_reverse_iff]
        unfold Findings.memberTypes at shown ⊢
        induction each with
        | nil => exact .nil
        | cons first _ ih =>
            cases shown with
            | cons here more => exact .cons ⟨rfl, here⟩ (ih more)
      rw [Item.bare, Findings.bodyFindings,
        stmtsFindings_eq_nil_iff names signed (returns_found names returned).2 same]
      refine ⟨fun all => .function all, fun checks => ?_⟩
      cases checks with
      | function all => exact all

/-- Nothing is found in a unit exactly if it is well formed. -/
theorem unitFindings_eq_nil_iff :
    Findings.unitFindings (items.map Item.bare) = [] ↔ WellFormed items := by
  have heads : (items.map Item.bare).flatMap (Findings.headFindings (named items)) = [] ↔
      ∀ item ∈ items, Findings.headFindings (named items) item.bare = [] := by
    rw [List.flatMap_eq_nil_iff, List.forall_mem_map]
  have bodies : (items.map Item.bare).flatMap (Findings.bodyFindings (named items)) = [] ↔
      ∀ item ∈ items, Findings.bodyFindings (named items) item.bare = [] := by
    rw [List.flatMap_eq_nil_iff, List.forall_mem_map]
  rw [Findings.unitFindings, List.append_eq_nil_iff, heads, bodies]
  constructor
  · intro silent
    rcases silent with ⟨heads, bodies⟩
    have signed : HaveSignatures items :=
      fun i item there =>
        ((headFindings_eq_nil_iff names).mp (heads item (List.mem_of_getElem? there))).2
    refine ⟨names, fun item member => ?_, fun i item there => ?_⟩
    · obtain ⟨i, there⟩ := List.mem_iff_getElem?.mp member
      exact ((headFindings_eq_nil_iff (i := i) names).mp (heads item member)).1
    · obtain ⟨sig, signature⟩ := signed i item there
      exact ⟨sig, signature, (bodyFindings_eq_nil_iff names signed signature).mp
        (bodies item (List.mem_of_getElem? there))⟩
  · intro wellFormed
    have signed : HaveSignatures items := by
      intro i item there
      obtain ⟨sig, signature, _⟩ := wellFormed.bodies i item there
      exact ⟨sig, signature⟩
    refine ⟨fun item member => ?_, fun item member => ?_⟩
    · obtain ⟨i, there⟩ := List.mem_iff_getElem?.mp member
      exact (headFindings_eq_nil_iff names).mpr ⟨wellFormed.memberNames item member, signed i item there⟩
    · obtain ⟨i, there⟩ := List.mem_iff_getElem?.mp member
      obtain ⟨sig, signature, checks⟩ := wellFormed.bodies i item there
      exact (bodyFindings_eq_nil_iff names signed signature).mpr checks

end Units

end StagedCompiler.Resolution
