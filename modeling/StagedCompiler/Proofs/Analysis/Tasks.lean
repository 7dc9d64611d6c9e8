import StagedCompiler.Proofs.Analysis.Steps
import StagedCompiler.Proofs.Typing.Judgement

/-!
# The tasks of a unit

Which names resolution looks up and which declarations it describes, and in which order, is settled by
the unit alone: `unitTasks` lists it.

`Follows` is the one walk through resolution.  A step follows a list of tasks if it is made of actions
with these tasks: look-ups, verdicts, and what is bound, declared and filled in.  Every function of
resolution follows its tasks (`resolveItems_follows`), so whatever the actions do, and sequences do if
their parts do, all of resolution does, by induction on `Follows`.
-/

namespace StagedCompiler.Resolution

open Source (Typed Item TypeRef Site Expr Stmt)

/-- What matters about a descriptor besides its signature. -/
abbrev Outline : Type := String × Descriptor.Kind × Option DescriptorId × Descriptor.Origin

/-- What a descriptor says besides its signature. -/
def outline (d : Descriptor) : Outline := (d.name, d.kind, d.container, d.origin)

/-- A step that descriptors or resolvers have to do with: a name is looked up, or a declaration that
belongs to an item is described. -/
inductive Task : Type
  | look (key : String × ReferenceKind)
  | declare (site : Site) (name : String) (kind : Descriptor.Kind) (owner : DescriptorId)

/-- What the members of an item are declared as. -/
def memberKind : Item Site → Descriptor.Kind
  | .function _ _ _ _ _ _ => .param
  | .cls _ _ _ => .field

/-- The type parameters of an item. -/
def typeParamsOf : Item Site → List String
  | .function _ _ typeParams _ _ _ => typeParams
  | .cls _ _ _ => []

/-- The result type that an item states. -/
def returnsOf : Item Site → Option (TypeRef Site)
  | .function _ _ _ _ returns _ => returns
  | .cls _ _ _ => none

/-- The statements of an item. -/
def bodyOf : Item Site → List (Stmt Site)
  | .function _ _ _ _ _ body => body
  | .cls _ _ _ => []

/-- The tasks of a reference to a type: reserved names and type parameters are not looked up. -/
def typeTasks (typeParams : List String) (t : TypeRef Site) : List Task :=
  if (reserved? typeParams t.name).isSome then [] else [.look (t.name, .type)]

/-- The tasks of a member of the item with the given number. -/
def memberTasks (kind : Descriptor.Kind) (owner : DescriptorId) (typeParams : List String)
    (m : Typed Site) : List Task :=
  typeTasks typeParams m.type ++ [.declare m.site m.name kind owner]

/-- The tasks of what an item says about itself. -/
def headTasks (i : DescriptorId) (item : Item Site) : List Task :=
  (Typing.members item).flatMap (memberTasks (memberKind item) i (typeParamsOf item)) ++
    (returnsOf item).toList.flatMap (typeTasks (typeParamsOf item))

mutual

/-- The tasks of an expression: operands and arguments come first. -/
def exprTasks : Expr Site → List Task
  | .int _ _ | .bool _ _ | .str _ _ => []
  | .ref _ name => [.look (name, .value)]
  | .call _ callee args => argTasks args ++ [.look (callee, .call)]
  | .binary _ _ lhs rhs => exprTasks lhs ++ exprTasks rhs

/-- The tasks of arguments. -/
def argTasks : List (Expr Site) → List Task
  | [] => []
  | e :: rest => exprTasks e ++ argTasks rest

end

/-- The tasks of a statement in the item with the given number. -/
def stmtTasks (typeParams : List String) (owner : DescriptorId) : Stmt Site → List Task
  | .letBind site name type value =>
    exprTasks value ++ (type.toList.flatMap (typeTasks typeParams) ++
      [.declare site name .localVar owner])
  | .ret _ value => value.toList.flatMap exprTasks
  | .eval _ value => exprTasks value

/-- The tasks of the body of an item. -/
def bodyTasks (i : DescriptorId) (item : Item Site) : List Task :=
  (bodyOf item).flatMap (stmtTasks (typeParamsOf item) i)

/-- The tasks of a unit: what all items say about themselves, and then their bodies. -/
def unitTasks (items : List (Item Site)) : List Task :=
  (items.zipIdx.flatMap fun entry => headTasks entry.2 entry.1) ++
    items.zipIdx.flatMap fun entry => bodyTasks entry.2 entry.1

/-! ## The walk -/

/-- In a unit of `n` items a step follows the given tasks, in whatever surroundings, and its result is
as stated. -/
inductive Follows (n : Nat) :
    ∀ {α : Type}, List Task → (Context → Step α) → (α → Prop) → Prop
  | pure {α : Type} {a : α} {post : α → Prop} : post a → Follows n [] (fun _ => Pure.pure a) post
  | bind {α β : Type} {tasks tasks' : List Task} {x : Context → Step α} {f : α → Context → Step β}
      {post : α → Prop} {post' : β → Prop} :
    Follows n tasks x post → (∀ a, post a → Follows n tasks' (f a) post') →
    Follows n (tasks ++ tasks') (fun ctx => x ctx >>= fun a => f a ctx) post'
  | look (name : String) (kind : ReferenceKind) :
    Follows n [.look (name, kind)] (fun ctx => lookupGlobal ctx name kind) fun _ => True
  | judge {α : Type} {verdict : Descriptor.Table → Verdict α} {post : α → Prop} :
    (∀ D, post (verdict D).value) → Follows n [] (fun ctx => judge ctx verdict) post
  | mark (site : Site) {b : Binding} : b.declares = none →
    Follows n [] (fun _ => finishExpr site b) fun _ => True
  | declare (site : Site) (name : String) (kind : Descriptor.Kind) (owner : DescriptorId) (ty : Ty)
      (flags : Binding.Flags) :
    Follows n [.declare site name kind owner] (fun _ => declare site name kind owner ty flags)
      fun _ => True
  | sign {i : DescriptorId} (site : Site) {f : Descriptor → Descriptor} (ty : Ty) :
    i < n → (∀ d, outline (f d) = outline d) →
    Follows n [] (fun _ => enterSignature i site f ty) fun _ => True

namespace Follows

variable {n : Nat} {α β : Type} {tasks tasks' : List Task} {x y : Context → Step α}
  {f : α → Context → Step β} {post : α → Prop} {post' : β → Prop}

theorem congr (follows : Follows n tasks x post) (same : ∀ ctx, y ctx = x ctx) :
    Follows n tasks y post :=
  (funext same : y = x) ▸ follows

/-- A judgement of which nothing is to be known performs no task. -/
theorem said (n : Nat) (verdict : Descriptor.Table → Verdict α) :
    Follows n [] (fun ctx => Resolution.judge ctx verdict) fun _ => True :=
  .judge fun _ => trivial

/-- Behind the tasks nothing that matters happens. -/
theorem before (first : Follows n tasks x post) (next : ∀ a, post a → Follows n [] (f a) post') :
    Follows n tasks (fun ctx => x ctx >>= fun a => f a ctx) post' := by
  have both := first.bind next
  rwa [List.append_nil] at both

/-- Before the tasks nothing that matters happens. -/
theorem after (first : Follows n [] x post) (next : ∀ a, post a → Follows n tasks (f a) post') :
    Follows n tasks (fun ctx => x ctx >>= fun a => f a ctx) post' :=
  first.bind next

/-- Where a step follows tasks its result is as stated. -/
theorem result (follows : Follows n tasks x post) (ctx : Context) (s : State) :
    post ((x ctx).run s).1 := by
  induction follows generalizing s with
  | pure holds => exact holds
  | bind _ _ first next => exact next _ (first s) _
  | look | mark | declare | sign => trivial
  | judge holds => exact holds s.descriptors

end Follows

/-! ## What resolution follows -/

section Types

variable (n : Nat)

/-- The use of a name performs one task, its look-up, if its verdict introduces no descriptor. -/
theorem resolveUse_follows (site : Site) (name : String) (kind : ReferenceKind)
    {verdict : Option DescriptorId → Descriptor.Table → Verdict Binding}
    (idle : ∀ found D, (verdict found D).value.declares = none) :
    Follows n [.look (name, kind)] (fun ctx => resolveUse ctx site name kind verdict)
      fun _ => True :=
  (Follows.look name kind).before fun found _ =>
    (Follows.judge (idle found)).before fun _ none => .mark site none

/-- A type performs the look-up of its name unless the name is reserved. -/
theorem resolveType_follows (typeParams : List String) (t : TypeRef Site) :
    Follows n (typeTasks typeParams t) (fun ctx => resolveType ctx typeParams t) fun _ => True := by
  unfold typeTasks
  cases reserved : reserved? typeParams t.name with
  | some ty =>
      refine (Follows.mark t.site (b := .typed ty) rfl).congr fun ctx => ?_
      rw [resolveType_eq, reserved]
  | none =>
      refine (resolveUse_follows n t.site t.name .type (typeVerdict_idle t)).congr fun ctx => ?_
      rw [resolveType_eq, reserved]

/-- A member performs the tasks of its type and then its declaration. -/
theorem enterMember_follows (owner : DescriptorId) (kind : Descriptor.Kind)
    (typeParams : List String) (m : Typed Site) :
    Follows n (memberTasks kind owner typeParams m)
      (fun ctx => enterMember ctx owner kind typeParams m) fun _ => True :=
  (resolveType_follows n typeParams m.type).bind fun ty _ =>
    (Follows.declare m.site m.name kind owner ty {}).before fun _ _ => .pure trivial

/-- Members perform their tasks in order, also those whose names are taken. -/
theorem resolveMembers_follows (owner : DescriptorId) (kind : Descriptor.Kind)
    (typeParams : List String) (duplicate : String → String) (members : List (Typed Site))
    (seen : List String) :
    Follows n (members.flatMap (memberTasks kind owner typeParams))
      (fun ctx => resolveMembers ctx owner kind typeParams duplicate seen members)
      fun _ => True := by
  induction members generalizing seen with
  | nil => exact .pure trivial
  | cons m rest ih =>
      rw [List.flatMap_cons]
      refine Follows.congr ?_ fun ctx =>
        resolveMembers_cons ctx owner kind typeParams duplicate seen m rest
      refine (Follows.said n _).after fun _ _ => ?_
      exact (enterMember_follows n owner kind typeParams m).bind fun _ _ =>
        (ih _).before fun _ _ => .pure trivial

theorem resolveReturns_follows (typeParams : List String) (returns : Option (TypeRef Site)) :
    Follows n (returns.toList.flatMap (typeTasks typeParams))
      (fun ctx => resolveReturns ctx typeParams returns) fun _ => True := by
  cases returns with
  | none => exact .pure trivial
  | some t =>
      rw [Option.toList_some, List.flatMap_singleton]
      exact resolveType_follows n typeParams t

variable {n}

/-- The signature of an item performs the tasks of its members and of what it returns. -/
theorem resolveSignature_follows {i : DescriptorId} (inside : i < n) (item : Item Site) :
    Follows n (headTasks i item) (fun ctx => resolveSignature ctx i item) fun _ => True := by
  cases item with
  | cls site name fields =>
      rw [headTasks, returnsOf, Option.toList_none, List.flatMap_nil, List.append_nil]
      refine Follows.congr ?_ fun ctx => resolveSignature_cls ctx i site name fields
      refine (resolveMembers_follows n i .field [] _ fields []).before fun _ _ => ?_
      refine (Follows.sign site _ inside ?_).before fun _ _ => .pure trivial
      exact fun _ => rfl
  | function site name typeParams params returns body =>
      refine Follows.congr ?_ fun ctx =>
        resolveSignature_function ctx i site name typeParams params returns body
      refine (resolveMembers_follows n i .param typeParams _ params []).bind fun _ _ => ?_
      refine (resolveReturns_follows n typeParams returns).before fun _ _ => ?_
      refine (Follows.sign site _ inside ?_).before fun _ _ => .pure trivial
      exact fun _ => rfl

/-- Signatures perform their tasks item by item, and there are as many results as items. -/
theorem resolveSignatures_follows {rest : List (Item Site)} {first : DescriptorId}
    (inside : first + rest.length ≤ n) :
    Follows n ((rest.zipIdx first).flatMap fun entry => headTasks entry.2 entry.1)
      (fun ctx => resolveSignatures ctx first rest) fun more => more.length = rest.length := by
  induction rest generalizing first with
  | nil => exact .pure rfl
  | cons item rest ih =>
      rw [List.length_cons, ← Nat.add_assoc, Nat.add_right_comm] at inside
      rw [List.zipIdx_cons, List.flatMap_cons]
      have here : first < n :=
        Nat.lt_of_lt_of_le (Nat.lt_add_right _ (Nat.lt_succ_self first)) inside
      exact (resolveSignature_follows here item).bind fun _ _ =>
        (ih inside).before fun _ lengths => .pure (congrArg Nat.succ lengths)

end Types

section Bodies

variable (n : Nat) (scope : Scope)

mutual

/-- An expression performs the tasks of what it is made of before its own, by recursion on it. -/
theorem resolveExpr_follows :
    ∀ e : Expr Site, Follows n (exprTasks e) (fun ctx => resolveExpr ctx scope e) fun _ => True
  | .int site _ | .bool site _ | .str site _ => .mark site rfl
  | .ref site name =>
      (resolveUse_follows n site name .value
        fun global => valueVerdict_idle site name ((scope.lookup name).or global)).congr
          fun ctx => resolveExpr_ref ctx scope site name
  | .call site callee args =>
      ((resolveArguments_follows args).bind fun arguments _ =>
        resolveUse_follows n site callee .call (callVerdict_idle site callee arguments)).congr
          fun ctx => resolveExpr_call ctx scope site callee args
  | .binary site op lhs rhs =>
      ((resolveExpr_follows lhs).bind fun l _ => (resolveExpr_follows rhs).before fun r _ =>
        (Follows.judge (binaryVerdict_idle site op l r)).before fun _ idle => .mark site idle).congr
          fun ctx => resolveExpr_binary ctx scope site op lhs rhs

theorem resolveArguments_follows :
    ∀ args : List (Expr Site),
      Follows n (argTasks args) (fun ctx => resolveArguments ctx scope args) fun _ => True
  | [] => .pure trivial
  | e :: rest =>
      (resolveExpr_follows e).bind fun _ _ =>
        (resolveArguments_follows rest).before fun _ _ => .pure trivial

end

variable (frame : Frame)

theorem statedType_follows (type : Option (TypeRef Site)) :
    Follows n (type.toList.flatMap (typeTasks frame.typeParams))
      (fun ctx => statedType ctx frame type) fun _ => True := by
  cases type with
  | none => exact .pure trivial
  | some t =>
      rw [Option.toList_some, List.flatMap_singleton]
      exact (resolveType_follows n frame.typeParams t).before fun _ _ => .pure trivial

/-- A local performs its declaration, whether its value fits or not. -/
theorem declareLocal_follows (site : Site) (name : String) (value : Expr Site) (found : Ty)
    (stated : Option Ty) :
    Follows n [.declare site name .localVar frame.function]
      (fun ctx => declareLocal ctx frame scope site name value found stated) fun _ => True :=
  (Follows.said n _).after fun _ _ =>
    (Follows.declare site name .localVar frame.function _ _).before fun _ _ => .pure trivial

/-- A statement performs the tasks of its value, those of its stated type, and its declaration, as far
as it has them. -/
theorem resolveStmt_follows (stmt : Stmt Site) :
    Follows n (stmtTasks frame.typeParams frame.function stmt)
      (fun ctx => resolveStmt ctx frame scope stmt) fun _ => True := by
  cases stmt with
  | letBind site name type value =>
      refine Follows.congr ?_ fun ctx => resolveStmt_letBind ctx frame scope site name type value
      exact (resolveExpr_follows n scope value).bind fun _ _ =>
        (statedType_follows n frame type).bind fun _ _ =>
          declareLocal_follows n scope frame site name value _ _
  | ret site value =>
      have checked : ∀ place found, Follows n []
          (fun ctx => checkReturn ctx frame scope place found) fun _ => True :=
        fun place found => Follows.said n _
      refine Follows.congr ?_ fun ctx => resolveStmt_ret ctx frame scope site value
      cases value with
      | none => exact checked site .unit
      | some value =>
          rw [stmtTasks, Option.toList_some, List.flatMap_singleton]
          exact (resolveExpr_follows n scope value).before fun _ _ => checked value.site _
  | eval site value => exact (resolveExpr_follows n scope value).before fun _ _ => .pure trivial

/-- Statements perform their tasks in order, whatever scope they begin with. -/
theorem resolveStmts_follows (stmts : List (Stmt Site)) (scope : Scope) :
    Follows n (stmts.flatMap (stmtTasks frame.typeParams frame.function))
      (fun ctx => resolveStmts ctx frame scope stmts) fun _ => True := by
  induction stmts generalizing scope with
  | nil => exact .pure trivial
  | cons stmt rest ih =>
      rw [List.flatMap_cons]
      exact (resolveStmt_follows n scope frame stmt).bind fun next _ => ih next

/-- A body performs the tasks of its statements.  A class has no body. -/
theorem resolveBody_follows (i : DescriptorId) (params : List DescriptorId) (item : Item Site) :
    Follows n (bodyTasks i item) (fun ctx => resolveBody ctx i params item) fun _ => True := by
  cases item with
  | cls site name fields => exact .pure trivial
  | function site name typeParams ps returns body =>
      refine Follows.congr ?_ fun ctx => by rw [resolveBody, descriptor?_eq ctx]
      exact (Follows.said n _).after fun _ _ =>
        resolveStmts_follows n ⟨i, typeParams, _⟩ body _

/-- Bodies perform their tasks item by item, whatever the signatures have come to. -/
theorem resolveBodies_follows (heads : List (Item Site × List DescriptorId))
    (first : DescriptorId) :
    Follows n (((heads.map (·.1)).zipIdx first).flatMap fun entry => bodyTasks entry.2 entry.1)
      (fun ctx => resolveBodies ctx first heads) fun _ => True := by
  induction heads generalizing first with
  | nil => exact .pure trivial
  | cons head rest ih =>
      obtain ⟨item, params⟩ := head
      rw [List.map_cons, List.zipIdx_cons, List.flatMap_cons]
      exact (resolveBody_follows n first params item).bind fun _ _ => ih (first + 1)

/-- The search for repeated names looks up nothing and declares nothing. -/
theorem reportDuplicates_follows (seen : List String) (rest : List (Item Site)) :
    Follows n [] (fun ctx => reportDuplicates ctx seen rest) fun _ => True := by
  induction rest generalizing seen with
  | nil => exact .pure trivial
  | cons item rest ih =>
      refine Follows.congr ?_ fun ctx => reportDuplicates_cons ctx seen item rest
      exact (Follows.said n _).after fun _ _ => ih _

/-- The resolution of a unit follows the tasks of the unit. -/
theorem resolveItems_follows (items : List (Item Site)) :
    Follows items.length (unitTasks items) (fun ctx => resolveItems ctx items) fun _ => True := by
  refine (reportDuplicates_follows _ [] items).after fun _ _ => ?_
  refine (resolveSignatures_follows (Nat.le_of_eq (Nat.zero_add _))).bind fun params lengths => ?_
  have bodies := resolveBodies_follows items.length (items.zip params) 0
  rwa [List.map_fst_zip (Nat.le_of_eq lengths.symm)] at bodies

end Bodies

end StagedCompiler.Resolution
