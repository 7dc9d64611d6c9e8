import StagedCompiler.Proofs.Analysis.Tasks

/-!
# Resolution only adds errors

Whatever a step of resolution meets, it keeps the diagnostics that there are and adds errors behind
them (`Grows`): its actions do, and so does all that follows tasks (`Follows.grows`).  So a run without
diagnostics had none at any point on its way.
-/

namespace StagedCompiler.Resolution

/-- `s'` has the diagnostics of `s` and further errors behind them. -/
def Reports (s s' : State) : Prop :=
  ∃ more, s'.diagnostics = s.diagnostics ++ more ∧ ∀ d ∈ more, d.severity = .error

theorem Reports.of_eq {s s' : State} (same : s'.diagnostics = s.diagnostics) : Reports s s' :=
  ⟨[], by rw [same, List.append_nil], by simp⟩

/-- Errors behind errors are errors. -/
theorem Reports.trans {s s' s'' : State} (first : Reports s s') (second : Reports s' s'') :
    Reports s s'' := by
  obtain ⟨early, appended, errors⟩ := first
  obtain ⟨late, appended', errors'⟩ := second
  refine ⟨early ++ late, by rw [appended', appended, List.append_assoc], fun d member => ?_⟩
  rcases List.mem_append.mp member with here | there
  · exact errors d here
  · exact errors' d there

/-- If no diagnostic is there at last, none was there before. -/
theorem Reports.silent {s s' : State} (reports : Reports s s') (silent : s'.diagnostics = []) :
    s.diagnostics = [] := by
  obtain ⟨more, appended, _⟩ := reports
  rw [silent] at appended
  exact (List.append_eq_nil_iff.mp appended.symm).1

/-- A step that only adds errors, from whatever state. -/
def Grows {α : Type} (x : Step α) : Prop := ∀ s, Reports s (x.run s).2

namespace Grows

variable {α β : Type}

theorem pure (a : α) : Grows (Pure.pure a : Step α) := fun _ => .of_eq rfl

theorem get : Grows (MonadState.get : Step State) := fun _ => .of_eq rfl

theorem modify {f : State → State} (same : ∀ s, (f s).diagnostics = s.diagnostics) :
    Grows (modify f : Step PUnit) := fun s => .of_eq (same s)

theorem bind {x : Step α} {f : α → Step β} (first : Grows x) (next : ∀ a, Grows (f a)) :
    Grows (x >>= f) :=
  fun s => (first s).trans (next (x.run s).1 (x.run s).2)

theorem ite {c : Prop} [Decidable c] {x y : Step α} (first : Grows x) (second : Grows y) :
    Grows (if c then x else y) := by
  split
  · exact first
  · exact second

end Grows

section Primitives

variable (ctx : Context) (site : Source.Site)

/-- A report is an error, behind all diagnostics that there are. -/
theorem report_grows (code message : String) : Grows (report ctx code site message) := by
  intro s
  refine ⟨[_], rfl, fun d member => ?_⟩
  rw [List.mem_singleton.mp member]
  rfl

/-- After a report there are diagnostics. -/
theorem report_not_silent (code message : String) (s : State) :
    ((report ctx code site message).run s).2.diagnostics ≠ [] :=
  List.append_ne_nil_of_right_ne_nil _ (List.cons_ne_nil _ _)

theorem bind_grows (binding : Binding) : Grows (bind site binding) := .modify fun _ => rfl

theorem flag_grows (flags : Binding.Flags) : Grows (flag site flags) := .modify fun _ => rfl

theorem describe_grows (d : Descriptor) : Grows (describe d) := fun _ => .of_eq rfl

theorem finishExpr_grows (binding : Binding) : Grows (finishExpr site binding) :=
  (bind_grows site binding).bind fun _ => .pure _

end Primitives

/-! ## Names and types -/

/-- The only thing that is reported of resolvers is an error of the host about an offer that is no
good. -/
theorem askResolvers_grows (ctx : Context) (name : String) (kind : ReferenceKind)
    (resolvers : List (Registry.Record × Extension.Resolver)) :
    Grows (askResolvers ctx name kind resolvers) := by
  induction resolvers with
  | nil => exact .pure _
  | cons first rest ih =>
      rcases first with ⟨record, resolver⟩
      refine Grows.get.bind fun s => (Grows.modify fun _ => by rfl).bind fun _ => ?_
      cases record.answer (resolver.resolve ⟨name, kind, s.descriptors⟩) with
      | error fault => exact .modify fun _ => rfl
      | ok offer =>
          cases offer with
          | none => exact ih
          | some offer =>
              refine .ite ih (.ite (.pure _) ?_)
              exact (describe_grows offer).bind fun id => .modify fun _ => rfl

/-- A look-up reports nothing but what asking resolvers does. -/
theorem lookupGlobal_grows (ctx : Context) (name : String) (kind : ReferenceKind) :
    Grows (lookupGlobal ctx name kind) := by
  have consulted : Grows (consult ctx name kind) := by
    refine Grows.get.bind fun s => .ite (.pure _) ?_
    exact (Grows.modify fun _ => by rfl).bind fun _ => askResolvers_grows ctx name kind _
  exact consulted.bind fun _ => Grows.get.bind fun _ => .pure _

/-! ## All of resolution -/

/-- Complaints are errors. -/
theorem complain_grows (ctx : Context) (complaints : List Complaint) :
    Grows (complain ctx complaints) := by
  induction complaints with
  | nil => exact .pure _
  | cons c rest ih =>
      refine (report_grows ctx c.site c.code c.message).bind fun _ => ?_
      exact Grows.ite ((flag_grows c.site mismatch).bind fun _ => ih) ih

/-- Verdicts only add errors. -/
theorem judge_grows {α : Type} (ctx : Context) (verdict : Descriptor.Table → Verdict α) :
    Grows (judge ctx verdict) :=
  Grows.get.bind fun _ => (complain_grows ctx _).bind fun _ => .pure _

theorem declare_grows (site : Source.Site) (name : String) (kind : Descriptor.Kind)
    (owner : DescriptorId) (ty : Ty) (flags : Binding.Flags) :
    Grows (declare site name kind owner ty flags) :=
  (describe_grows _).bind fun _ => (bind_grows site _).bind fun _ => .pure _

theorem enterSignature_grows (i : DescriptorId) (site : Source.Site) (f : Descriptor → Descriptor)
    (ty : Ty) : Grows (enterSignature i site f ty) :=
  (Grows.modify fun _ => by rfl).bind fun _ => bind_grows site _

/-- What follows tasks only adds errors. -/
theorem Follows.grows {n : Nat} {α : Type} {tasks : List Task} {x : Context → Step α}
    {post : α → Prop} (follows : Follows n tasks x post) (ctx : Context) : Grows (x ctx) := by
  induction follows with
  | pure => exact .pure _
  | bind first _ grows next =>
      exact fun s => (grows s).trans (next _ (first.result ctx s) _)
  | look name kind => exact lookupGlobal_grows ctx name kind
  | judge => exact judge_grows ctx _
  | mark site => exact finishExpr_grows site _
  | declare site name kind owner ty flags => exact declare_grows site name kind owner ty flags
  | sign site => exact enterSignature_grows _ site _ _

/-! ## What holds behind a step -/

/-- What holds of the result of a step and of the state behind it. -/
def Leaves {α : Type} (x : Step α) (s : State) (post : α → State → Prop) : Prop :=
  post (x.run s).1 (x.run s).2

/-- What holds of the result of a step and of the state behind it, unless there are diagnostics. -/
def Passes {α : Type} (x : Step α) (s : State) (post : α → State → Prop) : Prop :=
  (x.run s).2.diagnostics = [] → post (x.run s).1 (x.run s).2

section Behind

variable {α β : Type} {x : Step α} {f : α → Step β} {s : State} {post post' : α → State → Prop}
  {last : β → State → Prop}

/-- What a step leaves behind is what the next one starts from. -/
theorem Leaves.bind (first : Leaves x s post) (next : ∀ a s', post a s' → Leaves (f a) s' last) :
    Leaves (x >>= f) s last :=
  next _ _ first

theorem Leaves.mono (leaves : Leaves x s post) (weaker : ∀ a s', post a s' → post' a s') :
    Leaves x s post' :=
  weaker _ _ leaves

theorem Leaves.pure {a : α} (holds : post a s) : Leaves (Pure.pure a) s post := holds

theorem get_leaves (s : State) : Leaves get s fun a s' => a = s ∧ s' = s := ⟨rfl, rfl⟩

theorem modify_leaves (f : State → State) (s : State) : Leaves (modify f) s fun _ s' => s' = f s :=
  rfl

/-- Behind a step of which all is known, it is enough to know what the next one leaves behind if it
reports nothing. -/
theorem Leaves.andThen (first : Leaves x s post)
    (next : ∀ a s', post a s' → Passes (f a) s' last) : Passes (x >>= f) s last :=
  next _ _ first

theorem Leaves.passes (leaves : Leaves x s post) : Passes x s post := fun _ => leaves

theorem Passes.mono (passes : Passes x s post) (weaker : ∀ a s', post a s' → post' a s') :
    Passes x s post' :=
  fun silent => weaker _ _ (passes silent)

theorem Passes.pure {a : α} (holds : post a s) : Passes (Pure.pure a) s post := fun _ => holds

/-- If nothing is reported in the end then nothing is reported on the way. -/
theorem Passes.bind (first : Passes x s post) (grows : ∀ a, Grows (f a))
    (next : ∀ a s', post a s' → Passes (f a) s' last) : Passes (x >>= f) s last :=
  fun silent => next _ _ (first ((grows _ (x.run s).2).silent silent)) silent

end Behind

/-- After complaints there are diagnostics. -/
theorem complain_not_silent (ctx : Context) {complaints : List Complaint} (some : complaints ≠ [])
    (s : State) : ((complain ctx complaints).run s).2.diagnostics ≠ [] := by
  cases complaints with
  | nil => exact absurd rfl some
  | cons c rest =>
      have later : Grows (do
          if c.remarked then flag c.site mismatch
          complain ctx rest) :=
        Grows.ite ((flag_grows c.site mismatch).bind fun _ => complain_grows ctx rest)
          (complain_grows ctx rest)
      exact fun silent => report_not_silent ctx c.site c.code c.message s
        ((later _).silent silent)

/-- What is said of a construct is said first, and then the work goes on with what follows all the
same. -/
theorem Leaves.judge {α β : Type} {ctx : Context} {verdict : Descriptor.Table → Verdict α}
    {f : α → Step β} {s : State} {post : β → State → Prop}
    (next : Leaves (complain ctx (verdict s.descriptors).complaints >>= fun _ =>
      f (verdict s.descriptors).value) s post) : Leaves (Resolution.judge ctx verdict >>= f) s post := by
  rw [Leaves, judge_run]
  exact next

/-- A verdict with which a step can go on is one without complaints. -/
theorem judge_passes {α : Type} (ctx : Context) (verdict : Descriptor.Table → Verdict α) (s : State) :
    Passes (judge ctx verdict) s fun a s' =>
      s' = s ∧ (verdict s.descriptors).complaints = [] ∧ a = (verdict s.descriptors).value := by
  intro silent
  have complained : ((judge ctx verdict).run s).2 =
    ((complain ctx (verdict s.descriptors).complaints).run s).2 := rfl
  rw [complained] at silent ⊢
  by_cases none : (verdict s.descriptors).complaints = []
  · rw [none]
    exact ⟨rfl, rfl, rfl⟩
  · exact absurd silent (complain_not_silent ctx none s)

end StagedCompiler.Resolution
