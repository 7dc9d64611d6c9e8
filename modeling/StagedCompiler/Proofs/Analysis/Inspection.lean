import StagedCompiler.Proofs.Analysis.Agreement
import StagedCompiler.Proofs.Analysis.Blame
import StagedCompiler.Proofs.Catalog.BuiltIn

/-!
# What checkers see

Every checker of declarations is shown every declaration of a unit, and every checker of calls every call
whose callee means something, in document order and whatever else is wrong with the unit
(`analyze_inspects_all`).

This comes from two facts about resolution.  Every declaration is bound to the descriptor that it
declares, on every path that errors take (`declarations_shown`), and a call is bound to its callee if and
only if the callee means something (`calls_shown`).  What checkers report is added to the log once, in
their own name, behind what the host reports.
-/

namespace StagedCompiler

namespace Checks

/-- What a checker reports. -/
def Invocation.findings (i : Invocation) : List Extension.Finding :=
  match i.answer with
  | .ok findings => findings
  | .error _ => []

/-- Checkers that answer are all at work, and what they report is collected. -/
theorem trace_calm {is : List Invocation} (calm : ∀ i ∈ is, ∃ findings, i.answer = .ok findings) :
    trace is = (is, .ok (is.flatMap fun i =>
      i.findings.map (·.diagnostic (.extension i.record.id.text i.record.sequence)))) := by
  induction is with
  | nil => rfl
  | cons i rest ih =>
      rw [List.forall_mem_cons] at calm
      obtain ⟨findings, answered⟩ := calm.1
      rw [trace, i.run_eq, answered, ih calm.2, List.flatMap_cons, Invocation.findings, answered]
      rfl

end Checks

namespace Analysis

open Resolution
open Source (Site Expr Stmt)

/-- No extension that takes part in an analysis gives up. -/
structure Unfailing (registry : Registry) : Prop where
  resolvers : ∀ entry ∈ registry.resolvers, ∀ request, ∃ offer,
    entry.2.resolve request = .ok offer
  declarationCheckers : ∀ entry ∈ registry.declarationCheckers, ∀ name site, ∃ findings,
    entry.2.check name site = .ok findings
  callCheckers : ∀ entry ∈ registry.callCheckers, ∀ name site, ∃ findings,
    entry.2.check name site = .ok findings

/-! ## Sites -/

/-- A declaration is shown with the descriptor that it declares. -/
inductive ShowsDeclaration (tree : Tree) (s : State) :
    Source.Node → Extension.DeclarationSite → Prop
  | intro {n : Source.Node} {i : DescriptorId} {d : Descriptor} :
    declared? s n.site = some i → s.descriptors.get? i = some d →
    n.declares? = some d.name → d.origin = .source n.id →
    ShowsDeclaration tree s n ⟨n, d, tree.location n.site, s.descriptors⟩

/-- A call is shown with what its callee means and with the number of its arguments. -/
inductive ShowsCall (tree : Tree) (s : State) : Source.Node → Extension.CallSite → Prop
  | intro {place : Site} {callee : String} {args : List (Expr Site)} {i : DescriptorId}
      {d : Descriptor} :
    globalTarget tree.items s callee .call = some i → s.descriptors.get? i = some d →
    ShowsCall tree s (.expr (.call place callee args))
      ⟨place.id, d, i, args.length, tree.location place, s.descriptors⟩

/-- What the callee of a call means. -/
def callee? (tree : Tree) (s : State) : Source.Node → Option DescriptorId
  | .expr (.call _ callee _) => globalTarget tree.items s callee .call
  | _ => none

section Sites

variable {tree : Tree} {s : State}

/-- A filter and a partial map that keep the same elements give related lists. -/
theorem forall₂_filterMap {α β : Type} {R : α → β → Prop} {p : α → Bool} {f : α → Option β}
    {l : List α} (each : ∀ a ∈ l, (p a = true ∧ ∃ b, f a = some b ∧ R a b) ∨
      (p a = false ∧ f a = none)) :
    List.Forall₂ R (l.filter p) (l.filterMap f) := by
  induction l with
  | nil => exact .nil
  | cons a rest ih =>
      rw [List.forall_mem_cons] at each
      rcases each.1 with ⟨holds, b, is, related⟩ | ⟨fails, none⟩
      · rw [List.filter_cons_of_pos holds, List.filterMap_cons_some is]
        exact .cons related (ih each.2)
      · rw [List.filter_cons_of_neg (by rw [fails]; exact Bool.false_ne_true),
          List.filterMap_cons_none none]
        exact ih each.2

theorem declares?_of_category {n : Source.Node} (declaration : n.category = .declaration) :
    ∃ name, n.declares? = some name := by
  cases n with
  | item i => exact ⟨_, rfl⟩
  | field f => exact ⟨_, rfl⟩
  | param p => exact ⟨_, rfl⟩
  | typeRef t => cases declaration
  | expr e => cases declaration
  | stmt stmt =>
      cases stmt with
      | letBind site name type value => exact ⟨_, rfl⟩
      | ret site value => cases declaration
      | eval site value => cases declaration

/-- Declaration checkers are shown the declarations of the tree in document order. -/
theorem declarations_shown (linked : ∀ n ∈ tree.nodes, Linked s n) :
    List.Forall₂ (ShowsDeclaration tree s) (tree.nodes.filter (·.category == .declaration))
      (Checks.declarations tree s.bindings s.descriptors) := by
  refine forall₂_filterMap fun n member => ?_
  by_cases declaration : n.category = .declaration
  · obtain ⟨name, declares⟩ := declares?_of_category declaration
    obtain ⟨i, d, bound, entry, named, origin⟩ := (linked n member).declared declares
    refine .inl ⟨beq_iff_eq.mpr declaration, _, ?_,
      .intro bound entry (named ▸ declares) origin⟩
    obtain ⟨b, there, is⟩ := Option.bind_eq_some_iff.mp bound
    have there : s.bindings.get? n.id = some b := there
    rw [if_pos (beq_iff_eq.mpr declaration), there]
    show (b.declares.bind s.descriptors.get?).bind _ = _
    rw [is, Option.bind_some, entry]
    rfl
  · have other := beq_false_of_ne declaration
    exact .inr ⟨other, by rw [if_neg (by rw [other]; exact Bool.false_ne_true)]⟩

/-- Call checkers are shown the calls of the tree that lead somewhere, in document order. -/
theorem calls_shown {draft : Source.Draft} {unit : String} {registry : Registry}
    (assembled : draft.assemble unit = .ok tree) (calm : Calm (contextOf tree registry)) :
    List.Forall₂ (ShowsCall tree (run tree registry))
      (tree.nodes.filter fun n => (callee? tree (run tree registry) n).isSome)
      (Checks.calls tree (run tree registry).bindings (run tree registry).descriptors) := by
  have numbers := Source.assemble_numbers assembled
  have links := run_links numbers registry
  refine forall₂_filterMap fun n member => ?_
  cases n with
  | expr e =>
      cases e with
      | call place callee args =>
          obtain ⟨b, there, fits⟩ := (call_bears numbers calm member).bound
          dsimp only [callee?]
          cases means : globalTarget tree.items (run tree registry) callee .call with
          | none =>
              rw [means] at fits
              refine .inr ⟨rfl, ?_⟩
              rw [there]
              show b.target.bind _ = none
              rw [fits.2.1]
              rfl
          | some i =>
              rw [means] at fits
              obtain ⟨d, entry⟩ := contains_iff.mp ((links.steady.known _ b there).1 i fits.1)
              refine .inl ⟨rfl, _, ?_, .intro means entry⟩
              rw [there]
              show b.target.bind _ = _
              rw [fits.1, Option.bind_some, entry]
              rfl
      | int | bool | str | ref | binary => exact .inr ⟨rfl, rfl⟩
  | item | field | param | typeRef | stmt => exact .inr ⟨rfl, rfl⟩

end Sites

/-! ## Analyses -/

/-- What an analysis shows to checkers and what becomes of their findings. -/
structure Inspects (tree : Tree) (registry : Registry) (log : Diagnostic.Log)
    (declarations : List Extension.DeclarationSite) (calls : List Extension.CallSite) : Prop where
  everyDeclaration : List.Forall₂ (ShowsDeclaration tree (run tree registry))
    (tree.nodes.filter (·.category == .declaration)) declarations
  everyCall : List.Forall₂ (ShowsCall tree (run tree registry))
    (tree.nodes.filter fun n => (callee? tree (run tree registry) n).isSome) calls
  /-- Each checker of declarations looks at all declarations, and then each checker of calls at all
  calls, in the order of the registry. -/
  order : checkers tree registry (run tree registry) =
    (registry.declarationCheckers.flatMap fun (record, checker) =>
      declarations.map (.declaration record checker)) ++
    registry.callCheckers.flatMap fun (record, checker) => calls.map (.call record checker)
  /-- Whether or not the unit is accepted, what checkers find is added under their identities and
  ranks. -/
  outcome : ∃ outcome, (analyze tree registry log).outcome = .ok outcome
  found : (analyze tree registry log).log.items = log.items ++ ((run tree registry).diagnostics ++
    (checkers tree registry (run tree registry)).flatMap fun i =>
      i.findings.map (·.diagnostic (.extension i.record.id.text i.record.sequence)))
  host : ∀ d ∈ (run tree registry).diagnostics, d.reporter = .host

/-- If no checker gives up, all invocations have findings. -/
theorem answers_of_unfailing {registry : Registry} (unfailing : Unfailing registry) (tree : Tree)
    (b : Bindings) (D : Descriptor.Table) :
    ∀ i ∈ Checks.invocations tree b D registry, ∃ findings, i.answer = .ok findings := by
  refine List.forall_mem_append.mpr ⟨fun i member => ?_, fun i member => ?_⟩
  · obtain ⟨entry, among, here⟩ := List.mem_flatMap.mp member
    obtain ⟨site, _, rfl⟩ := List.mem_map.mp here
    exact unfailing.declarationCheckers entry among _ site
  · obtain ⟨entry, among, here⟩ := List.mem_flatMap.mp member
    obtain ⟨site, _, rfl⟩ := List.mem_map.mp here
    exact unfailing.callCheckers entry among _ site

/-- Where no extension gives up, checkers see every declaration and every call that means something
exactly once, and their findings are logged exactly once. -/
theorem analyze_inspects_all {draft : Source.Draft} {unit : String} {tree : Tree}
    (assembled : draft.assemble unit = .ok tree) {registry : Registry}
    (unfailing : Unfailing registry) {log : Diagnostic.Log} (unsealed : log.isSealed = false) :
    ∃ declarations calls, Inspects tree registry log declarations calls := by
  have calm : Calm (contextOf tree registry) := unfailing.resolvers
  have numbers := Source.assemble_numbers assembled
  have links := run_links numbers registry
  have silent : (run tree registry).fault = none := links.steady.fault calm
  have traced := Checks.trace_calm (answers_of_unfailing unfailing tree (run tree registry).bindings
    (run tree registry).descriptors)
  have all : checkers tree registry (run tree registry) =
      Checks.invocations tree (run tree registry).bindings (run tree registry).descriptors
        registry := by
    rw [checkers, silent, Option.isSome_none, if_neg Bool.false_ne_true, traced]
  have ran := (Checks.trace_snd _).symm.trans (congrArg Prod.snd traced)
  have same : Padded SameResolver (fun b => Useless b.2) registry.resolvers registry.resolvers := by
    have each : ∀ entry : Registry.Record × Extension.Resolver,
        SameResolver (id entry) (id entry) := fun _ => ⟨rfl, rfl, rfl⟩
    have padded : Padded SameResolver (fun b => Useless b.2) (registry.resolvers.map id)
        (registry.resolvers.map id) := .map_map each _
    rwa [List.map_id] at padded
  rcases conclude_cases registry unsealed links.freeze_eq with ⟨fault, stop | ⟨_, stop⟩, _⟩ |
    ⟨checked, ended, log', _, collected, concluded, items, _⟩
  · cases silent.symm.trans stop
  · cases ran.symm.trans stop
  · obtain rfl := Except.ok.inj (ran.symm.trans collected)
    refine ⟨_, _, declarations_shown links.linked, calls_shown assembled calm, all, ⟨ended, ?_⟩, ?_,
      (run_agree tree same).2⟩
    · rw [outcome_analyze, concluded]
    · rw [log_analyze, concluded, all]
      exact items

/-- A checker that remarks on every call. -/
def clerk : Extension.CallChecker where
  name := "clerk"
  check name site := .ok [⟨.info, name, site.callee.name, site.location⟩]

/-- The registry of the lender, the census and the clerk. -/
def attendedRegistry : Registry :=
  (lendingRegistry.push ⟨"desk", "clerk"⟩ (.callChecker clerk) none none).push
    ⟨"desk", "census"⟩ (.declarationChecker census) none none

theorem attendedRegistry_unfailing : Unfailing attendedRegistry := by
  have extensions : ∀ record ∈ attendedRegistry.records, record.extension = .resolver lender ∨
      record.extension = .callChecker clerk ∨ record.extension = .declarationChecker census := by
    intro record member
    rcases member with _ | ⟨_, _ | ⟨_, _ | ⟨_, none⟩⟩⟩
    · exact .inl rfl
    · exact .inr (.inl rfl)
    · exact .inr (.inr rfl)
    · cases none
  refine ⟨fun entry member => ?_, fun entry member => ?_, fun entry member => ?_⟩
  · obtain ⟨among, is⟩ := Registry.mem_resolvers member
    rcases extensions _ among with same | same | same
    · rw [Extension.resolver.inj (is.symm.trans same)]
      exact fun _ => ⟨_, rfl⟩
    · cases is.symm.trans same
    · cases is.symm.trans same
  · obtain ⟨among, is⟩ := Registry.mem_declarationCheckers member
    rcases extensions _ among with same | same | same
    · cases is.symm.trans same
    · cases is.symm.trans same
    · rw [Extension.declarationChecker.inj (is.symm.trans same)]
      exact fun _ _ => ⟨_, rfl⟩
  · obtain ⟨among, is⟩ := Registry.mem_callCheckers member
    rcases extensions _ among with same | same | same
    · cases is.symm.trans same
    · rw [Extension.callChecker.inj (is.symm.trans same)]
      exact fun _ _ => ⟨_, rfl⟩
    · cases is.symm.trans same

theorem analyze_inspects_all_lending : ∃ tree, lending.assemble "lending" = .ok tree ∧
    Unfailing attendedRegistry ∧ startedLog.isSealed = false ∧
    ((analyze tree attendedRegistry startedLog).log.items.map fun d =>
        (d.code, d.location.order, d.reporter)) =
      [ ("W0001", 0, ⟨"host", 0⟩),
        ("E0001", 3, ⟨"host", 0⟩), ("E0002", 6, ⟨"host", 0⟩), ("E0004", 12, ⟨"host", 0⟩),
        ("E0002", 17, ⟨"host", 0⟩), ("E0002", 19, ⟨"host", 0⟩),
        ("CENSUS", 0, ⟨"desk/census", 3⟩), ("CENSUS", 1, ⟨"desk/census", 3⟩),
        ("CENSUS", 3, ⟨"desk/census", 3⟩), ("CENSUS", 5, ⟨"desk/census", 3⟩),
        ("CENSUS", 8, ⟨"desk/census", 3⟩), ("desk/clerk", 16, ⟨"desk/clerk", 2⟩) ] ∧
    ∃ declarations calls, Inspects tree attendedRegistry startedLog declarations calls := by
  have assembled : lending.assemble "lending" = .ok _ := rfl
  exact ⟨_, assembled, attendedRegistry_unfailing, rfl, by decide +kernel,
    analyze_inspects_all assembled attendedRegistry_unfailing rfl⟩

end Analysis

end StagedCompiler
