import StagedCompiler.Proofs.Analysis.Acceptance
import StagedCompiler.Proofs.Analysis.Hearings

/-!
# Who is blamed when an analysis fails

`works` lists the extensions at work in an analysis, one after another: the resolvers in the hearings of
its resolution, and then the checkers as far as they get.  `Ends` says that the first of them to panic is
the last one at work and is blamed, or that nobody panics.

A hearing ends so (`hearing_ends`), and so do the checks (`trace_ends`).  After a panic nobody is heard
any more and there are no checks, so the whole analysis ends so, and it fails for no other reason: the
bindings of an assembled unit are complete (`Links.freeze_eq`) and an unsealed log takes everything.  An
analysis that fails leaves the log as it was (`analyze_blames`).
-/

namespace StagedCompiler

/-! ## Checkers at work -/

namespace Checks

namespace Invocation

/-- The record of the checker. -/
def record : Invocation → Registry.Record
  | .declaration record _ _ | .call record _ _ => record

/-- What the checker answers. -/
def answer : Invocation → Except Panic (List Extension.Finding)
  | .declaration record checker site => checker.check record.reporter.name site
  | .call record checker site => checker.check record.reporter.name site

/-- A checker that gives up is to blame, and else its findings are reported under its name. -/
theorem run_eq (i : Invocation) : i.run =
    (i.record.answer i.answer).map fun findings => findings.map (·.diagnostic i.record.reporter) := by
  cases i with
  | declaration record checker site =>
      rw [run, Invocation.record, answer]
      cases checker.check record.reporter.name site <;> rfl
  | call record checker site =>
      rw [run, Invocation.record, answer]
      cases checker.check record.reporter.name site <;> rfl

end Invocation

/-- Run the checkers one after another, and note who was at work. -/
def trace : List Invocation → List Invocation × Except Fault (List Diagnostic)
  | [] => ([], .ok [])
  | i :: rest =>
    match i.run with
    | .error fault => ([i], .error fault)
    | .ok diagnostics => (i :: (trace rest).1, (trace rest).2.map (diagnostics ++ ·))

/-- Notes change nothing. -/
theorem trace_snd (is : List Invocation) : (trace is).2 = runChecks is := by
  induction is with
  | nil => rfl
  | cons i rest ih =>
      rw [trace, runChecks, ← ih]
      cases i.run with
      | error fault => rfl
      | ok diagnostics => cases (trace rest).2 <;> rfl

end Checks

namespace Analysis

open Resolution

/-! ## Extensions at work -/

/-- Why something failed. -/
def failure? {ε α : Type} : Except ε α → Option ε
  | .error problem => some problem
  | .ok _ => none

/-- An extension at work: a resolver that is asked for a name, or a checker that looks at a site. -/
inductive Work : Type
  | resolve (record : Registry.Record) (resolver : Extension.Resolver) (request : Extension.Request)
  | check (i : Checks.Invocation)

namespace Work

/-- The record of the extension. -/
def record : Work → Registry.Record
  | .resolve record _ _ => record
  | .check i => i.record

/-- The panic of the extension, if it gives up. -/
def panic? : Work → Option Panic
  | .resolve _ resolver request => failure? (resolver.resolve request)
  | .check i => failure? i.answer

/-- The fault that is blamed on the extension: its identity, where it takes part, and what it left
behind. -/
def blame (w : Work) (panic : Panic) : Fault :=
  .extensionPanicked w.record.id.text w.record.point panic.message

/-- The consultation that a resolver at work amounts to. -/
def consultation? : Work → Option Consultation
  | .resolve record _ request =>
    some ⟨record.id, request.name, request.kind, request.descriptors.size⟩
  | .check _ => none

end Work

/-- Nobody panics, or only the last one, which is blamed. -/
inductive Ends : List Work → Option Fault → Prop
  | quiet {works : List Work} : (∀ w ∈ works, w.panic? = none) → Ends works none
  | panic {before : List Work} {culprit : Work} {panic : Panic} :
    (∀ w ∈ before, w.panic? = none) → culprit.panic? = some panic →
    Ends (before ++ [culprit]) (some (culprit.blame panic))

namespace Ends

variable {works works' : List Work} {fault : Option Fault}

/-- If nobody is to blame, nobody gave up. -/
theorem quiet_of_none (ends : Ends works none) : ∀ w ∈ works, w.panic? = none := by
  cases ends with
  | quiet quiet => exact quiet

/-- What comes behind quiet work ends as it does on its own. -/
theorem append (quiet : ∀ w ∈ works, w.panic? = none) (ends : Ends works' fault) :
    Ends (works ++ works') fault := by
  cases ends with
  | quiet more => exact .quiet (List.forall_mem_append.mpr ⟨quiet, more⟩)
  | panic more panics =>
      rw [← List.append_assoc]
      exact .panic (List.forall_mem_append.mpr ⟨quiet, more⟩) panics

theorem cons {w : Work} (quiet : w.panic? = none) (ends : Ends works fault) :
    Ends (w :: works) fault := by
  have alone : ∀ v ∈ [w], v.panic? = none := List.forall_mem_singleton.mpr quiet
  exact append alone ends

/-- Who gives up is to blame. -/
theorem culprit {w : Work} {panic : Panic} (panics : w.panic? = some panic) :
    Ends [w] (some (w.blame panic)) := by
  have ends : Ends ([] ++ [w]) (some (w.blame panic)) := .panic (fun _ none => by cases none) panics
  exact ends

/-- There is a fault if and only if somebody panics. -/
theorem isSome_iff (ends : Ends works fault) :
    fault.isSome ↔ ∃ w ∈ works, w.panic?.isSome := by
  cases ends with
  | quiet quiet =>
      refine ⟨fun none => (by cases none), fun post => ?_⟩
      obtain ⟨w, member, panics⟩ := post
      rw [quiet w member] at panics
      cases panics
  | @panic before culprit _ _ panics =>
      refine ⟨fun _ => ⟨culprit, ?_, Option.isSome_of_eq_some panics⟩, fun _ => rfl⟩
      exact List.mem_append_right _ (List.mem_singleton_self culprit)

end Ends

/-! ## Hearings and checks -/

/-- A resolver at work in a hearing. -/
def workAt (h : Hearing) (entry : Registry.Record × Extension.Resolver) : Work :=
  .resolve entry.1 entry.2 h.request

/-- The fault among the possible ends of a hearing. -/
def faultOf : Option (Except Fault Descriptor) → Option Fault
  | some (.error fault) => some fault
  | some (.ok _) | none => none

/-- A resolver that panics ends the hearing with a fault that is blamed on it. -/
theorem faultOf_reply? (h : Hearing) (entry : Registry.Record × Extension.Resolver) :
    faultOf (h.reply? entry) = (workAt h entry).panic?.map (workAt h entry).blame := by
  have panics : (workAt h entry).panic? = failure? (entry.2.resolve h.request) := rfl
  rw [Hearing.reply?, panics]
  cases entry.2.resolve h.request with
  | error panic => rfl
  | ok offer =>
      cases offer with
      | none => rfl
      | some offer =>
          show faultOf (if offer.name = h.key.1 then some (.ok offer) else none) = none
          split <;> rfl

/-- Of the resolvers that are asked only the last one can have given up. -/
theorem hearing_ends (h : Hearing) (resolvers : List (Registry.Record × Extension.Resolver)) :
    Ends ((through (fun entry => (h.reply? entry).isSome) resolvers).map (workAt h))
      (faultOf (resolvers.findSome? h.reply?)) := by
  induction resolvers with
  | nil => exact .quiet fun _ none => by cases none
  | cons entry rest ih =>
      have blamed := faultOf_reply? h entry
      rw [List.findSome?_cons, through]
      cases reply : h.reply? entry with
      | none =>
          rw [reply] at blamed
          rw [Option.isSome_none, if_neg Bool.false_ne_true, List.map_cons]
          exact ih.cons (Option.map_eq_none_iff.mp blamed.symm)
      | some end? =>
          rw [reply] at blamed
          rw [Option.isSome_some, if_pos rfl, List.map_singleton]
          cases panics : (workAt h entry).panic? with
          | none =>
              rw [panics] at blamed
              exact blamed ▸ .quiet (List.forall_mem_singleton.mpr panics)
          | some panic =>
              rw [panics] at blamed
              exact blamed ▸ .culprit panics

/-- A run through tasks ends with the fault of the first resolver that gives up, and nobody is asked
behind it. -/
theorem performs_ends {ctx : Context} {tasks : List Task} {hearings : List Hearing} {s s' : State}
    (performs : Performs ctx tasks hearings s s') (start : s.fault = none) :
    Ends (hearings.flatMap fun h => (h.asked ctx).map (workAt h)) s'.fault := by
  induction performs with
  | done => exact start ▸ .quiet fun _ none => by cases none
  | rest rests _ ih => exact ih (rests.fault.trans start)
  | known _ _ ih => exact ih start
  | @ask key _ _ s _ _ _ performs ih =>
      have here := hearing_ends ⟨key, s.descriptors⟩ ctx.resolvers
      rw [List.flatMap_cons]
      have fault : (heard ctx ⟨key, s.descriptors⟩ s).fault =
        faultOf (ctx.resolvers.findSome? (Hearing.mk key s.descriptors).reply?) := rfl
      cases stop : faultOf (ctx.resolvers.findSome? (Hearing.mk key s.descriptors).reply?) with
      | none =>
          rw [stop] at here
          exact .append here.quiet_of_none (ih (fault.trans stop))
      | some problem =>
          rw [stop] at here
          obtain ⟨rfl, stays⟩ := performs.stopped (fault.trans stop)
          rw [List.flatMap_nil, List.append_nil, stays]
          exact here
  | declare _ _ _ _ _ ih => exact ih start

/-- A checker fails exactly if it gives up. -/
theorem failure?_run (i : Checks.Invocation) :
    failure? i.run = (Work.check i).panic?.map (Work.check i).blame := by
  rw [i.run_eq, Work.panic?]
  cases i.answer <;> rfl

/-- Of the checkers at work only the last one can have given up. -/
theorem trace_ends (is : List Checks.Invocation) :
    Ends ((Checks.trace is).1.map .check) (failure? (Checks.trace is).2) := by
  induction is with
  | nil => exact .quiet fun _ none => by cases none
  | cons i rest ih =>
      have blamed := failure?_run i
      rw [Checks.trace]
      cases run : i.run with
      | error fault =>
          rw [run] at blamed
          obtain ⟨panic, panics, is⟩ := Option.map_eq_some_iff.mp blamed.symm
          dsimp only [failure?]
          rw [← is]
          exact .culprit panics
      | ok diagnostics =>
          rw [run] at blamed
          have same : failure? ((Checks.trace rest).2.map (diagnostics ++ ·)) =
              failure? (Checks.trace rest).2 := by
            cases (Checks.trace rest).2 <;> rfl
          dsimp only
          rw [List.map_cons, same]
          exact ih.cons (Option.map_eq_none_iff.mp blamed.symm)

/-! ## Analyses -/

/-- The checkers at work in an analysis: none if a resolver has given up. -/
def checkers (tree : Tree) (registry : Registry) (s : State) : List Checks.Invocation :=
  if s.fault.isSome then []
  else (Checks.trace (Checks.invocations tree s.bindings s.descriptors registry)).1

/-- The extensions at work in an analysis whose resolution has the given hearings. -/
def works (tree : Tree) (registry : Registry) (hearings : List Hearing) : List Work :=
  (hearings.flatMap fun h => (h.asked (contextOf tree registry)).map (workAt h)) ++
    (checkers tree registry (run tree registry)).map .check

/-- What an analysis comes to with the given extensions at work. -/
structure Settles (tree : Tree) (registry : Registry) (log : Diagnostic.Log) (works : List Work) :
    Prop where
  /-- The resolvers at work are those on record. -/
  record : (analyze tree registry log).consultations = works.filterMap Work.consultation?
  /-- The first extension to panic is blamed, and none is at work behind it. -/
  ends : Ends works (failure? (analyze tree registry log).outcome)
  fails : (∃ fault, (analyze tree registry log).outcome = .error fault) ↔
    ∃ w ∈ works, w.panic?.isSome
  /-- A failure leaves no traces. -/
  undone : ∀ fault, (analyze tree registry log).outcome = .error fault →
    (analyze tree registry log).log = log
  /-- Otherwise the log has what resolution reports and then what the checkers report, and it is
  sealed if the unit is accepted. -/
  done : ∀ outcome, (analyze tree registry log).outcome = .ok outcome →
    let s := run tree registry
    (∃ checked, Checks.runChecks (Checks.invocations tree s.bindings s.descriptors registry) =
        .ok checked ∧
      (analyze tree registry log).log.items = log.items ++ (s.diagnostics ++ checked)) ∧
    ((analyze tree registry log).log.isSealed = true ↔ ∃ analysis, outcome = .accepted analysis)

theorem outcome_analyze (tree : Tree) (registry : Registry) (log : Diagnostic.Log) :
    (analyze tree registry log).outcome = (conclude tree registry log (run tree registry)).1 := rfl

theorem log_analyze (tree : Tree) (registry : Registry) (log : Diagnostic.Log) :
    (analyze tree registry log).log = (conclude tree registry log (run tree registry)).2 := rfl

/-- Once the bindings are complete only extensions can make an analysis fail. -/
theorem conclude_cases {tree : Tree} (registry : Registry) {log : Diagnostic.Log} {s : State}
    (unsealed : log.isSealed = false)
    (frozen : s.bindings.freeze tree s.descriptors = .ok s.bindings) :
    (∃ fault, (s.fault = some fault ∨ s.fault = none ∧
        Checks.runChecks (Checks.invocations tree s.bindings s.descriptors registry) =
          .error fault) ∧
      conclude tree registry log s = (.error fault, log)) ∨
    ∃ checked outcome log', s.fault = none ∧
      Checks.runChecks (Checks.invocations tree s.bindings s.descriptors registry) = .ok checked ∧
      conclude tree registry log s = (.ok outcome, log') ∧
      log'.items = log.items ++ (s.diagnostics ++ checked) ∧
      (log'.isSealed = true ↔ ∃ analysis, outcome = .accepted analysis) := by
  obtain ⟨items, _⟩ := log
  obtain rfl := unsealed
  unfold conclude
  cases s.fault with
  | some fault => exact .inl ⟨fault, .inl rfl, rfl⟩
  | none =>
      dsimp only
      cases Checks.runChecks (Checks.invocations tree s.bindings s.descriptors registry) with
      | error fault => exact .inl ⟨fault, .inr ⟨rfl, rfl⟩, rfl⟩
      | ok checked =>
          refine .inr ?_
          dsimp only
          rw [addAll_open]
          dsimp only
          split
          · exact ⟨checked, _, _, rfl, rfl, rfl, rfl, (by simp)⟩
          · rw [frozen]
            exact ⟨checked, _, _, rfl, rfl, rfl, rfl, fun _ => ⟨_, rfl⟩, fun _ => rfl⟩

/-- Checkers work once resolution has passed; whoever gives up first, resolver or checker, is to blame.
-/
theorem conclude_ends {tree : Tree} {registry : Registry} {log : Diagnostic.Log} {s : State}
    (unsealed : log.isSealed = false)
    (frozen : s.bindings.freeze tree s.descriptors = .ok s.bindings) {heard : List Work}
    (ends : Ends heard s.fault) :
    Ends (heard ++ (checkers tree registry s).map .check)
      (failure? (conclude tree registry log s).1) := by
  have checks := trace_ends (Checks.invocations tree s.bindings s.descriptors registry)
  rw [Checks.trace_snd] at checks
  unfold checkers
  rcases conclude_cases registry unsealed frozen with ⟨fault, stop | ⟨calm, stop⟩, concluded⟩ |
    ⟨_, _, _, calm, ran, concluded, _⟩
  · rw [stop] at ends
    rw [concluded, stop, Option.isSome_some, if_pos rfl, List.map_nil, List.append_nil]
    exact ends
  · rw [stop] at checks
    rw [calm] at ends
    rw [concluded, calm]
    exact .append ends.quiet_of_none checks
  · rw [ran] at checks
    rw [calm] at ends
    rw [concluded, calm]
    exact .append ends.quiet_of_none checks

/-- The resolvers among those who work are the consultations of the hearings. -/
theorem filterMap_works (tree : Tree) (registry : Registry) (hearings : List Hearing) :
    (works tree registry hearings).filterMap Work.consultation? =
      hearings.flatMap fun h => (h.asked (contextOf tree registry)).map h.consultation := by
  have idle : ∀ is : List Checks.Invocation,
      (is.map Work.check).filterMap Work.consultation? = [] := fun is =>
    List.filterMap_eq_nil_iff.mpr fun w member => by
      obtain ⟨i, _, rfl⟩ := List.mem_map.mp member
      rfl
  rw [works, List.filterMap_append, idle, List.append_nil, List.filterMap_flatMap]
  refine List.flatMap_congr fun h _ => ?_
  have each : Work.consultation? ∘ workAt h = some ∘ h.consultation := rfl
  rw [List.filterMap_map, each, List.filterMap_eq_map]

/-- Whatever extensions take part in the analysis of an assembled unit, it fails if and only if one of
them panics, the first to do so is blamed, and the log is then what it was. -/
theorem analyze_blames {draft : Source.Draft} {unit : String} {tree : Tree}
    (assembled : draft.assemble unit = .ok tree) (registry : Registry) {log : Diagnostic.Log}
    (unsealed : log.isSealed = false) :
    ∃ hearings, Performs (contextOf tree registry) (unitTasks tree.items) hearings (startOf tree)
        (run tree registry) ∧
      Settles tree registry log (works tree registry hearings) := by
  obtain ⟨hearings, performs⟩ := run_performs tree registry
  have frozen := (run_links (Source.assemble_numbers assembled) registry).freeze_eq
  have ends : Ends (works tree registry hearings)
      (failure? (analyze tree registry log).outcome) :=
    conclude_ends unsealed frozen (performs_ends performs rfl)
  refine ⟨hearings, performs, ⟨?_, ends, ?_, fun fault failed => ?_, fun ended passed => ?_⟩⟩
  · rw [filterMap_works]
    exact performs.consultations.trans (List.nil_append _)
  · rw [← ends.isSome_iff]
    cases (analyze tree registry log).outcome with
    | error fault => exact ⟨fun _ => rfl, fun _ => ⟨fault, rfl⟩⟩
    | ok ended => exact ⟨fun ⟨_, is⟩ => (by cases is), fun none => (by cases none)⟩
  · rw [outcome_analyze] at failed
    rw [log_analyze]
    rcases conclude_cases registry unsealed frozen with ⟨_, _, concluded⟩ |
      ⟨_, _, _, _, _, concluded, _⟩
    · rw [concluded]
    · rw [concluded] at failed
      cases failed
  · rw [outcome_analyze] at passed
    rw [log_analyze]
    rcases conclude_cases registry unsealed frozen with ⟨_, _, concluded⟩ |
      ⟨checked, _, _, _, ran, concluded, items, sealing⟩
    · rw [concluded] at passed
      cases passed
    · rw [concluded] at passed ⊢
      obtain rfl := Except.ok.inj passed
      exact ⟨⟨checked, ran, items⟩, sealing⟩

/-- A checker that remarks on every declaration. -/
def census : Extension.DeclarationChecker where
  name := "census"
  check _ site := .ok [⟨.info, "CENSUS", site.descriptor.name, site.location⟩]

/-- A checker that gives up at every call. -/
def auditor : Extension.CallChecker where
  name := "auditor"
  check _ _ := .error ⟨"no receipt"⟩

/-- The registry of the lender and both checkers. -/
def auditedRegistry : Registry :=
  (lendingRegistry.push ⟨"audit", "census"⟩ (.declarationChecker census) none none).push
    ⟨"audit", "auditor"⟩ (.callChecker auditor) none none

/-- A log with something in it. -/
def startedLog : Diagnostic.Log :=
  ⟨[⟨.warning, ⟨"lending", 0, "items[0]"⟩, "unused", "W0001", .host⟩], false⟩

/-- A checker that gives up at its first call: it is to blame, the others do not work, and the log is
as before. -/
theorem analyze_blames_auditor : ∃ tree, lending.assemble "lending" = .ok tree ∧
    startedLog.isSealed = false ∧
    failure? (analyze tree auditedRegistry startedLog).outcome =
      some (.extensionPanicked "audit/auditor" .callChecker "no receipt") ∧
    (checkers tree auditedRegistry (run tree auditedRegistry)).length = 6 ∧
    ∃ hearings, Performs (contextOf tree auditedRegistry) (unitTasks tree.items) hearings
        (startOf tree) (run tree auditedRegistry) ∧
      Settles tree auditedRegistry startedLog (works tree auditedRegistry hearings) := by
  have assembled : lending.assemble "lending" = .ok _ := rfl
  exact ⟨_, assembled, rfl, by decide +kernel, by decide +kernel,
    analyze_blames assembled auditedRegistry rfl⟩

end Analysis

end StagedCompiler
