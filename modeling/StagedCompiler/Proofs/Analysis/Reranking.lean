import StagedCompiler.Proofs.Analysis.Acceptance
import StagedCompiler.Proofs.Analysis.Agreement

/-!
# Checkers that report nothing

A checker that never reports anything, and a resolver that never offers what it is asked for, can stand
anywhere among the others: analysis comes to the same outcome (`analyze_inserted`).  The diagnostics are
the same, in the same order, but that a reporter which was registered behind the new extension has moved
on by one rank (`Diagnostic.rerank`).
-/

namespace StagedCompiler

namespace Diagnostic

/-- The diagnostic, with a reporter of a rank above `n` moved on by one. -/
def rerank (n : Nat) (d : Diagnostic) : Diagnostic :=
  { d with reporter.rank := if d.reporter.rank ≤ n then d.reporter.rank else d.reporter.rank + 1 }

/-- The diagnostic without the rank of its reporter. -/
def unranked (d : Diagnostic) : Diagnostic := { d with reporter.rank := 0 }

@[simp] theorem unranked_rerank (n : Nat) (d : Diagnostic) : (d.rerank n).unranked = d.unranked := rfl

/-- The host has the first rank and keeps it. -/
theorem rerank_host {n : Nat} {d : Diagnostic} (host : d.reporter = .host) : d.rerank n = d := by
  rcases d with ⟨severity, location, message, code, reporter⟩
  obtain rfl : reporter = .host := host
  simp [rerank, Reporter.host]

/-- Moving on keeps the order of ranks. -/
theorem compare_rerank (n a b : Nat) :
    compare (if a ≤ n then a else a + 1) (if b ≤ n then b else b + 1) = compare a b := by
  have less : ∀ c d : Nat, (if c ≤ n then c else c + 1) < (if d ≤ n then d else d + 1) ↔ c < d := by
    intro c d
    split <;> split <;> omega
  rw [Nat.compare_eq_ite_lt, Nat.compare_eq_ite_lt]
  simp only [less]

/-- The order of diagnostics does not change, since ranks move on in order. -/
theorem le_rerank (n : Nat) (a b : Diagnostic) : (a.rerank n).le (b.rerank n) = a.le b := by
  rw [le, le]
  exact congrArg (fun order => ((a.location.compare b.location).then order) != .gt)
    (compare_rerank n a.reporter.rank b.reporter.rank)

/-- The log, with reporters of ranks above `n` moved on by one. -/
def Log.rerank (n : Nat) (log : Log) : Log := { log with items := log.items.map (Diagnostic.rerank n) }

theorem Log.hasErrors_rerank (n : Nat) (log : Log) : (log.rerank n).hasErrors = log.hasErrors := by
  rw [hasErrors, rerank, List.any_map]
  rfl

/-- A log can be sorted before or after reporters move on. -/
theorem Log.sorted_rerank (n : Nat) (log : Log) :
    (log.rerank n).sorted = log.sorted.map (Diagnostic.rerank n) :=
  (List.map_mergeSort fun a _ b _ => (le_rerank n a b).symm).symm

end Diagnostic

namespace Registry

/-- A finding of a moved extension is reported with its new rank. -/
theorem reporter_bump (n : Nat) (record : Record) (f : Extension.Finding) :
    f.diagnostic (record.bump n).reporter = (f.diagnostic record.reporter).rerank n := by
  have rank : (if record.sequence < n then record.sequence else record.sequence + 1) + 1 =
      if record.sequence + 1 ≤ n then record.sequence + 1 else record.sequence + 1 + 1 := by
    split <;> split <;> omega
  rw [Extension.Finding.diagnostic, Extension.Finding.diagnostic, Diagnostic.rerank]
  simp only [Record.reporter, Reporter.extension, Record.bump, rank]
  rfl

theorem answer_bump {α : Type} (n : Nat) (record : Record) (x : Except Panic α) :
    (record.bump n).answer x = record.answer x := by
  cases x <;> rfl

end Registry

namespace Checks

open Registry

/-- What a moved checker reports differs in its rank only. -/
theorem map_answer_bump (n : Nat) (record : Record) (x : Except Panic (List Extension.Finding)) :
    ((record.bump n).answer x >>= fun findings =>
        pure (findings.map (·.diagnostic (record.bump n).reporter))) =
      Except.map (List.map (Diagnostic.rerank n))
        (record.answer x >>= fun findings => pure (findings.map (·.diagnostic record.reporter))) := by
  rw [answer_bump]
  cases record.answer x with
  | error fault => rfl
  | ok findings =>
      show Except.ok _ = Except.ok _
      rw [List.map_map]
      exact congrArg Except.ok (List.map_congr_left fun f _ => reporter_bump n record f)

/-- Invocations that report nothing do not matter. -/
theorem runChecks_padded {n : Nat} {is is' : List Invocation}
    (padded : Padded (fun i i' => i'.run = i.run.map (List.map (Diagnostic.rerank n)))
      (fun i' => i'.run = .ok []) is is') :
    runChecks is' = (runChecks is).map (List.map (Diagnostic.rerank n)) := by
  induction padded with
  | nil => rfl
  | skip idle _ ih =>
      rename_i i' is is' _
      rw [runChecks, idle, ih]
      cases runChecks is <;> rfl
  | keep same _ ih =>
      rename_i i i' is is' _
      rw [runChecks, runChecks, same, ih]
      cases i.run with
      | error fault => rfl
      | ok reported =>
          cases runChecks is with
          | error fault => rfl
          | ok more => exact congrArg Except.ok List.map_append.symm

end Checks

/-! ## Inert extensions -/

namespace Extension

/-- A checker of declarations that never reports anything. -/
def DeclarationChecker.Silent (c : DeclarationChecker) : Prop :=
  ∀ reporter site, c.check reporter site = .ok []

/-- A checker of calls that never reports anything. -/
def CallChecker.Silent (c : CallChecker) : Prop := ∀ reporter site, c.check reporter site = .ok []

/-- A pass that leaves every module as it is. -/
def Pass.Idle (p : Pass) : Prop := ∀ context m, p.run context m = { module := m }

/-- An extension that does nothing: a resolver that never offers what it is asked for, a checker that
never reports anything, or a pass that leaves every module as it is. -/
inductive Inert : Extension → Prop
  | resolver {r : Resolver} : Resolution.Useless r → Inert (.resolver r)
  | declarationChecker {c : DeclarationChecker} : c.Silent → Inert (.declarationChecker c)
  | callChecker {c : CallChecker} : c.Silent → Inert (.callChecker c)
  | lowering {p : Pass} : p.Idle → Inert (.lowering p)

end Extension

namespace Registry

section Inserted

variable {n : Nat} {x : Record} {r r' : Registry} (inserted : Inserted n x r r')
  (inert : x.extension.Inert)
include inserted inert

/-- The extensions of one kind at a point, with the new one in between if it is of that kind. -/
theorem Inserted.ofKind {α : Type} {f : Record → Option (Record × α)} {idle : α → Prop}
    (kind : α → Extension)
    (reads : ∀ record e, f record = some e ↔ e.1 = record ∧ record.extension = kind e.2)
    (idles : ∀ e, (kind e).Inert → idle e) (point : Extension.Point) :
    Padded (fun a b => b = (a.1.bump n, a.2)) (fun b => b.1 = x ∧ idle b.2)
      ((r.extensionsFor point).filterMap f) ((r'.extensionsFor point).filterMap f) := by
  apply (inserted.extensionsFor_padded point).filterMap
  · rintro record _ rfl
    cases read : f record with
    | none =>
        have unread : f (record.bump n) = none := by
          rw [Option.eq_none_iff_forall_ne_some] at read ⊢
          intro e bumped
          rw [reads, Record.extension_bump] at bumped
          exact read (record, e.2) ((reads _ _).mpr ⟨rfl, bumped.2⟩)
        rw [unread]
        exact .none
    | some e =>
        obtain ⟨rfl, same⟩ := (reads _ _).mp read
        have bumped : f (e.1.bump n) = some (e.1.bump n, e.2) :=
          (reads _ _).mpr ⟨rfl, (e.1.extension_bump n).trans same⟩
        rw [bumped]
        exact .some rfl
  · rintro _ rfl e read
    obtain ⟨same, new⟩ := (reads _ _).mp read
    rw [new] at inert
    exact ⟨same, idles e.2 inert⟩

/-- The resolvers are the same but for the new extension, and likewise for checkers and passes. -/
theorem Inserted.resolvers : Padded (fun a b => b = (a.1.bump n, a.2))
    (fun b => b.1 = x ∧ Resolution.Useless b.2) r.resolvers r'.resolvers := by
  apply inserted.ofKind inert Extension.resolver
  · rintro record ⟨_, _⟩
    cases record.extension <;> grind
  · intro _ inert
    cases inert with
    | resolver useless => exact useless

theorem Inserted.declarationCheckers : Padded (fun a b => b = (a.1.bump n, a.2))
    (fun b => b.1 = x ∧ b.2.Silent) r.declarationCheckers r'.declarationCheckers := by
  apply inserted.ofKind inert Extension.declarationChecker
  · rintro record ⟨_, _⟩
    cases record.extension <;> grind
  · intro _ inert
    cases inert with
    | declarationChecker silent => exact silent

theorem Inserted.callCheckers : Padded (fun a b => b = (a.1.bump n, a.2))
    (fun b => b.1 = x ∧ b.2.Silent) r.callCheckers r'.callCheckers := by
  apply inserted.ofKind inert Extension.callChecker
  · rintro record ⟨_, _⟩
    cases record.extension <;> grind
  · intro _ inert
    cases inert with
    | callChecker silent => exact silent

theorem Inserted.loweringPasses : Padded (fun a b => b = (a.1.bump n, a.2))
    (fun b => b.1 = x ∧ b.2.Idle) r.loweringPasses r'.loweringPasses := by
  apply inserted.ofKind inert Extension.lowering
  · rintro record ⟨_, _⟩
    cases record.extension <;> grind
  · intro _ inert
    cases inert with
    | lowering idle => exact idle

/-- Checkers are invoked as before, but for the new extension, which reports nothing. -/
theorem Inserted.invocations (tree : Tree) (b : Bindings) (D : Descriptor.Table) :
    Padded (fun i i' => i'.run = i.run.map (List.map (Diagnostic.rerank n)))
      (fun i' => i'.run = .ok []) (Checks.invocations tree b D r) (Checks.invocations tree b D r') := by
  apply Padded.append
  · apply (inserted.declarationCheckers inert).flatMap
    · rintro ⟨record, checker⟩ _ rfl
      refine Padded.map_map (fun site => ?_) _
      exact Checks.map_answer_bump n record (checker.check record.reporter.name site)
    · rintro ⟨record, checker⟩ ⟨_, idle⟩
      refine Padded.only fun i member => ?_
      obtain ⟨site, _, rfl⟩ := List.mem_map.mp member
      rw [Checks.Invocation.run, idle]
      rfl
  · apply (inserted.callCheckers inert).flatMap
    · rintro ⟨record, checker⟩ _ rfl
      refine Padded.map_map (fun site => ?_) _
      exact Checks.map_answer_bump n record (checker.check record.reporter.name site)
    · rintro ⟨record, checker⟩ ⟨_, idle⟩
      refine Padded.only fun i member => ?_
      obtain ⟨site, _, rfl⟩ := List.mem_map.mp member
      rw [Checks.Invocation.run, idle]
      rfl

end Inserted

end Registry

namespace Analysis

open Registry

/-- With one more extension that does nothing, analysis decides the same, and the log is the same but
for the ranks of reporters. -/
theorem analyze_inserted {n : Nat} {x : Record} {r r' : Registry} (inserted : Inserted n x r r')
    (inert : x.extension.Inert) (tree : Tree) :
    (analyze tree r' {}).outcome = (analyze tree r {}).outcome ∧
      (analyze tree r' {}).log = (analyze tree r {}).log.rerank n := by
  obtain ⟨⟨c, same⟩, host⟩ := Resolution.run_agree tree (inserted.resolvers inert |>.imp
    (fun _ _ same => by rw [same]; exact ⟨rfl, rfl, rfl⟩) fun _ both => both.2)
  have concluded : conclude tree r' {} (Resolution.run tree r') =
      ((conclude tree r {} (Resolution.run tree r)).1,
        (conclude tree r {} (Resolution.run tree r)).2.rerank n) := by
    rw [same]
    generalize Resolution.run tree r = s at host
    have checks := Checks.runChecks_padded (inserted.invocations inert tree s.bindings s.descriptors)
    have own : s.diagnostics.map (Diagnostic.rerank n) = s.diagnostics :=
      (List.map_congr_left fun d member => Diagnostic.rerank_host (host d member)).trans
        (List.map_id _)
    unfold conclude
    dsimp only
    cases s.fault with
    | some fault => rfl
    | none =>
        dsimp only
        rw [checks]
        cases Checks.runChecks (Checks.invocations tree s.bindings s.descriptors r) with
        | error fault => rfl
        | ok checked =>
            have log : (⟨[] ++ (s.diagnostics ++ checked.map (Diagnostic.rerank n)), false⟩ :
                Diagnostic.Log) = Diagnostic.Log.rerank n ⟨[] ++ (s.diagnostics ++ checked), false⟩ := by
              rw [Diagnostic.Log.rerank, List.nil_append, List.nil_append, List.map_append, own]
            simp only [Except.map, addAll_open, log, Diagnostic.Log.hasErrors_rerank]
            split
            · rfl
            · cases s.bindings.freeze tree s.descriptors <;> rfl
  exact ⟨(congrArg Prod.fst concluded :), congrArg Prod.snd concluded⟩

end Analysis

end StagedCompiler
