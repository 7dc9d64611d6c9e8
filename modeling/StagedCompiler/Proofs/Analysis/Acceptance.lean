import Mathlib.Data.List.Perm.Basic
import StagedCompiler.Analysis
import StagedCompiler.Catalog.Accessors
import StagedCompiler.Proofs.Analysis.NothingFound
import StagedCompiler.Proofs.Analysis.LinkedUnits
import StagedCompiler.Proofs.Source.Numbering

/-!
# A unit is accepted exactly if it is well formed

Resolution of a unit by the host alone reports the findings of the unit (`run_finds`), and there are
none exactly if the unit is well formed (`run_silent_iff`).  All diagnostics of resolution are errors,
the host has no checkers of its own, and what is bound passes the last check; so the unit is accepted if
and only if it is well formed (`analyze_accepts_iff`).

Whoever else takes part, a unit is accepted only if its resolution ends without diagnostics
(`accepted_run`).
-/

namespace StagedCompiler.Resolution

open Source (Item)
open Typing (WellFormed)

/-- The records of a run that has yet to begin. -/
theorem standing_start (tree : Tree) (registry : Registry) :
    Standing tree.items ⟨tree.unit, registry.resolvers, itemNames tree.items⟩
      { descriptors := itemDescriptors tree.items, bindings := .ofSize tree.size } := by
  refine ⟨⟨rfl, ?_, ?_⟩, ?_⟩
  · intro name kind id offered
    cases offered
  · intro name asked
    cases asked
  · intro i item there
    refine ⟨{ name := item.name, kind := itemKind item, origin := .source item.site.id }, ?_, rfl, rfl⟩
    rw [get?_itemDescriptors, there]
    rfl

/-- Resolution by the host alone reports what is found in a unit. -/
theorem run_finds {tree : Tree} (names : (tree.items.map Item.name).Nodup) :
    (run tree Registry.host).diagnostics.map finding =
        Findings.unitFindings (tree.items.map Item.bare) ∧
      (run tree Registry.host).fault = none := by
  have finds := resolveItems_finds ⟨names, rfl, rfl⟩ (standing_start tree Registry.host)
  exact ⟨finds.reported, finds.holds.host.fault⟩

/-- Two items with one name are reported, whatever else happens. -/
theorem names_of_silent {tree : Tree} {registry : Registry}
    (silent : (run tree registry).diagnostics = []) : (tree.items.map Item.name).Nodup := by
  have passes : Passes (resolveItems ⟨tree.unit, registry.resolvers, itemNames tree.items⟩ tree.items)
      { descriptors := itemDescriptors tree.items, bindings := .ofSize tree.size }
      fun _ _ => NewNames Item.name [] tree.items := by
    refine (reportDuplicates_passes [] tree.items _).bind (fun _ => ?_) fun _ _ post _ => post.2
    exact ((resolveSignatures_follows (Nat.le_refl _)).grows _).bind fun params =>
      (resolveBodies_follows 0 (tree.items.zip params) 0).grows _
  exact (passes silent).distinct

/-- Resolution by the host alone ends without diagnostics exactly if the unit is well formed. -/
theorem run_silent_iff {tree : Tree} :
    (run tree Registry.host).diagnostics = [] ↔ WellFormed tree.items := by
  constructor
  · intro silent
    have names := names_of_silent silent
    obtain ⟨found, _⟩ := run_finds names
    rw [silent] at found
    exact (unitFindings_eq_nil_iff names).mp found.symm
  · intro wellFormed
    obtain ⟨found, _⟩ := run_finds wellFormed.names
    rw [(unitFindings_eq_nil_iff wellFormed.names).mpr wellFormed] at found
    exact List.map_eq_nil_iff.mp found

/-- All diagnostics of resolution are errors. -/
theorem run_errors (tree : Tree) (registry : Registry) :
    ∀ d ∈ (run tree registry).diagnostics, d.severity = .error := by
  obtain ⟨more, appended, errors⟩ := (resolveItems_follows tree.items).grows
    ⟨tree.unit, registry.resolvers, itemNames tree.items⟩
    { descriptors := itemDescriptors tree.items, bindings := .ofSize tree.size }
  intro d member
  exact errors d (by rw [← List.nil_append more, ← appended]; exact member)

end StagedCompiler.Resolution

namespace StagedCompiler.Analysis

open Resolution
open Typing (WellFormed NamesType HasType)

/-- The host has no checkers. -/
theorem host_invocations (tree : Tree) (b : Bindings) (D : Descriptor.Table) :
    Checks.invocations tree b D Registry.host = [] := by
  simp [Checks.invocations, Registry.declarationCheckers, Registry.callCheckers,
    Registry.extensionsFor, Registry.host, Registry.push, Registry.empty, Registry.Record.point,
    Extension.point]

/-- What is added to an open log comes last. -/
theorem addAll_open (before items : List Diagnostic) :
    addAll ⟨before, false⟩ items = (.ok (), ⟨before ++ items, false⟩) := by
  induction items generalizing before with
  | nil => rw [addAll, List.append_nil]
  | cons d rest ih =>
      show addAll ⟨before ++ [d], false⟩ rest = _
      rw [ih, List.append_assoc]
      rfl

/-- If all diagnostics are errors, a log is without errors only if it is empty. -/
theorem hasErrors_eq_false_iff {items : List Diagnostic}
    (errors : ∀ d ∈ items, d.severity = .error) :
    Diagnostic.Log.hasErrors ⟨items, false⟩ = false ↔ items = [] := by
  cases items with
  | nil => simp [Diagnostic.Log.hasErrors]
  | cons d rest =>
      have first := errors d List.mem_cons_self
      simp [Diagnostic.Log.hasErrors, first, Severity.isError]

/-- With the host alone there are no checks: what resolution reports is what is reported, and it
decides. -/
theorem conclude_host (tree : Tree) {s : State} (fault : s.fault = none)
    (errors : ∀ d ∈ s.diagnostics, d.severity = .error) :
    conclude tree Registry.host .empty s =
      if s.diagnostics = [] then
        match s.bindings.freeze tree s.descriptors with
        | .error fault => (.error fault, ⟨s.diagnostics, false⟩)
        | .ok bindings => (.ok (.accepted ⟨bindings, s.descriptors⟩), ⟨s.diagnostics, true⟩)
      else (.ok .rejected, ⟨s.diagnostics, false⟩) := by
  unfold conclude
  rw [fault]
  dsimp only
  rw [host_invocations, Checks.runChecks]
  dsimp only
  rw [List.append_nil, Diagnostic.Log.empty, addAll_open]
  dsimp only
  rw [List.nil_append]
  by_cases silent : s.diagnostics = []
  · have clean := (hasErrors_eq_false_iff errors).mpr silent
    rw [if_pos silent, if_neg (by rw [clean]; exact Bool.false_ne_true)]
    rfl
  · have unclean : Diagnostic.Log.hasErrors ⟨s.diagnostics, false⟩ = true := by
      rw [← Bool.not_eq_false, hasErrors_eq_false_iff errors]
      exact silent
    rw [if_neg silent, if_pos unclean]

/-- Analysis by the host alone accepts a unit if resolution ends without diagnostics. -/
theorem accepted_iff {tree : Tree}
    (numbers : tree.nodes.map Source.Node.id = List.range tree.size) {analysis : Analysis} :
    (analyze tree Registry.host .empty).outcome = .ok (.accepted analysis) ↔
      (run tree Registry.host).diagnostics = [] ∧
        analysis = ⟨(run tree Registry.host).bindings, (run tree Registry.host).descriptors⟩ := by
  show (conclude tree Registry.host .empty (run tree Registry.host)).1 = _ ↔ _
  have faultless : (run tree Registry.host).diagnostics = [] →
      (run tree Registry.host).fault = none :=
    fun silent => (run_finds (names_of_silent silent)).2
  have frozen := (run_links numbers Registry.host).freeze_eq
  have errors := run_errors tree Registry.host
  generalize run tree Registry.host = s at faultless frozen errors
  cases fault : s.fault with
  | some fault' =>
      unfold conclude
      rw [fault]
      constructor
      · intro accepted
        cases accepted
      · intro given
        rcases given with ⟨silent, _⟩
        rw [faultless silent] at fault
        cases fault
  | none =>
      rw [conclude_host tree fault errors]
      by_cases silent : s.diagnostics = []
      · rw [if_pos silent, frozen]
        simp [silent, eq_comm]
      · rw [if_neg silent]
        simp [silent]

/-- A unit is accepted by the host alone, with nothing reported before, exactly if it is well
formed. -/
theorem analyze_accepts_iff {draft : Source.Draft} {unit : String} {tree : Tree}
    (assembled : draft.assemble unit = .ok tree) :
    (∃ analysis, (analyze tree Registry.host .empty).outcome = .ok (.accepted analysis)) ↔
      WellFormed tree.items := by
  have numbers := Source.assemble_numbers assembled
  rw [← run_silent_iff]
  constructor
  · intro given
    rcases given with ⟨analysis, accepted⟩
    exact ((accepted_iff numbers).mp accepted).1
  · intro silent
    exact ⟨_, (accepted_iff numbers).mpr ⟨silent, rfl⟩⟩

/-- The tree and the analysis of a unit that is accepted. -/
def accept? (registry : Registry) (d : Source.Draft) (unit : String) : Option (Tree × Analysis) :=
  match d.assemble unit with
  | .error _ => none
  | .ok tree =>
    match (analyze tree registry .empty).outcome with
    | .ok (.accepted analysis) => some (tree, analysis)
    | .ok .rejected | .error _ => none

/-- What is accepted by evaluation is accepted. -/
theorem accept?_eq_some {registry : Registry} {d : Source.Draft} {unit : String} {tree : Tree}
    {analysis : Analysis} (accepted : accept? registry d unit = some (tree, analysis)) :
    d.assemble unit = .ok tree ∧
      (analyze tree registry .empty).outcome = .ok (.accepted analysis) := by
  unfold accept? at accepted
  cases assembled : d.assemble unit with
  | error bad => rw [assembled] at accepted; cases accepted
  | ok tree' =>
      rw [assembled] at accepted
      dsimp only at accepted
      cases ended : (analyze tree' registry .empty).outcome with
      | error fault => rw [ended] at accepted; cases accepted
      | ok outcome =>
          rw [ended] at accepted
          cases outcome with
          | rejected => cases accepted
          | accepted analysis' =>
              obtain ⟨rfl, rfl⟩ := Prod.mk.inj (Option.some.inj accepted)
              exact ⟨rfl, ended⟩

/-- `first<T>(a: T, b: T): T` gives its first argument; `next(n: int): int` hides its parameter. -/
def chooseNext : Source.Draft where
  items :=
    [ .function () "first" ["T"] [⟨(), "a", ⟨(), "T"⟩⟩, ⟨(), "b", ⟨(), "T"⟩⟩] (some ⟨(), "T"⟩)
        [.ret () (some (.ref () "a"))],
      .function () "next" [] [⟨(), "n", ⟨(), "int"⟩⟩] (some ⟨(), "int"⟩)
        [ .letBind () "n" none (.binary () .add (.ref () "n") (.int () 1)),
          .eval () (.call () "print" [.str () "next"]),
          .ret () (some (.call () "first" [.int () 1, .ref () "n"])) ] ]

/-- The unit is well formed by the rules. -/
theorem chooseNext_wellFormed {tree : Tree} (assembled : chooseNext.assemble "unit" = .ok tree) :
    WellFormed tree.items := by
  obtain rfl := Except.ok.inj assembled
  have generic : ∀ {items : List (Source.Item Source.Site)}, NamesType items ["T"] "T" (.param "T") :=
    .param rfl List.mem_cons_self
  refine ⟨by decide, by decide, fun i item there => ?_⟩
  match i with
  | 0 =>
      obtain rfl := Option.some.inj there
      exact ⟨_, .function (.cons generic (.cons generic .nil)) (.value generic),
        .function (.cons (.ret (.ref rfl) rfl) .nil)⟩
  | 1 =>
      obtain rfl := Option.some.inj there
      refine ⟨_, .function (.cons (.builtin rfl) .nil) (.value (.builtin rfl)), .function ?_⟩
      refine .cons (.inferred (.binary (.ref rfl) .int (.arith rfl rfl rfl)))
        (.cons (.eval (?_ : HasType _ _ _ .unit)) (.cons (.ret (?_ : HasType _ _ _ .int) rfl) .nil))
      · exact .call (.host (by decide) (.print rfl)) (.cons .str .nil) (.plain (by simp) rfl .nil)
          (.plain (by simp))
      · exact .call
          (.item (i := 0) rfl (.function (.cons generic (.cons generic .nil)) (.value generic)))
          (.cons .int (.cons (.ref rfl) .nil)) (.first rfl (.later rfl rfl .nil)) (.fixed rfl)
  | _ + 2 => cases there

theorem analyze_accepts_iff_chooseNext : ∃ tree, chooseNext.assemble "unit" = .ok tree ∧
    (∃ analysis, (analyze tree Registry.host .empty).outcome = .ok (.accepted analysis)) ∧
    WellFormed tree.items := by
  have assembled : chooseNext.assemble "unit" = .ok _ := rfl
  have wellFormed := chooseNext_wellFormed assembled
  exact ⟨_, assembled, (analyze_accepts_iff assembled).mpr wellFormed, wellFormed⟩

/-! ## A unit that others look at, too -/

/-- What has been added to a log is behind what was there. -/
theorem addAll_eq_ok {log log' : Diagnostic.Log} {items : List Diagnostic}
    (added : addAll log items = (.ok (), log')) : log'.items = log.items ++ items := by
  induction items generalizing log with
  | nil =>
      obtain ⟨_, rfl⟩ := Prod.mk.inj added
      rw [List.append_nil]
  | cons d rest ih =>
      unfold addAll at added
      cases pushed : log.push? d with
      | none =>
          rw [pushed] at added
          cases (Prod.mk.inj added).1
      | some next =>
          rw [pushed] at added
          have more := ih added
          unfold Diagnostic.Log.push? at pushed
          split at pushed
          · cases pushed
          · obtain rfl := Option.some.inj pushed
            rw [more, List.append_assoc]
            rfl

/-- A unit is accepted only if its resolution ends without diagnostics, whoever else looks at it and
whatever was logged before. -/
theorem accepted_run {tree : Tree} {registry : Registry} {log : Diagnostic.Log}
    {analysis : Analysis} (accepted : (analyze tree registry log).outcome = .ok (.accepted analysis)) :
    (run tree registry).diagnostics = [] ∧
      analysis = ⟨(run tree registry).bindings, (run tree registry).descriptors⟩ := by
  have accepted : (conclude tree registry log (run tree registry)).1 = .ok (.accepted analysis) :=
    accepted
  have errors := run_errors tree registry
  generalize run tree registry = s at accepted errors
  unfold conclude at accepted
  split at accepted
  · cases accepted
  · split at accepted
    · cases accepted
    · rename_i checked _
      split at accepted
      · cases accepted
      · rename_i log' added
        split at accepted
        · cases accepted
        · rename_i clean
          split at accepted
          · cases accepted
          · rename_i b frozen
            have kept : b = s.bindings := by
              unfold Bindings.freeze at frozen
              split at frozen <;> cases frozen
              rfl
            obtain rfl := kept
            cases accepted
            refine ⟨?_, rfl⟩
            have logged := addAll_eq_ok added
            by_contra loud
            obtain ⟨d, rest, first⟩ := List.exists_cons_of_ne_nil loud
            have among : d ∈ s.diagnostics := first ▸ List.mem_cons_self
            apply clean
            unfold Diagnostic.Log.hasErrors
            rw [logged, List.any_eq_true]
            refine ⟨d, by simp [among], ?_⟩
            rw [errors d among]
            rfl

/-! ## A unit that an extension takes part in -/

/-- The host's own extensions and accessors that begin with `read_`. -/
def readingRegistry : Registry :=
  Registry.host.push ⟨"accessors", "accessors"⟩ (.resolver (Accessors.resolver "read_")) none none

theorem readingRegistry_resolvers : readingRegistry.resolvers =
    [ (⟨⟨Registry.hostPlugin, Extension.builtins.name⟩, 0, 0, none, .resolver Extension.builtins⟩,
        Extension.builtins),
      (⟨⟨"accessors", "accessors"⟩, 0, 1, none, .resolver (Accessors.resolver "read_")⟩,
        Accessors.resolver "read_") ] := by
  have sorted : readingRegistry.extensionsFor .syntheticDescriptors = readingRegistry.records := by
    unfold Registry.extensionsFor
    rw [List.mergeSort_of_pairwise (by decide)]
    rfl
  rw [Registry.resolvers, sorted]
  rfl

/-- `following(p: Point): int` reads a field of a local through an accessor. -/
def followingPoint : Source.Draft where
  items :=
    [ .cls () "Point" [⟨(), "x", ⟨(), "int"⟩⟩],
      .function () "following" [] [⟨(), "p", ⟨(), "Point"⟩⟩] (some ⟨(), "int"⟩)
        [ .letBind () "q" (some ⟨(), "Point"⟩) (.ref () "p"),
          .ret () (some (.binary () .add (.call () "read_x" [.ref () "q"]) (.int () 1))) ] ]

/-- The unit is accepted, by evaluation. -/
theorem followingPoint_accepted : ∃ tree analysis, followingPoint.assemble "point" = .ok tree ∧
    (analyze tree readingRegistry .empty).outcome = .ok (.accepted analysis) := by
  have accepted : (accept? readingRegistry followingPoint "point").isSome = true := by
    simp only [accept?, analyze, Resolution.run, readingRegistry_resolvers]
    decide +kernel
  obtain ⟨⟨tree, analysis⟩, accepted⟩ := Option.isSome_iff_exists.mp accepted
  exact ⟨tree, analysis, accept?_eq_some accepted⟩

end StagedCompiler.Analysis
