import StagedCompiler.Proofs.Lowering.Merging
import StagedCompiler.Proofs.Lowering.PlanRuns
import StagedCompiler.Proofs.Registry.Registrations

/-!
# Identities of passes

A registry keeps the identities at a point apart as pairs of a plugin and a name.  A plan knows its passes
by the texts of their identities, and it has the passes of the host besides, which nobody registers.

* The texts in a plan are those of the registered passes and those of the host passes (`names_perm`).
  So they are distinct exactly if the registered ones are and none is that of a host pass.
* The text of an identity gives the plugin back if the plugin's name has no slash
  (`eq_of_text_eq`).  So texts are distinct if no plugin has a slash in its name and none that is called
  like the host has a pass that is called like one of the host's.
* A fault names a pass of the plan; with distinct texts it is one step (`namesOneStep_of_nodup`).
* Plugins can be called like the host, and then a text can stand for two steps
  (`foldConstants_registered_again`).
-/

namespace StagedCompiler

namespace Registry.Holds

variable {r r' : Registry} {gs : List Registration}

/-- Registrations that all succeed. -/
theorem enlistAll (holds : r.Holds gs) {more : List Registration}
    (enlisted : r.enlistAll more = .ok r') : r'.Holds (gs ++ more) := by
  induction more generalizing r gs with
  | nil =>
      obtain rfl := Except.ok.inj enlisted
      rwa [List.append_nil]
  | cons g rest ih =>
      rw [Registry.enlistAll, List.foldlM_cons] at enlisted
      cases first : r.enlist g with
      | error e =>
          rw [first] at enlisted
          cases enlisted
      | ok q =>
          rw [first] at enlisted
          have later := ih (holds.enlist first) enlisted
          rwa [List.append_assoc] at later

end Registry.Holds

namespace Lowering.Plan

open Registry (Beginning)

/-- The identities of the lowering passes among registrations. -/
def passIds (gs : List Registration) : List Extension.Id :=
  (gs.filter fun g => g.point = .irLowering).map (·.id)

/-- The text of the identity of a host pass. -/
def hostText (name : String) : String := Registry.hostPlugin ++ "/" ++ name

/-! ## The texts in a plan -/

section Names

variable {b : Beginning} {gs : List Registration} {registry : Registry} {target : Target} {plan : Plan}

/-- A registry has the passes that were registered. -/
theorem passTexts (holds : registry.Holds gs) :
    (registry.records.filterMap passStep?).map (·.id) = (passIds gs).map (·.text) := by
  have each : ∀ g ∈ gs, ∀ number, (passStep? (g.record number)).map (·.id) =
      if g.point = .irLowering then some g.id.text else none := by
    intro g member number
    have own := holds.own g member
    rcases g with ⟨plugin, point, extension, order, placement⟩
    cases extension <;> cases own <;> rfl
  have numbered : ∀ entry ∈ gs.zipIdx, (passStep? (entry.1.record entry.2)).map (·.id) =
      if entry.1.point = .irLowering then some entry.1.id.text else none := by
    intro entry member
    exact each _ (List.fst_mem_of_mem_zipIdx member) _
  rw [holds.records, List.filterMap_map, List.map_filterMap]
  calc gs.zipIdx.filterMap fun entry => (passStep? (entry.1.record entry.2)).map (·.id)
    _ = gs.zipIdx.filterMap fun entry =>
          if entry.1.point = .irLowering then some entry.1.id.text else none :=
        List.filterMap_congr numbered
    _ = (gs.zipIdx.map Prod.fst).filterMap fun g =>
          if g.point = .irLowering then some g.id.text else none := by
        rw [List.filterMap_map]
        rfl
    _ = (passIds gs).map (·.text) := by
        rw [List.zipIdx_map_fst, passIds, List.map_map, ← List.filterMap_eq_map,
          List.filterMap_filter]
        simp

theorem passIds_beginning (b : Beginning) (gs : List Registration) :
    passIds (b.registrations ++ gs) = passIds gs := by
  cases b <;> rfl

/-- Identities of registered passes are distinct pairs. -/
theorem passIds_nodup (holds : registry.Holds gs) : (passIds gs).Nodup := by
  unfold passIds
  rw [List.Nodup, List.pairwise_map]
  apply (holds.distinct.filter _).imp_of_mem
  intro g h first second apart
  have at' := of_decide_eq_true (List.mem_filter.mp first).2
  have at'' := of_decide_eq_true (List.mem_filter.mp second).2
  exact apart (at'.trans at''.symm)

/-- The texts in a plan are those of the registered passes and those of the host passes. -/
theorem names_perm (holds : registry.Holds gs) (built : build target registry = .ok plan) :
    plan.names.Perm ((passIds gs).map (·.text) ++ (hostNames target).map hostText) := by
  have once := (steps_perm built).map Step.id
  rw [List.map_append, passTexts holds, List.map_map] at once
  rw [hostNames, List.map_map]
  exact once

theorem hostTexts_nodup (target : Target) : ((hostNames target).map hostText).Nodup := by
  cases target <;> decide

/-- The texts in a plan are distinct exactly if those of the registered passes are and none of them is
that of a host pass. -/
theorem names_nodup_iff (holds : registry.Holds gs) (built : build target registry = .ok plan) :
    plan.names.Nodup ↔ ((passIds gs).map (·.text)).Nodup ∧
      ∀ id ∈ passIds gs, ∀ name ∈ hostNames target, id.text ≠ hostText name := by
  rw [(names_perm holds built).nodup_iff, List.nodup_append]
  constructor
  · intro given
    obtain ⟨distinct, -, apart⟩ := given
    refine ⟨distinct, fun id member name known => ?_⟩
    exact apart _ (List.mem_map_of_mem member) _ (List.mem_map_of_mem known)
  · intro given
    obtain ⟨distinct, apart⟩ := given
    refine ⟨distinct, hostTexts_nodup target, fun text first other second => ?_⟩
    obtain ⟨id, member, rfl⟩ := List.mem_map.mp first
    obtain ⟨name, known, rfl⟩ := List.mem_map.mp second
    exact apart id member name known

end Names

/-! ## Names without a slash -/

/-- What stands in front of the first occurrence of a member is determined. -/
theorem eq_of_append_cons {α : Type} {c : α} {front front' back back' : List α} (free : c ∉ front)
    (free' : c ∉ front') (same : front ++ c :: back = front' ++ c :: back') :
    front = front' ∧ back = back' := by
  induction front generalizing front' with
  | nil =>
      cases front' with
      | nil => exact ⟨rfl, (List.cons.inj same).2⟩
      | cons d rest =>
          obtain ⟨rfl, -⟩ := List.cons.inj same
          exact absurd List.mem_cons_self free'
  | cons d rest ih =>
      cases front' with
      | nil =>
          obtain ⟨rfl, -⟩ := List.cons.inj same
          exact absurd List.mem_cons_self free
      | cons d' rest' =>
          obtain ⟨rfl, later⟩ := List.cons.inj same
          rw [List.mem_cons, not_or] at free free'
          obtain ⟨rfl, rfl⟩ := ih free.2 free'.2 later
          exact ⟨rfl, rfl⟩

/-- The text of an identity whose plugin has no slash in its name stands for one identity. -/
theorem eq_of_text_eq {id id' : Extension.Id} (free : '/' ∉ id.plugin.toList)
    (free' : '/' ∉ id'.plugin.toList) (same : id.text = id'.text) : id = id' := by
  rcases id with ⟨plugin, name⟩
  rcases id' with ⟨plugin', name'⟩
  have chars := congrArg String.toList same
  simp only [Extension.Id.text, String.toList_append, List.append_assoc] at chars
  obtain ⟨plugins, names⟩ := eq_of_append_cons free free' chars
  obtain rfl : plugin = plugin' := String.toList_injective plugins
  obtain rfl : name = name' := String.toList_injective names
  rfl

/-- With a slash in the name of a plugin a text can stand for two identities. -/
example : (⟨"a/b", "c"⟩ : Extension.Id).text = (⟨"a", "b/c"⟩ : Extension.Id).text := by decide

/-- Plugins without a slash in their names, of which none that is called like the host has a pass that is
called like one of the host's. -/
structure PlainlyNamed (target : Target) (ids : List Extension.Id) : Prop where
  slashFree : ∀ id ∈ ids, '/' ∉ id.plugin.toList
  notHost : ∀ id ∈ ids, id.plugin = Registry.hostPlugin → id.name ∉ hostNames target

theorem PlainlyNamed.names_nodup {gs : List Registration} {registry : Registry} {target : Target}
    {plan : Plan} (plain : PlainlyNamed target (passIds gs)) (holds : registry.Holds gs)
    (built : build target registry = .ok plan) : plan.names.Nodup := by
  rw [names_nodup_iff holds built]
  constructor
  · apply (passIds_nodup holds).map_on
    intro id member id' member' same
    exact eq_of_text_eq (plain.slashFree id member) (plain.slashFree id' member') same
  · intro id member name known same
    have hostFree : '/' ∉ Registry.hostPlugin.toList := by decide
    have host : id = ⟨Registry.hostPlugin, name⟩ :=
      eq_of_text_eq (plain.slashFree id member) hostFree same
    apply plain.notHost id member
    · rw [host]
    · rw [host]
      exact known

/-! ## The pass that a fault names -/

/-- A step of a plan has this identity, and no other step has it. -/
def NamesOneStep (plan : Plan) (text : String) : Prop :=
  ∃ (i : Nat) (step : Step), plan.steps[i]? = some step ∧ step.id = text ∧
    ∀ (j : Nat) (step' : Step), plan.steps[j]? = some step' → step'.id = text → j = i

theorem Fails.pass?_eq {target : Target} {descriptors : Descriptor.Table} {step : Step}
    {m left : Module} {fault : Fault} (fails : Fails target descriptors step m fault left) :
    fault.pass? = some step.id := by
  cases fails <;> rfl

/-- A run that fails names a pass of the plan. -/
theorem exists_step_of_fault {plan : Plan} {m left : Module} {descriptors : Descriptor.Table}
    {fault : Fault} (ran : plan.run m descriptors = (.error fault, left)) :
    ∃ (i : Nat) (step : Step), plan.steps[i]? = some step ∧ fault.pass? = some step.id := by
  rcases passesAll_or_fails plan.target descriptors plan.steps m with passes | failing
  · obtain ⟨last, passes⟩ := passes
    rw [run_of_passesAll passes] at ran
    cases ran
  · obtain ⟨before, step, after, reached, fault', left', split, passes, fails⟩ := failing
    have ended := run_of_fails passes fails after
    rw [← split] at ended
    obtain ⟨same, -⟩ := Prod.mk.inj (ended.symm.trans ran)
    obtain rfl := Except.error.inj same
    refine ⟨before.length, step, ?_, fails.pass?_eq⟩
    rw [split, List.getElem?_append_right (Nat.le_refl _), Nat.sub_self]
    rfl

/-- With distinct texts an identity of the plan is that of one step. -/
theorem namesOneStep_of_nodup {plan : Plan} (distinct : plan.names.Nodup) {i : Nat} {step : Step}
    (here : plan.steps[i]? = some step) : plan.NamesOneStep step.id := by
  refine ⟨i, step, here, rfl, fun j step' there same => ?_⟩
  have first : plan.names[i]? = some step.id := by
    rw [names, List.getElem?_map, here, Option.map_some]
  have second : plan.names[j]? = some step.id := by
    rw [names, List.getElem?_map, there, Option.map_some, same]
  obtain ⟨bound, at_i⟩ := List.getElem?_eq_some_iff.mp first
  obtain ⟨bound', at_j⟩ := List.getElem?_eq_some_iff.mp second
  exact distinct.getElem_inj_iff.mp (at_j.trans at_i.symm)

/-- The texts in the plan of registrations that all succeed are distinct exactly if those of the
registered passes are and none of them is that of a host pass; plain names are enough.  Then the pass
that a fault names is one step of the plan. -/
theorem names_distinct_iff (b : Beginning) {gs : List Registration} {registry : Registry}
    (registered : b.registry.enlistAll gs = .ok registry) {target : Target} {plan : Plan}
    (built : build target registry = .ok plan) :
    (plan.names.Nodup ↔ ((passIds gs).map (·.text)).Nodup ∧
      ∀ id ∈ passIds gs, ∀ name ∈ hostNames target, id.text ≠ hostText name) ∧
    (PlainlyNamed target (passIds gs) → plan.names.Nodup) ∧
    (plan.names.Nodup → ∀ m descriptors fault left, plan.run m descriptors = (.error fault, left) →
      ∃ text, fault.pass? = some text ∧ plan.NamesOneStep text) := by
  have holds := (Registry.Holds.beginning b).enlistAll registered
  have ids := passIds_beginning b gs
  rw [← ids]
  refine ⟨names_nodup_iff holds built, fun plain => plain.names_nodup holds built, ?_⟩
  intro distinct m descriptors fault left ran
  obtain ⟨i, step, here, named⟩ := exists_step_of_fault ran
  exact ⟨step.id, named, namesOneStep_of_nodup distinct here⟩

/-- A pass that gives up on every module. -/
def givesUp (name : String) : Extension.Pass where
  name := name
  run _ m := { module := m, stop := some (.aborted "no") }

/-- Passes of one name from two plugins, and a pass of a plugin that is called like the host. -/
def namesakes : List Registration :=
  [⟨"p", .irLowering, .lowering (restful "x"), none, none⟩,
    ⟨"q", .irLowering, .lowering (restful "x"), none, none⟩,
    ⟨"host", .irLowering, .lowering (givesUp "x"), none, none⟩]

theorem names_distinct_iff_namesakes : ∃ registry plan fault left,
    Beginning.withHost.registry.enlistAll namesakes = .ok registry ∧
    build .native registry = .ok plan ∧ PlainlyNamed .native (passIds namesakes) ∧
    plan.names.Nodup ∧ plan.run (.named "main") ⟨#[]⟩ = (.error fault, left) ∧
    fault.pass? = some "host/x" ∧ plan.NamesOneStep "host/x" := by
  have registered : ∃ registry, Beginning.withHost.registry.enlistAll namesakes = .ok registry ∧
      placedPasses registry = [⟨.last, ⟨"p/x", restful "x"⟩⟩, ⟨.last, ⟨"q/x", restful "x"⟩⟩,
        ⟨.last, ⟨"host/x", givesUp "x"⟩⟩] := by
    refine ⟨_, rfl, ?_⟩
    rw [placedPasses, Registry.loweringPasses, Registry.extensionsFor,
      List.mergeSort_of_pairwise (by decide)]
    rfl
  obtain ⟨registry, registered, placed⟩ := registered
  have built : build .native registry = .ok ⟨.native, (hostPasses .native).map hostStep ++
      [⟨"p/x", restful "x"⟩, ⟨"q/x", restful "x"⟩, ⟨"host/x", givesUp "x"⟩]⟩ := by
    unfold build
    rw [placed]
    rfl
  have plain : PlainlyNamed .native (passIds namesakes) := ⟨by decide, by decide⟩
  obtain ⟨-, apart, blames⟩ := names_distinct_iff .withHost registered built
  have distinct := apart plain
  obtain ⟨text, named, one⟩ := blames distinct (.named "main") ⟨#[]⟩ (.passAborted "host/x" "no") _ rfl
  obtain rfl := Option.some.inj named
  exact ⟨registry, _, _, _, registered, built, plain, distinct, rfl, rfl, one⟩

/-- A plugin that is called like the host can register a pass that is called like one of the host's.
Then a fault does not say which of the two it is about. -/
theorem foldConstants_registered_again : ∃ registry plan fault left,
    Beginning.withHost.registry.enlistAll
      [⟨"host", .irLowering, .lowering (givesUp "fold-constants"), none, none⟩] = .ok registry ∧
    build .native registry = .ok plan ∧
    plan.names = ["host/fold-constants", "host/eliminate-dead-code", "host/flatten-blocks",
      "host/fold-constants"] ∧ ¬ plan.names.Nodup ∧
    plan.run (.named "main") ⟨#[]⟩ = (.error fault, left) ∧
    fault.pass? = some "host/fold-constants" ∧ ¬ plan.NamesOneStep "host/fold-constants" := by
  have registered : ∃ registry, Beginning.withHost.registry.enlistAll
      [⟨"host", .irLowering, .lowering (givesUp "fold-constants"), none, none⟩] = .ok registry ∧
      placedPasses registry = [⟨.last, ⟨"host/fold-constants", givesUp "fold-constants"⟩⟩] := by
    refine ⟨_, rfl, ?_⟩
    rw [placedPasses, Registry.loweringPasses, Registry.extensionsFor,
      List.mergeSort_of_pairwise (by decide)]
    rfl
  obtain ⟨registry, registered, placed⟩ := registered
  have built : build .native registry = .ok ⟨.native, (hostPasses .native).map hostStep ++
      [⟨"host/fold-constants", givesUp "fold-constants"⟩]⟩ := by
    unfold build
    rw [placed]
    rfl
  refine ⟨registry, _, .passAborted "host/fold-constants" "no", _, registered, built, by rfl,
    by decide, rfl, rfl, fun one => ?_⟩
  obtain ⟨i, step, -, -, only⟩ := one
  have first : 0 = i := only 0 _ rfl rfl
  have last : 3 = i := only 3 _ rfl rfl
  omega

end Lowering.Plan

end StagedCompiler
