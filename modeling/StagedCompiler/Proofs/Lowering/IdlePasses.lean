import StagedCompiler.Proofs.Analysis.Reranking
import StagedCompiler.Proofs.Lowering.Merging

/-!
# Passes that change nothing

A pass that leaves every module as it is can stand anywhere in a plan.  The plan of a registry with such
a pass has the steps of the other plan with the idle one in between (`build_inserted`), and it does the
same to every module that verifies (`run_padded`): the verification behind the idle pass looks at a
module that has been verified already.
-/

namespace StagedCompiler.Lowering.Plan

/-- The same steps, with idle ones in between. -/
def IdlePadded : List Step → List Step → Prop :=
  Padded Eq fun step => step.pass.Idle

/-! ## Runs -/

section Runs

variable {target : Target} {D : Descriptor.Table} {m : Module}

theorem runStep_idle {step : Step} (idle : step.pass.Idle) (verified : m.verify D = .ok ()) :
    runStep target D step m = (.ok (), m) := by
  simp only [runStep, idle _ m, verified]

theorem verify_of_runStep {step : Step} {m' : Module} (ran : runStep target D step m = (.ok (), m')) :
    m'.verify D = .ok () := by
  unfold runStep at ran
  dsimp only at ran
  split at ran
  · cases ran
  · split at ran
    · cases ran
    · rename_i verified
      obtain rfl := (Prod.mk.inj ran).2
      exact verified

theorem runSteps_padded {steps steps' : List Step} (padded : IdlePadded steps steps')
    (verified : m.verify D = .ok ()) : runSteps target D steps' m = runSteps target D steps m := by
  induction padded generalizing m with
  | nil => rfl
  | skip idle _ ih =>
      rw [runSteps, runStep_idle idle verified]
      exact ih verified
  | keep same _ ih =>
      obtain rfl := same
      rename_i step _ _ _
      rw [runSteps, runSteps]
      rcases ran : runStep target D step m with ⟨fault | _, m'⟩
      · rfl
      · exact ih (verify_of_runStep ran)

/-- Idle passes make no difference to a module that verifies. -/
theorem run_padded {plan plan' : Plan} (same : plan'.target = plan.target)
    (padded : IdlePadded plan.steps plan'.steps) (verified : m.verify D = .ok ()) :
    plan'.run m D = plan.run m D := by
  rw [run, run, same, runSteps_padded padded verified]

end Runs

/-! ## Plans -/

section Plans

variable {placed placed' : List Placed}

/-- An idle pass in a place that the target has. -/
def IdlePlaced (target : Target) (p : Placed) : Prop :=
  p.step.pass.Idle ∧ ∀ anchor, p.placement.anchor? = some anchor → anchor ∈ hostNames target

theorem IdlePlaced.anchored {target : Target} {p : Placed} (idle : IdlePlaced target p) :
    ¬ p.Strays target := by
  intro strays
  obtain ⟨anchor, named, missing⟩ := strays
  exact missing (idle.2 anchor named)

section Padded

variable {target : Target} (padded : Padded Eq (IdlePlaced target) placed placed')
include padded

theorem slot_padded (placement : Placement) :
    Padded Eq (fun p : Placed => p.step.pass.Idle) (slot placed placement) (slot placed' placement) := by
  induction padded with
  | nil => exact .nil
  | keep same _ ih =>
      obtain rfl := same
      rw [slot_cons, slot_cons]
      split
      · exact .keep rfl ih
      · exact ih
  | skip idle _ ih =>
      rw [slot_cons]
      split
      · exact .skip idle.1 ih
      · exact ih

theorem plugins_padded (placement : Placement) :
    Padded Eq (fun entry : Entry => entry.step.pass.Idle) ((slot placed placement).map .plugin)
      ((slot placed' placement).map .plugin) := by
  apply (slot_padded padded placement).map
  · intro p q same
    rw [same]
  · intro p idle
    exact idle

theorem around_padded (pass : Extension.Pass) :
    Padded Eq (fun entry : Entry => entry.step.pass.Idle) (around placed pass)
      (around placed' pass) :=
  (plugins_padded padded _).append (.keep rfl (plugins_padded padded _))

theorem merged_padded :
    Padded Eq (fun entry : Entry => entry.step.pass.Idle) (merged target placed)
      (merged target placed') := by
  have hosts : Padded Eq (fun entry : Entry => entry.step.pass.Idle)
      ((hostPasses target).flatMap (around placed)) ((hostPasses target).flatMap (around placed')) := by
    induction hostPasses target with
    | nil => exact .nil
    | cons pass _ ih => exact (around_padded padded pass).append ih
  exact (plugins_padded padded _).append (hosts.append (plugins_padded padded _))

/-- Idle passes in places that the target has do not stray. -/
theorem anchored_padded (anchored : ∀ p ∈ placed, ¬ p.Strays target) :
    ∀ p ∈ placed', ¬ p.Strays target := by
  induction padded with
  | nil => exact anchored
  | keep same _ ih =>
      obtain rfl := same
      rw [List.forall_mem_cons] at anchored ⊢
      exact ⟨anchored.1, ih anchored.2⟩
  | skip idle _ ih => exact List.forall_mem_cons.mpr ⟨idle.anchored, ih anchored⟩

end Padded

/-- The member at a place of a list has its counterpart in the longer list, and so has what stands in
front of it. -/
theorem exists_split_of_padded {α β : Type} {related : α → β → Prop} {extra : β → Prop}
    {as front back : List α} {a : α} {bs : List β} (padded : Padded related extra as bs)
    (split : as = front ++ a :: back) :
    ∃ front' b back', bs = front' ++ b :: back' ∧ Padded related extra front front' ∧
      related a b := by
  induction padded generalizing front with
  | nil => simp at split
  | @keep a' b' as' bs' same _ ih =>
      cases front with
      | nil =>
          obtain ⟨rfl, -⟩ := List.cons.inj split
          exact ⟨[], b', bs', rfl, .nil, same⟩
      | cons c front =>
          obtain ⟨rfl, later⟩ := List.cons.inj split
          obtain ⟨front', b, back', rfl, before, here⟩ := ih later
          exact ⟨b' :: front', b, back', rfl, .keep same before, here⟩
  | @skip b' as' bs' more _ ih =>
      obtain ⟨front', b, back', rfl, before, here⟩ := ih split
      exact ⟨b' :: front', b, back', rfl, .skip more before, here⟩

/-- With one more extension that does nothing, in a place that the target has, planning fails in the same
way or gives a plan with the same steps and idle ones in between. -/
theorem build_inserted {n : Nat} {x : Registry.Record} {r r' : Registry} {target : Target}
    (inserted : Registry.Inserted n x r r') (inert : x.extension.Inert)
    (valid : ∀ anchor, (x.placement.getD default).anchor? = some anchor → anchor ∈ hostNames target) :
    (∃ e, build target r = .error e ∧ build target r' = .error e) ∨
      ∃ plan plan', build target r = .ok plan ∧ build target r' = .ok plan' ∧
        plan'.target = plan.target ∧ IdlePadded plan.steps plan'.steps := by
  have padded : Padded Eq (IdlePlaced target) (placedPasses r) (placedPasses r') := by
    apply (inserted.loweringPasses inert).map
    · rintro ⟨record, pass⟩ _ rfl
      rfl
    · rintro ⟨record, pass⟩ ⟨rfl, idle⟩
      exact ⟨idle, valid⟩
  rcases anchored_or_strays target (placedPasses r) with anchored | found
  · refine Or.inr ⟨_, _, build_of_anchored anchored,
      build_of_anchored (anchored_padded padded anchored), rfl, ?_⟩
    apply (merged_padded padded).map
    · intro entry entry' same
      rw [same]
    · intro entry idle
      exact idle
  · obtain ⟨front, p, back, anchor, split, anchored, strays⟩ := found
    obtain ⟨front', q, back', split', before, rfl⟩ := exists_split_of_padded padded split
    exact Or.inl ⟨_, build_of_straysTo split anchored strays,
      build_of_straysTo split' (anchored_padded before anchored) strays⟩

end Plans

end StagedCompiler.Lowering.Plan
