import Mathlib.Data.List.Forall2
import StagedCompiler.Proofs.Module.Meaning

/-!
# Outlines with the same meaning

`Outline.Alike` says that two outlines behave alike as expressions, as statements and as functions,
whatever the oracle and the environment.  A node keeps its meaning if the nodes below it are
exchanged for others that behave alike (`Alike.node`), so a change that keeps the meaning of one node
keeps the meaning of everything above it.
-/

namespace StagedCompiler.Module.Outline

/-- Two outlines that behave alike in every place. -/
structure Alike (o o' : Outline) : Prop where
  evaluate : ∀ oracle env, o.evaluate oracle env = o'.evaluate oracle env
  execute : ∀ oracle env, o.execute oracle env = o'.execute oracle env
  runFunction : ∀ oracle env, o.runFunction oracle env = o'.runFunction oracle env

namespace Alike

theorem refl (o : Outline) : Alike o o := ⟨fun _ _ => rfl, fun _ _ => rfl, fun _ _ => rfl⟩

/-- What is alike to something alike is alike. -/
theorem trans {o o' o'' : Outline} (first : Alike o o') (second : Alike o' o'') : Alike o o'' :=
  ⟨fun oracle env => (first.evaluate oracle env).trans (second.evaluate oracle env),
    fun oracle env => (first.execute oracle env).trans (second.execute oracle env),
    fun oracle env => (first.runFunction oracle env).trans (second.runFunction oracle env)⟩

variable {cs cs' : List Outline}

/-- Lists of alike expressions evaluate to the same. -/
theorem evaluateAll (alike : List.Forall₂ Alike cs cs') (oracle : Oracle) (env : Env) :
    Outline.evaluateAll oracle env cs = Outline.evaluateAll oracle env cs' := by
  induction alike with
  | nil => rfl
  | cons first _ ih => rw [Outline.evaluateAll, Outline.evaluateAll, first.evaluate, ih]

/-- Lists of alike statements do the same. -/
theorem executeAll (alike : List.Forall₂ Alike cs cs') (oracle : Oracle) (env : Env) :
    Outline.executeAll oracle env cs = Outline.executeAll oracle env cs' := by
  induction alike generalizing env with
  | nil => rfl
  | cons first _ ih =>
      rw [Outline.executeAll, Outline.executeAll, first.execute]
      congr 1
      funext flow
      cases flow with
      | next env => exact ih env
      | returned v => rfl

/-- The last ones of two lists that behave alike behave alike. -/
theorem getLast? (alike : List.Forall₂ Alike cs cs') :
    (cs.getLast? = none ∧ cs'.getLast? = none) ∨
      ∃ o o', cs.getLast? = some o ∧ cs'.getLast? = some o' ∧ Alike o o' := by
  rw [← List.forall₂_reverse_iff] at alike
  rw [List.getLast?_eq_head?_reverse, List.getLast?_eq_head?_reverse]
  generalize cs.reverse = back, cs'.reverse = back' at alike
  cases alike with
  | nil => exact Or.inl ⟨rfl, rfl⟩
  | cons last _ => exact Or.inr ⟨_, _, rfl, rfl, last⟩

variable {k : Kind} {d : Option DescriptorId} {ty : Ty}

/-- An expression with alike children evaluates to the same, by cases on its kind. -/
theorem evaluate_node (alike : List.Forall₂ Alike cs cs') (oracle : Oracle) (env : Env) :
    (Outline.node k d ty cs).evaluate oracle env = (Outline.node k d ty cs').evaluate oracle env := by
  cases k with
  | call =>
      cases d with
      | none => rfl
      | some d => rw [Outline.evaluate, Outline.evaluate, evaluateAll alike]
  | fieldGet =>
      cases d with
      | none => rfl
      | some d =>
          cases alike with
          | nil => rfl
          | cons first rest =>
              cases rest with
              | nil => rw [Outline.evaluate, Outline.evaluate, first.evaluate]
              | cons _ _ => rfl
  | binary op =>
      cases alike with
      | nil => rfl
      | cons first rest =>
          cases rest with
          | nil => rfl
          | cons second rest =>
              cases rest with
              | nil => rw [Outline.evaluate, Outline.evaluate, first.evaluate, second.evaluate]
              | cons _ _ => rfl
  | localRef => cases d <;> rfl
  | module | file | cls | field | function | param | block | letBind | ret | eval | constant => rfl

/-- A statement with alike children does the same, by cases on its kind. -/
theorem execute_node (alike : List.Forall₂ Alike cs cs') (oracle : Oracle) (env : Env) :
    (Outline.node k d ty cs).execute oracle env = (Outline.node k d ty cs').execute oracle env := by
  cases k with
  | block => rw [Outline.execute, Outline.execute, executeAll alike]
  | letBind name =>
      cases d with
      | none => rfl
      | some d =>
          cases alike with
          | nil => rfl
          | cons first rest =>
              cases rest with
              | nil => rw [Outline.execute, Outline.execute, first.evaluate]
              | cons _ _ => rfl
  | eval | ret =>
      cases alike with
      | nil => rfl
      | cons first rest =>
          cases rest with
          | nil => rw [Outline.execute, Outline.execute, first.evaluate]
          | cons _ _ => rfl
  | module | file | cls | field | function | param | call | fieldGet | localRef | constant
  | binary => rfl

/-- A function with an alike body runs in the same way. -/
theorem runFunction_node (alike : List.Forall₂ Alike cs cs') (oracle : Oracle) (env : Env) :
    (Outline.node k d ty cs).runFunction oracle env =
      (Outline.node k d ty cs').runFunction oracle env := by
  cases k with
  | function name =>
      rw [Outline.runFunction, Outline.runFunction]
      rcases getLast? alike with ⟨none, none'⟩ | ⟨o, o', last, last', same⟩
      · rw [none, none']
      · rw [last, last']
        simp only [same.execute]
  | module | file | cls | field | param | block | letBind | ret | eval | call | fieldGet | localRef
  | constant | binary => rfl

/-- A node keeps its meaning if what is below it does. -/
theorem node (alike : List.Forall₂ Alike cs cs') : Alike (.node k d ty cs) (.node k d ty cs') :=
  ⟨evaluate_node alike, execute_node alike, runFunction_node alike⟩

end Alike

end StagedCompiler.Module.Outline
