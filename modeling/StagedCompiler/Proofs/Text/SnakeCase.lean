import Mathlib.Data.List.Infix
import StagedCompiler.Text.Case

/-!
# Names in snake case

* `SnakeCase` says what a name in snake case is, and `DoublyLed` describes the names that begin with
  two underscores and would be in snake case with one of them.
* `snakeTail` carries a flag for an underscore just before; read as that underscore put back in front of
  the rest, it makes `snakeTail` a test for doubled underscores (`snakeTail_eq_true_iff`).
* `isSnakeCase` starts that test behind the first character, whatever this one is.  So it accepts the
  names in snake case and the doubly led ones (`isSnakeCase_iff_snakeCase`).
-/

namespace StagedCompiler.Text

/-- A character of names in snake case. -/
def IsSnakeChar (c : Char) : Prop := ('a' ≤ c ∧ c ≤ 'z') ∨ ('0' ≤ c ∧ c ≤ '9') ∨ c = '_'

/-- A text in which no underscore follows another. -/
def SingleUnderscores (cs : List Char) : Prop := ¬ ['_', '_'] <:+: cs

/-- A name in snake case: small letters, digits and underscores, with no digit in front and no two
underscores in a row. -/
structure SnakeCase (s : String) : Prop where
  filled : s ≠ ""
  chars : ∀ c ∈ s.toList, IsSnakeChar c
  first : ∀ c ∈ s.toList.head?, ¬ ('0' ≤ c ∧ c ≤ '9')
  single : SingleUnderscores s.toList

/-- An underscore before a name in snake case that begins with an underscore. -/
def DoublyLed (s : String) : Prop :=
  ∃ rest, s.toList = '_' :: rest ∧ rest.head? = some '_' ∧ SnakeCase (String.ofList rest)

theorem singleUnderscores_cons_iff {c : Char} {cs : List Char} :
    SingleUnderscores (c :: cs) ↔ ¬ (c = '_' ∧ cs.head? = some '_') ∧ SingleUnderscores cs := by
  have pair : ['_', '_'] <+: c :: cs ↔ c = '_' ∧ cs.head? = some '_' := by
    rw [List.cons_prefix_cons, eq_comm]
    cases cs <;> simp [eq_comm]
  rw [SingleUnderscores, List.infix_cons_iff, pair, not_or]
  rfl

theorem singleUnderscores_nil : SingleUnderscores [] := by
  simp [SingleUnderscores]

/-! ## The recogniser -/

theorem isSnakeChar_iff {c : Char} :
    IsSnakeChar c ↔ (isLowerAscii c || isDigitAscii c) = true ∨ c = '_' := by
  simp [IsSnakeChar, isLowerAscii, isDigitAscii, or_assoc]

/-- The underscore that a flag stands for. -/
def flagged (afterUnderscore : Bool) : List Char := if afterUnderscore then ['_'] else []

theorem singleUnderscores_flagged_iff {flag : Bool} {c : Char} {cs : List Char} :
    SingleUnderscores (flagged flag ++ c :: cs) ↔
      ¬ (flag = true ∧ c = '_') ∧ SingleUnderscores (c :: cs) := by
  cases flag with
  | false => simp [flagged]
  | true => simpa [flagged] using @singleUnderscores_cons_iff '_' (c :: cs)

/-- All that the flag carries over from the characters before is an underscore that stood last among
them. -/
theorem snakeTail_eq_true_iff {flag : Bool} {cs : List Char} :
    snakeTail flag cs = true ↔
      (∀ c ∈ cs, IsSnakeChar c) ∧ SingleUnderscores (flagged flag ++ cs) := by
  induction cs generalizing flag with
  | nil => cases flag <;> simp [snakeTail, flagged, singleUnderscores_nil, singleUnderscores_cons_iff]
  | cons c rest ih =>
      rw [snakeTail, List.forall_mem_cons, singleUnderscores_flagged_iff]
      by_cases underscore : c = '_'
      · subst underscore
        have char : IsSnakeChar '_' := isSnakeChar_iff.mpr (.inr rfl)
        -- A second underscore ends the test; the first one is what the flag stands for from here on.
        cases flag with
        | true => simp
        | false => simpa [char, flagged] using @ih true
      · rw [if_neg (by simpa using underscore), singleUnderscores_cons_iff, isSnakeChar_iff]
        by_cases alnum : (isLowerAscii c || isDigitAscii c) = true
        · rw [if_pos alnum, ih]
          simp [alnum, underscore, flagged]
        · rw [if_neg alnum]
          simp [alnum, underscore]

theorem first_iff {c : Char} :
    (isLowerAscii c || c == '_') = true ↔ IsSnakeChar c ∧ ¬ ('0' ≤ c ∧ c ≤ '9') := by
  have small : 'a' ≤ c → ¬ c ≤ '9' := fun above below =>
    absurd (Char.le_trans above below) (by decide)
  simp only [Bool.or_eq_true, isLowerAscii, Bool.and_eq_true, decide_eq_true_eq, beq_iff_eq, IsSnakeChar]
  constructor
  · rintro (⟨above, below⟩ | rfl)
    · exact ⟨.inl ⟨above, below⟩, fun digit => small above digit.2⟩
    · exact ⟨.inr (.inr rfl), by decide⟩
  · rintro ⟨letter | digit | underscore, noDigit⟩
    · exact .inl letter
    · exact absurd digit noDigit
    · exact .inr underscore

/-- The test for doubled underscores starts behind the first character. -/
theorem isSnakeCase_eq_true_iff {s : String} :
    isSnakeCase s = true ↔
      s.toList ≠ [] ∧ (∀ c ∈ s.toList, IsSnakeChar c) ∧
        (∀ c ∈ s.toList.head?, ¬ ('0' ≤ c ∧ c ≤ '9')) ∧ SingleUnderscores s.toList.tail := by
  rw [isSnakeCase]
  cases s.toList with
  | nil => simp
  | cons c rest =>
      rw [Bool.and_eq_true, first_iff, snakeTail_eq_true_iff, List.forall_mem_cons]
      simp only [flagged, Bool.false_eq_true, if_false, List.nil_append, List.head?_cons,
        Option.mem_some_iff, forall_eq', List.tail_cons, ne_eq, reduceCtorEq, not_false_eq_true,
        true_and]
      tauto

theorem SnakeCase.recognised {s : String} (snake : SnakeCase s) : isSnakeCase s = true := by
  have filled : s.toList ≠ [] := fun empty => snake.filled (String.toList_eq_nil_iff.mp empty)
  have behind : SingleUnderscores s.toList.tail := fun pair =>
    snake.single (pair.trans (List.tail_suffix _).isInfix)
  exact isSnakeCase_eq_true_iff.mpr ⟨filled, snake.chars, snake.first, behind⟩

theorem DoublyLed.recognised {s : String} (led : DoublyLed s) : isSnakeCase s = true := by
  obtain ⟨rest, split, _, snake⟩ := led
  have chars := snake.chars
  have single := snake.single
  rw [String.toList_ofList] at chars single
  rw [isSnakeCase_eq_true_iff, split]
  refine ⟨List.cons_ne_nil _ _, List.forall_mem_cons.mpr ⟨.inr (.inr rfl), chars⟩, ?_, single⟩
  rintro c ⟨⟩
  decide

theorem DoublyLed.not_snakeCase {s : String} (led : DoublyLed s) : ¬ SnakeCase s := by
  obtain ⟨rest, split, again, _⟩ := led
  intro snake
  have single := snake.single
  rw [split, singleUnderscores_cons_iff] at single
  exact single.1 ⟨rfl, again⟩

/-- A recognised name without the two underscores at its start has no two in a row anywhere. -/
theorem snakeCase_or_doublyLed {s : String} (accepted : isSnakeCase s = true) :
    SnakeCase s ∨ DoublyLed s := by
  obtain ⟨filled, chars, first, behind⟩ := isSnakeCase_eq_true_iff.mp accepted
  obtain ⟨c, rest, split⟩ := List.exists_cons_of_ne_nil filled
  have named : s ≠ "" := fun empty => filled (String.toList_eq_nil_iff.mpr empty)
  by_cases led : c = '_' ∧ rest.head? = some '_'
  · right
    obtain ⟨rfl, again⟩ := led
    rw [split] at chars behind
    have begun : String.ofList rest ≠ "" := by
      rintro empty
      rw [← String.toList_eq_nil_iff, String.toList_ofList] at empty
      simp [empty] at again
    refine ⟨rest, split, again, begun, ?_, ?_, ?_⟩ <;> rw [String.toList_ofList]
    · exact (List.forall_mem_cons.mp chars).2
    · rw [again]
      rintro d ⟨⟩
      decide
    · exact behind
  · left
    refine ⟨named, chars, first, ?_⟩
    rw [split] at behind ⊢
    exact singleUnderscores_cons_iff.mpr ⟨led, behind⟩

/-- The recogniser accepts the names in snake case, and beyond them those that begin with two
underscores and are in snake case with one of them.  So it is right about a name exactly if the name
is not of the second sort. -/
theorem isSnakeCase_iff_snakeCase (s : String) :
    (isSnakeCase s = true ↔ SnakeCase s ∨ DoublyLed s) ∧
      ((isSnakeCase s = true ↔ SnakeCase s) ↔ ¬ DoublyLed s) := by
  have sound := @snakeCase_or_doublyLed s
  have complete := @SnakeCase.recognised s
  have lapse := @DoublyLed.recognised s
  have apart := @DoublyLed.not_snakeCase s
  tauto

/-- Two underscores are accepted, three are not. -/
theorem isSnakeCase_twoUnderscores :
    isSnakeCase "__" = true ∧ ¬ SnakeCase "__" ∧ isSnakeCase "___" = false := by
  refine ⟨by decide +kernel, fun snake => snake.single ?_, by decide +kernel⟩
  exact List.infix_refl _

end StagedCompiler.Text
