import Mathlib.Data.List.TakeWhile
import StagedCompiler.Text.Blank

/-!
# What trimming leaves of a text

Trimming takes off the blanks at both ends and nothing else: what is left has no blank at either end,
and there is only one such part of a text with nothing but blanks around it (`trims_iff`).
-/

namespace StagedCompiler.Text

/-- A text with nothing but blanks in it. -/
def Blank (cs : List Char) : Prop := ∀ c ∈ cs, isBlank c = true

/-- A text without a blank at either end. -/
structure Tight (cs : List Char) : Prop where
  first : ∀ c ∈ cs.head?, isBlank c = false
  last : ∀ c ∈ cs.getLast?, isBlank c = false

/-- `inner` is what stands in `cs` between the blanks at both ends. -/
structure Trims (cs inner : List Char) : Prop where
  tight : Tight inner
  around : ∃ front back, Blank front ∧ Blank back ∧ cs = front ++ inner ++ back

theorem blank_append_iff {cs ds : List Char} : Blank (cs ++ ds) ↔ Blank cs ∧ Blank ds :=
  List.forall_mem_append

theorem tight_nil : Tight [] := ⟨by simp, by simp⟩

theorem Tight.trims {cs : List Char} (tight : Tight cs) : Trims cs cs :=
  ⟨tight, [], [], by simp [Blank], by simp [Blank], by simp⟩

/-- A text without blanks is tight. -/
theorem tight_of_visible {cs : List Char} (visible : cs.any isBlank = false) : Tight cs := by
  have each : ∀ c ∈ cs, isBlank c = false := by simpa using visible
  exact ⟨fun c here => each c (List.mem_of_head? here),
    fun c here => each c (List.mem_of_getLast? here)⟩

/-- A text is tight if it begins and ends with tight parts. -/
theorem tight_append {front middle back : List Char} (before : Tight front) (behind : Tight back)
    (begun : front ≠ []) (ended : back ≠ []) : Tight (front ++ middle ++ back) := by
  constructor
  · rw [List.append_assoc, List.head?_append, List.head?_eq_some_head begun, Option.some_or,
      ← List.head?_eq_some_head begun]
    exact before.first
  · rw [List.getLast?_append, List.getLast?_eq_some_getLast ended, Option.some_or,
      ← List.getLast?_eq_some_getLast ended]
    exact behind.last

theorem trimStart_of_blank {cs : List Char} (blank : Blank cs) : trimStart cs = [] :=
  List.dropWhile_eq_nil_iff.mpr blank

theorem trimStart_append {front rest : List Char} (blank : Blank front)
    (first : ∀ c ∈ rest.head?, isBlank c = false) : trimStart (front ++ rest) = rest := by
  rw [trimStart, List.dropWhile_append_of_pos blank]
  cases rest with
  | nil => rfl
  | cons c rest =>
      have visible : isBlank c = false := first c rfl
      exact List.dropWhile_cons_of_neg (by rw [visible]; decide)

theorem trimEnd_append {rest back : List Char} (blank : Blank back)
    (last : ∀ c ∈ rest.getLast?, isBlank c = false) : trimEnd (rest ++ back) = rest := by
  have backwards : trimStart (back.reverse ++ rest.reverse) = rest.reverse := by
    apply trimStart_append
    · exact fun c member => blank c (List.mem_reverse.mp member)
    · rwa [List.head?_reverse]
  rw [trimEnd, List.reverse_append]
  exact (congrArg List.reverse backwards).trans (List.reverse_reverse rest)

theorem trimChars_trims (cs : List Char) : Trims cs (trimChars cs) := by
  let front := cs.takeWhile isBlank
  let rest := trimStart cs
  let back := (rest.reverse.takeWhile isBlank).reverse
  have whole : cs = front ++ rest := List.takeWhile_append_dropWhile.symm
  have halves : rest = trimEnd rest ++ back := by
    rw [trimEnd, ← List.reverse_append, List.takeWhile_append_dropWhile, List.reverse_reverse]
  refine ⟨⟨fun c here => ?_, fun c here => ?_⟩, front, back, fun c member => ?_, fun c member => ?_, ?_⟩
  · -- What begins the trimmed text begins the text behind the blanks in front.
    have begins : rest.head? = some c := by
      rw [halves, List.head?_append]
      exact Option.or_eq_some_iff.mpr (.inl here)
    have visible := List.head?_dropWhile_not isBlank cs
    rw [show (cs.dropWhile isBlank).head? = some c from begins] at visible
    simpa using visible
  · rw [trimChars, trimEnd, List.getLast?_reverse] at here
    have visible := List.head?_dropWhile_not isBlank rest.reverse
    rw [show (rest.reverse.dropWhile isBlank).head? = some c from here] at visible
    simpa using visible
  · exact List.mem_takeWhile_imp member
  · exact List.mem_takeWhile_imp (List.mem_reverse.mp member)
  · rw [trimChars, List.append_assoc, ← halves]
    exact whole

/-- A text has one trimmed form only. -/
theorem trims_iff {cs inner : List Char} : Trims cs inner ↔ trimChars cs = inner := by
  constructor
  · rintro ⟨tight, front, back, before, behind, rfl⟩
    cases inner with
    | nil =>
        have blank : Blank (front ++ [] ++ back) := by
          rw [List.append_nil, blank_append_iff]
          exact ⟨before, behind⟩
        rw [trimChars, trimStart_of_blank blank]
        rfl
    | cons c rest =>
        have begins : ∀ d ∈ (c :: rest ++ back).head?, isBlank d = false := tight.first
        rw [trimChars, List.append_assoc, trimStart_append before begins,
          trimEnd_append behind tight.last]
  · rintro rfl
    exact trimChars_trims cs

theorem trimChars_eq_nil_iff {cs : List Char} : trimChars cs = [] ↔ Blank cs := by
  rw [← trims_iff]
  constructor
  · rintro ⟨-, front, back, before, behind, rfl⟩
    rw [List.append_nil, blank_append_iff]
    exact ⟨before, behind⟩
  · intro blank
    exact ⟨tight_nil, cs, [], blank, by simp [Blank], by simp⟩

end StagedCompiler.Text
