import Mathlib.Data.List.Infix
import StagedCompiler.Text.Span

/-!
# Where a pattern occurs in a text

* `occurrences` lists the places at which a pattern begins, each as the number of bytes before it
  (`mem_occurrences_iff`).  There is one exactly if the pattern is a part of the text.
* `DisjointMatches` says what a reader meets who looks for the first match and goes on behind it.  The
  text determines these places (`DisjointMatches.unique`), and `disjointOccurrences` lists them
  (`disjointMatches_disjointOccurrences`).
-/

namespace StagedCompiler.Text

/-! ## Bytes of a text -/

theorem byteLength_append (cs ds : List Char) :
    byteLength (cs ++ ds) = byteLength cs + byteLength ds := by
  induction cs with
  | nil => simp [byteLength]
  | cons c rest ih => simp [byteLength, ih, Nat.add_assoc]

theorem byteLength_eq_zero_iff {cs : List Char} : byteLength cs = 0 ↔ cs = [] := by
  cases cs with
  | nil => simp [byteLength]
  | cons c rest => simp [byteLength, Nat.ne_of_gt c.utf8Size_pos]

/-- Two beginnings of a text that take equally many bytes are the same. -/
theorem eq_of_prefix_of_byteLength {front front' text : List Char} (begins : front <+: text)
    (begins' : front' <+: text) (same : byteLength front = byteLength front') : front = front' := by
  rcases List.prefix_or_prefix_of_prefix begins begins' with ⟨more, rfl⟩ | ⟨more, rfl⟩ <;>
    rw [byteLength_append] at same
  · rw [byteLength_eq_zero_iff.mp (by omega : byteLength more = 0), List.append_nil]
  · rw [byteLength_eq_zero_iff.mp (by omega : byteLength more = 0), List.append_nil]

/-! ## All places -/

/-- `pattern` stands in `text`, whose first byte is the one at `offset`, at the byte `place`. -/
def StandsAt (pattern text : List Char) (offset place : Nat) : Prop :=
  ∃ front, front ++ pattern <+: text ∧ place = offset + byteLength front

variable {pattern text : List Char} {offset place : Nat}

theorem standsAt_nil_iff : StandsAt pattern [] offset place ↔ pattern = [] ∧ place = offset := by
  constructor
  · rintro ⟨front, begins, rfl⟩
    obtain ⟨rfl, rfl⟩ := List.append_eq_nil_iff.mp (List.prefix_nil.mp begins)
    exact ⟨rfl, rfl⟩
  · rintro ⟨rfl, rfl⟩
    exact ⟨[], List.prefix_refl _, rfl⟩

/-- A pattern stands at the first character of a text or in what is behind this. -/
theorem standsAt_cons_iff {c : Char} :
    StandsAt pattern (c :: text) offset place ↔
      (pattern <+: c :: text ∧ place = offset) ∨ StandsAt pattern text (offset + c.utf8Size) place := by
  constructor
  · rintro ⟨front, begins, rfl⟩
    cases front with
    | nil => exact .inl ⟨begins, rfl⟩
    | cons d front =>
        obtain ⟨rfl, later⟩ := List.cons_prefix_cons.mp begins
        exact .inr ⟨front, later, by simp [byteLength, Nat.add_assoc]⟩
  · rintro (⟨begins, rfl⟩ | ⟨front, begins, rfl⟩)
    · exact ⟨[], begins, rfl⟩
    · exact ⟨c :: front, List.cons_prefix_cons.mpr ⟨rfl, begins⟩, by simp [byteLength, Nat.add_assoc]⟩

theorem mem_occurrences_iff :
    place ∈ occurrences pattern text offset ↔ StandsAt pattern text offset place := by
  induction text generalizing offset with
  | nil => cases pattern <;> simp [occurrences, standsAt_nil_iff]
  | cons c rest ih =>
      rw [occurrences, standsAt_cons_iff, ← ih]
      by_cases begins : pattern <+: c :: rest
      · simp [begins]
      · simp [begins]

theorem infix_iff_exists_standsAt :
    pattern <:+: text ↔ ∃ place, StandsAt pattern text offset place := by
  constructor
  · rintro ⟨front, back, whole⟩
    exact ⟨_, front, ⟨back, whole⟩, rfl⟩
  · rintro ⟨_, front, ⟨back, whole⟩, _⟩
    exact ⟨front, back, whole⟩

/-- There are places in the list exactly if the pattern is a part of the text. -/
theorem occurrences_ne_nil_iff : occurrences pattern text offset ≠ [] ↔ pattern <:+: text := by
  rw [@infix_iff_exists_standsAt pattern text offset, ne_eq, List.eq_nil_iff_forall_not_mem]
  simp only [mem_occurrences_iff, not_forall, not_not]

/-! ## Places that do not overlap -/

/-- The places at which a reader meets the pattern who takes its first place in the text and goes on
behind it in the same way. -/
inductive DisjointMatches (pattern : List Char) : List Char → Nat → List Nat → Prop
  | done {text : List Char} {offset : Nat} : ¬ pattern <:+: text → DisjointMatches pattern text offset []
  | next {text front back : List Char} {offset : Nat} {places : List Nat} :
    text = front ++ pattern ++ back →
    (∀ front', front' ++ pattern <+: text → front.length ≤ front'.length) →
    DisjointMatches pattern back (offset + byteLength (front ++ pattern)) places →
    DisjointMatches pattern text offset ((offset + byteLength front) :: places)

namespace DisjointMatches

variable {places places' : List Nat}

/-- A character at which the pattern does not begin changes nothing about what is met. -/
theorem cons {c : Char} (absent : ¬ pattern <+: c :: text)
    (met : DisjointMatches pattern text (offset + c.utf8Size) places) :
    DisjointMatches pattern (c :: text) offset places := by
  cases met with
  | done none => exact .done fun part => (List.infix_cons_iff.mp part).elim absent none
  | @next _ front back _ places whole least met =>
      have shift (cs : List Char) :
          offset + c.utf8Size + byteLength cs = offset + byteLength (c :: cs) := by
        simp [byteLength, Nat.add_assoc]
      rw [shift] at met ⊢
      refine @next _ _ (c :: front) back _ _ (by simp [whole]) (fun front' begins => ?_) met
      cases front' with
      | nil => exact absurd begins absent
      | cons d front' => simpa using least front' (List.cons_prefix_cons.mp begins).2

/-- The places are determined. -/
theorem unique (met : DisjointMatches pattern text offset places)
    (met' : DisjointMatches pattern text offset places') : places = places' := by
  induction met generalizing places' with
  | done none =>
      cases met' with
      | done _ => rfl
      | @next _ front back _ _ whole _ _ => exact absurd ⟨front, back, whole.symm⟩ none
  | @next text front back _ _ whole least _ ih =>
      cases met' with
      | done none => exact absurd ⟨front, back, whole.symm⟩ none
      | @next _ front' back' _ _ whole' least' met' =>
          have lengths : front.length = front'.length :=
            Nat.le_antisymm (least _ ⟨back', whole'.symm⟩) (least' _ ⟨back, whole.symm⟩)
          have both := whole.symm.trans whole'
          simp only [List.append_assoc] at both
          obtain ⟨rfl, rest⟩ := List.append_inj both lengths
          obtain rfl := List.append_cancel_left rest
          rw [ih met']

theorem standsAt (met : DisjointMatches pattern text offset places) (member : place ∈ places) :
    StandsAt pattern text offset place := by
  induction met with
  | done => cases member
  | @next text front back offset places whole _ _ ih =>
      rcases List.mem_cons.mp member with rfl | later
      · exact ⟨front, ⟨back, whole.symm⟩, rfl⟩
      · obtain ⟨front', begins, rfl⟩ := ih later
        refine ⟨front ++ pattern ++ front', ?_, by simp [byteLength_append, Nat.add_assoc]⟩
        rw [whole, List.append_assoc]
        exact (List.prefix_append_right_inj _).mpr begins

/-- Each match ends before the next one begins. -/
theorem apart (met : DisjointMatches pattern text offset places) :
    places.Pairwise (fun a b => a + byteLength pattern ≤ b) := by
  induction met with
  | done => exact .nil
  | @next text front back offset places _ _ met ih =>
      refine .cons (fun place member => ?_) ih
      obtain ⟨_, _, rfl⟩ := met.standsAt member
      rw [byteLength_append]
      omega

end DisjointMatches

/-- The characters that still belong to the match before are passed over. -/
theorem disjointMatches_disjointOccurrences_drop (filled : pattern ≠ []) (skip : Nat) :
    DisjointMatches pattern (text.drop skip) (offset + byteLength (text.take skip))
      (disjointOccurrences pattern skip text offset) := by
  induction text generalizing skip offset with
  | nil =>
      rw [disjointOccurrences, List.drop_nil]
      exact .done fun part => filled (List.eq_nil_of_infix_nil part)
  | cons c rest ih =>
      cases skip with
      | succ skip =>
          have later := @ih (offset + c.utf8Size) skip
          rwa [Nat.add_assoc] at later
      | zero =>
          rw [disjointOccurrences, List.drop_zero, List.take_zero]
          split
          · rename_i begins
            obtain ⟨back, whole⟩ := List.isPrefixOf_iff_prefix.mp begins
            cases pattern with
            | nil => exact absurd rfl filled
            | cons d more =>
                obtain ⟨rfl, same⟩ := List.cons.inj whole
                change more ++ back = rest at same
                have later := @ih (offset + d.utf8Size) more.length
                rw [← same, List.drop_left, List.take_left, Nat.add_assoc, same] at later
                exact @DisjointMatches.next _ _ [] back _ _ whole.symm (fun _ _ => Nat.zero_le _) later
          · rename_i absent
            rw [List.isPrefixOf_iff_prefix] at absent
            exact (@ih (offset + c.utf8Size) 0).cons absent

/-- The listed places are those that a reader meets. -/
theorem disjointMatches_disjointOccurrences (filled : pattern ≠ []) :
    DisjointMatches pattern text offset (disjointOccurrences pattern 0 text offset) :=
  disjointMatches_disjointOccurrences_drop filled 0

end StagedCompiler.Text
