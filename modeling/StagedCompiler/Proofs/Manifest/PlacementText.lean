import Mathlib.Data.Set.Function
import StagedCompiler.Manifest.Placement
import StagedCompiler.Proofs.Text.Trimming

/-!
# The texts of placements

* `Placement.Spelled` is the grammar of placements: a word, or a position, a colon and an anchor, each
  with blanks around it.  `parse` accepts exactly the texts of this grammar (`parse_eq_ok_iff`).
* A placement that was read is written without blanks, and reading that text gives the placement back,
  whatever stands in the anchor: the position holds no colon, so the first colon is the one behind it.
-/

namespace StagedCompiler.Placement

open Text (Trims Tight trims_iff trimChars_trims tight_append tight_of_visible)

/-! ## The grammar -/

/-- The words for positions, each with the placement that it makes of an anchor. -/
def positions : List (String × (String → Placement)) := [("before", .before), ("after", .after)]

/-- The characters of a text that stands for a placement.  The position reaches up to the first colon;
the anchor behind it may hold more colons. -/
inductive Spelled (cs : List Char) : Placement → Prop
  | first : Trims cs "first".toList → Spelled cs .first
  | last : Trims cs "last".toList → Spelled cs .last
  | anchored {position : String} {place : String → Placement} {front back anchor : List Char} :
    (position, place) ∈ positions → Trims cs (front ++ ':' :: back) → ':' ∉ front →
    Trims front position.toList → Trims back anchor → anchor ≠ [] →
    Spelled cs (place (String.ofList anchor))

theorem eq_of_mem_positions {position : String} {place : String → Placement}
    (member : (position, place) ∈ positions) :
    position = "before" ∧ place = .before ∨ position = "after" ∧ place = .after := by
  simpa [positions] using member

/-- The colon at which a text is split is its first one. -/
theorem splitColon?_eq_some_iff {cs front back : List Char} :
    splitColon? cs = some (front, back) ↔ cs = front ++ ':' :: back ∧ ':' ∉ front := by
  induction cs generalizing front with
  | nil => simp [splitColon?]
  | cons c rest ih =>
      rw [splitColon?]
      by_cases colon : c = ':'
      · subst colon
        cases front with
        | nil => simp
        | cons d front =>
            refine iff_of_false (by simp) fun ⟨same, free⟩ => free ?_
            rw [(List.cons.inj same).1]
            exact List.mem_cons_self
      · rw [if_neg (by simpa using colon), Option.map_eq_some_iff]
        constructor
        · rintro ⟨⟨front', back'⟩, found, same⟩
          obtain ⟨rfl, rfl⟩ := Prod.mk.inj same
          obtain ⟨rfl, free⟩ := ih.mp found
          exact ⟨rfl, by simpa [Ne.symm colon] using free⟩
        · rintro ⟨same, free⟩
          cases front with
          | nil => exact absurd (List.cons.inj same).1 colon
          | cons d front =>
              obtain ⟨rfl, rfl⟩ := List.cons.inj same
              exact ⟨(front, back), ih.mpr ⟨rfl, fun member => free (List.mem_cons_of_mem _ member)⟩,
                rfl⟩

/-- A position, a colon and something else are neither of the two words. -/
theorem ne_word_of_colon {front back word : List Char} (free : ':' ∉ word) :
    front ++ ':' :: back ≠ word := by
  rintro rfl
  exact free (by simp)

theorem parse_of_colon {s : String} {front back : List Char}
    (trims : Trims s.toList (front ++ ':' :: back)) (free : ':' ∉ front) :
    parse s =
      if Text.trimChars back = [] then .error (.noAnchor (String.ofList (front ++ ':' :: back)))
      else if Text.trimChars front = "before".toList then
        .ok (.before (String.ofList (Text.trimChars back)))
      else if Text.trimChars front = "after".toList then
        .ok (.after (String.ofList (Text.trimChars back)))
      else .error (.badPosition (String.ofList (Text.trimChars front))) := by
  have split : splitColon? (front ++ ':' :: back) = some (front, back) :=
    splitColon?_eq_some_iff.mpr ⟨rfl, free⟩
  rw [parse, trims_iff.mp trims]
  dsimp only
  rw [if_neg (ne_word_of_colon (by decide)), if_neg (ne_word_of_colon (by decide)), split]

theorem parse_of_spelled {s : String} {p : Placement} (spelled : Spelled s.toList p) :
    parse s = .ok p := by
  cases spelled with
  | first trims => rw [parse, trims_iff.mp trims]; rfl
  | last trims => rw [parse, trims_iff.mp trims]; rfl
  | @anchored position place front back anchor member trims free before behind filled =>
      rw [parse_of_colon trims free, trims_iff.mp behind, trims_iff.mp before, if_neg filled]
      rcases eq_of_mem_positions member with ⟨rfl, rfl⟩ | ⟨rfl, rfl⟩ <;> rfl

theorem spelled_of_parse {s : String} {p : Placement} (parsed : parse s = .ok p) :
    Spelled s.toList p := by
  have trims := trimChars_trims s.toList
  by_cases first : Text.trimChars s.toList = "first".toList
  · rw [parse, first] at parsed
    obtain rfl := Except.ok.inj parsed
    exact .first (first ▸ trims)
  by_cases last : Text.trimChars s.toList = "last".toList
  · rw [parse, last] at parsed
    obtain rfl := Except.ok.inj parsed
    exact .last (last ▸ trims)
  cases split : splitColon? (Text.trimChars s.toList) with
  | none =>
      rw [parse] at parsed
      dsimp only at parsed
      rw [if_neg first, if_neg last, split] at parsed
      cases parsed
  | some parts =>
      obtain ⟨front, back⟩ := parts
      obtain ⟨whole, free⟩ := splitColon?_eq_some_iff.mp split
      rw [whole] at trims
      rw [parse_of_colon trims free] at parsed
      split at parsed
      · cases parsed
      rename_i filled
      split at parsed
      · rename_i position
        obtain rfl := Except.ok.inj parsed
        exact .anchored (by simp [positions]) trims free (trims_iff.mpr position) (trimChars_trims back)
          filled
      split at parsed
      · rename_i position
        obtain rfl := Except.ok.inj parsed
        exact .anchored (by simp [positions]) trims free (trims_iff.mpr position) (trimChars_trims back)
          filled
      · cases parsed

/-- Reading accepts the texts of the grammar and no others. -/
theorem parse_eq_ok_iff {s : String} {p : Placement} : parse s = .ok p ↔ Spelled s.toList p :=
  ⟨spelled_of_parse, parse_of_spelled⟩

/-! ## Written placements -/

/-- What the words for positions have in common. -/
theorem position_text {position : String} {place : String → Placement}
    (member : (position, place) ∈ positions) :
    Tight position.toList ∧ position.toList ≠ [] ∧ ':' ∉ position.toList ∧
      ∀ anchor, (place anchor).text = position ++ ":" ++ anchor := by
  rcases eq_of_mem_positions member with ⟨rfl, rfl⟩ | ⟨rfl, rfl⟩
  · exact ⟨tight_of_visible (by decide), by decide, by decide, fun _ => rfl⟩
  · exact ⟨tight_of_visible (by decide), by decide, by decide, fun _ => rfl⟩

/-- The text of a placement that was read stands for the placement. -/
theorem spelled_text {cs : List Char} {p : Placement} (spelled : Spelled cs p) :
    Spelled p.text.toList p := by
  cases spelled with
  | first => exact .first (tight_of_visible (by decide)).trims
  | last => exact .last (tight_of_visible (by decide)).trims
  | @anchored position place front back anchor member _ _ _ behind filled =>
      obtain ⟨word, begun, free, written⟩ := position_text member
      have chars : (place (String.ofList anchor)).text.toList = position.toList ++ ':' :: anchor := by
        simp [written]
      have tight : Tight (position.toList ++ ':' :: anchor) := by
        have parts : Tight (position.toList ++ [':'] ++ anchor) :=
          tight_append word behind.tight begun filled
        rwa [List.append_assoc] at parts
      rw [chars]
      exact .anchored member tight.trims free word.trims behind.tight.trims filled

theorem parse_text {s : String} {p : Placement} (parsed : parse s = .ok p) : parse p.text = .ok p :=
  parse_of_spelled (spelled_text (spelled_of_parse parsed))

/-- The text that a text is written as once it was read. -/
def rewritten (s : String) : Except Flaw String := (parse s).map text

/-- Placements are read from the texts of their grammar and from no others, with the anchor that stands
there, and whatever was read is read back from its own text.  So writing what was read a second time
changes nothing, and placements that were read have different texts. -/
theorem parse_grammar_roundTrip :
    (∀ (s : String) (p : Placement), parse s = .ok p ↔ Spelled s.toList p) ∧
    (∀ (s : String) (p : Placement), parse s = .ok p → parse p.text = .ok p) ∧
    (∀ s : String, (rewritten s >>= rewritten) = rewritten s) ∧
    Set.InjOn text { p | ∃ s, parse s = .ok p } := by
  refine ⟨fun s p => parse_eq_ok_iff, fun s p => parse_text, fun s => ?_, ?_⟩
  · cases read : parse s with
    | error flaw => rw [rewritten, read]; rfl
    | ok p =>
        have again := parse_text read
        rw [rewritten, read]
        show (parse p.text).map text = _
        rw [again]
  · rintro p ⟨s, read⟩ p' ⟨s', read'⟩ same
    have back := parse_text read
    rw [same, parse_text read'] at back
    exact (Except.ok.inj back).symm

/-- An anchor with a blank and a colon in it, which begins with a word for a position. -/
theorem parse_grammar_roundTrip_colonInAnchor :
    parse " after :\tbefore: x " = .ok (.after "before: x") ∧
      parse "after:before: x" = .ok (.after "before: x") := by
  have read : parse " after :\tbefore: x " = .ok (.after "before: x") := by decide +kernel
  have written : (Placement.after "before: x").text = "after:before: x" := by decide +kernel
  have again := parse_grammar_roundTrip.2.1 _ _ read
  rw [written] at again
  exact ⟨read, again⟩

end StagedCompiler.Placement
