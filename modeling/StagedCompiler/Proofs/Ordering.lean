import Mathlib.Data.List.Pairwise
import Mathlib.Data.String.Basic
import Mathlib.Tactic.SplitIfs

/-!
# Lists in order

Facts on sorting that lists of diagnostics, records and snapshots have in common.

* A stable sort leaves members of the same rank as they were (`filter_mergeSort`), and a sorted list is
  known by its members of each rank (`eq_of_filter`).  So a sort forgets all but the order within each
  rank (`mergeSort_eq`).
* The order of texts, which is that of their characters, is the order of their encodings as bytes
  (`utf8_lt`).
-/

namespace StagedCompiler.Ordering

/-! ## Sorting by rank -/

section Ranks

variable {α : Type} {le : α → α → Bool}

/-- Whether two members have the same rank. -/
def same (le : α → α → Bool) (a b : α) : Bool := le a b && le b a

variable (trans : ∀ a b c, le a b = true → le b c = true → le a c = true)
  (total : ∀ a b, (le a b || le b a) = true)

include trans total in
/-- Members of the same rank keep their order. -/
theorem filter_mergeSort {p : α → Bool} (level : ∀ b c, p b = true → p c = true → le b c = true)
    (l : List α) : (l.mergeSort le).filter p = l.filter p := by
  have sorted : (l.filter p).Pairwise (le · ·) :=
    List.pairwise_of_forall_mem_list fun b first c second =>
      level b c (List.mem_filter.mp first).2 (List.mem_filter.mp second).2
  have sublist := (List.sublist_mergeSort trans total sorted List.filter_sublist).filter p
  rw [List.filter_filter] at sublist
  simp only [Bool.and_self] at sublist
  exact (sublist.eq_of_length ((List.mergeSort_perm l le).filter _).length_eq.symm).symm

include total

theorem same_self (a : α) : same le a a = true := by
  simpa [same] using total a a

theorem mem_iff_of_filter {l l' : List α}
    (alike : ∀ a, l.filter (same le a) = l'.filter (same le a)) (a : α) : a ∈ l ↔ a ∈ l' := by
  have member := congrArg (a ∈ ·) (alike a)
  simpa [same_self total a] using member

/-- Two sorted lists with the same members of each rank, in the same order, are one list. -/
theorem eq_of_filter {l l' : List α} (sorted : l.Pairwise (le · ·)) (sorted' : l'.Pairwise (le · ·))
    (alike : ∀ a, l.filter (same le a) = l'.filter (same le a)) : l = l' := by
  induction l generalizing l' with
  | nil =>
      cases l' with
      | nil => rfl
      | cons b rest' =>
          exact absurd ((mem_iff_of_filter total alike b).mpr List.mem_cons_self) List.not_mem_nil
  | cons a rest ih =>
      cases l' with
      | nil => exact absurd ((mem_iff_of_filter total alike a).mp List.mem_cons_self) List.not_mem_nil
      | cons b rest' =>
          rw [List.pairwise_cons] at sorted sorted'
          -- Each head is a member of the other list and so not before that list's head.
          have least : le a b = true := by
            rcases List.mem_cons.mp ((mem_iff_of_filter total alike b).mpr List.mem_cons_self) with
              rfl | later
            · exact (Bool.and_eq_true _ _ ▸ same_self total _).1
            · exact sorted.1 b later
          have least' : le b a = true := by
            rcases List.mem_cons.mp ((mem_iff_of_filter total alike a).mp List.mem_cons_self) with
              rfl | later
            · exact (Bool.and_eq_true _ _ ▸ same_self total _).1
            · exact sorted'.1 a later
          have heads := alike a
          have level : same le a b = true := by rw [same, least, least']; rfl
          rw [List.filter_cons_of_pos (same_self total a), List.filter_cons_of_pos level] at heads
          obtain rfl := (List.cons.inj heads).1
          have tails : ∀ c, rest.filter (same le c) = rest'.filter (same le c) := by
            intro c
            have both := alike c
            rw [List.filter_cons, List.filter_cons] at both
            split at both
            · exact (List.cons.inj both).2
            · exact both
          rw [ih sorted.2 sorted'.2 tails]

include trans in
/-- The sorted form of a list is the one sorted list with the same members of each rank, in the same
order. -/
theorem mergeSort_eq {l l' : List α} (sorted : l'.Pairwise (le · ·))
    (alike : ∀ a, l.filter (same le a) = l'.filter (same le a)) : l.mergeSort le = l' := by
  refine eq_of_filter total (List.pairwise_mergeSort trans total l) sorted fun a => ?_
  rw [← alike a]
  refine filter_mergeSort trans total (fun b c first second => ?_) l
  simp only [same, Bool.and_eq_true] at first second
  exact trans b a c first.2 second.1

end Ranks

/-! ## Sorting by texts -/

section Texts

variable {α : Type} (key : α → String)

/-- The order of members by a text of theirs. -/
def byText (a b : α) : Bool := key a ≤ key b

theorem byText_trans (a b c : α) (first : byText key a b = true) (second : byText key b c = true) :
    byText key a c = true :=
  decide_eq_true (String.le_trans (of_decide_eq_true first) (of_decide_eq_true second))

theorem byText_total (a b : α) : (byText key a b || byText key b a) = true := by
  simpa [byText] using String.le_total (key a) (key b)

theorem same_byText (a : α) : same (byText key) a = (key · == key a) := by
  funext b
  rw [Bool.eq_iff_iff]
  simp only [same, byText, Bool.and_eq_true, decide_eq_true_eq, beq_iff_eq]
  exact ⟨fun both => String.le_antisymm both.2 both.1, fun same => by simp [same]⟩

theorem byText_of_eq {a b : α} (same : key a = key b) : byText key a b = true :=
  decide_eq_true (le_of_eq same)

end Texts

/-! ## The bytes of a text -/

/-- The encoding of a text as bytes. -/
def utf8 (s : String) : List UInt8 := s.toUTF8.data.toList

theorem utf8_eq (s : String) : utf8 s = s.toList.flatMap String.utf8EncodeChar := by
  rw [utf8, String.toUTF8_eq_toByteArray, ← String.utf8Encode_toList, List.utf8Encode,
    List.toList_data_toByteArray]

/-- The encoding of a character comes before that of a greater one, whatever stands behind them. -/
theorem utf8EncodeChar_lt {c d : Char} (less : c < d) (xs ys : List UInt8) :
    String.utf8EncodeChar c ++ xs < String.utf8EncodeChar d ++ ys := by
  have order : c.val.toNat < d.val.toNat := less
  have bound : d.val.toNat < 1114112 := by
    have valid := d.valid
    unfold UInt32.isValidChar Nat.isValidChar at valid
    omega
  unfold String.utf8EncodeChar
  generalize c.val.toNat = m at order ⊢
  generalize d.val.toNat = n at order bound ⊢
  -- Each byte behind the first one carries a digit to base 64.
  have digits : ∀ v, v / 4096 = v / 64 / 64 := fun v => (Nat.div_div_eq_div_mul v 64 64).symm
  have digits' : ∀ v, v / 262144 = v / 64 / 64 / 64 := fun v => by
    rw [Nat.div_div_eq_div_mul, Nat.div_div_eq_div_mul]
  simp only [digits, digits']
  split_ifs <;>
    simp only [List.cons_append, List.nil_append, List.cons_lt_cons_iff, UInt8.lt_iff_toNat_lt,
      ← UInt8.toNat_inj, UInt8.toNat_ofNat', Nat.reducePow] <;>
    omega

theorem flatMap_utf8_lt {l l' : List Char} (less : l < l') :
    l.flatMap String.utf8EncodeChar < l'.flatMap String.utf8EncodeChar := by
  induction List.lex_lt.mpr less with
  | @nil c rest =>
      rw [List.flatMap_nil, List.flatMap_cons]
      cases bytes : String.utf8EncodeChar c with
      | nil => exact absurd bytes String.utf8EncodeChar_ne_nil
      | cons b more => exact List.nil_lt_cons _ _
  | rel before =>
      rw [List.flatMap_cons, List.flatMap_cons]
      exact utf8EncodeChar_lt before _ _
  | cons later ih =>
      rw [List.flatMap_cons, List.flatMap_cons]
      exact List.append_left_lt (ih (List.lex_lt.mp later))

/-- The order of texts is that of their bytes. -/
theorem utf8_lt {s t : String} (less : s < t) : utf8 s < utf8 t := by
  rw [utf8_eq, utf8_eq]
  exact flatMap_utf8_lt (String.lt_iff_toList_lt.mp less)

end StagedCompiler.Ordering
