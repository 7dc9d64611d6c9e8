import StagedCompiler.Module.Basic
import StagedCompiler.Proofs.Artifact.JsonText
import StagedCompiler.Word

/-!
# Constants are told apart by their texts

* No text of a constant has a line break in it: a number has nothing but digits and a sign, and a quoted
  string escapes line breaks (`lineBreak_notMem_escapeChar`).
* `Text.unquote?` reads a string back from its written form.  It is not told which characters were
  shown as they are: a backslash begins an escape, and nothing else does.
* `Constant.ofText?` reads any constant back (`Constant.ofText?_textWith`), so no two constants have the
  same text.
-/

namespace StagedCompiler.Text

/-! ## Line breaks -/

/-- The characters that end a line. -/
def IsLineBreak (c : Char) : Prop := c = '\n' ∨ c = '\r'

/-- The text of a number has digits only. -/
theorem exists_digitChar_of_mem_toDigitsCore {base fuel n : Nat} {ds : List Char} {c : Char}
    (member : c ∈ Nat.toDigitsCore base fuel n ds) (before : ∀ d ∈ ds, ∃ k, d = Nat.digitChar k) :
    ∃ k, c = Nat.digitChar k := by
  induction fuel generalizing n ds with
  | zero => exact before c member
  | succ fuel ih =>
      have longer : ∀ d ∈ Nat.digitChar (n % base) :: ds, ∃ k, d = Nat.digitChar k := by
        rw [List.forall_mem_cons]
        exact ⟨⟨_, rfl⟩, before⟩
      rw [Nat.toDigitsCore] at member
      split at member
      · exact longer c member
      · exact ih member longer

/-- Numbers have nothing but digits in them, in whatever base they are written. -/
theorem lineBreak_notMem_toDigits {b : Char} (ends : IsLineBreak b) (base n : Nat) :
    b ∉ Nat.toDigits base n := by
  intro member
  obtain ⟨k, rfl⟩ := exists_digitChar_of_mem_toDigitsCore member (by simp)
  rcases ends with feed | ret
  · exact Nat.digitChar_ne '\n' rfl feed
  · exact Nat.digitChar_ne '\r' rfl ret

/-- There is no line break in the text of a number. -/
theorem lineBreak_notMem_toString {b : Char} (ends : IsLineBreak b) (n : Int) :
    b ∉ (toString n).toList := by
  cases n with
  | ofNat n =>
      rw [Int.ofNat_eq_natCast, Json.toList_toString_natCast]
      exact lineBreak_notMem_toDigits ends 10 n
  | negSucc n =>
      rw [Json.toList_toString_negSucc, List.mem_cons, not_or]
      refine ⟨?_, lineBreak_notMem_toDigits ends 10 (n + 1)⟩
      rcases ends with rfl | rfl <;> decide

/-- There is no line break in what stands for a character, not even in what stands for a line break. -/
theorem lineBreak_notMem_escapeChar {b : Char} (ends : IsLineBreak b) (shown : Char → Bool)
    (c : Char) : b ∉ escapeChar shown c := by
  unfold escapeChar
  by_cases here : IsLineBreak c
  · rcases here with rfl | rfl <;> rcases ends with rfl | rfl <;> simp
  · -- Any other character stands for itself, behind a backslash, or as its number.
    have digits : b ∉ hex c.toNat := lineBreak_notMem_toDigits ends 16 c.toNat
    have other : b ≠ c := fun same => here (same ▸ ends)
    rcases ends with rfl | rfl <;>
      repeat' split
    all_goals simp [digits, other]

theorem lineBreak_notMem_quotedWith {b : Char} (ends : IsLineBreak b) (shown : Char → Bool)
    (s : String) : b ∉ (quotedWith shown s).toList := by
  have quote : b ≠ '"' := by rcases ends with rfl | rfl <;> decide
  simp [quotedWith, quote, lineBreak_notMem_escapeChar ends]

/-! ## Reading quoted strings -/

/-- Where the reader of a quoted string is: among characters that stand for themselves, behind a
backslash, behind the letter that begins a code, or behind digits of a code. -/
inductive Reading : Type where
  | plain
  | escape
  | opening
  | code (value : Nat)

/-- The character that a backslash and a letter stand for. -/
def shortEscape? (c : Char) : Option Char :=
  [('0', '\x00'), ('t', '\t'), ('r', '\r'), ('n', '\n'), ('\\', '\\'), ('"', '"')].lookup c

/-- The character with a code. -/
def ofCode? (code : Nat) : Option Char :=
  if code.isValidChar then some (Char.ofNat code) else none

/-- The characters of a string up to its closing quote, which is the last one of the text. -/
def readQuoted : Reading → List Char → Option (List Char)
  | .plain, ['"'] => some []
  | .plain, '\\' :: rest => readQuoted .escape rest
  | .plain, c :: rest => if c = '"' then none else (readQuoted .plain rest).map (c :: ·)
  | .escape, 'u' :: rest => readQuoted .opening rest
  | .escape, c :: rest => (shortEscape? c).bind fun d => (readQuoted .plain rest).map (d :: ·)
  | .opening, '\x7b' :: rest => readQuoted (.code 0) rest
  | .code value, '\x7d' :: rest =>
    (ofCode? value).bind fun c => (readQuoted .plain rest).map (c :: ·)
  | .code value, c :: rest =>
    (Json.hexValue? c).bind fun digit => readQuoted (.code (16 * value + digit)) rest
  | _, _ => none

/-- The string that a quoted text stands for. -/
def unquote? (text : String) : Option String :=
  match text.toList with
  | '"' :: rest => (readQuoted .plain rest).map String.ofList
  | _ => none

theorem ofCode?_toNat (c : Char) : ofCode? c.toNat = some c := by
  have valid : c.toNat.isValidChar := c.valid
  rw [ofCode?, if_pos valid, Char.ofNat_toNat]

/-- A digit is added to the code that is being read. -/
theorem readQuoted_digit {digit : Nat} (small : digit < 16) (value : Nat) (text : List Char) :
    readQuoted (.code value) (Nat.digitChar digit :: text) =
      readQuoted (.code (16 * value + digit)) text := by
  have digits : ∀ n < 16, Nat.digitChar n ≠ '\x7d' ∧ Json.hexValue? (Nat.digitChar n) = some n := by
    decide
  obtain ⟨notClosed, read⟩ := digits digit small
  rw [readQuoted, read, Option.bind_some]
  exact notClosed

/-- The digits of a number are read as the number, one place at a time. -/
theorem readQuoted_hex (n : Nat) (text : List Char) :
    readQuoted (.code 0) (hex n ++ text) = readQuoted (.code n) text := by
  induction n using Nat.strongRecOn generalizing text with
  | ind n ih =>
      rw [hex]
      by_cases small : n < 16
      · rw [Nat.toDigits_of_lt_base small, List.singleton_append, readQuoted_digit small,
          Nat.mul_zero, Nat.zero_add]
      · rw [Nat.toDigits_of_base_le (by decide) (Nat.not_lt.mp small), List.append_assoc,
          List.singleton_append]
        have front := ih (n / 16) (by omega) (Nat.digitChar (n % 16) :: text)
        rw [hex] at front
        rw [front, readQuoted_digit (Nat.mod_lt n (by decide)), Nat.div_add_mod]

/-- A character that is neither a quote nor a backslash stands for itself. -/
theorem readQuoted_plain {c : Char} (quote : c ≠ '"') (backslash : c ≠ '\\') (text : List Char) :
    readQuoted .plain (c :: text) = (readQuoted .plain text).map (c :: ·) := by
  rw [readQuoted.eq_def]
  split <;> simp_all

/-- The characters that are written as a backslash and a letter. -/
def shortEscapes : List Char := ['\x00', '\t', '\r', '\n', '\\', '"']

/-- A short escape is read as the character that it stands for. -/
theorem readQuoted_shortEscapes : ∀ c ∈ shortEscapes, ∀ (shown : Char → Bool) (text : List Char),
    readQuoted .plain (escapeChar shown c ++ text) = (readQuoted .plain text).map (c :: ·) := by
  simp only [shortEscapes, List.forall_mem_cons]
  exact ⟨fun _ _ => rfl, fun _ _ => rfl, fun _ _ => rfl, fun _ _ => rfl, fun _ _ => rfl,
    fun _ _ => rfl, by simp⟩

/-- The written form of a character is read as the character. -/
theorem readQuoted_escapeChar (shown : Char → Bool) (c : Char) (text : List Char) :
    readQuoted .plain (escapeChar shown c ++ text) = (readQuoted .plain text).map (c :: ·) := by
  by_cases short : c ∈ shortEscapes
  · exact readQuoted_shortEscapes c short shown text
  simp only [shortEscapes, List.mem_cons, List.not_mem_nil, or_false, not_or] at short
  obtain ⟨nul, tab, ret, feed, backslash, quote⟩ := short
  simp only [escapeChar, beq_iff_eq, nul, tab, ret, feed, backslash, quote, if_false]
  split
  · exact readQuoted_plain quote backslash text
  · show readQuoted (.code 0) ((hex c.toNat ++ ['\x7d']) ++ text) = _
    rw [List.append_assoc, readQuoted_hex]
    show (ofCode? c.toNat).bind (fun d => (readQuoted .plain text).map (d :: ·)) = _
    rw [ofCode?_toNat, Option.bind_some]

/-- A string is read back from its written form. -/
theorem unquote?_quotedWith (shown : Char → Bool) (s : String) :
    unquote? (quotedWith shown s) = some s := by
  have chars : ∀ cs : List Char,
      readQuoted .plain (cs.flatMap (escapeChar shown) ++ ['"']) = some cs := by
    intro cs
    induction cs with
    | nil => rfl
    | cons c cs ih =>
        rw [List.flatMap_cons, List.append_assoc, readQuoted_escapeChar, ih, Option.map_some]
  rw [unquote?, quotedWith, String.toList_ofList]
  show (readQuoted .plain (s.toList.flatMap (escapeChar shown) ++ ['"'])).map String.ofList = _
  rw [chars, Option.map_some, String.ofList_toList]

end StagedCompiler.Text

namespace StagedCompiler.Constant

open Text (IsLineBreak unquote? quotedWith)

/-! ## Reading constants -/

/-- The constant that a text stands for. -/
def ofText? (text : String) : Option Constant :=
  if text = "()" then some .unit
  else if text = "true" then some (.bool true)
  else if text = "false" then some (.bool false)
  else if text.toList.head? = some '"' then (unquote? text).map .str
  else match Json.readInt text.toList with
    | some (n, []) => (word? n).map .int
    | _ => none

theorem word?_toInt (n : Int64) : word? n.toInt = some n := by
  have inside : Int64.minValue.toInt ≤ n.toInt ∧ n.toInt ≤ Int64.maxValue.toInt :=
    ⟨Int64.minValue_le_toInt n, Int64.toInt_le n⟩
  rw [word?, if_pos inside, Int64.ofInt_toInt]

/-- Every constant is read back from its text, whichever characters are shown in it. -/
theorem ofText?_textWith (shown : Char → Bool) (c : Constant) :
    ofText? (c.textWith shown) = some c := by
  -- A text that begins otherwise than a word is not that word.
  have other : ∀ {text word : String}, text.toList.head? ≠ word.toList.head? → text ≠ word :=
    fun apart same => apart (congrArg (·.toList.head?) same)
  cases c with
  | unit => rfl
  | bool b => cases b <;> rfl
  | str s =>
      have first : (quotedWith shown s).toList.head? = some '"' := by
        rw [quotedWith, String.toList_ofList]
        rfl
      rw [textWith, ofText?, if_neg (other (by rw [first]; decide)),
        if_neg (other (by rw [first]; decide)), if_neg (other (by rw [first]; decide)), if_pos first,
        Text.unquote?_quotedWith, Option.map_some]
  | int n =>
      obtain ⟨d, rest, written, numeric, read⟩ := Json.readInt_toString n.toInt Json.stops_nil
      rw [List.append_nil, ← written] at read
      have first : (toString n.toInt).toList.head? = some d := by rw [written]; rfl
      have apart : ∀ {e : Char}, Json.isNumeric e = false → some d ≠ some e := fun no same =>
        Json.ne_of_isNumeric numeric no (Option.some.inj same)
      rw [textWith, ofText?, if_neg (other (first ▸ apart rfl)), if_neg (other (first ▸ apart rfl)),
        if_neg (other (first ▸ apart rfl)), if_neg (first ▸ apart rfl), read]
      show (word? n.toInt).map Constant.int = _
      rw [word?_toInt, Option.map_some]

/-- The text of a constant is on one line. -/
theorem lineBreak_notMem_textWith {b : Char} (ends : IsLineBreak b) (shown : Char → Bool)
    (c : Constant) : b ∉ (c.textWith shown).toList := by
  cases c with
  | int n => exact Text.lineBreak_notMem_toString ends n.toInt
  | bool value => cases value <;> rcases ends with rfl | rfl <;> simp [textWith]
  | str s => exact Text.lineBreak_notMem_quotedWith ends shown s
  | unit => rcases ends with rfl | rfl <;> simp [textWith]

/-- Whichever characters are shown as they are, constants print unambiguously and on one line: no two
constants have the same text, no text has a line break in it, and a string is read back from its written
form.  The reader needs no knowledge of what is shown, so texts that were written with different choices
are told apart, too. -/
theorem textWith_unambiguous (shown : Char → Bool) :
    Function.Injective (textWith shown) ∧
    (∀ c : Constant, '\n' ∉ (c.textWith shown).toList ∧ '\r' ∉ (c.textWith shown).toList) ∧
    (∀ s : String, unquote? ((Constant.str s).textWith shown) = some s) ∧
    ∀ (shown' : Char → Bool) (c c' : Constant), c.textWith shown = c'.textWith shown' → c = c' := by
  have apart : ∀ (shown' : Char → Bool) (c c' : Constant),
      c.textWith shown = c'.textWith shown' → c = c' := by
    intro shown' c c' same
    have read := ofText?_textWith shown c
    rw [same, ofText?_textWith shown' c'] at read
    exact (Option.some.inj read).symm
  exact ⟨apart shown, fun c => ⟨lineBreak_notMem_textWith (.inl rfl) shown c,
    lineBreak_notMem_textWith (.inr rfl) shown c⟩, Text.unquote?_quotedWith shown, apart⟩

end StagedCompiler.Constant
