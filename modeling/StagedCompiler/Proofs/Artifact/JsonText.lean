import StagedCompiler.Json

/-!
# Reading JSON text

`Json.ofText?` takes a text apart: blanks, strings with their escapes, integers, words, and arrays and
objects with commas between their members.  It gives back every value from its indented text
(`ofText?_pretty`), so a text stands for one value only.

* Readers work from the left and hand on what is left over.  Digits run on, so what stands behind a
  value must not begin with one (`Stops`).
* The length of a value's text is enough fuel: every bracket and every comma takes a character off it.
-/

namespace StagedCompiler.Json

/-! ## The reader -/

/-- The characters that may stand between the parts of a value. -/
def isBlank (c : Char) : Bool := c == ' ' || c == '\n' || c == '\r' || c == '\t'

/-- The text behind blanks. -/
def skipBlanks (text : List Char) : List Char := text.dropWhile isBlank

/-- The value of a hexadecimal digit. -/
def hexValue? (c : Char) : Option Nat :=
  if c.isDigit then some (c.toNat - '0'.toNat)
  else if 'a' ≤ c && c ≤ 'f' then some (c.toNat - 'a'.toNat + 10)
  else none

/-- The number that hexadecimal digits stand for. -/
def hexCode? (digits : List Char) : Option Nat :=
  (digits.mapM hexValue?).map (·.foldl (fun code value => 16 * code + value) 0)

/-- The character that a backslash and a letter stand for. -/
def unescape? (c : Char) : Option Char :=
  [('"', '"'), ('\\', '\\'), ('b', '\x08'), ('f', '\x0c'), ('n', '\n'), ('r', '\r'),
    ('t', '\t')].lookup c

/-- What is read of a string, with one more character in front. -/
def put (c : Char) (found : Option (List Char × List Char)) : Option (List Char × List Char) :=
  found.map fun (more, rest) => (c :: more, rest)

/-- The characters of a string up to its closing quote, and the text behind it. -/
def readChars : List Char → Option (List Char × List Char)
  | [] | ['\\'] => none
  | '"' :: rest => some ([], rest)
  | '\\' :: 'u' :: a :: b :: c :: d :: rest =>
    (hexCode? [a, b, c, d]).bind fun code => put (Char.ofNat code) (readChars rest)
  | '\\' :: e :: rest => (unescape? e).bind fun c => put c (readChars rest)
  | c :: rest => put c (readChars rest)

/-- A string whose opening quote has been read. -/
def readString (text : List Char) : Option (String × List Char) :=
  (readChars text).map fun (cs, rest) => (String.ofList cs, rest)

/-- A natural number in decimal digits. -/
def readNat (text : List Char) : Option (Nat × List Char) :=
  let digits := text.takeWhile Char.isDigit
  if digits.isEmpty then none
  else some (Nat.ofDigitChars 10 digits 0, text.dropWhile Char.isDigit)

/-- An integer. -/
def readInt (text : List Char) : Option (Int × List Char) :=
  match text with
  | '-' :: rest => (readNat rest).map fun (n, rest) => (-(n : Int), rest)
  | _ => (readNat text).map fun (n, rest) => ((n : Int), rest)

/-- A word that stands for a value. -/
def readWord (word : String) (j : Json) (text : List Char) : Option (Json × List Char) :=
  if word.toList.isPrefixOf text then some (j, text.drop word.length) else none

section Lists

variable {α : Type} (close : Char) (read : List Char → Option (α × List Char))

/-- Members with a comma in front of each, up to the closing bracket. -/
def readMore : Nat → List Char → Option (List α × List Char)
  | 0, _ => none
  | fuel + 1, text =>
    match skipBlanks text with
    | [] => none
    | c :: rest =>
      if c = close then some ([], rest)
      else if c = ',' then do
        let (a, rest) ← read rest
        let (more, rest) ← readMore fuel rest
        pure (a :: more, rest)
      else none

/-- The members of a list whose opening bracket has been read. -/
def readList (fuel : Nat) (text : List Char) : Option (List α × List Char) :=
  match skipBlanks text with
  | [] => none
  | c :: rest => if c = close then some ([], rest) else readMore close read fuel (',' :: text)

end Lists

/-- The text behind a character that has to come next. -/
def expect (c : Char) (text : List Char) : Option (List Char) :=
  match skipBlanks text with
  | [] => none
  | d :: rest => if d = c then some rest else none

/-- A field of an object. -/
def readField (read : List Char → Option (Json × List Char)) (text : List Char) :
    Option ((String × Json) × List Char) := do
  let rest ← expect '"' text
  let (key, rest) ← readString rest
  let rest ← expect ':' rest
  let (j, rest) ← read rest
  pure ((key, j), rest)

/-- A value, which may stand behind blanks. -/
def readValue : Nat → List Char → Option (Json × List Char)
  | 0, _ => none
  | fuel + 1, text =>
    match skipBlanks text with
    | [] => none
    | c :: rest =>
      if c = '"' then (readString rest).map fun (s, rest) => (.str s, rest)
      else if c = '[' then
        (readList ']' (readValue fuel) fuel rest).map fun (items, rest) => (.arr items, rest)
      else if c = '\x7b' then
        (readList '\x7d' (readField (readValue fuel)) fuel rest).map fun (fields, rest) =>
          (.obj fields, rest)
      else if c = 'n' then readWord "null" .null (c :: rest)
      else if c = 't' then readWord "true" (.bool true) (c :: rest)
      else if c = 'f' then readWord "false" (.bool false) (c :: rest)
      else (readInt (c :: rest)).map fun (n, rest) => (.int n, rest)

/-- The value that a text stands for. -/
def ofText? (text : String) : Option Json :=
  match readValue text.length text.toList with
  | some (j, rest) => if (skipBlanks rest).isEmpty then some j else none
  | none => none

/-! ## Blanks -/

/-- A line break and its indentation are blanks. -/
theorem skipBlanks_newline (level : Nat) (text : List Char) :
    skipBlanks (newline level ++ text) = skipBlanks text := by
  have spaces : ∀ n, skipBlanks (List.replicate n ' ' ++ text) = skipBlanks text := by
    intro n
    induction n with
    | zero => rfl
    | succ n ih => exact ih
  exact spaces (2 * level)

theorem skipBlanks_cons {c : Char} (visible : isBlank c = false) (text : List Char) :
    skipBlanks (c :: text) = c :: text := by
  rw [skipBlanks, List.dropWhile_cons, visible]
  rfl

theorem expect_newline {c : Char} (visible : isBlank c = false) (level : Nat) (rest : List Char) :
    expect c (newline level ++ c :: rest) = some rest := by
  rw [expect, skipBlanks_newline, skipBlanks_cons visible]
  exact if_pos rfl

theorem expect_cons {c : Char} (visible : isBlank c = false) (rest : List Char) :
    expect c (c :: rest) = some rest := by
  rw [expect, skipBlanks_cons visible]
  exact if_pos rfl

/-! ## Strings -/

/-- A control character is written with two zeros and two more hexadecimal digits. -/
theorem controlEscape_eq {c : Char} (control : c.toNat < 0x20) :
    controlEscape c = ['\\', 'u', '0', '0', Nat.digitChar (c.toNat / 16), Nat.digitChar (c.toNat % 16)] := by
  have all : ∀ n < 0x20, ['\\', 'u'] ++ List.replicate (4 - (Text.hex n).length) '0' ++ Text.hex n =
      ['\\', 'u', '0', '0', Nat.digitChar (n / 16), Nat.digitChar (n % 16)] := by
    decide
  exact all c.toNat control

/-- The four digits of a control character are read back. -/
theorem hexCode?_control {n : Nat} (control : n < 0x20) :
    hexCode? ['0', '0', Nat.digitChar (n / 16), Nat.digitChar (n % 16)] = some n := by
  revert n
  decide

/-- A character that is neither a quote nor a backslash is read as it stands. -/
theorem readChars_plain {c : Char} (quote : c ≠ '"') (backslash : c ≠ '\\') (text : List Char) :
    readChars (c :: text) = put c (readChars text) := by
  rw [readChars.eq_def]
  split <;> simp_all

/-- The characters that are written as a backslash and a letter. -/
def lettered : List Char := ['"', '\\', '\x08', '\x0c', '\n', '\r', '\t']

/-- An escape with a letter is read as the character that it stands for. -/
theorem readChars_lettered : ∀ c ∈ lettered, ∀ text,
    readChars (escapeChar c ++ text) = put c (readChars text) := by
  simp only [lettered, List.forall_mem_cons]
  exact ⟨fun _ => rfl, fun _ => rfl, fun _ => rfl, fun _ => rfl, fun _ => rfl, fun _ => rfl,
    fun _ => rfl, by simp⟩

/-- The written form of a character is read as the character. -/
theorem readChars_escapeChar (c : Char) (text : List Char) :
    readChars (escapeChar c ++ text) = put c (readChars text) := by
  by_cases member : c ∈ lettered
  · exact readChars_lettered c member text
  simp only [lettered, List.mem_cons, List.not_mem_nil, or_false, not_or] at member
  obtain ⟨quote, backslash, b, f, n, r, t⟩ := member
  simp only [escapeChar, beq_iff_eq, quote, backslash, b, f, n, r, t, if_false]
  by_cases control : c.toNat < 0x20
  · rw [if_pos control, controlEscape_eq control]
    show (hexCode? _).bind (fun code => put (Char.ofNat code) (readChars text)) = _
    rw [hexCode?_control control, Option.bind_some, Char.ofNat_toNat]
  · rw [if_neg control]
    exact readChars_plain quote backslash text

/-- A string is read back from its written form. -/
theorem readString_stringText (s : String) (rest : List Char) :
    readString (s.toList.flatMap escapeChar ++ '"' :: rest) = some (s, rest) := by
  have chars : ∀ cs : List Char,
      readChars (cs.flatMap escapeChar ++ '"' :: rest) = some (cs, rest) := by
    intro cs
    induction cs with
    | nil => rfl
    | cons c cs ih =>
        rw [List.flatMap_cons, List.append_assoc, readChars_escapeChar, ih]
        rfl
  rw [readString, chars, Option.map_some]
  exact congrArg (fun t => some (t, rest)) String.ofList_toList

/-! ## Integers -/

/-- A text that does not begin with a digit. -/
def Stops (text : List Char) : Prop := ∀ c ∈ text.head?, c.isDigit = false

theorem stops_nil : Stops [] := by
  intro c first
  cases first

/-- The digits of a number are read back, up to what is no digit. -/
theorem readNat_toDigits (n : Nat) {rest : List Char} (stops : Stops rest) :
    readNat (Nat.toDigits 10 n ++ rest) = some (n, rest) := by
  have digits : ∀ c ∈ Nat.toDigits 10 n, c.isDigit = true := fun c member =>
    Nat.isDigit_of_mem_toDigits (by decide) (by decide) member
  have ends : rest.takeWhile Char.isDigit = [] ∧ rest.dropWhile Char.isDigit = rest := by
    cases rest with
    | nil => exact ⟨rfl, rfl⟩
    | cons c rest =>
        have no := stops c rfl
        rw [List.takeWhile_cons, List.dropWhile_cons, no]
        exact ⟨rfl, rfl⟩
  rw [readNat, List.takeWhile_append_of_pos digits, List.dropWhile_append_of_pos digits, ends.1,
    ends.2, List.append_nil]
  rw [if_neg (by simp [Nat.toDigits_ne_nil]), Nat.ofDigitChars_ten_toDigits]

theorem toList_toString_natCast (n : Nat) : (toString (n : Int)).toList = Nat.toDigits 10 n :=
  String.toList_ofList

theorem toList_toString_negSucc (n : Nat) :
    (toString (Int.negSucc n)).toList = '-' :: Nat.toDigits 10 (n + 1) := by
  show ("-" ++ String.ofList (Nat.toDigits 10 (n + 1))).toList = _
  rw [String.toList_append]
  exact congrArg ('-' :: ·) String.toList_ofList

/-- A character that begins a number. -/
def isNumeric (c : Char) : Bool := c == '-' || c.isDigit

theorem ne_of_isNumeric {c d : Char} (numeric : isNumeric c = true) (other : isNumeric d = false) :
    c ≠ d := by
  intro same
  rw [same, other] at numeric
  cases numeric

theorem isBlank_of_isNumeric {c : Char} (numeric : isNumeric c = true) : isBlank c = false := by
  simp only [isBlank, Bool.or_eq_false_iff, beq_eq_false_iff_ne]
  exact ⟨⟨⟨ne_of_isNumeric numeric rfl, ne_of_isNumeric numeric rfl⟩, ne_of_isNumeric numeric rfl⟩,
    ne_of_isNumeric numeric rfl⟩

/-- The text of an integer begins as a number, and the integer is read back from it. -/
theorem readInt_toString (n : Int) {rest : List Char} (stops : Stops rest) :
    ∃ c text, (toString n).toList = c :: text ∧ isNumeric c = true ∧
      readInt (c :: text ++ rest) = some (n, rest) := by
  cases n with
  | negSucc m =>
      refine ⟨'-', _, toList_toString_negSucc m, rfl, ?_⟩
      show (readNat (Nat.toDigits 10 (m + 1) ++ rest)).map _ = _
      rw [readNat_toDigits _ stops]
      rfl
  | ofNat m =>
      have read := readNat_toDigits m stops
      cases digits : Nat.toDigits 10 m with
      | nil => exact absurd digits Nat.toDigits_ne_nil
      | cons c text =>
          have isDigit : c.isDigit = true :=
            Nat.isDigit_of_mem_toDigits (by decide) (by decide) (digits ▸ List.mem_cons_self)
          have numeric : isNumeric c = true := by rw [isNumeric, isDigit, Bool.or_true]
          refine ⟨c, text, (toList_toString_natCast m).trans digits, numeric, ?_⟩
          have unsigned : c ≠ '-' := by
            intro same
            rw [same] at isDigit
            cases isDigit
          rw [digits, List.cons_append] at read
          rw [List.cons_append, readInt]
          · rw [read]
            rfl
          · intro text' same
            exact unsigned (List.cons.inj same).1

/-! ## Arrays and objects -/

section Lists

variable {α : Type} {close : Char} {read : List Char → Option (α × List Char)}
  {write : α → List Char}

/-- Members are read back from their texts with a comma in front of each. -/
theorem readMore_flatMap (visible : isBlank close = false) (noComma : ',' ≠ close) {as : List α}
    (each : ∀ a ∈ as, ∀ rest, Stops rest → read (write a ++ rest) = some (a, rest)) {fuel : Nat}
    (enough : as.length < fuel) (level : Nat) (rest : List Char) :
    readMore close read fuel
      (as.flatMap (fun a => ',' :: write a) ++ (newline level ++ close :: rest)) = some (as, rest) := by
  induction as generalizing fuel with
  | nil =>
      obtain ⟨fuel, rfl⟩ := Nat.exists_eq_succ_of_ne_zero (Nat.ne_zero_of_lt enough)
      rw [readMore, List.flatMap_nil, List.nil_append, skipBlanks_newline, skipBlanks_cons visible]
      exact if_pos rfl
  | cons a as ih =>
      obtain ⟨fuel, rfl⟩ := Nat.exists_eq_succ_of_ne_zero (Nat.ne_zero_of_lt enough)
      rw [List.forall_mem_cons] at each
      rw [List.length_cons, Nat.succ_lt_succ_iff] at enough
      have stops : Stops (as.flatMap (fun a => ',' :: write a) ++ (newline level ++ close :: rest)) := by
        cases as with
        | nil =>
            intro c first
            obtain rfl := Option.some.inj first
            rfl
        | cons b more =>
            intro c first
            obtain rfl := Option.some.inj first
            rfl
      rw [readMore, List.flatMap_cons, List.append_assoc, List.cons_append, skipBlanks_cons rfl]
      dsimp only
      rw [if_neg noComma, if_pos rfl, each.1 _ stops, Option.bind_eq_bind, Option.bind_some]
      dsimp only
      rw [ih each.2 enough]
      rfl

/-- The texts of a list's members, with commas between them. -/
def membersText (write : α → List Char) (a : α) (as : List α) : List Char :=
  write a ++ as.flatMap fun b => ',' :: write b

/-- The members of a list that is not empty are read back. -/
theorem readList_cons (visible : isBlank close = false) (noComma : ',' ≠ close) {a : α} {as : List α}
    (each : ∀ b ∈ a :: as, ∀ rest, Stops rest → read (write b ++ rest) = some (b, rest))
    (opens : ∀ rest, ∃ c text, skipBlanks (write a ++ rest) = c :: text ∧ c ≠ close) {fuel : Nat}
    (enough : as.length + 1 < fuel) (level : Nat) (rest : List Char) :
    readList close read fuel (membersText write a as ++ newline level ++ close :: rest) =
      some (a :: as, rest) := by
  rw [membersText, List.append_assoc, List.append_assoc]
  obtain ⟨c, text, first, open'⟩ := opens
    (as.flatMap (fun b => ',' :: write b) ++ (newline level ++ close :: rest))
  rw [readList, first]
  dsimp only
  rw [if_neg open']
  have members := readMore_flatMap visible noComma each enough level rest
  rw [List.flatMap_cons, List.append_assoc] at members
  exact members

end Lists

/-- All items but the first stand behind a comma and a line break. -/
theorem renderItems_eq (level : Nat) (items : List Json) :
    renderItems level items = items.flatMap fun j => ',' :: (newline level ++ render level j) := by
  induction items with
  | nil => rfl
  | cons j rest ih =>
      rw [renderItems, ih, List.flatMap_cons]
      rfl

/-- The text of a field at a level. -/
def fieldText (level : Nat) (field : String × Json) : List Char :=
  stringText field.1 ++ [':', ' '] ++ render level field.2

/-- So do all fields but the first. -/
theorem renderFields_eq (level : Nat) (fields : List (String × Json)) :
    renderFields level fields =
      fields.flatMap fun field => ',' :: (newline level ++ fieldText level field) := by
  induction fields with
  | nil => rfl
  | cons field rest ih =>
      rcases field with ⟨key, j⟩
      rw [renderFields, ih, List.flatMap_cons, fieldText]
      simp only [List.append_assoc, List.cons_append, List.nil_append]

section Lengths

variable {α : Type} (write : α → List Char)

/-- The text of members is longer than their number, so reading them needs no more fuel than it has. -/
theorem length_lt_membersText (a : α) (as : List α) (opens : 0 < (write a).length) :
    as.length < (membersText write a as).length := by
  have more : ∀ bs : List α, bs.length ≤ (bs.flatMap fun b => ',' :: write b).length := by
    intro bs
    induction bs with
    | nil => exact Nat.le_refl _
    | cons b bs ih =>
        rw [List.flatMap_cons, List.length_append, List.length_cons, List.length_cons]
        omega
  have tail := more as
  rw [membersText, List.length_append]
  omega

theorem length_le_membersText {a b : α} {as : List α} (member : b ∈ a :: as) :
    (write b).length ≤ (membersText write a as).length := by
  rw [membersText, List.length_append]
  rcases List.mem_cons.mp member with rfl | later
  · omega
  · rcases List.append_of_mem later with ⟨before, behind, rfl⟩
    simp only [List.flatMap_append, List.flatMap_cons, List.length_append, List.length_cons]
    omega

end Lengths

/-- A value's text begins with a character that is no blank and closes no list. -/
theorem render_opens (j : Json) (level : Nat) : ∃ c text, render level j = c :: text ∧
    isBlank c = false ∧ c ≠ ']' ∧ c ≠ '\x7d' := by
  cases j with
  | null => exact ⟨_, _, rfl, rfl, by decide, by decide⟩
  | bool b => cases b <;> exact ⟨_, _, rfl, rfl, by decide, by decide⟩
  | str s => exact ⟨_, _, rfl, rfl, by decide, by decide⟩
  | arr items => cases items <;> rw [render] <;> exact ⟨_, _, rfl, rfl, by decide, by decide⟩
  | obj fields => cases fields <;> rw [render] <;> exact ⟨_, _, rfl, rfl, by decide, by decide⟩
  | int n =>
      obtain ⟨c, text, digits, numeric, _⟩ := readInt_toString n stops_nil
      exact ⟨c, text, digits, isBlank_of_isNumeric numeric, ne_of_isNumeric numeric rfl,
        ne_of_isNumeric numeric rfl⟩

/-! ## Values -/

/-- Blanks before a value make no difference. -/
theorem readValue_skip {text text' : List Char} (same : skipBlanks text = skipBlanks text')
    (fuel : Nat) : readValue fuel text = readValue fuel text' := by
  cases fuel with
  | zero => rfl
  | succ fuel => rw [readValue, readValue, same]

theorem readValue_newline (fuel level : Nat) (text : List Char) :
    readValue fuel (newline level ++ text) = readValue fuel text :=
  readValue_skip (skipBlanks_newline level text) fuel

/-- A field is read back if its value is. -/
theorem readField_fieldText {read : List Char → Option (Json × List Char)} {level outer : Nat}
    {key : String} {j : Json} {rest : List Char}
    (value : read (' ' :: (render level j ++ rest)) = some (j, rest)) :
    readField read (newline outer ++ fieldText level (key, j) ++ rest) = some ((key, j), rest) := by
  have text : newline outer ++ fieldText level (key, j) ++ rest =
      newline outer ++ ('"' :: (key.toList.flatMap escapeChar ++
        '"' :: ':' :: ' ' :: (render level j ++ rest))) := by
    simp only [fieldText, stringText, List.append_assoc, List.cons_append, List.nil_append]
  rw [text, readField, expect_newline rfl, Option.bind_eq_bind, Option.bind_some,
    readString_stringText, Option.bind_eq_bind, Option.bind_some]
  dsimp only
  rw [expect_cons rfl, Option.bind_eq_bind, Option.bind_some, value]
  rfl

/-- With so much fuel, values whose texts are no longer than the fuel are read back, in front of
anything that does not go on with a digit. -/
def ReadsBack (fuel : Nat) : Prop := ∀ (j : Json) (level : Nat) (rest : List Char),
  (render level j).length ≤ fuel → Stops rest →
    readValue fuel (render level j ++ rest) = some (j, rest)

/-- A list is read back if its items are, by induction on what is left of it. -/
theorem ReadsBack.arr {fuel : Nat} (part : ReadsBack fuel) (item : Json) (items : List Json)
    {level : Nat} (rest : List Char)
    (enough : (render level (.arr (item :: items))).length ≤ fuel + 1) :
    readValue (fuel + 1) (render level (.arr (item :: items)) ++ rest) =
      some (.arr (item :: items), rest) := by
  let write := fun j => newline (level + 1) ++ render (level + 1) j
  have text : render level (.arr (item :: items)) =
      '[' :: (membersText write item items ++ newline level ++ [']']) := by
    simp only [write, membersText, render, renderItems_eq, List.append_assoc, List.cons_append,
      List.nil_append]
  rw [text] at enough ⊢
  simp only [List.length_cons, List.length_append] at enough
  have each : ∀ j ∈ item :: items, ∀ rest, Stops rest →
      readValue fuel (write j ++ rest) = some (j, rest) := by
    intro j member rest stops
    have short := length_le_membersText write member
    rw [List.append_assoc, readValue_newline]
    apply part _ _ _ _ stops
    rw [List.length_append] at short
    omega
  have opens : ∀ rest, ∃ c text, skipBlanks (write item ++ rest) = c :: text ∧ c ≠ ']' := by
    intro rest
    obtain ⟨c, text, first, visible, open', _⟩ := render_opens item (level + 1)
    refine ⟨c, text ++ rest, ?_, open'⟩
    rw [List.append_assoc, skipBlanks_newline, first, List.cons_append, skipBlanks_cons visible]
  have count := length_lt_membersText write item items (Nat.succ_pos _)
  have enough : items.length + 1 < fuel := by omega
  have members := readList_cons rfl (by decide) each opens enough level rest
  rw [readValue, List.cons_append, List.append_assoc, skipBlanks_cons rfl]
  dsimp only
  rw [if_neg (by decide), if_pos rfl, List.cons_append, List.nil_append, members]
  rfl

/-- An object is read back if its fields are, by induction on what is left of it. -/
theorem ReadsBack.obj {fuel : Nat} (part : ReadsBack fuel) (field : String × Json)
    (fields : List (String × Json)) {level : Nat} (rest : List Char)
    (enough : (render level (.obj (field :: fields))).length ≤ fuel + 1) :
    readValue (fuel + 1) (render level (.obj (field :: fields)) ++ rest) =
      some (.obj (field :: fields), rest) := by
  let write := fun field => newline (level + 1) ++ fieldText (level + 1) field
  have text : render level (.obj (field :: fields)) =
      '\x7b' :: (membersText write field fields ++ newline level ++ ['\x7d']) := by
    simp only [write, membersText, render, renderFields_eq, fieldText, List.append_assoc,
      List.cons_append, List.nil_append]
  rw [text] at enough ⊢
  simp only [List.length_cons, List.length_append] at enough
  have each : ∀ field' ∈ field :: fields, ∀ rest, Stops rest →
      readField (readValue fuel) (write field' ++ rest) = some (field', rest) := by
    intro field' member rest stops
    have short := length_le_membersText write member
    apply readField_fieldText
    have inside : (render (level + 1) field'.2).length ≤ (write field').length := by
      simp only [write, fieldText, List.length_append]
      omega
    have value := part field'.2 (level + 1) rest (by omega) stops
    have space : skipBlanks (' ' :: (render (level + 1) field'.2 ++ rest)) =
        skipBlanks (render (level + 1) field'.2 ++ rest) := rfl
    exact (readValue_skip space fuel).trans value
  have opens : ∀ rest, ∃ c text, skipBlanks (write field ++ rest) = c :: text ∧ c ≠ '\x7d' := by
    intro rest
    have first : skipBlanks (write field ++ rest) = fieldText (level + 1) field ++ rest := by
      rw [List.append_assoc, skipBlanks_newline]
      exact skipBlanks_cons rfl _
    exact ⟨'"', _, first, by decide⟩
  have count := length_lt_membersText write field fields (Nat.succ_pos _)
  have enough : fields.length + 1 < fuel := by omega
  have members := readList_cons rfl (by decide) each opens enough level rest
  rw [readValue, List.cons_append, List.append_assoc, skipBlanks_cons rfl]
  dsimp only
  rw [if_neg (by decide), if_neg (by decide), if_pos rfl, List.cons_append, List.nil_append, members]
  rfl

/-- Every value is read back: by induction on the fuel, since a member's text is shorter. -/
theorem readsBack (fuel : Nat) : ReadsBack fuel := by
  induction fuel with
  | zero =>
      intro j level rest enough stops
      obtain ⟨c, text, first, _⟩ := render_opens j level
      rw [first] at enough
      cases enough
  | succ fuel ih =>
      intro j level rest enough stops
      cases j with
      | null => rfl
      | bool b => cases b <;> rfl
      | int n =>
          obtain ⟨c, text, digits, numeric, read⟩ := readInt_toString n stops
          rw [render, digits, readValue, List.cons_append,
            skipBlanks_cons (isBlank_of_isNumeric numeric)]
          dsimp only
          rw [if_neg (ne_of_isNumeric numeric rfl), if_neg (ne_of_isNumeric numeric rfl),
            if_neg (ne_of_isNumeric numeric rfl), if_neg (ne_of_isNumeric numeric rfl),
            if_neg (ne_of_isNumeric numeric rfl), if_neg (ne_of_isNumeric numeric rfl),
            ← List.cons_append, read]
          rfl
      | str s =>
          have text : render level (.str s) ++ rest =
              '"' :: (s.toList.flatMap escapeChar ++ '"' :: rest) := by
            simp only [render, stringText, List.append_assoc, List.cons_append, List.nil_append]
          rw [text, readValue, skipBlanks_cons rfl]
          dsimp only
          rw [if_pos rfl, readString_stringText]
          rfl
      | arr items =>
          cases items with
          | nil => rfl
          | cons item items => exact ih.arr item items rest enough
      | obj fields =>
          cases fields with
          | nil => rfl
          | cons field fields => exact ih.obj field fields rest enough

/-- A value is read back from its indented text. -/
theorem ofText?_pretty (j : Json) : ofText? j.pretty = some j := by
  have whole := readsBack (j.render 0).length j 0 [] (Nat.le_refl _) stops_nil
  rw [List.append_nil] at whole
  rw [ofText?, pretty, String.length_ofList, String.toList_ofList, whole]
  rfl

example : ofText? "[-12, \"a\\n\"]" = some (.arr [.int (-12), .str "a\n"]) := by rfl

end StagedCompiler.Json
