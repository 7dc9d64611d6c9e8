import StagedCompiler.Toml.Digits

/-!
# Tokens of a TOML document

`tokenize` cuts a document into punctuation, white space, line ends, strings and words.  A word is a
run of characters that belong to none of the others; whether it is a key or a number is decided
where it stands.  Comments are checked and dropped.  Strings come decoded: `stringTail` runs over the
characters of a basic string, keeping in its `Mode` how much of an escape it has seen.
-/

namespace StagedCompiler.Toml

/-- A token of a document. -/
inductive Token : Type where
  | dot
  | equals
  | comma
  | openBracket
  | closeBracket
  | openBrace
  | closeBrace
  | newline
  | space (text : List Char)
  | word (text : List Char)
  | string (text : String)
  | longString (text : String)
  deriving DecidableEq

/-- Spaces and tabs. -/
def isSpace (c : Char) : Bool := c == ' ' || c == '\t'

/-- The characters that a comment or a string may hold as they are: no control characters but the
tab. -/
def isPlain (c : Char) : Bool :=
  c == '\t' || (0x20 ≤ c.toNat && c.toNat != 0x7F)

/-- The characters that end a word. -/
def endsWord (c : Char) : Bool :=
  isSpace c || ".=,[]\x7b\x7d#\r\n".toList.contains c

/-- The character with a given code, unless the code is a surrogate or too large. -/
def charOfCode? (n : Nat) : Option Char :=
  if n < 0xD800 || (0xDFFF < n && n < 0x110000) then some (Char.ofNat n) else none

/-- The character that a one-letter escape stands for. -/
def shortEscape? (c : Char) : Option Char :=
  match c with
  | 'b' => some '\x08'
  | 't' => some '\t'
  | 'n' => some '\n'
  | 'f' => some '\x0c'
  | 'r' => some '\r'
  | 'e' => some '\x1b'
  | '"' => some '"'
  | '\\' => some '\\'
  | _ => none

/-- How many hexadecimal digits follow an escape letter. -/
def codeDigits? (c : Char) : Option Nat :=
  match c with
  | 'x' => some 2
  | 'u' => some 4
  | 'U' => some 8
  | _ => none

/-- How far the reader of a basic string is. -/
inductive Mode : Type where
  /-- Between characters. -/
  | plain
  /-- Behind a backslash. -/
  | escape
  /-- Inside a numeric escape: digits still to come, besides one, and the code so far. -/
  | code (more value : Nat)
  /-- Behind a backslash and white space, before the line end that has to follow. -/
  | lineEnd
  /-- Behind an escaped line end, whose white space is dropped. -/
  | join

/-- The text of a basic string up to its closing quotes, and what follows them.  A long string
(three quotes) may hold line ends and up to two quotes in a row. -/
def stringTail (long : Bool) : Mode → List Char → Option (List Char × List Char)
  | _, [] => none
  | .escape, c :: rest =>
    match shortEscape? c, codeDigits? c with
    | some d, _ => (stringTail long .plain rest).map fun (t, r) => (d :: t, r)
    | none, some n => stringTail long (.code (n - 1) 0) rest
    | none, none =>
      if !long then none
      else if isSpace c || (c == '\r' && rest.head? == some '\n') then
        stringTail long .lineEnd rest
      else if c == '\n' then stringTail long .join rest
      else none
  | .code more value, c :: rest =>
    match hexDigit? c with
    | none => none
    | some d =>
      match more with
      | 0 => do
        let decoded ← charOfCode? (value * 16 + d)
        let (t, r) ← stringTail long .plain rest
        pure (decoded :: t, r)
      | n + 1 => stringTail long (.code n (value * 16 + d)) rest
  | .lineEnd, c :: rest =>
    if isSpace c || (c == '\r' && rest.head? == some '\n') then stringTail long .lineEnd rest
    else if c == '\n' then stringTail long .join rest
    else none
  | mode, c :: rest =>
    let joining := match mode with
      | .join => true
      | _ => false
    if joining && (isSpace c || c == '\n' || (c == '\r' && rest.head? == some '\n')) then
      stringTail long .join rest
    else if c == '\\' then stringTail long .escape rest
    else if c == '"' then
      if !long then some ([], rest)
      else match rest with
        | '"' :: '"' :: '"' :: '"' :: after => some (['"', '"'], after)
        | '"' :: '"' :: '"' :: after => some (['"'], after)
        | '"' :: '"' :: after => some ([], after)
        | _ => (stringTail long .plain rest).map fun (t, r) => (c :: t, r)
    else if isPlain c || (long && (c == '\n' || (c == '\r' && rest.head? == some '\n'))) then
      (stringTail long .plain rest).map fun (t, r) => (c :: t, r)
    else none

/-- The text of a literal string up to its closing quotes, and what follows them. -/
def literalTail (long : Bool) : List Char → Option (List Char × List Char)
  | [] => none
  | c :: rest =>
    if c == '\'' then
      if !long then some ([], rest)
      else match rest with
        | '\'' :: '\'' :: '\'' :: '\'' :: after => some (['\'', '\''], after)
        | '\'' :: '\'' :: '\'' :: after => some (['\''], after)
        | '\'' :: '\'' :: after => some ([], after)
        | _ => (literalTail long rest).map fun (t, r) => (c :: t, r)
    else if isPlain c || (long && (c == '\n' || (c == '\r' && rest.head? == some '\n'))) then
      (literalTail long rest).map fun (t, r) => (c :: t, r)
    else none

/-- A line end right behind the opening quotes of a long string does not belong to it. -/
def dropLineEnd : List Char → List Char
  | '\n' :: rest => rest
  | '\r' :: '\n' :: rest => rest
  | cs => cs

/-- The token of a punctuation character. -/
def punctuation? (c : Char) : Option Token :=
  match c with
  | '.' => some .dot
  | '=' => some .equals
  | ',' => some .comma
  | '[' => some .openBracket
  | ']' => some .closeBracket
  | '\x7b' => some .openBrace
  | '\x7d' => some .closeBrace
  | '\n' => some .newline
  | _ => none

/-- The first token of a text and what follows it.  A comment gives no token and must hold plain
characters only. -/
def nextToken : List Char → Option (Option Token × List Char)
  | [] => none
  | '\r' :: '\n' :: rest => some (some .newline, rest)
  | '#' :: rest =>
    let isEnd := fun c => c == '\n' || c == '\r'
    if (rest.takeWhile (!isEnd ·)).all isPlain then some (none, rest.dropWhile (!isEnd ·)) else none
  | '"' :: '"' :: '"' :: rest =>
    (stringTail true .plain (dropLineEnd rest)).map fun (t, r) =>
      (some (.longString (String.ofList t)), r)
  | '"' :: rest =>
    (stringTail false .plain rest).map fun (t, r) => (some (.string (String.ofList t)), r)
  | '\'' :: '\'' :: '\'' :: rest =>
    (literalTail true (dropLineEnd rest)).map fun (t, r) =>
      (some (.longString (String.ofList t)), r)
  | '\'' :: rest =>
    (literalTail false rest).map fun (t, r) => (some (.string (String.ofList t)), r)
  | c :: rest =>
    match punctuation? c with
    | some token => some (some token, rest)
    | none =>
      if isSpace c then
        some (some (.space (c :: rest.takeWhile isSpace)), rest.dropWhile isSpace)
      else if endsWord c then none
      else some (some (.word (c :: rest.takeWhile (!endsWord ·))), rest.dropWhile (!endsWord ·))

/-- The tokens of a text.  Every token takes at least one character, so the length of the text is
enough fuel. -/
def tokenizeFrom : Nat → List Char → Option (List Token)
  | _, [] => some []
  | 0, _ :: _ => none
  | fuel + 1, cs => do
    let (token, rest) ← nextToken cs
    let more ← tokenizeFrom fuel rest
    pure (token.toList ++ more)

/-- The tokens of a document; a byte order mark in front of it is skipped. -/
def tokenize (source : String) : Option (List Token) :=
  let cs := match source.toList with
    | '\uFEFF' :: rest => rest
    | cs => cs
  tokenizeFrom cs.length cs

end StagedCompiler.Toml
