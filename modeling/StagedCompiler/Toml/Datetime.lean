import StagedCompiler.Toml.Digits

/-!
# Dates and times

A `Datetime` is a date, a time of day, or both; with both it may say how far the time is ahead of
universal time.  `Datetime.ofChars?` reads one in any of the ways it can be written, and
`Datetime.text` writes it in one way: with a `T` between date and time, with its seconds, and with
the digits of a fraction up to the last that is not zero.
-/

namespace StagedCompiler.Toml

/-- A day of the calendar. -/
structure Date : Type where
  year : Nat
  month : Nat
  day : Nat
  deriving DecidableEq

/-- A time of day.  A leap second is the second 60. -/
structure Time : Type where
  hour : Nat
  minute : Nat
  second : Nat := 0
  nanosecond : Nat := 0
  deriving DecidableEq

/-- How far a time is from universal time: it is universal time, or some minutes ahead of it. -/
inductive Offset : Type where
  | universal
  | ahead (minutes : Int)
  deriving DecidableEq

/-- A date, a time, or a date and a time with or without an offset. -/
inductive Datetime : Type where
  | date (d : Date)
  | time (t : Time)
  | moment (d : Date) (t : Time) (offset : Option Offset)
  deriving DecidableEq

/-- One given character, and what follows it. -/
def expect? (c : Char) : List Char → Option (List Char)
  | d :: rest => if c == d then some rest else none
  | [] => none

/-- How many days a month has. -/
def daysInMonth (year month : Nat) : Nat :=
  if month == 2 then
    if year % 4 == 0 && (year % 100 != 0 || year % 400 == 0) then 29 else 28
  else if [4, 6, 9, 11].contains month then 30
  else 31

/-- A date, and what follows it. -/
def date? (cs : List Char) : Option (Date × List Char) := do
  let (year, cs) ← fixedDigits? 4 cs
  let (month, cs) ← fixedDigits? 2 (← expect? '-' cs)
  let (day, cs) ← fixedDigits? 2 (← expect? '-' cs)
  if 1 ≤ month && month ≤ 12 && 1 ≤ day && day ≤ daysInMonth year month then
    pure (⟨year, month, day⟩, cs)
  else none

/-- Hours and minutes, and what follows them. -/
def clock? (cs : List Char) : Option (Nat × Nat × List Char) := do
  let (hour, cs) ← fixedDigits? 2 cs
  let (minute, cs) ← fixedDigits? 2 (← expect? ':' cs)
  if hour ≤ 23 && minute ≤ 59 then pure (hour, minute, cs) else none

/-- The nanoseconds that the digits of a fraction of a second stand for; a tenth digit and those
behind it do not count. -/
def nanoseconds (fraction : List Char) : Nat :=
  ofDigits 10 ((fraction.take 9).rightpad 9 '0')

/-- A time of day, and what follows it.  The seconds may be left out. -/
def time? (cs : List Char) : Option (Time × List Char) := do
  let (hour, minute, cs) ← clock? cs
  match cs with
  | ':' :: rest =>
    let (second, cs) ← fixedDigits? 2 rest
    if 60 < second then none
    else match cs with
      | '.' :: more =>
        let fraction := more.takeWhile Text.isDigitAscii
        if fraction.isEmpty then none
        else pure (⟨hour, minute, second, nanoseconds fraction⟩, more.dropWhile Text.isDigitAscii)
      | cs => pure (⟨hour, minute, second, 0⟩, cs)
  | cs => pure (⟨hour, minute, 0, 0⟩, cs)

/-- The offset that a whole text is, or none if there is no text. -/
def offset? : List Char → Option (Option Offset)
  | [] => some none
  | ['Z'] | ['z'] => some (some .universal)
  | sign :: rest =>
    match clock? rest with
    | some (hours, minutes, []) =>
      let n : Int := hours * 60 + minutes
      if sign == '+' then some (some (.ahead n))
      else if sign == '-' then some (some (.ahead (-n)))
      else none
    | _ => none

namespace Datetime

/-- The date or time that a whole text is. -/
def ofChars? (cs : List Char) : Option Datetime :=
  match date? cs with
  | some (d, []) => some (.date d)
  | some (d, c :: rest) => do
    if c == 'T' || c == 't' || c == ' ' then
      let (t, rest) ← time? rest
      pure (.moment d t (← offset? rest))
    else none
  | none =>
    match time? cs with
    | some (t, []) => some (.time t)
    | _ => none

end Datetime

/-- The written form of a date. -/
def Date.text (d : Date) : List Char :=
  paddedDigits 4 d.year ++ '-' :: paddedDigits 2 d.month ++ '-' :: paddedDigits 2 d.day

/-- The written form of a fraction of a second: nothing for none, and no zeros at its end. -/
def fractionText (nanosecond : Nat) : List Char :=
  if nanosecond == 0 then []
  else '.' :: ((paddedDigits 9 nanosecond).reverse.dropWhile (· == '0')).reverse

/-- The written form of hours and minutes. -/
def clockText (hours minutes : Nat) : List Char :=
  paddedDigits 2 hours ++ ':' :: paddedDigits 2 minutes

/-- The written form of a time. -/
def Time.text (t : Time) : List Char :=
  clockText t.hour t.minute ++ ':' :: paddedDigits 2 t.second ++ fractionText t.nanosecond

/-- The written form of an offset. -/
def Offset.text : Offset → List Char
  | .universal => ['Z']
  | .ahead minutes =>
    (if minutes < 0 then '-' else '+') ::
      clockText (minutes.natAbs / 60) (minutes.natAbs % 60)

/-- The written form of a date or time. -/
def Datetime.text : Datetime → String
  | .date d => String.ofList d.text
  | .time t => String.ofList t.text
  | .moment d t offset =>
    String.ofList (d.text ++ 'T' :: t.text ++ (offset.map Offset.text).getD [])

end StagedCompiler.Toml
