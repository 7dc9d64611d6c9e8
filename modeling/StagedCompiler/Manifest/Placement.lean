import StagedCompiler.Text.Blank

/-!
# Placements

Where a lowering pass of a plugin stands among the passes of the host, and the text that a
configuration writes for it.
-/

namespace StagedCompiler

/-- Where a pass stands: in front of or behind all host passes, or next to one of them. -/
inductive Placement : Type where
  | first
  | last
  | before (anchor : String)
  | after (anchor : String)
  deriving DecidableEq, Repr

namespace Placement

/-- A pass that says nothing about its place stands behind all host passes. -/
instance : Inhabited Placement := ⟨.last⟩

/-- The host pass that a placement names. -/
def anchor? : Placement → Option String
  | .before anchor | .after anchor => some anchor
  | .first | .last => none

/-- The text of a placement. -/
def text : Placement → String
  | .first => "first"
  | .last => "last"
  | .before anchor => "before:" ++ anchor
  | .after anchor => "after:" ++ anchor

/-- Why a text is no placement. -/
inductive Flaw : Type where
  /-- There is no colon, and the text is neither of the two words. -/
  | unknown (text : String)
  /-- Nothing but blanks stands behind the colon. -/
  | noAnchor (text : String)
  /-- What stands in front of the colon is no position. -/
  | badPosition (position : String)
  deriving DecidableEq, Repr

/-- The message about a text that is no placement. -/
def Flaw.message : Flaw → String
  | .unknown text =>
    "invalid placement '" ++ text ++
      "', expected 'first', 'last', 'before:<pass>' or 'after:<pass>'"
  | .noAnchor text => "placement '" ++ text ++ "' names no pass"
  | .badPosition position =>
    "invalid placement position '" ++ position ++ "', expected 'before' or 'after'"

/-- The text in front of the first colon and the text behind it. -/
def splitColon? : List Char → Option (List Char × List Char)
  | [] => none
  | c :: rest =>
    if c == ':' then some ([], rest)
    else (splitColon? rest).map fun (front, back) => (c :: front, back)

/-- The placement that a text stands for. -/
def parse (s : String) : Except Flaw Placement :=
  let cs := Text.trimChars s.toList
  if cs = "first".toList then .ok .first
  else if cs = "last".toList then .ok .last
  else match splitColon? cs with
    | none => .error (.unknown (String.ofList cs))
    | some (front, back) =>
      let anchor := Text.trimChars back
      let position := Text.trimChars front
      if anchor = [] then .error (.noAnchor (String.ofList cs))
      else if position = "before".toList then .ok (.before (String.ofList anchor))
      else if position = "after".toList then .ok (.after (String.ofList anchor))
      else .error (.badPosition (String.ofList position))

end Placement

end StagedCompiler
