import Sentential.Text.Blank

/- One entry of an assignment text: a name, an equals sign and a value. White
   space around the name and around the value does not count. The name ends at
   the first equals sign, may be empty, and the value is `true` or `false`. -/
namespace Sentential

/-- Why a text is not an assignment. -/
inductive AssignmentError where
  /-- This part has no equals sign. -/
  | noEquals (part : String)
  /-- A value is neither `true` nor `false`. -/
  | notTruthValue
  deriving DecidableEq, Repr

/-- The fault in words. -/
def AssignmentError.message : AssignmentError → String
  | .noEquals part => s!"expected NAME=VALUE, got '{part}'"
  | .notTruthValue => "provided string was not `true` or `false`"

/-- A truth value as assignment texts spell it. -/
def truthWord (b : Bool) : String := if b then "true" else "false"

/-- The truth value that a word spells, if it spells one. -/
def truthValue? (word : List Char) : Option Bool :=
  if word = "true".toList then some true
  else if word = "false".toList then some false
  else none

theorem truthValue?_truthWord (b : Bool) : truthValue? (truthWord b).toList = some b := by
  cases b <;> decide

/-- Reads one part of an assignment text. -/
def parseEntry (part : List Char) : Except AssignmentError (String × Bool) :=
  match part.span (· != '=') with
  | (_, []) => .error (.noEquals (.ofList part))
  | (name, _ :: value) =>
    match truthValue? (Text.trim value) with
    | some b => .ok (.ofList (Text.trim name), b)
    | none => .error .notTruthValue

/-- Writes one entry. -/
def writeEntry (entry : String × Bool) : String := entry.1 ++ "=" ++ truthWord entry.2

end Sentential
