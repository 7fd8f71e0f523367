import Sentential.Assignment.Entry
import Sentential.Valuation

/- Assignments as texts: entries with commas between them. Empty parts between
   commas do not count, entries are taken from left to right so that the last
   one for a name decides, and the first part that is no entry is the fault of
   the whole text. -/
namespace Sentential

/-- The parts of a text between its commas, the empty ones left out. -/
def assignmentParts (text : List Char) : List (List Char) :=
  (text.splitOn ',').filter fun part => !part.isEmpty

/-- Adds the entry that a part spells. -/
def Assignment.addPart (m : Assignment) (part : List Char) : Except AssignmentError Assignment :=
  (parseEntry part).map fun entry => m.insert entry.1 entry.2

/-- Reads an assignment. -/
def Assignment.parse (text : String) : Except AssignmentError Assignment :=
  (assignmentParts text.toList).foldlM Assignment.addPart ∅

/-- Writes entries in the given order, with commas between them. -/
def writeEntries (entries : List (String × Bool)) : String :=
  ",".intercalate (entries.map writeEntry)

/-- Writes an assignment, its entries in ascending order of names. -/
def Assignment.write (m : Assignment) : String := writeEntries m.toList

end Sentential
