import Sentential.Text.Extending
import Sentential.Text.Unprintable

/- Quoted text. The quote, the backslash and four control characters are written
   by a backslash and a letter or a digit. A character that extends the one
   before it, or that is not printed as it is, is written by its code point in
   hexadecimal wherever it stands, so it can be seen; every other character
   stands for itself. A quoted text has no line feed in it, and no quote but the
   two at its ends and those behind a backslash. -/
namespace Sentential.Text

/-- Whether a character is written by its code point. -/
def isHidden (c : Char) : Bool := isExtending c || isUnprintable c

/-- How a character is written between quotes. -/
def escape (c : Char) : List Char :=
  if c = '\x00' then ['\\', '0']
  else if c = '\t' then ['\\', 't']
  else if c = '\r' then ['\\', 'r']
  else if c = '\n' then ['\\', 'n']
  else if c = '"' then ['\\', '"']
  else if c = '\\' then ['\\', '\\']
  else if isHidden c then ['\\', 'u', '\x7b'] ++ Nat.toDigits 16 c.toNat ++ ['\x7d']
  else [c]

/-- A text between quotes, with escapes. -/
def quoted (s : String) : String :=
  String.ofList ('"' :: s.toList.flatMap escape ++ ['"'])

end Sentential.Text
