import Sentential.Text.Ranges

/- White space as Unicode's property White_Space has it: twenty-five characters,
   among them the four that core's `Char.isWhitespace` knows. -/
namespace Sentential.Text

/-- The ranges of code points that are white space, ends included. -/
def blankRanges : Ranges :=
  ⟨[(0x09, 0x0d), (0x20, 0x20), (0x85, 0x85), (0xa0, 0xa0), (0x1680, 0x1680), (0x2000, 0x200a),
    (0x2028, 0x2029), (0x202f, 0x202f), (0x205f, 0x205f), (0x3000, 0x3000)], by decide⟩

/-- Whether a character is white space. -/
def isBlank (c : Char) : Bool := blankRanges.covers c.toNat

/-- The characters without the white space at both ends. -/
def trim (cs : List Char) : List Char :=
  ((cs.dropWhile isBlank).reverse.dropWhile isBlank).reverse

end Sentential.Text
