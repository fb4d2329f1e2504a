import Datalog.Text.Alphabetic
import Datalog.Text.Numeric

/-!
# Character classes

Names are spelled in alphabetic characters, numeric characters and underscores of every
script. Between lexemes only four ASCII blanks count as white space; the wider class
`isWhiteSpace` serves to point a diagnostic past any white space.
-/

namespace Datalog.Text

/-- Whether all characters of a text have a property is decided by looking at them, and not at
all characters there are. -/
instance (priority := high) decidableForallMem {chars : List Char} {property : Char → Prop}
    [DecidablePred property] : Decidable (∀ char ∈ chars, property char) :=
  List.decidableBAll property chars

/-- Whether a code point lies in one of the inclusive ranges. -/
def inRanges (ranges : List (Nat × Nat)) (codePoint : Nat) : Bool :=
  ranges.any fun range => range.1 ≤ codePoint && codePoint ≤ range.2

/-- Whether a character has the derived property Alphabetic. -/
def isAlphabetic (char : Char) : Bool :=
  if char.toNat < 128 then char.isAlpha else inRanges alphabeticRanges char.toNat

/-- Whether a character is a decimal, letter or other number. -/
def isNumeric (char : Char) : Bool :=
  if char.toNat < 128 then char.isDigit else inRanges numericRanges char.toNat

/-- Whether a character may follow the first one of a name. -/
def isNameChar (char : Char) : Bool :=
  isAlphabetic char || isNumeric char || char == '_'

/-- Whether a character separates lexemes. -/
def isBlank (char : Char) : Bool :=
  char == ' ' || char == '\t' || char == '\r' || char == '\n'

/-- The characters with the property White_Space. -/
def whiteSpaceRanges : List (Nat × Nat) := [
  (0x9, 0xd), (0x20, 0x20), (0x85, 0x85), (0xa0, 0xa0), (0x1680, 0x1680), (0x2000, 0x200a),
  (0x2028, 0x2029), (0x202f, 0x202f), (0x205f, 0x205f), (0x3000, 0x3000)]

/-- Whether a character has the property White_Space. -/
def isWhiteSpace (char : Char) : Bool :=
  inRanges whiteSpaceRanges char.toNat

end Datalog.Text
