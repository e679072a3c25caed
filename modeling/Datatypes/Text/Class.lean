import Datatypes.Text.Alphabetic
import Datatypes.Text.Numeric

/-!
The character classes of the declaration language: blanks, digits, and the characters that
start and continue a word. ASCII is decided directly; the tables hold the rest.
-/

namespace Datatypes.Text

/-- White space: the 25 code points with the Unicode property White_Space. -/
def isBlank (c : Char) : Bool :=
  c = ' ' || ('\t' ≤ c && c ≤ '\r') ||
    (0x80 ≤ c.val && inRanges [(0x85, 0x85), (0xA0, 0xA0), (0x1680, 0x1680), (0x2000, 0x200A),
      (0x2028, 0x2029), (0x202F, 0x202F), (0x205F, 0x205F), (0x3000, 0x3000)] c)

def isAlphabetic (c : Char) : Bool :=
  c.isAlpha || (0x80 ≤ c.val && inRanges alphabeticRanges c)

def isNumeric (c : Char) : Bool :=
  c.isDigit || (0x80 ≤ c.val && inRanges numericRanges c)

def isWordStart (c : Char) : Bool :=
  isAlphabetic c || c = '_'

def isWordChar (c : Char) : Bool :=
  isAlphabetic c || isNumeric c || c = '_'

theorem isWordChar_of_isWordStart {c : Char} (h : isWordStart c = true) : isWordChar c = true := by
  simp only [isWordStart, isWordChar, Bool.or_eq_true] at h ⊢
  rcases h with h | h
  · exact .inl (.inl h)
  · exact .inr h

def isWord (s : String) : Bool :=
  match s.toList with
  | [] => false
  | c :: cs => isWordStart c && cs.all isWordChar

end Datatypes.Text
