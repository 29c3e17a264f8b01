import Minify.Text.Letters

/-!
The classes of characters that the words of a script are made of: line ends, blanks, and the
characters that begin and continue an identifier.
-/

namespace Minify.Text

/-- Line feed, carriage return and the two Unicode separators end a line. -/
def isLineEnd (c : Char) : Bool :=
  c = '\n' || c = '\r' || c = '\u2028' || c = '\u2029'

def isBlank (c : Char) : Bool :=
  c = ' ' || c = '\t' || c = '\x0b' || c = '\x0c' || c = '\u0085' || c = '\u00a0' || c = '\u1680'
    || ('\u2000' ≤ c && c ≤ '\u200a') || c = '\u202f' || c = '\u205f' || c = '\u3000'
    || c = '\ufeff'

def isAscii (c : Char) : Bool := c.toNat < 128

def isNameStart (c : Char) : Bool :=
  c.isAlpha || c = '$' || c = '_' || (!isAscii c && inRanges letterRanges c)

/-- A character that may follow in an identifier; the two joiners may. -/
def isNamePart (c : Char) : Bool :=
  c.isAlphanum || c = '$' || c = '_' || c = '\u200c' || c = '\u200d'
    || (!isAscii c && (inRanges letterRanges c || inRanges markRanges c))

def isHexDigit (c : Char) : Bool :=
  c.isDigit || ('a' ≤ c && c ≤ 'f') || ('A' ≤ c && c ≤ 'F')

def isWordChar (c : Char) : Bool := c.isAlphanum || c = '_'

theorem isNamePart_of_isNameStart {c : Char} (h : isNameStart c = true) : isNamePart c = true := by
  simp only [isNameStart, isNamePart, Char.isAlphanum, Bool.or_eq_true, Bool.and_eq_true] at h ⊢
  rcases h with ((h | h) | h) | h <;> simp [h]

end Minify.Text
