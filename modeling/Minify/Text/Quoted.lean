import Minify.Text.Hidden
import Minify.Text.Letters

/-!
Quoted text as messages show it: between quotes, with a backslash before what would not be read
as itself, and the code point of every character that does not show.
-/

namespace Minify.Text

/-- One character as it stands between two `quote` characters. -/
def quotedChar (quote c : Char) : List Char :=
  if c = '\x00' then ['\\', '0']
  else if c = '\t' then ['\\', 't']
  else if c = '\n' then ['\\', 'n']
  else if c = '\r' then ['\\', 'r']
  else if c = '\\' || c = quote then ['\\', c]
  else if c.toNat < 0x20 || c = '\x7f' || inRanges hiddenRanges c then
    ['\\', 'u', '\x7b'] ++ Nat.toDigits 16 c.toNat ++ ['\x7d']
  else [c]

def quoteChar (c : Char) : String :=
  String.ofList (['\''] ++ quotedChar '\'' c ++ ['\''])

def quote (s : String) : String :=
  String.ofList (['"'] ++ s.toList.flatMap (quotedChar '"') ++ ['"'])

end Minify.Text
