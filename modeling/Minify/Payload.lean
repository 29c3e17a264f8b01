import Minify.Text.Quoted
import Minify.Text.Split

/-!
The format of packed scripts: a call of a decoder that is written out, with a payload, a radix, the
number of words, and the words.

Each word of the payload is the numeral of an index into the list of words, whose entry it stands
for; an empty entry leaves the numeral as it is. Payload and words are strings in single quotes.
-/

namespace Minify

/-- What a text lacks to be a packed script. -/
inductive Malformation where
  | missingDecoder
  | unterminatedPayload
  | noRadix
  | noWordCount
  | noWordList
  | unterminatedWordList
  | trailer
  | wordCount
  | unknownCode (code : String)
  deriving DecidableEq, Repr

inductive EncodingError where
  | invalidRadix (radix : Nat)
  | invalidPattern (pattern : String)
  | delimiterInWord (word : String)
  | malformed (what : Malformation)
  /-- The packed script would not decode to the text; the byte of the first difference. -/
  | roundTrip (offset : Nat)
  deriving DecidableEq, Repr

def Malformation.message : Malformation → String
  | .missingDecoder => "missing decoder"
  | .unterminatedPayload => "unterminated payload"
  | .noRadix => "expected radix"
  | .noWordCount => "expected word count"
  | .noWordList => "expected word list"
  | .unterminatedWordList => "unterminated word list"
  | .trailer => "unexpected trailer"
  | .wordCount => "word count does not match word list"
  | .unknownCode code => "unknown code " ++ Text.quote code

/-- The text of an error. What is wrong with a pattern is not told. -/
def EncodingError.message : EncodingError → String
  | .invalidRadix radix => "radix " ++ toString radix ++ " is outside 2..=62"
  | .invalidPattern pattern => "invalid word pattern " ++ Text.quote pattern
  | .delimiterInWord word => "dictionary word " ++ Text.quote word ++ " contains the '|' delimiter"
  | .malformed what => "not a packed payload: " ++ what.message
  | .roundTrip offset =>
    "payload does not decode back to its input (first difference at byte " ++ toString offset ++ ")"

namespace Payload

def decoderHead : String :=
  "eval(function(p,a,c,k,e,r)\x7be=function(c)\x7breturn(c<a?'':e(parseInt(c/a)))+((c=c%a)>35?"
    ++ "String.fromCharCode(c+29):c.toString(36))\x7d;if(!''.replace(/^/,String))\x7bwhile(c--)"
    ++ "r[e(c)]=k[c]||e(c);k=[function(e)\x7breturn r[e]\x7d];e=function()\x7breturn'\\\\w+'\x7d;"
    ++ "c=1\x7d;while(c--)if(k[c])p=p.replace(new RegExp('\\\\b'+e(c)+'\\\\b','g'),k[c]);"
    ++ "return p\x7d("

def decoderTail : String := ".split('|'),0,\x7b\x7d))"

def isRadix (radix : Nat) : Bool := 2 ≤ radix && radix ≤ 62

def quotedChar (c : Char) : List Char :=
  if c = '\\' then ['\\', '\\']
  else if c = '\'' then ['\\', '\'']
  else if c = '\n' then ['\\', 'n']
  else if c = '\r' then ['\\', 'r']
  else [c]

def quoted (cs : List Char) : List Char := '\'' :: cs.flatMap quotedChar ++ ['\'']

/-- The character that an escape stands for: a line end, or itself. -/
def unescaped (c : Char) : Char :=
  if c = 'n' then '\n' else if c = 'r' then '\r' else c

def unquotedBody? : List Char → Option (List Char × List Char)
  | [] => none
  | '\'' :: cs => some ([], cs)
  | '\\' :: [] => none
  | '\\' :: c :: cs => (unquotedBody? cs).map fun r => (unescaped c :: r.1, r.2)
  | c :: cs => (unquotedBody? cs).map fun r => (c :: r.1, r.2)

def unquoted? : List Char → Option (List Char × List Char)
  | '\'' :: cs => unquotedBody? cs
  | _ => none

def delimiter : Char := '|'

def join (words : List (List Char)) : List Char := [delimiter].intercalate words

/-- The words of a text: always one more than there are bars. -/
def split (cs : List Char) : List (List Char) := Text.splitOn delimiter cs

end Payload

end Minify
