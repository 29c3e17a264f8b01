import Minify.Payload.Unpack
import Minify.WordPattern.Parse

/-!
Packing a text: its words are replaced by the numerals of their places in a list of words, in the
order of their first uses. What is packed is read back before it is given out.
-/

namespace Minify

/-- How to write numerals and what to take for a word. -/
structure Encoder where
  radix : Nat
  words : WordPattern
  deriving DecidableEq, Repr

namespace Encoder

/-- The radix is looked at before the pattern. -/
def ofPattern (radix : Nat) (pattern : String) : Except EncodingError Encoder :=
  if !Payload.isRadix radix then .error (.invalidRadix radix)
  else
    match WordPattern.ofString? pattern with
    | some p => .ok ⟨radix, p⟩
    | none => .error (.invalidPattern pattern)

def matched (pieces : List WordPattern.Piece) : List (List Char) :=
  pieces.filterMap fun
    | .word cs => some cs
    | .other _ => none

/-- The different words among the pieces of a text, in the order of their first uses. -/
def wordList (pieces : List WordPattern.Piece) : List (List Char) := (matched pieces).eraseDups

def dictionary (e : Encoder) (text : String) : List String :=
  (wordList (e.words.pieces text.toList)).map String.ofList

def code (radix : Nat) (words : List (List Char)) (word : List Char) : List Char :=
  Numeral.digits radix (words.idxOf word)

def payload (radix : Nat) (words : List (List Char)) (pieces : List WordPattern.Piece) :
    List Char :=
  pieces.flatMap (WordPattern.Piece.charsBy (code radix words))

/-- The entries of the list of words; a word that is its own numeral has an empty one. -/
def entries (radix : Nat) (words : List (List Char)) : List (List Char) :=
  words.map fun w => if code radix words w == w then [] else w

/-- A packed script of its payload, its number of words, and the entries for them. -/
def pack (radix : Nat) (payload : List Char) (count : Nat) (entries : List (List Char)) : String :=
  Payload.decoderHead ++ String.ofList (Payload.quoted payload) ++ "," ++ toString radix ++ ","
    ++ toString count ++ "," ++ String.ofList (Payload.quoted (Payload.join entries))
    ++ Payload.decoderTail

/-- The first place where two lists of bytes differ; the end of the shorter if there is none. -/
def firstDifference : List UInt8 → List UInt8 → Nat
  | a :: as, b :: bs => if a = b then firstDifference as bs + 1 else 0
  | _, _ => 0

def bytes (s : String) : List UInt8 := s.toUTF8.toList

def verdict (text packed : String) : Except EncodingError String → Except EncodingError String
  | .ok back =>
    if back == text then .ok packed
    else .error (.roundTrip (firstDifference (bytes back) (bytes text)))
  | .error _ => .error (.roundTrip 0)

def checked (text packed : String) : Except EncodingError String :=
  verdict text packed (unpack packed)

/-- Packs a text that was cut into pieces, unless it would not come back. -/
def encodePieces (radix : Nat) (pieces : List WordPattern.Piece) (text : String) :
    Except EncodingError String :=
  let words := wordList pieces
  match words.find? fun w => w.contains Payload.delimiter with
  | some w => .error (.delimiterInWord (String.ofList w))
  | none =>
    checked text (pack radix (payload radix words pieces) words.length (entries radix words))

def encode (e : Encoder) (text : String) : Except EncodingError String :=
  encodePieces e.radix (e.words.pieces text.toList) text

end Encoder

end Minify
