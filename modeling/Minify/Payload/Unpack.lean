import Minify.Numeral
import Minify.Payload
import Minify.Text.CharClass

/-!
Reading packed scripts: the text that the decoder would run.
-/

namespace Minify

namespace Payload

/-- A run of decimal digits that fits 64 bits, and what follows it. -/
def number? (cs : List Char) : Option (Nat × List Char) :=
  let ds := cs.takeWhile Char.isDigit
  let n := ds.foldl (fun n c => 10 * n + (c.toNat - 48)) 0
  if ds.isEmpty || n ≥ UInt64.size then none else some (n, cs.drop ds.length)

def after? (front cs : List Char) : Option (List Char) :=
  if front.isPrefixOf cs then some (cs.drop front.length) else none

structure Parts where
  payload : List Char
  radix : Nat
  count : Nat
  words : List (List Char)
  deriving DecidableEq, Repr

def orElse {α : Type} (what : Malformation) (v : Option α) : Except EncodingError α :=
  match v with
  | some a => .ok a
  | none => .error (.malformed what)

def parts (cs : List Char) : Except EncodingError Parts := do
  let rest ← orElse .missingDecoder (after? decoderHead.toList cs)
  let (payload, rest) ← orElse .unterminatedPayload (unquoted? rest)
  let rest ← orElse .noRadix (after? [','] rest)
  let (radix, rest) ← orElse .noRadix (number? rest)
  let rest ← orElse .noWordCount (after? [','] rest)
  let (count, rest) ← orElse .noWordCount (number? rest)
  let rest ← orElse .noWordList (after? [','] rest)
  let (words, rest) ← orElse .unterminatedWordList (unquoted? rest)
  if rest != decoderTail.toList then throw (.malformed .trailer)
  if !isRadix radix then throw (.invalidRadix (radix % UInt32.size))
  let words := split words
  if count > 0 && words.length != count then throw (.malformed .wordCount)
  return { payload := payload, radix := radix, count := count, words := words }

def expandCode (radix count : Nat) (words : Array (List Char)) (code : List Char) :
    Except EncodingError (List Char) :=
  match Numeral.decode? radix code with
  | some i =>
    if i < count then
      let word := words.getD i []
      .ok (if word.isEmpty then code else word)
    else .error (.malformed (.unknownCode (String.ofList code)))
  | none => .error (.malformed (.unknownCode (String.ofList code)))

/-- A text with each run of word characters replaced; `run` is the run just before it, the last
character first. -/
def expandRuns (expand : List Char → Except EncodingError (List Char)) (run : List Char) :
    List Char → Except EncodingError (List Char)
  | [] => if run.isEmpty then .ok [] else expand run.reverse
  | c :: cs =>
    if Text.isWordChar c then expandRuns expand (c :: run) cs
    else do
      let word ← if run.isEmpty then .ok [] else expand run.reverse
      return word ++ c :: (← expandRuns expand [] cs)

end Payload

open Payload in
/-- The text that a packed script stands for. -/
def unpack (packed : String) : Except EncodingError String := do
  let p ← parts packed.toList
  return String.ofList (← expandRuns (expandCode p.radix p.count p.words.toArray) [] p.payload)

end Minify
