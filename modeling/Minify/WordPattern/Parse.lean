import Minify.WordPattern

/-!
The notation of word patterns: characters, classes in square brackets, escapes, groups, bars between
alternatives, repetitions, and the anchors of texts and words. A pattern that could take apart a
character beyond ASCII is refused, as is one that groups in any way but plainly.
-/

namespace Minify.WordPattern

/-- A set of ASCII characters; `high` when all bytes beyond ASCII belong to it as well. -/
structure CharSet where
  ranges : List (Char × Char)
  high : Bool

namespace CharSet

def empty : CharSet := ⟨[], false⟩

def ofRanges (ranges : List (Char × Char)) : CharSet := ⟨ranges, false⟩

def union (a b : CharSet) : CharSet := ⟨a.ranges ++ b.ranges, a.high || b.high⟩

def complement (a : CharSet) : CharSet :=
  let others := ((List.range 128).map Char.ofNat).filter fun c => !inRange a.ranges c
  ⟨others.map fun c => (c, c), !a.high⟩

def toPattern? (a : CharSet) : Option WordPattern := if a.high then none else some (chars a.ranges)

end CharSet

def namedSet? : String → Option CharSet
  | "alnum" => some (.ofRanges [('0', '9'), ('A', 'Z'), ('a', 'z')])
  | "alpha" => some (.ofRanges [('A', 'Z'), ('a', 'z')])
  | "ascii" => some (.ofRanges [('\x00', '\x7f')])
  | "blank" => some (.ofRanges [('\t', '\t'), (' ', ' ')])
  | "cntrl" => some (.ofRanges [('\x00', '\x1f'), ('\x7f', '\x7f')])
  | "digit" => some (.ofRanges [('0', '9')])
  | "graph" => some (.ofRanges [('!', '~')])
  | "lower" => some (.ofRanges [('a', 'z')])
  | "print" => some (.ofRanges [(' ', '~')])
  | "punct" => some (.ofRanges [('!', '/'), (':', '@'), ('[', '\x60'), ('\x7b', '~')])
  | "space" => some (.ofRanges [('\t', '\r'), (' ', ' ')])
  | "upper" => some (.ofRanges [('A', 'Z')])
  | "word" => some (.ofRanges wordRanges)
  | "xdigit" => some (.ofRanges [('0', '9'), ('A', 'F'), ('a', 'f')])
  | _ => none

inductive Escape where
  | char (c : Char)
  | set (s : CharSet)
  | anchor (a : Anchor)

def hexValue (ds : List Char) : Nat :=
  ds.foldl (fun n c =>
    16 * n + (if c.isDigit then c.toNat - 48 else (c.toNat - 55) % 32)) 0

def charOf? (n : Nat) : Option Char := if n.isValidChar then some (Char.ofNat n) else none

/-- A character by its code point, after the letter that announces it: so many digits, or any number
of them in braces. -/
def hexEscape? (width : Nat) : List Char → Option (Char × Bool × List Char)
  | '\x7b' :: cs =>
    let ds := cs.takeWhile Text.isHexDigit
    match ds, cs.drop ds.length with
    | _ :: _, '\x7d' :: rest => (charOf? (hexValue ds)).map fun c => (c, true, rest)
    | _, _ => none
  | cs =>
    let ds := cs.take width
    if ds.length = width && ds.all Text.isHexDigit then
      (charOf? (hexValue ds)).map fun c => (c, false, cs.drop width)
    else none

/-- An escape, after its backslash. Two digits give a byte, so they may not go beyond ASCII. -/
def escape? : List Char → Option (Escape × List Char)
  | [] => none
  | c :: cs =>
    let digits := CharSet.ofRanges [('0', '9')]
    let blanks := CharSet.ofRanges [('\t', '\r'), (' ', ' ')]
    let words := CharSet.ofRanges wordRanges
    match c with
    | 'd' => some (.set digits, cs)
    | 'D' => some (.set digits.complement, cs)
    | 's' => some (.set blanks, cs)
    | 'S' => some (.set blanks.complement, cs)
    | 'w' => some (.set words, cs)
    | 'W' => some (.set words.complement, cs)
    | 'A' => some (.anchor .textStart, cs)
    | 'z' => some (.anchor .textEnd, cs)
    | 'b' => some (.anchor .wordEdge, cs)
    | 'B' => some (.anchor .noWordEdge, cs)
    | 'a' => some (.char '\x07', cs)
    | 'f' => some (.char '\x0c', cs)
    | 't' => some (.char '\t', cs)
    | 'n' => some (.char '\n', cs)
    | 'r' => some (.char '\r', cs)
    | 'v' => some (.char '\x0b', cs)
    | 'x' =>
      match hexEscape? 2 cs with
      | some (x, braced, rest) =>
        if braced || x.toNat < 128 then some (.char x, rest) else none
      | none => none
    | 'u' => (hexEscape? 4 cs).map fun (x, _, rest) => (.char x, rest)
    | 'U' => (hexEscape? 8 cs).map fun (x, _, rest) => (.char x, rest)
    | c =>
      if Text.isAscii c && !c.isAlphanum && c != '<' && c != '>' then some (.char c, cs) else none

/-- A character of a class, or a set in it. -/
inductive ClassItem where
  | char (c : Char)
  | set (s : CharSet)

def classItem? : List Char → Option (ClassItem × List Char)
  | '[' :: ':' :: cs =>
    let negated := cs.head? == some '^'
    let cs := if negated then cs.tail else cs
    let name := cs.takeWhile Char.isAlpha
    match namedSet? (String.ofList name), cs.drop name.length with
    | some s, ':' :: ']' :: rest => some (.set (if negated then s.complement else s), rest)
    | _, _ => none
  | '[' :: _ => none
  | '\\' :: cs =>
    match escape? cs with
    | some (.char c, rest) => if Text.isAscii c then some (.char c, rest) else none
    | some (.set s, rest) => some (.set s, rest)
    | _ => none
  | c :: cs => if Text.isAscii c then some (.char c, cs) else none
  | [] => none

def classItems (acc : CharSet) (cs : List Char) : Option (CharSet × List Char) :=
  match cs with
  | ']' :: rest => some (acc, rest)
  | '&' :: '&' :: _ | '-' :: '-' :: _ | '~' :: '~' :: _ => none
  | cs =>
    match classItem? cs with
    | none => none
    | some (item, rest) =>
      let isRange := rest.head? == some '-'
        && rest.tail.head?.any fun c => c != ']' && c != '-'
      let added : Option (CharSet × List Char) :=
        if isRange then
          match item, classItem? rest.tail with
          | .char low, some (.char high, rest) =>
            if low ≤ high then some (.ofRanges [(low, high)], rest) else none
          | _, _ => none
        else
          match item with
          | .char c => some (.ofRanges [(c, c)], rest)
          | .set s => some (s, rest)
      match added with
      | none => none
      | some (s, rest) =>
        if rest.length < cs.length then classItems (acc.union s) rest else none
termination_by cs.length

/-- A class after its opening bracket. Hyphens, or else a closing bracket, in front are
characters. -/
def charClass? (cs : List Char) : Option (CharSet × List Char) :=
  let negated := cs.head? == some '^'
  let cs := if negated then cs.tail else cs
  let hyphens := cs.takeWhile (· == '-')
  let rest := cs.drop hyphens.length
  let bracket := hyphens.isEmpty && rest.head? == some ']'
  let front := CharSet.ofRanges ((if hyphens.isEmpty then [] else [('-', '-')])
    ++ (if bracket then [(']', ']')] else []))
  (classItems front (if bracket then rest.tail else rest)).map fun (s, rest) =>
    (if negated then s.complement else s, rest)

/-- A part of a pattern as written. -/
inductive Part where
  | item (p : WordPattern)
  | opens
  | closes
  | bar
  | times (least : Nat) (most : Option Nat) (greedy : Bool)

def times (least : Nat) (most : Option Nat) (rest : List Char) : Part × List Char :=
  if rest.head? == some '?' then (.times least most false, rest.tail)
  else (.times least most true, rest)

def count? (cs : List Char) : Option (Nat × List Char) :=
  let cs := cs.dropWhile Char.isWhitespace
  let ds := cs.takeWhile Char.isDigit
  let n := ds.foldl (fun n c => 10 * n + (c.toNat - 48)) 0
  if ds.isEmpty || n ≥ UInt32.size then none
  else some (n, (cs.drop ds.length).dropWhile Char.isWhitespace)

def counts? (cs : List Char) : Option (Part × List Char) := do
  let (least, rest) ← count? cs
  match rest with
  | '\x7d' :: rest => some (times least (some least) rest)
  | ',' :: '\x7d' :: rest => some (times least none rest)
  | ',' :: rest =>
    match ← count? rest with
    | (most, '\x7d' :: rest) => if least ≤ most then some (times least (some most) rest) else none
    | _ => none
  | _ => none

def part? : List Char → Option (Part × List Char)
  | [] => none
  | c :: cs =>
    match c with
    | '(' =>
      match cs with
      | '?' :: ':' :: rest => some (.opens, rest)
      | '?' :: _ => none
      | _ => some (.opens, cs)
    | ')' => some (.closes, cs)
    | '|' => some (.bar, cs)
    | '*' => some (times 0 none cs)
    | '+' => some (times 1 none cs)
    | '?' => some (times 0 (some 1) cs)
    | '\x7b' => counts? cs
    | '[' => (charClass? cs).bind fun (s, rest) => s.toPattern?.map fun p => (.item p, rest)
    | '^' => some (.item (.anchor .textStart), cs)
    | '$' => some (.item (.anchor .textEnd), cs)
    | '.' => none
    | '\\' =>
      match escape? cs with
      | some (.char x, rest) => some (.item (chars [(x, x)]), rest)
      | some (.set s, rest) => s.toPattern?.map fun p => (.item p, rest)
      | some (.anchor a, rest) => some (.item (.anchor a), rest)
      | none => none
    | c => some (.item (chars [(c, c)]), cs)

def parts? (cs : List Char) : Option (List Part) :=
  match cs with
  | [] => some []
  | cs =>
    match part? cs with
    | none => none
    | some (p, rest) => if rest.length < cs.length then (parts? rest).map (p :: ·) else none
termination_by cs.length

/-- A group in the making: its alternatives before the last, and the items of that, the last of each
first. -/
structure Group where
  alternatives : List WordPattern
  items : List WordPattern

namespace Group

def start : Group := ⟨[], []⟩

def sequence : List WordPattern → WordPattern
  | [] => empty
  | p :: ps => ps.foldl (fun acc q => seq q acc) p

def finish (g : Group) : WordPattern :=
  g.alternatives.foldl (fun acc q => alt q acc) (sequence g.items)

def add (g : Group) (p : WordPattern) : Group := { g with items := p :: g.items }

end Group

/-- The open groups, innermost first, after one more part. -/
def build : List Group → Part → Option (List Group)
  | g :: outer, .item p => some (g.add p :: outer)
  | g :: outer, .bar => some (⟨Group.sequence g.items :: g.alternatives, []⟩ :: outer)
  | groups, .opens => some (.start :: groups)
  | g :: h :: outer, .closes => some (h.add g.finish :: outer)
  | ⟨alternatives, p :: items⟩ :: outer, .times least most greedy =>
    some (⟨alternatives, repeated p least most greedy :: items⟩ :: outer)
  | _, _ => none

def ofString? (s : String) : Option WordPattern := do
  match ← (← parts? s.toList).foldlM build [.start] with
  | [g] => some g.finish
  | _ => none

end Minify.WordPattern
