import Minify.Text.CharClass
import Minify.Token
import Std.Data.TreeMap

/-!
The layout of a script with the least room between its tokens.

The layout is a list of chunks, one for each token that is kept. In front of a chunk stands nothing,
a space that keeps it apart from the chunk before, or a semicolon or line feed that ends the
statement before where the script had a line end. A semicolon in front of a closing brace is left
out, unless it is the empty body of a statement.

Places are counted without a bound. Words of 32 bits hold them as long as the script and the layout
are shorter than 2³² bytes, and what is proved about maps has that for a condition.
-/

namespace Minify

/-- New texts for tokens, by their index. -/
abbrev Replacements := Std.TreeMap Nat String

namespace Layout

open Text

/-- What stands in front of a chunk. -/
inductive Gap where
  | nothing
  | space
  | semicolon
  | lineFeed
  deriving DecidableEq, Repr

def Gap.text : Gap → String
  | nothing => ""
  | space => " "
  | semicolon => ";"
  | lineFeed => "\n"

/-- A token in the layout, and the byte offset where it started in the script. -/
structure Chunk where
  gap : Gap
  text : String
  original : Nat
  deriving DecidableEq, Repr

def isWordPart (c : Char) : Bool := isNamePart c || c = '\\'

/-- Whether two texts would be read differently with nothing between them. A point after a whole
number would go with the number. -/
def needsSpace (before after : String) : Bool :=
  match before.toList.getLast?, after.toList.head? with
  | some a, some b =>
    (isWordPart a && isWordPart b)
      || [('+', '+'), ('-', '-'), ('/', '/'), ('/', '*'), ('<', '!')].contains (a, b)
      || (b = '.' && before.toList.head?.any Char.isDigit
          && before.toList.all fun c => c.isDigit || c = '_')
  | _, _ => false

/-- A semicolon read but not yet laid out. -/
structure Pending where
  offset : Nat
  /-- It is the empty body of a statement, so it stays in front of a closing brace. -/
  keep : Bool
  deriving DecidableEq, Repr

structure State where
  /-- The text of the last chunk. -/
  last : String
  /-- The last token that is not trivia. -/
  prev : Option Token
  /-- That token closed the header of a statement or the parameters of a function. -/
  closesHeader : Bool
  /-- The next parenthesis opens the parameters of a function. -/
  functionHead : Bool
  /-- The last token is a keyword with a header. -/
  headerKeyword : Bool
  /-- For each open parenthesis, innermost first, whether it opened a header or parameters. -/
  parens : List Bool
  /-- A line ended since the last token. -/
  lineBreak : Bool
  pending : Option Pending
  deriving DecidableEq, Repr

def State.start : State :=
  { last := "", prev := none, closesHeader := false, functionHead := false, headerKeyword := false,
    parens := [], lineBreak := false, pending := none }

/-- Lays out a text after the gap, or after a space if it needs one and the gap is empty. -/
def State.write (s : State) (gap : Gap) (text : String) (original : Nat) : Chunk × State :=
  let gap := if gap = .nothing && needsSpace s.last text then .space else gap
  ({ gap := gap, text := text, original := original }, { s with last := text })

def State.flush (s : State) : List Chunk × State :=
  match s.pending with
  | none => ([], s)
  | some p =>
    let w := { s with pending := none }.write .nothing ";" p.offset
    ([w.1], w.2)

/-- The pending semicolon in front of a token: left out before a closing brace unless it has to
stay. -/
def State.settle (s : State) (t : Token) : List Chunk × State :=
  match s.pending with
  | none => ([], s)
  | some p => if p.keep || !t.isPunct "\x7d" then s.flush else ([], { s with pending := none })

/-- An empty statement after the last token is the body of a statement. -/
def State.awaitsBody (s : State) : Bool :=
  s.closesHeader
    || s.prev.any fun p => p.isKeyword .kwElse || p.isKeyword .kwDo || p.isPunct ":"

/-- What ends the statement before a token, if a line end did so in the script. -/
def State.lineEnd (s : State) (t : Token) : Gap :=
  match s.prev with
  | none => .nothing
  | some p =>
    if !s.lineBreak then .nothing
    else if p.isRestricted then if t.isPunct "\x7d" then .nothing else .semicolon
    else if p.endsOperand && !s.closesHeader && (t.startsStatement || t.isKeyword .kwElse) then
      .lineFeed
    else .nothing

/-- The state after a token that is not trivia. A keyword after a point is the name of a
property. -/
def State.advance (s : State) (t : Token) : State :=
  let property := s.prev.any fun p => p.isPunct "." || p.isPunct "?."
  let s := { s with
    closesHeader := false
    headerKeyword := !property && t.hasHeader
    prev := some t
    lineBreak := false
    functionHead :=
      match t.kind with
      | .identifier => s.functionHead
      | .punctuator => t.text == "*" && s.functionHead
      | .keyword .kwFunction => !property
      | _ => false
    parens := if t.isPunct "(" then (s.functionHead || s.headerKeyword) :: s.parens else s.parens }
  if t.isPunct ")" then
    { s with closesHeader := s.parens.head?.getD false, parens := s.parens.tail }
  else s

def State.significant (s : State) (t : Token) (text : String) : List Chunk × State :=
  if t.isPunct ";" then
    let f := s.flush
    let s := { f.2 with pending := some ⟨t.start, f.2.awaitsBody⟩ }
    (f.1, s.advance t)
  else
    let f := s.settle t
    let w := f.2.write (f.2.lineEnd t) text t.start
    (f.1 ++ [w.1], w.2.advance t)

def State.step (s : State) (t : Token) (text : String) : List Chunk × State :=
  match t.kind with
  | .blank | .comment .line => ([], s)
  | .lineBreak => ([], { s with lineBreak := true })
  | .comment (.block multiline) => ([], { s with lineBreak := s.lineBreak || multiline })
  | .comment .conditional =>
    let f := s.flush
    let w := f.2.write .nothing t.text t.start
    (f.1 ++ [w.1], w.2)
  | _ => s.significant t text

def State.run (s : State) : List (Token × String) → List Chunk
  | [] => s.flush.1
  | (t, text) :: rest =>
    let r := s.step t text
    r.1 ++ r.2.run rest

def newTexts (tokens : List Token) (replacements : Replacements) : List (Token × String) :=
  tokens.zipIdx.map fun (t, i) => (t, (replacements[i]?).getD t.text)

def chunks (tokens : List Token) (replacements : Replacements) : List Chunk :=
  State.start.run (newTexts tokens replacements)

def code (cs : List Chunk) : String := String.join (cs.flatMap fun c => [c.gap.text, c.text])

/-- A byte of a layout and the byte of the script it stands for. -/
structure Mapping where
  generated : Nat
  original : Nat
  deriving DecidableEq, Repr

/-- Where each chunk starts, for a layout whose text starts at the byte `pos`. -/
def mappings (pos : Nat) : List Chunk → List Mapping
  | [] => []
  | c :: cs =>
    let start := pos + c.gap.text.utf8ByteSize
    ⟨start, c.original⟩ :: mappings (start + c.text.utf8ByteSize) cs

end Layout

/-- A script laid out: its text, and where its chunks stand. -/
structure Compacted where
  code : String
  mappings : List Layout.Mapping
  deriving DecidableEq, Repr

/-- Writes the tokens of a script with the least room between them. -/
def compact (tokens : List Token) (replacements : Replacements) : Compacted :=
  let cs := Layout.chunks tokens replacements
  { code := Layout.code cs, mappings := Layout.mappings 0 cs }

end Minify
