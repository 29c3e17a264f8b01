/-!
Lines and columns of byte offsets. A line feed, a carriage return, and the two in this order each
end one line. Offsets, lines and columns fit words of 32 bits in a text shorter than 2³² bytes.
-/

namespace Minify.Text

def countLines : List Char → Nat
  | [] => 0
  | '\r' :: '\n' :: cs => countLines cs + 1
  | c :: cs => if c = '\n' || c = '\r' then countLines cs + 1 else countLines cs

/-- The byte offsets of the lines after the first, for a text that starts at `pos`. -/
def lineStarts (pos : Nat) : List Char → List Nat
  | [] => []
  | '\r' :: '\n' :: cs => (pos + 2) :: lineStarts (pos + 2) cs
  | c :: cs =>
    if c = '\n' || c = '\r' then (pos + 1) :: lineStarts (pos + 1) cs
    else lineStarts (pos + c.utf8Size) cs

/-- A line and a byte in it, both counted from zero. -/
structure Position where
  line : Nat
  column : Nat
  deriving DecidableEq, Repr

def Position.le (a b : Position) : Bool :=
  a.line < b.line || (a.line == b.line && a.column ≤ b.column)

/-- The byte offsets where the lines after the first start. -/
structure LineIndex where
  starts : List Nat
  deriving DecidableEq, Repr

namespace LineIndex

def ofString (s : String) : LineIndex := ⟨lineStarts 0 s.toList⟩

def count (ix : LineIndex) : Nat := ix.starts.length + 1

/-- The position of an offset, when line number `line` starts at `start` and those after it at
`starts`. -/
def positionFrom (line start offset : Nat) : List Nat → Position
  | [] => ⟨line, offset - start⟩
  | s :: starts =>
    if offset < s then ⟨line, offset - start⟩ else positionFrom (line + 1) s offset starts

/-- The position of a byte offset. One past the end lies on the last line. -/
def position (ix : LineIndex) (offset : Nat) : Position := positionFrom 0 0 offset ix.starts

end LineIndex

end Minify.Text
