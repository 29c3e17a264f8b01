import Minify.Text.CharClass

/-!
Patterns that pick the words out of a text.

A pattern is tried at a place of the text with a continuation, which says whether the rest is to
be had from where the pattern ends; the first way to go on that succeeds counts. Words are found
from left to right, and the search goes on behind each word. Classes hold ASCII characters.
-/

namespace Minify

inductive Anchor where
  | textStart
  | textEnd
  | wordEdge
  | noWordEdge
  deriving DecidableEq, Repr

inductive WordPattern where
  | empty
  /-- One character out of ranges with their ends. -/
  | chars (ranges : List (Char × Char))
  | anchor (a : Anchor)
  | seq (first second : WordPattern)
  /-- The first is preferred. -/
  | alt (first second : WordPattern)
  /-- Greedy repetitions prefer more, the others fewer. -/
  | repeated (body : WordPattern) (least : Nat) (most : Option Nat) (greedy : Bool)
  deriving DecidableEq, Repr

namespace WordPattern

/-- A place in a text: the character before it, what follows, and how many characters that is. -/
structure Cursor where
  before : Option Char
  rest : List Char
  left : Nat
  deriving DecidableEq, Repr

def inRange (ranges : List (Char × Char)) (c : Char) : Bool :=
  ranges.any fun r => r.1 ≤ c && c ≤ r.2

def atWordEdge (c : Cursor) : Bool :=
  c.before.any Text.isWordChar != c.rest.head?.any Text.isWordChar

def holds (c : Cursor) : Anchor → Bool
  | .textStart => c.before.isNone
  | .textEnd => c.rest.isEmpty
  | .wordEdge => atWordEdge c
  | .noWordEdge => !atWordEdge c

/-- What may follow; the result is the number of characters left at the end. -/
abbrev Continuation := Cursor → Option Nat

def exactly (body : Cursor → Continuation → Option Nat) :
    Nat → Cursor → Continuation → Option Nat
  | 0, c, k => k c
  | n + 1, c, k => body c fun d => exactly body n d k

/-- At most so many repetitions. After one that reads nothing there is no other. -/
def upTo (body : Cursor → Continuation → Option Nat) (greedy : Bool) :
    Nat → Cursor → Continuation → Option Nat
  | 0, c, k => k c
  | n + 1, c, k =>
    let again (d : Cursor) : Option Nat :=
      if d.left < c.left then upTo body greedy n d k else k d
    if greedy then
      match body c again with
      | some r => some r
      | none => k c
    else
      match k c with
      | some r => some r
      | none => body c again

def matchAt : WordPattern → Cursor → Continuation → Option Nat
  | empty, c, k => k c
  | chars ranges, c, k =>
    match c.rest with
    | x :: rest => if inRange ranges x then k ⟨some x, rest, c.left - 1⟩ else none
    | [] => none
  | anchor a, c, k => if holds c a then k c else none
  | seq p q, c, k => p.matchAt c fun d => q.matchAt d k
  | alt p q, c, k =>
    match p.matchAt c k with
    | some r => some r
    | none => q.matchAt c k
  | repeated p least most greedy, c, k =>
    exactly p.matchAt least c fun d =>
      upTo p.matchAt greedy ((most.map fun n => n - least).getD d.left) d k

/-- How many characters the pattern takes at a place; none counts as no match. -/
def matchLength (p : WordPattern) (c : Cursor) : Nat :=
  match p.matchAt c fun d => some d.left with
  | some left => c.left - left
  | none => 0

/-- A word, or a character in no word. -/
inductive Piece where
  | word (cs : List Char)
  | other (c : Char)
  deriving DecidableEq, Repr

def Piece.charsBy (change : List Char → List Char) : Piece → List Char
  | word cs => change cs
  | other c => [c]

def Piece.chars (p : Piece) : List Char := p.charsBy id

/-- The pieces of a text after the character `before`. -/
def piecesFrom (p : WordPattern) (before : Option Char) (left : Nat) : List Char → List Piece
  | [] => []
  | c :: cs =>
    let n := p.matchLength ⟨before, c :: cs, left⟩
    if n = 0 then .other c :: piecesFrom p (some c) (left - 1) cs
    else
      let word := (c :: cs).take n
      .word word :: piecesFrom p word.getLast? (left - n) ((c :: cs).drop n)
termination_by cs => cs.length
decreasing_by
  · simp
  · simp only [List.length_drop, List.length_cons]
    omega

def pieces (p : WordPattern) (cs : List Char) : List Piece := piecesFrom p none cs.length cs

theorem piecesFrom_flatMap (p : WordPattern) (before : Option Char) (left : Nat)
    (cs : List Char) : (p.piecesFrom before left cs).flatMap Piece.chars = cs := by
  fun_induction piecesFrom p before left cs with
  | case1 => rfl
  | case2 _ _ _ _ _ _ ih => simp [Piece.chars, Piece.charsBy, ih]
  | case3 _ _ _ _ _ _ _ ih =>
    rw [List.flatMap_cons, ih]
    exact List.take_append_drop _ _

/-- The characters of `\w`. -/
def wordRanges : List (Char × Char) := [('0', '9'), ('A', 'Z'), ('_', '_'), ('a', 'z')]

def plainWords : WordPattern := repeated (chars wordRanges) 1 none true

end WordPattern

end Minify
