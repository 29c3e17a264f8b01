import Minify.Text.Quoted
import Minify.Token

/-!
The tokens of a script that are not trivia, each with what its surroundings say about it.
-/

namespace Minify

/-- A token that is not trivia. -/
structure Site where
  /-- Its index among all tokens. -/
  index : Nat
  token : Token
  /-- A line ended since the site before. -/
  newline : Bool
  /-- It is a parenthesis whose closing one is followed by an arrow. -/
  beforeArrow : Bool
  deriving DecidableEq, Repr

namespace Site

/-- What a token is to the brackets around it. A middle part of a template closes one substitution
and opens the next. -/
inductive Bracket where
  | opens (opener : Char)
  | closes (closer : Char)
  | reopens
  | none
  deriving DecidableEq, Repr

def bracket (t : Token) : Bracket :=
  match t.kind with
  | .punctuator =>
    match t.text with
    | "(" => .opens '('
    | "[" => .opens '['
    | "\x7b" => .opens '\x7b'
    | ")" => .closes ')'
    | "]" => .closes ']'
    | "\x7d" => .closes '\x7d'
    | _ => .none
  | .template .head => .opens '\x7b'
  | .template .middle => .reopens
  | .template .tail => .closes '\x7d'
  | _ => .none

/-- The tokens that are not trivia, with their indices from `index` on; `newline` when a line ended
since the last of them. -/
def significant (index : Nat) (newline : Bool) : List Token → List Site
  | [] => []
  | t :: ts =>
    match t.kind with
    | .lineBreak | .comment (.block true) => significant (index + 1) true ts
    | .blank | .comment _ => significant (index + 1) newline ts
    | _ => ⟨index, t, newline, false⟩ :: significant (index + 1) false ts

/-- Whether an arrow follows the bracket that closes the one at a place; `closers` holds, for each
opening bracket, the place of its closing one. -/
def arrowAfter (closers : Array (Option Nat)) (sites : Array Site) (place : Nat) : Bool :=
  ((closers[place]?).join.bind fun j => sites[j + 1]?).any fun n => n.token.isPunct "=>"

/-- The sites with the parentheses marked that an arrow follows. -/
def withArrows (closers : Array (Option Nat)) (sites : List Site) : List Site :=
  let all := sites.toArray
  sites.mapIdx fun i s =>
    { s with beforeArrow := s.token.isPunct "(" && arrowAfter closers all i }

end Site

inductive ScopeReason where
  | unexpectedClose (found : Char)
  | mismatched (expected found : Char)
  | unclosed (opener : Char)
  deriving DecidableEq, Repr

/-- Brackets that do not fit, and the byte offset of the one at fault. -/
structure ScopeError where
  reason : ScopeReason
  offset : Nat
  deriving DecidableEq, Repr

def ScopeReason.message : ScopeReason → String
  | .unexpectedClose found => "unexpected closing " ++ Text.quoteChar found
  | .mismatched expected found =>
    "expected " ++ Text.quoteChar expected ++ " but found " ++ Text.quoteChar found
  | .unclosed opener => "unclosed " ++ Text.quoteChar opener

def ScopeError.message (e : ScopeError) : String :=
  e.reason.message ++ " at offset " ++ toString e.offset

namespace Brackets

open Site

def closer : Char → Char
  | '(' => ')'
  | '[' => ']'
  | _ => '\x7d'

def close (found : Char) (offset : Nat) :
    List (Char × Nat) → Except ScopeError (List (Char × Nat))
  | [] => .error ⟨.unexpectedClose found, offset⟩
  | (opener, _) :: rest =>
    if closer opener = found then .ok rest
    else .error ⟨.mismatched (closer opener) found, offset⟩

/-- The open brackets with their offsets, innermost first, after one more token. -/
def step (stack : List (Char × Nat)) (t : Token) : Except ScopeError (List (Char × Nat)) :=
  match bracket t with
  | .opens c => .ok ((c, t.start) :: stack)
  | .closes c => close c t.start stack
  | .reopens => do return ('\x7b', t.start) :: (← close '\x7d' t.start stack)
  | .none => .ok stack

/-- The brackets of the sites read so far. -/
structure Matching where
  /-- The open ones with their offsets, innermost first. -/
  stack : List (Char × Nat)
  /-- Their places among the sites. -/
  places : List Nat
  /-- For each opening bracket the place of the one that closes it, once that is read. -/
  closers : Array (Option Nat)

namespace Matching

def start (sites : List Site) : Matching := ⟨[], [], Array.replicate sites.length none⟩

/-- The innermost open bracket is closed at a place. -/
def closeAt (m : Matching) (place : Nat) : Matching :=
  match m.places with
  | [] => m
  | opener :: rest =>
    { m with places := rest, closers := m.closers.setIfInBounds opener (some place) }

def openAt (m : Matching) (place : Nat) : Matching := { m with places := place :: m.places }

def shift (m : Matching) (place : Nat) (t : Token) : Matching :=
  match bracket t with
  | .opens _ => m.openAt place
  | .closes _ => m.closeAt place
  | .reopens => (m.closeAt place).openAt place
  | .none => m

def read (m : Matching) (place : Nat) (t : Token) : Except ScopeError Matching := do
  return { m.shift place t with stack := ← step m.stack t }

/-- Reads sites from a place on. -/
def readFrom (m : Matching) (place : Nat) : List Site → Except ScopeError Matching
  | [] => .ok m
  | s :: rest => do (← m.read place s.token).readFrom (place + 1) rest

end Matching

/-- For each opening bracket among some sites the place of the one that closes it, if they are
balanced. -/
def closers (sites : List Site) : Except ScopeError (Array (Option Nat)) := do
  let m ← (Matching.start sites).readFrom 0 sites
  match m.stack with
  | [] => return m.closers
  | (opener, offset) :: _ => throw ⟨.unclosed opener, offset⟩

variable {stack stack' : List (Char × Nat)}

theorem close_eq_ok_iff {found : Char} {offset : Nat} : close found offset stack = .ok stack' ↔
    ∃ opener i, stack = (opener, i) :: stack' ∧ closer opener = found := by
  cases stack with
  | nil => simp [close]
  | cons top rest =>
    rw [close]
    split
    · rename_i hfits
      simp only [Except.ok.injEq, List.cons.injEq]
      exact ⟨fun h => ⟨top.1, top.2, ⟨rfl, h⟩, hfits⟩, fun ⟨_, _, ⟨_, h⟩, _⟩ => h⟩
    · rename_i hfits
      refine ⟨nofun, fun ⟨opener, i, h, hc⟩ => ?_⟩
      cases h
      exact absurd hc hfits

theorem step_eq_ok_iff {t : Token} : step stack t = .ok stack' ↔
    match bracket t with
    | .opens c => stack' = (c, t.start) :: stack
    | .closes c => ∃ opener i, stack = (opener, i) :: stack' ∧ closer opener = c
    | .reopens => ∃ opener i rest, stack = (opener, i) :: rest ∧ closer opener = '\x7d' ∧
        stack' = ('\x7b', t.start) :: rest
    | .none => stack' = stack := by
  unfold step
  cases bracket t with
  | opens c => exact ⟨fun h => (Except.ok.inj h).symm, fun h => congrArg _ h.symm⟩
  | closes c => exact close_eq_ok_iff
  | reopens =>
    dsimp only
    constructor
    · intro h
      cases hc : close '\x7d' t.start stack with
      | error e => rw [hc] at h; cases h
      | ok rest =>
        rw [hc] at h
        obtain ⟨opener, i, hstack, hfits⟩ := close_eq_ok_iff.mp hc
        exact ⟨opener, i, rest, hstack, hfits, (Except.ok.inj h).symm⟩
    · rintro ⟨opener, i, rest, hstack, hfits, rfl⟩
      rw [close_eq_ok_iff.mpr ⟨opener, i, hstack, hfits⟩]
      rfl
  | none => exact ⟨fun h => (Except.ok.inj h).symm, fun h => congrArg _ h.symm⟩

end Brackets

end Minify
