import Minify.Text.Quoted
import Minify.Token.Scan

/-!
The lexer: cuts a script into tokens that cover all of it.

A slash after an operand divides, and anywhere else begins a regular expression. A closing brace at
the depth where a substitution began goes on with the template around it.
-/

namespace Minify

/-- A fault in a script and the byte offset where it is. -/
structure LexError where
  reason : LexReason
  offset : Nat
  deriving DecidableEq, Repr

def LexReason.message : LexReason → String
  | .unterminatedString => "unterminated string literal"
  | .unterminatedTemplate => "unterminated template literal"
  | .unterminatedComment => "unterminated block comment"
  | .unterminatedRegex => "unterminated regular expression"
  | .malformedNumber => "malformed number literal"
  | .invalidCharacter c => "invalid character " ++ Text.quoteChar c

def LexError.message (e : LexError) : String :=
  e.reason.message ++ " at offset " ++ toString e.offset

/-- The text not yet read, the byte offset where it starts, and what the tokens before it decide
about it. -/
structure Lexer where
  rest : List Char
  pos : Nat
  /-- The last token that is not trivia ended an operand. -/
  afterOperand : Bool
  /-- The braces that are open. -/
  depth : Nat
  /-- For each open substitution, innermost first, the depth where its template goes on. -/
  resume : List Nat
  deriving DecidableEq, Repr

namespace Lexer

open Text Scan

def ofString (source : String) : Lexer :=
  { rest := source.toList, pos := 0, afterOperand := false, depth := 0, resume := [] }

def resumes (lx : Lexer) (c : Char) : Bool :=
  c = '\x7d' && lx.resume.head? == some lx.depth

/-- Reads the token that starts with `c` and goes on in `cs`. -/
def scan (lx : Lexer) (c : Char) (cs : List Char) : Reading :=
  if isLineEnd c || isBlank c then blanks (c :: cs)
  else if c = '#' && lx.pos = 0 && cs.head? == some '!' then lineComment (c :: cs)
  else if c = '/' && cs.head? == some '/' then lineComment (c :: cs)
  else if c = '/' && cs.head? == some '*' then blockComment (c :: cs)
  else if isNameStart c || c = '\\' then name (c :: cs)
  else if c.isDigit || (c = '.' && cs.head?.any Char.isDigit) then number (c :: cs)
  else if c = '"' || c = '\'' then string c (c :: cs)
  else if c = '\x60' then template true (c :: cs)
  else if lx.resumes c then template false (c :: cs)
  else if c = '/' && !lx.afterOperand then regex (c :: cs)
  else punctuator (c :: cs)

def record (lx : Lexer) (t : Token) : Lexer :=
  if t.isTrivia then lx
  else
    let lx := { lx with afterOperand := t.endsOperand }
    match t.kind with
    | .template .head | .template .middle => { lx with resume := lx.depth :: lx.resume }
    | .punctuator =>
      if t.text = "\x7b" then { lx with depth := lx.depth + 1 }
      else if t.text = "\x7d" then { lx with depth := lx.depth - 1 }
      else lx
    | _ => lx

/-- The lexer after the text of a reading that started with `c`. -/
def skip (lx : Lexer) (c : Char) (r : Reading) : Lexer :=
  { lx with
    rest := r.rest
    pos := lx.pos + size r.taken
    resume := if lx.resumes c then lx.resume.tail else lx.resume }

/-- The next token, or none at the end, and the lexer after it. After a fault the lexer stands
where the reading got to. -/
def next (lx : Lexer) : Except LexError (Option Token) × Lexer :=
  match lx.rest with
  | [] => (if lx.resume.isEmpty then .ok none else .error ⟨.unterminatedTemplate, lx.pos⟩, lx)
  | c :: cs =>
    let r := lx.scan c cs
    match r.result with
    | .error (reason, distance) => (.error ⟨reason, lx.pos + distance⟩, lx.skip c r)
    | .ok kind =>
      let t : Token := { kind := kind, text := String.ofList r.taken, start := lx.pos }
      (.ok (some t), (lx.skip c r).record t)

theorem scan_splits (lx : Lexer) (c : Char) (cs : List Char) :
    (lx.scan c cs).Splits (c :: cs) := by
  unfold scan
  split
  · exact blanks_splits cs ‹_›
  split
  · exact lineComment_splits c cs
  split
  · exact lineComment_splits c cs
  split
  · exact blockComment_splits c cs
  split
  · exact name_splits cs ‹_›
  split
  · exact number_splits ‹_›
  split
  · exact string_splits c c cs
  split
  · exact template_splits true c cs
  split
  · exact template_splits false c cs
  split
  · exact regex_splits c cs
  · exact punctuator_splits _

theorem record_rest (lx : Lexer) (t : Token) : (lx.record t).rest = lx.rest := by
  unfold record
  split
  · rfl
  · dsimp only
    split <;> try rfl
    split
    · rfl
    · split <;> rfl

theorem next_rest_lt {lx : Lexer} {t : Token} (h : lx.next.1 = .ok (some t)) :
    lx.next.2.rest.length < lx.rest.length := by
  unfold next at h ⊢
  split
  · rename_i hr
    simp only [hr] at h
    split at h <;> simp at h
  · rename_i c cs hr
    simp only [hr] at h
    have hs := lx.scan_splits c cs
    dsimp only at h ⊢
    split
    · rename_i he
      simp [he] at h
    · rename_i kind hk
      rw [record_rest]
      have hl := congrArg List.length hs.append
      have hp := List.length_pos_iff.2 (hs.ne_nil kind hk)
      simp only [List.length_append, List.length_cons] at hl
      simp only [skip, hr, List.length_cons]
      omega

/-- All tokens up to the end of the text or the first fault, and that fault. -/
def run (lx : Lexer) : List Token × Option LexError :=
  match _h : lx.next with
  | (.ok (some t), lx') =>
    let r := run lx'
    (t :: r.1, r.2)
  | (.ok none, _) => ([], none)
  | (.error e, _) => ([], some e)
termination_by lx.rest.length
decreasing_by
  have := @next_rest_lt lx t (by rw [_h])
  rwa [_h] at this

end Lexer

def tokens (source : String) : List Token × Option LexError := (Lexer.ofString source).run

def tokenize (source : String) : Except LexError (List Token) :=
  match tokens source with
  | (ts, none) => .ok ts
  | (_, some e) => .error e

/-- A lexer read token by token, over as soon as there is no token to give. -/
structure TokenStream where
  lexer : Lexer
  ended : Bool
  deriving DecidableEq, Repr

namespace TokenStream

def ofString (source : String) : TokenStream := ⟨Lexer.ofString source, false⟩

/-- The next token or fault of the lexer, whether the stream is over or not. -/
def force (s : TokenStream) : Except LexError (Option Token) × TokenStream :=
  let r := s.lexer.next
  (r.1, { s with lexer := r.2 })

/-- The next token or fault; none once the stream is over, which it is after its first fault. -/
def next (s : TokenStream) : Except LexError (Option Token) × TokenStream :=
  if s.ended then (.ok none, s)
  else
    match s.force with
    | (.ok (some t), s) => (.ok (some t), s)
    | (r, s) => (r, { s with ended := true })

end TokenStream

end Minify
