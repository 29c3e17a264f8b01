import Minify.Token.Keyword

/-!
The tokens of a script. Blanks, line ends and comments are tokens too, so that the texts of all
tokens make up the whole script.
-/

namespace Minify

/-- A part of a template literal, by what stands before and after it. -/
inductive TemplatePart where
  | whole
  | head
  | middle
  | tail
  deriving DecidableEq, Repr

inductive CommentKind where
  | line
  /-- `multiline` when it runs over a line end. -/
  | block (multiline : Bool)
  /-- Conditional compilation, which is kept. -/
  | conditional
  deriving DecidableEq, Repr

inductive TokenKind where
  | identifier
  | keyword (word : Keyword)
  | string
  | template (part : TemplatePart)
  | regex
  | number
  | comment (kind : CommentKind)
  | punctuator
  /-- Blanks within a line. -/
  | blank
  /-- Blanks that run over a line end. -/
  | lineBreak
  deriving DecidableEq, Repr

/-- A token: its kind, its text, and the byte offset where it starts. -/
structure Token where
  kind : TokenKind
  text : String
  start : Nat
  deriving DecidableEq, Repr

namespace TokenKind

def isTrivia : TokenKind → Bool
  | blank | lineBreak | comment _ => true
  | _ => false

end TokenKind

namespace Token

def stop (t : Token) : Nat := t.start + t.text.utf8ByteSize

def isTrivia (t : Token) : Bool := t.kind.isTrivia

def isPunct (t : Token) (p : String) : Bool := t.kind == .punctuator && t.text == p

def isKeyword (t : Token) (k : Keyword) : Bool := t.kind == .keyword k

def isIdent (t : Token) (name : String) : Bool := t.kind == .identifier && t.text == name

def isWord (t : Token) : Bool :=
  match t.kind with
  | .identifier | .keyword _ => true
  | _ => false

def isRestricted (t : Token) : Bool :=
  match t.kind with
  | .keyword k => k.isRestricted
  | _ => false

def hasHeader (t : Token) : Bool :=
  match t.kind with
  | .keyword k => k.hasHeader
  | _ => false

def endsOperand (t : Token) : Bool :=
  match t.kind with
  | .identifier | .number | .string | .regex => true
  | .template .whole | .template .tail => true
  | .keyword k => k.isOperand
  | .punctuator => [")", "]", "\x7d", "++", "--"].contains t.text
  | _ => false

/-- The token begins a statement when it stands on a new line after an operand. -/
def startsStatement (t : Token) : Bool :=
  match t.kind with
  | .identifier | .number | .string | .regex => true
  | .keyword k => !k.continuesStatement
  | .punctuator => ["\x7b", "++", "--", "!", "~", "#", "@"].contains t.text
  | _ => false

end Token

end Minify
