import Minify.Proofs.LayoutHeads

/-!
Statements and their bodies, as a grammar and its parser.

An `else` goes to the nearest `if`, and the semicolon that ends a statement may be missing in front
of a closing brace. The parser goes through the text once. Each statement has a lexeme, so as many
steps as there are lexemes are enough.
-/

namespace Minify

namespace Grammar

/-- What may stand in front of a statement that is its body. -/
inductive Lead where
  /-- `while (x)` -/
  | whileHead (x : String)
  /-- `for (;;)` -/
  | forever
  /-- `for await (x of y)` -/
  | forAwait (x y : String)
  /-- `l:` -/
  | label (l : String)
  deriving DecidableEq

inductive Statement where
  /-- `x;` -/
  | use (x : String)
  /-- `;` -/
  | empty
  | block (body : List Statement)
  /-- `if (x) yes` -/
  | cond (x : String) (yes : Statement)
  /-- `if (x) yes else no` -/
  | branch (x : String) (yes no : Statement)
  | lead (k : Lead) (body : Statement)
  /-- `do body while (x);` -/
  | doWhile (body : Statement) (x : String)

def openBrace : Lexeme := .punct "\x7b"

def closeBrace : Lexeme := .punct "\x7d"

def ifWord : Lexeme := .keyword .kwIf "if"

def elseWord : Lexeme := .keyword .kwElse "else"

def doWord : Lexeme := .keyword .kwDo "do"

def whileWord : Lexeme := .keyword .kwWhile "while"

def forWord : Lexeme := .keyword .kwFor "for"

/-- `(x)` -/
def header (x : String) : List Lexeme := [.punct "(", .name x, .punct ")"]

namespace Lead

def words : Lead → List Lexeme
  | whileHead x => whileWord :: header x
  | forever => [forWord, .punct "(", .semicolon, .semicolon, .punct ")"]
  | forAwait x y =>
    [forWord, .name "await", .punct "(", .name x, .name "of", .name y, .punct ")"]
  | label l => [.name l, .punct ":"]

def isForAwait : Lead → Bool
  | forAwait _ _ => true
  | _ => false

end Lead

namespace Statement

def isEmpty : Statement → Bool
  | empty => true
  | _ => false

mutual

def words : Statement → List Lexeme
  | use x => [.name x, .semicolon]
  | empty => [.semicolon]
  | block body => openBrace :: (listWords body ++ [closeBrace])
  | cond x yes => ifWord :: (header x ++ words yes)
  | branch x yes no => ifWord :: (header x ++ (words yes ++ elseWord :: words no))
  | lead k body => k.words ++ words body
  | doWhile body x => doWord :: (words body ++ whileWord :: (header x ++ [.semicolon]))

def listWords : List Statement → List Lexeme
  | [] => []
  | s :: rest => words s ++ listWords rest

end

/-! ### Up to empty statements -/

mutual

/-- The statement without the empty statements between its braces. -/
def tidy : Statement → Statement
  | use x => use x
  | empty => empty
  | block body => block (listTidy body)
  | cond x yes => cond x (tidy yes)
  | branch x yes no => branch x (tidy yes) (tidy no)
  | lead k body => lead k (tidy body)
  | doWhile body x => doWhile (tidy body) x

def listTidy : List Statement → List Statement
  | [] => []
  | s :: rest => if s.isEmpty then listTidy rest else tidy s :: listTidy rest

end

/-! ### Empty bodies at the end of braces -/

mutual

/-- No body of a `for await` is empty where a closing brace follows, as one does after the statement
if it is the `last`. -/
def keepsBodies (last : Bool) : Statement → Bool
  | use _ | empty => true
  | block body => listKeepsBodies body
  | cond _ yes => keepsBodies last yes
  | branch _ yes no => keepsBodies false yes && keepsBodies last no
  | lead k body => !(last && k.isForAwait && body.isEmpty) && keepsBodies last body
  | doWhile body _ => keepsBodies false body

def listKeepsBodies : List Statement → Bool
  | [] => true
  | s :: rest => keepsBodies rest.isEmpty s && listKeepsBodies rest

end

end Statement

/-! ### The parser -/

/-- `(x)` in front of a text. -/
def header? : List Lexeme → Option (String × List Lexeme)
  | o :: ⟨.identifier, x⟩ :: c :: ws =>
    if o = .punct "(" ∧ c = .punct ")" then some (x, ws) else none
  | _ => none

/-- What stands after the `for` of a loop. -/
def forHead? : List Lexeme → Option (Lead × List Lexeme)
  | o :: s :: s' :: c :: ws =>
    if o = .punct "(" ∧ s = .semicolon ∧ s' = .semicolon ∧ c = .punct ")" then some (.forever, ws)
    else
      match o, s, s', c, ws with
      | a, o, ⟨.identifier, x⟩, b, ⟨.identifier, y⟩ :: c :: ws =>
        if a = .name "await" ∧ o = .punct "(" ∧ b = .name "of" ∧ c = .punct ")" then
          some (.forAwait x y, ws)
        else none
      | _, _, _, _, _ => none
  | _ => none

def lead? : List Lexeme → Option (Lead × List Lexeme)
  | w :: ws =>
    if w = whileWord then (header? ws).map fun h => (.whileHead h.1, h.2)
    else if w = forWord then forHead? ws
    else
      match w, ws with
      | ⟨.identifier, l⟩, c :: ws => if c = .punct ":" then some (.label l, ws) else none
      | _, _ => none
  | [] => none

/-- The end of a statement. In front of a closing brace its semicolon may be missing. -/
def semicolon? : List Lexeme → Option (List Lexeme)
  | w :: ws => if w = .semicolon then some ws else if w = closeBrace then some (w :: ws) else none
  | [] => none

/-- `x;` -/
def use? : List Lexeme → Option (Statement × List Lexeme)
  | ⟨.identifier, x⟩ :: ws => (semicolon? ws).map fun ws => (.use x, ws)
  | _ => none

/-- `while (x);` -/
def whileEnd? : List Lexeme → Option (String × List Lexeme)
  | w :: ws =>
    if w = whileWord then
      (header? ws).bind fun h => (semicolon? h.2).map fun ws => (h.1, ws)
    else none
  | [] => none

mutual

def stmt : Nat → List Lexeme → Option (Statement × List Lexeme)
  | 0, _ => none
  | n + 1, ws =>
    match lead? ws with
    | some (k, ws) => (stmt n ws).map fun s => (.lead k s.1, s.2)
    | none =>
      match ws with
      | [] => none
      | w :: ws =>
        if w = .semicolon then some (.empty, ws)
        else if w = openBrace then (stmts n ws).map fun l => (.block l.1, l.2)
        else if w = ifWord then
          (header? ws).bind fun h => (stmt n h.2).bind fun yes =>
            if yes.2.head? = some elseWord then
              (stmt n yes.2.tail).map fun no => (.branch h.1 yes.1 no.1, no.2)
            else some (.cond h.1 yes.1, yes.2)
        else if w = doWord then
          (stmt n ws).bind fun body => (whileEnd? body.2).map fun e => (.doWhile body.1 e.1, e.2)
        else use? (w :: ws)

def stmts : Nat → List Lexeme → Option (List Statement × List Lexeme)
  | 0, _ => none
  | n + 1, ws =>
    if ws.head? = some closeBrace then some ([], ws.tail)
    else (stmt n ws).bind fun s => (stmts n s.2).map fun l => (s.1 :: l.1, l.2)

end

def parse (ws : List Lexeme) : Option (List Statement) :=
  (stmts ws.length ws).bind fun l => if l.2 = [] then some l.1 else none

/-- `function name() { body }` -/
structure Script where
  name : String
  body : List Statement

namespace Script

def front (p : Script) : List Lexeme :=
  [.keyword .kwFunction "function", .name p.name, .punct "(", .punct ")", openBrace]

def words (p : Script) : List Lexeme := p.front ++ (Statement.listWords p.body ++ [closeBrace])

/-- The script without the empty statements between its braces. -/
def tidy (p : Script) : Script := { p with body := Statement.listTidy p.body }

/-- No body of a `for await` is empty where a closing brace follows. -/
def keepsBodies (p : Script) : Bool := Statement.listKeepsBodies p.body

end Script

def script? : List Lexeme → Option Script
  | f :: ⟨.identifier, x⟩ :: o :: c :: b :: ws =>
    if f = .keyword .kwFunction "function" ∧ o = .punct "(" ∧ c = .punct ")" ∧ b = openBrace then
      (parse ws).map fun body => { name := x, body := body }
    else none
  | _ => none

/-! ### The parser on words -/

variable {n : Nat} {ws rest : List Lexeme}

lemma header?_header (x : String) (ws : List Lexeme) : header? (header x ++ ws) = some (x, ws) := by
  simp [header, header?, Lexeme.name]

lemma lead?_words (k : Lead) (ws : List Lexeme) : lead? (k.words ++ ws) = some (k, ws) := by
  cases k with
  | whileHead x => simp [Lead.words, lead?, header?_header]
  | forever => simp [Lead.words, lead?, forHead?, forWord, whileWord, Lexeme.keyword]
  | forAwait x y =>
    simp [Lead.words, lead?, forHead?, forWord, whileWord, Lexeme.keyword, Lexeme.name,
      Lexeme.punct]
  | label l => simp [Lead.words, lead?, forWord, whileWord, Lexeme.keyword, Lexeme.name]

lemma stmt_lead (k : Lead) (n : Nat) (ws : List Lexeme) :
    stmt (n + 1) (k.words ++ ws) = (stmt n ws).map fun s => (.lead k s.1, s.2) := by
  simp only [stmt, lead?_words]

section

attribute [local simp] stmt lead? use? whileWord forWord ifWord doWord openBrace closeBrace
  Lexeme.name Lexeme.keyword Lexeme.punct Lexeme.semicolon

lemma stmt_empty (n : Nat) (ws : List Lexeme) :
    stmt (n + 1) (.semicolon :: ws) = some (.empty, ws) := by
  simp

lemma stmt_block (n : Nat) (ws : List Lexeme) :
    stmt (n + 1) (openBrace :: ws) = (stmts n ws).map fun l => (.block l.1, l.2) := by
  simp

lemma stmt_if (x : String) (n : Nat) (ws : List Lexeme) :
    stmt (n + 1) (ifWord :: (header x ++ ws)) = (stmt n ws).bind fun yes =>
      if yes.2.head? = some elseWord then
        (stmt n yes.2.tail).map fun no => (.branch x yes.1 no.1, no.2)
      else some (.cond x yes.1, yes.2) := by
  simp [header?_header]

lemma stmt_do (n : Nat) (ws : List Lexeme) :
    stmt (n + 1) (doWord :: ws) = (stmt n ws).bind fun body =>
      (whileEnd? body.2).map fun e => (.doWhile body.1 e.1, e.2) := by
  simp

lemma stmt_use (x : String) (n : Nat) (h : ws.head? ≠ some (.punct ":")) :
    stmt (n + 1) (.name x :: ws) = (semicolon? ws).map fun ws => (.use x, ws) := by
  cases ws with
  | nil => simp
  | cons w ws =>
    have hcolon : w ≠ .punct ":" := by simpa using h
    simp at hcolon ⊢
    simp [hcolon]

lemma stmt_close (n : Nat) (h : ws.head? = some closeBrace) : stmt n ws = none := by
  cases ws with
  | nil => cases h
  | cons w ws =>
    obtain rfl : w = closeBrace := Option.some.inj h
    cases n with
    | zero => rfl
    | succ n => simp

end

lemma script?_front (p : Script) (ws : List Lexeme) :
    script? (p.front ++ ws) = (parse ws).map fun body => { p with body := body } := by
  simp [script?, Script.front, Lexeme.name]

end Grammar

end Minify
