import Mathlib.Data.List.Forall2
import Minify.Scope.Tracker

/-!
Functions whose statements use names, branch and loop, and what their names refer to.

A statement is a tree here, and for the tracker it is no more than the words of its text. The scopes
are numbered as they open: the one around all others, that of the function, and then one for each
head of a `for` and one for each pair of braces.
-/

namespace Minify

/-- Statements over names. -/
inductive Stmt where
  /-- `x;` -/
  | use (x : String)
  | block (body : List Stmt)
  /-- `if (x) yes` -/
  | cond (x : String) (yes : Stmt)
  /-- `if (x) yes else no` -/
  | branch (x : String) (yes no : Stmt)
  /-- `while (x) body` -/
  | repeats (x : String) (body : Stmt)
  /-- `for (let x of y) body` -/
  | loop (x y : String) (body : Stmt)

/-- A token that is to be: what it is, and whether it must stand on the line of the one before. -/
structure Word where
  kind : TokenKind
  text : String
  sameLine : Bool
  deriving DecidableEq, Repr

namespace Word

def name (x : String) : Word := ⟨.identifier, x, false⟩

def punct (p : String) : Word := ⟨.punctuator, p, false⟩

def keyword (k : Keyword) (text : String) : Word := ⟨.keyword k, text, false⟩

/-- The word between the two names of a loop. At the start of a line it is taken for a name. -/
def between : Word := ⟨.identifier, "of", true⟩

/-- `(x)` -/
def header (x : String) : List Word := [punct "(", name x, punct ")"]

/-- `for (let x of y)` -/
def forHead (x y : String) : List Word :=
  [keyword .kwFor "for", punct "(", keyword .kwLet "let", name x, between, name y, punct ")"]

/-- The token of a site is the one that is to be. -/
structure At (w : Word) (site : Site) : Prop where
  kind : site.token.kind = w.kind
  text : site.token.text = w.text
  line : w.sameLine = true → site.newline = false

instance (site : Site) (w : Word) : Decidable (w.At site) :=
  decidable_of_iff (site.token.kind = w.kind ∧ site.token.text = w.text ∧
      (w.sameLine = true → site.newline = false))
    ⟨fun ⟨hk, ht, hl⟩ => ⟨hk, ht, hl⟩, fun h => ⟨h.kind, h.text, h.line⟩⟩

end Word

/-- The sites of a text, with any blanks, comments and line ends between them that its words allow.
-/
def Spells (sites : List Site) (words : List Word) : Prop :=
  List.Forall₂ (fun site w => w.At site) sites words

instance decidableSpells : ∀ (sites : List Site) (words : List Word), Decidable (Spells sites words)
  | [], [] => isTrue .nil
  | [], _ :: _ => isFalse nofun
  | _ :: _, [] => isFalse nofun
  | site :: sites, w :: words =>
    have := decidableSpells sites words
    decidable_of_iff (w.At site ∧ Spells sites words)
      ⟨fun ⟨h, hs⟩ => .cons h hs, fun | .cons h hs => ⟨h, hs⟩⟩

lemma spells_append {ws ws' : List Word} {sites : List Site} (h : Spells sites (ws ++ ws')) :
    ∃ xs ys, sites = xs ++ ys ∧ Spells xs ws ∧ Spells ys ws' := by
  induction ws generalizing sites with
  | nil => exact ⟨[], sites, rfl, .nil, h⟩
  | cons w ws ih =>
    obtain ⟨site, rest, hw, hrest, rfl⟩ := List.forall₂_cons_right_iff.mp h
    obtain ⟨xs, ys, rfl, hxs, hys⟩ := ih hrest
    exact ⟨site :: xs, ys, rfl, .cons hw hxs, hys⟩

namespace Stmt

mutual

def words : Stmt → List Word
  | use x => [.name x, .punct ";"]
  | block body => .punct "\x7b" :: (listWords body ++ [.punct "\x7d"])
  | cond x yes => .keyword .kwIf "if" :: (Word.header x ++ words yes)
  | branch x yes no =>
    .keyword .kwIf "if" :: (Word.header x ++ (words yes ++ .keyword .kwElse "else" :: words no))
  | repeats x body => .keyword .kwWhile "while" :: (Word.header x ++ words body)
  | loop x y body => Word.forHead x y ++ words body

def listWords : List Stmt → List Word
  | [] => []
  | s :: rest => words s ++ listWords rest

end

/-! ### What the names refer to -/

def insideLoop (x : String) (n : ScopeId) (sees : String → Option ScopeId) (name : String) :
    Option ScopeId :=
  if name = x then some n else sees name

mutual

/-- How many scopes a statement opens. -/
def scopes : Stmt → Nat
  | use _ => 0
  | block body => listScopes body + 1
  | cond _ yes => scopes yes
  | branch _ yes no => scopes yes + scopes no
  | repeats _ body => scopes body
  | loop _ _ body => scopes body + 1

def listScopes : List Stmt → Nat
  | [] => 0
  | s :: rest => scopes s + listScopes rest

end

mutual

/-- The names of a statement in their order, each with the scope it refers to: that of the innermost
loop whose head or body it stands in and which declares it, and otherwise what it refers to around
the statement, which is `sees`. The first scope of the statement has the number `n`. -/
def refers (sees : String → Option ScopeId) (n : ScopeId) :
    Stmt → List (String × Option ScopeId)
  | use x => [(x, sees x)]
  | block body => listRefers sees (n + 1) body
  | cond x yes => (x, sees x) :: refers sees n yes
  | branch x yes no => (x, sees x) :: (refers sees n yes ++ refers sees (n + yes.scopes) no)
  | repeats x body => (x, sees x) :: refers sees n body
  | loop x y body =>
    (x, some n) :: (y, insideLoop x n sees y) :: refers (insideLoop x n sees) (n + 1) body

def listRefers (sees : String → Option ScopeId) (n : ScopeId) :
    List Stmt → List (String × Option ScopeId)
  | [] => []
  | s :: rest => refers sees n s ++ listRefers sees (n + s.scopes) rest

end

/-! ### Where the bodies of loops end -/

def isBlock : Stmt → Bool
  | block _ => true
  | _ => false

def endsBraced : Stmt → Bool
  | use _ => false
  | block _ => true
  | cond _ yes => yes.endsBraced
  | branch _ _ no => no.endsBraced
  | repeats _ body => body.endsBraced
  | loop _ _ body => body.endsBraced

/-- How many loops of a statement have a body that has no braces and ends with the statement. -/
def bodiesEnding : Stmt → Nat
  | use _ => 0
  | block _ => 0
  | cond _ yes => yes.bodiesEnding
  | branch _ _ no => no.bodiesEnding
  | repeats _ body => body.bodiesEnding
  | loop _ _ body => if body.isBlock then 0 else body.bodiesEnding + 1

/-- The last word of the statement, the last one in `k` bodies without braces, is enough for all the
bodies that end there: a semicolon ends them all, and a brace ends one, or none when it looks as if
the statement went on. -/
def closes (k : Nat) (goesOn : Bool) (s : Stmt) : Bool :=
  !s.endsBraced || k + s.bodiesEnding ≤ if goesOn then 0 else 1

/-- The last word of the statement before an `else`, in `k` bodies without braces that go on, is not
too much for them. -/
def keeps (k : Nat) (s : Stmt) : Bool := if s.endsBraced then s.bodiesEnding == 0 else k == 0

def startsWithWhile : List Stmt → Bool
  | repeats _ _ :: _ => true
  | _ => false

mutual

/-- Inside a statement, which stands in `k` bodies without braces, each body of a loop ends with
its last word. -/
def endsWell (k : Nat) : Stmt → Bool
  | use _ => true
  | block body => listEndsWell body
  | cond _ yes => endsWell k yes
  | branch _ yes no => yes.keeps k && endsWell k yes && endsWell k no
  | repeats _ body => endsWell k body
  | loop _ _ body => endsWell (if body.isBlock then k else k + 1) body

def listEndsWell : List Stmt → Bool
  | [] => true
  | s :: rest => s.closes 0 (startsWithWhile rest) && endsWell 0 s && listEndsWell rest

end

end Stmt

/-- `function name(params) { body }` -/
structure LoopProgram where
  name : String
  params : List String
  body : List Stmt

namespace LoopProgram

def listed : List String → List Word
  | [] => []
  | [x] => [.name x]
  | x :: xs => .name x :: .punct "," :: listed xs

def words (p : LoopProgram) : List Word :=
  .keyword .kwFunction "function" :: .name p.name :: .punct "(" ::
    (listed p.params ++ .punct ")" :: .punct "\x7b" :: (Stmt.listWords p.body ++ [.punct "\x7d"]))

/-- Outside of its loops a name refers to the parameter, if it is one, and to the function itself if
it is the function's. -/
def sees (p : LoopProgram) (name : String) : Option ScopeId :=
  if name ∈ p.params then some 1 else if name = p.name then some ScopeTree.global else none

/-- The names of the function in their order, each with the scope it refers to. -/
def refers (p : LoopProgram) : List (String × Option ScopeId) :=
  (p.name, some ScopeTree.global) ::
    (p.params.map (fun x => (x, some 1)) ++ Stmt.listRefers p.sees 2 p.body)

/-- Each body of a loop ends with its last word. -/
def endsWell (p : LoopProgram) : Bool := Stmt.listEndsWell p.body

end LoopProgram

end Minify
