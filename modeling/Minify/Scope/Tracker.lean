import Minify.Scope
import Minify.Scope.Site

/-!
Finding the scopes of a script in one pass over its tokens, without a syntax tree.

Open brackets stand on a stack of frames. A frame, or the body that its header introduces, gives
back the scope around it when it ends. Bodies without braces (of arrows and of loops) have no token
that closes them; they end with their statement, at a bracket that closes around them, or, for an
arrow, at a comma.
-/

namespace Minify

namespace Tracker

inductive DeclKind where
  /-- Binds in the nearest function. -/
  | hoisted
  /-- Binds in the current scope. -/
  | lexical
  deriving DecidableEq, Repr

/-- The places for names in a destructuring pattern or a parameter list. -/
structure Pattern where
  kind : DeclKind
  /-- The next identifier declares a name. -/
  expect : Bool
  deriving DecidableEq, Repr

inductive FrameKind where
  | root
  | block
  | functionBody
  | object
  | classBody
  | paren
  /-- The parenthesis after a keyword with a header that declares nothing. -/
  | header
  | params
  | forHead
  | catchParam
  | square
  | computedKey
  | substitution
  deriving DecidableEq, Repr

structure Frame where
  kind : FrameKind
  /-- The scope to go back to when the frame, or the body it introduces, ends. -/
  restore : ScopeId
  pattern : Option Pattern
  /-- The name of a property comes next. -/
  atKey : Bool
  /-- Question marks that wait for their colon. -/
  ternary : Nat
  deriving DecidableEq, Repr

def Frame.ofKind (kind : FrameKind) (restore : ScopeId) : Frame :=
  { kind := kind, restore := restore, pattern := none,
    atKey := kind = .object || kind = .classBody, ternary := 0 }

/-- A frame that holds a pattern. In braces a key comes first, not a name. -/
def Frame.withPattern (kind : FrameKind) (restore : ScopeId) (decl : DeclKind) : Frame :=
  { Frame.ofKind kind restore with pattern := some ⟨decl, kind != .object⟩ }

def Frame.expectName (f : Frame) (expect : Bool) : Frame :=
  { f with pattern := f.pattern.map fun p => { p with expect := expect } }

inductive BodyKind where
  | function
  | loop
  | catchClause
  deriving DecidableEq, Repr

/-- A header has been read and its body has not begun. -/
structure PendingBody where
  kind : BodyKind
  restore : ScopeId
  deriving DecidableEq, Repr

/-- A body without braces that has begun. -/
structure OpenBody where
  depth : Nat
  restore : ScopeId
  endsAtComma : Bool
  deriving DecidableEq, Repr

/-- A list of declarations that has begun. -/
structure Declaration where
  kind : DeclKind
  depth : Nat
  /-- The next identifier declares a name. -/
  expect : Bool
  deriving DecidableEq, Repr

end Tracker

open Tracker

structure Tracker where
  scopes : Array Scope
  /-- For each scope, those right inside it in the order found. -/
  inside : Array (List ScopeId)
  /-- The last found first. -/
  occurrences : List Occurrence
  current : ScopeId
  /-- The innermost frame. -/
  top : Frame
  /-- The frames around it, innermost first. -/
  outer : List Frame
  declaration : Option Declaration
  /-- Innermost first. -/
  openBodies : List OpenBody
  pendingBody : Option PendingBody
  /-- The scope of a function that waits for its parameters. -/
  nextParams : Option ScopeId
  /-- The scope of a function that waits for its name, and whether it is a declaration. -/
  functionName : Option (ScopeId × Bool)
  /-- The scope of a catch clause that waits for its parameter. -/
  catchScope : Option ScopeId
  /-- The depth where the body of a class begins. -/
  classBody : Option Nat
  /-- The class is a declaration. -/
  classDeclaration : Bool
  /-- The last colon stood before a value. -/
  colonValue : Bool
  /-- The site before closed a header or a parameter list. -/
  closedHeader : Bool
  /-- The sites before, the last first. -/
  before : List Site
  deriving Repr

namespace Tracker

def start : Tracker :=
  { scopes := #[{ parent := none, kind := .global, bindings := [], hasEval := false }]
    inside := #[[]]
    occurrences := []
    current := ScopeTree.global
    top := Frame.ofKind .root ScopeTree.global
    outer := []
    declaration := none
    openBodies := []
    pendingBody := none
    nextParams := none
    functionName := none
    catchScope := none
    classBody := none
    classDeclaration := false
    colonValue := false
    closedHeader := false
    before := [] }

/-! What stands before a site. -/

def afterDot (before : List Site) : Bool :=
  before.head?.any fun p => p.token.isPunct "." || p.token.isPunct "?."

def prevKeyword? : List Site → Option Keyword
  | [] => none
  | p :: before =>
    match p.token.kind with
    | .keyword k => if afterDot before then none else some k
    | _ => none

def prevIs (before : List Site) (punct : String) : Bool :=
  before.head?.any fun p => p.token.isPunct punct

/-- The token between two keywords and a parenthesis of an asynchronous loop. -/
def afterForAwait : List Site → Bool
  | p :: before => p.token.isIdent "await" && prevKeyword? before == some .kwFor
  | [] => false

/-- The end of a line before the site ends a statement. -/
def endsStatement (before : List Site) (s : Site) : Bool :=
  s.newline && s.token.startsStatement && before.head?.any fun p => p.token.endsOperand

/-- A function or class here is a declaration and not an expression. -/
def declares (colonValue : Bool) (before : List Site) (newline : Bool) : Bool :=
  match before with
  | [] => true
  | p :: _ =>
    if newline && p.token.endsOperand then true
    else
      match p.token.kind with
      | .punctuator =>
        match p.token.text with
        | ";" | "\x7b" | "\x7d" => true
        | ":" => !colonValue
        | _ => false
      | .keyword .kwElse | .keyword .kwDo | .keyword .kwExport | .keyword .kwDefault => true
      | _ => false

/-- The same, past a word that makes the function asynchronous. -/
def declaresFunction (colonValue : Bool) (before : List Site) (s : Site) : Bool :=
  match before with
  | p :: rest =>
    if p.token.isIdent "async" && !s.newline then declares colonValue rest p.newline
    else declares colonValue before s.newline
  | [] => declares colonValue [] s.newline

/-- A brace here opens an object and not a block. -/
def opensObject (colonValue : Bool) (before : List Site) : Bool :=
  match before with
  | [] => false
  | p :: _ =>
    match p.token.kind with
    | .punctuator =>
      match p.token.text with
      | "\x7b" | ")" | "]" | "\x7d" | ";" | "++" | "--" | "=>" => false
      | ":" => colonValue
      | _ => true
    | .template .head | .template .middle => true
    | .keyword k =>
      match k with
      | .kwReturn | .kwTypeof | .kwVoid | .kwDelete | .kwThrow | .kwNew | .kwIn
      | .kwInstanceof | .kwCase | .kwYield => true
      | _ => false
    | _ => false

def startsKey (t : Token) : Bool :=
  match t.kind with
  | .identifier | .keyword _ | .string | .number => true
  | .punctuator => ["[", "#", "*"].contains t.text
  | _ => false

def nextIs (next : Option Token) (punct : String) : Bool := next.any fun n => n.isPunct punct

/-! Parts of the state. -/

def depth (s : Tracker) : Nat := s.outer.length + 1

def atKey (s : Tracker) : Bool :=
  s.top.atKey && (s.top.kind = .object || s.top.kind = .classBody)

def setTop (s : Tracker) (f : Frame → Frame) : Tracker := { s with top := f s.top }

def push (s : Tracker) (f : Frame) : Tracker := { s with top := f, outer := s.top :: s.outer }

def pop (s : Tracker) (around : Frame) (outer : List Frame) : Tracker :=
  { s with top := around, outer := outer }

/-- A declaration list at this depth that waits for a name, or does not. -/
def declaring (s : Tracker) (expect : Bool) : Bool :=
  s.declaration.any fun d => d.depth = s.depth && d.expect = expect

/-- What stands inside each scope when a new one is put into the current one. -/
def withInner (s : Tracker) : Array (List ScopeId) :=
  (s.inside.modify s.current fun ids => ids ++ [s.scopes.size]).push []

def addScope (s : Tracker) (kind : ScopeKind) : ScopeId × Tracker :=
  (s.scopes.size,
    { s with
      scopes :=
        s.scopes.push { parent := some s.current, kind := kind, bindings := [], hasEval := false }
      inside := s.withInner })

def enter (s : Tracker) (kind : ScopeKind) : Tracker :=
  let (id, s) := s.addScope kind
  { s with current := id }

/-- The nearest function around the current scope. -/
def hoistTarget (s : Tracker) : ScopeId :=
  ((Scope.ancestors s.scopes s.current).find? fun id =>
    !(s.scopes[id]?).any Scope.isInner).getD ScopeTree.global

/-- Marks the current scope and those around it as open to names made at run time. -/
def markEval (s : Tracker) : Tracker :=
  let mark (scopes : Array Scope) (id : ScopeId) : Array Scope :=
    scopes.modify id fun sc => { sc with hasEval := true }
  { s with scopes := (Scope.ancestors s.scopes s.current).foldl mark s.scopes }

def mention (s : Tracker) (site : Site) (scope : ScopeId) (shorthand : Bool) : Tracker :=
  { s with occurrences :=
      { token := site.index, name := site.token.text, scope := scope, shorthand := shorthand }
        :: s.occurrences }

def declareIn (s : Tracker) (site : Site) (target scope : ScopeId) (shorthand : Bool) : Tracker :=
  { s with scopes := s.scopes.modify target fun sc => sc.bind site.token.text }.mention site scope
    shorthand

def declare (s : Tracker) (site : Site) (kind : DeclKind) (shorthand : Bool) : Tracker :=
  match kind with
  | .hoisted => s.declareIn site s.hoistTarget s.current shorthand
  | .lexical => s.declareIn site s.current s.current shorthand

/-- The place for a name that the next identifier or pattern takes, if there is one. -/
def takeSlot (s : Tracker) : Option (DeclKind × Tracker) :=
  match s.top.pattern with
  | some ⟨kind, true⟩ => some (kind, s.setTop (·.expectName false))
  | _ =>
    match s.declaration with
    | some d =>
      if d.depth = s.depth && d.expect then
        some (d.kind, { s with declaration := some { d with expect := false } })
      else none
    | none => none

/-- Ends the bodies without braces at a depth or deeper, at a comma only those of arrows. -/
def endBodies (depth : Nat) (comma : Bool) (current : ScopeId) :
    List OpenBody → ScopeId × List OpenBody
  | [] => (current, [])
  | b :: rest =>
    if b.depth < depth || (comma && !b.endsAtComma) then (current, b :: rest)
    else endBodies depth comma b.restore rest

def endOpenBodies (s : Tracker) (depth : Nat) (comma : Bool) : Tracker :=
  let r := endBodies depth comma s.current s.openBodies
  { s with current := r.1, openBodies := r.2 }

def endDeclarations (s : Tracker) (depth : Nat) : Tracker :=
  { s with declaration := s.declaration.filter fun d => decide (d.depth < depth) }

def endStatement (s : Tracker) : Tracker :=
  ((s.endDeclarations s.depth).endOpenBodies s.depth false).setTop fun f =>
    { f with ternary := 0, atKey := f.atKey || f.kind = .classBody }

/-- Gives up a declaration list at this depth that waits for a name. -/
def abandonDeclaration (s : Tracker) : Tracker :=
  if s.declaring true then { s with declaration := none } else s

/-! One token. -/

/-- A body that turns out to have no braces. -/
def beginBody (s : Tracker) (t : Token) : Tracker :=
  match s.pendingBody with
  | none => s
  | some b =>
    if t.isPunct "\x7b" || t.isPunct "=>" then s
    else
      let s := { s with pendingBody := none }
      match b.kind with
      | .loop => { s with openBodies := ⟨s.depth, b.restore, false⟩ :: s.openBodies }
      | .function | .catchClause => { s with current := b.restore }

def key (s : Tracker) (site : Site) (next : Option Token) : Tracker :=
  let t := site.token
  if s.top.kind = .classBody && t.text == "static" && nextIs next "\x7b" then
    { s.enter .function with pendingBody := some ⟨.function, s.current⟩ }.setTop fun f =>
      { f with atKey := false }
  else if s.top.pattern.isNone && t.isWord
      && ["get", "set", "static", "async"].contains t.text && next.any startsKey then s
  else
    let pattern := s.top.pattern
    let s := s.setTop fun f => { f with atKey := false }
    if nextIs next "(" && pattern.isNone then
      let (id, s) := s.addScope .function
      { s with nextParams := some id }
    else if !nextIs next ":" && t.kind = .identifier && s.top.kind = .object then
      match pattern with
      | some p => s.declare site p.kind true
      | none => s.mention site s.current true
    else s

def keyword (s : Tracker) (site : Site) (next : Option Token) (k : Keyword) : Tracker :=
  match k with
  | .kwVar => { s with declaration := some ⟨.hoisted, s.depth, true⟩ }
  | .kwLet | .kwConst => { s with declaration := some ⟨.lexical, s.depth, true⟩ }
  | .kwFunction =>
    let declaration := declaresFunction s.colonValue s.before site
    let (id, s) := s.addScope .function
    { s with nextParams := some id, functionName := some (id, declaration) }
  | .kwClass =>
    { s with classDeclaration := declaresFunction s.colonValue s.before site,
             classBody := some s.depth }
  | .kwCatch =>
    if nextIs next "(" then
      let (id, s) := s.addScope .catchClause
      { s with catchScope := some id }
    else { s.enter .catchClause with pendingBody := some ⟨.catchClause, s.current⟩ }
  | .kwWith => s.markEval
  | .kwIn => if s.declaring false then { s with declaration := none } else s
  | _ => s

/-- The name of a function goes into the scope around a declaration, and into the scope of the
function itself otherwise. -/
def nameFunction (s : Tracker) (site : Site) (scope : ScopeId) (declaration : Bool) : Tracker :=
  let s := { s with functionName := none }
  if declaration then s.declareIn site s.hoistTarget s.current false
  else s.declareIn site scope scope false

/-- An identifier that is neither a property nor a name in a pattern. -/
def identifier (s : Tracker) (site : Site) (next : Option Token) : Tracker :=
  let prev := prevKeyword? s.before
  let afterFunction :=
    s.before.head?.any fun p => p.token.isKeyword .kwFunction || p.token.isPunct "*"
  if (prev == some .kwBreak || prev == some .kwContinue) && !site.newline then s
  else if prev == some .kwClass then
    if s.classDeclaration then s.declare site .lexical false else s
  else
    match s.functionName, afterFunction with
    | some (scope, declaration), true => s.nameFunction site scope declaration
    | _, _ =>
      if site.token.text == "of" && s.declaring false then { s with declaration := none }
      else if nextIs next ":" && s.top.ternary = 0 && prev != some .kwCase then s
      else if nextIs next "=>" then
        { s.enter .function with pendingBody := some ⟨.function, s.current⟩ }.declare site .lexical
          false
      else
        let s := if site.token.text == "eval" then s.markEval else s
        s.mention site s.current false

def word (s : Tracker) (site : Site) (next : Option Token) : Tracker :=
  if afterDot s.before then s
  else if prevIs s.before "#" then if s.atKey then s.key site next else s
  else
    match site.token.kind with
    | .keyword k =>
      let s := s.abandonDeclaration
      if s.atKey then s.key site next else s.keyword site next k
    | _ =>
      match s.takeSlot with
      | some (kind, s) => s.declare site kind false
      | none => if s.atKey then s.key site next else s.identifier site next

def openBrace (s : Tracker) : Tracker :=
  match s.pendingBody with
  | some b =>
    let s := { s with pendingBody := none }
    match b.kind with
    | .function => s.push (.ofKind .functionBody b.restore)
    | .catchClause => s.push (.ofKind .block b.restore)
    | .loop => (s.enter .block).push (.ofKind .block b.restore)
  | none =>
    match s.takeSlot with
    | some (kind, s) => s.push (.withPattern .object s.current kind)
    | none =>
      if s.classBody == some s.depth then
        { s with classBody := none }.push (.ofKind .classBody s.current)
      else if opensObject s.colonValue s.before then s.push (.ofKind .object s.current)
      else (s.enter .block).push (.ofKind .block s.current)

def openSquare (s : Tracker) : Tracker :=
  match s.takeSlot with
  | some (kind, s) => s.push (.withPattern .square s.current kind)
  | none =>
    if s.atKey then
      (s.setTop fun f => { f with atKey := false }).push (.ofKind .computedKey s.current)
    else s.push (.ofKind .square s.current)

def openParen (s : Tracker) (site : Site) : Tracker :=
  let restore := s.current
  let prev := prevKeyword? s.before
  let params (s : Tracker) (scope : ScopeId) (kind : FrameKind) : Tracker :=
    { s with current := scope }.push (.withPattern kind restore .lexical)
  match s.nextParams with
  | some scope => params { s with nextParams := none, functionName := none } scope .params
  | none =>
    if prev == some .kwFor || afterForAwait s.before then
      (s.enter .block).push (.ofKind .forHead restore)
    else
      match prev, s.catchScope with
      | some .kwCatch, some scope => params { s with catchScope := none } scope .catchParam
      | _, _ =>
        if site.beforeArrow then
          let (scope, s) := s.addScope .function
          params s scope .params
        else if prev.any Keyword.hasHeader then s.push (.ofKind .header restore)
        else s.push (.ofKind .paren restore)

def leave (s : Tracker) (f : Frame) (next : Option Token) : Tracker :=
  match f.kind with
  | .block | .functionBody => { s with current := f.restore }
  | .params => { s with pendingBody := some ⟨.function, f.restore⟩, closedHeader := true }
  | .forHead => { s with pendingBody := some ⟨.loop, f.restore⟩, closedHeader := true }
  | .catchParam => { s with pendingBody := some ⟨.catchClause, f.restore⟩, closedHeader := true }
  | .header => { s with closedHeader := true }
  | .computedKey =>
    if nextIs next "(" && s.top.pattern.isNone then
      let (id, s) := s.addScope .function
      { s with nextParams := some id }
    else s
  | _ => s

/-- A block that goes on with another part of the same statement. -/
def goesOn (next : Option Token) : Bool :=
  next.any fun n =>
    n.isKeyword .kwElse || n.isKeyword .kwCatch || n.isKeyword .kwFinally || n.isKeyword .kwWhile

/-- The end of a block may be the end of the body of a loop without braces. -/
def endBlock (s : Tracker) (next : Option Token) : Tracker :=
  let s := s.setTop fun f => { f with atKey := f.atKey || f.kind = .classBody }
  match s.openBodies with
  | [] => s
  | b :: rest =>
    if b.depth = s.depth && !b.endsAtComma && !goesOn next then
      { s with current := b.restore, openBodies := rest }
    else s

/-- Goes back to the frame around, and ends the bodies without braces that began inside. -/
def closeFrame (s : Tracker) (around : Frame) (outer : List Frame) (next : Option Token) :
    Tracker :=
  let t := (s.pop around outer).leave s.top next
  (t.endOpenBodies (t.depth + 1) false).endDeclarations (t.depth + 1)

def close (s : Tracker) (next : Option Token) : Tracker :=
  match s.outer with
  | [] => s
  | around :: outer =>
    let t := s.closeFrame around outer next
    if s.top.kind = .block || s.top.kind = .functionBody then t.endBlock next else t

def renewDeclaration (s : Tracker) : Tracker :=
  let renew (d : Declaration) := if d.depth = s.depth then { d with expect := true } else d
  { s with declaration := s.declaration.map renew }

def comma (s : Tracker) : Tracker :=
  (s.endOpenBodies s.depth true).renewDeclaration.setTop fun f =>
    if f.kind = .object then { f.expectName false with atKey := true } else f.expectName true

def colon (s : Tracker) : Tracker :=
  if s.top.ternary > 0 then
    { s.setTop fun f => { f with ternary := f.ternary - 1 } with colonValue := true }
  else if s.top.kind = .object then
    { s.setTop (·.expectName true) with colonValue := true }
  else { s with colonValue := false }

def arrow (s : Tracker) (next : Option Token) : Tracker :=
  match s.pendingBody with
  | some ⟨.function, restore⟩ =>
    if nextIs next "\x7b" then s
    else
      { s with pendingBody := none, openBodies := ⟨s.depth, restore, true⟩ :: s.openBodies }
  | _ => s

def punctuator (s : Tracker) (site : Site) (next : Option Token) : Tracker :=
  match site.token.text with
  | "\x7b" => s.openBrace
  | "[" => s.openSquare
  | "(" => s.openParen site
  | ")" | "]" | "\x7d" => s.close next
  | ";" => s.endStatement
  | "," => s.comma
  | "?" => s.setTop fun f => { f with ternary := f.ternary + 1 }
  | ":" => s.colon
  | "=" =>
    s.setTop fun f => { f.expectName false with atKey := f.atKey && f.kind != .classBody }
  | "=>" => s.arrow next
  | "..." =>
    s.setTop fun f => { f.expectName true with atKey := f.atKey && f.kind != .object }
  | "*" | "#" => s
  | _ => s.abandonDeclaration

/-- Reads one token; `next` is the one after it. -/
def read (s : Tracker) (site : Site) (next : Option Token) : Tracker :=
  match site.token.kind with
  | .punctuator => s.punctuator site next
  | .identifier | .keyword _ => s.word site next
  | .string | .number => if s.atKey then s.key site next else s
  | .template .head => s.push (.ofKind .substitution s.current)
  | .template .middle =>
    (s.endOpenBodies s.depth false).setTop fun f => { f with ternary := 0 }
  | .template .tail => s.close next
  | _ => s

/-- Ends the statement before a token, if the line does, and settles a body without braces. -/
def prepare (s : Tracker) (site : Site) : Tracker :=
  let ends := !s.closedHeader && endsStatement s.before site
  let s := { s with closedHeader := false }
  (if ends then s.endStatement else s).beginBody site.token

def step (s : Tracker) (site : Site) (next : Option Token) : Tracker :=
  let s := (s.prepare site).read site next
  { s with before := site :: s.before }

def run (s : Tracker) : List Site → Tracker
  | [] => s
  | site :: rest => (s.step site (rest.head?.map Site.token)).run rest

def tree (s : Tracker) : ScopeTree :=
  { scopes := s.scopes, inside := s.inside, occurrences := s.occurrences.reverse }

end Tracker

def ScopeTree.ofTokens (tokens : List Token) : Except ScopeError ScopeTree := do
  let sites := Site.significant 0 false tokens
  let closers ← Brackets.closers sites
  return (Tracker.start.run (Site.withArrows closers sites)).tree

end Minify
