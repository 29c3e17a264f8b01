import Minify.Token

/-!
The scopes of a script and the identifiers in it that name variables.

Scopes stand in an array, where every scope but the first has a parent at a smaller index. An
occurrence refers to the nearest scope, from its own one outwards, that binds its name.
-/

namespace Minify

abbrev ScopeId := Nat

inductive ScopeKind where
  | global
  | function
  | block
  | catchClause
  deriving DecidableEq, Repr

structure Scope where
  parent : Option ScopeId
  kind : ScopeKind
  /-- The names declared, in the order of their declarations. -/
  bindings : List String
  /-- In this scope or one inside it code may reach variables by names made at run time. -/
  hasEval : Bool
  deriving DecidableEq, Repr

namespace Scope

def bind (s : Scope) (name : String) : Scope :=
  if s.bindings.contains name then s else { s with bindings := s.bindings ++ [name] }

/-- Declarations that hoist go past these scopes. -/
def isInner (s : Scope) : Bool :=
  match s.kind with
  | .block | .catchClause => true
  | _ => false

def ancestors (scopes : Array Scope) (id : ScopeId) : List ScopeId :=
  id :: match (scopes[id]?).bind Scope.parent with
    | some p => if p < id then ancestors scopes p else []
    | none => []
termination_by id

def binds (scopes : Array Scope) (id : ScopeId) (name : String) : Bool :=
  (scopes[id]?).any fun s => s.bindings.contains name

end Scope

/-- An identifier that names a variable. -/
structure Occurrence where
  /-- The index of its token. -/
  token : Nat
  name : String
  /-- The innermost scope it stands in. -/
  scope : ScopeId
  /-- It is both the key and the value of a property. -/
  shorthand : Bool
  deriving DecidableEq, Repr

structure ScopeTree where
  scopes : Array Scope
  /-- For each scope, those right inside it in the order found. -/
  inside : Array (List ScopeId)
  occurrences : List Occurrence
  deriving DecidableEq, Repr

namespace ScopeTree

def global : ScopeId := 0

def ancestors (t : ScopeTree) (id : ScopeId) : List ScopeId := Scope.ancestors t.scopes id

def children (t : ScopeTree) (id : ScopeId) : List ScopeId := (t.inside[id]?).getD []

/-- The scope that binds a name used in a scope; none for the name of a global of another
script. -/
def resolve (t : ScopeTree) (name : String) (id : ScopeId) : Option ScopeId :=
  (t.ancestors id).find? fun j => Scope.binds t.scopes j name

def resolved (t : ScopeTree) (o : Occurrence) : Option ScopeId := t.resolve o.name o.scope

/-- The names a scope binds may be changed. -/
def isRenamable (t : ScopeTree) (id : ScopeId) : Bool :=
  id != global && !(t.scopes[id]?).any Scope.hasEval

end ScopeTree

end Minify
