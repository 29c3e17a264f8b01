import Minify.Rename.PrivateNames
import Minify.Rename.ShortName
import Minify.Scope
import Std.Data.HashMap
import Std.Data.HashSet

/-!
Short names for variables.

Every binding that may change gets the first short name that no identifier could confuse with
another. Scopes are named from the outside in, so the new names of the bindings around a scope are
known when its own are chosen.
-/

namespace Minify

abbrev Binding := ScopeId × String

namespace Shrink

/-- What the choice of names depends on. -/
structure Context where
  tree : ScopeTree
  protectedNames : ProtectedNames
  /-- Private names have their new names already. -/
  privateNames : PrivateNames

namespace Context

/-- A binding gets a short name. A name with an escape in it may be another spelling of a name, so
it stays. -/
def isRenamable (ctx : Context) (b : Binding) : Bool :=
  ctx.tree.isRenamable b.1 && !ctx.protectedNames.contains b.2 && !b.2.contains '\\'
    && (ctx.privateNames.get? b.2).isNone

def bindings (ctx : Context) (id : ScopeId) : List String :=
  ((ctx.tree.scopes[id]?).map Scope.bindings).getD []

/-- The final names of the bindings of a scope that get no short name. -/
def fixed (ctx : Context) (id : ScopeId) : List String :=
  ((ctx.bindings id).filter fun name => !ctx.isRenamable (id, name)).map ctx.privateNames.rename

/-- The scopes that an occurrence reaches past: from its own one up to the one that binds its name,
which is left out. -/
def crossed (ctx : Context) (o : Occurrence) : List ScopeId :=
  (ctx.tree.ancestors o.scope).takeWhile fun id => some id != ctx.tree.resolved o

/-- The binding with a short name that an occurrence refers to. -/
def target? (ctx : Context) (o : Occurrence) : Option Binding :=
  ((ctx.tree.resolved o).map fun id => (id, o.name)).filter ctx.isRenamable

/-- The scopes that occurrences of names without short names reach past, with those names. -/
def passingNames (ctx : Context) : List (ScopeId × String) :=
  ctx.tree.occurrences.flatMap fun o =>
    match ctx.target? o with
    | some _ => []
    | none => (ctx.crossed o).map fun id => (id, ctx.privateNames.rename o.name)

/-- The scopes that occurrences of bindings with short names reach past, with those bindings. -/
def passingBindings (ctx : Context) : List (ScopeId × Binding) :=
  ctx.tree.occurrences.flatMap fun o =>
    match ctx.target? o with
    | some b => (ctx.crossed o).map fun id => (id, b)
    | none => []

end Context

/-- The values of each key, in their order. -/
def group {κ α : Type} [BEq κ] [Hashable κ] (xs : List (κ × α)) : Std.HashMap κ (List α) :=
  xs.foldr (fun x m => m.insert x.1 (x.2 :: m.getD x.1 [])) ∅

theorem getD_group {κ α : Type} [BEq κ] [LawfulBEq κ] [Hashable κ] (xs : List (κ × α)) (k : κ) :
    (group xs).getD k [] = (xs.filter (·.1 == k)).map (·.2) := by
  induction xs with
  | nil => simp [group]
  | cons x xs ih =>
    rw [group, List.foldr_cons, ← group, Std.HashMap.getD_insert]
    by_cases h : x.1 == k
    · simp [← ih, eq_of_beq h]
    · simp [h, ih]

/-- What stands against a name for a binding. -/
structure Constraints where
  /-- By scope: the final names of its bindings that get no short name. -/
  fixed : Array (List String)
  /-- By scope: the names that identifiers inside reach past it, other than short ones. -/
  passing : Std.HashMap ScopeId (List String)
  /-- By scope: the bindings with short names that identifiers inside reach past it. -/
  crossing : Std.HashMap ScopeId (List Binding)
  /-- By binding: the fixed names of the scopes between it and its uses. -/
  blocked : Std.HashMap Binding (List String)

namespace Context

def constraints (ctx : Context) : Constraints :=
  let fixed := (Array.range ctx.tree.scopes.size).map ctx.fixed
  { fixed := fixed
    passing := group ctx.passingNames
    crossing := group ctx.passingBindings
    blocked := group (ctx.passingBindings.flatMap fun x => (fixed.getD x.1 []).map
      fun n => (x.2, n)) }

/-- The short name at an index is neither used nor blocked nor protected. -/
def isFree (ctx : Context) (used blocked : Std.HashSet String) (n : Nat) : Bool :=
  let name := ShortName.nth n
  !used.contains name && !ctx.protectedNames.contains name && !blocked.contains name

def choose (ctx : Context) (used blocked : Std.HashSet String) : Nat :=
  Candidate.first (ctx.isFree used blocked) 0
    (used.size + blocked.size + ctx.protectedNames.count + 1)

def assignBinding (ctx : Context) (c : Constraints) (id : ScopeId)
    (s : Std.HashMap Binding String × Std.HashSet String) (name : String) :
    Std.HashMap Binding String × Std.HashSet String :=
  if ctx.isRenamable (id, name) then
    let blocked := Std.HashSet.ofList (c.blocked.getD (id, name) [])
    let short := ShortName.nth (ctx.choose s.2 blocked)
    (s.1.insert (id, name) short, s.2.insert short)
  else s

/-- Names the bindings of one scope, after those of the scopes around it. -/
def assignScope (ctx : Context) (c : Constraints) (assigned : Std.HashMap Binding String)
    (id : ScopeId) : Std.HashMap Binding String :=
  if ctx.tree.isRenamable id then
    let outer := (c.crossing.getD id []).filterMap fun b => assigned[b]?
    let used := Std.HashSet.ofList (c.fixed.getD id [] ++ c.passing.getD id [] ++ outer)
    ((ctx.bindings id).foldl (ctx.assignBinding c id) (assigned, used)).1
  else assigned

def assign (ctx : Context) : Std.HashMap Binding String :=
  (List.range ctx.tree.scopes.size).foldl (ctx.assignScope ctx.constraints) ∅

/-- The new text of an occurrence, if it changes. A shorthand keeps its key. -/
def newText? (ctx : Context) (assigned : Std.HashMap Binding String) (o : Occurrence) :
    Option String := do
  let short ← assigned[(← ctx.tree.resolved o, o.name)]?
  if short == o.name then none
  else if o.shorthand then some (o.name ++ ":" ++ short)
  else some short

def replacements (ctx : Context) : Replacements :=
  let assigned := ctx.assign
  Std.TreeMap.ofList (ctx.tree.occurrences.filterMap fun o =>
    (ctx.newText? assigned o).map fun text => (o.token, text))

end Context

end Shrink

/-- Gives short names to the variables of a script. Names that are private or protected get none. -/
def shrink (tree : ScopeTree) (protectedNames : ProtectedNames) (privateNames : PrivateNames) :
    Replacements :=
  Shrink.Context.replacements ⟨tree, protectedNames, privateNames⟩

/-- The new texts of the identifiers of a script: the private names, and the short ones after
them. -/
def renameAll (tokens : List Token) (tree : ScopeTree) (protectedNames : ProtectedNames)
    (privateNames : PrivateNames) : Replacements :=
  (privateNames.replacements tokens).insertMany (shrink tree protectedNames privateNames).toList

end Minify
