import Minify.Text.Split

/-!
Paths as texts: names between slashes. A path is kept as it was written; only its end is looked at,
where empty names and single dots count for nothing.
-/

namespace Minify.Path

def names (cs : List Char) : List (List Char) := Text.splitOn '/' cs

def withSlashes (names : List (List Char)) : List Char := ['/'].intercalate names

theorem withSlashes_names (cs : List Char) : withSlashes (names cs) = cs :=
  Text.intercalate_splitOn '/' cs

def isBlank (name : List Char) : Bool := name == [] || name == ['.']

def dropBlank (names : List (List Char)) : List (List Char) :=
  (names.reverse.dropWhile isBlank).reverse

def isAbsolute (p : String) : Bool := p.toList.head? == some '/'

/-- What a path starts with, a slash or a single dot, and the names after it. -/
def split (p : String) : List Char × List (List Char) :=
  match p.toList with
  | '/' :: cs => (['/'], names cs)
  | ['.'] => (['.'], [[]])
  | '.' :: '/' :: cs => (['.'], [] :: names cs)
  | cs => ([], names cs)

/-- The path of the directory that something lies in, if it has one. -/
def parent? (p : String) : Option String :=
  let (start, names) := split p
  if dropBlank names = [] then
    if start = ['.'] then some "" else none
  else
    some (String.ofList (start ++ withSlashes (dropBlank (dropBlank names).dropLast)))

def fileName? (p : String) : Option String :=
  match (dropBlank (split p).2).getLast? with
  | some name => if name = ['.', '.'] then none else some (String.ofList name)
  | none => none

/-- The path `p`, if it is seen from `base`. -/
def join (base p : String) : String :=
  if isAbsolute p || base.isEmpty then p
  else if base.toList.getLast? = some '/' then base ++ p
  else base ++ "/" ++ p

end Minify.Path
