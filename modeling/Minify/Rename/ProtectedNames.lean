import Minify.Token.Keyword
import Std.Data.TreeSet

/-!
Names that are never changed and never given.
-/

namespace Minify

/-- The method that overrides another reaches it by this name. -/
def superAccessor : String := "$super"

/-- The reserved words, the accessor of overridden methods, and further names. -/
structure ProtectedNames where
  extra : Std.TreeSet String

namespace ProtectedNames

def empty : ProtectedNames := ⟨∅⟩

def add (p : ProtectedNames) (names : List String) : ProtectedNames :=
  ⟨p.extra.insertMany names⟩

def ofList (names : List String) : ProtectedNames := empty.add names

def builtin : List String := reservedWords ++ [superAccessor]

def contains (p : ProtectedNames) (name : String) : Bool :=
  builtin.contains name || p.extra.contains name

def count (p : ProtectedNames) : Nat := builtin.length + p.extra.size

end ProtectedNames

end Minify
