import Minify.Layout
import Minify.Numeral
import Minify.Rename.Candidate
import Minify.Rename.ProtectedNames

/-!
Private names, which begin with a mark that the script's author chose. They are changed wherever
they stand, as variables and as properties, to the mark and a number.
-/

namespace Minify

/-- A name is private when it begins with the mark, which is not empty, and a letter, digit or
dollar sign follows. -/
def isPrivate (name mark : String) : Bool :=
  !mark.isEmpty && mark.toList.isPrefixOf name.toList
    && (name.toList.drop mark.toList.length).head?.any fun c => c.isAlphanum || c = '$'

/-- The private names of a script, in the order of their first places, with their new names. -/
structure PrivateNames where
  names : List (String × String)
  deriving DecidableEq, Repr

namespace PrivateNames

def empty : PrivateNames := ⟨[]⟩

def get? (p : PrivateNames) (name : String) : Option String := p.names.lookup name

def rename (p : PrivateNames) (name : String) : String := (p.get? name).getD name

def numbered (mark : String) (n : Nat) : String := mark ++ Numeral.encode Numeral.maxRadix n

def isFree (mark : String) (protectedNames : ProtectedNames) (n : Nat) : Bool :=
  !protectedNames.contains (numbered mark n)

/-- The first number from `n` on whose name is free. -/
def freeNumber (mark : String) (protectedNames : ProtectedNames) (n : Nat) : Nat :=
  Candidate.first (isFree mark protectedNames) n (protectedNames.count + 1)

/-- Whether an identifier gets a new name of its own after those in `found` have. -/
def isNew (mark : String) (protectedNames : ProtectedNames) (found : List (String × String))
    (t : Token) : Bool :=
  t.kind = .identifier && isPrivate t.text mark && !protectedNames.contains t.text
    && (found.lookup t.text).isNone

/-- The names found in the tokens after `found`, the last first. Numbers go up, past those whose
name is protected. -/
def collectFrom (mark : String) (protectedNames : ProtectedNames)
    (found : List (String × String)) (next : Nat) : List Token → List (String × String)
  | [] => found
  | t :: ts =>
    if isNew mark protectedNames found t then
      let n := freeNumber mark protectedNames next
      collectFrom mark protectedNames ((t.text, numbered mark n) :: found) (n + 1) ts
    else collectFrom mark protectedNames found next ts

def collect (tokens : List Token) (mark : String) (protectedNames : ProtectedNames) :
    PrivateNames :=
  ⟨(collectFrom mark protectedNames [] 0 tokens).reverse⟩

def newText? (p : PrivateNames) (t : Token) : Option String :=
  if t.kind = .identifier && p.rename t.text != t.text then some (p.rename t.text) else none

def replacements (p : PrivateNames) (tokens : List Token) : Replacements :=
  Std.TreeMap.ofList (tokens.zipIdx.filterMap fun x => (p.newText? x.1).map fun text => (x.2, text))

end PrivateNames

end Minify
