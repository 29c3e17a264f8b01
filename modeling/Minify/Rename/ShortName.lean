/-!
The short names in their order: `a` to `z`, then `aa`, `ab` and so on.
-/

namespace Minify.ShortName

def letter (i : Nat) : Char := Char.ofNat (i + 97)

def letters (n : Nat) : List Char :=
  if n < 26 then [letter n] else letters (n / 26 - 1) ++ [letter (n % 26)]
termination_by n
decreasing_by omega

def nth (n : Nat) : String := String.ofList (letters n)

end Minify.ShortName
