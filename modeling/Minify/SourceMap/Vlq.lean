/-!
Whole numbers of any size as base 64 digits, five bits in each, the lowest first. The sixth bit says
that more digits follow, and the lowest bit of all holds the sign.
-/

namespace Minify.Vlq

def digit (v : Nat) : Char :=
  if v < 26 then Char.ofNat (v + 65)
  else if v < 52 then Char.ofNat (v + 71)
  else if v < 62 then Char.ofNat (v - 4)
  else if v = 62 then '+'
  else '/'

def digits (v : Nat) : List Char :=
  if v < 32 then [digit v] else digit (v % 32 + 32) :: digits (v / 32)
termination_by v
decreasing_by omega

def fold (n : Int) : Nat := if n < 0 then 2 * n.natAbs + 1 else 2 * n.natAbs

def encode (n : Int) : List Char := digits (fold n)

end Minify.Vlq
