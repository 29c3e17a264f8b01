/-!
Numerals in a radix up to 62: the digits, then the small letters, then the capital ones.
-/

namespace Minify.Numeral

/-- The character of a digit. Capital letters stand 29 places after their value in ASCII. -/
def digit (d : Nat) : Char :=
  if d < 10 then Char.ofNat (d + 48)
  else if d < 36 then Char.ofNat (d + 87)
  else Char.ofNat (d + 29)

def digits (radix n : Nat) : List Char :=
  if n < radix ∨ radix < 2 then [digit n]
  else digits radix (n / radix) ++ [digit (n % radix)]
termination_by n
decreasing_by exact Nat.div_lt_self (by omega) (by omega)

def encode (radix n : Nat) : String := String.ofList (digits radix n)

def digitValue (c : Char) : Nat :=
  if c.isDigit then c.toNat - 48
  else if 'a' ≤ c && c ≤ 'z' then c.toNat - 87
  else c.toNat - 29

def value (radix : Nat) (cs : List Char) : Nat :=
  cs.foldl (fun n c => radix * n + digitValue c) 0

def decode? (radix : Nat) (cs : List Char) : Option Nat :=
  let n := value radix cs
  if digits radix n == cs then some n else none

/-- The largest radix with a character for each digit. -/
def maxRadix : Nat := 62

end Minify.Numeral
