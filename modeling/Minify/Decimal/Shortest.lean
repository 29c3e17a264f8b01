/-!
The shortest decimal that reads back as a given binary number.

A finite double `m · 2^q` stands for every real number that rounds to it, which is an interval
around it with its ends included when `m` is even. For one, two, … seventeen digits the two
neighbours of the number on that decimal grid are tried; the first grid with a neighbour in the
interval wins, and of two neighbours the nearer.
-/

namespace Minify

/-- A positive decimal number `digits · 10^exponent`. -/
structure Decimal where
  digits : Nat
  exponent : Int
  deriving DecidableEq, Repr

namespace Decimal

/-- A positive number and the ends of the interval that rounds to it, as fractions over one
denominator. -/
structure Rounding where
  value : Nat
  low : Nat
  high : Nat
  denominator : Nat
  closed : Bool

/-- The numbers that round to `m · 2^q`; below a power of two they lie twice as close. -/
def Rounding.ofBinary (m : Nat) (q : Int) (powerOfTwo : Bool) : Rounding :=
  let scale := Nat.pow 2 (q - 2).toNat
  { value := 4 * m * scale
    low := (4 * m - if powerOfTwo then 1 else 2) * scale
    high := (4 * m + 2) * scale
    denominator := Nat.pow 2 (2 - q).toNat
    closed := m % 2 == 0 }

/-- The multiple of `10^k` in the interval that is nearest to the number. -/
def Rounding.onGrid? (r : Rounding) (k : Int) : Option Nat :=
  let up := Nat.pow 10 (-k).toNat
  let unit := r.denominator * Nat.pow 10 k.toNat
  let holds (d : Nat) : Bool :=
    if r.closed then r.low * up ≤ d * unit && d * unit ≤ r.high * up
    else r.low * up < d * unit && d * unit < r.high * up
  let d := r.value * up / unit
  match d != 0 && holds d, holds (d + 1) with
  | true, false => some d
  | false, true => some (d + 1)
  | true, true =>
    let below := r.value * up - d * unit
    let above := (d + 1) * unit - r.value * up
    if below < above || (below = above && d % 2 = 0) then some d else some (d + 1)
  | false, false => none

/-- How many decimal digits stand before the point; not positive when zeros follow it. -/
def Rounding.point (r : Rounding) : Int :=
  let whole := r.value / r.denominator
  if whole != 0 then (Nat.toDigits 10 whole).length
  else
    match (List.range 400).find? fun j => r.value * Nat.pow 10 (j + 1) ≥ r.denominator with
    | some j => -(j : Int)
    | none => 0

def trim (digits : Nat) (exponent : Int) : Decimal :=
  let ds := (Nat.toDigits 10 digits).reverse
  let zeros := (ds.takeWhile (· == '0')).length
  ⟨digits / Nat.pow 10 zeros, exponent + zeros⟩

def Rounding.shortest (r : Rounding) : Decimal :=
  let p := r.point
  let found := (List.range 17).findSome? fun (n : Nat) =>
    let k := p - ((n : Nat) + 1 : Int)
    (r.onGrid? k).map fun d => (d, k)
  match found with
  | some (d, k) => trim d k
  | none => ⟨0, 0⟩

def hidden : Nat := 0x10000000000000

/-- The shortest decimal that reads back as the size of a finite double; zero for zero. -/
def ofFloat (f : Float) : Decimal :=
  let bits : Nat := f.toBits.toNat % 0x8000000000000000
  let exponent : Nat := bits / hidden
  let fraction : Nat := bits % hidden
  if bits = 0 then ⟨0, 0⟩
  else if exponent = 0 then (Rounding.ofBinary fraction (-1074) false).shortest
  else
    (Rounding.ofBinary (hidden + fraction) ((exponent : Int) - 1075)
      (fraction == 0 && exponent != 1)).shortest

end Decimal

end Minify
