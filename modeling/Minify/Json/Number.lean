import Minify.Json

/-!
Numbers in JSON text. A number with neither point nor exponent that fits 64 bits is whole; any
other is a double, computed from its first digits as a word of 64 bits and a power of ten.
-/

namespace Minify.Json

structure Literal where
  negative : Bool
  whole : List Char
  /-- The digits after the point, if there is one. -/
  fraction : Option (List Char)
  /-- Whether the exponent is negative, and its digits. -/
  exponent : Option (Bool × List Char)
  deriving DecidableEq, Repr

def digits? (cs : List Char) : Option (List Char × List Char) :=
  let ds := cs.takeWhile Char.isDigit
  if ds.isEmpty then none else some (ds, cs.drop ds.length)

/-- The number that a text spells, which may not start with a needless zero. -/
def Literal.ofChars? (cs : List Char) : Option Literal := do
  let negative := cs.head? == some '-'
  let (whole, rest) ← digits? (if negative then cs.tail else cs)
  if whole.head? == some '0' && whole.length != 1 then none
  let (fraction, rest) ←
    match rest with
    | '.' :: more => (digits? more).map fun (ds, r) => (some ds, r)
    | _ => some (none, rest)
  let (exponent, rest) ←
    match rest with
    | e :: more =>
      if e = 'e' || e = 'E' then
        let signed := more.head? == some '-' || more.head? == some '+'
        (digits? (if signed then more.tail else more)).map fun (ds, r) =>
          (some (more.head? == some '-', ds), r)
      else some (none, rest)
    | [] => some (none, rest)
  if rest.isEmpty then some ⟨negative, whole, fraction, exponent⟩ else none

def digitsValue (ds : List Char) : Nat := ds.foldl (fun n c => 10 * n + (c.toNat - 48)) 0

/-- A significand of 64 bits, how many whole digits did not fit after it, and how many digits of
the fraction did. -/
structure Significand where
  value : Nat
  skipped : Nat
  places : Nat
  full : Bool

def Significand.empty : Significand := ⟨0, 0, 0, false⟩

def Significand.addWhole (s : Significand) (c : Char) : Significand :=
  let next := 10 * s.value + (c.toNat - 48)
  if s.full || next ≥ UInt64.size then { s with skipped := s.skipped + 1, full := true }
  else { s with value := next }

def Significand.addPlace (s : Significand) (c : Char) : Significand :=
  let next := 10 * s.value + (c.toNat - 48)
  if s.full || next ≥ UInt64.size then { s with full := true }
  else { s with value := next, places := s.places + 1 }

/-- Multiplies or divides by a power of ten, 308 places at a time; none when the result is out of
range. -/
def scale? (f : Float) (exponent : Int) : Option Float :=
  if exponent.natAbs ≤ 308 then
    let power := Float.ofScientific 1 false exponent.natAbs
    let r := if exponent ≥ 0 then f * power else f / power
    if r.isInf then none else some r
  else if f == 0 then some f
  else if exponent ≥ 0 then none
  else scale? (f / Float.ofScientific 1 false 308) (exponent + 308)
termination_by exponent.natAbs
decreasing_by omega

def Literal.real? (n : Literal) : Option Float :=
  let s := n.whole.foldl Significand.addWhole .empty
  let s := (n.fraction.getD []).foldl Significand.addPlace { s with full := false }
  let point : Int := s.skipped - s.places
  let sign (f : Float) : Float := if n.negative then -f else f
  match n.exponent with
  | none => (scale? s.value.toUInt64.toFloat point).map sign
  | some (small, ds) =>
    let e := digitsValue ds
    if e ≥ 0x80000000 then if s.value != 0 && !small then none else some (sign 0)
    else
      (scale? s.value.toUInt64.toFloat (if small then point - e else point + e)).map sign

/-- The value that a literal stands for. -/
def Literal.value (n : Literal) : Json :=
  let v := digitsValue n.whole
  let whole := n.fraction.isNone && n.exponent.isNone
  if whole && !n.negative && v < UInt64.size then int v
  else if whole && n.negative && 0 < v && v ≤ 0x8000000000000000 then int (-v)
  else ((n.real?).map real).getD meaningless

end Minify.Json
