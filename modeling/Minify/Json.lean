import Minify.Decimal.Shortest
import Minify.Table

/-!
JSON values and their text without blanks. Whole numbers of 64 bits are kept apart from all other
numbers, which are doubles.
-/

namespace Minify

inductive Json where
  | null
  | bool (b : Bool)
  | int (n : Int)
  | real (d : Float)
  | str (s : String)
  | arr (items : List Json)
  /-- The fields in the order written; a name may come twice. -/
  | obj (fields : List (String × Json))
  /-- Something well written that stands for no value: a number out of range, or a text with half
  of a surrogate pair in it. -/
  | meaningless

namespace Json

def exponentText (e : Int) : String :=
  (if e < 0 then "e-" else "e+") ++ (if e.natAbs < 10 then "0" else "") ++ toString e.natAbs

/-- A decimal as a number that is not whole is written: with a point, positionally from five
places after the point up to sixteen before it, and with an exponent beyond. -/
def decimalText (d : Decimal) : String :=
  let ds := Nat.toDigits 10 d.digits
  let point := (ds.length : Int) + d.exponent
  if d.digits = 0 then "0.0"
  else if 0 < point && point ≤ 16 then
    if 0 ≤ d.exponent then
      String.ofList (ds ++ List.replicate d.exponent.toNat '0') ++ ".0"
    else String.ofList (ds.take point.toNat ++ ['.'] ++ ds.drop point.toNat)
  else if -5 < point && point ≤ 0 then
    "0." ++ String.ofList (List.replicate (-point).toNat '0' ++ ds)
  else
    String.ofList (ds.take 1 ++ (if ds.length = 1 then [] else '.' :: ds.drop 1))
      ++ exponentText (point - 1)

def realText (d : Float) : String :=
  (if d.toBits ≥ 0x8000000000000000 then "-" else "") ++ decimalText (Decimal.ofFloat d)

def escapedChar (c : Char) : List Char :=
  if c = '"' then ['\\', '"']
  else if c = '\\' then ['\\', '\\']
  else if c = '\x08' then ['\\', 'b']
  else if c = '\x0c' then ['\\', 'f']
  else if c = '\n' then ['\\', 'n']
  else if c = '\r' then ['\\', 'r']
  else if c = '\t' then ['\\', 't']
  else if c.toNat < 0x20 then
    ['\\', 'u', '0', '0'] ++ (if c.toNat < 16 then ['0'] else []) ++ Nat.toDigits 16 c.toNat
  else [c]

def quoted (s : String) : String :=
  String.ofList ('"' :: s.toList.flatMap escapedChar ++ ['"'])

mutual

def pieces : Json → List String
  | null => ["null"]
  | bool true => ["true"]
  | bool false => ["false"]
  | int n => [toString n]
  | real d => [realText d]
  | str s => [quoted s]
  | arr items => ["["] ++ itemPieces true items ++ ["]"]
  | obj fields => ["\x7b"] ++ fieldPieces true fields ++ ["\x7d"]
  | meaningless => ["null"]

def itemPieces (first : Bool) : List Json → List String
  | [] => []
  | v :: vs => (if first then [] else [","]) ++ pieces v ++ itemPieces false vs

def fieldPieces (first : Bool) : List (String × Json) → List String
  | [] => []
  | (k, v) :: fs =>
    (if first then [] else [","]) ++ [quoted k, ":"] ++ pieces v ++ fieldPieces false fs

end

def text (v : Json) : String := String.join v.pieces

def str? : Json → Option String
  | str s => some s
  | _ => none

def bool? : Json → Option Bool
  | bool b => some b
  | _ => none

def int? : Json → Option Int
  | int n => some n
  | _ => none

def nat? (v : Json) : Option Nat := v.int?.bind Int.toNat?

def items? : Json → Option (List Json)
  | arr items => some items
  | _ => none

def fields? : Json → Option (List (String × Json))
  | obj fields => some fields
  | _ => none

def field? (name : String) : Json → Option Json
  | obj fields => fields.reverse.lookup name
  | _ => none

mutual

/-- The value with the fields of its objects in order, if all of it has a meaning. -/
def sorted? : Json → Option Json
  | arr items => (sortedItems? items).map arr
  | obj fields => (sortedFields? fields).map fun fs => obj (Table.ofList fs).entries
  | meaningless => none
  | v => some v

def sortedItems? : List Json → Option (List Json)
  | [] => some []
  | v :: vs => do return (← sorted? v) :: (← sortedItems? vs)

def sortedFields? : List (String × Json) → Option (List (String × Json))
  | [] => some []
  | (k, v) :: fs => do return (k, ← sorted? v) :: (← sortedFields? fs)

end

mutual

def depth : Json → Nat
  | arr items => itemsDepth items + 1
  | obj fields => fieldsDepth fields + 1
  | _ => 0

def itemsDepth : List Json → Nat
  | [] => 0
  | v :: vs => max (depth v) (itemsDepth vs)

def fieldsDepth : List (String × Json) → Nat
  | [] => 0
  | (_, v) :: fs => max (depth v) (fieldsDepth fs)

end

end Json

end Minify
