import Minify.Json.Reader
import Minify.Table

/-!
What prints JSON, and reads values of the kinds that records are made of.

The format is a library's, so what a record does with it is said for any `Codec`. `codec` is the one
that runs.
-/

namespace Minify.Json

structure Codec where
  /-- The text of a value. -/
  print : Json → String
  /-- The value that a text spells. -/
  parse? : String → Option Json
  /-- The values of the fields of a record, in the order of their names. -/
  record? : List String → Json → Option (List (Option Json))
  /-- A field, by what reads its value; a default when it is missing. -/
  field? {α : Type} : α → (Json → Option α) → Option Json → Option α
  bool? : Json → Option Bool
  /-- A number of 32 bits. -/
  word? : Json → Option UInt32
  text? : Json → Option String
  /-- A text, or nothing. -/
  nullable? : Json → Option (Option String)
  /-- A table of numbers of 32 bits. -/
  table? : Json → Option (Table UInt32)
  /-- A list, by what reads its items. -/
  list? {α : Type} : (Json → Option α) → Json → Option (List α)
  /-- A value of any kind, as it is kept. -/
  value? : Json → Option Json

def depthLimit : Nat := 127

/-- The values of known fields, out of an object or from an array of them in order. No known field
may come twice, and no array may be longer than there are fields. Other fields are left aside. -/
def record? (names : List String) : Json → Option (List (Option Json))
  | obj fields =>
    if names.all fun n => fields.countP (fun f => f.1 == n) ≤ 1 then
      some (names.map fun n => (obj fields).field? n)
    else none
  | arr items =>
    if items.length ≤ names.length then
      some (items.map some ++ List.replicate (names.length - items.length) none)
    else none
  | _ => none

def fieldOr? {α : Type} (default : α) (read : Json → Option α) : Option Json → Option α
  | none => some default
  | some v => read v

def word? (v : Json) : Option UInt32 :=
  v.nat?.bind fun n => if n < UInt32.size then some (UInt32.ofNat n) else none

def nullable? : Json → Option (Option String)
  | null => some none
  | str s => some (some s)
  | _ => none

def table? (v : Json) : Option (Table UInt32) := do
  let fields ← v.fields?
  return Table.ofList (← fields.mapM fun f => (word? f.2).map fun n => (f.1, n))

def list? {α : Type} (read : Json → Option α) (v : Json) : Option (List α) :=
  v.items?.bind fun items => items.mapM read

/-- A value with `level` containers around it, with the fields of its objects in order. -/
def value? (level : Nat) : Json → Option Json
  | str s => some (str s)
  | v => if level + v.depth ≤ depthLimit then v.sorted? else none

/-- The printer and the readers, where `level` containers stand around values of any kind. -/
def codec (level : Nat) : Codec where
  print := text
  parse? := parse?
  record? := record?
  field? := fieldOr?
  bool? := bool?
  word? := word?
  text? := str?
  nullable? := nullable?
  table? := table?
  list? := list?
  value? := value? level

end Minify.Json
