import Minify.Json.Number

/-!
Reading JSON text in two passes, each one step per item: characters into marks, and marks into a
value with the containers that are still open on a stack.
-/

namespace Minify.Json

/-- A bracket, comma or colon, or a value that is no container. Of a text that stands for no
value there is only that it was one. -/
inductive Mark where
  | openArr
  | closeArr
  | openObj
  | closeObj
  | comma
  | colon
  | text (s : Option String)
  | scalar (v : Json)

/-- A text in the making: its characters, the last first, and the first half of a surrogate pair
that waits for the second. -/
structure Draft where
  chars : List Char
  high : Option Nat
  broken : Bool

namespace Draft

def empty : Draft := ⟨[], none, false⟩

def push (d : Draft) (c : Char) : Draft := ⟨c :: d.chars, none, d.broken || d.high.isSome⟩

def pushUnit (d : Draft) (u : Nat) : Draft :=
  let isHigh := 0xD800 ≤ u && u < 0xDC00
  let isLow := 0xDC00 ≤ u && u < 0xE000
  match d.high with
  | some h =>
    if isLow then
      ⟨Char.ofNat (0x10000 + (h - 0xD800) * 0x400 + (u - 0xDC00)) :: d.chars, none, d.broken⟩
    else if isHigh then ⟨d.chars, some u, true⟩
    else ⟨Char.ofNat u :: d.chars, none, true⟩
  | none =>
    if isLow then ⟨d.chars, none, true⟩
    else if isHigh then ⟨d.chars, some u, d.broken⟩
    else ⟨Char.ofNat u :: d.chars, none, d.broken⟩

def finish (d : Draft) : Option String :=
  if d.broken || d.high.isSome then none else some (String.ofList d.chars.reverse)

end Draft

/-- Where the first pass stands: between marks, in the run of a number or word, in a text, after a
backslash in a text, or among the digits of a code unit. -/
inductive Mode where
  | between
  | run (chars : List Char)
  | text (d : Draft)
  | escape (d : Draft)
  | unit (d : Draft) (count value : Nat)

structure Marking where
  mode : Mode
  /-- The marks found, the last first. -/
  found : List Mark

def bareValue? (run : List Char) : Option Json :=
  match String.ofList run with
  | "null" => some null
  | "true" => some (bool true)
  | "false" => some (bool false)
  | _ => (Literal.ofChars? run).map Literal.value

def punctuation : Char → Option (Option Mark)
  | '[' => some (some .openArr)
  | ']' => some (some .closeArr)
  | '\x7b' => some (some .openObj)
  | '\x7d' => some (some .closeObj)
  | ',' => some (some .comma)
  | ':' => some (some .colon)
  | ' ' | '\n' | '\t' | '\r' => some none
  | _ => none

def hexValue? (c : Char) : Option Nat :=
  if c.isDigit then some (c.toNat - 48)
  else if 'a' ≤ c && c ≤ 'f' then some (c.toNat - 87)
  else if 'A' ≤ c && c ≤ 'F' then some (c.toNat - 55)
  else none

def escapeValue? : Char → Option Char
  | '"' => some '"'
  | '\\' => some '\\'
  | '/' => some '/'
  | 'b' => some '\x08'
  | 'f' => some '\x0c'
  | 'n' => some '\n'
  | 'r' => some '\r'
  | 't' => some '\t'
  | _ => none

def startMark (found : List Mark) (c : Char) : Marking :=
  match punctuation c with
  | some (some m) => ⟨.between, m :: found⟩
  | some none => ⟨.between, found⟩
  | none => if c = '"' then ⟨.text .empty, found⟩ else ⟨.run [c], found⟩

def Marking.endRun (s : Marking) : Option (List Mark) :=
  match s.mode with
  | .between => some s.found
  | .run chars => (bareValue? chars.reverse).map fun v => .scalar v :: s.found
  | _ => none

def Marking.step (s : Marking) (c : Char) : Option Marking :=
  match s.mode with
  | .between => some (startMark s.found c)
  | .run chars =>
    if c = '"' || (punctuation c).isSome then (s.endRun).map fun found => startMark found c
    else some ⟨.run (c :: chars), s.found⟩
  | .text d =>
    if c = '"' then some ⟨.between, .text d.finish :: s.found⟩
    else if c = '\\' then some ⟨.escape d, s.found⟩
    else if c.toNat < 0x20 then none
    else some ⟨.text (d.push c), s.found⟩
  | .escape d =>
    if c = 'u' then some ⟨.unit d 0 0, s.found⟩
    else (escapeValue? c).map fun e => ⟨.text (d.push e), s.found⟩
  | .unit d count value =>
    (hexValue? c).map fun h =>
      if count = 3 then ⟨.text (d.pushUnit (16 * value + h)), s.found⟩
      else ⟨.unit d (count + 1) (16 * value + h), s.found⟩

/-- The marks of a text, if it falls into marks. -/
def marks? (cs : List Char) : Option (List Mark) := do
  let s ← cs.foldlM Marking.step ⟨.between, []⟩
  return (← s.endRun).reverse

/-- A container that is not closed: its items or fields so far, the last first. For an object the
name whose value comes next; no name when it stands for no text. -/
inductive Frame where
  | arr (items : List Json)
  | obj (fields : List (String × Json)) (name : Option String) (meant : Bool)

inductive Phase where
  | value
  | firstItem
  | firstName
  | name
  | colon (name : Option String)
  | afterItem
  | done (v : Json)

structure Building where
  phase : Phase
  stack : List Frame

namespace Building

def start : Building := ⟨.value, []⟩

def deliver (stack : List Frame) (v : Json) : Building :=
  match stack with
  | [] => ⟨.done v, []⟩
  | .arr items :: rest => ⟨.afterItem, .arr (v :: items) :: rest⟩
  | .obj fields name meant :: rest =>
    ⟨.afterItem, .obj ((name.getD "", v) :: fields) none (meant && name.isSome) :: rest⟩

def close (isArr : Bool) : List Frame → Option Building
  | .arr items :: rest => if isArr then some (deliver rest (Json.arr items.reverse)) else none
  | .obj fields _ meant :: rest =>
    if isArr then none
    else some (deliver rest (if meant then Json.obj fields.reverse else .meaningless))
  | [] => none

def begin (stack : List Frame) : Mark → Option Building
  | .openArr => some ⟨.firstItem, .arr [] :: stack⟩
  | .openObj => some ⟨.firstName, .obj [] none true :: stack⟩
  | .text s => some (deliver stack ((s.map str).getD .meaningless))
  | .scalar v => some (deliver stack v)
  | _ => none

def step (s : Building) (m : Mark) : Option Building :=
  match s.phase, m with
  | .value, m => begin s.stack m
  | .firstItem, .closeArr => close true s.stack
  | .firstItem, m => begin s.stack m
  | .firstName, .closeObj => close false s.stack
  | .firstName, .text n => some ⟨.colon n, s.stack⟩
  | .name, .text n => some ⟨.colon n, s.stack⟩
  | .colon n, .colon =>
    match s.stack with
    | .obj fields _ meant :: rest => some ⟨.value, .obj fields n meant :: rest⟩
    | _ => none
  | .afterItem, .comma =>
    match s.stack with
    | .arr _ :: _ => some ⟨.value, s.stack⟩
    | _ => some ⟨.name, s.stack⟩
  | .afterItem, .closeArr => close true s.stack
  | .afterItem, .closeObj => close false s.stack
  | _, _ => none

end Building

def parse? (s : String) : Option Json := do
  let b ← (← marks? s.toList).foldlM Building.step .start
  match b.phase with
  | .done v => some v
  | _ => none

end Minify.Json
