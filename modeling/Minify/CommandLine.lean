import Minify.Options
import Minify.Text.Split

/-!
The command line: a verb, the names it works on, and switches. Some switches take a value, which
is attached to them or comes next. Arguments are read one after the other, and the first fault ends
the reading.
-/

namespace Minify.CommandLine

inductive Verb where
  | version
  | pack
  | build
  | help
  deriving DecidableEq, Repr

def Verb.name : Verb → String
  | version => "version"
  | pack => "pack"
  | build => "build"
  | help => "help"

def Verb.all : List Verb := [.version, .pack, .build, .help]

inductive Switch where
  | verbose
  | json
  | workingDirectory
  | help
  | version
  | output
  | shrinkVars
  | renamePrivate
  | base62
  | protect
  | header
  | radix
  deriving DecidableEq, Repr

namespace Switch

def all : List Switch := [
  .verbose, .json, .workingDirectory, .help, .version, .output, .shrinkVars, .renamePrivate,
  .base62, .protect, .header, .radix]

def long : Switch → String
  | verbose => "verbose"
  | json => "json"
  | workingDirectory => "cwd"
  | help => "help"
  | version => "version"
  | output => "output"
  | shrinkVars => "shrink-vars"
  | renamePrivate => "private"
  | base62 => "base62"
  | protect => "protect"
  | header => "header"
  | radix => "radix"

def short? : Switch → Option Char
  | verbose => some 'v'
  | help => some 'h'
  | version => some 'V'
  | output => some 'o'
  | _ => none

def takesValue : Switch → Bool
  | workingDirectory | output | protect | header | radix => true
  | _ => false

def mayRepeat : Switch → Bool
  | verbose | protect => true
  | _ => false

def belongsTo (verb : Option Verb) : Switch → Bool
  | verbose | json | workingDirectory | help => true
  | version => verb.isNone
  | _ => verb == some .pack

def ofLong? (verb : Option Verb) (name : String) : Option Switch :=
  all.find? fun s => s.belongsTo verb && s.long == name

def ofShort? (verb : Option Verb) (c : Char) : Option Switch :=
  all.find? fun s => s.belongsTo verb && s.short? == some c

end Switch

inductive Stop where
  | usage
  | help
  | version
  deriving DecidableEq, Repr

structure Reading where
  verb : Option Verb := none
  /-- The switches since the verb. -/
  used : List Switch := []
  /-- The switch that waits for its value. -/
  pending : Option Switch := none
  /-- Whether all that follows are names. -/
  namesOnly : Bool := false
  json : Bool := false
  workingDirectory : Option String := none
  names : List String := []
  output : Option String := none
  header : Option String := none
  options : Options := {}

def wordOf? (s : String) : Option UInt32 :=
  let (negative, digits) := match s.toList with
    | '-' :: ds => (true, ds)
    | '+' :: ds => (false, ds)
    | ds => (false, ds)
  if digits.isEmpty || !digits.all Char.isDigit then none
  else
    let n := digits.foldl (fun n c => 10 * n + (c.toNat - '0'.toNat)) 0
    if n = 0 || (!negative && n < UInt32.size) then some (UInt32.ofNat n) else none

namespace Reading

def useSwitch (r : Reading) (s : Switch) : Except Stop Reading :=
  if r.used.contains s && !s.mayRepeat then .error .usage
  else .ok { r with used := s :: r.used, pending := none }

def flag (r : Reading) (s : Switch) : Except Stop Reading := do
  let r ← r.useSwitch s
  match s with
  | .help => .error .help
  | .version => .error .version
  | .json => return { r with json := true }
  | .shrinkVars => return { r with options.shrinkVars := true }
  | .renamePrivate => return { r with options.renamePrivate := true }
  | .base62 => return { r with options.base62 := true }
  | _ => return r

def pathOf (s : String) : Except Stop String := if s.isEmpty then .error .usage else .ok s

def setting (r : Reading) (s : Switch) (value : String) : Except Stop Reading := do
  let r ← r.useSwitch s
  match s with
  | .workingDirectory => return { r with workingDirectory := some (← pathOf value) }
  | .output => return { r with output := some (← pathOf value) }
  | .header => return { r with header := some value }
  | .protect =>
    return { r with
      options := r.options.protect ((Text.splitOn ',' value.toList).map String.ofList) }
  | .radix =>
    match wordOf? value with
    | some n => return { r with options.radix := n }
    | none => .error .usage
  | _ => .error .usage

def name (r : Reading) (s : String) : Except Stop Reading := do
  let s ← pathOf s
  match r.verb with
  | some .pack => return { r with names := r.names ++ [s] }
  | some .build => if r.names.isEmpty then return { r with names := [s] } else .error .usage
  | some .help =>
    if r.names.isEmpty && Verb.all.any (·.name == s) then return { r with names := [s] }
    else .error .usage
  | _ => .error .usage

def letters (r : Reading) : List Char → Except Stop Reading
  | [] => .ok r
  | c :: cs =>
    match Switch.ofShort? r.verb c with
    | none => .error .usage
    | some s =>
      if s.takesValue then
        match cs with
        | [] => .ok { r with pending := some s }
        | '=' :: value => r.setting s (String.ofList value)
        | value => r.setting s (String.ofList value)
      else do (← r.flag s).letters cs

def long (r : Reading) (cs : List Char) : Except Stop Reading :=
  match Switch.ofLong? r.verb (String.ofList (cs.takeWhile (· != '='))),
      cs.dropWhile (· != '=') with
  | none, _ => .error .usage
  | some s, [] => if s.takesValue then .ok { r with pending := some s } else r.flag s
  | some s, _ :: value =>
    if s.takesValue then r.setting s (String.ofList value) else .error .usage

def next (r : Reading) (arg : String) : Except Stop Reading :=
  if r.namesOnly then
    if r.pending.isSome then .error .usage else r.name arg
  else
    match r.verb, Verb.all.find? (·.name == arg), r.pending with
    | none, some verb, none => .ok { r with verb := some verb, used := [] }
    | some .help, _, _ => r.name arg
    | _, _, pending =>
      match arg.toList, pending with
      | ['-', '-'], _ => .ok { r with namesOnly := true }
      | '-' :: _ :: _, some _ => .error .usage
      | '-' :: '-' :: cs, none => r.long cs
      | '-' :: c :: cs, none => r.letters (c :: cs)
      | _, some s => r.setting s arg
      | _, none => r.name arg

end Reading

inductive Task where
  | version
  | help
  | pack (inputs : List String) (output : String) (header : Option String) (options : Options)
  | build (manifest : Option String)
  deriving DecidableEq

structure Command where
  /-- Whether the answer is JSON. -/
  json : Bool := false
  workingDirectory : Option String := none
  task : Task
  deriving DecidableEq

def Reading.task (r : Reading) : Except Stop Task :=
  if r.pending.isSome then .error .usage
  else
    match r.verb, r.names, r.output with
    | none, _, _ | some .version, _, _ => .ok .version
    | some .help, _, _ => .ok .help
    | some .pack, n :: ns, some output => .ok (.pack (n :: ns) output r.header r.options)
    | some .pack, _, _ => .error .usage
    | some .build, names, _ => .ok (.build names.head?)

def Command.ofArgs? (args : List String) : Option Command :=
  match (do
    let r ← args.foldlM Reading.next {}
    return (⟨r.json, r.workingDirectory, ← r.task⟩ : Command)) with
  | .ok c => some c
  | .error .version => some ⟨false, none, .version⟩
  | .error .help => some ⟨false, none, .help⟩
  | .error .usage => none

end Minify.CommandLine
