import Minify.FileStore

/-!
A disk held in memory: what lies at each place, a place being the names that lead there from the
root. Names are followed one after the other, and two dots lead back up.
-/

namespace Minify

abbrev Place := List String

inductive Disk.Entry where
  | directory
  | file (bytes : ByteArray)

structure Disk where
  /-- Where paths start that do not start at the root. -/
  workingDirectory : Place
  entries : List (Place × Disk.Entry)

namespace Disk

/-- What lies at a place; at the root there is always a directory. -/
def entry? (d : Disk) (place : Place) : Option Entry :=
  if place = [] then some .directory else d.entries.lookup place

def isDirectory (d : Disk) (place : Place) : Bool :=
  match d.entry? place with
  | some .directory => true
  | _ => false

def erase (d : Disk) (place : Place) : Disk :=
  { d with entries := d.entries.filter fun e => e.1 != place }

def put (d : Disk) (place : Place) (e : Entry) : Disk :=
  { d.erase place with entries := (place, e) :: (d.erase place).entries }

def ofDirectory (place : Place) : Disk :=
  ⟨place, (List.range place.length).map fun n => (place.take (n + 1), .directory)⟩

def isBlank (name : String) : Bool := Path.isBlank name.toList

/-- Follows names from a place. The place reached need not hold anything. -/
def follow (d : Disk) (place : Place) : List String → Except FileFault Place
  | [] => .ok place
  | name :: names =>
    match d.entry? place with
    | none => .error .notFound
    | some (.file _) => .error .notDirectory
    | some .directory =>
      if isBlank name then d.follow place names
      else if name = ".." then d.follow place.dropLast names
      else d.follow (place ++ [name]) names

/-- Follows names from a place, and makes the directories that are missing. -/
def makeDirs (d : Disk) (place : Place) : List String → Except FileFault Unit × Disk
  | [] =>
    match d.entry? place with
    | none => (.error .notFound, d)
    | some (.file _) => (.error .notDirectory, d)
    | some .directory => (.ok (), d)
  | name :: names =>
    match d.entry? place with
    | none => (.error .notFound, d)
    | some (.file _) => (.error .notDirectory, d)
    | some .directory =>
      if isBlank name then d.makeDirs place names
      else if name = ".." then d.makeDirs place.dropLast names
      else
        let next := place ++ [name]
        (if (d.entry? next).isNone then d.put next .directory else d).makeDirs next names

def route (d : Disk) (p : String) : Except FileFault (Place × List String) :=
  if p.isEmpty then .error .notFound
  else if p.toList.contains '\x00' then .error .malformedPath
  else .ok (if Path.isAbsolute p then [] else d.workingDirectory,
    (Path.names p.toList).map String.ofList)

def place (d : Disk) (p : String) : Except FileFault Place := do
  let (start, names) ← d.route p
  d.follow start names

/-- The place that a path leads to, for a file that may be new. -/
def filePlace (d : Disk) (p : String) : Except FileFault Place := do
  let (start, names) ← d.route p
  let folder ← d.follow start names.dropLast
  match d.entry? folder, names.getLast? with
  | some .directory, some name =>
    let place := folder ++ [name]
    if isBlank name || name == ".." || d.isDirectory place then
      .error .isDirectory
    else .ok place
  | some (.file _), _ => .error .notDirectory
  | _, _ => .error .notFound

def file (d : Disk) (p : String) : Except FileFault (Place × ByteArray) := do
  let place ← d.place p
  match d.entry? place with
  | none => .error .notFound
  | some .directory => .error .isDirectory
  | some (.file bytes) => .ok (place, bytes)

def read (d : Disk) (p : String) : Except FileFault ByteArray := (d.file p).map Prod.snd

def createDirs (d : Disk) (p : String) : Except FileFault Unit × Disk :=
  match d.route p with
  | .error fault => (.error fault, d)
  | .ok (start, names) => d.makeDirs start names

def write (d : Disk) (p : String) (bytes : ByteArray) : Except FileFault Disk := do
  return d.put (← d.filePlace p) (.file bytes)

def rename (d : Disk) (p q : String) : Except FileFault Disk := do
  let (source, bytes) ← d.file p
  let target ← d.filePlace q
  return (d.erase source).put target (.file bytes)

def remove (d : Disk) (p : String) : Except FileFault Disk := do
  return d.erase (← d.file p).1

/-- The files under the working directory, by their paths from there. -/
def files (d : Disk) : List (String × ByteArray) :=
  d.entries.filterMap fun (place, e) =>
    match e with
    | .file bytes =>
      if d.workingDirectory.isPrefixOf place then
        some ("/".intercalate (place.drop d.workingDirectory.length), bytes)
      else none
    | .directory => none

def change (step : Disk → Except FileFault Disk) : ExceptT FileFault (StateM Disk) Unit :=
  ExceptT.mk fun d =>
    match step d with
    | .ok d => (.ok (), d)
    | .error fault => (.error fault, d)

instance : FileStore (StateM Disk) where
  read p := ExceptT.mk fun d => (d.read p, d)
  createDirs p := ExceptT.mk fun d => d.createDirs p
  write p text := change fun d => d.write p text.toUTF8
  rename p q := change fun d => d.rename p q
  remove p := change fun d => d.remove p
  mark := pure "0"

end Disk

end Minify
