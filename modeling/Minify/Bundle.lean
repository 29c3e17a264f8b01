import Minify.FileStore
import Minify.Pack

/-!
Bundles: scripts that are joined, packed and saved as one, with a map beside it. Every script is
followed by a line feed, and the map names each by its path.
-/

namespace Minify

structure Bundle where
  /-- The paths of the scripts, in order. -/
  inputs : List String := []
  /-- The path of the result. -/
  output : String := ""
  /-- What stands above the packed code. -/
  header : Option String := none
  options : Options := {}
  deriving DecidableEq

inductive BundleError where
  | read (path : String) (fault : FileFault)
  | write (path : String) (fault : FileFault)
  | manifest (path : String)
  /-- Too many bytes come together before the file. -/
  | tooLarge (path : String) (bytes : Nat)
  | pack (path : String) (e : PackError)
  deriving DecidableEq, Repr

namespace BundleError

def code : BundleError → String
  | read .. => "READ_ERROR"
  | write .. => "WRITE_ERROR"
  | manifest _ => "MANIFEST_ERROR"
  | tooLarge .. => "INPUT_TOO_LARGE"
  | pack _ e => e.code

def path : BundleError → String
  | read p _ | write p _ | manifest p | tooLarge p _ | pack p _ => p

def offset? : BundleError → Option Nat
  | pack _ e => e.offset?
  | _ => none

def message : BundleError → String
  | read p fault => "failed to read " ++ p ++ ": " ++ fault.message
  | write p fault => "failed to write " ++ p ++ ": " ++ fault.message
  | manifest p => "invalid manifest " ++ p
  | tooLarge p bytes => "input too large: " ++ toString bytes ++ " bytes joined at " ++ p
  | pack p e => "failed to pack " ++ p ++ ": " ++ e.message

end BundleError

structure BundleReport where
  output : String
  map : String
  inputs : Nat
  bytesIn : Nat
  bytesOut : Nat
  deriving DecidableEq, Repr

namespace BundleReport

def toJson (r : BundleReport) : Json :=
  .obj [("output", .str r.output), ("map", .str r.map), ("inputs", .int r.inputs),
    ("bytes_in", .int r.bytesIn), ("bytes_out", .int r.bytesOut)]

end BundleReport

/-- Scripts joined so far, and where each starts. -/
structure Joined where
  code : String := ""
  starts : List (String × UInt32) := []
  deriving DecidableEq

namespace Joined

def stop? (j : Joined) : Option UInt32 :=
  if j.code.utf8ByteSize < UInt32.size then some (UInt32.ofNat j.code.utf8ByteSize) else none

def add (j : Joined) (path : String) (start : UInt32) (script : String) : Joined :=
  ⟨j.code ++ script ++ "\n", j.starts ++ [(path, start)]⟩

end Joined

namespace Bundle

def heading (b : Bundle) : String := (b.header.map (· ++ "\n")).getD ""

def mapPath (b : Bundle) : String := b.output ++ ".map"

def packOptions (b : Bundle) (j : Joined) : Options :=
  { j.starts.foldl (fun o s => o.addSourceFile s.1 s.2) b.options with
    outputFile := some b.output
    lineOffset := (Text.countLines b.heading.toList).toUInt32 }

def packed (b : Bundle) (j : Joined) : Except BundleError Packed :=
  (Minify.pack .empty (b.packOptions j) j.code).mapError (.pack b.output)

variable {m : Type → Type} [Monad m] [FileStore m]

def joinNext (j : Joined) (path : String) : ExceptT BundleError m Joined :=
  match j.stop? with
  | none => throw (.tooLarge path j.code.utf8ByteSize)
  | some start => do
    let script ← (FileStore.readText path).adapt (.read path)
    return j.add path start script

def join (paths : List String) : ExceptT BundleError m Joined := paths.foldlM joinNext {}

def save (path text : String) : ExceptT BundleError m Unit :=
  (FileStore.save path text).adapt (.write path)

/-- Joins, packs and saves a bundle. -/
def build (b : Bundle) : ExceptT BundleError m BundleReport := do
  let j ← join b.inputs
  if j.stop?.isNone then throw (.tooLarge b.output j.code.utf8ByteSize)
  let packed ← ExceptT.mk (pure (b.packed j))
  let text := b.heading ++ packed.code
  save b.output text
  let map := packed.sourceMap.filename.getD b.mapPath
  save map packed.sourceMap.render
  return {
    output := b.output
    map := map
    inputs := b.inputs.length
    bytesIn := j.code.utf8ByteSize
    bytesOut := text.utf8ByteSize }

/-- Builds bundles in order, up to the first that fails. -/
def buildAll (bs : List Bundle) : ExceptT BundleError m (List BundleReport) := bs.mapM build

end Bundle

end Minify
