import Minify.CommandLine.Run

/-!
The program: the command line over the files of the machine.
-/

namespace Minify.Main

def fault : IO.Error → FileFault
  | .noFileOrDirectory .. => .notFound
  | e => .other (toString e)

def attempt {α : Type} (action : IO α) : ExceptT FileFault IO α :=
  ExceptT.mk do
    try return .ok (← action)
    catch e => return .error (fault e)

instance : FileStore IO where
  read p := attempt (IO.FS.readBinFile p)
  createDirs p := attempt (IO.FS.createDirAll p)
  write p text := attempt (IO.FS.writeFile p text)
  rename p q := attempt (IO.FS.rename p q)
  remove p := attempt (IO.FS.removeFile p)
  mark := do return toString (← IO.monoNanosNow)

end Minify.Main

def main (args : List String) : IO UInt32 := do
  let here ← IO.currentDir
  let outcome ← Minify.CommandLine.run (IO.monoMsNow : IO Nat) here.toString args
  outcome.output.forM IO.println
  outcome.errors.forM IO.eprintln
  return outcome.exit
