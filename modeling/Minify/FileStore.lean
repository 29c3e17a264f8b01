import Minify.Path

/-!
Reading and writing files. A store is whatever can do the steps below, each of which happens or
fails. A file is saved through a draft beside it, so that no one sees a part of it.
-/

namespace Minify

inductive FileFault where
  | notFound
  | notDirectory
  | isDirectory
  /-- The bytes of the file are not UTF-8. -/
  | notText
  /-- No file can have the path. -/
  | malformedPath
  | other (reason : String)
  deriving DecidableEq, Repr

namespace FileFault

def message : FileFault → String
  | notFound => "No such file or directory (os error 2)"
  | notDirectory => "Not a directory (os error 20)"
  | isDirectory => "Is a directory (os error 21)"
  | notText => "stream did not contain valid UTF-8"
  | malformedPath => "file name contained an unexpected NUL byte"
  | other reason => reason

end FileFault

class FileStore (m : Type → Type) where
  /-- The bytes of a file. -/
  read : String → ExceptT FileFault m ByteArray
  /-- Makes a directory and those above it, as far as they are missing. -/
  createDirs : String → ExceptT FileFault m Unit
  /-- Writes a whole file, new or not. -/
  write : String → String → ExceptT FileFault m Unit
  /-- Moves a file to another path, in place of a file there. -/
  rename : String → String → ExceptT FileFault m Unit
  remove : String → ExceptT FileFault m Unit
  /-- What tells the drafts of this run from those of others. -/
  mark : m String

namespace FileStore

variable {m : Type → Type} [Monad m] [FileStore m]

/-- The text in a file. -/
def readText (p : String) : ExceptT FileFault m String := do
  let bytes ← read p
  match String.fromUTF8? bytes with
  | some s => return s
  | none => throw .notText

def folder (p : String) : String :=
  match Path.parent? p with
  | some dir => if dir.isEmpty then "." else dir
  | none => "."

def draft (mark p : String) : String :=
  Path.join (folder p) ("." ++ (Path.fileName? p).getD "bundle" ++ ".tmp." ++ mark)

/-- Saves a text in a file: directories that are missing are made, and the text is written to a
draft, which then takes the place of the file. A draft that cannot is removed. -/
def save (p text : String) : ExceptT FileFault m Unit := do
  createDirs (folder p)
  let d := draft (← (mark : m String)) p
  write d text
  try rename d p
  catch fault =>
    let _ ← ExceptT.lift (remove d : ExceptT FileFault m Unit).run
    throw fault

end FileStore

end Minify
