import Minify.Json.Codec

/-!
The options of packing a script, and their form in JSON: an object with a field for each, or an
array of them in order. What is missing has its default.

What prints and reads JSON is a parameter here, as all that matters of it is what it promises.
-/

namespace Minify

structure Options where
  /-- Variables get short names. -/
  shrinkVars : Bool := false
  /-- Private names get numbers. -/
  renamePrivate : Bool := false
  /-- The result is packed with a dictionary. -/
  base62 : Bool := false
  /-- Names that are neither changed nor given. -/
  protectedNames : List String := []
  /-- The files that make up the script, and the byte offsets where they start. -/
  sourceFiles : Table UInt32 := .empty
  /-- The name of the output, after which its map is named. -/
  outputFile : Option String := none
  /-- How many lines will stand in front of the output. -/
  lineOffset : UInt32 := 0
  /-- What private names begin with. -/
  privateMark : String := "_"
  /-- The radix of the numerals that stand for words. -/
  radix : UInt32 := 62
  /-- What is a word. -/
  wordPattern : String := "\\w+"
  deriving DecidableEq

namespace Options

def protect (o : Options) (names : List String) : Options :=
  { o with protectedNames := o.protectedNames ++ names }

def addSourceFile (o : Options) (name : String) (start : UInt32) : Options :=
  { o with sourceFiles := o.sourceFiles.insert name start }

def fieldNames : List String := [
  "shrink_vars", "private", "base62", "protected_names", "source_files", "output_file",
  "line_offset", "private_prefix", "radix", "word_pattern"]

def fields (o : Options) : List (String × Json) :=
  fieldNames.zip [
    .bool o.shrinkVars, .bool o.renamePrivate, .bool o.base62,
    .arr (o.protectedNames.map .str),
    .obj (o.sourceFiles.entries.map fun e => (e.1, .int e.2.toNat)),
    (o.outputFile.map Json.str).getD .null,
    .int o.lineOffset.toNat, .str o.privateMark, .int o.radix.toNat, .str o.wordPattern]

def toJson (o : Options) : Json := .obj o.fields

end Options

namespace Options

open Json (Codec)

/-- The name that an item stands for: a text as it is, and any other value as its text. -/
def nameOf (c : Codec) : Json → String
  | .str s => s
  | v => c.print v

def names? (c : Codec) (v : Json) : Option (List String) :=
  (c.list? c.value? v).map fun items => items.map (nameOf c)

def read? (c : Codec) (v : Json) : Option Options := do
  let d : Options := {}
  match ← c.record? fieldNames v with
  | [shrinkVars, renamePrivate, base62, protectedNames, sourceFiles, outputFile, lineOffset,
      privateMark, radix, wordPattern] =>
    return {
      shrinkVars := ← c.field? d.shrinkVars c.bool? shrinkVars
      renamePrivate := ← c.field? d.renamePrivate c.bool? renamePrivate
      base62 := ← c.field? d.base62 c.bool? base62
      protectedNames := ← c.field? d.protectedNames (names? c) protectedNames
      sourceFiles := ← c.field? d.sourceFiles c.table? sourceFiles
      outputFile := ← c.field? d.outputFile c.nullable? outputFile
      lineOffset := ← c.field? d.lineOffset c.word? lineOffset
      privateMark := ← c.field? d.privateMark c.text? privateMark
      radix := ← c.field? d.radix c.word? radix
      wordPattern := ← c.field? d.wordPattern c.text? wordPattern }
  | _ => none

/-- Options out of JSON, with `level` containers around them: two more stand around a name. -/
def ofJson? (level : Nat) (v : Json) : Option Options := read? (Json.codec (level + 2)) v

end Options

end Minify
