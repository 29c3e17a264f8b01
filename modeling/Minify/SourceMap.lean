import Minify.Json
import Minify.Layout
import Minify.SourceMap.Vlq
import Minify.Text.LineIndex

/-!
Source maps, third revision: which byte of which file each piece of an output came from.

The input of an output is several files one after another. An entry ties a byte of the output to the
file whose part of the input holds its origin, and to the place in that file. A segment says the
same in lines and columns, which is what the text of the map holds.
-/

namespace Minify

open Text

namespace SourceMap

/-- A file by name, and the byte offset of the input where its part starts. -/
structure File where
  name : String
  start : Nat
  deriving DecidableEq, Repr

def File.le (a b : File) : Bool := a.start < b.start || (a.start == b.start && a.name ≤ b.name)

structure Entry where
  /-- The byte offset in the output. -/
  generated : Nat
  /-- The index of the file. -/
  source : Nat
  /-- The byte offset in the file. -/
  offset : Nat
  deriving DecidableEq, Repr

structure Segment where
  /-- The place in the output. -/
  generatedAt : Position
  /-- The index of the file. -/
  source : Nat
  /-- The place in the file. -/
  originalAt : Position
  deriving DecidableEq, Repr

/-- The number of items in front that start at an offset or before, less one: the index of the last
of them. -/
def lastNotPast? {α : Type} (start : α → Nat) (offset : Nat) (items : List α) : Option Nat :=
  match (items.takeWhile fun x => decide (start x ≤ offset)).length with
  | 0 => none
  | n + 1 => some n

theorem length_takeWhile_of_lastNotPast? {α : Type} {start : α → Nat} {offset i : Nat}
    {items : List α} (h : lastNotPast? start offset items = some i) :
    (items.takeWhile fun x => decide (start x ≤ offset)).length = i + 1 := by
  unfold lastNotPast? at h
  split at h
  · cases h
  · rename_i hn
    cases h
    exact hn

theorem start_le_of_lastNotPast? {α : Type} {start : α → Nat} {offset i : Nat} {items : List α}
    {x : α} (h : lastNotPast? start offset items = some i) (hx : items[i]? = some x) :
    start x ≤ offset := by
  have hlen := length_takeWhile_of_lastNotPast? h
  have hall := List.all_takeWhile (p := fun x => decide (start x ≤ offset)) (l := items)
  rw [← List.takeWhile_append_dropWhile (p := fun x => decide (start x ≤ offset)) (l := items),
    List.getElem?_append_left (by omega)] at hx
  exact of_decide_eq_true (List.all_eq_true.mp hall x (List.mem_of_getElem? hx))

/-- A position in the input as a position in a file that starts at `start`. -/
def relative (start p : Position) : Position :=
  { line := p.line - start.line
    column := if p.line = start.line then p.column - start.column else p.column }

/-- The entry and the segment of one mapping; none for what lies before the first file. -/
def resolveMapping (input output : LineIndex) (files : List File) (m : Layout.Mapping) :
    Option (Entry × Segment) := do
  let source ← lastNotPast? File.start m.original files
  let file ← files[source]?
  return ({ generated := m.generated, source := source, offset := m.original - file.start },
    { generatedAt := output.position m.generated
      source := source
      originalAt := relative (input.position file.start) (input.position m.original) })

theorem resolveMapping_eq_some_iff {input output : LineIndex} {files : List File}
    {m : Layout.Mapping} {y : Entry × Segment} :
    resolveMapping input output files m = some y ↔
      ∃ i f, lastNotPast? File.start m.original files = some i ∧ files[i]? = some f ∧
        y = (⟨m.generated, i, m.original - f.start⟩, ⟨output.position m.generated, i,
          relative (input.position f.start) (input.position m.original)⟩) := by
  unfold resolveMapping
  simp only [Option.bind_eq_bind, Option.bind_eq_some_iff, Option.pure_def, Option.some.injEq]
  constructor
  · rintro ⟨i, hi, f, hf, rfl⟩
    exact ⟨i, f, hi, hf, rfl⟩
  · rintro ⟨i, f, hi, hf, rfl⟩
    exact ⟨i, hi, f, hf, rfl⟩

/-- The last segment written: its place on its line and its original, which the next one counts
from. -/
structure Last where
  line : Nat
  column : Int
  source : Int
  originalLine : Int
  originalColumn : Int
  /-- A segment stands on the line already. -/
  continued : Bool
  deriving DecidableEq, Repr

def Last.start : Last := ⟨0, 0, 0, 0, 0, false⟩

def Segment.text (last : Last) (s : Segment) : List Char × Last :=
  let newLines := s.generatedAt.line - last.line
  let column := if newLines = 0 then last.column else 0
  (List.replicate newLines ';'
      ++ (if newLines = 0 && last.continued then [','] else [])
      ++ Vlq.encode (s.generatedAt.column - column)
      ++ Vlq.encode (s.source - last.source)
      ++ Vlq.encode (s.originalAt.line - last.originalLine)
      ++ Vlq.encode (s.originalAt.column - last.originalColumn),
    { line := max last.line s.generatedAt.line
      column := s.generatedAt.column
      source := s.source
      originalLine := s.originalAt.line
      originalColumn := s.originalAt.column
      continued := true })

def textFrom (last : Last) : List Segment → List Char
  | [] => []
  | s :: ss =>
    let r := s.text last
    r.1 ++ textFrom r.2 ss

end SourceMap

open SourceMap

structure SourceMap where
  /-- The name of the output. -/
  file : Option String
  sources : List String
  /-- In the order of the output. -/
  entries : List Entry
  segments : List Segment
  /-- How many lines stand in front of the output. -/
  lineOffset : Nat
  deriving DecidableEq, Repr

namespace SourceMap

/-- Ties the mappings of an output to the files that make up its input. -/
def build (input output : String) (files : List File) (mappings : List Layout.Mapping)
    (file : Option String) (lineOffset : Nat) : SourceMap :=
  let files := files.mergeSort File.le
  let resolved := mappings.filterMap (resolveMapping (.ofString input) (.ofString output) files)
  { file := file
    sources := files.map File.name
    entries := (resolved.map Prod.fst).mergeSort fun a b => a.generated ≤ b.generated
    segments := (resolved.map Prod.snd).mergeSort fun a b => a.generatedAt.le b.generatedAt
    lineOffset := lineOffset }

/-- The file and the place in it that a byte of the output came from. -/
def lookup (m : SourceMap) (offset : Nat) : Option (String × Nat) := do
  let i ← lastNotPast? Entry.generated offset m.entries
  let e ← m.entries[i]?
  return (← m.sources[e.source]?, e.offset)

def filename (m : SourceMap) : Option String := m.file.map fun f => f ++ ".map"

/-- The segments as text: lines end in semicolons, segments on a line are parted by commas, and
every number counts from the one before. -/
def mappings (m : SourceMap) : String :=
  String.ofList (List.replicate m.lineOffset ';' ++ textFrom .start m.segments)

def toJson (m : SourceMap) : Json :=
  .obj ([("version", Json.int 3)]
    ++ (m.file.map fun f => ("file", Json.str f)).toList
    ++ [("sources", .arr (m.sources.map .str)), ("names", .arr []), ("mappings", .str m.mappings)])

def render (m : SourceMap) : String := m.toJson.text

end SourceMap

end Minify
