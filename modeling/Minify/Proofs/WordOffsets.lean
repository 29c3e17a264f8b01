import Mathlib.Tactic.Common
import Minify.Proofs.ByteSize
import Minify.SourceMap

/-!
Places in texts as words of 32 bits.

Byte offsets, lines and columns are kept in words of 32 bits, and so are the indices of files. When
the texts are shorter than 2³² bytes, and what is given as such a word is one, no number of a layout
or of a map is cut.
-/

namespace Minify

open Text

/-- Every place in the text is a word. -/
def Text.FitsWord (s : String) : Prop := s.utf8ByteSize < UInt32.size

namespace Text

/-- A line and a column that are words. -/
structure Position.InWords (p : Position) : Prop where
  line : p.line < UInt32.size
  column : p.column < UInt32.size

/-- The lines of a text start at words, and are counted by one. -/
structure LineIndex.InWords (ix : LineIndex) : Prop where
  start : ∀ start ∈ ix.starts, start < UInt32.size
  length : ix.starts.length < UInt32.size

lemma le_of_mem_lineStarts {pos start : Nat} {cs : List Char} (h : start ∈ lineStarts pos cs) :
    start ≤ pos + byteSize cs := by
  have hreturn : ('\r' : Char).utf8Size = 1 := rfl
  have hfeed : ('\n' : Char).utf8Size = 1 := rfl
  fun_induction lineStarts pos cs with
  | case1 => cases h
  | case2 pos cs ih =>
    simp only [byteSize_cons, hreturn, hfeed]
    rcases List.mem_cons.mp h with rfl | h
    · omega
    · have := ih h
      omega
  | case3 pos c cs _ _ ih =>
    have := c.utf8Size_pos
    rw [byteSize_cons]
    rcases List.mem_cons.mp h with rfl | h
    · omega
    · have := ih h
      omega
  | case4 pos c cs _ _ ih =>
    have := ih h
    rw [byteSize_cons]
    omega

lemma length_lineStarts_le (pos : Nat) (cs : List Char) :
    (lineStarts pos cs).length ≤ cs.length := by
  fun_induction lineStarts pos cs <;> simp only [List.length_cons, List.length_nil] <;> omega

lemma FitsWord.inWords {s : String} (h : FitsWord s) : (LineIndex.ofString s).InWords := by
  rw [FitsWord, utf8ByteSize_eq] at h
  refine ⟨fun start hstart => ?_, ?_⟩
  · have := le_of_mem_lineStarts hstart
    omega
  · have hlines : (LineIndex.ofString s).starts.length ≤ s.toList.length :=
      length_lineStarts_le 0 s.toList
    have := length_le_byteSize s.toList
    omega

namespace LineIndex

lemma positionFrom_le (line start offset : Nat) (starts : List Nat) :
    (positionFrom line start offset starts).line ≤ line + starts.length ∧
      (positionFrom line start offset starts).column ≤ offset := by
  induction starts generalizing line start with
  | nil => exact ⟨le_rfl, Nat.sub_le _ _⟩
  | cons s starts ih =>
    rw [positionFrom]
    split
    · exact ⟨Nat.le_add_right _ _, Nat.sub_le _ _⟩
    · obtain ⟨hline, hcolumn⟩ := ih (line + 1) s
      rw [List.length_cons]
      exact ⟨by omega, hcolumn⟩

lemma InWords.position {ix : LineIndex} (h : ix.InWords) {offset : Nat}
    (ho : offset < UInt32.size) : (ix.position offset).InWords := by
  obtain ⟨hline, hcolumn⟩ := positionFrom_le 0 0 offset ix.starts
  have := h.length
  exact ⟨by rw [LineIndex.position]; omega, Nat.lt_of_le_of_lt hcolumn ho⟩

end LineIndex

end Text

namespace Layout

/-- A mapping between words. -/
structure Mapping.InWords (m : Mapping) : Prop where
  generated : m.generated < UInt32.size
  original : m.original < UInt32.size

end Layout

namespace SourceMap

/-- What a map is made from: texts whose places are words, and starts, offsets and lines that are
words themselves. -/
structure WordInputs (input output : String) (files : List File) (mappings : List Layout.Mapping)
    (lineOffset : Nat) : Prop where
  input : FitsWord input
  output : FitsWord output
  count : files.length < UInt32.size
  start : ∀ f ∈ files, f.start < UInt32.size
  mapping : ∀ m ∈ mappings, m.InWords
  lineOffset : lineOffset < UInt32.size

/-- The numbers of a map are words. -/
structure InWords (m : SourceMap) : Prop where
  entry : ∀ e ∈ m.entries, e.generated < UInt32.size ∧ e.offset < UInt32.size
  generatedAt : ∀ s ∈ m.segments, s.generatedAt.InWords
  source : ∀ s ∈ m.segments, s.source < UInt32.size
  originalAt : ∀ s ∈ m.segments, s.originalAt.InWords
  lineOffset : m.lineOffset < UInt32.size

lemma relative_inWords {start p : Position} (h : p.InWords) : (relative start p).InWords := by
  refine ⟨Nat.lt_of_le_of_lt (Nat.sub_le _ _) h.line, ?_⟩
  unfold relative
  dsimp only
  split
  · exact Nat.lt_of_le_of_lt (Nat.sub_le _ _) h.column
  · exact h.column

/-- **No number of a map is cut.** -/
theorem WordInputs.inWords {input output : String} {files : List File}
    {mappings : List Layout.Mapping} {lineOffset : Nat}
    (h : WordInputs input output files mappings lineOffset) (file : Option String) :
    (build input output files mappings file lineOffset).InWords := by
  -- what comes from one mapping
  have hresolved : ∀ x ∈ mappings.filterMap
      (resolveMapping (.ofString input) (.ofString output) (files.mergeSort File.le)),
      (x.1.generated < UInt32.size ∧ x.1.offset < UInt32.size) ∧ x.2.generatedAt.InWords ∧
        x.2.source < UInt32.size ∧ x.2.originalAt.InWords := by
    intro x hx
    obtain ⟨m, hm, hx⟩ := List.mem_filterMap.mp hx
    obtain ⟨i, f, -, hf, rfl⟩ := resolveMapping_eq_some_iff.mp hx
    have hgenerated := (h.mapping m hm).generated
    have horiginal := (h.mapping m hm).original
    have hi : i < files.length := by
      obtain ⟨hi, -⟩ := List.getElem?_eq_some_iff.mp hf
      rwa [List.length_mergeSort] at hi
    exact ⟨⟨hgenerated, Nat.lt_of_le_of_lt (Nat.sub_le _ _) horiginal⟩,
      h.output.inWords.position hgenerated, Nat.lt_trans hi h.count,
      relative_inWords (h.input.inWords.position horiginal)⟩
  have hsegment : ∀ s ∈ (build input output files mappings file lineOffset).segments,
      s.generatedAt.InWords ∧ s.source < UInt32.size ∧ s.originalAt.InWords := by
    intro s hs
    obtain ⟨x, hx, rfl⟩ := List.mem_map.mp (List.mem_mergeSort.mp hs)
    exact (hresolved x hx).2
  refine ⟨fun e he => ?_, fun s hs => (hsegment s hs).1, fun s hs => (hsegment s hs).2.1,
    fun s hs => (hsegment s hs).2.2, h.lineOffset⟩
  obtain ⟨x, hx, rfl⟩ := List.mem_map.mp (List.mem_mergeSort.mp he)
  exact (hresolved x hx).1

end SourceMap

end Minify
