import Mathlib
import Minify.Proofs.MapDecoding
import Minify.Proofs.TextBytes

/-!
Positions in the files of an input.

A line starts behind each line feed, and behind each carriage return without a line feed after it.
So the lines of an input that start behind a byte are those of the bytes from there on, even if the
input is cut between the two bytes of a line end or inside of a character. The position of a byte in
a file is worked out from two positions in the whole input, the byte's own and that of the start of
the file. It is the position that the byte has in the input from the start of the file on, and no
subtraction on the way goes below zero.
-/

namespace Minify

namespace Text

/-! ### Lines by bytes -/

/-- The offsets where the lines after the first start, for bytes that start at `pos`. -/
def byteLineStarts (pos : Nat) : List UInt8 → List Nat
  | [] => []
  | b :: bs =>
    if b = 10 ∨ (b = 13 ∧ bs.head? ≠ some 10) then (pos + 1) :: byteLineStarts (pos + 1) bs
    else byteLineStarts (pos + 1) bs

/-- The lines of some bytes. -/
def LineIndex.ofBytes (bs : List UInt8) : LineIndex := ⟨byteLineStarts 0 bs⟩

variable {pos : Nat} {bs : List UInt8} {cs : List Char} {c : Char}

lemma lt_of_mem_byteLineStarts {s : Nat} (h : s ∈ byteLineStarts pos bs) : pos < s := by
  induction bs generalizing pos with
  | nil => simp [byteLineStarts] at h
  | cons b bs ih =>
    rw [byteLineStarts] at h
    split at h
    · rcases List.mem_cons.mp h with rfl | h
      · exact Nat.lt_succ_self pos
      · exact Nat.lt_trans (Nat.lt_succ_self pos) (ih h)
    · exact Nat.lt_trans (Nat.lt_succ_self pos) (ih h)

lemma byteLineStarts_pairwise (pos : Nat) (bs : List UInt8) :
    (byteLineStarts pos bs).Pairwise (· < ·) := by
  induction bs generalizing pos with
  | nil => exact .nil
  | cons b bs ih =>
    rw [byteLineStarts]
    split
    · exact List.pairwise_cons.mpr ⟨fun s hs => lt_of_mem_byteLineStarts hs, ih (pos + 1)⟩
    · exact ih (pos + 1)

lemma byteLineStarts_add (pos k : Nat) (bs : List UInt8) :
    byteLineStarts (pos + k) bs = (byteLineStarts pos bs).map (· + k) := by
  induction bs generalizing pos with
  | nil => rfl
  | cons b bs ih =>
    rw [byteLineStarts, byteLineStarts, Nat.add_right_comm, ih]
    split <;> rfl

/-- **The lines behind a cut** are the lines of what is behind it. -/
lemma filter_byteLineStarts (pos k : Nat) (bs : List UInt8) :
    (byteLineStarts pos bs).filter (pos + k < ·) = byteLineStarts (pos + k) (bs.drop k) := by
  induction k generalizing pos bs with
  | zero => exact List.filter_eq_self.mpr fun s hs => decide_eq_true (lt_of_mem_byteLineStarts hs)
  | succ k ih =>
    cases bs with
    | nil => rfl
    | cons b bs =>
      rw [List.drop_succ_cons, ← Nat.add_assoc, Nat.add_right_comm, ← ih, byteLineStarts]
      split
      · exact List.filter_cons_of_neg (by simp only [decide_eq_true_eq]; omega)
      · rfl

/-- Bytes that are no line ends only move the lines behind them. -/
lemma byteLineStarts_append {front : List UInt8} (h : ∀ b ∈ front, b ≠ 10 ∧ b ≠ 13)
    (pos : Nat) (bs : List UInt8) :
    byteLineStarts pos (front ++ bs) = byteLineStarts (pos + front.length) bs := by
  induction front generalizing pos with
  | nil => rfl
  | cons b front ih =>
    have hb := h b List.mem_cons_self
    rw [List.cons_append, byteLineStarts, if_neg (by simp [hb]),
      ih fun b hb => h b (List.mem_cons_of_mem _ hb), List.length_cons, Nat.add_right_comm]
    rfl

lemma ne_of_mem_utf8EncodeChar (hn : c ≠ '\n') (hr : c ≠ '\r') {b : UInt8}
    (hb : b ∈ String.utf8EncodeChar c) : b ≠ 10 ∧ b ≠ 13 := by
  rw [Ne, Ne, ← UInt8.toNat_inj, ← UInt8.toNat_inj]
  by_cases h : c.toNat < 128
  · rw [utf8EncodeChar_of_ascii h, List.mem_singleton] at hb
    rw [Ne, ← Char.toNat_inj] at hn hr
    rw [hb, UInt8.toNat_ofNat_of_lt' (by simp only [UInt8.size]; omega)]
    exact ⟨hn, hr⟩
  · have hle := le_of_mem_utf8EncodeChar (Nat.not_lt.mp h) hb
    simp only [UInt8.reduceToNat]
    omega

lemma head?_utf8 (cs : List Char) : (utf8 cs).head? = some 10 ↔ cs.head? = some '\n' := by
  cases cs with
  | nil => simp
  | cons c cs =>
    obtain ⟨b, bs, hbs⟩ := List.exists_cons_of_ne_nil (String.utf8EncodeChar_ne_nil (c := c))
    have hb : b ∈ String.utf8EncodeChar c := hbs ▸ List.mem_cons_self
    rw [utf8_cons, hbs, List.cons_append, List.head?_cons, List.head?_cons, Option.some.injEq,
      Option.some.injEq]
    refine ⟨fun h => ?_, ?_⟩
    · by_contra hn
      by_cases hr : c = '\r'
      · subst hr
        cases hbs
        cases h
      · exact (ne_of_mem_utf8EncodeChar hn hr hb).1 h
    · rintro rfl
      exact (List.cons_eq_cons.mp hbs).1.symm

lemma lineStarts_eq_byteLineStarts (pos : Nat) (cs : List Char) :
    lineStarts pos cs = byteLineStarts pos (utf8 cs) := by
  have hfeed : String.utf8EncodeChar '\n' = [10] := rfl
  have hreturn : String.utf8EncodeChar '\r' = [13] := rfl
  fun_induction lineStarts pos cs with
  | case1 => rfl
  | case2 pos cs ih => simp [hfeed, hreturn, byteLineStarts, ih]
  | case3 pos c cs hcrlf hc ih =>
    rw [ih, utf8_cons]
    rcases Bool.or_eq_true_iff.mp hc with hn | hr
    · obtain rfl := of_decide_eq_true hn
      rw [hfeed, List.singleton_append, byteLineStarts, if_pos (.inl rfl)]
    · obtain rfl := of_decide_eq_true hr
      have hnext : (utf8 cs).head? ≠ some 10 := fun h => by
        obtain ⟨ds, hds⟩ := List.head?_eq_some_iff.mp ((head?_utf8 cs).mp h)
        exact hcrlf ds rfl hds
      rw [hreturn, List.singleton_append, byteLineStarts, if_pos (.inr ⟨rfl, hnext⟩)]
  | case4 pos c cs hcrlf hc ih =>
    have hc : c ≠ '\n' ∧ c ≠ '\r' := by simpa using hc
    rw [ih, utf8_cons, byteLineStarts_append fun b => ne_of_mem_utf8EncodeChar hc.1 hc.2,
      String.length_utf8EncodeChar]

lemma LineIndex.ofString_eq_ofBytes (s : String) :
    LineIndex.ofString s = LineIndex.ofBytes s.toUTF8.data.toList := by
  rw [data_toUTF8, ofString, ofBytes, lineStarts_eq_byteLineStarts]

/-! ### Positions behind a cut -/

namespace LineIndex

open SourceMap

variable {line start offset k : Nat} {starts : List Nat}

lemma positionFrom_cut (hstart : k ≤ start) (hstarts : ∀ s ∈ starts, k ≤ s) (line n offset : Nat) :
    positionFrom (line + n) start (k + offset) starts
      = ⟨line + (positionFrom n (start - k) offset (starts.map (· - k))).line,
        (positionFrom n (start - k) offset (starts.map (· - k))).column⟩ := by
  have hcolumn : k + offset - start = offset - (start - k) := by omega
  induction starts generalizing n start with
  | nil => rw [List.map_nil, positionFrom, positionFrom, hcolumn]
  | cons s starts ih =>
    have hs := hstarts s List.mem_cons_self
    have hlt : k + offset < s ↔ offset < s - k := by omega
    rw [List.map_cons, positionFrom, positionFrom]
    simp only [hlt, hcolumn]
    split
    · rfl
    · exact ih hs (fun s hs => hstarts s (List.mem_cons_of_mem _ hs)) (n + 1) (by omega)

/-- A position behind a cut, counted from the position of the cut. -/
lemma relative_positionFrom (hstart : start ≤ k) (hsorted : starts.Pairwise (· < ·))
    (line offset : Nat) :
    relative (positionFrom line start k starts) (positionFrom line start (k + offset) starts)
      = positionFrom 0 0 offset ((starts.filter (k < ·)).map (· - k)) := by
  have hsame {line start : Nat} (hstart : start ≤ k) :
      relative ⟨line, k - start⟩ ⟨line, k + offset - start⟩ = ⟨0, offset⟩ := by
    have hcolumn : k + offset - start - (k - start) = offset := by omega
    simp only [relative, Nat.sub_self, if_true, hcolumn]
  induction starts generalizing line start with
  | nil => exact hsame hstart
  | cons s starts ih =>
    obtain ⟨hlater, hsorted⟩ := List.pairwise_cons.mp hsorted
    by_cases hs : k < s
    · -- all lines from this one on start behind the cut
      have hall : (s :: starts).filter (k < ·) = s :: starts :=
        List.filter_eq_self.mpr fun x hx => decide_eq_true <| by
          rcases List.mem_cons.mp hx with rfl | hx
          · exact hs
          · exact Nat.lt_trans hs (hlater x hx)
      have hlt : k + offset < s ↔ offset < s - k := by omega
      rw [hall, List.map_cons, positionFrom, positionFrom, positionFrom, if_pos hs]
      simp only [hlt]
      split
      · exact hsame hstart
      · have hbehind := positionFrom_cut hs.le
          (fun x hx => (Nat.lt_trans hs (hlater x hx)).le) line 1 offset
        have hline : 1 ≤ (positionFrom 1 (s - k) offset (starts.map (· - k))).line :=
          line_le_positionFrom
        rw [hbehind]
        simp only [relative, Nat.add_sub_cancel_left]
        rw [if_neg (by omega)]
    · have hle : ¬k + offset < s := by omega
      rw [List.filter_cons_of_neg (by simpa using hs), positionFrom, positionFrom, if_neg hs,
        if_neg hle]
      exact ih (by omega) hsorted (line + 1)

/-- **The position of a byte in a file** is the one it has in the bytes from the start of the file
on. -/
lemma relative_position (bs : List UInt8) (start offset : Nat) :
    relative ((ofBytes bs).position start) ((ofBytes bs).position (start + offset))
      = (ofBytes (bs.drop start)).position offset := by
  have hcut : (byteLineStarts 0 (bs.drop start)).map (· + start)
      = (byteLineStarts 0 bs).filter (start < ·) := by
    rw [← byteLineStarts_add, ← filter_byteLineStarts, Nat.zero_add]
  have hback : ((byteLineStarts 0 bs).filter (start < ·)).map (· - start)
      = byteLineStarts 0 (bs.drop start) := by
    rw [← hcut, List.map_map]
    exact List.map_id'' (fun s => Nat.add_sub_cancel s start) _
  have hposition := relative_positionFrom (Nat.zero_le start) (byteLineStarts_pairwise 0 bs) 0
    offset
  rwa [hback] at hposition

end LineIndex

end Text

/-! ### Differences that are checked -/

def difference? (a b : Nat) : Option Nat := if b ≤ a then some (a - b) else none

lemma difference?_of_le {a b : Nat} (h : b ≤ a) : difference? a b = some (a - b) := if_pos h

namespace Text.LineIndex

def positionFrom? (line start offset : Nat) : List Nat → Option Position
  | [] => (difference? offset start).map fun column => ⟨line, column⟩
  | s :: starts =>
    if offset < s then (difference? offset start).map fun column => ⟨line, column⟩
    else positionFrom? (line + 1) s offset starts

def position? (ix : LineIndex) (offset : Nat) : Option Position :=
  positionFrom? 0 0 offset ix.starts

lemma positionFrom?_eq {line start offset : Nat} (starts : List Nat) (h : start ≤ offset) :
    positionFrom? line start offset starts = some (positionFrom line start offset starts) := by
  induction starts generalizing line start with
  | nil => rw [positionFrom?, difference?_of_le h]; rfl
  | cons s starts ih =>
    rw [positionFrom?, positionFrom]
    split
    · rw [difference?_of_le h]; rfl
    · exact ih (Nat.not_lt.mp ‹_›)

@[simp] lemma position?_eq (ix : LineIndex) (offset : Nat) :
    ix.position? offset = some (ix.position offset) :=
  positionFrom?_eq ix.starts (Nat.zero_le offset)

end Text.LineIndex

namespace SourceMap

open Text

/-- A position in a file that starts at `start`, with both differences checked. -/
def relative? (start p : Position) : Option Position :=
  (difference? p.line start.line).bind fun line =>
    (if p.line = start.line then difference? p.column start.column else some p.column).map
      fun column => ⟨line, column⟩

def resolveMapping? (input output : LineIndex) (files : List File) (m : Layout.Mapping) :
    Option (Option (Entry × Segment)) :=
  match lastNotPast? File.start m.original files with
  | none => some none
  | some source =>
    match files[source]? with
    | none => some none
    | some file => do
      let offset ← difference? m.original file.start
      let generatedAt ← output.position? m.generated
      let start ← input.position? file.start
      let original ← input.position? m.original
      let originalAt ← relative? start original
      return some (⟨m.generated, source, offset⟩, ⟨generatedAt, source, originalAt⟩)

/-- The map of an output, with all differences checked: none if one of them goes below zero. The
places where the files start are worked out first. -/
def build? (input output : String) (files : List File) (mappings : List Layout.Mapping)
    (file : Option String) (lineOffset : Nat) : Option SourceMap := do
  let files := files.mergeSort File.le
  let _ ← files.mapM fun f => (LineIndex.ofString input).position? f.start
  let resolved ← mappings.mapM (resolveMapping? (.ofString input) (.ofString output) files)
  return {
    file := file
    sources := files.map File.name
    entries := ((resolved.filterMap id).map Prod.fst).mergeSort fun a b => a.generated ≤ b.generated
    segments := ((resolved.filterMap id).map Prod.snd).mergeSort
      fun a b => a.generatedAt.le b.generatedAt
    lineOffset := lineOffset }

variable {input output : LineIndex} {files : List File} {m : Layout.Mapping}

lemma relative?_eq {start p : Position} (h : start.le p = true) :
    relative? start p = some (relative start p) := by
  simp only [Position.le, Bool.or_eq_true, Bool.and_eq_true, decide_eq_true_eq, beq_iff_eq] at h
  unfold relative? relative
  rw [difference?_of_le (by omega), Option.bind_some]
  by_cases hline : p.line = start.line
  · rw [if_pos hline, if_pos hline, difference?_of_le (by omega), Option.map_some]
  · rw [if_neg hline, if_neg hline, Option.map_some]

lemma resolveMapping?_eq (input output : LineIndex) (files : List File) (m : Layout.Mapping) :
    resolveMapping? input output files m = some (resolveMapping input output files m) := by
  unfold resolveMapping? resolveMapping
  cases hi : lastNotPast? File.start m.original files with
  | none => rfl
  | some i =>
    cases hf : files[i]? with
    | none => simp [hf]
    | some f =>
      have hle := start_le_of_lastNotPast? hi hf
      have hposition : (input.position f.start).le (input.position m.original) = true := by
        rw [LineIndex.le_position]
        exact decide_eq_true hle
      simp [hf, difference?_of_le hle, relative?_eq hposition]

/-- **No difference goes below zero** on the way to a map. -/
lemma build?_eq (input output : String) (files : List File) (mappings : List Layout.Mapping)
    (file : Option String) (lineOffset : Nat) :
    build? input output files mappings file lineOffset
      = some (build input output files mappings file lineOffset) := by
  have hstarts :
      ((files.mergeSort File.le).mapM fun f => (LineIndex.ofString input).position? f.start)
        = pure ((files.mergeSort File.le).map fun f =>
          (LineIndex.ofString input).position f.start) := by
    simp only [LineIndex.position?_eq]
    exact List.mapM_pure
  have hresolved : mappings.mapM (resolveMapping? (.ofString input) (.ofString output)
        (files.mergeSort File.le))
      = pure (mappings.map (resolveMapping (.ofString input) (.ofString output)
        (files.mergeSort File.le))) := by
    rw [funext (resolveMapping?_eq (.ofString input) (.ofString output) (files.mergeSort File.le))]
    exact List.mapM_pure
  unfold build?
  simp only [hstarts, hresolved, pure_bind, List.filterMap_map]
  rfl

/-- The segment of an entry: its place in the file is a place in the bytes of the input from the
start of the file on. -/
def Entry.segment? (input : List UInt8) (output : LineIndex) (files : List File) (e : Entry) :
    Option Segment :=
  files[e.source]?.map fun f =>
    { generatedAt := output.position e.generated
      source := e.source
      originalAt := (LineIndex.ofBytes (input.drop f.start)).position e.offset }

lemma segment?_of_resolveMapping {input : String} {x : Entry × Segment}
    (h : resolveMapping (.ofString input) output files m = some x) :
    x.1.segment? input.toUTF8.data.toList output files = some x.2 := by
  obtain ⟨hgenerated, hsource, f, hf, horiginal⟩ := of_resolveMapping h
  rw [Entry.originalAt, LineIndex.ofString_eq_ofBytes, LineIndex.relative_position] at horiginal
  rw [Entry.segment?, hf, Option.map_some, ← hgenerated, ← hsource, ← horiginal]

/-- The entries and their segments stand in the same order. -/
lemma map_segment?_build (input output : String) (files : List File)
    (mappings : List Layout.Mapping) (file : Option String) (lineOffset : Nat) :
    (build input output files mappings file lineOffset).entries.map
        (Entry.segment? input.toUTF8.data.toList (.ofString output) (files.mergeSort File.le))
      = (build input output files mappings file lineOffset).segments.map some := by
  obtain ⟨xs, hentries, hsegments, hxs⟩ :=
    exists_pairs input output files mappings file lineOffset
  rw [hentries, hsegments, List.map_map, List.map_map]
  refine List.map_congr_left fun x hx => ?_
  obtain ⟨_, hm⟩ := hxs x hx
  exact segment?_of_resolveMapping hm

/-- **Original positions lie in the files.** No difference goes below zero on the way to a map. Each
entry has its segment, in the same order, and the position that the segment gives in the file is the
one that the entry's byte has in the input from the start of the file on, wherever that cuts the
input; the lines of a text are those of its bytes. Places are words of 32 bits here, and no number
is cut. -/
theorem original_positions {input output : String} {files : List File}
    {mappings : List Layout.Mapping} {lineOffset : Nat}
    (h : WordInputs input output files mappings lineOffset) (file : Option String) :
    build? input output files mappings file lineOffset
        = some (build input output files mappings file lineOffset) ∧
      (build input output files mappings file lineOffset).InWords ∧
      (LineIndex.ofString input).InWords ∧ (LineIndex.ofString output).InWords ∧
      (build input output files mappings file lineOffset).entries.map
          (Entry.segment? input.toUTF8.data.toList (.ofString output) (files.mergeSort File.le))
        = (build input output files mappings file lineOffset).segments.map some ∧
      ∀ s : String, LineIndex.ofString s = LineIndex.ofBytes s.toUTF8.data.toList :=
  ⟨build?_eq input output files mappings file lineOffset, h.inWords file, h.input.inWords,
    h.output.inWords, map_segment?_build input output files mappings file lineOffset,
    LineIndex.ofString_eq_ofBytes⟩

/-- Files that start inside of a line end, inside of a character, and past the end. -/
theorem original_positions_cut :
    let files : List File := [⟨"f", 2⟩, ⟨"g", 4⟩, ⟨"h", 9⟩]
    let mappings : List Layout.Mapping := [⟨0, 3⟩, ⟨1, 6⟩, ⟨2, 11⟩]
    let m := build "a\r\né\rb" "x" files mappings none 0
    WordInputs "a\r\né\rb" "x" files mappings 0 ∧
      m.segments.map Segment.originalAt = [⟨1, 0⟩, ⟨1, 0⟩, ⟨0, 2⟩] ∧
      build? "a\r\né\rb" "x" files mappings none 0 = some m ∧
      m.entries.map (Entry.segment? "a\r\né\rb".toUTF8.data.toList (.ofString "x")
        (files.mergeSort File.le)) = m.segments.map some := by
  intro files mappings m
  have h : WordInputs "a\r\né\rb" "x" files mappings 0 := {
    input := show "a\r\né\rb".utf8ByteSize < UInt32.size by decide
    output := show "x".utf8ByteSize < UInt32.size by decide
    count := by decide
    start := by decide
    mapping := List.forall_mem_cons.mpr ⟨⟨by decide, by decide⟩, List.forall_mem_cons.mpr
      ⟨⟨by decide, by decide⟩, List.forall_mem_cons.mpr ⟨⟨by decide, by decide⟩, nofun⟩⟩⟩
    lineOffset := by decide }
  obtain ⟨hbuild, -, -, -, hsegments, -⟩ := original_positions h none
  exact ⟨h, by cbv, hbuild, hsegments⟩

end SourceMap

end Minify
