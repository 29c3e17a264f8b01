import Mathlib
import Minify.Bundle
import Minify.Proofs.FilePositions

/-!
Lines behind a heading.

Counting the line ends of a text and collecting the places where its lines start are two passes over
it that find the same ends. The heading of a bundle is empty or ends with a line feed, so the code
behind it starts a line: no line end is made of a byte of each, even if the header ends with a
carriage return. So every byte of the code keeps its column, and moves down by as many lines as the
heading has line ends.
-/

namespace Minify

namespace Text

variable {line start offset pos : Nat} {front back : List Nat}

lemma length_lineStarts (pos : Nat) (cs : List Char) :
    (lineStarts pos cs).length = countLines cs := by
  fun_induction lineStarts pos cs with
  | case1 => rfl
  | case2 pos cs ih => rw [List.length_cons, ih, countLines]
  | case3 pos c cs hcrlf hc ih =>
    rw [List.length_cons, ih, countLines, if_pos hc]
    exact hcrlf
  | case4 pos c cs hcrlf hc ih =>
    rw [ih, countLines, if_neg hc]
    exact hcrlf

lemma countLines_eq (s : String) : countLines s.toList = (LineIndex.ofString s).count - 1 := by
  rw [LineIndex.count, Nat.add_sub_cancel, LineIndex.ofString, length_lineStarts]

/-! ### A text behind a line feed -/

lemma byteLineStarts_feed (pos : Nat) (bs cs : List UInt8) :
    byteLineStarts pos (bs ++ 10 :: cs)
      = byteLineStarts pos (bs ++ [10]) ++ byteLineStarts (pos + bs.length + 1) cs := by
  induction bs generalizing pos with
  | nil => rfl
  | cons b bs ih =>
    have hhead : (bs ++ 10 :: cs).head? = (bs ++ [10]).head? := by cases bs <;> rfl
    have hpos : pos + (b :: bs).length + 1 = pos + 1 + bs.length + 1 := by
      rw [List.length_cons]
      omega
    rw [List.cons_append, List.cons_append, byteLineStarts, byteLineStarts, hhead, ih, hpos]
    split <;> rfl

lemma exists_byteLineStarts_feed (pos : Nat) (bs : List UInt8) :
    ∃ front, byteLineStarts pos (bs ++ [10]) = front ++ [pos + bs.length + 1] ∧
      ∀ s ∈ front, s ≤ pos + bs.length + 1 := by
  induction bs generalizing pos with
  | nil => exact ⟨[], rfl, nofun⟩
  | cons b bs ih =>
    have hpos : pos + (b :: bs).length + 1 = pos + 1 + bs.length + 1 := by
      rw [List.length_cons]
      omega
    obtain ⟨front, hfront, hle⟩ := ih (pos + 1)
    rw [List.cons_append, byteLineStarts, hfront, hpos]
    split
    · exact ⟨(pos + 1) :: front, rfl, List.forall_mem_cons.mpr ⟨by omega, hle⟩⟩
    · exact ⟨front, rfl, hle⟩

namespace LineIndex

/-- An offset that all of the first lines start at or before. -/
lemma positionFrom_append (h : ∀ s ∈ front, s ≤ offset) (line start : Nat) :
    positionFrom line start offset (front ++ back)
      = positionFrom (line + front.length) (front.getLast?.getD start) offset back := by
  induction front generalizing line start with
  | nil => rfl
  | cons s front ih =>
    obtain ⟨hs, hrest⟩ := List.forall_mem_cons.mp h
    have hline : line + (s :: front).length = line + 1 + front.length := by
      rw [List.length_cons]
      omega
    have hlast : (s :: front).getLast?.getD start = front.getLast?.getD s := by
      rw [List.getLast?_cons, Option.getD_some]
    rw [List.cons_append, positionFrom, if_neg (Nat.not_lt.mpr hs), ih hrest, hline, hlast]

lemma positionFrom_start (h : ∀ s ∈ back, start < s) (line : Nat) :
    positionFrom line start start back = ⟨line, 0⟩ := by
  cases back with
  | nil => rw [positionFrom, Nat.sub_self]
  | cons s back => rw [positionFrom, if_pos (h s List.mem_cons_self), Nat.sub_self]

/-- Where a text starts that stands behind a line feed. -/
lemma position_feed (bs cs : List UInt8) :
    (ofBytes (bs ++ 10 :: cs)).position (bs.length + 1)
      = ⟨(byteLineStarts 0 (bs ++ [10])).length, 0⟩ := by
  obtain ⟨front, hfront, hle⟩ := exists_byteLineStarts_feed 0 bs
  have hall : ∀ s ∈ byteLineStarts 0 (bs ++ [10]), s ≤ bs.length + 1 := by
    intro s hs
    rw [hfront] at hs
    rcases List.mem_append.mp hs with hs | hs
    · exact Nat.zero_add bs.length ▸ hle s hs
    · rw [List.mem_singleton.mp hs, Nat.zero_add]
  have hlast : (byteLineStarts 0 (bs ++ [10])).getLast?.getD 0 = bs.length + 1 := by
    rw [hfront, List.getLast?_append, List.getLast?_singleton, Option.some_or, Option.getD_some,
      Nat.zero_add]
  rw [position, ofBytes, byteLineStarts_feed, positionFrom_append hall, hlast, Nat.zero_add,
    Nat.zero_add]
  exact positionFrom_start (fun s hs => lt_of_mem_byteLineStarts hs) _

end LineIndex

end Text

namespace SourceMap

open Text

/-- A position that is counted from the start of a line. -/
lemma eq_of_relative {n : Nat} {p q : Position} (hle : n ≤ p.line)
    (h : relative ⟨n, 0⟩ p = q) : p = ⟨n + q.line, q.column⟩ := by
  subst h
  have hline : n + (p.line - n) = p.line := by omega
  simp only [relative, Nat.sub_zero, ite_self, hline]

end SourceMap

namespace Text.LineIndex

open SourceMap

/-- **A text behind a line feed** keeps its columns and moves down by the lines in front of it. -/
lemma position_behind_feed (bs cs : List UInt8) (g : Nat) :
    (ofBytes (bs ++ 10 :: cs)).position (bs.length + 1 + g)
      = ⟨(byteLineStarts 0 (bs ++ [10])).length + ((ofBytes cs).position g).line,
        ((ofBytes cs).position g).column⟩ := by
  have hle := Position.line_le <| (le_position (ofBytes (bs ++ 10 :: cs)) (bs.length + 1)
    (bs.length + 1 + g)).trans (decide_eq_true (Nat.le_add_right _ g))
  have hrelative := relative_position (bs ++ 10 :: cs) (bs.length + 1) g
  have hdrop : (bs ++ 10 :: cs).drop (bs.length + 1) = cs := by
    rw [List.drop_append, List.drop_eq_nil_of_le (Nat.le_succ _), Nat.add_sub_cancel_left]
    rfl
  rw [position_feed] at hle hrelative
  rw [hdrop] at hrelative
  exact eq_of_relative hle hrelative

end Text.LineIndex

namespace Bundle

open Text

lemma heading_cases (b : Bundle) : b.heading = "" ∨ ∃ s, b.heading = s ++ "\n" := by
  unfold heading
  cases b.header with
  | none => exact .inl rfl
  | some s => exact .inr ⟨s, rfl⟩

/-- A byte of the code, in the text of a bundle and in the code alone. -/
lemma position_heading (b : Bundle) (code : String) (g : Nat) :
    (LineIndex.ofString (b.heading ++ code)).position (b.heading.utf8ByteSize + g)
      = ⟨countLines b.heading.toList + ((LineIndex.ofString code).position g).line,
        ((LineIndex.ofString code).position g).column⟩ := by
  rcases b.heading_cases with h | ⟨s, h⟩
  · simp [h, countLines]
  · have hbytes : (s ++ "\n").toUTF8.data.toList = s.toUTF8.data.toList ++ [10] := by
      rw [data_toUTF8, data_toUTF8, String.toList_append, utf8_append]
      rfl
    have hcode : (s ++ "\n" ++ code).toUTF8.data.toList
        = s.toUTF8.data.toList ++ 10 :: code.toUTF8.data.toList := by
      rw [data_toUTF8, data_toUTF8, data_toUTF8, String.toList_append, String.toList_append,
        utf8_append, utf8_append, List.append_assoc]
      rfl
    have hcount : countLines (s ++ "\n").toList
        = (byteLineStarts 0 (s.toUTF8.data.toList ++ [10])).length := by
      rw [← length_lineStarts 0, lineStarts_eq_byteLineStarts, ← data_toUTF8, hbytes]
    have hsize : (s ++ "\n").utf8ByteSize = s.toUTF8.data.toList.length + 1 := by
      rw [String.utf8ByteSize_append]
      rfl
    rw [h, LineIndex.ofString_eq_ofBytes, LineIndex.ofString_eq_ofBytes, hcode, hcount, hsize]
    exact LineIndex.position_behind_feed _ _ g

/-- **Lines behind a heading.** In the text of a bundle, as long as places in it are words of 32
bits, each byte of the packed code stands as many lines further down as its heading has line ends,
and in the same column as in the code alone, and the packer is told of just these lines. And the
number of line ends of any text is one less than that of its lines, and a word if places in the text
are. -/
theorem heading_shifts_lines {b : Bundle} {code : String} {g : Nat}
    (hfit : FitsWord (b.heading ++ code)) (hg : g ≤ code.utf8ByteSize) :
    (LineIndex.ofString (b.heading ++ code)).InWords ∧ (LineIndex.ofString code).InWords ∧
      (LineIndex.ofString (b.heading ++ code)).position (b.heading.utf8ByteSize + g)
        = ⟨countLines b.heading.toList + ((LineIndex.ofString code).position g).line,
          ((LineIndex.ofString code).position g).column⟩ ∧
      ((LineIndex.ofString (b.heading ++ code)).position (b.heading.utf8ByteSize + g)).InWords ∧
      (∀ j, (b.packOptions j).lineOffset.toNat = countLines b.heading.toList) ∧
      ∀ s : String, countLines s.toList = (LineIndex.ofString s).count - 1 ∧
        (FitsWord s → countLines s.toList < UInt32.size) := by
  have hsize : b.heading.utf8ByteSize + code.utf8ByteSize < UInt32.size := by
    rw [← String.utf8ByteSize_append]
    exact hfit
  have hheading : FitsWord b.heading := Nat.lt_of_le_of_lt (Nat.le_add_right _ _) hsize
  have hcode : FitsWord code := Nat.lt_of_le_of_lt (Nat.le_add_left _ _) hsize
  have hcount (s : String) (hs : FitsWord s) : countLines s.toList < UInt32.size := by
    rw [← length_lineStarts 0]
    exact hs.inWords.length
  exact ⟨hfit.inWords, hcode.inWords, b.position_heading code g,
    hfit.inWords.position (by omega), fun j => Nat.mod_eq_of_lt (hcount _ hheading),
    fun s => ⟨countLines_eq s, hcount s⟩⟩

/-- A header with three kinds of line ends, the last of which the line feed behind it completes. -/
theorem heading_shifts_lines_after_return :
    let b : Bundle := { header := some "a\r\nb\rc\r" }
    b.heading = "a\r\nb\rc\r\n" ∧ FitsWord (b.heading ++ "\nx") ∧ 1 ≤ "\nx".utf8ByteSize ∧
      (LineIndex.ofString (b.heading ++ "\nx")).position (b.heading.utf8ByteSize + 1)
        = ⟨countLines b.heading.toList + ((LineIndex.ofString "\nx").position 1).line,
          ((LineIndex.ofString "\nx").position 1).column⟩ ∧
      countLines b.heading.toList = 3 ∧ (LineIndex.ofString "\nx").position 1 = ⟨1, 0⟩ := by
  intro b
  have hfit : FitsWord (b.heading ++ "\nx") := by
    unfold FitsWord
    decide
  have hg : 1 ≤ "\nx".utf8ByteSize := by decide
  obtain ⟨-, -, hposition, -⟩ := heading_shifts_lines hfit hg
  exact ⟨by decide, hfit, hg, hposition, by decide, by decide⟩

end Bundle

end Minify
