import Mathlib.Data.List.Forall2
import Mathlib.Tactic.Common
import Mathlib.Tactic.Ring
import Minify.Proofs.PayloadText
import Minify.Proofs.WordOffsets

/-!
The text of a source map says what its entries say.

Entries and segments are sorted apart, by bytes and by lines and columns. A byte further on has a
later position, so both orders put the mappings the same way. The text of a segment reads back as
the four numbers it counts on by, and the text of them all is read back from the end of any segment:
the rest of the line first, then the lines after it.
-/

namespace Minify

/-! ### Reading a map -/

namespace Vlq

def alphabet : List Char :=
  "ABCDEFGHIJKLMNOPQRSTUVWXYZabcdefghijklmnopqrstuvwxyz0123456789+/".toList

def signed (v : Nat) : Int := if v % 2 = 1 then -(v / 2 : Nat) else (v / 2 : Nat)

/-- The numbers that some digits spell, when the digits before them have spelled the part `low` of
the first number and the next one counts `weight`. -/
def numbersFrom (weight low : Nat) : List Char → Option (List Int)
  | [] => if weight = 1 then some [] else none
  | c :: cs => do
    let v ← alphabet.idxOf? c
    if v < 32 then
      let rest ← numbersFrom 1 0 cs
      return signed (low + weight * v) :: rest
    else numbersFrom (32 * weight) (low + weight * (v - 32)) cs

def numbers (cs : List Char) : Option (List Int) := numbersFrom 1 0 cs

end Vlq

namespace SourceMap

open Text

/-- What a segment in the text of a map says: a place in the output, a file and a place in the
file. -/
structure Decoded where
  line : Nat
  column : Int
  source : Int
  originalLine : Int
  originalColumn : Int
  deriving DecidableEq, Repr

namespace Decoded

def zero : Decoded := ⟨0, 0, 0, 0, 0⟩

/-- A segment on a line, whose numbers count on from the one before it. -/
def next? (line : Nat) (before : Decoded) : List Int → Option Decoded
  | [column, source, originalLine, originalColumn] =>
    some ⟨line, before.column + column, before.source + source,
      before.originalLine + originalLine, before.originalColumn + originalColumn⟩
  | _ => none

/-- The segments of a line, after the segment `before`. -/
def ofFields (line : Nat) (before : Decoded) : List (List Char) → Option (List Decoded)
  | [] => some []
  | f :: fs => do
    let d ← next? line before (← Vlq.numbers f)
    (ofFields line d fs).map (d :: ·)

/-- The segments of a line: none when it is empty. Columns count from its start. -/
def ofLine (line : Nat) (before : Decoded) (cs : List Char) : Option (List Decoded) :=
  if cs = [] then some [] else ofFields line { before with column := 0 } (splitOn ',' cs)

/-- The segments of lines from number `line` on, after the segment `before`. -/
def ofLines (line : Nat) (before : Decoded) : List (List Char) → Option (List Decoded)
  | [] => some []
  | cs :: lines => do
    let ds ← ofLine line before cs
    (ofLines (line + 1) (ds.getLast?.getD before) lines).map (ds ++ ·)

end Decoded

/-- The segments that the text of a map spells. -/
def decode (text : String) : Option (List Decoded) :=
  Decoded.ofLines 0 .zero (splitOn ';' text.toList)

end SourceMap

/-! ### Numbers read back -/

namespace Vlq

lemma idxOf?_digit {v : Nat} (h : v < 64) : alphabet.idxOf? (digit v) = some v := by
  have hall : ∀ v : Fin 64, alphabet.idxOf? (digit v) = some v.val := by decide +kernel
  exact hall ⟨v, h⟩

lemma mem_alphabet_of_mem_digits {v : Nat} {c : Char} (h : c ∈ digits v) : c ∈ alphabet := by
  have hdigit {v : Nat} (h : v < 64) : digit v ∈ alphabet := by
    have hidx := idxOf?_digit h
    by_contra hnot
    rw [List.idxOf?_eq_none_iff.mpr hnot] at hidx
    cases hidx
  induction v using Nat.strongRecOn with
  | ind v ih =>
    rw [digits] at h
    split at h
    · rw [List.mem_singleton] at h
      exact h ▸ hdigit (by omega)
    · rcases List.mem_cons.mp h with rfl | h
      · exact hdigit (by omega)
      · exact ih (v / 32) (by omega) h

lemma digits_ne_nil (v : Nat) : digits v ≠ [] := by
  rw [digits]
  split <;> exact List.cons_ne_nil _ _

lemma numbersFrom_digits (weight low v : Nat) (rest : List Char) :
    numbersFrom weight low (digits v ++ rest)
      = (numbers rest).map fun ns => signed (low + weight * v) :: ns := by
  induction v using Nat.strongRecOn generalizing weight low with
  | ind v ih =>
    rw [digits]
    split
    · rename_i hlt
      rw [List.singleton_append, numbersFrom, idxOf?_digit (by omega)]
      simp only [Option.bind_eq_bind, Option.bind_some, if_pos hlt]
      cases h : numbersFrom 1 0 rest <;> simp [numbers, h]
    · rename_i hge
      have hnot : ¬v % 32 + 32 < 32 := by omega
      rw [List.cons_append, numbersFrom, idxOf?_digit (by omega)]
      simp only [Option.bind_eq_bind, Option.bind_some, if_neg hnot]
      rw [ih (v / 32) (by omega)]
      have hsum : low + weight * (v % 32 + 32 - 32) + 32 * weight * (v / 32)
        = low + weight * v := by
        have hv := Nat.div_add_mod v 32
        rw [Nat.add_sub_cancel]
        calc low + weight * (v % 32) + 32 * weight * (v / 32)
            = low + weight * (32 * (v / 32) + v % 32) := by ring
          _ = low + weight * v := by rw [hv]
      rw [hsum]

lemma signed_fold (n : Int) : signed (fold n) = n := by
  unfold signed fold
  split <;> split <;> omega

lemma numbers_encode (n : Int) (rest : List Char) :
    numbers (encode n ++ rest) = (numbers rest).map fun ns => n :: ns := by
  rw [numbers, encode, numbersFrom_digits, Nat.zero_add, Nat.one_mul, signed_fold]

end Vlq

/-! ### Positions -/

namespace Text

lemma Position.le_trans {a b c : Position} (hab : a.le b = true) (hbc : b.le c = true) :
    a.le c = true := by
  simp only [Position.le, Bool.or_eq_true, Bool.and_eq_true, decide_eq_true_eq, beq_iff_eq] at *
  omega

lemma Position.le_total (a b : Position) : (a.le b || b.le a) = true := by
  simp only [Position.le, Bool.or_eq_true, Bool.and_eq_true, decide_eq_true_eq, beq_iff_eq]
  omega

lemma Position.line_le {a b : Position} (h : a.le b = true) : a.line ≤ b.line := by
  simp only [Position.le, Bool.or_eq_true, Bool.and_eq_true, decide_eq_true_eq, beq_iff_eq] at h
  omega

namespace LineIndex

variable {line start a b : Nat} {starts : List Nat}

lemma line_le_positionFrom : line ≤ (positionFrom line start a starts).line := by
  induction starts generalizing line start with
  | nil => exact Nat.le_refl line
  | cons s starts ih =>
    rw [positionFrom]
    split
    · exact Nat.le_refl line
    · exact Nat.le_trans (Nat.le_succ line) ih

lemma le_positionFrom (ha : start ≤ a) (hb : start ≤ b) :
    (positionFrom line start a starts).le (positionFrom line start b starts) = decide (a ≤ b) := by
  have hsame {line start : Nat} (ha : start ≤ a) (hb : start ≤ b) :
      Position.le ⟨line, a - start⟩ ⟨line, b - start⟩ = decide (a ≤ b) := by
    have hiff : a - start ≤ b - start ↔ a ≤ b := by omega
    simp [Position.le, hiff]
  induction starts generalizing line start with
  | nil => exact hsame ha hb
  | cons s starts ih =>
    rw [positionFrom, positionFrom]
    split <;> split
    · exact hsame ha hb
    · -- a line ends between the two
      have hline : line < (positionFrom (line + 1) s b starts).line := line_le_positionFrom
      have hab : a ≤ b := by omega
      simp [Position.le, hline, hab]
    · have hline : line < (positionFrom (line + 1) s a starts).line := line_le_positionFrom
      have hnot : ¬(positionFrom (line + 1) s a starts).line < line := Nat.not_lt.mpr hline.le
      have hab : ¬a ≤ b := by omega
      simp [Position.le, hnot, hline.ne', hab]
    · exact ih (by omega) (by omega)

/-- **A byte further on has a later position.** -/
lemma le_position (ix : LineIndex) (a b : Nat) :
    (ix.position a).le (ix.position b) = decide (a ≤ b) :=
  le_positionFrom (Nat.zero_le a) (Nat.zero_le b)

end LineIndex

end Text

/-! ### Segments read back -/

namespace SourceMap

open Text Decoded

def Segment.decoded (line : Nat) (s : Segment) : Decoded :=
  ⟨line, s.generatedAt.column, s.source, s.originalAt.line, s.originalAt.column⟩

/-- The numbers of a segment, whose column counts from `column`. -/
def Segment.numbers (last : Last) (column : Int) (s : Segment) : List Int :=
  [s.generatedAt.column - column, s.source - last.source, s.originalAt.line - last.originalLine,
    s.originalAt.column - last.originalColumn]

def digitsOf (ns : List Int) : List Char := ns.flatMap Vlq.encode

lemma numbers_digitsOf (ns : List Int) : Vlq.numbers (digitsOf ns) = some ns := by
  induction ns with
  | nil => rfl
  | cons n ns ih => rw [digitsOf, List.flatMap_cons, Vlq.numbers_encode, ← digitsOf, ih]; rfl

lemma not_mem_digitsOf {c : Char} (hc : c ∉ Vlq.alphabet) (ns : List Int) : c ∉ digitsOf ns := by
  intro h
  obtain ⟨n, -, h⟩ := List.mem_flatMap.mp h
  exact hc (Vlq.mem_alphabet_of_mem_digits h)

lemma digitsOf_cons_ne_nil (n : Int) (ns : List Int) : digitsOf (n :: ns) ≠ [] := by
  rw [digitsOf, List.flatMap_cons]
  exact List.append_ne_nil_of_left_ne_nil (Vlq.digits_ne_nil _) _

/-- A reader that has read a segment counts on from where the writer does. -/
structure Matches (last : Last) (d : Decoded) : Prop where
  column : d.column = last.column
  source : d.source = last.source
  originalLine : d.originalLine = last.originalLine
  originalColumn : d.originalColumn = last.originalColumn

variable {last : Last} {d : Decoded} {s : Segment} {line : Nat}

lemma matches_decoded (last : Last) (s : Segment) (line : Nat) :
    Matches (s.text last).2 (s.decoded line) := ⟨rfl, rfl, rfl, rfl⟩

/-- On the same line columns count from the segment before. -/
lemma Matches.next? (h : Matches last d) (line : Nat) (s : Segment) :
    Decoded.next? line d (s.numbers last last.column) = some (s.decoded line) := by
  simp [Decoded.next?, Segment.numbers, Segment.decoded, h.column, h.source, h.originalLine,
    h.originalColumn]

lemma Matches.next?_zero (h : Matches last d) (line : Nat) (s : Segment) :
    Decoded.next? line { d with column := 0 } (s.numbers last 0) = some (s.decoded line) := by
  simp [Decoded.next?, Segment.numbers, Segment.decoded, h.source, h.originalLine,
    h.originalColumn]

/-- The segments on the rest of a line, after the segment `before`: each stands after a comma. -/
def Decoded.ofCommas (line : Nat) (before : Decoded) (cs : List Char) : Option (List Decoded) :=
  if cs = [] then some [] else ofFields line before (splitOn ',' cs.tail)

/-- The segments from the end of the segment `before` on: those on the rest of its line and those on
the lines after it. -/
def Decoded.ofRest (line : Nat) (before : Decoded) : List (List Char) → Option (List Decoded)
  | [] => some []
  | cs :: lines => do
    let ds ← ofCommas line before cs
    (ofLines (line + 1) (ds.getLast?.getD before) lines).map (ds ++ ·)

variable {e : Decoded} {ns : List Int} {cs : List Char}

lemma ofFields_cons (hd : Decoded.next? line d ns = some e) (fields : List (List Char)) :
    ofFields line d (digitsOf ns :: fields) = (ofFields line e fields).map (e :: ·) := by
  rw [ofFields, numbers_digitsOf]
  simp only [Option.bind_eq_bind, Option.bind_some, hd]

lemma ofFields_digitsOf (hd : Decoded.next? line d ns = some e) (hcs : ∀ c ∈ cs.head?, c = ',') :
    ofFields line d (splitOn ',' (digitsOf ns ++ cs)) = (ofCommas line e cs).map (e :: ·) := by
  have hcomma : ',' ∉ digitsOf ns := not_mem_digitsOf (by decide) ns
  cases cs with
  | nil =>
    rw [List.append_nil, splitOn_eq_of_not_mem hcomma, ofFields_cons hd]
    rfl
  | cons c cs =>
    obtain rfl : c = ',' := hcs c rfl
    rw [splitOn_append hcomma, ofFields_cons hd, ofCommas, if_neg (List.cons_ne_nil _ _),
      List.tail_cons]

/-- A segment goes in front of what follows it, on its line and after. -/
lemma bind_map_cons (d e : Decoded) (ds? : Option (List Decoded)) (lines : List (List Char)) :
    ((ds?.map (e :: ·)).bind fun ds =>
        (ofLines (line + 1) (ds.getLast?.getD d) lines).map (ds ++ ·))
      = (ds?.bind fun ds =>
          (ofLines (line + 1) (ds.getLast?.getD e) lines).map (ds ++ ·)).map (e :: ·) := by
  cases ds? with
  | none => rfl
  | some ds =>
    have hlast : (e :: ds).getLast?.getD d = ds.getLast?.getD e := by
      rw [List.getLast?_cons, Option.getD_some]
    simp only [Option.map_some, Option.bind_some, hlast, Option.map_map]
    rfl

lemma ofLines_digitsOf (hd : Decoded.next? line { d with column := 0 } ns = some e)
    (hcs : ∀ c ∈ cs.head?, c = ',') (lines : List (List Char)) :
    ofLines line d ((digitsOf ns ++ cs) :: lines) = (ofRest line e (cs :: lines)).map (e :: ·) := by
  have hne : digitsOf ns ≠ [] := by
    cases ns with
    | nil => cases hd
    | cons n ns => exact digitsOf_cons_ne_nil n ns
  rw [ofLines, ofLine, if_neg (List.append_ne_nil_of_left_ne_nil hne cs), ofFields_digitsOf hd hcs]
  exact bind_map_cons d e _ lines

lemma ofRest_digitsOf (hd : Decoded.next? line d ns = some e) (hcs : ∀ c ∈ cs.head?, c = ',')
    (lines : List (List Char)) :
    ofRest line d ((',' :: digitsOf ns ++ cs) :: lines)
      = (ofRest line e (cs :: lines)).map (e :: ·) := by
  rw [List.cons_append, ofRest, ofCommas, if_neg (List.cons_ne_nil _ _), List.tail_cons,
    ofFields_digitsOf hd hcs]
  exact bind_map_cons d e _ lines

lemma map_nil_append (o : Option (List Decoded)) : o.map (([] : List Decoded) ++ ·) = o := by
  simp only [List.nil_append, Option.map_id_fun', id]

lemma ofLines_replicate (n : Nat) (lines : List (List Char)) :
    ofLines line d (List.replicate n [] ++ lines) = ofLines (line + n) d lines := by
  induction n generalizing line with
  | zero => rfl
  | succ n ih =>
    rw [List.replicate_succ, List.cons_append, ofLines, ofLine, if_pos rfl, Nat.add_comm n,
      ← Nat.add_assoc, ← ih]
    exact map_nil_append _

lemma ofRest_nil_cons (lines : List (List Char)) :
    ofRest line d ([] :: lines) = ofLines (line + 1) d lines := map_nil_append _

/-! ### The whole text -/

lemma text_same_line (hc : last.continued = true) (h : s.generatedAt.line = last.line) :
    (s.text last).1 = ',' :: digitsOf (s.numbers last last.column) := by
  simp [Segment.text, digitsOf, Segment.numbers, hc, h]

lemma text_new_line (h : last.line < s.generatedAt.line) :
    (s.text last).1 = List.replicate (s.generatedAt.line - last.line) ';'
      ++ digitsOf (s.numbers last 0) := by
  have hne : s.generatedAt.line - last.line ≠ 0 := by omega
  simp [Segment.text, digitsOf, Segment.numbers, hne]

/-- After a segment, the text of those that follow reads back as them. -/
lemma ofRest_textFrom {ss : List Segment} (offset : Nat) (hm : Matches last d)
    (hc : last.continued = true)
    (hlines : (last.line :: ss.map fun s => s.generatedAt.line).Pairwise (· ≤ ·)) :
    ∃ cs lines, splitOn ';' (textFrom last ss) = cs :: lines ∧ (∀ c ∈ cs.head?, c = ',') ∧
      ofRest (last.line + offset) d (cs :: lines)
        = some (ss.map fun s => s.decoded (s.generatedAt.line + offset)) := by
  induction ss generalizing last d with
  | nil => exact ⟨[], [], rfl, nofun, rfl⟩
  | cons s ss ih =>
    rw [List.map_cons, List.pairwise_cons] at hlines
    obtain ⟨hle, hrest⟩ := hlines
    have hle : last.line ≤ s.generatedAt.line := hle _ List.mem_cons_self
    have hline : (s.text last).2.line = s.generatedAt.line := max_eq_right hle
    obtain ⟨cs, lines, hsplit, hcs, hread⟩ := ih
      (matches_decoded last s (s.generatedAt.line + offset)) rfl (hline ▸ hrest)
    rw [hline] at hread
    rw [textFrom]
    have hsemi (ns : List Int) : ';' ∉ digitsOf ns := not_mem_digitsOf (by decide) ns
    rcases Nat.eq_or_lt_of_le hle with he | hlt
    · have hnot : ';' ∉ ',' :: digitsOf (s.numbers last last.column) :=
        List.not_mem_cons_of_ne_of_not_mem (by decide) (hsemi _)
      refine ⟨',' :: digitsOf (s.numbers last last.column) ++ cs, lines, ?_, ?_, ?_⟩
      · rw [text_same_line hc he.symm]
        exact splitOn_append_eq hnot hsplit
      · rintro c hc
        exact (Option.some.inj hc).symm
      · rw [he, ofRest_digitsOf (hm.next? _ s) hcs, hread]
        rfl
    · obtain ⟨k, hk⟩ : ∃ k, s.generatedAt.line - last.line = k + 1 :=
        ⟨s.generatedAt.line - last.line - 1, by omega⟩
      refine ⟨[], List.replicate k [] ++ (digitsOf (s.numbers last 0) ++ cs) :: lines,
        ?_, nofun, ?_⟩
      · rw [text_new_line hlt, hk, List.append_assoc, splitOn_replicate_append,
          splitOn_append_eq (hsemi _) hsplit, List.replicate_succ, List.cons_append]
      · have hnumber : last.line + offset + 1 + k = s.generatedAt.line + offset := by omega
        rw [ofRest_nil_cons, ofLines_replicate, hnumber,
          ofLines_digitsOf (hm.next?_zero _ s) hcs, hread]
        rfl

lemma text_first (s : Segment) : (s.text .start).1
    = List.replicate s.generatedAt.line ';' ++ digitsOf (s.numbers .start 0) := by
  simp [Segment.text, digitsOf, Segment.numbers, Last.start]

/-- **The text of segments reads back as them**, behind any number of empty lines, if no segment
stands on a line before that of the one before it. -/
lemma decode_textFrom (n : Nat) {ss : List Segment}
    (hlines : (ss.map fun s => s.generatedAt.line).Pairwise (· ≤ ·)) :
    decode (String.ofList (List.replicate n ';' ++ textFrom .start ss))
      = some (ss.map fun s => s.decoded (s.generatedAt.line + n)) := by
  rw [decode, String.toList_ofList, splitOn_replicate_append, ofLines_replicate, Nat.zero_add]
  cases ss with
  | nil => rfl
  | cons s ss =>
    have hline : (s.text .start).2.line = s.generatedAt.line := max_eq_right (Nat.zero_le _)
    have hm : Matches .start .zero := ⟨rfl, rfl, rfl, rfl⟩
    obtain ⟨cs, lines, hsplit, hcs, hread⟩ := ofRest_textFrom n
      (matches_decoded .start s (s.generatedAt.line + n)) rfl (by rwa [hline])
    rw [hline] at hread
    rw [textFrom, text_first, List.append_assoc, splitOn_replicate_append,
      splitOn_append_eq (not_mem_digitsOf (by decide) _) hsplit, ofLines_replicate, Nat.add_comm n,
      ofLines_digitsOf (hm.next?_zero _ s) hcs, hread]
    rfl

/-! ### A map and its entries -/

/-- The position of an entry in its file, if the file starts at `start`. -/
def Entry.originalAt (input : LineIndex) (start : Nat) (e : Entry) : Position :=
  relative (input.position start) (input.position (start + e.offset))

/-- What a segment in the text of a map says is what an entry does: the line and column of its byte
in the output, behind the lines in front of it; its file, by its index among the files in the order
of their starts; and the line and column of its byte in that file. -/
structure Says (input output : LineIndex) (files : List File) (lineOffset : Nat) (e : Entry)
    (d : Decoded) : Prop where
  line : d.line = (output.position e.generated).line + lineOffset
  column : d.column = (output.position e.generated).column
  source : d.source = e.source
  original : ∃ f, files[e.source]? = some f ∧
    d.originalLine = (e.originalAt input f.start).line ∧
    d.originalColumn = (e.originalAt input f.start).column

variable {input output : LineIndex} {files : List File} {m : Layout.Mapping} {x y : Entry × Segment}

/-- The entry and the segment of a mapping say the same. -/
lemma of_resolveMapping (h : resolveMapping input output files m = some x) :
    x.2.generatedAt = output.position x.1.generated ∧ x.2.source = x.1.source ∧
      ∃ f, files[x.1.source]? = some f ∧ x.2.originalAt = x.1.originalAt input f.start := by
  obtain ⟨i, f, hi, hf, rfl⟩ := resolveMapping_eq_some_iff.mp h
  refine ⟨rfl, rfl, f, hf, ?_⟩
  unfold Entry.originalAt
  rw [Nat.add_sub_cancel' (start_le_of_lastNotPast? hi hf)]

lemma says_decoded (h : resolveMapping input output files m = some x) (lineOffset : Nat) :
    Says input output files lineOffset x.1
      (x.2.decoded (x.2.generatedAt.line + lineOffset)) := by
  obtain ⟨hgenerated, hsource, f, hf, horiginal⟩ := of_resolveMapping h
  exact ⟨by rw [hgenerated]; rfl, congrArg (fun p : Position => (p.column : Int)) hgenerated,
    congrArg Nat.cast hsource, f, hf,
    congrArg (fun p : Position => (p.line : Int)) horiginal,
    congrArg (fun p : Position => (p.column : Int)) horiginal⟩

/-- The entries of a map and its segments come in pairs out of mappings: both orders put the mappings
the same way. -/
lemma exists_pairs (input output : String) (files : List File) (mappings : List Layout.Mapping)
    (file : Option String) (lineOffset : Nat) :
    ∃ xs : List (Entry × Segment),
      (build input output files mappings file lineOffset).entries = xs.map Prod.fst ∧
      (build input output files mappings file lineOffset).segments = xs.map Prod.snd ∧
      ∀ x ∈ xs, ∃ m, resolveMapping (.ofString input) (.ofString output)
        (files.mergeSort File.le) m = some x := by
  obtain ⟨resolved, hresolved⟩ : ∃ resolved, resolved = mappings.filterMap
      (resolveMapping (.ofString input) (.ofString output) (files.mergeSort File.le)) := ⟨_, rfl⟩
  have hmem : ∀ x ∈ resolved, ∃ m, resolveMapping (.ofString input) (.ofString output)
      (files.mergeSort File.le) m = some x := fun x hx => by
    obtain ⟨m, -, hm⟩ := List.mem_filterMap.mp (hresolved ▸ hx)
    exact ⟨m, hm⟩
  let order (x y : Entry × Segment) : Bool := x.1.generated ≤ y.1.generated
  refine ⟨resolved.mergeSort order, ?_, ?_, fun x hx => hmem x (List.mem_mergeSort.mp hx)⟩
  · rw [List.map_mergeSort (s := fun a b : Entry => decide (a.generated ≤ b.generated))
      fun _ _ _ _ => rfl, hresolved]
    rfl
  · rw [List.map_mergeSort (s := fun a b : Segment => a.generatedAt.le b.generatedAt) ?_, hresolved]
    · rfl
    · intro x hx y hy
      obtain ⟨_, hx⟩ := hmem x hx
      obtain ⟨_, hy⟩ := hmem y hy
      rw [(of_resolveMapping hx).1, (of_resolveMapping hy).1, LineIndex.le_position]

/-- No segment stands on a line before that of the one before it. -/
lemma pairwise_line_build (input output : String) (files : List File)
    (mappings : List Layout.Mapping) (file : Option String) (lineOffset : Nat) :
    ((build input output files mappings file lineOffset).segments.map
      fun s => s.generatedAt.line).Pairwise (· ≤ ·) := by
  have hsorted : (build input output files mappings file lineOffset).segments.Pairwise
      fun a b => a.generatedAt.le b.generatedAt = true :=
    @List.pairwise_mergeSort _ (fun a b : Segment => a.generatedAt.le b.generatedAt)
      (fun _ _ _ => Position.le_trans) (fun _ _ => Position.le_total _ _) _
  exact List.pairwise_map.mpr (hsorted.imp Position.line_le)

lemma exists_decode (input output : String) (files : List File) (mappings : List Layout.Mapping)
    (file : Option String) (lineOffset : Nat) :
    ∃ ds, decode (build input output files mappings file lineOffset).mappings = some ds ∧
      List.Forall₂ (Says (.ofString input) (.ofString output) (files.mergeSort File.le) lineOffset)
        (build input output files mappings file lineOffset).entries ds := by
  obtain ⟨xs, hentries, hsegments, hxs⟩ :=
    exists_pairs input output files mappings file lineOffset
  refine ⟨_, decode_textFrom lineOffset
    (pairwise_line_build input output files mappings file lineOffset), ?_⟩
  rw [hentries, hsegments, List.map_map, List.forall₂_map_left_iff, List.forall₂_map_right_iff,
    List.forall₂_same]
  intro x hx
  obtain ⟨m, hm⟩ := hxs x hx
  exact says_decoded hm lineOffset

/-- **The text of a map says what its entries do**, each with a segment, in their order, as long as
places are words of 32 bits. -/
theorem decode_mappings {input output : String} {files : List File}
    {mappings : List Layout.Mapping} {lineOffset : Nat}
    (h : WordInputs input output files mappings lineOffset) (file : Option String) :
    (build input output files mappings file lineOffset).InWords ∧
      ∃ ds, decode (build input output files mappings file lineOffset).mappings = some ds ∧
        List.Forall₂
          (Says (.ofString input) (.ofString output) (files.mergeSort File.le) lineOffset)
          (build input output files mappings file lineOffset).entries ds :=
  ⟨h.inWords file, exists_decode input output files mappings file lineOffset⟩

/-- Mappings out of the order of the output, behind one line. -/
theorem decode_mappings_behind_line :
    let files : List File := [⟨"f", 0⟩]
    let mappings : List Layout.Mapping := [⟨1, 3⟩, ⟨0, 1⟩]
    let m := build "ab\nc" "xy" files mappings none 1
    WordInputs "ab\nc" "xy" files mappings 1 ∧
      decode m.mappings = some [⟨1, 0, 0, 0, 1⟩, ⟨1, 1, 0, 1, 0⟩] ∧ m.InWords ∧
      ∃ ds, decode m.mappings = some ds ∧ List.Forall₂
        (Says (.ofString "ab\nc") (.ofString "xy") (files.mergeSort File.le) 1) m.entries ds := by
  intro files mappings m
  have h : WordInputs "ab\nc" "xy" files mappings 1 := {
    input := show "ab\nc".utf8ByteSize < UInt32.size by decide
    output := show "xy".utf8ByteSize < UInt32.size by decide
    count := by decide
    start := by decide
    mapping := List.forall_mem_cons.mpr ⟨⟨by decide, by decide⟩,
      List.forall_mem_cons.mpr ⟨⟨by decide, by decide⟩, nofun⟩⟩
    lineOffset := by decide }
  exact ⟨h, by cbv, decode_mappings h none⟩

end SourceMap

end Minify
