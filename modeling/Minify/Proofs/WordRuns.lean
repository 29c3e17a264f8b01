import Mathlib.Data.List.Chain
import Minify.Payload.Encoder
import Minify.Proofs.Numerals

/-!
Words that a reader of the payload can tell apart.

When the words of a text hold all its word characters and never touch, the runs of word characters
in the payload are the numerals of the words, one run for each, and expanding the runs gives the
text back.
-/

namespace Minify

open Text Payload Encoder

namespace WordPattern.Piece

def isWord : Piece → Bool
  | word _ => true
  | other _ => false

@[simp] lemma isWord_word (cs : List Char) : (word cs).isWord = true := rfl
@[simp] lemma isWord_other (c : Char) : (other c).isWord = false := rfl

@[simp] lemma charsBy_word (f : List Char → List Char) (w : List Char) :
    (word w).charsBy f = f w := rfl
@[simp] lemma charsBy_other (f : List Char → List Char) (c : Char) :
    (other c).charsBy f = [c] := rfl
@[simp] lemma chars_word (w : List Char) : (word w).chars = w := rfl
@[simp] lemma chars_other (c : Char) : (other c).chars = [c] := rfl

end WordPattern.Piece

open WordPattern (Piece)

/-- A text cut into words that are not empty and the characters between them. -/
structure Cuts (cs : List Char) (pieces : List Piece) : Prop where
  text : pieces.flatMap Piece.chars = cs
  nonempty : ∀ w, .word w ∈ pieces → w ≠ []

/-- The words cover all word characters, no two of them touch, and none holds a bar. -/
structure Parted (pieces : List Piece) : Prop where
  covers : ∀ c, .other c ∈ pieces → isWordChar c = false
  apart : pieces.IsChain fun p q => ¬(p.isWord = true ∧ q.isWord = true)
  noBar : ∀ w, .word w ∈ pieces → delimiter ∉ w

lemma Parted.tail {p : Piece} {pieces : List Piece} (h : Parted (p :: pieces)) : Parted pieces :=
  ⟨fun c hc => h.covers c (List.mem_cons_of_mem p hc), h.apart.of_cons,
    fun w hw => h.noBar w (List.mem_cons_of_mem p hw)⟩

/-! ### Runs of the payload -/

section Runs

variable {expand : List Char → Except EncodingError (List Char)}

def flush (expand : List Char → Except EncodingError (List Char)) (run : List Char) :
    Except EncodingError (List Char) :=
  if run.isEmpty then .ok [] else expand run.reverse

lemma expandRuns_nil (run : List Char) : expandRuns expand run [] = flush expand run := rfl

lemma expandRuns_cons_other {c : Char} (hc : isWordChar c = false) (run cs : List Char) :
    expandRuns expand run (c :: cs) = do
      let word ← flush expand run
      return word ++ c :: (← expandRuns expand [] cs) := by
  rw [expandRuns, if_neg (by simp [hc])]
  unfold flush
  split <;> rfl

lemma expandRuns_append {code : List Char} (hcode : ∀ c ∈ code, isWordChar c = true)
    (run cs : List Char) :
    expandRuns expand run (code ++ cs) = expandRuns expand (code.reverse ++ run) cs := by
  induction code generalizing run with
  | nil => rfl
  | cons c code ih =>
    rw [List.cons_append, expandRuns, if_pos (hcode c (by simp)),
      ih fun d hd => hcode d (List.mem_cons_of_mem c hd)]
    simp

lemma flush_reverse {code : List Char} (h : code ≠ []) :
    flush expand (code.reverse ++ []) = expand code := by
  simp [flush, h]

/-- Words whose codes expand to them make a text whose runs expand to it. -/
theorem expandRuns_flatMap {code : List Char → List Char} {pieces : List Piece}
    (hp : Parted pieces)
    (hcode : ∀ w, .word w ∈ pieces →
      code w ≠ [] ∧ (∀ c ∈ code w, isWordChar c = true) ∧ expand (code w) = .ok w) :
    expandRuns expand [] (pieces.flatMap (Piece.charsBy code))
      = .ok (pieces.flatMap Piece.chars) := by
  induction pieces with
  | nil => rfl
  | cons p pieces ih =>
    have ih := ih hp.tail fun w hw => hcode w (List.mem_cons_of_mem p hw)
    cases p with
    | other c =>
      have hc := hp.covers c (by simp)
      simp only [List.flatMap_cons, Piece.charsBy_other, List.singleton_append]
      rw [expandRuns_cons_other hc, ih]
      rfl
    | word w =>
      obtain ⟨hne, hword, hexp⟩ := hcode w (by simp)
      simp only [List.flatMap_cons, Piece.charsBy_word]
      rw [expandRuns_append hword]
      cases pieces with
      | nil =>
        rw [List.flatMap_nil, expandRuns_nil, flush_reverse hne, hexp]
        simp
      | cons q pieces =>
        cases q with
        | word v =>
          have := (List.isChain_cons_cons.mp hp.apart).1
          exact absurd ⟨rfl, rfl⟩ this
        | other c =>
          -- the run of the word ends at this character
          have hc := hp.covers c (by simp)
          simp only [List.flatMap_cons, Piece.charsBy_other, List.singleton_append] at ih ⊢
          rw [expandRuns_cons_other hc] at ih ⊢
          rw [flush_reverse hne, hexp]
          cases hr : expandRuns expand [] _ with
          | error e => rw [hr] at ih; simp [flush, bind, Except.bind] at ih
          | ok rest =>
            rw [hr] at ih
            simp only [flush, List.isEmpty_nil, if_true, bind, Except.bind, pure, Except.pure,
              List.nil_append, Except.ok.injEq] at ih ⊢
            rw [ih]
            rfl

end Runs

/-! ### The list of words -/

lemma mem_matched {pieces : List Piece} {w : List Char} :
    w ∈ matched pieces ↔ .word w ∈ pieces := by
  unfold matched
  rw [List.mem_filterMap]
  constructor
  · rintro ⟨p, hp, h⟩
    cases p with
    | word v => simp only [Option.some.injEq] at h; exact h ▸ hp
    | other c => simp at h
  · exact fun h => ⟨.word w, h, rfl⟩

theorem expandCode_code {radix : Nat} (hr : Numeral.IsRadix radix) {words : List (List Char)}
    {w : List Char} (hw : w ∈ words) (hne : w ≠ []) :
    expandCode radix words.length (entries radix words).toArray (code radix words w) = .ok w := by
  have hlt : words.idxOf w < words.length := List.idxOf_lt_length_of_mem hw
  have hget : (entries radix words).toArray.getD (words.idxOf w) []
      = if code radix words w == w then [] else w := by
    simp [entries, hlt]
  rw [expandCode, code, Numeral.decode?_digits hr]
  simp only [hlt, if_true]
  rw [hget, code]
  split <;> simp_all

end Minify
