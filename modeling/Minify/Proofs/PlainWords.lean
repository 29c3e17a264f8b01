import Mathlib.Data.List.TakeWhile
import Minify.Proofs.WordRuns

/-!
The plain pattern of words finds the longest runs of letters, digits and underscores; so its words
hold all word characters of any text and never touch.
-/

namespace Minify.WordPattern

open Text

lemma inRange_wordRanges (c : Char) : inRange wordRanges c = isWordChar c := by
  have h : c = '_' ↔ c.toNat = 95 := by
    rw [← Char.toNat_inj]
    rfl
  unfold inRange wordRanges isWordChar Char.isAlphanum Char.isAlpha Char.isUpper Char.isLower
    Char.isDigit
  simp only [List.any_cons, List.any_nil, Char.le_def, UInt32.le_iff_toNat_le]
  rw [Bool.eq_iff_iff]
  simp only [Bool.or_eq_true, Bool.and_eq_true, decide_eq_true_eq, h, Char.toNat]
  simp
  omega

def afterWord (cs : List Char) : List Char := cs.dropWhile isWordChar

lemma afterWord_cons (c : Char) (cs : List Char) :
    afterWord (c :: cs) = if isWordChar c then afterWord cs else c :: cs := by
  unfold afterWord
  split <;> simp_all

lemma length_afterWord_le (cs : List Char) : (afterWord cs).length ≤ cs.length :=
  (List.dropWhile_suffix _).length_le

lemma matchAt_wordChar (before : Option Char) (c : Char) (cs : List Char) (left : Nat)
    (k : Continuation) :
    (chars wordRanges).matchAt ⟨before, c :: cs, left⟩ k
      = if isWordChar c then k ⟨some c, cs, left - 1⟩ else none := by
  rw [← inRange_wordRanges]
  rfl

lemma upTo_wordChars (before : Option Char) (cs : List Char) :
    upTo (chars wordRanges).matchAt true cs.length ⟨before, cs, cs.length⟩ (fun d => some d.left)
      = some (afterWord cs).length := by
  induction cs generalizing before with
  | nil => rfl
  | cons c cs ih =>
    rw [List.length_cons, upTo, matchAt_wordChar, afterWord_cons]
    by_cases hc : isWordChar c = true
    · simp [hc, ih]
    · simp [hc]

lemma matchLength_plainWords (before : Option Char) (cs : List Char) :
    plainWords.matchLength ⟨before, cs, cs.length⟩ = cs.length - (afterWord cs).length := by
  cases cs with
  | nil => rfl
  | cons c cs =>
    have h : plainWords.matchAt ⟨before, c :: cs, (c :: cs).length⟩ (fun d => some d.left)
        = if isWordChar c then some (afterWord cs).length else none := by
      rw [plainWords, matchAt, exactly, matchAt_wordChar]
      simp only [exactly, List.length_cons, Nat.add_sub_cancel, Option.map_none, Option.getD_none,
        upTo_wordChars]
    rw [matchLength, h, afterWord_cons]
    split <;> simp_all

lemma take_length_sub (cs : List Char) :
    cs.take (cs.length - (afterWord cs).length) = cs.takeWhile isWordChar := by
  have hl := congrArg List.length (List.takeWhile_append_dropWhile (p := isWordChar) (l := cs))
  rw [List.length_append] at hl
  have : cs.length - (afterWord cs).length = (cs.takeWhile isWordChar).length := by
    unfold afterWord
    omega
  rw [this]
  exact (List.prefix_iff_eq_take.mp (List.takeWhile_prefix _)).symm

lemma drop_length_sub (cs : List Char) :
    cs.drop (cs.length - (afterWord cs).length) = afterWord cs :=
  (List.suffix_iff_eq_drop.mp (List.dropWhile_suffix _)).symm

lemma piecesFrom_cons_of_word {c : Char} (hc : isWordChar c = true) (before : Option Char)
    (cs : List Char) :
    ∃ last, piecesFrom plainWords before (c :: cs).length (c :: cs)
      = .word ((c :: cs).takeWhile isWordChar)
          :: piecesFrom plainWords last (afterWord (c :: cs)).length (afterWord (c :: cs)) := by
  have hle : (afterWord (c :: cs)).length ≤ cs.length := by
    rw [afterWord_cons, if_pos hc]
    exact length_afterWord_le cs
  have hn : (c :: cs).length - (afterWord (c :: cs)).length ≠ 0 := by
    rw [List.length_cons]
    omega
  refine ⟨((c :: cs).takeWhile isWordChar).getLast?, ?_⟩
  rw [piecesFrom, matchLength_plainWords]
  simp only [hn, if_false, take_length_sub, drop_length_sub]
  congr 2
  rw [List.length_cons]
  omega

lemma piecesFrom_cons_of_other {c : Char} (hc : isWordChar c = false) (before : Option Char)
    (cs : List Char) :
    piecesFrom plainWords before (c :: cs).length (c :: cs)
      = .other c :: piecesFrom plainWords (some c) cs.length cs := by
  rw [piecesFrom, matchLength_plainWords]
  simp [afterWord, hc]

lemma parted_cons_other {c : Char} (hc : isWordChar c = false) {pieces : List Piece}
    (h : Parted pieces) : Parted (.other c :: pieces) := by
  refine ⟨fun d hd => ?_, ?_, fun w hw => ?_⟩
  · rcases List.mem_cons.mp hd with hd | hd
    · cases hd; exact hc
    · exact h.covers d hd
  · exact List.isChain_cons.mpr ⟨fun q _ => by simp, h.apart⟩
  · exact h.noBar w (by simpa using hw)

lemma parted_cons_word {w : List Char} (hw : ∀ c ∈ w, isWordChar c = true) {pieces : List Piece}
    (hhead : ∀ p ∈ pieces.head?, p.isWord = false) (h : Parted pieces) :
    Parted (.word w :: pieces) := by
  refine ⟨fun c hc => h.covers c (by simpa using hc), ?_, fun v hv => ?_⟩
  · exact List.isChain_cons.mpr ⟨fun q hq => by simp [hhead q hq], h.apart⟩
  · rcases List.mem_cons.mp hv with hv | hv
    · cases hv
      intro hbar
      exact absurd (hw _ hbar) (by decide)
    · exact h.noBar v hv

lemma parted_piecesFrom (before : Option Char) (cs : List Char) :
    Parted (piecesFrom plainWords before cs.length cs) := by
  induction hn : cs.length using Nat.strongRecOn generalizing before cs with
  | ind n ih =>
    subst hn
    cases cs with
    | nil =>
      rw [piecesFrom]
      exact ⟨by simp, List.isChain_nil, by simp⟩
    | cons c cs =>
      by_cases hc : isWordChar c = true
      · obtain ⟨last, hp⟩ := piecesFrom_cons_of_word hc before cs
        have hlt : (afterWord (c :: cs)).length < (c :: cs).length := by
          have := length_afterWord_le cs
          rw [afterWord_cons, if_pos hc, List.length_cons]
          omega
        rw [hp]
        refine parted_cons_word (fun d hd => List.mem_takeWhile_imp hd) ?_
          (ih _ hlt last _ rfl)
        -- what follows the word begins with a character that is in no word
        intro p hq
        cases hr : afterWord (c :: cs) with
        | nil => rw [hr, piecesFrom] at hq; simp at hq
        | cons d ds =>
          have hd : isWordChar d = false := by
            have := List.head?_dropWhile_not isWordChar (c :: cs)
            rw [← afterWord, hr] at this
            simpa using this
          rw [hr, piecesFrom_cons_of_other hd] at hq
          simp only [List.head?_cons, Option.mem_def, Option.some.injEq] at hq
          exact hq ▸ rfl
      · have hc : isWordChar c = false := by simpa using hc
        rw [piecesFrom_cons_of_other hc]
        exact parted_cons_other hc (ih _ (by simp) _ _ rfl)

theorem parted_plainWords (cs : List Char) : Parted (plainWords.pieces cs) :=
  parted_piecesFrom none cs

theorem ofString?_plainWords : ofString? "\\w+" = some plainWords := by cbv

/-! ### Any pattern cuts a text -/

lemma matchLength_pos_word {p : WordPattern} {before : Option Char} {left : Nat} {cs w : List Char}
    (h : Piece.word w ∈ piecesFrom p before left cs) : w ≠ [] := by
  fun_induction piecesFrom p before left cs with
  | case1 => simp at h
  | case2 _ _ _ _ _ _ ih => exact ih (by simpa using h)
  | case3 before left c cs n hn word ih =>
    rcases List.mem_cons.mp h with h | h
    · have hw : w = word := by simpa using h
      simp [hw, word, hn]
    · exact ih h

theorem cuts_pieces (p : WordPattern) (cs : List Char) : Cuts cs (p.pieces cs) :=
  ⟨piecesFrom_flatMap p none cs.length cs, fun _ => matchLength_pos_word⟩

end Minify.WordPattern
