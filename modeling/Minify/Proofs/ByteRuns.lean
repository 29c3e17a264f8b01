import Mathlib
import Minify.Proofs.TextBytes
import Minify.Text.CharClass

/-!
The runs of word characters in a text, by characters and by bytes.

Word characters are single bytes, and the bytes of the other characters are no word bytes. So the
longest runs of word bytes are the longest runs of word characters, and none begins or ends inside
a character.
-/

namespace Minify.Text

/-- A run of what words consist of, or one item that is no part of a word. -/
inductive Stretch (α : Type) where
  | run (xs : List α)
  | single (x : α)
  deriving DecidableEq, Repr

/-- Cuts a list into its longest runs of word items and the items between them. -/
inductive Runs {α : Type} (word : α → Bool) : List α → List (Stretch α) → Prop
  | nil : Runs word [] []
  | single {x : α} {xs : List α} {ss : List (Stretch α)} (hx : word x = false)
      (rest : Runs word xs ss) : Runs word (x :: xs) (.single x :: ss)
  | run {ys xs : List α} {ss : List (Stretch α)} (hne : ys ≠ []) (hys : ∀ y ∈ ys, word y = true)
      (hend : ∀ x ∈ xs.head?, word x = false) (rest : Runs word xs ss) :
      Runs word (ys ++ xs) (.run ys :: ss)

section

variable {α : Type} {word : α → Bool} {xs ys : List α} {ss : List (Stretch α)}

theorem exists_runs (word : α → Bool) (xs : List α) : ∃ ss, Runs word xs ss := by
  induction xs with
  | nil => exact ⟨[], .nil⟩
  | cons x xs ih =>
    obtain ⟨ss, h⟩ := ih
    cases hx : word x with
    | false => exact ⟨_, .single hx h⟩
    | true =>
      have hone : ∀ y ∈ [x], word y = true := by simpa using hx
      cases h with
      | nil => exact ⟨_, .run (List.cons_ne_nil x []) hone (by simp) .nil⟩
      | single hy rest =>
        exact ⟨_, .run (List.cons_ne_nil x []) hone (by simpa using hy) (.single hy rest)⟩
      | @run ys zs ss _ hys hend rest =>
        -- the run that follows begins one item earlier
        refine ⟨.run (x :: ys) :: ss, ?_⟩
        rw [← List.cons_append]
        exact .run (List.cons_ne_nil x ys) (List.forall_mem_cons.mpr ⟨hx, hys⟩) hend rest

lemma Runs.of_nil (h : Runs word [] ss) : ss = [] := by
  generalize hz : ([] : List α) = zs at h
  cases h with
  | nil => rfl
  | single => cases hz
  | run hne => exact absurd (List.append_eq_nil_iff.mp hz.symm).1 hne

lemma Runs.of_cons {x : α} (hx : word x = false) (h : Runs word (x :: xs) ss) :
    ∃ ss', ss = .single x :: ss' ∧ Runs word xs ss' := by
  generalize hz : x :: xs = zs at h
  cases h with
  | nil => cases hz
  | single _ rest =>
    cases hz
    exact ⟨_, rfl, rest⟩
  | @run ys _ _ hne hys =>
    obtain ⟨y, ys, rfl⟩ := List.exists_cons_of_ne_nil hne
    cases hz
    exact absurd (hys x List.mem_cons_self) (by simp [hx])

lemma takeWhile_run (hys : ∀ y ∈ ys, word y = true) (hend : ∀ x ∈ xs.head?, word x = false) :
    (ys ++ xs).takeWhile word = ys := by
  rw [List.takeWhile_append_of_pos hys]
  cases xs with
  | nil => simp
  | cons x xs => simp [hend x rfl]

lemma Runs.of_append (hne : ys ≠ []) (hys : ∀ y ∈ ys, word y = true)
    (hend : ∀ x ∈ xs.head?, word x = false) (h : Runs word (ys ++ xs) ss) :
    ∃ ss', ss = .run ys :: ss' ∧ Runs word xs ss' := by
  generalize hz : ys ++ xs = zs at h
  cases h with
  | nil => exact absurd (List.append_eq_nil_iff.mp hz).1 hne
  | @single x _ _ hx =>
    obtain ⟨y, ys, rfl⟩ := List.exists_cons_of_ne_nil hne
    cases hz
    exact absurd (hys x List.mem_cons_self) (by simp [hx])
  | @run ys' xs' _ _ hys' hend' rest =>
    -- both runs are what the list begins with as long as there are word items
    have hrun : ys = ys' := by rw [← takeWhile_run hys hend, hz, takeWhile_run hys' hend']
    subst hrun
    cases List.append_cancel_left hz
    exact ⟨_, rfl, rest⟩

theorem Runs.unique (h : Runs word xs ss) {ss' : List (Stretch α)} (h' : Runs word xs ss') :
    ss = ss' := by
  induction h generalizing ss' with
  | nil => exact h'.of_nil.symm
  | single hx _ ih =>
    obtain ⟨ss', rfl, hrest⟩ := h'.of_cons hx
    rw [ih hrest]
  | run hne hys hend _ ih =>
    obtain ⟨ss', rfl, hrest⟩ := h'.of_append hne hys hend
    rw [ih hrest]

lemma Runs.singles (hys : ∀ y ∈ ys, word y = false) (h : Runs word xs ss) :
    Runs word (ys ++ xs) (ys.map .single ++ ss) := by
  induction ys with
  | nil => exact h
  | cons y ys ih =>
    obtain ⟨hy, hys⟩ := List.forall_mem_cons.mp hys
    exact .single hy (ih hys)

end

/-! ### Bytes -/

/-- The byte of a letter, a digit or an underscore. -/
def isWordByte (b : UInt8) : Bool := isWordChar (Char.ofNat b.toNat)

lemma toNat_lt_of_isWordChar {c : Char} (h : isWordChar c = true) : c.toNat < 128 := by
  unfold isWordChar Char.isAlphanum Char.isAlpha Char.isUpper Char.isLower Char.isDigit at h
  simp only [ge_iff_le, UInt32.le_iff_toNat_le, Bool.or_eq_true, Bool.and_eq_true,
    decide_eq_true_eq] at h
  rcases h with h | rfl
  · have : c.toNat = c.val.toNat := rfl
    have : 'Z'.val.toNat = 90 := rfl
    have : 'z'.val.toNat = 122 := rfl
    have : '9'.val.toNat = 57 := rfl
    omega
  · decide

/-- The bytes of a character are word bytes just when it is a word character. -/
lemma isWordByte_of_mem {c : Char} {b : UInt8} (hb : b ∈ String.utf8EncodeChar c) :
    isWordByte b = isWordChar c := by
  rcases Nat.lt_or_ge c.toNat 128 with h | h
  · rw [utf8EncodeChar_of_ascii h, List.mem_singleton] at hb
    have hnat : b.toNat = c.toNat := by
      rw [hb, UInt8.toNat_ofNat']
      omega
    rw [isWordByte, hnat, Char.ofNat_toNat]
  · have hc : ¬isWordChar c = true := fun hw => absurd (toNat_lt_of_isWordChar hw) (by omega)
    have hbyte : ¬isWordByte b = true := by
      intro hw
      have hlt := toNat_lt_of_isWordChar hw
      have hle := le_of_mem_utf8EncodeChar h hb
      have hb' := b.toNat_lt
      rw [Char.toNat_ofNat, if_pos (by unfold Nat.isValidChar; omega)] at hlt
      omega
    rw [Bool.eq_false_iff.mpr hc, Bool.eq_false_iff.mpr hbyte]

/-- A stretch in bytes. -/
def Stretch.bytes : Stretch Char → List (Stretch UInt8)
  | .run cs => [.run (utf8 cs)]
  | .single c => (String.utf8EncodeChar c).map .single

lemma isWordByte_of_mem_utf8 {cs : List Char} {word : Bool}
    (h : ∀ c ∈ cs, isWordChar c = word) {b : UInt8} (hb : b ∈ utf8 cs) : isWordByte b = word := by
  obtain ⟨c, hc, hb⟩ := List.mem_flatMap.mp hb
  exact (isWordByte_of_mem hb).trans (h c hc)

lemma utf8_ne_nil {cs : List Char} (h : cs ≠ []) : utf8 cs ≠ [] := by
  intro hnil
  exact h (utf8_injective hnil)

/-- The runs of the bytes are the bytes of the runs. -/
theorem Runs.bytes {cs : List Char} {ss : List (Stretch Char)} (h : Runs isWordChar cs ss) :
    Runs isWordByte (utf8 cs) (ss.flatMap Stretch.bytes) := by
  induction h with
  | nil => exact .nil
  | single hx _ ih => exact .singles (fun b hb => (isWordByte_of_mem hb).trans hx) ih
  | @run ys xs _ hne hys hend _ ih =>
    rw [utf8_append]
    refine .run (utf8_ne_nil hne) (fun b hb => isWordByte_of_mem_utf8 hys hb) (fun b hb => ?_) ih
    -- the byte behind the run is the first byte of the character behind it
    cases xs with
    | nil => cases hb
    | cons x xs =>
      have hb : b ∈ String.utf8EncodeChar x := by
        obtain ⟨a, as, hx⟩ := List.exists_cons_of_ne_nil (String.utf8EncodeChar_ne_nil (c := x))
        rw [utf8_cons, hx] at hb
        cases hb
        exact hx ▸ List.mem_cons_self
      exact (isWordByte_of_mem hb).trans (hend x rfl)

/-- So a text has the same runs in bytes as in characters. -/
theorem runs_utf8_iff {cs : List Char} {bs : List (Stretch UInt8)} :
    Runs isWordByte (utf8 cs) bs ↔ ∃ ss, Runs isWordChar cs ss ∧ bs = ss.flatMap Stretch.bytes := by
  constructor
  · intro h
    obtain ⟨ss, hss⟩ := exists_runs isWordChar cs
    exact ⟨ss, hss, h.unique hss.bytes⟩
  · rintro ⟨ss, hss, rfl⟩
    exact hss.bytes

end Minify.Text
