import Mathlib.Data.List.Shortlex
import Mathlib.Tactic.Common
import Minify.Numeral
import Minify.Rename.ShortName

/-!
Texts that number things come in the order of their numbers.

Numerals and short names are both built from the right: behind the text of a quotient stands the
character of the remainder. Short names set the quotient back by one first, since they have no zero.
In either case a larger number has a longer text, or one of the same length whose characters come
later.
-/

namespace Minify

section Shortlex

variable {α : Type} {r : α → α → Prop} {s t : List α}

/-- Lists of one length stay in order when more stands behind them. -/
lemma lex_append_of_length_eq (h : List.Lex r s t) (hlen : s.length = t.length) (u v : List α) :
    List.Lex r (s ++ u) (t ++ v) := by
  induction h with
  | nil => simp at hlen
  | cons _ ih => exact .cons (ih (by simpa using hlen))
  | rel h => exact .rel h

lemma shortlex_concat (h : List.Shortlex r s t) (a b : α) :
    List.Shortlex r (s ++ [a]) (t ++ [b]) := by
  rcases List.shortlex_def.mp h with hlt | ⟨hlen, hlex⟩
  · apply List.Shortlex.of_length_lt
    simpa using hlt
  · apply List.Shortlex.of_lex
    · simpa using hlen
    · exact lex_append_of_length_eq hlex hlen [a] [b]

end Shortlex

/-- Each number has a text: the numbers below the base have one character each, and for the others a
character follows the text of the quotient, which is set back by `back`. -/
structure Positional {α : Type} (base back : Nat) (char : Nat → α) (text : Nat → List α) :
    Prop where
  two_le : 2 ≤ base
  back_le : back ≤ 1
  small : ∀ n < base, text n = [char n]
  large : ∀ n, base ≤ n → text n = text (n / base - back) ++ [char (n % base)]

namespace Positional

variable {α : Type} {r : α → α → Prop} {base back : Nat} {char : Nat → α} {text : Nat → List α}

/-- A character behind a text makes the text of the number that has it as its remainder. -/
lemma text_mul_add (h : Positional base back char text) {k d : Nat} (hk : 0 < k + back)
    (hd : d < base) : text (base * (k + back) + d) = text k ++ [char d] := by
  have hpos : 0 < base := by omega
  have hle : base ≤ base * (k + back) := Nat.le_mul_of_pos_right base hk
  have hdiv : (base * (k + back) + d) / base = k + back := by
    rw [Nat.mul_add_div hpos, Nat.div_eq_of_lt hd, Nat.add_zero]
  have hmod : (base * (k + back) + d) % base = d := by
    rw [Nat.mul_add_mod, Nat.mod_eq_of_lt hd]
  rw [h.large _ (by omega), hdiv, hmod, Nat.add_sub_cancel]

lemma text_ne_nil (h : Positional base back char text) (n : Nat) : text n ≠ [] := by
  rcases Nat.lt_or_ge n base with hn | hn
  · simp [h.small n hn]
  · simp [h.large n hn]

lemma mem_text (h : Positional base back char text) {n : Nat} {a : α} (ha : a ∈ text n) :
    ∃ d < base, a = char d := by
  have h2 := h.two_le
  induction n using Nat.strongRecOn with
  | ind n ih =>
    rcases Nat.lt_or_ge n base with hn | hn
    · rw [h.small n hn, List.mem_singleton] at ha
      exact ⟨n, hn, ha⟩
    · rw [h.large n hn, List.mem_append, List.mem_singleton] at ha
      rcases ha with ha | ha
      · have hdiv : n / base < n := Nat.div_lt_self (by omega) (by omega)
        exact ih (n / base - back) (by omega) ha
      · exact ⟨n % base, Nat.mod_lt n (by omega), ha⟩

/-- Of two numbers the larger one has the later text: its quotient is larger, or it is the same and
the remainder is larger. -/
theorem shortlex_of_lt (h : Positional base back char text)
    (hr : ∀ i j, i < j → j < base → r (char i) (char j)) {m n : Nat} (hmn : m < n) :
    List.Shortlex r (text m) (text n) := by
  have h2 := h.two_le
  have hback := h.back_le
  induction n using Nat.strongRecOn generalizing m with
  | ind n ih =>
    rcases Nat.lt_or_ge n base with hn | hn
    · rw [h.small m (by omega), h.small n hn, List.shortlex_singleton_iff]
      exact hr m n hmn hn
    · have hone : 1 ≤ n / base := (Nat.one_le_div_iff (by omega)).mpr hn
      rw [h.large n hn]
      rcases Nat.lt_or_ge m base with hm | hm
      · apply List.Shortlex.of_length_lt
        have hpos := List.length_pos_of_ne_nil (h.text_ne_nil (n / base - back))
        rw [h.small m hm]
        simp only [List.length_append, List.length_singleton]
        omega
      · rw [h.large m hm]
        have hmone : 1 ≤ m / base := (Nat.one_le_div_iff (by omega)).mpr hm
        rcases Nat.lt_or_eq_of_le (Nat.div_le_div_right (c := base) hmn.le) with hlt | heq
        · have hsmaller : n / base < n := Nat.div_lt_self (by omega) (by omega)
          exact shortlex_concat (ih (n / base - back) (by omega) (by omega)) _ _
        · rw [heq]
          apply List.Shortlex.append_left
          rw [List.shortlex_singleton_iff]
          have hm' := Nat.div_add_mod m base
          have hn' := Nat.div_add_mod n base
          rw [heq] at hm'
          exact hr _ _ (by omega) (Nat.mod_lt n (by omega))

theorem shortlex_iff [Std.Asymm r] (h : Positional base back char text)
    (hr : ∀ i j, i < j → j < base → r (char i) (char j)) {m n : Nat} :
    List.Shortlex r (text m) (text n) ↔ m < n := by
  refine ⟨fun hlex => ?_, h.shortlex_of_lt hr⟩
  rcases Nat.lt_trichotomy m n with hlt | rfl | hgt
  · exact hlt
  · exact absurd hlex (asymm hlex)
  · exact absurd (h.shortlex_of_lt hr hgt) (asymm hlex)

theorem text_injective [Std.Asymm r] (h : Positional base back char text)
    (hr : ∀ i j, i < j → j < base → r (char i) (char j)) {m n : Nat} (he : text m = text n) :
    m = n := by
  have hlt : m < n ↔ n < n := by rw [← h.shortlex_iff hr, he, h.shortlex_iff hr]
  have hgt : n < m ↔ n < n := by rw [← h.shortlex_iff hr, he, h.shortlex_iff hr]
  omega

end Positional

namespace Numeral

variable {radix : Nat}

lemma digits_of_lt {n : Nat} (h : n < radix) : digits radix n = [digit n] := by
  rw [digits, if_pos (.inl h)]

lemma digits_of_le (h2 : 2 ≤ radix) {n : Nat} (h : radix ≤ n) :
    digits radix n = digits radix (n / radix) ++ [digit (n % radix)] := by
  rw [digits, if_neg (by omega)]

lemma positional (h2 : 2 ≤ radix) : Positional radix 0 digit (digits radix) :=
  ⟨h2, by decide, fun _ => digits_of_lt, fun _ => digits_of_le h2⟩

end Numeral

namespace ShortName

lemma letters_of_lt {n : Nat} (h : n < 26) : letters n = [letter n] := by
  rw [letters, if_pos h]

lemma letters_of_le {n : Nat} (h : 26 ≤ n) :
    letters n = letters (n / 26 - 1) ++ [letter (n % 26)] := by
  rw [letters, if_neg (by omega)]

lemma positional : Positional 26 1 letter letters :=
  ⟨by decide, by decide, fun _ => letters_of_lt, fun _ => letters_of_le⟩

lemma letters_ne_nil (n : Nat) : letters n ≠ [] := positional.text_ne_nil n

lemma toList_nth (n : Nat) : (nth n).toList = letters n := String.toList_ofList

lemma small_letter {i : Nat} (hi : i < 26) : 'a' ≤ letter i ∧ letter i ≤ 'z' := by
  have all : ∀ i < 26, 'a' ≤ letter i ∧ letter i ≤ 'z' := by decide
  exact all i hi

lemma small_of_mem_letters {n : Nat} {c : Char} (h : c ∈ letters n) : 'a' ≤ c ∧ c ≤ 'z' := by
  obtain ⟨i, hi, rfl⟩ := positional.mem_text h
  exact small_letter hi

lemma letter_lt (i j : Nat) (h : i < j) (hj : j < 26) : letter i < letter j := by
  have all : ∀ j < 26, ∀ i < j, letter i < letter j := by decide
  exact all j hj i h

/-- Shorter names come first, and names of one length are in the order of the alphabet. -/
theorem letters_shortlex_iff {m n : Nat} :
    List.Shortlex (· < ·) (letters m) (letters n) ↔ m < n :=
  positional.shortlex_iff letter_lt

lemma letters_injective {m n : Nat} (h : letters m = letters n) : m = n :=
  positional.text_injective letter_lt h

end ShortName

end Minify
