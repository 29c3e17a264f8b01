import Mathlib.Tactic.Common
import Minify.Proofs.PositionalTexts
import Minify.Text.CharClass

/-!
Numerals read back.

The digits of a number stand for it and are word characters, in every radix up to 62; so different
numbers have different numerals, and reading a numeral gives its number.
-/

namespace Minify.Numeral

open Text

/-- A radix with a character for each digit, so that numerals have a meaning. -/
def IsRadix (radix : Nat) : Prop := 2 ≤ radix ∧ radix ≤ maxRadix

lemma digitValue_digit {d : Nat} (h : d < 62) : digitValue (digit d) = d := by
  have all : ∀ d < 62, digitValue (digit d) = d := by decide
  exact all d h

lemma isWordChar_digit {d : Nat} (h : d < 62) : isWordChar (digit d) = true := by
  have all : ∀ d < 62, isWordChar (digit d) = true := by decide
  exact all d h

lemma isAlphanum_digit {d : Nat} (h : d < 62) : (digit d).isAlphanum = true := by
  have all : ∀ d < 62, (digit d).isAlphanum = true := by decide
  exact all d h

lemma digits_ne_nil (radix n : Nat) : digits radix n ≠ [] := by
  rw [digits]
  split <;> simp

variable {radix : Nat}

lemma IsRadix.lt (hr : IsRadix radix) {d : Nat} (h : d < radix) : d < 62 :=
  Nat.lt_of_lt_of_le h hr.2

lemma mem_digits (hr : IsRadix radix) {n : Nat} {c : Char} (h : c ∈ digits radix n) :
    ∃ d < radix, c = digit d :=
  (positional hr.1).mem_text h

lemma isWordChar_of_mem_digits (hr : IsRadix radix) {n : Nat} {c : Char}
    (h : c ∈ digits radix n) : isWordChar c = true := by
  obtain ⟨d, hd, rfl⟩ := mem_digits hr h
  exact isWordChar_digit (hr.lt hd)

lemma value_append_singleton (cs : List Char) (c : Char) :
    value radix (cs ++ [c]) = radix * value radix cs + digitValue c := by
  simp [value]

theorem value_digits (hr : IsRadix radix) (n : Nat) : value radix (digits radix n) = n := by
  have h2 := hr.1
  induction n using Nat.strongRecOn with
  | ind n ih =>
    rcases Nat.lt_or_ge n radix with hn | hn
    · rw [digits_of_lt hn]
      simp only [value, List.foldl_cons, List.foldl_nil, Nat.mul_zero, Nat.zero_add]
      exact digitValue_digit (hr.lt hn)
    · have hmod : n % radix < radix := Nat.mod_lt n (by omega)
      rw [digits_of_le h2 hn, value_append_singleton,
        ih (n / radix) (Nat.div_lt_self (by omega) (by omega)), digitValue_digit (hr.lt hmod),
        Nat.div_add_mod]

theorem digits_injective (hr : IsRadix radix) {m n : Nat} (h : digits radix m = digits radix n) :
    m = n := by
  rw [← value_digits hr m, h, value_digits hr n]

theorem encode_injective (hr : IsRadix radix) {m n : Nat} (h : encode radix m = encode radix n) :
    m = n :=
  digits_injective hr (String.ofList_injective h)

@[simp] theorem decode?_digits (hr : IsRadix radix) (n : Nat) :
    decode? radix (digits radix n) = some n := by
  simp [decode?, value_digits hr n]

end Minify.Numeral
