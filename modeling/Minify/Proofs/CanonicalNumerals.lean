import Mathlib.Data.List.Induction
import Mathlib.Data.Nat.Digits.Defs
import Minify.Proofs.EndingLoops
import Minify.Proofs.Numerals

/-!
Numerals are the only way to write a number.

The digits of a number are made by dividing until nothing is left, the last digit first. They are
the only digits of that value whose first one is no zero, unless it is the only one; and numerals
come in the order of their numbers, shorter ones first.
-/

namespace Minify.Numeral

def alphabet : List Char :=
  "0123456789abcdefghijklmnopqrstuvwxyzABCDEFGHIJKLMNOPQRSTUVWXYZ".toList

/-- The value of a digit is its place among them. What is no digit comes behind them all. -/
def rank (c : Char) : Nat := alphabet.idxOf c

/-- Characters write a number in a radix: they are digits below the radix, with no zero in front of
others, and the number is the sum of their values times the powers of the radix. -/
structure Writes (radix : Nat) (cs : List Char) (n : Nat) : Prop where
  ne_nil : cs ≠ []
  below : ∀ c ∈ cs, rank c < radix
  lead : cs.head? = some '0' → cs = ['0']
  value : Nat.ofDigits radix (cs.reverse.map rank) = n

/-- A round of writing a number: its last digit goes behind those written, the last of all first,
and the quotient is left. The digits are turned round in the end. -/
def writeDigit (radix : Nat) (s : Nat × List Char) : (Nat × List Char) ⊕ List Char :=
  let written := s.2 ++ [digit (s.1 % radix)]
  if s.1 / radix = 0 then .inr written.reverse else .inl (s.1 / radix, written)

/-! ### Digits -/

lemma rank_digit {d : Nat} (h : d < 62) : rank (digit d) = d := by
  have all : ∀ d < 62, rank (digit d) = d := by decide
  exact all d h

lemma digit_rank {c : Char} (h : rank c < 62) : digit (rank c) = c := by
  have all : ∀ d < 62, alphabet[d]? = some (digit d) := by decide
  have hplace : alphabet[rank c]? = some c := List.getElem?_idxOf (List.idxOf_lt_length_iff.mp h)
  exact Option.some.inj ((all (rank c) h).symm.trans hplace)

variable {radix : Nat} {cs : List Char} {n : Nat}

lemma IsRadix.rank_digit (hr : IsRadix radix) {d : Nat} (h : d < radix) : rank (digit d) = d :=
  Numeral.rank_digit (hr.lt h)

lemma rank_lt_of_mem_digits (hr : IsRadix radix) {c : Char} (h : c ∈ digits radix n) :
    rank c < radix := by
  obtain ⟨d, hd, rfl⟩ := mem_digits hr h
  rw [hr.rank_digit hd]
  exact hd

lemma head?_digits (hr : IsRadix radix) (hn : 0 < n) : (digits radix n).head? ≠ some '0' := by
  induction n using Nat.strongRecOn with
  | ind n ih =>
    have h2 := hr.1
    rcases Nat.lt_or_ge n radix with hlt | hge
    · rw [digits_of_lt hlt, List.head?_cons]
      intro he
      have hzero : rank '0' = 0 := by decide
      rw [← Option.some.inj he, hr.rank_digit hlt] at hzero
      omega
    · rw [digits_of_le h2 hge, List.head?_append_of_ne_nil _ (digits_ne_nil radix _)]
      exact ih (n / radix) (Nat.div_lt_self (by omega) (by omega)) (Nat.div_pos hge (by omega))

lemma value_eq_ofDigits (radix : Nat) (cs : List Char) :
    value radix cs = Nat.ofDigits radix (cs.reverse.map digitValue) := by
  induction cs using List.reverseRecOn with
  | nil => rfl
  | append_singleton cs c ih =>
    rw [value_append_singleton, ih, List.reverse_append, List.reverse_singleton,
      List.singleton_append, List.map_cons, Nat.ofDigits_cons, Nat.add_comm]

lemma ofDigits_digits (hr : IsRadix radix) (n : Nat) :
    Nat.ofDigits radix ((digits radix n).reverse.map rank) = n := by
  have hvalue : ∀ c ∈ (digits radix n).reverse, rank c = digitValue c := by
    intro c hc
    obtain ⟨d, hd, rfl⟩ := mem_digits hr (List.mem_reverse.mp hc)
    rw [hr.rank_digit hd, digitValue_digit (hr.lt hd)]
  calc Nat.ofDigits radix ((digits radix n).reverse.map rank)
      = Nat.ofDigits radix ((digits radix n).reverse.map digitValue) := by
        rw [List.map_congr_left hvalue]
    _ = value radix (digits radix n) := (value_eq_ofDigits radix _).symm
    _ = n := value_digits hr n

/-! ### Numerals -/

lemma writes_digits (hr : IsRadix radix) (n : Nat) : Writes radix (digits radix n) n := by
  refine ⟨digits_ne_nil radix n, fun c => rank_lt_of_mem_digits hr, fun hlead => ?_,
    ofDigits_digits hr n⟩
  rcases Nat.eq_zero_or_pos n with rfl | hn
  · exact digits_of_lt (Nat.lt_of_lt_of_le Nat.two_pos hr.1)
  · exact absurd hlead (head?_digits hr hn)

/-- Digits with no zero in front of others are the digits of some number. -/
lemma exists_digits (hr : IsRadix radix) (hne : cs ≠ []) (hbelow : ∀ c ∈ cs, rank c < radix)
    (hlead : cs.head? = some '0' → cs = ['0']) : ∃ n, cs = digits radix n := by
  induction cs using List.reverseRecOn with
  | nil => exact absurd rfl hne
  | append_singleton cs c ih =>
    have hc : rank c < radix := hbelow c (by simp)
    have hdigit : digit (rank c) = c := digit_rank (hr.lt hc)
    rcases eq_or_ne cs [] with rfl | hcs
    · exact ⟨rank c, by rw [digits_of_lt hc, hdigit, List.nil_append]⟩
    · -- in front of the last digit stands no zero alone, since it would be in front of others
      have hhead : cs.head? ≠ some '0' := by
        intro h
        have hone := hlead (by rw [List.head?_append_of_ne_nil _ hcs, h])
        have hlen := congrArg List.length hone
        have hpos := List.length_pos_of_ne_nil hcs
        simp only [List.length_append, List.length_singleton] at hlen
        omega
      obtain ⟨k, rfl⟩ := ih hcs (fun c hc => hbelow c (List.mem_append_left _ hc))
        fun h => absurd h hhead
      have hk : 0 < k := by
        rcases Nat.eq_zero_or_pos k with rfl | hk
        · rw [digits_of_lt (Nat.lt_of_lt_of_le Nat.two_pos hr.1)] at hhead
          exact absurd rfl hhead
        · exact hk
      have htext := (positional hr.1).text_mul_add hk hc
      rw [hdigit] at htext
      exact ⟨_, htext.symm⟩

theorem writes_iff (hr : IsRadix radix) : Writes radix cs n ↔ cs = digits radix n := by
  constructor
  · intro h
    obtain ⟨m, rfl⟩ := exists_digits hr h.ne_nil h.below h.lead
    have hvalue : m = n := (ofDigits_digits hr m).symm.trans h.value
    rw [hvalue]
  · rintro rfl
    exact writes_digits hr n

lemma digits_shortlex_iff (hr : IsRadix radix) {m n : Nat} :
    List.Shortlex (fun c d => rank c < rank d) (digits radix m) (digits radix n) ↔ m < n := by
  have hasymm : Std.Asymm fun c d : Char => rank c < rank d := ⟨fun _ _ => Nat.lt_asymm⟩
  refine (positional hr.1).shortlex_iff fun i j hij hj => ?_
  rw [hr.rank_digit (hij.trans hj), hr.rank_digit hj]
  exact hij

/-- The loop from a number on, with the digits behind it written already. -/
lemma endsAfter_writeDigit (hr : IsRadix radix) (n : Nat) (written : List Char) :
    EndsAfter (writeDigit radix) (n, written) (digits radix n).length
      (digits radix n ++ written.reverse) := by
  have h2 := hr.1
  induction n using Nat.strongRecOn generalizing written with
  | ind n ih =>
    rcases Nat.lt_or_ge n radix with hn | hn
    · rw [digits_of_lt hn]
      apply EndsAfter.last
      simp [writeDigit, Nat.div_eq_of_lt hn, Nat.mod_eq_of_lt hn]
    · have hdiv : n / radix ≠ 0 := (Nat.div_pos hn (by omega)).ne'
      have hround : writeDigit radix (n, written)
          = .inl (n / radix, written ++ [digit (n % radix)]) := by
        simp [writeDigit, hdiv]
      have hrest := ih (n / radix) (Nat.div_lt_self (by omega) (by omega))
        (written ++ [digit (n % radix)])
      rw [digits_of_le h2 hn, List.length_append, List.length_singleton]
      apply EndsAfter.next hround
      simpa using hrest

/-- **Numerals are canonical**, in every radix with a character for each digit: the loop that
divides ends after one round for each digit, and the numeral it gives is the only text that writes
the number. Numbers have numerals of their own, which come in their order: shorter ones first, and
those of one length by their digits from the left. -/
theorem numerals_canonical {radix : Nat} (hr : IsRadix radix) (n : Nat) :
    EndsAfter (writeDigit radix) (n, []) (encode radix n).length (encode radix n).toList ∧
      (∀ s : String, Writes radix s.toList n ↔ s = encode radix n) ∧
      ∀ m, (encode radix m = encode radix n → m = n) ∧
        (List.Shortlex (fun c d => rank c < rank d) (encode radix m).toList (encode radix n).toList ↔
          m < n) := by
  have htext (n : Nat) : (encode radix n).toList = digits radix n := String.toList_ofList
  refine ⟨?_, fun s => ?_, fun m => ⟨encode_injective hr, ?_⟩⟩
  · have hends := endsAfter_writeDigit hr n []
    rw [List.reverse_nil, List.append_nil] at hends
    rw [← String.length_toList, htext]
    exact hends
  · rw [writes_iff hr, ← htext, String.toList_inj]
  · rw [htext, htext]
    exact digits_shortlex_iff hr

/-- The largest number with two digits in the largest radix. -/
theorem numerals_canonical_two_digits :
    IsRadix 62 ∧ encode 62 3843 = "ZZ" ∧ EndsAfter (writeDigit 62) (3843, []) 2 ['Z', 'Z'] ∧
      List.Shortlex (fun c d => rank c < rank d) (encode 62 3842).toList "ZZ".toList := by
  have hr : IsRadix 62 := ⟨by decide, by decide⟩
  obtain ⟨hends, hwrites, horder⟩ := numerals_canonical hr 3843
  have hzz : encode 62 3843 = "ZZ" := by
    symm
    apply (hwrites "ZZ").mp
    refine ⟨by decide, fun c hc => ?_, by decide, by decide⟩
    obtain rfl : c = 'Z' := by simpa using hc
    decide
  rw [hzz] at hends horder
  exact ⟨hr, hzz, hends, (horder 3842).2.mpr (by decide)⟩

end Minify.Numeral
