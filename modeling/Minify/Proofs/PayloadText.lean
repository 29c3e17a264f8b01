import Minify.Payload.Encoder
import Minify.Proofs.Numerals

/-!
The parts of a packed script read back: quoted texts, numbers in decimal, lists of words, and the
script as a whole.
-/

namespace Minify.Payload

open Text

/-! ### Quoted texts -/

lemma unquotedBody?_quotedChar (c : Char) (cs : List Char) :
    unquotedBody? (quotedChar c ++ cs)
      = (unquotedBody? cs).map fun r => (c :: r.1, r.2) := by
  by_cases h1 : c = '\\'
  · subst h1; rfl
  by_cases h2 : c = '\''
  · subst h2; rfl
  by_cases h3 : c = '\n'
  · subst h3; rfl
  by_cases h4 : c = '\r'
  · subst h4; rfl
  simp only [quotedChar, h1, h2, h3, h4, if_false, List.singleton_append]
  rw [unquotedBody?]
  · exact h2
  · exact fun h => absurd h h1
  · exact fun _ _ h => absurd h h1

lemma unquotedBody?_flatMap (cs rest : List Char) :
    unquotedBody? (cs.flatMap quotedChar ++ '\'' :: rest) = some (cs, rest) := by
  induction cs with
  | nil => rfl
  | cons c cs ih => rw [List.flatMap_cons, List.append_assoc, unquotedBody?_quotedChar, ih]; rfl

/-- A quoted text is read back, and the reading stops behind its closing quote. -/
theorem unquoted?_quoted (cs rest : List Char) :
    unquoted? (quoted cs ++ rest) = some (cs, rest) := by
  have h := unquotedBody?_flatMap cs rest
  simpa [quoted, unquoted?] using h

/-! ### Numbers -/

lemma number?_toString {n : Nat} (hn : n < UInt64.size) {rest : List Char}
    (hrest : rest.head?.any Char.isDigit = false) :
    number? ((toString n).toList ++ rest) = some (n, rest) := by
  have hl : (toString n).toList = Nat.toDigits 10 n := by
    rw [Nat.toString_eq_repr, Nat.toList_repr]
  have hd : ∀ c ∈ Nat.toDigits 10 n, c.isDigit = true := fun c hc =>
    Nat.isDigit_of_mem_toDigits (by decide) (by decide) hc
  have htake : (Nat.toDigits 10 n ++ rest).takeWhile Char.isDigit = Nat.toDigits 10 n := by
    rw [List.takeWhile_append_of_pos hd]
    cases rest with
    | nil => simp
    | cons c cs => simp_all
  have hval : (Nat.toDigits 10 n).foldl (fun n c => 10 * n + (c.toNat - 48)) 0 = n :=
    Nat.ofDigitChars_ten_toDigits
  have hne : (Nat.toDigits 10 n).isEmpty = false := by simp
  rw [hl]
  simp only [number?, htake, hval, hne, Bool.false_or, ge_iff_le, decide_eq_true_eq]
  rw [if_neg (by omega), List.drop_left]

/-! ### Lists of words -/

/-- A list of words without bars is read back, unless it is empty. -/
theorem split_join {words : List (List Char)} (hne : words ≠ [])
    (h : ∀ w ∈ words, delimiter ∉ w) : split (join words) = words := by
  induction words with
  | nil => exact absurd rfl hne
  | cons w ws ih =>
    have hw := h w (by simp)
    cases ws with
    | nil => simpa [split, join, List.intercalate] using splitOn_eq_of_not_mem hw
    | cons v ws =>
      have ih := ih (by simp) fun u hu => h u (List.mem_cons_of_mem w hu)
      have hj : join (w :: v :: ws) = w ++ delimiter :: join (v :: ws) := by
        simp [join, List.intercalate, List.intersperse]
      rw [hj, split, splitOn_append hw, ← split, ih]

/-! ### The whole script -/

lemma after?_append (front cs : List Char) : after? front (front ++ cs) = some cs := by
  simp [after?]

/-- A packed script comes apart into what it was made of. -/
theorem parts_pack (payload : List Char) {radix count : Nat} {entries : List (List Char)}
    (hr : isRadix radix = true) (hc : count < UInt64.size)
    (hlen : 0 < count → entries.length = count) (hbar : ∀ w ∈ entries, delimiter ∉ w) :
    ∃ words, parts (Encoder.pack radix payload count entries).toList
        = .ok ⟨payload, radix, count, words⟩ ∧ (entries ≠ [] → words = entries) := by
  have hr64 : radix < UInt64.size := by
    have : radix ≤ 62 := by simp [isRadix] at hr; omega
    have : (62 : Nat) < UInt64.size := by decide
    omega
  have hcount : 0 < count → (split (join entries)).length = count := by
    intro h0
    have hne : entries ≠ [] := by
      rintro rfl
      have := hlen h0
      simp at this
      omega
    rw [split_join hne hbar, hlen h0]
  refine ⟨split (join entries), ?_, fun hne => split_join hne hbar⟩
  have hl : (Encoder.pack radix payload count entries).toList
      = decoderHead.toList ++ (quoted payload ++ ([','] ++ ((toString radix).toList ++ ([','] ++
          ((toString count).toList ++ ([','] ++ (quoted (join entries) ++
            decoderTail.toList))))))) := by
    simp [Encoder.pack, String.toList_append]
  have hcond : (decide (count > 0) && (split (join entries)).length != count) = false := by
    by_cases h0 : 0 < count
    · simp [hcount h0]
    · simp [h0]
  rw [hl, parts, after?_append]
  simp only [orElse, bind, Except.bind, unquoted?_quoted, after?_append]
  rw [number?_toString hr64 (by rfl)]
  simp only [after?_append]
  rw [number?_toString hc (by rfl)]
  simp only [after?_append, unquoted?_quoted]
  simp [hr, hcond, pure, Except.pure]

end Minify.Payload
