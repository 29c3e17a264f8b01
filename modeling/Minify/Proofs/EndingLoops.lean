import Mathlib.Tactic.Common
import Minify.Rename.Candidate

/-!
Loops that no count bounds.

A round of such a loop gives the state for the next round, or the result. The search for a free
number is one: it ends at the first free one, after a round for each number up to it.
-/

namespace Minify

/-- The loop over `round` ends with `a` after `k` rounds, from the state `s` on. -/
inductive EndsAfter {σ α : Type} (round : σ → σ ⊕ α) : σ → Nat → α → Prop
  | last {s : σ} {a : α} (h : round s = .inr a) : EndsAfter round s 1 a
  | next {s s' : σ} {k : Nat} {a : α} (h : round s = .inl s') (rest : EndsAfter round s' k a) :
      EndsAfter round s (k + 1) a

namespace Candidate

/-- A round of a search: a number that is not free is left for the next one. -/
def attempt (free : Nat → Bool) (n : Nat) : Nat ⊕ Nat :=
  if free n then .inr n else .inl (n + 1)

lemma attempt_of_free {free : Nat → Bool} {n : Nat} (h : free n = true) :
    attempt free n = .inr n := if_pos h

lemma attempt_of_not_free {free : Nat → Bool} {n : Nat} (h : free n = false) :
    attempt free n = .inl (n + 1) := by
  simp [attempt, h]

/-- A search from `n` on that leaves the numbers up to the first free one ends there. -/
lemma endsAfter_attempt {free : Nat → Bool} {n k m : Nat} (hm : n + k = m)
    (hleft : ∀ i, n ≤ i → i < m → free i = false) (hfree : free m = true) :
    EndsAfter (attempt free) n (k + 1) m := by
  induction k generalizing n with
  | zero =>
    obtain rfl : n = m := hm
    exact .last (attempt_of_free hfree)
  | succ k ih =>
    have hn : free n = false := hleft n (Nat.le_refl n) (by omega)
    exact .next (attempt_of_not_free hn) (ih (by omega) fun i hi => hleft i (by omega))

/-- The bounded search finds what the search without a bound ends at. -/
lemma endsAfter_first {free : Nat → Bool} {n tries : Nat}
    (hfree : free (first free n tries) = true) :
    EndsAfter (attempt free) n (first free n tries - n + 1) (first free n tries) := by
  refine endsAfter_attempt ?_ (fun i => not_free_of_lt_first) hfree
  have hle := le_first free n tries
  omega

end Candidate

end Minify
