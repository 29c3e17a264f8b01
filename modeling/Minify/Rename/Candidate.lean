/-!
The first free one of a sequence of candidates. At most `taken` of them are in use, so one of any
`taken + 1` different ones is free.
-/

namespace Minify.Candidate

/-- The first number from `n` on that is free, among the next `tries`; the one after them if none
is. -/
def first (free : Nat → Bool) (n : Nat) : Nat → Nat
  | 0 => n
  | tries + 1 => if free n then n else first free (n + 1) tries

theorem le_first (free : Nat → Bool) (n tries : Nat) : n ≤ first free n tries := by
  induction tries generalizing n with
  | zero => exact Nat.le_refl n
  | succ k ih =>
    unfold first
    split
    · exact Nat.le_refl n
    · exact Nat.le_trans (Nat.le_succ n) (ih (n + 1))

theorem not_free_of_lt_first {free : Nat → Bool} {n tries m : Nat} (hn : n ≤ m)
    (h : m < first free n tries) : free m = false := by
  induction tries generalizing n with
  | zero => exact absurd h (by unfold first; omega)
  | succ k ih =>
    unfold first at h
    split at h
    · omega
    · rename_i hf
      rcases Nat.eq_or_lt_of_le hn with rfl | hlt
      · simpa using hf
      · exact ih hlt h

theorem free_first_of_lt {free : Nat → Bool} {n tries : Nat} (h : first free n tries < n + tries) :
    free (first free n tries) = true := by
  induction tries generalizing n with
  | zero => exact absurd h (Nat.lt_irrefl n)
  | succ k ih =>
    unfold first at h ⊢
    split
    · assumption
    · rename_i hf
      rw [if_neg hf] at h
      exact ih (by omega)

end Minify.Candidate
