import Mathlib.Tactic.Common
import Minify.Token.Lexer

/-!
The run of the lexer, one token at a time.
-/

namespace Minify

namespace Lexer

lemma run_token {lx lx' : Lexer} {t : Token} (h : lx.next = (.ok (some t), lx')) :
    lx.run = (t :: lx'.run.1, lx'.run.2) := by
  rw [run]
  split <;> simp_all

lemma run_end {lx lx' : Lexer} (h : lx.next = (.ok none, lx')) : lx.run = ([], none) := by
  rw [run]
  split <;> simp_all

lemma run_fault {lx lx' : Lexer} {e : LexError} (h : lx.next = (.error e, lx')) :
    lx.run = ([], some e) := by
  rw [run]
  split <;> simp_all

/-- A digit, or a point and a digit, starts a number wherever it stands. -/
lemma scan_number {lx : Lexer} {c : Char} {cs : List Char}
    (h : (c.isDigit || (c = '.' && cs.head?.any Char.isDigit)) = true) :
    lx.scan c cs = Scan.number (c :: cs) := by
  have hplain : Text.isLineEnd c = false ∧ Text.isBlank c = false ∧ Text.isNameStart c = false ∧
      c ∉ ['#', '/', '\\'] := by
    rcases Bool.or_eq_true_iff.mp h with hdigit | hpoint
    · obtain ⟨d, hd, rfl⟩ : ∃ d < 10, c = Char.ofNat (d + 48) := by
        simp only [Char.isDigit, Bool.and_eq_true, decide_eq_true_eq, UInt32.le_iff_toNat_le,
          ge_iff_le] at hdigit
        change 48 ≤ c.toNat ∧ c.toNat ≤ 57 at hdigit
        refine ⟨c.toNat - 48, by omega, ?_⟩
        rw [Nat.sub_add_cancel hdigit.1, Char.ofNat_toNat]
      have hall : ∀ d < 10, Text.isLineEnd (Char.ofNat (d + 48)) = false ∧
          Text.isBlank (Char.ofNat (d + 48)) = false ∧
          Text.isNameStart (Char.ofNat (d + 48)) = false ∧
          Char.ofNat (d + 48) ∉ ['#', '/', '\\'] := by decide
      exact hall d hd
    · obtain rfl := of_decide_eq_true (Bool.and_eq_true_iff.mp hpoint).1
      decide
  obtain ⟨hline, hblank, hname, hmark⟩ := hplain
  simp only [List.mem_cons, List.not_mem_nil, or_false, not_or] at hmark
  rw [scan, if_neg (by simp [hline, hblank]), if_neg (by simp [hmark]), if_neg (by simp [hmark]),
    if_neg (by simp [hmark]), if_neg (by simp [hname, hmark]), if_pos h]

/-- The tokens of a run that takes no more than `n` steps. -/
def runFor (lx : Lexer) : Nat → List Token × Option LexError
  | 0 => ([], none)
  | n + 1 =>
    match lx.next with
    | (.ok (some t), lx') => (t :: (lx'.runFor n).1, (lx'.runFor n).2)
    | (.ok none, _) => ([], none)
    | (.error e, _) => ([], some e)

lemma run_eq_runFor (lx : Lexer) {n : Nat} (hn : lx.rest.length < n) : lx.run = lx.runFor n := by
  induction n generalizing lx with
  | zero => omega
  | succ n ih =>
    rw [runFor]
    match h : lx.next with
    | (.ok (some t), lx') =>
      have hlt : lx.next.2.rest.length < lx.rest.length := next_rest_lt (congrArg Prod.fst h)
      rw [h] at hlt
      dsimp only at hlt
      rw [run_token h, ih lx' (by omega)]
    | (.ok none, lx') => rw [run_end h]
    | (.error e, lx') => rw [run_fault h]

end Lexer

theorem tokens_eq_runFor (source : String) :
    tokens source = (Lexer.ofString source).runFor (source.toList.length + 1) :=
  Lexer.run_eq_runFor _ (Nat.lt_succ_self _)

end Minify
