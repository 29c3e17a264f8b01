import Mathlib
import Minify.Proofs.LayoutHeads
import Minify.Proofs.PackingDecodes
import Minify.Proofs.ReadBack

/-!
Scripts that are compacted to themselves.

A script is tight when no line ends in it and no comment stands in it, when each blank in it is one
space that keeps two tokens apart, and when no semicolon stands in front of a closing brace. Reading
its lexemes from left to right, it takes three things to tell: the last text, whether a space has
been read since, and whether the last token was a semicolon.
-/

namespace Minify

namespace Layout

/-- Where a tight text has got to. -/
structure Edge where
  /-- The text of the last significant lexeme. -/
  last : String
  /-- A space was read since. -/
  spaced : Bool
  /-- The last significant lexeme is a semicolon. -/
  semicolon : Bool
  deriving DecidableEq

def Edge.step (e : Edge) (l : Lexeme) : Option Edge :=
  if l = ⟨.blank, " "⟩ then if e.spaced then none else some { e with spaced := true }
  else if l.kind.isTrivia || needsSpace e.last l.text != e.spaced
    || e.semicolon && l == .punct "\x7d" then none
  else some ⟨l.text, false, l == .semicolon⟩

def tight (ls : List Lexeme) : Bool :=
  (ls.foldlM Edge.step ⟨"", false, false⟩).any fun e => !e.spaced

def Edge.room (e : Edge) : List Lexeme := if e.spaced then [⟨.blank, " "⟩] else []

variable {e e' : Edge} {t : Token} {ts : List Token} {before : List Token}

lemma Edge.step_cases (h : e.step t.lexeme = some e') :
    (t.kind = .blank ∧ t.text = " " ∧ e.spaced = false ∧ e' = { e with spaced := true }) ∨
      (t.isTrivia = false ∧ needsSpace e.last t.text = e.spaced
        ∧ (e.semicolon = true → t.isPunct "\x7d" = false)
        ∧ e' = ⟨t.text, false, t.isPunct ";"⟩) := by
  have hpunct (p : String) : (t.lexeme == .punct p) = t.isPunct p := by
    rw [Bool.eq_iff_iff, beq_iff_eq, isPunct_iff_lexeme]
  have hsemicolon : (t.lexeme == .semicolon) = t.isPunct ";" := hpunct ";"
  unfold Edge.step at h
  split at h
  · rename_i hblank
    obtain ⟨hkind, htext⟩ := (Lexeme.mk.injEq ..).mp hblank
    split at h
    · cases h
    · rename_i hspaced
      exact .inl ⟨hkind, htext, Bool.eq_false_iff.mpr hspaced, (Option.some.inj h).symm⟩
  · split at h
    · cases h
    · rename_i hfits
      rw [hsemicolon] at h
      simp only [hpunct, Bool.or_eq_true, Bool.and_eq_true, bne_iff_ne, not_or, not_and,
        Decidable.not_not, Bool.not_eq_true] at hfits
      exact .inr ⟨hfits.1.1, hfits.1.2, hfits.2, (Option.some.inj h).symm⟩

lemma Edge.step_of_close {last : String} {l : Lexeme} (hkind : l.kind.isTrivia = false)
    (hsemi : (l == .semicolon) = false) (hneeds : needsSpace last l.text = false) :
    Edge.step ⟨last, false, false⟩ l = some ⟨l.text, false, false⟩ := by
  have hblank : l ≠ ⟨.blank, " "⟩ := by
    rintro rfl
    cases hkind
  unfold Edge.step
  rw [if_neg hblank, hkind, hneeds, hsemi]
  rfl

/-- In a tight text no closing brace comes after a semicolon. -/
lemma endsBlock_of_tight (h : (ts.map Token.lexeme).foldlM Edge.step e = some e')
    (hsemi : e.semicolon = true) : endsBlock ts = false := by
  induction ts generalizing e with
  | nil => rfl
  | cons t ts ih =>
    simp only [List.map_cons, List.foldlM_cons, Option.bind_eq_bind, Option.bind_eq_some_iff] at h
    obtain ⟨e₁, hstep, hrest⟩ := h
    rcases e.step_cases hstep with ⟨hkind, -, -, rfl⟩ | ⟨htrivia, -, hbrace, -⟩
    · rw [endsBlock_cons_of_left (by simp [isKept, isConditional, Token.isTrivia,
        TokenKind.isTrivia, hkind])]
      exact ih hrest hsemi
    · rw [endsBlock_cons (isKept_of_not_trivia htrivia)]
      exact hbrace hsemi

/-- Where no line ended, only a space can stand in front of a token. -/
lemma gapBefore_of_line (last text : String) :
    gapBefore before false last t text = if needsSpace last text then .space else .nothing := by
  have hline : ({ after before with lineBreak := false } : State).lineEnd t = .nothing := by
    unfold State.lineEnd
    split <;> simp
  unfold gapBefore State.write
  rw [hline]
  split <;> simp_all

lemma lexemes_entries_of_tight (h : (ts.map Token.lexeme).foldlM Edge.step e = some e')
    (hend : e'.spaced = false) :
    lexemes (entries before false e.last (unchanged ts)) = e.room ++ ts.map Token.lexeme := by
  induction ts generalizing e before with
  | nil =>
    cases h
    simp [Edge.room, hend, unchanged, entries, lexemes]
  | cons t ts ih =>
    simp only [List.map_cons, List.foldlM_cons, Option.bind_eq_bind, Option.bind_eq_some_iff] at h
    obtain ⟨e₁, hstep, hrest⟩ := h
    change lexemes (entries before false e.last ((t, t.text) :: unchanged ts)) = _
    rcases e.step_cases hstep with ⟨hkind, htext, hspaced, rfl⟩ | ⟨htrivia, hneeds, -, rfl⟩
    · have hblank : t.isTrivia = true := by simp [Token.isTrivia, TokenKind.isTrivia, hkind]
      have hroom : t.lexeme = ⟨.blank, " "⟩ := (Lexeme.mk.injEq ..).mpr ⟨hkind, htext⟩
      rw [entries, if_pos hblank, if_neg (by simp [isConditional, hkind]),
        show (false || breaksLine t) = false by simp [breaksLine, hkind], ih hrest]
      simp [Edge.room, hspaced, hroom]
    · have hleft : ¬t.isTrivia = true := by simp [htrivia]
      rw [entries, if_neg hleft]
      by_cases hsemi : t.isPunct ";" = true
      · have htext : t.text = ";" := (isPunct_iff.mp hsemi).2
        have hbody : (!isBody before && beforeBrace (unchanged ts)) = false := by
          rw [beforeBrace_unchanged, endsBlock_of_tight hrest hsemi, Bool.and_false]
        have hroom : e.room = [] := by
          rw [Edge.room, ← hneeds, htext, needsSpace_semicolon, if_neg Bool.false_ne_true]
        rw [if_pos hsemi, hbody, if_neg Bool.false_ne_true, ← htext, lexemes_cons, ih hrest, hroom]
        rfl
      · rw [if_neg hsemi, gapBefore_of_line, hneeds, lexemes_cons, ih hrest]
        unfold Edge.room
        split <;> simp [Gap.lexemes]

lemma laidOut_of_tight (h : tight (ts.map Token.lexeme) = true) :
    laidOut ts = ts.map Token.lexeme := by
  obtain ⟨e, he, hspaced⟩ := Option.any_eq_true .. |>.mp h
  exact lexemes_entries_of_tight he (by simpa using hspaced)

end Layout

open Layout

/-- **A tight script is compacted to itself.** -/
theorem compact_of_tight {source : String} {ts : List Token} (h : tokenize source = .ok ts)
    (htight : tight (ts.map Token.lexeme) = true) : (compact ts ∅).code = source := by
  have hrun : (Lexer.ofString source).run = (ts, none) := tokenize_eq_ok h
  rw [← String.toList_inj, code_compact, laidOut_of_tight htight, ← Lexer.spelled_of_run hrun]
  rfl

/-- With the default options a script is compacted and nothing else. -/
lemma pack_default {source : String} {ts : List Token} (h : tokenize source = .ok ts)
    (protectedNames : ProtectedNames) :
    ∃ r, pack protectedNames {} source = .ok r ∧ r.code = (compact ts ∅).code := by
  have hnone : PrivateNames.empty.replacements ts = ∅ := by
    have hall (x : Token × Nat) : PrivateNames.empty.newText? x.1 = none := by
      simp [PrivateNames.newText?, PrivateNames.rename, PrivateNames.get?, PrivateNames.empty]
    unfold PrivateNames.replacements
    simp only [hall, Option.map_none, List.filterMap_none]
    rfl
  have hlayOut : layOut protectedNames {} source = .ok (compact ts ∅) := by
    rw [← hnone, layOut, h]
    rfl
  rw [pack_eq_map_layOut protectedNames source rfl, hlayOut]
  exact ⟨_, rfl, rfl⟩

end Minify
