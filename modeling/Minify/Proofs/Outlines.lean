import Mathlib.Tactic.Common
import Minify.Proofs.LaidOut
import Minify.Proofs.Renumbering
import Minify.Proofs.SitesInScript

/-!
The outline of a script, and the scopes that it determines.

The outline holds what is neither blank nor comment, and the conditional comments, each piece
without its place; of the line ends it says only whether there was one between two significant
tokens. Two scripts with the same outline have the same sites, but for indices and offsets. So both
are balanced, or both fail for the same reason, and their scopes are the same.
-/

namespace Minify

open Layout

/-- A token that is kept, without its place. -/
structure KeptToken where
  kind : TokenKind
  text : String
  /-- It is significant, and a line ended since the significant token before it. -/
  newline : Bool
  deriving DecidableEq, Repr

/-- The tokens that are kept: `started` when a significant one stands before them, and `newline`
when a line ended since. -/
def outline (started newline : Bool) : List Token → List KeptToken
  | [] => []
  | t :: ts =>
    if isConditional t then ⟨t.kind, t.text, false⟩ :: outline started newline ts
    else if t.isTrivia then outline started (newline || breaksLine t) ts
    else ⟨t.kind, t.text, started && newline⟩ :: outline true false ts

/-- The outline of a script. -/
def outlineOf (tokens : List Token) : List KeptToken := outline false false tokens

/-- How many significant tokens stand in front of the one at an index. -/
def rank (tokens : List Token) (i : Nat) : Nat :=
  ((tokens.take i).filter fun t => !t.isTrivia).length

/-- The scopes of a script whose significant tokens are numbered in their order, or the reason why
its brackets do not fit. -/
def ScopeTree.reading (tokens : List Token) : Except ScopeReason ScopeTree :=
  ((ofTokens tokens).map (renumber (rank tokens))).mapError ScopeError.reason

variable {tokens a b : List Token} {t : Token} {newline : Bool} {f : Nat → Nat} {index k : Nat}

/-! ### Outlines token by token -/

lemma isTrivia_of_isConditional (h : isConditional t = true) : t.isTrivia = true := by
  have hk : t.kind = .comment .conditional := by simpa [isConditional] using h
  simp [Token.isTrivia, TokenKind.isTrivia, hk]

lemma breaksLine_of_isConditional (h : isConditional t = true) : breaksLine t = false := by
  have hk : t.kind = .comment .conditional := by simpa [isConditional] using h
  simp [breaksLine, hk]

lemma isConditional_of_not_trivia (h : t.isTrivia = false) : isConditional t = false := by
  by_contra hc
  rw [isTrivia_of_isConditional (by simpa using hc)] at h
  cases h

/-- A token is left out, or a conditional comment, or significant. -/
lemma outline_cases (t : Token) :
    (t.isTrivia = true ∧ isConditional t = false ∧ ∀ started newline ts,
        outline started newline (t :: ts) = outline started (newline || breaksLine t) ts) ∨
      (t.isTrivia = true ∧ isConditional t = true ∧ ∀ started newline ts,
        outline started newline (t :: ts)
          = ⟨t.kind, t.text, false⟩ :: outline started newline ts) ∨
      (t.isTrivia = false ∧ isConditional t = false ∧ ∀ started newline ts,
        outline started newline (t :: ts)
          = ⟨t.kind, t.text, started && newline⟩ :: outline true false ts) := by
  cases htrivia : t.isTrivia with
  | false =>
    have hcond := isConditional_of_not_trivia htrivia
    exact .inr (.inr ⟨rfl, hcond, fun _ _ _ => by simp [outline, hcond, htrivia]⟩)
  | true =>
    cases hcond : isConditional t with
    | false => exact .inl ⟨rfl, rfl, fun _ _ _ => by simp [outline, hcond, htrivia]⟩
    | true => exact .inr (.inl ⟨rfl, rfl, fun _ _ _ => by simp [outline, hcond]⟩)

lemma rank_zero (tokens : List Token) : rank tokens 0 = 0 := rfl

lemma rank_cons_succ (t : Token) (ts : List Token) (i : Nat) :
    rank (t :: ts) (i + 1) = (if t.isTrivia then 0 else 1) + rank ts i := by
  unfold rank
  rw [List.take_succ_cons, List.filter_cons]
  cases t.isTrivia with
  | true => simp
  | false => simp [Nat.add_comm]

lemma rank_lt {i j : Nat} (h : i < j) (ht : tokens[i]? = some t) (hs : t.isTrivia = false) :
    rank tokens i < rank tokens j := by
  induction tokens generalizing i j with
  | nil => cases ht
  | cons u ts ih =>
    obtain ⟨j, rfl⟩ : ∃ j', j = j' + 1 := ⟨j - 1, by omega⟩
    cases i with
    | zero =>
      cases ht
      rw [rank_zero, rank_cons_succ, hs]
      simp
    | succ i =>
      rw [rank_cons_succ, rank_cons_succ]
      exact Nat.add_lt_add_left (ih (by omega) ht) _

lemma rank_injective {i j : Nat} {u : Token} (ht : tokens[i]? = some t) (hs : t.isTrivia = false)
    (hu : tokens[j]? = some u) (hs' : u.isTrivia = false) (h : rank tokens i = rank tokens j) :
    i = j := by
  rcases Nat.lt_trichotomy i j with hlt | rfl | hlt
  · exact absurd h (Nat.ne_of_lt (rank_lt hlt ht hs))
  · rfl
  · exact absurd h.symm (Nat.ne_of_lt (rank_lt hlt hu hs'))

/-! ### Sites -/

namespace Site

/-- The sites of an outline, numbered from `k` on. -/
def ofOutline (k : Nat) : List KeptToken → List Site
  | [] => []
  | p :: ps =>
    if p.kind.isTrivia then ofOutline k ps
    else ⟨k, ⟨p.kind, p.text, 0⟩, p.newline, false⟩ :: ofOutline (k + 1) ps

lemma significant_of_isTrivia (h : t.isTrivia = true) (index : Nat) (newline : Bool)
    (ts : List Token) :
    significant index newline (t :: ts) = significant (index + 1) (newline || breaksLine t) ts := by
  have hkeep (hb : breaksLine t = false) (hs : significant index newline (t :: ts)
      = significant (index + 1) newline ts) : significant index newline (t :: ts)
        = significant (index + 1) (newline || breaksLine t) ts := by
    rw [hs, hb, Bool.or_false]
  have hbreak (hb : breaksLine t = true) (hs : significant index newline (t :: ts)
      = significant (index + 1) true ts) : significant index newline (t :: ts)
        = significant (index + 1) (newline || breaksLine t) ts := by
    rw [hs, hb, Bool.or_true]
  unfold Token.isTrivia TokenKind.isTrivia at h
  cases hk : t.kind with
  | blank => exact hkeep (by simp [breaksLine, hk]) (by simp only [significant, hk])
  | lineBreak => exact hbreak (by simp [breaksLine, hk]) (by simp only [significant, hk])
  | comment kind =>
    rcases kind with _ | (_ | _) | _
    · exact hkeep (by simp [breaksLine, hk]) (by simp only [significant, hk])
    · exact hkeep (by simp [breaksLine, hk]) (by simp only [significant, hk])
    · exact hbreak (by simp [breaksLine, hk]) (by simp only [significant, hk])
    · exact hkeep (by simp [breaksLine, hk]) (by simp only [significant, hk])
  | _ => simp [hk] at h

lemma significant_of_not_isTrivia (h : t.isTrivia = false) (index : Nat) (newline : Bool)
    (ts : List Token) : significant index newline (t :: ts)
      = ⟨index, t, newline, false⟩ :: significant (index + 1) false ts := by
  rcases significant_cons index newline t with ⟨ht, -⟩ | ⟨-, he⟩
  · rw [h] at ht
    cases ht
  · exact he ts

lemma significant_renumber {first : Bool} (hf : ∀ j, f (index + j) = k + rank tokens j) :
    renumberFrom f first (significant index newline tokens)
      = ofOutline k (outline (!first) newline tokens) := by
  induction tokens generalizing index k newline first with
  | nil => rfl
  | cons t ts ih =>
    have hstep (j : Nat) : f (index + 1 + j) = k + (if t.isTrivia then 0 else 1) + rank ts j := by
      rw [Nat.add_assoc, Nat.add_comm 1 j, hf, rank_cons_succ, Nat.add_assoc]
    rcases outline_cases t with ⟨ht, hc, ho⟩ | ⟨ht, hc, ho⟩ | ⟨ht, hc, ho⟩
    · rw [ht] at hstep
      rw [ho, significant_of_isTrivia ht]
      exact ih hstep
    · rw [ht] at hstep
      have hk : (⟨t.kind, t.text, false⟩ : KeptToken).kind.isTrivia = true := ht
      rw [ho, significant_of_isTrivia ht, breaksLine_of_isConditional hc, Bool.or_false, ofOutline,
        if_pos hk]
      exact ih hstep
    · rw [ht] at hstep
      have hk : ¬(⟨t.kind, t.text, !first && newline⟩ : KeptToken).kind.isTrivia = true := by
        change ¬t.isTrivia = true
        simp [ht]
      have hindex : f index = k := hf 0
      have hrest : renumberFrom f false (significant (index + 1) false ts)
          = ofOutline _ (outline true false ts) := ih hstep
      rw [ho, significant_of_not_isTrivia ht, renumberFrom, ofOutline, if_neg hk, hrest, renumber,
        hindex]
      rfl

lemma markArrows_renumber (first : Bool) (sites : List Site) :
    markArrows (renumberFrom f first sites)
      = (renumberFrom f first (markArrows sites).1, (markArrows sites).2) := by
  induction sites generalizing first with
  | nil => rfl
  | cons s rest ih =>
    have hbracket : bracket (s.renumber f first).token = bracket s.token := rfl
    have harrow : ((renumberFrom f false rest).head?.any fun n => n.token.isPunct "=>")
        = rest.head?.any fun n => n.token.isPunct "=>" := by
      cases rest <;> rfl
    rw [renumberFrom, markArrows, markArrows, hbracket, harrow, ih]
    cases bracket s.token <;> rfl

lemma significant_rank (tokens : List Token) :
    renumberFrom (rank tokens) true (significant 0 false tokens)
      = ofOutline 0 (outlineOf tokens) :=
  significant_renumber fun j => by rw [Nat.zero_add, Nat.zero_add]

lemma ofTokens_renumber {tokens : List Token} (h : Brackets.check tokens = .ok ()) :
    renumberFrom (rank tokens) true (ofTokens tokens)
      = (markArrows (ofOutline 0 (outlineOf tokens))).1 := by
  rw [ofTokens_eq_markArrows h, ← significant_rank, markArrows_renumber]

lemma map_token_renumberFrom (first : Bool) (sites : List Site) :
    (renumberFrom f first sites).map Site.token = (sites.map Site.token).map Token.unplaced := by
  induction sites generalizing first with
  | nil => rfl
  | cons s rest ih =>
    rw [renumberFrom, List.map_cons, ih]
    rfl

/-- The significant tokens of a script are those of its outline. -/
lemma filter_unplaced (tokens : List Token) :
    (tokens.filter fun t => !t.isTrivia).map Token.unplaced
      = (ofOutline 0 (outlineOf tokens)).map Site.token := by
  rw [← significant_rank, map_token_renumberFrom, map_token_significant]

end Site

/-! ### Brackets -/

namespace Brackets

/-- The open brackets, or the reason of an error, without their places. -/
def bare (r : Except ScopeError (List (Char × Nat))) : Except ScopeReason (List Char) :=
  (r.map (List.map Prod.fst)).mapError ScopeError.reason

variable {stack stack' : List (Char × Nat)} {t' : Token}

lemma close_bare (h : stack.map Prod.fst = stack'.map Prod.fst) (found : Char) (i j : Nat) :
    bare (close found i stack) = bare (close found j stack') := by
  cases stack with
  | nil =>
    rw [List.map_eq_nil_iff.mp h.symm]
    rfl
  | cons x xs =>
    cases stack' with
    | nil => cases h
    | cons y ys =>
      obtain ⟨hhead, hrest⟩ := List.cons_eq_cons.mp h
      rw [close, close, hhead]
      split
      · exact congrArg Except.ok hrest
      · rfl

/-- Results that are the same without places: both are errors for one reason, or both are brackets.
-/
lemma bare_cases {r r' : Except ScopeError (List (Char × Nat))} (h : bare r = bare r') :
    (∃ e e', r = .error e ∧ r' = .error e' ∧ e.reason = e'.reason) ∨
      ∃ s s', r = .ok s ∧ r' = .ok s' ∧ s.map Prod.fst = s'.map Prod.fst := by
  cases r <;> cases r' <;> simp_all [bare, Except.map, Except.mapError]

lemma step_bare (h : stack.map Prod.fst = stack'.map Prod.fst) (ht : t.unplaced = t'.unplaced) :
    bare (step stack t) = bare (step stack' t') := by
  have hbracket : Site.bracket t = Site.bracket t' := by
    have hb : Site.bracket t.unplaced = Site.bracket t'.unplaced := congrArg _ ht
    exact hb
  unfold step
  rw [hbracket]
  cases Site.bracket t' with
  | opens c => exact congrArg (fun s => Except.ok (c :: s)) h
  | closes c => exact close_bare h c _ _
  | reopens =>
    dsimp only
    rcases bare_cases (close_bare h '\x7d' t.start t'.start) with
      ⟨e, e', he, he', hr⟩ | ⟨s, s', hs, hs', hr⟩
    · rw [he, he']
      exact congrArg Except.error hr
    · rw [hs, hs']
      exact congrArg (fun s => Except.ok ('\x7b' :: s)) hr
  | none => exact congrArg Except.ok h

lemma foldlM_bare {ts ts' : List Token} (hts : ts.map Token.unplaced = ts'.map Token.unplaced)
    (h : stack.map Prod.fst = stack'.map Prod.fst) :
    bare (ts.foldlM step stack) = bare (ts'.foldlM step stack') := by
  induction ts generalizing ts' stack stack' with
  | nil =>
    rw [List.map_eq_nil_iff.mp hts.symm]
    exact congrArg Except.ok h
  | cons t ts ih =>
    cases ts' with
    | nil => cases hts
    | cons t' ts' =>
      obtain ⟨ht, hrest⟩ := List.cons_eq_cons.mp hts
      rw [List.foldlM_cons, List.foldlM_cons]
      rcases bare_cases (step_bare h ht) with ⟨e, e', he, he', hr⟩ | ⟨s, s', hs, hs', hr⟩
      · rw [he, he']
        exact congrArg Except.error hr
      · rw [hs, hs']
        exact ih hrest hr

/-- The brackets of scripts with the same outline fit, or fail to for the same reason. -/
lemma check_outline (h : outlineOf a = outlineOf b) :
    (check a).mapError ScopeError.reason = (check b).mapError ScopeError.reason := by
  have htokens : (a.filter fun t => !t.isTrivia).map Token.unplaced
      = (b.filter fun t => !t.isTrivia).map Token.unplaced := by
    rw [Site.filter_unplaced, Site.filter_unplaced, h]
  have hnone : ([] : List (Char × Nat)).map Prod.fst = ([] : List (Char × Nat)).map Prod.fst := rfl
  have hbare := foldlM_bare htokens hnone
  rw [Site.foldlM_step_filter, Site.foldlM_step_filter] at hbare
  rw [check_eq, check_eq]
  rcases bare_cases hbare with ⟨e, e', he, he', hr⟩ | ⟨s, s', hs, hs', hr⟩
  · rw [he, he']
    exact congrArg Except.error hr
  · rw [hs, hs']
    cases s with
    | nil => rw [List.map_eq_nil_iff.mp hr.symm]
    | cons x xs =>
      cases s' with
      | nil => cases hr
      | cons y ys =>
        obtain ⟨hhead, -⟩ := List.cons_eq_cons.mp hr
        exact congrArg (fun c => Except.error (ScopeReason.unclosed c)) hhead

end Brackets

/-! ### Scopes -/

lemma run_ofTokens_renumber {tokens : List Token} (h : Brackets.check tokens = .ok ()) :
    (Tracker.start.run (Site.ofTokens tokens)).renumber (rank tokens)
      = Tracker.start.run (Site.markArrows (Site.ofOutline 0 (outlineOf tokens))).1 := by
  rw [← Site.ofTokens_renumber h, ← Tracker.run_renumber]
  rfl

/-- **Scripts with the same outline have the same scopes.** -/
theorem ScopeTree.reading_of_outline (h : outlineOf a = outlineOf b) :
    reading a = reading b := by
  have hcheck := Brackets.check_outline h
  rw [reading, reading, ofTokens_eq, ofTokens_eq]
  cases ha : Brackets.check a with
  | error e =>
    cases hb : Brackets.check b with
    | error e' =>
      rw [ha, hb] at hcheck
      exact congrArg Except.error (Except.error.inj hcheck)
    | ok u =>
      rw [ha, hb] at hcheck
      cases hcheck
  | ok u =>
    cases hb : Brackets.check b with
    | error e =>
      rw [ha, hb] at hcheck
      cases hcheck
    | ok u' =>
      have hrun : (Tracker.start.run (Site.ofTokens a)).renumber (rank a)
          = (Tracker.start.run (Site.ofTokens b)).renumber (rank b) := by
        rw [run_ofTokens_renumber ha, run_ofTokens_renumber hb, h]
      have hscopes := congrArg Tracker.scopes hrun
      have hinside := congrArg Tracker.inside hrun
      have hoccurrences := congrArg (fun s => s.occurrences.reverse) hrun
      simp only [Tracker.renumber] at hscopes hinside hoccurrences
      refine congrArg Except.ok ?_
      rw [Tracker.tree, Tracker.tree, renumber, renumber, List.map_reverse, List.map_reverse,
        hscopes, hinside, hoccurrences]

end Minify
