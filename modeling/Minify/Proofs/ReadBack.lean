import Mathlib
import Minify.Proofs.ChunkPlaces
import Minify.Proofs.Lexemes

/-!
When a compacted script reads as the script it came from.

The layout spells lexemes: those of the tokens that stay, and what stands in the gaps. The lexer
reads them back when none runs on into the text after it and the first two characters open no
comment, and only then, even if the semicolons are left open: it stands in front of each token as it
did in the script, since a semicolon put in or left out does not matter to the token after it.
-/

namespace Minify

namespace Layout

open Lexer

/-! ### What a layout spells -/

/-- What stands in a gap. -/
def Gap.lexemes : Gap → List Lexeme
  | nothing => []
  | space => [⟨.blank, " "⟩]
  | semicolon => [Lexeme.semicolon]
  | lineFeed => [⟨.lineBreak, "\n"⟩]

/-- The lexemes that some entries spell. -/
def lexemes (es : List Entry) : List Lexeme :=
  es.flatMap fun e => e.gap.lexemes ++ [⟨e.token.kind, e.text⟩]

def unchanged (ts : List Token) : List (Token × String) := ts.map fun t => (t, t.text)

def laidOut (ts : List Token) : List Lexeme := lexemes (entries [] false "" (unchanged ts))

lemma newTexts_empty (ts : List Token) : newTexts ts ∅ = unchanged ts := by
  unfold newTexts unchanged
  simp only [Std.TreeMap.getElem?_emptyc, Option.getD_none]
  conv_rhs => rw [← List.zipIdx_map_fst 0 ts, List.map_map]
  rfl

lemma spelled_gap (g : Gap) : Lexeme.spelled g.lexemes = g.text.toList := by
  cases g <;> rfl

lemma spelled_lexemes (es : List Entry) : Lexeme.spelled (lexemes es) = (textOf es).toList := by
  induction es with
  | nil => rfl
  | cons e es ih =>
    unfold lexemes textOf at ih ⊢
    rw [List.flatMap_cons, List.map_cons, String.join_cons, String.toList_append, ← ih,
      Lexeme.spelled_append, Lexeme.spelled_append, spelled_gap, String.toList_append]
    simp [Lexeme.spelled]

lemma code_compact (ts : List Token) :
    (compact ts ∅).code.toList = Lexeme.spelled (laidOut ts) := by
  rw [laidOut, spelled_lexemes, ← code_map_chunk, ← newTexts_empty, ← chunks_eq_entries]
  rfl

/-- The mark of a comment that only stands at the front of a script. -/
def opensComment (cs : List Char) : Bool := ['#', '!'].isPrefixOf cs

/-- No token of the compacted script runs on into the text after it, and no comment opens it. -/
def readsBack (ts : List Token) : Bool :=
  Lexeme.apart (laidOut ts) && !opensComment (Lexeme.spelled (laidOut ts))

/-! ### The tokens of a script up to semicolons -/

def endsBlock (ts : List Token) : Bool := (ts.find? isKept).any fun t => t.isPunct "\x7d"

/-- The lexemes are those of the significant tokens and conditional comments, in order. A semicolon
directly in front of a closing brace may be missing. One may have been added in front of a token on
a new line after a keyword whose operand may not follow there: `prev` is the significant token
before, and `lineBreak` says whether a line ended since. -/
inductive Keeps : Option Token → Bool → List Token → List Lexeme → Prop
  | nil {prev : Option Token} {lineBreak : Bool} : Keeps prev lineBreak [] []
  | left {prev : Option Token} {lineBreak : Bool} {t : Token} {ts : List Token} {ls : List Lexeme}
      (h : isKept t = false) (hts : Keeps prev (lineBreak || breaksLine t) ts ls) :
      Keeps prev lineBreak (t :: ts) ls
  | comment {prev : Option Token} {lineBreak : Bool} {t : Token} {ts : List Token}
      {ls : List Lexeme} (h : isConditional t = true) (hts : Keeps prev lineBreak ts ls) :
      Keeps prev lineBreak (t :: ts) (t.lexeme :: ls)
  | token {prev : Option Token} {lineBreak : Bool} {t : Token} {ts : List Token} {ls : List Lexeme}
      (h : t.isTrivia = false) (hts : Keeps (some t) false ts ls) :
      Keeps prev lineBreak (t :: ts) (t.lexeme :: ls)
  | missing {prev : Option Token} {lineBreak : Bool} {t : Token} {ts : List Token}
      {ls : List Lexeme} (h : t.isPunct ";" = true) (hends : endsBlock ts = true)
      (hts : Keeps (some t) false ts ls) : Keeps prev lineBreak (t :: ts) ls
  | added {p t : Token} {ts : List Token} {ls : List Lexeme} (h : t.isTrivia = false)
      (hp : p.isRestricted = true) (hts : Keeps (some t) false ts ls) :
      Keeps (some p) true (t :: ts) (Lexeme.semicolon :: t.lexeme :: ls)

variable {before : List Token} {lineBreak : Bool} {last : String} {ts : List Token}
  {ls : List Lexeme} {t : Token} {g : Gap}

lemma isKept_lexeme (t : Token) : t.lexeme.isKept = isKept t := rfl

lemma Keeps.fixed {prev : Option Token} (h : Keeps prev lineBreak ts ls) :
    ls.filter Lexeme.isFixed = (ts.map Token.lexeme).filter Lexeme.isFixed := by
  have hsemi : Lexeme.semicolon.isFixed = false := by decide
  induction h with
  | nil => rfl
  | @left _ _ t _ _ h _ ih =>
    have hfixed : t.lexeme.isFixed = false := by simp [Lexeme.isFixed, isKept_lexeme, h]
    rw [ih, List.map_cons, List.filter_cons, hfixed]
    rfl
  | comment h _ ih => simp only [List.map_cons, List.filter_cons, ih]
  | token h _ ih => simp only [List.map_cons, List.filter_cons, ih]
  | @missing _ _ t _ _ h _ _ ih =>
    have hlexeme : t.lexeme = Lexeme.semicolon := by
      simp_all [Token.isPunct, Token.lexeme, Lexeme.semicolon]
    rw [ih, List.map_cons, List.filter_cons, hlexeme, hsemi]
    rfl
  | added h _ _ ih =>
    simp only [List.map_cons, List.filter_cons, ih, hsemi, Bool.false_eq_true, if_false]

/-! ### What the gaps are -/

lemma filter_gap (g : Gap) : g.lexemes.filter Lexeme.isKept
    = if g = .semicolon then [Lexeme.semicolon] else [] := by
  cases g <;> rfl

/-- A semicolon is put in only after a keyword whose operand may not follow on the next line. -/
lemma gapBefore_eq_semicolon {text : String}
    (h : gapBefore before lineBreak last t text = .semicolon) :
    lineBreak = true ∧ t.isPunct "\x7d" = false ∧
      ∃ p, before.getLast? = some p ∧ p.isRestricted = true := by
  have hend : ({ after before with lineBreak := lineBreak } : State).lineEnd t = .semicolon := by
    unfold gapBefore State.write at h
    dsimp only at h
    split at h
    · cases h
    · exact h
  unfold State.lineEnd at hend
  dsimp only at hend
  rw [prev_after] at hend
  split at hend
  · cases hend
  · rename_i p hp
    split_ifs at hend with hline hrestricted hbrace
    exact ⟨by simpa using hline, by simpa using hbrace, p, hp, hrestricted⟩

lemma beforeBrace_unchanged (ts : List Token) : beforeBrace (unchanged ts) = endsBlock ts := by
  unfold beforeBrace unchanged endsBlock
  rw [List.find?_map, Option.any_map]
  rfl

lemma entries_cases (before : List Token) (lineBreak : Bool) (last : String) (t : Token)
    (ts : List Token) :
    (isKept t = false ∧ entries before lineBreak last (unchanged (t :: ts))
        = entries before (lineBreak || breaksLine t) last (unchanged ts)) ∨
      (isConditional t = true ∧ ∃ g, g ≠ .semicolon ∧
        entries before lineBreak last (unchanged (t :: ts))
          = ⟨g, t, t.text⟩ :: entries before lineBreak t.text (unchanged ts)) ∨
      (t.isPunct ";" = true ∧ endsBlock ts = true ∧
        entries before lineBreak last (unchanged (t :: ts))
          = entries (before ++ [t]) false last (unchanged ts)) ∨
      (t.isTrivia = false ∧ ∃ g, (g = .semicolon → lineBreak = true ∧ t.isPunct "\x7d" = false ∧
          ∃ p, before.getLast? = some p ∧ p.isRestricted = true) ∧
        entries before lineBreak last (unchanged (t :: ts))
          = ⟨g, t, t.text⟩ :: entries (before ++ [t]) false t.text (unchanged ts)) := by
  have hcons : unchanged (t :: ts) = (t, t.text) :: unchanged ts := rfl
  rw [hcons, entries]
  split
  · rename_i htrivia
    split
    · rename_i hcond
      refine .inr (.inl ⟨hcond, _, ?_, rfl⟩)
      split <;> decide
    · rename_i hcond
      exact .inl ⟨by simp [isKept, htrivia, hcond], rfl⟩
  · rename_i htrivia
    rw [Bool.not_eq_true] at htrivia
    split
    · rename_i hsemi
      have htext : ";" = t.text := by simp_all [Token.isPunct]
      split
      · rename_i hends
        rw [beforeBrace_unchanged, Bool.and_eq_true] at hends
        exact .inr (.inr (.inl ⟨hsemi, hends.2, rfl⟩))
      · exact .inr (.inr (.inr ⟨htrivia, .nothing, fun h => Gap.noConfusion h, by rw [← htext]⟩))
    · exact .inr (.inr (.inr ⟨htrivia, _, gapBefore_eq_semicolon, rfl⟩))

lemma lexemes_cons (g : Gap) (t : Token) (es : List Entry) :
    lexemes (⟨g, t, t.text⟩ :: es) = g.lexemes ++ t.lexeme :: lexemes es := by
  simp [lexemes, Token.lexeme]

/-- **A compacted script keeps its tokens.** -/
lemma keeps_entries (before : List Token) (lineBreak : Bool) (last : String) (ts : List Token) :
    Keeps before.getLast? lineBreak ts
      ((lexemes (entries before lineBreak last (unchanged ts))).filter Lexeme.isKept) := by
  induction ts generalizing before lineBreak last with
  | nil => exact .nil
  | cons t ts ih =>
    rcases entries_cases before lineBreak last t ts with ⟨hkept, hes⟩ | ⟨hcond, g, hg, hes⟩ |
        ⟨hsemi, hends, hes⟩ | ⟨htrivia, g, hg, hes⟩ <;> rw [hes]
    · exact .left hkept (ih ..)
    · have hkept : t.lexeme.isKept = true := by simp [isKept_lexeme, isKept, hcond]
      rw [lexemes_cons, List.filter_append, filter_gap, if_neg hg, List.nil_append,
        List.filter_cons_of_pos hkept]
      exact .comment hcond (ih ..)
    · have hrest := ih (before ++ [t]) false last
      rw [List.getLast?_concat] at hrest
      exact .missing hsemi hends hrest
    · have hkept : t.lexeme.isKept = true := by simp [isKept_lexeme, isKept, htrivia]
      have hrest := ih (before ++ [t]) false t.text
      rw [List.getLast?_concat] at hrest
      rw [lexemes_cons, List.filter_append, filter_gap, List.filter_cons_of_pos hkept]
      by_cases hsemi : g = .semicolon
      · obtain ⟨hline, -, p, hp, hrestricted⟩ := hg hsemi
        rw [if_pos hsemi, hline, hp]
        exact .added htrivia hrestricted hrest
      · rw [if_neg hsemi]
        exact .token htrivia hrest

/-! ### Gaps and ink in a layout -/

lemma isGap_space : Lexeme.IsGap ⟨.blank, " "⟩ :=
  ⟨rfl, fun _ hc => List.mem_singleton.mp hc ▸ rfl, List.cons_ne_nil _ _⟩

lemma isGap_lineFeed : Lexeme.IsGap ⟨.lineBreak, "\n"⟩ :=
  ⟨rfl, fun _ hc => List.mem_singleton.mp hc ▸ rfl, List.cons_ne_nil _ _⟩

lemma isInk_semicolon : Lexeme.semicolon.IsInk := ⟨by decide, ';', [], rfl, by decide, fun _ => rfl⟩

/-- The lexemes of a layout are gaps and tokens that stay, and a token follows on a gap. -/
structure WellSpaced (ls : List Lexeme) : Prop where
  shape : ∀ l ∈ ls, l.IsGap ∨ (l.IsInk ∧ l.isKept = true)
  spaced : Lexeme.Spaced ls

lemma WellSpaced.ink (h : WellSpaced ls) {l : Lexeme} (hink : l.IsInk) (hkept : l.isKept = true) :
    WellSpaced (l :: ls) := by
  refine ⟨List.forall_mem_cons.mpr ⟨.inr ⟨hink, hkept⟩, h.shape⟩, fun hgap => ?_, h.spaced⟩
  exact absurd hgap hink.not_gap

lemma WellSpaced.gap (h : WellSpaced ls) {l k : Lexeme} (hl : l.IsInk) (hkept : l.isKept = true)
    (hk : k.IsGap) : WellSpaced (k :: l :: ls) :=
  ⟨List.forall_mem_cons.mpr ⟨.inl hk, (h.ink hl hkept).shape⟩, fun _ => hl.head_spelled,
    (h.ink hl hkept).spaced⟩

lemma wellSpaced_entries (hink : ∀ t ∈ ts, isKept t = true → t.lexeme.IsInk)
    (before : List Token) (lineBreak : Bool) (last : String) :
    WellSpaced (lexemes (entries before lineBreak last (unchanged ts))) := by
  induction ts generalizing before lineBreak last with
  | nil => exact ⟨nofun, trivial⟩
  | cons t ts ih =>
    obtain ⟨ht, hts⟩ := List.forall_mem_cons.mp hink
    have hcons (g : Gap) (hkept : isKept t = true) {es : List Entry} (h : WellSpaced (lexemes es)) :
        WellSpaced (lexemes (⟨g, t, t.text⟩ :: es)) := by
      rw [lexemes_cons]
      cases g with
      | nothing => exact h.ink (ht hkept) hkept
      | space => exact h.gap (ht hkept) hkept isGap_space
      | semicolon => exact (h.ink (ht hkept) hkept).ink isInk_semicolon rfl
      | lineFeed => exact h.gap (ht hkept) hkept isGap_lineFeed
    rcases entries_cases before lineBreak last t ts with ⟨-, hes⟩ | ⟨hcond, g, -, hes⟩ |
        ⟨-, -, hes⟩ | ⟨htrivia, g, -, hes⟩ <;> rw [hes]
    · exact ih hts ..
    · exact hcons g (by simp [isKept, hcond]) (ih hts ..)
    · exact ih hts ..
    · exact hcons g (by simp [isKept, htrivia]) (ih hts ..)

/-! ### Reading a layout -/

variable {lx lx' lo : Lexer}

lemma reads_token (hnext : lx.next = (.ok (some t), lx')) (hkept : isKept t = true)
    (hop : t.isPunct "\x7d" = false → lo.afterOperand = lx.afterOperand)
    (hdepth : lo.depth = lx.depth) (hresume : lo.resume = lx.resume)
    (hrest : lo.rest = Lexeme.spelled (t.lexeme :: ls))
    (hapart : Lexeme.apart (t.lexeme :: ls) = true)
    (hhash : lo.pos = 0 → opensComment lo.rest = false)
    (ih : ∀ lo', SameState lx' lo' → lo'.rest = Lexeme.spelled ls → 0 < lo'.pos →
      Lexeme.apart ls = true → lo'.Reads ls) :
    lo.Reads (t.lexeme :: ls) := by
  simp only [Lexeme.apart, Bool.and_eq_true, Bool.not_eq_true'] at hapart
  have hline : t.kind ≠ .comment .line := by
    intro hk
    simp [isKept, isConditional, Token.isTrivia, TokenKind.isTrivia, hk] at hkept
  obtain ⟨lo', hnext', hrest', hpos, hstate⟩ := next_again hnext hline hop hdepth hresume hrest
    hapart.1 fun hpos hmark => by
      have hopens := hhash hpos
      rw [opensComment, Bool.eq_false_iff] at hopens
      exact hopens (List.isPrefixOf_iff_prefix.mpr hmark)
  exact (ih lo' hstate hrest' hpos hapart.2).cons (t := ⟨t.kind, t.text, lo.pos⟩) hnext'

lemma reads_entry (g : Gap) (hnext : lx.next = (.ok (some t), lx')) (hkept : isKept t = true)
    (hop : t.isPunct "\x7d" = false → lo.afterOperand = lx.afterOperand)
    (hdepth : lo.depth = lx.depth) (hresume : lo.resume = lx.resume)
    (hg : g = .semicolon → lx.afterOperand = false)
    (hrest : lo.rest = Lexeme.spelled (g.lexemes ++ t.lexeme :: ls))
    (hapart : Lexeme.apart (g.lexemes ++ t.lexeme :: ls) = true)
    (hhash : lo.pos = 0 → opensComment lo.rest = false)
    (ih : ∀ lo', SameState lx' lo' → lo'.rest = Lexeme.spelled ls → 0 < lo'.pos →
      Lexeme.apart ls = true → lo'.Reads ls) :
    lo.Reads (g.lexemes ++ t.lexeme :: ls) := by
  have hspace {l : Lexeme} (hl : l.IsGap) (hrest : lo.rest = Lexeme.spelled (l :: t.lexeme :: ls))
      (hapart : Lexeme.apart (l :: t.lexeme :: ls) = true) :
      lo.Reads (l :: t.lexeme :: ls) := by
    rw [Lexeme.apart, Bool.and_eq_true, Bool.not_eq_true'] at hapart
    obtain ⟨lo₁, hnext₁, hrest₁, hpos₁, hstate⟩ := next_gap hl hrest hapart.1
    refine Reads.cons ?_ hnext₁
    exact reads_token hnext hkept (fun h => hstate.afterOperand.trans (hop h))
      (hstate.depth.trans hdepth) (hstate.resume.trans hresume) hrest₁ hapart.2
      (fun h => absurd h hpos₁.ne') ih
  cases g with
  | nothing => exact reads_token hnext hkept hop hdepth hresume hrest hapart hhash ih
  | space => exact hspace isGap_space hrest hapart
  | lineFeed => exact hspace isGap_lineFeed hrest hapart
  | semicolon =>
    have hafter : Lexeme.apart (t.lexeme :: ls) = true := (Bool.and_eq_true_iff.mp hapart).2
    obtain ⟨lo₁, hnext₁, hrest₁, hpos₁, hop₁, hdepth₁, hresume₁⟩ := next_semicolon hrest
    refine Reads.cons ?_ hnext₁
    exact reads_token hnext hkept (fun _ => hop₁.trans (hg rfl).symm) (hdepth₁.trans hdepth)
      (hresume₁.trans hresume) hrest₁ hafter (fun h => absurd h hpos₁.ne') ih

lemma endsOperand_of_restricted {p : Token} (h : p.isRestricted = true) :
    p.endsOperand = false := by
  have hall (k : Keyword) : k.isRestricted = true → k.isOperand = false := by cases k <;> decide
  unfold Token.isRestricted at h
  split at h
  · rename_i k hk
    simp only [Token.endsOperand, hk, hall k h]
  · cases h

lemma endsBlock_cons (hkept : isKept t = true) : endsBlock (t :: ts) = t.isPunct "\x7d" := by
  simp [endsBlock, hkept]

lemma endsBlock_cons_of_left (hkept : isKept t = false) : endsBlock (t :: ts) = endsBlock ts := by
  simp [endsBlock, hkept]

/-- The lexer of a layout stands as the lexer of the script does in front of the tokens `ts`, but
that a semicolon left out in front of a closing brace may hide whether an operand ended. -/
structure Follows (lx lo : Lexer) (ts : List Token) : Prop where
  afterOperand : endsBlock ts = false → lo.afterOperand = lx.afterOperand
  depth : lo.depth = lx.depth
  resume : lo.resume = lx.resume

lemma Follows.of_sameState (h : SameState lx lo) (ts : List Token) : Follows lx lo ts :=
  ⟨fun _ => h.afterOperand, h.depth, h.resume⟩

/-- **A layout is read back** where its lexemes are apart. -/
theorem reads_entries (hrun : lx.run = (ts, none))
    (hbefore : lx.afterOperand = before.getLast?.any Token.endsOperand)
    (hfollows : Follows lx lo ts)
    (hrest : lo.rest = Lexeme.spelled (lexemes (entries before lineBreak last (unchanged ts))))
    (hapart : Lexeme.apart (lexemes (entries before lineBreak last (unchanged ts))) = true)
    (hhash : lo.pos = 0 → opensComment lo.rest = false) :
    lo.Reads (lexemes (entries before lineBreak last (unchanged ts))) := by
  induction ts generalizing lx lo before lineBreak last with
  | nil => exact reads_nil hrest (hfollows.resume.trans (run_ok_nil hrun).2)
  | cons t ts ih =>
    obtain ⟨lx', hnext, hrun'⟩ := run_ok_cons hrun
    rcases entries_cases before lineBreak last t ts with ⟨hkept, hes⟩ | ⟨hcond, g, hg, hes⟩ |
        ⟨hsemi, hends, hes⟩ | ⟨htrivia, g, hg, hes⟩ <;> rw [hes] at hrest hapart ⊢
    · -- the layout has nothing for the token, and the script goes on as before
      have htrivia : t.isTrivia = true := by simp_all [isKept]
      have hsame := sameState_of_trivia hnext htrivia
      refine ih hrun' (hsame.afterOperand.trans hbefore) ⟨fun h => ?_, ?_, ?_⟩ hrest hapart hhash
      · rw [hfollows.afterOperand (by rwa [endsBlock_cons_of_left hkept]), hsame.afterOperand]
      · rw [hfollows.depth, hsame.depth]
      · rw [hfollows.resume, hsame.resume]
    · -- a comment that stays
      have hkept : isKept t = true := by simp [isKept, hcond]
      have htrivia : t.isTrivia = true := by
        have hkind : t.kind = .comment .conditional := by simpa [isConditional] using hcond
        simp [Token.isTrivia, TokenKind.isTrivia, hkind]
      have hsame := sameState_of_trivia hnext htrivia
      rw [lexemes_cons] at hrest hapart ⊢
      refine reads_entry g hnext hkept (fun h => hfollows.afterOperand ?_) hfollows.depth
        hfollows.resume (fun h => absurd h hg) hrest hapart hhash fun lo' hstate hrest'
          hpos hapart' =>
          ih hrun' (hsame.afterOperand.trans hbefore) (.of_sameState hstate ts) hrest' hapart'
            fun h => absurd h hpos.ne'
      rwa [endsBlock_cons hkept]
    · -- a semicolon that is left out
      have htrivia : t.isTrivia = false := by
        have hkind : t.kind = .punctuator := by simp_all [Token.isPunct]
        simp [Token.isTrivia, TokenKind.isTrivia, hkind]
      obtain ⟨hdepth, hresume⟩ := state_of_semicolon hnext hsemi
      refine ih hrun' ?_ ⟨fun h => ?_, hfollows.depth.trans hdepth.symm,
        hfollows.resume.trans hresume.symm⟩ hrest hapart hhash
      · rw [afterOperand_of_next hnext htrivia, List.getLast?_concat]
        rfl
      · rw [hends] at h
        cases h
    · -- any other token
      have hkept : isKept t = true := by simp [isKept, htrivia]
      rw [lexemes_cons] at hrest hapart ⊢
      refine reads_entry g hnext hkept (fun h => hfollows.afterOperand ?_) hfollows.depth
        hfollows.resume (fun h => ?_) hrest hapart hhash fun lo' hstate hrest' hpos hapart' =>
          ih hrun' ?_ (.of_sameState hstate ts) hrest' hapart' fun h => absurd h hpos.ne'
      · rwa [endsBlock_cons hkept]
      · obtain ⟨-, -, p, hp, hrestricted⟩ := hg h
        rw [hbefore, hp, Option.any_some, endsOperand_of_restricted hrestricted]
      · rw [afterOperand_of_next hnext htrivia, List.getLast?_concat]
        rfl

end Layout

open Lexer Layout

lemma tokenize_of_run {source : String} {ts : List Token}
    (h : (Lexer.ofString source).run = (ts, none)) : tokenize source = .ok ts := by
  unfold tokenize tokens
  rw [h]

/-- The lexemes of the significant tokens and the conditional comments. -/
def keptLexemes (ts : List Token) : List Lexeme := (ts.map Token.lexeme).filter Lexeme.isKept

lemma filter_isFixed (ls : List Lexeme) :
    (ls.filter Lexeme.isKept).filter Lexeme.isFixed = ls.filter Lexeme.isFixed := by
  rw [List.filter_filter]
  refine List.filter_congr fun l _ => ?_
  cases hkept : l.isKept <;> simp [Lexeme.isFixed, hkept]

/-- A comment at the front of a text is its first token. -/
lemma kind_of_opensComment {lx : Lexer} {t : Token} {ts : List Token} (h : lx.run = (t :: ts, none))
    (hpos : lx.pos = 0) (hopens : opensComment lx.rest = true) : t.kind = .comment .line := by
  obtain ⟨lx', hnext, -⟩ := run_ok_cons h
  obtain ⟨c, cs, w, hrest, hkind, -, -, -⟩ := next_ok hnext
  rw [hrest] at hopens
  obtain ⟨more, hmore⟩ := List.isPrefixOf_iff_prefix.mp hopens
  obtain ⟨rfl, rfl⟩ := List.cons_eq_cons.mp hmore
  rw [scan_eq, scannerOf_hash, if_pos (by simp [hpos])] at hkind
  exact (Except.ok.inj hkind).symm

section

variable {source : String} {ts ts' : List Token}

lemma isInk_of_tokenize (h : tokenize source = .ok ts) :
    ∀ t ∈ ts, isKept t = true → t.lexeme.IsInk := by
  have hrun : (Lexer.ofString source).run = (ts, none) := tokenize_eq_ok h
  intro t ht hkept
  rcases gap_or_ink_of_run hrun t ht with hgap | hink
  · exact absurd hkept (by simp [← isKept_lexeme, hgap.not_kept])
  · exact hink

/-- **Only what is apart is read back**, and be it up to semicolons. -/
lemma readsBack_of_fixed (h : tokenize source = .ok ts)
    (h' : tokenize (compact ts ∅).code = .ok ts')
    (hsame : (keptLexemes ts').filter Lexeme.isFixed = (ts.map Token.lexeme).filter Lexeme.isFixed) :
    readsBack ts = true := by
  have hrun' : (Lexer.ofString (compact ts ∅).code).run = (ts', none) := tokenize_eq_ok h'
  have hlaid : WellSpaced (laidOut ts) := wellSpaced_entries (isInk_of_tokenize h) [] false ""
  have hfixed : (ts'.map Token.lexeme).filter Lexeme.isFixed
      = (laidOut ts).filter Lexeme.isFixed := by
    have hlaidOut := (keeps_entries [] false "" ts).fixed
    rw [filter_isFixed] at hlaidOut
    rw [← filter_isFixed]
    exact hsame.trans hlaidOut.symm
  obtain ⟨heq, hapart⟩ :=
    lexemes_of_run hrun' (code_compact ts) hlaid.shape hlaid.spaced hfixed
  rw [readsBack, hapart, Bool.true_and, Bool.not_eq_true', Bool.eq_false_iff]
  intro hopens
  cases ts' with
  | nil =>
    rw [← heq] at hopens
    cases hopens
  | cons t rest =>
    have hline : t.kind = .comment .line :=
      kind_of_opensComment hrun' rfl ((congrArg opensComment (code_compact ts)).trans hopens)
    have hmem : t.lexeme ∈ laidOut ts := heq ▸ List.mem_cons_self
    rcases hlaid.shape _ hmem with hgap | ⟨-, hkept⟩
    · have hkind : t.kind = if t.text.toList.any Text.isLineEnd then .lineBreak else .blank :=
        hgap.kind
      rw [hline] at hkind
      split at hkind <;> cases hkind
    · simp [isKept_lexeme, isKept, isConditional, Token.isTrivia, TokenKind.isTrivia,
        hline] at hkept

lemma readsBack_of_keeps (h : tokenize source = .ok ts)
    (h' : tokenize (compact ts ∅).code = .ok ts') (hkeeps : Keeps none false ts (keptLexemes ts')) :
    readsBack ts = true :=
  readsBack_of_fixed h h' hkeeps.fixed

lemma exists_tokens_of_readsBack (h : tokenize source = .ok ts) (hback : readsBack ts = true) :
    ∃ ts', tokenize (compact ts ∅).code = .ok ts' ∧
      keptLexemes ts' = (laidOut ts).filter Lexeme.isKept := by
  have hrun : (Lexer.ofString source).run = (ts, none) := tokenize_eq_ok h
  simp only [readsBack, Bool.and_eq_true, Bool.not_eq_true'] at hback
  have hreads : (Lexer.ofString (compact ts ∅).code).Reads (laidOut ts) :=
    reads_entries hrun rfl ⟨fun _ => rfl, rfl, rfl⟩ (code_compact ts) hback.1
      fun _ => (congrArg opensComment (code_compact ts)).trans hback.2
  obtain ⟨ts', hrun', hts'⟩ := hreads
  exact ⟨ts', tokenize_of_run hrun', congrArg _ hts'⟩

lemma keeps_of_readsBack (h : tokenize source = .ok ts) (hback : readsBack ts = true) :
    ∃ ts', tokenize (compact ts ∅).code = .ok ts' ∧ Keeps none false ts (keptLexemes ts') := by
  obtain ⟨ts', htokens, hkept⟩ := exists_tokens_of_readsBack h hback
  refine ⟨ts', htokens, ?_⟩
  rw [hkept]
  exact keeps_entries [] false "" ts

end

/-- **Which scripts keep their tokens.** The compacted script reads as the script did, up to
semicolons in front of closing braces and after keywords whose operand may not follow on the next
line, exactly when no token in it runs on into the text after it and it opens with no comment. -/
theorem compact_reads_back {source : String} {ts : List Token} (h : tokenize source = .ok ts) :
    (∃ ts', tokenize (compact ts ∅).code = .ok ts' ∧ Keeps none false ts (keptLexemes ts')) ↔
      readsBack ts = true :=
  ⟨fun ⟨_, h', hkeeps⟩ => readsBack_of_keeps h h' hkeeps, keeps_of_readsBack h⟩

set_option maxRecDepth 20000 in
/-- The semicolon at the end goes and one is put in, and what is left is read as before. -/
theorem compact_reads_back_regex :
    let source := "\x7breturn\n/ x/ .y ;\x7d"
    let ts : List Token := [
      ⟨.punctuator, "\x7b", 0⟩, ⟨.keyword .kwReturn, "return", 1⟩, ⟨.lineBreak, "\n", 7⟩,
      ⟨.regex, "/ x/", 8⟩, ⟨.blank, " ", 12⟩, ⟨.punctuator, ".", 13⟩, ⟨.identifier, "y", 14⟩,
      ⟨.blank, " ", 15⟩, ⟨.punctuator, ";", 16⟩, ⟨.punctuator, "\x7d", 17⟩]
    tokenize source = .ok ts ∧ (compact ts ∅).code = "\x7breturn;/ x/.y\x7d" ∧
      ∃ ts', tokenize (compact ts ∅).code = .ok ts' ∧ Keeps none false ts (keptLexemes ts') := by
  intro source ts
  have h : tokenize source = .ok ts := by
    rw [tokenize, tokens_eq_runFor]
    decide +kernel
  exact ⟨h, by decide +kernel, (compact_reads_back h).mpr (by decide +kernel)⟩

set_option maxRecDepth 20000 in
/-- A regular expression takes the keyword after it for its flags. -/
theorem compact_merges_keyword :
    let source := "/re/ in x"
    let ts : List Token := [⟨.regex, "/re/", 0⟩, ⟨.blank, " ", 4⟩, ⟨.keyword .kwIn, "in", 5⟩,
      ⟨.blank, " ", 7⟩, ⟨.identifier, "x", 8⟩]
    tokenize source = .ok ts ∧ (compact ts ∅).code = "/re/in x" ∧
      tokenize "/re/in x" = .ok [⟨.regex, "/re/in", 0⟩, ⟨.blank, " ", 6⟩, ⟨.identifier, "x", 7⟩] ∧
      ¬∃ ts', tokenize (compact ts ∅).code = .ok ts' ∧ Keeps none false ts (keptLexemes ts') := by
  intro source ts
  have h : tokenize source = .ok ts := by
    rw [tokenize, tokens_eq_runFor]
    decide +kernel
  refine ⟨h, by decide +kernel, ?_, fun ⟨ts', h', hkeeps⟩ => ?_⟩
  · rw [tokenize, tokens_eq_runFor]
    decide +kernel
  · have hback := readsBack_of_keeps h h' hkeeps
    revert hback
    decide +kernel

end Minify
