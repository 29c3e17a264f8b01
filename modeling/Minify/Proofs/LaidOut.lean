import Mathlib
import Minify.Layout
import Minify.Proofs.ByteSize

/-!
The layout of a script, with each semicolon decided where it stands.

The layout writes a semicolon only when it knows what comes next. Looking ahead instead, a semicolon
is left out where it stands, or written there with nothing in front of it, and what the layout knows
at a token depends on the tokens before it alone. So the chunks are the tokens that are kept, in
their order, and where each of them starts can be read off the text.
-/

namespace Minify

namespace Layout

/-! ### Tokens by what the layout does with them -/

def breaksLine (t : Token) : Bool :=
  t.kind == .lineBreak || t.kind == .comment (.block true)

/-- Conditional comments stay. -/
def isConditional (t : Token) : Bool := t.kind == .comment .conditional

/-- Tokens that leave something in the layout. -/
def isKept (t : Token) : Bool := !t.isTrivia || isConditional t

variable {s s' : State} {t : Token} {text : String}

/-- A token is left out, or a conditional comment, or significant. -/
lemma step_cases (s : State) (t : Token) (text : String) :
    (t.isTrivia = true ∧ isConditional t = false ∧
        s.step t text = ([], { s with lineBreak := s.lineBreak || breaksLine t })) ∨
      (t.isTrivia = true ∧ isConditional t = true ∧ s.step t text =
        (s.flush.1 ++ [(s.flush.2.write .nothing t.text t.start).1],
          (s.flush.2.write .nothing t.text t.start).2)) ∨
      (t.isTrivia = false ∧ isConditional t = false ∧ s.step t text = s.significant t text) := by
  have hkeep (h : breaksLine t = false) :
      s = { s with lineBreak := s.lineBreak || breaksLine t } := by
    rw [h, Bool.or_false]
  unfold State.step
  cases hk : t.kind with
  | blank =>
    exact .inl ⟨by simp [Token.isTrivia, TokenKind.isTrivia, hk], by simp [isConditional, hk],
      congrArg _ (hkeep (by simp [breaksLine, hk]))⟩
  | lineBreak =>
    exact .inl ⟨by simp [Token.isTrivia, TokenKind.isTrivia, hk], by simp [isConditional, hk],
      by simp [breaksLine, hk]⟩
  | comment kind =>
    have htrivia : t.isTrivia = true := by simp [Token.isTrivia, TokenKind.isTrivia, hk]
    cases kind with
    | line =>
      exact .inl ⟨htrivia, by simp [isConditional, hk],
        congrArg _ (hkeep (by simp [breaksLine, hk]))⟩
    | block multiline =>
      exact .inl ⟨htrivia, by simp [isConditional, hk], by cases multiline
        <;> simp [breaksLine, hk]⟩
    | conditional => exact .inr (.inl ⟨htrivia, by simp [isConditional, hk], rfl⟩)
  | _ =>
    exact .inr (.inr ⟨by simp [Token.isTrivia, TokenKind.isTrivia, hk],
      by simp [isConditional, hk], rfl⟩)

/-! ### What the tokens before say -/

/-- The layout after the significant tokens `before`. -/
def after (before : List Token) : State := before.foldl State.advance .start

/-- Two layouts know the same of the headers before them. -/
structure SameHeads (s s' : State) : Prop where
  prev : s.prev = s'.prev
  closesHeader : s.closesHeader = s'.closesHeader
  functionHead : s.functionHead = s'.functionHead
  headerKeyword : s.headerKeyword = s'.headerKeyword
  parens : s.parens = s'.parens

lemma SameHeads.advance (h : SameHeads s s') (t : Token) :
    SameHeads (s.advance t) (s'.advance t) := by
  unfold State.advance
  rw [h.prev, h.functionHead, h.headerKeyword, h.parens]
  dsimp only
  split <;> exact ⟨rfl, rfl, rfl, rfl, rfl⟩

lemma SameHeads.awaitsBody (h : SameHeads s s') : s.awaitsBody = s'.awaitsBody := by
  unfold State.awaitsBody
  rw [h.prev, h.closesHeader]

lemma prev_advance (s : State) (t : Token) : (s.advance t).prev = some t := by
  unfold State.advance
  dsimp only
  split <;> rfl

lemma lineBreak_advance (s : State) (t : Token) : (s.advance t).lineBreak = false := by
  unfold State.advance
  dsimp only
  split <;> rfl

lemma last_advance (s : State) (t : Token) : (s.advance t).last = s.last := by
  unfold State.advance
  dsimp only
  split <;> rfl

lemma pending_advance (s : State) (t : Token) : (s.advance t).pending = s.pending := by
  unfold State.advance
  dsimp only
  split <;> rfl

lemma after_append_singleton (before : List Token) (t : Token) :
    after (before ++ [t]) = (after before).advance t := by
  rw [after, List.foldl_append]
  rfl

lemma prev_after (before : List Token) : (after before).prev = before.getLast? := by
  induction before using List.reverseRecOn with
  | nil => rfl
  | append_singleton before t _ =>
    rw [after_append_singleton, prev_advance, List.getLast?_concat]

/-! ### The layout that looks ahead -/

/-- A token of the layout with what stands in front of it and what is written for it. -/
structure Entry where
  gap : Gap
  token : Token
  text : String

def Entry.chunk (e : Entry) : Chunk := ⟨e.gap, e.text, e.token.start⟩

/-- A semicolon after the significant tokens `before` is the empty body of a statement. -/
def isBody (before : List Token) : Bool :=
  (after before).closesHeader
    || before.getLast?.any fun p => p.isKeyword .kwElse || p.isKeyword .kwDo || p.isPunct ":"

/-- The next token that leaves something in the layout is a closing brace. -/
def beforeBrace (rest : List (Token × String)) : Bool :=
  (rest.find? fun e => isKept e.1).any fun e => e.1.isPunct "\x7d"

/-- What stands in front of a token after the text `last`, where a line ended or did not. -/
def gapBefore (before : List Token) (lineBreak : Bool) (last : String) (t : Token)
    (text : String) : Gap :=
  (({ after before with lineBreak := lineBreak, last := last }).write
    (({ after before with lineBreak := lineBreak }).lineEnd t) text t.start).1.gap

/-- The entries of the tokens with their texts, after the significant tokens `before` and the text
`last`. -/
def entries (before : List Token) (lineBreak : Bool) (last : String) :
    List (Token × String) → List Entry
  | [] => []
  | (t, text) :: rest =>
    if t.isTrivia then
      if isConditional t then
        ⟨if needsSpace last t.text then .space else .nothing, t, t.text⟩
          :: entries before lineBreak t.text rest
      else entries before (lineBreak || breaksLine t) last rest
    else if t.isPunct ";" then
      if !isBody before && beforeBrace rest then entries (before ++ [t]) false last rest
      else ⟨.nothing, t, ";"⟩ :: entries (before ++ [t]) false ";" rest
    else ⟨gapBefore before lineBreak last t text, t, text⟩ :: entries (before ++ [t])
      false text rest

/-- The layout stands after the significant tokens `before`. -/
structure At (before : List Token) (lineBreak : Bool) (s : State) : Prop where
  heads : SameHeads s (after before)
  lineBreak : s.lineBreak = lineBreak

variable {before : List Token} {lineBreak : Bool}

lemma At.advance (h : At before lineBreak s) (t : Token) :
    At (before ++ [t]) false (s.advance t) := by
  refine ⟨?_, lineBreak_advance s t⟩
  rw [after_append_singleton]
  exact h.heads.advance t

lemma At.awaitsBody (h : At before lineBreak s) : s.awaitsBody = isBody before := by
  rw [h.heads.awaitsBody, State.awaitsBody, prev_after]
  rfl

lemma At.lineEnd (h : At before lineBreak s) (t : Token) :
    s.lineEnd t = ({ after before with lineBreak := lineBreak } : State).lineEnd t := by
  unfold State.lineEnd
  rw [h.heads.prev, h.heads.closesHeader, h.lineBreak]

/-- The headers do not depend on what is written or waits to be. -/
lemma At.written (h : At before lineBreak s) (last : String) (pending : Option Pending) :
    At before lineBreak { s with last := last, pending := pending } :=
  ⟨⟨h.heads.prev, h.heads.closesHeader, h.heads.functionHead, h.heads.headerKeyword,
    h.heads.parens⟩, h.lineBreak⟩

lemma At.break (h : At before lineBreak s) (b : Bool) :
    At before (lineBreak || b) { s with lineBreak := s.lineBreak || b } :=
  ⟨⟨h.heads.prev, h.heads.closesHeader, h.heads.functionHead, h.heads.headerKeyword,
    h.heads.parens⟩, congrArg (· || b) h.lineBreak⟩

lemma needsSpace_semicolon (last : String) : needsSpace last ";" = false := by
  unfold needsSpace
  cases last.toList.getLast? with
  | none => rfl
  | some a =>
    have hword : isWordPart ';' = false := by decide
    have hpairs : [('+', '+'), ('-', '-'), ('/', '/'), ('/', '*'), ('<', '!')].contains (a, ';')
        = false := by simp
    change ((isWordPart a && isWordPart ';') || List.contains _ (a, ';')
      || (decide (';' = '.') && _ && _)) = false
    rw [hword, hpairs]
    simp

/-- The pending semicolon is written with nothing in front of it. -/
lemma flush_of_some {p : Pending} (h : s.pending = some p) :
    s.flush = ([⟨.nothing, ";", p.offset⟩], { s with pending := none, last := ";" }) := by
  unfold State.flush
  rw [h]
  simp [State.write, needsSpace_semicolon]

lemma flush_of_none (h : s.pending = none) : s.flush = ([], s) := by
  unfold State.flush
  rw [h]

lemma settle_of_none (h : s.pending = none) (t : Token) : s.settle t = ([], s) := by
  unfold State.settle
  rw [h]

lemma settle_of_some {p : Pending} (h : s.pending = some p) (t : Token) :
    s.settle t = if p.keep || !t.isPunct "\x7d" then s.flush else ([],
      { s with pending := none }) := by
  unfold State.settle
  rw [h]

lemma isKept_of_not_trivia (h : t.isTrivia = false) : isKept t = true := by
  simp [isKept, h]

lemma beforeBrace_cons_of_kept {rest : List (Token × String)} (h : isKept t = true) :
    beforeBrace ((t, text) :: rest) = t.isPunct "\x7d" := by
  simp [beforeBrace, h]

lemma beforeBrace_cons_of_not_kept {rest : List (Token × String)} (h : isKept t = false) :
    beforeBrace ((t, text) :: rest) = beforeBrace rest := by
  simp [beforeBrace, h]

/-- The late layout of the tokens `rest` is the one that looks ahead. A pending semicolon is left
out in front of a closing brace, unless it has to stay. -/
structure Agrees (rest : List (Token × String)) (before : List Token) (lineBreak : Bool)
    (s : State) : Prop where
  settled : s.pending = none →
    s.run rest = (entries before lineBreak s.last rest).map Entry.chunk
  pending : ∀ p, s.pending = some p → s.run rest =
    if !p.keep && beforeBrace rest then (entries before lineBreak s.last rest).map Entry.chunk
    else ⟨.nothing, ";", p.offset⟩ :: (entries before lineBreak ";" rest).map Entry.chunk

variable {rest : List (Token × String)}

lemma agrees_nil : Agrees [] before lineBreak s :=
  ⟨fun hp => by simp [State.run, flush_of_none hp, entries],
    fun p hp => by simp [State.run, flush_of_some hp, entries, beforeBrace]⟩

lemma agrees_left (htrivia : t.isTrivia = true) (hcond : isConditional t = false)
    (hstep : s.step t text = ([], { s with lineBreak := s.lineBreak || breaksLine t }))
    (ih : Agrees rest before (lineBreak || breaksLine t)
      { s with lineBreak := s.lineBreak || breaksLine t }) :
    Agrees ((t, text) :: rest) before lineBreak s := by
  have hkept : isKept t = false := by simp [isKept, htrivia, hcond]
  have hentries (last : String) : entries before lineBreak last ((t, text) :: rest)
      = entries before (lineBreak || breaksLine t) last rest := by
    simp [entries, htrivia, hcond]
  refine ⟨fun hp => ?_, fun p hp => ?_⟩
  · rw [State.run, hstep, hentries]
    exact ih.settled hp
  · rw [State.run, hstep, hentries, hentries, beforeBrace_cons_of_not_kept hkept]
    exact ih.pending p hp

/-- A comment that stays; the semicolon before it does too. -/
lemma agrees_conditional (h : At before lineBreak s) (htrivia : t.isTrivia = true)
    (hcond : isConditional t = true)
    (hstep : s.step t text = (s.flush.1 ++ [(s.flush.2.write .nothing t.text t.start).1],
      (s.flush.2.write .nothing t.text t.start).2))
    (ih : ∀ {u}, At before lineBreak u → Agrees rest before lineBreak u) :
    Agrees ((t, text) :: rest) before lineBreak s := by
  have hkept : isKept t = true := by simp [isKept, hcond]
  have hbrace : t.isPunct "\x7d" = false := by
    have hk : t.kind = .comment .conditional := by simpa [isConditional] using hcond
    simp [Token.isPunct, hk]
  have hwrite {u : State} (hu : At before lineBreak u) (hp : u.pending = none) :
      (u.write .nothing t.text t.start).1 :: (u.write .nothing t.text t.start).2.run rest
        = (entries before lineBreak u.last ((t, text) :: rest)).map Entry.chunk := by
    have hat : At before lineBreak (u.write .nothing t.text t.start).2 := hu.written _ _
    rw [(ih hat).settled hp]
    simp [entries, htrivia, hcond, State.write, Entry.chunk]
  refine ⟨fun hp => ?_, fun p hp => ?_⟩
  · rw [State.run, hstep, flush_of_none hp]
    exact hwrite h hp
  · rw [State.run, hstep, beforeBrace_cons_of_kept hkept, hbrace, flush_of_some hp]
    simp only [Bool.and_false, Bool.false_eq_true, if_false]
    exact congrArg _ (hwrite (h.written ";" none) rfl)

/-- A semicolon: the one before it is written, and it is decided by what follows. -/
lemma agrees_semicolon (h : At before lineBreak s) (htrivia : t.isTrivia = false)
    (hsemi : t.isPunct ";" = true) (hstep : s.step t text = s.significant t text)
    (ih : ∀ {u}, At (before ++ [t]) false u → Agrees rest (before ++ [t]) false u) :
    Agrees ((t, text) :: rest) before lineBreak s := by
  have hbrace : t.isPunct "\x7d" = false := by
    have htext : t.text = ";" := by simp_all [Token.isPunct]
    simp [Token.isPunct, htext]
  have hwait {u : State} (hu : At before lineBreak u) :
      ({ u with pending := some ⟨t.start, u.awaitsBody⟩ }.advance t).run rest
        = (entries before lineBreak u.last ((t, text) :: rest)).map Entry.chunk := by
    have hat : At before lineBreak { u with pending := some ⟨t.start, u.awaitsBody⟩ } :=
      hu.written _ _
    have hrun := (ih (hat.advance t)).pending ⟨t.start, u.awaitsBody⟩ (pending_advance _ _)
    rw [last_advance, hu.awaitsBody] at hrun
    rw [hu.awaitsBody, hrun]
    simp only [entries, htrivia, Bool.false_eq_true, if_false, hsemi, if_true]
    split <;> rfl
  refine ⟨fun hp => ?_, fun p hp => ?_⟩
  · rw [State.run, hstep, State.significant, if_pos hsemi, flush_of_none hp]
    exact hwait h
  · rw [State.run, hstep, State.significant, if_pos hsemi, flush_of_some hp,
      beforeBrace_cons_of_kept (isKept_of_not_trivia htrivia), hbrace]
    simp only [Bool.and_false, Bool.false_eq_true, if_false]
    exact congrArg _ (hwait (h.written ";" none))

lemma agrees_significant (h : At before lineBreak s) (htrivia : t.isTrivia = false)
    (hsemi : t.isPunct ";" = false) (hstep : s.step t text = s.significant t text)
    (ih : ∀ {u}, At (before ++ [t]) false u → Agrees rest (before ++ [t]) false u) :
    Agrees ((t, text) :: rest) before lineBreak s := by
  have hnot : ¬t.isPunct ";" = true := by simp [hsemi]
  have hwrite {u : State} (hu : At before lineBreak u) (hp : u.pending = none) :
      (u.write (u.lineEnd t) text t.start).1
        :: ((u.write (u.lineEnd t) text t.start).2.advance t).run rest
        = (entries before lineBreak u.last ((t, text) :: rest)).map Entry.chunk := by
    have hat : At before lineBreak (u.write (u.lineEnd t) text t.start).2 := hu.written _ _
    rw [(ih (hat.advance t)).settled ((pending_advance _ _).trans hp), last_advance, hu.lineEnd]
    simp only [entries, htrivia, Bool.false_eq_true, if_false, hsemi]
    rfl
  refine ⟨fun hp => ?_, fun p hp => ?_⟩
  · rw [State.run, hstep, State.significant, if_neg hnot, settle_of_none hp]
    exact hwrite h hp
  · rw [State.run, hstep, State.significant, if_neg hnot, settle_of_some hp,
      beforeBrace_cons_of_kept (isKept_of_not_trivia htrivia)]
    by_cases hcond : (p.keep || !t.isPunct "\x7d") = true
    · have hstays : (!p.keep && t.isPunct "\x7d") = false := by
        cases hkeep : p.keep <;> simp_all
      rw [if_pos hcond, hstays, flush_of_some hp]
      exact congrArg _ (hwrite (h.written ";" none) rfl)
    · have hgoes : (!p.keep && t.isPunct "\x7d") = true := by
        cases hkeep : p.keep <;> simp_all
      rw [if_neg hcond, hgoes]
      exact hwrite (h.written s.last none) rfl

/-- **The late layout is the one that looks ahead.** -/
theorem agrees (h : At before lineBreak s) : Agrees rest before lineBreak s := by
  induction rest generalizing s before lineBreak with
  | nil => exact agrees_nil
  | cons e rest ih =>
    obtain ⟨t, text⟩ := e
    rcases step_cases s t text with ⟨htrivia, hcond, hstep⟩ | ⟨htrivia, hcond, hstep⟩ |
        ⟨htrivia, hcond, hstep⟩
    · exact agrees_left htrivia hcond hstep (ih (h.break (breaksLine t)))
    · exact agrees_conditional h htrivia hcond hstep ih
    · cases hsemi : t.isPunct ";" with
      | true => exact agrees_semicolon h htrivia hsemi hstep ih
      | false => exact agrees_significant h htrivia hsemi hstep ih

theorem chunks_eq_entries (tokens : List Token) (replacements : Replacements) :
    chunks tokens replacements
      = (entries [] false "" (newTexts tokens replacements)).map Entry.chunk :=
  (agrees (s := .start) ⟨⟨rfl, rfl, rfl, rfl, rfl⟩, rfl⟩).settled rfl

end Layout

end Minify
