import Mathlib
import Minify.Proofs.BracketPairs
import Minify.Proofs.PackedLookup
import Minify.Proofs.ReadBack

/-!
Where the layout puts in semicolons.

It does so in front of a token when a line ended since the token before, and that one is a keyword
whose operand may not follow on the next line. A semicolon and a closing brace end the statement by
themselves, so none is put in before these. That is all the layout looks at. So the semicolons stand
where statements do just when such keywords stand there with their line ends; as the name of a
property or as an operand one may stand in any bracket.
-/

namespace Minify

namespace Brackets

/-- The bracket of the token `o` is the innermost one that is open after the tokens `before`. -/
def Innermost (before : List Token) (o : Token) : Prop :=
  ∃ front inner b, before = front ++ o :: inner ∧ .opens b ∈ marks o ∧ WellNested (placed inner)

/-- After the tokens `before` no bracket is open, or the innermost one is a brace. -/
def AtStatements (before : List Token) : Prop := ∀ o, Innermost before o → o.isPunct "\x7b" = true

end Brackets

namespace Layout

open Brackets

/-- A line ends between a keyword whose operand may not follow there and the token `t`, which does
not end the statement by itself. -/
def CutOff (before : List Token) (t : Token) : Prop :=
  ∃ front p between, before = front ++ p :: between ∧ p.isRestricted = true ∧
    (∀ u ∈ between, u.isTrivia = true) ∧ between.any breaksLine = true ∧ t.isTrivia = false ∧
      t.isPunct ";" = false ∧ t.isPunct "\x7d" = false

variable {done : List Token} {t u p : Token} {text last : String} {rest : List (Token × String)}

/-! ### What the layout remembers of the tokens before -/

def significantOf (done : List Token) : List Token := done.filter fun t => !t.isTrivia

def brokenAfter (done : List Token) : Bool := (done.rtakeWhile Token.isTrivia).any breaksLine

lemma significantOf_concat_trivia (ht : t.isTrivia = true) :
    significantOf (done ++ [t]) = significantOf done := by
  simp [significantOf, ht]

lemma significantOf_concat (ht : t.isTrivia = false) :
    significantOf (done ++ [t]) = significantOf done ++ [t] := by
  simp [significantOf, ht]

lemma brokenAfter_concat_trivia (ht : t.isTrivia = true) :
    brokenAfter (done ++ [t]) = (brokenAfter done || breaksLine t) := by
  rw [brokenAfter, List.rtakeWhile_concat_pos _ _ _ ht, List.any_append]
  simp [brokenAfter]

lemma brokenAfter_concat (ht : t.isTrivia = false) : brokenAfter (done ++ [t]) = false := by
  rw [brokenAfter, List.rtakeWhile_concat_neg _ _ _ (by simp [ht])]
  rfl

/-- The last significant one of some tokens, and what stands after it. -/
lemma exists_last (h : (significantOf done).getLast? = some p) : ∃ front between,
    done = front ++ p :: between ∧ (∀ u ∈ between, u.isTrivia = true) ∧
      brokenAfter done = between.any breaksLine := by
  induction done using List.reverseRecOn with
  | nil => cases h
  | append_singleton done t ih =>
    cases ht : t.isTrivia with
    | true =>
      rw [significantOf_concat_trivia ht] at h
      obtain ⟨front, between, rfl, htrivia, hbroken⟩ := ih h
      refine ⟨front, between ++ [t], by simp, fun u hu => ?_, ?_⟩
      · rcases List.mem_append.mp hu with hu | hu
        · exact htrivia u hu
        · exact List.mem_singleton.mp hu ▸ ht
      · rw [brokenAfter_concat_trivia ht, hbroken, List.any_append]
        simp
    | false =>
      rw [significantOf_concat ht, List.getLast?_concat] at h
      cases h
      exact ⟨done, [], rfl, nofun, brokenAfter_concat ht⟩

lemma last_of_split {front between : List Token} (hp : p.isTrivia = false)
    (htrivia : ∀ u ∈ between, u.isTrivia = true) :
    (significantOf (front ++ p :: between)).getLast? = some p ∧
      brokenAfter (front ++ p :: between) = between.any breaksLine := by
  induction between using List.reverseRecOn with
  | nil => exact ⟨by simp [significantOf, hp], brokenAfter_concat hp⟩
  | append_singleton between u ih =>
    have hu : u.isTrivia = true := htrivia u (by simp)
    have hsplit : front ++ p :: (between ++ [u]) = front ++ p :: between ++ [u] := by simp
    obtain ⟨hlast, hbroken⟩ := ih fun v hv => htrivia v (List.mem_append_left _ hv)
    rw [hsplit, significantOf_concat_trivia hu, brokenAfter_concat_trivia hu, hbroken,
      List.any_append]
    exact ⟨hlast, by simp⟩

lemma not_trivia_of_isRestricted (hp : p.isRestricted = true) : p.isTrivia = false := by
  unfold Token.isRestricted at hp
  unfold Token.isTrivia TokenKind.isTrivia
  cases hk : p.kind <;> simp_all

lemma cutOff_iff : CutOff done t ↔ brokenAfter done = true ∧
    (∃ p, (significantOf done).getLast? = some p ∧ p.isRestricted = true) ∧ t.isTrivia = false ∧
      t.isPunct ";" = false ∧ t.isPunct "\x7d" = false := by
  constructor
  · rintro ⟨front, p, between, rfl, hp, htrivia, hbreak, ht⟩
    obtain ⟨hlast, hbroken⟩ :
        (significantOf (front ++ p :: between)).getLast? = some p ∧ _ :=
      last_of_split (not_trivia_of_isRestricted hp) htrivia
    exact ⟨hbroken.trans hbreak, ⟨p, hlast, hp⟩, ht⟩
  · rintro ⟨hbroken, ⟨p, hlast, hp⟩, ht⟩
    obtain ⟨front, between, rfl, htrivia, hbreak⟩ := exists_last hlast
    exact ⟨front, p, between, rfl, hp, htrivia, hbreak.symm.trans hbroken, ht⟩

/-! ### The semicolons put in -/

def entriesAfter (done : List Token) (last : String) (rest : List (Token × String)) : List Entry :=
  entries (significantOf done) (brokenAfter done) last rest

lemma lineEnd_eq_semicolon (ht : t.isTrivia = false) (hsemi : t.isPunct ";" = false) :
    gapBefore (significantOf done) (brokenAfter done) last t text = .semicolon ↔ CutOff done t := by
  refine ⟨fun h => ?_, fun h => ?_⟩
  · obtain ⟨hbroken, hbrace, hp⟩ := gapBefore_eq_semicolon h
    exact cutOff_iff.mpr ⟨hbroken, hp, ht, hsemi, hbrace⟩
  · obtain ⟨hbroken, ⟨p, hlast, hp⟩, -, -, hbrace⟩ := cutOff_iff.mp h
    have hprev : (after (significantOf done)).prev = some p := (prev_after _).trans hlast
    have hend : ({ after (significantOf done) with lineBreak := brokenAfter done } :
      State).lineEnd t
        = .semicolon := by
      simp [State.lineEnd, hprev, hbroken, hp, hbrace]
    rw [gapBefore, hend]
    rfl

lemma not_cutOff (h : t.isTrivia = true ∨ t.isPunct ";" = true) : ¬ CutOff done t := by
  rintro ⟨_, _, _, _, _, _, _, ht, hsemi, _⟩
  simp [ht, hsemi] at h

/-- What one token adds to the layout: its own entry, if any, which a semicolon is put in front of
just when the statement before is cut off. Of what follows it matters whether a brace comes next. -/
lemma entriesAfter_cons (done : List Token) (last : String) (t : Token) (text : String)
    (brace : Bool) : ∃ own last',
    (∀ rest, beforeBrace rest = brace → entriesAfter done last ((t, text) :: rest)
        = own ++ entriesAfter (done ++ [t]) last' rest) ∧
      (∀ e ∈ own, e.token = t ∧ (e.gap = .semicolon ↔ CutOff done t)) ∧
      (CutOff done t → own ≠ []) := by
  cases htrivia : t.isTrivia with
  | true =>
    have hnone : ¬ CutOff done t := not_cutOff (.inl htrivia)
    cases hcond : isConditional t with
    | true =>
      have hbreak : breaksLine t = false := by
        have hk : t.kind = .comment .conditional := by simpa [isConditional] using hcond
        simp [breaksLine, hk]
      refine ⟨[⟨if needsSpace last t.text then .space else .nothing, t, t.text⟩], t.text,
        fun rest _ => ?_, fun e he => ?_, fun h => absurd h hnone⟩
      · simp [entriesAfter, entries, htrivia, hcond, significantOf_concat_trivia,
          brokenAfter_concat_trivia, hbreak]
      · obtain rfl := List.mem_singleton.mp he
        refine ⟨rfl, fun h => ?_, fun h => absurd h hnone⟩
        dsimp only at h
        split at h <;> cases h
    | false =>
      refine ⟨[], last, fun rest _ => ?_, fun _ he => absurd he List.not_mem_nil,
        fun h => absurd h hnone⟩
      simp [entriesAfter, entries, htrivia, hcond, significantOf_concat_trivia,
        brokenAfter_concat_trivia]
  | false =>
    cases hsemi : t.isPunct ";" with
    | true =>
      have hnone : ¬ CutOff done t := not_cutOff (.inr hsemi)
      by_cases hleft : (!isBody (significantOf done) && brace) = true
      · refine ⟨[], last, fun rest hb => ?_, fun _ he => absurd he List.not_mem_nil,
          fun h => absurd h hnone⟩
        simp only [entriesAfter, entries, htrivia, hsemi, hb, hleft, significantOf_concat,
          brokenAfter_concat, if_true, Bool.false_eq_true, if_false, List.nil_append]
      · refine ⟨[⟨.nothing, t, ";"⟩], ";", fun rest hb => ?_, fun e he => ?_,
          fun h => absurd h hnone⟩
        · simp only [entriesAfter, entries, htrivia, hsemi, hb, hleft, significantOf_concat,
            brokenAfter_concat, if_true, Bool.false_eq_true, if_false, List.cons_append,
            List.nil_append]
        · obtain rfl := List.mem_singleton.mp he
          exact ⟨rfl, iff_of_false (by simp) hnone⟩
    | false =>
      refine ⟨[⟨gapBefore (significantOf done) (brokenAfter done) last t text, t, text⟩], text,
        fun rest _ => ?_, fun e he => ?_, fun _ => List.cons_ne_nil _ _⟩
      · simp [entriesAfter, entries, htrivia, hsemi, significantOf_concat, brokenAfter_concat]
      · obtain rfl := List.mem_singleton.mp he
        exact ⟨rfl, lineEnd_eq_semicolon htrivia hsemi⟩

/-- **The tokens that a semicolon is put in front of** are those where a statement is cut off. -/
lemma exists_semicolon_iff (done : List Token) (last : String) (rest : List (Token × String))
    (u : Token) : (∃ e ∈ entriesAfter done last rest, e.token = u ∧ e.gap = .semicolon)
      ↔ ∃ front back, rest.map Prod.fst = front ++ u :: back ∧ CutOff (done ++ front) u := by
  induction rest generalizing done last with
  | nil => simp [entriesAfter, entries]
  | cons x rest ih =>
    obtain ⟨t, text⟩ := x
    obtain ⟨own, last', hentries, hown, hcut⟩ :=
      entriesAfter_cons done last t text (beforeBrace rest)
    rw [hentries rest rfl]
    constructor
    · rintro ⟨e, he, rfl, hgap⟩
      rcases List.mem_append.mp he with he | he
      · obtain ⟨rfl, hiff⟩ := hown e he
        exact ⟨[], rest.map Prod.fst, rfl, by simpa using hiff.mp hgap⟩
      · obtain ⟨front, back, hrest, hoff⟩ := (ih _ _).mp ⟨e, he, rfl, hgap⟩
        exact ⟨t :: front, back, congrArg _ hrest, by simpa using hoff⟩
    · rintro ⟨front, back, hrest, hoff⟩
      cases front with
      | nil =>
        obtain ⟨rfl, -⟩ := List.cons_eq_cons.mp hrest
        rw [List.append_nil] at hoff
        obtain ⟨e, he⟩ := List.exists_mem_of_ne_nil _ (hcut hoff)
        obtain ⟨htoken, hiff⟩ := hown e he
        exact ⟨e, List.mem_append_left _ he, htoken, hiff.mpr hoff⟩
      | cons v front =>
        obtain ⟨rfl, htail⟩ := List.cons_eq_cons.mp hrest
        obtain ⟨e, he, htoken, hgap⟩ :=
          (ih (done ++ [t]) last').mpr ⟨front, back, htail, by simpa using hoff⟩
        exact ⟨e, List.mem_append_right _ he, htoken, hgap⟩

end Layout

open Layout Brackets

lemma not_before {tokens front back front' back' : List Token} {t t' : Token}
    (h : tokens.Pairwise fun s t => s.start < t.start) (hsplit : tokens = front ++ t :: back)
    (hsplit' : tokens = front' ++ t' :: back') (hstart : t.start = t'.start) :
    ¬ front.length < front'.length := by
  intro hlt
  obtain ⟨between, rfl, -⟩ := exists_between (hsplit.symm.trans hsplit') hlt
  have hmem : t ∈ front ++ t :: between := by simp
  rw [hsplit', List.pairwise_append] at h
  exact (h.2.2 t hmem t' List.mem_cons_self).ne hstart

lemma eq_of_start {source : String} {tokens front back front' back' : List Token} {t t' : Token}
    (h : tokenize source = .ok tokens) (hsplit : tokens = front ++ t :: back)
    (hsplit' : tokens = front' ++ t' :: back') (hstart : t.start = t'.start) :
    front = front' ∧ t = t' := by
  have hpairwise := (covers_of_tokenize h).1.pairwise_start.1
  have hle := not_before hpairwise hsplit hsplit' hstart
  have hge := not_before hpairwise hsplit' hsplit hstart.symm
  obtain ⟨hfront, hrest⟩ := List.append_inj (hsplit.symm.trans hsplit') (by omega)
  exact ⟨hfront, (List.cons_eq_cons.mp hrest).1⟩

/-- **Where semicolons are put in.** They all stand where statements do, outside of parentheses,
square brackets and templates, just when the statements that line ends cut off stand there. -/
theorem semicolons_at_statements {source : String} {tokens : List Token}
    (h : tokenize source = .ok tokens) (replacements : Replacements) :
    (∀ c ∈ chunks tokens replacements, c.gap = .semicolon → ∀ before t back,
        tokens = before ++ t :: back → t.start = c.original → AtStatements before)
      ↔ ∀ before t back, tokens = before ++ t :: back → CutOff before t → AtStatements before := by
  have hput (t : Token) := exists_semicolon_iff [] "" (newTexts tokens replacements) t
  rw [map_fst_newTexts] at hput
  rw [chunks_eq_entries]
  refine ⟨fun hall before t back hsplit hoff => ?_,
    fun hall c hc hgap before t back hsplit hstart => ?_⟩
  · obtain ⟨e, he, rfl, hgap⟩ := (hput t).mpr ⟨before, back, hsplit, hoff⟩
    exact hall e.chunk (List.mem_map_of_mem he) hgap before e.token back hsplit rfl
  · obtain ⟨e, he, rfl⟩ := List.mem_map.mp hc
    obtain ⟨front, rest, hfront, hoff⟩ := (hput e.token).mp ⟨e, he, rfl, hgap⟩
    obtain ⟨rfl, rfl⟩ := eq_of_start h hsplit hfront hstart
    exact hall before _ back hsplit hoff

set_option maxRecDepth 20000 in
/-- In `\x7breturn\na\x7d` a semicolon is put in between the braces. -/
theorem semicolons_at_statements_in_block :
    let source := "\x7breturn\na\x7d"
    let tokens : List Token := [⟨.punctuator, "\x7b", 0⟩, ⟨.keyword .kwReturn, "return", 1⟩,
      ⟨.lineBreak, "\n", 7⟩, ⟨.identifier, "a", 8⟩, ⟨.punctuator, "\x7d", 9⟩]
    tokenize source = .ok tokens ∧ (compact tokens ∅).code = "\x7breturn;a\x7d" ∧
      CutOff (tokens.take 3) ⟨.identifier, "a", 8⟩ ∧
      ∀ c ∈ chunks tokens ∅, c.gap = .semicolon → ∀ before t back,
        tokens = before ++ t :: back → t.start = c.original → AtStatements before := by
  intro source tokens
  have h : tokenize source = .ok tokens := by
    rw [tokenize, tokens_eq_runFor]
    decide +kernel
  have hcut : CutOff (tokens.take 3) ⟨.identifier, "a", 8⟩ :=
    ⟨[⟨.punctuator, "\x7b", 0⟩], ⟨.keyword .kwReturn, "return", 1⟩, [⟨.lineBreak, "\n", 7⟩],
      rfl, by decide, by decide, by decide, by decide, by decide,
      by decide⟩
  have hbraces : ∀ u ∈ tokens, u.isPunct "\x7b" = true ∨ marks u = [] ∨
      marks u = [.closes '\x7d'] := by decide
  refine ⟨h, by decide +kernel, hcut, (semicolons_at_statements h ∅).mpr ?_⟩
  rintro before t back hsplit - o ⟨front, inner, b, rfl, hb, -⟩
  rcases hbraces o (by rw [hsplit]; simp) with hbrace | hnone | hclose
  · exact hbrace
  · rw [hnone] at hb
    cases hb
  · rw [hclose] at hb
    simp at hb

set_option maxRecDepth 20000 in
/-- In `f(a.return\n)` the name of a property ends the line, and a semicolon is put in between the
parentheses. -/
theorem semicolon_in_parentheses :
    let source := "f(a.return\n)"
    let before : List Token := [⟨.identifier, "f", 0⟩, ⟨.punctuator, "(", 1⟩,
      ⟨.identifier, "a", 2⟩, ⟨.punctuator, ".", 3⟩, ⟨.keyword .kwReturn, "return", 4⟩,
      ⟨.lineBreak, "\n", 10⟩]
    let close : Token := ⟨.punctuator, ")", 11⟩
    tokenize source = .ok (before ++ [close]) ∧ Brackets.check (before ++ [close]) = .ok () ∧
      (compact (before ++ [close]) ∅).code = "f(a.return;)" ∧
      (∃ c ∈ chunks (before ++ [close]) ∅, c.gap = .semicolon ∧ c.original = close.start) ∧
      Innermost before ⟨.punctuator, "(", 1⟩ ∧ ¬ AtStatements before := by
  intro source before close
  have h : tokenize source = .ok (before ++ [close]) := by
    rw [tokenize, tokens_eq_runFor]
    decide +kernel
  have hinner : Innermost before ⟨.punctuator, "(", 1⟩ :=
    ⟨before.take 1, before.drop 2, '(', rfl, by decide, (check_eq_ok_iff _).mp (by decide)⟩
  refine ⟨h, by decide +kernel, by decide +kernel, by decide +kernel, hinner, fun hat => ?_⟩
  have hbrace := hat _ hinner
  simp [Token.isPunct] at hbrace

end Minify
