import Minify.Proofs.ParsedStatements
import Minify.Proofs.ParserSound
import Minify.Proofs.ReadBack

/-!
Which semicolons the layout leaves out between the braces of a function.

In front of a closing brace the layout keeps a semicolon only where it knows that a body is to come:
after the header of an `if`, a `while` or a `for`, after `else` and `do`, and after a colon. It
takes no `for await` for a loop, since the parenthesis does not follow on the keyword. So the words
that stay are the short words of the statements, and they read as the same statements just if no
empty body of a `for await` stood in front of a brace.
-/

namespace Minify

namespace Layout

open Grammar

variable {before ts more inner : List Token} {t w o c : Token} {parens : List Bool}

/-! ### What stays of the significant tokens -/

def braceNext (ts : List Token) : Bool := ts.head?.any fun t => t.isPunct "\x7d"

/-- The lexemes that stay of significant tokens after the tokens `before`, if nothing is put in. -/
def staying (before : List Token) : List Token → List Lexeme
  | [] => []
  | t :: ts =>
    if t.isPunct ";" && (!isBody before && braceNext ts) then staying (before ++ [t]) ts
    else t.lexeme :: staying (before ++ [t]) ts

lemma braceNext_iff : braceNext ts = true ↔ (ts.map Token.lexeme).head? = some closeBrace := by
  cases ts with
  | nil => simp [braceNext]
  | cons t ts => exact isPunct_iff_lexeme.trans Option.some_inj.symm

lemma braceNext_of_ne (ht : t.lexeme ≠ closeBrace) : braceNext (t :: more) = false :=
  Bool.eq_false_iff.mpr fun h => ht (isPunct_iff_lexeme.mp h)

lemma staying_cons (ht : t.lexeme ≠ .semicolon) :
    staying before (t :: more) = t.lexeme :: staying (before ++ [t]) more := by
  have hsemi : t.isPunct ";" = false := Bool.eq_false_iff.mpr fun h => ht (isPunct_iff_lexeme.mp h)
  rw [staying, hsemi, Bool.false_and, if_neg Bool.false_ne_true]

/-- Tokens stay that do not end with a semicolon, with no closing brace after the first. -/
lemma staying_append (hbrace : closeBrace ∉ (ts.map Token.lexeme).tail)
    (hlast : (ts.map Token.lexeme).getLast? ≠ some .semicolon) (more : List Token) :
    staying before (ts ++ more) = ts.map Token.lexeme ++ staying (before ++ ts) more := by
  induction ts generalizing before with
  | nil => simp
  | cons t ts ih =>
    have hstays : (t.isPunct ";" && (!isBody before && braceNext (ts ++ more))) = false := by
      cases ts with
      | nil =>
        have hsemi : t.isPunct ";" = false :=
          Bool.eq_false_iff.mpr fun h => hlast (congrArg some (isPunct_iff_lexeme.mp h))
        rw [hsemi, Bool.false_and]
      | cons t' ts =>
        rw [List.cons_append, braceNext_of_ne fun h => hbrace (h ▸ List.mem_cons_self),
          Bool.and_false, Bool.and_false]
    have hrest : closeBrace ∉ (ts.map Token.lexeme).tail := fun h => hbrace (List.mem_of_mem_tail h)
    have hlast' : (ts.map Token.lexeme).getLast? ≠ some .semicolon := by
      cases ts with
      | nil => exact nofun
      | cons t' ts => rwa [List.map_cons, List.map_cons, List.getLast?_cons_cons] at hlast
    rw [List.cons_append, staying, hstays, if_neg Bool.false_ne_true, ih hrest hlast',
      List.append_assoc]
    rfl

/-- A semicolon stays as a body, or with no closing brace behind it. -/
lemma staying_semicolon (ht : t.lexeme = .semicolon)
    (h : (isBody before || !braceNext more) = true) :
    staying before (t :: more) = .semicolon :: staying (before ++ [t]) more := by
  have hstays : (!isBody before && braceNext more) = false := by
    cases hbody : isBody before <;> simp_all
  rw [staying, hstays, Bool.and_false, if_neg Bool.false_ne_true, ht]

lemma staying_left (ht : t.lexeme = .semicolon) (hbody : isBody before = false)
    (hbrace : braceNext more = true) :
    staying before (t :: more) = staying (before ++ [t]) more := by
  rw [staying, isPunct_iff_lexeme.mpr ht, hbody, hbrace]
  rfl

lemma braceNext_filter (ts : List Token) : braceNext (ts.filter isKept) = endsBlock ts := by
  rw [braceNext, List.head?_filter, endsBlock]

lemma kept_entries {lineBreak : Bool} {last : String}
    (hcalm : ∀ t ∈ ts, isConditional t = false ∧ t.isRestricted = false)
    (hbefore : ∀ p ∈ before.getLast?, p.isRestricted = false) :
    (lexemes (entries before lineBreak last (unchanged ts))).filter Lexeme.isKept
      = staying before (ts.filter isKept) := by
  induction ts generalizing before lineBreak last with
  | nil => rfl
  | cons t ts ih =>
    obtain ⟨⟨hcond, hrestricted⟩, hts⟩ := List.forall_mem_cons.mp hcalm
    have hbefore' : ∀ p ∈ (before ++ [t]).getLast?, p.isRestricted = false := by
      rw [List.getLast?_concat]
      exact fun p hp => Option.some.inj hp ▸ hrestricted
    have hcons : unchanged (t :: ts) = (t, t.text) :: unchanged ts := rfl
    rw [hcons, entries]
    cases htrivia : t.isTrivia with
    | true =>
      have hkept : isKept t = false := by simp [isKept, htrivia, hcond]
      rw [if_pos rfl, hcond, if_neg Bool.false_ne_true, ih hts hbefore,
        List.filter_cons_of_neg (by simp [hkept])]
    | false =>
      have hkept : isKept t = true := by simp [isKept, htrivia]
      have hlexeme : t.lexeme.isKept = true := hkept
      rw [if_neg Bool.false_ne_true, List.filter_cons_of_pos hkept, staying, braceNext_filter,
        beforeBrace_unchanged]
      cases hsemi : t.isPunct ";" with
      | true =>
        have htext : ";" = t.text := (isPunct_iff.mp hsemi).2.symm
        rw [if_pos rfl, Bool.true_and]
        split
        · exact ih hts hbefore'
        · rw [htext, lexemes_cons, List.filter_append, List.filter_cons_of_pos hlexeme,
            ih hts hbefore']
          rfl
      | false =>
        have hgap : gapBefore before lineBreak last t t.text ≠ .semicolon := by
          intro hgap
          obtain ⟨-, -, p, hp, hp'⟩ := gapBefore_eq_semicolon hgap
          rw [hbefore p hp] at hp'
          cases hp'
        rw [if_neg Bool.false_ne_true, lexemes_cons, List.filter_append, filter_gap, if_neg hgap,
          List.filter_cons_of_pos hlexeme, ih hts hbefore']
        rfl

/-! ### What the layout knows where a statement begins -/

/-- A word here is no name of a property. -/
structure AtWord (parens : List Bool) (before : List Token) : Prop extends Idle parens before where
  noPoint : (before.getLast?.any fun p => p.isPunct "." || p.isPunct "?.") = false

lemma Idle.atWord (h : Idle parens (before ++ [t]))
    (ht : (t.isPunct "." || t.isPunct "?.") = false) : AtWord parens (before ++ [t]) :=
  ⟨h, by rwa [List.getLast?_concat]⟩

lemma isBody_concat : isBody (before ++ [t]) = ((after (before ++ [t])).closesHeader
    || (t.isKeyword .kwElse || t.isKeyword .kwDo || t.isPunct ":")) := by
  rw [isBody, List.getLast?_concat, Option.any_some]

/-- After a semicolon or a brace an empty statement is no body. -/
lemma Inside.stop {q : String} (h : Inside parens before) (ht : t.lexeme = .punct q)
    (hq : q = ";" ∨ q = "\x7b" ∨ q = "\x7d") :
    AtWord parens (before ++ [t]) ∧ isBody (before ++ [t]) = false := by
  have hlevel : Level parens (before ++ [t]) :=
    h.inert (isInert_punct ht (by rcases hq with rfl | rfl | rfl <;> decide))
  have hpoint : (t.isPunct "." || t.isPunct "?.") = false := by
    rw [isPunct_punct ht, isPunct_punct ht]
    rcases hq with rfl | rfl | rfl <;> decide
  have hcolon : t.isPunct ":" = false := by
    rw [isPunct_punct ht]
    rcases hq with rfl | rfl | rfl <;> decide
  refine ⟨hlevel.atWord hpoint, ?_⟩
  rw [isBody_concat, hlevel.closesHeader, isKeyword_punct ht, isKeyword_punct ht, hcolon]
  rfl

lemma Inside.bodyWord (h : Inside parens before) (ht : t.lexeme = elseWord ∨ t.lexeme = doWord) :
    AtWord parens (before ++ [t]) ∧ isBody (before ++ [t]) = true := by
  rcases ht with ht | ht <;> cases t <;> cases ht <;>
    exact ⟨(h.inert rfl).atWord rfl, by rw [isBody_concat]; simp [Token.isKeyword]⟩

/-- A pair of parentheses is a header if the layout waits for one. -/
lemma atWord_group {inner : List Lexeme} (hparens : (after before).parens = parens)
    (hinner : ∀ t : Token, t.lexeme ∈ inner → isInert t = true)
    (hts : ts.map Token.lexeme = .punct "(" :: (inner ++ [.punct ")"])) :
    AtWord parens (before ++ ts) ∧
      isBody (before ++ ts) = ((after before).functionHead || (after before).headerKeyword) := by
  obtain ⟨o, _, rfl, ho, hrest⟩ := List.map_eq_cons_iff.mp hts
  obtain ⟨is, _, rfl, rfl, hlast⟩ := List.map_eq_append_iff.mp hrest
  obtain ⟨c, _, rfl, hc, hnil⟩ := List.map_eq_cons_iff.mp hlast
  obtain rfl := List.map_eq_nil_iff.mp hnil
  have hopen := level_open hparens (isPunct_of_lexeme ho)
  have hlevel := hopen.inerts fun t ht => hinner t (List.mem_map_of_mem ht)
  obtain ⟨hidle, hcloses⟩ := hlevel.close (isPunct_of_lexeme hc)
  have hpoint : (c.isPunct "." || c.isPunct "?.") = false := by
    rw [isPunct_punct hc, isPunct_punct hc]
    decide
  have hshape : before ++ o :: (is ++ [c]) = before ++ [o] ++ is ++ [c] := by simp
  rw [hshape]
  refine ⟨hidle.atWord hpoint, ?_⟩
  rw [isBody_concat, hcloses, isKeyword_punct hc, isKeyword_punct hc, isPunct_punct hc]
  exact Bool.or_false _

lemma Inside.keyword {k : Keyword} (h : Inside parens before) (hw : w.kind = .keyword k)
    (hk : k ≠ .kwFunction) : Inside parens (before ++ [w]) := by
  have hfunction : w.isKeyword .kwFunction = false := by simp [Token.isKeyword, hw, hk]
  have hword : w.isWord = true := by simp [Token.isWord, hw]
  refine ⟨?_, parens_word h.parens hword⟩
  rw [after_append_singleton]
  exact functionHead_advance h hfunction

lemma AtWord.afterHeader {k : Keyword} {l : Lexeme} {inner : List Lexeme}
    (h : AtWord parens before) (hl : l.kind = .keyword k) (hk : k.hasHeader = true)
    (hinner : ∀ t : Token, t.lexeme ∈ inner → isInert t = true)
    (hts : ts.map Token.lexeme = l :: .punct "(" :: (inner ++ [.punct ")"])) :
    AtWord parens (before ++ ts) ∧ isBody (before ++ ts) = true := by
  obtain ⟨w, group, rfl, rfl, hgroup⟩ := List.map_eq_cons_iff.mp hts
  have hw : w.kind = .keyword k := hl
  have hwaits : (after (before ++ [w])).headerKeyword = true := by
    have hprev := h.noPoint
    rw [← prev_after] at hprev
    rw [after_append_singleton]
    simp only [State.advance, hprev]
    simp [Token.isPunct, Token.hasHeader, hw, hk]
  have hinside := h.keyword hw (by rintro rfl; cases hk)
  obtain ⟨hat, hbody⟩ := atWord_group hinside.parens hinner hgroup
  rw [List.append_cons]
  exact ⟨hat, by rw [hbody, hwaits, Bool.or_true]⟩

/-! ### Statements -/

lemma AtWord.condition {k : Keyword} {l : Lexeme} {x : String} (h : AtWord parens before)
    (hl : l.kind = .keyword k) (hk : k.hasHeader = true)
    (hts : ts.map Token.lexeme = l :: header x) :
    AtWord parens (before ++ ts) ∧ isBody (before ++ ts) = true ∧
      ∀ more, staying before (ts ++ more) = l :: header x ++ staying (before ++ ts) more := by
  have hinner (t : Token) (ht : t.lexeme ∈ [Lexeme.name x]) : isInert t = true :=
    isInert_name (List.mem_singleton.mp ht)
  obtain ⟨hat, hbody⟩ := h.afterHeader hl hk hinner hts
  refine ⟨hat, hbody, fun more => ?_⟩
  rw [staying_append, hts]
  · rw [hts]
    simp [header, closeBrace, Lexeme.name, Lexeme.punct]
  · rw [hts]
    simp [header, Lexeme.semicolon, Lexeme.punct]

/-- Of all that may stand in front of a body only `for await` is not known to. -/
lemma AtWord.lead (k : Lead) (h : AtWord parens before) (hts : ts.map Token.lexeme = k.words) :
    AtWord parens (before ++ ts) ∧ isBody (before ++ ts) = !k.isForAwait := by
  cases k with
  | whileHead x =>
    obtain ⟨hat, hbody, -⟩ := h.condition rfl rfl hts
    exact ⟨hat, hbody⟩
  | forever =>
    have hinner (t : Token) (ht : t.lexeme ∈ [Lexeme.semicolon, .semicolon]) :
      isInert t = true := by
      have hsemi : t.lexeme = .semicolon := by simpa using ht
      exact isInert_punct hsemi (by decide)
    exact h.afterHeader rfl rfl hinner hts
  | forAwait x y =>
    obtain ⟨w, _, rfl, hw, hrest⟩ := List.map_eq_cons_iff.mp hts
    obtain ⟨a, group, rfl, ha, hgroup⟩ := List.map_eq_cons_iff.mp hrest
    have hinner (t : Token) (ht : t.lexeme ∈ [Lexeme.name x, .name "of", .name y]) :
        isInert t = true := by
      obtain ht | ht | ht : t.lexeme = .name x ∨ t.lexeme = .name "of" ∨ t.lexeme = .name y := by
        simpa using ht
      all_goals exact isInert_name ht
    -- after `await` the layout waits for the parenthesis of the header no more
    have hlevel : Level parens (before ++ [w] ++ [a]) :=
      (h.keyword (congrArg Lexeme.kind hw) (by decide)).inert (isInert_name ha)
    obtain ⟨hat, hbody⟩ := atWord_group hlevel.parens hinner hgroup
    rw [List.append_cons, List.append_cons]
    exact ⟨hat, by rw [hbody, hlevel.functionHead, hlevel.headerKeyword]; rfl⟩
  | label l =>
    obtain ⟨w, _, rfl, hw, hrest⟩ := List.map_eq_cons_iff.mp hts
    obtain ⟨c, _, rfl, hc, hnil⟩ := List.map_eq_cons_iff.mp hrest
    obtain rfl := List.map_eq_nil_iff.mp hnil
    have hcolon : c.isPunct ":" = true := isPunct_of_lexeme hc
    have hlevel := level_colon (h.inert (isInert_name hw)).parens hcolon
    have hpoint : (c.isPunct "." || c.isPunct "?.") = false := by
      rw [isPunct_punct hc, isPunct_punct hc]
      decide
    rw [List.append_cons]
    exact ⟨hlevel.atWord hpoint, by rw [isBody_concat, hcolon, Bool.or_true, Bool.or_true]; rfl⟩

lemma staying_lead (k : Lead) (hts : ts.map Token.lexeme = k.words) (more : List Token) :
    staying before (ts ++ more) = k.words ++ staying (before ++ ts) more := by
  rw [staying_append, hts]
  · rw [hts]
    cases k <;> simp [Lead.words, header, closeBrace, Lexeme.semicolon, Lexeme.name, Lexeme.punct]
  · rw [hts]
    cases k <;> simp [Lead.words, header, Lexeme.semicolon, Lexeme.punct]

/-- Of a statement stay the short words, where it is no empty statement that goes. -/
def IsLaid (s : Statement) : Prop :=
  ∀ (parens : List Bool) (before ts more : List Token), AtWord parens before →
    (s.isEmpty = true → (isBody before || !braceNext more) = true) →
    ts.map Token.lexeme = s.words →
    AtWord parens (before ++ ts) ∧ isBody (before ++ ts) = false ∧
      staying before (ts ++ more)
        = s.spelled true (braceNext more) ++ staying (before ++ ts) more

/-- And so it is of statements in front of a closing brace. -/
def ListIsLaid (l : List Statement) : Prop :=
  ∀ (parens : List Bool) (before ts more : List Token) (c : Token), AtWord parens before →
    isBody before = false → ts.map Token.lexeme = Statement.listWords l → c.lexeme = closeBrace →
    AtWord parens (before ++ ts) ∧
      staying before (ts ++ c :: more)
        = Statement.listSpelled true l ++ staying (before ++ ts) (c :: more)

lemma isLaid_use (x : String) : IsLaid (.use x) := by
  intro parens before ts more hat _ hts
  obtain ⟨w, _, rfl, hw, hrest⟩ := List.map_eq_cons_iff.mp hts
  obtain ⟨s, _, rfl, hs, hnil⟩ := List.map_eq_cons_iff.mp hrest
  obtain rfl := List.map_eq_nil_iff.mp hnil
  have hlevel : Level parens (before ++ [w]) := hat.inert (isInert_name hw)
  have hbody : isBody (before ++ [w]) = false := by
    rw [isBody_concat, hlevel.closesHeader]
    cases w
    cases hw
    rfl
  have hword : w.lexeme ≠ .semicolon := by simp [hw, Lexeme.name, Lexeme.semicolon]
  obtain ⟨hend, hnobody⟩ := hlevel.stop hs (.inl rfl)
  rw [List.append_cons]
  refine ⟨hend, hnobody, ?_⟩
  rw [List.cons_append, staying_cons hword, List.singleton_append, Statement.spelled, hw]
  cases hbrace : braceNext more with
  | true =>
    rw [staying_left hs hbody hbrace]
    rfl
  | false =>
    rw [staying_semicolon hs (by rw [hbrace]; exact Bool.or_true _)]
    rfl

lemma isLaid_empty : IsLaid .empty := by
  intro parens before ts more hat hstays hts
  obtain ⟨s, _, rfl, hs, hnil⟩ := List.map_eq_cons_iff.mp hts
  obtain rfl := List.map_eq_nil_iff.mp hnil
  obtain ⟨hend, hnobody⟩ := hat.stop hs (.inl rfl)
  exact ⟨hend, hnobody, staying_semicolon hs (hstays rfl)⟩

lemma isLaid_block {l : List Statement} (ih : ListIsLaid l) : IsLaid (.block l) := by
  intro parens before ts more hat _ hts
  obtain ⟨o, _, rfl, ho, hrest⟩ := List.map_eq_cons_iff.mp hts
  obtain ⟨body, _, rfl, hbody, hlast⟩ := List.map_eq_append_iff.mp hrest
  obtain ⟨c, _, rfl, hc, hnil⟩ := List.map_eq_cons_iff.mp hlast
  obtain rfl := List.map_eq_nil_iff.mp hnil
  obtain ⟨hopen, hnobody⟩ := hat.stop ho (.inr (.inl rfl))
  obtain ⟨hinner, hstaying⟩ := ih parens _ body more c hopen hnobody hbody hc
  obtain ⟨hend, hnobody'⟩ := hinner.stop hc (.inr (.inr rfl))
  have hshape : before ++ o :: (body ++ [c]) = before ++ [o] ++ body ++ [c] := by simp
  rw [hshape]
  refine ⟨hend, hnobody', ?_⟩
  rw [List.cons_append, List.append_assoc, List.singleton_append, staying_cons (by rw [ho]; decide),
    hstaying, staying_cons (by rw [hc]; decide), ho, hc, Statement.spelled]
  simp

lemma isLaid_cond {yes : Statement} (x : String) (ih : IsLaid yes) : IsLaid (.cond x yes) := by
  intro parens before ts more hat _ hts
  obtain ⟨front, body, rfl, hfront, hbody⟩ :=
    List.map_eq_append_iff.mp (show _ = (ifWord :: header x) ++ yes.words from hts)
  obtain ⟨hhead, hwaits, hstaying⟩ := hat.condition rfl rfl hfront
  obtain ⟨hend, hnobody, hyes⟩ := ih parens _ body more hhead (fun _ => by rw [hwaits]; rfl) hbody
  rw [← List.append_assoc]
  refine ⟨hend, hnobody, ?_⟩
  rw [List.append_assoc, hstaying, hyes, Statement.spelled]
  simp

lemma isLaid_branch {yes no : Statement} (x : String) (ih : IsLaid yes) (ih' : IsLaid no) :
    IsLaid (.branch x yes no) := by
  intro parens before ts more hat _ hts
  obtain ⟨front, _, rfl, hfront, hrest⟩ := List.map_eq_append_iff.mp
    (show _ = (ifWord :: header x) ++ (yes.words ++ elseWord :: no.words) from hts)
  obtain ⟨first, _, rfl, hfirst, hrest'⟩ := List.map_eq_append_iff.mp hrest
  obtain ⟨e, second, rfl, he, hsecond⟩ := List.map_eq_cons_iff.mp hrest'
  obtain ⟨hhead, hwaits, hstaying⟩ := hat.condition rfl rfl hfront
  obtain ⟨hmiddle, -, hyes⟩ := ih parens _ first (e :: (second ++ more)) hhead
    (fun _ => by rw [hwaits]; rfl) hfirst
  obtain ⟨helse, hwaits'⟩ := hmiddle.bodyWord (.inl he)
  obtain ⟨hend, hnobody, hno⟩ := ih' parens _ second more helse (fun _ => by rw [hwaits']; rfl)
    hsecond
  have hbrace : braceNext (e :: (second ++ more)) = false := braceNext_of_ne (by rw [he]; decide)
  have hshape : before ++ (front ++ (first ++ e :: second))
      = before ++ front ++ first ++ [e] ++ second := by simp
  rw [hshape]
  refine ⟨hend, hnobody, ?_⟩
  rw [List.append_assoc, List.append_assoc, List.cons_append, hstaying, hyes, hbrace,
    staying_cons (by rw [he]; decide), hno, he, Statement.spelled]
  simp

/-- An empty body of a `for await` goes in front of a closing brace. -/
lemma isLaid_lead {body : Statement} (k : Lead) (ih : IsLaid body) : IsLaid (.lead k body) := by
  intro parens before ts more hat _ hts
  obtain ⟨front, rest, rfl, hfront, hrest⟩ := List.map_eq_append_iff.mp hts
  obtain ⟨hhead, hwaits⟩ := hat.lead k hfront
  suffices hbody : AtWord parens (before ++ front ++ rest) ∧
      isBody (before ++ front ++ rest) = false ∧
      staying (before ++ front) (rest ++ more)
        = (if braceNext more && k.isForAwait && body.isEmpty then []
          else body.spelled true (braceNext more)) ++ staying (before ++ front ++ rest) more by
    obtain ⟨hend, hnobody, hstaying⟩ := hbody
    rw [← List.append_assoc]
    refine ⟨hend, hnobody, ?_⟩
    rw [List.append_assoc, staying_lead k hfront, hstaying, Statement.spelled, Bool.true_and]
    simp
  cases hlost : braceNext more && k.isForAwait && body.isEmpty with
  | true =>
    simp only [Bool.and_eq_true] at hlost
    obtain ⟨⟨hbrace, hk⟩, hempty⟩ := hlost
    rw [hk] at hwaits
    obtain ⟨s, rfl, hs⟩ : ∃ s, rest = [s] ∧ s.lexeme = .semicolon := by
      cases body <;> cases hempty
      obtain ⟨s, _, rfl, hs, hnil⟩ := List.map_eq_cons_iff.mp hrest
      obtain rfl := List.map_eq_nil_iff.mp hnil
      exact ⟨s, rfl, hs⟩
    obtain ⟨hend, hnobody⟩ := hhead.stop hs (.inl rfl)
    exact ⟨hend, hnobody, staying_left hs hwaits hbrace⟩
  | false =>
    refine ih parens _ rest more hhead (fun hempty => ?_) hrest
    rw [hempty, Bool.and_true, Bool.and_comm] at hlost
    rw [hwaits, ← Bool.not_and, hlost]
    rfl

lemma isLaid_doWhile {body : Statement} (x : String) (ih : IsLaid body) :
    IsLaid (.doWhile body x) := by
  intro parens before ts more hat _ hts
  obtain ⟨d, _, rfl, hd, hrest⟩ := List.map_eq_cons_iff.mp hts
  obtain ⟨first, _, rfl, hfirst, hrest'⟩ := List.map_eq_append_iff.mp hrest
  obtain ⟨last, _, rfl, hlast, hrest''⟩ := List.map_eq_append_iff.mp
    (show _ = (whileWord :: header x) ++ [.semicolon] from hrest')
  obtain ⟨s, _, rfl, hs, hnil⟩ := List.map_eq_cons_iff.mp hrest''
  obtain rfl := List.map_eq_nil_iff.mp hnil
  obtain ⟨hdo, hwaits⟩ := hat.bodyWord (.inr hd)
  obtain ⟨hmiddle, -, hbody⟩ := ih parens _ first (last ++ [s] ++ more) hdo
    (fun _ => by rw [hwaits]; rfl) hfirst
  obtain ⟨hhead, hwaits', hstaying⟩ := hmiddle.condition rfl rfl hlast
  obtain ⟨hend, hnobody⟩ := hhead.stop hs (.inl rfl)
  have hbrace : braceNext (last ++ [s] ++ more) = false := by
    obtain ⟨w, _, rfl, hw, -⟩ := List.map_eq_cons_iff.mp hlast
    exact braceNext_of_ne (by rw [hw]; decide)
  have hshape : before ++ d :: (first ++ (last ++ [s])) = before ++ [d] ++ first
    ++ last ++ [s] := by
    simp
  rw [hshape]
  refine ⟨hend, hnobody, ?_⟩
  -- the header of the `while` keeps the semicolon
  rw [List.cons_append, List.append_assoc, staying_cons (by rw [hd]; decide), hbody, hbrace,
    List.append_assoc last, hstaying, List.singleton_append,
    staying_semicolon hs (by rw [hwaits']; rfl), hd, Statement.spelled]
  simp

lemma listIsLaid_nil : ListIsLaid [] := by
  intro parens before ts more c hat _ hts _
  obtain rfl := List.map_eq_nil_iff.mp hts
  rw [List.append_nil]
  exact ⟨hat, rfl⟩

lemma braceNext_statements {l : List Statement} (hts : ts.map Token.lexeme = Statement.listWords l)
    (hc : c.lexeme = closeBrace) (more : List Token) :
    braceNext (ts ++ c :: more) = l.isEmpty := by
  cases l with
  | nil =>
    obtain rfl := List.map_eq_nil_iff.mp hts
    exact braceNext_iff.mpr (congrArg some hc)
  | cons s l =>
    refine Bool.eq_false_iff.mpr fun hbrace => ?_
    rw [braceNext_iff, List.map_append, hts, Statement.listWords, List.append_assoc,
      ← Statement.spelled_false false s] at hbrace
    exact (Statement.head_spelled s false false _ _ hbrace).1 rfl

lemma listIsLaid_cons {s : Statement} {l : List Statement} (ih : IsLaid s) (ih' : ListIsLaid l) :
    ListIsLaid (s :: l) := by
  intro parens before ts more c hat hnobody hts hc
  obtain ⟨first, rest, rfl, hfirst, hrest⟩ := List.map_eq_append_iff.mp hts
  have hbrace := braceNext_statements hrest hc more
  rw [← List.append_assoc, List.append_assoc first]
  cases hgoes : l.isEmpty && s.isEmpty with
  | true =>
    simp only [Bool.and_eq_true, List.isEmpty_iff] at hgoes
    obtain ⟨rfl, hempty⟩ := hgoes
    obtain rfl := List.map_eq_nil_iff.mp hrest
    cases s <;> cases hempty
    obtain ⟨t, _, rfl, ht, hnil⟩ := List.map_eq_cons_iff.mp hfirst
    obtain rfl := List.map_eq_nil_iff.mp hnil
    rw [List.append_nil]
    exact ⟨(hat.stop ht (.inl rfl)).1, staying_left ht hnobody hbrace⟩
  | false =>
    have hstays (h : s.isEmpty = true) :
        (isBody before || !braceNext (rest ++ c :: more)) = true := by
      rw [h, Bool.and_true] at hgoes
      rw [hbrace, hgoes]
      exact Bool.or_true _
    obtain ⟨hmiddle, hnobody', hstaying⟩ := ih parens _ first (rest ++ c :: more) hat hstays hfirst
    obtain ⟨hend, hstaying'⟩ := ih' parens _ rest more c hmiddle hnobody' hrest hc
    refine ⟨hend, ?_⟩
    rw [hstaying, hstaying', hbrace, Statement.listSpelled, Bool.true_and, hgoes]
    simp

mutual

/-- **Of statements the short words stay.** -/
theorem isLaid : ∀ s : Statement, IsLaid s
  | .use x => isLaid_use x
  | .empty => isLaid_empty
  | .block body => isLaid_block (listIsLaid body)
  | .cond x yes => isLaid_cond x (isLaid yes)
  | .branch x yes no => isLaid_branch x (isLaid yes) (isLaid no)
  | .lead k body => isLaid_lead k (isLaid body)
  | .doWhile body x => isLaid_doWhile x (isLaid body)

theorem listIsLaid : ∀ l : List Statement, ListIsLaid l
  | [] => listIsLaid_nil
  | s :: l => listIsLaid_cons (isLaid s) (listIsLaid l)

end

/-! ### Scripts -/

lemma atWord_front {p : Script} (hts : ts.map Token.lexeme = p.front) :
    AtWord [] ts ∧ isBody ts = false := by
  obtain ⟨f, _, rfl, hf, hrest⟩ := List.map_eq_cons_iff.mp hts
  obtain ⟨n, _, rfl, hn, hrest'⟩ := List.map_eq_cons_iff.mp hrest
  obtain ⟨group, _, rfl, hgroup, hlast⟩ :=
    List.map_eq_append_iff.mp (show _ = [Lexeme.punct "(", .punct ")"] ++ [openBrace] from hrest')
  obtain ⟨o, _, rfl, ho, hnil⟩ := List.map_eq_cons_iff.mp hlast
  obtain rfl := List.map_eq_nil_iff.mp hnil
  have hparens : (after [f, n]).parens = [] := by
    cases f; cases n; cases hf; cases hn
    rfl
  obtain ⟨hparams, -⟩ := atWord_group hparens (fun _ h => absurd h List.not_mem_nil)
    (show _ = Lexeme.punct "(" :: ([] ++ [.punct ")"]) from hgroup)
  exact hparams.stop ho (.inr (.inl rfl))

/-- **Of a script the short words stay.** -/
theorem staying_script {p : Script} (hts : ts.map Token.lexeme = p.words) :
    staying [] ts = p.front ++ (Statement.listSpelled true p.body ++ [closeBrace]) := by
  obtain ⟨front, _, rfl, hfront, hrest⟩ := List.map_eq_append_iff.mp hts
  obtain ⟨body, _, rfl, hbody, hlast⟩ := List.map_eq_append_iff.mp hrest
  obtain ⟨c, _, rfl, hc, hnil⟩ := List.map_eq_cons_iff.mp hlast
  obtain rfl := List.map_eq_nil_iff.mp hnil
  obtain ⟨hat, hnobody⟩ := atWord_front hfront
  obtain ⟨-, hstaying⟩ := listIsLaid p.body [] front body [] c hat hnobody hbody hc
  rw [staying_append, List.nil_append, hstaying, hfront, staying_cons (by rw [hc]; decide), hc]
  · rfl
  · rw [hfront]
    simp [Script.front, closeBrace, openBrace, Lexeme.name, Lexeme.punct]
  · rw [hfront]
    simp [Script.front, openBrace, Lexeme.semicolon, Lexeme.punct]

/-- The lexeme is a word or a punctuator after which the layout puts no semicolon in. -/
def isCalm (l : Lexeme) : Bool :=
  match l.kind with
  | .identifier | .punctuator => true
  | .keyword k => !k.isRestricted
  | _ => false

lemma isCalm_header (x : String) : (header x).all isCalm = true := rfl

lemma isCalm_lead (k : Lead) : k.words.all isCalm = true := by
  cases k <;> rfl

mutual

lemma isCalm_words : ∀ s : Statement, s.words.all isCalm = true
  | .use _ => rfl
  | .empty => rfl
  | .block body => by
    rw [Statement.words, List.all_cons, List.all_append, isCalm_listWords body]
    rfl
  | .cond x yes => by
    rw [Statement.words, List.all_cons, List.all_append, isCalm_header, isCalm_words yes]
    rfl
  | .branch x yes no => by
    rw [Statement.words, List.all_cons, List.all_append, List.all_append, List.all_cons,
      isCalm_header, isCalm_words yes, isCalm_words no]
    rfl
  | .lead k body => by
    rw [Statement.words, List.all_append, isCalm_lead, isCalm_words body]
    rfl
  | .doWhile body x => by
    rw [Statement.words, List.all_cons, List.all_append, isCalm_words body]
    rfl

lemma isCalm_listWords : ∀ l : List Statement, (Statement.listWords l).all isCalm = true
  | [] => rfl
  | s :: l => by
    rw [Statement.listWords, List.all_append, isCalm_words s, isCalm_listWords l]
    rfl

end

lemma isCalm_script (p : Script) : p.words.all isCalm = true := by
  rw [Script.words, List.all_append, List.all_append, isCalm_listWords]
  rfl

lemma calm_of_isCalm (h : isKept t = true → isCalm t.lexeme = true) :
    isConditional t = false ∧ t.isRestricted = false := by
  unfold isCalm at h
  cases hk : t.kind <;>
    simp_all [isKept, isConditional, Token.isTrivia, TokenKind.isTrivia, Token.isRestricted,
      Token.lexeme]

/-- **What the layout of a script keeps.** -/
theorem kept_laidOut {p : Script} (h : keptLexemes ts = p.words) :
    (laidOut ts).filter Lexeme.isKept
      = p.front ++ (Statement.listSpelled true p.body ++ [closeBrace]) := by
  have hwords : (ts.filter isKept).map Token.lexeme = p.words := by
    rw [← h, keptLexemes, List.filter_map]
    rfl
  have hcalm (t : Token) (ht : t ∈ ts) : isConditional t = false ∧ t.isRestricted = false := by
    refine calm_of_isCalm fun hkept => ?_
    have hmem : t.lexeme ∈ p.words :=
      hwords ▸ List.mem_map_of_mem (List.mem_filter.mpr ⟨ht, hkept⟩)
    exact List.all_eq_true.mp (isCalm_script p) _ hmem
  rw [laidOut, kept_entries hcalm (fun _ h => by cases h), staying_script hwords]

end Layout

open Layout Grammar

/-- **Which bodies stay.** Any statements between the braces of a function are read. They are read
again from its layout, but for empty statements between braces, exactly when the layout reads back
and no empty body of a `for await` stands in front of a closing brace, where its semicolon is left
out. -/
theorem bodies_stay {source : String} {ts : List Token} {p : Script}
    (h : tokenize source = .ok ts) (hp : keptLexemes ts = p.words) :
    ∃ q, script? (keptLexemes ts) = some q ∧ q.words = p.words ∧
      ((∃ ts' q', tokenize (compact ts ∅).code = .ok ts' ∧ script? (keptLexemes ts') = some q' ∧
          q'.tidy = q.tidy) ↔
        readsBack ts = true ∧ q.keepsBodies = true) := by
  obtain ⟨l, hl, hwords⟩ := Statement.exists_listNearest p.body
  let q : Script := { p with body := l }
  have hq : keptLexemes ts = q.words := by
    rw [hp, Script.words, Script.words, hwords]
    rfl
  have hscript : script? (keptLexemes ts) = some q := by
    have hread := script?_spelled false (p := q) hl
    rwa [Statement.listSpelled_false, Statement.listTrimmed_false, Bool.not_false, Bool.true_or,
      if_pos rfl, ← Script.words, ← hq] at hread
  have hshort := script?_spelled true (p := q) hl
  rw [← kept_laidOut hq, Bool.not_true, Bool.false_or] at hshort
  refine ⟨q, hscript, hq.symm.trans hp, ⟨fun ⟨ts', q', h', hq', htidy⟩ => ?_,
    fun ⟨hback, hkeeps⟩ => ?_⟩⟩
  · have hback : readsBack ts = true := by
      refine readsBack_of_fixed h h' ?_
      have hsame := (sameFixed_of_script? hq').trans (sameFixed_of_tidy htidy)
      rw [← hq] at hsame
      exact hsame.trans (filter_isFixed _)
    obtain ⟨ts'', h'', hkept⟩ := exists_tokens_of_readsBack h hback
    obtain rfl : ts'' = ts' := Except.ok.inj (h''.symm.trans h')
    refine ⟨hback, ?_⟩
    rw [hkept, hshort] at hq'
    split at hq'
    · assumption
    · cases hq'
  · obtain ⟨ts', h', hkept⟩ := exists_tokens_of_readsBack h hback
    rw [hkeeps, if_pos rfl, ← hkept] at hshort
    exact ⟨ts', _, h', hshort, congrArg (Script.mk p.name) (Statement.listTidy_trimmed true l)⟩

set_option maxRecDepth 20000 in
/-- Of the block the empty statement goes, and the loop keeps its body. -/
theorem bodies_stay_under_label :
    let ts : List Token := [
      ⟨.keyword .kwFunction, "function", 0⟩, ⟨.blank, " ", 8⟩, ⟨.identifier, "f", 9⟩,
      ⟨.punctuator, "(", 10⟩, ⟨.punctuator, ")", 11⟩, ⟨.blank, " ", 12⟩, ⟨.punctuator, "\x7b", 13⟩,
      ⟨.blank, " ", 14⟩, ⟨.keyword .kwIf, "if", 15⟩, ⟨.blank, " ", 17⟩, ⟨.punctuator, "(", 18⟩,
      ⟨.identifier, "a", 19⟩, ⟨.punctuator, ")", 20⟩, ⟨.blank, " ", 21⟩, ⟨.punctuator, "\x7b", 22⟩,
      ⟨.blank, " ", 23⟩, ⟨.identifier, "b", 24⟩, ⟨.punctuator, ";", 25⟩, ⟨.blank, " ", 26⟩,
      ⟨.punctuator, ";", 27⟩, ⟨.blank, " ", 28⟩, ⟨.punctuator, "\x7d", 29⟩, ⟨.blank, " ", 30⟩,
      ⟨.keyword .kwElse, "else", 31⟩, ⟨.blank, " ", 35⟩, ⟨.identifier, "l", 36⟩,
      ⟨.punctuator, ":", 37⟩, ⟨.blank, " ", 38⟩, ⟨.keyword .kwFor, "for", 39⟩, ⟨.blank, " ", 42⟩,
      ⟨.punctuator, "(", 43⟩, ⟨.punctuator, ";", 44⟩, ⟨.punctuator, ";", 45⟩,
      ⟨.punctuator, ")", 46⟩, ⟨.blank, " ", 47⟩, ⟨.punctuator, ";", 48⟩, ⟨.blank, " ", 49⟩,
      ⟨.punctuator, "\x7d", 50⟩]
    let p : Script := { name := "f", body := [
      .branch "a" (.block [.use "b", .empty]) (.lead (.label "l") (.lead .forever .empty))] }
    tokenize "function f() \x7b if (a) \x7b b; ; \x7d else l: for (;;) ; \x7d" = .ok ts ∧
      keptLexemes ts = p.words ∧
      (compact ts ∅).code = "function f()\x7bif(a)\x7bb;\x7delse l:for(;;);\x7d" ∧
      script? (keptLexemes ts) = some p ∧
      ∃ ts' q', tokenize (compact ts ∅).code = .ok ts' ∧ script? (keptLexemes ts') = some q' ∧
        q'.tidy = p.tidy := by
  intro ts p
  have h : tokenize "function f() \x7b if (a) \x7b b; ; \x7d else l: for (;;) ; \x7d" = .ok ts := by
    rw [tokenize, tokens_eq_runFor]
    decide +kernel
  have hp : keptLexemes ts = p.words := by decide +kernel
  have hscript : script? (keptLexemes ts) = some p := rfl
  obtain ⟨q, hq, -, hiff⟩ := bodies_stay h hp
  obtain rfl : p = q := Option.some.inj (hscript.symm.trans hq)
  exact ⟨h, hp, by decide +kernel, hscript, hiff.mpr ⟨by decide +kernel, by decide +kernel⟩⟩

set_option maxRecDepth 20000 in
/-- The loop loses its body, and nothing is read. -/
theorem await_body_left_out :
    let source := "function f()\x7bfor await(x of y);\x7d"
    let ts : List Token := [
      ⟨.keyword .kwFunction, "function", 0⟩, ⟨.blank, " ", 8⟩, ⟨.identifier, "f", 9⟩,
      ⟨.punctuator, "(", 10⟩, ⟨.punctuator, ")", 11⟩, ⟨.punctuator, "\x7b", 12⟩,
      ⟨.keyword .kwFor, "for", 13⟩, ⟨.blank, " ", 16⟩, ⟨.identifier, "await", 17⟩,
      ⟨.punctuator, "(", 22⟩, ⟨.identifier, "x", 23⟩, ⟨.blank, " ", 24⟩, ⟨.identifier, "of", 25⟩,
      ⟨.blank, " ", 27⟩, ⟨.identifier, "y", 28⟩, ⟨.punctuator, ")", 29⟩, ⟨.punctuator, ";", 30⟩,
      ⟨.punctuator, "\x7d", 31⟩]
    let p : Script := { name := "f", body := [.lead (.forAwait "x" "y") .empty] }
    tokenize source = .ok ts ∧ keptLexemes ts = p.words ∧ script? (keptLexemes ts) = some p ∧
      (compact ts ∅).code = "function f()\x7bfor await(x of y)\x7d" ∧
      ¬∃ ts' q', tokenize (compact ts ∅).code = .ok ts' ∧ script? (keptLexemes ts') = some q' ∧
        q'.tidy = p.tidy := by
  intro source ts p
  have h : tokenize source = .ok ts := by
    rw [tokenize, tokens_eq_runFor]
    decide +kernel
  refine ⟨h, by decide +kernel, rfl, by decide +kernel, ?_⟩
  rintro ⟨ts', q', h', hq', -⟩
  obtain ⟨ts'', h'', hkept⟩ := exists_tokens_of_readsBack h (by decide +kernel)
  obtain rfl : ts'' = ts' := Except.ok.inj (h''.symm.trans h')
  have hnone : (script? ((laidOut ts).filter Lexeme.isKept)).isNone = true := by decide +kernel
  rw [← hkept, hq'] at hnone
  cases hnone

end Minify
