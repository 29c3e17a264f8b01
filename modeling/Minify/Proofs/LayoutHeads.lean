import Mathlib
import Minify.Proofs.LaidOut
import Minify.Proofs.Lexemes

/-!
What the layout knows of headers.

A closing parenthesis ends a header when the one that opened it followed a keyword with a header, or
stood where the parameters of a function stand. Between the words of a statement the layout waits
for neither, and a pair of parentheses leaves it as it was but for what the pair was.
-/

namespace Minify

namespace Lexeme

def name (x : String) : Lexeme := ⟨.identifier, x⟩

def punct (p : String) : Lexeme := ⟨.punctuator, p⟩

def keyword (k : Keyword) (text : String) : Lexeme := ⟨.keyword k, text⟩

end Lexeme

namespace Layout

/-- The open parentheses are `parens`, and no parameters are to come. -/
structure Inside (parens : List Bool) (before : List Token) : Prop where
  functionHead : (after before).functionHead = false
  parens : (after before).parens = parens

/-- Nor does the last token have a header. -/
structure Idle (parens : List Bool) (before : List Token) : Prop extends Inside parens before where
  headerKeyword : (after before).headerKeyword = false

/-- Nor did a header end with the last token. -/
structure Level (parens : List Bool) (before : List Token) : Prop extends Idle parens before where
  closesHeader : (after before).closesHeader = false

def isInert (t : Token) : Bool :=
  !t.isPunct "(" && !t.isPunct ")" && !t.hasHeader && !t.isKeyword .kwFunction

variable {before : List Token} {parens : List Bool} {t p : Token} {b : Bool}

lemma level_start : Level [] [] := ⟨⟨⟨rfl, rfl⟩, rfl⟩, rfl⟩

lemma isPunct_iff {q : String} : t.isPunct q = true ↔ t.kind = .punctuator ∧ t.text = q := by
  simp [Token.isPunct]

lemma isPunct_iff_lexeme {q : String} : t.isPunct q = true ↔ t.lexeme = .punct q := by
  rw [isPunct_iff, Token.lexeme, Lexeme.punct, Lexeme.mk.injEq]

lemma isPunct_of_lexeme {q : String} (h : t.lexeme = .punct q) : t.isPunct q = true :=
  isPunct_iff_lexeme.mpr h

lemma isPunct_punct {q : String} (h : t.lexeme = .punct q) (r : String) :
    t.isPunct r = (q == r) := by
  cases t
  cases h
  rfl

lemma isKeyword_punct {q : String} (h : t.lexeme = .punct q) (k : Keyword) :
    t.isKeyword k = false := by
  cases t
  cases h
  rfl

lemma isInert_punct {q : String} (h : t.lexeme = .punct q) (hq : q ≠ "(" ∧ q ≠ ")") :
    isInert t = true := by
  cases t
  cases h
  simp [isInert, Token.isPunct, Token.hasHeader, Token.isKeyword, hq]

lemma isInert_name {x : String} (h : t.lexeme = .name x) : isInert t = true := by
  cases t
  cases h
  rfl

/-- Only a function has parameters that are still to come. -/
lemma functionHead_advance (h : Inside parens before) (ht : t.isKeyword .kwFunction = false) :
    ((after before).advance t).functionHead = false := by
  have hnot : t.kind ≠ .keyword .kwFunction := by simpa [Token.isKeyword] using ht
  unfold State.advance
  dsimp only
  split <;> dsimp only <;> split <;> simp_all [h.functionHead]

lemma Inside.inert (h : Inside parens before) (ht : isInert t = true) :
    Level parens (before ++ [t]) := by
  obtain ⟨⟨⟨hopen, hclose⟩, hheader⟩, hfunction⟩ :
    ((t.isPunct "(" = false ∧ t.isPunct ")" = false) ∧
      t.hasHeader = false) ∧ t.isKeyword .kwFunction = false := by
    simpa [isInert] using ht
  have hhead := functionHead_advance h hfunction
  refine ⟨⟨⟨?_, ?_⟩, ?_⟩, ?_⟩ <;> rw [after_append_singleton]
  · exact hhead
  · simp [State.advance, hclose, hopen, h.parens]
  · simp [State.advance, hclose, hheader]
  · simp [State.advance, hclose]

lemma Level.inerts {ts : List Token} (h : Level parens before) (ht : ∀ t ∈ ts, isInert t = true) :
    Level parens (before ++ ts) := by
  induction ts generalizing before with
  | nil => rwa [List.append_nil]
  | cons t ts ih =>
    rw [List.append_cons]
    exact ih (h.inert (ht t (.head _))) fun t' ht' => ht t' (.tail _ ht')

/-- The parenthesis opens a header or parameters if the layout waits for one. -/
lemma level_open (hparens : (after before).parens = parens) (ht : t.isPunct "(" = true) :
    Level (((after before).functionHead || (after before).headerKeyword) :: parens)
      (before ++ [t]) := by
  obtain ⟨hkind, htext⟩ := isPunct_iff.mp ht
  have hclose : t.isPunct ")" = false := by simp [Token.isPunct, htext]
  refine ⟨⟨⟨?_, ?_⟩, ?_⟩, ?_⟩ <;> rw [after_append_singleton]
  · simp [State.advance, hclose, hkind, htext]
  · simp [State.advance, hclose, ht, hparens]
  · simp [State.advance, hclose, Token.hasHeader, hkind]
  · simp [State.advance, hclose]

lemma Idle.open (h : Idle parens before) (ht : t.isPunct "(" = true) :
    Level (false :: parens) (before ++ [t]) := by
  have hlevel := level_open h.parens ht
  rwa [h.functionHead, h.headerKeyword] at hlevel

/-- The parenthesis ends a header if the one that is open began it. -/
lemma Inside.close (h : Inside (b :: parens) before) (ht : t.isPunct ")" = true) :
    Idle parens (before ++ [t]) ∧ (after (before ++ [t])).closesHeader = b := by
  obtain ⟨hkind, htext⟩ := isPunct_iff.mp ht
  have hopen : t.isPunct "(" = false := by simp [Token.isPunct, htext]
  have hhead := functionHead_advance (t := t) h (by simp [Token.isKeyword, hkind])
  refine ⟨⟨⟨?_, ?_⟩, ?_⟩, ?_⟩ <;> rw [after_append_singleton]
  · exact hhead
  · simp [State.advance, ht, hopen, h.parens]
  · simp [State.advance, ht, Token.hasHeader, hkind]
  · simp [State.advance, ht, hopen, h.parens]

lemma isPunct_word (ht : t.isWord = true) (q : String) : t.isPunct q = false := by
  unfold Token.isWord at ht
  unfold Token.isPunct
  split at ht <;> simp_all

lemma parens_word (h : (after before).parens = parens) (ht : t.isWord = true) :
    (after (before ++ [t])).parens = parens := by
  rw [after_append_singleton]
  simp [State.advance, isPunct_word ht, h]

lemma Inside.property (h : Inside parens before) (hp : before.getLast? = some p)
    (hpoint : (p.isPunct "." || p.isPunct "?.") = true) (ht : t.isWord = true) :
    Level parens (before ++ [t]) := by
  have hprev : (after before).prev = some p := (prev_after before).trans hp
  have hclose : t.isPunct ")" = false := isPunct_word ht ")"
  refine ⟨⟨⟨?_, parens_word h.parens ht⟩, ?_⟩, ?_⟩ <;> rw [after_append_singleton]
  · unfold State.advance
    simp only [hclose, hprev, h.functionHead, Option.any_some, hpoint, Bool.false_eq_true, if_false]
    split <;> simp
  · simp only [State.advance, hclose, hprev, Option.any_some, hpoint]
    rfl
  · simp [State.advance, hclose]

/-- A colon ends whatever the word in front of it began. -/
lemma level_colon (hparens : (after before).parens = parens) (ht : t.isPunct ":" = true) :
    Level parens (before ++ [t]) := by
  obtain ⟨hkind, htext⟩ := isPunct_iff.mp ht
  have hnot : t.isPunct "(" = false ∧ t.isPunct ")" = false := by simp [Token.isPunct, htext]
  refine ⟨⟨⟨?_, ?_⟩, ?_⟩, ?_⟩ <;> rw [after_append_singleton]
  · simp [State.advance, hnot, hkind, htext]
  · simp [State.advance, hnot, hparens]
  · simp [State.advance, hnot, Token.hasHeader, hkind]
  · simp [State.advance, hnot]

end Layout

end Minify
