import Minify.Proofs.LayoutHeads
import Minify.Proofs.Outlines
import Minify.Proofs.ReadBack

/-!
Statements without semicolons, one on a line.

Where a line ends after a statement, the layout has a line feed or a semicolon, and nowhere else. It
decides so by the last word of the statement and the first of the next one, for no statement ends in
the header of another. The one word that it takes for no end is `debugger`.
-/

namespace Minify

namespace Lexeme

def isWord (l : Lexeme) : Bool :=
  match l.kind with
  | .identifier | .keyword _ => true
  | _ => false

/-- The lexeme may stand in an expression that has no function and no class in it, brackets apart.
-/
def isPlain (l : Lexeme) : Bool :=
  match l.kind with
  | .identifier | .number | .string | .regex | .template _ => true
  | .keyword k => !k.hasHeader && k != .kwFunction && k != .kwClass
  | .punctuator => !(["(", ")", "[", "]", "\x7b", "\x7d", ";"].contains l.text)
  | _ => false

/-- An expression that begins with the lexeme is a statement of its own after a line end. -/
def begins (l : Lexeme) : Bool :=
  match l.kind with
  | .identifier | .number | .string => true
  | .keyword k => [.kwThis, .kwNull, .kwTrue, .kwFalse].contains k
  | .punctuator => ["!", "~", "++", "--"].contains l.text
  | _ => false

def ends (l : Lexeme) : Bool :=
  match l.kind with
  | .identifier | .number | .string => true
  | .punctuator => [")", "]", "++", "--"].contains l.text
  | _ => false

end Lexeme

/-- A pair of brackets. -/
inductive BracketPair where
  | round
  | square
  | curly

namespace BracketPair

def opener : BracketPair → Lexeme
  | round => .punct "("
  | square => .punct "["
  | curly => .punct "\x7b"

def closer : BracketPair → Lexeme
  | round => .punct ")"
  | square => .punct "]"
  | curly => .punct "\x7d"

end BracketPair

/-- The lexemes of an expression, with its brackets in pairs. After a point or in front of a colon
any word is the name of a property. -/
inductive Phrase where
  | nil
  | word (l : Lexeme) (rest : Phrase)
  | property (dot : String) (l : Lexeme) (rest : Phrase)
  | key (l : Lexeme) (rest : Phrase)
  | group (b : BracketPair) (inner rest : Phrase)

namespace Phrase

def lexemes : Phrase → List Lexeme
  | nil => []
  | word l rest => l :: rest.lexemes
  | property dot l rest => .punct dot :: l :: rest.lexemes
  | key l rest => l :: .punct ":" :: rest.lexemes
  | group b inner rest => b.opener :: (inner.lexemes ++ b.closer :: rest.lexemes)

/-- Each lexeme is one that may stand where it does. -/
def fits : Phrase → Bool
  | nil => true
  | word l rest => l.isPlain && rest.fits
  | property dot l rest => (dot == "." || dot == "?.") && l.isWord && rest.fits
  | key l rest => l.isWord && rest.fits
  | group _ inner rest => inner.fits && rest.fits

def ends (e : Phrase) : Bool := e.lexemes.getLast?.any Lexeme.ends

end Phrase

/-- A statement with no semicolon at its end. -/
inductive Simple where
  | expression (e : Phrase)
  /-- `var x = e` -/
  | declare (x : String) (e : Phrase)
  | returns (e : Option Phrase)
  | throws (e : Phrase)
  | breaks (label : Option String)
  | continues (label : Option String)
  | debugger

namespace Simple

/-- The lexemes in front of the expression. -/
def front : Simple → List Lexeme
  | expression _ => []
  | declare x _ => [.keyword .kwVar "var", .name x, .punct "="]
  | returns _ => [.keyword .kwReturn "return"]
  | throws _ => [.keyword .kwThrow "throw"]
  | breaks l => .keyword .kwBreak "break" :: (l.map Lexeme.name).toList
  | continues l => .keyword .kwContinue "continue" :: (l.map Lexeme.name).toList
  | debugger => [.keyword .kwDebugger "debugger"]

def value : Simple → Phrase
  | expression e | declare _ e | returns (some e) | throws e => e
  | _ => .nil

def lexemes (s : Simple) : List Lexeme := s.front ++ s.value.lexemes

/-- The expressions of the statement are complete, and one that is a statement of its own begins as
such. -/
def fits : Simple → Bool
  | expression e => e.fits && e.lexemes.head?.any Lexeme.begins && e.ends
  | declare _ e | throws e => e.fits && e.ends
  | returns e => e.all fun e => e.fits && e.ends
  | breaks _ | continues _ | debugger => true

def isDebugger : Simple → Bool
  | debugger => true
  | _ => false

/-- The lexemes of the statement, each with whether a line ends in front of it. -/
def onLine (s : Simple) : List (Lexeme × Bool) :=
  (s.lexemes.map fun l => (l, false)).modifyHead fun l => (l.1, true)

end Simple

/-- The tokens are those of the statements, each on a line of its own. Blanks and comments may stand
between them, with no line end inside a statement. -/
structure OnLines (p : List Simple) (tokens : List Token) : Prop where
  lexemes : (Site.significant 0 true tokens).map (fun s => (s.token.lexeme, s.newline))
    = p.flatMap Simple.onLine
  noneKept : ∀ t ∈ tokens, Layout.isConditional t = false

instance (p : List Simple) (tokens : List Token) : Decidable (OnLines p tokens) :=
  decidable_of_iff ((Site.significant 0 true tokens).map (fun s => (s.token.lexeme, s.newline))
      = p.flatMap Simple.onLine ∧ ∀ t ∈ tokens, Layout.isConditional t = false)
    ⟨fun ⟨hl, hn⟩ => ⟨hl, hn⟩, fun h => ⟨h.lexemes, h.noneKept⟩⟩

namespace Layout

def Gap.endsStatement : Gap → Bool
  | semicolon | lineFeed => true
  | nothing | space => false

/-- What stands in front of the chunks ends a statement. -/
def startsApart (cs : List Chunk) : Bool := cs.head?.any fun c => c.gap.endsStatement

variable {before : List Token} {lineBreak : Bool} {last text : String} {sites : List Site}
  {parens : List Bool} {t p : Token} {ts : List Token} {l : Lexeme} {s : Simple}

/-! ### What ends a statement -/

lemma endsStatement_write (s : State) (gap : Gap) (text : String) (original : Nat) :
    (s.write gap text original).1.gap.endsStatement = gap.endsStatement := by
  unfold State.write
  dsimp only
  split
  · rename_i hspace
    simp only [Bool.and_eq_true, decide_eq_true_eq] at hspace
    rw [hspace.1]
    rfl
  · rfl

lemma endsStatement_inLine (before : List Token) (last : String) (t : Token) (text : String) :
    (gapBefore before false last t text).endsStatement = false := by
  rw [gapBefore, endsStatement_write]
  unfold State.lineEnd
  split <;> rfl

/-- A line end after the token `p` ends a statement. -/
def closesLine (p : Token) : Bool := p.isRestricted || p.endsOperand

/-- At a line end the statement ends if its last word may be the last, and the next one begins. -/
lemma endsStatement_lineEnd (hp : before.getLast? = some p)
    (hcloses : (after before).closesHeader = false) (ht : t.startsStatement = true)
    (last text : String) :
    (gapBefore before true last t text).endsStatement = closesLine p := by
  have hprev : (after before).prev = some p := (prev_after before).trans hp
  have hbrace : t.isPunct "\x7d" = false := by
    unfold Token.startsStatement at ht
    unfold Token.isPunct
    split at ht <;> simp_all
    intro hbrace
    rw [hbrace] at ht
    simp at ht
  rw [gapBefore, endsStatement_write]
  simp only [State.lineEnd, hprev, hcloses, ht, hbrace, closesLine]
  cases p.isRestricted <;> cases p.endsOperand <;> rfl

/-! ### The chunks of sites -/

/-- The chunks of the sites after the significant tokens `before` and the text `last`. -/
def siteChunks (before : List Token) (last : String) : List Site → List Chunk
  | [] => []
  | s :: rest =>
    ⟨gapBefore before s.newline last s.token s.token.text, s.token.text, s.token.start⟩
      :: siteChunks (before ++ [s.token]) s.token.text rest

/-- Without semicolons and comments that stay, each significant token has a chunk. -/
lemma entries_eq_siteChunks {index : Nat} (hcond : ∀ t ∈ ts, isConditional t = false)
    (hsemi : ∀ s ∈ Site.significant index lineBreak ts, s.token.isPunct ";" = false) :
    (entries before lineBreak last (unchanged ts)).map Entry.chunk
      = siteChunks before last (Site.significant index lineBreak ts) := by
  induction ts generalizing before lineBreak last index with
  | nil => rfl
  | cons t ts ih =>
    have hcond' : ∀ t ∈ ts, isConditional t = false := fun t ht => hcond t (.tail _ ht)
    cases htrivia : t.isTrivia with
    | true =>
      rw [Site.significant_of_isTrivia htrivia] at hsemi ⊢
      rw [← ih hcond' hsemi, unchanged, List.map_cons, entries, if_pos htrivia,
        if_neg (by simp [hcond t (.head _)])]
      rfl
    | false =>
      rw [Site.significant_of_not_isTrivia htrivia] at hsemi ⊢
      have hhead : t.isPunct ";" = false := hsemi _ (.head _)
      rw [siteChunks, ← ih hcond' fun s hs => hsemi s (.tail _ hs), unchanged, List.map_cons,
        entries, if_neg (by simp [htrivia]), if_neg (by simp [hhead])]
      rfl

/-- A line end in front of the script makes no difference. -/
lemma entries_lineBreak (last : String) (xs : List (Token × String)) :
    entries [] true last xs = entries [] lineBreak last xs := by
  induction xs generalizing lineBreak last with
  | nil => rfl
  | cons x xs ih =>
    obtain ⟨t, text⟩ := x
    have hgap : gapBefore [] true last t text = gapBefore [] lineBreak last t text := rfl
    have hrest (b : Bool) : entries [] (b || breaksLine t) last xs
        = entries [] true last xs := (ih last).symm
    unfold entries
    rw [hgap, hrest, hrest, ih t.text]

lemma siteChunks_append (before : List Token) (last : String) (xs ys : List Site) :
    ∃ last', siteChunks before last (xs ++ ys)
      = siteChunks before last xs ++ siteChunks (before ++ xs.map Site.token) last' ys := by
  induction xs generalizing before last with
  | nil => exact ⟨last, by simp [siteChunks]⟩
  | cons x xs ih =>
    obtain ⟨last', h⟩ := ih (before ++ [x.token]) x.token.text
    refine ⟨last', ?_⟩
    rw [List.append_assoc, List.singleton_append] at h
    rw [List.cons_append, siteChunks, h, siteChunks, List.map_cons, List.cons_append]

lemma texts_siteChunks (before : List Token) (last : String) (xs : List Site) :
    (siteChunks before last xs).map Chunk.text = xs.map fun s => s.token.text := by
  induction xs generalizing before last with
  | nil => rfl
  | cons x xs ih => rw [siteChunks, List.map_cons, ih, List.map_cons]

lemma siteChunks_inLine (h : ∀ s ∈ sites, s.newline = false) :
    ∀ c ∈ siteChunks before last sites, c.gap.endsStatement = false := by
  induction sites generalizing before last with
  | nil => exact nofun
  | cons x xs ih =>
    rw [siteChunks, List.forall_mem_cons]
    refine ⟨?_, ih fun s hs => h s (.tail _ hs)⟩
    rw [h x (.head _)]
    exact endsStatement_inLine before last x.token x.token.text

/-! ### What the words of a statement are to the layout -/

lemma isInert_of_isPlain (h : t.lexeme.isPlain = true) : isInert t = true := by
  unfold Lexeme.isPlain Token.lexeme at h
  unfold isInert Token.isPunct Token.hasHeader Token.isKeyword
  cases hk : t.kind <;> simp_all

/-- What stands between two brackets of a pair leaves the layout as it was. -/
lemma Level.pair (b : BracketPair) (h : Level parens before) (ho : t.lexeme = b.opener) :
    ∃ parens', Level parens' (before ++ [t]) ∧ ∀ {before' : List Token} {c : Token},
      Level parens' before' → c.lexeme = b.closer → Level parens (before' ++ [c]) := by
  cases b with
  | round =>
    refine ⟨false :: parens, h.open (isPunct_of_lexeme ho), fun h' hc => ?_⟩
    obtain ⟨hidle, hcloses⟩ := h'.close (isPunct_of_lexeme hc)
    exact ⟨hidle, hcloses⟩
  | square =>
    exact ⟨parens, h.inert (isInert_punct ho (by decide)),
      fun h' hc => h'.inert (isInert_punct hc (by decide))⟩
  | curly =>
    exact ⟨parens, h.inert (isInert_punct ho (by decide)),
      fun h' hc => h'.inert (isInert_punct hc (by decide))⟩

/-- **An expression leaves no header open** and ends none. -/
theorem Level.phrase (e : Phrase) (he : e.fits = true) (h : Level parens before)
    (hts : ts.map Token.lexeme = e.lexemes) : Level parens (before ++ ts) := by
  induction e generalizing parens before ts with
  | nil =>
    rw [List.map_eq_nil_iff.mp hts]
    rwa [List.append_nil]
  | word l rest ih =>
    simp only [Phrase.fits, Bool.and_eq_true] at he
    obtain ⟨t, ts, rfl, rfl, hrest⟩ := List.map_eq_cons_iff.mp hts
    rw [List.append_cons]
    exact ih he.2 (h.inert (isInert_of_isPlain he.1)) hrest
  | property dot l rest ih =>
    simp only [Phrase.fits, Bool.and_eq_true] at he
    obtain ⟨⟨hdot, hword⟩, hfits⟩ := he
    obtain ⟨d, others, rfl, hd, hothers⟩ := List.map_eq_cons_iff.mp hts
    obtain ⟨t, ts, rfl, rfl, hrest⟩ := List.map_eq_cons_iff.mp hothers
    simp only [Bool.or_eq_true, beq_iff_eq] at hdot
    have hpoint : (d.isPunct "." || d.isPunct "?.") = true := by
      rcases hdot with rfl | rfl <;> simp [isPunct_of_lexeme hd]
    have hlevel : Level parens (before ++ [d]) :=
      h.inert (isInert_punct hd (by rcases hdot with rfl | rfl <;> decide))
    rw [List.append_cons, List.append_cons]
    exact ih hfits (hlevel.property List.getLast?_concat hpoint hword) hrest
  | key l rest ih =>
    simp only [Phrase.fits, Bool.and_eq_true] at he
    obtain ⟨t, others, rfl, rfl, hothers⟩ := List.map_eq_cons_iff.mp hts
    obtain ⟨c, ts, rfl, hc, hrest⟩ := List.map_eq_cons_iff.mp hothers
    have hcolon : c.isPunct ":" = true := isPunct_of_lexeme hc
    rw [List.append_cons, List.append_cons]
    exact ih he.2 (level_colon (parens_word h.parens he.1) hcolon) hrest
  | group b inner rest ih ih' =>
    simp only [Phrase.fits, Bool.and_eq_true] at he
    obtain ⟨o, others, rfl, ho, hothers⟩ := List.map_eq_cons_iff.mp hts
    obtain ⟨xs, back, rfl, hxs, hback⟩ := List.map_eq_append_iff.mp hothers
    obtain ⟨c, ys, rfl, hc, hys⟩ := List.map_eq_cons_iff.mp hback
    obtain ⟨parens', hopen, hclose⟩ := h.pair b ho
    have hlevel := hclose (ih he.1 hopen hxs) hc
    have hall := ih' he.2 hlevel hys
    rwa [List.append_assoc, List.append_assoc, List.append_assoc, List.singleton_append,
      List.singleton_append] at hall

lemma isPlain_of_front (h : l ∈ s.front) : l.isPlain = true := by
  cases s with
  | expression => cases h
  | declare | returns | throws | debugger =>
    simp only [Simple.front, List.mem_cons, List.not_mem_nil, or_false] at h
    aesop
  | breaks l | continues l => cases l <;> simp [Simple.front] at h <;> aesop

lemma Simple.fits_value (hs : s.fits = true) : s.value.fits = true := by
  unfold Simple.fits at hs
  unfold Simple.value
  split <;> simp_all [Phrase.fits]

lemma Level.statement (h : Level parens before) (hs : s.fits = true)
    (hts : ts.map Token.lexeme = s.lexemes) : Level parens (before ++ ts) := by
  obtain ⟨xs, ys, rfl, hxs, hys⟩ := List.map_eq_append_iff.mp hts
  have hfront : Level parens (before ++ xs) := h.inerts fun t ht =>
    isInert_of_isPlain (isPlain_of_front (hxs ▸ List.mem_map_of_mem ht))
  rw [← List.append_assoc]
  exact hfront.phrase s.value (Simple.fits_value hs) hys

lemma closesLine_of_ends (h : t.lexeme.ends = true) : closesLine t = true := by
  unfold Lexeme.ends Token.lexeme at h
  unfold closesLine Token.endsOperand
  cases hk : t.kind <;> simp_all
  aesop

lemma startsStatement_of_begins (h : t.lexeme.begins = true) : t.startsStatement = true := by
  unfold Lexeme.begins Token.lexeme at h
  unfold Token.startsStatement
  cases hk : t.kind with
  | keyword k => cases k <;> simp_all [Keyword.continuesStatement]
  | _ => simp_all <;> aesop

/-- The last word of an expression is that of the statement. -/
lemma getLast?_of_value (h : s.value.ends = true) :
    s.lexemes.getLast? = s.value.lexemes.getLast? := by
  rw [Simple.lexemes, List.getLast?_append]
  cases hl : s.value.lexemes.getLast? with
  | none => simp [Phrase.ends, hl] at h
  | some l => rfl

lemma closesLine_last (hs : s.fits = true) (ht : s.lexemes.getLast? = some t.lexeme) :
    closesLine t = !s.isDebugger := by
  have hvalue (h : s.value.ends = true) : closesLine t = true := by
    rw [getLast?_of_value h] at ht
    rw [Phrase.ends, ht] at h
    exact closesLine_of_ends h
  cases s with
  | expression e =>
    simp only [Simple.fits, Bool.and_eq_true] at hs
    exact hvalue hs.2
  | declare x e | throws e =>
    simp only [Simple.fits, Bool.and_eq_true] at hs
    exact hvalue hs.2
  | returns e =>
    cases e with
    | none =>
      cases t
      cases ht
      rfl
    | some e =>
      simp only [Simple.fits, Option.all_some, Bool.and_eq_true] at hs
      exact hvalue hs.2
  | breaks l | continues l =>
    cases l <;> cases t <;> cases ht <;> rfl
  | debugger =>
    cases t
    cases ht
    rfl

/-- Each statement begins with a word that may begin one. -/
lemma startsStatement_first (hs : s.fits = true) (ht : s.lexemes.head? = some t.lexeme) :
    t.startsStatement = true := by
  cases s with
  | expression e =>
    simp only [Simple.fits, Bool.and_eq_true] at hs
    have hhead : e.lexemes.head? = some t.lexeme := ht
    rw [hhead] at hs
    exact startsStatement_of_begins hs.1.2
  | _ =>
    cases t
    cases ht
    rfl

lemma Simple.lexemes_ne_nil (hs : s.fits = true) : s.lexemes ≠ [] := by
  cases s with
  | expression e =>
    simp only [Simple.fits, Bool.and_eq_true] at hs
    intro hnil
    have hhead : e.lexemes = [] := hnil
    rw [hhead] at hs
    cases hs.1.2
  | _ => exact nofun

lemma ne_semicolon_of_isPlain (h : l.isPlain = true) : l ≠ .semicolon := by
  rintro rfl
  cases h

lemma Phrase.ne_semicolon (e : Phrase) (he : e.fits = true) : ∀ l ∈ e.lexemes, l ≠ .semicolon := by
  have hword {l : Lexeme} (h : l.isWord = true) : l ≠ .semicolon := by
    rintro rfl
    cases h
  induction e with
  | nil => exact nofun
  | word l rest ih =>
    simp only [Phrase.fits, Bool.and_eq_true] at he
    exact List.forall_mem_cons.mpr ⟨ne_semicolon_of_isPlain he.1, ih he.2⟩
  | property dot l rest ih =>
    simp only [Phrase.fits, Bool.and_eq_true, Bool.or_eq_true, beq_iff_eq] at he
    refine List.forall_mem_cons.mpr ⟨?_, List.forall_mem_cons.mpr ⟨hword he.1.2, ih he.2⟩⟩
    rcases he.1.1 with rfl | rfl <;> decide
  | key l rest ih =>
    simp only [Phrase.fits, Bool.and_eq_true] at he
    exact List.forall_mem_cons.mpr ⟨hword he.1, List.forall_mem_cons.mpr ⟨by decide, ih he.2⟩⟩
  | group b inner rest ih ih' =>
    simp only [Phrase.fits, Bool.and_eq_true] at he
    refine List.forall_mem_cons.mpr ⟨by cases b <;> decide, List.forall_mem_append.mpr
      ⟨ih he.1, List.forall_mem_cons.mpr ⟨by cases b <;> decide, ih' he.2⟩⟩⟩

lemma isPunct_of_mem (hs : s.fits = true) (ht : t.lexeme ∈ s.lexemes) : t.isPunct ";" = false := by
  have hne : t.lexeme ≠ .semicolon := by
    rcases List.mem_append.mp ht with hfront | hvalue
    · exact ne_semicolon_of_isPlain (isPlain_of_front hfront)
    · exact Phrase.ne_semicolon s.value (Simple.fits_value hs) _ hvalue
  rw [Bool.eq_false_iff]
  intro hsemi
  obtain ⟨hkind, htext⟩ := isPunct_iff.mp hsemi
  exact hne (by rw [Token.lexeme, hkind, htext]; rfl)

/-! ### Statements after one another -/

lemma Simple.mem_of_onLine {b : Bool} (h : (l, b) ∈ s.onLine) : l ∈ s.lexemes := by
  have hmap : s.onLine.map Prod.fst = s.lexemes := by
    unfold Simple.onLine
    cases s.lexemes with
    | nil => rfl
    | cons l ls => simp [Function.comp_def]
  rw [← hmap]
  exact List.mem_map_of_mem h

/-- The sites of a statement: only the first stands at the start of a line. -/
lemma sites_of_onLine (hs : s.fits = true)
    (h : sites.map (fun s => (s.token.lexeme, s.newline)) = s.onLine) :
    ∃ x xs, sites = x :: xs ∧ x.newline = true ∧ (∀ y ∈ xs, y.newline = false) ∧
      (sites.map Site.token).map Token.lexeme = s.lexemes := by
  cases hl : s.lexemes with
  | nil => exact absurd hl (Simple.lexemes_ne_nil hs)
  | cons l ls =>
    rw [Simple.onLine, hl] at h
    obtain ⟨x, xs, rfl, hx, hxs⟩ := List.map_eq_cons_iff.mp h
    refine ⟨x, xs, rfl, congrArg Prod.snd hx, fun y hy => ?_, ?_⟩
    · have hmem : (y.token.lexeme, y.newline) ∈ ls.map fun l => (l, false) :=
        hxs ▸ List.mem_map_of_mem hy
      obtain ⟨l, -, hl⟩ := List.mem_map.mp hmem
      exact (congrArg Prod.snd hl).symm
    · have hfirst : x.token.lexeme = l := congrArg Prod.fst hx
      have hrest := congrArg (List.map Prod.fst) hxs
      rw [List.map_map, List.map_map] at hrest
      rw [List.map_map, List.map_cons]
      exact congrArg₂ _ hfirst (hrest.trans (List.map_id ls))

/-- **The chunks of statements**, after a statement that ended with the token before them. -/
theorem groups_siteChunks (p : List Simple) (last : String) (hp : ∀ s ∈ p, s.fits = true)
    (h : Level [] before)
    (hsites : sites.map (fun s => (s.token.lexeme, s.newline)) = p.flatMap Simple.onLine) :
    ∃ groups : List (List Chunk), siteChunks before last sites = groups.flatten ∧
      groups.map (List.map Chunk.text) = p.map (fun s => s.lexemes.map Lexeme.text) ∧
      (∀ g ∈ groups, ∀ c ∈ g.tail, c.gap.endsStatement = false) ∧
      (∀ t, before.getLast? = some t → ∀ g ∈ groups.head?, startsApart g = closesLine t) ∧
      ∀ x ∈ p.zip groups.tail, startsApart x.2 = !x.1.isDebugger := by
  induction p generalizing before last sites with
  | nil =>
    rw [List.map_eq_nil_iff.mp hsites]
    exact ⟨[], rfl, rfl, nofun, nofun, nofun⟩
  | cons s p ih =>
    have hs := hp s (.head _)
    obtain ⟨xs, ys, rfl, hxs, hys⟩ := List.map_eq_append_iff.mp hsites
    obtain ⟨x, others, hcons, hfirst, hinside, htokens⟩ := sites_of_onLine hs hxs
    obtain ⟨last', happend⟩ := siteChunks_append before last xs ys
    obtain ⟨groups, hflatten, htexts, hclean, hhead, hzip⟩ :=
      ih last' (fun s hs => hp s (.tail _ hs)) (h.statement hs htokens) hys
    obtain ⟨t, ht⟩ : ∃ t, (xs.map Site.token).getLast? = some t := by
      rw [hcons, List.map_cons]
      exact ⟨_, List.getLast?_cons⟩
    have hlast : s.lexemes.getLast? = some t.lexeme := by
      rw [← htokens, List.getLast?_map, ht]
      rfl
    have hcloses := closesLine_last hs hlast
    have hbefore : (before ++ xs.map Site.token).getLast? = some t := by
      rw [List.getLast?_append, ht]
      rfl
    refine ⟨siteChunks before last xs :: groups, ?_, ?_, ?_, ?_, ?_⟩
    · rw [happend, hflatten, List.flatten_cons]
    · rw [List.map_cons, List.map_cons, htexts, texts_siteChunks, ← htokens, List.map_map,
        List.map_map]
      rfl
    · rw [List.forall_mem_cons]
      refine ⟨?_, hclean⟩
      rw [hcons, siteChunks, List.tail_cons]
      exact siteChunks_inLine hinside
    · intro t ht g hg
      cases hg
      rw [hcons] at htokens ⊢
      rw [siteChunks, startsApart, List.head?_cons, Option.any_some, hfirst]
      refine endsStatement_lineEnd ht h.closesHeader (startsStatement_first hs ?_) _ _
      rw [← htokens]
      rfl
    · cases groups with
      | nil => exact nofun
      | cons g groups =>
        rw [List.tail_cons, List.zip_cons_cons, List.forall_mem_cons]
        exact ⟨(hhead t hbefore g rfl).trans hcloses, hzip⟩

end Layout

open Layout

/-- **Lines stay apart.** Each line that is a statement ends with a line feed or a semicolon in the
layout too, unless the statement is `debugger`, and no statement has one inside it. -/
theorem lines_stay_apart {p : List Simple} {tokens : List Token} (h : OnLines p tokens)
    (hp : ∀ s ∈ p, s.fits = true) :
    ∃ groups : List (List Chunk), chunks tokens ∅ = groups.flatten ∧
      groups.map (List.map Chunk.text) = p.map (fun s => s.lexemes.map Lexeme.text) ∧
      (∀ g ∈ groups, ∀ c ∈ g.tail, c.gap.endsStatement = false) ∧
      ∀ x ∈ p.zip groups.tail, (startsApart x.2 = true ↔ x.1.isDebugger = false) := by
  have hsemi : ∀ s ∈ Site.significant 0 true tokens, s.token.isPunct ";" = false := by
    intro site hsite
    have hmem : (site.token.lexeme, site.newline) ∈ p.flatMap Simple.onLine :=
      h.lexemes ▸ List.mem_map_of_mem hsite
    obtain ⟨s, hs, hline⟩ := List.mem_flatMap.mp hmem
    exact isPunct_of_mem (hp s hs) (Simple.mem_of_onLine hline)
  obtain ⟨groups, hflatten, htexts, hclean, -, hzip⟩ :=
    groups_siteChunks p "" hp level_start h.lexemes
  refine ⟨groups, ?_, htexts, hclean, fun x hx => by simp [hzip x hx]⟩
  rw [chunks_eq_entries, newTexts_empty, ← entries_lineBreak, entries_eq_siteChunks
    h.noneKept hsemi,
    hflatten]

set_option maxRecDepth 20000 in
/-- A line may end after the property of a value, a restricted keyword or a label. -/
theorem lines_stay_apart_to_debugger :
    let tokens : List Token := [
      ⟨.keyword .kwVar, "var", 0⟩, ⟨.blank, " ", 3⟩, ⟨.identifier, "x", 4⟩, ⟨.blank, " ", 5⟩,
      ⟨.punctuator, "=", 6⟩, ⟨.blank, " ", 7⟩, ⟨.identifier, "a", 8⟩, ⟨.punctuator, ".", 9⟩,
      ⟨.keyword .kwDefault, "default", 10⟩, ⟨.punctuator, "[", 17⟩, ⟨.number, "1", 18⟩,
      ⟨.punctuator, "]", 19⟩, ⟨.lineBreak, "\n", 20⟩, ⟨.keyword .kwReturn, "return", 21⟩,
      ⟨.comment .line, "// c", 27⟩, ⟨.lineBreak, "\n", 31⟩, ⟨.identifier, "f", 32⟩,
      ⟨.punctuator, "(", 33⟩, ⟨.identifier, "b", 34⟩, ⟨.punctuator, ")", 35⟩,
      ⟨.lineBreak, "\n", 36⟩, ⟨.keyword .kwBreak, "break", 37⟩, ⟨.blank, " ", 42⟩,
      ⟨.identifier, "l", 43⟩, ⟨.lineBreak, "\n", 44⟩, ⟨.keyword .kwDebugger, "debugger", 45⟩]
    let p : List Simple := [
      .declare "x" (.word (.name "a") (.property "." (.keyword .kwDefault "default")
        (.group .square (.word ⟨.number, "1"⟩ .nil) .nil))),
      .returns none, .expression (.word (.name "f") (.group .round (.word (.name "b") .nil) .nil)),
      .breaks (some "l"), .debugger]
    tokenize "var x = a.default[1]\nreturn// c\nf(b)\nbreak l\ndebugger" = .ok tokens ∧
      OnLines p tokens ∧ (∀ s ∈ p, s.fits = true) ∧
      (compact tokens ∅).code = "var x=a.default[1]\nreturn;f(b)\nbreak l\ndebugger" ∧
      ∃ groups : List (List Chunk), chunks tokens ∅ = groups.flatten ∧
        groups.map (List.map Chunk.text) = p.map (fun s => s.lexemes.map Lexeme.text) ∧
        (∀ g ∈ groups, ∀ c ∈ g.tail, c.gap.endsStatement = false) ∧
        ∀ x ∈ p.zip groups.tail, (startsApart x.2 = true ↔ x.1.isDebugger = false) := by
  intro tokens p
  have htokens : tokenize "var x = a.default[1]\nreturn// c\nf(b)\nbreak l\ndebugger"
      = .ok tokens := by
    rw [tokenize, tokens_eq_runFor]
    decide +kernel
  have hlines : OnLines p tokens := by decide +kernel
  have hfits : ∀ s ∈ p, s.fits = true := by
    simp only [p, List.forall_mem_cons]
    decide +kernel
  exact ⟨htokens, hlines, hfits, by decide +kernel, lines_stay_apart hlines hfits⟩

set_option maxRecDepth 20000 in
/-- The statement after `debugger` follows on its line. -/
theorem debugger_joins_next :
    let tokens : List Token := [⟨.keyword .kwDebugger, "debugger", 0⟩, ⟨.lineBreak, "\n", 8⟩,
      ⟨.identifier, "a", 9⟩]
    let p : List Simple := [.debugger, .expression (.word (.name "a") .nil)]
    tokenize "debugger\na" = .ok tokens ∧ OnLines p tokens ∧ (∀ s ∈ p, s.fits = true) ∧
      chunks tokens ∅ = [⟨.nothing, "debugger", 0⟩, ⟨.space, "a", 9⟩] ∧
      (compact tokens ∅).code = "debugger a" := by
  intro tokens p
  have htokens : tokenize "debugger\na" = .ok tokens := by
    rw [tokenize, tokens_eq_runFor]
    decide +kernel
  have hfits : ∀ s ∈ p, s.fits = true := by
    simp only [p, List.forall_mem_cons]
    decide +kernel
  exact ⟨htokens, by decide +kernel, hfits, by decide +kernel, by decide +kernel⟩

end Minify
