import Mathlib
import Minify.Proofs.InsertedSemicolons
import Minify.Proofs.LayoutHeads
import Minify.Proofs.NameExchange
import Minify.Proofs.OutlinedLayout

/-!
Words as the names of properties.

A reserved word may take the place of a name that follows a point. The layout up to there stays, and
so it does from the second token behind on; the word and the name differ in what they say about the
token right behind them. A keyword may put in a semicolon at a line end, or drop one, or make an
empty statement of what ends it, and a space may be needed where the name ended in an escape.
-/

namespace Minify

open Text

namespace Scan

lemma escape_last {cs : List Char} (h : (escape cs).closed = true) {c : Char}
    (hc : (escape cs).taken.getLast? = some c) : isHexDigit c = true ∨ c = '\x7d' := by
  revert h hc
  fun_cases escape cs with
  | case1 cs =>
    intro h hc
    have hclosed : (bracedEscape cs).closed = true := h
    obtain ⟨digits, -, -, htaken⟩ := bracedEscape_closed hclosed
    change (['\\', 'u', '\x7b'] ++ (bracedEscape cs).taken).getLast? = some c at hc
    rw [htaken, ← List.append_assoc, List.getLast?_concat, Option.some.injEq] at hc
    exact .inr hc.symm
  | case2 cs =>
    intro h hc
    have hclosed : (plainEscape cs).closed = true := h
    obtain ⟨hlen, hdigits⟩ := plainEscape_closed hclosed
    have hne : (plainEscape cs).taken ≠ [] := List.ne_nil_of_length_pos (by omega)
    change (['\\', 'u'] ++ (plainEscape cs).taken).getLast? = some c at hc
    rw [List.getLast?_append_of_ne_nil _ hne] at hc
    exact .inl (hdigits c (List.mem_of_getLast? hc))
  | case3 => intro h; cases h

/-- A name ends in a part of a name or in the brace of an escape. -/
lemma nameTail_last {cs : List Char} {c : Char} (hc : (nameTail cs).name.getLast? = some c) :
    isNamePart c = true ∨ c = '\x7d' := by
  fun_induction nameTail cs with
  | case1 => cases hc
  | case2 cs e he ih =>
    change (e.taken ++ (nameTail e.rest).name).getLast? = some c at hc
    by_cases hnil : (nameTail e.rest).name = []
    · rw [hnil, List.append_nil] at hc
      refine (escape_last he hc).imp_left fun hhex => ?_
      rcases isNameStart_or_isDigit hhex with hstart | hdigit
      · exact isNamePart_of_isNameStart hstart
      · simp [isNamePart, Char.isAlphanum, hdigit]
    · rw [List.getLast?_append_of_ne_nil _ hnil] at hc
      exact ih hc
  | case3 cs e he => cases hc
  | case4 d cs hd hn ih =>
    change ([d] ++ (nameTail cs).name).getLast? = some c at hc
    by_cases hnil : (nameTail cs).name = []
    · rw [hnil, List.append_nil] at hc
      cases hc
      exact .inl hn
    · rw [List.getLast?_append_of_ne_nil _ hnil] at hc
      exact ih hc
  | case5 => cases hc

end Scan

/-- How the text of a name begins and how it may end: an escape in braces ends in its brace. -/
structure IsName (name : String) : Prop where
  begins : name.toList.head?.any Scan.beginsName = true
  ends : ∀ c, name.toList.getLast? = some c → isNamePart c = true ∨ c = '\x7d'

namespace Lexer

open Scan

variable {lx lx' : Lexer} {t : Token} {c : Char} {cs : List Char} {front back : List Token}

lemma isName_of_next (h : lx.next = (.ok (some t), lx')) (ht : t.kind = .identifier) :
    IsName t.text := by
  obtain ⟨c, cs, w, -, hscan, htaken, htext, -⟩ := next_ok h
  rw [ht] at hscan
  have hbegins : beginsName c = true := beginsName_of_identifier hscan
  rw [scan_of_beginsName hbegins] at hscan htaken
  refine ⟨by simpa [htext] using hbegins, fun d hd => ?_⟩
  unfold name at hscan htaken
  dsimp only at hscan htaken
  split at hscan
  · rename_i hwhole
    rw [hwhole] at htaken
    replace htaken : (nameTail (c :: cs)).name = c :: w := htaken
    rw [htext, ← htaken] at hd
    exact nameTail_last hd
  · cases hscan

/-- No comment needs a space in front of it for its first character. -/
lemma isWordPart_of_comment (h : lx.run = (front ++ t :: back, none)) :
    ∀ u ∈ back, Layout.isConditional u = true → u.text.toList.head?.any
      Layout.isWordPart = false := by
  intro u hu hc
  obtain ⟨before, behind, rfl⟩ := List.append_of_mem hu
  rw [← List.cons_append, ← List.append_assoc] at h
  obtain ⟨lx', lx'', hnext, -⟩ := exists_run_behind h
  obtain ⟨c, cs, w, -, hscan, -, htext, -⟩ := next_ok hnext
  rw [show u.kind = .comment .conditional by simpa [Layout.isConditional] using hc] at hscan
  rw [htext]
  rcases head_of_comment hscan with rfl | rfl
  · exact (by decide : Layout.isWordPart '/' = false)
  · exact (by decide : Layout.isWordPart '#' = false)

end Lexer

namespace Layout

open Scan

variable {before before' : List Token} {lineBreak : Bool} {last text : String} {t u : Token}
  {rest xs ys : List (Token × String)}

/-! ### Up to the word -/

lemma beforeBrace_append (h : beforeBrace ys = false) :
    beforeBrace (xs ++ ys) = beforeBrace xs := by
  unfold beforeBrace at h ⊢
  rw [List.find?_append]
  cases xs.find? fun e => isKept e.1 with
  | none => simpa using h
  | some e => rfl

/-- The layout of the tokens up to a place does not look behind it, if no brace comes there. -/
lemma entriesAfter_append (done : List Token) (last : String) (xs : List (Token × String)) :
    ∃ es last', (∀ e ∈ es, e.token ∈ xs.map Prod.fst) ∧ ∀ ys, beforeBrace ys = false →
      entriesAfter done last (xs ++ ys) = es ++ entriesAfter (done ++ xs.map Prod.fst)
        last' ys := by
  induction xs generalizing done last with
  | nil => exact ⟨[], last, nofun, fun ys _ => by simp⟩
  | cons x xs ih =>
    obtain ⟨t, text⟩ := x
    obtain ⟨own, last₁, hown, hmem, -⟩ := entriesAfter_cons done last t text (beforeBrace xs)
    obtain ⟨es, last₂, hes, hrest⟩ := ih (done ++ [t]) last₁
    refine ⟨own ++ es, last₂, fun e he => ?_, fun ys hys => ?_⟩
    · rcases List.mem_append.mp he with he | he
      · exact (hmem e he).1 ▸ List.mem_cons_self
      · exact List.mem_cons_of_mem _ (hes e he)
    · rw [List.cons_append, hown _ (beforeBrace_append hys), hrest ys hys]
      simp

lemma token_mem_of_entries : ∀ e ∈ entries before lineBreak last xs, e.token ∈ xs.map Prod.fst := by
  intro e he
  have hmem : (e.token, e.text) ∈ (entries before lineBreak last xs).map fun e =>
    (e.token, e.text) :=
    List.mem_map_of_mem he
  rw [map_entries] at hmem
  obtain ⟨-, text, hin, -⟩ := of_mem_written _ hmem
  exact List.mem_map_of_mem hin

/-! ### Behind the word -/

/-- The layout looks at the tokens before through what they leave behind. -/
lemma entries_congr (h : after before = after before') (lineBreak : Bool) (last : String)
    (xs : List (Token × String)) :
    entries before lineBreak last xs = entries before' lineBreak last xs := by
  induction xs generalizing before before' lineBreak last with
  | nil => rfl
  | cons x xs ih =>
    obtain ⟨t, text⟩ := x
    have hnext : after (before ++ [t]) = after (before' ++ [t]) := by
      rw [after_append_singleton, after_append_singleton, h]
    have hbody : isBody before = isBody before' := by
      rw [isBody, isBody, ← prev_after, ← prev_after, h]
    have hgap (lineBreak : Bool) (last : String) (t : Token) (text : String) :
        gapBefore before lineBreak last t text = gapBefore before' lineBreak last t text := by
      rw [gapBefore, gapBefore, h]
    rw [entries, entries, hbody, hgap, ih h, ih h, ih hnext, ih hnext, ih hnext]

/-- The last of some significant tokens is a point, which the name of a property follows. -/
def EndsInPoint (before : List Token) : Prop :=
  ∃ p, before.getLast? = some p ∧ (p.isPunct "." || p.isPunct "?.") = true

lemma of_isPoint {p : Token} (h : (p.isPunct "." || p.isPunct "?.") = true) :
    p.kind = .punctuator ∧ (p.text = "." ∨ p.text = "?.") := by
  simpa [Token.isPunct, ← and_or_left] using h

/-- The name of a property leaves no header behind. -/
lemma EndsInPoint.level (h : EndsInPoint before) (hu : u.isWord = true) :
    Level (after before).parens (before ++ [u]) := by
  obtain ⟨p, hp, hpoint⟩ := h
  obtain ⟨front, rfl⟩ := List.getLast?_eq_some_iff.mp hp
  refine Inside.property ⟨?_, rfl⟩ hp hpoint hu
  have hpunct := of_isPoint hpoint
  have hclose : p.isPunct ")" = false := by
    rcases hpunct.2 with h | h <;> simp [Token.isPunct, h]
  rw [after_append_singleton]
  rcases hpunct.2 with htext | htext <;> simp [State.advance, hclose, hpunct.1, htext]

variable {word : Token}

lemma after_exchange (h : EndsInPoint before) (ht : t.isWord = true) (hword : word.isWord = true) :
    after (before ++ [word]) = { after (before ++ [t]) with prev := some word } := by
  obtain ⟨⟨⟨hfunction, hparens⟩, hkeyword⟩, hcloses⟩ := h.level ht
  obtain ⟨⟨⟨hfunction', hparens'⟩, hkeyword'⟩, hcloses'⟩ := h.level hword
  rw [State.mk.injEq]
  refine ⟨?_, ?_, ?_, ?_, ?_, ?_, ?_, ?_⟩
  · rw [after_append_singleton, after_append_singleton, last_advance, last_advance]
  · rw [after_append_singleton, prev_advance]
  · rw [hcloses, hcloses']
  · rw [hfunction, hfunction']
  · rw [hkeyword, hkeyword']
  · rw [hparens, hparens']
  · rw [after_append_singleton, after_append_singleton, lineBreak_advance, lineBreak_advance]
  · rw [after_append_singleton, after_append_singleton, pending_advance, pending_advance]

lemma after_behind (h : EndsInPoint before) (ht : t.isWord = true) (hword : word.isWord = true)
    (u : Token) : after (before ++ [word] ++ [u]) = after (before ++ [t] ++ [u]) := by
  have hprev : (after (before ++ [t])).prev = some t := by
    rw [after_append_singleton, prev_advance]
  have hproperty {v : Token} (hv : v.isWord = true) :
    (v.isPunct "." || v.isPunct "?.") = false := by
    rw [isPunct_word hv, isPunct_word hv]
    rfl
  rw [after_append_singleton (before ++ [word]) u, after_append_singleton (before ++ [t]) u,
    after_exchange h ht hword]
  unfold State.advance
  simp only [hprev, Option.any_some, hproperty ht, hproperty hword]

/-! ### The texts of names -/

variable {name : String}

lemma isWordPart_of_beginsName {c : Char} (h : beginsName c = true) : isWordPart c = true := by
  simp only [beginsName, Bool.and_eq_true, Bool.or_eq_true] at h
  rw [isWordPart, Bool.or_eq_true]
  exact h.2.imp_left isNamePart_of_isNameStart

/-- In front of a name a space is needed behind every part of a word. -/
lemma needsSpace_before_name (h : IsName name) (last : String) :
    needsSpace last name = last.toList.getLast?.any isWordPart := by
  have hbegins := h.begins
  unfold needsSpace
  cases hhead : name.toList.head? with
  | none => simp [hhead] at hbegins
  | some c =>
    have hc : beginsName c = true := by simpa [hhead] using hbegins
    have hne (d : Char) (hd : beginsName d = false) : c ≠ d := ne_of_beginsName hc hd
    cases last.toList.getLast? with
    | none => rfl
    | some a =>
      simp [isWordPart_of_beginsName hc, hne '+' (by decide), hne '-' (by decide),
        hne '/' (by decide), hne '*' (by decide), hne '!' (by decide), hne '.' (by decide)]

/-- Behind a name a space is needed in front of every part of a word, unless the name ends in a
brace. -/
lemma needsSpace_behind_name (h : IsName name) (text : String) : needsSpace name text
    = (name.toList.getLast? != some '\x7d' && text.toList.head?.any isWordPart) := by
  obtain ⟨hbegins, hends⟩ := h
  have hdigit : name.toList.head?.any Char.isDigit = false := by
    cases hhead : name.toList.head? with
    | none => rfl
    | some c => exact not_isDigit_of_beginsName (by simpa [hhead] using hbegins)
  have hne (c d : Char) (hc : name.toList.getLast? = some c) (hd : isNamePart d = false)
      (hbrace : d ≠ '\x7d') : c ≠ d := by
    rintro rfl
    rcases hends c hc with hpart | rfl
    · rw [hpart] at hd
      cases hd
    · exact hbrace rfl
  unfold needsSpace
  cases hlast : name.toList.getLast? with
  | none => simp [List.getLast?_eq_none_iff.mp hlast] at hbegins
  | some a =>
    have hplus : a ≠ '+' := hne a '+' hlast (by decide) (by decide)
    have hminus : a ≠ '-' := hne a '-' hlast (by decide) (by decide)
    have hslash : a ≠ '/' := hne a '/' hlast (by decide) (by decide)
    have hless : a ≠ '<' := hne a '<' hlast (by decide) (by decide)
    cases text.toList.head? with
    | none => simp
    | some b =>
      rcases hends a hlast with hpart | rfl
      · have hbrace : a ≠ '\x7d' := by
          rintro rfl
          exact absurd hpart (by decide)
        simp [hdigit, hplus, hminus, hslash, hless, isWordPart, hpart, hbrace]
      · have hnot : isWordPart '\x7d' = false := by decide
        simp [hdigit, hnot]

/-! ### The token right behind the word -/

/-- Some tokens from the first significant one on. -/
def nextOf (ts : List Token) : List Token := ts.dropWhile Token.isTrivia

/-- A line ends before the first significant one of some tokens. -/
def lineFirst (ts : List Token) : Bool := (ts.takeWhile Token.isTrivia).any breaksLine

/-- A conditional comment stands before the first significant one of some tokens. -/
def commentFirst (ts : List Token) : Bool := (ts.takeWhile Token.isTrivia).any isConditional

def keepsLine (u : Token) : Bool := u.startsStatement || u.isKeyword .kwElse

/-- The token `u` right behind a word is laid out as it is behind a name whose text is `name`:
`broken` and `comment` say whether a line end and a conditional comment stand between. -/
structure FitsBehind (name : String) (word u : Token) (behind : List Token)
    (broken comment : Bool) : Prop where
  /-- No semicolon is put in. -/
  restricted : word.isRestricted = true → broken = true →
    u.isPunct ";" = true ∨ u.isPunct "\x7d" = true
  /-- The line end stays. -/
  line : broken = true → keepsLine u = true → word.endsOperand = true
  /-- A semicolon is no body, which would stay in front of a brace. -/
  body : word.isKeyword .kwElse = true ∨ word.isKeyword .kwDo = true → u.isPunct ";" = true →
    endsBlock behind = false
  /-- No space is needed that is not needed behind a brace. -/
  space : name.toList.getLast? = some '\x7d' → comment = false →
    u.text.toList.head?.any isWordPart = true → broken = true ∧ keepsLine u = true

/-- Tokens that are left out and comments that stay are laid out alike behind two texts that no
comment needs a space behind. -/
lemma exists_upTo {between : List Token} (htrivia : ∀ u ∈ between, u.isTrivia = true)
    {last last' : String} (hspace : ∀ u ∈ between, isConditional u = true →
      needsSpace last u.text = needsSpace last' u.text) :
    ∃ cs now now', ((between.any isConditional = false ∧ now = last ∧ now' = last') ∨
        (between.any isConditional = true ∧ now = now')) ∧
      ∀ before before' broken rest,
        entries before broken last (unchanged between ++ rest)
            = cs ++ entries before (broken || between.any breaksLine) now rest ∧
          entries before' broken last' (unchanged between ++ rest)
            = cs ++ entries before' (broken || between.any breaksLine) now' rest := by
  induction between generalizing last last' with
  | nil => exact ⟨[], last, last', .inl ⟨rfl, rfl, rfl⟩, fun _ _ broken rest => by simp [unchanged]⟩
  | cons u between ih =>
    obtain ⟨hu, hbetween⟩ := List.forall_mem_cons.mp htrivia
    obtain ⟨hfirst, hspace⟩ := List.forall_mem_cons.mp hspace
    have hcons (rest : List (Token × String)) :
        unchanged (u :: between) ++ rest = (u, u.text) :: (unchanged between ++ rest) := rfl
    cases hc : isConditional u with
    | true =>
      have hbreak := breaksLine_of_isConditional hc
      obtain ⟨cs, now, now', hnow, hentries⟩ := ih hbetween (fun v _ _ => rfl)
      have hsame : now = now' := by
        rcases hnow with ⟨-, rfl, rfl⟩ | ⟨-, h⟩
        · rfl
        · exact h
      refine ⟨⟨if needsSpace last u.text then .space else .nothing, u, u.text⟩ :: cs, now, now',
        .inr ⟨by simp [hc], hsame⟩, fun before before' broken rest => ?_⟩
      obtain ⟨h, h'⟩ := hentries before before' broken rest
      rw [hcons, entries_conditional hc, entries_conditional hc, h, h', hfirst hc, List.any_cons,
        hbreak]
      exact ⟨rfl, rfl⟩
    | false =>
      obtain ⟨cs, now, now', hnow, hentries⟩ := ih hbetween hspace
      refine ⟨cs, now, now', by simpa [hc] using hnow, fun before before' broken rest => ?_⟩
      obtain ⟨h, h'⟩ := hentries before before' (broken || breaksLine u) rest
      rw [hcons, List.any_cons, ← Bool.or_assoc, ← h, ← h']
      constructor <;> simp only [entries, hu, hc, if_true, Bool.false_eq_true, if_false]

variable {x : Token} {broken comment : Bool} {now now' : String} {behind : List Token}

/-- What is put in front of the token right behind the name of a property. -/
lemma gapBefore_property (h : EndsInPoint before) (hx : x.isWord = true) (broken : Bool)
    (last : String) (u : Token) (text : String) : gapBefore (before ++ [x]) broken last u text
      = if broken && x.isRestricted && !u.isPunct "\x7d" then .semicolon
        else if broken && !x.isRestricted && x.endsOperand && keepsLine u then .lineFeed
        else if needsSpace last text then .space else .nothing := by
  have hprev : (after (before ++ [x])).prev = some x := by
    rw [after_append_singleton, prev_advance]
  have hcloses : (after (before ++ [x])).closesHeader = false := (h.level hx).closesHeader
  have hkeeps : (u.startsStatement || u.isKeyword .kwElse) = keepsLine u := rfl
  unfold gapBefore State.write State.lineEnd
  simp only [hprev, hcloses, hkeeps]
  cases broken <;> cases x.isRestricted <;> cases x.endsOperand <;> cases u.isPunct "\x7d" <;>
    cases keepsLine u <;> simp

lemma not_endsOperand_of_isRestricted (h : x.isRestricted = true) : x.endsOperand = false := by
  unfold Token.isRestricted at h
  split at h
  · rename_i k hk
    have hoperand : k.isOperand = false := by
      revert h
      cases k <;> decide
    simpa [Token.endsOperand, hk] using hoperand
  · cases h

/-- Where a closing brace comes next, it does not matter what was written last. -/
lemma entries_before_brace (h : endsBlock behind = true) (before : List Token) (broken : Bool)
    (last last' : String) : entries before broken last (unchanged behind)
      = entries before broken last' (unchanged behind) := by
  induction behind generalizing broken with
  | nil => cases h
  | cons u behind ih =>
    have hcons : unchanged (u :: behind) = (u, u.text) :: unchanged behind := rfl
    cases hkept : isKept u with
    | false =>
      rw [endsBlock_cons_of_left hkept] at h
      obtain ⟨hu, hc⟩ : u.isTrivia = true ∧ isConditional u = false := by
        simpa [isKept] using hkept
      rw [hcons]
      simp only [entries, hu, hc, if_true, Bool.false_eq_true, if_false]
      exact ih h _
    | true =>
      rw [endsBlock_cons hkept] at h
      obtain ⟨hkind, htext⟩ := isPunct_iff.mp h
      have hu : u.isTrivia = false := by simp [Token.isTrivia, TokenKind.isTrivia, hkind]
      have hsemi : u.isPunct ";" = false := by simp [Token.isPunct, htext]
      have hspace (last : String) : needsSpace last "\x7d" = false := by
        unfold needsSpace
        cases last.toList.getLast? with
        | none => rfl
        | some a =>
          have hnot : isWordPart '\x7d' = false := by decide
          simp [hnot]
      rw [hcons]
      simp only [entries, hu, hsemi, Bool.false_eq_true, if_false]
      unfold gapBefore State.write
      simp only [htext, hspace]

lemma textOf_cons (e : Entry) (es : List Entry) :
    textOf (e :: es) = e.gap.text ++ e.text ++ textOf es := by
  simp only [textOf, List.map_cons, String.join_cons]

lemma gap_text_injective {g g' : Gap} (h : g.text = g'.text) : g = g' := by
  revert h
  cases g <;> cases g' <;> decide

/-- What is put in front of the next token is the same behind the word as behind the name, just if
the token fits there. -/
lemma gapBefore_eq_iff (h : EndsInPoint before) (ht : t.kind = .identifier) (hx : x.isWord = true)
    (hsemi : u.isPunct ";" = false)
    (hspace : needsSpace now u.text = needsSpace now' u.text ↔
      ¬ (name.toList.getLast? = some '\x7d' ∧ comment = false ∧
        u.text.toList.head?.any isWordPart = true)) :
    gapBefore (before ++ [t]) broken now u u.text = gapBefore (before ++ [x]) broken now' u u.text
      ↔ FitsBehind name x u behind broken comment := by
  have htw : t.isWord = true := by simp [Token.isWord, ht]
  have hnot : t.isRestricted = false := by simp [Token.isRestricted, ht]
  have hends : t.endsOperand = true := by simp [Token.endsOperand, ht]
  rw [gapBefore_property h htw, gapBefore_property h hx, hnot, hends]
  refine ⟨fun hgap => ⟨fun hr hb => .inr ?_, fun hb hk => ?_, fun _ hs => ?_,
    fun hlast hc hp => ?_⟩,
    fun hfits => ?_⟩
  · by_contra hbrace
    rw [Bool.not_eq_true] at hbrace
    revert hgap
    cases keepsLine u <;> cases needsSpace now u.text <;> simp [hr, hb, hbrace]
  · revert hgap
    cases x.isRestricted <;> cases x.endsOperand <;> cases u.isPunct "\x7d" <;>
      cases needsSpace now' u.text <;> simp [hb, hk]
  · rw [hsemi] at hs
    cases hs
  · have hne : needsSpace now u.text ≠ needsSpace now' u.text := fun heq =>
      hspace.mp heq ⟨hlast, hc, hp⟩
    by_contra hline
    revert hgap hne hline
    cases broken <;> cases keepsLine u <;> cases x.isRestricted <;> cases u.isPunct "\x7d" <;>
      cases needsSpace now u.text <;> cases needsSpace now' u.text <;> simp
  · obtain ⟨hrestricted, hline, -, hescape⟩ := hfits
    by_cases hkept : broken = true ∧ keepsLine u = true
    · have hoperand := hline hkept.1 hkept.2
      have hfree : x.isRestricted = false := by
        by_contra hr
        rw [not_endsOperand_of_isRestricted (by simpa using hr)] at hoperand
        cases hoperand
      simp [hkept.1, hkept.2, hoperand, hfree]
    · have heq : needsSpace now u.text = needsSpace now' u.text := hspace.mpr fun hcase =>
        hkept (hescape hcase.1 hcase.2.1 hcase.2.2)
      rw [hsemi] at hrestricted
      rw [heq]
      revert hkept hrestricted
      cases broken <;> cases keepsLine u <;> cases x.isRestricted <;> cases u.isPunct
        "\x7d" <;> simp

/-- A semicolon ends a statement behind the word as it does behind the name, unless it is a body
there. -/
lemma textOf_semicolon_iff (h : EndsInPoint before) (ht : t.kind = .identifier)
    (hx : x.isWord = true) (hsemi : u.isPunct ";" = true) :
    textOf (entries (before ++ [t]) broken now (unchanged (u :: behind)))
        = textOf (entries (before ++ [x]) broken now' (unchanged (u :: behind)))
      ↔ FitsBehind name x u behind broken comment := by
  obtain ⟨hkind, htext⟩ := isPunct_iff.mp hsemi
  have hu : u.isTrivia = false := by simp [Token.isTrivia, TokenKind.isTrivia, hkind]
  have htw : t.isWord = true := by simp [Token.isWord, ht]
  have hfits : FitsBehind name x u behind broken comment ↔
      ((x.isKeyword .kwElse = true ∨ x.isKeyword .kwDo = true) → endsBlock behind = false) := by
    refine ⟨fun hfits hword => hfits.body hword hsemi, fun hbody => ⟨fun _ _ => .inl hsemi,
      fun _ hkept => ?_, fun hword _ => hbody hword, fun _ _ hpart => ?_⟩⟩
    · simp [keepsLine, Token.startsStatement, Token.isKeyword, hkind, htext] at hkept
    · rw [htext] at hpart
      exact absurd hpart (by decide)
  have hname : isBody (before ++ [t]) = false := by
    simp [isBody, (h.level htw).closesHeader, Token.isKeyword, Token.isPunct, ht]
  have hword : isBody (before ++ [x]) = (x.isKeyword .kwElse || x.isKeyword .kwDo) := by
    rw [isBody, (h.level hx).closesHeader, List.getLast?_concat, Option.any_some,
      isPunct_word hx, Bool.or_false, Bool.false_or]
  have hrest (last : String) : entries (before ++ [x] ++ [u]) false last (unchanged behind)
      = entries (before ++ [t] ++ [u]) false last (unchanged behind) :=
    entries_congr (after_behind h htw hx u) false last _
  have hcons : unchanged (u :: behind) = (u, u.text) :: unchanged behind := rfl
  rw [hfits, hcons]
  simp only [entries, hu, hsemi, hname, hword, hrest, beforeBrace_unchanged, Bool.false_eq_true,
    if_false, if_true, Bool.not_false, Bool.true_and]
  cases hblock : endsBlock behind with
  | false => simp
  | true =>
    rw [entries_before_brace hblock _ _ now' now, entries_before_brace hblock _ _ ";" now]
    have hlonger (s : String) : s ≠ ";" ++ s := fun hs => by
      have hlength := congrArg String.length hs
      simp at hlength
    cases x.isKeyword .kwElse <;> cases x.isKeyword .kwDo <;> simp [textOf_cons, Gap.text, hlonger]

/-- The texts from the token right behind the word on are the same just if it fits there. -/
lemma textOf_significant_iff (h : EndsInPoint before) (ht : t.kind = .identifier)
    (hx : x.isWord = true) (hu : u.isTrivia = false)
    (hspace : needsSpace now u.text = needsSpace now' u.text ↔
      ¬ (name.toList.getLast? = some '\x7d' ∧ comment = false ∧
        u.text.toList.head?.any isWordPart = true)) :
    textOf (entries (before ++ [t]) broken now (unchanged (u :: behind)))
        = textOf (entries (before ++ [x]) broken now' (unchanged (u :: behind)))
      ↔ FitsBehind name x u behind broken comment := by
  cases hsemi : u.isPunct ";" with
  | true => exact textOf_semicolon_iff h ht hx hsemi
  | false =>
    have htw : t.isWord = true := by simp [Token.isWord, ht]
    have hrest : entries (before ++ [x] ++ [u]) false u.text (unchanged behind)
        = entries (before ++ [t] ++ [u]) false u.text (unchanged behind) :=
      entries_congr (after_behind h htw hx u) false _ _
    have hcons : unchanged (u :: behind) = (u, u.text) :: unchanged behind := rfl
    rw [hcons]
    simp only [entries, hu, hsemi, Bool.false_eq_true, if_false, textOf_cons, hrest]
    rw [String.append_left_inj, String.append_left_inj, ← gapBefore_eq_iff h ht hx hsemi hspace]
    exact ⟨gap_text_injective, congrArg Gap.text⟩

lemma textOf_append (es fs : List Entry) : textOf (es ++ fs) = textOf es ++ textOf fs := by
  induction es with
  | nil => simp [textOf]
  | cons e es ih =>
    rw [List.cons_append, textOf_cons, textOf_cons, ih]
    simp only [String.append_assoc]

variable {word : String} {back : List Token}

/-- **Behind the word** the layout is what it is behind the name just if the next token fits there.
-/
lemma textOf_behind_iff (h : EndsInPoint before) (ht : t.kind = .identifier) (hx : x.isWord = true)
    (hname : IsName name) (hword : IsName word) (hplain : word.toList.getLast? ≠ some '\x7d')
    (hcomment : ∀ u ∈ back, isConditional u = true → u.text.toList.head?.any isWordPart = false) :
    textOf (entries (before ++ [t]) false name (unchanged back))
        = textOf (entries (before ++ [x]) false word (unchanged back))
      ↔ ∀ u behind, nextOf back = u :: behind →
        FitsBehind name x u behind (lineFirst back) (commentFirst back) := by
  have hspace (text : String) : needsSpace name text = needsSpace word text ↔
      ¬ (name.toList.getLast? = some '\x7d' ∧ text.toList.head?.any isWordPart = true) := by
    have hlast : (word.toList.getLast? != some '\x7d') = true := by simpa using hplain
    rw [needsSpace_behind_name hname, needsSpace_behind_name hword, hlast]
    cases text.toList.head?.any isWordPart <;> simp
  have htrivia : ∀ u ∈ back.takeWhile Token.isTrivia, u.isTrivia = true :=
    fun u hu => List.mem_takeWhile_imp hu
  have hclear : ∀ u ∈ back.takeWhile Token.isTrivia, isConditional u = true →
      needsSpace name u.text = needsSpace word u.text := fun u hu hc => by
    rw [hspace, hcomment u ((List.takeWhile_sublist _).subset hu) hc]
    simp
  obtain ⟨cs, now, now', hnow, hentries⟩ := exists_upTo htrivia hclear
  obtain ⟨hfront, hfront'⟩ :=
    hentries (before ++ [t]) (before ++ [x]) false (unchanged (nextOf back))
  have hsplit : unchanged back
      = unchanged (back.takeWhile Token.isTrivia) ++ unchanged (nextOf back) := by
    rw [unchanged, unchanged, unchanged, nextOf, ← List.map_append, List.takeWhile_append_dropWhile]
  rw [hsplit, hfront, hfront', textOf_append, textOf_append, String.append_right_inj, Bool.false_or]
  cases hnext : nextOf back with
  | nil => simp [unchanged, entries]
  | cons u behind =>
    have hu : u.isTrivia = false := by
      have hhead := List.head?_dropWhile_not Token.isTrivia back
      rw [show back.dropWhile Token.isTrivia = u :: behind from hnext] at hhead
      simpa using hhead
    have hnow' : needsSpace now u.text = needsSpace now' u.text ↔
        ¬ (name.toList.getLast? = some '\x7d' ∧ commentFirst back = false ∧
          u.text.toList.head?.any isWordPart = true) := by
      rcases hnow with ⟨hnone, rfl, rfl⟩ | ⟨hsome, rfl⟩
      · rw [hspace, commentFirst, hnone]
        simp
      · rw [commentFirst, hsome]
        simp
    rw [textOf_significant_iff h ht hx hu hnow']
    refine ⟨fun hfits v vs hv => ?_, fun hall => hall u behind rfl⟩
    obtain ⟨rfl, rfl⟩ := List.cons_eq_cons.mp hv
    exact hfits

/-! ### The whole layout -/

variable {front : List Token} {w : String}

lemma pieces_unchanged {ts ts' : List Token} (h : ts.map Token.lexeme = ts'.map Token.lexeme)
    (started lineBreak : Bool) :
    pieces started lineBreak (unchanged ts) = pieces started lineBreak (unchanged ts') := by
  induction ts generalizing ts' started lineBreak with
  | nil =>
    obtain rfl : ts' = [] := List.map_eq_nil_iff.mp h.symm
    rfl
  | cons t ts ih =>
    obtain ⟨⟨kind, text, start⟩, ts', rfl, ht, hts⟩ := List.map_eq_cons_iff.mp h.symm
    obtain ⟨rfl, rfl⟩ : kind = t.kind ∧ text = t.text := by simpa [Token.lexeme] using ht
    have hcons (t : Token) (ts : List Token) :
        unchanged (t :: ts) = (t, t.text) :: unchanged ts := rfl
    rw [hcons, hcons, pieces, pieces, ih hts.symm, ih hts.symm, ih hts.symm]
    rfl

/-- The same chunk with another text, if it stands for the token that starts at the place. -/
def exchangeText (start : Nat) (w : String) (c : Chunk) : Chunk :=
  if c.original = start then { c with text := w } else c

lemma map_exchangeText {es : List Entry} {start : Nat} (h : ∀ e ∈ es, e.token.start ≠ start) :
    (es.map Entry.chunk).map (exchangeText start w) = es.map Entry.chunk := by
  rw [List.map_map, List.map_inj_left]
  intro e he
  exact if_neg (h e he)

/-- Right behind a point the gap does not depend on the name. -/
lemma gapBefore_behind_point (h : EndsInPoint before) (broken : Bool) (last : String)
    (hname : IsName text) (hword : IsName word) :
    gapBefore before broken last t text = gapBefore before broken last x word := by
  obtain ⟨p, hp, hpoint⟩ := h
  have hpunct := of_isPoint hpoint
  have hprev : (after before).prev = some p := (prev_after before).trans hp
  have hrestricted : p.isRestricted = false := by simp [Token.isRestricted, hpunct.1]
  have hoperand : p.endsOperand = false := by
    rcases hpunct.2 with htext | htext <;> simp [Token.endsOperand, hpunct.1, htext]
  unfold gapBefore State.write State.lineEnd
  simp only [hprev, hrestricted, hoperand, Bool.false_eq_true, if_false, Bool.false_and,
    needsSpace_before_name hname, needsSpace_before_name hword]

lemma map_fst_unchanged (ts : List Token) : (unchanged ts).map Prod.fst = ts := by
  rw [unchanged, List.map_map]
  exact List.map_id ts

/-- The layout of a script with a word at a place that no brace begins. -/
lemma exists_entries_word (front : List Token) : ∃ es last,
    (∀ e ∈ es, e.token ∈ front) ∧ ∀ v back, v.isWord = true →
      entries [] false "" (unchanged (front ++ v :: back))
        = es ++ ⟨gapBefore (significantOf front) (brokenAfter front) last v v.text, v, v.text⟩
          :: entries (significantOf front ++ [v]) false v.text (unchanged back) := by
  obtain ⟨es, last, hmem, hes⟩ := entriesAfter_append [] "" (unchanged front)
  rw [map_fst_unchanged] at hmem hes
  refine ⟨es, last, hmem, fun v back hv => ?_⟩
  have htrivia : v.isTrivia = false := by
    unfold Token.isWord at hv
    unfold Token.isTrivia TokenKind.isTrivia
    cases hk : v.kind <;> simp_all
  have hsemi : v.isPunct ";" = false := isPunct_word hv ";"
  have hbrace : beforeBrace ((v, v.text) :: unchanged back) = false := by
    rw [beforeBrace_cons_of_kept (isKept_of_not_trivia htrivia), isPunct_word hv]
  have hsplit : unchanged (front ++ v :: back) = unchanged front ++ (v, v.text)
    :: unchanged back := by
    simp [unchanged]
  have hall := hes _ hbrace
  rw [← hsplit] at hall
  refine hall.trans ?_
  simp only [entriesAfter, List.nil_append, entries, htrivia, hsemi, Bool.false_eq_true, if_false]

/-- **The word in the layout.** The layout with the word is the one with the name, with the word in
its place, just if the next token fits behind the word. -/
lemma code_exchange_iff {source : String} (h : tokenize source = .ok (front ++ t :: back))
    (ht : t.kind = .identifier) (hx : x.isWord = true) (hpoint : EndsInPoint (significantOf front))
    (hword : IsName x.text) (hplain : x.text.toList.getLast? ≠ some '\x7d') :
    code (chunks (front ++ x :: back) ∅)
        = code ((chunks (front ++ t :: back) ∅).map (exchangeText t.start x.text))
      ↔ ∀ u behind, nextOf back = u :: behind →
        FitsBehind t.text x u behind (lineFirst back) (commentFirst back) := by
  have hrun : (Lexer.ofString source).run = (front ++ t :: back, none) := tokenize_eq_ok h
  have hname : IsName t.text := by
    obtain ⟨lx, lx', hnext, -⟩ := Lexer.exists_run_behind hrun
    exact Lexer.isName_of_next hnext ht
  have htw : t.isWord = true := by simp [Token.isWord, ht]
  have hstarts := (covers_of_tokenize h).1.pairwise_start.1
  rw [List.pairwise_append, List.pairwise_cons] at hstarts
  obtain ⟨-, ⟨hback, -⟩, hfront⟩ := hstarts
  obtain ⟨es, last, hmem, hentries⟩ := exists_entries_word front
  have hbefore : ∀ e ∈ es, e.token.start ≠ t.start := fun e he =>
    (hfront _ (hmem e he) t List.mem_cons_self).ne
  have hbehind : ∀ e ∈ entries (significantOf front ++ [t]) false t.text (unchanged back),
      e.token.start ≠ t.start := fun e he => by
    have hin := token_mem_of_entries e he
    rw [map_fst_unchanged] at hin
    exact (hback _ hin).ne'
  have hexchanged (g : Gap) : exchangeText t.start x.text (Entry.chunk ⟨g, t, t.text⟩)
      = Entry.chunk ⟨g, t, x.text⟩ := if_pos rfl
  rw [chunks_eq_entries, chunks_eq_entries, newTexts_empty, newTexts_empty, hentries t back htw,
    hentries x back hx, List.map_append, List.map_append, List.map_append, List.map_cons,
    List.map_cons, List.map_cons, map_exchangeText hbefore, map_exchangeText hbehind, hexchanged,
    gapBefore_behind_point hpoint _ _ hname hword,
    ← textOf_behind_iff hpoint ht hx hname hword hplain (Lexer.isWordPart_of_comment hrun)]
  rw [← List.map_cons, ← List.map_cons, ← List.map_append, ← List.map_append, code_map_chunk,
    code_map_chunk]
  rw [textOf_append, textOf_append, textOf_cons, textOf_cons, String.append_right_inj,
    String.append_right_inj, eq_comm]

end Layout

open Layout

variable {source w : String} {front back : List Token} {t : Token}

lemma isPlainWord_of_reserved (hw : w ∈ reservedWords) : IsPlainWord w := by
  have hall : (reservedWords.all fun w => w.toList.head?.any Scan.beginsName &&
      w.toList.all isNamePart) = true := by decide +kernel
  obtain ⟨hbegins, hparts⟩ := Bool.and_eq_true_iff.mp (List.all_eq_true.mp hall w hw)
  exact ⟨hbegins, List.all_eq_true.mp hparts⟩

lemma IsPlainWord.not_brace (hw : IsPlainWord w) : w.toList.getLast? ≠ some '\x7d' := fun hlast =>
  absurd (hw.parts _ (List.mem_of_getLast? hlast)) (by decide)

lemma IsPlainWord.isName (hw : IsPlainWord w) : IsName w :=
  ⟨hw.begins, fun c hc => .inl (hw.parts c (List.mem_of_getLast? hc))⟩

lemma isWord_wordKind (w : String) (start : Nat) :
    (⟨wordKind w, w, start⟩ : Token).isWord = true := by
  unfold Token.isWord wordKind
  cases Keyword.ofWord? w <;> rfl

lemma last_of_endsInPoint (h : EndsInPoint (significantOf front)) (u : Token)
    (hu : front.getLast? = some u) : u.isTrivia = true ∨ u.kind = .punctuator := by
  obtain ⟨p, hp, hpoint⟩ := h
  obtain ⟨front, rfl⟩ := List.getLast?_eq_some_iff.mp hu
  cases hu : u.isTrivia with
  | true => exact .inl rfl
  | false =>
    rw [significantOf_concat hu, List.getLast?_concat] at hp
    cases hp
    exact .inr (of_isPoint hpoint).1

/-- **A reserved word as the name of a property.** It takes the place of another name, with all
other tokens as they are and the same layout around it, just when no slash comes next that would
begin a regular expression and the next token fits behind the word. -/
theorem property_word_iff (h : tokenize source = .ok (front ++ t :: back))
    (ht : t.kind = .identifier) (hpoint : EndsInPoint (significantOf front))
    (hw : w ∈ reservedWords) :
    (∃ ts, tokenize (exchanged front w back) = .ok ts ∧
        ts.map Token.lexeme = front.map Token.lexeme ++ ⟨wordKind w, w⟩ :: back.map Token.lexeme ∧
        (compact ts ∅).code
          = code ((chunks (front ++ t :: back) ∅).map (exchangeText t.start w)))
      ↔ takesSlash w back = false ∧ ∀ u behind, nextOf back = u :: behind →
        FitsBehind t.text ⟨wordKind w, w, t.start⟩ u behind (lineFirst back) (commentFirst back) := by
  have hplain := isPlainWord_of_reserved hw
  have hread := exchange_iff h ht (last_of_endsInPoint hpoint) hplain
  have hcode := code_exchange_iff h ht (isWord_wordKind w t.start) hpoint hplain.isName
    hplain.not_brace
  have hcompact (ts : List Token) (hts : ts.map Token.lexeme
      = front.map Token.lexeme ++ ⟨wordKind w, w⟩ :: back.map Token.lexeme) :
      (compact ts ∅).code = code (chunks (front ++ ⟨wordKind w, w, t.start⟩ :: back) ∅) := by
    refine compact_congr ?_
    rw [newTexts_empty, newTexts_empty]
    refine pieces_unchanged ?_ _ _
    rw [hts, List.map_append, List.map_cons]
    rfl
  constructor
  · rintro ⟨ts, hts, hlexemes, hsame⟩
    rw [hcompact ts hlexemes] at hsame
    exact ⟨hread.mp ⟨ts, hts, hlexemes⟩, hcode.mp hsame⟩
  · rintro ⟨hslash, hfits⟩
    obtain ⟨ts, hts, hlexemes⟩ := hread.mpr hslash
    exact ⟨ts, hts, hlexemes, (hcompact ts hlexemes).trans (hcode.mpr hfits)⟩

set_option maxRecDepth 20000 in
/-- `\x7ba.b(c);\x7d` becomes `\x7ba.if(c);\x7d`, with the word for a name that has no header. -/
theorem property_word_if :
    let source := "\x7ba.b(c);\x7d"
    let front : List Token := [⟨.punctuator, "\x7b", 0⟩, ⟨.identifier, "a", 1⟩,
      ⟨.punctuator, ".", 2⟩]
    let name : Token := ⟨.identifier, "b", 3⟩
    let back : List Token := [⟨.punctuator, "(", 4⟩, ⟨.identifier, "c", 5⟩, ⟨.punctuator, ")", 6⟩,
      ⟨.punctuator, ";", 7⟩, ⟨.punctuator, "\x7d", 8⟩]
    tokenize source = .ok (front ++ name :: back) ∧ exchanged front "if" back = "\x7ba.if(c);\x7d" ∧
      code ((chunks (front ++ name :: back) ∅).map (exchangeText 3 "if")) = "\x7ba.if(c)\x7d" ∧
      ∃ ts, tokenize (exchanged front "if" back) = .ok ts ∧
        ts.map Token.lexeme
          = front.map Token.lexeme ++ ⟨wordKind "if", "if"⟩ :: back.map Token.lexeme ∧
        (compact ts ∅).code = code ((chunks (front ++ name :: back) ∅).map
          (exchangeText 3 "if")) := by
  intro source front name back
  have h : tokenize source = .ok (front ++ name :: back) := by
    rw [tokenize, tokens_eq_runFor]
    decide +kernel
  have hpoint : EndsInPoint (significantOf front) := ⟨⟨.punctuator, ".", 2⟩, by decide, by decide⟩
  refine ⟨h, by decide +kernel, by decide +kernel,
    (property_word_iff h rfl hpoint (by decide +kernel)).mpr ⟨by decide +kernel, ?_⟩⟩
  rintro u behind hnext
  obtain ⟨rfl, rfl⟩ := List.cons_eq_cons.mp hnext
  exact ⟨by decide, by decide, by decide, by decide⟩

set_option maxRecDepth 20000 in
/-- In `o.b/2` the word `delete` in the place of the name makes a regular expression of the
division, which does not end. -/
theorem property_delete_divided :
    let source := "o.b/2"
    let front : List Token := [⟨.identifier, "o", 0⟩, ⟨.punctuator, ".", 1⟩]
    let name : Token := ⟨.identifier, "b", 2⟩
    let back : List Token := [⟨.punctuator, "/", 3⟩, ⟨.number, "2", 4⟩]
    tokenize source = .ok (front ++ name :: back) ∧ EndsInPoint (significantOf front) ∧
      "delete" ∈ reservedWords ∧ exchanged front "delete" back = "o.delete/2" ∧
      tokenize (exchanged front "delete" back) = .error ⟨.unterminatedRegex, 8⟩ ∧
      ¬ ∃ ts, tokenize (exchanged front "delete" back) = .ok ts ∧ ts.map Token.lexeme
        = front.map Token.lexeme ++ ⟨wordKind "delete", "delete"⟩ :: back.map Token.lexeme := by
  intro source front name back
  have h : tokenize source = .ok (front ++ name :: back) := by
    rw [tokenize, tokens_eq_runFor]
    decide +kernel
  have hexchanged : exchanged front "delete" back = "o.delete/2" := by decide +kernel
  have hfault : tokenize "o.delete/2" = .error ⟨.unterminatedRegex, 8⟩ := by
    rw [tokenize, tokens_eq_runFor]
    decide +kernel
  have hpoint : EndsInPoint (significantOf front) := ⟨⟨.punctuator, ".", 1⟩, by decide, by decide⟩
  refine ⟨h, hpoint, by decide +kernel, hexchanged, by rw [hexchanged, hfault], ?_⟩
  rintro ⟨ts, hts, -⟩
  rw [hexchanged, hfault] at hts
  cases hts

end Minify
