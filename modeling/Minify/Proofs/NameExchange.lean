import Mathlib
import Minify.Proofs.ReadBack

/-!
A script with one name put in the place of another.

What the lexer reads in front of a place does not depend on which name begins there, since no
punctuator, number or comment goes on with the beginning of a name. What it reads behind the name
does not depend on the name either, but for a slash right after it: after an operand it divides, and
after a keyword it begins a regular expression.
-/

namespace Minify

open Text

namespace Scan

def beginsName (c : Char) : Bool :=
  !(isLineEnd c || isBlank c) && (isNameStart c || c = '\\')

variable {c c' : Char} {xs r r' taken more more' : List Char} {kind : TokenKind}

lemma not_isDigit_of_beginsName (h : beginsName c = true) : c.isDigit = false := by
  by_contra hdigit
  rw [Bool.not_eq_false] at hdigit
  simp only [Char.isDigit, Bool.and_eq_true, decide_eq_true_eq, UInt32.le_iff_toNat_le,
    ge_iff_le] at hdigit
  change 48 ≤ c.toNat ∧ c.toNat ≤ 57 at hdigit
  have hne (d : Char) (hd : 57 < d.toNat ∨ d.toNat < 48) : c ≠ d := by
    rintro rfl
    omega
  have halpha : c.isAlpha = false := by
    by_contra hletter
    simp only [Bool.not_eq_false, Char.isAlpha, Char.isUpper, Char.isLower, Bool.or_eq_true,
      Bool.and_eq_true, decide_eq_true_eq, UInt32.le_iff_toNat_le, ge_iff_le] at hletter
    change (65 ≤ c.toNat ∧ c.toNat ≤ 90) ∨ (97 ≤ c.toNat ∧ c.toNat ≤ 122) at hletter
    omega
  have hascii : isAscii c = true := by
    simp only [isAscii, decide_eq_true_eq]
    omega
  simp [beginsName, isNameStart, halpha, hascii, hne '$' (by decide), hne '_' (by decide),
    hne '\\' (by decide)] at h

lemma ne_of_beginsName {d : Char} (h : beginsName c = true) (hd : beginsName d = false) :
    c ≠ d := by
  rintro rfl
  rw [h] at hd
  cases hd

lemma not_space_of_beginsName (h : beginsName c = true) : (isLineEnd c || isBlank c) = false := by
  simp only [beginsName, Bool.and_eq_true, Bool.not_eq_true'] at h
  exact h.1

lemma not_mem_of_beginsName (h : beginsName c = true) : ∀ p ∈ punctuators, c ∉ p.toList := by
  have hall : (punctuators.all fun p => p.toList.all fun d => !beginsName d) = true := by
    decide +kernel
  intro p hp hc
  have hnot := List.all_eq_true.mp (List.all_eq_true.mp hall p hp) c hc
  simp [h] at hnot

/-- What goes before a character is all that a list without it can be the front of. -/
lemma isPrefixOf_append_cons {p : List Char} (h : c ∉ p) :
    p.isPrefixOf (xs ++ c :: r) = p.isPrefixOf xs := by
  induction p generalizing xs with
  | nil => simp
  | cons d p ih =>
    obtain ⟨hd, hp⟩ : c ≠ d ∧ c ∉ p := by simpa using h
    cases xs with
    | nil => simp [List.isPrefixOf, Ne.symm hd]
    | cons x xs => simp [List.isPrefixOf, ih hp]

/-- Where a punctuator ends is told by what goes before a character that is in none. -/
lemma punctuator?_congr (hc : ∀ p ∈ punctuators, c ∉ p.toList)
    (hc' : ∀ p ∈ punctuators, c' ∉ p.toList) (hdigits : c.isDigit = c'.isDigit) :
    punctuator? (xs ++ c :: r) = punctuator? (xs ++ c' :: r') := by
  have hfind : (punctuators.map String.toList).find? (·.isPrefixOf (xs ++ c :: r))
      = (punctuators.map String.toList).find? (·.isPrefixOf (xs ++ c' :: r')) := by
    refine List.find?_congr fun p hp => ?_
    obtain ⟨q, hq, rfl⟩ := List.mem_map.mp hp
    rw [isPrefixOf_append_cons (hc q hq), isPrefixOf_append_cons (hc' q hq)]
  have hnext (d : Char) (more : List Char) (hd : ∀ p ∈ punctuators, d ∉ p.toList)
      (hmark : ['?', '.'].isPrefixOf (xs ++ d :: more) = true) :
      ∃ ys, xs = '?' :: '.' :: ys ∧ ((xs ++ d :: more).drop 2).head?.any Char.isDigit
        = (ys.head?.getD d).isDigit := by
    have hout : d ∉ ['?', '.'] := hd "?." (by decide)
    rw [isPrefixOf_append_cons hout, List.isPrefixOf_iff_prefix] at hmark
    obtain ⟨ys, rfl⟩ := hmark
    refine ⟨ys, rfl, ?_⟩
    cases ys <;> rfl
  unfold punctuator?
  rw [hfind]
  split
  · rename_i hfound
    have hmark := List.find?_some hfound
    have hmark' := List.find?_some (hfind.trans hfound)
    obtain ⟨ys, rfl, hdigit⟩ := hnext c' r' hc' hmark
    obtain ⟨zs, hzs, hdigit'⟩ := hnext c r hc hmark'
    obtain rfl : ys = zs := by simpa using hzs
    have hsame : (ys.head?.getD c).isDigit = (ys.head?.getD c').isDigit := by
      cases ys with
      | nil => exact hdigits
      | cons y ys => rfl
    rw [hdigit, hdigit', hsame]
  · rfl

lemma punctuator?_exchange (hc : beginsName c = true) (hc' : beginsName c' = true) :
    punctuator? (xs ++ c :: r) = punctuator? (xs ++ c' :: r') :=
  punctuator?_congr (not_mem_of_beginsName hc) (not_mem_of_beginsName hc')
    ((not_isDigit_of_beginsName hc).trans (not_isDigit_of_beginsName hc').symm)

/-- **Nothing goes on with the beginning of one name and not with that of another**, but for names
and regular expressions. -/
lemma runsOn_exchange (hc : beginsName c = true) (hc' : beginsName c' = true) {between : List Char}
    (hnear : between = [] → kind.isTrivia = true ∨ kind = .punctuator)
    (h : runsOn kind taken (between ++ c :: r) = false) :
    runsOn kind taken (between ++ c' :: r') = false := by
  by_cases hb : between = []
  · subst hb
    rw [List.nil_append] at h ⊢
    have hspace := not_space_of_beginsName hc'
    have hdigit := not_isDigit_of_beginsName hc'
    have hslash : c' ≠ '/' := ne_of_beginsName hc' (by decide)
    have hstar : c' ≠ '*' := ne_of_beginsName hc' (by decide)
    rcases hnear rfl with htrivia | rfl
    · have hline : kind ≠ .comment .line := by
        rintro rfl
        have hend : isLineEnd c = true := by simpa [runsOn] using h
        have hspace' := not_space_of_beginsName hc
        simp [hend] at hspace'
      unfold TokenKind.isTrivia at htrivia
      unfold runsOn
      split at htrivia
      · exact hspace
      · exact hspace
      · rename_i ck
        cases ck with
        | line => exact absurd rfl hline
        | block b => rfl
        | conditional => rfl
      · cases htrivia
    · simp only [runsOn, Bool.or_eq_false_iff] at h ⊢
      refine ⟨⟨?_, by simp [hslash, hstar]⟩, by simp [hdigit]⟩
      rw [← punctuator?_exchange hc hc']
      exact h.1.1
  · obtain ⟨b, bs, rfl⟩ := List.exists_cons_of_ne_nil hb
    rw [List.cons_append] at h ⊢
    unfold runsOn numberGoesOn wordFollows at h ⊢
    cases kind with
    | punctuator =>
      have hfront (d : Char) (ds : List Char) :
          taken ++ b :: (bs ++ d :: ds) = taken ++ b :: bs ++ d :: ds := by simp
      dsimp only at h ⊢
      rw [hfront, ← punctuator?_exchange hc hc', ← hfront]
      exact h
    | comment ck => cases ck <;> exact h
    | _ => exact h

end Scan

namespace Lexer

open Scan

variable {lx lx' lo : Lexer} {t : Token} {c d : Char} {cs more more' : List Char}

/-- Two lexers at the front of a script, or both behind it, with the same braces open. -/
structure Alike (lx lo : Lexer) : Prop where
  front : lo.pos = 0 ↔ lx.pos = 0
  depth : lo.depth = lx.depth
  resume : lo.resume = lx.resume

/-- The same character comes next, or a name begins in either text. -/
def SameNext (next next' : Option Char) : Prop :=
  next' = next ∨ ∃ c c', next = some c ∧ next' = some c' ∧ beginsName c = true ∧
    beginsName c' = true

lemma SameNext.eq_iff {next next' : Option Char} (h : SameNext next next')
    (hd : beginsName d = false) : (next' == some d) = (next == some d) := by
  rcases h with rfl | ⟨c, c', rfl, rfl, hc, hc'⟩
  · rfl
  · simp [ne_of_beginsName hc hd, ne_of_beginsName hc' hd]

lemma SameNext.isDigit {next next' : Option Char} (h : SameNext next next') :
    next'.any Char.isDigit = next.any Char.isDigit := by
  rcases h with rfl | ⟨c, c', rfl, rfl, hc, hc'⟩
  · rfl
  · simp [not_isDigit_of_beginsName hc, not_isDigit_of_beginsName hc']

/-- The scanner is told by the first character and by what comes next, where that is no name. -/
lemma scannerOf_congr (h : Alike lx lo) {next next' : Option Char} (hnext : SameNext next next')
    (hop : d = '/' → next ≠ some '/' → next ≠ some '*' → lo.afterOperand = lx.afterOperand) :
    lo.scannerOf d next' = lx.scannerOf d next := by
  by_cases hhash : d = '#'
  · subst hhash
    rw [scannerOf_hash, scannerOf_hash, hnext.eq_iff (by decide), decide_eq_decide.mpr h.front]
  by_cases hslash : d = '/'
  · subst hslash
    rw [scannerOf_slash, scannerOf_slash, hnext.eq_iff (by decide), hnext.eq_iff (by decide)]
    split_ifs with hline hblock <;> try rfl
    all_goals simp_all
  by_cases hpoint : d = '.'
  · subst hpoint
    rw [scannerOf_point, scannerOf_point, hnext.isDigit]
  refine scannerOf_of_other hhash hslash hpoint ?_ _ _
  rw [resumes, resumes, h.depth, h.resume]

/-- A slash opens a comment, or a regular expression, or divides what stands before it. -/
lemma slash_cases {kind : TokenKind} (h : (lx.scan '/' cs).result = .ok kind) :
    ((∃ k, kind = .comment k) ∧ (cs.head? = some '/' ∨ cs.head? = some '*')) ∨
      (kind = .regex ∧ lx.afterOperand = false) ∨
        (kind = .punctuator ∧ lx.afterOperand = true) := by
  rw [scan_eq, scannerOf_slash] at h
  split at h
  · rename_i hline
    obtain ⟨ds, rfl⟩ := exists_cons_of_head? hline
    exact .inl ⟨⟨_, (lineComment_stable h).1⟩, .inl rfl⟩
  rename_i hline
  split at h
  · rename_i hblock
    obtain ⟨ds, rfl⟩ := exists_cons_of_head? hblock
    obtain ⟨⟨k, hk, -⟩, -⟩ := blockComment_stable h
    exact .inl ⟨⟨k, hk⟩, .inr rfl⟩
  rename_i hblock
  split at h
  · rename_i hop
    exact .inr (.inl ⟨(regex_stable h).1, by simpa using hop⟩)
  · rename_i hop
    refine .inr (.inr ⟨(punctuator_stable (c := '/') (fun _ => ?_) (fun hc => absurd hc (by decide))
      h).1, by simpa using hop⟩)
    cases hd : cs.head? <;> simp_all

lemma record_of_trivia (h : t.isTrivia = true) (lx : Lexer) (start : Nat) :
    lx.record ⟨t.kind, t.text, start⟩ = lx := if_pos h

lemma Alike.record (h : Alike lx lo) (t : Token) (start : Nat) :
    Alike (lx.record t) (lo.record ⟨t.kind, t.text, start⟩) := by
  have hfront : (lo.record ⟨t.kind, t.text, start⟩).pos = 0 ↔ (lx.record t).pos = 0 := by
    rw [record_pos, record_pos]
    exact h.front
  cases ht : t.isTrivia with
  | true =>
    refine ⟨hfront, ?_, ?_⟩
    · rw [record_of_trivia ht lo, record_of_trivia ht lx]
      exact h.depth
    · rw [record_of_trivia ht lo, record_of_trivia ht lx]
      exact h.resume
  | false =>
    have hstate := SameState.record (t := t) lx lo (fun htrivia => by simp [ht] at htrivia) h.depth
      h.resume start
    exact ⟨hfront, hstate.depth, hstate.resume⟩

lemma Alike.afterOperand_record (h : Alike lx lo)
    (ht : t.isTrivia = false ∨ lo.afterOperand = lx.afterOperand) (start : Nat) :
    (lo.record ⟨t.kind, t.text, start⟩).afterOperand = (lx.record t).afterOperand :=
  (SameState.record lx lo (fun htrivia => ht.resolve_left (by simp [htrivia])) h.depth h.resume
    start).afterOperand

/-- **A token is read again** in front of another text that does not go on with it. A slash alone
looks at the token before. -/
lemma next_exchange (h : lx.next = (.ok (some t), lx')) (halike : Alike lx lo)
    (hop : t.isTrivia = false → t.text.toList.head? = some '/' → lo.afterOperand = lx.afterOperand)
    (hlx : lx.rest = t.text.toList ++ more) (hlo : lo.rest = t.text.toList ++ more')
    (hnext : SameNext more.head? more'.head?)
    (hstop : runsOn t.kind t.text.toList more' = false) :
    ∃ lo', lo.next = (.ok (some ⟨t.kind, t.text, lo.pos⟩), lo') ∧ lo'.rest = more' ∧
      Alike lx' lo' ∧ 0 < lo'.pos ∧
      (t.isTrivia = false ∨ lo.afterOperand = lx.afterOperand →
        lo'.afterOperand = lx'.afterOperand) := by
  obtain ⟨c, cs, w, hrest, hkind, htaken, htext, rfl⟩ := next_ok h
  rw [htext] at hlx hlo hstop hop
  obtain rfl : cs = w ++ more := by
    rw [hrest] at hlx
    exact (List.cons_eq_cons.mp hlx).2
  have hscanner : lo.scannerOf c (w ++ more').head? = lx.scannerOf c (w ++ more).head? := by
    refine scannerOf_congr halike ?_ fun hc hline hblock => ?_
    · cases w with
      | nil => exact hnext
      | cons d ds => exact .inl rfl
    · subst hc
      refine hop ?_ rfl
      rcases slash_cases hkind with ⟨-, hhead | hhead⟩ | ⟨hk, -⟩ | ⟨hk, -⟩
      · exact absurd hhead hline
      · exact absurd hhead hblock
      · simp [Token.isTrivia, TokenKind.isTrivia, hk]
      · simp [Token.isTrivia, TokenKind.isTrivia, hk]
  have hscan : lo.scan c (w ++ more') = ⟨c :: w, more', .ok t.kind⟩ := by
    have hagain := (scan_ok hkind).2.again more' (by rwa [htaken])
    rwa [htaken, ← hscanner, List.cons_append, ← scan_eq] at hagain
  have hread := next_of_scan hlo hscan
  have hofList : String.ofList (c :: w) = t.text := by rw [← htext, String.ofList_toList]
  rw [hofList] at hread
  have hpos : 0 < (lo.skip c ⟨c :: w, more', .ok t.kind⟩).pos :=
    Nat.lt_of_lt_of_le (size_cons_pos c w) (Nat.le_add_left _ _)
  have hskip : Alike (lx.skip c (lx.scan c (w ++ more)))
    (lo.skip c ⟨c :: w, more', .ok t.kind⟩) := by
    have hres : lo.resumes c = lx.resumes c := by rw [resumes, resumes, halike.depth, halike.resume]
    refine ⟨iff_of_false hpos.ne' (Nat.ne_of_gt ?_), halike.depth, ?_⟩
    · simp only [skip, htaken]
      exact Nat.lt_of_lt_of_le (size_cons_pos c w) (Nat.le_add_left _ _)
    · simp only [skip, hres, halike.resume]
  exact ⟨_, hread, record_rest _ _, hskip.record t lo.pos, by rwa [record_pos],
    fun ht => hskip.afterOperand_record ht lo.pos⟩

/-! ### Names -/

lemma scan_of_beginsName (hc : beginsName c = true) (cs : List Char) :
    lx.scan c cs = name (c :: cs) := by
  have hhash : c ≠ '#' := ne_of_beginsName hc (by decide)
  have hslash : c ≠ '/' := ne_of_beginsName hc (by decide)
  simp only [beginsName, Bool.and_eq_true, Bool.not_eq_true'] at hc
  rw [scan_eq, scannerOf, if_neg (by simp [hc.1]), if_neg (by simp [hhash]),
    if_neg (by simp [hslash]), if_neg (by simp [hslash]), if_pos hc.2]

/-- Comments and words are told by their first character. -/
lemma scan_cases {kind : TokenKind} (h : (lx.scan c cs).result = .ok kind) :
    ((∃ k, kind = .comment k) ∧ (c = '/' ∨ c = '#')) ∨
      ((kind = .identifier ∨ ∃ k, kind = .keyword k) ∧ beginsName c = true) ∨
      (kind ≠ .identifier ∧ ∀ k, kind ≠ .comment k) := by
  rw [scan_eq] at h
  have hcases := scanner_cases lx c cs
  generalize lx.scannerOf c cs.head? = f at hcases h
  cases hcases with
  | blanks => rcases (blanks_stable h).1 with rfl | rfl <;> exact .inr (.inr (by simp))
  | hashbang _ hc => exact .inl ⟨⟨.line, by cases h; rfl⟩, .inr hc⟩
  | lineComment _ hc => exact .inl ⟨⟨.line, by cases h; rfl⟩, .inl hc⟩
  | blockComment _ hc hcs =>
    subst hcs
    obtain ⟨⟨k, hk, -⟩, -⟩ := blockComment_stable h
    exact .inl ⟨⟨k, hk⟩, .inl hc⟩
  | name hblank hstart =>
    refine .inr (.inl ⟨(name_stable h).1, ?_⟩)
    rw [beginsName, hstart, Bool.and_true]
    simpa using hblank
  | number => exact .inr (.inr (by simp [(number_stable h).1]))
  | string _ hescape => exact .inr (.inr (by simp [(string_stable hescape h).1]))
  | template =>
    obtain ⟨⟨part, rfl⟩, -⟩ := template_stable h
    exact .inr (.inr (by simp))
  | resumed =>
    obtain ⟨⟨part, rfl⟩, -⟩ := template_stable h
    exact .inr (.inr (by simp))
  | regex => exact .inr (.inr (by simp [(regex_stable h).1]))
  | punctuator _ hslash hpoint =>
    exact .inr (.inr (by simp [(punctuator_stable hslash hpoint h).1]))

lemma beginsName_of_identifier (h : (lx.scan c cs).result = .ok .identifier) :
    beginsName c = true := by
  rcases scan_cases h with ⟨⟨k, hk⟩, -⟩ | ⟨-, hbegins⟩ | ⟨hother, -⟩
  · cases hk
  · exact hbegins
  · exact absurd rfl hother

lemma head_of_comment {k : CommentKind} (h : (lx.scan c cs).result = .ok (.comment k)) :
    c = '/' ∨ c = '#' := by
  rcases scan_cases h with ⟨-, hhead⟩ | ⟨hword | ⟨k, hk⟩, -⟩ | ⟨-, hother⟩
  · exact hhead
  · cases hword
  · cases hk
  · exact absurd rfl (hother k)

end Lexer

/-- The kind of a word. -/
def wordKind (w : String) :
    TokenKind := ((Keyword.ofWord? w).map TokenKind.keyword).getD .identifier

/-- A word that needs no escapes. -/
structure IsPlainWord (w : String) : Prop where
  begins : w.toList.head?.any Scan.beginsName = true
  parts : ∀ c ∈ w.toList, isNamePart c = true

namespace Lexer

open Scan

variable {lx lx' lo : Lexer} {t : Token} {c c' d : Char} {cs r r' more more' : List Char}

lemma nameTail_word {w : List Char} (hw : ∀ c ∈ w, isNamePart c = true)
    (hstop : more.head?.any (fun c => isNamePart c || c = '\\') = false) :
    nameTail (w ++ more) = ⟨w, none, more⟩ := by
  induction w with
  | nil => exact nameTail_of_stop hstop
  | cons c w ih =>
    obtain ⟨hc, hw⟩ := List.forall_mem_cons.mp hw
    have hescape : c ≠ '\\' := by
      rintro rfl
      exact absurd hc (by decide)
    rw [List.cons_append, nameTail, if_neg hescape, if_pos hc, ih hw]
    rfl

lemma depth_record_word {w : String} (lx : Lexer) (start : Nat) :
    (lx.record ⟨wordKind w, w, start⟩).depth = lx.depth ∧
      (lx.record ⟨wordKind w, w, start⟩).resume = lx.resume := by
  unfold Lexer.record wordKind
  cases Keyword.ofWord? w <;> exact ⟨rfl, rfl⟩

/-- A word is read where the text after it does not go on with it. -/
lemma next_word {w : String} (hw : IsPlainWord w) (hrest : lx.rest = w.toList ++ more)
    (hstop : more.head?.any (fun c => isNamePart c || c = '\\') = false) :
    ∃ lx', lx.next = (.ok (some ⟨wordKind w, w, lx.pos⟩), lx') ∧ lx'.rest = more ∧ 0 < lx'.pos ∧
      lx'.depth = lx.depth ∧ lx'.resume = lx.resume := by
  obtain ⟨c, cs, hcs⟩ := List.exists_cons_of_ne_nil (l := w.toList) (by
    intro hnil
    have hbegins := hw.begins
    simp [hnil] at hbegins)
  have hbegins : beginsName c = true := by simpa [hcs] using hw.begins
  have hscan : lx.scan c (cs ++ more) = ⟨c :: cs, more, .ok (wordKind w)⟩ := by
    have htail := nameTail_word hw.parts hstop
    rw [hcs] at htail
    rw [scan_of_beginsName hbegins, ← List.cons_append, name, htail, ← hcs, String.ofList_toList]
    rfl
  rw [hcs, List.cons_append] at hrest
  have hnext := next_of_scan hrest hscan
  rw [← hcs, String.ofList_toList] at hnext
  have hres : lx.resumes c = false := by
    simp [resumes, ne_of_beginsName hbegins (show beginsName '\x7d' = false by decide)]
  obtain ⟨hdepth, hresume⟩ := depth_record_word (w := w)
    (lx.skip c ⟨w.toList, more, .ok (wordKind w)⟩) lx.pos
  refine ⟨_, hnext, record_rest _ _, ?_, hdepth, hresume.trans (skip_resume hres _)⟩
  rw [record_pos, hcs]
  exact Nat.lt_of_lt_of_le (size_cons_pos c cs) (Nat.le_add_left _ _)

/-! ### Before the name and behind it -/

def slashNext (ts : List Token) : Bool :=
  (ts.find? fun t => !t.isTrivia).any fun t => t.text.toList.head? == some '/'

lemma slashNext_cons (t : Token) (ts : List Token) : slashNext (t :: ts)
    = if t.isTrivia then slashNext ts else t.text.toList.head? == some '/' := by
  unfold slashNext
  cases h : t.isTrivia <;> simp [h]

variable {ts : List Token}

/-- **Behind the name** the same tokens are read, unless a slash takes what comes before it for
something else. -/
theorem reads_behind (h : lx.run = (ts, none)) (halike : Alike lx lo) (hrest : lo.rest = lx.rest)
    (hop : slashNext ts = true → lo.afterOperand = lx.afterOperand) :
    lo.Reads (ts.map Token.lexeme) := by
  induction ts generalizing lx lo with
  | nil =>
    obtain ⟨hnil, hresume⟩ := run_ok_nil h
    exact reads_nil (hrest.trans hnil) (halike.resume.trans hresume)
  | cons t ts ih =>
    obtain ⟨lx', hnext, hrun⟩ := run_ok_cons h
    have hlx := spelled_of_run h
    rw [List.map_cons, Lexeme.spelled_cons, ← spelled_of_run hrun] at hlx
    have hapart := apart_of_run h
    simp only [List.map_cons, Lexeme.apart, Bool.and_eq_true, Bool.not_eq_true',
      ← spelled_of_run hrun] at hapart
    rw [slashNext_cons] at hop
    have hslash (ht : t.isTrivia = false) (hhead : t.text.toList.head? = some '/') :
        lo.afterOperand = lx.afterOperand := hop (by simp [ht, hhead])
    obtain ⟨lo', hnext', hrest', halike', -, hop'⟩ :=
      next_exchange hnext halike hslash hlx (hrest.trans hlx) (.inl rfl) hapart.1
    refine Reads.cons (t := ⟨t.kind, t.text, lo.pos⟩) (ih hrun halike' hrest' fun hs => ?_) hnext'
    cases ht : t.isTrivia with
    | true => exact hop' (.inr (hop (by simpa [ht] using hs)))
    | false => exact hop' (.inl ht)

lemma pos_of_next (h : lx.next = (.ok (some t), lx')) : 0 < lx'.pos := by
  obtain ⟨c, cs, w, -, -, htaken, -, rfl⟩ := next_ok h
  rw [record_pos]
  simp only [skip, htaken]
  exact Nat.lt_of_lt_of_le (size_cons_pos c w) (Nat.le_add_left _ _)

lemma state_of_identifier (h : lx.next = (.ok (some t), lx')) (ht : t.kind = .identifier) :
    lx'.afterOperand = true ∧ lx'.depth = lx.depth ∧ lx'.resume = lx.resume := by
  obtain ⟨c, cs, w, -, hscan, -, -, rfl⟩ := next_ok h
  have hbegins : beginsName c = true := beginsName_of_identifier (ht ▸ hscan)
  have hres : lx.resumes c = false := by
    simp [resumes, ne_of_beginsName hbegins (show beginsName '\x7d' = false by decide)]
  have hrecord (lo : Lexer) : lo.record t = { lo with afterOperand := true } := by
    simp [Lexer.record, Token.isTrivia, TokenKind.isTrivia, Token.endsOperand, ht]
  rw [hrecord]
  exact ⟨rfl, rfl, skip_resume hres (lx.scan c cs)⟩

lemma text_ne_nil (h : lx.next = (.ok (some t), lx')) : t.text.toList ≠ [] := by
  obtain ⟨c, cs, w, -, -, -, htext, -⟩ := next_ok h
  rw [htext]
  exact List.cons_ne_nil c w

/-- **Before the name** the same tokens are read, if a name begins in its place. -/
theorem reads_before {front : List Token} (h : lx.run = (front ++ ts, none)) (halike : Alike lx lo)
    (hop : lo.afterOperand = lx.afterOperand)
    (hlx : Lexeme.spelled (ts.map Token.lexeme) = c :: r)
    (hlo : lo.rest = Lexeme.spelled (front.map Token.lexeme) ++ c' :: r')
    (hc : beginsName c = true) (hc' : beginsName c' = true)
    (hlast : ∀ u, front.getLast? = some u → u.isTrivia = true ∨ u.kind = .punctuator) :
    ∃ lx' lo', lx'.run = (ts, none) ∧ Alike lx' lo' ∧ lo'.afterOperand = lx'.afterOperand ∧
      lo'.rest = c' :: r' ∧
      ∀ ls, lo'.Reads ls → lo.Reads (front.map Token.lexeme ++ ls) := by
  induction front generalizing lx lo with
  | nil => exact ⟨lx, lo, h, halike, hop, hlo, fun _ h => h⟩
  | cons t front ih =>
    obtain ⟨lx', hnext, hrun⟩ := run_ok_cons h
    replace hrun : lx'.run = (front ++ ts, none) := hrun
    have hspelled := spelled_of_run hrun
    rw [List.map_append, Lexeme.spelled_append, hlx] at hspelled
    have hlx' := spelled_of_run h
    rw [List.cons_append, List.map_cons, Lexeme.spelled_cons, ← spelled_of_run hrun,
      hspelled] at hlx'
    have hapart := apart_of_run h
    simp only [List.cons_append, List.map_cons, Lexeme.apart, Bool.and_eq_true, Bool.not_eq_true',
      ← spelled_of_run hrun, hspelled] at hapart
    rw [List.map_cons, Lexeme.spelled_cons, List.append_assoc] at hlo
    have hnear (hnil : Lexeme.spelled (front.map Token.lexeme) = []) :
        t.kind.isTrivia = true ∨ t.kind = .punctuator := by
      cases front with
      | nil => exact hlast t rfl
      | cons u front =>
        obtain ⟨lx'', hnext', -⟩ := run_ok_cons hrun
        rw [List.map_cons, Lexeme.spelled_cons, List.append_eq_nil_iff] at hnil
        exact absurd hnil.1 (text_ne_nil hnext')
    have hsame : SameNext (Lexeme.spelled (front.map Token.lexeme) ++ c :: r).head?
        (Lexeme.spelled (front.map Token.lexeme) ++ c' :: r').head? := by
      cases Lexeme.spelled (front.map Token.lexeme) with
      | nil => exact .inr ⟨c, c', rfl, rfl, hc, hc'⟩
      | cons d ds => exact .inl rfl
    obtain ⟨lo₁, hnext₁, hrest₁, halike₁, -, hop₁⟩ :=
      next_exchange hnext halike (fun _ _ => hop) hlx'
      hlo hsame (runsOn_exchange hc hc' hnear hapart.1)
    obtain ⟨lx₂, lo₂, hrun₂, halike₂, hop₂, hrest₂, hreads⟩ := ih hrun halike₁ (hop₁ (.inr hop))
      hrest₁ fun u hu => hlast u (by
        rw [List.getLast?_cons, hu]
        rfl)
    exact ⟨lx₂, lo₂, hrun₂, halike₂, hop₂, hrest₂, fun ls hls =>
      (hreads ls hls).cons (t := ⟨t.kind, t.text, lo.pos⟩) hnext₁⟩

variable {front back : List Token}

lemma exists_run_behind (h : lx.run = (front ++ t :: back, none)) :
    ∃ lx' lx'' : Lexer, lx'.next = (.ok (some t), lx'') ∧ lx''.run = (back, none) := by
  induction front generalizing lx with
  | nil =>
    obtain ⟨lx', hnext, hrun⟩ := run_ok_cons h
    exact ⟨lx, lx', hnext, hrun⟩
  | cons u front ih =>
    obtain ⟨lx', -, hrun⟩ := run_ok_cons h
    exact ih hrun

/-- A punctuator that begins with a slash stands behind an operand. -/
lemma afterOperand_of_slashNext (h : lx.run = (ts, none)) (hslash : slashNext ts = true)
    (hpunct : ∀ u ∈ ts.find? (fun t => !t.isTrivia), u.kind = .punctuator) :
    lx.afterOperand = true := by
  induction ts generalizing lx with
  | nil => cases hslash
  | cons t ts ih =>
    obtain ⟨lx', hnext, hrun⟩ := run_ok_cons h
    rw [slashNext_cons] at hslash
    cases ht : t.isTrivia with
    | true =>
      rw [ht, if_pos rfl] at hslash
      rw [← (sameState_of_trivia hnext ht).afterOperand]
      exact ih hrun hslash (by simpa [ht] using hpunct)
    | false =>
      have hhead : t.text.toList.head? = some '/' := by simpa [ht] using hslash
      have hkind : t.kind = .punctuator := hpunct t (by simp [ht])
      obtain ⟨c, cs, w, -, hscan, htaken, htext, -⟩ := next_ok hnext
      obtain rfl : c = '/' := by simpa [htext] using hhead
      rcases slash_cases hscan with ⟨⟨k, hk⟩, -⟩ | ⟨hk, -⟩ | ⟨-, hop⟩
      · rw [hkind] at hk
        cases hk
      · rw [hkind] at hk
        cases hk
      · exact hop

lemma punctuator_of_slashNext (h : lx.run = (ts, none)) (hslash : slashNext ts = true)
    (hop : lx.afterOperand = true) :
    ∀ u ∈ ts.find? (fun t => !t.isTrivia), u.kind = .punctuator := by
  induction ts generalizing lx with
  | nil => exact nofun
  | cons t ts ih =>
    obtain ⟨lx', hnext, hrun⟩ := run_ok_cons h
    rw [slashNext_cons] at hslash
    cases ht : t.isTrivia with
    | true =>
      rw [ht, if_pos rfl] at hslash
      rw [List.find?_cons_of_neg (by simp [ht])]
      exact ih hrun hslash ((sameState_of_trivia hnext ht).afterOperand.trans hop)
    | false =>
      rw [List.find?_cons_of_pos (by simp [ht])]
      rintro u ⟨⟩
      have hhead : t.text.toList.head? = some '/' := by simpa [ht] using hslash
      obtain ⟨c, cs, w, -, hscan, htaken, htext, -⟩ := next_ok hnext
      obtain rfl : c = '/' := by simpa [htext] using hhead
      rcases slash_cases hscan with ⟨⟨k, hk⟩, -⟩ | ⟨-, hop'⟩ | ⟨hk, -⟩
      · simp [Token.isTrivia, TokenKind.isTrivia, hk] at ht
      · rw [hop] at hop'
        cases hop'
      · exact hk

end Lexer

open Lexer Scan

/-- The script with another word in the place of one of its tokens. -/
def exchanged (front : List Token) (w : String) (back : List Token) : String :=
  String.join (front.map Token.text) ++ w ++ String.join (back.map Token.text)

/-- The word is a keyword that is no operand, and a slash comes next. -/
def takesSlash (w : String) (back : List Token) : Bool :=
  slashNext back && !(⟨wordKind w, w, 0⟩ : Token).endsOperand

lemma toList_join_text (ts : List Token) :
    (String.join (ts.map Token.text)).toList = Lexeme.spelled (ts.map Token.lexeme) := by
  induction ts with
  | nil => rfl
  | cons t ts ih =>
    rw [List.map_cons, String.join_cons, String.toList_append, ih]
    rfl

lemma toList_exchanged (front : List Token) (w : String) (back : List Token) :
    (exchanged front w back).toList = Lexeme.spelled (front.map Token.lexeme)
      ++ (w.toList ++ Lexeme.spelled (back.map Token.lexeme)) := by
  rw [exchanged, String.toList_append, String.toList_append, toList_join_text, toList_join_text,
    List.append_assoc]

lemma find?_lexeme (ts : List Token) : (ts.find? fun t => !t.isTrivia).map Token.lexeme
    = (ts.map Token.lexeme).find? fun l => !l.kind.isTrivia := by
  rw [List.find?_map]
  rfl

lemma slashNext_congr {ts ts' : List Token} (h : ts.map Token.lexeme = ts'.map Token.lexeme) :
    slashNext ts = slashNext ts' := by
  have hany (ts : List Token) : slashNext ts = ((ts.map Token.lexeme).find? fun l =>
      !l.kind.isTrivia).any fun l => l.text.toList.head? == some '/' := by
    rw [← find?_lexeme, Option.any_map]
    rfl
  rw [hany, hany, h]

section

variable {source w : String} {front back : List Token} {t : Token}

/-- Where the word takes a slash for the beginning of a regular expression, another token is read.
-/
lemma not_takesSlash (h : tokenize source = .ok (front ++ t :: back)) (ht : t.kind = .identifier)
    {ts : List Token} (hts : tokenize (exchanged front w back) = .ok ts)
    (hlexemes : ts.map Token.lexeme
      = front.map Token.lexeme ++ ⟨wordKind w, w⟩ :: back.map Token.lexeme) :
    takesSlash w back = false := by
  obtain ⟨front', rest, rfl, -, hrest⟩ := List.map_eq_append_iff.mp hlexemes
  obtain ⟨t', back', rfl, ht', hback'⟩ := List.map_eq_cons_iff.mp hrest
  have hrun : (Lexer.ofString source).run = (front ++ t :: back, none) := tokenize_eq_ok h
  have hrun' : (Lexer.ofString (exchanged front w back)).run = (front' ++ t' :: back', none) :=
    tokenize_eq_ok hts
  obtain ⟨lx, lb, hnext, hrunb⟩ := exists_run_behind hrun
  obtain ⟨lx', lb', hnext', hrunb'⟩ := exists_run_behind hrun'
  rw [takesSlash, Bool.and_eq_false_imp]
  intro hslash
  have hkind : t'.kind = wordKind w := congrArg Lexeme.kind ht'
  have htext : t'.text = w := congrArg Lexeme.text ht'
  have htrivia : t'.isTrivia = false := by
    rw [Token.isTrivia, hkind, wordKind]
    cases Keyword.ofWord? w <;> rfl
  have hop : lb'.afterOperand = true := by
    refine afterOperand_of_slashNext hrunb' ((slashNext_congr hback').trans hslash) fun u hu => ?_
    have hfind := find?_lexeme back'
    rw [hback', ← find?_lexeme, hu, Option.map_some, eq_comm, Option.map_eq_some_iff] at hfind
    obtain ⟨v, hv, hlexeme⟩ := hfind
    have hpunct := punctuator_of_slashNext hrunb hslash (state_of_identifier hnext ht).1 v hv
    exact (congrArg Lexeme.kind hlexeme).symm.trans hpunct
  rw [afterOperand_of_next hnext' htrivia] at hop
  obtain ⟨kind, text, start⟩ := t'
  obtain rfl : kind = wordKind w := hkind
  obtain rfl : text = w := htext
  rw [Bool.not_eq_false']
  exact hop

lemma reads_exchanged (h : tokenize source = .ok (front ++ t :: back)) (ht : t.kind = .identifier)
    (hlast : ∀ u, front.getLast? = some u → u.isTrivia = true ∨ u.kind = .punctuator)
    (hw : IsPlainWord w) (hslash : takesSlash w back = false) :
    (Lexer.ofString (exchanged front w back)).Reads
      (front.map Token.lexeme ++ ⟨wordKind w, w⟩ :: back.map Token.lexeme) := by
  have hrun : (Lexer.ofString source).run = (front ++ t :: back, none) := tokenize_eq_ok h
  obtain ⟨c, r, hlx, hc⟩ : ∃ c r, Lexeme.spelled ((t :: back).map Token.lexeme) = c :: r ∧
      beginsName c = true := by
    obtain ⟨lx, lb, hnext, -⟩ := exists_run_behind hrun
    obtain ⟨c, cs, w, -, hscan, -, htext, -⟩ := next_ok hnext
    refine ⟨c, w ++ Lexeme.spelled (back.map Token.lexeme), ?_,
      beginsName_of_identifier (ht ▸ hscan)⟩
    rw [List.map_cons, Lexeme.spelled_cons]
    exact congrArg (· ++ _) htext
  obtain ⟨c', w', hcons⟩ : ∃ c' w', w.toList = c' :: w' := by
    cases hlist : w.toList with
    | nil => simpa [hlist] using hw.begins
    | cons c' w' => exact ⟨c', w', rfl⟩
  have hc' : beginsName c' = true := by simpa [hcons] using hw.begins
  have hlo : (Lexer.ofString (exchanged front w back)).rest
      = Lexeme.spelled (front.map Token.lexeme) ++ c' ::
        (w' ++ Lexeme.spelled (back.map Token.lexeme)) := by
    rw [← List.cons_append, ← hcons]
    exact toList_exchanged front w back
  have halike₀ : Alike (Lexer.ofString source) (Lexer.ofString (exchanged front w back)) :=
    ⟨Iff.rfl, rfl, rfl⟩
  obtain ⟨lx, lo, hrun₁, halike, -, hrest, hreads⟩ :=
    reads_before hrun halike₀ rfl hlx hlo hc hc' hlast
  refine hreads _ ?_
  obtain ⟨lx', hnext, hback⟩ := run_ok_cons hrun₁
  obtain ⟨hop, hdepth, hresume⟩ := state_of_identifier hnext ht
  have hstop : (Lexeme.spelled (back.map Token.lexeme)).head?.any
      (fun c => isNamePart c || c = '\\') = false := by
    have hapart := apart_of_run hrun₁
    rw [List.map_cons, Lexeme.apart, Bool.and_eq_true, Bool.not_eq_true'] at hapart
    have hgoes : runsOn t.kind t.text.toList (Lexeme.spelled (back.map Token.lexeme)) = false :=
      hapart.1
    rwa [ht] at hgoes
  rw [← List.cons_append, ← hcons] at hrest
  obtain ⟨lo', hword, hrest', hpos, hdepth', hresume'⟩ := next_word hw hrest hstop
  refine Reads.cons (t := ⟨wordKind w, w, lo.pos⟩) (reads_behind hback ⟨?_, ?_, ?_⟩ ?_ ?_) hword
  · exact iff_of_false hpos.ne' (pos_of_next hnext).ne'
  · rw [hdepth', hdepth, halike.depth]
  · rw [hresume', hresume, halike.resume]
  · rw [hrest', spelled_of_run hback]
  · intro hnext'
    rw [takesSlash, hnext', Bool.true_and, Bool.not_eq_false'] at hslash
    have htrivia : (⟨wordKind w, w, lo.pos⟩ : Token).isTrivia = false := by
      rw [Token.isTrivia, wordKind]
      cases Keyword.ofWord? w <;> rfl
    rw [afterOperand_of_next hword htrivia, hop]
    exact hslash

/-- **A word in the place of a name** leaves the other tokens as they are, just when no slash comes
next that the word would take for the beginning of a regular expression. -/
theorem exchange_iff (h : tokenize source = .ok (front ++ t :: back)) (ht : t.kind = .identifier)
    (hlast : ∀ u, front.getLast? = some u → u.isTrivia = true ∨ u.kind = .punctuator)
    (hw : IsPlainWord w) :
    (∃ ts, tokenize (exchanged front w back) = .ok ts ∧ ts.map Token.lexeme
        = front.map Token.lexeme ++ ⟨wordKind w, w⟩ :: back.map Token.lexeme)
      ↔ takesSlash w back = false := by
  refine ⟨fun ⟨ts, hts, hlexemes⟩ => not_takesSlash h ht hts hlexemes, fun hslash => ?_⟩
  obtain ⟨ts, hrun, hts⟩ := reads_exchanged h ht hlast hw hslash
  exact ⟨ts, tokenize_of_run hrun, hts⟩

end

end Minify
