import Mathlib
import Minify.Proofs.NumberTexts
import Minify.Token.Lexer

/-!
Where a token ends.

A token is the longest there is: the text after it does not go on with it. And it is read as the
same token wherever the text after it does not go on with it, if the tokens before left the lexer in
the same state. So what comes after a token says alone whether it is read back.
-/

namespace Minify

open Text

namespace Scan

/-- The text `more` goes on with a token of the kind that reads `taken`, or the token may not stand
in front of it. -/
def runsOn (kind : TokenKind) (taken more : List Char) : Bool :=
  match kind with
  | .identifier | .keyword _ => more.head?.any fun c => isNamePart c || c = '\\'
  | .regex => more.head?.any isNamePart
  | .number => numberGoesOn taken more
  | .punctuator =>
    punctuator? (taken ++ more) != some taken
      || (taken == ['/'] && more.head?.any fun c => c = '/' || c = '*')
      || (taken == ['.'] && more.head?.any Char.isDigit)
  | .blank | .lineBreak => more.head?.any fun c => isLineEnd c || isBlank c
  | .comment .line => more.head?.any fun c => !isLineEnd c
  | .comment _ | .string | .template _ => false

variable {c d : Char} {cs : List Char} {kind : TokenKind}

lemma head_of_slash {more : List Char} (h : runsOn .punctuator ['/'] more = false) :
    (more.head? == some '/') = false ∧ (more.head? == some '*') = false := by
  simp only [runsOn, Bool.or_eq_false_iff] at h
  cases hm : more.head? <;> simp_all

lemma head_of_point {more : List Char} (h : runsOn .punctuator ['.'] more = false) :
    more.head?.any Char.isDigit = false := by
  simp only [runsOn, Bool.or_eq_false_iff] at h
  simpa using h.2

/-! ### The scanners one by one -/

lemma head_dropWhile (p : Char → Bool) (cs : List Char) :
    (cs.dropWhile p).head?.any p = false := by
  have hhead := List.head?_dropWhile_not p cs
  cases h : (cs.dropWhile p).head? with
  | none => rfl
  | some c => rwa [h] at hhead

lemma blanks_stable (h : (blanks cs).result = .ok kind) :
    (kind = .blank ∨ kind = .lineBreak) ∧ Stable blanks (runsOn kind) (blanks cs) kind := by
  have hall : ∀ c ∈ (blanks cs).taken, (isLineEnd c || isBlank c) = true :=
    fun c hc => List.mem_takeWhile_imp (p := fun c => isLineEnd c || isBlank c) hc
  have hkind : kind = if (blanks cs).taken.any isLineEnd then .lineBreak else .blank := by
    cases h
    rfl
  have hgoes (taken more : List Char) :
      runsOn kind taken more = more.head?.any fun c => isLineEnd c || isBlank c := by
    rw [hkind]
    split <;> rfl
  refine ⟨?_, ?_, fun more hm => ?_⟩
  · rw [hkind]
    split <;> simp
  · rw [hgoes]
    exact head_dropWhile _ cs
  · rw [hgoes] at hm
    obtain ⟨htake, hdrop⟩ := takeWhile_append_of_stop hall hm
    rw [blanks, htake, hdrop, hkind]

lemma lineComment_stable (h : (lineComment (c :: d :: cs)).result = .ok kind) :
    kind = .comment .line ∧
      Stable lineComment (runsOn kind) (lineComment (c :: d :: cs)) kind := by
  cases h
  refine ⟨rfl, head_dropWhile _ cs, fun more hm => ?_⟩
  have hall : ∀ c ∈ cs.takeWhile (fun c => !isLineEnd c), (!isLineEnd c) = true :=
    fun c hc => List.mem_takeWhile_imp (p := fun c => !isLineEnd c) hc
  obtain ⟨htake, hdrop⟩ := takeWhile_append_of_stop hall hm
  change lineComment (c :: d :: (cs.takeWhile (fun c => !isLineEnd c) ++ more)) = _
  simp only [lineComment, List.take_succ_cons, List.take_zero, List.drop_succ_cons, List.drop_zero,
    htake, hdrop]

lemma blockComment_stable (h : (blockComment (c :: d :: cs)).result = .ok kind) :
    (∃ k, kind = .comment k ∧ k ≠ .line) ∧
      Stable blockComment (runsOn kind) (blockComment (c :: d :: cs)) kind := by
  have hclosed : (commentBody cs).closed = true := by
    by_contra hopen
    simp [blockComment, Body.after, hopen] at h
  have hresult : (blockComment (c :: d :: cs)).result
      = .ok (.comment (commentKind ([c, d] ++ (commentBody cs).taken))) := by
    simp [blockComment, Body.after, hclosed]
  rw [hresult] at h
  cases h
  have hline : commentKind ([c, d] ++ (commentBody cs).taken) ≠ .line := by
    unfold commentKind
    split <;> simp
  have hgoes (taken more : List Char) :
      runsOn (.comment (commentKind ([c, d] ++ (commentBody cs).taken))) taken more = false := by
    cases hk : commentKind ([c, d] ++ (commentBody cs).taken) with
    | line => exact absurd hk hline
    | block => rfl
    | conditional => rfl
  refine ⟨⟨_, rfl, hline⟩, hgoes _ _, fun more _ => ?_⟩
  have hlocal := commentBody_local hclosed more
  change blockComment (c :: d :: ((commentBody cs).taken ++ more)) = _
  simp [blockComment, Body.after, hlocal]

lemma nameTail_stop (h : (nameTail cs).broken = none) :
    (nameTail cs).rest.head?.any (fun c => isNamePart c || c = '\\') = false := by
  fun_induction nameTail cs with
  | case1 => rfl
  | case2 cs e he ih => exact ih h
  | case3 cs e he => cases h
  | case4 c cs hc hn ih => exact ih h
  | case5 c cs hc hn => simp [hc, hn]

lemma nameTail_of_stop (h : cs.head?.any (fun c => isNamePart c || c = '\\') = false) :
    nameTail cs = ⟨[], none, cs⟩ := by
  cases cs with
  | nil => rw [nameTail]
  | cons c cs =>
    have hc : isNamePart c = false ∧ c ≠ '\\' := by simpa using h
    rw [nameTail, if_neg hc.2, if_neg (by simp [hc.1])]

lemma name_stable (h : (name cs).result = .ok kind) :
    (kind = .identifier ∨ ∃ k, kind = .keyword k) ∧
      Stable name (runsOn kind) (name cs) kind := by
  have hbroken : (nameTail cs).broken = none := by
    cases hb : (nameTail cs).broken with
    | none => rfl
    | some part => simp [name, hb] at h
  have hname : name cs = ⟨(nameTail cs).name, (nameTail cs).rest,
      .ok (((Keyword.ofWord? (String.ofList (nameTail cs).name)).map TokenKind.keyword).getD
        .identifier)⟩ := by
    simp [name, hbroken]
  rw [hname] at h ⊢
  have hkind : kind = .identifier ∨ ∃ k, kind = .keyword k := by
    cases h
    cases Keyword.ofWord? (String.ofList (nameTail cs).name) with
    | none => exact Or.inl rfl
    | some k => exact Or.inr ⟨k, rfl⟩
  have hgoes (taken more : List Char) :
      runsOn kind taken more = more.head?.any fun c => isNamePart c || c = '\\' := by
    rcases hkind with rfl | ⟨k, rfl⟩ <;> rfl
  refine ⟨hkind, ?_, fun more hm => ?_⟩
  · rw [hgoes]
    exact nameTail_stop hbroken
  · rw [hgoes] at hm
    have hlocal := nameTail_local cs more
    rw [nameTail_of_stop hm] at hlocal
    simp only [name, hlocal, NameReading.after, List.append_nil]
    rw [← h]

lemma number_stable (h : (number cs).result = .ok kind) :
    kind = .number ∧ Stable number (runsOn kind) (number cs) kind := by
  obtain ⟨rfl, hstop, hagain⟩ := number_ok h
  exact ⟨rfl, hstop, hagain⟩

lemma string_stable {quote : Char} (hq : quote ≠ '\\')
    (h : (string quote (c :: cs)).result = .ok kind) :
    kind = .string ∧ Stable (string quote) (runsOn kind) (string quote (c :: cs)) kind := by
  have hclosed : (stringBody quote cs).closed = true := by
    by_contra hopen
    simp [string, Body.after, hopen] at h
  have hkind : kind = .string := by
    simpa [string, Body.after, hclosed, eq_comm] using h
  subst hkind
  refine ⟨rfl, rfl, fun more _ => ?_⟩
  have hlocal := stringBody_local hq hclosed more
  change string quote (c :: ((stringBody quote cs).taken ++ more)) = _
  simp [string, Body.after, hlocal]

lemma template_stable {first : Bool} (h : (template first (c :: cs)).result = .ok kind) :
    (∃ part, kind = .template part) ∧
      Stable (template first) (runsOn kind) (template first (c :: cs)) kind := by
  have hclosed : (templateBody cs).closed = true := by
    by_contra hopen
    simp [template, TemplateBody.after, hopen] at h
  obtain ⟨part, rfl⟩ : ∃ part, kind = .template part := by
    simp only [template, TemplateBody.after, List.drop_succ_cons, List.drop_zero, hclosed,
      if_true] at h
    cases h
    exact ⟨_, rfl⟩
  refine ⟨⟨part, rfl⟩, rfl, fun more _ => ?_⟩
  have hlocal := templateBody_local hclosed more
  change template first (c :: ((templateBody cs).taken ++ more)) = _
  simp only [template, TemplateBody.after, List.drop_succ_cons, List.drop_zero, List.take_succ_cons,
    List.take_zero, hlocal]
  simp only [template, TemplateBody.after, List.drop_succ_cons, List.drop_zero, hclosed] at h
  rw [h]

lemma regexBody_ne_nil {inClass : Bool} (h : (regexBody inClass cs).closed = true) :
    (regexBody inClass cs).taken ≠ [] := by
  fun_induction regexBody inClass cs <;> simp_all [Body.after]

lemma regex_closed (h : (regex (c :: cs)).result = .ok kind) :
    (regexBody false cs).closed = true := by
  by_contra hopen
  simp [regex, Body.after, hopen] at h

lemma regex_stable (h : (regex (c :: cs)).result = .ok kind) :
    kind = .regex ∧ Stable regex (runsOn kind) (regex (c :: cs)) kind := by
  have hclosed := regex_closed h
  have hregex : regex (c :: cs) =
      ⟨c :: (regexBody false cs).taken ++ (regexBody false cs).rest.takeWhile isNamePart,
        (regexBody false cs).rest.dropWhile isNamePart, .ok .regex⟩ := by
    simp [regex, Body.after, hclosed]
  rw [hregex] at h ⊢
  cases h
  refine ⟨rfl, head_dropWhile _ _, fun more hm => ?_⟩
  have hlocal := regexBody_local hclosed
    ((regexBody false cs).rest.takeWhile isNamePart ++ more)
  have hflags : ∀ c ∈ (regexBody false cs).rest.takeWhile isNamePart, isNamePart c = true :=
    fun c hc => List.mem_takeWhile_imp hc
  obtain ⟨htake, hdrop⟩ := takeWhile_append_of_stop hflags hm
  have htext : c :: (regexBody false cs).taken ++ (regexBody false cs).rest.takeWhile isNamePart
        ++ more
      = c :: ((regexBody false cs).taken
          ++ ((regexBody false cs).rest.takeWhile isNamePart ++ more)) := by simp
  dsimp only
  rw [htext]
  simp [regex, Body.after, hlocal, htake, hdrop]

lemma punctuator_stable (hslash : c = '/' → cs.head?.any (fun c => c = '/' || c = '*') = false)
    (hpoint : c = '.' → cs.head?.any Char.isDigit = false)
    (h : (punctuator (c :: cs)).result = .ok kind) :
    kind = .punctuator ∧ Stable punctuator (runsOn kind) (punctuator (c :: cs)) kind := by
  obtain ⟨p, hp⟩ : ∃ p, punctuator? (c :: cs) = some p := by
    cases hp : punctuator? (c :: cs) with
    | none => simp [punctuator, hp] at h
    | some p => exact ⟨p, rfl⟩
  have hread : punctuator (c :: cs) = ⟨p, (c :: cs).drop p.length, .ok .punctuator⟩ := by
    simp [punctuator, hp]
  rw [hread] at h ⊢
  cases h
  have happ : p ++ (c :: cs).drop p.length = c :: cs :=
    prefix_append_drop (punctuator?_isPrefix hp).2
  refine ⟨rfl, ?_, fun more hm => ?_⟩
  · have hone {d : Char} (hd : p = [d]) : c = d ∧ (c :: cs).drop p.length = cs := by
      subst hd
      simp only [List.singleton_append, List.length_singleton, List.drop_succ_cons,
        List.drop_zero, and_true] at happ ⊢
      exact (List.cons_eq_cons.mp happ).1.symm
    simp only [runsOn, happ, hp, bne_self_eq_false, Bool.false_or, Bool.or_eq_false_iff,
      Bool.and_eq_false_imp, beq_iff_eq]
    refine ⟨fun hd => ?_, fun hd => ?_⟩
    · obtain ⟨hc, hrest⟩ := hone hd
      rw [hrest]
      exact hslash hc
    · obtain ⟨hc, hrest⟩ := hone hd
      rw [hrest]
      exact hpoint hc
  · have hagain : punctuator? (p ++ more) = some p := by
      simp only [runsOn, Bool.or_eq_false_iff, bne_eq_false_iff_eq] at hm
      exact hm.1.1
    simp [punctuator, hagain]

end Scan

namespace Lexer

open Scan

variable {lx lo : Lexer} {c : Char} {cs : List Char} {kind : TokenKind}

def isGap (kind : TokenKind) : Bool := kind == .blank || kind == .lineBreak

/-- The scanner for a token that starts with `c`, with `next` after it. -/
def scannerOf (lx : Lexer) (c : Char) (next : Option Char) : List Char → Reading :=
  if isLineEnd c || isBlank c then blanks
  else if c = '#' && lx.pos = 0 && next == some '!' then lineComment
  else if c = '/' && next == some '/' then lineComment
  else if c = '/' && next == some '*' then blockComment
  else if isNameStart c || c = '\\' then name
  else if c.isDigit || (c = '.' && next.any Char.isDigit) then number
  else if c = '"' || c = '\'' then string c
  else if c = '\x60' then template true
  else if lx.resumes c then template false
  else if c = '/' && !lx.afterOperand then regex
  else punctuator

lemma scan_eq (lx : Lexer) (c : Char) (cs : List Char) :
    lx.scan c cs = lx.scannerOf c cs.head? (c :: cs) := by
  simp only [scan, scannerOf, ite_apply]

/-- What a guard on the next character says of the text. -/
lemma exists_cons_of_head? {d : Char} (h : (cs.head? == some d) = true) : ∃ ds, cs = d :: ds :=
  List.head?_eq_some_iff.mp (by simpa using h)

/-- Which scanner reads a token that starts with `c`, in front of `cs`, and what tells it. -/
inductive ScannerCase (lx : Lexer) (c : Char) (cs : List Char) : (List Char → Reading) → Prop
  | blanks (hblank : (isLineEnd c || isBlank c) = true) : ScannerCase lx c cs blanks
  | hashbang {ds : List Char} (hblank : (isLineEnd c || isBlank c) = false) (hc : c = '#')
      (hcs : cs = '!' :: ds) : ScannerCase lx c cs lineComment
  | lineComment {ds : List Char} (hblank : (isLineEnd c || isBlank c) = false) (hc : c = '/')
      (hcs : cs = '/' :: ds) : ScannerCase lx c cs lineComment
  | blockComment {ds : List Char} (hblank : (isLineEnd c || isBlank c) = false) (hc : c = '/')
      (hcs : cs = '*' :: ds) : ScannerCase lx c cs blockComment
  | name (hblank : (isLineEnd c || isBlank c) = false)
      (hstart : (isNameStart c || c = '\\') = true) : ScannerCase lx c cs name
  | number (hblank : (isLineEnd c || isBlank c) = false) : ScannerCase lx c cs number
  | string (hblank : (isLineEnd c || isBlank c) = false) (hescape : c ≠ '\\') :
      ScannerCase lx c cs (string c)
  | template (hblank : (isLineEnd c || isBlank c) = false) : ScannerCase lx c cs (template true)
  | resumed (hblank : (isLineEnd c || isBlank c) = false) (hres : lx.resumes c = true) :
      ScannerCase lx c cs (template false)
  | regex (hblank : (isLineEnd c || isBlank c) = false) : ScannerCase lx c cs regex
  | punctuator (hblank : (isLineEnd c || isBlank c) = false)
      (hslash : c = '/' → cs.head?.any (fun c => c = '/' || c = '*') = false)
      (hpoint : c = '.' → cs.head?.any Char.isDigit = false) : ScannerCase lx c cs punctuator

lemma scanner_cases (lx : Lexer) (c : Char) (cs : List Char) :
    ScannerCase lx c cs (lx.scannerOf c cs.head?) := by
  unfold scannerOf
  split
  · exact .blanks ‹_›
  rename_i hblank
  rw [Bool.not_eq_true] at hblank
  split
  · rename_i hhash
    simp only [Bool.and_eq_true, decide_eq_true_eq] at hhash
    obtain ⟨ds, hcs⟩ := exists_cons_of_head? hhash.2
    exact .hashbang hblank hhash.1.1 hcs
  split
  · rename_i hslash
    simp only [Bool.and_eq_true, decide_eq_true_eq] at hslash
    obtain ⟨ds, hcs⟩ := exists_cons_of_head? hslash.2
    exact .lineComment hblank hslash.1 hcs
  rename_i hline
  split
  · rename_i hstar
    simp only [Bool.and_eq_true, decide_eq_true_eq] at hstar
    obtain ⟨ds, hcs⟩ := exists_cons_of_head? hstar.2
    exact .blockComment hblank hstar.1 hcs
  rename_i hblock
  split
  · exact .name hblank ‹_›
  split
  · exact .number hblank
  rename_i hnumber
  split
  · rename_i hquote
    refine .string hblank ?_
    rintro rfl
    exact absurd hquote (by decide)
  split
  · exact .template hblank
  split
  · exact .resumed hblank ‹_›
  split
  · exact .regex hblank
  · refine .punctuator hblank (fun hc => ?_) fun hc => ?_
    · subst hc
      cases hd : cs.head? with
      | none => rfl
      | some d => simp_all
    · subst hc
      simp_all

/-- **A token is the longest there is**, and it is read again where the text after it does not go on
with it. Blanks and line ends are told by their first character. -/
lemma scan_ok (h : (lx.scan c cs).result = .ok kind) :
    isGap kind = (isLineEnd c || isBlank c) ∧
      Stable (lx.scannerOf c cs.head?) (runsOn kind) (lx.scan c cs) kind := by
  rw [scan_eq] at h ⊢
  have hcases := scanner_cases lx c cs
  generalize lx.scannerOf c cs.head? = f at hcases h ⊢
  cases hcases with
  | blanks hblank =>
    obtain ⟨hkind, hstable⟩ := blanks_stable h
    refine ⟨?_, hstable⟩
    rw [hblank]
    rcases hkind with rfl | rfl <;> rfl
  | hashbang hblank hc hcs =>
    subst hcs
    obtain ⟨rfl, hstable⟩ := lineComment_stable h
    exact ⟨hblank.symm, hstable⟩
  | lineComment hblank hc hcs =>
    subst hcs
    obtain ⟨rfl, hstable⟩ := lineComment_stable h
    exact ⟨hblank.symm, hstable⟩
  | blockComment hblank hc hcs =>
    subst hcs
    obtain ⟨⟨k, rfl, -⟩, hstable⟩ := blockComment_stable h
    exact ⟨hblank.symm, hstable⟩
  | name hblank =>
    obtain ⟨rfl | ⟨k, rfl⟩, hstable⟩ := name_stable h <;> exact ⟨hblank.symm, hstable⟩
  | number hblank =>
    obtain ⟨rfl, hstable⟩ := number_stable h
    exact ⟨hblank.symm, hstable⟩
  | string hblank hescape =>
    obtain ⟨rfl, hstable⟩ := string_stable hescape h
    exact ⟨hblank.symm, hstable⟩
  | template hblank =>
    obtain ⟨⟨part, rfl⟩, hstable⟩ := template_stable h
    exact ⟨hblank.symm, hstable⟩
  | resumed hblank =>
    obtain ⟨⟨part, rfl⟩, hstable⟩ := template_stable h
    exact ⟨hblank.symm, hstable⟩
  | regex hblank =>
    obtain ⟨rfl, hstable⟩ := regex_stable h
    exact ⟨hblank.symm, hstable⟩
  | punctuator hblank hslash hpoint =>
    obtain ⟨rfl, hstable⟩ := punctuator_stable hslash hpoint h
    exact ⟨hblank.symm, hstable⟩

lemma scan_of_resumes (h : lx.resumes c = true) : lx.scan c cs = template false (c :: cs) := by
  obtain ⟨rfl, -⟩ : c = '\x7d' ∧ _ := by simpa [resumes] using h
  rw [scan_eq]
  unfold scannerOf
  rw [if_neg (by decide), if_neg (by simp), if_neg (by simp), if_neg (by simp),
    if_neg (by decide), if_neg (by simp [show ('\x7d').isDigit = false from rfl]),
    if_neg (by decide), if_neg (by decide), if_pos h]

lemma scan_semicolon (lx : Lexer) (cs : List Char) :
    lx.scan ';' cs = ⟨[';'], cs, .ok .punctuator⟩ := by
  rw [scan_eq]
  unfold scannerOf
  rw [if_neg (by decide), if_neg (by simp), if_neg (by simp), if_neg (by simp),
    if_neg (by decide), if_neg (by simp [show (';').isDigit = false from rfl]),
    if_neg (by decide), if_neg (by decide), if_neg (by simp [resumes]), if_neg (by simp)]
  rfl

/-! ### Where the lexer reads a token again -/

lemma scannerOf_slash (lx : Lexer) (next : Option Char) : lx.scannerOf '/' next =
    if next == some '/' then lineComment
    else if next == some '*' then blockComment
    else if !lx.afterOperand then regex
    else punctuator := by
  unfold scannerOf
  rw [if_neg (by decide), if_neg (by simp)]
  simp [show isNameStart '/' = false from rfl, resumes]

lemma scannerOf_point (lx : Lexer) (next : Option Char) : lx.scannerOf '.' next =
    if next.any Char.isDigit then number else punctuator := by
  unfold scannerOf
  rw [if_neg (by decide), if_neg (by simp)]
  simp [show isNameStart '.' = false from rfl, resumes]

lemma kind_of_slash (h : (lx.scan '/' cs).result = .ok kind)
    (htaken : (lx.scan '/' cs).taken = ['/']) : kind = .punctuator := by
  rw [scan_eq, scannerOf_slash] at h htaken
  by_cases hline : (cs.head? == some '/') = true
  · obtain ⟨ds, rfl⟩ := exists_cons_of_head? hline
    simp [lineComment] at htaken
  by_cases hblock : (cs.head? == some '*') = true
  · obtain ⟨ds, rfl⟩ := exists_cons_of_head? hblock
    simp [blockComment, Body.after] at htaken
  rw [if_neg hline, if_neg hblock] at h htaken
  by_cases hop : (!lx.afterOperand) = true
  · rw [if_pos hop] at h htaken
    have hclosed := regex_closed h
    have hne := regexBody_ne_nil hclosed
    simp [regex, Body.after, hclosed, hne] at htaken
  · rw [if_neg hop] at h
    exact (punctuator_stable (c := '/') (fun _ => by
      cases hd : cs.head? with
      | none => rfl
      | some d => simp_all) (fun hc => absurd hc (by decide)) h).1

lemma kind_of_point (h : (lx.scan '.' cs).result = .ok kind)
    (htaken : (lx.scan '.' cs).taken = ['.']) : kind = .punctuator := by
  rw [scan_eq, scannerOf_point] at h htaken
  by_cases hd : cs.head?.any Char.isDigit = true
  · rw [if_pos hd] at h htaken
    obtain ⟨d, ds, rfl⟩ : ∃ d ds, cs = d :: ds := by
      cases cs with
      | nil => simp at hd
      | cons d ds => exact ⟨d, ds, rfl⟩
    have hdigit : d.isDigit = true := by simpa using hd
    have hrun : digitRun Char.isDigit false ('.' :: d :: ds) = ([], '.' :: d :: ds) := rfl
    have hnumber : number ('.' :: d :: ds) = decimalNumber ('.' :: d :: ds) :=
      number_decimal fun x rest hcs => absurd (List.cons_eq_cons.mp hcs).1 (by decide)
    rw [hnumber, decimalNumber_point hrun] at h htaken
    obtain ⟨-, -, suffix, htext, -⟩ := numberEnd_ok h
    rw [htaken] at htext
    simp [digitRun, hdigit] at htext
  · rw [if_neg hd] at h
    exact (punctuator_stable (c := '.') (fun hc => absurd hc (by decide))
      (fun _ => by simpa using hd) h).1

lemma scannerOf_hash (lx : Lexer) (next : Option Char) : lx.scannerOf '#' next =
    if lx.pos = 0 && next == some '!' then lineComment else punctuator := by
  unfold scannerOf
  rw [if_neg (by decide)]
  simp [show isNameStart '#' = false from rfl, resumes]

/-- Only these three characters are told apart by what comes next. -/
lemma scannerOf_of_other (hhash : c ≠ '#') (hslash : c ≠ '/') (hpoint : c ≠ '.')
    (hres : lo.resumes c = lx.resumes c) (a b : Option Char) :
    lo.scannerOf c a = lx.scannerOf c b := by
  unfold scannerOf
  simp [hhash, hslash, hpoint, hres]

/-- **A token is read again** by a lexer in the same state, where the text after it does not go on
with it. -/
lemma scan_local (h : (lx.scan c cs).result = .ok kind) (hline : kind ≠ .comment .line)
    {w more : List Char} (htaken : (lx.scan c cs).taken = c :: w)
    (hop : c = '/' → lo.afterOperand = lx.afterOperand) (hres : lo.resumes c = lx.resumes c)
    (hm : runsOn kind (c :: w) more = false)
    (hhash : lo.pos = 0 → c = '#' → (w ++ more).head? ≠ some '!') :
    lo.scan c (w ++ more) = ⟨c :: w, more, .ok kind⟩ := by
  have hstable := (scan_ok h).2
  have happ := (lx.scan_splits c cs).append
  rw [htaken, List.cons_append, List.cons.injEq] at happ
  have hrest := happ.2
  have hstop := hstable.stop
  rw [htaken] at hstop
  suffices hscanner : lo.scannerOf c (w ++ more).head? = lx.scannerOf c cs.head? by
    have hagain := hstable.again more (by rwa [htaken])
    rwa [htaken, List.cons_append, ← hscanner, ← scan_eq] at hagain
  have hhead {d : Char} {ds : List Char} (hw : w = d :: ds) : (w ++ more).head? = cs.head? := by
    rw [← hrest, hw]
    rfl
  by_cases hc : c = '#'
  · subst hc
    rw [scannerOf_hash, scannerOf_hash, if_neg fun hmark => ?_, if_neg fun hmark => ?_]
    · rw [scan_eq, scannerOf_hash, if_pos hmark] at h
      cases h
      exact hline rfl
    · simp only [Bool.and_eq_true, decide_eq_true_eq, beq_iff_eq] at hmark
      exact hhash hmark.1 rfl hmark.2
  by_cases hc : c = '/'
  · subst hc
    rw [scannerOf_slash, scannerOf_slash, hop rfl]
    cases w with
    | nil =>
      -- the slash divides, so neither text after it opens a comment
      obtain rfl := kind_of_slash h htaken
      obtain ⟨hline', hblock'⟩ := head_of_slash hm
      obtain ⟨hline, hblock⟩ := head_of_slash hstop
      rw [List.nil_append] at hrest ⊢
      rw [hrest] at hline hblock
      rw [hline, hblock, hline', hblock']
    | cons d ds => rw [hhead rfl]
  by_cases hc : c = '.'
  · subst hc
    rw [scannerOf_point, scannerOf_point]
    cases w with
    | nil =>
      obtain rfl := kind_of_point h htaken
      rw [List.nil_append] at hrest ⊢
      rw [head_of_point hm, ← hrest, head_of_point hstop]
    | cons d ds => rw [hhead rfl]
  exact scannerOf_of_other ‹_› ‹_› ‹_› hres _ _

end Lexer

end Minify
