import Mathlib
import Minify.Token.Scan

/-!
What a scanner takes does not depend on what follows, as long as the text after it does not go on
with the token.

A body that ends with a mark of its own is read the same in front of any text. A name, a number and
the flags of a regular expression end where the next character is none of theirs.
-/

namespace Minify.Scan

open Text

/-- A text that is not empty begins the same, whatever comes after it. -/
lemma exists_cons_of_append {taken rest cs more : List Char} (hne : taken ≠ [])
    (happ : taken ++ rest = cs) {d : Char} {ds : List Char} (h : taken ++ more = d :: ds) :
    ∃ tail, cs = d :: tail := by
  obtain ⟨e, es, rfl⟩ := List.exists_cons_of_ne_nil hne
  obtain ⟨rfl, -⟩ := List.cons_eq_cons.mp h
  exact ⟨es ++ rest, happ.symm⟩

/-! ### Bodies with a closing mark -/

lemma commentBody_ne_nil {cs : List Char} (h : (commentBody cs).closed = true) :
    (commentBody cs).taken ≠ [] := by
  fun_induction commentBody cs <;> simp_all [Body.after]

lemma commentBody_local {cs : List Char} (h : (commentBody cs).closed = true) (more : List Char) :
    commentBody ((commentBody cs).taken ++ more) = ⟨(commentBody cs).taken, more, true⟩ := by
  fun_induction commentBody cs with
  | case1 cs => rfl
  | case2 c cs hne ih =>
    have hclosed : (commentBody cs).closed = true := h
    change commentBody (c :: ((commentBody cs).taken ++ more)) = _
    rw [commentBody.eq_2, ih hclosed]
    · rfl
    · intro ds hc hds
      obtain ⟨tail, htail⟩ := exists_cons_of_append (commentBody_ne_nil hclosed)
        (commentBody_append cs) hds
      exact hne tail hc htail
  | case3 => cases h

lemma stringBody_ne_nil {quote : Char} {cs : List Char} (h : (stringBody quote cs).closed = true) :
    (stringBody quote cs).taken ≠ [] := by
  fun_induction stringBody quote cs <;> simp_all [Body.after]

lemma stringBody_cons {quote c : Char} (hc : c ≠ '\\') (cs : List Char) :
    stringBody quote (c :: cs) =
      if c = quote then ⟨[c], cs, true⟩
      else if c = '\n' || c = '\r' then ⟨[], c :: cs, false⟩
      else (stringBody quote cs).after [c] :=
  stringBody.eq_4 quote c cs (fun _ h _ => hc h) (fun _ _ h _ => hc h) fun h _ => hc h

lemma stringBody_local {quote : Char} (hq : quote ≠ '\\') {cs : List Char}
    (h : (stringBody quote cs).closed = true) (more : List Char) :
    stringBody quote ((stringBody quote cs).taken ++ more)
      = ⟨(stringBody quote cs).taken, more, true⟩ := by
  fun_induction stringBody quote cs with
  | case1 cs ih =>
    have hclosed : (stringBody quote cs).closed = true := h
    change stringBody quote ('\\' :: '\r' :: '\n' :: ((stringBody quote cs).taken ++ more)) = _
    rw [stringBody.eq_1, ih hclosed]
    rfl
  | case2 c cs hne ih =>
    have hclosed : (stringBody quote cs).closed = true := h
    change stringBody quote ('\\' :: c :: ((stringBody quote cs).taken ++ more)) = _
    rw [stringBody.eq_2, ih hclosed]
    · rfl
    · intro ds hc hds
      obtain ⟨tail, htail⟩ := exists_cons_of_append (stringBody_ne_nil hclosed)
        (stringBody_append quote cs) hds
      exact hne tail hc htail
  | case3 => cases h
  | case4 cs =>
    change stringBody quote (quote :: more) = _
    rw [stringBody_cons hq, if_pos rfl]
  | case5 => cases h
  | case6 c cs h1 h2 h3 hquote hend ih =>
    have hclosed : (stringBody quote cs).closed = true := h
    have hc : c ≠ '\\' := by
      rintro rfl
      cases cs with
      | nil => exact h3 rfl rfl
      | cons d ds => exact h2 d ds rfl rfl
    change stringBody quote (c :: ((stringBody quote cs).taken ++ more)) = _
    rw [stringBody_cons hc, if_neg hquote, if_neg hend, ih hclosed]
    rfl
  | case7 => cases h

lemma templateBody_ne_nil {cs : List Char} (h : (templateBody cs).closed = true) :
    (templateBody cs).taken ≠ [] := by
  fun_induction templateBody cs <;> simp_all [TemplateBody.after]

/-- A character of a template that begins nothing else. -/
lemma templateBody_cons {c : Char} (hescape : c ≠ '\\') (hend : c ≠ '\x60') {cs : List Char}
    (hopen : ∀ ds, c = '$' → cs = '\x7b' :: ds → False) :
    templateBody (c :: cs) = (templateBody cs).after [c] :=
  templateBody.eq_6 c cs (fun _ h _ => hescape h) (fun _ _ h _ => hescape h)
    (fun h _ => hescape h) hend hopen

lemma templateBody_local {cs : List Char} (h : (templateBody cs).closed = true)
    (more : List Char) : templateBody ((templateBody cs).taken ++ more)
      = ⟨(templateBody cs).taken, more, true, (templateBody cs).opens⟩ := by
  fun_induction templateBody cs with
  | case1 cs ih =>
    have hclosed : (templateBody cs).closed = true := h
    change templateBody ('\\' :: '\r' :: '\n' :: ((templateBody cs).taken ++ more)) = _
    rw [templateBody.eq_1, ih hclosed]
    rfl
  | case2 c cs hne ih =>
    have hclosed : (templateBody cs).closed = true := h
    change templateBody ('\\' :: c :: ((templateBody cs).taken ++ more)) = _
    rw [templateBody.eq_2, ih hclosed]
    · rfl
    · intro ds hc hds
      obtain ⟨tail, htail⟩ := exists_cons_of_append (templateBody_ne_nil hclosed)
        (templateBody_append cs) hds
      exact hne tail hc htail
  | case3 => cases h
  | case4 cs => exact templateBody.eq_4 more
  | case5 cs => exact templateBody.eq_5 more
  | case6 c cs h1 h2 h3 hquote hopen ih =>
    have hclosed : (templateBody cs).closed = true := h
    have hc : c ≠ '\\' := by
      rintro rfl
      cases cs with
      | nil => exact h3 rfl rfl
      | cons d ds => exact h2 d ds rfl rfl
    change templateBody (c :: ((templateBody cs).taken ++ more)) = _
    rw [templateBody_cons hc hquote, ih hclosed]
    · rfl
    · intro ds hc hds
      obtain ⟨tail, htail⟩ := exists_cons_of_append (templateBody_ne_nil hclosed)
        (templateBody_append cs) hds
      exact hopen tail hc htail
  | case7 => cases h

lemma regexBody_cons (inClass : Bool) (c : Char) (cs : List Char) :
    regexBody inClass (c :: cs) =
      if isLineEnd c then ⟨[], c :: cs, false⟩
      else if c = '/' && !inClass then ⟨[c], cs, true⟩
      else if c = '\\' then
        match cs with
        | [] => ⟨[c], [], false⟩
        | d :: ds =>
          if isLineEnd d then ⟨[c], d :: ds, false⟩ else (regexBody inClass ds).after [c, d]
      else
        (regexBody (if c = '[' then true else if c = ']' then false else inClass) cs).after
          [c] := by
  rw [regexBody.eq_def]
  dsimp only
  split_ifs <;> rfl

lemma regexBody_local {inClass : Bool} {cs : List Char} (h : (regexBody inClass cs).closed = true)
    (more : List Char) : regexBody inClass ((regexBody inClass cs).taken ++ more)
      = ⟨(regexBody inClass cs).taken, more, true⟩ := by
  fun_induction regexBody inClass cs with
  | case1 => cases h
  | case2 => cases h
  | case3 inClass c cs hend hslash =>
    change regexBody inClass (c :: more) = _
    rw [regexBody_cons, if_neg hend, if_pos hslash]
  | case4 => cases h
  | case5 => cases h
  | case6 inClass d ds hd hend hslash ih =>
    have hclosed : (regexBody inClass ds).closed = true := h
    change regexBody inClass ('\\' :: d :: ((regexBody inClass ds).taken ++ more)) = _
    rw [regexBody_cons, if_neg hend, if_neg hslash, if_pos rfl]
    dsimp only
    rw [if_neg hd, ih hclosed]
    rfl
  | case7 inClass cs hend hslash hescape ih =>
    have hclosed : (regexBody true cs).closed = true := h
    change regexBody inClass ('[' :: ((regexBody true cs).taken ++ more)) = _
    rw [regexBody_cons, if_neg hend, if_neg hslash, if_neg hescape, if_pos rfl, ih hclosed]
    rfl
  | case8 inClass cs hend hslash hescape hopen ih =>
    have hclosed : (regexBody false cs).closed = true := h
    change regexBody inClass (']' :: ((regexBody false cs).taken ++ more)) = _
    rw [regexBody_cons, if_neg hend, if_neg hslash, if_neg hescape, if_neg hopen, if_pos rfl,
      ih hclosed]
    rfl
  | case9 inClass c cs hend hslash hescape hopen hclose ih =>
    have hclosed : (regexBody inClass cs).closed = true := h
    change regexBody inClass (c :: ((regexBody inClass cs).taken ++ more)) = _
    rw [regexBody_cons, if_neg hend, if_neg hslash, if_neg hescape, if_neg hopen, if_neg hclose,
      ih hclosed]
    rfl

/-! ### Escapes and names -/

lemma takeWhile_append_of_stop {p : Char → Bool} {xs ys : List Char} (hx : ∀ c ∈ xs, p c = true)
    (hy : ys.head?.any p = false) :
    (xs ++ ys).takeWhile p = xs ∧ (xs ++ ys).dropWhile p = ys := by
  have hstop : ys.takeWhile p = [] ∧ ys.dropWhile p = ys := by
    cases ys with
    | nil => exact ⟨rfl, rfl⟩
    | cons c cs =>
      have hc : p c = false := by simpa using hy
      simp [hc]
  rw [List.takeWhile_append_of_pos hx, List.dropWhile_append_of_pos hx, hstop.1, hstop.2,
    List.append_nil]
  exact ⟨rfl, rfl⟩

lemma bracedEscape_eq {digits : List Char} (hd : ∀ c ∈ digits, isHexDigit c = true)
    (hne : digits ≠ []) (rest : List Char) :
    bracedEscape (digits ++ '\x7d' :: rest) = ⟨digits ++ ['\x7d'], rest, true⟩ := by
  have htake : (digits ++ '\x7d' :: rest).takeWhile isHexDigit = digits :=
    (takeWhile_append_of_stop hd rfl).1
  have hempty : digits.isEmpty = false := by simpa using hne
  unfold bracedEscape
  simp only [htake, List.drop_left, hempty, Bool.false_eq_true, if_false]

lemma bracedEscape_closed {cs : List Char} (h : (bracedEscape cs).closed = true) :
    ∃ digits, digits ≠ [] ∧ (∀ c ∈ digits, isHexDigit c = true) ∧
      (bracedEscape cs).taken = digits ++ ['\x7d'] := by
  revert h
  fun_cases bracedEscape cs with
  | case1 => intro h; cases h
  | case2 digits rest hdrop hempty =>
    exact fun _ => ⟨digits, by simpa using hempty, fun c hc => List.mem_takeWhile_imp hc, rfl⟩
  | case3 => intro h; cases h

lemma plainEscape_eq {digits : List Char} (hd : ∀ c ∈ digits, isHexDigit c = true)
    (hlen : digits.length = 4) (rest : List Char) :
    plainEscape (digits ++ rest) = ⟨digits, rest, true⟩ := by
  have htake : ((digits ++ rest).take 4).takeWhile isHexDigit = digits := by
    rw [← hlen, List.take_left, List.takeWhile_eq_self_iff]
    exact hd
  unfold plainEscape
  simp only [htake, List.drop_left]
  rw [hlen]
  rfl

lemma plainEscape_closed {cs : List Char} (h : (plainEscape cs).closed = true) :
    (plainEscape cs).taken.length = 4 ∧ ∀ c ∈ (plainEscape cs).taken, isHexDigit c = true :=
  ⟨by simpa [plainEscape] using h, fun _ hc => List.mem_takeWhile_imp hc⟩

lemma escape_local {cs : List Char} (h : (escape cs).closed = true) (more : List Char) :
    escape ((escape cs).taken ++ more) = ⟨(escape cs).taken, more, true⟩ := by
  revert h
  fun_cases escape cs with
  | case1 cs =>
    intro h
    have hclosed : (bracedEscape cs).closed = true := h
    obtain ⟨digits, hne, hd, htaken⟩ := bracedEscape_closed hclosed
    have hbody := bracedEscape_eq hd hne more
    change escape ('\\' :: 'u' :: '\x7b' :: ((bracedEscape cs).taken ++ more)) = _
    rw [escape.eq_1, htaken, List.append_assoc, List.singleton_append, hbody]
    simp only [Body.after, htaken]
  | case2 cs hopen =>
    intro h
    have hclosed : (plainEscape cs).closed = true := h
    obtain ⟨hlen, hd⟩ := plainEscape_closed hclosed
    have hbody := plainEscape_eq hd hlen more
    change escape ('\\' :: 'u' :: ((plainEscape cs).taken ++ more)) = _
    rw [escape.eq_2, hbody]
    · rfl
    · intro ds hds
      obtain ⟨d, ds', htaken⟩ := List.exists_cons_of_length_eq_add_one hlen
      rw [htaken] at hds hd
      obtain ⟨rfl, -⟩ := List.cons_eq_cons.mp hds
      exact absurd (hd _ List.mem_cons_self) (by decide)
  | case3 => intro h; cases h

lemma escape_head {cs : List Char} (h : (escape cs).closed = true) :
    ∃ tail, (escape cs).taken = '\\' :: tail := by
  revert h
  fun_cases escape cs with
  | case1 cs => exact fun _ => ⟨_, rfl⟩
  | case2 cs => exact fun _ => ⟨_, rfl⟩
  | case3 => intro h; cases h

/-- A name is read the same in front of any text; only then does the text go on with it. -/
lemma nameTail_local (cs more : List Char) :
    nameTail ((nameTail cs).name ++ more) = (nameTail more).after (nameTail cs).name := by
  fun_induction nameTail cs with
  | case1 => rfl
  | case2 cs e he ih =>
    have hname : ((nameTail e.rest).after e.taken).name ++ more
        = e.taken ++ ((nameTail e.rest).name ++ more) := List.append_assoc _ _ _
    rw [hname]
    obtain ⟨tail, htail⟩ := escape_head he
    have hescape := escape_local he ((nameTail e.rest).name ++ more)
    change escape (e.taken ++ _) = ⟨e.taken, _, true⟩ at hescape
    rw [htail, List.cons_append] at hescape ⊢
    rw [nameTail, if_pos rfl]
    simp only [hescape, dif_pos]
    rw [ih]
    simp [NameReading.after]
  | case3 cs e he => rfl
  | case4 c cs hc hn ih =>
    change nameTail (c :: ((nameTail cs).name ++ more)) = _
    rw [nameTail, if_neg hc, if_pos hn, ih]
    rfl
  | case5 => rfl

/-! ### Tokens that stand for themselves -/

/-- A token of the kind stops where the text goes on with it no longer, and is taken the same in
front of any text that does not go on with it. -/
structure Stable (scanner : List Char → Reading) (goesOn : List Char → List Char → Bool)
    (r : Reading) (kind : TokenKind) : Prop where
  stop : goesOn r.taken r.rest = false
  again : ∀ more, goesOn r.taken more = false →
    scanner (r.taken ++ more) = ⟨r.taken, more, .ok kind⟩

end Minify.Scan
