import Mathlib
import Minify.Proofs.NameExchange
import Minify.Proofs.TightScripts

/-!
Packed scripts as scripts.

The lexer reads the two literals and the two numbers of a packed script as one token each, whatever
stands in them, since a text is quoted the way that the lexer reads strings. All else in a packed
script is the decoder. So a packed script has the tokens of any other but for these four, and as it
leaves no room between them, it is compacted to itself.
-/

namespace Minify

open Text Scan Layout

/-! ### Literals and numbers -/

namespace Scan

lemma stringBody_quotedChar (c : Char) (cs : List Char) :
    stringBody '\'' (Payload.quotedChar c ++ cs)
      = (stringBody '\'' cs).after (Payload.quotedChar c) := by
  by_cases hslash : c = '\\'
  · subst hslash
    rfl
  by_cases hquote : c = '\''
  · subst hquote
    rfl
  by_cases hfeed : c = '\n'
  · subst hfeed
    rfl
  by_cases hreturn : c = '\r'
  · subst hreturn
    rfl
  simp only [Payload.quotedChar, hslash, hquote, hfeed, hreturn, if_false, List.singleton_append]
  rw [stringBody, if_neg hquote, if_neg (by simp [hfeed, hreturn])]
  · exact fun _ h => absurd h hslash
  · exact fun _ _ h => absurd h hslash
  · exact fun h => absurd h hslash

lemma stringBody_quoted (cs more : List Char) :
    stringBody '\'' (cs.flatMap Payload.quotedChar ++ '\'' :: more)
      = ⟨cs.flatMap Payload.quotedChar ++ ['\''], more, true⟩ := by
  induction cs with
  | nil => rfl
  | cons c cs ih =>
    rw [List.flatMap_cons, List.append_assoc, stringBody_quotedChar, ih, Body.after,
      List.append_assoc]

lemma string_quoted (cs more : List Char) :
    string '\'' (Payload.quoted cs ++ more) = ⟨Payload.quoted cs, more, .ok .string⟩ := by
  have hbody : (Payload.quoted cs ++ more).drop 1
      = cs.flatMap Payload.quotedChar ++ '\'' :: more := by simp [Payload.quoted]
  rw [string, hbody, stringBody_quoted]
  rfl

variable {ds : List Char}

lemma digitRun_digits (h : ∀ d ∈ ds, d.isDigit = true) (inside : Bool) :
    digitRun Char.isDigit inside ds = (ds, []) := by
  induction ds generalizing inside with
  | nil => rfl
  | cons d ds ih =>
    obtain ⟨hd, hds⟩ := List.forall_mem_cons.mp h
    rw [digitRun, if_pos hd, ih hds]

/-- Digits are read as a number, where nothing goes on with it. -/
lemma number_digits (h : ∀ d ∈ ds, d.isDigit = true) {more : List Char}
    (hm : numberGoesOn ds more = false) : number (ds ++ more) = ⟨ds, more, .ok .number⟩ := by
  have hradix (x : Char) (rest : List Char) (hds : ds = '0' :: x :: rest) :
      radixDigits? x = none := by
    cases hx : radixDigits? x with
    | none => rfl
    | some p =>
      have hdigit : x.isDigit = true := h x (by simp [hds])
      rw [(radixDigits?_some hx).2.1] at hdigit
      cases hdigit
  have hread : number ds = ⟨ds, [], .ok .number⟩ := by
    rw [number_decimal hradix, decimalNumber_whole (digitRun_digits h false) (by simp)]
    rfl
  have hok : (number ds).result = .ok .number := by rw [hread]
  have hstable := (number_ok hok).2.again more
  rw [hread] at hstable
  exact hstable hm

/-- What a quote comes before does not matter to what it comes after. -/
lemma runsOn_quote {kind : TokenKind} {taken between r r' : List Char} :
    runsOn kind taken (between ++ '\'' :: r) = runsOn kind taken (between ++ '\'' :: r') := by
  have hhead : (between ++ '\'' :: r).head? = (between ++ '\'' :: r').head? := by
    cases between <;> rfl
  have hnone : ∀ p ∈ punctuators, '\'' ∉ p.toList := by decide +kernel
  have hpunct : punctuator? (taken ++ (between ++ '\'' :: r))
      = punctuator? (taken ++ (between ++ '\'' :: r')) := by
    rw [← List.append_assoc, ← List.append_assoc]
    exact punctuator?_congr hnone hnone rfl
  unfold runsOn numberGoesOn wordFollows
  rw [hhead, hpunct]

lemma runsOn_comma (more : List Char) : runsOn .punctuator [','] more = false := by
  have hcomma : punctuator? (',' :: more) = some [','] := by rfl
  simp [runsOn, hcomma]

end Scan

namespace Lexeme

def string (cs : List Char) : Lexeme := ⟨.string, String.ofList (Payload.quoted cs)⟩

/-- A number in decimal. -/
def number (n : Nat) : Lexeme := ⟨.number, toString n⟩

/-- A string or a number as packed scripts have them. -/
def IsArgument (l : Lexeme) : Prop := (∃ cs, l = string cs) ∨ ∃ n, l = number n

/-- Two lexemes that are the same but for the text of a string or a number. -/
def Exchanged (l l' : Lexeme) : Prop := l' = l ∨ l'.kind = l.kind ∧ l'.IsArgument

end Lexeme

namespace Lexer

variable {lx lx' lo : Lexer} {t : Token} {l : Lexeme} {ts : List Token} {ls : List Lexeme}

lemma rest_ofString (source : String) : (ofString source).rest = source.toList := rfl

lemma sameState_ofString (source source' : String) :
    SameState (ofString source) (ofString source') := ⟨rfl, rfl, rfl⟩

lemma state_of_argument (h : lx.next = (.ok (some t), lx'))
    (ht : t.kind = .string ∨ t.kind = .number) :
    lx'.afterOperand = true ∧ lx'.depth = lx.depth ∧ lx'.resume = lx.resume := by
  obtain ⟨c, cs, w, -, hscan, -, -, rfl⟩ := next_ok h
  have hres : lx.resumes c = false := by
    rw [Bool.eq_false_iff]
    intro hres
    rw [scan_of_resumes hres] at hscan
    obtain ⟨part, hpart⟩ := (template_stable hscan).1
    rcases ht with ht | ht <;> rw [ht] at hpart <;> cases hpart
  have hrecord (lo : Lexer) : lo.record t = { lo with afterOperand := true } := by
    rcases ht with ht | ht <;>
      simp [Lexer.record, Token.isTrivia, TokenKind.isTrivia, Token.endsOperand, ht]
  rw [hrecord]
  exact ⟨rfl, rfl, skip_resume hres (lx.scan c cs)⟩

lemma scan_quote (cs : List Char) : lx.scan '\'' cs = Scan.string '\'' ('\'' :: cs) := by
  rw [scan_eq, scannerOf, if_neg (by decide), if_neg (by simp), if_neg (by simp), if_neg (by simp),
    if_neg (by decide), if_neg (by simp [show ('\'').isDigit = false from rfl]), if_pos (by decide)]

/-- An argument is read wherever nothing goes on with it. -/
lemma next_argument (hl : l.IsArgument) {more : List Char} (hrest : lx.rest = l.text.toList ++ more)
    (hm : runsOn l.kind l.text.toList more = false) :
    ∃ lx', lx.next = (.ok (some ⟨l.kind, l.text, lx.pos⟩), lx') ∧ lx'.rest = more := by
  obtain ⟨c, w, htext, hscan⟩ : ∃ c w, l.text.toList = c :: w ∧
      lx.scan c (w ++ more) = ⟨c :: w, more, .ok l.kind⟩ := by
    rcases hl with ⟨cs, rfl⟩ | ⟨n, rfl⟩
    · refine ⟨'\'', cs.flatMap Payload.quotedChar ++ ['\''], String.toList_ofList, ?_⟩
      rw [scan_quote]
      exact string_quoted cs more
    · have hdigits : ∀ d ∈ (toString n).toList, d.isDigit = true := by
        rw [Nat.toString_eq_repr, Nat.toList_repr]
        exact fun d hd => Nat.isDigit_of_mem_toDigits (by decide) (by decide) hd
      obtain ⟨c, w, htext⟩ := List.exists_cons_of_ne_nil (l := (toString n).toList) (by simp)
      refine ⟨c, w, htext, ?_⟩
      have hread := number_digits hdigits hm
      rw [htext] at hdigits hread
      rw [scan_number (by simp [hdigits c List.mem_cons_self])]
      exact hread
  rw [htext, List.cons_append] at hrest
  have hnext := next_of_scan hrest hscan
  rw [← htext, String.ofList_toList] at hnext
  exact ⟨_, hnext, record_rest _ _⟩

/-- **Other arguments** leave the other tokens as they were. -/
theorem reads_exchanged_arguments (h : lx.run = (ts, none)) (hstate : SameState lx lo)
    (hls : List.Forall₂ Lexeme.Exchanged (ts.map Token.lexeme) ls)
    (hrest : lo.rest = Lexeme.spelled ls) (hapart : Lexeme.apart ls = true)
    (hline : ∀ t ∈ ts, t.kind ≠ .comment .line) (hhash : lo.pos = 0 → ¬['#', '!'] <+: lo.rest) :
    lo.Reads ls := by
  induction ts generalizing lx lo ls with
  | nil =>
    cases hls
    obtain ⟨-, hresume⟩ := run_ok_nil h
    exact reads_nil hrest (hstate.resume.trans hresume)
  | cons t ts ih =>
    obtain ⟨lx', hnext, hrun⟩ := run_ok_cons h
    obtain ⟨hkind, hline⟩ := List.forall_mem_cons.mp hline
    cases hls with
    | @cons _ l _ ls hl hls =>
      simp only [Lexeme.apart, Bool.and_eq_true, Bool.not_eq_true'] at hapart
      rw [Lexeme.spelled_cons] at hrest
      obtain ⟨lo', hnext', hrest', hpos, hstate'⟩ : ∃ lo',
          lo.next = (.ok (some ⟨l.kind, l.text, lo.pos⟩), lo') ∧ lo'.rest = Lexeme.spelled ls ∧
            0 < lo'.pos ∧ SameState lx' lo' := by
        rcases hl with rfl | ⟨hsame, harg⟩
        · exact next_again hnext hkind (fun _ => hstate.afterOperand) hstate.depth hstate.resume
            hrest hapart.1 hhash
        · have hkinds : l.kind = .string ∨ l.kind = .number := by
            rcases harg with ⟨cs, rfl⟩ | ⟨n, rfl⟩
            · exact .inl rfl
            · exact .inr rfl
          obtain ⟨lo', hnext', hrest'⟩ := next_argument harg hrest hapart.1
          obtain ⟨hop, hdepth, hresume⟩ := state_of_argument hnext (by rwa [hsame] at hkinds)
          obtain ⟨hop', hdepth', hresume'⟩ := state_of_argument hnext' hkinds
          refine ⟨lo', hnext', hrest', pos_of_next hnext', hop'.trans hop.symm, ?_, ?_⟩
          · rw [hdepth', hdepth, hstate.depth]
          · rw [hresume', hresume, hstate.resume]
      exact (ih hrun hstate' hls hrest' hapart.2 hline fun hzero => absurd hzero hpos.ne').cons
        (t := ⟨l.kind, l.text, lo.pos⟩) hnext'

end Lexer

/-! ### The tokens of a packed script -/

namespace Payload

def arguments (payload : List Char) (radix count : Nat) (words : List Char) : List Lexeme :=
  [.string payload, .punct ",", .number radix, .punct ",", .number count, .punct ",", .string words]

def tailLexemes : List Lexeme :=
  [.punct ".", .name "split", .punct "(", .string ['|'], .punct ")", .punct ",", .number 0,
    .punct ",", .punct "\x7b", .punct "\x7d", .punct ")", .punct ")"]

def wordless : String := Encoder.pack 0 [] 0 []

/-- The lexemes of the decoder up to its first argument. -/
structure IsHead (head : List Lexeme) : Prop where
  read : ∃ ts, (Lexer.ofString wordless).run = (ts, none)
    ∧ ts.map Token.lexeme = head ++ (arguments [] 0 0 [] ++ tailLexemes)
  noLine : ∀ l ∈ head, l.kind ≠ .comment .line
  edge : head.foldlM Edge.step ⟨"", false, false⟩ = some ⟨"(", false, false⟩

variable {payload words : List Char} {radix count : Nat} {head : List Lexeme}

set_option maxRecDepth 20000 in
theorem exists_isHead : ∃ head, IsHead head := by
  have hread : (tokens wordless).2 = none
      ∧ ((tokens wordless).1.map Token.lexeme).rtake 19 = arguments [] 0 0 [] ++ tailLexemes
      ∧ (((tokens wordless).1.map Token.lexeme).rdrop 19).all (fun l => l.kind != .comment .line)
      ∧ (((tokens wordless).1.map Token.lexeme).rdrop 19).foldlM Edge.step ⟨"", false, false⟩
        = some ⟨"(", false, false⟩ := by
    unfold tokens Lexer.ofString wordless Encoder.pack decoderHead decoderTail
    repeat rw [String.toList_append]
    repeat rw [String.toList_ofList]
    rw [Lexer.run_eq_runFor _ (Nat.lt_succ_self _)]
    decide +kernel
  rcases hts : tokens wordless with ⟨ts, fault⟩
  rw [hts] at hread
  obtain ⟨hnone, hrest, hline, hedge⟩ := hread
  refine ⟨(ts.map Token.lexeme).rdrop 19, ⟨ts, ?_, ?_⟩, fun l hl => ?_, hedge⟩
  · exact hts.trans (congrArg (Prod.mk ts) hnone)
  · rw [← hrest]
    exact (List.take_append_drop _ _).symm
  · simpa using List.all_eq_true.mp hline l hl

/-! ### Reading a packed script -/

section

variable {payload words : List Char} {radix count : Nat} {head : List Lexeme}

lemma spelled_arguments (entries : List (List Char)) :
    Lexeme.spelled (arguments payload radix count (join entries))
      = quoted payload ++ ',' :: ((toString radix).toList ++ ',' :: ((toString count).toList
        ++ ',' :: quoted (join entries))) := by
  simp [arguments, Lexeme.spelled, Lexeme.string, Lexeme.number, Lexeme.punct]

lemma spelled_tailLexemes : Lexeme.spelled tailLexemes = decoderTail.toList := by decide +kernel

lemma head?_decoderHead : decoderHead.toList.head? = some 'e' := by
  unfold decoderHead
  repeat rw [String.toList_append]
  rw [String.toList_ofList]
  rfl

lemma toList_pack (entries : List (List Char)) :
    (Encoder.pack radix payload count entries).toList = decoderHead.toList
      ++ Lexeme.spelled (arguments payload radix count (join entries) ++ tailLexemes) := by
  rw [Lexeme.spelled_append, spelled_arguments, spelled_tailLexemes]
  simp [Encoder.pack, String.toList_append]

lemma IsHead.spelled (h : IsHead head) : Lexeme.spelled head = decoderHead.toList := by
  obtain ⟨ts, hrun, hmap⟩ := h.read
  have hspelled := Lexer.spelled_of_run hrun
  rw [Lexer.rest_ofString, hmap, Lexeme.spelled_append, wordless, toList_pack] at hspelled
  exact (List.append_cancel_right hspelled).symm

/-- What begins with a quote may stand in the place of anything else that does. -/
lemma apart_of_quote {as bs : List Lexeme} {a b : List Char}
    (h : Lexeme.apart (head ++ .string a :: as) = true)
    (hbs : Lexeme.apart (.string b :: bs) = true) :
    Lexeme.apart (head ++ .string b :: bs) = true := by
  have hquote (c : List Char) (ls : List Lexeme) : ∃ r,
      Lexeme.spelled (.string c :: ls) = '\'' :: r :=
    ⟨_, by rw [Lexeme.spelled_cons, Lexeme.string, String.toList_ofList]; rfl⟩
  induction head with
  | nil => exact hbs
  | cons l head ih =>
    simp only [List.cons_append, Lexeme.apart, Bool.and_eq_true, Bool.not_eq_true'] at h ⊢
    refine ⟨?_, ih h.2⟩
    obtain ⟨r, hr⟩ := hquote a as
    obtain ⟨r', hr'⟩ := hquote b bs
    rw [← h.1, Lexeme.spelled_append, Lexeme.spelled_append, hr, hr']
    exact runsOn_quote

lemma apart_arguments :
    Lexeme.apart (arguments payload radix count words ++ tailLexemes) = true := by
  have htail : Lexeme.apart tailLexemes = true := by decide +kernel
  have hcomma (ls : List Lexeme) : Lexeme.apart (.punct "," :: ls) = Lexeme.apart ls := by
    change (!runsOn .punctuator [','] (Lexeme.spelled ls) && _) = _
    rw [runsOn_comma]
    rfl
  have hnumber (n : Nat) (ls : List Lexeme) :
      Lexeme.apart (.number n :: .punct "," :: ls) = Lexeme.apart (.punct "," :: ls) := rfl
  have hstring (cs : List Char) (ls : List Lexeme) :
      Lexeme.apart (.string cs :: ls) = Lexeme.apart ls := rfl
  simp only [arguments, List.cons_append, List.nil_append, hstring, hnumber, hcomma, htail]

/-- No token of a packed script runs on into the text after it. -/
lemma IsHead.apart (h : IsHead head) :
    Lexeme.apart (head ++ (arguments payload radix count words ++ tailLexemes)) = true := by
  obtain ⟨ts, hrun, hmap⟩ := h.read
  have hsample := Lexer.apart_of_run hrun
  rw [hmap] at hsample
  exact apart_of_quote hsample apart_arguments

lemma exchanged_arguments : List.Forall₂ Lexeme.Exchanged (arguments [] 0 0 [])
    (arguments payload radix count words) := by
  have hstring (cs : List Char) : Lexeme.Exchanged (.string []) (.string cs) :=
    .inr ⟨rfl, .inl ⟨cs, rfl⟩⟩
  have hnumber (n : Nat) : Lexeme.Exchanged (.number 0) (.number n) := .inr ⟨rfl, .inr ⟨n, rfl⟩⟩
  have hcomma : Lexeme.Exchanged (.punct ",") (.punct ",") := .inl rfl
  exact .cons (hstring payload) (.cons hcomma (.cons (hnumber radix) (.cons hcomma
    (.cons (hnumber count) (.cons hcomma (.cons (hstring words) .nil))))))

/-- **A packed script has the tokens of the decoder**, and one for each of the four arguments. -/
theorem IsHead.reads (h : IsHead head) (payload : List Char) (radix count : Nat)
    (entries : List (List Char)) :
    ∃ ts, tokenize (Encoder.pack radix payload count entries) = .ok ts
      ∧ ts.map Token.lexeme = head ++ (arguments payload radix count (join entries)
        ++ tailLexemes) := by
  obtain ⟨ts, hrun, hmap⟩ := h.read
  have hline : ∀ t ∈ ts, t.kind ≠ .comment .line := by
    intro t ht
    have hmem := List.mem_map_of_mem (f := Token.lexeme) ht
    rw [hmap, List.mem_append] at hmem
    rcases hmem with hmem | hmem
    · exact h.noLine _ hmem
    · have hrest : ∀ l ∈ arguments [] 0 0 [] ++ tailLexemes, l.kind ≠ .comment .line := by
        decide
      exact hrest _ hmem
  have hsame (ls : List Lexeme) : List.Forall₂ Lexeme.Exchanged ls ls :=
    List.forall₂_same.mpr fun l _ => .inl rfl
  have hexchanged : List.Forall₂ Lexeme.Exchanged (ts.map Token.lexeme)
      (head ++ (arguments payload radix count (join entries) ++ tailLexemes)) := by
    rw [hmap]
    exact List.rel_append (hsame head) (List.rel_append exchanged_arguments (hsame tailLexemes))
  have hspelled : (Lexer.ofString (Encoder.pack radix payload count entries)).rest
      = Lexeme.spelled (head ++ (arguments payload radix count (join entries) ++ tailLexemes)) := by
    rw [Lexer.rest_ofString, Lexeme.spelled_append, h.spelled, toList_pack]
  have hhash :
      ¬['#', '!'] <+: (Lexer.ofString (Encoder.pack radix payload count entries)).rest := by
    rintro ⟨more, hmore⟩
    have hfirst := congrArg List.head? hmore
    rw [Lexer.rest_ofString, toList_pack, List.head?_append, List.head?_append,
      head?_decoderHead] at hfirst
    cases hfirst
  obtain ⟨ts', hrun', hts'⟩ := Lexer.reads_exchanged_arguments hrun
    (Lexer.sameState_ofString wordless _) hexchanged hspelled h.apart hline fun _ => hhash
  exact ⟨ts', tokenize_of_run hrun', hts'⟩

/-- A text that stands in quotes, or a comma. -/
def IsMarked (text : String) : Prop :=
  ∃ c, (c = '\'' ∨ c = ',') ∧ text.toList.head? = some c ∧ text.toList.getLast? = some c

lemma isMarked_string (cs : List Char) : IsMarked (Lexeme.string cs).text :=
  ⟨'\'', .inl rfl, by simp [Lexeme.string, quoted], by
    rw [Lexeme.string, String.toList_ofList, quoted]
    exact List.getLast?_concat⟩

lemma isMarked_comma : IsMarked "," := ⟨',', .inr rfl, by decide, by decide⟩

lemma needsSpace_of_isMarked {before after : String} (h : IsMarked before ∨ IsMarked after) :
    needsSpace before after = false := by
  have hquote : isWordPart '\'' = false ∧ ('\'').isDigit = false := by decide
  have hcomma : isWordPart ',' = false ∧ (',').isDigit = false := by decide
  unfold needsSpace
  rcases h with ⟨c, hc, hfirst, hlast⟩ | ⟨c, hc, hfirst, -⟩
  · rw [hlast, hfirst]
    cases after.toList.head? with
    | none => rfl
    | some b => rcases hc with rfl | rfl <;> simp [hquote, hcomma]
  · rw [hfirst]
    cases before.toList.getLast? with
    | none => rfl
    | some a => rcases hc with rfl | rfl <;> simp [hquote, hcomma]

lemma foldlM_arguments : (arguments payload radix count words).foldlM Edge.step ⟨"(", false, false⟩
    = some ⟨(Lexeme.string words).text, false, false⟩ := by
  have hstring (last : String) (cs : List Char) :
      Edge.step ⟨last, false, false⟩ (.string cs) = some ⟨(Lexeme.string cs).text, false, false⟩ :=
    Edge.step_of_close rfl (by simp [Lexeme.string, Lexeme.semicolon])
      (needsSpace_of_isMarked (.inr (isMarked_string cs)))
  have hcomma (last : String) :
      Edge.step ⟨last, false, false⟩ (.punct ",") = some ⟨",", false, false⟩ :=
    Edge.step_of_close rfl (by decide) (needsSpace_of_isMarked (.inr isMarked_comma))
  have hnumber (n : Nat) :
      Edge.step ⟨",", false, false⟩ (.number n) = some ⟨toString n, false, false⟩ :=
    Edge.step_of_close rfl (by simp [Lexeme.number, Lexeme.semicolon])
      (needsSpace_of_isMarked (.inl isMarked_comma))
  simp only [arguments, List.foldlM_cons, List.foldlM_nil, hstring, hcomma, hnumber,
    Option.bind_eq_bind, Option.bind_some, Option.pure_def]

lemma foldlM_tailLexemes (cs : List Char) :
    tailLexemes.foldlM Edge.step ⟨(Lexeme.string cs).text, false, false⟩
      = some ⟨")", false, false⟩ := by
  have hpoint : Edge.step ⟨(Lexeme.string cs).text, false, false⟩ (.punct ".")
      = some ⟨".", false, false⟩ :=
    Edge.step_of_close rfl (by decide) (needsSpace_of_isMarked (.inl (isMarked_string cs)))
  rw [tailLexemes, List.foldlM_cons, hpoint, Option.bind_eq_bind, Option.bind_some]
  decide +kernel

lemma IsHead.tight (h : IsHead head) :
    tight (head ++ (arguments payload radix count words ++ tailLexemes)) = true := by
  unfold Layout.tight
  rw [List.foldlM_append, h.edge, Option.bind_eq_bind, Option.bind_some, List.foldlM_append,
    foldlM_arguments, Option.bind_eq_bind, Option.bind_some, foldlM_tailLexemes]
  rfl

end

end Payload

/-! ### What is packed -/

namespace Encoder

open Payload

variable {radix : Nat} {pieces : List WordPattern.Piece} {text packed : String}

lemma eq_of_verdict {out : String} {back : Except EncodingError String}
    (h : verdict text packed back = .ok out) : out = packed := by
  unfold verdict at h
  split at h
  · split at h
    · exact (Except.ok.inj h).symm
    · cases h
  · cases h

/-- A text that is packed is packed with its words in the order of their first uses. -/
lemma pack_of_encodePieces (h : encodePieces radix pieces text = .ok packed) :
    packed = pack radix (payload radix (wordList pieces) pieces) (wordList pieces).length
      (entries radix (wordList pieces)) := by
  unfold encodePieces at h
  dsimp only at h
  split at h
  · cases h
  · exact eq_of_verdict h

/-- **Packed texts are compact scripts.** Whatever the text, the radix and the pieces that words are
found in are, a packed text is read as the tokens of the decoder and its four arguments. The payload
is one string among them, and so is the list of words. No room is left between them, so with the
default options the packed text is packed to itself. -/
theorem encode_compact (h : encodePieces radix pieces text = .ok packed)
    (protectedNames : ProtectedNames) :
    let words := wordList pieces
    ∃ head ts r, Lexeme.spelled head = decoderHead.toList
      ∧ tokenize packed = .ok ts
      ∧ ts.map Token.lexeme = head ++ (arguments (payload radix words pieces) radix
        words.length (join (entries radix words)) ++ tailLexemes)
      ∧ Minify.pack protectedNames {} packed = .ok r ∧ r.code = packed := by
  intro words
  obtain ⟨head, hhead⟩ := exists_isHead
  obtain ⟨ts, hts, hlexemes⟩ := hhead.reads (payload radix words pieces) radix words.length
    (entries radix words)
  rw [← pack_of_encodePieces h] at hts
  have htight : tight (ts.map Token.lexeme) = true := by
    rw [hlexemes]
    exact hhead.tight
  obtain ⟨r, hr, hcode⟩ := pack_default hts protectedNames
  exact ⟨head, ts, r, hhead.spelled, hts, hlexemes, hr, hcode.trans (compact_of_tight hts htight)⟩

/-- Quotes, a backslash, a line end and a bar in the payload. -/
theorem encode_compact_at_marks :
    let pieces := WordPattern.plainWords.pieces "it's \\ a\nb|a b".toList
    let packed := pack 62 "0'1 \\ 2\n3|2 3".toList 4 (["it", "s", "a", "b"].map String.toList)
    encodePieces 62 pieces "it's \\ a\nb|a b" = .ok packed
      ∧ ∃ r, Minify.pack .empty {} packed = .ok r ∧ r.code = packed := by
  intro pieces packed
  have hfit : Text.Fits "it's \\ a\nb|a b" := by
    unfold Text.Fits
    decide
  have hparts : (payload 62 (wordList pieces) pieces, (wordList pieces).length,
      entries 62 (wordList pieces))
        = ("0'1 \\ 2\n3|2 3".toList, 4, ["it", "s", "a", "b"].map String.toList) := by
    decide +kernel
  have hr : isRadix 62 = true := rfl
  obtain ⟨packed', henc, -⟩ := encodePieces_decodes hr hfit
    (WordPattern.cuts_pieces _ _) (WordPattern.parted_plainWords _)
  have hpacked : packed' = packed := by
    rw [pack_of_encodePieces henc]
    simp only [Prod.mk.injEq] at hparts
    change pack 62 (payload 62 (wordList pieces) pieces) (wordList pieces).length
      (entries 62 (wordList pieces)) = _
    rw [hparts.1, hparts.2.1, hparts.2.2]
  subst hpacked
  obtain ⟨_, _, r, -, -, -, hr, hcode⟩ := encode_compact henc .empty
  exact ⟨henc, r, hr, hcode⟩

end Encoder

end Minify
