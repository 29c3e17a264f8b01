import Minify.Text.CharClass
import Minify.Token

/-!
Reading one token off the front of a text.

A scanner takes the text from the first character of the token on. What it returns, a `Reading`,
splits that text into what was read and what was not; a scanner that fails says so after reading as
far as it got, and reading may go on from there.
-/

namespace Minify

inductive LexReason where
  | unterminatedString
  | unterminatedTemplate
  | unterminatedComment
  | unterminatedRegex
  | malformedNumber
  | invalidCharacter (c : Char)
  deriving DecidableEq, Repr

namespace Scan

open Text

/-- The front of a text that was read, the rest, and the kind of token found or the fault with its
distance in bytes from the start of the token. -/
structure Reading where
  taken : List Char
  rest : List Char
  result : Except (LexReason × Nat) TokenKind

def Reading.after (front : List Char) (r : Reading) : Reading :=
  { r with taken := front ++ r.taken }

/-- The front of a text up to a closing mark; `closed` when the mark was there. -/
structure Body where
  taken : List Char
  rest : List Char
  closed : Bool

def Body.after (front : List Char) (b : Body) : Body :=
  { b with taken := front ++ b.taken }

def size (cs : List Char) : Nat := (String.ofList cs).utf8ByteSize

def blanks (cs : List Char) : Reading :=
  let run := cs.takeWhile fun c => isLineEnd c || isBlank c
  { taken := run
    rest := cs.dropWhile fun c => isLineEnd c || isBlank c
    result := .ok (if run.any isLineEnd then .lineBreak else .blank) }

/-- A comment up to the end of its line; the first two characters open it. -/
def lineComment (cs : List Char) : Reading :=
  { taken := cs.take 2 ++ (cs.drop 2).takeWhile fun c => !isLineEnd c
    rest := (cs.drop 2).dropWhile fun c => !isLineEnd c
    result := .ok (.comment .line) }

def commentBody : List Char → Body
  | '*' :: '/' :: cs => ⟨['*', '/'], cs, true⟩
  | c :: cs => (commentBody cs).after [c]
  | [] => ⟨[], [], false⟩

/-- A comment in slashes and stars is conditional compilation when an at sign stands inside each
end. -/
def commentKind (text : List Char) : CommentKind :=
  if text.length ≥ 6 && ['/', '*', '@'].isPrefixOf text && ['@', '*', '/'].isSuffixOf text then
    .conditional
  else .block (text.any isLineEnd)

def blockComment (cs : List Char) : Reading :=
  let b := (commentBody (cs.drop 2)).after (cs.take 2)
  { taken := b.taken
    rest := b.rest
    result :=
      if b.closed then .ok (.comment (commentKind b.taken)) else .error (.unterminatedComment, 0) }

def bracedEscape (cs : List Char) : Body :=
  let digits := cs.takeWhile isHexDigit
  match cs.drop digits.length with
  | '\x7d' :: rest =>
    if digits.isEmpty then ⟨[], '\x7d' :: rest, false⟩ else ⟨digits ++ ['\x7d'], rest, true⟩
  | rest => ⟨digits, rest, false⟩

def plainEscape (cs : List Char) : Body :=
  let digits := (cs.take 4).takeWhile isHexDigit
  ⟨digits, cs.drop digits.length, digits.length == 4⟩

def escape : List Char → Body
  | '\\' :: 'u' :: '\x7b' :: cs => (bracedEscape cs).after ['\\', 'u', '\x7b']
  | '\\' :: 'u' :: cs => (plainEscape cs).after ['\\', 'u']
  | cs => ⟨[], cs, false⟩

theorem prefix_append_drop {p cs : List Char} (h : p <+: cs) : p ++ cs.drop p.length = cs := by
  obtain ⟨t, rfl⟩ := h
  simp

theorem bracedEscape_append (cs : List Char) :
    (bracedEscape cs).taken ++ (bracedEscape cs).rest = cs := by
  have h := prefix_append_drop (List.takeWhile_prefix (l := cs) isHexDigit)
  unfold bracedEscape
  dsimp only
  split
  · rename_i rest hd
    rw [hd] at h
    split
    · rename_i he
      rw [List.isEmpty_iff.1 he] at h
      exact h
    · simpa using h
  · exact h

theorem plainEscape_append (cs : List Char) :
    (plainEscape cs).taken ++ (plainEscape cs).rest = cs :=
  prefix_append_drop ((List.takeWhile_prefix _).trans (List.take_prefix _ _))

theorem escape_append (cs : List Char) : (escape cs).taken ++ (escape cs).rest = cs := by
  unfold escape
  split
  · simp [Body.after, bracedEscape_append]
  · simp [Body.after, plainEscape_append]
  · rfl

theorem escape_closed {cs : List Char} (h : (escape cs).closed = true) :
    (escape cs).rest.length < cs.length := by
  have ha := congrArg List.length (escape_append cs)
  have : (escape cs).taken ≠ [] := by
    unfold escape at h ⊢
    split <;> simp_all [Body.after]
  have := List.length_pos_iff.2 this
  rw [List.length_append] at ha
  omega

/-- The rest of an identifier: its characters and escapes, then, if an escape is malformed, as much
of it as was read. -/
structure NameReading where
  name : List Char
  broken : Option (List Char)
  rest : List Char

def NameReading.after (front : List Char) (r : NameReading) : NameReading :=
  { r with name := front ++ r.name }

def nameTail : List Char → NameReading
  | [] => ⟨[], none, []⟩
  | c :: cs =>
    if c = '\\' then
      let e := escape (c :: cs)
      if _h : e.closed then (nameTail e.rest).after e.taken
      else ⟨[], some e.taken, e.rest⟩
    else if isNamePart c then (nameTail cs).after [c]
    else ⟨[], none, c :: cs⟩
termination_by cs => cs.length
decreasing_by
  · exact escape_closed _h
  · simp

/-- An identifier or a keyword; the first character begins a name or an escape. -/
def name (cs : List Char) : Reading :=
  let r := nameTail cs
  match r.broken with
  | none =>
    { taken := r.name
      rest := r.rest
      result := .ok (((Keyword.ofWord? (String.ofList r.name)).map TokenKind.keyword).getD
        .identifier) }
  | some part =>
    { taken := r.name ++ part
      rest := r.rest
      result := .error (.invalidCharacter '\\', size r.name) }

/-- Digits, with single underscores between them; `inside` after the first digit. -/
def digitRun (isDigit : Char → Bool) (inside : Bool) : List Char → List Char × List Char
  | [] => ([], [])
  | c :: cs =>
    if isDigit c then
      let r := digitRun isDigit true cs
      (c :: r.1, r.2)
    else if c = '_' && inside && cs.head?.any isDigit then
      let r := digitRun isDigit true cs
      (c :: r.1, r.2)
    else ([], c :: cs)

def radixDigits? : Char → Option (Char → Bool)
  | 'x' | 'X' => some isHexDigit
  | 'o' | 'O' => some fun c => '0' ≤ c && c ≤ '7'
  | 'b' | 'B' => some fun c => c = '0' || c = '1'
  | _ => none

/-- A number ends where no letter, digit or escape follows. -/
def endNumber (taken rest : List Char) : Reading :=
  { taken := taken
    rest := rest
    result :=
      if rest.head?.any fun c => isNameStart c || c.isDigit || c = '\\' then
        .error (.malformedNumber, 0)
      else .ok .number }

def bigMark : List Char → List Char × List Char
  | 'n' :: cs => (['n'], cs)
  | cs => ([], cs)

def radixNumber (isDigit : Char → Bool) (front cs : List Char) : Reading :=
  let digits := digitRun isDigit false cs
  if digits.1.isEmpty then
    { taken := front, rest := digits.2, result := .error (.malformedNumber, 0) }
  else
    let big := bigMark digits.2
    endNumber (front ++ digits.1 ++ big.1) big.2

def exponentSign : List Char → List Char × List Char
  | '+' :: cs => (['+'], cs)
  | '-' :: cs => (['-'], cs)
  | cs => ([], cs)

/-- What follows the digits of a decimal number: an exponent, or the mark of a big integer. -/
def numberEnd (isInteger : Bool) (front : List Char) : List Char → Reading
  | c :: cs =>
    if c = 'e' || c = 'E' then
      let sign := exponentSign cs
      let digits := digitRun Char.isDigit false sign.2
      let taken := front ++ [c] ++ sign.1 ++ digits.1
      if digits.1.isEmpty then
        { taken := taken, rest := digits.2, result := .error (.malformedNumber, 0) }
      else endNumber taken digits.2
    else if isInteger && c = 'n' then endNumber (front ++ ['n']) cs
    else endNumber front (c :: cs)
  | [] => endNumber front []

def decimalNumber (cs : List Char) : Reading :=
  let whole := digitRun Char.isDigit false cs
  match whole.2 with
  | '.' :: rest =>
    let fraction := digitRun Char.isDigit false rest
    numberEnd false (whole.1 ++ ['.'] ++ fraction.1) fraction.2
  | rest => numberEnd true whole.1 rest

/-- A number; the text starts with a digit, or with a point and a digit. -/
def number (cs : List Char) : Reading :=
  match cs with
  | '0' :: x :: rest =>
    match radixDigits? x with
    | some isDigit => radixNumber isDigit ['0', x] rest
    | none => decimalNumber cs
  | _ => decimalNumber cs

/-- A string up to its closing quote. A backslash takes the next character with it, or the next
two when they are one line end. -/
def stringBody (quote : Char) : List Char → Body
  | '\\' :: '\r' :: '\n' :: cs => (stringBody quote cs).after ['\\', '\r', '\n']
  | '\\' :: c :: cs => (stringBody quote cs).after ['\\', c]
  | '\\' :: [] => ⟨['\\'], [], false⟩
  | c :: cs =>
    if c = quote then ⟨[c], cs, true⟩
    else if c = '\n' || c = '\r' then ⟨[], c :: cs, false⟩
    else (stringBody quote cs).after [c]
  | [] => ⟨[], [], false⟩

def string (quote : Char) (cs : List Char) : Reading :=
  let b := (stringBody quote (cs.drop 1)).after (cs.take 1)
  { taken := b.taken
    rest := b.rest
    result := if b.closed then .ok .string else .error (.unterminatedString, 0) }

/-- A piece of a template up to its closing quote or the next substitution. `opens` when it is a
substitution that ends the piece. -/
structure TemplateBody where
  taken : List Char
  rest : List Char
  closed : Bool
  opens : Bool

def TemplateBody.after (front : List Char) (b : TemplateBody) : TemplateBody :=
  { b with taken := front ++ b.taken }

def templateBody : List Char → TemplateBody
  | '\\' :: '\r' :: '\n' :: cs => (templateBody cs).after ['\\', '\r', '\n']
  | '\\' :: c :: cs => (templateBody cs).after ['\\', c]
  | '\\' :: [] => ⟨['\\'], [], false, false⟩
  | '\x60' :: cs => ⟨['\x60'], cs, true, false⟩
  | '$' :: '\x7b' :: cs => ⟨['$', '\x7b'], cs, true, true⟩
  | c :: cs => (templateBody cs).after [c]
  | [] => ⟨[], [], false, false⟩

/-- A piece of a template; `first` when it opens the template. -/
def template (first : Bool) (cs : List Char) : Reading :=
  let b := (templateBody (cs.drop 1)).after (cs.take 1)
  { taken := b.taken
    rest := b.rest
    result :=
      if b.closed then
        .ok (.template (match first, b.opens with
          | true, false => .whole
          | true, true => .head
          | false, true => .middle
          | false, false => .tail))
      else .error (.unterminatedTemplate, 0) }

/-- A regular expression up to its closing slash; `inClass` between square brackets. -/
def regexBody (inClass : Bool) : List Char → Body
  | [] => ⟨[], [], false⟩
  | c :: cs =>
    if isLineEnd c then ⟨[], c :: cs, false⟩
    else if c = '/' && !inClass then ⟨[c], cs, true⟩
    else if c = '\\' then
      match cs with
      | [] => ⟨[c], [], false⟩
      | d :: ds =>
        if isLineEnd d then ⟨[c], d :: ds, false⟩ else (regexBody inClass ds).after [c, d]
    else if c = '[' then (regexBody true cs).after [c]
    else if c = ']' then (regexBody false cs).after [c]
    else (regexBody inClass cs).after [c]

def regex (cs : List Char) : Reading :=
  let b := (regexBody false (cs.drop 1)).after (cs.take 1)
  if b.closed then
    { taken := b.taken ++ b.rest.takeWhile isNamePart
      rest := b.rest.dropWhile isNamePart
      result := .ok .regex }
  else { taken := b.taken, rest := b.rest, result := .error (.unterminatedRegex, 0) }

/-- Operators and brackets, the longer before the shorter. -/
def punctuators : List String := [
  ">>>=", "...", "===", "!==", "**=", "<<=", ">>=", ">>>", "&&=", "||=", "??=", "=>", "==",
  "!=", "<=", ">=", "&&", "||", "??", "?.", "++", "--", "+=", "-=", "*=", "/=", "%=", "&=",
  "|=", "^=", "**", "<<", ">>", "\x7b", "\x7d", "(", ")", "[", "]", ";", ",", "<", ">", "+", "-",
  "*", "/", "%", "&", "|", "^", "!", "~", "?", ":", "=", ".", "@", "#"]

/-- The longest punctuator in front. A question mark and a point are two when a digit follows. -/
def punctuator? (cs : List Char) : Option (List Char) :=
  match (punctuators.map String.toList).find? (·.isPrefixOf cs) with
  | some ['?', '.'] => if (cs.drop 2).head?.any Char.isDigit then some ['?'] else some ['?', '.']
  | p => p

def punctuator (cs : List Char) : Reading :=
  match punctuator? cs with
  | some p => { taken := p, rest := cs.drop p.length, result := .ok .punctuator }
  | none =>
    { taken := []
      rest := cs
      result := .error (.invalidCharacter (cs.head?.getD '\x00'), 0) }

/-! Nothing is lost: what is taken and what is left make up the text. -/

theorem commentBody_append (cs : List Char) :
    (commentBody cs).taken ++ (commentBody cs).rest = cs := by
  fun_induction commentBody cs <;> simp_all [Body.after]

theorem nameTail_append (cs : List Char) :
    (nameTail cs).name ++ (nameTail cs).broken.getD [] ++ (nameTail cs).rest = cs := by
  fun_induction nameTail cs with
  | case1 => rfl
  | case2 cs e he ih =>
    simp only [NameReading.after, List.append_assoc] at ih ⊢
    rw [ih]
    exact escape_append _
  | case3 cs e he => simpa using escape_append _
  | case4 c cs hc hn ih => simpa [NameReading.after] using ih
  | case5 => rfl

theorem digitRun_append (p : Char → Bool) (b : Bool) (cs : List Char) :
    (digitRun p b cs).1 ++ (digitRun p b cs).2 = cs := by
  fun_induction digitRun p b cs <;> grind

theorem endNumber_append (a b : List Char) :
    (endNumber a b).taken ++ (endNumber a b).rest = a ++ b := rfl

theorem bigMark_append (cs : List Char) : (bigMark cs).1 ++ (bigMark cs).2 = cs := by
  unfold bigMark; split <;> rfl

theorem exponentSign_append (cs : List Char) :
    (exponentSign cs).1 ++ (exponentSign cs).2 = cs := by
  unfold exponentSign; split <;> rfl

theorem radixNumber_append (p : Char → Bool) (front cs : List Char) :
    (radixNumber p front cs).taken ++ (radixNumber p front cs).rest = front ++ cs := by
  have h := digitRun_append p false cs
  have hb := bigMark_append (digitRun p false cs).2
  unfold radixNumber
  dsimp only
  split
  · rename_i he
    rw [List.isEmpty_iff] at he
    rw [he] at h
    simpa using h
  · rw [endNumber_append, List.append_assoc, List.append_assoc, hb, h]

theorem numberEnd_append (b : Bool) (front cs : List Char) :
    (numberEnd b front cs).taken ++ (numberEnd b front cs).rest = front ++ cs := by
  unfold numberEnd
  split
  · rename_i c cs
    split
    · have hs := exponentSign_append cs
      have hd := digitRun_append Char.isDigit false (exponentSign cs).2
      dsimp only
      split
      · simp [hd, hs]
      · rw [endNumber_append]; simp [hd, hs]
    · split
      · rename_i h
        simp only [Bool.and_eq_true, decide_eq_true_eq] at h
        rw [endNumber_append]; simp [h.2]
      · rfl
  · rfl

theorem decimalNumber_append (cs : List Char) :
    (decimalNumber cs).taken ++ (decimalNumber cs).rest = cs := by
  have h := digitRun_append Char.isDigit false cs
  unfold decimalNumber
  dsimp only
  split
  · rename_i rest hr
    rw [numberEnd_append, List.append_assoc, digitRun_append]
    rw [hr] at h
    simpa using h
  · rw [numberEnd_append, h]

theorem number_append (cs : List Char) : (number cs).taken ++ (number cs).rest = cs := by
  unfold number
  split
  · split
    · rw [radixNumber_append]; rfl
    · exact decimalNumber_append _
  · exact decimalNumber_append _

theorem stringBody_append (q : Char) (cs : List Char) :
    (stringBody q cs).taken ++ (stringBody q cs).rest = cs := by
  fun_induction stringBody q cs <;> simp_all [Body.after]

theorem templateBody_append (cs : List Char) :
    (templateBody cs).taken ++ (templateBody cs).rest = cs := by
  fun_induction templateBody cs <;> simp_all [TemplateBody.after]

theorem regexBody_append (b : Bool) (cs : List Char) :
    (regexBody b cs).taken ++ (regexBody b cs).rest = cs := by
  fun_induction regexBody b cs <;> simp_all [Body.after]

theorem punctuator?_isPrefix {cs p : List Char} (h : punctuator? cs = some p) :
    p ≠ [] ∧ p <+: cs := by
  have key : ∀ {q}, (punctuators.map String.toList).find? (·.isPrefixOf cs) = some q →
      q ≠ [] ∧ q <+: cs := by
    intro q hq
    refine ⟨?_, List.isPrefixOf_iff_prefix.1 (by simpa using List.find?_some hq)⟩
    have hm := List.mem_of_find?_eq_some hq
    have all : ∀ x ∈ punctuators.map String.toList, x ≠ [] := by decide
    exact all q hm
  unfold punctuator? at h
  split at h
  · rename_i hq
    obtain ⟨t, ht⟩ := (key hq).2
    split at h <;> cases h
    · exact ⟨by simp, ⟨'.' :: t, by simpa using ht⟩⟩
    · exact key hq
  · exact key h

/-- A reading splits the text `cs`, and finds a token only in a piece that is not empty. -/
structure Reading.Splits (r : Reading) (cs : List Char) : Prop where
  append : r.taken ++ r.rest = cs
  ne_nil : ∀ kind, r.result = .ok kind → r.taken ≠ []

theorem blanks_splits {c : Char} (cs : List Char) (h : (isLineEnd c || isBlank c) = true) :
    (blanks (c :: cs)).Splits (c :: cs) :=
  ⟨List.takeWhile_append_dropWhile, fun _ _ => by simp [blanks, h]⟩

theorem lineComment_splits (c : Char) (cs : List Char) :
    (lineComment (c :: cs)).Splits (c :: cs) := by
  refine ⟨?_, fun _ _ => by simp [lineComment]⟩
  simp only [lineComment, List.append_assoc, List.takeWhile_append_dropWhile]
  exact List.take_append_drop _ _

theorem blockComment_splits (c : Char) (cs : List Char) :
    (blockComment (c :: cs)).Splits (c :: cs) := by
  refine ⟨?_, fun _ _ => by simp [blockComment, Body.after]⟩
  simp only [blockComment, Body.after, List.append_assoc, commentBody_append]
  exact List.take_append_drop _ _

theorem name_splits {c : Char} (cs : List Char) (h : (isNameStart c || c = '\\') = true) :
    (name (c :: cs)).Splits (c :: cs) := by
  have ha := nameTail_append (c :: cs)
  unfold name
  dsimp only
  split
  · rename_i hb
    refine ⟨by simpa [hb] using ha, fun _ _ => ?_⟩
    rw [nameTail] at hb ⊢
    split
    · rename_i hc
      simp only [hc, if_true] at hb
      split at hb
      · rename_i he
        have := escape_closed he
        have hs := congrArg List.length (escape_append ('\\' :: cs))
        rw [List.length_append] at hs
        simp only [hc, he, dite_true, NameReading.after]
        intro hn
        rw [List.append_eq_nil_iff] at hn
        rw [hn.1] at hs
        simp only [List.length_nil] at hs
        omega
      · simp at hb
    · rename_i hc
      have hp : isNamePart c = true := isNamePart_of_isNameStart (by simpa [hc] using h)
      simp [hp, NameReading.after]
  · rename_i part hb
    refine ⟨by simpa [hb] using ha, fun _ h => by simp at h⟩

theorem digitRun_ne_nil {p : Char → Bool} {b : Bool} {c : Char} (cs : List Char)
    (h : p c = true) : (digitRun p b (c :: cs)).1 ≠ [] := by
  simp [digitRun, h]

theorem numberEnd_ne_nil {b : Bool} {front : List Char} (cs : List Char) (h : front ≠ []) :
    (numberEnd b front cs).taken ≠ [] := by
  unfold numberEnd
  split
  · split
    · dsimp only
      split <;> simp [h, endNumber]
    · split <;> simp [h, endNumber]
  · exact h

theorem decimalNumber_ne_nil {c : Char} {cs : List Char}
    (h : (c.isDigit || (c = '.' && cs.head?.any Char.isDigit)) = true) :
    (decimalNumber (c :: cs)).taken ≠ [] := by
  unfold decimalNumber
  dsimp only
  split
  · exact numberEnd_ne_nil _ (by simp)
  · rename_i hr
    refine numberEnd_ne_nil _ ?_
    by_cases hd : c.isDigit = true
    · exact digitRun_ne_nil cs hd
    · simp only [hd, Bool.false_or, Bool.and_eq_true, decide_eq_true_eq] at h
      exfalso
      refine hr cs ?_
      simp [h.1, digitRun]

theorem number_splits {c : Char} {cs : List Char}
    (h : (c.isDigit || (c = '.' && cs.head?.any Char.isDigit)) = true) :
    (number (c :: cs)).Splits (c :: cs) := by
  refine ⟨number_append _, fun _ _ => ?_⟩
  unfold number
  split
  · split
    · unfold radixNumber
      dsimp only
      split <;> simp [endNumber]
    · exact decimalNumber_ne_nil h
  · exact decimalNumber_ne_nil h

theorem string_splits (q c : Char) (cs : List Char) : (string q (c :: cs)).Splits (c :: cs) := by
  refine ⟨?_, fun _ _ => by simp [string, Body.after]⟩
  simp only [string, Body.after, List.append_assoc, stringBody_append]
  exact List.take_append_drop _ _

theorem template_splits (b : Bool) (c : Char) (cs : List Char) :
    (template b (c :: cs)).Splits (c :: cs) := by
  refine ⟨?_, fun _ _ => by simp [template, TemplateBody.after]⟩
  simp only [template, TemplateBody.after, List.append_assoc, templateBody_append]
  exact List.take_append_drop _ _

theorem regex_splits (c : Char) (cs : List Char) : (regex (c :: cs)).Splits (c :: cs) := by
  have h := regexBody_append false cs
  unfold regex
  dsimp only
  split
  · refine ⟨?_, fun _ _ => by simp [Body.after]⟩
    simp [Body.after, List.takeWhile_append_dropWhile, h]
  · exact ⟨by simp [Body.after, h], fun _ h => by simp at h⟩

theorem punctuator_splits (cs : List Char) : (punctuator cs).Splits cs := by
  unfold punctuator
  split
  · rename_i p hp
    have h := punctuator?_isPrefix hp
    exact ⟨prefix_append_drop h.2, fun _ _ => h.1⟩
  · exact ⟨rfl, fun _ h => by simp at h⟩

end Scan

end Minify
