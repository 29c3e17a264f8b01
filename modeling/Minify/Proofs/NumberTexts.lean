import Mathlib
import Minify.Proofs.ScannedTexts

/-!
What the scanner of numbers takes does not depend on what follows, unless a letter, a digit or an
escape does, or a point after a whole decimal number.
-/

namespace Minify.Scan

open Text

lemma digitRun_mem {p : Char → Bool} {inside : Bool} {cs : List Char} {c : Char}
    (h : c ∈ (digitRun p inside cs).1) : p c = true ∨ c = '_' := by
  fun_induction digitRun p inside cs with
  | case1 => cases h
  | case2 inside d ds hd r ih =>
    rcases List.mem_cons.mp h with rfl | h
    · exact Or.inl hd
    · exact ih h
  | case3 inside d ds hd hunder r ih =>
    rcases List.mem_cons.mp h with rfl | h
    · exact Or.inr (by simp_all)
    · exact ih h
  | case4 => cases h

lemma digitRun_of_stop {p : Char → Bool} {inside : Bool} {more : List Char}
    (h : more.head?.any (fun c => p c || c = '_') = false) :
    digitRun p inside more = ([], more) := by
  cases more with
  | nil => rfl
  | cons c cs =>
    have hc : p c = false ∧ c ≠ '_' := by simpa using h
    simp [digitRun, hc.1, hc.2]

lemma digitRun_local {p : Char → Bool} (inside : Bool) (cs : List Char) {more : List Char}
    (h : more.head?.any (fun c => p c || c = '_') = false) :
    digitRun p inside ((digitRun p inside cs).1 ++ more) = ((digitRun p inside cs).1, more) := by
  fun_induction digitRun p inside cs with
  | case1 => exact digitRun_of_stop h
  | case2 inside d ds hd r ih =>
    change digitRun p inside (d :: (r.1 ++ more)) = (d :: r.1, more)
    rw [digitRun, if_pos hd, ih]
  | case3 inside d ds hd hunder r ih =>
    change digitRun p inside (d :: (r.1 ++ more)) = (d :: r.1, more)
    simp only [Bool.and_eq_true, decide_eq_true_eq] at hunder
    obtain ⟨e, es, rfl⟩ : ∃ e es, ds = e :: es := by
      cases ds with
      | nil => simp at hunder
      | cons e es => exact ⟨e, es, rfl⟩
    have he : p e = true := by simpa using hunder.2
    have hhead : (r.1 ++ more).head?.any p = true := by
      simp [r, digitRun, he]
    rw [digitRun, if_neg hd, if_pos (by rw [hhead]; simp [hunder.1]), ih]
  | case4 => exact digitRun_of_stop h

/-! ### Whole numbers -/

/-- A letter, a digit or an escape comes next, which a number may not stand in front of. -/
def wordFollows (more : List Char) : Bool :=
  more.head?.any fun c => isNameStart c || c.isDigit || c = '\\'

/-- The digits of a decimal number without a point, an exponent or a mark. -/
def isWhole (taken : List Char) : Bool := taken.all fun c => c.isDigit || c = '_'

lemma head_of_wordFollows {more : List Char} (h : wordFollows more = false) {c : Char}
    (hc : more.head? = some c) : isNameStart c = false ∧ c.isDigit = false ∧ c ≠ '\\' := by
  simpa [wordFollows, hc, and_assoc] using h

lemma isNameStart_or_isDigit {c : Char} (h : isHexDigit c = true) :
    isNameStart c = true ∨ c.isDigit = true := by
  have hletter (h : ('a' ≤ c ∧ c ≤ 'f') ∨ ('A' ≤ c ∧ c ≤ 'F')) : isNameStart c = true := by
    have halpha : c.isAlpha = true := by
      simp only [Char.isAlpha, Char.isLower, Char.isUpper, Char.le_def, Bool.or_eq_true,
        Bool.and_eq_true, decide_eq_true_eq, UInt32.le_iff_toNat_le] at h ⊢
      grind
    simp [isNameStart, halpha]
  simp only [isHexDigit, Bool.or_eq_true, Bool.and_eq_true, decide_eq_true_eq] at h
  rcases h with (h | h) | h
  · exact Or.inr h
  · exact Or.inl (hletter (Or.inl h))
  · exact Or.inl (hletter (Or.inr h))

lemma digits_stop {p : Char → Bool} (hp : ∀ c, p c = true → isHexDigit c = true)
    {more : List Char} (h : wordFollows more = false) :
    more.head?.any (fun c => p c || c = '_') = false := by
  cases hm : more.head? with
  | none => rfl
  | some c =>
    obtain ⟨hstart, hdigit, -⟩ := head_of_wordFollows h hm
    have hunder : c ≠ '_' := by
      rintro rfl
      exact absurd hstart (by decide)
    have hclass : p c = false := by
      rw [Bool.eq_false_iff]
      intro hc
      rcases isNameStart_or_isDigit (hp c hc) with hc | hc <;> simp_all
    simp [hclass, hunder]

lemma isHexDigit_of_isDigit {c : Char} (h : c.isDigit = true) : isHexDigit c = true := by
  simp [isHexDigit, h]

lemma endNumber_ok {taken rest : List Char} {kind : TokenKind}
    (h : (endNumber taken rest).result = .ok kind) : kind = .number ∧ wordFollows rest = false := by
  unfold endNumber at h
  dsimp only at h
  split at h
  · cases h
  · rename_i hhead
    cases h
    exact ⟨rfl, by simpa [wordFollows] using hhead⟩

lemma endNumber_of_stop (taken : List Char) {more : List Char} (h : wordFollows more = false) :
    endNumber taken more = ⟨taken, more, .ok .number⟩ := by
  unfold endNumber
  rw [if_neg]
  simpa [wordFollows] using h

/-- The sign of an exponent is read the same in front of other digits. -/
lemma exponentSign_local (cs : List Char) {d : Char} (hd : d.isDigit = true ∨ d = '_')
    (ds : List Char) :
    exponentSign ((exponentSign cs).1 ++ d :: ds) = ((exponentSign cs).1, d :: ds) := by
  fun_cases exponentSign cs with
  | case1 => rfl
  | case2 => rfl
  | case3 =>
    change exponentSign (d :: ds) = ([], d :: ds)
    unfold exponentSign
    split <;> simp_all

lemma numberEnd_of_stop (whole : Bool) (front : List Char) {more : List Char}
    (h : wordFollows more = false) :
    numberEnd whole front more = ⟨front, more, .ok .number⟩ := by
  cases more with
  | nil => exact endNumber_of_stop front h
  | cons c cs =>
    obtain ⟨hstart, -, -⟩ := head_of_wordFollows h rfl
    have hletter {l : Char} (hl : isNameStart l = true) : c ≠ l := by
      rintro rfl
      simp_all
    rw [numberEnd, if_neg (by simp [hletter (l := 'e') rfl, hletter (l := 'E') rfl]),
      if_neg (by simp [hletter (l := 'n') rfl])]
    exact endNumber_of_stop front h

/-- What follows the digits of a decimal number, the same in front of any text that does not go on
with it. It begins with a letter, if there is anything. -/
structure NumberTail (whole : Bool) (front suffix : List Char) : Prop where
  head : ∀ c ∈ suffix.head?, c = 'e' ∨ c = 'E' ∨ c = 'n'
  again : ∀ more, wordFollows more = false →
    numberEnd whole front (suffix ++ more) = ⟨front ++ suffix, more, .ok .number⟩

variable {whole : Bool} {front : List Char}

lemma numberTail_nil : NumberTail whole front [] := by
  refine ⟨nofun, fun more hm => ?_⟩
  rw [List.append_nil]
  exact numberEnd_of_stop whole front hm

lemma numberTail_mark (hw : whole = true) : NumberTail whole front ['n'] := by
  refine ⟨by simp, fun more hm => ?_⟩
  rw [List.singleton_append, numberEnd, if_neg (by decide), if_pos (by simp [hw])]
  exact endNumber_of_stop _ hm

lemma numberTail_exponent {c : Char} (hc : c = 'e' ∨ c = 'E') {cs digits : List Char}
    (hdigits : (digitRun Char.isDigit false (exponentSign cs).2).1 = digits) (hne : digits ≠ []) :
    NumberTail whole front (c :: ((exponentSign cs).1 ++ digits)) := by
  refine ⟨by simpa [← or_assoc] using Or.inl hc, fun more hm => ?_⟩
  have hlocal := digitRun_local (p := Char.isDigit) false (exponentSign cs).2
    (digits_stop (fun _ => isHexDigit_of_isDigit) hm)
  obtain ⟨d, ds, rfl⟩ := List.exists_cons_of_ne_nil hne
  have hmem : d ∈ (digitRun Char.isDigit false (exponentSign cs).2).1 := by
    rw [hdigits]
    exact List.mem_cons_self
  have hd : d.isDigit = true ∨ d = '_' := digitRun_mem hmem
  rw [hdigits] at hlocal
  rw [List.cons_append, numberEnd, if_pos (by simpa using hc), List.append_assoc, List.cons_append,
    exponentSign_local cs hd]
  dsimp only
  rw [← List.cons_append, hlocal, if_neg (by simp), endNumber_of_stop _ hm]
  simp

lemma numberEnd_ok {cs : List Char} {kind : TokenKind}
    (h : (numberEnd whole front cs).result = .ok kind) :
    kind = .number ∧ wordFollows (numberEnd whole front cs).rest = false ∧
      ∃ suffix, (numberEnd whole front cs).taken = front ++ suffix ∧
        NumberTail whole front suffix := by
  have hbare {rest : List Char} (h : (endNumber front rest).result = .ok kind) :
      kind = .number ∧ wordFollows (endNumber front rest).rest = false ∧
        ∃ suffix, (endNumber front rest).taken = front ++ suffix ∧ NumberTail whole front suffix :=
    ⟨(endNumber_ok h).1, (endNumber_ok h).2, [], (List.append_nil _).symm, numberTail_nil⟩
  cases cs with
  | nil => exact hbare h
  | cons c cs =>
    by_cases he : (decide (c = 'e') || decide (c = 'E')) = true
    · rw [numberEnd, if_pos he] at h ⊢
      dsimp only at h ⊢
      split at h
      · cases h
      · rename_i hne
        rw [if_neg hne]
        refine ⟨(endNumber_ok h).1, (endNumber_ok h).2, _, ?_,
          numberTail_exponent (by simpa using he) rfl (by simpa using hne)⟩
        simp [endNumber]
    · by_cases hn : (whole && decide (c = 'n')) = true
      · rw [numberEnd, if_neg he, if_pos hn] at h ⊢
        exact ⟨(endNumber_ok h).1, (endNumber_ok h).2, ['n'], rfl,
          numberTail_mark (Bool.and_eq_true_iff.mp hn).1⟩
      · rw [numberEnd, if_neg he, if_neg hn] at h ⊢
        exact hbare h

/-- The text `more` goes on with the number, or the number may not stand in front of it. -/
def numberGoesOn (taken more : List Char) : Bool :=
  wordFollows more || (more.head? == some '.' && isWhole taken)

lemma numberGoesOn_eq_false {taken more : List Char} : numberGoesOn taken more = false ↔
    wordFollows more = false ∧ (more.head? = some '.' → isWhole taken = false) := by
  simp [numberGoesOn]

lemma isWhole_digitRun (inside : Bool) (cs : List Char) :
    isWhole (digitRun Char.isDigit inside cs).1 = true :=
  List.all_eq_true.mpr fun c hc => by simpa using digitRun_mem hc

lemma isWhole_eq_false {taken : List Char} {c : Char} (h : c ∈ taken) (hdigit : c.isDigit = false)
    (hunder : c ≠ '_') : isWhole taken = false := by
  rw [isWhole, List.all_eq_false]
  exact ⟨c, h, by simp [hdigit, hunder]⟩

/-- A number that stops at any letter, digit or escape, and nowhere else. -/
lemma Stable.of_not_whole {scanner : List Char → Reading} {r : Reading}
    (hwhole : isWhole r.taken = false) (hstop : wordFollows r.rest = false)
    (hagain : ∀ more, wordFollows more = false →
      scanner (r.taken ++ more) = ⟨r.taken, more, .ok .number⟩) :
    Stable scanner numberGoesOn r .number :=
  ⟨numberGoesOn_eq_false.mpr ⟨hstop, fun _ => hwhole⟩,
    fun more hm => hagain more (numberGoesOn_eq_false.mp hm).1⟩

lemma NumberTail.digits_stop {suffix more : List Char} (h : NumberTail whole front suffix)
    (hm : wordFollows more = false) :
    (suffix ++ more).head?.any (fun c => c.isDigit || c = '_') = false := by
  cases suffix with
  | nil => exact Scan.digits_stop (fun _ => isHexDigit_of_isDigit) hm
  | cons c cs =>
    have hc := h.head c rfl
    rw [List.cons_append, List.head?_cons, Option.any_some]
    rcases hc with rfl | rfl | rfl <;> rfl

/-- What follows the digits is no part of a whole number. -/
lemma NumberTail.isWhole_eq_false {suffix : List Char} (h : NumberTail whole front suffix)
    (hne : suffix ≠ []) : isWhole (front ++ suffix) = false := by
  obtain ⟨c, cs, rfl⟩ := List.exists_cons_of_ne_nil hne
  have hmem : c ∈ front ++ c :: cs := List.mem_append_right _ List.mem_cons_self
  rcases h.head c rfl with rfl | rfl | rfl <;> exact Scan.isWhole_eq_false hmem rfl (by decide)

lemma decimalNumber_point {cs digits rest : List Char}
    (h : digitRun Char.isDigit false cs = (digits, '.' :: rest)) :
    decimalNumber cs = numberEnd false (digits ++ ['.'] ++ (digitRun Char.isDigit false rest).1)
      (digitRun Char.isDigit false rest).2 := by
  simp only [decimalNumber, h]

lemma decimalNumber_whole {cs digits rest : List Char}
    (h : digitRun Char.isDigit false cs = (digits, rest)) (hrest : rest.head? ≠ some '.') :
    decimalNumber cs = numberEnd true digits rest := by
  simp only [decimalNumber, h]
  split
  · exact absurd rfl hrest
  · rfl

lemma stable_decimalNumber_point {cs digits rest : List Char} {kind : TokenKind}
    (hrun : digitRun Char.isDigit false cs = (digits, '.' :: rest))
    (h : (decimalNumber cs).result = .ok kind) :
    kind = .number ∧ Stable decimalNumber numberGoesOn (decimalNumber cs) .number := by
  obtain ⟨fraction, hfraction⟩ :
      ∃ fraction, (digitRun Char.isDigit false rest).1 = fraction := ⟨_, rfl⟩
  rw [decimalNumber_point hrun, hfraction] at h ⊢
  obtain ⟨hkind, hstop, suffix, htaken, htail⟩ := numberEnd_ok h
  refine ⟨hkind, .of_not_whole ?_ hstop fun more hm => ?_⟩
  · rw [htaken]
    exact isWhole_eq_false (c := '.') (by simp) rfl (by decide)
  · have hwhole : digitRun Char.isDigit false ((digitRun Char.isDigit false cs).1
          ++ '.' :: (fraction ++ (suffix ++ more)))
        = ((digitRun Char.isDigit false cs).1, '.' :: (fraction ++ (suffix ++ more))) :=
      digitRun_local false cs rfl
    have hrest := digitRun_local (p := Char.isDigit) false rest (htail.digits_stop hm)
    rw [hrun] at hwhole
    rw [hfraction] at hrest
    have htext : digits ++ ['.'] ++ fraction ++ suffix ++ more
        = digits ++ '.' :: (fraction ++ (suffix ++ more)) := by simp
    rw [htaken, htext, decimalNumber_point hwhole, hrest, htail.again more hm]

lemma stable_decimalNumber_whole {cs digits rest : List Char} {kind : TokenKind}
    (hrun : digitRun Char.isDigit false cs = (digits, rest)) (hpoint : rest.head? ≠ some '.')
    (h : (decimalNumber cs).result = .ok kind) :
    kind = .number ∧ Stable decimalNumber numberGoesOn (decimalNumber cs) .number := by
  rw [decimalNumber_whole hrun hpoint] at h ⊢
  obtain ⟨hkind, hstop, suffix, htaken, htail⟩ := numberEnd_ok h
  have hagain {more : List Char} (hm : wordFollows more = false)
      (hne : (suffix ++ more).head? ≠ some '.') :
      decimalNumber (digits ++ suffix ++ more) = ⟨digits ++ suffix, more, .ok .number⟩ := by
    have hwhole := digitRun_local (p := Char.isDigit) false cs (htail.digits_stop hm)
    rw [hrun] at hwhole
    rw [List.append_assoc, decimalNumber_whole hwhole hne, htail.again more hm]
  refine ⟨hkind, ?_⟩
  cases suffix with
  | nil =>
    -- the digits are all of the number, so a point would go on with it
    rw [List.append_nil] at htaken
    have hdigits : isWhole digits = true := by
      have hall := isWhole_digitRun false cs
      rwa [hrun] at hall
    have happ := numberEnd_append true digits rest
    rw [htaken] at happ
    have hrest : (numberEnd true digits rest).rest = rest := List.append_cancel_left happ
    refine ⟨numberGoesOn_eq_false.mpr ⟨hstop, fun hhead => ?_⟩, fun more hm => ?_⟩
    · rw [hrest] at hhead
      exact absurd hhead hpoint
    · obtain ⟨hword, hhead⟩ := numberGoesOn_eq_false.mp hm
      rw [htaken] at hhead ⊢
      have hne : more.head? ≠ some '.' := fun hdot => by simp [hdigits] at hhead; exact hhead hdot
      simpa using hagain hword hne
  | cons c suffix =>
    refine .of_not_whole ?_ hstop fun more hm => ?_
    · rw [htaken]
      exact htail.isWhole_eq_false (List.cons_ne_nil _ _)
    · rw [htaken]
      refine hagain hm ?_
      rw [List.cons_append, List.head?_cons]
      rcases htail.head c rfl with rfl | rfl | rfl <;> decide

lemma decimalNumber_ok {cs : List Char} {kind : TokenKind}
    (h : (decimalNumber cs).result = .ok kind) :
    kind = .number ∧ Stable decimalNumber numberGoesOn (decimalNumber cs) .number := by
  by_cases hpoint : (digitRun Char.isDigit false cs).2.head? = some '.'
  · obtain ⟨rest, hrest⟩ := List.head?_eq_some_iff.mp hpoint
    exact stable_decimalNumber_point (Prod.ext rfl hrest) h
  · exact stable_decimalNumber_whole rfl hpoint h

lemma bigMark_local (cs : List Char) {more : List Char} (h : wordFollows more = false) :
    bigMark ((bigMark cs).1 ++ more) = ((bigMark cs).1, more) := by
  fun_cases bigMark cs with
  | case1 => rfl
  | case2 =>
    change bigMark more = ([], more)
    unfold bigMark
    split
    · exact absurd (head_of_wordFollows h rfl).1 (by decide)
    · rfl

lemma bigMark_cases (cs : List Char) : (bigMark cs).1 = [] ∨ (bigMark cs).1 = ['n'] := by
  unfold bigMark
  split
  · exact Or.inr rfl
  · exact Or.inl rfl

/-- The letter that announces the digits begins a name, and the digits are hexadecimal ones. -/
lemma radixDigits?_some {x : Char} {p : Char → Bool} (h : radixDigits? x = some p) :
    isNameStart x = true ∧ x.isDigit = false ∧ x ≠ '_' ∧ ∀ c, p c = true → isHexDigit c = true := by
  have hdigit {c : Char} (hc : c.isDigit = true) : isHexDigit c = true := by simp [isHexDigit, hc]
  have hoctal (c : Char) (hc : (decide ('0' ≤ c) && decide (c ≤ '7')) = true) :
      isHexDigit c = true := by
    refine hdigit ?_
    simp only [Char.isDigit, Char.le_def, Bool.and_eq_true, decide_eq_true_eq,
      UInt32.le_iff_toNat_le] at hc ⊢
    grind
  have hbinary (c : Char) (hc : (decide (c = '0') || decide (c = '1')) = true) :
      isHexDigit c = true := by
    simp only [Bool.or_eq_true, decide_eq_true_eq] at hc
    rcases hc with rfl | rfl <;> rfl
  revert h
  fun_cases radixDigits? x <;> intro h <;> cases h
  · exact ⟨rfl, rfl, by decide, fun _ hc => hc⟩
  · exact ⟨rfl, rfl, by decide, fun _ hc => hc⟩
  · exact ⟨rfl, rfl, by decide, hoctal⟩
  · exact ⟨rfl, rfl, by decide, hoctal⟩
  · exact ⟨rfl, rfl, by decide, hbinary⟩
  · exact ⟨rfl, rfl, by decide, hbinary⟩

lemma number_radix {x : Char} {p : Char → Bool} (h : radixDigits? x = some p) (rest : List Char) :
    number ('0' :: x :: rest) = radixNumber p ['0', x] rest := by
  simp [number, h]

lemma number_decimal {cs : List Char}
    (h : ∀ x rest, cs = '0' :: x :: rest → radixDigits? x = none) :
    number cs = decimalNumber cs := by
  unfold number
  split
  · rename_i x rest
    rw [h x rest rfl]
  · rfl

lemma stable_number_radix {x : Char} {p : Char → Bool} (hx : radixDigits? x = some p)
    {rest : List Char} {kind : TokenKind} (h : (number ('0' :: x :: rest)).result = .ok kind) :
    kind = .number ∧ Stable number numberGoesOn (number ('0' :: x :: rest)) .number := by
  obtain ⟨hstart, hdigit, hunder, hp⟩ := radixDigits?_some hx
  rw [number_radix hx, radixNumber] at h ⊢
  dsimp only at h ⊢
  split at h
  · cases h
  · rename_i hne
    rw [if_neg hne]
    refine ⟨(endNumber_ok h).1, .of_not_whole ?_ (endNumber_ok h).2 fun more hm => ?_⟩
    · exact isWhole_eq_false (c := x) (by simp [endNumber]) hdigit hunder
    · have hstop : ((bigMark (digitRun p false rest).2).1 ++ more).head?.any
          (fun c => p c || c = '_') = false := by
        rcases bigMark_cases (digitRun p false rest).2 with hbig | hbig <;> rw [hbig]
        · exact digits_stop hp hm
        · have hn : p 'n' = false := by
            rw [Bool.eq_false_iff]
            exact fun hpn => absurd (hp 'n' hpn) (by decide)
          simp [hn]
      have hlocal := digitRun_local false rest hstop
      have htext : ['0', x] ++ (digitRun p false rest).1 ++ (bigMark (digitRun p false rest).2).1
            ++ more
          = '0' :: x :: ((digitRun p false rest).1
              ++ ((bigMark (digitRun p false rest).2).1 ++ more)) := by simp
      change number (_ ++ more) = _
      rw [endNumber, htext, number_radix hx, radixNumber]
      dsimp only
      rw [hlocal, if_neg hne]
      dsimp only
      rw [bigMark_local _ hm, endNumber_of_stop _ hm]

lemma number_ok {cs : List Char} {kind : TokenKind} (h : (number cs).result = .ok kind) :
    kind = .number ∧ Stable number numberGoesOn (number cs) .number := by
  by_cases hradix : ∃ x rest p, cs = '0' :: x :: rest ∧ radixDigits? x = some p
  · obtain ⟨x, rest, p, rfl, hx⟩ := hradix
    exact stable_number_radix hx h
  · have hnone {x : Char} {rest : List Char} (hcs : cs = '0' :: x :: rest) :
        radixDigits? x = none := by
      cases hx : radixDigits? x with
      | none => rfl
      | some p => exact absurd ⟨x, rest, p, hcs, hx⟩ hradix
    rw [number_decimal fun x rest => hnone] at h ⊢
    obtain ⟨hkind, hstable⟩ := decimalNumber_ok h
    have happ := decimalNumber_append cs
    refine ⟨hkind, hstable.stop, fun more hm => ?_⟩
    rw [← hstable.again more hm]
    refine number_decimal fun x rest htext => ?_
    obtain ⟨hword, -⟩ := numberGoesOn_eq_false.mp hm
    -- the letter is read already, or it comes right after the number
    match htaken : (decimalNumber cs).taken with
    | [] =>
      rw [htaken, List.nil_append] at htext
      rw [htext] at hword
      cases hword
    | [c] =>
      rw [htaken, List.singleton_append] at htext
      obtain ⟨rfl, rfl⟩ := List.cons_eq_cons.mp htext
      cases hx : radixDigits? x with
      | none => rfl
      | some p =>
        have hstart := (radixDigits?_some hx).1
        rw [(head_of_wordFollows hword rfl).1] at hstart
        cases hstart
    | c :: d :: ds =>
      rw [htaken] at htext happ
      obtain ⟨rfl, hrest⟩ := List.cons_eq_cons.mp htext
      obtain ⟨rfl, -⟩ := List.cons_eq_cons.mp hrest
      exact hnone happ.symm

end Minify.Scan
