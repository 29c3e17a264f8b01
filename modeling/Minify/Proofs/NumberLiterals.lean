import Mathlib
import Minify.Proofs.LexerRun
import Minify.Proofs.NumberTexts

/-!
Number literals by their grammar.

The scanner of numbers never goes back: it takes all digits of a run, then a point, an exponent or a
mark as soon as one stands there. Still it takes the longest literal that the text begins with. A
run of digits ends where the next part of a literal begins, so every literal in front of the text
has the parts that the scanner finds, as far as it goes. Where the scanner gives up, after the
letter of a radix or of an exponent without digits, that letter follows the longest literal, and no
number may stand in front of a letter.
-/

namespace Minify.Scan

open Text

/-! ### The grammar -/

/-- One digit or more, with single underscores between them. -/
inductive DigitText (isDigit : Char → Bool) : List Char → Prop
  | one {c : Char} (hc : isDigit c = true) : DigitText isDigit [c]
  | next {c : Char} {ds : List Char} (hc : isDigit c = true) (hds : DigitText isDigit ds) :
      DigitText isDigit (c :: ds)
  | parted {c : Char} {ds : List Char} (hc : isDigit c = true) (hds : DigitText isDigit ds) :
      DigitText isDigit (c :: '_' :: ds)

/-- The letters of the radices other than ten, and their digits. -/
inductive RadixLetter : Char → (Char → Bool) → Prop
  | hexadecimal {x : Char} (hx : x = 'x' ∨ x = 'X') : RadixLetter x isHexDigit
  | octal {x : Char} (hx : x = 'o' ∨ x = 'O') : RadixLetter x fun c => '0' ≤ c && c ≤ '7'
  | binary {x : Char} (hx : x = 'b' ∨ x = 'B') : RadixLetter x fun c => c = '0' || c = '1'

/-- A letter, a sign that may be missing, and digits. -/
inductive Exponent : List Char → Prop
  | mk {e : Char} {sign ds : List Char} (he : e = 'e' ∨ e = 'E')
      (hsign : sign = [] ∨ sign = ['+'] ∨ sign = ['-']) (hds : DigitText Char.isDigit ds) :
      Exponent (e :: (sign ++ ds))

/-- A literal in radix ten: a whole number, with the mark of a big integer or without; or a number
with a point, digits on one side of it at least, an exponent, or both. -/
inductive DecimalLiteral : List Char → Prop
  | whole {ds big : List Char} (hds : DigitText Char.isDigit ds) (hbig : big = [] ∨ big = ['n']) :
      DecimalLiteral (ds ++ big)
  | point {ds fs exponent : List Char} (hds : ds = [] ∨ DigitText Char.isDigit ds)
      (hfs : fs = [] ∨ DigitText Char.isDigit fs) (hne : ds ≠ [] ∨ fs ≠ [])
      (hexponent : exponent = [] ∨ Exponent exponent) :
      DecimalLiteral (ds ++ '.' :: (fs ++ exponent))
  | exponent {ds exponent : List Char} (hds : DigitText Char.isDigit ds)
      (hexponent : Exponent exponent) : DecimalLiteral (ds ++ exponent)

/-- A literal in any radix. -/
inductive NumberLiteral : List Char → Prop
  | decimal {cs : List Char} (h : DecimalLiteral cs) : NumberLiteral cs
  | radix {x : Char} {isDigit : Char → Bool} {ds big : List Char} (hx : RadixLetter x isDigit)
      (hds : DigitText isDigit ds) (hbig : big = [] ∨ big = ['n']) :
      NumberLiteral ('0' :: x :: (ds ++ big))

/-- The longest text of a kind that `cs` begins with, and what follows it. -/
structure Longest (Kind : List Char → Prop) (cs front rest : List Char) : Prop where
  split : cs = front ++ rest
  kind : Kind front
  longest : ∀ q, Kind q → q <+: cs → q.length ≤ front.length

/-- A reading that takes `front`, unless a letter, a digit or an escape follows; then it is a fault
at the start. -/
def Takes (front rest : List Char) (r : Reading) : Prop :=
  if wordFollows rest = true then r.result = .error (.malformedNumber, 0)
  else r = ⟨front, rest, .ok .number⟩

variable {p : Char → Bool} {c x : Char} {cs ds front more rest : List Char} {whole : Bool}

/-! ### Digits -/

lemma DigitText.exists_cons (h : DigitText p ds) : ∃ c cs, ds = c :: cs ∧ p c = true := by
  cases h with
  | one hc => exact ⟨_, _, rfl, hc⟩
  | next hc _ => exact ⟨_, _, rfl, hc⟩
  | parted hc _ => exact ⟨_, _, rfl, hc⟩

lemma DigitText.ne_nil (h : DigitText p ds) : ds ≠ [] := by
  obtain ⟨c, cs, rfl, -⟩ := h.exists_cons
  exact List.cons_ne_nil c cs

lemma DigitText.digitRun (h : DigitText p ds) (inside : Bool) (more : List Char) :
    digitRun p inside (ds ++ more)
      = (ds ++ (digitRun p true more).1, (digitRun p true more).2) := by
  induction h generalizing inside with
  | one hc => rw [List.singleton_append, Scan.digitRun, if_pos hc]; rfl
  | next hc _ ih => rw [List.cons_append, Scan.digitRun, if_pos hc, ih]; rfl
  | @parted c ds hc hds ih =>
    obtain ⟨d, ds', hcons, hd⟩ := hds.exists_cons
    have hunder : Scan.digitRun p true ('_' :: (ds ++ more))
        = ('_' :: (Scan.digitRun p true (ds ++ more)).1,
          (Scan.digitRun p true (ds ++ more)).2) := by
      rw [Scan.digitRun]
      split
      · rfl
      · rw [if_pos (by simp [hcons, hd])]
    rw [List.cons_append, List.cons_append, Scan.digitRun, if_pos hc, hunder, ih]
    rfl

/-- What is taken are digits. Inside of a run an underscore may come first. -/
lemma digitRun_cases (p : Char → Bool) (inside : Bool) (cs : List Char) :
    (digitRun p inside cs).1 = [] ∨ DigitText p (digitRun p inside cs).1 ∨
      inside = true ∧ ∃ ds, (digitRun p inside cs).1 = '_' :: ds ∧ DigitText p ds := by
  fun_induction digitRun p inside cs with
  | case1 => exact .inl rfl
  | case2 inside c cs hc r ih =>
    refine .inr (.inl ?_)
    rcases ih with hnil | hdigits | ⟨-, ds, hunder, hdigits⟩
    · exact hnil ▸ .one hc
    · exact .next hc hdigits
    · exact hunder ▸ .parted hc hdigits
  | case3 inside c cs hc hunder r ih =>
    simp only [Bool.and_eq_true, decide_eq_true_eq] at hunder
    obtain ⟨⟨rfl, hinside⟩, hnext⟩ := hunder
    obtain ⟨d, ds, rfl⟩ : ∃ d ds, cs = d :: ds := by
      cases cs with
      | nil => cases hnext
      | cons d ds => exact ⟨d, ds, rfl⟩
    have hd : p d = true := by simpa using hnext
    refine .inr (.inr ⟨hinside, r.1, rfl, ?_⟩)
    rcases ih with hnil | hdigits | ⟨-, es, hes, -⟩
    · exact absurd hnil (digitRun_ne_nil ds hd)
    · exact hdigits
    · rw [Scan.digitRun, if_pos hd] at hes
      exact absurd ((List.cons.inj hes).1 ▸ hd) hc
  | case4 => exact .inl rfl

lemma digitText_digitRun (p : Char → Bool) (cs : List Char) :
    (digitRun p false cs).1 = [] ∨ DigitText p (digitRun p false cs).1 := by
  rcases digitRun_cases p false cs with h | h | ⟨h, -⟩
  · exact .inl h
  · exact .inr h
  · cases h

/-- A text is the digits in front of it and what follows them. -/
lemma parts_of_digitRun {digits : List Char} (h : digitRun p false cs = (digits, rest)) :
    digits ++ rest = cs ∧ (digits = [] ∨ DigitText p digits) := by
  have happ := digitRun_append p false cs
  have hcases := digitText_digitRun p cs
  rw [h] at happ hcases
  exact ⟨happ, hcases⟩

lemma length_le_digitRun (h : ds = [] ∨ DigitText p ds) (more : List Char) :
    ds.length ≤ (digitRun p false (ds ++ more)).1.length := by
  rcases h with rfl | h
  · exact Nat.zero_le _
  · rw [h.digitRun, List.length_append]
    exact Nat.le_add_right _ _

lemma digitRun_eq (h : ds = [] ∨ DigitText p ds)
    (hmore : more.head?.any (fun c => p c || c = '_') = false) :
    digitRun p false (ds ++ more) = (ds, more) := by
  rcases h with rfl | h
  · exact digitRun_of_stop hmore
  · rw [h.digitRun, digitRun_of_stop hmore, List.append_nil]

/-! ### What follows the digits -/

lemma takes_endNumber (front rest : List Char) : Takes front rest (endNumber front rest) := by
  unfold Takes
  split
  · rename_i h
    exact if_pos h
  · rename_i h
    exact endNumber_of_stop front (Bool.eq_false_iff.mpr h)

lemma takes_of_letter {r : Reading} (hc : isNameStart c = true)
    (hr : r.result = .error (.malformedNumber, 0)) : Takes front (c :: cs) r := by
  rw [Takes, if_pos (by simp [wordFollows, hc])]
  exact hr

/-- An exponent, or for a whole number the mark of a big integer; or nothing. -/
def Suffix (whole : Bool) (cs : List Char) : Prop :=
  cs = [] ∨ Exponent cs ∨ whole = true ∧ cs = ['n']

lemma Exponent.exists_digits {q : List Char} (h : Exponent q) (hq : q <+: c :: cs) :
    (c = 'e' ∨ c = 'E') ∧ ∃ ds more, DigitText Char.isDigit ds ∧
      (exponentSign cs).2 = ds ++ more ∧ q = c :: ((exponentSign cs).1 ++ ds) := by
  obtain ⟨more, hmore⟩ := hq
  obtain @⟨e, sign, ds, he, hsign, hds⟩ := h
  rw [List.cons_append] at hmore
  obtain ⟨rfl, rfl⟩ := List.cons.inj hmore
  obtain ⟨d, ds', rfl, hd⟩ := hds.exists_cons
  have hself : (exponentSign sign).1 = sign := by rcases hsign with rfl | rfl | rfl <;> rfl
  have hsplit := exponentSign_local sign (.inl hd) (ds' ++ more)
  rw [hself] at hsplit
  refine ⟨he, d :: ds', more, hds, ?_, ?_⟩ <;>
    rw [List.append_assoc, List.cons_append, hsplit]

lemma longest_exponent (hc : c = 'e' ∨ c = 'E')
    (hne : (digitRun Char.isDigit false (exponentSign cs).2).1 ≠ []) :
    Longest (Suffix whole) (c :: cs)
      (c :: ((exponentSign cs).1 ++ (digitRun Char.isDigit false (exponentSign cs).2).1))
      (digitRun Char.isDigit false (exponentSign cs).2).2 := by
  refine ⟨?_, .inr (.inl ?_), fun q hq hpre => ?_⟩
  · rw [List.cons_append, List.append_assoc, digitRun_append, exponentSign_append]
  · have hsign : (exponentSign cs).1 = [] ∨ (exponentSign cs).1 = ['+'] ∨
        (exponentSign cs).1 = ['-'] := by
      fun_cases exponentSign cs
      · exact .inr (.inl rfl)
      · exact .inr (.inr rfl)
      · exact .inl rfl
    exact .mk hc hsign ((digitText_digitRun Char.isDigit _).resolve_left hne)
  · rcases hq with rfl | hq | ⟨-, rfl⟩
    · exact Nat.zero_le _
    · obtain ⟨-, ds, more, hds, hsplit, rfl⟩ := hq.exists_digits hpre
      have hle := length_le_digitRun (.inr hds) more
      rw [hsplit, List.length_cons, List.length_append, List.length_cons, List.length_append]
      omega
    · exact Nat.succ_le_succ (Nat.zero_le _)

/-- Nothing follows the digits that would belong to the number. -/
lemma longest_none (h : ∀ q, Suffix whole q → q <+: cs → q = []) :
    Longest (Suffix whole) cs [] cs :=
  ⟨rfl, .inl rfl, fun q hq hpre => (congrArg List.length (h q hq hpre)).le⟩

/-- **What follows the digits** of a decimal number is the longest that may. -/
lemma longest_numberEnd (whole : Bool) (front cs : List Char) :
    ∃ suffix rest, Longest (Suffix whole) cs suffix rest ∧
      Takes (front ++ suffix) rest (numberEnd whole front cs) := by
  cases cs with
  | nil =>
    refine ⟨[], [], longest_none fun q _ hpre => List.prefix_nil.mp hpre, ?_⟩
    rw [List.append_nil]
    exact takes_endNumber front []
  | cons c cs =>
    by_cases he : c = 'e' ∨ c = 'E'
    · have hend : numberEnd whole front (c :: cs)
          = if (digitRun Char.isDigit false (exponentSign cs).2).1.isEmpty then
              ⟨front ++ [c] ++ (exponentSign cs).1
                  ++ (digitRun Char.isDigit false (exponentSign cs).2).1,
                (digitRun Char.isDigit false (exponentSign cs).2).2, .error (.malformedNumber, 0)⟩
            else endNumber (front ++ [c] ++ (exponentSign cs).1
                ++ (digitRun Char.isDigit false (exponentSign cs).2).1)
              (digitRun Char.isDigit false (exponentSign cs).2).2 := by
        rw [numberEnd, if_pos (by simpa using he)]
      by_cases hnil : (digitRun Char.isDigit false (exponentSign cs).2).1 = []
      · refine ⟨[], c :: cs, longest_none fun q hq hpre => ?_, ?_⟩
        · rcases hq with rfl | hq | ⟨-, rfl⟩
          · rfl
          · obtain ⟨-, ds, more, hds, hsplit, -⟩ := hq.exists_digits hpre
            rw [hsplit, hds.digitRun] at hnil
            exact absurd (List.append_eq_nil_iff.mp hnil).1 hds.ne_nil
          · obtain rfl := (List.cons_prefix_cons.mp hpre).1
            exact absurd he (by decide)
        · refine takes_of_letter (by rcases he with rfl | rfl <;> rfl) ?_
          rw [hend, if_pos (List.isEmpty_iff.mpr hnil)]
      · refine ⟨_, _, longest_exponent he hnil, ?_⟩
        rw [hend, if_neg (by simpa using hnil), List.append_assoc, List.append_assoc,
          List.singleton_append]
        exact takes_endNumber _ _
    · have hexponent {q : List Char} (hq : Exponent q) : ¬q <+: c :: cs :=
        fun hpre => he (hq.exists_digits hpre).1
      by_cases hn : whole = true ∧ c = 'n'
      · obtain ⟨hwhole, rfl⟩ := hn
        refine ⟨['n'], cs, ⟨rfl, .inr (.inr ⟨hwhole, rfl⟩), fun q hq hpre => ?_⟩, ?_⟩
        · rcases hq with rfl | hq | ⟨-, rfl⟩
          · exact Nat.zero_le _
          · exact absurd hpre (hexponent hq)
          · exact le_rfl
        · rw [numberEnd, if_neg (by decide), if_pos (by simp [hwhole])]
          exact takes_endNumber _ _
      · refine ⟨[], c :: cs, longest_none fun q hq hpre => ?_, ?_⟩
        · rcases hq with rfl | hq | ⟨hwhole, rfl⟩
          · rfl
          · exact absurd hpre (hexponent hq)
          · exact absurd ⟨hwhole, (List.cons_prefix_cons.mp hpre).1.symm⟩ hn
        · rw [numberEnd, if_neg (by simpa using he), if_neg (by simpa using hn), List.append_nil]
          exact takes_endNumber _ _

/-! ### Decimal literals -/

/-- Where a number may start. -/
def startsNumber (cs : List Char) : Bool :=
  match cs with
  | [] => false
  | c :: cs => c.isDigit || (c = '.' && cs.head?.any Char.isDigit)

lemma Exponent.head {q : List Char} (h : Exponent q) (more : List Char) :
    ∃ c cs, q ++ more = c :: cs ∧ (c = 'e' ∨ c = 'E') := by
  obtain ⟨he, -, -⟩ := h
  exact ⟨_, _, rfl, he⟩

lemma Exponent.digits_stop {q : List Char} (h : Exponent q) (more : List Char) :
    (q ++ more).head?.any (fun c => c.isDigit || c = '_') = false := by
  obtain ⟨c, cs, hcons, he⟩ := h.head more
  rw [hcons, List.head?_cons, Option.any_some]
  rcases he with rfl | rfl <;> rfl

/-- A decimal literal in front of a text, by the decimal digits of the text and what follows them.
-/
lemma DecimalLiteral.cases_of_prefix {q digits rest : List Char} (h : DecimalLiteral q)
    (hq : q <+: cs) (hrun : digitRun Char.isDigit false cs = (digits, rest)) :
    q.length ≤ digits.length ∨ (∃ suffix, Suffix true suffix ∧ suffix ≠ [] ∧ suffix <+: rest ∧
        q = digits ++ suffix) ∨
      ∃ fs exponent, (fs = [] ∨ DigitText Char.isDigit fs) ∧ (exponent = [] ∨ Exponent exponent) ∧
        '.' :: (fs ++ exponent) <+: rest ∧ q = digits ++ '.' :: (fs ++ exponent) := by
  obtain ⟨more, rfl⟩ := hq
  cases h with
  | @whole ds big hds hbig =>
    rw [List.append_assoc] at hrun
    rcases hbig with rfl | rfl
    · have hle := length_le_digitRun (.inr hds) ([] ++ more)
      rw [hrun] at hle
      exact .inl (by simpa using hle)
    · rw [digitRun_eq (.inr hds) (by simp [show ('n').isDigit = false from rfl])] at hrun
      obtain ⟨rfl, rfl⟩ := Prod.mk.inj hrun
      exact .inr (.inl ⟨['n'], .inr (.inr ⟨rfl, rfl⟩), List.cons_ne_nil _ _,
        List.prefix_append _ _, rfl⟩)
  | point hds hfs hne hexponent =>
    rw [List.append_assoc, digitRun_eq hds rfl] at hrun
    obtain ⟨rfl, rfl⟩ := Prod.mk.inj hrun
    exact .inr (.inr ⟨_, _, hfs, hexponent, List.prefix_append _ _, rfl⟩)
  | exponent hds hexponent =>
    rw [List.append_assoc, digitRun_eq (.inr hds) (hexponent.digits_stop more)] at hrun
    obtain ⟨rfl, rfl⟩ := Prod.mk.inj hrun
    obtain ⟨c, cs, hcons, -⟩ := hexponent.head []
    rw [List.append_nil] at hcons
    exact .inr (.inl ⟨_, .inr (.inl hexponent), hcons ▸ List.cons_ne_nil c cs,
      List.prefix_append _ _, rfl⟩)

/-- A number with a point has a digit before or behind it. -/
lemma ne_nil_of_point {digits fraction : List Char}
    (hstart : startsNumber (digits ++ '.' :: rest) = true)
    (hfraction : digitRun Char.isDigit false rest = (fraction, more)) :
    digits ≠ [] ∨ fraction ≠ [] := by
  by_contra hnone
  simp only [not_or, not_not] at hnone
  obtain ⟨rfl, rfl⟩ := hnone
  rw [List.nil_append] at hstart
  cases rest with
  | nil => cases hstart
  | cons d rest =>
    have hd : d.isDigit = true := by simpa [startsNumber] using hstart
    exact digitRun_ne_nil (b := false) rest hd (congrArg Prod.fst hfraction)

/-- No decimal literal goes on past the point, the digits behind it and the longest exponent. -/
lemma DecimalLiteral.length_le_of_point {q digits fraction suffix after : List Char}
    (h : DecimalLiteral q) (hq : q <+: cs)
    (hrun : digitRun Char.isDigit false cs = (digits, '.' :: rest))
    (hfraction : digitRun Char.isDigit false rest = (fraction, more))
    (hsuffix : Longest (Suffix false) more suffix after) :
    q.length ≤ (digits ++ '.' :: (fraction ++ suffix)).length := by
  rcases h.cases_of_prefix hq hrun with
    hle | ⟨s, hs, hsne, hpoint, -⟩ | ⟨fs, es, hfs, hes, hpoint, rfl⟩
  · rw [List.length_append]
    omega
  · -- what follows the digits is a point, which begins no suffix
    rcases hs with rfl | hs | ⟨-, rfl⟩
    · exact absurd rfl hsne
    · obtain ⟨he, -⟩ := hs.exists_digits hpoint
      exact absurd he (by decide)
    · exact absurd (List.cons_prefix_cons.mp hpoint).1 (by decide)
  · obtain ⟨tail, htail⟩ := (List.cons_prefix_cons.mp hpoint).2
    rw [← htail, List.append_assoc] at hfraction
    rw [List.length_append, List.length_append, List.length_cons, List.length_cons,
      List.length_append, List.length_append]
    rcases hes with rfl | hes
    · have hle := length_le_digitRun hfs ([] ++ tail)
      rw [hfraction] at hle
      rw [List.length_nil]
      dsimp only at hle
      omega
    · rw [digitRun_eq hfs (hes.digits_stop tail)] at hfraction
      obtain ⟨rfl, rfl⟩ := Prod.mk.inj hfraction
      have hle := hsuffix.longest es (.inr (.inl hes)) (List.prefix_append _ _)
      omega

lemma longest_point {digits fraction : List Char} (hstart : startsNumber cs = true)
    (hrun : digitRun Char.isDigit false cs = (digits, '.' :: rest))
    (hfraction : digitRun Char.isDigit false rest = (fraction, more)) :
    ∃ front after, Longest DecimalLiteral cs front after ∧ Takes front after
      (decimalNumber cs) := by
  obtain ⟨suffix, after, hsuffix, htakes⟩ :=
    longest_numberEnd false (digits ++ ['.'] ++ fraction) more
  obtain ⟨hcs, hdigits⟩ := parts_of_digitRun hrun
  obtain ⟨hrest, hplaces⟩ := parts_of_digitRun hfraction
  have hne : digits ≠ [] ∨ fraction ≠ [] := ne_nil_of_point (hcs ▸ hstart) hfraction
  have hexponent : suffix = [] ∨ Exponent suffix := by
    rcases hsuffix.kind with h | h | ⟨h, -⟩
    · exact .inl h
    · exact .inr h
    · cases h
  have hfront : digits ++ ['.'] ++ fraction ++ suffix = digits ++ '.' :: (fraction ++ suffix) := by
    simp
  refine ⟨digits ++ '.' :: (fraction ++ suffix), after,
    ⟨?_, .point hdigits hplaces hne hexponent, fun q hq hpre =>
      hq.length_le_of_point hpre hrun hfraction hsuffix⟩, ?_⟩
  · rw [← hcs, ← hrest, hsuffix.split]
    simp
  · rw [decimalNumber_point hrun, hfraction, ← hfront]
    exact htakes

lemma longest_whole {digits : List Char} (hstart : startsNumber cs = true)
    (hrun : digitRun Char.isDigit false cs = (digits, rest)) (hpoint : rest.head? ≠ some '.') :
    ∃ front after, Longest DecimalLiteral cs front after ∧ Takes front after
      (decimalNumber cs) := by
  obtain ⟨suffix, after, hsuffix, htakes⟩ := longest_numberEnd true digits rest
  obtain ⟨hcs, hcases⟩ := parts_of_digitRun hrun
  have hdigits : DigitText Char.isDigit digits := by
    refine hcases.resolve_left ?_
    rintro rfl
    rw [← hcs, List.nil_append] at hstart
    cases rest with
    | nil => cases hstart
    | cons c rest =>
      have hc : c.isDigit = true := by
        have hc : c ≠ '.' := fun h => hpoint (congrArg some h)
        simpa [startsNumber, hc] using hstart
      rw [← hcs, List.nil_append] at hrun
      exact digitRun_ne_nil (b := false) rest hc (congrArg Prod.fst hrun)
  have hkind : DecimalLiteral (digits ++ suffix) := by
    rcases hsuffix.kind with h | h | ⟨-, h⟩
    · exact .whole hdigits (.inl h)
    · exact .exponent hdigits h
    · exact .whole hdigits (.inr h)
  refine ⟨digits ++ suffix, after, ⟨?_, hkind, fun q hq hpre => ?_⟩, ?_⟩
  · rw [← hcs, hsuffix.split, List.append_assoc]
  · rcases hq.cases_of_prefix hpre hrun with hle | ⟨s, hs, -, hrest, rfl⟩ | ⟨fs, es, -, -, hrest, -⟩
    · rw [List.length_append]
      omega
    · rw [List.length_append, List.length_append]
      exact Nat.add_le_add_left (hsuffix.longest s hs hrest) _
    · obtain ⟨tail, htail⟩ := hrest
      exact absurd (by rw [← htail]; rfl) hpoint
  · rw [decimalNumber_whole hrun hpoint]
    exact htakes

lemma longest_decimalNumber (hstart : startsNumber cs = true) :
    ∃ front after, Longest DecimalLiteral cs front after ∧ Takes front after
      (decimalNumber cs) := by
  by_cases hpoint : (digitRun Char.isDigit false cs).2.head? = some '.'
  · obtain ⟨rest, hrest⟩ := List.head?_eq_some_iff.mp hpoint
    exact longest_point hstart (Prod.ext rfl hrest) rfl
  · exact longest_whole hstart rfl hpoint

/-! ### Literals in other radices -/

lemma radixDigits?_eq_some_iff : radixDigits? x = some p ↔ RadixLetter x p := by
  constructor
  · fun_cases radixDigits? x <;> intro h <;> cases h
    · exact .hexadecimal (.inl rfl)
    · exact .hexadecimal (.inr rfl)
    · exact .octal (.inl rfl)
    · exact .octal (.inr rfl)
    · exact .binary (.inl rfl)
    · exact .binary (.inr rfl)
  · rintro (hx | hx | hx) <;> rcases hx with rfl | rfl <;> rfl

/-- In front of the letter of a radix, a decimal literal is the zero alone. -/
lemma DecimalLiteral.length_le_one {q : List Char} (h : DecimalLiteral q) (hx : RadixLetter x p)
    (hq : q <+: '0' :: x :: cs) : q.length ≤ 1 := by
  obtain ⟨hstart, hdigit, hunder, -⟩ := radixDigits?_some (radixDigits?_eq_some_iff.mpr hx)
  have hletter : x ≠ '.' ∧ x ≠ 'e' ∧ x ≠ 'E' ∧ x ≠ 'n' := by
    rcases hx with hx | hx | hx <;> rcases hx with rfl | rfl <;> decide
  have hrun : digitRun Char.isDigit false ('0' :: x :: cs) = (['0'], x :: cs) := by
    simp [digitRun, hdigit, hunder, show ('0').isDigit = true from rfl]
  rcases h.cases_of_prefix hq hrun with hle | ⟨s, hs, hne, hrest, -⟩ | ⟨fs, es, -, -, hrest, -⟩
  · exact hle
  · rcases hs with rfl | hs | ⟨-, rfl⟩
    · exact absurd rfl hne
    · rcases (hs.exists_digits hrest).1 with h | h
      · exact absurd h hletter.2.1
      · exact absurd h hletter.2.2.1
    · exact absurd (List.cons_prefix_cons.mp hrest).1.symm hletter.2.2.2
  · exact absurd (List.cons_prefix_cons.mp hrest).1.symm hletter.1

lemma NumberLiteral.cases_of_radix {q : List Char} (h : NumberLiteral q) (hx : RadixLetter x p)
    (hq : q <+: '0' :: x :: cs) : q.length ≤ 1 ∨ ∃ ds big, DigitText p ds ∧
      (big = [] ∨ big = ['n']) ∧ ds ++ big <+: cs ∧ q = '0' :: x :: (ds ++ big) := by
  cases h with
  | decimal h => exact .inl (h.length_le_one hx hq)
  | @radix y p' ds big hy hds hbig =>
    obtain ⟨rfl, hrest⟩ := List.cons_prefix_cons.mp (List.cons_prefix_cons.mp hq).2
    obtain rfl : p' = p := Option.some.inj
      ((radixDigits?_eq_some_iff.mpr hy).symm.trans (radixDigits?_eq_some_iff.mpr hx))
    exact .inr ⟨ds, big, hds, hbig, hrest, rfl⟩

lemma longest_radixNumber (hx : RadixLetter x p) (cs : List Char) :
    ∃ front rest, Longest NumberLiteral ('0' :: x :: cs) front rest ∧
      Takes front rest (radixNumber p ['0', x] cs) := by
  obtain ⟨hstart, -, -, hp⟩ := radixDigits?_some (radixDigits?_eq_some_iff.mpr hx)
  by_cases hnil : (digitRun p false cs).1 = []
  · refine ⟨['0'], x :: cs, ⟨rfl, ?_, fun q hq hpre => ?_⟩, takes_of_letter hstart ?_⟩
    · exact .decimal (.whole (.one rfl) (.inl rfl))
    · rcases hq.cases_of_radix hx hpre with hle | ⟨ds, big, hds, -, ⟨more, rfl⟩, -⟩
      · exact hle
      · rw [List.append_assoc, hds.digitRun] at hnil
        exact absurd (List.append_eq_nil_iff.mp hnil).1 hds.ne_nil
    · rw [radixNumber]
      dsimp only
      rw [if_pos (List.isEmpty_iff.mpr hnil)]
  · refine ⟨'0' :: x :: ((digitRun p false cs).1 ++ (bigMark (digitRun p false cs).2).1),
      (bigMark (digitRun p false cs).2).2, ⟨?_, ?_, fun q hq hpre => ?_⟩, ?_⟩
    · rw [List.cons_append, List.cons_append, List.append_assoc, bigMark_append, digitRun_append]
    · exact .radix hx ((digitText_digitRun p cs).resolve_left hnil) (bigMark_cases _)
    · rcases hq.cases_of_radix hx hpre with hle | ⟨ds, big, hds, hbig, ⟨more, rfl⟩, rfl⟩
      · exact hle.trans (Nat.succ_le_succ (Nat.zero_le _))
      · have hlength {bs : List Char} : ('0' :: x :: (ds ++ bs)).length
            = ds.length + bs.length + 2 := by simp
        rcases hbig with rfl | rfl
        · have hle := length_le_digitRun (.inr hds) ([] ++ more)
          rw [hlength, List.append_assoc, List.length_cons, List.length_cons, List.length_append,
            List.length_nil]
          omega
        · have hn : p 'n' = false := by
            rw [Bool.eq_false_iff]
            exact fun hpn => absurd (hp 'n' hpn) (by decide)
          rw [List.append_assoc, digitRun_eq (.inr hds) (by simp [hn])]
          exact le_rfl
    · rw [radixNumber]
      dsimp only
      rw [if_neg (by simpa using hnil), List.append_assoc]
      exact takes_endNumber _ _

/-- **The scanner takes the longest literal.** -/
lemma longest_number (hstart : startsNumber cs = true) :
    ∃ front rest, Longest NumberLiteral cs front rest ∧ Takes front rest (number cs) := by
  by_cases hradix : ∃ x p rest, cs = '0' :: x :: rest ∧ RadixLetter x p
  · obtain ⟨x, p, rest, rfl, hx⟩ := hradix
    rw [number_radix (radixDigits?_eq_some_iff.mpr hx)]
    exact longest_radixNumber hx rest
  · obtain ⟨front, rest, hlongest, htakes⟩ := longest_decimalNumber hstart
    refine ⟨front, rest, ⟨hlongest.split, .decimal hlongest.kind, fun q hq hpre => ?_⟩, ?_⟩
    · cases hq with
      | decimal hq => exact hlongest.longest q hq hpre
      | radix hx _ _ =>
        obtain ⟨more, hmore⟩ := hpre
        exact absurd ⟨_, _, _, hmore.symm, hx⟩ hradix
    · rw [number_decimal fun x rest hcs => ?_]
      · exact htakes
      · cases hx : radixDigits? x with
        | none => rfl
        | some p => exact absurd ⟨x, p, rest, hcs, radixDigits?_eq_some_iff.mp hx⟩ hradix

lemma next_of_takes {lx : Lexer} (hrest : lx.rest = cs) (hstart : startsNumber cs = true)
    (h : Takes front rest (number cs)) :
    lx.next.1 = if wordFollows rest = true then .error ⟨.malformedNumber, lx.pos⟩
      else .ok (some ⟨.number, String.ofList front, lx.pos⟩) := by
  cases cs with
  | nil => cases hstart
  | cons c cs =>
    by_cases hfollows : wordFollows rest = true
    · rw [Takes, if_pos hfollows] at h
      rw [if_pos hfollows]
      simp only [Lexer.next, hrest, Lexer.scan_number hstart, h, Nat.add_zero]
    · rw [Takes, if_neg hfollows] at h
      rw [if_neg hfollows]
      simp only [Lexer.next, hrest, Lexer.scan_number hstart, h]

/-- **Number literals are read by their grammar.** Where a number starts, the scanner takes the
longest literal that the text begins with, unless a letter, a digit or an escape follows it: that is
a fault, and the lexer reports it at the start of the literal. -/
theorem number_takes_longest {cs : List Char} (hstart : startsNumber cs = true) :
    ∃ front rest, Longest NumberLiteral cs front rest ∧ Takes front rest (number cs) ∧
      ∀ lx : Lexer, lx.rest = cs → lx.next.1 =
        if wordFollows rest = true then .error ⟨.malformedNumber, lx.pos⟩
        else .ok (some ⟨.number, String.ofList front, lx.pos⟩) := by
  obtain ⟨front, rest, hlongest, htakes⟩ := longest_number hstart
  exact ⟨front, rest, hlongest, htakes, fun lx hrest => next_of_takes hrest hstart htakes⟩

/-- A digit of another radix follows. -/
theorem number_takes_longest_binary : startsNumber "0b1_02".toList = true ∧
    ∃ front rest, Longest NumberLiteral "0b1_02".toList front rest ∧
      Takes front rest (number "0b1_02".toList) ∧
      ∀ lx : Lexer, lx.rest = "0b1_02".toList → lx.next.1 =
        if wordFollows rest = true then .error ⟨.malformedNumber, lx.pos⟩
        else .ok (some ⟨.number, String.ofList front, lx.pos⟩) :=
  ⟨by decide, number_takes_longest (by decide)⟩

/-- A point with digits on one side only may have an exponent behind it, but no underscore. -/
example : number "5.e-1_0;".toList = ⟨"5.e-1_0".toList, [';'], .ok .number⟩ ∧
    (number "1._5".toList).result = .error (.malformedNumber, 0) := ⟨rfl, rfl⟩

end Minify.Scan
