import Mathlib
import Minify.Json.Reader

/-!
JSON text read back.

The text of a value is one mark after another: its brackets, commas and colons, its texts, and its
words and numbers, which end where the next mark begins. So the first pass finds the marks of the
value in its text, and the second builds the value from them, with its containers open on the stack
around what is still to come.
-/

namespace Minify.Json

/-- A value that its text says all about: one without doubles, and with whole numbers of 64 bits. -/
inductive Plain : Json → Prop
  | null : Plain null
  | bool (b : Bool) : Plain (bool b)
  | int {n : Int} (hlow : -0x8000000000000000 ≤ n) (hhigh : n < UInt64.size) : Plain (int n)
  | str (s : String) : Plain (str s)
  | arr {items : List Json} (h : ∀ v ∈ items, Plain v) : Plain (arr items)
  | obj {fields : List (String × Json)} (h : ∀ f ∈ fields, Plain f.2) : Plain (obj fields)

mutual

/-- The marks of a value, in order. -/
def marks : Json → List Mark
  | null => [.scalar null]
  | bool b => [.scalar (bool b)]
  | int n => [.scalar (int n)]
  | real d => [.scalar (real d)]
  | str s => [.text (some s)]
  | arr items => [.openArr] ++ itemMarks true items ++ [.closeArr]
  | obj fields => [.openObj] ++ fieldMarks true fields ++ [.closeObj]
  | meaningless => [.scalar meaningless]

def itemMarks (first : Bool) : List Json → List Mark
  | [] => []
  | v :: vs => (if first then [] else [.comma]) ++ marks v ++ itemMarks false vs

def fieldMarks (first : Bool) : List (String × Json) → List Mark
  | [] => []
  | (k, v) :: fs =>
    (if first then [] else [.comma]) ++ [.text (some k), .colon] ++ marks v ++ fieldMarks false fs

end

def spelled (pieces : List String) : List Char := pieces.flatMap String.toList

lemma spelled_append (as bs : List String) : spelled (as ++ bs) = spelled as ++ spelled bs :=
  List.flatMap_append

lemma toList_text (v : Json) : v.text.toList = spelled v.pieces := String.toList_join

/-- Two runs of steps that may fail, one after the other. -/
lemma foldlM_trans {α σ : Type} {step : σ → α → Option σ} {s s' s'' : σ} {as bs : List α}
    (h : as.foldlM step s = some s') (h' : bs.foldlM step s' = some s'') :
    (as ++ bs).foldlM step s = some s'' := by
  rw [List.foldlM_append, h]
  exact h'

/-! ### Texts -/

variable {found : List Mark} {front : List Char}

lemma foldlM_escapedChar (front : List Char) (c : Char) :
    (escapedChar c).foldlM Marking.step ⟨.text ⟨front, none, false⟩, found⟩
      = some ⟨.text ⟨c :: front, none, false⟩, found⟩ := by
  by_cases hcontrol : c.toNat < 0x20
  · obtain ⟨n, hn, rfl⟩ : ∃ n < 0x20, c = Char.ofNat n :=
      ⟨c.toNat, hcontrol, (Char.ofNat_toNat c).symm⟩
    interval_cases n <;> rfl
  · by_cases hquote : c = '"'
    · subst hquote
      rfl
    by_cases hslash : c = '\\'
    · subst hslash
      rfl
    have hplain : c ≠ '\x08' ∧ c ≠ '\x0c' ∧ c ≠ '\n' ∧ c ≠ '\r' ∧ c ≠ '\t' := by
      refine ⟨?_, ?_, ?_, ?_, ?_⟩ <;> (rintro rfl; exact hcontrol (by decide))
    simp [escapedChar, Marking.step, Draft.push, hquote, hslash, hcontrol, hplain]

lemma foldlM_flatMap_escapedChar (found : List Mark) (front cs : List Char) :
    (cs.flatMap escapedChar).foldlM Marking.step ⟨.text ⟨front, none, false⟩, found⟩
      = some ⟨.text ⟨cs.reverse ++ front, none, false⟩, found⟩ := by
  induction cs generalizing front with
  | nil => rfl
  | cons c cs ih =>
    rw [List.flatMap_cons, List.reverse_cons, List.append_assoc, List.singleton_append]
    exact foldlM_trans (foldlM_escapedChar front c) (ih (c :: front))

lemma foldlM_quoted (found : List Mark) (s : String) :
    (quoted s).toList.foldlM Marking.step ⟨.between, found⟩
      = some ⟨.between, .text (some s) :: found⟩ := by
  have hbody := foldlM_flatMap_escapedChar found [] s.toList
  rw [List.append_nil] at hbody
  rw [quoted, String.toList_ofList, List.cons_append, List.foldlM_cons]
  refine foldlM_trans hbody ?_
  simp [Marking.step, Draft.finish]

/-! ### Words and numbers -/

def isBare (c : Char) : Bool := c ≠ '"' && (punctuation c).isNone

lemma foldlM_run {cs : List Char} (hcs : ∀ c ∈ cs, isBare c = true) (front : List Char) :
    cs.foldlM Marking.step ⟨.run front, found⟩ = some ⟨.run (cs.reverse ++ front), found⟩ := by
  induction cs generalizing front with
  | nil => rfl
  | cons c cs ih =>
    obtain ⟨hc, hrest⟩ := List.forall_mem_cons.mp hcs
    have hstep : Marking.step ⟨.run front, found⟩ c = some ⟨.run (c :: front), found⟩ := by
      simp only [isBare, Bool.and_eq_true, decide_eq_true_eq, Option.isNone_iff_eq_none] at hc
      simp [Marking.step, hc.1, hc.2]
    rw [List.foldlM_cons, hstep, List.reverse_cons, List.append_assoc]
    exact ih hrest (c :: front)

/-- A word or number is read as one mark, when it ends. -/
lemma foldlM_bare {cs : List Char} {v : Json} (hcs : ∀ c ∈ cs, isBare c = true) (hne : cs ≠ [])
    (hv : bareValue? cs = some v) (found : List Mark) :
    ∃ s, cs.foldlM Marking.step ⟨.between, found⟩ = some s ∧
      s.endRun = some (.scalar v :: found) := by
  cases cs with
  | nil => exact absurd rfl hne
  | cons c cs =>
    obtain ⟨hc, hrest⟩ := List.forall_mem_cons.mp hcs
    have hstep : Marking.step ⟨.between, found⟩ c = some ⟨.run [c], found⟩ := by
      simp only [isBare, Bool.and_eq_true, decide_eq_true_eq, Option.isNone_iff_eq_none] at hc
      simp [Marking.step, startMark, hc.1, hc.2]
    refine ⟨⟨.run (cs.reverse ++ [c]), found⟩, ?_, ?_⟩
    · rw [List.foldlM_cons, hstep]
      exact foldlM_run hrest [c]
    · simp [Marking.endRun, hv]

/-- The first digit of a number is no zero, unless it is the only one. -/
lemma head?_toDigits {n : Nat} (hn : 0 < n) : (Nat.toDigits 10 n).head? ≠ some '0' := by
  induction n using Nat.strong_induction_on with
  | _ n ih =>
    rw [Nat.toDigits_eq_if (by decide)]
    split
    · interval_cases n <;> decide
    · rw [List.head?_append_of_ne_nil _ Nat.toDigits_ne_nil]
      exact ih (n / 10) (by omega) (by omega)

lemma isDigit_toDigits (n : Nat) : ∀ c ∈ Nat.toDigits 10 n, c.isDigit = true :=
  fun _ hc => Nat.isDigit_of_mem_toDigits (by decide) (by decide) hc

lemma digits?_toDigits (n : Nat) :
    digits? (Nat.toDigits 10 n) = some (Nat.toDigits 10 n, []) := by
  have htake := List.takeWhile_eq_self_iff.mpr (isDigit_toDigits n)
  simp only [digits?, htake, List.isEmpty_eq_false_iff.mpr Nat.toDigits_ne_nil, List.drop_length]
  rfl

def signed (negative : Bool) (n : Nat) : List Char :=
  (if negative then ['-'] else []) ++ Nat.toDigits 10 n

lemma ofChars?_signed (negative : Bool) (n : Nat) :
    Literal.ofChars? (signed negative n) = some ⟨negative, Nat.toDigits 10 n, none, none⟩ := by
  obtain ⟨d, ds, hcons⟩ := List.exists_cons_of_ne_nil (Nat.toDigits_ne_nil (b := 10) (n := n))
  have hd : d ≠ '-' := by
    rintro rfl
    have hdash := isDigit_toDigits n '-' (hcons ▸ List.mem_cons_self)
    exact absurd hdash (by decide)
  have hzero : ((Nat.toDigits 10 n).head? == some '0' && (Nat.toDigits 10 n).length != 1)
      = false := by
    rcases Nat.eq_zero_or_pos n with rfl | hn
    · rfl
    · rw [beq_eq_false_iff_ne.mpr (head?_toDigits hn), Bool.false_and]
  have hsign : ((signed negative n).head? == some '-') = negative := by
    cases negative with
    | true => rfl
    | false => simp [signed, hcons, hd]
  have hdigits : (if negative = true then (signed negative n).tail else signed negative n)
      = Nat.toDigits 10 n := by
    cases negative <;> rfl
  unfold Literal.ofChars?
  simp only [hsign, hdigits, digits?_toDigits, Option.bind_eq_bind, Option.bind_some, hzero,
    Bool.false_eq_true, if_false, List.isEmpty_nil, if_true]

lemma isBare_of_isDigit {c : Char} (h : c.isDigit = true) : isBare c = true := by
  have hnot (d : Char) (hd : d.isDigit = false) : c ≠ d := by
    rintro rfl
    simp_all
  have hnone : punctuation c = none := by
    unfold punctuation
    split <;> first | rfl | cases h
  simp [isBare, hnone, hnot '"' rfl]

lemma isBare_signed (negative : Bool) (n : Nat) : ∀ c ∈ signed negative n, isBare c = true := by
  intro c hc
  rcases List.mem_append.mp hc with hc | hc
  · cases negative with
    | true => exact List.mem_singleton.mp hc ▸ rfl
    | false => cases hc
  · exact isBare_of_isDigit (isDigit_toDigits n c hc)

lemma signed_ne_nil (negative : Bool) (n : Nat) : signed negative n ≠ [] := by
  simp [signed, Nat.toDigits_ne_nil]

lemma bareValue?_signed (negative : Bool) (n : Nat) :
    bareValue? (signed negative n)
      = some (Literal.value ⟨negative, Nat.toDigits 10 n, none, none⟩) := by
  have hword (w : String) (hw : w.toList.head? = some 'n' ∨ w.toList.head? = some 't' ∨
      w.toList.head? = some 'f') : String.ofList (signed negative n) ≠ w := by
    rintro rfl
    rw [String.toList_ofList] at hw
    obtain ⟨d, ds, hcons⟩ := List.exists_cons_of_ne_nil (Nat.toDigits_ne_nil (b := 10) (n := n))
    have hd := isDigit_toDigits n d (hcons ▸ List.mem_cons_self)
    cases negative <;> simp only [signed, hcons] at hw <;>
      rcases hw with hw | hw | hw <;> cases hw <;> cases hd
  unfold bareValue?
  split
  · exact absurd ‹_› (hword _ (.inl rfl))
  · exact absurd ‹_› (hword _ (.inr (.inl rfl)))
  · exact absurd ‹_› (hword _ (.inr (.inr rfl)))
  · rw [ofChars?_signed, Option.map_some]

lemma toList_toString (n : Int) : (toString n).toList = signed (decide (n < 0)) n.natAbs := by
  rw [Int.toString_eq_repr, Int.repr_eq_if]
  split
  · rename_i hn
    have hnot : ¬n < 0 := by omega
    have habs : n.toNat = n.natAbs := by omega
    rw [Nat.toList_repr, habs]
    simp [signed, hnot]
  · rename_i hn
    have hneg : n < 0 := by omega
    have habs : (-n).toNat = n.natAbs := by omega
    rw [String.toList_append, Nat.toList_repr, habs]
    simp [signed, hneg]

lemma bareValue?_int {n : Int} (hlow : -0x8000000000000000 ≤ n) (hhigh : n < UInt64.size) :
    bareValue? (signed (decide (n < 0)) n.natAbs) = some (int n) := by
  have hvalue : digitsValue (Nat.toDigits 10 n.natAbs) = n.natAbs := Nat.ofDigitChars_ten_toDigits
  rw [bareValue?_signed]
  unfold Literal.value
  simp only [hvalue]
  by_cases hn : n < 0
  · have hle : n.natAbs ≤ 0x8000000000000000 := by omega
    have hpos : 0 < n.natAbs := by omega
    have hback : (-(n.natAbs : Int)) = n := by omega
    rw [if_neg (by simp [hn]), if_pos (by simp only [hn, hpos, hle]; rfl), hback]
  · have hlt : n.natAbs < UInt64.size := by omega
    have hback : (n.natAbs : Int) = n := by omega
    rw [if_pos (by simp only [hn, hlt]; rfl), hback]

/-! ### The marks of a text -/

lemma step_punctuation {s : Marking} {c : Char} {m : Mark} (hc : punctuation c = some (some m))
    (hs : s.endRun = some found) : s.step c = some ⟨.between, m :: found⟩ := by
  obtain ⟨mode, marks⟩ := s
  cases mode with
  | between =>
    cases hs
    simp [Marking.step, startMark, hc]
  | run chars =>
    simp only [Marking.step, hc, Option.isSome_some, Bool.or_true, if_true, hs, Option.map_some,
      startMark]
  | text d => cases hs
  | escape d => cases hs
  | unit d count value => cases hs

/-- Reading from where no word or number is open. -/
def Marks (pieces : List String) (ms : List Mark) : Prop :=
  ∀ found, ∃ s, (spelled pieces).foldlM Marking.step ⟨.between, found⟩ = some s ∧
    s.endRun = some (ms.reverse ++ found)

/-- Reading from where one may be open, unless `first`. -/
def MarksAfter (first : Bool) (pieces : List String) (ms : List Mark) : Prop :=
  ∀ s found, s.endRun = some found → (first = true → s = ⟨.between, found⟩) →
    ∃ s', (spelled pieces).foldlM Marking.step s = some s' ∧
      s'.endRun = some (ms.reverse ++ found)

lemma marksAfter_nil (first : Bool) : MarksAfter first [] [] := fun s _ hs _ => ⟨s, rfl, hs⟩

lemma foldlM_comma {first : Bool} {s : Marking} (hs : s.endRun = some found)
    (hfirst : first = true → s = ⟨.between, found⟩) :
    (spelled (if first then [] else [","])).foldlM Marking.step s
      = some ⟨.between, (if first then [] else [Mark.comma]) ++ found⟩ := by
  cases first with
  | true =>
    rw [hfirst rfl]
    rfl
  | false =>
    change (Marking.step s ',').bind _ = _
    rw [step_punctuation rfl hs]
    rfl

/-- One more value behind a comma, and what follows it. -/
lemma marksAfter_cons (first : Bool) (front : List String) (fs : List Mark)
    {pieces rest : List String} {ms ns : List Mark}
    (hfront : ∀ found, (spelled front).foldlM Marking.step ⟨.between, found⟩
      = some ⟨.between, fs.reverse ++ found⟩) (h : Marks pieces ms)
    (hrest : MarksAfter false rest ns) :
    MarksAfter first ((if first then [] else [","]) ++ front ++ pieces ++ rest)
      ((if first then [] else [.comma]) ++ fs ++ ms ++ ns) := by
  intro s found hs hfirst
  have hcomma := foldlM_comma hs hfirst
  obtain ⟨s₁, hrun₁, hs₁⟩ := h (fs.reverse ++ ((if first then [] else [Mark.comma]) ++ found))
  obtain ⟨s₂, hrun₂, hs₂⟩ := hrest s₁ _ hs₁ nofun
  refine ⟨s₂, ?_, ?_⟩
  · rw [spelled_append, spelled_append, spelled_append]
    exact foldlM_trans (foldlM_trans (foldlM_trans hcomma (hfront _)) hrun₁) hrun₂
  · rw [hs₂]
    cases first <;> simp

lemma marks_brackets {opening closing : String} {c d : Char} {m n : Mark} {pieces : List String}
    {ms : List Mark} (hopening : opening.toList = [c]) (hc : punctuation c = some (some m))
    (hclosing : closing.toList = [d]) (hd : punctuation d = some (some n))
    (h : MarksAfter true pieces ms) :
    Marks ([opening] ++ pieces ++ [closing]) ([m] ++ ms ++ [n]) := by
  intro found
  obtain ⟨s, hrun, hs⟩ := h ⟨.between, m :: found⟩ (m :: found) rfl fun _ => rfl
  have hopen : (spelled [opening]).foldlM Marking.step ⟨.between, found⟩
      = some ⟨.between, m :: found⟩ := by
    simp [spelled, hopening, step_punctuation hc (s := ⟨.between, found⟩) rfl]
  have hclose : (spelled [closing]).foldlM Marking.step s
      = some ⟨.between, n :: (ms.reverse ++ m :: found)⟩ := by
    simp [spelled, hclosing, step_punctuation hd hs]
  refine ⟨⟨.between, n :: (ms.reverse ++ m :: found)⟩, ?_, ?_⟩
  · rw [spelled_append, spelled_append]
    exact foldlM_trans (foldlM_trans hopen hrun) hclose
  · simp [Marking.endRun]

lemma marks_itemPieces {items : List Json} (h : ∀ v ∈ items, Marks v.pieces v.marks)
    (first : Bool) : MarksAfter first (itemPieces first items) (itemMarks first items) := by
  induction items generalizing first with
  | nil => exact marksAfter_nil first
  | cons v vs ih =>
    obtain ⟨hv, hvs⟩ := List.forall_mem_cons.mp h
    have hcons := marksAfter_cons first [] [] (fun _ => rfl) hv (ih hvs false)
    rwa [List.append_nil, List.append_nil] at hcons

lemma marks_fieldPieces {fields : List (String × Json)}
    (h : ∀ f ∈ fields, Marks f.2.pieces f.2.marks) (first : Bool) :
    MarksAfter first (fieldPieces first fields) (fieldMarks first fields) := by
  induction fields generalizing first with
  | nil => exact marksAfter_nil first
  | cons f fs ih =>
    obtain ⟨hv, hvs⟩ := List.forall_mem_cons.mp h
    refine marksAfter_cons first _ _ (fun found => ?_) hv (ih hvs false)
    have hname := foldlM_quoted found f.1
    have hcolon : ([':'] : List Char).foldlM Marking.step ⟨.between, .text (some f.1) :: found⟩
        = some ⟨.between, .colon :: .text (some f.1) :: found⟩ := rfl
    simpa [spelled] using foldlM_trans hname hcolon

lemma marks_bare {t : String} (cs : List Char) {v : Json} (ht : t.toList = cs)
    (hcs : ∀ c ∈ cs, isBare c = true) (hne : cs ≠ []) (hv : bareValue? cs = some v) :
    Marks [t] [.scalar v] := by
  intro found
  have hspelled : spelled [t] = cs := by simp [spelled, ht]
  rw [hspelled]
  exact foldlM_bare hcs hne hv found

/-- **The first pass** finds the marks of a value in its text. -/
lemma Plain.marks {v : Json} (h : Plain v) : Marks v.pieces v.marks := by
  induction h with
  | null =>
    exact marks_bare ['n', 'u', 'l', 'l'] rfl (by simp [isBare, punctuation]) nofun rfl
  | bool b =>
    cases b with
    | true =>
      exact marks_bare ['t', 'r', 'u', 'e'] rfl (by simp [isBare, punctuation]) nofun rfl
    | false =>
      exact marks_bare ['f', 'a', 'l', 's', 'e'] rfl (by simp [isBare, punctuation]) nofun rfl
  | @int n hlow hhigh =>
    exact marks_bare _ (toList_toString n) (isBare_signed _ _) (signed_ne_nil _ _)
      (bareValue?_int hlow hhigh)
  | str s =>
    intro found
    refine ⟨⟨.between, .text (some s) :: found⟩, ?_, rfl⟩
    have hspelled : spelled (Json.str s).pieces = (quoted s).toList := by simp [spelled, pieces]
    rw [hspelled]
    exact foldlM_quoted found s
  | @arr items _ ih =>
    rw [pieces, Json.marks]
    exact marks_brackets (c := '[') (d := ']') rfl rfl rfl rfl (marks_itemPieces ih true)
  | @obj fields _ ih =>
    rw [pieces, Json.marks]
    exact marks_brackets (c := '\x7b') (d := '\x7d') rfl rfl rfl rfl (marks_fieldPieces ih true)

lemma marks?_text {v : Json} (h : Plain v) : marks? v.text.toList = some v.marks := by
  obtain ⟨s, hrun, hs⟩ := h.marks []
  rw [← toList_text] at hrun
  simp [marks?, hrun, hs]

/-! ### Values from marks -/

namespace Building

lemma foldlM_itemMarks (stack : List Frame) {items : List Json}
    (h : ∀ v ∈ items, ∀ phase stack, phase = .value ∨ phase = .firstItem →
      v.marks.foldlM step ⟨phase, stack⟩ = some (deliver stack v))
    (first : Bool) (done : List Json) :
    (itemMarks first items).foldlM step
        ⟨if first then .firstItem else .afterItem, .arr done :: stack⟩
      = some ⟨if first && items.isEmpty then .firstItem else .afterItem,
          .arr (items.reverse ++ done) :: stack⟩ := by
  induction items generalizing first done with
  | nil => cases first <;> rfl
  | cons v vs ih =>
    obtain ⟨hv, hvs⟩ := List.forall_mem_cons.mp h
    have hvalue : ((if first then [] else [Mark.comma]) ++ v.marks).foldlM step
        ⟨if first then .firstItem else .afterItem, .arr done :: stack⟩
          = some ⟨.afterItem, .arr (v :: done) :: stack⟩ := by
      cases first with
      | true => exact hv .firstItem _ (.inr rfl)
      | false => exact hv .value _ (.inl rfl)
    rw [itemMarks]
    refine (foldlM_trans hvalue (ih hvs false (v :: done))).trans ?_
    simp

lemma foldlM_fieldMarks (stack : List Frame) {fields : List (String × Json)}
    (h : ∀ f ∈ fields, ∀ phase stack, phase = .value ∨ phase = .firstItem →
      f.2.marks.foldlM step ⟨phase, stack⟩ = some (deliver stack f.2))
    (first : Bool) (done : List (String × Json)) :
    (fieldMarks first fields).foldlM step
        ⟨if first then .firstName else .afterItem, .obj done none true :: stack⟩
      = some ⟨if first && fields.isEmpty then .firstName else .afterItem,
          .obj (fields.reverse ++ done) none true :: stack⟩ := by
  induction fields generalizing first done with
  | nil => cases first <;> rfl
  | cons f fs ih =>
    obtain ⟨k, v⟩ := f
    obtain ⟨hv, hvs⟩ := List.forall_mem_cons.mp h
    have hname : ((if first then [] else [Mark.comma])
          ++ [Mark.text (some k), Mark.colon]).foldlM step
        ⟨if first then .firstName else .afterItem, .obj done none true :: stack⟩
          = some ⟨.value, .obj done (some k) true :: stack⟩ := by
      cases first <;> rfl
    have hvalue := hv .value (.obj done (some k) true :: stack) (.inl rfl)
    rw [fieldMarks]
    refine (foldlM_trans (foldlM_trans hname hvalue) (ih hvs false ((k, v) :: done))).trans ?_
    simp

end Building

/-- **The second pass** builds a value from its marks. -/
lemma Plain.foldlM_step {v : Json} (h : Plain v) (phase : Phase) (stack : List Frame)
    (hphase : phase = .value ∨ phase = .firstItem) :
    v.marks.foldlM Building.step ⟨phase, stack⟩ = some (Building.deliver stack v) := by
  induction h generalizing phase stack with
  | null => rcases hphase with rfl | rfl <;> rfl
  | bool b => rcases hphase with rfl | rfl <;> rfl
  | int hlow hhigh => rcases hphase with rfl | rfl <;> rfl
  | str s => rcases hphase with rfl | rfl <;> rfl
  | @arr items _ ih =>
    have hopen : ([.openArr] : List Mark).foldlM Building.step ⟨phase, stack⟩
        = some ⟨.firstItem, .arr [] :: stack⟩ := by
      rcases hphase with rfl | rfl <;> rfl
    have hitems := Building.foldlM_itemMarks stack ih true []
    rw [List.append_nil] at hitems
    have hclose : ([.closeArr] : List Mark).foldlM Building.step
        ⟨if true && items.isEmpty then .firstItem else .afterItem, .arr items.reverse :: stack⟩
          = some (Building.deliver stack (Json.arr items)) := by
      cases items with
      | nil => rfl
      | cons v vs => simp [Building.step, Building.close]
    exact foldlM_trans (foldlM_trans hopen hitems) hclose
  | @obj fields _ ih =>
    have hopen : ([.openObj] : List Mark).foldlM Building.step ⟨phase, stack⟩
        = some ⟨.firstName, .obj [] none true :: stack⟩ := by
      rcases hphase with rfl | rfl <;> rfl
    have hfields := Building.foldlM_fieldMarks stack ih true []
    rw [List.append_nil] at hfields
    have hclose : ([.closeObj] : List Mark).foldlM Building.step
        ⟨if true && fields.isEmpty then .firstName else .afterItem,
          .obj fields.reverse none true :: stack⟩
          = some (Building.deliver stack (Json.obj fields)) := by
      cases fields with
      | nil => rfl
      | cons f fs => simp [Building.step, Building.close]
    exact foldlM_trans (foldlM_trans hopen hfields) hclose

/-- **The text of a plain value is read back as the value.** -/
theorem parse?_text {v : Json} (h : Plain v) : parse? v.text = some v := by
  have hbuild := h.foldlM_step .value [] (.inl rfl)
  have hbuild : v.marks.foldlM Building.step .start = some ⟨.done v, []⟩ := hbuild
  simp [parse?, marks?_text h, hbuild]

end Minify.Json
