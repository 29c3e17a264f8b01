import Mathlib
import Minify.Proofs.LexedText

/-!
Tokens without their places, and when a text that spells them reads as them.

A list of lexemes is read back from the text it spells when no lexeme runs on into the text after
it. The lexemes of a script never do. So a text reads as at most one list of lexemes, and where the
blanks are left open it is the other lexemes that decide.
-/

namespace Minify

open Text Scan

/-- A token without its place. -/
structure Lexeme where
  kind : TokenKind
  text : String
  deriving DecidableEq, Repr

namespace Lexeme

def spelled (ls : List Lexeme) : List Char := ls.flatMap fun l => l.text.toList

def apart : List Lexeme → Bool
  | [] => true
  | l :: ls => !runsOn l.kind l.text.toList (spelled ls) && apart ls

end Lexeme

def Token.lexeme (t : Token) : Lexeme := ⟨t.kind, t.text⟩

namespace Lexer

variable {lx lx' lo : Lexer} {t : Token} {c : Char} {cs : List Char}

/-! ### The state of the lexer -/

/-- Two lexers that read one text the same way. -/
structure SameState (lx lo : Lexer) : Prop where
  afterOperand : lo.afterOperand = lx.afterOperand
  depth : lo.depth = lx.depth
  resume : lo.resume = lx.resume

/-- A token that is not trivia says itself whether it ends an operand. -/
lemma SameState.record (lx lo : Lexer) (hop : t.isTrivia = true → lo.afterOperand = lx.afterOperand)
    (hdepth : lo.depth = lx.depth) (hresume : lo.resume = lx.resume) (start : Nat) :
    SameState (lx.record t) (lo.record ⟨t.kind, t.text, start⟩) := by
  have hoperand : (⟨t.kind, t.text, start⟩ : Token).endsOperand = t.endsOperand := rfl
  have htrivia : (⟨t.kind, t.text, start⟩ : Token).isTrivia = t.isTrivia := rfl
  unfold Lexer.record
  rw [hoperand, htrivia]
  dsimp only
  split
  · exact ⟨hop ‹_›, hdepth, hresume⟩
  split
  · exact ⟨rfl, hdepth, by rw [hdepth, hresume]⟩
  · exact ⟨rfl, hdepth, by rw [hdepth, hresume]⟩
  · split_ifs
    · exact ⟨rfl, congrArg (· + 1) hdepth, hresume⟩
    · exact ⟨rfl, congrArg (· - 1) hdepth, hresume⟩
    · exact ⟨rfl, hdepth, hresume⟩
  · exact ⟨rfl, hdepth, hresume⟩

lemma next_ok (h : lx.next = (.ok (some t), lx')) : ∃ c cs w, lx.rest = c :: cs ∧
    (lx.scan c cs).result = .ok t.kind ∧ (lx.scan c cs).taken = c :: w ∧ t.text.toList = c :: w ∧
      lx' = (lx.skip c (lx.scan c cs)).record t := by
  have hcases := next_cases lx
  rw [h] at hcases
  cases hcases with
  | @token c cs kind hrest hk =>
    have hsplits := lx.scan_splits c cs
    obtain ⟨d, w, hw⟩ := List.exists_cons_of_ne_nil (hsplits.ne_nil kind hk)
    have hd : d = c := by
      have happ := hsplits.append
      rw [hw] at happ
      exact (List.cons_eq_cons.mp happ).1
    rw [hd] at hw
    refine ⟨c, cs, w, hrest, hk, hw, ?_, rfl⟩
    rw [String.toList_ofList, hw]

lemma next_of_scan {kind : TokenKind} {taken more : List Char} (hrest : lx.rest = c :: cs)
    (h : lx.scan c cs = ⟨taken, more, .ok kind⟩) :
    lx.next = (.ok (some ⟨kind, String.ofList taken, lx.pos⟩),
      (lx.skip c ⟨taken, more, .ok kind⟩).record ⟨kind, String.ofList taken, lx.pos⟩) := by
  simp only [next, hrest, h]

lemma size_cons_pos (c : Char) (w : List Char) : 0 < size (c :: w) := by
  have hpos := c.utf8Size_pos
  rw [size, utf8ByteSize_ofList, byteSize_cons]
  omega

lemma skip_resume (h : lx.resumes c = false) (r : Reading) : (lx.skip c r).resume = lx.resume := by
  simp only [skip, h, Bool.false_eq_true, if_false]

/-- **A token is read again** by a lexer that stands in front of its text, where it does not run on
into the text after it. A closing brace does not depend on the operand before it. -/
lemma next_again (h : lx.next = (.ok (some t), lx')) (hline : t.kind ≠ .comment .line)
    (hop : t.isPunct "\x7d" = false → lo.afterOperand = lx.afterOperand)
    (hdepth : lo.depth = lx.depth) (hresume : lo.resume = lx.resume)
    {more : List Char} (hrest : lo.rest = t.text.toList ++ more)
    (hm : runsOn t.kind t.text.toList more = false)
    (hhash : lo.pos = 0 → ¬ ['#', '!'] <+: lo.rest) :
    ∃ lo', lo.next = (.ok (some ⟨t.kind, t.text, lo.pos⟩), lo') ∧ lo'.rest = more ∧
      0 < lo'.pos ∧ SameState lx' lo' := by
  obtain ⟨c, cs, w, -, hkind, htaken, htext, rfl⟩ := next_ok h
  have hbrace (hc : c = '/') : t.isPunct "\x7d" = false := by
    subst hc
    by_contra hpunct
    have : t.text = "\x7d" := by simp_all [Token.isPunct]
    simp [this] at htext
  have hres : lo.resumes c = lx.resumes c := by rw [resumes, resumes, hdepth, hresume]
  rw [htext] at hrest hm
  have hscan : lo.scan c (w ++ more) = ⟨c :: w, more, .ok t.kind⟩ := by
    refine scan_local hkind hline htaken (fun hc => hop (hbrace hc)) hres hm fun hpos hc hmark => ?_
    refine hhash hpos ?_
    rw [hrest, List.cons_append, hc]
    obtain ⟨ds, hds⟩ := List.head?_eq_some_iff.mp hmark
    rw [hds]
    exact ⟨ds, rfl⟩
  have hnext := next_of_scan hrest hscan
  have hofList : String.ofList (c :: w) = t.text := by rw [← htext, String.ofList_toList]
  rw [hofList] at hnext
  have hstate : SameState ((lx.skip c (lx.scan c cs)).record t)
      ((lo.skip c ⟨c :: w, more, .ok t.kind⟩).record ⟨t.kind, t.text, lo.pos⟩) := by
    have hskip : (lo.skip c ⟨c :: w, more, .ok t.kind⟩).resume
        = (lx.skip c (lx.scan c cs)).resume := by simp only [skip, hres, hresume]
    refine SameState.record (lx.skip c (lx.scan c cs)) (lo.skip c ⟨c :: w, more, .ok t.kind⟩)
      (fun ht => hop ?_) hdepth hskip _
    by_contra hpunct
    have hkind : t.kind = .punctuator := by simp_all [Token.isPunct]
    simp [Token.isTrivia, TokenKind.isTrivia, hkind] at ht
  refine ⟨_, hnext, record_rest _ _, ?_, hstate⟩
  rw [record_pos]
  exact Nat.lt_of_lt_of_le (size_cons_pos c w) (Nat.le_add_left _ _)

/-! ### The lexemes of a run -/

lemma run_ok_nil (h : lx.run = ([], none)) : lx.rest = [] ∧ lx.resume = [] := by
  match hnext : lx.next with
  | (.ok (some t), lx') =>
    rw [run_token hnext] at h
    cases h
  | (.error e, lx') =>
    rw [run_fault hnext] at h
    cases h
  | (.ok none, lx') =>
    have hcases := next_cases lx
    rw [hnext] at hcases
    cases hcases with
    | ends hrest hresume => exact ⟨hrest, hresume⟩

lemma run_ok_cons {ts : List Token} (h : lx.run = (t :: ts, none)) :
    ∃ lx', lx.next = (.ok (some t), lx') ∧ lx'.run = (ts, none) := by
  match hnext : lx.next with
  | (.ok (some t'), lx') =>
    rw [run_token hnext] at h
    obtain ⟨⟨rfl, hts⟩, hfault⟩ : (t' = t ∧ lx'.run.1 = ts) ∧ lx'.run.2 = none := by
      simpa using h
    exact ⟨lx', rfl, Prod.ext hts hfault⟩
  | (.error e, lx') =>
    rw [run_fault hnext] at h
    cases h
  | (.ok none, lx') =>
    rw [run_end hnext] at h
    cases h

lemma spelled_of_run {ts : List Token} (h : lx.run = (ts, none)) :
    lx.rest = Lexeme.spelled (ts.map Token.lexeme) := by
  induction ts generalizing lx with
  | nil => exact (run_ok_nil h).1
  | cons t ts ih =>
    obtain ⟨lx', hnext, hrun⟩ := run_ok_cons h
    obtain ⟨c, cs, w, hrest, -, htaken, htext, rfl⟩ := next_ok hnext
    have happ := (lx.scan_splits c cs).append
    have hlx := ih hrun
    rw [record_rest] at hlx
    rw [hrest, ← happ, htaken, ← htext]
    exact congrArg _ hlx

/-- **The lexemes of a run are apart.** -/
lemma apart_of_run {ts : List Token} (h : lx.run = (ts, none)) :
    Lexeme.apart (ts.map Token.lexeme) = true := by
  induction ts generalizing lx with
  | nil => rfl
  | cons t ts ih =>
    obtain ⟨lx', hnext, hrun⟩ := run_ok_cons h
    obtain ⟨c, cs, w, -, hkind, htaken, htext, hlx⟩ := next_ok hnext
    have hstop := (scan_ok hkind).2.stop
    have hrest : (lx.scan c cs).rest = Lexeme.spelled (ts.map Token.lexeme) := by
      rw [← spelled_of_run hrun, hlx, record_rest]
      rfl
    rw [htaken, hrest, ← htext] at hstop
    rw [List.map_cons, Lexeme.apart, ih hrun, Bool.and_true, Bool.not_eq_true']
    exact hstop

end Lexer

namespace Lexeme

/-! ### Gaps and ink -/

def isSpace (c : Char) : Bool := isLineEnd c || isBlank c

def semicolon : Lexeme := ⟨.punctuator, ";"⟩

/-- Blanks, with or without a line end. -/
structure IsGap (l : Lexeme) : Prop where
  kind : l.kind = if l.text.toList.any isLineEnd then .lineBreak else .blank
  space : ∀ c ∈ l.text.toList, isSpace c = true
  ne_nil : l.text.toList ≠ []

/-- Anything else. Only a semicolon begins with one. -/
structure IsInk (l : Lexeme) : Prop where
  kind : Lexer.isGap l.kind = false
  head : ∃ c cs, l.text.toList = c :: cs ∧ isSpace c = false ∧ (c = ';' → l = semicolon)

/-- A lexeme of a significant token or a conditional comment. -/
def isKept (l : Lexeme) : Bool := !l.kind.isTrivia || l.kind == .comment .conditional

def isFixed (l : Lexeme) : Bool := l.isKept && l != semicolon

lemma gap_or_ink {lx lx' : Lexer} {t : Token} (h : lx.next = (.ok (some t), lx')) :
    t.lexeme.IsGap ∨ t.lexeme.IsInk := by
  obtain ⟨c, cs, w, -, hkind, htaken, htext, -⟩ := Lexer.next_ok h
  cases hc : isSpace c with
  | true =>
    have hscan : lx.scan c cs = blanks (c :: cs) := by
      rw [Lexer.scan]
      exact if_pos hc
    rw [hscan] at hkind htaken
    have htake : (c :: cs).takeWhile (fun c => isLineEnd c || isBlank c) = c :: w := htaken
    refine Or.inl ⟨?_, fun d hd => ?_, ?_⟩
    · change t.kind = if t.text.toList.any isLineEnd then .lineBreak else .blank
      rw [htext, ← htake]
      exact (Except.ok.inj hkind).symm
    · change d ∈ t.text.toList at hd
      rw [htext, ← htake] at hd
      exact List.mem_takeWhile_imp (p := fun c => isLineEnd c || isBlank c) hd
    · change t.text.toList ≠ []
      rw [htext]
      exact List.cons_ne_nil _ _
  | false =>
    refine Or.inr ⟨(Lexer.scan_ok hkind).1.trans hc, c, w, htext, hc, ?_⟩
    rintro rfl
    rw [Lexer.scan_semicolon] at hkind htaken
    obtain rfl : [] = w := (List.cons_eq_cons.mp htaken).2
    have htext' : t.text = ";" := String.toList_inj.mp htext
    rw [Token.lexeme, htext', ← Except.ok.inj hkind]
    rfl

variable {l : Lexeme} {ls as bs : List Lexeme}

/-- What follows a gap is no space. -/
def Spaced : List Lexeme → Prop
  | [] => True
  | l :: ls => (l.IsGap → (spelled ls).head?.any isSpace = false) ∧ Spaced ls

lemma spaced_of_apart (h : apart ls = true) : Spaced ls := by
  induction ls with
  | nil => trivial
  | cons l ls ih =>
    simp only [apart, Bool.and_eq_true, Bool.not_eq_true'] at h
    refine ⟨fun hgap => ?_, ih h.2⟩
    have hruns := h.1
    rw [hgap.kind] at hruns
    split at hruns <;> exact hruns

def weight (cs : List Char) : Nat := cs.countP fun c => !isSpace c && c != ';'

lemma spelled_cons (l : Lexeme) (ls : List Lexeme) :
    spelled (l :: ls) = l.text.toList ++ spelled ls := rfl

lemma spelled_append (as bs : List Lexeme) : spelled (as ++ bs) = spelled as ++ spelled bs :=
  List.flatMap_append

lemma weight_append (cs ds : List Char) : weight (cs ++ ds) = weight cs + weight ds :=
  List.countP_append

lemma IsGap.weight (h : l.IsGap) : weight l.text.toList = 0 :=
  List.countP_eq_zero.mpr fun c hc => by simp [h.space c hc]

lemma weight_fixed_le (ls : List Lexeme) :
    weight (spelled (ls.filter isFixed)) ≤ weight (spelled ls) := by
  induction ls with
  | nil => exact Nat.le_refl _
  | cons l ls ih =>
    rw [List.filter_cons, spelled_cons, weight_append]
    split
    · rw [spelled_cons, weight_append]
      omega
    · omega

lemma weight_fixed (h : ∀ l ∈ ls, l.IsGap ∨ l.isKept = true) :
    weight (spelled (ls.filter isFixed)) = weight (spelled ls) := by
  induction ls with
  | nil => rfl
  | cons l ls ih =>
    obtain ⟨hl, hls⟩ := List.forall_mem_cons.mp h
    rw [List.filter_cons, spelled_cons, weight_append, ← ih hls]
    split
    · rw [spelled_cons, weight_append]
    · rename_i hfixed
      have hzero : weight l.text.toList = 0 := by
        rcases hl with hl | hl
        · exact hl.weight
        · have hsemi : l = semicolon := by simpa [isFixed, hl] using hfixed
          rw [hsemi]
          decide
      omega

/-- Where the fixed lexemes make up the weight of a text, there is no comment in it. -/
lemma gap_or_kept (hls : ∀ l ∈ ls, l.IsGap ∨ l.IsInk)
    (hweight : weight (spelled ls) = weight (spelled (ls.filter isFixed))) :
    ∀ l ∈ ls, l.IsGap ∨ l.isKept = true := by
  intro l hl
  rcases hls l hl with hgap | hink
  · exact Or.inl hgap
  · refine Or.inr ?_
    by_contra hkept
    obtain ⟨front, back, rfl⟩ := List.append_of_mem hl
    obtain ⟨c, cs, htext, hspace, hsemi⟩ := hink.head
    have hfixed : l.isFixed = false := by simp [isFixed, hkept]
    have hone : 0 < weight l.text.toList := by
      refine List.countP_pos_iff.mpr ⟨c, by rw [htext]; exact List.mem_cons_self, ?_⟩
      have hc : c ≠ ';' := fun hc => hkept (by rw [hsemi hc]; rfl)
      simp [hspace, hc]
    have hfront := weight_fixed_le front
    have hback := weight_fixed_le back
    rw [List.filter_append, List.filter_cons, hfixed, spelled_append, spelled_append, spelled_cons,
      weight_append, weight_append, weight_append] at hweight
    simp only [Bool.false_eq_true, if_false] at hweight
    omega

lemma spelled_ne_nil (h : l.IsGap ∨ (l.IsInk ∧ l.isKept = true)) : spelled (l :: ls) ≠ [] := by
  have htext : l.text.toList ≠ [] := by
    rcases h with h | ⟨h, -⟩
    · exact h.ne_nil
    · obtain ⟨c, cs, hcs, -⟩ := h.head
      rw [hcs]
      exact List.cons_ne_nil _ _
  exact fun hnil => htext (List.append_eq_nil_iff.mp hnil).1

lemma IsGap.head_spelled (h : l.IsGap) : (spelled (l :: ls)).head?.any isSpace = true := by
  obtain ⟨c, cs, hcs⟩ := List.exists_cons_of_ne_nil h.ne_nil
  have hc := h.space c (by rw [hcs]; exact List.mem_cons_self)
  rw [spelled_cons, hcs]
  exact hc

lemma IsInk.head_spelled (h : l.IsInk) : (spelled (l :: ls)).head?.any isSpace = false := by
  obtain ⟨c, cs, hcs, hc, -⟩ := h.head
  rw [spelled_cons, hcs]
  exact hc

lemma IsGap.not_kept (h : l.IsGap) : l.isKept = false := by
  unfold isKept
  rw [h.kind]
  split <;> rfl

lemma IsInk.not_gap (h : l.IsInk) : ¬ l.IsGap := by
  intro hgap
  have hkind := h.kind
  rw [hgap.kind] at hkind
  split at hkind <;> cases hkind

/-- The gap at the front of a text is all of its space. -/
lemma IsGap.eq_of_spelled {a b : Lexeme} (ha : a.IsGap) (hb : b.IsGap)
    (hsa : a.IsGap → (spelled as).head?.any isSpace = false)
    (hsb : b.IsGap → (spelled bs).head?.any isSpace = false)
    (htext : spelled (a :: as) = spelled (b :: bs)) : a = b := by
  have hta := (takeWhile_append_of_stop ha.space (hsa ha)).1
  have htb := (takeWhile_append_of_stop hb.space (hsb hb)).1
  rw [spelled_cons, spelled_cons] at htext
  have hlist : a.text.toList = b.text.toList := by rw [← hta, htext, htb]
  have hkind : a.kind = b.kind := by rw [ha.kind, hb.kind, hlist]
  cases a
  cases b
  exact Lexeme.mk.injEq .. ▸ ⟨hkind, String.toList_inj.mp hlist⟩

lemma IsInk.eq_semicolon {a b : Lexeme} (hb : b.IsInk) (ha : a = semicolon)
    (htext : spelled (a :: as) = spelled (b :: bs)) : b = semicolon := by
  obtain ⟨c, cs, hcs, -, hsemi⟩ := hb.head
  rw [ha, spelled_cons, spelled_cons, hcs] at htext
  exact hsemi (List.cons_eq_cons.mp htext).1.symm

/-- What is kept at the front of a text is a semicolon, or the next fixed lexeme. -/
lemma IsInk.eq_of_spelled {a b : Lexeme} (ha : a.IsInk) (hb : b.IsInk) (hka : a.isKept = true)
    (hkb : b.isKept = true) (hfixed : (a :: as).filter isFixed = (b :: bs).filter isFixed)
    (htext : spelled (a :: as) = spelled (b :: bs)) : a = b := by
  by_cases hsa : a = semicolon
  · rw [hsa, hb.eq_semicolon hsa htext]
  by_cases hsb : b = semicolon
  · rw [hsb, ha.eq_semicolon hsb htext.symm]
  have hfa : a.isFixed = true := by simp [isFixed, hka, hsa]
  have hfb : b.isFixed = true := by simp [isFixed, hkb, hsb]
  rw [List.filter_cons_of_pos hfa, List.filter_cons_of_pos hfb] at hfixed
  exact (List.cons_eq_cons.mp hfixed).1

/-- **A text reads one way**: a text that spells gaps and kept lexemes, no gap in front of another,
spells no others with the same fixed lexemes. -/
theorem eq_of_spelled (has : ∀ l ∈ as, l.IsGap ∨ (l.IsInk ∧ l.isKept = true))
    (hbs : ∀ l ∈ bs, l.IsGap ∨ (l.IsInk ∧ l.isKept = true)) (hsa : Spaced as) (hsb : Spaced bs)
    (hfixed : as.filter isFixed = bs.filter isFixed) (htext : spelled as = spelled bs) :
      as = bs := by
  induction as generalizing bs with
  | nil =>
    cases bs with
    | nil => rfl
    | cons b bs => exact absurd htext.symm (spelled_ne_nil (hbs b List.mem_cons_self))
  | cons a as ih =>
    cases bs with
    | nil => exact absurd htext (spelled_ne_nil (has a List.mem_cons_self))
    | cons b bs =>
      obtain ⟨ha, hta⟩ := List.forall_mem_cons.mp has
      obtain ⟨hb, htb⟩ := List.forall_mem_cons.mp hbs
      have hab : a = b := by
        rcases ha with ha | ⟨ha, hka⟩ <;> rcases hb with hb | ⟨hb, hkb⟩
        · exact ha.eq_of_spelled hb hsa.1 hsb.1 htext
        · have hspace := @IsGap.head_spelled a as ha
          rw [htext, hb.head_spelled] at hspace
          cases hspace
        · have hspace := @IsGap.head_spelled b bs hb
          rw [← htext, ha.head_spelled] at hspace
          cases hspace
        · exact ha.eq_of_spelled hb hka hkb hfixed htext
      subst hab
      rw [spelled_cons, spelled_cons] at htext
      rw [List.filter_cons, List.filter_cons] at hfixed
      refine congrArg _ (ih hta htb hsa.2 hsb.2 ?_ (List.append_cancel_left htext))
      split at hfixed
      · exact (List.cons_eq_cons.mp hfixed).2
      · exact hfixed

end Lexeme

namespace Lexer

variable {lx lx' lo lo' : Lexer} {t : Token} {l : Lexeme} {ls : List Lexeme}

/-- The lexer reads the lexemes up to the end of its text. -/
def Reads (lx : Lexer) (ls : List Lexeme) : Prop :=
  ∃ ts, lx.run = (ts, none) ∧ ts.map Token.lexeme = ls

lemma reads_nil (hrest : lx.rest = []) (hresume : lx.resume = []) : lx.Reads [] := by
  have hnext : lx.next = (.ok none, lx) := by
    rw [next, hrest]
    simp [hresume]
  exact ⟨[], run_end hnext, rfl⟩

lemma Reads.cons (h : lx'.Reads ls) (hnext : lx.next = (.ok (some t), lx')) :
    lx.Reads (t.lexeme :: ls) := by
  obtain ⟨ts, hrun, hts⟩ := h
  refine ⟨t :: ts, ?_, by rw [List.map_cons, hts]⟩
  rw [run_token hnext, hrun]

lemma gap_or_ink_of_run {ts : List Token} (h : lx.run = (ts, none)) :
    ∀ t ∈ ts, t.lexeme.IsGap ∨ t.lexeme.IsInk := by
  induction ts generalizing lx with
  | nil => exact nofun
  | cons t ts ih =>
    obtain ⟨lx', hnext, hrun⟩ := run_ok_cons h
    exact List.forall_mem_cons.mpr ⟨Lexeme.gap_or_ink hnext, ih hrun⟩

/-- **A text is read as the lexemes that spell it**, if what is read has the same fixed lexemes.
Then they are apart. -/
theorem lexemes_of_run {ts : List Token} (h : lx.run = (ts, none))
    (hrest : lx.rest = Lexeme.spelled ls)
    (hls : ∀ l ∈ ls, l.IsGap ∨ (l.IsInk ∧ l.isKept = true)) (hspaced : Lexeme.Spaced ls)
    (hfixed : (ts.map Token.lexeme).filter Lexeme.isFixed = ls.filter Lexeme.isFixed) :
    ts.map Token.lexeme = ls ∧ Lexeme.apart ls = true := by
  have happart := apart_of_run h
  have htext : Lexeme.spelled (ts.map Token.lexeme) = Lexeme.spelled ls := by
    rw [← spelled_of_run h, hrest]
  have hink : ∀ l ∈ ts.map Token.lexeme, l.IsGap ∨ l.IsInk :=
    List.forall_mem_map.mpr (gap_or_ink_of_run h)
  have hkept : ∀ l ∈ ts.map Token.lexeme, l.IsGap ∨ l.isKept = true := by
    refine Lexeme.gap_or_kept hink ?_
    rw [hfixed, htext, Lexeme.weight_fixed fun l hl => (hls l hl).imp_right And.right]
  have heq : ts.map Token.lexeme = ls := by
    refine Lexeme.eq_of_spelled (fun l hl => ?_) hls (Lexeme.spaced_of_apart happart) hspaced hfixed
      htext
    rcases hink l hl with hgap | hink
    · exact Or.inl hgap
    · exact (hkept l hl).imp_right fun h => ⟨hink, h⟩
  exact ⟨heq, heq ▸ happart⟩

/-! ### Reading what is put between tokens -/

lemma next_gap (hl : l.IsGap) {more : List Char} (hrest : lx.rest = l.text.toList ++ more)
    (hm : runsOn l.kind l.text.toList more = false) :
    ∃ lx', lx.next = (.ok (some ⟨l.kind, l.text, lx.pos⟩), lx') ∧ lx'.rest = more ∧
      0 < lx'.pos ∧ SameState lx lx' := by
  obtain ⟨c, w, htext⟩ := List.exists_cons_of_ne_nil hl.ne_nil
  have hstop : more.head?.any (fun c => isLineEnd c || isBlank c) = false := by
    rw [hl.kind] at hm
    split at hm <;> exact hm
  have hc : Lexeme.isSpace c = true := hl.space c (by rw [htext]; exact List.mem_cons_self)
  obtain ⟨htake, hdrop⟩ := takeWhile_append_of_stop hl.space hstop
  have hscan : lx.scan c (w ++ more) = ⟨l.text.toList, more, .ok l.kind⟩ := by
    have hblanks : lx.scan c (w ++ more) = blanks (c :: (w ++ more)) := by
      rw [scan]
      exact if_pos hc
    rw [hblanks, ← List.cons_append, ← htext, blanks]
    unfold Lexeme.isSpace at htake hdrop
    rw [htake, hdrop, hl.kind]
  rw [htext] at hrest
  have hnext := next_of_scan hrest hscan
  rw [String.ofList_toList] at hnext
  have htrivia : l.kind.isTrivia = true := by
    rw [hl.kind]
    split <;> rfl
  have hrecord (lx : Lexer) (start : Nat) : lx.record ⟨l.kind, l.text, start⟩ = lx :=
    if_pos htrivia
  rw [hrecord] at hnext
  refine ⟨_, hnext, rfl, ?_, rfl, rfl, skip_resume ?_ _⟩
  · rw [htext]
    exact Nat.lt_of_lt_of_le (size_cons_pos c w) (Nat.le_add_left _ _)
  · have hbrace : c ≠ '\x7d' := by
      rintro rfl
      exact absurd hc (by decide)
    simp [resumes, hbrace]

lemma next_semicolon {more : List Char} (hrest : lx.rest = ';' :: more) :
    ∃ lx', lx.next = (.ok (some ⟨.punctuator, ";", lx.pos⟩), lx') ∧ lx'.rest = more ∧
      0 < lx'.pos ∧ lx'.afterOperand = false ∧ lx'.depth = lx.depth ∧ lx'.resume = lx.resume :=
  ⟨_, next_of_scan hrest (scan_semicolon lx more), rfl,
    Nat.lt_of_lt_of_le (size_cons_pos _ _) (Nat.le_add_left _ _), rfl, rfl, rfl⟩

lemma sameState_of_trivia (h : lx.next = (.ok (some t), lx')) (ht : t.isTrivia = true) :
    SameState lx lx' := by
  obtain ⟨c, cs, w, -, hkind, -, -, rfl⟩ := next_ok h
  have hrecord (lx : Lexer) : lx.record t = lx := if_pos ht
  rw [hrecord]
  refine ⟨rfl, rfl, skip_resume ?_ _⟩
  by_contra hres
  rw [Bool.not_eq_false] at hres
  rw [scan_of_resumes hres] at hkind
  obtain ⟨⟨part, hpart⟩, -⟩ := template_stable hkind
  simp [Token.isTrivia, TokenKind.isTrivia, hpart] at ht

lemma afterOperand_of_next (h : lx.next = (.ok (some t), lx')) (ht : t.isTrivia = false) :
    lx'.afterOperand = t.endsOperand := by
  obtain ⟨c, cs, w, -, -, -, -, rfl⟩ := next_ok h
  unfold record
  rw [if_neg (by simp [ht])]
  dsimp only
  split <;> try rfl
  split_ifs <;> rfl

lemma state_of_semicolon (h : lx.next = (.ok (some t), lx')) (ht : t.isPunct ";" = true) :
    lx'.depth = lx.depth ∧ lx'.resume = lx.resume := by
  obtain ⟨c, cs, w, hrest, -, -, htext, -⟩ := next_ok h
  have hc : c = ';' := by
    have hsemi : t.text = ";" := by simp_all [Token.isPunct]
    rw [hsemi] at htext
    exact (List.cons_eq_cons.mp htext).1.symm
  rw [hc] at hrest
  obtain ⟨lx'', hnext, -, -, -, hdepth, hresume⟩ := next_semicolon hrest
  rw [h] at hnext
  obtain rfl := (Prod.mk.inj hnext).2
  exact ⟨hdepth, hresume⟩

end Lexer

end Minify
