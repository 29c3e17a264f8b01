import Mathlib
import Minify.Proofs.Lexemes

/-!
Templates and braces nest.

Of the tokens of a script only the parts of templates and the braces count here. The head of a
template has its tail, with middle parts between the two, and between one of these and the next
stand the marks of a substitution: templates, and braces in pairs. Outside of all templates a brace
needs no partner.

The lexer knows where a template goes on by the braces that were open when its substitution began.
Read from the end of the script, the marks that follow a state of the lexer close all that is open
in it: the braces inside the innermost substitution, the template around them, and so on outwards.
-/

namespace Minify

namespace Templates

/-- A part of a template, or a brace that belongs to no template. -/
inductive Mark where
  | part (p : TemplatePart)
  | opens
  | closes
  deriving DecidableEq, Repr

def mark? (t : Token) : Option Mark :=
  match t.kind with
  | .template p => some (.part p)
  | .punctuator =>
    if t.text = "\x7b" then some .opens else if t.text = "\x7d" then some .closes else none
  | _ => none

lemma mark?_of_template {t : Token} {p : TemplatePart} (h : t.kind = .template p) :
    mark? t = some (.part p) := by
  simp [mark?, h]

lemma kind_of_mark_part {t : Token} {p : TemplatePart} (h : mark? t = some (.part p)) :
    t.kind = .template p := by
  unfold mark? at h
  split at h
  · cases h
    assumption
  · split_ifs at h <;> cases h
  · cases h

lemma text_of_mark_closes {t : Token} (h : mark? t = some .closes) : t.text = "\x7d" := by
  unfold mark? at h
  split at h
  · cases h
  · split_ifs at h with hopens hcloses
    · cases h
    · exact hcloses
  · cases h

/-- The parts of templates and the braces among some tokens. -/
def marks (tokens : List Token) : List Mark := tokens.filterMap mark?

/-- The substitutions of a template after the first, each behind a middle part. -/
def further (subs : List (List Mark)) : List Mark := subs.flatMap fun s => .part .middle :: s

/-- Marks that nest, inside of a substitution or outside of all templates. -/
inductive Nests : (inside : Bool) → List Mark → Prop
  | nil {inside : Bool} : Nests inside []
  | whole {inside : Bool} {rest : List Mark} (hrest : Nests inside rest) :
      Nests inside (.part .whole :: rest)
  | template {inside : Bool} {first rest : List Mark} {subs : List (List Mark)}
      (hfirst : Nests true first) (hsubs : ∀ s ∈ subs, Nests true s) (hrest : Nests inside rest) :
      Nests inside (.part .head :: (first ++ (further subs ++ .part .tail :: rest)))
  | braces {inner rest : List Mark} (hinner : Nests true inner) (hrest : Nests true rest) :
      Nests true (.opens :: (inner ++ .closes :: rest))
  /-- Outside of all templates a brace stands for itself. -/
  | brace {m : Mark} {rest : List Mark} (hm : m = .opens ∨ m = .closes) (hrest : Nests false rest) :
      Nests false (m :: rest)

/-! ### What the lexer counts -/

/-- What a token does to the number of open braces and to the depths where templates go on. -/
inductive Moves : Option Mark → Nat → List Nat → Nat → List Nat → Prop
  | other {depth : Nat} {resume : List Nat} : Moves none depth resume depth resume
  | whole {depth : Nat} {resume : List Nat} : Moves (some (.part .whole)) depth resume depth resume
  | opens {depth : Nat} {resume : List Nat} : Moves (some .opens) depth resume (depth + 1) resume
  | closes {depth : Nat} {resume : List Nat} (h : resume.head? ≠ some depth) :
      Moves (some .closes) depth resume (depth - 1) resume
  | head {depth : Nat} {resume : List Nat} :
      Moves (some (.part .head)) depth resume depth (depth :: resume)
  | middle {depth : Nat} {resume : List Nat} :
      Moves (some (.part .middle)) depth (depth :: resume) depth (depth :: resume)
  | tail {depth : Nat} {resume : List Nat} :
      Moves (some (.part .tail)) depth (depth :: resume) depth resume

end Templates

namespace Lexer

open Scan Templates

variable {lx lx' : Lexer} {t : Token} {c : Char} {cs : List Char}

lemma template_part {first : Bool} {p : TemplatePart}
    (h : (template first cs).result = .ok (.template p)) :
    if first then p = .whole ∨ p = .head else p = .middle ∨ p = .tail := by
  unfold template at h
  dsimp only at h
  split at h
  · cases h
    generalize ((templateBody (cs.drop 1)).after (cs.take 1)).opens = opens
    cases first <;> cases opens <;> simp
  · cases h

/-- Where no template goes on, a part of a template begins one. -/
lemma part_of_scan {p : TemplatePart} (hres : lx.resumes c = false)
    (h : (lx.scan c cs).result = .ok (.template p)) : p = .whole ∨ p = .head := by
  rw [scan_eq] at h
  have hcases := scanner_cases lx c cs
  generalize lx.scannerOf c cs.head? = f at hcases h
  cases hcases with
  | blanks => rcases (blanks_stable h).1 with h | h <;> cases h
  | hashbang => cases h
  | lineComment => cases h
  | blockComment _ _ hcs =>
    subst hcs
    obtain ⟨⟨k, hk, -⟩, -⟩ := blockComment_stable h
    cases hk
  | name => rcases (name_stable h).1 with h | ⟨_, h⟩ <;> cases h
  | number => cases (number_stable h).1
  | string _ hescape => cases (string_stable hescape h).1
  | template => exact template_part h
  | resumed _ hgoes =>
    rw [hres] at hgoes
    cases hgoes
  | regex => cases (regex_stable h).1
  | punctuator _ hslash hpoint => cases (punctuator_stable hslash hpoint h).1

/-- A token changes the open braces by what it is marked as. -/
lemma depth_record (t : Token) :
    (lx.record t).depth =
      match mark? t with
      | some .opens => lx.depth + 1
      | some .closes => lx.depth - 1
      | _ => lx.depth := by
  cases hkind : t.kind with
  | template p => cases p <;> simp [record, mark?, Token.isTrivia, TokenKind.isTrivia, hkind]
  | punctuator =>
    simp only [record, mark?, Token.isTrivia, TokenKind.isTrivia, hkind, Bool.false_eq_true,
      if_false]
    split_ifs <;> rfl
  | _ => simp [record, mark?, Token.isTrivia, TokenKind.isTrivia, hkind]

lemma resume_record (t : Token) :
    (lx.record t).resume =
      match mark? t with
      | some (.part .head) | some (.part .middle) => lx.depth :: lx.resume
      | _ => lx.resume := by
  cases hkind : t.kind with
  | template p => cases p <;> simp [record, mark?, Token.isTrivia, TokenKind.isTrivia, hkind]
  | punctuator =>
    simp only [record, mark?, Token.isTrivia, TokenKind.isTrivia, hkind, Bool.false_eq_true,
      if_false]
    split_ifs <;> rfl
  | _ => simp [record, mark?, Token.isTrivia, TokenKind.isTrivia, hkind]

/-- **What a token does** to the braces and templates that are open. -/
lemma moves_of_next (h : lx.next = (.ok (some t), lx')) :
    Moves (mark? t) lx.depth lx.resume lx'.depth lx'.resume := by
  obtain ⟨c, cs, w, -, hkind, -, htext, rfl⟩ := next_ok h
  have hdepth : (lx.skip c (lx.scan c cs)).depth = lx.depth := rfl
  rw [depth_record, resume_record, hdepth]
  cases hres : lx.resumes c with
  | true =>
    obtain ⟨-, hhead⟩ : c = '\x7d' ∧ lx.resume.head? = some lx.depth := by
      simpa [resumes] using hres
    obtain ⟨resume, hresume⟩ := List.head?_eq_some_iff.mp hhead
    have hskip : (lx.skip c (lx.scan c cs)).resume = resume := by simp [skip, hres, hresume]
    rw [scan_of_resumes hres] at hkind
    obtain ⟨⟨p, hp⟩, -⟩ := template_stable hkind
    rw [hp] at hkind
    rw [hskip, hresume, mark?_of_template hp]
    rcases template_part hkind with rfl | rfl
    · exact .middle
    · exact .tail
  | false =>
    rw [skip_resume hres]
    cases hmark : mark? t with
    | none => exact .other
    | some m =>
      cases m with
      | part p =>
        rw [kind_of_mark_part hmark] at hkind
        rcases part_of_scan hres hkind with rfl | rfl
        · exact .whole
        · exact .head
      | opens => exact .opens
      | closes =>
        refine .closes fun hhead => ?_
        rw [text_of_mark_closes hmark] at htext
        obtain rfl : c = '\x7d' := (List.cons_eq_cons.mp htext).1.symm
        simp [resumes, hhead] at hres

end Lexer

namespace Templates

/-! ### What is open -/

/-- A brace inside of a substitution, or a template in one of its substitutions. -/
inductive Frame where
  | brace
  | substitution
  deriving DecidableEq, Repr

/-- The marks close all that is open, the innermost first, and nest besides. -/
def Finishes : List Frame → List Mark → Prop
  | [], ms => Nests false ms
  | .brace :: frames, ms => ∃ inner rest, ms = inner ++ .closes :: rest ∧ Nests true inner ∧
      Finishes frames rest
  | .substitution :: frames, ms => ∃ first subs rest,
      ms = first ++ (further subs ++ .part .tail :: rest) ∧ Nests true first ∧
        (∀ s ∈ subs, Nests true s) ∧ Finishes frames rest

/-- What is open when `depth` braces are and templates go on at the depths `resume`. -/
def frames (depth : Nat) : List Nat → List Frame
  | [] => []
  | d :: resume => List.replicate (depth - d) .brace ++ .substitution :: frames d resume

/-- No template goes on at a greater depth than those inside of it, nor than the lexer stands at. -/
def Sinking (depth : Nat) (resume : List Nat) : Prop := (depth :: resume).IsChain (· ≥ ·)

variable {m : Option Mark} {ms : List Mark} {depth depth' : Nat} {resume resume' : List Nat}

lemma Moves.sinking (h : Moves m depth resume depth' resume') (hs : Sinking depth resume) :
    Sinking depth' resume' := by
  unfold Sinking at hs ⊢
  cases h with
  | other => exact hs
  | whole => exact hs
  | opens =>
    cases resume with
    | nil => exact .singleton _
    | cons d resume =>
      obtain ⟨hd, hresume⟩ := List.isChain_cons_cons.mp hs
      exact List.isChain_cons_cons.mpr ⟨by omega, hresume⟩
  | closes h =>
    cases resume with
    | nil => exact .singleton _
    | cons d resume =>
      obtain ⟨hd, hresume⟩ := List.isChain_cons_cons.mp hs
      have hne : d ≠ depth := fun heq => h (congrArg some heq)
      exact List.isChain_cons_cons.mpr ⟨by omega, hresume⟩
  | head => exact List.isChain_cons_cons.mpr ⟨Nat.le_refl _, hs⟩
  | middle => exact hs
  | tail => exact (List.isChain_cons_cons.mp hs).2

/-- Marks that nest by themselves may come before those that close what is open. -/
lemma Finishes.behind {fs : List Frame} (item : List Mark)
    (hitem : ∀ rest, Nests (!fs.isEmpty) rest → Nests (!fs.isEmpty) (item ++ rest))
    (h : Finishes fs ms) : Finishes fs (item ++ ms) := by
  match fs with
  | [] => exact hitem ms h
  | .brace :: fs =>
    obtain ⟨inner, rest, rfl, hinner, hrest⟩ := h
    exact ⟨item ++ inner, rest, (List.append_assoc ..).symm, hitem inner hinner, hrest⟩
  | .substitution :: fs =>
    obtain ⟨first, subs, rest, rfl, hfirst, hsubs, hrest⟩ := h
    exact ⟨item ++ first, subs, rest, (List.append_assoc ..).symm, hitem first hfirst, hsubs,
      hrest⟩

/-- One more brace inside of the innermost substitution. -/
lemma frames_succ {d : Nat} (resume : List Nat) (hd : d ≤ depth) :
    frames (depth + 1) (d :: resume) = .brace :: frames depth (d :: resume) := by
  rw [frames, frames, Nat.succ_sub hd, List.replicate_succ, List.cons_append]

/-- The next mark, in front of marks that close all that is open after it. -/
lemma Moves.finishes (hm : Moves m depth resume depth' resume') (hs : Sinking depth resume)
    (h : Finishes (frames depth' resume') ms) :
    Finishes (frames depth resume) (m.toList ++ ms) := by
  cases hm with
  | other => exact h
  | whole => exact h.behind [.part .whole] fun _ => .whole
  | opens =>
    cases resume with
    | nil => exact .brace (.inl rfl) h
    | cons d resume =>
      rw [frames_succ resume (List.isChain_cons_cons.mp hs).1] at h
      obtain ⟨inner, rest, rfl, hinner, hrest⟩ := h
      have hinside : (!(frames depth (d :: resume)).isEmpty) = true := by simp [frames]
      have hitem := hrest.behind (.opens :: (inner ++ [.closes])) fun rest hrest => by
        rw [hinside] at hrest ⊢
        simpa using Nests.braces hinner hrest
      simpa using hitem
  | closes hne =>
    cases resume with
    | nil => exact .brace (.inr rfl) h
    | cons d resume =>
      have hd := (List.isChain_cons_cons.mp hs).1
      have hdepth : d ≤ depth - 1 ∧ depth - 1 + 1 = depth := by
        have hlt : d ≠ depth := fun heq => hne (congrArg some heq)
        omega
      rw [← hdepth.2, frames_succ resume hdepth.1]
      exact ⟨[], ms, rfl, .nil, h⟩
  | head =>
    rw [frames, Nat.sub_self] at h
    obtain ⟨first, subs, rest, rfl, hfirst, hsubs, hrest⟩ := h
    have hitem := hrest.behind (.part .head :: (first ++ (further subs ++ [.part .tail])))
      fun rest hrest => by simpa using Nests.template hfirst hsubs hrest
    simpa using hitem
  | middle =>
    rw [frames, Nat.sub_self] at h ⊢
    obtain ⟨first, subs, rest, rfl, hfirst, hsubs, hrest⟩ := h
    exact ⟨[], first :: subs, rest, by simp [further], .nil,
      List.forall_mem_cons.mpr ⟨hfirst, hsubs⟩, hrest⟩
  | tail =>
    rw [frames, Nat.sub_self]
    exact ⟨[], [], ms, rfl, .nil, nofun, h⟩

end Templates

open Lexer Templates

lemma marks_cons (t : Token) (ts : List Token) :
    marks (t :: ts) = (mark? t).toList ++ marks ts := by
  unfold marks
  cases h : mark? t <;> simp [h]

/-- The marks of a run close all that is open where it starts. -/
lemma finishes_run {lx : Lexer} {ts : List Token} (h : lx.run = (ts, none))
    (hs : Sinking lx.depth lx.resume) : Finishes (frames lx.depth lx.resume) (marks ts) := by
  induction ts generalizing lx with
  | nil =>
    rw [(run_ok_nil h).2]
    exact .nil
  | cons t ts ih =>
    obtain ⟨lx', hnext, hrun⟩ := run_ok_cons h
    have hmoves := moves_of_next hnext
    rw [marks_cons]
    exact hmoves.finishes hs (ih hrun (hmoves.sinking hs))

/-- **Templates nest** in every script that is read without a fault: each head has its tail, with
the middle parts between them that are its own, and between one of these and the next all templates
and braces are closed that begin there. A part of a template belongs to a template that is open, and
the braces outside of all templates may be any. -/
theorem templates_nest {source : String} {ts : List Token} (h : tokenize source = .ok ts) :
    Nests false (marks ts) := by
  have hrun : (ofString source).run = (ts, none) := tokenize_eq_ok h
  exact finishes_run hrun (.singleton _)

set_option maxRecDepth 20000 in
/-- A template in braces in a substitution of another, between a brace that closes none and one that
is left open. -/
theorem templates_nest_in_braces :
    let source := "\x7d\x60a$\x7b\x7bb:\x60x$\x7b1\x7dy\x60\x7d.b\x7dc$\x7bd\x7de\x60\x7b"
    ∃ ts, tokenize source = .ok ts ∧
      marks ts = [.closes, .part .head, .opens, .part .head, .part .tail, .closes, .part .middle,
        .part .tail, .opens] ∧ Nests false (marks ts) := by
  intro source
  have h : (tokenize source).map marks = .ok [.closes, .part .head, .opens, .part .head,
      .part .tail, .closes, .part .middle, .part .tail, .opens] := by
    rw [tokenize, tokens_eq_runFor]
    decide +kernel
  cases hts : tokenize source with
  | error e => simp [hts, Except.map] at h
  | ok ts =>
    rw [hts] at h
    exact ⟨ts, rfl, Except.ok.inj h, templates_nest hts⟩

end Minify
