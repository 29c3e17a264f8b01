import Mathlib.Tactic.Common
import Minify.Proofs.TrackerCases

/-!
The sites that have been read stay as they are: only the end of a step puts one in front of them.
-/

namespace Minify.Tracker

variable {s t : Tracker} {site : Site} {next : Option Token}

lemma before_of_takeSlot {kind : DeclKind} (h : s.takeSlot = some (kind, t)) :
    t.before = s.before := by
  cases takeSlot_cases h <;> rfl

lemma before_declare (kind : DeclKind) (shorthand : Bool) :
    (s.declare site kind shorthand).before = s.before := by
  cases kind <;> rfl

lemma before_abandonDeclaration : s.abandonDeclaration.before = s.before := by
  unfold abandonDeclaration
  split <;> rfl

lemma before_beginBody (t : Token) : (s.beginBody t).before = s.before := by
  have h := beginBody_cases s t
  generalize s.beginBody t = u at h ⊢
  cases h <;> rfl

lemma before_key : (s.key site next).before = s.before := by
  have h := key_cases s site next
  generalize s.key site next = t at h ⊢
  cases h with
  | binding => exact before_declare _ _
  | _ => rfl

lemma before_keyword (k : Keyword) : (s.keyword site next k).before = s.before := by
  have h := keyword_cases s site next k
  generalize s.keyword site next k = t at h ⊢
  cases h <;> rfl

lemma before_identifier : (s.identifier site next).before = s.before := by
  have h := identifier_cases s site next
  generalize s.identifier site next = t at h ⊢
  cases h with
  | classDeclaration => exact before_declare _ _
  | @functionName _ declaration => cases declaration <;> rfl
  | parameter => exact before_declare _ _
  | _ => rfl

lemma before_word : (s.word site next).before = s.before := by
  have h := word_cases s site next
  generalize s.word site next = t at h ⊢
  cases h with
  | member => rfl
  | privateKey => exact before_key
  | keywordKey => exact before_key.trans before_abandonDeclaration
  | keyword => exact (before_keyword _).trans before_abandonDeclaration
  | slot _ hslot => exact (before_declare _ _).trans (before_of_takeSlot hslot)
  | key => exact before_key
  | identifier => exact before_identifier

lemma before_openBrace : s.openBrace.before = s.before := by
  have h := openBrace_cases s
  generalize s.openBrace = t at h ⊢
  cases h with
  | pattern _ hslot =>
    have hbefore := before_of_takeSlot hslot
    exact hbefore
  | _ => rfl

lemma before_openSquare : s.openSquare.before = s.before := by
  have h := openSquare_cases s
  generalize s.openSquare = t at h ⊢
  cases h with
  | pattern hslot =>
    have hbefore := before_of_takeSlot hslot
    exact hbefore
  | _ => rfl

lemma before_openParen : (s.openParen site).before = s.before := by
  have h := openParen_cases s site
  generalize s.openParen site = t at h ⊢
  cases h <;> rfl

lemma before_leave (f : Frame) : (s.leave f next).before = s.before := by
  have h := leave_cases s f next
  generalize s.leave f next = t at h ⊢
  cases h <;> rfl

lemma before_endBlock : (s.endBlock next).before = s.before := by
  have h := endBlock_cases s next
  generalize s.endBlock next = t at h ⊢
  cases h <;> rfl

lemma before_close : (s.close next).before = s.before := by
  have hframe (around : Frame) (outer : List Frame) :
      (s.closeFrame around outer next).before = s.before :=
    before_leave (s := s.pop around outer) s.top
  have h := close_cases s next
  generalize s.close next = t at h ⊢
  cases h with
  | root => rfl
  | frame => exact hframe _ _
  | braces => exact before_endBlock.trans (hframe _ _)

lemma before_punctuator : (s.punctuator site next).before = s.before := by
  have h := punctuator_cases s site next
  generalize s.punctuator site next = t at h ⊢
  cases h with
  | openBrace => exact before_openBrace
  | openSquare => exact before_openSquare
  | openParen => exact before_openParen
  | close => exact before_close
  | colon =>
    have hcolon := colon_cases s
    generalize s.colon = u at hcolon ⊢
    cases hcolon <;> rfl
  | arrow =>
    have harrow := arrow_cases s next
    generalize s.arrow next = u at harrow ⊢
    cases harrow <;> rfl
  | operator => exact before_abandonDeclaration
  | _ => rfl

lemma before_read : (s.read site next).before = s.before := by
  have h := read_cases s site next
  generalize s.read site next = t at h ⊢
  cases h with
  | punctuator => exact before_punctuator
  | word => exact before_word
  | key => exact before_key
  | templateTail => exact before_close
  | _ => rfl

lemma before_prepare : (s.prepare site).before = s.before := by
  unfold prepare
  dsimp only
  split <;> exact before_beginBody _

lemma before_step : (s.step site next).before = site :: s.before := by
  unfold step
  dsimp only
  rw [before_read, before_prepare]

end Minify.Tracker
