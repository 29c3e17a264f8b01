import Minify.Proofs.LoopPrograms
import Minify.Proofs.SitesInScript

/-!
The brackets of statements fit, and no parenthesis of theirs belongs to an arrow.
-/

namespace Minify

/-- After the words the same brackets are open as before, and none of them is an arrow. -/
structure Balanced (ws : List Word) : Prop where
  fits : ∀ (sites : List Site) (stack : List (Char × Nat)), Spells sites ws →
    (sites.map Site.token).foldlM Brackets.step stack = .ok stack
  arrows : ∀ w ∈ ws, w.kind = .punctuator → w.text ≠ "=>"

/-- The word has no bracket and is no arrow. -/
def Word.isPlain (w : Word) : Prop :=
  w.kind = .identifier ∨ (∃ k, w.kind = .keyword k) ∨
    w.kind = .punctuator ∧ (w.text = ";" ∨ w.text = ",")

lemma plain_name (x : String) : (Word.name x).isPlain := .inl rfl

lemma plain_keyword (k : Keyword) (text : String) : (Word.keyword k text).isPlain :=
  .inr (.inl ⟨k, rfl⟩)

namespace Balanced

variable {ws ws' : List Word} {w : Word}

lemma nil : Balanced [] := by
  refine ⟨fun sites stack h => ?_, nofun⟩
  cases h
  rfl

lemma append (h : Balanced ws) (h' : Balanced ws') : Balanced (ws ++ ws') := by
  refine ⟨fun sites stack hs => ?_, fun w hw => ?_⟩
  · obtain ⟨xs, ys, rfl, hxs, hys⟩ := spells_append hs
    rw [List.map_append, List.foldlM_append, h.fits xs stack hxs]
    exact h'.fits ys stack hys
  · exact (List.mem_append.mp hw).elim (h.arrows w) (h'.arrows w)

lemma cons (hw : w.isPlain) (h : Balanced ws) : Balanced (w :: ws) := by
  refine ⟨fun sites stack hs => ?_, fun v hv => ?_⟩
  · obtain ⟨site, rest, hsite, hrest, rfl⟩ := List.forall₂_cons_right_iff.mp hs
    have hb : Site.bracket site.token = .none := by
      rcases hw with hk | ⟨k, hk⟩ | ⟨hk, ht | ht⟩ <;>
        simp [Site.bracket, hsite.kind, hsite.text, *]
    have hstep : Brackets.step stack site.token = .ok stack := by
      simp only [Brackets.step, hb]
    rw [List.map_cons, List.foldlM_cons, hstep]
    exact h.fits rest stack hrest
  · rcases List.mem_cons.mp hv with rfl | hv
    · rcases hw with hk | ⟨k, hk⟩ | ⟨hk, ht | ht⟩ <;> simp [*]
    · exact h.arrows v hv

lemma between {opener closer : String} {c : Char}
    (ho : ∀ site, (Word.punct opener).At site → Site.bracket site.token = .opens c)
    (hc : ∀ site, (Word.punct closer).At site →
      Site.bracket site.token = .closes (Brackets.closer c))
    (hopener : opener ≠ "=>") (hcloser : closer ≠ "=>") (h : Balanced ws) :
    Balanced (.punct opener :: (ws ++ [.punct closer])) := by
  refine ⟨fun sites stack hs => ?_, fun w hw => ?_⟩
  · obtain ⟨o, rest, hopen, hrest, rfl⟩ := List.forall₂_cons_right_iff.mp hs
    obtain ⟨xs, ys, rfl, hxs, hys⟩ := spells_append hrest
    obtain ⟨e, others, hclose, hothers, rfl⟩ := List.forall₂_cons_right_iff.mp hys
    cases hothers
    rw [List.map_cons, List.map_append]
    exact Brackets.foldlM_pair (ho o hopen) (hc e hclose) (fun stack => h.fits xs stack hxs)
      (fun _ => rfl) stack
  · rcases List.mem_cons.mp hw with rfl | hw
    · exact fun _ => hopener
    · rcases List.mem_append.mp hw with hw | hw
      · exact h.arrows w hw
      · rw [List.mem_singleton.mp hw]
        exact fun _ => hcloser

lemma parens (h : Balanced ws) : Balanced (.punct "(" :: (ws ++ [.punct ")"])) := by
  refine h.between (c := '(') (fun site hs => ?_) (fun site hs => ?_) (by decide) (by decide) <;>
    simp [Site.bracket, hs.kind, hs.text, Word.punct, Brackets.closer]

lemma braces (h : Balanced ws) : Balanced (.punct "\x7b" :: (ws ++ [.punct "\x7d"])) := by
  refine h.between (c := '\x7b') (fun site hs => ?_) (fun site hs => ?_) (by decide) (by decide) <;>
    simp [Site.bracket, hs.kind, hs.text, Word.punct, Brackets.closer]

lemma header (x : String) : Balanced (Word.header x) :=
  parens (.cons (plain_name x) .nil)

lemma forHead (x y : String) : Balanced (Word.forHead x y) :=
  .cons (plain_keyword _ _) (parens (.cons (plain_keyword _ _)
    (.cons (plain_name x) (.cons (.inl rfl) (.cons (plain_name y) .nil)))))

lemma listed (params : List String) : Balanced (LoopProgram.listed params) := by
  induction params with
  | nil => exact .nil
  | cons x xs ih =>
    cases xs with
    | nil => exact .cons (plain_name x) .nil
    | cons y ys => exact .cons (plain_name x) (.cons (.inr (.inr ⟨rfl, .inr rfl⟩)) ih)

end Balanced

mutual

theorem Stmt.balanced_words : ∀ S : Stmt, Balanced S.words
  | .use x => .cons (plain_name x) (.cons (.inr (.inr ⟨rfl, .inl rfl⟩)) .nil)
  | .block l => .braces (Stmt.balanced_listWords l)
  | .cond x yes => .cons (plain_keyword _ _) (.append (.header x) yes.balanced_words)
  | .branch x yes no => .cons (plain_keyword _ _) (.append (.header x)
      (.append yes.balanced_words (.cons (plain_keyword _ _) no.balanced_words)))
  | .repeats x body => .cons (plain_keyword _ _) (.append (.header x) body.balanced_words)
  | .loop x y body => .append (.forHead x y) body.balanced_words

theorem Stmt.balanced_listWords : ∀ l : List Stmt, Balanced (Stmt.listWords l)
  | [] => .nil
  | S :: rest => .append S.balanced_words (Stmt.balanced_listWords rest)

end

theorem LoopProgram.balanced_words (p : LoopProgram) : Balanced p.words := by
  refine .cons (plain_keyword _ _) (.cons (plain_name _) ?_)
  have h : Balanced ((.punct "(" :: (LoopProgram.listed p.params ++ [.punct ")"])) ++
      (.punct "\x7b" :: (Stmt.listWords p.body ++ [.punct "\x7d"]))) :=
    .append (.parens (.listed p.params)) (.braces (Stmt.balanced_listWords p.body))
  rwa [List.cons_append, List.append_assoc] at h

namespace Site

variable {tokens : List Token}

lemma beforeArrow_ofTokens (h : ∀ s ∈ ofTokens tokens, s.token.isPunct "=>" = false) :
    ∀ s ∈ ofTokens tokens, s.beforeArrow = false := by
  have hplain : ∀ s ∈ significant 0 false tokens, s.token.isPunct "=>" = false := by
    intro s hs
    have hmem : s.token ∈ (ofTokens tokens).map Site.token := by
      rw [map_token_ofTokens, ← map_token_significant 0 false]
      exact List.mem_map_of_mem hs
    obtain ⟨s', hs', he⟩ := List.mem_map.mp hmem
    exact he ▸ h s' hs'
  intro s hs
  unfold ofTokens at hs
  split at hs
  · obtain ⟨i, hi, rfl⟩ := List.mem_mapIdx.mp hs
    rw [Bool.and_eq_false_imp]
    intro _
    rw [arrowAfter, Option.any_eq_false]
    intro n hn
    obtain ⟨j, -, hj⟩ := Option.bind_eq_some_iff.mp hn
    rw [List.getElem?_toArray] at hj
    rw [hplain n (List.mem_of_getElem? hj)]
  · exact beforeArrow_significant 0 false tokens s hs

end Site

end Minify
