import Minify.Proofs.RecordedNames

/-!
The sites of a script when tokens are put into it.

Only tokens that are not trivia have a bracket, so the sites of a script are balanced as its tokens
are. The mark of a parenthesis depends on what follows the bracket that closes it. So the sites
before a place keep their marks when balanced tokens come in there, as long as the bracket right
before the place is no parenthesis.
-/

namespace Minify

namespace Brackets

variable {stack stack' : List (Char × Nat)}

lemma foldlM_append_eq_ok {xs ys : List Token}
    (h : (xs ++ ys).foldlM step stack = .ok stack') :
    ∃ mid, xs.foldlM step stack = .ok mid ∧ ys.foldlM step mid = .ok stack' := by
  rw [List.foldlM_append] at h
  cases hx : xs.foldlM step stack with
  | error e => rw [hx] at h; cases h
  | ok mid => rw [hx] at h; exact ⟨mid, rfl, h⟩

lemma foldlM_cons_eq_ok {t : Token} {ts : List Token}
    (h : (t :: ts).foldlM step stack = .ok stack') :
    ∃ mid, step stack t = .ok mid ∧ ts.foldlM step mid = .ok stack' := by
  rw [List.foldlM_cons] at h
  cases ht : step stack t with
  | error e => rw [ht] at h; cases h
  | ok mid => rw [ht] at h; exact ⟨mid, rfl, h⟩

lemma foldlM_pair {o e : Token} {c : Char} {xs ys : List Token} (ho : Site.bracket o = .opens c)
    (he : Site.bracket e = .closes (closer c)) (hxs : ∀ stack, xs.foldlM step stack = .ok stack)
    (hys : ∀ stack, ys.foldlM step stack = .ok stack) (stack : List (Char × Nat)) :
    (o :: (xs ++ e :: ys)).foldlM step stack = .ok stack := by
  have hfirst : step stack o = .ok ((c, o.start) :: stack) := by
    simp only [step, ho]
  have hlast : step ((c, o.start) :: stack) e = .ok stack := by
    simp only [step, he, close, if_true]
  calc (o :: (xs ++ e :: ys)).foldlM step stack
      = (xs ++ e :: ys).foldlM step ((c, o.start) :: stack) := by
        rw [List.foldlM_cons, hfirst]
        rfl
    _ = (e :: ys).foldlM step ((c, o.start) :: stack) := by
        rw [List.foldlM_append, hxs]
        rfl
    _ = .ok stack := by
        rw [List.foldlM_cons, hlast]
        exact hys stack

lemma step_append {t : Token} (h : step stack t = .ok stack') (base : List (Char × Nat)) :
    step (stack ++ base) t = .ok (stack' ++ base) := by
  rw [step_eq_ok_iff] at h ⊢
  cases hb : Site.bracket t with
  | opens c =>
    rw [hb] at h
    obtain rfl := h
    rfl
  | closes c =>
    rw [hb] at h
    obtain ⟨opener, i, rfl, hfits⟩ := h
    exact ⟨opener, i, rfl, hfits⟩
  | reopens =>
    rw [hb] at h
    obtain ⟨opener, i, rest, rfl, hfits, rfl⟩ := h
    exact ⟨opener, i, rest ++ base, rfl, hfits, rfl⟩
  | none =>
    rw [hb] at h
    obtain rfl := h
    rfl

lemma foldlM_step_append {ts : List Token} (h : ts.foldlM step stack = .ok stack')
    (base : List (Char × Nat)) : ts.foldlM step (stack ++ base) = .ok (stack' ++ base) := by
  induction ts generalizing stack with
  | nil =>
    cases h
    rfl
  | cons t ts ih =>
    obtain ⟨mid, ht, hts⟩ := foldlM_cons_eq_ok h
    rw [List.foldlM_cons, step_append ht base]
    exact ih hts

end Brackets

namespace Site

variable {tokens : List Token} {index : Nat} {newline : Bool}

lemma bracket_of_isTrivia {t : Token} (h : t.isTrivia = true) : bracket t = .none := by
  unfold Token.isTrivia TokenKind.isTrivia at h
  unfold bracket
  cases hk : t.kind <;> simp_all

lemma map_token_significant (index : Nat) (newline : Bool) (tokens : List Token) :
    (significant index newline tokens).map Site.token = tokens.filter fun t => !t.isTrivia := by
  induction tokens generalizing index newline with
  | nil => rfl
  | cons t ts ih =>
    rcases significant_cons index newline t with ⟨ht, b, he⟩ | ⟨ht, he⟩
    · rw [he, ih, List.filter_cons_of_neg (by simp [ht])]
    · rw [he, List.map_cons, ih, List.filter_cons_of_pos (by simp [ht])]

lemma map_token_ofTokens (tokens : List Token) :
    (ofTokens tokens).map Site.token = tokens.filter fun t => !t.isTrivia := by
  have h := congrArg (List.map Site.token) (map_plain_ofTokens tokens)
  rw [List.map_map, List.map_map] at h
  exact h.trans (map_token_significant 0 false tokens)

lemma foldlM_step_filter (tokens : List Token) (stack : List (Char × Nat)) :
    (tokens.filter fun t => !t.isTrivia).foldlM Brackets.step stack
      = tokens.foldlM Brackets.step stack := by
  induction tokens generalizing stack with
  | nil => rfl
  | cons t ts ih =>
    by_cases ht : t.isTrivia = true
    · rw [List.filter_cons_of_neg (by simp [ht]), ih, List.foldlM_cons, Brackets.step,
        bracket_of_isTrivia ht]
      rfl
    · rw [List.filter_cons_of_pos (by simp [ht]), List.foldlM_cons, List.foldlM_cons]
      exact bind_congr fun mid => ih mid

lemma foldlM_step_ofTokens (tokens : List Token) (stack : List (Char × Nat)) :
    ((ofTokens tokens).map Site.token).foldlM Brackets.step stack
      = tokens.foldlM Brackets.step stack := by
  rw [map_token_ofTokens, foldlM_step_filter]

end Site

namespace Brackets

/-- The check fails at the first bracket that does not fit, or else at the innermost left open. -/
lemma check_eq (tokens : List Token) : check tokens = (do
    match ← tokens.foldlM step [] with
    | [] => return ()
    | (opener, offset) :: _ => throw ⟨.unclosed opener, offset⟩) := by
  have h : Except.map Matching.stack ((Matching.start (Site.significant 0 false tokens)).readFrom 0
      (Site.significant 0 false tokens)) = tokens.foldlM step [] := by
    rw [Matching.map_stack_readFrom, Site.map_token_significant, Site.foldlM_step_filter]
    rfl
  unfold check closers
  rw [← h]
  cases (Matching.start (Site.significant 0 false tokens)).readFrom 0
      (Site.significant 0 false tokens) with
  | error e => rfl
  | ok m =>
    obtain ⟨stack, places, closers⟩ := m
    cases stack <;> rfl

lemma check_eq_ok {ts : List Token} : check ts = .ok () ↔ ts.foldlM step [] = .ok [] := by
  rw [check_eq]
  cases h : ts.foldlM step [] with
  | error e => exact ⟨nofun, nofun⟩
  | ok stack =>
    cases stack with
    | nil => exact ⟨fun _ => rfl, fun _ => rfl⟩
    | cons top rest => exact ⟨nofun, nofun⟩

end Brackets

namespace Site

variable {tokens : List Token} {index : Nat} {newline : Bool}

/-! ### Tokens put in at a place -/

/-- The sites up to a place are those of the tokens up to there. -/
lemma significant_take {xs ys : List Site} {site : Site}
    (h : significant index newline tokens = xs ++ site :: ys) :
    ∃ k, site.index = index + k ∧ ∀ more, significant index newline (tokens.take (k + 1) ++ more)
      = xs ++ site :: significant (site.index + 1) false more := by
  induction tokens generalizing index newline xs with
  | nil => simp [significant] at h
  | cons t ts ih =>
    rcases significant_cons index newline t with ⟨-, b, he⟩ | ⟨-, he⟩
    · rw [he] at h
      obtain ⟨k, hk, hmore⟩ := ih h
      refine ⟨k + 1, by omega, fun more => ?_⟩
      rw [List.take_succ_cons, List.cons_append, he, hmore]
    · rw [he] at h
      cases xs with
      | nil =>
        obtain ⟨rfl, -⟩ := List.cons_eq_cons.mp h
        refine ⟨0, rfl, fun more => ?_⟩
        rw [List.take_succ_cons, List.take_zero, List.cons_append, List.nil_append, he]
        rfl
      | cons x xs =>
        obtain ⟨rfl, hrest⟩ := List.cons_eq_cons.mp h
        obtain ⟨k, hk, hmore⟩ := ih hrest
        refine ⟨k + 1, by omega, fun more => ?_⟩
        rw [List.take_succ_cons, List.cons_append, he, hmore]
        rfl

/-- The marks of the brackets in a list depend on its tokens. -/
lemma markArrows_snd_congr {xs ys : List Site} (h : xs.map Site.token = ys.map Site.token) :
    (markArrows xs).2 = (markArrows ys).2 := by
  induction xs generalizing ys with
  | nil =>
    rw [List.map_eq_nil_iff.mp h.symm]
  | cons x xs ih =>
    cases ys with
    | nil => cases h
    | cons y ys =>
      obtain ⟨htoken, hrest⟩ := List.cons_eq_cons.mp h
      have hhead : xs.head?.map Site.token = ys.head?.map Site.token := by
        rw [← List.head?_map, ← List.head?_map, hrest]
      have harrow : (xs.head?.any fun n => n.token.isPunct "=>")
          = ys.head?.any fun n => n.token.isPunct "=>" := by
        have hany := congrArg (Option.any fun t : Token => t.isPunct "=>") hhead
        rwa [Option.any_map, Option.any_map] at hany
      rw [markArrows, markArrows, htoken, ih hrest, harrow]
      cases bracket y.token <;> rfl

/-- The marks that wait agree where a parenthesis takes them. -/
def Agree : List (Char × Nat) → List Bool → List Bool → Prop
  | [], _, _ => True
  | (c, _) :: stack, ms, ms' =>
    (c = '(' → ms.head?.getD false = ms'.head?.getD false) ∧ Agree stack ms.tail ms'.tail

lemma Agree.refl (stack : List (Char × Nat)) (ms : List Bool) : Agree stack ms ms := by
  induction stack generalizing ms with
  | nil => trivial
  | cons top stack ih => exact ⟨fun _ => rfl, ih _⟩

/-- **Sites before a place** keep their marks when what follows agrees on them. -/
lemma markArrows_append {xs ys zs : List Site} {stack stack' : List (Char × Nat)}
    (h : (xs.map Site.token).foldlM Brackets.step stack = .ok stack')
    (hhead : (ys.head?.any fun n => n.token.isPunct "=>")
      = zs.head?.any fun n => n.token.isPunct "=>")
    (ha : Agree stack' (markArrows ys).2 (markArrows zs).2) :
    Agree stack (markArrows (xs ++ ys)).2 (markArrows (xs ++ zs)).2 ∧
      ∃ ms, ms.length = xs.length ∧ (markArrows (xs ++ ys)).1 = ms ++ (markArrows ys).1 ∧
        (markArrows (xs ++ zs)).1 = ms ++ (markArrows zs).1 := by
  induction xs generalizing stack with
  | nil =>
    cases h
    exact ⟨ha, [], rfl, rfl, rfl⟩
  | cons x xs ih =>
    obtain ⟨mid, hx, hxs⟩ := Brackets.foldlM_cons_eq_ok h
    obtain ⟨hagree, ms, hlen, hys, hzs⟩ := ih hxs
    have harrow : ((xs ++ ys).head?.any fun n => n.token.isPunct "=>")
        = (xs ++ zs).head?.any fun n => n.token.isPunct "=>" := by
      cases xs with
      | nil => exact hhead
      | cons y xs => rfl
    rw [List.cons_append, List.cons_append, markArrows, markArrows, harrow]
    have hsites (m : Site) : ∃ ns : List Site, ns.length = (x :: xs).length ∧
        m :: (markArrows (xs ++ ys)).1 = ns ++ (markArrows ys).1 ∧
        m :: (markArrows (xs ++ zs)).1 = ns ++ (markArrows zs).1 := by
      refine ⟨m :: ms, congrArg (· + 1) hlen, ?_, ?_⟩
      · rw [hys, List.cons_append]
      · rw [hzs, List.cons_append]
    rw [Brackets.step_eq_ok_iff] at hx
    cases hb : bracket x.token with
    | opens c =>
      rw [hb] at hx
      obtain rfl := hx
      refine ⟨hagree.2, ?_⟩
      have hmark : (decide (c = '(') && (markArrows (xs ++ ys)).2.head?.getD false)
          = (decide (c = '(') && (markArrows (xs ++ zs)).2.head?.getD false) := by
        by_cases hc : c = '('
        · rw [hagree.1 hc]
        · simp [hc]
      dsimp only
      rw [hmark]
      exact hsites _
    | closes c =>
      rw [hb] at hx
      obtain ⟨opener, i, rfl, -⟩ := hx
      exact ⟨⟨fun _ => rfl, hagree⟩, hsites x⟩
    | reopens =>
      rw [hb] at hx
      obtain ⟨opener, i, rest, rfl, -, rfl⟩ := hx
      exact ⟨⟨fun _ => rfl, hagree.2⟩, hsites x⟩
    | none =>
      rw [hb] at hx
      obtain rfl := hx
      exact ⟨hagree, hsites x⟩

end Site

end Minify
