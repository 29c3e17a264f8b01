import Minify.Proofs.Expressions
import Minify.Proofs.LoopBrackets

/-!
The brackets of a text fit, and the parentheses marked for an arrow are those of its parameters.

Whether a parenthesis is marked depends on what follows the one that closes it, so the marks of a
part of a text are its own as long as no arrow comes right after it.
-/

namespace Minify

namespace MarkedWord

/-- The site is one for the piece. -/
structure At (p : MarkedWord) (site : Site) : Prop where
  word : p.word.At site
  beforeArrow : site.beforeArrow = p.beforeArrow

def isPunct (p : MarkedWord) (text : String) : Bool :=
  p.word.kind == .punctuator && p.word.text == text

def isPlain (p : MarkedWord) : Bool :=
  !p.beforeArrow && (p.word.kind == .identifier ||
    (p.word.kind matches .keyword _) ||
    (p.word.kind == .punctuator && !(["(", ")", "[", "]", "\x7b", "\x7d"].contains p.word.text)))

def startsArrow (ps : List MarkedWord) : Bool := ps.head?.any fun p => p.isPunct "=>"

end MarkedWord

open MarkedWord

/-- The sites of a text, marked as its pieces say. -/
def Marked (sites : List Site) (ps : List MarkedWord) : Prop :=
  List.Forall₂ (fun site p => p.At site) sites ps

/-- Brackets fit among the pieces, and an arrow follows on a closing parenthesis just where the
opening one is marked for it. -/
inductive Nested : List MarkedWord → Prop
  | nil : Nested []
  | plain {p : MarkedWord} {ps : List MarkedWord} (hp : p.isPlain = true) (hps : Nested ps) :
      Nested (p :: ps)
  | group {o c : MarkedWord} {a b : String} {inner ps : List MarkedWord}
      (hab : (a, b) ∈ [("(", ")"), ("[", "]"), ("\x7b", "\x7d")]) (ho : o.isPunct a = true)
      (hmark : o.beforeArrow = false) (hc : c.isPunct b = true) (hplain : c.beforeArrow = false)
      (hin : Nested inner) (hps : Nested ps) (hnext : startsArrow ps = false) :
      Nested (o :: (inner ++ c :: ps))
  | params {o c q : MarkedWord} {inner ps : List MarkedWord} (ho : o.isPunct "(" = true)
      (hmark : o.beforeArrow = true) (hc : c.isPunct ")" = true) (hplain : c.beforeArrow = false)
      (hq : q.isPunct "=>" = true) (hnone : q.beforeArrow = false) (hin : Nested inner)
      (hps : Nested ps) : Nested (o :: (inner ++ c :: q :: ps))

namespace Nested

variable {ps qs : List MarkedWord} {p : MarkedWord}

lemma append (h : Nested ps) (h' : Nested qs) (hnext : startsArrow qs = false) :
    Nested (ps ++ qs) := by
  induction h with
  | nil => exact h'
  | plain hp _ ih => exact .plain hp ih
  | @group o c a b inner ps hab ho hmark hc hplain hin _ hstart _ ih =>
    rw [List.cons_append, List.append_assoc, List.cons_append]
    refine .group hab ho hmark hc hplain hin ih ?_
    cases ps with
    | nil => exact hnext
    | cons => exact hstart
  | params ho hmark hc hplain hq hnone hin _ _ ih =>
    rw [List.cons_append, List.append_assoc, List.cons_append, List.cons_append]
    exact .params ho hmark hc hplain hq hnone hin ih

lemma stay (h : Nested ps) : Nested (ps.modifyHead MarkedWord.stay) := by
  cases h with
  | nil => exact .nil
  | plain hp hps => exact .plain hp hps
  | group hab ho hmark hc hplain hin hps hnext => exact .group hab ho hmark hc hplain hin hps hnext
  | params ho hmark hc hplain hq hnone hin hps => exact .params ho hmark hc hplain hq hnone hin hps

lemma parens (h : Nested ps) : Nested (.punct "(" :: (ps ++ [.punct ")"])) :=
  .group (a := "(") (b := ")") (by simp) rfl rfl rfl rfl h .nil rfl

lemma square (h : Nested ps) : Nested (.punct "[" :: (ps ++ [.punct "]"])) :=
  .group (a := "[") (b := "]") (by simp) rfl rfl rfl rfl h .nil rfl

lemma braces (h : Nested ps) : Nested (.punct "\x7b" :: (ps ++ [.punct "\x7d"])) :=
  .group (a := "\x7b") (b := "\x7d") (by simp) rfl rfl rfl rfl h .nil rfl

lemma listed (params : List String) : Nested (MarkedWord.listed params) := by
  induction params with
  | nil => exact .nil
  | cons x xs ih =>
    cases xs with
    | nil => exact .plain rfl .nil
    | cons => exact .plain rfl (.plain rfl ih)

end Nested

namespace Expr

/-- What an expression begins with. -/
def Leads (p : MarkedWord) : Prop :=
  (p.word.kind = .identifier ∨ ∃ k, p.word.kind = .keyword k) ∨
    p.word.text ∈ ["(", "[", "+", "-", "!", "~", "++", "--"]

lemma Leads.not_punct {p : MarkedWord} {text : String} (h : Leads p)
    (htext : text ∈ ["=>", "\x7b", ":"]) : p.isPunct text = false := by
  rcases h with (hk | ⟨k, hk⟩) | h
  · simp [isPunct, hk]
  · simp [isPunct, hk]
  · have hne : p.word.text ≠ text := by
      rintro rfl
      simp only [List.mem_cons, List.not_mem_nil, or_false] at h htext
      rcases htext with ht | ht | ht <;> rw [ht] at h <;> simp at h
    simp [isPunct, hne]

lemma exists_lead (e : Expr) : ∃ p ps, e.pieces = p :: ps ∧ Leads p := by
  have happend {f : Expr} (h : ∃ p ps, f.pieces = p :: ps ∧ Leads p) (qs : List MarkedWord) :
      ∃ p ps, f.pieces ++ qs = p :: ps ∧ Leads p := by
    obtain ⟨p, ps, hf, hp⟩ := h
    exact ⟨p, ps ++ qs, by rw [hf, List.cons_append], hp⟩
  match e with
  | name x => exact ⟨_, _, rfl, .inl (.inl rfl)⟩
  | paren e => exact ⟨_, _, rfl, .inr (by decide)⟩
  | call f args => exact happend f.exists_lead _
  | array items => exact ⟨_, _, rfl, .inr (by decide)⟩
  | cond test yes no => exact happend test.exists_lead _
  | arrow x body => exact ⟨_, _, rfl, .inl (.inl rfl)⟩
  | arrows params body => exact ⟨_, _, rfl, .inr (by decide)⟩
  | unary op e =>
    refine ⟨_, _, rfl, ?_⟩
    obtain ⟨op, hop⟩ := op
    simp only [Word.unary, Word.updates, List.map_cons, List.map_nil, List.cons_append,
      List.nil_append, List.mem_cons, List.not_mem_nil, or_false] at hop
    rcases hop with rfl | rfl | rfl | rfl | rfl | rfl | rfl | rfl | rfl
    iterate 6 exact .inr (by simp [MarkedWord.other, Word.punct])
    iterate 3 exact .inl (.inr ⟨_, rfl⟩)
  | update e op => exact happend e.exists_lead _
  | binary op l r => exact happend l.exists_lead _
  | member e dot x => exact happend e.exists_lead _
  | index e i => exact happend e.exists_lead _

lemma startsArrow_pieces (e : Expr) (ps : List MarkedWord) :
    startsArrow (e.pieces ++ ps) = false := by
  obtain ⟨p, qs, he, hp⟩ := e.exists_lead
  rw [he]
  exact hp.not_punct (by simp)

lemma isPlain_unary {op : Word} (h : op ∈ Word.unary) : (MarkedWord.other op).isPlain = true := by
  revert op
  decide

lemma isPlain_binary {op : Word} (h : op ∈ Word.binary) :
    (MarkedWord.other op).isPlain = true ∧ (MarkedWord.other op).isPunct "=>" = false := by
  revert op
  decide

lemma isPlain_update {op : Word} (h : op ∈ Word.updates) :
    (MarkedWord.other op).isPlain = true ∧ (MarkedWord.other op).isPunct "=>" = false := by
  revert op
  decide

lemma isPlain_dot {dot : Word} (h : dot ∈ Word.dots) :
    (MarkedWord.other dot).isPlain = true ∧ (MarkedWord.other dot).isPunct "=>" = false := by
  revert dot
  decide

mutual

theorem nested_pieces : ∀ e : Expr, Nested e.pieces
  | name _ => .plain rfl .nil
  | paren e => .parens e.nested_pieces
  | call f args => f.nested_pieces.append (.parens (nested_listPieces args)) rfl
  | array items => .square (nested_listPieces items)
  | cond test yes no => test.nested_pieces.append (.plain rfl (yes.nested_pieces.append
      (.plain rfl no.nested_pieces) rfl)) rfl
  | arrow _ body => .plain rfl (.plain rfl body.nested_pieces)
  | arrows params body => .params rfl rfl rfl rfl rfl rfl (.listed params) body.nested_pieces
  | unary op e => by
    rw [pieces]
    split
    · exact .plain (isPlain_unary op.2) e.nested_pieces.stay
    · exact .plain (isPlain_unary op.2) e.nested_pieces
  | update e op => e.nested_pieces.append (.plain (isPlain_update op.2).1 .nil)
      (isPlain_update op.2).2
  | binary op l r => l.nested_pieces.append (.plain (isPlain_binary op.2).1 r.nested_pieces)
      (isPlain_binary op.2).2
  | member e dot _ => e.nested_pieces.append
      (.plain (isPlain_dot dot.2).1 (.plain rfl .nil)) (isPlain_dot dot.2).2
  | index e i => e.nested_pieces.append (.square i.nested_pieces) rfl

theorem nested_listPieces : ∀ l : List Expr, Nested (listPieces l)
  | [] => .nil
  | [e] => e.nested_pieces
  | e :: e' :: rest =>
    e.nested_pieces.append (.plain rfl (nested_listPieces (e' :: rest))) rfl

end

end Expr

/-! ### The sites of nested pieces -/

namespace Nested

variable {ps : List MarkedWord} {p : MarkedWord} {sites rest : List Site} {site : Site}

lemma isPunct_iff {text : String} (h : p.word.At site) :
    site.token.isPunct text = p.isPunct text := by
  simp only [Token.isPunct, MarkedWord.isPunct, h.kind, h.text]

lemma bracket_of_isPlain (hp : p.isPlain = true) (h : p.word.At site) :
    Site.bracket site.token = .none := by
  simp only [isPlain, Bool.and_eq_true, Bool.or_eq_true, beq_iff_eq, Bool.not_eq_true'] at hp
  unfold Site.bracket
  rw [h.kind, h.text]
  rcases hp.2 with (hk | hk) | ⟨hk, ht⟩
  · rw [hk]
  · split at hk
    · rename_i k hkind
      rw [hkind]
    · cases hk
  · rw [hk]
    simp only [List.contains_eq_mem, List.mem_cons, List.not_mem_nil, or_false,
      decide_eq_false_iff_not, not_or] at ht
    simp [ht]

lemma bracket_of_pair {a b : String} {o c : MarkedWord} {x y : Site}
    (hab : (a, b) ∈ [("(", ")"), ("[", "]"), ("\x7b", "\x7d")]) (ho : o.isPunct a = true)
    (hc : c.isPunct b = true) (hx : o.word.At x) (hy : c.word.At y) :
    ∃ ch, Site.bracket x.token = .opens ch ∧
      Site.bracket y.token = .closes (Brackets.closer ch) := by
  simp only [isPunct, Bool.and_eq_true, beq_iff_eq] at ho hc
  simp only [List.mem_cons, Prod.mk.injEq, List.not_mem_nil, or_false] at hab
  unfold Site.bracket
  rw [hx.kind, hx.text, hy.kind, hy.text, ho.1, ho.2, hc.1, hc.2]
  rcases hab with ⟨rfl, rfl⟩ | ⟨rfl, rfl⟩ | ⟨rfl, rfl⟩
  · exact ⟨'(', rfl, rfl⟩
  · exact ⟨'[', rfl, rfl⟩
  · exact ⟨'\x7b', rfl, rfl⟩

lemma bracket_of_arrow (hp : p.isPunct "=>" = true) (h : p.word.At site) :
    Site.bracket site.token = .none := by
  simp only [isPunct, Bool.and_eq_true, beq_iff_eq] at hp
  simp [Site.bracket, h.kind, h.text, hp]

/-- The sites of a group: those of its two brackets, of what is between them and of what follows. -/
lemma exists_sites_of_group {o c : MarkedWord} {inner : List MarkedWord}
    (h : Spells sites ((o :: (inner ++ c :: ps)).map MarkedWord.word)) :
    ∃ x xs y ys, sites = x :: (xs ++ y :: ys) ∧ o.word.At x ∧
      Spells xs (inner.map MarkedWord.word) ∧ c.word.At y ∧ Spells ys (ps.map MarkedWord.word) := by
  rw [List.map_cons, List.map_append] at h
  obtain ⟨x, others, hx, hothers, rfl⟩ := List.forall₂_cons_right_iff.mp h
  obtain ⟨xs, back, rfl, hxs, hback⟩ := spells_append hothers
  obtain ⟨y, ys, hy, hys, rfl⟩ := List.forall₂_cons_right_iff.mp hback
  exact ⟨x, xs, y, ys, rfl, hx, hxs, hy, hys⟩

theorem fits (h : Nested ps) (hsites : Spells sites (ps.map MarkedWord.word))
    (stack : List (Char × Nat)) :
    (sites.map Site.token).foldlM Brackets.step stack = .ok stack := by
  induction h generalizing sites stack with
  | nil =>
    cases hsites
    rfl
  | plain hp _ ih =>
    obtain ⟨site, rest, hsite, hrest, rfl⟩ := List.forall₂_cons_right_iff.mp hsites
    have hstep : Brackets.step stack site.token = .ok stack := by
      simp only [Brackets.step, bracket_of_isPlain hp hsite]
    rw [List.map_cons, List.foldlM_cons, hstep]
    exact ih hrest stack
  | group hab ho hmark hc hplain _ _ _ ih ih' =>
    obtain ⟨x, inner, y, rest, rfl, hx, hinner, hy, hrest⟩ := exists_sites_of_group hsites
    obtain ⟨ch, hopen, hclose⟩ := bracket_of_pair hab ho hc hx hy
    rw [List.map_cons, List.map_append, List.map_cons]
    exact Brackets.foldlM_pair hopen hclose (ih hinner) (ih' hrest) stack
  | @params o c q inner ps ho hmark hc hplain hq hnone _ _ ih ih' =>
    obtain ⟨x, inner, y, more, rfl, hx, hinner, hy, hmore⟩ := exists_sites_of_group hsites
    obtain ⟨z, rest, hz, hrest, rfl⟩ := List.forall₂_cons_right_iff.mp hmore
    obtain ⟨ch, hopen, hclose⟩ := bracket_of_pair (by simp) ho hc hx hy
    rw [List.map_cons, List.map_append, List.map_cons]
    refine Brackets.foldlM_pair hopen hclose (ih hinner) (fun stack => ?_) stack
    have hstep : Brackets.step stack z.token = .ok stack := by
      simp only [Brackets.step, bracket_of_arrow hq hz]
    rw [List.map_cons, List.foldlM_cons, hstep]
    exact ih' hrest stack

lemma any_isPunct_head (hsites : Spells sites (ps.map MarkedWord.word))
    (hstart : startsArrow ps = false)
    (hrest : (rest.head?.any fun n => n.token.isPunct "=>") = false) :
    ((sites ++ rest).head?.any fun n => n.token.isPunct "=>") = false := by
  cases ps with
  | nil =>
    cases hsites
    exact hrest
  | cons p ps =>
    obtain ⟨site, others, hsite, -, rfl⟩ := List.forall₂_cons_right_iff.mp hsites
    exact (isPunct_iff hsite).trans hstart

/-- **The marks of a part** are those of its pieces, and it leaves the marks of what follows. -/
theorem marks (h : Nested ps) (rest : List Site) (hsites : Spells sites (ps.map MarkedWord.word))
    (hbare : ∀ s ∈ sites, s.beforeArrow = false)
    (hrest : (rest.head?.any fun n => n.token.isPunct "=>") = false) :
    ∃ ms, Marked ms ps ∧
      Site.markArrows (sites ++ rest)
        = (ms ++ (Site.markArrows rest).1, (Site.markArrows rest).2) := by
  induction h generalizing sites rest with
  | nil =>
    cases hsites
    exact ⟨[], .nil, rfl⟩
  | @plain p ps hp _ ih =>
    obtain ⟨site, others, hsite, hothers, rfl⟩ := List.forall₂_cons_right_iff.mp hsites
    obtain ⟨ms, hms, hmarks⟩ := ih rest hothers (fun s hs => hbare s (.tail _ hs)) hrest
    refine ⟨site :: ms, .cons ⟨hsite, ?_⟩ hms, ?_⟩
    · rw [hbare site (.head _)]
      simp_all [isPlain]
    · rw [List.cons_append, Site.markArrows, bracket_of_isPlain hp hsite, hmarks]
      rfl
  | @group o c a b inner ps hab ho hmark hc hplain _ _ hstart ih ih' =>
    obtain ⟨x, xs, y, ys, rfl, hx, hxs, hy, hys⟩ := exists_sites_of_group hsites
    obtain ⟨ch, hopen, hclose⟩ := bracket_of_pair hab ho hc hx hy
    have hcloser : (((y :: ys) ++ rest).head?.any fun n => n.token.isPunct "=>") = false := by
      refine (isPunct_iff hy).trans ?_
      simp only [List.mem_cons, Prod.mk.injEq, List.not_mem_nil, or_false] at hab
      rcases hab with ⟨rfl, rfl⟩ | ⟨rfl, rfl⟩ | ⟨rfl, rfl⟩ <;> simp_all [isPunct]
    obtain ⟨ns, hns, hback⟩ := ih' rest hys (fun s hs => hbare s (by simp [hs])) hrest
    obtain ⟨ms, hms, hmarks⟩ := ih ((y :: ys) ++ rest) hxs
      (fun s hs => hbare s (by simp [hs])) hcloser
    have hafter := any_isPunct_head hys hstart hrest
    have hclosed : Site.markArrows ((y :: ys) ++ rest)
        = (y :: (ns ++ (Site.markArrows rest).1), false :: (Site.markArrows rest).2) := by
      rw [List.cons_append, Site.markArrows, hclose, hafter, hback]
    refine ⟨{ x with beforeArrow := false } :: (ms ++ y :: ns), ?_, ?_⟩
    · refine .cons ⟨⟨hx.kind, hx.text, hx.line⟩, hmark.symm⟩
        (List.rel_append hms (.cons ⟨hy, ?_⟩ hns))
      rw [hbare y (by simp), hplain]
    · rw [List.cons_append, List.append_assoc, Site.markArrows, hopen, hmarks, hclosed]
      simp
  | @params o c q inner ps ho hmark hc hplain hq hnone _ _ ih ih' =>
    obtain ⟨x, xs, y, more, rfl, hx, hxs, hy, hmore⟩ := exists_sites_of_group hsites
    obtain ⟨z, zs, hz, hzs, rfl⟩ := List.forall₂_cons_right_iff.mp hmore
    obtain ⟨ch, hopen, hclose⟩ := bracket_of_pair (a := "(") (b := ")") (by simp) ho hc hx hy
    have hparen : ch = '(' := by
      simp only [isPunct, Bool.and_eq_true, beq_iff_eq] at ho
      simp only [Site.bracket, hx.kind, hx.text, ho] at hopen
      exact (Site.Bracket.opens.inj hopen).symm
    have hcloser : (((y :: z :: zs) ++ rest).head?.any fun n => n.token.isPunct "=>") = false := by
      refine (isPunct_iff hy).trans ?_
      simp_all [isPunct]
    obtain ⟨ns, hns, hback⟩ := ih' rest hzs (fun s hs => hbare s (by simp [hs])) hrest
    obtain ⟨ms, hms, hmarks⟩ := ih ((y :: z :: zs) ++ rest) hxs
      (fun s hs => hbare s (by simp [hs])) hcloser
    have hafter : (((z :: zs) ++ rest).head?.any fun n => n.token.isPunct "=>") = true :=
      (isPunct_iff hz).trans hq
    have hclosed : Site.markArrows ((y :: z :: zs) ++ rest)
        = (y :: z :: (ns ++ (Site.markArrows rest).1), true :: (Site.markArrows rest).2) := by
      rw [List.cons_append, Site.markArrows, hclose, hafter, List.cons_append, Site.markArrows,
        bracket_of_arrow hq hz, hback]
    refine ⟨{ x with beforeArrow := true } :: (ms ++ y :: z :: ns), ?_, ?_⟩
    · refine .cons ⟨⟨hx.kind, hx.text, hx.line⟩, hmark.symm⟩ (List.rel_append hms
        (.cons ⟨hy, ?_⟩ (.cons ⟨hz, ?_⟩ hns)))
      · rw [hbare y (by simp), hplain]
      · rw [hbare z (by simp), hnone]
    · rw [List.cons_append, List.append_assoc, Site.markArrows, hopen, hmarks, hclosed]
      simp [hparen]

end Nested

/-! ### The sites of a script -/

lemma spells_markArrows {sites : List Site} {ws : List Word}
    (h : Spells (Site.markArrows sites).1 ws) : Spells sites ws := by
  induction sites generalizing ws with
  | nil => exact h
  | cons s rest ih =>
    have hcons : ∃ s', (Site.markArrows (s :: rest)).1 = s' :: (Site.markArrows rest).1 ∧
        s'.token = s.token ∧ s'.newline = s.newline := by
      rw [Site.markArrows]
      split <;> exact ⟨_, rfl, rfl, rfl⟩
    obtain ⟨s', he, htoken, hline⟩ := hcons
    rw [he] at h
    obtain ⟨w, ws, hw, hws, rfl⟩ := List.forall₂_cons_left_iff.mp h
    exact .cons ⟨htoken ▸ hw.kind, htoken ▸ hw.text, fun hl => hline ▸ hw.line hl⟩ (ih hws)

variable {ps : List MarkedWord} {tokens : List Token}

theorem Nested.check (h : Nested ps)
    (hsites : Spells (Site.ofTokens tokens) (ps.map MarkedWord.word)) :
    Brackets.check tokens = .ok () := by
  rw [Brackets.check_eq_ok, ← Site.foldlM_step_ofTokens]
  exact h.fits hsites []

theorem Nested.marked_ofTokens (h : Nested ps)
    (hsites : Spells (Site.ofTokens tokens) (ps.map MarkedWord.word)) :
    Marked (Site.ofTokens tokens) ps := by
  have htokens := Site.ofTokens_eq_markArrows (h.check hsites)
  obtain ⟨ms, hms, hmarks⟩ := h.marks [] (spells_markArrows (htokens ▸ hsites))
    (Site.beforeArrow_significant 0 false tokens) rfl
  have hall : Site.ofTokens tokens = ms := by
    rw [List.append_nil] at hmarks
    rw [htokens, hmarks]
    exact List.append_nil ms
  exact hall ▸ hms

end Minify
