import Mathlib
import Minify.Proofs.OutlinedLayout
import Minify.Proofs.RenamedTokens

/-!
Blanks, comments and the number of line ends do not matter.

The private names of a script are found among its significant tokens, and the short names depend on
its scopes and on the names of the occurrences. So scripts with the same outline have the same new
names, and a significant token has the same text in both by its rank. With the same texts for the
same pieces they are laid out alike.
-/

namespace Minify

open Layout Minify.Shrink

variable {tokens a b : List Token} {t : Token} {i : Nat} {p : ProtectedNames} {q : PrivateNames}

/-! ### Private names -/

namespace PrivateNames

variable {mark : String} {found : List (String × String)}

lemma isNew_of_isTrivia (h : t.isTrivia = true) : isNew mark p found t = false := by
  have hk : t.kind ≠ .identifier := by
    intro hk
    simp [Token.isTrivia, TokenKind.isTrivia, hk] at h
  simp [isNew, hk]

/-- Private names are found among the significant tokens, wherever these stand. -/
lemma collectFrom_filter (found : List (String × String)) (next : Nat) (tokens : List Token) :
    collectFrom mark p found next ((tokens.filter fun t => !t.isTrivia).map Token.unplaced)
      = collectFrom mark p found next tokens := by
  induction tokens generalizing found next with
  | nil => rfl
  | cons t ts ih =>
    cases ht : t.isTrivia with
    | true =>
      rw [List.filter_cons_of_neg (by simp [ht]), ih, collectFrom, isNew_of_isTrivia ht]
      rfl
    | false =>
      have hnew : isNew mark p found t.unplaced = isNew mark p found t := rfl
      rw [List.filter_cons_of_pos (by simp [ht]), List.map_cons, collectFrom, collectFrom, hnew]
      split
      · exact ih _ _
      · exact ih _ _

lemma collect_outline (h : outlineOf a = outlineOf b) :
    collect a mark p = collect b mark p := by
  unfold collect
  rw [← collectFrom_filter, ← collectFrom_filter [] 0 b, Site.filter_unplaced, Site.filter_unplaced,
    h]

end PrivateNames

lemma privateNames_outline (h : outlineOf a = outlineOf b) (o : Options) :
    o.privateNames p a = o.privateNames p b := by
  unfold Options.privateNames
  rw [PrivateNames.collect_outline h]

/-! ### Short names -/

namespace Shrink.Context

variable {tree : ScopeTree} {f : Nat → Nat}

/-- The choice of names does not look at the tokens of the occurrences. -/
lemma assign_renumber :
    assign ⟨tree.renumber f, p, q⟩ = assign ⟨tree, p, q⟩ := by
  have hnames : passingNames ⟨tree.renumber f, p, q⟩ = passingNames ⟨tree, p, q⟩ :=
    List.flatMap_map _ _ _
  have hbindings : passingBindings ⟨tree.renumber f, p, q⟩ = passingBindings ⟨tree, p, q⟩ :=
    List.flatMap_map _ _ _
  have hconstraints : constraints ⟨tree.renumber f, p, q⟩ = constraints ⟨tree, p, q⟩ := by
    unfold constraints
    rw [hnames, hbindings]
    rfl
  unfold assign
  rw [hconstraints]
  rfl

def textAt? (ctx : Context) (k : Nat) : Option String :=
  (ctx.tree.occurrences.find? fun o => o.token == k).bind (ctx.newText? ctx.assign)

lemma getElem?_shrink (htree : ScopeTree.ofTokens tokens = .ok tree) (ht : tokens[i]? = some t)
    (hs : t.isTrivia = false) : (shrink tree p q)[i]?
      = textAt? ⟨tree.renumber (rank tokens), p, q⟩ (rank tokens i) := by
  have hfind : textAt? ⟨tree.renumber (rank tokens), p, q⟩ (rank tokens i)
      = (tree.occurrences.find? fun o => rank tokens o.token == rank tokens i).bind
        (newText? ⟨tree, p, q⟩ (assign ⟨tree, p, q⟩)) := by
    have hcomp : (fun o : Occurrence => o.token == rank tokens i) ∘
      Occurrence.renumber (rank tokens)
        = fun o => rank tokens o.token == rank tokens i := rfl
    unfold textAt?
    rw [assign_renumber]
    change ((tree.occurrences.map (Occurrence.renumber (rank tokens))).find? _).bind _ = _
    rw [List.find?_map, hcomp, Option.bind_map]
    rfl
  rw [hfind]
  cases ho : tree.occurrences.find? fun o => rank tokens o.token == rank tokens i with
  | some o =>
    have hmem := List.mem_of_find?_eq_some ho
    obtain ⟨u, hu, hi, -⟩ := ScopeTree.exists_token_of_mem htree hmem
    have hword : u.isTrivia = false := by simp [Token.isTrivia, TokenKind.isTrivia, hi]
    have hrank : rank tokens o.token = rank tokens i :=
      eq_of_beq (List.find?_some (p := fun o : Occurrence => rank tokens o.token ==
        rank tokens i) ho)
    rw [← rank_injective hu hword ht hs hrank]
    have hne : (tree.occurrences.map Occurrence.token).Nodup :=
      List.pairwise_map.mpr ((ScopeTree.occurrences_pairwise htree).imp Nat.ne_of_lt)
    exact getElem?_replacements ⟨tree, p, q⟩ hne hmem
  | none =>
    cases hnew : (shrink tree p q)[i]? with
    | none => rfl
    | some text =>
      obtain ⟨o, hmem, rfl, -⟩ := exists_of_getElem?_shrink htree hnew
      exact absurd (beq_self_eq_true _) (List.find?_eq_none.mp ho o hmem)

end Shrink.Context

/-! ### Texts by rank -/

/-- What is written for a significant token: a short text that its rank has, or a private name, or
the token itself. -/
def textFor (short : Nat → Option String) (q : PrivateNames) (k : Nat) (t : Token) : String :=
  ((short k).or (q.newText? t)).getD t.text

lemma getD_privateNames (q : PrivateNames) (ht : tokens[i]? = some t) (k : Nat) :
    ((q.replacements tokens)[i]?).getD t.text = textFor (fun _ => none) q k t.unplaced := by
  rw [PrivateNames.getElem?_replacements q ht]
  rfl

lemma getD_renameAll {tree : ScopeTree} (htree : ScopeTree.ofTokens tokens = .ok tree)
    (ht : tokens[i]? = some t) (hs : t.isTrivia = false) :
    ((renameAll tokens tree p q)[i]?).getD t.text
      = textFor (Context.textAt? ⟨tree.renumber (rank tokens), p, q⟩) q (rank tokens i)
        t.unplaced := by
  rw [renameAll, Replacements.getElem?_insertMany_toList, Context.getElem?_shrink htree ht hs,
    PrivateNames.getElem?_replacements q ht]
  rfl

/-- The pieces with the texts that `g` gives by rank, from the rank `k` on. -/
def label (g : Nat → Token → String) (k : Nat) : List KeptToken → List (KeptToken × String)
  | [] => []
  | e :: es =>
    if e.kind.isTrivia then (e, e.text) :: label g k es
    else (e, g k ⟨e.kind, e.text, 0⟩) :: label g (k + 1) es

lemma pieces_eq_label {g : Nat → Token → String} {k : Nat} {started newline : Bool}
    {xs : List (Token × String)}
    (h : ∀ (i : Nat) (t : Token) (text : String), xs[i]? = some (t, text) → t.isTrivia = false →
      text = g (k + rank (xs.map Prod.fst) i) t.unplaced) :
    pieces started newline xs = label g k (outline started newline (xs.map Prod.fst)) := by
  induction xs generalizing k started newline with
  | nil => rfl
  | cons e rest ih =>
    obtain ⟨t, text⟩ := e
    have hrest (i : Nat) (u : Token) (text : String) (hi : rest[i]? = some (u, text))
        (hu : u.isTrivia = false) : text
          = g (k + (if t.isTrivia then 0 else 1) + rank (rest.map Prod.fst) i) u.unplaced := by
      have htext := h (i + 1) u text hi hu
      rwa [List.map_cons, rank_cons_succ, ← Nat.add_assoc] at htext
    rw [List.map_cons]
    rcases outline_cases t with ⟨ht, hc, ho⟩ | ⟨ht, hc, ho⟩ | ⟨ht, hc, ho⟩
    · rw [ht] at hrest
      rw [ho, pieces_left_out ht hc]
      exact ih hrest
    · rw [ht] at hrest
      have hk : (⟨t.kind, t.text, false⟩ : KeptToken).kind.isTrivia = true := ht
      rw [ho, pieces_conditional hc, label, if_pos hk]
      exact congrArg _ (ih hrest)
    · have hself : text = g k t.unplaced := h 0 t text rfl ht
      have hk : ¬(⟨t.kind, t.text, started && newline⟩ : KeptToken).kind.isTrivia = true := by
        change ¬t.isTrivia = true
        simp [ht]
      rw [ht] at hrest
      rw [ho, pieces_significant ht, label, if_neg hk, hself]
      exact congrArg _ (ih hrest)

/-- Scripts with the same outline, whose significant tokens have the same texts by rank, are
compacted to the same text. -/
lemma compact_outline (h : outlineOf a = outlineOf b) {r r' : Replacements}
    {g : Nat → Token → String}
    (ha : ∀ i t, a[i]? = some t → t.isTrivia = false →
      (r[i]?).getD t.text = g (rank a i) t.unplaced)
    (hb : ∀ i t, b[i]? = some t → t.isTrivia = false →
      (r'[i]?).getD t.text = g (rank b i) t.unplaced) :
    (compact a r).code = (compact b r').code := by
  have hlabel {tokens : List Token} {r : Replacements}
      (ht : ∀ i t, tokens[i]? = some t → t.isTrivia = false →
        (r[i]?).getD t.text = g (rank tokens i) t.unplaced) :
      pieces false false (newTexts tokens r) = label g 0 (outlineOf tokens) := by
    have hpieces : pieces false false (newTexts tokens r)
        = label g 0 (outline false false ((newTexts tokens r).map Prod.fst)) := by
      refine pieces_eq_label fun i t text hi hs => ?_
      obtain ⟨hget, htext⟩ := of_getElem?_newTexts hi
      rw [map_fst_newTexts, Nat.zero_add, ← htext]
      exact ht i t hget hs
    rwa [map_fst_newTexts] at hpieces
  exact compact_congr (by rw [hlabel ha, hlabel hb, h])

/-! ### Compacted scripts -/

/-- The text that a script is compacted to, or the reason why its brackets do not fit. -/
def Options.compacted (o : Options) (p : ProtectedNames) (tokens : List Token) :
    Except ScopeReason String :=
  ((o.replacements p tokens).map fun r => (compact tokens r).code).mapError ScopeError.reason

variable {o : Options}

lemma compacted_private (ho : o.shrinkVars = false) : o.compacted p tokens
    = .ok (compact tokens ((o.privateNames p tokens).replacements tokens)).code := by
  unfold Options.compacted Options.replacements
  simp only [ho]
  rfl

lemma compacted_error (ho : o.shrinkVars = true) {e : ScopeError}
    (h : ScopeTree.ofTokens tokens = .error e) : o.compacted p tokens = .error e.reason := by
  unfold Options.compacted Options.replacements
  simp only [ho, h]
  rfl

lemma compacted_renameAll (ho : o.shrinkVars = true) {tree : ScopeTree}
    (h : ScopeTree.ofTokens tokens = .ok tree) : o.compacted p tokens
      = .ok (compact tokens (renameAll tokens tree p (o.privateNames p tokens))).code := by
  unfold Options.compacted Options.replacements
  simp only [ho, h]
  rfl

lemma compacted_outline (h : outlineOf a = outlineOf b) :
    o.compacted p a = o.compacted p b := by
  have hprivate := privateNames_outline (p := p) h o
  cases ho : o.shrinkVars with
  | false =>
    rw [compacted_private ho, compacted_private ho, hprivate]
    exact congrArg Except.ok (compact_outline h
      (fun i t ht _ => getD_privateNames _ ht (rank a i))
      fun i t ht _ => getD_privateNames _ ht (rank b i))
  | true =>
    have hreading := ScopeTree.reading_of_outline h
    unfold ScopeTree.reading at hreading
    cases ha : ScopeTree.ofTokens a with
    | error e =>
      cases hb : ScopeTree.ofTokens b with
      | error e' =>
        rw [ha, hb] at hreading
        rw [compacted_error ho ha, compacted_error ho hb]
        exact congrArg Except.error (Except.error.inj hreading)
      | ok tree' =>
        rw [ha, hb] at hreading
        cases hreading
    | ok tree =>
      cases hb : ScopeTree.ofTokens b with
      | error e' =>
        rw [ha, hb] at hreading
        cases hreading
      | ok tree' =>
        rw [ha, hb] at hreading
        have htree : tree.renumber (rank a) = tree'.renumber (rank b) := Except.ok.inj hreading
        rw [compacted_renameAll ho ha, compacted_renameAll ho hb, hprivate]
        refine congrArg Except.ok (compact_outline h (fun i t ht hs => getD_renameAll ha ht hs)
          fun i t ht hs => ?_)
        rw [htree]
        exact getD_renameAll hb ht hs

/-- **Layout does not matter beyond line ends.** Scripts with the same outline have the same scopes
and occurrences, but for the indices of the tokens, or their brackets do not fit for the same
reason; and they are compacted to the same text, whatever names are protected and change. -/
theorem layout_free (h : outlineOf a = outlineOf b) :
    ScopeTree.reading a = ScopeTree.reading b ∧
      ∀ (p : ProtectedNames) (o : Options), o.compacted p a = o.compacted p b :=
  ⟨ScopeTree.reading_of_outline h, fun _ _ => compacted_outline h⟩

/-- A line end in front of a conditional comment, or a comment over two lines after it, and blanks
anywhere. -/
theorem layout_free_conditional :
    let a : List Token := [⟨.identifier, "x", 0⟩, ⟨.punctuator, ";", 1⟩, ⟨.lineBreak, "\n", 2⟩,
      ⟨.comment .conditional, "/*@c@*/", 3⟩, ⟨.identifier, "y", 10⟩]
    let b : List Token := [⟨.lineBreak, "\n ", 0⟩, ⟨.identifier, "x", 2⟩, ⟨.blank, " ", 3⟩,
      ⟨.punctuator, ";", 4⟩, ⟨.comment .conditional, "/*@c@*/", 5⟩,
      ⟨.comment (.block true), "/*\n*/", 12⟩, ⟨.identifier, "y", 17⟩]
    outlineOf a = outlineOf b ∧ ScopeTree.reading a = ScopeTree.reading b ∧
      ∀ (p : ProtectedNames) (o : Options), o.compacted p a = o.compacted p b := by
  intro a b
  have h : outlineOf a = outlineOf b := rfl
  exact ⟨h, layout_free h⟩

end Minify
