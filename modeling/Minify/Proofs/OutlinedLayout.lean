import Mathlib
import Minify.Proofs.ChunkPlaces
import Minify.Proofs.Outlines

/-!
The layout of a script goes by its outline.

Tokens that are left out say nothing but whether a line ended, and the layout forgets where the
others stand. So two lists of tokens with texts are laid out alike when the pieces of their outlines
and the texts for them agree. The proof goes along the pieces: each is the first kept token of both
lists, with the same gap in front of it.
-/

namespace Minify.Layout

variable {before before' : List Token} {started lineBreak lineBreak' : Bool} {last text : String}
  {t : Token} {xs ys : List (Token × String)}

/-! ### Tokens without their places -/

def State.unplaced (s : State) : State := { s with prev := s.prev.map Token.unplaced }

lemma advance_unplaced (s : State) (t : Token) :
    s.unplaced.advance t.unplaced = (s.advance t).unplaced := by
  have hproperty : (s.unplaced.prev.any fun p => p.isPunct "." || p.isPunct "?.")
      = s.prev.any fun p => p.isPunct "." || p.isPunct "?." := by
    unfold State.unplaced
    cases s.prev <;> rfl
  have hclose : t.unplaced.isPunct ")" = t.isPunct ")" := rfl
  unfold State.advance
  rw [hproperty, hclose]
  dsimp only
  split <;> rfl

lemma after_unplaced (before : List Token) :
    after (before.map Token.unplaced) = (after before).unplaced := by
  induction before using List.reverseRecOn with
  | nil => rfl
  | append_singleton before t ih =>
    rw [List.map_append, List.map_singleton, after_append_singleton, after_append_singleton, ih,
      advance_unplaced]

lemma isBody_unplaced (before : List Token) :
    isBody (before.map Token.unplaced) = isBody before := by
  unfold isBody
  rw [after_unplaced, List.getLast?_map]
  cases before.getLast? <;> rfl

lemma gapBefore_unplaced (before : List Token) (lineBreak : Bool) (last : String) (t : Token)
    (text : String) : gapBefore (before.map Token.unplaced) lineBreak last t.unplaced text
      = gapBefore before lineBreak last t text := by
  have hend : ({ after (before.map Token.unplaced) with lineBreak := lineBreak } : State).lineEnd
      t.unplaced = ({ after before with lineBreak := lineBreak } : State).lineEnd t := by
    rw [after_unplaced]
    unfold State.lineEnd State.unplaced
    cases (after before).prev <;> rfl
  unfold gapBefore
  rw [hend]
  rfl

lemma gapBefore_isEmpty (before : List Token) (lineBreak : Bool) (last : String) (t : Token)
    (text : String) : gapBefore before (!before.isEmpty && lineBreak) last t text
      = gapBefore before lineBreak last t text := by
  cases before <;> rfl

/-! ### Pieces with texts -/

/-- The pieces of an outline, each with the text to write for it. Comments stay as they are. -/
def pieces (started lineBreak : Bool) : List (Token × String) → List (KeptToken × String)
  | [] => []
  | (t, text) :: rest =>
    if isConditional t then (⟨t.kind, t.text, false⟩, t.text) :: pieces started lineBreak rest
    else if t.isTrivia then pieces started (lineBreak || breaksLine t) rest
    else (⟨t.kind, t.text, started && lineBreak⟩, text) :: pieces true false rest

lemma pieces_conditional (hc : isConditional t = true) (started lineBreak : Bool) (text : String)
    (rest : List (Token × String)) : pieces started lineBreak ((t, text) :: rest)
      = (⟨t.kind, t.text, false⟩, t.text) :: pieces started lineBreak rest := by
  simp [pieces, hc]

lemma pieces_significant (ht : t.isTrivia = false) (started lineBreak : Bool) (text : String)
    (rest : List (Token × String)) : pieces started lineBreak ((t, text) :: rest)
      = (⟨t.kind, t.text, started && lineBreak⟩, text) :: pieces true false rest := by
  simp [pieces, ht, isConditional_of_not_trivia ht]

lemma pieces_left_out (ht : t.isTrivia = true) (hc : isConditional t = false)
    (started lineBreak : Bool) (text : String) (rest : List (Token × String)) :
    pieces started lineBreak ((t, text) :: rest)
      = pieces started (lineBreak || breaksLine t) rest := by
  simp [pieces, ht, hc]

lemma isKept_eq_false (ht : t.isTrivia = true) (hc : isConditional t = false) :
    isKept t = false := by
  simp [isKept, ht, hc]

lemma entries_of_pieces_nil (h : pieces started lineBreak xs = []) :
    entries before lineBreak last xs = [] := by
  induction xs generalizing lineBreak with
  | nil => rfl
  | cons e rest ih =>
    obtain ⟨t, text⟩ := e
    cases ht : t.isTrivia with
    | false =>
      rw [pieces_significant ht] at h
      cases h
    | true =>
      cases hc : isConditional t with
      | true =>
        rw [pieces_conditional hc] at h
        cases h
      | false =>
        rw [pieces_left_out ht hc] at h
        simp only [entries, ht, hc, if_true, Bool.false_eq_true, if_false]
        exact ih h

/-- Tokens in front of the first piece only say whether a line ended. -/
structure Reaches (lineBreak : Bool) (xs : List (Token × String)) (lineBreak' : Bool) (t : Token)
    (text : String) (rest : List (Token × String)) : Prop where
  kept : isKept t = true
  entries : ∀ before last, entries before lineBreak last xs
    = Layout.entries before lineBreak' last ((t, text) :: rest)
  pieces : ∀ started, pieces started lineBreak xs
    = Layout.pieces started lineBreak' ((t, text) :: rest)

lemma exists_reaches {p : KeptToken × String} {ps : List (KeptToken × String)}
    (h : pieces started lineBreak xs = p :: ps) :
    ∃ lineBreak' t text rest, Reaches lineBreak xs lineBreak' t text rest := by
  induction xs generalizing lineBreak with
  | nil => cases h
  | cons e rest ih =>
    obtain ⟨t, text⟩ := e
    cases hkept : isKept t with
    | true => exact ⟨lineBreak, t, text, rest, hkept, fun _ _ => rfl, fun _ => rfl⟩
    | false =>
      obtain ⟨ht, hc⟩ : t.isTrivia = true ∧ isConditional t = false := by
        simpa [isKept] using hkept
      rw [pieces_left_out ht hc] at h
      obtain ⟨lineBreak', t', text', rest', hkept', hentries, hpieces⟩ := ih h
      refine ⟨lineBreak', t', text', rest', hkept', fun before last => ?_, fun started => ?_⟩
      · rw [← hentries]
        simp only [entries, ht, hc, if_true, Bool.false_eq_true, if_false]
      · rw [pieces_left_out ht hc, hpieces]

/-- Whether a closing brace comes next can be seen on the pieces. -/
lemma beforeBrace_eq (started lineBreak : Bool) (xs : List (Token × String)) :
    beforeBrace xs = (pieces started lineBreak xs).head?.any fun p =>
      p.1.kind == .punctuator && p.1.text == "\x7d" := by
  induction xs generalizing lineBreak with
  | nil => rfl
  | cons e rest ih =>
    obtain ⟨t, text⟩ := e
    cases ht : t.isTrivia with
    | false =>
      rw [beforeBrace_cons_of_kept (isKept_of_not_trivia ht), pieces_significant ht]
      rfl
    | true =>
      cases hc : isConditional t with
      | true =>
        rw [beforeBrace_cons_of_kept (by simp [isKept, hc]), pieces_conditional hc]
        rfl
      | false =>
        rw [beforeBrace_cons_of_not_kept (isKept_eq_false ht hc), pieces_left_out ht hc]
        exact ih _

def laid (es : List Entry) : List (Gap × String) := es.map fun e => (e.gap, e.text)

lemma laid_cons (e : Entry) (es : List Entry) : laid (e :: es) = (e.gap, e.text) :: laid es := rfl

lemma entries_conditional (hc : isConditional t = true) (before : List Token) (lineBreak : Bool)
    (last text : String) (rest : List (Token × String)) :
    entries before lineBreak last ((t, text) :: rest)
      = ⟨if needsSpace last t.text then .space else .nothing, t, t.text⟩
        :: entries before lineBreak t.text rest := by
  simp only [entries, isTrivia_of_isConditional hc, hc, if_true]

/-! ### Two lists with the same pieces -/

variable {t' : Token} {text' : String} {rest rest' : List (Token × String)}

lemma kind_eq_of_pieces (hk : isKept t = true) (hk' : isKept t' = true)
    (h : pieces started lineBreak ((t, text) :: rest)
      = pieces started lineBreak' ((t', text') :: rest')) : t.kind = t'.kind := by
  have hhead {lineBreak : Bool} {t : Token} {text : String} {rest : List (Token × String)}
      (hk : isKept t = true) :
      (pieces started lineBreak ((t, text) :: rest)).head?.map (fun p => p.1.kind)
        = some t.kind := by
    cases hc : isConditional t with
    | true =>
      rw [pieces_conditional hc]
      rfl
    | false =>
      rw [pieces_significant (by simpa [isKept, hc] using hk)]
      rfl
  have hkinds := congrArg (fun ps : List (KeptToken × String) => ps.head?.map fun p => p.1.kind) h
  rw [hhead hk, hhead hk'] at hkinds
  exact Option.some.inj hkinds

/-- The first kept tokens of lists with the same pieces are both comments or both significant, and
the same but for their places. -/
lemma first_cases (hk : isKept t = true) (hk' : isKept t' = true)
    (h : pieces started lineBreak ((t, text) :: rest)
      = pieces started lineBreak' ((t', text') :: rest')) :
    (isConditional t = true ∧ isConditional t' = true ∧ t'.text = t.text ∧
        pieces started lineBreak rest = pieces started lineBreak' rest') ∨
      (t.isTrivia = false ∧ t'.isTrivia = false ∧ t.unplaced = t'.unplaced ∧
        (started && lineBreak) = (started && lineBreak') ∧ text = text' ∧
        pieces true false rest = pieces true false rest') := by
  have hkind := kind_eq_of_pieces hk hk' h
  have hcond : isConditional t = isConditional t' := by
    unfold isConditional
    rw [hkind]
  cases hc : isConditional t with
  | true =>
    have hc' : isConditional t' = true := hcond.symm.trans hc
    rw [pieces_conditional hc, pieces_conditional hc'] at h
    obtain ⟨hhead, hrest⟩ := List.cons_eq_cons.mp h
    exact .inl ⟨rfl, hc', (congrArg Prod.snd hhead).symm, hrest⟩
  | false =>
    have hc' : isConditional t' = false := hcond.symm.trans hc
    have ht : t.isTrivia = false := by simpa [isKept, hc] using hk
    have ht' : t'.isTrivia = false := by simpa [isKept, hc'] using hk'
    rw [pieces_significant ht, pieces_significant ht'] at h
    obtain ⟨hhead, hrest⟩ := List.cons_eq_cons.mp h
    obtain ⟨hpiece, htext⟩ := Prod.mk.inj hhead
    obtain ⟨-, htoken, hbreak⟩ := KeptToken.mk.inj hpiece
    refine .inr ⟨ht, ht', ?_, hbreak, htext, hrest⟩
    unfold Token.unplaced
    rw [hkind, htoken]

/-- A significant token is laid out by its kind and texts, and the rest after it. -/
lemma laid_significant (ht : t.isTrivia = false) (ht' : t'.isTrivia = false)
    (hb : before.map Token.unplaced = before'.map Token.unplaced) (hplace : t.unplaced
      = t'.unplaced)
    (hbreak : (!before.isEmpty && lineBreak) = (!before.isEmpty && lineBreak'))
    (hbrace : beforeBrace rest = beforeBrace rest')
    (hrest : ∀ last, laid (entries (before ++ [t]) false last rest)
      = laid (entries (before' ++ [t']) false last rest')) :
    laid (entries before lineBreak last ((t, text) :: rest))
      = laid (entries before' lineBreak' last ((t', text) :: rest')) := by
  have hsemi : t.isPunct ";" = t'.isPunct ";" := by
    have h : t.unplaced.isPunct ";" = t'.unplaced.isPunct ";" := by rw [hplace]
    exact h
  have hbody : isBody before = isBody before' := by
    rw [← isBody_unplaced, hb, isBody_unplaced]
  have hgap : gapBefore before lineBreak last t text
      = gapBefore before' lineBreak' last t' text := by
    rw [← gapBefore_isEmpty, hbreak, gapBefore_isEmpty, ← gapBefore_unplaced, hb, hplace,
      gapBefore_unplaced]
  simp only [entries, ht, ht', Bool.false_eq_true, if_false, hsemi, hbody, hbrace]
  split
  · split
    · exact hrest last
    · rw [laid_cons, laid_cons, hrest]
  · rw [laid_cons, laid_cons, hrest, hgap]

/-- **The layout goes by the pieces**, after tokens that are the same but for their places. -/
lemma laid_entries_congr (hb : before.map Token.unplaced = before'.map Token.unplaced)
    (h : pieces (!before.isEmpty) lineBreak xs = pieces (!before.isEmpty) lineBreak' ys) :
    laid (entries before lineBreak last xs) = laid (entries before' lineBreak' last ys) := by
  obtain ⟨ps, hps⟩ : ∃ ps, pieces (!before.isEmpty) lineBreak xs = ps := ⟨_, rfl⟩
  induction ps generalizing before before' lineBreak lineBreak' last xs ys with
  | nil => rw [entries_of_pieces_nil hps, entries_of_pieces_nil (h ▸ hps)]
  | cons p ps ih =>
    obtain ⟨c, t, text, rest, hx⟩ := exists_reaches hps
    obtain ⟨c', t', text', rest', hy⟩ := exists_reaches (h ▸ hps)
    have hfirst := ((hx.pieces _).symm.trans h).trans (hy.pieces _)
    rw [hx.pieces] at hps
    rw [hx.entries, hy.entries]
    rcases first_cases hx.kept hy.kept hfirst with
      ⟨hc, hc', htext, hrest⟩ | ⟨ht, ht', hplace, hbreak, rfl, hrest⟩
    · rw [pieces_conditional hc] at hps
      rw [entries_conditional hc, entries_conditional hc', laid_cons, laid_cons, htext,
        ih hb hrest (List.cons_eq_cons.mp hps).2]
    · rw [pieces_significant ht] at hps
      have hbefore : (before ++ [t]).map Token.unplaced = (before' ++ [t']).map Token.unplaced := by
        rw [List.map_append, List.map_append, hb, List.map_singleton, List.map_singleton, hplace]
      have hstarted : (!(before ++ [t]).isEmpty) = true := by simp
      have hbrace : beforeBrace rest = beforeBrace rest' := by
        rw [beforeBrace_eq true false, beforeBrace_eq true false, hrest]
      refine laid_significant ht ht' hb hplace hbreak hbrace fun last => ih hbefore ?_ ?_
      · rw [hstarted]
        exact hrest
      · rw [hstarted]
        exact (List.cons_eq_cons.mp hps).2

lemma textOf_eq (es : List Entry) :
    textOf es = String.join ((laid es).map fun x => x.1.text ++ x.2) := by
  unfold textOf laid
  rw [List.map_map]
  rfl

/-- Scripts with the same pieces are compacted to the same text. -/
theorem compact_congr {a b : List Token} {r r' : Replacements}
    (h : pieces false false (newTexts a r) = pieces false false (newTexts b r')) :
    (compact a r).code = (compact b r').code := by
  have hlaid : laid (entries [] false "" (newTexts a r)) = laid
    (entries [] false "" (newTexts b r')) :=
    laid_entries_congr rfl h
  change code (chunks a r) = code (chunks b r')
  rw [chunks_eq_entries, chunks_eq_entries, code_map_chunk, code_map_chunk, textOf_eq, textOf_eq,
    hlaid]

end Minify.Layout
