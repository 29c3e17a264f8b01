import Minify.Proofs.ExpressionBrackets
import Minify.Proofs.LoopScopes

/-!
Reading an expression.

The tracker records the names of an expression in the scope it is in, and goes into the scope of
each arrow it meets. It comes back from a bracket to where it was before, but not from the end of an
arrow: the body of an arrow stays open until a comma or a bracket around it, or the end of the
statement. So what is read after a part of an expression is read where the last open arrow of that
part left it.
-/

namespace Minify

variable {sites : List Site} {site : Site} {ps qs : List MarkedWord}

lemma marked_append (h : Marked sites (ps ++ qs)) :
    ∃ xs ys, sites = xs ++ ys ∧ Marked xs ps ∧ Marked ys qs := by
  induction ps generalizing sites with
  | nil => exact ⟨[], sites, rfl, .nil, h⟩
  | cons p ps ih =>
    obtain ⟨site, rest, hp, hrest, rfl⟩ := List.forall₂_cons_right_iff.mp h
    obtain ⟨xs, ys, rfl, hxs, hys⟩ := ih hrest
    exact ⟨site :: xs, ys, rfl, .cons hp hxs, hys⟩

/-- Where no piece is marked, the sites only have to be those of the words. -/
lemma marked_iff_spells (hps : ∀ p ∈ ps, p.beforeArrow = false) :
    Marked sites ps ↔
      Spells sites (ps.map MarkedWord.word) ∧ ∀ site ∈ sites, site.beforeArrow = false := by
  induction ps generalizing sites with
  | nil =>
    refine ⟨fun h => ?_, fun h => ?_⟩
    · cases h
      exact ⟨.nil, nofun⟩
    · cases h.1
      exact .nil
  | cons p ps ih =>
    obtain ⟨hp, hps⟩ := List.forall_mem_cons.mp hps
    constructor
    · rintro (_ | ⟨hsite, hrest⟩)
      obtain ⟨hspells, hmarks⟩ := (ih hps).mp hrest
      exact ⟨.cons hsite.word hspells, List.forall_mem_cons.mpr
        ⟨hsite.beforeArrow.trans hp, hmarks⟩⟩
    · rintro ⟨_ | ⟨hsite, hrest⟩, hmarks⟩
      obtain ⟨hmark, hmarks⟩ := List.forall_mem_cons.mp hmarks
      exact .cons ⟨hsite, hmark.trans hp.symm⟩ ((ih hps).mpr ⟨hrest, hmarks⟩)

/-- The first piece stands on the line of the one before. -/
lemma marked_stay (h : Marked sites (ps.modifyHead MarkedWord.stay)) :
    Marked sites ps ∧ ∀ site ∈ sites.head?, site.newline = false := by
  cases ps with
  | nil => exact ⟨h, by cases h; exact nofun⟩
  | cons p ps =>
    obtain ⟨site, rest, hp, hrest, rfl⟩ := List.forall₂_cons_right_iff.mp h
    have hline : site.newline = false := hp.word.line rfl
    refine ⟨.cons ⟨⟨hp.word.kind, hp.word.text, fun _ => hline⟩, hp.beforeArrow⟩ hrest, ?_⟩
    rintro x ⟨⟩
    exact hline

namespace MarkedWord

lemma named_append {xs ys : List Site} (h : Marked xs ps) (qs : List MarkedWord) :
    named (xs ++ ys) (ps ++ qs) = named xs ps ++ named ys qs := by
  induction h with
  | nil => rfl
  | @cons site p xs ps _ _ ih =>
    simp only [List.cons_append, named]
    split <;> simp [ih]

lemma named_stay (sites : List Site) (ps : List MarkedWord) :
    named sites (ps.modifyHead stay) = named sites ps := by
  cases ps with
  | nil => rfl
  | cons => cases sites <;> rfl

end MarkedWord

namespace Tracker

variable {s t u : Tracker} {next : Option Token} {sees after after' : String → Option ScopeId}
  {p : String}

/-! ### Between the words of an expression -/

/-- The tracker waits for nothing, so what comes next is read as a part of an expression. -/
structure Free (s : Tracker) : Prop where
  pattern : s.top.pattern = none
  atKey : s.top.atKey = false
  declaration : s.declaration = none
  pendingBody : s.pendingBody = none
  nextParams : s.nextParams = none
  functionName : s.functionName = none
  bodies : ∀ b ∈ s.openBodies, b.depth ≤ s.depth

lemma Free.atKey_eq (h : Free s) : s.atKey = false := by simp [Tracker.atKey, h.atKey]

lemma Free.slot (h : Free s) : s.takeSlot = none := takeSlot_of_none h.pattern h.declaration

lemma Free.expectName (h : Free s) (expect : Bool) : s.top.expectName expect = s.top := by
  rw [Frame.expectName, h.pattern, Option.map_none, ← h.pattern]

lemma Free.declaring (h : Free s) (expect : Bool) : s.declaring expect = false := by
  simp [Tracker.declaring, h.declaration]

/-- Nothing before the site makes anything else of a name or a parenthesis. -/
structure Clear (before : List Site) : Prop where
  dot : afterDot before = false
  hash : prevIs before "#" = false
  keyword : ∀ k, prevKeyword? before = some k →
    k.hasHeader = false ∧ k ∉ [.kwBreak, .kwContinue, .kwClass]
  loop : afterForAwait before = false

lemma Clear.prev_ne {before : List Site} (h : Clear before) {k : Keyword}
    (hk : k.hasHeader = true ∨ k ∈ [.kwBreak, .kwContinue, .kwClass]) :
    (prevKeyword? before == some k) = false := by
  simp only [beq_eq_false_iff_ne]
  intro hprev
  obtain ⟨hheader, hnot⟩ := h.keyword k hprev
  rcases hk with hk | hk
  · rw [hheader] at hk
    cases hk
  · exact hnot hk

lemma Clear.name {before : List Site} (h : Clear before) (hsite : site.token.kind = .identifier) :
    Clear (site :: before) := by
  refine ⟨by simp [afterDot, Token.isPunct, hsite], by simp [prevIs, Token.isPunct, hsite],
    by simp [prevKeyword?, hsite], ?_⟩
  rw [afterForAwait, h.prev_ne (.inl rfl), Bool.and_false]

lemma clear_punct {before : List Site} (hsite : (Word.punct p).At site)
    (hp : p ∉ [".", "?.", "#"]) : Clear (site :: before) := by
  simp only [List.mem_cons, List.not_mem_nil, or_false, not_or] at hp
  constructor <;>
    simp [afterDot, prevIs, prevKeyword?, afterForAwait, Token.isPunct, Token.isIdent, hsite.kind,
      hsite.text, Word.punct, hp]

lemma clear_keyword {before : List Site} {k : Keyword} (hdot : afterDot before = false)
    (hsite : site.token.kind = .keyword k)
    (hk : k.hasHeader = false ∧ k ∉ [.kwBreak, .kwContinue, .kwClass]) :
    Clear (site :: before) := by
  refine ⟨by simp [afterDot, Token.isPunct, hsite], by simp [prevIs, Token.isPunct, hsite], ?_,
    by simp [afterForAwait, Token.isIdent, hsite]⟩
  intro k' hk'
  rw [prevKeyword_cons hsite hdot, Option.some.injEq] at hk'
  exact hk' ▸ hk

lemma clear_property {dot : Site} {before : List Site} (hsite : site.token.kind = .identifier)
    (hdot : dot.token.kind = .punctuator) : Clear (site :: dot :: before) := by
  constructor <;>
    simp [afterDot, prevIs, prevKeyword?, afterForAwait, Token.isPunct, hsite, hdot]

def passed (s : Tracker) (site : Site) : Tracker :=
  { s with closedHeader := false, before := site :: s.before }

lemma step_of_read (hp : s.pendingBody = none) (hc : Calm s site)
    (hread : s.unmarked.read site next = t) :
    s.step site next = { t with before := site :: s.before } := by
  rw [step_of_calm hp hc, ← hread, before_read]
  rfl

lemma calm_of_word {w : Word} (h : w.At site)
    (hw : w.kind = .punctuator ∧ w.text ∉ ["\x7b", "++", "--", "!", "~", "#", "@"]) :
    Calm s site := by
  refine calm_of_not_starts ?_
  simpa [Token.startsStatement, h.kind, h.text, hw.1] using hw.2

/-- Line ends before the site do not matter where the word before it is no operand. -/
lemma calm_of_begins {w : Word} {q : Site} {before : List Site} (hb : s.before = q :: before)
    (h : w.At q)
    (hw : w.kind = .punctuator ∧ w.text ∉ [")", "]", "\x7d", "++", "--"]) : Calm s site := by
  refine calm_of_not_operand hb ?_
  simpa [Token.endsOperand, h.kind, h.text, hw.1] using hw.2

lemma calm_of_line (h : site.newline = false) : Calm s site :=
  .inr (.inl (by simp [endsStatement, h]))

/-! ### Single words -/

lemma punctuator_of_other (h : site.token.text ∉ ["\x7b", "[", "(", ")", "]", "\x7d", ";",
    ",", "?", ":",
    "=", "=>", "...", "*", "#"]) : s.punctuator site next = s.abandonDeclaration := by
  unfold punctuator
  split <;> simp_all

def operators : List Word := Word.unary ++ Word.binary ++ Word.updates ++ Word.dots

lemma mem_operators {w : Word} (h : w ∈ operators) :
    (w.kind = .punctuator ∧ (w.text ∉ ["\x7b", "[", "(", ")", "]", "\x7d", ";", ",", "?",
      ":", "=", "=>",
      "...", "*", "#"] ∨ w.text = "=" ∨ w.text = "*")) ∨
    ∃ k ∈ [Keyword.kwTypeof, .kwVoid, .kwDelete, .kwIn, .kwInstanceof], w.kind = .keyword k := by
  revert w
  decide

lemma read_operator {w : Word} (hs : Free s) (hdot : afterDot s.before = false)
    (hhash : prevIs s.before "#" = false) (hsite : w.At site) (hw : w ∈ operators) :
    s.read site next = s := by
  have habandon : s.abandonDeclaration = s := abandonDeclaration_of_none hs.declaration
  rcases mem_operators hw with ⟨hk, ht | ht | ht⟩ | ⟨k, hk, hkind⟩
  · simp only [read, hsite.kind, hk]
    rw [punctuator_of_other (hsite.text ▸ ht), habandon]
  · simp only [read, punctuator, hsite.kind, hk, hsite.text, ht]
    exact setTop_of_eq (by rw [hs.expectName, hs.atKey, Bool.false_and, ← hs.atKey])
  · simp only [read, punctuator, hsite.kind, hk, hsite.text, ht]
  · simp only [List.mem_cons, List.not_mem_nil, or_false] at hk
    rcases hk with rfl | rfl | rfl | rfl | rfl <;>
      simp [read, hsite.kind, hkind, word, hdot, hhash, habandon, hs.atKey_eq, keyword,
        hs.declaring]

lemma read_property (hsite : site.token.kind = .identifier) (hdot : afterDot s.before = true) :
    s.read site next = s := by
  simp [read, hsite, word, hdot]

/-- The name of a variable is recorded, unless a colon follows that belongs to no conditional. -/
lemma read_variable (next : Option Token) (hs : Free s) (hb : Clear s.before)
    (hsite : site.token.kind = .identifier) (harrow : nextIs next "=>" = false) :
    s.read site next = if nextIs next ":" && s.top.ternary = 0 && prevKeyword? s.before
      != some .kwCase
      then s else s.named site := by
  have hbreak := hb.prev_ne (k := .kwBreak) (.inr (by simp))
  have hcontinue := hb.prev_ne (k := .kwContinue) (.inr (by simp))
  have hclass := hb.prev_ne (k := .kwClass) (.inr (by simp))
  simp only [read, hsite, word, hb.dot, hb.hash, hs.slot, hs.atKey_eq, identifier, hs.functionName,
    hbreak, hcontinue, hclass, hs.declaring, harrow, Bool.false_eq_true, if_false, Bool.or_self,
    Bool.false_and, Bool.and_false]
  split
  · rfl
  · unfold named
    split <;> rfl

/-! ### Parts of an expression -/

/-- The frames and what the tracker waits for are the same. -/
def Alike (s t : Tracker) : Prop :=
  t = { s with
    scopes := t.scopes, inside := t.inside, occurrences := t.occurrences, before := t.before
    current := t.current
    openBodies := t.openBodies, colonValue := t.colonValue, closedHeader := t.closedHeader }

lemma Alike.trans (h : Alike s t) (h' : Alike t u) : Alike s u := by
  unfold Alike
  rw [h', h]

lemma Alike.depth (h : Alike s t) : t.depth = s.depth := by
  rw [h]
  rfl

lemma Alike.top (h : Alike s t) : t.top = s.top := by rw [h]

lemma Alike.free (h : Alike s t) (hs : Free s) (hb : ∀ b ∈ t.openBodies, b.depth ≤ s.depth) :
    Free t := by
  rw [h]
  exact ⟨hs.pattern, hs.atKey, hs.declaration, hs.pendingBody, hs.nextParams, hs.functionName, hb⟩

lemma Free.unmarked (hs : Free s) : Free s.unmarked := Alike.free rfl hs hs.bodies

lemma Free.passed (hs : Free s) (site : Site) : Free (s.passed site) := Alike.free rfl hs hs.bodies

/-- From `s` to `t` the bodies of arrows were opened, which end at a comma, and `s` is in the scope
around them. -/
structure OpensBodies (s t : Tracker) (new : List OpenBody) : Prop where
  eq : t.openBodies = new ++ s.openBodies
  here : ∀ b ∈ new, b.depth = s.depth ∧ b.endsAtComma = true
  around : scopeAround t.current new = s.current

/-- From `s` to `t` a part of an expression was read: the names that were recorded, their sites and
the scopes of the arrows. In the scope of `t` names refer to `after`. -/
structure ReadAs (s t : Tracker) (after : String → Option ScopeId) (opened : Nat)
    (found : List (String × Option ScopeId)) (indices : List Nat) : Prop where
  alike : Alike s t
  closed : t.closedHeader = false
  clear : Clear t.before
  adds : Adds s t opened found
  recorded : ∃ new, t.occurrences = new ++ s.occurrences ∧
    new.reverse.map Occurrence.token = indices
  bodies : ∃ new, OpensBodies s t new ∧ new.length ≤ opened
  sees : Sees t t.current after

lemma Adds.of_start {a : Nat} {f : List (String × Option ScopeId)} (h : Adds t u a f)
    (hs : t.scopes = s.scopes) (ho : t.occurrences = s.occurrences) : Adds s u a f := by
  have h' := (Adds.of_eq hs ho).trans h
  rwa [Nat.zero_add, List.nil_append] at h'

lemma scopeAround_append (current : ScopeId) (new old : List OpenBody) :
    scopeAround current (new ++ old) = scopeAround (scopeAround current new) old := by
  induction new generalizing current with
  | nil => rfl
  | cons b new ih => rw [List.cons_append, scopeAround_cons, scopeAround_cons, ih]

lemma OpensBodies.trans {new new' : List OpenBody} (h : OpensBodies s t new)
    (h' : OpensBodies t u new') (hdepth : t.depth = s.depth) : OpensBodies s u (new' ++ new) := by
  refine ⟨by rw [h'.eq, h.eq, List.append_assoc], fun b hb => ?_, ?_⟩
  · rcases List.mem_append.mp hb with hb | hb
    · exact hdepth ▸ h'.here b hb
    · exact h.here b hb
  · rw [scopeAround_append, h'.around, h.around]

lemma OpensBodies.le {new : List OpenBody} (h : OpensBodies s t new)
    (hb : ∀ b ∈ s.openBodies, b.depth ≤ s.depth) : ∀ b ∈ t.openBodies, b.depth ≤ s.depth := by
  intro b hmem
  rw [h.eq] at hmem
  rcases List.mem_append.mp hmem with hmem | hmem
  · exact Nat.le_of_eq (h.here b hmem).1
  · exact hb b hmem

namespace ReadAs

variable {a b : Nat} {f g : List (String × Option ScopeId)} {i j : List Nat}

lemma refl (hsees : Sees s s.current sees) (hb : Clear s.before)
    (hclosed : s.closedHeader = false) :
    ReadAs s s sees 0 [] [] :=
  ⟨rfl, hclosed, hb, .of_eq rfl rfl, ⟨[], rfl, rfl⟩,
    ⟨[], ⟨rfl, List.forall_mem_nil _, rfl⟩, Nat.le_refl _⟩, hsees⟩

lemma trans (h : ReadAs s t after a f i) (h' : ReadAs t u after' b g j) :
    ReadAs s u after' (a + b) (f ++ g) (i ++ j) := by
  obtain ⟨new, hnew, hi⟩ := h.recorded
  obtain ⟨new', hnew', hj⟩ := h'.recorded
  obtain ⟨bodies, hbodies, hle⟩ := h.bodies
  obtain ⟨bodies', hbodies', hle'⟩ := h'.bodies
  refine ⟨h.alike.trans h'.alike, h'.closed, h'.clear, h.adds.trans h'.adds, ⟨new' ++ new, ?_, ?_⟩,
    ⟨bodies' ++ bodies, hbodies.trans hbodies' h.alike.depth, ?_⟩, h'.sees⟩
  · rw [hnew', hnew, List.append_assoc]
  · rw [List.reverse_append, List.map_append, hi, hj]
  · rw [List.length_append]
    omega

lemma free (h : ReadAs s t after a f i) (hs : Free s) : Free t := by
  obtain ⟨new, hnew, -⟩ := h.bodies
  exact h.alike.free hs (hnew.le hs.bodies)

lemma passed (h : ReadAs s t after a f i)
    (hu : u = { t with closedHeader := false, before := u.before }) (hclear : Clear u.before) :
    ReadAs s u after a f i := by
  obtain ⟨new, hnew, hle⟩ := h.bodies
  rw [hu]
  refine ⟨h.alike.trans rfl, rfl, hclear, h.adds.congr rfl rfl, h.recorded,
    ⟨new, ⟨hnew.eq, hnew.here, hnew.around⟩, hle⟩, ⟨h.sees.lt, h.sees.refersTo⟩⟩

end ReadAs

lemma readAs_passed (hsees : Sees s s.current sees) (hclear : Clear (site :: s.before)) :
    ReadAs s (s.passed site) sees 0 [] [] :=
  ⟨rfl, rfl, hclear, .of_eq rfl rfl, ⟨[], rfl, rfl⟩,
    ⟨[], ⟨rfl, List.forall_mem_nil _, rfl⟩, Nat.le_refl _⟩,
    ⟨hsees.lt, hsees.refersTo⟩⟩

lemma readAs_named {x : String} (hsees : Sees s s.current sees) (hb : Clear s.before)
    (hsite : (Word.name x).At site) :
    ReadAs s ((s.named site).passed site) sees 0 [(x, sees x)] [site.index] := by
  have hadds : Adds s ((s.named site).passed site) 0 [(x, sees x)] :=
    adds_name hsees hsite.text rfl rfl
  exact ⟨rfl, rfl, hb.name hsite.kind, hadds, ⟨[_], rfl, rfl⟩,
    ⟨[], ⟨rfl, List.forall_mem_nil _, rfl⟩, Nat.le_refl _⟩, hsees.adds hadds⟩

/-! ### Brackets, commas and conditionals -/

variable {a b : Nat} {f g : List (String × Option ScopeId)} {i j : List Nat} {kind : FrameKind}
  {o c : Site}

/-- The state after an opening bracket. -/
def opened (s : Tracker) (kind : FrameKind) (site : Site) : Tracker :=
  { s.push (.ofKind kind s.current) with closedHeader := false, before := site :: s.before }

lemma Free.opened (hs : Free s) (hk : kind ∈ [.paren, .square, .header]) (o : Site) :
    Free (s.opened kind o) := by
  have hkey : (s.opened kind o).top.atKey = false := by
    simp only [List.mem_cons, List.not_mem_nil, or_false] at hk
    rcases hk with rfl | rfl | rfl <;> rfl
  exact ⟨rfl, hkey, hs.declaration, hs.pendingBody, hs.nextParams, hs.functionName,
    fun b hb => Nat.le_succ_of_le (hs.bodies b hb)⟩

lemma sees_opened (hsees : Sees s s.current sees) (kind : FrameKind) (o : Site) :
    Sees (s.opened kind o) (s.opened kind o).current sees :=
  ⟨hsees.lt, hsees.refersTo⟩

lemma step_openGroup (hs : Free s) (hb : Clear s.before) (ho : (Word.punct "(").At o)
    (harrow : o.beforeArrow = false) : s.step o next = s.opened .paren o := by
  have hread : s.unmarked.read o next = s.unmarked.push (.ofKind .paren s.current) := by
    have hfor := hb.prev_ne (k := .kwFor) (.inl rfl)
    have hparams : s.unmarked.nextParams = none := hs.nextParams
    have hbefore : s.unmarked.before = s.before := rfl
    simp only [read, punctuator, ho.kind, ho.text, Word.punct, openParen, hparams, hbefore, hfor,
      hb.loop, harrow, Bool.or_self, Bool.false_eq_true, if_false]
    split
    · rename_i hcatch _
      exact absurd (hb.keyword _ hcatch).1 (by decide)
    · have hheader : (prevKeyword? s.before).any Keyword.hasHeader = false := by
        cases hk : prevKeyword? s.before with
        | none => rfl
        | some k => exact (hb.keyword k hk).1
      simp only [hheader, Bool.false_eq_true, if_false]
      rfl
  rw [step_of_read hs.pendingBody (calm_of_word ho (by simp [Word.punct])) hread]
  rfl

lemma step_openSquare (hs : Free s) (ho : (Word.punct "[").At o) :
    s.step o next = s.opened .square o := by
  have hread : s.unmarked.read o next = s.unmarked.push (.ofKind .square s.current) := by
    have hslot : s.unmarked.takeSlot = none := takeSlot_of_none hs.pattern hs.declaration
    have hkey : s.unmarked.atKey = false := hs.atKey_eq
    simp only [read, punctuator, ho.kind, ho.text, Word.punct, openSquare, hslot, hkey,
      Bool.false_eq_true, if_false]
    rfl
  rw [step_of_read hs.pendingBody (calm_of_word ho (by simp [Word.punct])) hread]
  rfl

lemma endBodies_arrows {depth : Nat} {comma : Bool} {current : ScopeId} {new old : List OpenBody}
    (h : ∀ b ∈ new, b.depth = depth ∧ b.endsAtComma = true) (h' : ∀ b ∈ old, b.depth < depth) :
    endBodies depth comma current (new ++ old) = (scopeAround current new, old) := by
  induction new generalizing current with
  | nil => exact endBodies_of_lt h'
  | cons b rest ih =>
    obtain ⟨hdepth, hcomma⟩ := h b List.mem_cons_self
    rw [List.cons_append, endBodies, if_neg (by simp [hdepth, hcomma]),
      ih fun x hx => h x (List.mem_cons_of_mem _ hx), scopeAround_cons]

/-- At their depth the bodies of arrows end, and the tracker is in the scope around them. -/
lemma OpensBodies.ended {comma : Bool} {new : List OpenBody} (h : OpensBodies s t new)
    (hout : ∀ b ∈ s.openBodies, b.depth < s.depth) :
    endBodies s.depth comma t.current t.openBodies = (s.current, s.openBodies) := by
  rw [h.eq, endBodies_arrows h.here hout, h.around]

/-- A closing bracket ends the bodies of the arrows that were opened inside. -/
lemma step_closeGroup (next : Option Token) (hs : Free s) (hk : kind ∈ [.paren, .square, .header])
    (h : ReadAs (s.opened kind o) t after a f i) (hc : (Word.punct p).At c) (hp : p ∈ [")", "]"]) :
    t.step c next = { s with
      scopes := t.scopes, inside := t.inside, occurrences := t.occurrences
      colonValue := t.colonValue
      closedHeader := decide (kind = .header), before := c :: t.before } := by
  obtain ⟨new, hnew, -⟩ := h.bodies
  have hpending : t.pendingBody = none := (h.free (hs.opened hk o)).pendingBody
  have hcalm : Calm t c := calm_of_word hc (by
    simp only [List.mem_cons, List.not_mem_nil, or_false] at hp
    rcases hp with rfl | rfl <;> simp [Word.punct])
  have hread : t.unmarked.read c next = t.unmarked.close next := by
    simp only [List.mem_cons, List.not_mem_nil, or_false] at hp
    rcases hp with rfl | rfl <;> simp only [read, punctuator, hc.kind, hc.text, Word.punct]
  rw [step_of_calm hpending hcalm, hread, before_close]
  -- the frame is left, and the bodies inside it end
  let w : Tracker := { s with
    scopes := t.scopes, inside := t.inside, occurrences := t.occurrences, before := t.before
    current := t.current
    openBodies := t.openBodies, colonValue := t.colonValue, closedHeader :=
      decide (kind = .header) }
  have ht : t.unmarked = { s.opened kind o with
      scopes := t.scopes, inside := t.inside, occurrences := t.occurrences, before := t.before
      current := t.current
      openBodies := t.openBodies, colonValue := t.colonValue, closedHeader := false } :=
    congrArg unmarked h.alike
  have hleave : ((t.unmarked.pop s.top s.outer).leave t.unmarked.top next) = w := by
    rw [ht]
    simp only [List.mem_cons, List.not_mem_nil, or_false] at hk
    rcases hk with rfl | rfl | rfl <;> rfl
  have hends : w.endOpenBodies (w.depth + 1) false
      = { w with current := s.current, openBodies := s.openBodies } := by
    have hbodies : endBodies (w.depth + 1) false w.current w.openBodies
        = (s.current, s.openBodies) :=
      hnew.ended fun b hb => Nat.lt_succ_of_le (hs.bodies b hb)
    unfold endOpenBodies
    rw [hbodies]
  have hframe : t.unmarked.closeFrame s.top s.outer next
      = { w with current := s.current, openBodies := s.openBodies } := by
    unfold closeFrame
    dsimp only
    rw [hleave, hends]
    exact endDeclarations_of_none
      (s := { w with current := s.current, openBodies := s.openBodies }) hs.declaration _
  have houter : t.unmarked.outer = s.top :: s.outer := by rw [ht]; rfl
  have hkind : ¬ (t.unmarked.top.kind = .block ∨ t.unmarked.top.kind = .functionBody) := by
    rw [ht]
    simp only [List.mem_cons, List.not_mem_nil, or_false] at hk
    rcases hk with rfl | rfl | rfl <;> simp [Tracker.opened, push, Frame.ofKind]
  unfold close
  rw [houter]
  simp only [hframe]
  rw [if_neg (by simpa using hkind)]
  rfl

/-- A part of an expression in brackets leaves no body open. -/
lemma ReadAs.group (next : Option Token) (hs : Free s) (hsees : Sees s s.current sees)
    (hk : kind ∈ [.paren, .square])
    (h : ReadAs (s.opened kind o) t after a f i) (hc : (Word.punct p).At c) (hp : p ∈ [")", "]"]) :
    ReadAs s (t.step c next) sees a f i := by
  have hheader : kind ≠ .header := by
    rintro rfl
    simp at hk
  have hadds : Adds s t a f := h.adds.of_start rfl rfl
  rw [step_closeGroup next hs (by simp at hk ⊢; tauto) h hc hp]
  have hclear : Clear (c :: t.before) := clear_punct hc (by
    simp only [List.mem_cons, List.not_mem_nil, or_false] at hp
    rcases hp with rfl | rfl <;> simp)
  have hadds' := hadds.congr (u := { s with
      scopes := t.scopes, inside := t.inside, occurrences := t.occurrences
      colonValue := t.colonValue
      closedHeader := decide (kind = .header), before := c :: t.before }) rfl rfl
  exact ⟨rfl, by simp [hheader], hclear, hadds', h.recorded,
    ⟨[], ⟨rfl, List.forall_mem_nil _, rfl⟩, Nat.zero_le _⟩, hsees.adds hadds'⟩

lemma renewDeclaration_of_none (h : s.declaration = none) : s.renewDeclaration = s := by
  rw [renewDeclaration, h, Option.map_none, ← h]

lemma ReadAs.comma (next : Option Token) (hs : Free s) (hsees : Sees s s.current sees)
    (hkind : s.top.kind ≠ .object)
    (hout : ∀ b ∈ s.openBodies, b.depth < s.depth) (h : ReadAs s t after a f i)
    (hc : (Word.punct ",").At c) :
    ReadAs s (t.step c next) sees a f i ∧ (t.step c next).openBodies = s.openBodies := by
  obtain ⟨new, hnew, -⟩ := h.bodies
  have hfree := h.free hs
  have hbodies : t.endOpenBodies t.depth true
      = { t with current := s.current, openBodies := s.openBodies } := by
    unfold endOpenBodies
    rw [h.alike.depth, hnew.ended hout]
  have hrenew : ({ t with current := s.current, openBodies := s.openBodies } :
      Tracker).renewDeclaration = { t with current := s.current, openBodies := s.openBodies } :=
    renewDeclaration_of_none hfree.declaration
  have hread : t.unmarked.read c next
      = { t with current := s.current, openBodies := s.openBodies, closedHeader := false } := by
    have htop : t.top.kind ≠ .object := by rw [h.alike.top]; exact hkind
    have hcomma : t.comma = { t with current := s.current, openBodies := s.openBodies } := by
      unfold Tracker.comma
      rw [hbodies, hrenew]
      refine setTop_of_eq ?_
      rw [if_neg htop]
      exact hfree.expectName true
    have hpunct : t.unmarked.read c next = unmarked t.comma := by
      simp only [read, punctuator, hc.kind, hc.text, Word.punct]
      rfl
    rw [hpunct, hcomma]
    rfl
  rw [step_of_read hfree.pendingBody (calm_of_word hc (by simp [Word.punct])) hread]
  have hadds := h.adds.congr (u := { t with
    current := s.current, openBodies := s.openBodies, closedHeader := false
    before := c :: t.before }) rfl rfl
  exact ⟨⟨h.alike.trans rfl, rfl, clear_punct hc (by simp), hadds, h.recorded,
    ⟨[], ⟨rfl, List.forall_mem_nil _, rfl⟩, Nat.zero_le _⟩, hsees.adds hadds⟩, rfl⟩

def asked (s : Tracker) (site : Site) : Tracker :=
  { s.passed site with top := { s.top with ternary := s.top.ternary + 1 } }

lemma step_question (hs : Free s) (ho : (Word.punct "?").At o) : s.step o next = s.asked o := by
  have hread : s.unmarked.read o next
      = s.unmarked.setTop fun f => { f with ternary := f.ternary + 1 } := by
    simp only [read, punctuator, ho.kind, ho.text, Word.punct]
  rw [step_of_read hs.pendingBody (calm_of_word ho (by simp [Word.punct])) hread]
  rfl

lemma Free.asked (hs : Free s) (o : Site) : Free (s.asked o) :=
  ⟨hs.pattern, hs.atKey, hs.declaration, hs.pendingBody, hs.nextParams, hs.functionName, hs.bodies⟩

lemma ReadAs.colon (next : Option Token) (hs : Free s) (h : ReadAs (s.asked o) t after a f i)
    (hc : (Word.punct ":").At c) : ReadAs s (t.step c next) after a f i := by
  obtain ⟨new, hnew, hle⟩ := h.bodies
  have hternary : 0 < t.top.ternary := by
    rw [h.alike.top]
    exact Nat.succ_pos _
  have hread : t.unmarked.read c next = { t with
      top := { t.top with ternary := t.top.ternary - 1 }, colonValue := true
      closedHeader := false } := by
    have hcolon : t.unmarked.read c next = t.unmarked.colon := by
      simp only [read, punctuator, hc.kind, hc.text, Word.punct]
    rw [hcolon, Tracker.colon, if_pos (show t.unmarked.top.ternary > 0 from hternary)]
    rfl
  have htop : ({ t.top with ternary := t.top.ternary - 1 } : Frame) = s.top := by
    rw [h.alike.top]
    rfl
  rw [htop] at hread
  rw [step_of_read (h.free (hs.asked o)).pendingBody (calm_of_word hc (by simp [Word.punct])) hread]
  have hadds : Adds s t a f := h.adds.of_start rfl rfl
  have hstate : Alike s { t with
      top := s.top, colonValue := true, closedHeader := false, before := c :: t.before } := by
    unfold Alike
    rw [h.alike]
    rfl
  exact ⟨hstate, rfl, clear_punct hc (by simp), hadds.congr rfl rfl, h.recorded,
    ⟨new, ⟨hnew.eq, hnew.here, hnew.around⟩, hle⟩, ⟨h.sees.lt, h.sees.refersTo⟩⟩

end Tracker

end Minify
