import Minify.Proofs.ExpressionReading
import Minify.Proofs.TreeShape

/-!
The parameters of an arrow.

An arrow has its scope from its first parameter on, but its body begins only after the arrow itself.
Until then the scope around it is kept with what the tracker waits for.
-/

namespace Minify.Tracker

variable {s t u : Tracker} {site o : Site} {sites : List Site} {next : Option Token}
  {sees : String → Option ScopeId} {p : String} {params : List String} {indices : List Nat}

/-- From `s` to `t` a scope was opened that declares the parameters of an arrow. -/
structure Declares (s t : Tracker) (params : List String) (indices : List Nat) : Prop where
  size : t.scopes.size = s.scopes.size + 1
  agree : AgreeBelow s.scopes.size s t
  scope : ∃ sc, t.scopes[s.scopes.size]? = some sc ∧ sc.parent = some s.current ∧
    ∀ x, x ∈ sc.bindings ↔ x ∈ params
  recorded : ∃ new, t.occurrences = new ++ s.occurrences ∧
    new.reverse.map Occurrence.token = indices ∧
    new.reverse.map (fun o => (o.name, o.scope)) = params.map (·, s.scopes.size)

lemma declares_enter (hs : t.scopes = (s.enter .function).scopes)
    (ho : t.occurrences = s.occurrences) :
    Declares s t [] [] := by
  have hnew : t.scopes[s.scopes.size]?
      = some { parent := some s.current, kind := .function, bindings := [], hasEval := false } := by
    rw [hs]
    exact Array.getElem?_push_size
  refine ⟨hs ▸ Array.size_push _, fun i hi => ?_, ⟨_, hnew, rfl, fun x => Iff.rfl⟩,
    [], ho, rfl, rfl⟩
  rw [hs]
  exact congrArg _ ((Array.getElem?_push_lt hi).trans (Array.getElem?_eq_getElem hi).symm)

lemma mem_bind {sc : Scope} {x y : String} : x ∈ (sc.bind y).bindings ↔
    x ∈ sc.bindings ∨ x = y := by
  unfold Scope.bind
  split
  · rename_i hy
    simp only [List.contains_eq_mem, decide_eq_true_eq] at hy
    exact ⟨.inl, fun h => h.elim id fun h => h ▸ hy⟩
  · simp

lemma Declares.declareIn (h : Declares s t params indices) (site : Site)
    (hs : u.scopes = (t.declareIn site s.scopes.size s.scopes.size false).scopes)
    (ho : u.occurrences = (t.declareIn site s.scopes.size s.scopes.size false).occurrences) :
    Declares s u (params ++ [site.token.text]) (indices ++ [site.index]) := by
  obtain ⟨sc, hsc, hparent, hbindings⟩ := h.scope
  obtain ⟨new, hnew, hindices, hnames⟩ := h.recorded
  refine ⟨?_, fun i hi => ?_, ⟨sc.bind site.token.text, ?_, ?_, fun x => ?_⟩,
    ⟨site.index, site.token.text, s.scopes.size, false⟩ :: new, ?_, ?_, ?_⟩
  · rw [hs, ← h.size]
    exact Array.size_modify
  · rw [hs, getElem?_declareIn, if_neg (Nat.ne_of_gt hi)]
    exact h.agree i hi
  · rw [hs, getElem?_declareIn, if_pos rfl, hsc]
    rfl
  · rw [parent_bind, hparent]
  · rw [mem_bind, hbindings, List.mem_append, List.mem_singleton]
  · rw [ho, List.cons_append, ← hnew]
    rfl
  · rw [List.reverse_cons, List.map_append, hindices]
    rfl
  · rw [List.reverse_cons, List.map_append, hnames, List.map_append]
    rfl

/-- In the scope of an arrow its parameters refer to it, and other names to what they refer to
around it. -/
lemma Declares.adds (h : Declares s t params indices) (hsees : Sees s s.current sees) :
    Adds s t 1 (params.map fun x => (x, some s.scopes.size)) ∧
      Sees t s.scopes.size (Expr.inside params s.scopes.size sees) := by
  obtain ⟨sc, hsc, hparent, hbindings⟩ := h.scope
  obtain ⟨new, hnew, -, hnames⟩ := h.recorded
  have hlt : s.scopes.size < t.scopes.size := by rw [h.size]; exact Nat.lt_succ_self _
  have hrefers (x : String) :
      t.refersTo x s.scopes.size = Expr.inside params s.scopes.size sees x := by
    rw [refersTo_new hsc hparent hsees.lt h.agree, hsees.refersTo, Expr.inside]
    simp only [hbindings]
  refine ⟨⟨h.size, h.agree, new, hnew, fun o ho => ?_, ?_⟩, hlt, hrefers⟩
  · have hmem : (o.name, o.scope) ∈ params.map (·, s.scopes.size) := by
      rw [← hnames]
      exact List.mem_map_of_mem (List.mem_reverse.mpr ho)
    obtain ⟨x, -, hx⟩ := List.mem_map.mp hmem
    rw [← (Prod.mk.inj hx).2]
    exact hlt
  · calc new.reverse.map (fun o => (o.name, t.refersTo o.name o.scope))
        = (new.reverse.map fun o => (o.name, o.scope)).map fun b => (b.1, t.refersTo b.1 b.2) := by
          rw [List.map_map]
          rfl
      _ = params.map fun x => (x, t.refersTo x s.scopes.size) := by
          rw [hnames, List.map_map]
          rfl
      _ = params.map fun x => (x, some s.scopes.size) :=
          List.map_congr_left fun x hx => by rw [hrefers, Expr.inside, if_pos hx]

/-- The parameters of an arrow have been read. -/
def ArrowNext (s t : Tracker) (closed : Bool) : Prop :=
  t = { s with
    scopes := t.scopes, inside := t.inside, occurrences := t.occurrences, before := t.before
    current := s.scopes.size, pendingBody := some ⟨.function, s.current⟩, closedHeader := closed }

/-- The arrow opens its body, which goes on until a comma or a bracket ends it. -/
lemma ArrowNext.readAs {closed : Bool} (hs : Free s) (hsees : Sees s s.current sees)
    (hd : Declares s t params indices) (ht : ArrowNext s t closed)
    (hsite : (Word.punct "=>").At site)
    (hnext : nextIs next "\x7b" = false) :
    ReadAs s (t.step site next) (Expr.inside params s.scopes.size sees) 1
      (params.map fun x => (x, some s.scopes.size)) indices := by
  have hends : (!t.closedHeader && endsStatement t.before site) = false := by
    simp [endsStatement, Token.startsStatement, hsite.kind, hsite.text, Word.punct]
  have hpending : t.pendingBody = some ⟨.function, s.current⟩ := by rw [ht]
  have hbegin : t.unmarked.beginBody site.token = t.unmarked := by
    unfold beginBody
    rw [show t.unmarked.pendingBody = some ⟨.function, s.current⟩ from hpending]
    exact if_pos (by simp [Token.isPunct, hsite.kind, hsite.text, Word.punct])
  have hread : t.unmarked.read site next = { t with
      pendingBody := none, openBodies := ⟨t.depth, s.current, true⟩ :: t.openBodies
      closedHeader := false } := by
    simp only [read, punctuator, hsite.kind, hsite.text, Word.punct, arrow,
      show t.unmarked.pendingBody = some ⟨.function, s.current⟩ from hpending, hnext,
      Bool.false_eq_true, if_false]
    rfl
  have hstep : t.step site next = { s with
      scopes := t.scopes, inside := t.inside, occurrences := t.occurrences, current := s.scopes.size
      openBodies := ⟨s.depth, s.current, true⟩ :: s.openBodies, closedHeader := false
      before := site :: t.before } := by
    unfold step prepare
    rw [hends]
    change { (t.unmarked.beginBody site.token).read site next with
      before := site :: ((t.unmarked.beginBody site.token).read site next).before } = _
    rw [hbegin, hread, ht]
    change ({ s with
      scopes := t.scopes, inside := t.inside, occurrences := t.occurrences, current := s.scopes.size
      pendingBody := none, openBodies := ⟨s.depth, s.current, true⟩ :: s.openBodies
      closedHeader := false, before := site :: t.before } : Tracker) = _
    rw [← hs.pendingBody]
  obtain ⟨hadds, hin⟩ := hd.adds hsees
  obtain ⟨new, hnew, hindices, -⟩ := hd.recorded
  rw [hstep]
  have hadds' := hadds.congr (u := { s with
      scopes := t.scopes, inside := t.inside, occurrences := t.occurrences, current := s.scopes.size
      openBodies := ⟨s.depth, s.current, true⟩ :: s.openBodies, closedHeader := false
      before := site :: t.before }) rfl rfl
  refine ⟨rfl, rfl, clear_punct hsite (by simp), hadds', ⟨new, hnew, hindices⟩,
    ⟨[⟨s.depth, s.current, true⟩], ⟨rfl, fun b hb => ?_, rfl⟩, Nat.le_refl _⟩, hin.lt, hin.refersTo⟩
  rw [List.mem_singleton.mp hb]
  exact ⟨rfl, rfl⟩

lemma step_parameter {x : String} (hs : Free s) (hb : Clear s.before) (hcalm : Calm s site)
    (hsite : (Word.name x).At site) (hnext : nextIs next "=>" = true) :
    Declares s (s.step site next) [x] [site.index] ∧ ArrowNext s (s.step site next) false := by
  have hbreak := hb.prev_ne (k := .kwBreak) (.inr (by simp))
  have hcontinue := hb.prev_ne (k := .kwContinue) (.inr (by simp))
  have hclass := hb.prev_ne (k := .kwClass) (.inr (by simp))
  have hcolon : nextIs next ":" = false := by
    cases next with
    | none => rfl
    | some n => simp_all [nextIs, Token.isPunct]
  have hslot : s.unmarked.takeSlot = none := takeSlot_of_none hs.pattern hs.declaration
  have hkey : s.unmarked.atKey = false := hs.atKey_eq
  have hname : s.unmarked.functionName = none := hs.functionName
  have hdeclaring : s.unmarked.declaring false = false := hs.declaring false
  have hbefore : s.unmarked.before = s.before := rfl
  let e : Tracker := { s.unmarked.enter .function with
    pendingBody := some ⟨.function, s.current⟩ }
  have hread : s.unmarked.read site next
      = e.declareIn site s.scopes.size s.scopes.size false := by
    simp only [read, hsite.kind, Word.name, word, hbefore, hb.dot, hb.hash, hslot, hkey, identifier,
      hname, hbreak, hcontinue, hclass, hdeclaring, hnext, hcolon, Bool.false_eq_true, if_false,
      if_true, Bool.or_self, Bool.false_and, Bool.and_false]
    rfl
  rw [step_of_read hs.pendingBody hcalm hread]
  have henter : Declares s e [] [] := declares_enter rfl rfl
  refine ⟨?_, rfl⟩
  have hdeclares := henter.declareIn (u := { e.declareIn site s.scopes.size s.scopes.size false with
    before := site :: s.before }) site rfl rfl
  rwa [hsite.text] at hdeclares

/-- The tracker is among the parameters of an arrow, and waits for a name or does not. -/
def AmongParams (s t : Tracker) (expect : Bool) : Prop :=
  t = { s with
    scopes := t.scopes, inside := t.inside, occurrences := t.occurrences, before := t.before
    current := s.scopes.size
    top := { Frame.ofKind .params s.current with pattern := some ⟨.lexical, expect⟩ }
    outer := s.top :: s.outer, closedHeader := false }

lemma step_openParams (next : Option Token) (hs : Free s) (hb : Clear s.before)
    (ho : (Word.punct "(").At o) (harrow : o.beforeArrow = true) :
    Declares s (s.step o next) [] [] ∧ AmongParams s (s.step o next) true := by
  let e : Tracker := { s.unmarked.enter .function with
    top := { Frame.ofKind .params s.current with pattern := some ⟨.lexical, true⟩ }
    outer := s.top :: s.outer }
  have hread : s.unmarked.read o next = e := by
    have hfor := hb.prev_ne (k := .kwFor) (.inl rfl)
    have hparams : s.unmarked.nextParams = none := hs.nextParams
    have hbefore : s.unmarked.before = s.before := rfl
    simp only [read, punctuator, ho.kind, ho.text, Word.punct, openParen, hparams, hbefore, hfor,
      hb.loop, harrow, Bool.or_self, Bool.false_eq_true, if_false, if_true]
    split
    · rename_i hcatch _
      exact absurd (hb.keyword _ hcatch).1 (by decide)
    · rfl
  rw [step_of_read hs.pendingBody (calm_of_word ho (by simp [Word.punct])) hread]
  exact ⟨declares_enter rfl rfl, rfl⟩

/-- A name among the parameters, after the parenthesis or a comma. -/
lemma step_paramName {x : String} {q : Site} {before : List Site}
    (next : Option Token) (hs : Free s)
    (hd : Declares s t params indices) (ht : AmongParams s t true) (hb : t.before = q :: before)
    (hq : (Word.punct p).At q) (hp : p ∈ ["(", ","]) (hsite : (Word.name x).At site) :
    Declares s (t.step site next) (params ++ [x]) (indices ++ [site.index]) ∧
      AmongParams s (t.step site next) false := by
  have hpending : t.pendingBody = none := by rw [ht]; exact hs.pendingBody
  have hcalm : Calm t site := calm_of_begins hb hq (by
    simp only [List.mem_cons, List.not_mem_nil, or_false] at hp
    rcases hp with rfl | rfl <;> simp [Word.punct])
  have hname : BeforeName t.before := hb ▸ beforeName_punct hq hp
  let e : Tracker := { t with
    top := { Frame.ofKind .params s.current with pattern := some ⟨.lexical, false⟩ }
    closedHeader := false }
  have hread : t.unmarked.read site next
      = e.declareIn site s.scopes.size s.scopes.size false := by
    have htop : t.unmarked.top.pattern = some ⟨.lexical, true⟩ := by rw [ht]; rfl
    have hbefore : t.unmarked.before = t.before := rfl
    have hslot : t.unmarked.takeSlot = some (.lexical, e) := by
      have htake : t.unmarked.setTop (·.expectName false) = e := by
        change ({ t with top := t.top.expectName false, closedHeader := false } : Tracker) = e
        rw [show t.top = { Frame.ofKind .params s.current with
          pattern := some ⟨.lexical, true⟩ } by rw [ht]]
        rfl
      unfold takeSlot
      simp only [htop, htake]
    have hcurrent : e.current = s.scopes.size := by
      change t.current = _
      rw [ht]
    simp only [read, hsite.kind, Word.name, word, hbefore, hname.dot, hname.hash, hslot, declare,
      Bool.false_eq_true, if_false, hcurrent]
  rw [step_of_read hpending hcalm hread]
  have hdeclares := hd.declareIn (u := { e.declareIn site s.scopes.size s.scopes.size false with
    before := site :: t.before }) site rfl rfl
  rw [show site.token.text = x from hsite.text] at hdeclares
  refine ⟨hdeclares, ?_⟩
  unfold AmongParams
  simp only [e]
  rw [ht]
  rfl

lemma step_paramComma (next : Option Token) (hs : Free s) (hd : Declares s t params indices)
    (ht : AmongParams s t false) (hsite : (Word.punct ",").At site) :
    Declares s (t.step site next) params indices ∧ AmongParams s (t.step site next) true ∧
      (t.step site next).before = site :: t.before := by
  have hpending : t.pendingBody = none := by rw [ht]; exact hs.pendingBody
  let e : Tracker := { t with
    top := { Frame.ofKind .params s.current with pattern := some ⟨.lexical, true⟩ }
    closedHeader := false }
  have hread : t.unmarked.read site next = e := by
    have hdepth : t.unmarked.depth = s.depth + 1 := by rw [ht]; rfl
    have hopen : ∀ b ∈ t.unmarked.openBodies, b.depth < t.unmarked.depth := by
      intro b hb
      rw [ht] at hb
      rw [hdepth]
      exact Nat.lt_succ_of_le (hs.bodies b hb)
    have hnone : t.unmarked.declaration = none := by rw [ht]; exact hs.declaration
    have hcomma : t.unmarked.comma = e := by
      unfold comma
      rw [endOpenBodies_of_lt hopen, renewDeclaration_of_none hnone]
      change ({ t with
        top := if t.top.kind = .object then { t.top.expectName false with atKey := true }
          else t.top.expectName true
        closedHeader := false } : Tracker) = e
      rw [show t.top = { Frame.ofKind .params s.current with
        pattern := some ⟨.lexical, false⟩ } by rw [ht]]
      rfl
    simp only [read, punctuator, hsite.kind, hsite.text, Word.punct, hcomma]
  rw [step_of_read hpending (calm_of_word hsite (by simp [Word.punct])) hread]
  refine ⟨⟨hd.size, hd.agree, hd.scope, hd.recorded⟩, ?_, rfl⟩
  unfold AmongParams
  simp only [e]
  rw [ht]

lemma readAll_paramNames (next : Option Token) {names : List String} {q : Site} {before : List Site}
    (hs : Free s) (hd : Declares s t params indices) (ht : AmongParams s t true)
    (hb : t.before = q :: before) (hq : (Word.punct p).At q) (hp : p ∈ ["(", ","])
    (hsites : Marked sites (MarkedWord.listed names)) :
    Declares s (t.readAll next sites) (params ++ names)
        (indices ++ MarkedWord.named sites (MarkedWord.listed names)) ∧
      ∃ expect, AmongParams s (t.readAll next sites) expect := by
  induction names generalizing sites t params indices q before p with
  | nil =>
    cases hsites
    have hnone : MarkedWord.named [] (MarkedWord.listed []) = [] := rfl
    rw [readAll, hnone, List.append_nil, List.append_nil]
    exact ⟨hd, true, ht⟩
  | cons x xs ih =>
    cases xs with
    | nil =>
      obtain ⟨site, rest, hsite, hrest, rfl⟩ := List.forall₂_cons_right_iff.mp hsites
      cases hrest
      obtain ⟨hdeclares, hamong⟩ := step_paramName next hs hd ht hb hq hp hsite.word
      exact ⟨hdeclares, false, hamong⟩
    | cons y ys =>
      obtain ⟨site, rest, hsite, hrest, rfl⟩ := List.forall₂_cons_right_iff.mp hsites
      obtain ⟨c, others, hc, hothers, rfl⟩ := List.forall₂_cons_right_iff.mp hrest
      obtain ⟨hdeclares, hamong⟩ := step_paramName
        (((c :: others).head?.map Site.token).or next) hs hd ht hb hq hp hsite.word
      obtain ⟨hdeclares', hamong', hbefore⟩ := step_paramComma
        ((others.head?.map Site.token).or next) hs hdeclares hamong hc.word
      have hrest := ih hdeclares' hamong' hbefore hc.word (by simp) hothers
      rw [List.append_assoc, List.append_assoc] at hrest
      exact hrest

lemma step_closeParams {expect : Bool} (next : Option Token) (hs : Free s)
    (hd : Declares s t params indices)
    (ht : AmongParams s t expect) (hsite : (Word.punct ")").At site) :
    Declares s (t.step site next) params indices ∧ ArrowNext s (t.step site next) true := by
  have hpending : t.pendingBody = none := by rw [ht]; exact hs.pendingBody
  let e : Tracker := { s with
    scopes := t.scopes, inside := t.inside, occurrences := t.occurrences, before := t.before
    current := s.scopes.size, pendingBody := some ⟨.function, s.current⟩, closedHeader := true }
  have hread : t.unmarked.read site next = e := by
    have hbodies : ∀ b ∈ t.unmarked.openBodies, b.depth ≤ s.outer.length + 1 := by
      rw [ht]
      exact hs.bodies
    have hleave : (t.unmarked.pop s.top s.outer).leave t.unmarked.top next = e := by
      rw [ht]
      rfl
    have hframe : t.unmarked.closeFrame s.top s.outer next = e :=
      closeFrame_of_leave hbodies hleave (by rw [ht]; rfl) rfl hs.declaration
    have hclose : t.unmarked.close next = e := by
      unfold close
      rw [show t.unmarked.outer = s.top :: s.outer by rw [ht]; rfl]
      simp only [hframe]
      rw [ht]
      rfl
    simp only [read, punctuator, hsite.kind, hsite.text, Word.punct, hclose]
  rw [step_of_read hpending (calm_of_word hsite (by simp [Word.punct])) hread]
  exact ⟨⟨hd.size, hd.agree, hd.scope, hd.recorded⟩, rfl⟩

end Minify.Tracker
