import Minify.Proofs.LoopReading

/-!
Names in loops refer to what the statements say, as long as the bodies of loops end well.

A statement is read by induction on its tree. Where its last word ends all the bodies without braces
that end there, the tracker goes back to the scope around them; where it stands before an `else` and
ends none, the tracker stays in the scope it was in.
-/

namespace Minify

namespace Tracker

variable {s t u : Tracker} {site : Site} {next : Option Token} {bodies around : List OpenBody}
  {sees : String → Option ScopeId} {sites : List Site}

/-- From `s` to `t` some names were recorded and some scopes were added; the tracker is in the scope
`current` now and has `bodies` open, and else as before. -/
structure Moved (s t : Tracker) (current : ScopeId) (bodies : List OpenBody) (opened : Nat)
    (found : List (String × Option ScopeId)) : Prop where
  state : t = { s with
    scopes := t.scopes, inside := t.inside, occurrences := t.occurrences, before := t.before
    current := current, openBodies := bodies, closedHeader := false }
  adds : Adds s t opened found
  opening : Opening t.before

/-- Nothing but the records, the scope, the bodies and what stands before differ. -/
def SameFrames (s t : Tracker) : Prop :=
  t = { s with
    scopes := t.scopes, inside := t.inside, occurrences := t.occurrences, before := t.before
    current := t.current, openBodies := t.openBodies, closedHeader := t.closedHeader }

lemma SameFrames.ready (h : SameFrames s t) (hs : Ready s) : Ready t := by
  rw [h]
  exact hs.of_eq rfl

lemma SameFrames.trans (h : SameFrames s t) (h' : SameFrames t u) : SameFrames s u := by
  unfold SameFrames
  rw [h', h]

lemma SameFrames.depth (h : SameFrames s t) : t.depth = s.depth := by
  rw [h]
  rfl

lemma SameFrames.moved {current : ScopeId} {bodies : List OpenBody} {a b : Nat}
    {f g : List (String × Option ScopeId)} (h : SameFrames s t) (hadds : Adds s t a f)
    (h' : Moved t u current bodies b g) : Moved s u current bodies (a + b) (f ++ g) := by
  refine ⟨h'.state.trans ?_, hadds.trans h'.adds, h'.opening⟩
  rw [h]

/-- Nothing but records and what stands before differ. -/
structure Beside (s t : Tracker) : Prop where
  frames : SameFrames s t
  current : t.current = s.current
  openBodies : t.openBodies = s.openBodies

lemma Beside.trans (h : Beside s t) (h' : Beside t u) : Beside s u :=
  ⟨h.frames.trans h'.frames, h'.current.trans h.current,
    h'.openBodies.trans h.openBodies⟩

lemma Beside.holds (h : Beside s t) (hh : Holds s bodies around) : Holds t bodies around := by
  have hdepth := h.frames.depth
  exact ⟨h.openBodies.trans hh.open_eq, hdepth ▸ hh.here, hdepth ▸ hh.outside⟩

lemma Moved.beside {a : Nat} {f : List (String × Option ScopeId)}
    (h : Moved s t s.current s.openBodies a f) : Beside s t := by
  have hcurrent := congrArg Tracker.current h.state
  have hbodies := congrArg Tracker.openBodies h.state
  refine ⟨?_, hcurrent, hbodies⟩
  unfold SameFrames
  rw [h.state]

lemma Adds.congr {a : Nat} {f : List (String × Option ScopeId)} (h : Adds s t a f)
    (hs : u.scopes = t.scopes) (ho : u.occurrences = t.occurrences) : Adds s u a f := by
  have h' := h.trans (Adds.of_eq hs ho)
  rwa [Nat.add_zero, List.append_nil] at h'

/-- Names in a scope mean what is said, so the name of a site does. -/
lemma adds_name (hsees : Sees s s.current sees) {x : String} (hx : site.token.text = x)
    (hs : t.scopes = (s.named site).scopes) (ho : t.occurrences = (s.named site).occurrences) :
    Adds s t 0 [(x, sees x)] := by
  have h := (adds_named hsees.lt site).congr hs ho
  rwa [hsees.refersTo, hx] at h

/-! ### The scope of a block and of a loop -/

lemma getElem?_enter (s : Tracker) : (s.enter .block).scopes[s.scopes.size]?
    = some { parent := some s.current, kind := .block, bindings := [], hasEval := false } :=
  Array.getElem?_push_size

lemma size_enter (s : Tracker) : (s.enter .block).scopes.size = s.scopes.size + 1 :=
  Array.size_push _

lemma getElem?_enter_of_lt {i : ScopeId} (h : i < s.scopes.size) :
    (s.enter .block).scopes[i]? = s.scopes[i]? :=
  (Array.getElem?_push_lt h).trans (Array.getElem?_eq_getElem h).symm

lemma enter_adds (hsees : Sees s s.current sees)
    (hs : t.scopes = (s.enter .block).scopes) (ho : t.occurrences = s.occurrences) :
    Adds s t 1 [] ∧ Sees t s.scopes.size sees := by
  have hagree : AgreeBelow s.scopes.size s t :=
    fun i hi => congrArg _ (hs ▸ getElem?_enter_of_lt hi)
  have hsize : t.scopes.size = s.scopes.size + 1 := hs ▸ size_enter s
  refine ⟨⟨hsize, hagree, [], ho, nofun, rfl⟩, by rw [hsize]; exact Nat.lt_succ_self _,
    fun name => ?_⟩
  rw [refersTo_new (hs ▸ getElem?_enter s) rfl hsees.lt hagree, hsees.refersTo]
  simp

lemma headed_adds (hsees : Sees s s.current sees) {a b : Site} {x y : String}
    (ha : a.token.text = x) (hb : b.token.text = y)
    (hs : t.scopes = (s.headed a b).scopes) (ho : t.occurrences = (s.headed a b).occurrences) :
    Adds s t 1 [(x, some s.scopes.size), (y, Stmt.insideLoop x s.scopes.size sees y)] ∧
      Sees t s.scopes.size (Stmt.insideLoop x s.scopes.size sees) := by
  let e := (s.enter .block).declareIn a s.scopes.size s.scopes.size false
  have hnew : e.scopes[s.scopes.size]?
      = some { parent := some s.current, kind := .block, bindings := [x], hasEval := false } := by
    rw [getElem?_declareIn, if_pos rfl, getElem?_enter, ha]
    rfl
  have hagree : AgreeBelow s.scopes.size s e := by
    intro i hi
    rw [getElem?_declareIn, if_neg (Nat.ne_of_gt hi), getElem?_enter_of_lt hi]
  have hsize : e.scopes.size = s.scopes.size + 1 := by
    rw [← size_enter]
    exact Array.size_modify
  have hrefers (name : String) :
      e.refersTo name s.scopes.size = Stmt.insideLoop x s.scopes.size sees name := by
    rw [refersTo_new hnew rfl hsees.lt hagree, hsees.refersTo]
    simp [Stmt.insideLoop]
  have he : Adds s e 1 [(x, some s.scopes.size)] := by
    refine ⟨hsize, hagree, [⟨a.index, a.token.text, s.scopes.size, false⟩], rfl,
      fun o hmem => ?_, ?_⟩
    · rw [List.mem_singleton.mp hmem, hsize]
      exact Nat.lt_succ_self _
    · rw [List.reverse_singleton, List.map_singleton, hrefers, ha]
      simp [Stmt.insideLoop]
  have hin : Sees e s.scopes.size (Stmt.insideLoop x s.scopes.size sees) :=
    ⟨by rw [hsize]; exact Nat.lt_succ_self _, hrefers⟩
  have hy : Adds e t 0 [(y, Stmt.insideLoop x s.scopes.size sees y)] :=
    adds_name hin hb hs ho
  exact ⟨he.trans hy, hin.adds hy⟩

/-! ### Words and what comes after them -/

/-- The statement begins with a word that is no brace, unless it is a block. -/
lemma words_of_not_block {S : Stmt} (h : S.isBlock = false) :
    ∃ w ws, S.words = w :: ws ∧ w.kind ≠ .punctuator := by
  cases S with
  | block => cases h
  | use x => exact ⟨_, _, rfl, nofun⟩
  | cond x yes => exact ⟨_, _, rfl, nofun⟩
  | branch x yes no => exact ⟨_, _, rfl, nofun⟩
  | repeats x body => exact ⟨_, _, rfl, nofun⟩
  | loop x y body => exact ⟨_, _, rfl, nofun⟩

/-- A block looks as if it went on when a loop with `while` comes next. -/
lemma goesOn_list {l : List Stmt} (h : Spells sites (Stmt.listWords l))
    (hnext : goesOn next = false) :
    goesOn ((sites.head?.map Site.token).or next) = Stmt.startsWithWhile l := by
  cases l with
  | nil =>
    cases h
    exact hnext
  | cons S rest =>
    have hfirst (w : Word) (ws : List Word) (hw : S.words = w :: ws) :
        ∃ site, sites.head? = some site ∧ w.At site := by
      rw [Stmt.listWords, hw] at h
      obtain ⟨site, others, hsite, -, rfl⟩ := List.forall₂_cons_right_iff.mp h
      exact ⟨site, rfl, hsite⟩
    cases S with
    | use x =>
      obtain ⟨site, hhead, hsite⟩ := hfirst _ _ rfl
      simp [hhead, goesOn, Token.isKeyword, hsite.kind, Word.name, Stmt.startsWithWhile]
    | block body =>
      obtain ⟨site, hhead, hsite⟩ := hfirst _ _ rfl
      simp [hhead, goesOn, Token.isKeyword, hsite.kind, Word.punct, Stmt.startsWithWhile]
    | cond x yes =>
      obtain ⟨site, hhead, hsite⟩ := hfirst _ _ rfl
      simp [hhead, goesOn, Token.isKeyword, hsite.kind, Word.keyword, Stmt.startsWithWhile]
    | branch x yes no =>
      obtain ⟨site, hhead, hsite⟩ := hfirst _ _ rfl
      simp [hhead, goesOn, Token.isKeyword, hsite.kind, Word.keyword, Stmt.startsWithWhile]
    | repeats x body =>
      obtain ⟨site, hhead, hsite⟩ := hfirst _ _ rfl
      simp [hhead, goesOn, Token.isKeyword, hsite.kind, Word.keyword, Stmt.startsWithWhile]
    | loop x y body =>
      obtain ⟨site, hhead, hsite⟩ := hfirst _ _ rfl
      simp [hhead, goesOn, Token.isKeyword, hsite.kind, Word.keyword, Stmt.startsWithWhile]

/-! ### Statements -/

/-- A site with no line end before it, or after which nothing ends. -/
lemma calm_of_holds_nil (hs : Ready s) (hh : Holds s [] around) : Calm s site := by
  refine .inr (.inr ?_)
  rw [hs.endStatement]
  exact endOpenBodies_of_lt fun b hb => hh.outside b (by rwa [hh.open_eq] at hb)

lemma calm_head {xs ys : List Site} (h : ∀ site ∈ (xs ++ ys).head?, Calm s site) :
    ∀ site ∈ xs.head?, Calm s site := by
  intro site hmem
  refine h site ?_
  rw [List.head?_append, Option.mem_def.mp hmem]
  rfl

/-- What a statement in bodies without braces does: its last word ends them all, or, before an
`else`, none. -/
structure StmtMoves (S : Stmt) (sees : String → Option ScopeId) (bodies around : List OpenBody)
    (next : Option Token) (s t : Tracker) : Prop where
  ends : S.closes bodies.length (goesOn next) = true →
    Moved s t (scopeAround s.current bodies) around S.scopes (S.refers sees s.scopes.size)
  stays : S.keeps bodies.length = true → goesOn next = true →
    Moved s t s.current s.openBodies S.scopes (S.refers sees s.scopes.size)

/-- What holds at the start of a statement. -/
structure Starts (S : Stmt) (sees : String → Option ScopeId) (bodies around : List OpenBody)
    (sites : List Site) (s : Tracker) : Prop where
  ready : Ready s
  opening : Opening s.before
  holds : Holds s bodies around
  sees : Sees s s.current sees
  spells : Spells sites S.words
  arrows : ∀ site ∈ sites, site.beforeArrow = false
  calm : ∀ site ∈ sites.head?, Calm s site
  endsWell : S.endsWell bodies.length = true

lemma Moved.of_nil {a : Nat} {f : List (String × Option ScopeId)} (hh : Holds s bodies around)
    (hnil : bodies = []) (h : Moved s t (scopeAround s.current bodies) around a f) :
    Moved s t s.current s.openBodies a f := by
  have hopen : s.openBodies = around := by rw [hh.open_eq, hnil, List.nil_append]
  rw [hnil] at h
  exact hopen ▸ h

lemma moves_use {x : String} (h : Starts (.use x) sees bodies around sites s) :
    StmtMoves (.use x) sees bodies around next s (s.readAll next sites) := by
  obtain ⟨site, before, hx, hopening, ht⟩ :=
    readAll_use next h.ready h.opening h.holds h.spells h.calm
  have hmoved : Moved s (s.readAll next sites) (scopeAround s.current bodies) around 0
      [(x, sees x)] := by
    rw [ht]
    exact ⟨rfl, adds_name h.sees hx rfl rfl, hopening⟩
  refine ⟨fun _ => hmoved, fun hkeeps _ => hmoved.of_nil h.holds ?_⟩
  exact List.eq_nil_of_length_eq_zero (by simpa [Stmt.keeps, Stmt.endsBraced] using hkeeps)

/-- After a header the tracker stands beside where it stood. -/
lemma beside_header (next : Option Token) {k : Keyword} {text x : String}
    (hk : k = .kwIf ∨ k = .kwWhile)
    (hs : Ready s) (hb : Opening s.before) (hh : Holds s bodies around)
    (hsees : Sees s s.current sees) (hsites : Spells sites (.keyword k text :: Word.header x))
    (harrows : ∀ site ∈ sites, site.beforeArrow = false)
    (hcalm : ∀ site ∈ sites.head?, Calm s site) :
    Beside s (s.readAll next sites) ∧ Adds s (s.readAll next sites) 0 [(x, sees x)] ∧
      Opening (s.readAll next sites).before ∧ (s.readAll next sites).closedHeader = true := by
  obtain ⟨site, before, hx, hopening, ht⟩ :=
    readAll_header next hk hs hb hh hsites harrows hcalm
  rw [ht]
  exact ⟨⟨rfl, rfl, rfl⟩, adds_name hsees hx rfl rfl, hopening, rfl⟩

/-- What stands last in a statement ends it, when the tracker stands beside where it stood. -/
lemma Beside.moves {S S' : Stmt} {a : Nat} {f : List (String × Option ScopeId)} (hb : Beside s t)
    (ha : Adds s t a f) (h : StmtMoves S' sees bodies around next t u)
    (hcloses : ∀ goesOn, S.closes bodies.length goesOn = true → S'.closes bodies.length
      goesOn = true)
    (hkeeps : S.keeps bodies.length = true → S'.keeps bodies.length = true)
    (hscopes : S.scopes = a + S'.scopes)
    (hrefers : S.refers sees s.scopes.size = f ++ S'.refers sees (s.scopes.size + a)) :
    StmtMoves S sees bodies around next s u := by
  have hends := h.ends
  have hstays := h.stays
  rw [hb.current, hb.openBodies] at *
  rw [ha.size] at hends hstays
  refine ⟨fun hc => ?_, fun hk hgo => ?_⟩
  · rw [hscopes, hrefers]
    exact hb.frames.moved ha (hends (hcloses _ hc))
  · rw [hscopes, hrefers]
    exact hb.frames.moved ha (hstays (hkeeps hk) hgo)

/-- `if (x) yes` and `while (x) body`. -/
lemma moves_headed {k : Keyword} {text x : String} {S body : Stmt}
    (hk : k = .kwIf ∨ k = .kwWhile) (h : Starts S sees bodies around sites s)
    (hwords : S.words = .keyword k text :: (Word.header x ++ body.words))
    (hwell : body.endsWell bodies.length = true)
    (hcloses : ∀ goesOn, S.closes bodies.length goesOn = true →
      body.closes bodies.length goesOn = true)
    (hkeeps : S.keeps bodies.length = true → body.keeps bodies.length = true)
    (hscopes : S.scopes = 0 + body.scopes)
    (hrefers : S.refers sees s.scopes.size = [(x, sees x)] ++ body.refers sees s.scopes.size)
    (ih : ∀ {s : Tracker} {sites : List Site}, Starts body sees bodies around sites s →
      StmtMoves body sees bodies around next s (s.readAll next sites)) :
    StmtMoves S sees bodies around next s (s.readAll next sites) := by
  have hspells := h.spells
  rw [hwords, ← List.cons_append] at hspells
  obtain ⟨xs, ys, rfl, hxs, hys⟩ := spells_append hspells
  rw [readAll_append]
  obtain ⟨hb, ha, hopening, hclosed⟩ := beside_header ((ys.head?.map Site.token).or next) hk
    h.ready h.opening h.holds h.sees hxs
    (fun site hmem => h.arrows site (List.mem_append_left _ hmem)) (calm_head h.calm)
  refine hb.moves ha (ih ⟨hb.frames.ready h.ready, hopening, hb.holds h.holds, ?_, hys,
    ?_, ?_, hwell⟩)
    hcloses hkeeps hscopes hrefers
  · rw [hb.current]
    exact h.sees.adds ha
  · exact fun site hmem => h.arrows site (List.mem_append_right _ hmem)
  · exact fun _ _ => .inl hclosed

lemma goesOn_else (h : (Word.keyword .kwElse "else").At site) :
    goesOn (some site.token) = true := by
  simp [goesOn, Token.isKeyword, h.kind, Word.keyword]

lemma moves_branch {x : String} {yes no : Stmt}
    (h : Starts (.branch x yes no) sees bodies around sites s)
    (ihYes : ∀ {s : Tracker} {sites : List Site} {next : Option Token},
      Starts yes sees bodies around sites s →
      StmtMoves yes sees bodies around next s (s.readAll next sites))
    (ihNo : ∀ {s : Tracker} {sites : List Site}, Starts no sees bodies around sites s →
      StmtMoves no sees bodies around next s (s.readAll next sites)) :
    StmtMoves (.branch x yes no) sees bodies around next s (s.readAll next sites) := by
  have hwell := h.endsWell
  simp only [Stmt.endsWell, Bool.and_eq_true] at hwell
  obtain ⟨⟨hkeeps, hyes⟩, hno⟩ := hwell
  have hspells := h.spells
  rw [Stmt.words, ← List.cons_append] at hspells
  obtain ⟨xs, ys, rfl, hxs, hys⟩ := spells_append hspells
  obtain ⟨as, rest, rfl, has, hrest⟩ := spells_append hys
  obtain ⟨e, bs, he, hbs, rfl⟩ := List.forall₂_cons_right_iff.mp hrest
  have harrows : ∀ site, site ∈ xs ∨ site ∈ as ∨ site ∈ bs → site.beforeArrow = false := by
    intro site hmem
    refine h.arrows site ?_
    simp only [List.mem_append, List.mem_cons]
    tauto
  rw [readAll_append, readAll_append]
  -- the header
  obtain ⟨hb, ha, hopening, hclosed⟩ := beside_header
    (((as ++ e :: bs).head?.map Site.token).or next) (.inl rfl) h.ready h.opening h.holds
    h.sees hxs (fun site hmem => harrows site (.inl hmem)) (calm_head h.calm)
  generalize s.readAll _ xs = t at hb ha hopening hclosed ⊢
  -- the statement before `else`
  have hsees : Sees t t.current sees := hb.current ▸ h.sees.adds ha
  have hmoves : StmtMoves yes sees bodies around (some e.token) t (t.readAll (some e.token) as) :=
    ihYes ⟨hb.frames.ready h.ready, hopening, hb.holds h.holds, hsees, has,
      fun site hmem => harrows site (.inr (.inl hmem)), fun _ _ => .inl hclosed, hyes⟩
  have hmoved := hmoves.stays hkeeps (goesOn_else he)
  change StmtMoves _ _ _ _ _ _ ((t.readAll (some e.token) as).readAll next (e :: bs))
  generalize t.readAll (some e.token) as = u at hmoved ⊢
  -- `else`
  have hu : Beside s u := hb.trans hmoved.beside
  have hau : Adds s u (0 + yes.scopes) ([(x, sees x)] ++ yes.refers sees t.scopes.size) :=
    ha.trans hmoved.adds
  rw [readAll, step_else (hu.frames.ready h.ready) hmoved.opening he]
  let v : Tracker := { u with closedHeader := false, before := e :: u.before }
  have hv : Beside s v := hu.trans ⟨rfl, rfl, rfl⟩
  have hav : Adds s v yes.scopes ((x, sees x) :: yes.refers sees s.scopes.size) := by
    have hsize : t.scopes.size = s.scopes.size := ha.size
    rw [Nat.zero_add, hsize] at hau
    exact hau.congr rfl rfl
  have hoperand : e.token.endsOperand = false := by
    simp [Token.endsOperand, he.kind, Word.keyword, Keyword.isOperand]
  -- the statement after it
  have hlast := ihNo (s := v) ⟨hv.frames.ready h.ready, ⟨e, _, rfl, .inr he.kind⟩,
    hv.holds h.holds, hv.current ▸ h.sees.adds hav, hbs,
    fun site hmem => harrows site (.inr (.inr hmem)),
    fun _ _ => calm_of_not_operand rfl hoperand, hno⟩
  exact hv.moves hav hlast (fun _ => id) id rfl rfl

/-- What holds at the start of statements between braces. -/
structure ListStarts (l : List Stmt) (sees : String → Option ScopeId) (sites : List Site)
    (s : Tracker) : Prop where
  ready : Ready s
  opening : Opening s.before
  holds : Holds s [] s.openBodies
  sees : Sees s s.current sees
  closed : s.closedHeader = false
  spells : Spells sites (Stmt.listWords l)
  arrows : ∀ site ∈ sites, site.beforeArrow = false
  endsWell : Stmt.listEndsWell l = true

/-- What statements between braces do. -/
def ListMoves (l : List Stmt) (sees : String → Option ScopeId) (s t : Tracker) : Prop :=
  Moved s t s.current s.openBodies (Stmt.listScopes l) (Stmt.listRefers sees s.scopes.size l)

/-- The braces of a block are closed, and a body without braces may end with them. -/
lemma moved_endBlock {next : Option Token} {restore : ScopeId} {w : Tracker} {c : Site} {a : Nat}
    {f : List (String × Option ScopeId)} (hs : Ready s) (hh : Holds s bodies around)
    (hw : w = { s with
      scopes := w.scopes, inside := w.inside, occurrences := w.occurrences, before := w.before
      current := restore, closedHeader := false })
    (hadds : Adds s w a f) (hc : (Word.punct "\x7d").At c)
    (ht : t = { w.endBlock next with before := c :: w.before }) :
    (bodies.length ≤ (if goesOn next then 0 else 1) →
      Moved s t (scopeAround restore bodies) around a f) ∧
    (goesOn next = true → Moved s t restore s.openBodies a f) := by
  have hready : Ready w := by
    rw [hw]
    exact hs.of_eq rfl
  have hholds : Holds w bodies around := by
    rw [hw]
    exact ⟨hh.open_eq, hh.here, hh.outside⟩
  have hopening : Opening (c :: w.before) := opening_punct hc (by simp)
  have hsame (h : goesOn next = true ∨ bodies = []) : Moved s t restore s.openBodies a f := by
    rw [endBlock_eq_self hready hholds h] at ht
    rw [ht]
    refine ⟨?_, hadds.congr rfl rfl, hopening⟩
    rw [hw]
  refine ⟨fun hlen => ?_, fun hgo => hsame (.inl hgo)⟩
  have hnil (hnil : bodies = []) : Moved s t (scopeAround restore bodies) around a f := by
    have h := hsame (.inr hnil)
    rw [hh.open_eq, hnil] at h
    rwa [hnil]
  cases hgo : goesOn next with
  | true =>
    rw [hgo] at hlen
    exact hnil (List.eq_nil_of_length_eq_zero (Nat.le_zero.mp hlen))
  | false =>
    rw [hgo] at hlen
    rcases bodies with - | ⟨b, - | ⟨b', bodies⟩⟩
    · exact hnil rfl
    · rw [endBlock_of_single hready hholds hgo] at ht
      rw [ht]
      refine ⟨?_, hadds.congr rfl rfl, hopening⟩
      rw [hw]
      rfl
    · simp only [List.length_cons, Bool.false_eq_true, if_false] at hlen
      omega

/-- From inside the braces of a block to the site after them. -/
lemma moves_braces (next : Option Token) (restore : ScopeId) {l : List Stmt} {o c : Site}
    (hs : Ready s)
    (hh : Holds s bodies around) (hsees : Sees s s.current sees)
    (ho : (Word.punct "\x7b").At o) (hc : (Word.punct "\x7d").At c)
    (hspells : Spells sites (Stmt.listWords l)) (harrows : ∀ site ∈ sites, site.beforeArrow = false)
    (hwell : Stmt.listEndsWell l = true)
    (ih : ∀ {s : Tracker}, ListStarts l sees sites s →
      ListMoves l sees s (s.readAll (some c.token) sites)) :
    let t := ((s.inBlock restore o).readAll (some c.token) sites).step c next
    (bodies.length ≤ (if goesOn next then 0 else 1) →
      Moved s t (scopeAround restore bodies) around (Stmt.listScopes l + 1)
        (Stmt.listRefers sees (s.scopes.size + 1) l)) ∧
    (goesOn next = true →
      Moved s t restore s.openBodies (Stmt.listScopes l + 1)
        (Stmt.listRefers sees (s.scopes.size + 1) l)) := by
  intro t
  let e := s.inBlock restore o
  obtain ⟨hadds, hin⟩ := enter_adds (t := e) hsees rfl rfl
  have hstarts : ListStarts l sees sites e := by
    refine ⟨hs.inBlock restore o, ?_, ?_, hin, rfl, hspells, harrows, hwell⟩
    · exact opening_punct ho (by simp)
    · exact ⟨rfl, List.forall_mem_nil _, fun b hb => Nat.lt_succ_of_le (hh.le b hb)⟩
  have hlist := ih hstarts
  unfold ListMoves at hlist
  have hall : Adds s (e.readAll (some c.token) sites) (Stmt.listScopes l + 1)
      (Stmt.listRefers sees (s.scopes.size + 1) l) := by
    have h := hadds.trans hlist.adds
    rwa [Nat.add_comm, List.nil_append, hadds.size] at h
  have hclose := step_closeBlock next restore o (e.readAll (some c.token) sites).scopes
    (e.readAll (some c.token) sites).inside (e.readAll (some c.token) sites).occurrences
    (e.readAll (some c.token) sites).before hs hh hc
  have hinside : e.readAll (some c.token) sites = { s.inBlock restore o with
      scopes := (e.readAll (some c.token) sites).scopes
      inside := (e.readAll (some c.token) sites).inside
      occurrences := (e.readAll (some c.token) sites).occurrences
      before := (e.readAll (some c.token) sites).before } := hlist.state
  rw [← hinside] at hclose
  let w : Tracker := { s with
    scopes := (e.readAll (some c.token) sites).scopes
    inside := (e.readAll (some c.token) sites).inside
    occurrences := (e.readAll (some c.token) sites).occurrences
    before := (e.readAll (some c.token) sites).before
    current := restore, closedHeader := false }
  exact moved_endBlock (w := w) hs hh rfl (hall.congr rfl rfl) hc hclose

lemma spells_braces {ws : List Word}
    (h : Spells sites (.punct "\x7b" :: (ws ++ [.punct "\x7d"]))) :
    ∃ o inner c, sites = o :: (inner ++ [c]) ∧ (Word.punct "\x7b").At o ∧ Spells inner ws ∧
      (Word.punct "\x7d").At c := by
  obtain ⟨o, rest, ho, hrest, rfl⟩ := List.forall₂_cons_right_iff.mp h
  obtain ⟨inner, last, rfl, hinner, hlast⟩ := spells_append hrest
  obtain ⟨c, others, hc, hothers, rfl⟩ := List.forall₂_cons_right_iff.mp hlast
  cases hothers
  exact ⟨o, inner, c, rfl, ho, hinner, hc⟩

lemma readAll_braces (s : Tracker) (next : Option Token) (o c : Site) (inner : List Site) :
    ∃ n, s.readAll next (o :: (inner ++ [c]))
      = ((s.step o n).readAll (some c.token) inner).step c next := by
  refine ⟨(((inner ++ [c]).head?.map Site.token).or next), ?_⟩
  rw [readAll, readAll_append]
  rfl

lemma le_of_closes {S : Stmt} {k : Nat} {goesOn : Bool} (hb : S.endsBraced = true)
    (h : S.closes k goesOn = true) : k + S.bodiesEnding ≤ if goesOn then 0 else 1 := by
  simpa [Stmt.closes, hb] using h

lemma moves_block {l : List Stmt} (h : Starts (.block l) sees bodies around sites s)
    (ih : ∀ {s : Tracker} {sites : List Site} {t : Token}, goesOn (some t) = false →
      ListStarts l sees sites s → ListMoves l sees s (s.readAll (some t) sites)) :
    StmtMoves (.block l) sees bodies around next s (s.readAll next sites) := by
  obtain ⟨o, inner, c, rfl, ho, hinner, hc⟩ := spells_braces h.spells
  obtain ⟨n, hread⟩ := readAll_braces s next o c inner
  have hgo : goesOn (some c.token) = false := goesOn_punct hc
  have harrows : ∀ site ∈ inner, site.beforeArrow = false :=
    fun site hmem => h.arrows site (.tail _ (List.mem_append_left _ hmem))
  rw [hread, step_openBlock h.ready h.opening ho (h.calm o rfl)]
  obtain ⟨hends, hstays⟩ := moves_braces next s.current h.ready h.holds
    h.sees ho hc hinner harrows h.endsWell (ih hgo)
  exact ⟨fun hcloses => hends (le_of_closes rfl hcloses), fun _ => hstays⟩

lemma scopeAround_cons (current : ScopeId) (b : OpenBody) (bodies : List OpenBody) :
    scopeAround current (b :: bodies) = scopeAround b.restore bodies := by
  cases bodies <;> rfl

lemma closes_loop {x y : String} {body : Stmt} (h : body.isBlock = false) {k : Nat}
    {goesOn : Bool} :
    (Stmt.loop x y body).closes k goesOn = body.closes (k + 1) goesOn := by
  have hsum : k + (body.bodiesEnding + 1) = k + 1 + body.bodiesEnding := by omega
  simp [Stmt.closes, Stmt.endsBraced, Stmt.bodiesEnding, h, hsum]

/-- A loop whose body has no braces goes before an `else` only if its body ends with a semicolon,
and there are no bodies around it. -/
lemma of_keeps_loop {x y : String} {body : Stmt} (h : body.isBlock = false) {k : Nat}
    (hk : (Stmt.loop x y body).keeps k = true) : k = 0 ∧ body.endsBraced = false := by
  simp only [Stmt.keeps, Stmt.endsBraced, Stmt.bodiesEnding, h] at hk
  cases hbraced : body.endsBraced with
  | true => simp [hbraced] at hk
  | false => exact ⟨by simpa [hbraced] using hk, rfl⟩

def afterHead (s : Tracker) (a b : Site) (before : List Site) : Tracker :=
  { s.headed a b with
    pendingBody := some ⟨.loop, s.current⟩, closedHeader := true, before := before }

/-- Before a loop no body was pending, so none is left when its own has begun. -/
lemma begun_afterHead (hs : Ready s) (a b : Site) (before : List Site) (bodies : List OpenBody) :
    ({ s.afterHead a b before with pendingBody := none, openBodies := bodies } : Tracker)
      = { s.headed a b with closedHeader := true, before := before, openBodies := bodies } :=
  congrArg (fun p => ({ s.headed a b with
    closedHeader := true, before := before, pendingBody := p, openBodies := bodies } : Tracker))
    hs.pendingBody.symm

section body

variable {x y : String} {a b : Site} {before : List Site}

/-- A body in braces goes back to the scope around the loop. -/
lemma moves_loop_block {l : List Stmt} (hs : Ready s) (hh : Holds s bodies around)
    (hsees : Sees s s.current sees) (ha : a.token.text = x) (hb : b.token.text = y)
    (hspells : Spells sites (Stmt.block l).words)
    (harrows : ∀ site ∈ sites, site.beforeArrow = false) (hwell : Stmt.listEndsWell l = true)
    (ih : ∀ {sees : String → Option ScopeId} {s : Tracker} {sites : List Site} {t : Token},
      goesOn (some t) = false → ListStarts l sees sites s →
      ListMoves l sees s (s.readAll (some t) sites)) :
    StmtMoves (.loop x y (.block l)) sees bodies around next s
      ((s.afterHead a b before).readAll next sites) := by
  obtain ⟨o, inner, c, rfl, ho, hinner, hc⟩ := spells_braces hspells
  obtain ⟨n, hread⟩ := readAll_braces (s.afterHead a b before) next o c inner
  have hgo : goesOn (some c.token) = false := goesOn_punct hc
  have harrows : ∀ site ∈ inner, site.beforeArrow = false :=
    fun site hmem => harrows site (.tail _ (List.mem_append_left _ hmem))
  let t : Tracker := { s.headed a b with closedHeader := true, before := before }
  have ht : SameFrames s t := rfl
  obtain ⟨hadds, hin⟩ := headed_adds (t := t) hsees ha hb rfl rfl
  have hbegun : ({ s.afterHead a b before with pendingBody := none } : Tracker) = t :=
    begun_afterHead hs a b before s.openBodies
  rw [hread, step_openBody rfl rfl ho, hbegun]
  obtain ⟨hends, hstays⟩ := moves_braces (s := t) next s.current (ht.ready hs)
    ⟨hh.open_eq, hh.here, hh.outside⟩ hin ho hc hinner harrows hwell (ih hgo)
  rw [hadds.size] at hends hstays
  have hscopes : (Stmt.loop x y (.block l)).scopes = 1 + (Stmt.listScopes l + 1) :=
    Nat.add_comm _ _
  refine ⟨fun hcloses => ?_, fun _ hgoes => ?_⟩
  · rw [hscopes]
    exact ht.moved hadds (hends (le_of_closes rfl hcloses))
  · rw [hscopes]
    exact ht.moved hadds (hstays hgoes)

/-- A body without braces is one more that the last word of the loop ends. -/
lemma moves_loop_open {body : Stmt} (hblock : body.isBlock = false) (hs : Ready s)
    (hopening : Opening before) (hh : Holds s bodies around) (hsees : Sees s s.current sees)
    (ha : a.token.text = x) (hb : b.token.text = y) (hspells : Spells sites body.words)
    (harrows : ∀ site ∈ sites, site.beforeArrow = false)
    (hwell : body.endsWell (bodies.length + 1) = true)
    (ih : ∀ {s : Tracker} {sees : String → Option ScopeId} {sites : List Site}
      {bodies around : List OpenBody}, Starts body sees bodies around sites s →
      StmtMoves body sees bodies around next s (s.readAll next sites)) :
    StmtMoves (.loop x y body) sees bodies around next s
      ((s.afterHead a b before).readAll next sites) := by
  obtain ⟨w, ws, hw, hkind⟩ := words_of_not_block hblock
  have hwords := hspells
  rw [hw] at hwords
  obtain ⟨first, rest, hfirst, hrest, rfl⟩ := List.forall₂_cons_right_iff.mp hwords
  have hnot : first.token.kind ≠ .punctuator := fun h => hkind (hfirst.kind ▸ h)
  -- the state in which the first word of the body is read
  let body' : OpenBody := ⟨s.depth, s.current, false⟩
  let e : Tracker := { s.headed a b with
    closedHeader := true, before := before, openBodies := body' :: s.openBodies }
  have hbegun : ({ s.afterHead a b before with
      pendingBody := none, openBodies := body' :: s.openBodies } : Tracker) = e :=
    begun_afterHead hs a b before (body' :: s.openBodies)
  have hread : (s.afterHead a b before).readAll next (first :: rest)
      = e.readAll next (first :: rest) := by
    rw [readAll, step_begun s.current rfl rfl hnot, ← hbegun]
    rfl
  rw [hread]
  have he : SameFrames s e := rfl
  obtain ⟨hadds, hin⟩ := headed_adds (t := e) hsees ha hb rfl rfl
  have hholds : Holds e (body' :: bodies) around := by
    refine ⟨by rw [List.cons_append, ← hh.open_eq], fun b hb => ?_, hh.outside⟩
    rcases List.mem_cons.mp hb with rfl | hb
    · exact ⟨rfl, rfl⟩
    · exact hh.here b hb
  have hmoves := ih (s := e) ⟨he.ready hs, hopening, hholds, hin, hspells, harrows,
    fun _ _ => .inl rfl, hwell⟩
  have hends (hcloses : body.closes (bodies.length + 1) (goesOn next) = true) :
      Moved s (e.readAll next (first :: rest)) (scopeAround s.current bodies) around
        (Stmt.loop x y body).scopes ((Stmt.loop x y body).refers sees s.scopes.size) := by
    have hmoved := hmoves.ends hcloses
    have hsize : e.scopes.size = s.scopes.size + 1 := hadds.size
    rw [scopeAround_cons, hsize] at hmoved
    rw [Stmt.scopes, Nat.add_comm]
    exact he.moved hadds hmoved
  refine ⟨fun hcloses => hends (closes_loop hblock ▸ hcloses), fun hkeeps _ => ?_⟩
  obtain ⟨hnone, hbraced⟩ := of_keeps_loop hblock hkeeps
  refine (hends ?_).of_nil hh (List.eq_nil_of_length_eq_zero hnone)
  simp [Stmt.closes, hbraced]

end body

/-- `for (let x of y) body`. -/
lemma moves_loop {x y : String} {body : Stmt}
    (h : Starts (.loop x y body) sees bodies around sites s)
    (ihList : ∀ {l : List Stmt} {sees : String → Option ScopeId} {s : Tracker} {sites : List Site}
      {t : Token}, body = .block l → goesOn (some t) = false →
      ListStarts l sees sites s → ListMoves l sees s (s.readAll (some t) sites))
    (ih : ∀ {s : Tracker} {sees : String → Option ScopeId} {sites : List Site}
      {bodies around : List OpenBody}, Starts body sees bodies around sites s →
      StmtMoves body sees bodies around next s (s.readAll next sites)) :
    StmtMoves (.loop x y body) sees bodies around next s (s.readAll next sites) := by
  have hspells := h.spells
  rw [Stmt.words] at hspells
  obtain ⟨xs, ys, rfl, hxs, hys⟩ := spells_append hspells
  have harrows : ∀ site ∈ ys, site.beforeArrow = false :=
    fun site hmem => h.arrows site (List.mem_append_right _ hmem)
  obtain ⟨a, b, before, ha, hb, hopening, hhead⟩ := readAll_forHead
    ((ys.head?.map Site.token).or next) h.ready h.opening h.holds hxs (calm_head h.calm)
  have hwell := h.endsWell
  rw [Stmt.endsWell] at hwell
  rw [readAll_append, hhead]
  cases hblock : body.isBlock with
  | true =>
    obtain ⟨l, rfl⟩ : ∃ l, body = .block l := by
      cases body with
      | block l => exact ⟨l, rfl⟩
      | _ => cases hblock
    exact moves_loop_block h.ready h.holds h.sees ha hb hys harrows hwell
      fun hgo hl => ihList rfl hgo hl
  | false =>
    rw [hblock] at hwell
    exact moves_loop_open hblock h.ready hopening h.holds h.sees ha hb hys harrows hwell ih

lemma moves_cons {S : Stmt} {rest : List Stmt} (h : ListStarts (S :: rest) sees sites s)
    (hnext : goesOn next = false)
    (ih : ∀ {sites : List Site} {next : Option Token}, Starts S sees [] s.openBodies sites s →
      StmtMoves S sees [] s.openBodies next s (s.readAll next sites))
    (ihRest : ∀ {s : Tracker} {sites : List Site}, ListStarts rest sees sites s →
      ListMoves rest sees s (s.readAll next sites)) :
    ListMoves (S :: rest) sees s (s.readAll next sites) := by
  have hwell := h.endsWell
  simp only [Stmt.listEndsWell, Bool.and_eq_true] at hwell
  obtain ⟨⟨hcloses, hS⟩, hrest⟩ := hwell
  have hspells := h.spells
  rw [Stmt.listWords] at hspells
  obtain ⟨xs, ys, rfl, hxs, hys⟩ := spells_append hspells
  have hgo := goesOn_list hys hnext
  rw [readAll_append]
  have hmoves : StmtMoves S sees [] s.openBodies ((ys.head?.map Site.token).or next) s
      (s.readAll ((ys.head?.map Site.token).or next) xs) :=
    ih ⟨h.ready, h.opening, h.holds, h.sees, hxs,
      fun site hmem => h.arrows site (List.mem_append_left _ hmem),
      fun _ _ => calm_of_holds_nil h.ready h.holds, hS⟩
  have hmoved : Moved s (s.readAll ((ys.head?.map Site.token).or next) xs) s.current s.openBodies
      S.scopes (S.refers sees s.scopes.size) :=
    hmoves.ends (by rw [hgo]; exact hcloses)
  generalize s.readAll _ xs = t at hmoved ⊢
  have hb := hmoved.beside
  have hlast := ihRest (s := t) ⟨hb.frames.ready h.ready, hmoved.opening,
    hb.openBodies ▸ hb.holds h.holds, hb.current ▸ h.sees.adds hmoved.adds,
    congrArg Tracker.closedHeader hmoved.state, hys,
    fun site hmem => h.arrows site (List.mem_append_right _ hmem), hrest⟩
  unfold ListMoves at hlast ⊢
  rw [hb.current, hb.openBodies, hmoved.adds.size] at hlast
  exact hb.frames.moved hmoved.adds hlast

lemma moves_nil (h : ListStarts [] sees sites s) : ListMoves [] sees s (s.readAll next sites) := by
  have hspells := h.spells
  cases hspells
  exact ⟨congrArg (fun closed => ({ s with closedHeader := closed } : Tracker)) h.closed,
    .of_eq rfl rfl, h.opening⟩

mutual

/-- What the tracker does at a statement whose bodies end well. -/
theorem moves_stmt : ∀ (S : Stmt) {sees : String → Option ScopeId} {bodies around : List OpenBody}
    {next : Option Token} {sites : List Site} {s : Tracker},
    Starts S sees bodies around sites s →
    StmtMoves S sees bodies around next s (s.readAll next sites)
  | .use _, _, _, _, _, _, _, h => moves_use h
  | .block l, _, _, _, _, _, _, h => moves_block h fun hgo hl => moves_list l hgo hl
  | .cond _ yes, _, _, _, _, _, _, h =>
    moves_headed (.inl rfl) h rfl h.endsWell (fun _ => id) id (Nat.zero_add _).symm rfl
      fun hs => moves_stmt yes hs
  | .branch _ yes no, _, _, _, _, _, _, h =>
    moves_branch h (fun hs => moves_stmt yes hs) fun hs => moves_stmt no hs
  | .repeats _ body, _, _, _, _, _, _, h =>
    moves_headed (.inr rfl) h rfl h.endsWell (fun _ => id) id (Nat.zero_add _).symm rfl
      fun hs => moves_stmt body hs
  | .loop _ _ body, _, _, _, _, _, _, h =>
    moves_loop h (fun _hl hgo hs => moves_list _ hgo hs) fun hs => moves_stmt body hs

theorem moves_list : ∀ (l : List Stmt) {sees : String → Option ScopeId} {next : Option Token}
    {sites : List Site} {s : Tracker}, goesOn next = false → ListStarts l sees sites s →
    ListMoves l sees s (s.readAll next sites)
  | [], _, _, _, _, _, h => moves_nil h
  | S :: rest, _, _, _, _, hnext, h =>
    moves_cons h hnext (fun hs => moves_stmt S hs) fun hl => moves_list rest hnext hl

end

end Tracker

end Minify
