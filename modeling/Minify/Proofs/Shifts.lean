import Mathlib.Tactic.Common
import Minify.Proofs.ClosingBrace
import Minify.Proofs.TreeShape

/-!
What one token does to the place where the tracker stands.

The tracker stands in a scope, and frames, bodies without braces and the body whose header has been
read say which scopes it goes back to. A token goes into a scope inside the current one, and then
something new gives back the scope it was in; or something ends, and gives its scope back; or it
moves nothing. That is all that any token does, and each invariant of the place is a matter of these
few moves.
-/

namespace Minify.Tracker

/-- What a frame is for, the scope it gives back, and whether it holds a pattern. -/
def Frame.seat (f : Frame) : (FrameKind × ScopeId) × Bool := (f.mark, f.pattern.isSome)

def seats (s : Tracker) : List ((FrameKind × ScopeId) × Bool) := (s.top :: s.outer).map Frame.seat

/-- In the tree of the last tracker, a scope of a kind lies right inside another one. -/
structure Child (last : Tracker) (around : ScopeId) (kind : ScopeKind) (id : ScopeId) : Prop where
  exists_scope : ∃ sc, last.scopes[id]? = some sc ∧ sc.parent = some around ∧ sc.kind = kind
  lt : around < id

/-- A function or a catch clause with a scope waits for its name or its parameters. -/
def Waits (s : Tracker) (id : ScopeId) : Prop :=
  s.nextParams = some id ∨ (∃ declaration, s.functionName = some (id, declaration)) ∨
    s.catchScope = some id

/-- The tracker stands where it stood. -/
structure Rests (s t : Tracker) : Prop where
  current : t.current = s.current
  pendingBody : t.pendingBody = s.pendingBody
  seats : t.seats = s.seats
  openBodies : t.openBodies = s.openBodies

/-- A header without parentheses has been read, and its scope is the current one. -/
structure Enters (last s t : Tracker) (kind : ScopeKind) (body : BodyKind) : Prop where
  none : s.pendingBody = none
  kinds : kind = .function ∧ body = .function ∨ kind = .catchClause ∧ body = .catchClause
  child : Child last s.current kind t.current
  pendingBody : t.pendingBody = some ⟨body, s.current⟩
  seats : t.seats = s.seats
  openBodies : t.openBodies = s.openBodies

/-- Bodies without braces end, the innermost first. -/
structure Ends (s t : Tracker) (ended : List OpenBody) : Prop where
  openBodies : s.openBodies = ended ++ t.openBodies
  depth : ∀ b ∈ ended, s.depth ≤ b.depth
  current : t.current = (ended.getLast?.map OpenBody.restore).getD s.current
  pendingBody : t.pendingBody = s.pendingBody
  seats : t.seats = s.seats

/-- How a frame has been opened, and the scope that comes with it. -/
inductive FrameOpens (last : Tracker) (site : Site) (s : Tracker) (f : Frame) (t : Tracker) : Prop
  | plain (hn : s.pendingBody = none) (hf : f.restore = s.current)
      (hk : f.kind ≠ .functionBody ∧ f.kind ≠ .params) (hc : t.current = s.current)
  | block (hn : s.pendingBody = none) (hf : f.restore = s.current)
      (hk : f.kind ≠ .functionBody ∧ f.kind ≠ .params) (hc : Child last s.current .block t.current)
  | params (hn : s.pendingBody = none) (hf : f.restore = s.current) (hk : f.kind = .params)
      (hc : s.nextParams = some t.current ∨ Child last s.current .function t.current)
  | clause (hn : s.pendingBody = none) (hf : f.restore = s.current) (hk : f.kind = .catchParam)
      (hsite : site.token.isPunct "(" = true) (hparams : s.nextParams = none)
      (hprev : prevKeyword? s.before = some .kwCatch) (hc : s.catchScope = some t.current)
  | body {b : PendingBody} (h : s.pendingBody = some b) (hf : f.restore = b.restore)
      (hk : f.kind = if b.kind = .function then .functionBody else .block)
      (hc : t.current = s.current ∨ b.kind = .loop ∧ Child last s.current .block t.current)

/-- What remains when the innermost frame is closed: the scope to stand in, and the body that comes
next. -/
inductive FrameCloses (s t : Tracker) : Prop
  | braces (hk : s.top.hasScope) (hp : t.pendingBody = s.pendingBody)
      (hc : t.current = (s.bodiesInside.getLast?.map OpenBody.restore).getD s.top.restore)
  | head {body : BodyKind} (hk : s.top.kind = .params ↔ body = .function)
      (hk' : s.top.kind ≠ .functionBody)
      (hp : t.pendingBody = some ⟨body, s.top.restore⟩)
      (hc : t.current = (s.bodiesInside.getLast?.map OpenBody.restore).getD s.current)
  | plain (hk : s.top.kind ≠ .functionBody ∧ s.top.kind ≠ .params)
      (hp : t.pendingBody = s.pendingBody)
      (hc : t.current = (s.bodiesInside.getLast?.map OpenBody.restore).getD s.current)

/-- What becomes of the body whose header has been read. -/
inductive Begins (s t : Tracker) : Prop
  | rests (h : Rests s t)
  /-- It has no braces. -/
  | bare {b : PendingBody} (h : s.pendingBody = some b) (hk : b.kind ≠ .catchClause)
      (hp : t.pendingBody = none)
      (hb : t.openBodies = ⟨s.depth, b.restore, decide (b.kind = .function)⟩ :: s.openBodies)
      (hc : t.current = s.current) (hs : t.seats = s.seats)
  /-- There is none. -/
  | missing {b : PendingBody} (h : s.pendingBody = some b) (hp : t.pendingBody = none)
      (hb : t.openBodies = s.openBodies) (hc : t.current = b.restore) (hs : t.seats = s.seats)

/-- A move of the tracker, in view of the scopes of the last tracker. -/
inductive Shift (last : Tracker) (site : Site) (s t : Tracker) : Prop
  | rests (h : Rests s t)
  | ends {ended : List OpenBody} (hn : s.pendingBody = none) (h : Ends s t ended)
  | begins {restore : ScopeId} (hb : s.pendingBody = some ⟨.function, restore⟩) (h : Begins s t)
  | enters {kind : ScopeKind} {body : BodyKind} (h : Enters last s t kind body)
  | opens {f : Frame} (h : FrameOpens last site s f t) (hf : f.kind = .functionBody →
    f.pattern = none)
      (hp : t.pendingBody = none) (hb : t.openBodies = s.openBodies)
      (hs : t.seats = f.seat :: s.seats)
  | closes (hsite : ∃ c, Site.bracket site.token = .closes c) (hn : s.pendingBody = none)
      (h : FrameCloses s t) (ho : s.outer ≠ [])
      (hb : t.openBodies = bodiesBelow s.depth s.openBodies) (hs : t.seats = s.seats.tail)

variable {last s t u : Tracker} {site : Site} {next : Option Token}

lemma stack_eq_seats : s.stack = s.seats.map Prod.fst := by
  unfold stack seats
  rw [List.map_map]
  rfl

lemma length_seats : s.seats.length = s.depth := by
  simp [seats, depth]

lemma Rests.refl (s : Tracker) : Rests s s := ⟨rfl, rfl, rfl, rfl⟩

lemma Rests.trans (h : Rests s t) (h' : Rests t u) : Rests s u :=
  ⟨h'.current.trans h.current, h'.pendingBody.trans h.pendingBody, h'.seats.trans h.seats,
    h'.openBodies.trans h.openBodies⟩

lemma Rests.ends (h : Rests s t) : Ends s t [] :=
  ⟨h.openBodies.symm, fun _ hb => absurd hb List.not_mem_nil, h.current, h.pendingBody, h.seats⟩

lemma Shift.refl (last : Tracker) (site : Site) (s : Tracker) : Shift last site s s :=
    .rests (.refl s)

lemma seats_setTop {f : Frame → Frame} (hf : ∀ x, (f x).seat = x.seat) :
    (s.setTop f).seats = s.seats := by
  simp [seats, setTop, hf]

lemma rests_setTop {f : Frame → Frame} (hf : ∀ x, (f x).seat = x.seat) : Rests s (s.setTop f) :=
  ⟨rfl, rfl, seats_setTop hf, rfl⟩

lemma seat_expectName (f : Frame) (expect : Bool) : (f.expectName expect).seat = f.seat := by
  simp [Frame.seat, Frame.mark, Frame.expectName]

lemma child_of_push {kind : ScopeKind}
    (ht : t.scopes = s.scopes.push ⟨some s.current, kind, [], false⟩) (hk : Keeps t last)
    (hs : Bounded s) : Child last s.current kind s.scopes.size := by
  have hget : t.scopes[s.scopes.size]? = some ⟨some s.current, kind, [], false⟩ := by
    rw [ht]
    exact Array.getElem?_push_size
  obtain ⟨sc, hsc, hparent, hkind⟩ := hk _ _ hget
  exact ⟨⟨sc, hsc, hparent, hkind⟩, hs.live _ .current⟩

/-! ### Bodies without braces -/

lemma exists_ends {comma : Bool}
    (hb : t.openBodies = (endBodies s.depth comma s.current s.openBodies).2)
    (hc : t.current = (endBodies s.depth comma s.current s.openBodies).1)
    (hp : t.pendingBody = s.pendingBody) (hs : t.seats = s.seats) : ∃ ended, Ends s t ended := by
  obtain ⟨ended, hsplit, hdepth, hcurrent⟩ := endBodies_split s.depth comma s.current s.openBodies
  exact ⟨ended, hb ▸ hsplit, hdepth, hc.trans hcurrent, hp, hs⟩

lemma begins_beginBody (t : Token) : Begins s (s.beginBody t) := by
  have h := beginBody_cases s t
  generalize s.beginBody t = u at h ⊢
  cases h with
  | waits => exact .rests (.refl s)
  | opens hb hk => exact .bare hb (by simp [hk]) rfl (by simp [hk, depth]) rfl rfl
  | missing hb => exact .missing hb rfl rfl rfl rfl

lemma shift_arrow (next : Option Token) : Shift last site s (s.arrow next) := by
  have h := arrow_cases s next
  generalize s.arrow next = t at h ⊢
  cases h with
  | same => exact .refl _ _ _
  | begins hb => exact .begins hb (.bare hb nofun rfl (by simp [depth]) rfl rfl)

lemma ends_endStatement (s : Tracker) : ∃ ended, Ends s s.endStatement ended := by
  have hseats : s.endStatement.seats = s.seats := seats_setTop fun _ => rfl
  exact exists_ends (rfl : _ = (endBodies s.depth false s.current s.openBodies).2) rfl rfl hseats

/-! ### Words -/

lemma rests_takeSlot {kind : DeclKind} (h : s.takeSlot = some (kind, t)) : Rests s t := by
  cases takeSlot_cases h with
  | pattern => exact rests_setTop fun x => seat_expectName x false
  | list => exact ⟨rfl, rfl, rfl, rfl⟩

lemma rests_declare (site : Site) (kind : DeclKind) (shorthand : Bool) :
    Rests s (s.declare site kind shorthand) := by
  cases kind <;> exact ⟨rfl, rfl, rfl, rfl⟩

lemma rests_abandonDeclaration : Rests s s.abandonDeclaration := by
  unfold abandonDeclaration
  split <;> exact ⟨rfl, rfl, rfl, rfl⟩

/-- What a word does: it moves nothing, or it is a header without parentheses. -/
def Moves (last s t : Tracker) : Prop := Rests s t ∨ ∃ kind body, Enters last s t kind body

lemma Moves.shift (h : Moves last s t) : Shift last site s t :=
  h.elim .rests fun ⟨_, _, h⟩ => .enters h

lemma Moves.after (h : Rests s t) (h' : Moves last t u) : Moves last s u := by
  rcases h' with h' | ⟨kind, body, h'⟩
  · exact .inl (h.trans h')
  · refine .inr ⟨kind, body, ?_, h'.kinds, h.current ▸ h'.child, ?_, h'.seats.trans h.seats,
      h'.openBodies.trans h.openBodies⟩
    · rw [← h.pendingBody, h'.none]
    · rw [h'.pendingBody, h.current]

lemma Moves.rests (h : Moves last s t) (h' : Rests t u) : Moves last s u := by
  rcases h with h | ⟨kind, body, h⟩
  · exact .inl (h.trans h')
  · refine .inr ⟨kind, body, h.none, h.kinds, h'.current ▸ h.child, ?_, h'.seats.trans h.seats,
      h'.openBodies.trans h.openBodies⟩
    rw [h'.pendingBody, h.pendingBody]

/-- The header of a function or a catch clause without parentheses. -/
lemma enters_enter {kind : ScopeKind} {body : BodyKind}
    (hk : kind = .function ∧ body = .function ∨ kind = .catchClause ∧ body = .catchClause)
    (hn : s.pendingBody = none) (hb : Bounded s)
    (hl : Keeps { s.enter kind with pendingBody := some ⟨body, s.current⟩ } last) :
    Moves last s { s.enter kind with pendingBody := some ⟨body, s.current⟩ } :=
  .inr ⟨kind, body, hn, hk, child_of_push rfl hl hb, rfl, rfl, rfl⟩

lemma moves_key (hn : s.pendingBody = none) (hb : Bounded s) (hl : Keeps (s.key site next) last) :
    Moves last s (s.key site next) := by
  have hkey : Rests s (s.setTop fun f => { f with atKey := false }) := rests_setTop fun _ => rfl
  have h := key_cases s site next
  generalize s.key site next = t at h hl ⊢
  cases h with
  | staticBlock =>
    exact (enters_enter (.inl ⟨rfl, rfl⟩) hn hb hl).rests (rests_setTop fun _ => rfl)
  | modifier => exact .inl (.refl s)
  | method => exact .inl (hkey.trans ⟨rfl, rfl, rfl, rfl⟩)
  | binding => exact .inl (hkey.trans (rests_declare _ _ _))
  | shorthand => exact .inl (hkey.trans ⟨rfl, rfl, rfl, rfl⟩)
  | plain => exact .inl hkey

lemma moves_keyword (hn : s.pendingBody = none) (hb : Bounded s) (k : Keyword)
    (hl : Keeps (s.keyword site next k) last) : Moves last s (s.keyword site next k) := by
  have h := keyword_cases s site next k
  generalize s.keyword site next k = t at h hl ⊢
  cases h with
  | catchBody => exact enters_enter (.inr ⟨rfl, rfl⟩) hn hb hl
  | _ => exact .inl ⟨rfl, rfl, rfl, rfl⟩

lemma rests_nameFunction (site : Site) (scope : ScopeId) (declaration : Bool) :
    Rests s (s.nameFunction site scope declaration) := by
  unfold nameFunction
  dsimp only
  split <;> exact ⟨rfl, rfl, rfl, rfl⟩

lemma moves_identifier (hn : s.pendingBody = none) (hb : Bounded s)
    (hl : Keeps (s.identifier site next) last) : Moves last s (s.identifier site next) := by
  have h := identifier_cases s site next
  generalize s.identifier site next = t at h hl ⊢
  cases h with
  | classDeclaration => exact .inl (rests_declare _ _ _)
  | functionName => exact .inl (rests_nameFunction _ _ _)
  | parameter =>
    -- the parameter of an arrow, in the scope of its own
    have hkeeps : Keeps { s.enter .function with
        pendingBody := some ⟨.function, s.current⟩ } last :=
      (keeps_declareIn _ _ _ _ _).trans hl
    exact (enters_enter (.inl ⟨rfl, rfl⟩) hn hb hkeeps).rests (rests_declare _ _ _)
  | _ => exact .inl ⟨rfl, rfl, rfl, rfl⟩

lemma moves_word (hn : s.pendingBody = none) (hb : Bounded s)
    (hl : Keeps (s.word site next) last) : Moves last s (s.word site next) := by
  have habandon : Rests s s.abandonDeclaration := rests_abandonDeclaration
  have hn' : s.abandonDeclaration.pendingBody = none := habandon.pendingBody.trans hn
  have hb' : Bounded s.abandonDeclaration := settles_abandonDeclaration.bounded hb
  have h := word_cases s site next
  generalize s.word site next = t at h hl ⊢
  cases h with
  | member => exact .inl (.refl s)
  | privateKey => exact moves_key hn hb hl
  | keywordKey => exact (moves_key hn' hb' hl).after habandon
  | keyword => exact (moves_keyword hn' hb' _ hl).after habandon
  | slot _ hslot => exact .inl ((rests_takeSlot hslot).trans (rests_declare _ _ _))
  | key => exact moves_key hn hb hl
  | identifier => exact moves_identifier hn hb hl

/-! ### Opening brackets -/

lemma opens_plain (hn : s.pendingBody = none) (h : Rests s t) {f : Frame}
    (hf : f.restore = s.current)
    (hk : f.kind ≠ .functionBody ∧ f.kind ≠ .params) : Shift last site s (t.push f) :=
  .opens (.plain hn hf hk h.current) (fun hbody => absurd hbody hk.1) (h.pendingBody.trans hn)
    h.openBodies (congrArg (f.seat :: ·) h.seats)

lemma opens_block (hn : s.pendingBody = none) (hb : Bounded s) {f : Frame}
    (hf : f.restore = s.current) (hk : f.kind ≠ .functionBody ∧ f.kind ≠ .params)
    (hl : Keeps ((s.enter .block).push f) last) : Shift last site s ((s.enter .block).push f) :=
  .opens (.block hn hf hk (child_of_push rfl hl hb)) (fun hbody => absurd hbody hk.1) hn rfl rfl

lemma shift_openBrace (hb : Bounded s) (hl : Keeps s.openBrace last) :
    Shift last site s s.openBrace := by
  have h := openBrace_cases s
  generalize s.openBrace = t at h hl ⊢
  cases h with
  | functionBody hbody hk =>
    exact .opens (.body hbody rfl (by rw [hk]; rfl) (.inl rfl)) (fun _ => rfl) rfl rfl rfl
  | catchBody hbody hk =>
    exact .opens (.body hbody rfl (by rw [hk]; rfl) (.inl rfl)) (fun _ => rfl) rfl rfl rfl
  | loopBody hbody hk =>
    have hchild : Child last s.current .block s.scopes.size := child_of_push rfl hl hb
    exact .opens (.body hbody rfl (by rw [hk]; rfl) (.inr ⟨hk, hchild⟩)) (fun _ => rfl) rfl rfl rfl
  | pattern hn hslot =>
    have hrests := rests_takeSlot hslot
    exact opens_plain hn hrests hrests.current ⟨nofun, nofun⟩
  | classBody hn =>
    have hrests : Rests s { s with classBody := none } := ⟨rfl, rfl, rfl, rfl⟩
    exact opens_plain hn hrests (f := .ofKind .classBody s.current) rfl ⟨nofun, nofun⟩
  | object hn => exact opens_plain hn (.refl s) rfl ⟨nofun, nofun⟩
  | block hn => exact opens_block hn hb rfl ⟨nofun, nofun⟩ hl

lemma shift_openSquare (hn : s.pendingBody = none) : Shift last site s s.openSquare := by
  have h := openSquare_cases s
  generalize s.openSquare = t at h ⊢
  cases h with
  | pattern hslot =>
    have hrests := rests_takeSlot hslot
    exact opens_plain hn hrests hrests.current ⟨nofun, nofun⟩
  | computedKey =>
    have hrests : Rests s (s.setTop fun f => { f with atKey := false }) :=
      rests_setTop fun _ => rfl
    exact opens_plain hn hrests (f := .ofKind .computedKey s.current) rfl ⟨nofun, nofun⟩
  | square => exact opens_plain hn (.refl s) rfl ⟨nofun, nofun⟩

lemma shift_openParen (hn : s.pendingBody = none) (hb : Bounded s)
    (hsite : site.token.isPunct "(" = true) (hl : Keeps (s.openParen site) last) :
    Shift last site s (s.openParen site) := by
  have hparams : ¬FrameKind.params = .functionBody := by decide
  have hclause : ¬FrameKind.catchParam = .functionBody := by decide
  have h := openParen_cases s site
  generalize s.openParen site = t at h hl ⊢
  cases h with
  | params hscope =>
    exact .opens (.params hn rfl rfl (.inl hscope)) (fun h => absurd h hparams) hn rfl rfl
  | forHead => exact opens_block hn hb rfl (by simp [Frame.ofKind]) hl
  | catchParam hnone hprev hscope =>
    exact .opens (.clause hn rfl rfl hsite hnone hprev hscope)
      (fun h => absurd h hclause) hn rfl rfl
  | arrowParams =>
    have hchild : Child last s.current .function s.scopes.size := child_of_push rfl hl hb
    exact .opens (.params hn rfl rfl (.inr hchild)) (fun h => absurd h hparams) hn rfl rfl
  | header => exact opens_plain hn (.refl s) rfl (by simp [Frame.ofKind])
  | paren => exact opens_plain hn (.refl s) rfl (by simp [Frame.ofKind])

/-! ### Closing brackets -/

lemma seats_leave (f : Frame) (next : Option Token) : (s.leave f next).seats = s.seats := by
  have h := leave_cases s f next
  generalize s.leave f next = t at h ⊢
  cases h <;> rfl

/-- What the end of a frame leaves, before the bodies begun inside end. -/
lemma pendingBody_leave_cases (f : Frame) (next : Option Token) :
    f.hasScope ∧ (s.leave f next).pendingBody = s.pendingBody ∧
        (s.leave f next).current = f.restore ∨
      (∃ body, (f.kind = .params ↔ body = .function) ∧ f.kind ≠ .functionBody ∧
        (s.leave f next).pendingBody = some ⟨body, f.restore⟩ ∧
        (s.leave f next).current = s.current) ∨
      (f.kind ≠ .functionBody ∧ f.kind ≠ .params) ∧
        (s.leave f next).pendingBody = s.pendingBody ∧ (s.leave f next).current = s.current := by
  have h := leave_cases s f next
  generalize s.leave f next = t at h ⊢
  cases h with
  | braces hk => exact .inl ⟨hk, rfl, rfl⟩
  | @head body hk =>
    refine .inr (.inl ⟨body, ?_, ?_, rfl, rfl⟩) <;>
      rcases hk with ⟨hk, rfl⟩ | ⟨hk, rfl⟩ | ⟨hk, rfl⟩ <;> simp [hk]
  | header hk => exact .inr (.inr ⟨by simp [hk], rfl, rfl⟩)
  | method hk => exact .inr (.inr ⟨by simp [hk], rfl, rfl⟩)
  | plain hk => exact .inr (.inr ⟨hk, rfl, rfl⟩)

lemma closes_closeFrame {around : Frame} {outer : List Frame} (ho : s.outer = around :: outer)
    (hn : s.pendingBody = none) (ht : Tidy s.depth s.openBodies)
    (hsite : ∃ c, Site.bracket site.token = .closes c) (next : Option Token) :
    Shift last site s (s.closeFrame around outer next) := by
  have hseats : (s.closeFrame around outer next).seats = s.seats.tail := by
    change ((s.pop around outer).leave s.top next).seats = _
    rw [seats_leave, seats, seats, pop, ho]
    rfl
  have hbodies : (s.closeFrame around outer next).openBodies = bodiesBelow s.depth
    s.openBodies := by
    rw [openBodies_closeFrame ho]
    exact (endBodies_tidy ht _).2
  have hcurrent : (s.closeFrame around outer next).current
      = (s.bodiesInside.getLast?.map OpenBody.restore).getD
          ((s.pop around outer).leave s.top next).current := by
    have hdepth : ((s.pop around outer).leave s.top next).depth + 1 = s.depth :=
      depth_of_outer ho (stack_closeFrame ho next)
    have hleft : ((s.pop around outer).leave s.top next).openBodies = s.openBodies :=
      openBodies_leave _ _
    change (endBodies _ false _ ((s.pop around outer).leave s.top next).openBodies).1 = _
    rw [hdepth, hleft]
    exact (endBodies_tidy ht _).1
  refine .closes hsite hn ?_ (by rw [ho]; exact List.cons_ne_nil _ _) hbodies hseats
  rcases pendingBody_leave_cases (s := s.pop around outer) s.top next with
    ⟨hk, hp, hc⟩ | ⟨body, hk, hk', hp, hc⟩ | ⟨hk, hp, hc⟩
  · exact .braces hk hp (hcurrent.trans (by rw [hc]))
  · exact .head hk hk' hp (hcurrent.trans (by rw [hc]; rfl))
  · exact .plain hk hp (hcurrent.trans (by rw [hc]; rfl))

lemma ends_endBlock (s : Tracker) (next : Option Token) :
    ∃ ended, Ends s (s.endBlock next) ended := by
  have htop : Rests s (s.setTop fun f => { f with atKey := f.atKey || f.kind = .classBody }) :=
    rests_setTop fun _ => rfl
  have h := endBlock_cases s next
  generalize s.endBlock next = t at h ⊢
  cases h with
  | stays => exact ⟨[], htop.ends⟩
  | @ends b rest hb hdepth =>
    refine ⟨[b], hb, fun x hx => ?_, rfl, rfl, htop.seats⟩
    rw [List.mem_singleton.mp hx]
    exact Nat.le_of_eq hdepth.symm

/-! ### Tokens -/

/-- A move, and then bodies may end. -/
def Shifts (last : Tracker) (site : Site) (s t : Tracker) : Prop :=
  ∃ u ended, Shift last site s u ∧ Ends u t ended ∧ (ended = [] ∨ u.pendingBody = none)

lemma Shift.shifts (h : Shift last site s t) : Shifts last site s t :=
  ⟨t, [], h, (Rests.refl t).ends, .inl rfl⟩

lemma shifts_close (hn : s.pendingBody = none) (ht : Tidy s.depth s.openBodies)
    (hsite : ∃ c, Site.bracket site.token = .closes c) (next : Option Token) :
    Shifts last site s (s.close next) := by
  have h := close_cases s next
  generalize s.close next = t at h ⊢
  cases h with
  | root => exact (Shift.refl _ _ _).shifts
  | frame ho => exact (closes_closeFrame ho hn ht hsite next).shifts
  | @braces around outer ho hk =>
    obtain ⟨ended, hends⟩ := ends_endBlock (s.closeFrame around outer next) next
    refine ⟨_, ended, closes_closeFrame ho hn ht hsite next, hends, .inr ?_⟩
    rw [closeFrame_of_hasScope ho hk]
    exact hn

lemma ends_comma (s : Tracker) : ∃ ended, Ends s s.comma ended := by
  have hseats : s.comma.seats = s.seats := by
    refine seats_setTop fun f => ?_
    split
    · exact seat_expectName f false
    · exact seat_expectName f true
  exact exists_ends (rfl : _ = (endBodies s.depth true s.current s.openBodies).2) rfl rfl hseats

lemma rests_colon : Rests s s.colon := by
  have h := colon_cases s
  generalize s.colon = t at h ⊢
  cases h with
  | conditional => exact ⟨rfl, rfl, seats_setTop fun _ => rfl, rfl⟩
  | property => exact ⟨rfl, rfl, seats_setTop fun f => seat_expectName f true, rfl⟩
  | statement => exact ⟨rfl, rfl, rfl, rfl⟩

lemma shifts_punctuator (hn : s.pendingBody = none ∨ site.token.isPunct "\x7b" = true ∨
      site.token.isPunct "=>" = true) (ht : Tidy s.depth s.openBodies) (hb : Bounded s)
    (hp : site.token.kind = .punctuator) (hl : Keeps (s.punctuator site next) last) :
    Shifts last site s (s.punctuator site next) := by
  have hnone (hne : site.token.text ≠ "\x7b" ∧ site.token.text ≠ "=>") : s.pendingBody = none := by
    rcases hn with hn | hn | hn
    · exact hn
    · exact absurd (by simpa [Token.isPunct, hp] using hn) hne.1
    · exact absurd (by simpa [Token.isPunct, hp] using hn) hne.2
  have h := punctuator_cases s site next
  generalize s.punctuator site next = t at h hl ⊢
  cases h with
  | openBrace => exact (shift_openBrace hb hl).shifts
  | openSquare he => exact (shift_openSquare (hnone (by simp [he]))).shifts
  | openParen he =>
    exact (shift_openParen (hnone (by simp [he])) hb (by simp [Token.isPunct, hp, he]) hl).shifts
  | close he =>
    refine shifts_close (hnone ?_) ht (closes_of_mem hp he) next
    simp only [List.mem_cons, List.not_mem_nil, or_false] at he
    rcases he with he | he | he <;> simp [he]
  | endStatement he =>
    obtain ⟨ended, hends⟩ := ends_endStatement s
    exact (Shift.ends (hnone (by simp [he])) hends).shifts
  | comma he =>
    obtain ⟨ended, hends⟩ := ends_comma s
    exact (Shift.ends (hnone (by simp [he])) hends).shifts
  | question => exact Shift.shifts (.rests (rests_setTop fun _ => rfl))
  | colon => exact (Shift.rests rests_colon).shifts
  | initial => exact Shift.shifts (.rests (rests_setTop fun f => seat_expectName f false))
  | arrow => exact (shift_arrow next).shifts
  | spread => exact Shift.shifts (.rests (rests_setTop fun f => seat_expectName f true))
  | mark => exact (Shift.refl _ _ _).shifts
  | operator => exact (Shift.rests rests_abandonDeclaration).shifts

/-- **A token moves the tracker** as its kind says. -/
theorem shifts_read (hn : s.pendingBody = none ∨ site.token.isPunct "\x7b" = true ∨
      site.token.isPunct "=>" = true) (ht : Tidy s.depth s.openBodies) (hb : Bounded s)
    (hl : Keeps (s.read site next) last) : Shifts last site s (s.read site next) := by
  have hnone (hk : site.token.kind ≠ .punctuator) : s.pendingBody = none := by
    rcases hn with hn | hn | hn
    · exact hn
    · simp [Token.isPunct, hk] at hn
    · simp [Token.isPunct, hk] at hn
  have h := read_cases s site next
  generalize s.read site next = t at h hl ⊢
  cases h with
  | punctuator hk => exact shifts_punctuator hn ht hb hk hl
  | word hw =>
    have hk : site.token.kind ≠ .punctuator := fun he => by simp [Token.isWord, he] at hw
    exact (moves_word (hnone hk) hb hl).shift.shifts
  | key hk =>
    refine (moves_key (hnone ?_) hb hl).shift.shifts
    rcases hk with hk | hk <;> simp [hk]
  | templateHead hk =>
    exact (opens_plain (hnone (by simp [hk])) (.refl s) (f := .ofKind .substitution s.current) rfl
      (by simp [Frame.ofKind])).shifts
  | templateMiddle hk =>
    have hseats : ((s.endOpenBodies s.depth false).setTop fun f => { f with ternary := 0 }).seats
        = s.seats := seats_setTop fun _ => rfl
    obtain ⟨ended, hends⟩ : ∃ ended,
        Ends s ((s.endOpenBodies s.depth false).setTop fun f => { f with ternary := 0 }) ended :=
      exists_ends (rfl : _ = (endBodies s.depth false s.current s.openBodies).2) rfl rfl hseats
    exact Shift.shifts (.ends (hnone (by simp [hk])) hends)
  | templateTail hk =>
    exact shifts_close (hnone (by simp [hk])) ht ⟨'\x7d', by simp [Site.bracket, hk]⟩ next
  | other => exact (Shift.refl _ _ _).shifts

/-- The statement before a site has ended, if the line ends it. -/
def afterLine (s : Tracker) (site : Site) : Tracker :=
  let ends := !s.closedHeader && endsStatement s.before site
  let s := { s with closedHeader := false }
  if ends then s.endStatement else s

lemma prepare_eq (s : Tracker) (site : Site) :
    s.prepare site = (s.afterLine site).beginBody site.token := rfl

/-- A body that waits when a token is read waits for this token. -/
lemma pendingBody_prepare (s : Tracker) (site : Site) : (s.prepare site).pendingBody = none ∨
    site.token.isPunct "\x7b" = true ∨ site.token.isPunct "=>" = true := by
  by_cases hbrace : site.token.isPunct "\x7b" = true
  · exact .inr (.inl hbrace)
  · by_cases harrow : site.token.isPunct "=>" = true
    · exact .inr (.inr harrow)
    · exact .inl (pendingBody_beginBody _ (by simpa using hbrace) (by simpa using harrow))

/-- Before a token bodies end only if the line ends their statement. -/
lemma ends_afterLine (s : Tracker) (site : Site) : ∃ ended, Ends s (s.afterLine site) ended ∧
    (ended = [] ∨ s.closedHeader = false ∧ endsStatement s.before site = true) := by
  unfold afterLine
  dsimp only
  split
  · rename_i hends
    simp only [Bool.and_eq_true, Bool.not_eq_true'] at hends
    have hseats : ({ s with closedHeader := false } : Tracker).endStatement.seats = s.seats :=
      seats_setTop fun _ => rfl
    obtain ⟨ended, h⟩ : ∃ ended, Ends s ({ s with closedHeader := false } : Tracker).endStatement
      ended :=
      exists_ends (rfl : _ = (endBodies s.depth false s.current s.openBodies).2) rfl rfl hseats
    exact ⟨ended, h, .inr hends⟩
  · exact ⟨[], Rests.ends ⟨rfl, rfl, rfl, rfl⟩, .inl rfl⟩

end Minify.Tracker
