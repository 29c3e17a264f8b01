import Mathlib.Logic.Relation
import Mathlib.Tactic.Common
import Minify.Proofs.SitesBefore
import Minify.Proofs.WaitingScopes

/-!
The way out of the place where the tracker stands.

The frames, the bodies without braces and the header that has been read are exits, one inside the
other: each gives back a scope when it ends, and those of functions lead out of a function. The
scope that the tracker stands in and the exits are its trail, and all that a token does is to walk
along it: into a scope, with an exit back to the one before, or to the scope that the nearest exit
gives back.

Few things lead off the way. When a brace ends the body of a function, the outermost body without
braces begun inside says where the tracker goes, and not the function. The others are no parts of
programs: a line that ends a statement between a header and its body, a loop or a `var` inside the
expression that is the body of an arrow, and a parenthesis that gets the scope of a catch clause of
another function.
-/

namespace Minify.Tracker

/-- The scope given back by something open, and whether it leads out of a function. -/
structure Exit where
  leaves : Bool
  scope : ScopeId

def Exit.ofBody (b : OpenBody) : Exit := ⟨b.endsAtComma, b.restore⟩

def Exit.ofMark (m : FrameKind × ScopeId) : Exit := ⟨m.1 = .functionBody || m.1 = .params, m.2⟩

def Exit.ofPending (b : PendingBody) : Exit := ⟨b.kind = .function, b.restore⟩

/-- The exits of the frames deeper than a floor and of the bodies begun in them and in the one at
the floor, innermost first. -/
def exitsAbove (floor : Nat) : List (FrameKind × ScopeId) → List OpenBody → List Exit
  | [], _ => []
  | m :: ms, bodies =>
    (bodies.filter fun b => decide (ms.length + 1 ≤ b.depth)).map Exit.ofBody ++
      if floor ≤ ms.length then
        Exit.ofMark m :: exitsAbove floor ms (bodiesBelow (ms.length + 1) bodies)
      else []

def exits (floor : Nat) (s : Tracker) : List Exit := exitsAbove floor s.stack s.openBodies

def around (floor : Nat) (s : Tracker) : List Exit :=
  exitsAbove floor s.stack.tail (bodiesBelow s.depth s.openBodies)

/-- The scope that the tracker stands in, and then the exits. -/
def trail (floor : Nat) (s : Tracker) : List Exit :=
  ⟨false, s.current⟩ :: ((s.pendingBody.map Exit.ofPending).toList ++ s.exits floor)

/-- The nearest scope from one outwards that is no block and no catch clause. -/
def nearestFunction (scopes : Array Scope) (id : ScopeId) : ScopeId :=
  ((Scope.ancestors scopes id).find? fun id => !(scopes[id]?).any Scope.isInner).getD
    ScopeTree.global

/-- A walk along the trail, in view of the scopes of the last tracker and of those that wait. What
leads off the way is marked as a stray. -/
inductive Walk (last : Tracker) (waits : ScopeId → Prop) (stray : Prop) :
    List Exit → List Exit → Prop
  | inside {c id : ScopeId} {kind : ScopeKind} {leaves : Bool} {way : List Exit}
      (h : Child last c kind id) (hl : leaves = true ∨ kind = .block ∨ kind = .catchClause) :
      Walk last waits stray (⟨false, c⟩ :: way) (⟨false, id⟩ :: ⟨leaves, c⟩ :: way)
  | waiting {c id : ScopeId} {leaves : Bool} {way : List Exit} (h : waits id)
      (hl : leaves = true ∨
        nearestFunction last.scopes id = nearestFunction last.scopes c ∨ stray) :
      Walk last waits stray (⟨false, c⟩ :: way) (⟨false, id⟩ :: ⟨leaves, c⟩ :: way)
  /-- A bracket in the same scope. -/
  | bracket {c : ScopeId} {way : List Exit} :
      Walk last waits stray (⟨false, c⟩ :: way) (⟨false, c⟩ :: ⟨false, c⟩ :: way)
  /-- The body of a loop has a scope, and its header has given the exit. -/
  | block {c id : ScopeId} {x : Exit} {way : List Exit} (h : Child last c .block id)
      (hl : x.leaves = false) :
      Walk last waits stray (⟨false, c⟩ :: x :: way) (⟨false, id⟩ :: x :: way)
  /-- To the scope of the nearest exit. -/
  | back {c : ScopeId} {x : Exit} {way : List Exit} :
      Walk last waits stray (⟨false, c⟩ :: x :: way) (⟨false, x.scope⟩ :: way)
  /-- The nearest exit goes away, and the scope stays. -/
  | drop {c : ScopeId} {x : Exit} {way : List Exit}
      (hl : x.leaves = false ∨ (∃ y ∈ way, y.leaves = true) ∨ stray) :
      Walk last waits stray (⟨false, c⟩ :: x :: way) (⟨false, c⟩ :: way)
  /-- To the scope of the exit around the nearest one. -/
  | past {c : ScopeId} {x y : Exit} {way : List Exit} (hl : y.leaves = false ∨ stray) :
      Walk last waits stray (⟨false, c⟩ :: x :: y :: way) (⟨false, y.scope⟩ :: x :: way)

/-- Walks, one after the other. -/
def Walks (last : Tracker) (waits : ScopeId → Prop) (stray : Prop) : List Exit → List Exit → Prop :=
  Relation.ReflTransGen (Walk last waits stray)

/-- A token leads off the way out of a function whose body is at a floor. -/
inductive Strays (scopes : Array Scope) (floor : Nat) (s : Tracker) (site : Site) : Prop
  /-- A body without braces goes on where the body of a function ends, which no other function
  stands around. -/
  | body (hsite : ∃ c, Site.bracket site.token = .closes c)
      (hk : (s.prepare site).top.kind = .functionBody) (hb : (s.prepare site).bodiesInside ≠ [])
      (hx : ∀ x ∈ (s.prepare site).around floor, x.leaves = false)
  /-- A line ends the body of an arrow before the body of a header has begun. -/
  | line {b : OpenBody} (hp : s.pendingBody ≠ none) (hh : s.closedHeader = false)
      (he : endsStatement s.before site = true) (hb : b ∈ s.bodiesInside)
      (harrow : b.endsAtComma = true)
  /-- The body of a loop begins inside the body of an arrow, both without braces. -/
  | loop {restore : ScopeId} {b : OpenBody} (hp : s.pendingBody = some ⟨.loop, restore⟩)
      (hn : (s.prepare site).pendingBody = none) (hb : b ∈ s.bodiesInside)
      (harrow : b.endsAtComma = true)
  /-- A list of `var` begins inside the body of an arrow without braces. -/
  | var {b : OpenBody} (hd : s.depth = floor) (hk : site.token.isKeyword .kwVar = true)
      (hb : b ∈ (s.prepare site).bodiesInside) (harrow : b.endsAtComma = true)
  /-- A catch clause gets a scope that waits outside the function, or in one inside. -/
  | clause {id : ScopeId} (hsite : site.token.isPunct "(" = true)
      (hprev : prevKeyword? s.before = some .kwCatch) (hc : s.catchScope = some id)
      (hf : nearestFunction scopes id ≠ nearestFunction scopes (s.prepare site).current)

variable {last s t u : Tracker} {site : Site} {next : Option Token} {floor : Nat}

/-! ### Exits of parts -/

lemma exists_stack (s : Tracker) : s.stack = s.top.mark :: s.outer.map Frame.mark := rfl

lemma exits_append {ended rest : List OpenBody} (h : ∀ b ∈ ended, s.depth ≤ b.depth) :
    exitsAbove floor s.stack (ended ++ rest)
      = ended.map Exit.ofBody ++ exitsAbove floor s.stack rest := by
  have hlength : (s.outer.map Frame.mark).length + 1 = s.depth := by simp [depth]
  have hhere : ended.filter (fun b => decide (s.depth ≤ b.depth)) = ended :=
    List.filter_eq_self.mpr fun b hb => decide_eq_true (h b hb)
  have hbelow : bodiesBelow s.depth (ended ++ rest) = bodiesBelow s.depth rest := by
    unfold bodiesBelow
    rw [List.filter_append, List.filter_eq_nil_iff.mpr fun b hb => ?_, List.nil_append]
    simpa using h b hb
  rw [exists_stack, exitsAbove, exitsAbove, hlength, List.filter_append, hhere, hbelow,
    List.map_append, List.append_assoc]

lemma exits_push (ht : Tidy s.depth s.openBodies) (hd : floor ≤ s.depth)
    (m : FrameKind × ScopeId) :
    exitsAbove floor (m :: s.stack) s.openBodies = .ofMark m :: s.exits floor := by
  have hnone : s.openBodies.filter (fun b => decide (s.depth + 1 ≤ b.depth)) = [] := by
    refine List.filter_eq_nil_iff.mpr fun b hb => ?_
    have := ht.le b hb
    simp only [decide_eq_true_eq]
    omega
  have hall : bodiesBelow (s.depth + 1) s.openBodies = s.openBodies := by
    refine List.filter_eq_self.mpr fun b hb => ?_
    have := ht.le b hb
    simp only [decide_eq_true_eq]
    omega
  rw [exitsAbove, length_stack, hnone, hall, if_pos hd]
  rfl

lemma exits_split (hd : floor < s.depth) : s.exits floor
    = s.bodiesInside.map Exit.ofBody ++ .ofMark s.top.mark :: s.around floor := by
  have hlength : (s.outer.map Frame.mark).length + 1 = s.depth := by simp [depth]
  have hfloor : floor ≤ (s.outer.map Frame.mark).length := by omega
  rw [exits, exists_stack, exitsAbove, hlength, if_pos hfloor]
  rfl

lemma exits_floor (hd : s.depth = floor) : s.exits floor = s.bodiesInside.map Exit.ofBody := by
  have hlength : (s.outer.map Frame.mark).length + 1 = s.depth := by simp [depth]
  have hfloor : ¬floor ≤ (s.outer.map Frame.mark).length := by omega
  rw [exits, exists_stack, exitsAbove, hlength, if_neg hfloor, List.append_nil]
  rfl

lemma exits_congr (hs : t.seats = s.seats) (hb : t.openBodies = s.openBodies) :
    t.exits floor = s.exits floor := by
  rw [exits, exits, stack_eq_seats, stack_eq_seats, hs, hb]

lemma depth_congr (hs : t.seats = s.seats) : t.depth = s.depth := by
  rw [← length_seats, ← length_seats, hs]

/-! ### What a move does to the trail -/

lemma trail_of_none (hn : s.pendingBody = none) :
    s.trail floor = ⟨false, s.current⟩ :: s.exits floor := by
  rw [trail, hn]
  rfl

lemma trail_of_some {b : PendingBody} (hb : s.pendingBody = some b) :
    s.trail floor = ⟨false, s.current⟩ :: .ofPending b :: s.exits floor := by
  rw [trail, hb]
  rfl

lemma Rests.trail (h : Rests s t) : t.trail floor = s.trail floor := by
  rw [Tracker.trail, Tracker.trail, h.current, h.pendingBody, exits_congr h.seats h.openBodies]

lemma exits_ends {ended : List OpenBody} (hb : s.openBodies = ended ++ t.openBodies)
    (hd : ∀ b ∈ ended, s.depth ≤ b.depth) (hs : t.seats = s.seats) :
    s.exits floor = ended.map Exit.ofBody ++ t.exits floor := by
  rw [exits, hb, exits_append hd, exits, stack_eq_seats, stack_eq_seats, hs]

lemma exits_begins {b : OpenBody} (hb : t.openBodies = b :: s.openBodies) (hd : b.depth = s.depth)
    (hs : t.seats = s.seats) : t.exits floor = .ofBody b :: s.exits floor := by
  have hdepth : t.depth = s.depth := depth_congr hs
  have hone : ∀ x ∈ [b], t.depth ≤ x.depth := by
    intro x hx
    rw [List.mem_singleton.mp hx, hd, hdepth]
  rw [exits, hb, ← List.singleton_append, exits_append hone, exits, stack_eq_seats,
    stack_eq_seats, hs]
  rfl

lemma exits_opens {g : Frame} (ht : Tidy s.depth s.openBodies) (hd : floor ≤ s.depth)
    (hb : t.openBodies = s.openBodies) (hs : t.seats = g.seat :: s.seats) :
    t.exits floor = .ofMark g.mark :: s.exits floor := by
  have hstack : t.stack = g.mark :: s.stack := by
    rw [stack_eq_seats, hs, stack_eq_seats]
    rfl
  rw [exits, hstack, hb]
  exact exits_push ht hd _

lemma exits_closes (hb : t.openBodies = bodiesBelow s.depth s.openBodies)
    (hs : t.seats = s.seats.tail) : t.exits floor = s.around floor := by
  have hstack : t.stack = s.stack.tail := by
    rw [stack_eq_seats, hs, stack_eq_seats, List.map_tail]
  rw [exits, hstack, hb]
  rfl

/-- Without bodies that go on and clauses that wait nothing leads off the way. -/
lemma not_strays {scopes : Array Scope} (hb : s.bodiesInside = [])
    (hp : (s.prepare site).bodiesInside = []) (hc : s.catchScope = none) :
    ¬Strays scopes floor s site := by
  intro h
  cases h with
  | body hsite hk hb' hx => exact hb' hp
  | line hp' hh he hmem harrow =>
    rw [hb] at hmem
    cases hmem
  | loop hp' hn hmem harrow =>
    rw [hb] at hmem
    cases hmem
  | var hd hk hmem harrow =>
    rw [hp] at hmem
    cases hmem
  | clause hsite hprev hc' hf =>
    rw [hc] at hc'
    cases hc'

/-! ### Walks -/

variable {waits : ScopeId → Prop} {stray : Prop} {way way' way'' : List Exit} {c : ScopeId}

lemma Walks.refl (way : List Exit) : Walks last waits stray way way := Relation.ReflTransGen.refl

lemma Walks.trans (h : Walks last waits stray way way') (h' : Walks last waits stray way' way'') :
    Walks last waits stray way way'' := Relation.ReflTransGen.trans h h'

lemma Walk.walks (h : Walk last waits stray way way') : Walks last waits stray way way' :=
  Relation.ReflTransGen.single h

/-- The scope of the last of some bodies, or another one. -/
lemma getLast?_cons_restore (b : OpenBody) (ended : List OpenBody) (c : ScopeId) :
    ((b :: ended).getLast?.map OpenBody.restore).getD c
      = (ended.getLast?.map OpenBody.restore).getD b.restore := by
  rw [List.getLast?_cons]
  cases ended.getLast? <;> rfl

lemma walks_ended (ended : List OpenBody) (c : ScopeId) (way : List Exit) :
    Walks last waits stray (⟨false, c⟩ :: (ended.map Exit.ofBody ++ way))
      (⟨false, (ended.getLast?.map OpenBody.restore).getD c⟩ :: way) := by
  induction ended generalizing c with
  | nil => exact .refl _
  | cons b ended ih =>
    rw [getLast?_cons_restore]
    exact (Walk.walks .back).trans (ih b.restore)

lemma walks_ended_past (ended : List OpenBody) (c : ScopeId) (x : Exit) (way : List Exit)
    (hl : ∀ b ∈ ended, b.endsAtComma = false ∨ stray) :
    Walks last waits stray (⟨false, c⟩ :: x :: (ended.map Exit.ofBody ++ way))
      (⟨false, (ended.getLast?.map OpenBody.restore).getD c⟩ :: x :: way) := by
  induction ended generalizing c with
  | nil => exact .refl _
  | cons b ended ih =>
    rw [getLast?_cons_restore]
    have hpast : Walks last waits stray
        (⟨false, c⟩ :: x :: .ofBody b :: (ended.map Exit.ofBody ++ way))
        (⟨false, b.restore⟩ :: x :: (ended.map Exit.ofBody ++ way)) :=
      (Walk.past (hl b List.mem_cons_self)).walks
    exact hpast.trans (ih b.restore fun x hx => hl x (List.mem_cons_of_mem _ hx))

lemma Ends.walks {ended : List OpenBody} (h : Ends s t ended)
    (hl : s.pendingBody = none ∨ ∀ b ∈ ended, b.endsAtComma = false ∨ stray) :
    Walks last waits stray (s.trail floor) (t.trail floor) := by
  have hexits : s.exits floor = ended.map Exit.ofBody ++ t.exits floor :=
    exits_ends h.openBodies h.depth h.seats
  cases hp : s.pendingBody with
  | none =>
    rw [trail_of_none hp, trail_of_none (h.pendingBody.trans hp), hexits, h.current]
    exact walks_ended _ _ _
  | some b =>
    rw [trail_of_some hp, trail_of_some (h.pendingBody.trans hp), hexits, h.current]
    exact walks_ended_past _ _ _ _ (hl.resolve_left (by simp [hp]))

lemma FrameOpens.walks {f : Frame} (h : FrameOpens last site s f t)
    (hp : t.pendingBody = none) (hexits : t.exits floor = .ofMark f.mark :: s.exits floor)
    (hw : ∀ id, s.Waits id → waits id)
    (hclause : site.token.isPunct "(" = true → prevKeyword? s.before = some .kwCatch →
      ∀ id, s.catchScope = some id →
        nearestFunction last.scopes id = nearestFunction last.scopes s.current ∨ stray) :
    Walks last waits stray (s.trail floor) (t.trail floor) := by
  rw [trail_of_none hp, hexits]
  cases h with
  | plain hn hf hk hc =>
    rw [trail_of_none hn, hc]
    have hmark : Exit.ofMark f.mark = ⟨false, s.current⟩ := by
      simp [Exit.ofMark, Frame.mark, hk.1, hk.2, hf]
    rw [hmark]
    exact (Walk.bracket).walks
  | block hn hf hk hc =>
    rw [trail_of_none hn]
    have hmark : Exit.ofMark f.mark = ⟨false, s.current⟩ := by
      simp [Exit.ofMark, Frame.mark, hk.1, hk.2, hf]
    rw [hmark]
    exact (Walk.inside hc (.inr (.inl rfl))).walks
  | params hn hf hk hc =>
    rw [trail_of_none hn]
    have hmark : Exit.ofMark f.mark = ⟨true, s.current⟩ := by
      simp [Exit.ofMark, Frame.mark, hk, hf]
    rw [hmark]
    rcases hc with hc | hc
    · exact (Walk.waiting (hw _ (.inl hc)) (.inl rfl)).walks
    · exact (Walk.inside hc (.inl rfl)).walks
  | clause hn hf hk hsite hparams hprev hc =>
    rw [trail_of_none hn]
    have hmark : Exit.ofMark f.mark = ⟨false, s.current⟩ := by
      simp [Exit.ofMark, Frame.mark, hk, hf]
    rw [hmark]
    exact (Walk.waiting (hw _ (.inr (.inr hc))) (.inr (hclause hsite hprev _ hc))).walks
  | @body b hb hf hk hc =>
    rw [trail_of_some hb]
    have hmark : Exit.ofMark f.mark = .ofPending b := by
      by_cases hfun : b.kind = .function <;> simp [Exit.ofMark, Exit.ofPending,
        Frame.mark, hk, hfun, hf]
    rw [hmark]
    rcases hc with hc | ⟨hloop, hc⟩
    · rw [hc]
      exact .refl _
    · have hstays : (Exit.ofPending b).leaves = false := by simp [Exit.ofPending, hloop]
      exact (Walk.block hc hstays).walks

/-- The innermost frame is closed, with the bodies begun inside. -/
lemma FrameCloses.walks (h : FrameCloses s t) (hn : s.pendingBody = none)
    (hs : s.exits floor = s.bodiesInside.map Exit.ofBody ++ .ofMark s.top.mark :: s.around floor)
    (ht : t.exits floor = s.around floor)
    (hbody : s.top.kind = .functionBody → s.bodiesInside ≠ [] →
      (∃ x ∈ s.around floor, x.leaves = true) ∨ stray) :
    Walks last waits stray (s.trail floor) (t.trail floor) := by
  rw [trail_of_none hn, hs]
  have hended : Walks last waits stray
      (⟨false, s.current⟩ :: (s.bodiesInside.map Exit.ofBody ++ .ofMark s.top.mark
        :: s.around floor))
      (⟨false, (s.bodiesInside.getLast?.map OpenBody.restore).getD s.current⟩ ::
        .ofMark s.top.mark :: s.around floor) := walks_ended _ _ _
  cases h with
  | braces hk hp hc =>
    rw [trail_of_none (hp.trans hn), ht, hc]
    by_cases hinside : s.bodiesInside = []
    · rw [hinside]
      exact (Walk.back).walks
    · obtain ⟨b, hlast⟩ := Option.ne_none_iff_exists'.mp (mt List.getLast?_eq_none_iff.mp hinside)
      rw [hlast] at hended ⊢
      refine hended.trans (Walk.drop ?_).walks
      rcases hk with hk | hk
      · exact .inl (by simp [Exit.ofMark, Frame.mark, hk])
      · exact .inr (hbody hk hinside)
  | @head body hk hk' hp hc =>
    rw [trail_of_some hp, ht, hc]
    have hmark : Exit.ofMark s.top.mark = .ofPending ⟨body, s.top.restore⟩ := by
      by_cases hfun : body = .function <;>
        simp [Exit.ofMark, Exit.ofPending, Frame.mark, hk', hk, hfun]
    rw [← hmark]
    exact hended
  | plain hk hp hc =>
    rw [trail_of_none (hp.trans hn), ht, hc]
    exact hended.trans (Walk.drop (.inl (by simp [Exit.ofMark, Frame.mark, hk]))).walks

lemma Begins.walks (h : Begins s t) : Walks last waits stray (s.trail floor) (t.trail floor) := by
  cases h with
  | rests h =>
    rw [h.trail]
    exact .refl _
  | @bare b hb hk hp hbodies hc hs =>
    have hbody : Exit.ofBody ⟨s.depth, b.restore, decide (b.kind = .function)⟩ = .ofPending b := rfl
    rw [trail_of_some hb, trail_of_none hp, exits_begins hbodies rfl hs, hc, hbody]
    exact .refl _
  | @missing b hb hp hbodies hc hs =>
    rw [trail_of_some hb, trail_of_none hp, exits_congr hs hbodies, hc]
    exact (Walk.back).walks

lemma Shift.walks (h : Shift last site s t) (ht : Tidy s.depth s.openBodies) (hd : floor ≤ s.depth)
    (hcloses : (∃ c, Site.bracket site.token = .closes c) → floor < s.depth)
    (hw : ∀ id, s.Waits id → waits id)
    (hbody : (∃ c, Site.bracket site.token = .closes c) → s.top.kind = .functionBody →
      s.bodiesInside ≠ [] → (∃ x ∈ s.around floor, x.leaves = true) ∨ stray)
    (hclause : site.token.isPunct "(" = true → prevKeyword? s.before = some .kwCatch →
      ∀ id, s.catchScope = some id →
        nearestFunction last.scopes id = nearestFunction last.scopes s.current ∨ stray) :
    Walks last waits stray (s.trail floor) (t.trail floor) := by
  cases h with
  | rests h =>
    rw [h.trail]
    exact .refl _
  | ends hn h => exact h.walks (.inl hn)
  | begins hb h => exact h.walks
  | @enters kind body h =>
    rw [trail_of_none h.none, trail_of_some h.pendingBody, exits_congr h.seats h.openBodies]
    refine (Walk.inside h.child ?_).walks
    rcases h.kinds with ⟨-, rfl⟩ | ⟨rfl, -⟩
    · exact .inl rfl
    · exact .inr (.inr rfl)
  | opens h hg hp hbodies hs => exact h.walks hp (exits_opens ht hd hbodies hs) hw hclause
  | closes hsite hn h ho hbodies hs =>
    exact h.walks hn (exits_split (hcloses hsite)) (exits_closes hbodies hs) (hbody hsite)

/-- A token is read above a floor, and the last tracker is still to come. -/
structure Above (last : Tracker) (floor : Nat) (s : Tracker) (site : Site) (next : Option Token) :
    Prop where
  tidy : Tidy s.depth s.openBodies
  bounded : Bounded s
  le : floor ≤ s.depth
  lt : (∃ c, Site.bracket site.token = .closes c) → floor < s.depth
  keeps : Keeps (s.step site next) last

/-- **To make ready for a token is a walk along the trail.** -/
theorem walks_prepare (s : Tracker) (site : Site) :
    Walks last waits (Strays last.scopes floor s site) (s.trail floor)
      ((s.prepare site).trail floor) := by
  have hbegins : Walks last waits (Strays last.scopes floor s site)
      ((s.afterLine site).trail floor) ((s.prepare site).trail floor) :=
    (begins_beginBody site.token).walks
  refine Walks.trans ?_ hbegins
  obtain ⟨ended, hends, hnone | ⟨hheader, hstatement⟩⟩ := ends_afterLine s site
  · exact hends.walks (.inr fun b hb => by simp [hnone] at hb)
  · refine hends.walks (or_iff_not_imp_left.mpr fun hp b hmem => ?_)
    have hinside : b ∈ s.bodiesInside := List.mem_filter.mpr
      ⟨hends.openBodies ▸ List.mem_append_left _ hmem, decide_eq_true (hends.depth b hmem)⟩
    cases harrow : b.endsAtComma with
    | false => exact .inl rfl
    | true => exact .inr (.line hp hheader hstatement hinside harrow)

lemma Above.shifts (h : Above last floor s site next) :
    Shifts last site (s.prepare site) ((s.prepare site).read site next) := by
  have hlevel : Level s (s.prepare site) := level_prepare site
  exact shifts_read (pendingBody_prepare s site) (hlevel.depth ▸ hlevel.tidy h.tidy)
    ((quiet_prepare site).bounded h.bounded) h.keeps

/-- **To read a token is a walk along the trail.** -/
theorem Above.walks (h : Above last floor s site next) :
    Walks last s.Waits (Strays last.scopes floor s site) ((s.prepare site).trail floor)
      ((s.step site next).trail floor) := by
  have hlevel : Level s (s.prepare site) := level_prepare site
  have hbefore : (s.prepare site).before = s.before := before_prepare
  have hcatch : (s.prepare site).catchScope = s.catchScope := catchScope_prepare s site
  obtain ⟨u, ended, hshift, hends, hnone⟩ := h.shifts
  have hmove : Walks last s.Waits (Strays last.scopes floor s site) ((s.prepare site).trail floor)
      (u.trail floor) := by
    refine hshift.walks (hlevel.depth ▸ hlevel.tidy h.tidy) (hlevel.depth ▸ h.le)
      (hlevel.depth ▸ h.lt) (fun _ => waits_prepare) (fun hsite hk hinside => ?_)
      fun hsite hprev id hid => ?_
    · rw [or_iff_not_imp_left]
      intro hx
      refine .body hsite hk hinside fun x hmem => ?_
      simpa using fun hleaves => hx ⟨x, hmem, hleaves⟩
    · rw [or_iff_not_imp_left]
      exact fun hf => .clause hsite (hbefore ▸ hprev) (hcatch ▸ hid) hf
  have hended : Walks last s.Waits (Strays last.scopes floor s site) (u.trail floor)
      (((s.prepare site).read site next).trail floor) :=
    hends.walks (hnone.symm.imp_right fun he b hb => by simp [he] at hb)
  exact hmove.trans hended

end Minify.Tracker
