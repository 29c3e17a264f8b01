import Mathlib.Tactic.Common
import Minify.Proofs.Exits

/-!
What stays true above the body of a function.

Above a frame that holds the body of a function, the trail and the scopes that wait lead to scopes
inside the function, whatever the tokens are. And while no token leads off the way, an exit that no
other function stands around leads to a scope of the function itself, so a `var` there declares a
name of the function. Both are kept by each walk along the trail, so by a step, and so by a run.
-/

namespace Minify.Tracker

/-- All that a trail leads to lies inside a scope. -/
def Within (scopes : Array Scope) (f : ScopeId) (way : List Exit) : Prop :=
  ∀ x ∈ way, f ∈ Scope.ancestors scopes x.scope

/-- What a trail leads to, with no other function around, lies in a function and in none inside it.
-/
def Homed (scopes : Array Scope) (f : ScopeId) : List Exit → Prop
  | [] => True
  | x :: way =>
    ((∀ y ∈ way, y.leaves = false) → nearestFunction scopes x.scope = f) ∧ Homed scopes f way

variable {last s t u : Tracker} {site : Site} {next : Option Token} {floor : Nat}
variable {waits : ScopeId → Prop} {stray : Prop} {way way' : List Exit} {c f id : ScopeId}

/-! ### Walks -/

lemma Child.ancestors {kind : ScopeKind} (h : Child last c kind id) :
    Scope.ancestors last.scopes id = id :: Scope.ancestors last.scopes c := by
  obtain ⟨⟨sc, hsc, hparent, -⟩, hlt⟩ := h
  exact Scope.ancestors_of_parent (by rw [hsc]; exact hparent) hlt

lemma Child.within {kind : ScopeKind} (h : Child last c kind id)
    (hc : f ∈ Scope.ancestors last.scopes c) : f ∈ Scope.ancestors last.scopes id := by
  rw [h.ancestors]
  exact List.mem_cons_of_mem _ hc

/-- A block and a catch clause are parts of the function around them. -/
lemma Child.nearestFunction {kind : ScopeKind} (h : Child last c kind id)
    (hk : kind = .block ∨ kind = .catchClause) :
    nearestFunction last.scopes id = nearestFunction last.scopes c := by
  obtain ⟨sc, hsc, -, hkind⟩ := h.exists_scope
  have hinner : (last.scopes[id]?).any Scope.isInner = true := by
    rw [hsc, Option.any_some, Scope.isInner, hkind]
    rcases hk with rfl | rfl <;> rfl
  unfold Tracker.nearestFunction
  rw [h.ancestors, List.find?_cons_of_neg (by simp [hinner])]

lemma Walk.within (h : Walk last waits stray way way')
    (hw : ∀ id, waits id → f ∈ Scope.ancestors last.scopes id) (hway : Within last.scopes f way) :
    Within last.scopes f way' := by
  unfold Within at hway ⊢
  cases h with
  | inside hc hl =>
    simp only [List.forall_mem_cons] at hway ⊢
    exact ⟨hc.within hway.1, hway⟩
  | waiting hid hl =>
    simp only [List.forall_mem_cons] at hway ⊢
    exact ⟨hw _ hid, hway⟩
  | bracket =>
    simp only [List.forall_mem_cons] at hway ⊢
    exact ⟨hway.1, hway⟩
  | block hc hl =>
    simp only [List.forall_mem_cons] at hway ⊢
    exact ⟨hc.within hway.1, hway.2⟩
  | back =>
    simp only [List.forall_mem_cons] at hway ⊢
    exact hway.2
  | drop hl =>
    simp only [List.forall_mem_cons] at hway ⊢
    exact ⟨hway.1, hway.2.2⟩
  | past hl =>
    simp only [List.forall_mem_cons] at hway ⊢
    exact ⟨hway.2.2.1, hway.2.1, hway.2.2.2⟩

lemma Walks.within (h : Walks last waits stray way way')
    (hw : ∀ id, waits id → f ∈ Scope.ancestors last.scopes id) (hway : Within last.scopes f way) :
    Within last.scopes f way' := by
  induction h with
  | refl => exact hway
  | tail _ hwalk ih => exact hwalk.within hw ih

lemma Walk.homed (h : Walk last waits stray way way') (hs : ¬stray)
    (hway : Homed last.scopes f way) : Homed last.scopes f way' := by
  cases h with
  | inside hc hl =>
    refine ⟨fun hstays => ?_, hway⟩
    obtain ⟨hleaves, hrest⟩ := List.forall_mem_cons.mp hstays
    rw [hc.nearestFunction (hl.resolve_left fun hl => by cases hl.symm.trans hleaves)]
    exact hway.1 hrest
  | waiting hid hl =>
    refine ⟨fun hstays => ?_, hway⟩
    obtain ⟨hleaves, hrest⟩ := List.forall_mem_cons.mp hstays
    rw [(hl.resolve_left fun hl => by cases hl.symm.trans hleaves).resolve_right hs]
    exact hway.1 hrest
  | bracket => exact ⟨fun hstays => hway.1 (List.forall_mem_cons.mp hstays).2, hway⟩
  | block hc hl =>
    refine ⟨fun hstays => ?_, hway.2⟩
    rw [hc.nearestFunction (.inl rfl)]
    exact hway.1 hstays
  | back => exact hway.2
  | drop hl =>
    refine ⟨fun hstays => ?_, hway.2.2⟩
    rcases hl with hl | ⟨y, hy, hl⟩ | hl
    · exact hway.1 (List.forall_mem_cons.mpr ⟨hl, hstays⟩)
    · rw [hstays y hy] at hl
      cases hl
    · exact absurd hl hs
  | past hl =>
    obtain ⟨-, hx, hy, hrest⟩ := hway
    exact ⟨fun hstays => hy (List.forall_mem_cons.mp hstays).2,
      fun hstays => hx (List.forall_mem_cons.mpr ⟨hl.resolve_right hs, hstays⟩), hrest⟩

lemma Walks.homed (h : Walks last waits stray way way') (hs : ¬stray)
    (hway : Homed last.scopes f way) : Homed last.scopes f way' := by
  induction h with
  | refl => exact hway
  | tail _ hwalk ih => exact hwalk.homed hs ih

/-! ### Inside a function -/

/-- Nothing leads out of a scope above a floor. -/
structure Enclosed (last : Tracker) (f : ScopeId) (floor : Nat) (s : Tracker) : Prop where
  trail : Within last.scopes f (s.trail floor)
  waits : ∀ id, s.Waits id → f ∈ Scope.ancestors last.scopes id

lemma Enclosed.current (h : Enclosed last f floor s) : f ∈ Scope.ancestors last.scopes s.current :=
  h.trail ⟨false, s.current⟩ List.mem_cons_self

lemma Enclosed.prepare (h : Enclosed last f floor s) (site : Site) :
    Enclosed last f floor (s.prepare site) := by
  have hwalks : Walks last s.Waits (Strays last.scopes floor s site) (s.trail floor)
      ((s.prepare site).trail floor) := walks_prepare s site
  exact ⟨hwalks.within h.waits h.trail, fun id hid => h.waits id (waits_prepare hid)⟩

lemma Enclosed.step (h : Enclosed last f floor s) (ha : Above last floor s site next) :
    Enclosed last f floor (s.step site next) := by
  have hp : Enclosed last f floor (s.prepare site) := h.prepare site
  refine ⟨ha.walks.within h.waits hp.trail, fun id hid => ?_⟩
  have hawaits : Awaits last (s.prepare site) ((s.prepare site).read site next) :=
    awaits_read ((quiet_prepare site).bounded ha.bounded) ha.keeps
  rcases hawaits id hid with hid | ⟨kind, hchild⟩
  · exact hp.waits id hid
  · exact hchild.within hp.current

lemma Enclosed.recorded (h : Enclosed last f floor s) (ha : Above last floor s site next)
    {o : Occurrence} (ho : o ∈ (s.step site next).occurrences) :
    o ∈ s.occurrences ∨ f ∈ Scope.ancestors last.scopes o.scope := by
  have hp : Enclosed last f floor (s.prepare site) := h.prepare site
  have hoccurrences : (s.prepare site).occurrences = s.occurrences :=
    (quiet_prepare site).occurrences
  rcases recordsHere_read (s.prepare site) site next o ho with ho | ho | ⟨declaration, ho⟩
  · exact .inl (hoccurrences ▸ ho)
  · rw [ho]
    exact .inr (h.step ha).current
  · exact .inr (hp.waits _ (.inr (.inl ⟨declaration, ho⟩)))

/-! ### The frames and the bodies at the floor -/

/-- What a move does to the frames: it opens one or closes the innermost. -/
lemma Shift.seats (h : Shift last site s t) : t.seats = s.seats ∨ (∃ x, t.seats = x :: s.seats) ∨
    (∃ c, Site.bracket site.token = .closes c) ∧ t.seats = s.seats.tail := by
  cases h with
  | rests h => exact .inl h.seats
  | ends hn h => exact .inl h.seats
  | begins hb h =>
    cases h with
    | rests h => exact .inl h.seats
    | bare hb hk hp hbodies hc hs => exact .inl hs
    | missing hb hp hbodies hc hs => exact .inl hs
  | enters h => exact .inl h.seats
  | opens h hf hp hb hs => exact .inr (.inl ⟨_, hs⟩)
  | closes hsite hn h ho hb hs => exact .inr (.inr ⟨hsite, hs⟩)

lemma Begins.seats (h : Begins s t) : t.seats = s.seats := by
  cases h with
  | rests h => exact h.seats
  | bare hb hk hp hbodies hc hs => exact hs
  | missing hb hp hbodies hc hs => exact hs

lemma seats_prepare (s : Tracker) (site : Site) : (s.prepare site).seats = s.seats := by
  obtain ⟨ended, hends, -⟩ := ends_afterLine s site
  exact (begins_beginBody (s := s.afterLine site) site.token).seats.trans hends.seats

lemma Above.seats {base : List ((FrameKind × ScopeId) × Bool)}
    (h : Above last base.length s site next) (hb : base <:+ s.seats) :
    base <:+ (s.step site next).seats := by
  obtain ⟨u, ended, hshift, hends, -⟩ := h.shifts
  have hseats : (s.step site next).seats = u.seats := hends.seats
  rw [← seats_prepare s site] at hb
  rw [hseats]
  rcases hshift.seats with he | ⟨x, he⟩ | ⟨hsite, he⟩
  · rwa [he]
  · rw [he]
    exact hb.trans (List.suffix_cons _ _)
  · obtain ⟨frames, hframes⟩ := hb
    have hlength : base.length < (s.prepare site).seats.length := by
      rw [seats_prepare, length_seats]
      exact h.lt hsite
    have hne : frames ≠ [] := by
      rintro rfl
      simp [← hframes] at hlength
    rw [he, ← hframes, List.tail_append_of_ne_nil hne]
    exact List.suffix_append _ _

/-- Of the bodies begun in one frame above a floor, those of arrows are inside those of loops. -/
def ArrowsInside (floor : Nat) (bodies : List OpenBody) : Prop :=
  bodies.Pairwise fun a b => floor ≤ a.depth → a.depth = b.depth → b.endsAtComma = true →
    a.endsAtComma = true

lemma ArrowsInside.sublist {bodies bodies' : List OpenBody} (h : ArrowsInside floor bodies)
    (hs : bodies'.Sublist bodies) : ArrowsInside floor bodies' := List.Pairwise.sublist hs h

lemma ArrowsInside.arrow {bodies : List OpenBody} (h : ArrowsInside floor bodies) {b : OpenBody}
    (hb : b.endsAtComma = true) : ArrowsInside floor (b :: bodies) :=
  List.pairwise_cons.mpr ⟨fun _ _ _ _ _ => hb, h⟩

lemma Ends.arrowsInside {ended : List OpenBody} (h : Ends s t ended)
    (hs : ArrowsInside floor s.openBodies) : ArrowsInside floor t.openBodies :=
  hs.sublist (h.openBodies ▸ List.sublist_append_right _ _)

lemma Shift.arrowsInside (h : Shift last site s t) (hs : ArrowsInside floor s.openBodies) :
    ArrowsInside floor t.openBodies := by
  cases h with
  | rests h => rwa [h.openBodies]
  | ends hn h => exact h.arrowsInside hs
  | begins hb h =>
    cases h with
    | rests h => rwa [h.openBodies]
    | bare hb' hk hp hbodies hc hs' =>
      cases hb.symm.trans hb'
      rw [hbodies]
      exact hs.arrow rfl
    | missing hb' hp hbodies hc hs' => rwa [hbodies]
  | enters h => rwa [h.openBodies]
  | opens h hf hp hb hs' => rwa [hb]
  | closes hsite hn h ho hb hs' =>
    rw [hb]
    exact hs.sublist List.filter_sublist

lemma arrowsInside_prepare (hs : ArrowsInside floor s.openBodies) {scopes : Array Scope}
    (hstray : ¬Strays scopes floor s site) : ArrowsInside floor (s.prepare site).openBodies := by
  obtain ⟨ended, hends, -⟩ := ends_afterLine s site
  have hline : ArrowsInside floor (s.afterLine site).openBodies := hends.arrowsInside hs
  have hbegins : Begins (s.afterLine site) (s.prepare site) := begins_beginBody site.token
  cases hbegins with
  | rests h => rwa [h.openBodies]
  | missing hb hp hbodies hc hs' => rwa [hbodies]
  | @bare b hb hk hp hbodies hc hs' =>
    rw [hbodies]
    cases hkind : b.kind with
    | function => exact hline.arrow rfl
    | catchClause => exact absurd hkind hk
    | loop =>
      -- a loop inside the body of an arrow would be a stray
      refine List.pairwise_cons.mpr ⟨fun x hx _ hdepth harrow => absurd ?_ hstray, hline⟩
      obtain ⟨kind, restore⟩ := b
      subst hkind
      have hdepth : s.depth ≤ x.depth := Nat.le_of_eq (depth_congr hends.seats ▸ hdepth)
      refine .loop (hends.pendingBody ▸ hb) hp (List.mem_filter.mpr ⟨?_, decide_eq_true hdepth⟩)
        harrow
      rw [hends.openBodies]
      exact List.mem_append_right _ hx

lemma Above.arrowsInside (h : Above last floor s site next) (hs : ArrowsInside floor s.openBodies)
    (hstray : ¬Strays last.scopes floor s site) :
    ArrowsInside floor (s.step site next).openBodies := by
  obtain ⟨u, ended, hshift, hends, -⟩ := h.shifts
  have hread : ArrowsInside floor ((s.prepare site).read site next).openBodies :=
    hends.arrowsInside (hshift.arrowsInside (arrowsInside_prepare hs hstray))
  exact hread

/-- A comma ends all bodies of arrows begun in its frame. -/
lemma ArrowsInside.endBodies {d : Nat} {bodies : List OpenBody} (h : ArrowsInside floor bodies)
    (ht : Tidy d bodies) (hd : floor ≤ d) (c : ScopeId) :
    ∀ b ∈ (endBodies d true c bodies).2, d ≤ b.depth → b.endsAtComma = false := by
  induction bodies generalizing c with
  | nil => exact fun b hb => absurd hb List.not_mem_nil
  | cons a rest ih =>
    obtain ⟨hfirst, hrest⟩ := List.pairwise_cons.mp h
    obtain ⟨hle, hpairwise⟩ := List.pairwise_cons.mp ht.pairwise
    intro b hb hdeep
    rw [Tracker.endBodies] at hb
    split at hb
    · rename_i hstop
      rcases List.mem_cons.mp hb with rfl | hb
      · simpa [Nat.not_lt.mpr hdeep] using hstop
      · -- the bodies around one that goes on are no arrows either
        have hnested : b.depth ≤ a.depth := hle b hb
        have htop : a.depth ≤ d := ht.le a List.mem_cons_self
        have harrow : a.endsAtComma = false := by
          simpa [Nat.not_lt.mpr (Nat.le_trans hdeep hnested)] using hstop
        refine Bool.eq_false_iff.mpr fun hbarrow => ?_
        rw [hfirst b hb (by omega) (by omega) hbarrow] at harrow
        cases harrow
    · exact ih hrest ⟨hpairwise, fun x hx => ht.le x (List.mem_cons_of_mem _ hx)⟩ a.restore b hb
        hdeep

/-! ### Runs -/

/-- What holds when each of some sites is about to be read. -/
def Throughout (P : Tracker → Site → Prop) (s : Tracker) (sites : List Site) : Prop :=
  ∀ front site back, sites = front ++ site :: back → P (s.readAll (some site.token) front) site

variable {P Q : Tracker → Site → Prop}

lemma throughout_cons {rest : List Site} (next : Option Token) :
    Throughout P s (site :: rest) ↔ P s site ∧
      Throughout P (s.step site ((rest.head?.map Site.token).or next)) rest := by
  have hread (front back : List Site) (x : Site) (hrest : rest = front ++ x :: back) :
      s.readAll (some x.token) (site :: front)
        = (s.step site ((rest.head?.map Site.token).or next)).readAll (some x.token) front := by
    have hnext : (front.head?.map Site.token).or (some x.token)
        = (rest.head?.map Site.token).or next := by
      rw [hrest]
      cases front <;> rfl
    rw [readAll, hnext]
  constructor
  · refine fun h => ⟨h [] site rest rfl, fun front x back hrest => ?_⟩
    rw [← hread front back x hrest]
    exact h (site :: front) x back (by rw [hrest, List.cons_append])
  · rintro ⟨hsite, h⟩ front x back he
    cases front with
    | nil =>
      cases he
      exact hsite
    | cons y front =>
      obtain ⟨rfl, hrest⟩ := List.cons_eq_cons.mp he
      rw [hread front back x hrest]
      exact h front x back hrest

instance [∀ s site, Decidable (P s site)] :
    ∀ (s : Tracker) (sites : List Site), Decidable (Throughout P s sites)
  | _, [] => .isTrue fun front site back he => by cases front <;> cases he
  | s, site :: rest =>
    have := instDecidableThroughout (s.step site ((rest.head?.map Site.token).or none)) rest
    decidable_of_iff _ (throughout_cons none).symm

lemma Throughout.mono {sites : List Site} (h : Throughout P s sites)
    (hPQ : ∀ s site, P s site → Q s site) : Throughout Q s sites :=
  fun front site back he => hPQ _ _ (h front site back he)

lemma Throughout.left {xs ys : List Site} (h : Throughout P s (xs ++ ys)) : Throughout P s xs := by
  intro front site back he
  exact h front site (back ++ ys) (by rw [he, List.append_assoc, List.cons_append])

lemma Throughout.right {xs ys : List Site} (h : Throughout P s (xs ++ ys)) :
    Throughout P (s.readAll (ys.head?.map Site.token) xs) ys := by
  intro front site back he
  have hnext : (front.head?.map Site.token).or (some site.token) = ys.head?.map Site.token := by
    rw [he]
    cases front <;> rfl
  have hsite := h (xs ++ front) site back (by rw [he, List.append_assoc])
  rwa [readAll_append, hnext] at hsite

variable {base : List (FrameKind × ScopeId)} {bodies : List OpenBody}

/-- A site whose bracket fits is read above the frames outside. -/
lemma Inside.above {n : Nat} {stack stack' : List (Char × Nat)} (h : Inside base bodies n s)
    (hn : n = stack.length) (hb : Bounded s)
    (hfits : Brackets.step stack site.token = .ok stack') (hl : Keeps (s.step site next) last) :
    Above last base.length s site next := by
  have hdepth := h.depth
  refine ⟨h.tidy, hb, by omega, fun ⟨c, hc⟩ => ?_, hl⟩
  rw [Brackets.step, hc] at hfits
  cases stack with
  | nil => cases hfits
  | cons x stack =>
    rw [List.length_cons] at hn
    omega

lemma Inside.induction_from {R : Tracker → Prop} {sites : List Site}
    {stack stack' : List (Char × Nat)} (h : Inside base bodies stack.length s) (hbase : base ≠ [])
    (hb : Bounded s)
    (hfits : (sites.map Site.token).foldlM Brackets.step stack = .ok stack')
    (hl : Keeps (s.readAll next sites) last) (hP : Throughout P s sites)
    (hstep : ∀ {s site next}, Above last base.length s site next → P s site → R s →
      R (s.step site next)) (hR : R s) : R (s.readAll next sites) := by
  induction sites generalizing s stack with
  | nil => exact hR
  | cons site rest ih =>
    rw [List.map_cons, List.foldlM_cons] at hfits
    obtain ⟨hsite, hrest⟩ := (throughout_cons next).mp hP
    cases hfirst : Brackets.step stack site.token with
    | error e =>
      rw [hfirst] at hfits
      cases hfits
    | ok mid =>
      rw [hfirst] at hfits
      have ha := h.above rfl hb hfirst ((keeps_readAll _ next rest).trans hl)
      exact ih (h.steps hbase hfirst (steps_step s site _)) ((reads_step s site _).bounded hb) hfits
        hl hrest (hstep ha hsite hR)

variable {sites : List Site} {stack : List (Char × Nat)}

/-- **What each step above a floor keeps, a run keeps.** -/
theorem Inside.induction {R : Tracker → Prop} (h : Inside base bodies 0 s) (hbase : base ≠ [])
    (hb : Bounded s) (hfits : (sites.map Site.token).foldlM Brackets.step [] = .ok stack)
    (hl : Keeps (s.readAll next sites) last) (hP : Throughout P s sites)
    (hstep : ∀ {s site next}, Above last base.length s site next → P s site → R s →
      R (s.step site next)) (hR : R s) : R (s.readAll next sites) :=
  induction_from h hbase hb hfits hl hP hstep hR

/-- Over a part that begins in the innermost frame outside, frames follow brackets. -/
lemma Inside.readAll (h : Inside base bodies 0 s) (hbase : base ≠ []) (next : Option Token)
    (hfits : (sites.map Site.token).foldlM Brackets.step [] = .ok stack) :
    Inside base bodies stack.length (s.readAll next sites) := inside_readAll h hbase next hfits

end Minify.Tracker
