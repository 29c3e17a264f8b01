import Minify.Proofs.RecordedNames
import Minify.Proofs.TrackerStack

/-!
Runs of the tracker over a part of the sites of a script.

A part is read with a view to the token after it. It keeps the scopes there are, with their parents,
and the occurrences recorded so far, and every scope it may still record in is one there is. When
the brackets of the part are balanced, it leaves the frames as they were, and the bodies begun
outside.
-/

namespace Minify.Tracker

/-- Reads some of the sites of a script; `next` is the token after them. -/
def readAll (s : Tracker) (next : Option Token) : List Site → Tracker
  | [] => s
  | site :: rest => (s.step site ((rest.head?.map Site.token).or next)).readAll next rest

variable {s t u : Tracker} {site : Site} {next : Option Token}

lemma run_append (s : Tracker) (xs ys : List Site) :
    s.run (xs ++ ys) = (s.readAll (ys.head?.map Site.token) xs).run ys := by
  induction xs generalizing s with
  | nil => rfl
  | cons x xs ih =>
    rw [List.cons_append, run, readAll, ih, List.head?_append, Option.map_or]

lemma run_eq_readAll (s : Tracker) (xs : List Site) : s.run xs = s.readAll none xs := by
  induction xs generalizing s with
  | nil => rfl
  | cons x xs ih => rw [run, readAll, ih, Option.or_none]

lemma readAll_append (s : Tracker) (next : Option Token) (xs ys : List Site) :
    s.readAll next (xs ++ ys)
      = (s.readAll ((ys.head?.map Site.token).or next) xs).readAll next ys := by
  induction xs generalizing s with
  | nil => rfl
  | cons x xs ih =>
    rw [List.cons_append, readAll, readAll, ih, List.head?_append, Option.map_or, Option.or_assoc]

/-! ### What stays -/

/-- The scopes stay with their parents, and the occurrences stay. -/
structure Grows (s t : Tracker) : Prop where
  size : s.scopes.size ≤ t.scopes.size
  parent : ∀ i < s.scopes.size,
    (t.scopes[i]?).bind Scope.parent = (s.scopes[i]?).bind Scope.parent
  occurrences : s.occurrences <:+ t.occurrences

lemma Grows.of_eq (hs : t.scopes = s.scopes) (ho : t.occurrences = s.occurrences) : Grows s t :=
  ⟨hs ▸ Nat.le_refl _, fun _ _ => by rw [hs], ho ▸ List.suffix_refl _⟩

lemma Grows.refl (s : Tracker) : Grows s s := .of_eq rfl rfl

lemma Grows.trans (h : Grows s t) (h' : Grows t u) : Grows s u :=
  ⟨Nat.le_trans h.size h'.size,
    fun i hi => (h'.parent i (Nat.lt_of_lt_of_le hi h.size)).trans (h.parent i hi),
    h.occurrences.trans h'.occurrences⟩

lemma Grows.ancestors (h : Grows s t) {id : ScopeId} (hid : id < s.scopes.size) :
    Scope.ancestors t.scopes id = Scope.ancestors s.scopes id :=
  Scope.ancestors_congr fun i hi => h.parent i (Nat.lt_of_le_of_lt hi hid)

/-- The scopes to record in and those recorded are scopes there are, all of them inside the global
one. -/
structure Bounded (s : Tracker) : Prop where
  live : ∀ id, s.Live id → id < s.scopes.size
  recorded : ∀ o ∈ s.occurrences, o.scope < s.scopes.size
  rooted : ∀ id < s.scopes.size, ScopeTree.global ∈ Scope.ancestors s.scopes id

lemma parent_push {scopes : Array Scope} (sc : Scope) {i : ScopeId} (h : i < scopes.size) :
    ((scopes.push sc)[i]?).bind Scope.parent = (scopes[i]?).bind Scope.parent := by
  rw [Array.getElem?_push_lt h, Array.getElem?_eq_getElem h]

lemma size_markEval (s : Tracker) : s.markEval.scopes.size = s.scopes.size := by
  have hfold (ids : List ScopeId) (scopes : Array Scope) :
      (ids.foldl (fun scopes id => scopes.modify id fun sc => { sc with hasEval := true })
        scopes).size = scopes.size := by
    induction ids generalizing scopes with
    | nil => rfl
    | cons id ids ih => rw [List.foldl_cons, ih, Array.size_modify]
  exact hfold _ _

lemma Quiet.grows (h : Quiet s t) : Grows s t := by
  induction h with
  | refl => exact .refl _
  | settle _ m ih => exact ih.trans (.of_eq m.scopes m.occurrences)
  | add _ m ih =>
    refine ih.trans ⟨?_, fun i hi => ?_, m.occurrences ▸ List.suffix_refl _⟩
    · rw [m.scopes, Array.size_push]
      exact Nat.le_succ _
    · rw [m.scopes]
      exact parent_push _ hi
  | @mark v _ ih =>
    refine ih.trans ⟨Nat.le_of_eq (size_markEval v).symm, fun i _ => ?_, List.suffix_refl _⟩
    rw [getElem?_markEval]
    cases v.scopes[i]? <;> rfl

/-- The way outwards from a scope inside the current one. -/
lemma Opens.ancestors {kind : ScopeKind} (m : Opens kind s t) (hs : Bounded s) :
    Scope.ancestors t.scopes s.scopes.size
      = s.scopes.size :: Scope.ancestors s.scopes s.current := by
  have hcur := hs.live _ .current
  rw [Scope.ancestors_of_parent _ hcur, m.quiet.grows.ancestors hcur]
  rw [m.scopes, Array.getElem?_push_size]
  rfl

/-- The scopes stay as they are, and no further scope is live. -/
lemma Bounded.of_grows (hs : Bounded s) (h : Grows s t) (hsize : t.scopes.size = s.scopes.size)
    (ho : ∀ o ∈ t.occurrences, o ∈ s.occurrences ∨ s.Live o.scope)
    (hl : ∀ id, t.Live id → s.Live id) : Bounded t := by
  refine ⟨fun id hid => hsize ▸ hs.live id (hl id hid), fun o hmem => ?_, fun id hid => ?_⟩
  · rw [hsize]
    exact (ho o hmem).elim (hs.recorded o) (hs.live _)
  · rw [hsize] at hid
    rw [h.ancestors hid]
    exact hs.rooted id hid

lemma Opens.bounded {kind : ScopeKind} (m : Opens kind s t) (hs : Bounded s) : Bounded t := by
  have hsize : t.scopes.size = s.scopes.size + 1 := by rw [m.scopes, Array.size_push]
  refine ⟨fun id hid => ?_, fun o ho => ?_, fun id hid => ?_⟩
  · rw [hsize]
    rcases m.live id hid with hid | rfl
    · exact Nat.lt_succ_of_lt (hs.live id hid)
    · exact Nat.lt_succ_self _
  · rw [m.occurrences] at ho
    rw [hsize]
    exact Nat.lt_succ_of_lt (hs.recorded o ho)
  · rw [hsize] at hid
    rcases Nat.lt_succ_iff_lt_or_eq.mp hid with hid | rfl
    · rw [m.quiet.grows.ancestors hid]
      exact hs.rooted id hid
    · rw [m.ancestors hs]
      exact List.mem_cons_of_mem _ (hs.rooted _ (hs.live _ .current))

lemma Settles.bounded (m : Settles s t) (hs : Bounded s) : Bounded t :=
  hs.of_grows (.of_eq m.scopes m.occurrences) (by rw [m.scopes])
    (fun o ho => .inl (m.occurrences ▸ ho)) m.live

lemma live_markEval {id : ScopeId} : s.markEval.Live id ↔ s.Live id := by
  simp [live_iff, markEval]

lemma Quiet.bounded (h : Quiet s t) (hs : Bounded s) : Bounded t := by
  induction h with
  | refl => exact hs
  | settle _ m ih => exact m.bounded ih
  | add _ m ih => exact m.bounded ih
  | @mark v _ ih =>
    exact ih.of_grows (Quiet.mark (.refl v)).grows (size_markEval v) (fun _ ho => .inl ho)
      fun _ => live_markEval.mp

lemma live_mention {scope id : ScopeId} {shorthand : Bool} :
    (s.mention site scope shorthand).Live id ↔ s.Live id := by
  simp [live_iff, mention]

lemma live_declareIn {target scope id : ScopeId} {shorthand : Bool} :
    (s.declareIn site target scope shorthand).Live id ↔ s.Live id := by
  simp [live_iff, declareIn, mention]

lemma grows_declareIn (target scope : ScopeId) (shorthand : Bool) :
    Grows s (s.declareIn site target scope shorthand) := by
  refine ⟨?_, fun i _ => ?_, List.suffix_cons _ _⟩
  · exact Nat.le_of_eq Array.size_modify.symm
  · rw [getElem?_declareIn]
    split
    · cases s.scopes[i]? with
      | none => rfl
      | some sc =>
        unfold Scope.bind
        simp only [Option.map_some, Option.bind_some]
        split <;> rfl
    · rfl

lemma Reads.grows (h : Reads site s t) : Grows s t := by
  induction h with
  | quiet h => exact h.grows
  | mention h _ _ sh => exact h.grows.trans ⟨Nat.le_refl _, fun _ _ => rfl, List.suffix_cons _ _⟩
  | declare h _ _ _ sh => exact h.grows.trans (grows_declareIn _ _ sh)
  | settle _ m ih => exact ih.trans (.of_eq m.scopes m.occurrences)

lemma Reads.bounded (h : Reads site s t) (hs : Bounded s) : Bounded t := by
  induction h with
  | quiet h => exact h.bounded hs
  | mention h hi hl sh =>
    refine (h.bounded hs).of_grows (Reads.mention (.refl _) hi hl sh).grows rfl (fun o ho => ?_)
      fun _ => live_mention.mp
    rcases List.mem_cons.mp ho with rfl | ho
    · exact .inr hl
    · exact .inl ho
  | declare h _ hl _ sh =>
    refine (h.bounded hs).of_grows (grows_declareIn _ _ sh) Array.size_modify (fun o ho => ?_)
      fun _ => live_declareIn.mp
    rcases List.mem_cons.mp ho with rfl | ho
    · exact .inr hl
    · exact .inl ho
  | settle _ m ih => exact m.bounded ih

lemma grows_prepare (s : Tracker) (site : Site) (next : Option Token) :
    Grows (s.prepare site) (s.step site next) :=
  (reads_read site next).grows.trans (.of_eq rfl rfl)

lemma grows_readAll (s : Tracker) (next : Option Token) (sites : List Site) :
    Grows s (s.readAll next sites) := by
  induction sites generalizing s with
  | nil => exact .refl s
  | cons site rest ih => exact (reads_step s site _).grows.trans (ih _)

lemma bounded_readAll (next : Option Token) (sites : List Site) (hs : Bounded s) :
    Bounded (s.readAll next sites) := by
  induction sites generalizing s with
  | nil => exact hs
  | cons site rest ih => exact ih ((reads_step s site _).bounded hs)

lemma bounded_start : Bounded start := by
  refine ⟨fun id hid => ?_, fun o ho => (List.not_mem_nil ho).elim, fun id hid => ?_⟩
  · have h : id = ScopeTree.global := by simpa [live_iff, start, Frame.ofKind] using hid
    rw [h]
    exact Nat.zero_lt_one
  · have h : id = 0 := Nat.lt_one_iff.mp hid
    rw [h]
    exact Scope.self_mem_ancestors _ _

/-! ### Balanced parts -/

/-- Some frames are open inside those of `base`, and the bodies begun outside these are `bodies`. -/
structure Inside (base : List (FrameKind × ScopeId)) (bodies : List OpenBody) (n : Nat)
    (s : Tracker) : Prop where
  stack : ∃ frames, frames.length = n ∧ s.stack = frames ++ base
  below : bodiesBelow base.length s.openBodies = bodies
  tidy : Tidy s.depth s.openBodies

variable {base : List (FrameKind × ScopeId)} {bodies : List OpenBody} {n : Nat}

lemma Inside.depth (h : Inside base bodies n s) : s.depth = n + base.length := by
  obtain ⟨frames, hn, hs⟩ := h.stack
  rw [← length_stack, hs, List.length_append, hn]

lemma Inside.level (h : Inside base bodies n s) (h' : Level s t) : Inside base bodies n t := by
  have hdepth := h.depth
  refine ⟨h'.stack ▸ h.stack, ?_, ?_⟩
  · rw [h'.below _ (by omega), h.below]
  · rw [h'.depth]
    exact h'.tidy h.tidy

lemma Inside.deeper (h : Inside base bodies n s) (h' : Deeper s t) :
    Inside base bodies (n + 1) t := by
  obtain ⟨frames, hn, hs⟩ := h.stack
  obtain ⟨m, hm⟩ := h'.stack
  refine ⟨⟨m :: frames, congrArg (· + 1) hn, by rw [hm, hs, List.cons_append]⟩, ?_, ?_⟩
  · rw [h'.bodies, h.below]
  · have hdepth : t.depth = s.depth + 1 := by
      rw [← length_stack, hm, List.length_cons, length_stack]
    rw [h'.bodies, hdepth]
    exact ⟨h.tidy.pairwise, fun b hb => Nat.le_succ_of_le (h.tidy.le b hb)⟩

lemma Inside.shallower (h : Inside base bodies (n + 1) s) (h' : Shallower s t) :
    Inside base bodies n t := by
  have hdepth := h.depth
  obtain ⟨frames, hn, hs⟩ := h.stack
  refine ⟨⟨frames.tail, ?_, ?_⟩, ?_, h'.tidy h.tidy⟩
  · rw [List.length_tail, hn, Nat.add_sub_cancel]
  · rw [h'.stack, hs]
    exact List.tail_append_of_ne_nil (List.ne_nil_of_length_eq_add_one hn)
  · rw [h'.below _ (by omega), h.below]

lemma Inside.steps {stack stack' : List (Char × Nat)} (h : Inside base bodies stack.length s)
    (hbase : base ≠ []) (hfits : Brackets.step stack site.token = .ok stack')
    (h' : Steps (Site.bracket site.token) s t) : Inside base bodies stack'.length t := by
  rw [Brackets.step_eq_ok_iff] at hfits
  cases hb : Site.bracket site.token with
  | opens c =>
    rw [hb] at hfits h'
    obtain ⟨u, hu, hd⟩ := h'
    obtain rfl := hfits
    exact (h.level hu).deeper hd
  | closes c =>
    rw [hb] at hfits h'
    obtain ⟨opener, i, rfl, -⟩ := hfits
    have houter : s.outer ≠ [] := by
      have hdepth := h.depth
      have hpos := List.length_pos_of_ne_nil hbase
      rw [Tracker.depth, List.length_cons] at hdepth
      exact List.ne_nil_of_length_pos (by omega)
    obtain ⟨u, hu, hd⟩ := h' houter
    exact (h.level hu).shallower hd
  | reopens =>
    rw [hb] at hfits h'
    obtain ⟨opener, i, rest, rfl, -, rfl⟩ := hfits
    exact h.level h'
  | none =>
    rw [hb] at hfits h'
    obtain rfl := hfits
    exact h.level h'

/-- **Frames follow brackets.** Over a part whose brackets fit, the frames outside stay as they were
and so do the bodies begun outside. -/
theorem inside_readAll {sites : List Site} {stack stack' : List (Char × Nat)}
    (h : Inside base bodies stack.length s) (hbase : base ≠ []) (next : Option Token)
    (hfits : (sites.map Site.token).foldlM Brackets.step stack = .ok stack') :
    Inside base bodies stack'.length (s.readAll next sites) := by
  induction sites generalizing s stack with
  | nil =>
    cases hfits
    exact h
  | cons site rest ih =>
    rw [List.map_cons, List.foldlM_cons] at hfits
    cases hstep : Brackets.step stack site.token with
    | error e =>
      rw [hstep] at hfits
      cases hfits
    | ok mid =>
      rw [hstep] at hfits
      exact ih (h.steps hbase hstep (steps_step s site _)) hfits

end Minify.Tracker
