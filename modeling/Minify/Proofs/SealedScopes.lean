import Minify.Proofs.TrackerRuns

/-!
Scopes that are over.

A scope is sealed when no scope that the tracker may still record in lies in it. New scopes begin
inside the current one and names are bound on the way outwards from a live scope, so a sealed scope
stays sealed, and neither an occurrence nor a name is added to it or to a scope inside it.
-/

namespace Minify.Tracker

/-- Nothing can be recorded in a scope or inside it any more. -/
def Sealed (scope : ScopeId) (s : Tracker) : Prop :=
  ∀ id, s.Live id → scope ∉ Scope.ancestors s.scopes id

/-- A scope and those inside it get neither an occurrence nor a name. -/
structure Untouched (scope : ScopeId) (s t : Tracker) : Prop where
  occurrence : ∀ o ∈ t.occurrences,
    o ∈ s.occurrences ∨ scope ∉ Scope.ancestors t.scopes o.scope
  binding : ∀ id name, scope ∈ Scope.ancestors t.scopes id →
    Scope.binds t.scopes id name = true → Scope.binds s.scopes id name = true

variable {s t u : Tracker} {site : Site} {next : Option Token} {scope : ScopeId}

lemma lt_size_of_binds {scopes : Array Scope} {id : ScopeId} {name : String}
    (h : Scope.binds scopes id name = true) : id < scopes.size := by
  by_contra hid
  rw [Scope.binds, Array.getElem?_eq_none (Nat.not_lt.mp hid)] at h
  cases h

lemma Untouched.of_eq (hs : t.scopes = s.scopes) (ho : t.occurrences = s.occurrences) :
    Untouched scope s t :=
  ⟨fun _ h => .inl (ho ▸ h), fun _ _ _ h => hs ▸ h⟩

lemma Untouched.trans (h : Untouched scope s t) (h' : Untouched scope t u) (hg : Grows t u)
    (hb : Bounded t) : Untouched scope s u := by
  refine ⟨fun o ho => ?_, fun id name hid hn => ?_⟩
  · rcases h'.occurrence o ho with ht | ht
    · rw [hg.ancestors (hb.recorded o ht)]
      exact h.occurrence o ht
    · exact .inr ht
  · have hn' := h'.binding id name hid hn
    rw [hg.ancestors (lt_size_of_binds hn')] at hid
    exact h.binding id name hid hn'

/-- The global scope is around every scope, so it is never sealed. -/
lemma Sealed.ne_global (h : Sealed scope s) (hb : Bounded s) : scope ≠ ScopeTree.global := by
  rintro rfl
  exact h _ .current (hb.rooted _ (hb.live _ .current))

/-! ### Steps -/

lemma Sealed.of_grows (h : Sealed scope s) (hb : Bounded s) (hg : Grows s t)
    (hl : ∀ id, t.Live id → s.Live id) : Sealed scope t := by
  intro id hid
  rw [hg.ancestors (hb.live _ (hl id hid))]
  exact h id (hl id hid)

lemma Opens.sealed {kind : ScopeKind} (m : Opens kind s t) (hb : Bounded s)
    (hsize : scope < s.scopes.size) (h : Sealed scope s) : Sealed scope t := by
  intro id hid
  rcases m.live id hid with hid | rfl
  · rw [m.quiet.grows.ancestors (hb.live _ hid)]
    exact h id hid
  · rw [m.ancestors hb, List.mem_cons, not_or]
    exact ⟨Nat.ne_of_lt hsize, h _ .current⟩

lemma Opens.untouched {kind : ScopeKind} (m : Opens kind s t) : Untouched scope s t := by
  refine ⟨fun o ho => .inl (m.occurrences ▸ ho), fun id name _ hn => ?_⟩
  rw [Scope.binds, m.scopes, Array.getElem?_push] at hn
  split at hn
  · cases hn
  · exact hn

lemma untouched_markEval : Untouched scope s s.markEval := by
  refine ⟨fun o ho => .inl ho, fun id name _ hn => ?_⟩
  rw [Scope.binds, getElem?_markEval] at hn
  rw [Scope.binds]
  cases hget : s.scopes[id]? with
  | none => rw [hget] at hn; cases hn
  | some sc => rw [hget] at hn; exact hn

/-- A scope is sealed for good. -/
structure Over (scope : ScopeId) (s : Tracker) : Prop where
  bounded : Bounded s
  size : scope < s.scopes.size
  sealed : Sealed scope s

lemma Over.of_grows (h : Over scope s) (hb : Bounded t) (hg : Grows s t)
    (hl : ∀ id, t.Live id → s.Live id) : Over scope t :=
  ⟨hb, Nat.lt_of_lt_of_le h.size hg.size, h.sealed.of_grows h.bounded hg hl⟩

/-- What changes neither scopes nor occurrences keeps a sealed scope sealed. -/
lemma Settles.over (m : Settles t u) (ho : Over scope t) (hu : Untouched scope s t) :
    Over scope u ∧ Untouched scope s u := by
  have hg := m.quiet.grows
  exact ⟨ho.of_grows (m.bounded ho.bounded) hg m.live,
    hu.trans (.of_eq m.scopes m.occurrences) hg ho.bounded⟩

lemma Quiet.over (h : Quiet s t) (hs : Over scope s) : Over scope t ∧ Untouched scope s t := by
  induction h with
  | refl => exact ⟨hs, .of_eq rfl rfl⟩
  | settle _ m ih => exact m.over ih.1 ih.2
  | add _ m ih =>
    obtain ⟨ho, hu⟩ := ih
    have hg := m.quiet.grows
    refine ⟨⟨m.bounded ho.bounded, Nat.lt_of_lt_of_le ho.size hg.size, ?_⟩, ?_⟩
    · exact m.sealed ho.bounded ho.size ho.sealed
    · exact hu.trans m.untouched hg ho.bounded
  | @mark v _ ih =>
    obtain ⟨ho, hu⟩ := ih
    have hmark : Quiet v v.markEval := .mark (.refl v)
    refine ⟨ho.of_grows (hmark.bounded ho.bounded) hmark.grows fun _ => live_markEval.mp, ?_⟩
    exact hu.trans untouched_markEval hmark.grows ho.bounded

lemma untouched_mention (h : Sealed scope s) {id : ScopeId} (hl : s.Live id)
    (shorthand : Bool) : Untouched scope s (s.mention site id shorthand) := by
  refine ⟨fun o ho => ?_, fun _ _ _ hn => hn⟩
  rcases List.mem_cons.mp ho with rfl | ho
  · exact .inr (h id hl)
  · exact .inl ho

lemma untouched_declareIn (h : Over scope s) {target id : ScopeId} (hl : s.Live id)
    (ht : target ∈ Scope.ancestors s.scopes id ∨ target = ScopeTree.global) (shorthand : Bool) :
    Untouched scope s (s.declareIn site target id shorthand) := by
  have hg : Grows s (s.declareIn site target id shorthand) := grows_declareIn target id shorthand
  -- The target lies on the way outwards from a live scope.
  have htarget : target < s.scopes.size ∧ scope ∉ Scope.ancestors s.scopes target := by
    rcases ht with ht | rfl
    · have hle := Scope.le_of_mem_ancestors ht
      refine ⟨Nat.lt_of_le_of_lt hle (h.bounded.live id hl), fun hs => ?_⟩
      exact h.sealed id hl (Scope.ancestors_trans ht hs)
    · refine ⟨Nat.lt_of_le_of_lt (Nat.zero_le _) h.size, ?_⟩
      rw [ScopeTree.global, Scope.ancestors_zero, List.mem_singleton]
      exact h.sealed.ne_global h.bounded
  refine ⟨fun o ho => ?_, fun i name hi hn => ?_⟩
  · rcases List.mem_cons.mp ho with rfl | ho
    · right
      rw [hg.ancestors (h.bounded.live id hl)]
      exact h.sealed id hl
    · exact .inl ho
  · rw [Scope.binds, getElem?_declareIn] at hn
    split at hn
    · rename_i he
      subst he
      rw [hg.ancestors htarget.1] at hi
      exact absurd hi htarget.2
    · exact hn

/-- A token keeps a sealed scope sealed and records nothing in it. -/
lemma Reads.over (h : Reads site s t) (hs : Over scope s) :
    Over scope t ∧ Untouched scope s t := by
  induction h with
  | quiet h => exact h.over hs
  | mention h hi hl sh =>
    obtain ⟨ho, hu⟩ := h.over hs
    have hm := Reads.mention (.refl _) hi hl sh
    refine ⟨ho.of_grows (hm.bounded ho.bounded) hm.grows fun _ => live_mention.mp, ?_⟩
    exact hu.trans (untouched_mention ho.sealed hl sh) hm.grows ho.bounded
  | declare h hi hl ht sh =>
    obtain ⟨ho, hu⟩ := h.over hs
    have hm := Reads.declare (.refl _) hi hl ht sh
    refine ⟨ho.of_grows (hm.bounded ho.bounded) hm.grows fun _ => live_declareIn.mp, ?_⟩
    exact hu.trans (untouched_declareIn ho hl ht sh) hm.grows ho.bounded
  | settle _ m ih => exact m.over ih.1 ih.2

/-- **A sealed scope is over.** Whatever comes after, nothing is recorded in it. -/
theorem over_readAll (next : Option Token) (sites : List Site) (h : Over scope s) :
    Over scope (s.readAll next sites) ∧ Untouched scope s (s.readAll next sites) := by
  induction sites generalizing s with
  | nil => exact ⟨h, .of_eq rfl rfl⟩
  | cons site rest ih =>
    obtain ⟨ho, hu⟩ := (reads_step s site ((rest.head?.map Site.token).or next)).over h
    obtain ⟨ho', hu'⟩ := ih ho
    exact ⟨ho', hu.trans hu' (grows_readAll _ next rest) ho.bounded⟩

end Minify.Tracker
