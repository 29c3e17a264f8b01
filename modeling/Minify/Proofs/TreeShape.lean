import Mathlib
import Minify.Proofs.HoistedNames
import Minify.Proofs.LexerRun

/-!
The shape of the scopes found in a script.

While the sites are read, scopes are added inside scopes there are, a name is bound together with an
occurrence that stands inside, and the mark for names made at run time is set on whole paths. Each
of these moves keeps the tree well formed, whatever the order of the tokens.
-/

namespace Minify

/-- The scopes from one outwards, as their parents say, up to one without a parent. -/
inductive ScopeTree.Path (tree : ScopeTree) : ScopeId → List ScopeId → Prop
  | outermost {id : ScopeId} {sc : Scope} (h : tree.scopes[id]? = some sc)
      (hp : sc.parent = none) : Path tree id [id]
  | inside {id p : ScopeId} {sc : Scope} {path : List ScopeId} (h : tree.scopes[id]? = some sc)
      (hp : sc.parent = some p) (rest : Path tree p path) : Path tree id (id :: path)

namespace Tracker

variable {s t u : Tracker} {site : Site} {next : Option Token}

/-! ### What never changes -/

/-- The scopes stay, with their parents and kinds. -/
def Keeps (s t : Tracker) : Prop :=
  ∀ (id : ScopeId) (sc : Scope), s.scopes[id]? = some sc →
    ∃ sc', t.scopes[id]? = some sc' ∧ sc'.parent = sc.parent ∧ sc'.kind = sc.kind

lemma Keeps.of_eq (h : t.scopes = s.scopes) : Keeps s t :=
  fun _ sc hsc => ⟨sc, h ▸ hsc, rfl, rfl⟩

lemma Keeps.trans (h : Keeps s t) (h' : Keeps t u) : Keeps s u := by
  intro id sc hsc
  obtain ⟨sc', hsc', hp, hk⟩ := h id sc hsc
  obtain ⟨sc'', hsc'', hp', hk'⟩ := h' id sc' hsc'
  exact ⟨sc'', hsc'', hp'.trans hp, hk'.trans hk⟩

lemma Opens.keeps {kind : ScopeKind} (m : Opens kind s t) : Keeps s t := by
  intro id sc hsc
  obtain ⟨hid, -⟩ := Array.getElem?_eq_some_iff.mp hsc
  exact ⟨sc, by rw [m.scopes, Array.getElem?_push_lt hid, ← Array.getElem?_eq_getElem hid, hsc],
    rfl, rfl⟩

lemma keeps_markEval (s : Tracker) : Keeps s s.markEval := by
  intro id sc hsc
  rw [getElem?_markEval, hsc]
  exact ⟨_, rfl, rfl, rfl⟩

lemma parent_bind (sc : Scope) (name : String) : (sc.bind name).parent = sc.parent := by
  unfold Scope.bind
  split <;> rfl

lemma kind_bind (sc : Scope) (name : String) : (sc.bind name).kind = sc.kind := by
  unfold Scope.bind
  split <;> rfl

lemma hasEval_bind (sc : Scope) (name : String) : (sc.bind name).hasEval = sc.hasEval := by
  unfold Scope.bind
  split <;> rfl

lemma exists_of_declareIn {target scope id : ScopeId} {shorthand : Bool} {sc : Scope}
    (h : (s.declareIn site target scope shorthand).scopes[id]? = some sc) :
    ∃ sc', s.scopes[id]? = some sc' ∧ sc.parent = sc'.parent ∧ sc.kind = sc'.kind ∧
      sc.hasEval = sc'.hasEval ∧
      ∀ name ∈ sc.bindings, name ∈ sc'.bindings ∨ target = id ∧ name = site.token.text := by
  rw [getElem?_declareIn] at h
  split at h
  · rename_i heq
    obtain ⟨sc', hsc', rfl⟩ := Option.map_eq_some_iff.mp h
    exact ⟨sc', hsc', parent_bind _ _, kind_bind _ _, hasEval_bind _ _, fun name hn =>
      (mem_bindings_bind hn).imp_right fun hn => ⟨heq, hn⟩⟩
  · exact ⟨sc, h, rfl, rfl, rfl, fun name hn => .inl hn⟩

lemma keeps_declareIn (s : Tracker) (site : Site) (target scope : ScopeId) (shorthand : Bool) :
    Keeps s (s.declareIn site target scope shorthand) := by
  intro id sc hsc
  rw [getElem?_declareIn]
  split
  · exact ⟨_, by rw [hsc]; rfl, parent_bind _ _, kind_bind _ _⟩
  · exact ⟨sc, hsc, rfl, rfl⟩

lemma Quiet.keeps (h : Quiet s t) : Keeps s t := by
  induction h with
  | refl => exact .of_eq rfl
  | settle _ m ih => exact ih.trans (.of_eq m.scopes)
  | add _ m ih => exact ih.trans m.keeps
  | mark _ ih => exact ih.trans (keeps_markEval _)

lemma Reads.keeps (h : Reads site s t) : Keeps s t := by
  induction h with
  | quiet h => exact h.keeps
  | mention h => exact h.keeps
  | declare h => exact h.keeps.trans (keeps_declareIn _ _ _ _ _)
  | settle _ m ih => exact ih.trans (.of_eq m.scopes)

lemma keeps_readAll (s : Tracker) (next : Option Token) (sites : List Site) :
    Keeps s (s.readAll next sites) := by
  induction sites generalizing s with
  | nil => exact .of_eq rfl
  | cons site rest ih => exact (reads_step s site _).keeps.trans (ih _)

/-! ### One token -/

/-- The scopes right inside one, as their parents say. -/
def within (scopes : Array Scope) (id : ScopeId) : List ScopeId :=
  (List.range scopes.size).filter fun j => (scopes[j]?).bind Scope.parent == some id

/-- Each scope has a list of the scopes right inside it. -/
structure Listed (s : Tracker) : Prop where
  size : s.inside.size = s.scopes.size
  within : ∀ id < s.scopes.size, s.inside[id]? = some (within s.scopes id)

lemma Listed.of_grows (hs : Listed s) (h : Grows s t) (hsize : t.scopes.size = s.scopes.size)
    (hinside : t.inside = s.inside) : Listed t := by
  refine ⟨by rw [hinside, hs.size, hsize], fun id hid => ?_⟩
  have hwithin : Tracker.within t.scopes id = Tracker.within s.scopes id := by
    unfold Tracker.within
    rw [hsize]
    exact List.filter_congr fun j hj => by rw [h.parent j (List.mem_range.mp hj)]
  rw [hinside, hwithin, hs.within id (hsize ▸ hid)]

lemma within_push (scopes : Array Scope) (sc : Scope) (id : ScopeId) :
    within (scopes.push sc) id
      = within scopes id ++ if sc.parent = some id then [scopes.size] else [] := by
  have hfront : (List.range scopes.size).filter
        (fun j => ((scopes.push sc)[j]?).bind Scope.parent == some id) = within scopes id :=
    List.filter_congr fun j hj => by rw [parent_push sc (List.mem_range.mp hj)]
  rw [within, Array.size_push, List.range_succ, List.filter_append, hfront, List.filter_singleton,
    Array.getElem?_push_size, Option.bind_some]
  by_cases h : sc.parent = some id
  · rw [if_pos h, beq_iff_eq.mpr h, cond_true]
  · rw [if_neg h, beq_eq_false_iff_ne.mpr h, cond_false]

/-- The scopes form a tree, and what stands in them has its place there. -/
structure Shaped (s : Tracker) : Prop extends Bounded s where
  root : ∃ sc, s.scopes[ScopeTree.global]? = some sc ∧ sc.parent = none ∧ sc.kind = .global
  parent : ∀ (id : ScopeId) (sc : Scope), s.scopes[id]? = some sc → id ≠ ScopeTree.global →
    ∃ p < id, sc.parent = some p
  hasEval : ∀ (id p : ScopeId) (sc around : Scope), s.scopes[id]? = some sc →
    sc.parent = some p → s.scopes[p]? = some around → sc.hasEval = true → around.hasEval = true
  bound : ∀ (id : ScopeId) (sc : Scope), s.scopes[id]? = some sc → ∀ name ∈ sc.bindings,
    ∃ o ∈ s.occurrences, o.name = name ∧ id ∈ Scope.ancestors s.scopes o.scope
  listed : Listed s

lemma Shaped.root_of_keeps (hs : Shaped s) (h : Keeps s t) :
    ∃ sc, t.scopes[ScopeTree.global]? = some sc ∧ sc.parent = none ∧ sc.kind = .global := by
  obtain ⟨sc, hsc, hp, hk⟩ := hs.root
  obtain ⟨sc', hsc', hp', hk'⟩ := h _ sc hsc
  exact ⟨sc', hsc', hp'.trans hp, hk'.trans hk⟩

lemma Shaped.parent_lt (hs : Shaped s) {id p : ScopeId} {sc : Scope}
    (hsc : s.scopes[id]? = some sc) (hp : sc.parent = some p) : p < id := by
  have hid : id ≠ ScopeTree.global := by
    rintro rfl
    obtain ⟨root, hroot, hnone, -⟩ := hs.root
    rw [hroot] at hsc
    cases hsc
    rw [hnone] at hp
    cases hp
  obtain ⟨q, hq, hparent⟩ := hs.parent id sc hsc hid
  rw [hparent] at hp
  cases hp
  exact hq

/-- An occurrence stands where it stood while the tree grows. -/
lemma Shaped.bound_of_grows (hs : Shaped s) (h : Grows s t) {id : ScopeId} {sc : Scope}
    (hsc : s.scopes[id]? = some sc) {name : String} (hn : name ∈ sc.bindings) :
    ∃ o ∈ t.occurrences, o.name = name ∧ id ∈ Scope.ancestors t.scopes o.scope := by
  obtain ⟨o, ho, hname, hid⟩ := hs.bound id sc hsc name hn
  exact ⟨o, h.occurrences.subset ho, hname, by rwa [h.ancestors (hs.recorded o ho)]⟩

lemma Settles.shaped (m : Settles s t) (hs : Shaped s) : Shaped t := by
  refine ⟨m.bounded hs.toBounded, ?_, ?_, ?_, ?_, ?_⟩
  · exact m.scopes ▸ hs.root
  · exact m.scopes ▸ hs.parent
  · exact m.scopes ▸ hs.hasEval
  · rw [m.scopes, m.occurrences]
    exact hs.bound
  · exact hs.listed.of_grows m.quiet.grows (by rw [m.scopes]) m.inside

lemma Opens.exists_scope {kind : ScopeKind} (m : Opens kind s t) {id : ScopeId} {sc : Scope}
    (h : t.scopes[id]? = some sc) : s.scopes[id]? = some sc ∨
      id = s.scopes.size ∧ sc = ⟨some s.current, kind, [], false⟩ := by
  rw [m.scopes, Array.getElem?_push] at h
  split at h
  · cases h
    exact .inr ⟨‹_›, rfl⟩
  · exact .inl h

/-- The parent of a new scope lists it, and it lists none itself. -/
lemma Opens.listed {kind : ScopeKind} (m : Opens kind s t) (hs : Shaped s) : Listed t := by
  have hcur : s.current < s.scopes.size := hs.live _ .current
  have hnone : within s.scopes s.scopes.size = [] := by
    refine List.filter_eq_nil_iff.mpr fun j hj hp => ?_
    rw [beq_iff_eq, Option.bind_eq_some_iff] at hp
    obtain ⟨sc, hsc, hp⟩ := hp
    exact Nat.lt_asymm (hs.parent_lt hsc hp) (List.mem_range.mp hj)
  refine ⟨by rw [m.inside, m.scopes, withInner, Array.size_push, Array.size_modify,
    Array.size_push, hs.listed.size], fun id hid => ?_⟩
  have hsize : (s.inside.modify s.current fun ids => ids ++ [s.scopes.size]).size
      = s.scopes.size := by rw [Array.size_modify, hs.listed.size]
  rw [m.scopes, Array.size_push] at hid
  rw [m.inside, m.scopes, within_push, withInner, Array.getElem?_push, hsize]
  by_cases hlast : id = s.scopes.size
  · rw [if_pos hlast, hlast, hnone, if_neg (by simpa using Nat.ne_of_lt hcur)]
    rfl
  · rw [if_neg hlast, Array.getElem?_modify, hs.listed.within id (by omega)]
    by_cases hid : s.current = id
    · rw [if_pos hid, if_pos (by rw [hid])]
      rfl
    · rw [if_neg hid, if_neg (by simpa using hid), List.append_nil]

lemma Opens.shaped {kind : ScopeKind} (m : Opens kind s t) (hs : Shaped s) : Shaped t := by
  have hcur : s.current < s.scopes.size := hs.live _ .current
  refine ⟨m.bounded hs.toBounded, hs.root_of_keeps m.keeps, ?_, ?_, ?_, m.listed hs⟩
  · intro id sc hsc hid
    rcases m.exists_scope hsc with hsc | ⟨rfl, rfl⟩
    · exact hs.parent id sc hsc hid
    · exact ⟨s.current, hcur, rfl⟩
  · intro id p sc around hsc hp hp' heval
    rcases m.exists_scope hsc with hsc | ⟨rfl, rfl⟩
    · rcases m.exists_scope hp' with hp' | ⟨rfl, rfl⟩
      · exact hs.hasEval id p sc around hsc hp hp' heval
      · -- the parent of a scope there was is no new one
        obtain ⟨hid, -⟩ := Array.getElem?_eq_some_iff.mp hsc
        exact absurd (hs.parent_lt hsc hp) (Nat.lt_asymm hid)
    · cases heval
  · intro id sc hsc name hn
    rcases m.exists_scope hsc with hsc | ⟨rfl, rfl⟩
    · exact hs.bound_of_grows m.quiet.grows hsc hn
    · cases hn

/-- A marked scope was there before; it has the mark for being on the path from the current scope,
if it had none. -/
lemma exists_of_markEval {id : ScopeId} {sc : Scope} (h : s.markEval.scopes[id]? = some sc) :
    ∃ sc', s.scopes[id]? = some sc' ∧ sc.parent = sc'.parent ∧ sc.bindings = sc'.bindings ∧
      (sc.hasEval = true ↔
        sc'.hasEval = true ∨ id ∈ Scope.ancestors s.scopes s.current) := by
  rw [getElem?_markEval] at h
  obtain ⟨sc', hsc', rfl⟩ := Option.map_eq_some_iff.mp h
  exact ⟨sc', hsc', rfl, rfl, by simp⟩

lemma shaped_markEval (hs : Shaped s) : Shaped s.markEval := by
  have hmark : Quiet s s.markEval := .mark (.refl s)
  refine ⟨hmark.bounded hs.toBounded, hs.root_of_keeps (keeps_markEval s), ?_, ?_, ?_,
    hs.listed.of_grows hmark.grows (size_markEval s) rfl⟩
  · intro id sc hsc hid
    obtain ⟨sc', hsc', hp, -⟩ := exists_of_markEval hsc
    rw [hp]
    exact hs.parent id sc' hsc' hid
  · intro id p sc around hsc hp hp' heval
    obtain ⟨sc', hsc', hparent, -, hiff⟩ := exists_of_markEval hsc
    obtain ⟨around', haround, -, -, hiff'⟩ := exists_of_markEval hp'
    rw [hparent] at hp
    refine hiff'.mpr ((hiff.mp heval).imp (fun h => ?_) fun h => ?_)
    · exact hs.hasEval id p sc' around' hsc' hp haround h
    · -- the path from the current scope goes on to the parent
      refine Scope.ancestors_trans h ?_
      rw [Scope.ancestors_of_parent (by rw [hsc']; exact hp) (hs.parent_lt hsc' hp)]
      exact List.mem_cons_of_mem _ (Scope.self_mem_ancestors _ _)
  · intro id sc hsc name hn
    obtain ⟨sc', hsc', -, hb, -⟩ := exists_of_markEval hsc
    exact hs.bound_of_grows hmark.grows hsc' (hb ▸ hn)

lemma Quiet.shaped (h : Quiet s t) (hs : Shaped s) : Shaped t := by
  induction h with
  | refl => exact hs
  | settle _ m ih => exact m.shaped ih
  | add _ m ih => exact m.shaped ih
  | mark _ ih => exact shaped_markEval ih

lemma shaped_mention (hs : Shaped s) (hi : site.token.kind = .identifier) {scope : ScopeId}
    (hl : s.Live scope) (shorthand : Bool) : Shaped (s.mention site scope shorthand) := by
  have hreads : Reads site s (s.mention site scope shorthand) := .mention (.refl s) hi hl shorthand
  exact ⟨hreads.bounded hs.toBounded, hs.root, hs.parent, hs.hasEval,
    fun _ _ hsc _ hn => hs.bound_of_grows hreads.grows hsc hn,
    hs.listed.of_grows hreads.grows rfl rfl⟩

lemma shaped_declareIn (hs : Shaped s) (hi : site.token.kind = .identifier)
    {target scope : ScopeId} (hl : s.Live scope)
    (ht : target ∈ Scope.ancestors s.scopes scope ∨ target = ScopeTree.global) (shorthand : Bool) :
    Shaped (s.declareIn site target scope shorthand) := by
  have hreads : Reads site s (s.declareIn site target scope shorthand) :=
    .declare (.refl s) hi hl ht shorthand
  refine ⟨hreads.bounded hs.toBounded, hs.root_of_keeps hreads.keeps, ?_, ?_, ?_,
    hs.listed.of_grows hreads.grows Array.size_modify rfl⟩
  · intro id sc hsc hid
    obtain ⟨sc', hsc', hp, -⟩ := exists_of_declareIn hsc
    rw [hp]
    exact hs.parent id sc' hsc' hid
  · intro id p sc around hsc hp hp' heval
    obtain ⟨sc', hsc', hparent, -, hmark, -⟩ := exists_of_declareIn hsc
    obtain ⟨around', haround, -, -, hmark', -⟩ := exists_of_declareIn hp'
    rw [hmark']
    exact hs.hasEval id p sc' around' hsc' (hparent ▸ hp) haround (hmark ▸ heval)
  · intro id sc hsc name hn
    obtain ⟨sc', hsc', -, -, -, hnames⟩ := exists_of_declareIn hsc
    rcases hnames name hn with hn | ⟨rfl, rfl⟩
    · exact hs.bound_of_grows hreads.grows hsc' hn
    · refine ⟨_, List.mem_cons_self, rfl, ?_⟩
      have hscope := hs.live scope hl
      rw [hreads.grows.ancestors hscope]
      rcases ht with ht | rfl
      · exact ht
      · exact hs.rooted scope hscope

lemma Reads.shaped (h : Reads site s t) (hs : Shaped s) : Shaped t := by
  induction h with
  | quiet h => exact h.shaped hs
  | mention h hi hl sh => exact shaped_mention (h.shaped hs) hi hl sh
  | declare h hi hl ht sh => exact shaped_declareIn (h.shaped hs) hi hl ht sh
  | settle _ m ih => exact m.shaped ih

/-- The scope that a hoisted name goes to is no block and no catch clause. -/
lemma Shaped.hoistTarget (hs : Shaped s) :
    ∃ sc, s.scopes[s.hoistTarget]? = some sc ∧ sc.isInner = false := by
  obtain ⟨root, hroot, -, hkind⟩ := hs.root
  have hcur : s.current < s.scopes.size := hs.live _ .current
  unfold Tracker.hoistTarget
  cases hfind : (Scope.ancestors s.scopes s.current).find? fun id =>
      !(s.scopes[id]?).any Scope.isInner with
  | none => exact ⟨root, hroot, by rw [Scope.isInner, hkind]⟩
  | some id =>
    have hle := Scope.le_of_mem_ancestors (List.mem_of_find?_eq_some hfind)
    have hid : id < s.scopes.size := Nat.lt_of_le_of_lt hle hcur
    refine ⟨s.scopes[id], Array.getElem?_eq_getElem hid, ?_⟩
    have hinner := List.find?_some hfind
    rw [Array.getElem?_eq_getElem hid] at hinner
    simpa using hinner

end Tracker

namespace ScopeTree

open Tracker

variable {tokens : List Token} {tree : ScopeTree} {s : Tracker}

lemma nearest_resolve (tree : ScopeTree) (name : String) (id : ScopeId) :
    match tree.resolve name id with
    | some j => ∃ inner outer, tree.ancestors id = inner ++ j :: outer ∧
        Scope.binds tree.scopes j name = true ∧
        ∀ k ∈ inner, Scope.binds tree.scopes k name = false
    | none => ∀ j ∈ tree.ancestors id, Scope.binds tree.scopes j name = false := by
  cases h : tree.resolve name id with
  | none =>
    intro j hj
    exact Bool.eq_false_iff.mpr (List.find?_eq_none.mp h j hj)
  | some j =>
    obtain ⟨hbinds, inner, outer, hpath, hinner⟩ := List.find?_eq_some_iff_append.mp h
    exact ⟨inner, outer, hpath, hbinds, fun k hk => by simpa using hinner k hk⟩

end ScopeTree

end Minify
