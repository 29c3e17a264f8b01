import Mathlib.Data.List.TakeWhile
import Minify.Proofs.FreshNames
import Minify.Proofs.ScopePaths

/-!
The short names suit their bindings.

A scope's bindings are named one after the other, by names that nothing of the scope uses so far;
the scopes are named from the outside in. What a name must keep clear of belongs to the scope
itself, to the scopes between it and the uses of the binding, or to the scopes around it, whose
names do not change any more.
-/

namespace Minify.Shrink

namespace Context

variable {ctx : Context} {id : ScopeId}

/-! ### The constraints -/

lemma fixed_of_size_le (h : ctx.tree.scopes.size ≤ id) : ctx.fixed id = [] := by
  unfold fixed bindings
  rw [Array.getElem?_eq_none h]
  rfl

lemma getD_fixed (ctx : Context) (id : ScopeId) :
    ctx.constraints.fixed.getD id [] = ctx.fixed id := by
  change ((Array.range ctx.tree.scopes.size).map ctx.fixed).getD id [] = _
  rw [Array.getD_eq_getD_getElem?, Array.getElem?_map]
  rcases Nat.lt_or_ge id ctx.tree.scopes.size with h | h
  · rw [Array.getElem?_range, if_pos h]
    rfl
  · rw [Array.getElem?_range, if_neg (Nat.not_lt.mpr h), fixed_of_size_le h]
    rfl

lemma mem_passing {name : String} :
    name ∈ ctx.constraints.passing.getD id [] ↔ (id, name) ∈ ctx.passingNames := by
  change name ∈ (group ctx.passingNames).getD id [] ↔ _
  rw [getD_group]
  simp

lemma mem_crossing {b : Binding} :
    b ∈ ctx.constraints.crossing.getD id [] ↔ (id, b) ∈ ctx.passingBindings := by
  change b ∈ (group ctx.passingBindings).getD id [] ↔ _
  rw [getD_group]
  simp

lemma mem_blocked {b : Binding} {name : String} :
    name ∈ ctx.constraints.blocked.getD b [] ↔
      ∃ j, (j, b) ∈ ctx.passingBindings ∧ name ∈ ctx.fixed j := by
  change name ∈ (group (ctx.passingBindings.flatMap fun x =>
    (ctx.constraints.fixed.getD x.1 []).map fun n => (x.2, n))).getD b [] ↔ _
  rw [getD_group]
  simp only [getD_fixed]
  constructor
  · intro h
    obtain ⟨x, hx, rfl⟩ := List.mem_map.mp h
    rw [List.mem_filter, List.mem_flatMap] at hx
    obtain ⟨⟨y, hy, hn⟩, hb⟩ := hx
    obtain ⟨n, hfixed, rfl⟩ := List.mem_map.mp hn
    exact ⟨y.1, eq_of_beq hb ▸ hy, hfixed⟩
  · rintro ⟨j, hj, hn⟩
    refine List.mem_map.mpr ⟨(b, name), List.mem_filter.mpr ⟨?_, beq_self_eq_true b⟩, rfl⟩
    exact List.mem_flatMap.mpr ⟨(j, b), hj, List.mem_map.mpr ⟨name, hn, rfl⟩⟩

/-! ### What occurrences reach past -/

lemma target?_eq_some {o : Occurrence} {b : Binding} :
    ctx.target? o = some b ↔
      ctx.tree.resolved o = some b.1 ∧ b.2 = o.name ∧ ctx.isRenamable b = true := by
  unfold target?
  rw [Option.filter_eq_some_iff, Option.map_eq_some_iff]
  constructor
  · rintro ⟨⟨r, hr, rfl⟩, hb⟩
    exact ⟨hr, rfl, hb⟩
  · rintro ⟨hr, hname, hb⟩
    exact ⟨⟨b.1, hr, by rw [← hname]⟩, hb⟩

lemma mem_passingBindings {b : Binding} :
    (id, b) ∈ ctx.passingBindings ↔
      ∃ o ∈ ctx.tree.occurrences, ctx.target? o = some b ∧ id ∈ ctx.crossed o := by
  unfold passingBindings
  rw [List.mem_flatMap]
  refine exists_congr fun o => and_congr_right fun _ => ?_
  cases ctx.target? o with
  | none => simp
  | some b' =>
    rw [List.mem_map]
    constructor
    · rintro ⟨j, hj, he⟩
      cases he
      exact ⟨rfl, hj⟩
    · rintro ⟨he, hj⟩
      cases he
      exact ⟨id, hj, rfl⟩

lemma mem_passingNames {name : String} :
    (id, name) ∈ ctx.passingNames ↔ ∃ o ∈ ctx.tree.occurrences,
      ctx.target? o = none ∧ id ∈ ctx.crossed o ∧ ctx.privateNames.rename o.name = name := by
  unfold passingNames
  rw [List.mem_flatMap]
  refine exists_congr fun o => and_congr_right fun _ => ?_
  cases ctx.target? o with
  | some b => simp
  | none =>
    rw [List.mem_map]
    constructor
    · rintro ⟨j, hj, he⟩
      cases he
      exact ⟨rfl, hj, rfl⟩
    · rintro ⟨-, hj, rfl⟩
      exact ⟨id, hj, rfl⟩

lemma find?_splits {l : List ScopeId} {p : ScopeId → Bool} {r : ScopeId}
    (h : l.find? p = some r) :
    (∃ rest, l = l.takeWhile (fun j => some j != some r) ++ r :: rest) ∧
      ∀ j ∈ l.takeWhile (fun j => some j != some r), p j = false := by
  obtain ⟨hr, as, bs, hl, has⟩ := List.find?_eq_some_iff_append.mp h
  have hne : ∀ j ∈ as, (some j != some r) = true := by
    rintro j hj
    have hpj := has j hj
    by_contra he
    have he : j = r := by simpa using he
    rw [he, hr] at hpj
    cases hpj
  have htake : l.takeWhile (fun j => some j != some r) = as := by
    rw [hl, List.takeWhile_append_of_pos hne]
    simp
  rw [htake]
  exact ⟨⟨bs, hl⟩, fun j hj => by simpa using has j hj⟩

/-- The path of an occurrence goes past some scopes, none of which binds its name, to the scope it
refers to, if there is one. -/
lemma crossed_splits (ctx : Context) (o : Occurrence) :
    (∀ j ∈ ctx.crossed o, Scope.binds ctx.tree.scopes j o.name = false) ∧
      match ctx.tree.resolved o with
      | some r => Scope.binds ctx.tree.scopes r o.name = true ∧
          ∃ rest, ctx.tree.ancestors o.scope = ctx.crossed o ++ r :: rest
      | none => ctx.tree.ancestors o.scope = ctx.crossed o := by
  unfold crossed
  cases h : ctx.tree.resolved o with
  | some r =>
    obtain ⟨⟨rest, hl⟩, hp⟩ := find?_splits h
    exact ⟨hp, List.find?_some (p := fun j => Scope.binds ctx.tree.scopes j o.name) h, rest, hl⟩
  | none =>
    have hall := List.find?_eq_none.mp h
    have htake : (ctx.tree.ancestors o.scope).takeWhile (fun j => some j != none)
        = ctx.tree.ancestors o.scope := List.takeWhile_eq_self_iff.mpr fun _ _ => rfl
    rw [htake]
    exact ⟨fun j hj => by simpa using hall j hj, rfl⟩

/-- A binding that a scope is reached past belongs to a scope around it. -/
lemma lt_of_mem_passingBindings {b : Binding} (h : (id, b) ∈ ctx.passingBindings) : b.1 < id := by
  obtain ⟨o, -, ht, hid⟩ := mem_passingBindings.mp h
  obtain ⟨hr, -, -⟩ := target?_eq_some.mp ht
  have hsplit := (crossed_splits ctx o).2
  rw [hr] at hsplit
  obtain ⟨-, rest, hl⟩ := hsplit
  have hdown := Scope.ancestors_pairwise ctx.tree.scopes o.scope
  change (ctx.tree.ancestors o.scope).Pairwise _ at hdown
  rw [hl] at hdown
  exact (List.pairwise_append.mp hdown).2.2 id hid b.1 List.mem_cons_self

/-! ### Names for one scope -/

/-- What stands against a name for a binding does not use it. -/
structure Suits (ctx : Context) (used : Std.HashSet String) (b : Binding) (w : String) : Prop where
  renamable : ctx.isRenamable b = true
  short : ∃ n, w = ShortName.nth n
  unused : w ∉ used
  unprotected : ctx.protectedNames.contains w = false
  unblocked : w ∉ ctx.constraints.blocked.getD b []

/-- Short names for some bindings of a scope, next to those `m₀` for the scopes around it: they suit
their bindings, given the names `used₀` of other things, and no two are the same. -/
structure Naming (ctx : Context) (id : ScopeId) (m₀ : Std.HashMap Binding String)
    (used₀ : Std.HashSet String) (s : Std.HashMap Binding String × Std.HashSet String) : Prop where
  outer : ∀ b : Binding, b.1 ≠ id → s.1[b]? = m₀[b]?
  used : ∀ w ∈ used₀, w ∈ s.2
  sound : ∀ (b : Binding) (w : String), b.1 = id → s.1[b]? = some w →
    w ∈ s.2 ∧ Suits ctx used₀ b w
  injective : ∀ (b b' : Binding) (w : String), b.1 = id → b'.1 = id →
    s.1[b]? = some w → s.1[b']? = some w → b = b'

variable {m₀ : Std.HashMap Binding String} {used₀ : Std.HashSet String}
  {s : Std.HashMap Binding String × Std.HashSet String}

lemma Naming.insert (h : Naming ctx id m₀ used₀ s) {name w : String}
    (hs : Suits ctx s.2 (id, name) w) :
    Naming ctx id m₀ used₀ (s.1.insert (id, name) w, s.2.insert w) := by
  have hget (b : Binding) : (s.1.insert (id, name) w)[b]?
      = if ((id, name) : Binding) == b then some w else s.1[b]? := Std.HashMap.getElem?_insert
  have hnew (b : Binding) (hb : b.1 = id) (hw : s.1[b]? = some w) : False :=
    hs.unused (h.sound b w hb hw).1
  refine ⟨fun b hb => ?_, fun v hv => ?_, fun b v hb hv => ?_, fun b b' v hb hb' hv hv' => ?_⟩
  · have hne : ¬((id, name) : Binding) = b := fun he => hb (he ▸ rfl)
    simp only [hget, beq_iff_eq, hne, if_false]
    exact h.outer b hb
  · exact Std.HashSet.mem_insert.mpr (.inr (h.used v hv))
  · simp only [hget, beq_iff_eq] at hv
    split at hv
    · rename_i he
      cases hv
      exact ⟨Std.HashSet.mem_insert_self, he ▸ ⟨hs.renamable, hs.short,
        fun hu => hs.unused (h.used w hu), hs.unprotected, hs.unblocked⟩⟩
    · obtain ⟨hmem, hsuits⟩ := h.sound b v hb hv
      exact ⟨Std.HashSet.mem_insert.mpr (.inr hmem), hsuits⟩
  · simp only [hget, beq_iff_eq] at hv hv'
    split at hv <;> split at hv'
    · rename_i he he'
      exact he.symm.trans he'
    · cases hv
      exact (hnew b' hb' hv').elim
    · cases hv'
      exact (hnew b hb hv).elim
    · exact h.injective b b' v hb hb' hv hv'

/-- Naming a binding of a scope, if it may be. Bindings with names keep having some. -/
lemma Naming.assignBinding (h : Naming ctx id m₀ used₀ s) (name : String) :
    Naming ctx id m₀ used₀ (ctx.assignBinding ctx.constraints id s name) ∧
      (∀ b ∈ s.1, b ∈ (ctx.assignBinding ctx.constraints id s name).1) ∧
      (ctx.isRenamable (id, name) = true →
        (id, name) ∈ (ctx.assignBinding ctx.constraints id s name).1) := by
  unfold Context.assignBinding
  split
  · rename_i hren
    obtain ⟨hused, hprot, hblock⟩ := choose_free ctx s.2
      (Std.HashSet.ofList (ctx.constraints.blocked.getD (id, name) []))
    have hblock' := fun hmem => hblock (Std.HashSet.mem_ofList.mpr (List.contains_iff_mem.mpr hmem))
    exact ⟨h.insert ⟨hren, ⟨_, rfl⟩, hused, hprot, hblock'⟩,
      fun b hb => Std.HashMap.mem_insert.mpr (.inr hb), fun _ => Std.HashMap.mem_insert_self⟩
  · rename_i hren
    exact ⟨h, fun b hb => hb, fun he => absurd he hren⟩

/-- Naming the bindings of a scope, one after the other. -/
lemma Naming.foldl (h : Naming ctx id m₀ used₀ s) (names : List String) :
    Naming ctx id m₀ used₀ (names.foldl (ctx.assignBinding ctx.constraints id) s) ∧
      (∀ b ∈ s.1, b ∈ (names.foldl (ctx.assignBinding ctx.constraints id) s).1) ∧
      ∀ name ∈ names, ctx.isRenamable (id, name) = true →
        (id, name) ∈ (names.foldl (ctx.assignBinding ctx.constraints id) s).1 := by
  induction names generalizing s with
  | nil => exact ⟨h, fun b hb => hb, fun n hn => by cases hn⟩
  | cons name names ih =>
    obtain ⟨h', hkeep, hnew⟩ := h.assignBinding name
    obtain ⟨hall, hkeep', hnew'⟩ := ih h'
    refine ⟨hall, fun b hb => hkeep' b (hkeep b hb), fun n hn hren => ?_⟩
    rcases List.mem_cons.mp hn with rfl | hn
    · exact hkeep' _ (hnew hren)
    · exact hnew' n hn hren

/-! ### Names for all scopes -/

/-- A short name of a binding is kept apart from what identifiers could take it for, given the
short names `m`. -/
structure Apart (ctx : Context) (m : Std.HashMap Binding String) (b : Binding) (w : String) :
    Prop where
  renamable : ctx.isRenamable b = true
  short : ∃ n, w = ShortName.nth n
  unprotected : ctx.protectedNames.contains w = false
  fixed : w ∉ ctx.fixed b.1
  passing : (b.1, w) ∉ ctx.passingNames
  crossing : ∀ b', (b.1, b') ∈ ctx.passingBindings → m[b']? ≠ some w
  blocked : ∀ j, (j, b) ∈ ctx.passingBindings → w ∉ ctx.fixed j

/-- Short names for the bindings of the scopes before `bound`. -/
structure Assigned (ctx : Context) (bound : Nat) (m : Std.HashMap Binding String) : Prop where
  lt : ∀ b ∈ m, b.1 < bound
  apart : ∀ (b : Binding) (w : String), m[b]? = some w → Apart ctx m b w
  injective : ∀ (b b' : Binding) (w : String), b.1 = b'.1 → m[b]? = some w → m[b']? = some w →
    b = b'
  complete : ∀ b : Binding, b.1 < bound → b.2 ∈ ctx.bindings b.1 → ctx.isRenamable b = true →
    b ∈ m

variable {m : Std.HashMap Binding String} {bound : Nat}

lemma mem_of_getElem? {b : Binding} {w : String} (h : m[b]? = some w) : b ∈ m :=
  Std.HashMap.mem_iff_isSome_getElem?.mpr (by rw [h]; rfl)

def usedNames (ctx : Context) (m : Std.HashMap Binding String) (id : ScopeId) :
    Std.HashSet String :=
  let outer := (ctx.constraints.crossing.getD id []).filterMap fun b => m[b]?
  Std.HashSet.ofList
    (ctx.constraints.fixed.getD id [] ++ ctx.constraints.passing.getD id [] ++ outer)

lemma mem_usedNames {w : String} :
    w ∈ ctx.usedNames m id ↔ w ∈ ctx.fixed id ∨ (id, w) ∈ ctx.passingNames ∨
      ∃ b, (id, b) ∈ ctx.passingBindings ∧ m[b]? = some w := by
  unfold usedNames
  rw [Std.HashSet.mem_ofList, List.contains_iff_mem, List.mem_append, List.mem_append,
    getD_fixed, mem_passing, List.mem_filterMap, or_assoc]
  simp only [mem_crossing]

lemma Suits.apart {b : Binding} {w : String} (h : Suits ctx (ctx.usedNames m b.1) b w) :
    Apart ctx m b w := by
  have hun := h.unused
  rw [mem_usedNames, not_or, not_or] at hun
  obtain ⟨hfixed, hpassing, hcrossing⟩ := hun
  exact ⟨h.renamable, h.short, h.unprotected, hfixed, hpassing, fun b' hb' hw => hcrossing
    ⟨b', hb', hw⟩,
    fun j hj hw => h.unblocked (mem_blocked.mpr ⟨j, hj, hw⟩)⟩

/-- Names apart from each other stay so when the names of scopes further in change. -/
lemma Apart.congr {m' : Std.HashMap Binding String} {b : Binding} {w : String}
    (h : Apart ctx m b w) (hm : ∀ b' : Binding, b'.1 < b.1 → m'[b']? = m[b']?) :
    Apart ctx m' b w := by
  refine ⟨h.renamable, h.short, h.unprotected, h.fixed, h.passing, fun b' hb' => ?_, h.blocked⟩
  rw [hm b' (lt_of_mem_passingBindings hb')]
  exact h.crossing b' hb'

lemma Assigned.naming (h : Assigned ctx id m) (used₀ : Std.HashSet String) :
    Naming ctx id m used₀ (m, used₀) := by
  have hnone (b : Binding) (w : String) (hb : b.1 = id) (hw : m[b]? = some w) : False := by
    have hlt := h.lt b (mem_of_getElem? hw)
    rw [hb] at hlt
    exact Nat.lt_irrefl id hlt
  exact ⟨fun b _ => rfl, fun w hw => hw, fun b w hb hw => (hnone b w hb hw).elim,
    fun b b' w hb _ hw => (hnone b w hb hw).elim⟩

lemma Assigned.assignScope (h : Assigned ctx id m) :
    Assigned ctx (id + 1) (ctx.assignScope ctx.constraints m id) := by
  unfold Context.assignScope
  split
  · obtain ⟨hn, hkeep, hnew⟩ := (h.naming (ctx.usedNames m id)).foldl (ctx.bindings id)
    change Assigned ctx (id + 1) ((ctx.bindings id).foldl (ctx.assignBinding ctx.constraints id)
      (m, ctx.usedNames m id)).1
    generalize (ctx.bindings id).foldl (ctx.assignBinding ctx.constraints id)
      (m, ctx.usedNames m id) = s at hn hkeep hnew
    have hmem (b : Binding) (hb : b.1 ≠ id) : b ∈ s.1 ↔ b ∈ m := by
      rw [Std.HashMap.mem_iff_isSome_getElem?, Std.HashMap.mem_iff_isSome_getElem?, hn.outer b hb]
    have hlt (b : Binding) (hb : b ∈ m) : b.1 ≠ id := Nat.ne_of_lt (h.lt b hb)
    refine ⟨fun b hb => ?_, fun b w hw => ?_, fun b b' w he hw hw' => ?_, fun b hb hbind hren => ?_⟩
    · by_cases he : b.1 = id
      · exact he ▸ Nat.lt_succ_self b.1
      · exact Nat.lt_succ_of_lt (h.lt b ((hmem b he).mp hb))
    · by_cases he : b.1 = id
      · subst he
        refine (hn.sound b w rfl hw).2.apart.congr fun b' hb' => hn.outer b' (Nat.ne_of_lt hb')
      · rw [hn.outer b he] at hw
        have hb := h.lt b (mem_of_getElem? hw)
        exact (h.apart b w hw).congr fun b' hb' => hn.outer b' (Nat.ne_of_lt (Nat.lt_trans hb' hb))
    · by_cases hid : b.1 = id
      · exact hn.injective b b' w hid (he ▸ hid) hw hw'
      · rw [hn.outer b hid] at hw
        rw [hn.outer b' (he ▸ hid)] at hw'
        exact h.injective b b' w he hw hw'
    · by_cases he : b.1 = id
      · subst he
        exact hnew b.2 hbind hren
      · have hlt := Nat.lt_of_le_of_ne (Nat.le_of_lt_succ hb) he
        exact hkeep b (h.complete b hlt hbind hren)
  · rename_i hren
    refine ⟨fun b hb => Nat.lt_succ_of_lt (h.lt b hb), h.apart, h.injective,
      fun b hb hbind hb' => ?_⟩
    by_cases he : b.1 = id
    · unfold Context.isRenamable at hb'
      simp only [Bool.and_eq_true, he] at hb'
      exact absurd hb'.1.1.1 hren
    · exact h.complete b (Nat.lt_of_le_of_ne (Nat.le_of_lt_succ hb) he) hbind hb'

def namesBefore (ctx : Context) (id : ScopeId) : Std.HashMap Binding String :=
  (List.range id).foldl (ctx.assignScope ctx.constraints) ∅

lemma namesBefore_succ (ctx : Context) (id : ScopeId) :
    ctx.namesBefore (id + 1) = ctx.assignScope ctx.constraints (ctx.namesBefore id) id := by
  rw [namesBefore, List.range_succ, List.foldl_append]
  rfl

lemma assigned_namesBefore (ctx : Context) (id : ScopeId) :
    Assigned ctx id (ctx.namesBefore id) := by
  induction id with
  | zero => exact ⟨by simp [namesBefore], by simp [namesBefore], by simp [namesBefore], by simp⟩
  | succ id ih =>
    rw [namesBefore_succ]
    exact ih.assignScope

/-- **Short names are apart**: those of all scopes together. -/
theorem assigned_assign (ctx : Context) : Assigned ctx ctx.tree.scopes.size ctx.assign :=
  assigned_namesBefore ctx ctx.tree.scopes.size

end Context

end Minify.Shrink
