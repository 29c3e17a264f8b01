import Mathlib
import Minify.Proofs.CaptureFree

/-!
Short names are the first that will do.

While the bindings of a scope are named, a name is passed over only if it is protected, or taken in
the scope, or reached past the scope, or fixed in a scope between a binding and its uses. All that
it meets there keeps its name from then on: it is fixed, or belongs to a scope further out, or comes
earlier in the scope. So at the end, too, each name passed over is that of something in its way; and
with that name the binding would be mistaken for another one, or an identifier would.
-/

namespace Minify

/-- An occurrence stands in a scope, or further in, and refers to a scope around it, or to none. -/
structure ScopeTree.Passes (t : ScopeTree) (o : Occurrence) (id : ScopeId) : Prop where
  inside : id ∈ t.ancestors o.scope
  out : ∀ r, t.resolved o = some r → r ≠ id ∧ r ∈ t.ancestors id

/-- A name passes the scopes on its way before the one it refers to. -/
lemma ScopeTree.Passes.of_resolved {t : ScopeTree} {o : Occurrence} {r id : ScopeId}
    (h : t.resolved o = some r) (hid : id ∈ t.ancestors o.scope) (hin : r ∈ t.ancestors id)
    (hne : id ≠ r) : t.Passes o id := by
  refine ⟨hid, fun r' hr => ?_⟩
  obtain rfl : r = r' := Option.some.inj (h.symm.trans hr)
  exact ⟨hne.symm, hin⟩

namespace Shrink.Context

variable {ctx : Context} {id : ScopeId} {b : Binding} {c w : String} {o : Occurrence}

/-! ### Names passed over in a scope -/

/-- Why a name is passed over for a binding, given the names `m` of the scopes around it and of the
bindings in front of it. -/
inductive PassedOver (ctx : Context) (m : Std.HashMap Binding String) (b : Binding) (c : String) :
    Prop
  | kept (h : ctx.protectedNames.contains c = true)
  | used (h : c ∈ ctx.usedNames m b.1)
  | blocked (h : c ∈ ctx.constraints.blocked.getD b [])
  | earlier {name : String} (h : [name, b.2].Sublist (ctx.bindings b.1))
      (hm : m[((b.1, name) : Binding)]? = some c)

/-- A name is the first that is not passed over. -/
structure First (ctx : Context) (m : Std.HashMap Binding String) (b : Binding) (w : String) :
    Prop where
  bound : b.2 ∈ ctx.bindings b.1
  first : ∃ n, w = ShortName.nth n ∧ ∀ k < n, PassedOver ctx m b (ShortName.nth k)

variable {m m' : Std.HashMap Binding String} {s : Std.HashMap Binding String × Std.HashSet String}

/-- What is used in a scope depends on the names of the scopes around it. -/
lemma mem_usedNames_congr (hm : ∀ b' : Binding, b'.1 < id → m'[b']? = m[b']?) :
    c ∈ ctx.usedNames m' id ↔ c ∈ ctx.usedNames m id := by
  rw [mem_usedNames, mem_usedNames]
  refine or_congr_right (or_congr_right (exists_congr fun b' => and_congr_right fun hb' => ?_))
  rw [hm b' (lt_of_mem_passingBindings hb')]

lemma First.congr (h : First ctx m b w) (hm : ∀ b' : Binding, b'.1 ≤ b.1 → m'[b']? = m[b']?) :
    First ctx m' b w := by
  obtain ⟨n, hn, hall⟩ := h.first
  refine ⟨h.bound, n, hn, fun k hk => ?_⟩
  cases hall k hk with
  | kept h => exact .kept h
  | used h => exact .used ((mem_usedNames_congr fun b' hb' => hm b' hb'.le).mpr h)
  | blocked h => exact .blocked h
  | @earlier name h hw => exact .earlier h ((hm (b.1, name) le_rfl).trans hw)

/-- What is used when some bindings of a scope are named, next to the names `m` of the scopes around
it: what was before, and the names given. The names given are the first ones. -/
structure Exact (ctx : Context) (id : ScopeId) (m : Std.HashMap Binding String)
    (named : List String) (s : Std.HashMap Binding String × Std.HashSet String) : Prop where
  mem : ∀ name, ((id, name) : Binding) ∈ s.1 → name ∈ named
  used : ∀ c ∈ s.2, c ∈ ctx.usedNames m id ∨
    ∃ name ∈ named, s.1[((id, name) : Binding)]? = some c
  first : ∀ name w, s.1[((id, name) : Binding)]? = some w → ∃ n, w = ShortName.nth n ∧
    ∀ k < n, ctx.protectedNames.contains (ShortName.nth k) = true ∨
      ShortName.nth k ∈ ctx.usedNames m id ∨
      ShortName.nth k ∈ ctx.constraints.blocked.getD (id, name) [] ∨
      ∃ earlier, [earlier, name].Sublist named ∧
        s.1[((id, earlier) : Binding)]? = some (ShortName.nth k)

variable {named : List String} {name : String}

lemma Exact.insert (h : Exact ctx id m named s) (hname : name ∉ named) {n : Nat}
    (hfirst : ∀ k < n, ctx.isFree s.2
      (Std.HashSet.ofList (ctx.constraints.blocked.getD (id, name) [])) k = false) :
    Exact ctx id m (named ++ [name])
      (s.1.insert (id, name) (ShortName.nth n), s.2.insert (ShortName.nth n)) := by
  have hself : (s.1.insert (id, name) (ShortName.nth n))[((id, name) : Binding)]?
      = some (ShortName.nth n) := Std.HashMap.getElem?_insert_self
  have hother {other : String} (hne : name ≠ other) :
      (s.1.insert (id, name) (ShortName.nth n))[((id, other) : Binding)]?
        = s.1[((id, other) : Binding)]? := by
    rw [Std.HashMap.getElem?_insert, if_neg]
    simpa using hne
  have hold {other : String} (hmem : other ∈ named) :
      (s.1.insert (id, name) (ShortName.nth n))[((id, other) : Binding)]?
        = s.1[((id, other) : Binding)]? := hother fun he => hname (he ▸ hmem)
  have hsub : named.Sublist (named ++ [name]) := List.sublist_append_left _ _
  refine ⟨fun other hmem => ?_, fun c hc => ?_, fun other w hw => ?_⟩
  · rcases Std.HashMap.mem_insert.mp hmem with he | hmem
    · obtain rfl : name = other := congrArg Prod.snd (eq_of_beq he)
      exact List.mem_append_right _ List.mem_cons_self
    · exact hsub.subset (h.mem other hmem)
  · rcases Std.HashSet.mem_insert.mp hc with he | hc
    · obtain rfl : ShortName.nth n = c := eq_of_beq he
      exact .inr ⟨name, List.mem_append_right _ List.mem_cons_self, hself⟩
    · refine (h.used c hc).imp_right ?_
      rintro ⟨other, hmem, hw⟩
      exact ⟨other, hsub.subset hmem, (hold hmem).trans hw⟩
  · by_cases he : name = other
    · subst he
      obtain rfl : ShortName.nth n = w := Option.some.inj (hself.symm.trans hw)
      refine ⟨n, rfl, fun k hk => ?_⟩
      rcases not_isFree_cases (hfirst k hk) with hkept | hused | hblocked
      · exact .inl hkept
      · rcases h.used _ hused with hused | ⟨other, hmem, hw⟩
        · exact .inr (.inl hused)
        · refine .inr (.inr (.inr ⟨other, ?_, (hold hmem).trans hw⟩))
          exact (List.singleton_sublist.mpr hmem).append (List.Sublist.refl [name])
      · exact .inr (.inr (.inl (List.contains_iff_mem.mp (Std.HashSet.mem_ofList.mp hblocked))))
    · obtain ⟨n', hn', hall⟩ := h.first other w ((hother he).symm.trans hw)
      refine ⟨n', hn', fun k hk => (hall k hk).imp_right (Or.imp_right (Or.imp_right ?_))⟩
      rintro ⟨earlier, hearlier, hw⟩
      exact ⟨earlier, hearlier.trans hsub, (hold (hearlier.subset List.mem_cons_self)).trans hw⟩

lemma Exact.assignBinding (h : Exact ctx id m named s) (hname : name ∉ named) :
    Exact ctx id m (named ++ [name]) (ctx.assignBinding ctx.constraints id s name) := by
  unfold Context.assignBinding
  split
  · exact h.insert hname fun k hk => Candidate.not_free_of_lt_first (Nat.zero_le k) hk
  · have hsub : named.Sublist (named ++ [name]) := List.sublist_append_left _ _
    refine ⟨fun other hmem => hsub.subset (h.mem other hmem), fun c hc => ?_, fun other w hw => ?_⟩
    · exact (h.used c hc).imp_right fun ⟨other, hmem, hw⟩ => ⟨other, hsub.subset hmem, hw⟩
    · obtain ⟨n, hn, hall⟩ := h.first other w hw
      refine ⟨n, hn, fun k hk => (hall k hk).imp_right (Or.imp_right (Or.imp_right ?_))⟩
      exact fun ⟨earlier, hearlier, hw⟩ => ⟨earlier, hearlier.trans hsub, hw⟩

lemma Exact.foldl (h : Exact ctx id m named s) (names : List String)
    (hnodup : (named ++ names).Nodup) :
    Exact ctx id m (named ++ names) (names.foldl (ctx.assignBinding ctx.constraints id) s) := by
  induction names generalizing named s with
  | nil =>
    rw [List.append_nil]
    exact h
  | cons name names ih =>
    have hname : name ∉ named := fun hmem =>
      (List.nodup_append.mp hnodup).2.2 name hmem name List.mem_cons_self rfl
    have happ : named ++ name :: names = named ++ [name] ++ names := by simp
    rw [happ] at hnodup ⊢
    exact ih (h.assignBinding hname) hnodup

/-! ### Names passed over in a tree -/

/-- The names of all bindings are the first ones. -/
def Firsts (ctx : Context) (m : Std.HashMap Binding String) : Prop :=
  ∀ (b : Binding) (w : String), m[b]? = some w → First ctx m b w

lemma Firsts.assignScope (h : Firsts ctx m) (ha : Assigned ctx id m)
    (hnodup : (ctx.bindings id).Nodup) :
    Firsts ctx (ctx.assignScope ctx.constraints m id) := by
  unfold Context.assignScope
  split
  · have hn := ((ha.naming (ctx.usedNames m id)).foldl (ctx.bindings id)).1
    have hstart : Exact ctx id m [] (m, ctx.usedNames m id) := by
      have hnot (name : String) : ((id, name) : Binding) ∉ m := fun hmem =>
        Nat.lt_irrefl id (ha.lt _ hmem)
      exact ⟨fun name hmem => absurd hmem (hnot name), fun c hc => .inl hc,
        fun name w hw => absurd (mem_of_getElem? hw) (hnot name)⟩
    have he := hstart.foldl (ctx.bindings id) hnodup
    rw [List.nil_append] at he
    change Firsts ctx ((ctx.bindings id).foldl (ctx.assignBinding ctx.constraints id)
      (m, ctx.usedNames m id)).1
    generalize (ctx.bindings id).foldl (ctx.assignBinding ctx.constraints id)
      (m, ctx.usedNames m id) = s at hn he
    rintro ⟨i, name⟩ w hw
    by_cases hi : i = id
    · subst hi
      obtain ⟨n, hw', hall⟩ := he.first name w hw
      refine ⟨he.mem name (mem_of_getElem? hw), n, hw', fun k hk => ?_⟩
      rcases hall k hk with hkept | hused | hblocked | ⟨earlier, hearlier, hw⟩
      · exact .kept hkept
      · exact .used ((mem_usedNames_congr fun b' hb' => hn.outer b' (Nat.ne_of_lt hb')).mpr hused)
      · exact .blocked hblocked
      · exact .earlier hearlier hw
    · rw [hn.outer (i, name) hi] at hw
      have hlt : i < id := ha.lt (i, name) (mem_of_getElem? hw)
      exact (h _ w hw).congr fun b' hb' => hn.outer b' (Nat.ne_of_lt (Nat.lt_of_le_of_lt hb' hlt))
  · exact h

lemma firsts_namesBefore (hnodup : ∀ id, (ctx.bindings id).Nodup) (id : ScopeId) :
    Firsts ctx (ctx.namesBefore id) := by
  induction id with
  | zero =>
    intro b w hw
    simp [namesBefore] at hw
  | succ id ih =>
    rw [namesBefore_succ]
    exact ih.assignScope (assigned_namesBefore ctx id) (hnodup id)

lemma firsts_assign (hnodup : ∀ id, (ctx.bindings id).Nodup) : Firsts ctx ctx.assign :=
  firsts_namesBefore hnodup ctx.tree.scopes.size

/-! ### What stands in the way of a name -/

lemma mem_crossed_iff : id ∈ ctx.crossed o ↔ ctx.tree.Passes o id := by
  have hsplit := (crossed_splits ctx o).2
  have hdown := Scope.ancestors_pairwise ctx.tree.scopes o.scope
  change (ctx.tree.ancestors o.scope).Pairwise _ at hdown
  cases hr : ctx.tree.resolved o with
  | none =>
    rw [hr] at hsplit
    refine ⟨fun h => ⟨hsplit ▸ h, fun r he => ?_⟩, fun h => hsplit ▸ h.inside⟩
    rw [hr] at he
    cases he
  | some r =>
    rw [hr] at hsplit
    obtain ⟨-, rest, hl⟩ := hsplit
    have hmem : r ∈ ctx.tree.ancestors o.scope := by
      rw [hl]
      exact List.mem_append_right _ List.mem_cons_self
    constructor
    · intro h
      have hin : id ∈ ctx.tree.ancestors o.scope := hl ▸ List.mem_append_left _ h
      have hlt : r < id := by
        rw [hl] at hdown
        exact (List.pairwise_append.mp hdown).2.2 id h r List.mem_cons_self
      refine ⟨hin, fun r' hr' => ?_⟩
      obtain rfl : r = r' := Option.some.inj (hr.symm.trans hr')
      exact ⟨Nat.ne_of_lt hlt, Scope.mem_ancestors_of_le hmem hin hlt.le⟩
    · intro h
      obtain ⟨hne, hout⟩ := h.out r hr
      have hin := h.inside
      rw [hl, List.mem_append, List.mem_cons] at hin
      rcases hin with hin | rfl | hin
      · exact hin
      · exact absurd rfl hne
      · rw [hl] at hdown
        have hlt := (List.pairwise_cons.mp (List.pairwise_append.mp hdown).2.1).1 id hin
        exact absurd (Scope.le_of_mem_ancestors hout) (Nat.not_le.mpr hlt)

/-- What stands in the way of the name `c` for a binding `b`: it is reserved or protected; another
binding of the scope has it, one that is fixed or stands in front of `b`; an identifier in the scope
or further in has it and refers to a scope around it or to none; or a fixed binding has it of a
scope between `b` and a use of `b`. -/
inductive Opposes (ctx : Context) (b : Binding) (c : String) : Prop
  | kept (h : ctx.protectedNames.contains c = true)
  | sibling {name : String} (hname : name ∈ ctx.bindings b.1) (hne : name ≠ b.2)
      (hwhen : ctx.isRenamable (b.1, name) = false ∨
        [name, b.2].Sublist (ctx.bindings b.1))
      (hc : ctx.finalName (b.1, name) = c)
  | passing {o : Occurrence} (ho : o ∈ ctx.tree.occurrences) (hp : ctx.tree.Passes o b.1)
      (hc : ctx.newName o = c)
  | between {o : Occurrence} (ho : o ∈ ctx.tree.occurrences) (hr : ctx.tree.resolved o = some b.1)
      (hu : o.name = b.2) {j : ScopeId} (hj : j ∈ ctx.tree.ancestors o.scope)
      (hin : b.1 ∈ ctx.tree.ancestors j) (hne : j ≠ b.1) {name : String}
      (hname : name ∈ ctx.bindings j) (hfixed : ctx.isRenamable (j, name) = false)
      (hc : ctx.finalName (j, name) = c)

lemma finalName_of_not_renamable (h : ctx.isRenamable b = false) :
    ctx.finalName b = ctx.privateNames.rename b.2 := by
  unfold finalName
  rw [assign_of_not_renamable h]
  rfl

lemma finalName_of_assign (h : ctx.assign[b]? = some w) : ctx.finalName b = w := by
  unfold finalName
  rw [h]
  rfl

lemma mem_fixed_iff : c ∈ ctx.fixed id ↔ ∃ name ∈ ctx.bindings id,
    ctx.isRenamable (id, name) = false ∧ ctx.finalName (id, name) = c := by
  unfold fixed
  simp only [List.mem_map, List.mem_filter, Bool.not_eq_true']
  constructor
  · rintro ⟨name, ⟨hname, hfixed⟩, rfl⟩
    exact ⟨name, hname, hfixed, finalName_of_not_renamable hfixed⟩
  · rintro ⟨name, hname, hfixed, rfl⟩
    exact ⟨name, ⟨hname, hfixed⟩, (finalName_of_not_renamable hfixed).symm⟩

/-- The names of identifiers that are reached past a scope. -/
lemma mem_passing_iff : ((id, c) ∈ ctx.passingNames ∨
      ∃ b', (id, b') ∈ ctx.passingBindings ∧ ctx.assign[b']? = some c) ↔
    ∃ o ∈ ctx.tree.occurrences, ctx.tree.Passes o id ∧ ctx.newName o = c := by
  constructor
  · rintro (h | ⟨b', h, hw⟩)
    · obtain ⟨o, ho, ht, hid, hc⟩ := mem_passingNames.mp h
      exact ⟨o, ho, mem_crossed_iff.mp hid, (newName_of_target?_eq_none ht).trans hc⟩
    · obtain ⟨o, ho, ht, hid⟩ := mem_passingBindings.mp h
      exact ⟨o, ho, mem_crossed_iff.mp hid,
        (newName_of_target?_eq_some ht).trans (finalName_of_assign hw)⟩
  · rintro ⟨o, ho, hp, rfl⟩
    have hid := mem_crossed_iff.mpr hp
    cases ht : ctx.target? o with
    | none =>
      exact .inl (mem_passingNames.mpr ⟨o, ho, ht, hid, (newName_of_target?_eq_none ht).symm⟩)
    | some b' =>
      obtain ⟨hr, hname, hren⟩ := target?_eq_some.mp ht
      have hsplit := (crossed_splits ctx o).2
      rw [hr] at hsplit
      have hb' : b'.2 ∈ ctx.bindings b'.1 := mem_bindings.mpr (hname ▸ hsplit.1)
      refine .inr ⟨b', mem_passingBindings.mpr ⟨o, ho, ht, hid⟩, ?_⟩
      rw [newName_of_target?_eq_some ht]
      rcases finalName_cases hb' with ⟨-, hw⟩ | ⟨hfalse, -⟩
      · exact hw
      · rw [hren] at hfalse
        cases hfalse

/-- The fixed names of the scopes between a binding and its uses. -/
lemma mem_blocked_iff (hren : ctx.isRenamable b = true) : c ∈ ctx.constraints.blocked.getD b [] ↔
    ∃ o ∈ ctx.tree.occurrences, ctx.tree.resolved o = some b.1 ∧ o.name = b.2 ∧
      ∃ j ∈ ctx.tree.ancestors o.scope, b.1 ∈ ctx.tree.ancestors j ∧ j ≠ b.1 ∧
        c ∈ ctx.fixed j := by
  rw [mem_blocked]
  constructor
  · rintro ⟨j, hj, hc⟩
    obtain ⟨o, ho, ht, hid⟩ := mem_passingBindings.mp hj
    obtain ⟨hr, hname, -⟩ := target?_eq_some.mp ht
    have hp := mem_crossed_iff.mp hid
    obtain ⟨hne, hin⟩ := hp.out b.1 hr
    exact ⟨o, ho, hr, hname.symm, j, hp.inside, hin, hne.symm, hc⟩
  · rintro ⟨o, ho, hr, hname, j, hj, hin, hne, hc⟩
    have hp : ctx.tree.Passes o j := .of_resolved hr hj hin hne
    exact ⟨j, mem_passingBindings.mpr ⟨o, ho, target?_eq_some.mpr ⟨hr, hname.symm, hren⟩,
      mem_crossed_iff.mpr hp⟩, hc⟩

/-- What a name was passed over for stands in its way at the end. -/
lemma PassedOver.opposes (h : PassedOver ctx ctx.assign b c) (hren : ctx.isRenamable b = true)
    (hnodup : (ctx.bindings b.1).Nodup) : Opposes ctx b c := by
  cases h with
  | kept h => exact .kept h
  | used h =>
    rw [mem_usedNames, mem_passing_iff, mem_fixed_iff] at h
    rcases h with ⟨name, hname, hfixed, hc⟩ | ⟨o, ho, hp, hc⟩
    · refine .sibling hname (fun he => ?_) (.inl hfixed) hc
      subst he
      rw [hren] at hfixed
      cases hfixed
    · exact .passing ho hp hc
  | blocked h =>
    obtain ⟨o, ho, hr, hu, j, hj, hin, hne, hc⟩ := (mem_blocked_iff hren).mp h
    obtain ⟨name, hname, hfixed, hc⟩ := mem_fixed_iff.mp hc
    exact .between ho hr hu hj hin hne hname hfixed hc
  | @earlier name h hw =>
    have hne : name ≠ b.2 := by
      have hpair := hnodup.sublist h
      simpa using hpair
    exact .sibling (h.subset List.mem_cons_self) hne (.inr h) (finalName_of_assign hw)

/-- Nothing stands in the way of the name that is given. -/
lemma not_opposes_assign (h : ctx.assign[b]? = some w) : ¬Opposes ctx b w := by
  have ha := assigned_assign ctx
  have hapart := ha.apart b w h
  intro hw
  cases hw with
  | kept hkept =>
    rw [hapart.unprotected] at hkept
    cases hkept
  | @sibling name hname hne _ hc =>
    rcases finalName_cases (b := (b.1, name)) hname with ⟨-, hw⟩ | ⟨hfixed, -, hmem⟩
    · rw [hc] at hw
      exact hne (congrArg Prod.snd (ha.injective (b.1, name) b w rfl hw h))
    · exact hapart.fixed (hc ▸ hmem)
  | passing ho hp hc =>
    rcases mem_passing_iff.mpr ⟨_, ho, hp, hc⟩ with hmem | ⟨b', hb', hw⟩
    · exact hapart.passing hmem
    · exact hapart.crossing b' hb' hw
  | between ho hr hu hj hin hne hname hfixed hc =>
    have hmem := (mem_blocked_iff hapart.renamable).mpr
      ⟨_, ho, hr, hu, _, hj, hin, hne, mem_fixed_iff.mpr ⟨_, hname, hfixed, hc⟩⟩
    obtain ⟨i, hi, hmem⟩ := mem_blocked.mp hmem
    exact hapart.blocked i hi hmem

lemma nodup_bindings {tokens : List Token} (h : ScopeTree.ofTokens tokens = .ok ctx.tree)
    (id : ScopeId) : (ctx.bindings id).Nodup := by
  unfold bindings
  cases hs : ctx.tree.scopes[id]? with
  | none => exact List.nodup_nil
  | some sc => exact ScopeTree.bindings_nodup h hs

/-- The short name of a binding is the first one that nothing stands in the way of. -/
lemma assign_eq_nth {tokens : List Token} (h : ScopeTree.ofTokens tokens = .ok ctx.tree)
    (hb : b.2 ∈ ctx.bindings b.1) (hren : ctx.isRenamable b = true) {n : Nat}
    (hn : ¬Opposes ctx b (ShortName.nth n)) (hall : ∀ k < n, Opposes ctx b (ShortName.nth k)) :
    ctx.assign[b]? = some (ShortName.nth n) := by
  have hmem := (assigned_assign ctx).complete b (lt_of_mem_bindings hb) hb hren
  obtain ⟨w, hw⟩ := Option.isSome_iff_exists.mp (Std.HashMap.mem_iff_isSome_getElem?.mp hmem)
  obtain ⟨-, m, rfl, hpassed⟩ := firsts_assign (nodup_bindings h) b w hw
  rcases Nat.lt_trichotomy n m with hlt | rfl | hlt
  · exact absurd ((hpassed n hlt).opposes hren (nodup_bindings h b.1)) hn
  · exact hw
  · exact absurd (hall m hlt) (not_opposes_assign hw)

/-! ### What would go wrong with a name passed over -/

/-- The new names of all bindings, but the name `c` for the binding `b`. -/
def finalNameWith (ctx : Context) (b : Binding) (c : String) : Binding → String :=
  Function.update ctx.finalName b c

/-- What an occurrence is called when the bindings have the names `f`. -/
def nameIn (ctx : Context) (f : Binding → String) (o : Occurrence) : String :=
  match ctx.tree.resolved o with
  | some r => f (r, o.name)
  | none => ctx.privateNames.rename o.name

/-- With the name `c`, the binding `b` would have the name of another one in its scope, or some
identifier would refer to another scope than it does. -/
def Clashes (ctx : Context) (b : Binding) (c : String) : Prop :=
  (∃ name ∈ ctx.bindings b.1, name ≠ b.2 ∧
    ctx.finalNameWith b c (b.1, name) = ctx.finalNameWith b c b) ∨
  ∃ o ∈ ctx.tree.occurrences, (ctx.tree.renameBindings (ctx.finalNameWith b c)).resolve
    (ctx.nameIn (ctx.finalNameWith b c) o) o.scope ≠ ctx.tree.resolved o

lemma finalNameWith_self (ctx : Context) (b : Binding) (c : String) :
    ctx.finalNameWith b c b = c := Function.update_self _ _ _

lemma finalNameWith_of_ne {b' : Binding} (h : b' ≠ b) (c : String) :
    ctx.finalNameWith b c b' = ctx.finalName b' := Function.update_of_ne h _ _

/-- A name that a scope on the way binds does not lead where it should. -/
lemma resolve_ne_of_passes {f : Binding → String} {j : ScopeId} (hp : ctx.tree.Passes o j)
    {name : String} (hname : name ∈ ctx.bindings j) :
    (ctx.tree.renameBindings f).resolve (f (j, name)) o.scope ≠ ctx.tree.resolved o := by
  have hj := mem_crossed_iff.mpr hp
  have hbinds : Scope.binds (ctx.tree.renameBindings f).scopes j (f (j, name)) = true :=
    ScopeTree.binds_renameBindings.mpr ⟨name, mem_bindings.mp hname, rfl⟩
  obtain ⟨k, hk⟩ : ∃ k, (ctx.crossed o).find? (fun i =>
      Scope.binds (ctx.tree.renameBindings f).scopes i (f (j, name))) = some k :=
    Option.isSome_iff_exists.mp (List.find?_isSome.mpr ⟨j, hj, hbinds⟩)
  have hfound : (ctx.tree.renameBindings f).resolve (f (j, name)) o.scope = some k := by
    have hsplit := (crossed_splits ctx o).2
    unfold ScopeTree.resolve
    rw [ScopeTree.ancestors_renameBindings]
    cases hr : ctx.tree.resolved o with
    | none =>
      rw [hr] at hsplit
      rw [hsplit, hk]
    | some r =>
      rw [hr] at hsplit
      obtain ⟨-, rest, hl⟩ := hsplit
      rw [hl, List.find?_append, hk]
      rfl
  rw [hfound]
  intro he
  exact ((mem_crossed_iff.mp (List.mem_of_find?_eq_some hk)).out k he.symm).1 rfl

/-- A name that something stands in the way of would clash. -/
lemma Opposes.clashes (h : Opposes ctx b c) (hb : b.2 ∈ ctx.bindings b.1)
    (hfree : ctx.protectedNames.contains c = false) : Clashes ctx b c := by
  cases h with
  | kept hkept =>
    rw [hfree] at hkept
    cases hkept
  | @sibling name hname hne _ hc =>
    have hother : (b.1, name) ≠ b := fun he => hne (congrArg Prod.snd he)
    refine .inl ⟨name, hname, hne, ?_⟩
    rw [finalNameWith_self, finalNameWith_of_ne hother, hc]
  | @passing o ho hp hc =>
    have hself : ctx.finalNameWith b c (b.1, b.2) = c := ctx.finalNameWith_self b c
    have hname : ctx.nameIn (ctx.finalNameWith b c) o = ctx.finalNameWith b c (b.1, b.2) := by
      rw [hself, ← hc]
      unfold nameIn newName
      cases hr : ctx.tree.resolved o with
      | none => rfl
      | some r =>
        have hother : (r, o.name) ≠ b := fun he => (hp.out r hr).1 (congrArg Prod.fst he)
        exact finalNameWith_of_ne hother _
    refine .inr ⟨o, ho, ?_⟩
    rw [hname]
    exact resolve_ne_of_passes hp hb
  | @between o ho hr hu j hj hin hne name hname _ hc =>
    have hother : (j, name) ≠ b := fun he => hne (congrArg Prod.fst he)
    have hcalled : ctx.nameIn (ctx.finalNameWith b c) o = ctx.finalNameWith b c (j, name) := by
      rw [finalNameWith_of_ne hother, hc]
      unfold nameIn
      rw [hr, hu]
      exact ctx.finalNameWith_self b c
    have hp : ctx.tree.Passes o j := .of_resolved hr hj hin hne
    refine .inr ⟨o, ho, ?_⟩
    rw [hcalled]
    exact resolve_ne_of_passes hp hname

end Shrink.Context

open Minify.Shrink

/-- **Short names are the first legal ones**, in every script whose brackets are balanced, whatever
names are protected or have private ones: nothing stands in the way of the short name of a binding,
and something does of every name before it. A name that is not protected would have clashed. -/
theorem shortNames_first {tokens : List Token} {tree : ScopeTree}
    (h : ScopeTree.ofTokens tokens = .ok tree) (protectedNames : ProtectedNames)
    (privateNames : PrivateNames) {b : Binding} {w : String}
    (hw : (Context.assign ⟨tree, protectedNames, privateNames⟩)[b]? = some w) :
    ∃ n, w = ShortName.nth n ∧
      ¬Context.Opposes ⟨tree, protectedNames, privateNames⟩ b w ∧
      ∀ k < n, Context.Opposes ⟨tree, protectedNames, privateNames⟩ b (ShortName.nth k) ∧
        (protectedNames.contains (ShortName.nth k) = false →
          Context.Clashes ⟨tree, protectedNames, privateNames⟩ b (ShortName.nth k)) := by
  have hnodup (id : ScopeId) :
      (Context.bindings ⟨tree, protectedNames, privateNames⟩ id).Nodup := by
    unfold Context.bindings
    cases hs : tree.scopes[id]? with
    | none => exact List.nodup_nil
    | some sc => exact ScopeTree.bindings_nodup h hs
  obtain ⟨hbound, n, hn, hall⟩ := Context.firsts_assign hnodup b w hw
  have hren := ((Context.assigned_assign _).apart b w hw).renamable
  refine ⟨n, hn, Context.not_opposes_assign hw, fun k hk => ?_⟩
  have hopposes := (hall k hk).opposes hren (hnodup b.1)
  exact ⟨hopposes, hopposes.clashes hbound⟩

set_option maxRecDepth 20000 in
/-- The parameter of `function f(x)\x7ba;x\x7d` gets a short name, and not that of the global. -/
theorem shortNames_first_past_global :
    let tokens : List Token := [
      ⟨.keyword .kwFunction, "function", 0⟩, ⟨.blank, " ", 8⟩, ⟨.identifier, "f", 9⟩,
      ⟨.punctuator, "(", 10⟩, ⟨.identifier, "x", 11⟩, ⟨.punctuator, ")", 12⟩,
      ⟨.punctuator, "\x7b", 13⟩, ⟨.identifier, "a", 14⟩, ⟨.punctuator, ";", 15⟩,
      ⟨.identifier, "x", 16⟩, ⟨.punctuator, "\x7d", 17⟩]
    let tree : ScopeTree := {
      scopes := #[⟨none, .global, ["f"], false⟩, ⟨some 0, .function, ["x"], false⟩]
      inside := #[[1], []]
      occurrences := [⟨2, "f", 0, false⟩, ⟨4, "x", 1, false⟩, ⟨7, "a", 1, false⟩,
        ⟨9, "x", 1, false⟩] }
    ScopeTree.ofTokens tokens = .ok tree ∧
    ∃ w, (Context.assign ⟨tree, .empty, .empty⟩)[((1, "x") : Binding)]? = some w ∧ w ≠ "a" ∧
      ∃ n, w = ShortName.nth n ∧ ¬Context.Opposes ⟨tree, .empty, .empty⟩ (1, "x") w ∧
        ∀ k < n, Context.Opposes ⟨tree, .empty, .empty⟩ (1, "x") (ShortName.nth k) ∧
          (ProtectedNames.empty.contains (ShortName.nth k) = false →
            Context.Clashes ⟨tree, .empty, .empty⟩ (1, "x") (ShortName.nth k)) := by
  intro tokens tree
  have htree : ScopeTree.ofTokens tokens = .ok tree := by cbv
  have hren : Context.isRenamable ⟨tree, .empty, .empty⟩ (1, "x") = true := by
    simp [Context.isRenamable, ScopeTree.isRenamable, tree, ScopeTree.global,
      ProtectedNames.contains, ProtectedNames.empty, ProtectedNames.builtin, reservedWords,
      superAccessor, PrivateNames.get?, PrivateNames.empty]
  have hmem := (Context.assigned_assign ⟨tree, .empty, .empty⟩).complete (1, "x")
    (by decide : 1 < tree.scopes.size) (by decide) hren
  obtain ⟨w, hw⟩ := Option.isSome_iff_exists.mp (Std.HashMap.mem_iff_isSome_getElem?.mp hmem)
  have hfirst := shortNames_first htree .empty .empty hw
  refine ⟨htree, w, hw, ?_, hfirst⟩
  rintro rfl
  obtain ⟨n, -, hnot, -⟩ := hfirst
  let o : Occurrence := ⟨7, "a", 1, false⟩
  have hglobal : tree.resolved o = none := by cbv
  have hpasses : tree.Passes o 1 := by
    refine ⟨Scope.self_mem_ancestors _ 1, fun r hr => ?_⟩
    rw [hglobal] at hr
    cases hr
  refine hnot (.passing (o := o) (by decide) hpasses ?_)
  rw [Context.newName, hglobal]
  rfl

end Minify
