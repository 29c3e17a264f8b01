import Mathlib
import Minify.Proofs.NewTexts
import Minify.Proofs.PrivateRenaming
import Minify.Proofs.RecordedNames
import Minify.Proofs.ShortNaming

/-!
Renaming never captures a variable.

Give every binding its new name and read the new names of the identifiers where they are written.
Looked up in the tree with the new bindings, each identifier finds the scope it found before. The
argument follows the path of an identifier: no scope it reaches past has a binding with its new
name, since short names are apart from all that passes by and private names belong to one name each;
and the scope it refers to does have one.
-/

namespace Minify

/-- The tree with new names for its bindings. -/
def ScopeTree.renameBindings (t : ScopeTree) (f : Binding → String) : ScopeTree :=
  { t with scopes := t.scopes.mapIdx fun id s =>
      { s with bindings := s.bindings.map fun name => f (id, name) } }

/-- The variable in the text of a shorthand, which may have its key in front. -/
def afterKey (key text : String) : String :=
  if (key ++ ":").toList.isPrefixOf text.toList then
    String.ofList (text.toList.drop (key ++ ":").toList.length)
  else text

/-- The variable written at an occurrence, among the tokens with their new texts. -/
def Occurrence.written? (o : Occurrence) (texts : List (Token × String)) : Option String :=
  (texts[o.token]?).map fun x => if o.shorthand then afterKey o.name x.2 else x.2

lemma afterKey_append (key name : String) : afterKey key (key ++ ":" ++ name) = name := by
  have happ : (key ++ ":" ++ name).toList = (key ++ ":").toList ++ name.toList :=
    String.toList_append
  unfold afterKey
  rw [happ, if_pos (by simp), List.drop_left, String.ofList_toList]

lemma afterKey_of_not_prefix {key text : String} (h : ¬(key ++ ":").toList <+: text.toList) :
    afterKey key text = text := by
  unfold afterKey
  rw [if_neg (fun hp => h (List.isPrefixOf_iff_prefix.mp hp))]

lemma not_prefix_self (name : String) : ¬(name ++ ":").toList <+: name.toList := by
  intro hp
  have hle := hp.length_le
  rw [String.toList_append, List.length_append] at hle
  have hcolon : ":".toList.length = 1 := rfl
  omega

/-- A private name, or a name that has none, is no key with a name behind it. -/
lemma afterKey_rename {q : PrivateNames} {p : ProtectedNames} {tokens : List Token}
    (h : q.Covers p tokens) (key : String) : afterKey key (q.rename key) = q.rename key := by
  refine afterKey_of_not_prefix ?_
  unfold PrivateNames.rename
  cases hv : q.get? key with
  | none => exact not_prefix_self key
  | some v => exact h.noKey hv

namespace ScopeTree

variable {t : ScopeTree} {f : Binding → String}

lemma getElem?_renameBindings (t : ScopeTree) (f : Binding → String) (id : ScopeId) :
    (t.renameBindings f).scopes[id]? = (t.scopes[id]?).map fun s =>
      { s with bindings := s.bindings.map fun name => f (id, name) } :=
  Array.getElem?_mapIdx

lemma ancestors_renameBindings (t : ScopeTree) (f : Binding → String) (id : ScopeId) :
    (t.renameBindings f).ancestors id = t.ancestors id := by
  refine Scope.ancestors_congr fun i _ => ?_
  rw [getElem?_renameBindings]
  cases t.scopes[i]? <;> rfl

lemma binds_renameBindings {id : ScopeId} {name : String} :
    Scope.binds (t.renameBindings f).scopes id name = true ↔
      ∃ n, Scope.binds t.scopes id n = true ∧ f (id, n) = name := by
  unfold Scope.binds
  rw [getElem?_renameBindings]
  cases t.scopes[id]? with
  | none => simp
  | some s => simp

end ScopeTree

namespace Shrink.Context

variable {ctx : Context}

/-- The new name of a binding: its short name, or its private one, or its own. -/
def finalName (ctx : Context) (b : Binding) : String :=
  (ctx.assign[b]?).getD (ctx.privateNames.rename b.2)

/-- The tree with the new names. -/
def renamedTree (ctx : Context) : ScopeTree := ctx.tree.renameBindings ctx.finalName

lemma mem_bindings {id : ScopeId} {name : String} :
    name ∈ ctx.bindings id ↔ Scope.binds ctx.tree.scopes id name = true := by
  unfold bindings Scope.binds
  cases ctx.tree.scopes[id]? with
  | none => simp
  | some s => simp

lemma mem_fixed {id : ScopeId} {name : String} (hname : name ∈ ctx.bindings id)
    (h : ctx.isRenamable (id, name) = false) : ctx.privateNames.rename name ∈ ctx.fixed id := by
  unfold fixed
  refine List.mem_map.mpr ⟨name, List.mem_filter.mpr ⟨hname, ?_⟩, rfl⟩
  simp [h]

lemma lt_of_mem_bindings {id : ScopeId} {name : String} (h : name ∈ ctx.bindings id) :
    id < ctx.tree.scopes.size := by
  unfold bindings at h
  by_contra hlt
  rw [Array.getElem?_eq_none (Nat.le_of_not_lt hlt)] at h
  cases h

lemma assign_of_not_renamable {b : Binding} (h : ctx.isRenamable b = false) :
    ctx.assign[b]? = none := by
  cases hw : ctx.assign[b]? with
  | none => rfl
  | some w =>
    rw [((assigned_assign ctx).apart b w hw).renamable] at h
    cases h

lemma finalName_cases {b : Binding} (hb : b.2 ∈ ctx.bindings b.1) :
    (ctx.isRenamable b = true ∧ ctx.assign[b]? = some (ctx.finalName b)) ∨
      (ctx.isRenamable b = false ∧ ctx.finalName b = ctx.privateNames.rename b.2 ∧
        ctx.finalName b ∈ ctx.fixed b.1) := by
  unfold finalName
  cases hren : ctx.isRenamable b with
  | true =>
    have hmem := (assigned_assign ctx).complete b (lt_of_mem_bindings hb) hb hren
    obtain ⟨w, hw⟩ := Option.isSome_iff_exists.mp (Std.HashMap.mem_iff_isSome_getElem?.mp hmem)
    rw [hw]
    exact .inl ⟨rfl, rfl⟩
  | false =>
    rw [assign_of_not_renamable hren]
    exact .inr ⟨rfl, rfl, mem_fixed hb hren⟩

/-- The new name of an occurrence: that of the binding it refers to, or its own private name. -/
def newName (ctx : Context) (o : Occurrence) : String :=
  match ctx.tree.resolved o with
  | some r => ctx.finalName (r, o.name)
  | none => ctx.privateNames.rename o.name

lemma newName_of_resolved {o : Occurrence} {r : ScopeId} (h : ctx.tree.resolved o = some r) :
    ctx.newName o = ctx.finalName (r, o.name) := by
  unfold newName
  rw [h]

lemma newName_of_not_assigned {o : Occurrence}
    (h : ∀ r, ctx.tree.resolved o = some r → ctx.assign[((r, o.name) : Binding)]? = none) :
    ctx.newName o = ctx.privateNames.rename o.name := by
  unfold newName
  cases hr : ctx.tree.resolved o with
  | none => rfl
  | some r =>
    dsimp only
    rw [finalName, h r hr, Option.getD_none]

lemma newName_of_target?_eq_some {o : Occurrence} {b : Binding} (h : ctx.target? o = some b) :
    ctx.newName o = ctx.finalName b := by
  obtain ⟨hr, hname, -⟩ := target?_eq_some.mp h
  rw [newName_of_resolved hr, ← hname]

/-- An occurrence of a name that gets no short one keeps it, or has a private one. -/
lemma newName_of_target?_eq_none {o : Occurrence} (h : ctx.target? o = none) :
    ctx.newName o = ctx.privateNames.rename o.name := by
  refine newName_of_not_assigned fun r hr => assign_of_not_renamable ?_
  cases hren : ctx.isRenamable (r, o.name) with
  | false => rfl
  | true =>
    have hsome := target?_eq_some (b := (r, o.name)).mpr ⟨hr, rfl, hren⟩
    rw [h] at hsome
    cases hsome

/-! ### New names along a path -/

variable {tokens : List Token}

/-- No scope that an occurrence reaches past binds its new name. -/
lemma finalName_ne_of_crossed (hc : ctx.privateNames.Covers ctx.protectedNames tokens)
    (hnames : ∀ id, ∀ name ∈ ctx.bindings id, ∃ t ∈ tokens, t.kind = .identifier ∧ t.text = name)
    {o : Occurrence} (ho : o ∈ ctx.tree.occurrences)
    (hword : ∃ t ∈ tokens, t.kind = .identifier ∧ t.text = o.name) {j : ScopeId}
    (hj : j ∈ ctx.crossed o) {name : String} (hname : name ∈ ctx.bindings j) :
    ctx.finalName (j, name) ≠ ctx.newName o := by
  have hassigned := assigned_assign ctx
  obtain ⟨hnot, hsplit⟩ := crossed_splits ctx o
  have hne : name ≠ o.name := by
    rintro rfl
    have hb := mem_bindings.mp hname
    rw [hnot j hj] at hb
    cases hb
  cases ht : ctx.target? o with
  | some b =>
    obtain ⟨hr, hbname, hren⟩ := target?_eq_some.mp ht
    rw [hr] at hsplit
    have hb : b.2 ∈ ctx.bindings b.1 := mem_bindings.mpr (hbname ▸ hsplit.1)
    rw [newName_of_target?_eq_some ht]
    have hpass : (j, b) ∈ ctx.passingBindings := mem_passingBindings.mpr ⟨o, ho, ht, hj⟩
    rcases finalName_cases hb with ⟨-, hw⟩ | ⟨hfalse, -⟩
    · rcases finalName_cases (b := (j, name)) hname with ⟨-, hw'⟩ | ⟨-, -, hfix⟩
      · -- two short names: the inner one was chosen with the outer one known
        intro he
        exact (hassigned.apart _ _ hw').crossing b hpass (he ▸ hw)
      · intro he
        exact (hassigned.apart _ _ hw).blocked j hpass (he ▸ hfix)
    · rw [hren] at hfalse
      cases hfalse
  | none =>
    rw [newName_of_target?_eq_none ht]
    have hpass : (j, ctx.privateNames.rename o.name) ∈ ctx.passingNames :=
      mem_passingNames.mpr ⟨o, ho, ht, hj, rfl⟩
    rcases finalName_cases (b := (j, name)) hname with ⟨-, hw⟩ | ⟨-, he, -⟩
    · intro he
      exact (hassigned.apart _ _ hw).passing (he ▸ hpass)
    · rw [he]
      exact fun he => hne (hc.rename_injective (hnames j name hname) hword he)

/-- Looked up by its new name among the new bindings, an occurrence finds the scope it refers to. -/
lemma resolve_newName (hc : ctx.privateNames.Covers ctx.protectedNames tokens)
    (hnames : ∀ id, ∀ name ∈ ctx.bindings id, ∃ t ∈ tokens, t.kind = .identifier ∧ t.text = name)
    {o : Occurrence} (ho : o ∈ ctx.tree.occurrences)
    (hword : ∃ t ∈ tokens, t.kind = .identifier ∧ t.text = o.name) :
    ctx.renamedTree.resolve (ctx.newName o) o.scope = ctx.tree.resolved o := by
  have hpast : ∀ j ∈ ctx.crossed o,
      Scope.binds ctx.renamedTree.scopes j (ctx.newName o) = false := by
    intro j hj
    by_contra hb
    have hb : Scope.binds ctx.renamedTree.scopes j (ctx.newName o) = true := by simpa using hb
    obtain ⟨name, hname, he⟩ := ScopeTree.binds_renameBindings.mp hb
    exact finalName_ne_of_crossed hc hnames ho hword hj (mem_bindings.mpr hname) he
  have hsplit := (crossed_splits ctx o).2
  have hpath : ctx.renamedTree.ancestors o.scope = ctx.tree.ancestors o.scope :=
    ScopeTree.ancestors_renameBindings _ _ _
  unfold ScopeTree.resolve
  rw [hpath]
  cases hr : ctx.tree.resolved o with
  | some r =>
    rw [hr] at hsplit
    obtain ⟨hb, rest, hl⟩ := hsplit
    have hfound : Scope.binds ctx.renamedTree.scopes r (ctx.newName o) = true :=
      ScopeTree.binds_renameBindings.mpr ⟨o.name, hb, (newName_of_resolved hr).symm⟩
    rw [hl, List.find?_append, List.find?_eq_none.mpr fun j hj => by simpa using hpast j hj]
    exact List.find?_cons_of_pos
      (p := fun j => Scope.binds ctx.renamedTree.scopes j (ctx.newName o)) hfound
  | none =>
    rw [hr] at hsplit
    rw [hsplit]
    exact List.find?_eq_none.mpr fun j hj => by simpa using hpast j hj

lemma finalName_injective (hc : ctx.privateNames.Covers ctx.protectedNames tokens)
    (hnames : ∀ id, ∀ name ∈ ctx.bindings id, ∃ t ∈ tokens, t.kind = .identifier ∧ t.text = name)
    {id : ScopeId} {m n : String} (hm : m ∈ ctx.bindings id) (hn : n ∈ ctx.bindings id)
    (h : ctx.finalName (id, m) = ctx.finalName (id, n)) : m = n := by
  have hassigned := assigned_assign ctx
  rcases finalName_cases (b := (id, m)) hm with ⟨-, hw⟩ | ⟨-, he, hfix⟩ <;>
    rcases finalName_cases (b := (id, n)) hn with ⟨-, hw'⟩ | ⟨-, he', hfix'⟩
  · rw [← h] at hw'
    exact congrArg Prod.snd (hassigned.injective (id, m) (id, n) _ rfl hw hw')
  · exact absurd (h ▸ hfix') (hassigned.apart _ _ hw).fixed
  · exact absurd (h ▸ hfix) (hassigned.apart _ _ hw').fixed
  · rw [he, he'] at h
    exact hc.rename_injective (hnames id m hm) (hnames id n hn) h

/-! ### New names as they are written -/

lemma isNone_get?_of_isRenamable {b : Binding} (h : ctx.isRenamable b = true) :
    ctx.privateNames.get? b.2 = none := by
  unfold isRenamable at h
  simp only [Bool.and_eq_true, Option.isNone_iff_eq_none] at h
  exact h.2

lemma newText?_of_assigned {o : Occurrence} {r : ScopeId} {w : String}
    (hr : ctx.tree.resolved o = some r) (hw : ctx.assign[((r, o.name) : Binding)]? = some w) :
    ctx.newText? ctx.assign o = if w == o.name then none
      else if o.shorthand then some (o.name ++ ":" ++ w) else some w := by
  unfold newText?
  rw [hr]
  simp only [bind, Option.bind, hw]

lemma newText?_of_not_assigned {o : Occurrence}
    (h : ∀ r, ctx.tree.resolved o = some r → ctx.assign[((r, o.name) : Binding)]? = none) :
    ctx.newText? ctx.assign o = none := by
  unfold newText?
  cases hr : ctx.tree.resolved o with
  | none => rfl
  | some r => simp only [bind, Option.bind, h r hr]

section written

variable {o : Occurrence} {t : Token}

/-- An occurrence without a short name is written as it was, or with its private name. -/
lemma written?_of_not_assigned (hc : ctx.privateNames.Covers ctx.protectedNames tokens)
    (hne : (ctx.tree.occurrences.map Occurrence.token).Nodup) (ho : o ∈ ctx.tree.occurrences)
    (ht : tokens[o.token]? = some t) (hi : t.kind = .identifier) (hname : t.text = o.name)
    (h : ∀ r, ctx.tree.resolved o = some r → ctx.assign[((r, o.name) : Binding)]? = none) :
    o.written? (Layout.newTexts tokens
      (renameAll tokens ctx.tree ctx.protectedNames ctx.privateNames)) = some (ctx.newName o) := by
  unfold Occurrence.written?
  rw [getElem?_newTexts _ ht, getElem?_renameAll _ _ hne ho ht, newText?_of_not_assigned h,
    Option.none_or, PrivateNames.getD_newText? hi, hname, newName_of_not_assigned h]
  dsimp only [Option.map_some]
  rw [afterKey_rename hc, ite_self]

/-- A short name is written behind the key of a shorthand. -/
lemma written?_of_assigned (hne : (ctx.tree.occurrences.map Occurrence.token).Nodup)
    (ho : o ∈ ctx.tree.occurrences) (ht : tokens[o.token]? = some t) (hname : t.text = o.name)
    {r : ScopeId} {w : String} (hr : ctx.tree.resolved o = some r)
    (hw : ctx.assign[((r, o.name) : Binding)]? = some w) :
    o.written? (Layout.newTexts tokens
      (renameAll tokens ctx.tree ctx.protectedNames ctx.privateNames)) = some (ctx.newName o) := by
  have hnew : ctx.newName o = w := by
    rw [newName_of_resolved hr, finalName, hw, Option.getD_some]
  have hren := ((assigned_assign ctx).apart _ _ hw).renamable
  have hstays : ctx.privateNames.newText? t = none := by
    unfold PrivateNames.newText? PrivateNames.rename
    rw [hname, isNone_get?_of_isRenamable hren]
    simp
  have hself : afterKey o.name o.name = o.name := afterKey_of_not_prefix (not_prefix_self o.name)
  unfold Occurrence.written?
  rw [getElem?_newTexts _ ht, getElem?_renameAll _ _ hne ho ht, newText?_of_assigned hr hw, hstays,
    hnew]
  by_cases hsame : w = o.name
  · simp [hsame, hname, hself]
  · have hne : (w == o.name) = false := by simpa using hsame
    cases hsh : o.shorthand with
    | true => simp [hne, afterKey_append]
    | false => simp [hne]

lemma written?_eq (hc : ctx.privateNames.Covers ctx.protectedNames tokens)
    (hne : (ctx.tree.occurrences.map Occurrence.token).Nodup) (ho : o ∈ ctx.tree.occurrences)
    (ht : tokens[o.token]? = some t) (hi : t.kind = .identifier) (hname : t.text = o.name) :
    o.written? (Layout.newTexts tokens
      (renameAll tokens ctx.tree ctx.protectedNames ctx.privateNames)) = some (ctx.newName o) := by
  by_cases h : ∀ r, ctx.tree.resolved o = some r → ctx.assign[((r, o.name) : Binding)]? = none
  · exact written?_of_not_assigned hc hne ho ht hi hname h
  · simp only [not_forall] at h
    obtain ⟨r, hr, hassigned⟩ := h
    obtain ⟨w, hw⟩ := Option.ne_none_iff_exists'.mp hassigned
    exact written?_of_assigned hne ho ht hname hr hw

end written

end Shrink.Context

/-- The private names of a script, or none. -/
def PrivateNames.Of (q : PrivateNames) (tokens : List Token) (p : ProtectedNames) : Prop :=
  q = .empty ∨ ∃ mark, q = .collect tokens mark p

lemma PrivateNames.Of.covers {q : PrivateNames} {tokens : List Token} {p : ProtectedNames}
    (h : q.Of tokens p) : q.Covers p tokens := by
  rcases h with rfl | ⟨mark, rfl⟩
  · exact covers_empty p tokens
  · exact covers_collect tokens mark p

open Minify.Shrink

/-- Every identifier is written with a new name by which, among the new names of all bindings, it
finds the scope it refers to, if any, and it is written like its own binding there. No two bindings
of one scope have the same new name. -/
def CaptureFree (tokens : List Token) (ctx : Context) : Prop :=
  (∀ o ∈ ctx.tree.occurrences, ∃ name,
    o.written? (Layout.newTexts tokens
      (renameAll tokens ctx.tree ctx.protectedNames ctx.privateNames)) = some name ∧
    ctx.renamedTree.resolve name o.scope = ctx.tree.resolved o ∧
    ∀ id, ctx.tree.resolved o = some id → name = ctx.finalName (id, o.name)) ∧
  ∀ id s, ctx.tree.scopes[id]? = some s → ∀ m ∈ s.bindings, ∀ n ∈ s.bindings,
    ctx.finalName (id, m) = ctx.finalName (id, n) → m = n

/-- **Renaming is capture-free** in every script whose brackets are balanced, whatever names are
protected and whether or not its private names are changed. -/
theorem renaming_captureFree {tokens : List Token} {tree : ScopeTree}
    (h : ScopeTree.ofTokens tokens = .ok tree) (protectedNames : ProtectedNames)
    {privateNames : PrivateNames} (hq : privateNames.Of tokens protectedNames) :
    CaptureFree tokens ⟨tree, protectedNames, privateNames⟩ := by
  have hc : privateNames.Covers protectedNames tokens := hq.covers
  have hbindings {id : ScopeId} {s : Scope} (hs : tree.scopes[id]? = some s) :
      Context.bindings ⟨tree, protectedNames, privateNames⟩ id = s.bindings := by
    change ((tree.scopes[id]?).map Scope.bindings).getD [] = _
    rw [hs]
    rfl
  have hnames : ∀ id, ∀ name ∈ Context.bindings ⟨tree, protectedNames, privateNames⟩ id,
      ∃ t ∈ tokens, t.kind = .identifier ∧ t.text = name := by
    intro id name hname
    obtain ⟨s, hs⟩ : ∃ s, tree.scopes[id]? = some s :=
      ⟨_, Array.getElem?_eq_getElem (Context.lt_of_mem_bindings hname)⟩
    exact ScopeTree.exists_token_of_binds h hs (hbindings hs ▸ hname)
  have hne : (tree.occurrences.map Occurrence.token).Nodup :=
    List.pairwise_map.mpr ((ScopeTree.occurrences_pairwise h).imp Nat.ne_of_lt)
  refine ⟨fun o ho => ?_, fun id s hs m hm n hn he => ?_⟩
  · obtain ⟨t, ht, hi, hname⟩ := ScopeTree.exists_token_of_mem h ho
    refine ⟨Context.newName _ o, Context.written?_eq hc hne ho ht hi hname,
      Context.resolve_newName hc hnames ho ⟨t, List.mem_of_getElem? ht, hi, hname⟩, ?_⟩
    intro id hid
    unfold Context.newName
    rw [hid]
  · rw [← hbindings hs] at hm hn
    exact Context.finalName_injective hc hnames hm hn he

set_option maxRecDepth 20000 in
/-- The shorthands of `function f(alpha,_b){return{alpha,_b}}`, one with a short name and
one with a private name. -/
theorem renaming_captureFree_shorthands :
    let tokens : List Token := [
      ⟨.keyword .kwFunction, "function", 0⟩, ⟨.blank, " ", 8⟩, ⟨.identifier, "f", 9⟩,
      ⟨.punctuator, "(", 10⟩, ⟨.identifier, "alpha", 11⟩, ⟨.punctuator, ",", 16⟩,
      ⟨.identifier, "_b", 17⟩, ⟨.punctuator, ")", 19⟩, ⟨.punctuator, "\x7b", 20⟩,
      ⟨.keyword .kwReturn, "return", 21⟩, ⟨.punctuator, "\x7b", 27⟩, ⟨.identifier, "alpha", 28⟩,
      ⟨.punctuator, ",", 33⟩, ⟨.identifier, "_b", 34⟩, ⟨.punctuator, "\x7d", 36⟩,
      ⟨.punctuator, "\x7d", 37⟩]
    let tree : ScopeTree := {
      scopes := #[⟨none, .global, ["f"], false⟩, ⟨some 0, .function, ["alpha", "_b"], false⟩]
      inside := #[[1], []]
      occurrences := [⟨2, "f", 0, false⟩, ⟨4, "alpha", 1, false⟩, ⟨6, "_b", 1, false⟩,
        ⟨11, "alpha", 1, true⟩, ⟨13, "_b", 1, true⟩] }
    let privateNames := PrivateNames.collect tokens "_" .empty
    ScopeTree.ofTokens tokens = .ok tree ∧ privateNames.Of tokens .empty ∧
      CaptureFree tokens ⟨tree, .empty, privateNames⟩ := by
  intro tokens tree privateNames
  have htree : ScopeTree.ofTokens tokens = .ok tree := by cbv
  have hprivate : privateNames.Of tokens .empty := .inr ⟨"_", rfl⟩
  exact ⟨htree, hprivate, renaming_captureFree htree .empty hprivate⟩

end Minify
