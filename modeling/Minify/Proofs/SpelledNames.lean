import Mathlib
import Minify.Proofs.FirstLegalNames
import Minify.Proofs.LexerRun
import Minify.Proofs.RenamedTokens
import Minify.Proofs.ScannedTexts

/-!
Names that are spelled with escapes.

An escape in an identifier stands for a character, so two texts may be one name. The scopes and the
new names go by the texts. As long as every name with an escape is told apart by its new name from
those around it, just as by its old one, each identifier refers to the bindings it referred to.
-/

namespace Minify

open Layout Minify.Shrink Scan Text

/-! ### What a name spells -/

def hexValue (c : Char) : Nat :=
  if c.isDigit then c.toNat - 48 else if c.isLower then c.toNat - 87 else c.toNat - 55

/-- The code points that the characters of a name spell; the digits of an escape are those of one.
-/
def spelling : List Char → List Nat
  | [] => []
  | c :: cs =>
    let e := escape (c :: cs)
    if _h : e.closed then
      (e.taken.filter isHexDigit).foldl (fun n d => 16 * n + hexValue d) 0 :: spelling e.rest
    else c.toNat :: spelling cs
termination_by cs => cs.length
decreasing_by
  · exact escape_closed _h
  · simp

def spelled (name : String) : List Nat := spelling name.toList

/-- No escape stands in the name. -/
def IsPlain (name : String) : Prop := '\\' ∉ name.toList

instance (name : String) : Decidable (IsPlain name) := inferInstanceAs (Decidable (¬ _))

lemma spelling_of_plain {cs : List Char} (h : '\\' ∉ cs) : spelling cs = cs.map Char.toNat := by
  induction cs with
  | nil => rw [spelling, List.map_nil]
  | cons c cs ih =>
    obtain ⟨hc, hcs⟩ : '\\' ≠ c ∧ '\\' ∉ cs := by simpa using h
    have hopen : ¬ (escape (c :: cs)).closed = true := fun hclosed => by
      obtain ⟨tail, htail⟩ := escape_head hclosed
      have happend := escape_append (c :: cs)
      rw [htail] at happend
      exact hc (List.cons_eq_cons.mp happend).1
    rw [spelling, List.map_cons, dif_neg hopen, ih hcs]

lemma char_toNat_injective : Function.Injective Char.toNat := fun _ _ h =>
  Char.ext (UInt32.toNat_inj.mp h)

/-- Names without escapes spell the same only if they are the same. -/
lemma spelled_inj {m n : String} (hm : IsPlain m) (hn : IsPlain n) :
    spelled m = spelled n ↔ m = n := by
  rw [spelled, spelled, spelling_of_plain hm, spelling_of_plain hn,
    (List.map_injective_iff.mpr char_toNat_injective).eq_iff, String.toList_inj]

example : spelled "\\u0061\\u\x7b62\x7d" = spelled "ab" := by decide +kernel

/-! ### The first of some scopes -/

section

variable (names : ScopeId → List String) (p q : Binding → Bool)

/-- Some name of the scope is hit. -/
def isHit (j : ScopeId) : Bool := (names j).any fun n => p (j, n)

/-- The scopes on a path up to the first one where a name is hit. -/
def wayTo (path : List ScopeId) : List ScopeId :=
  path.takeWhile (fun j => !isHit names p j) ++ (path.find? (isHit names p)).toList

/-- The name is hit in the first scope of the path where one is. -/
def FirstHit (path : List ScopeId) (b : Binding) : Prop :=
  path.find? (isHit names p) = some b.1 ∧ b.2 ∈ names b.1 ∧ p b = true

variable {names p q} {i : ScopeId} {path : List ScopeId} {b : Binding}

lemma wayTo_of_hit (h : isHit names p i = true) : wayTo names p (i :: path) = [i] := by
  simp [wayTo, h]

lemma wayTo_of_not_hit (h : isHit names p i = false) :
    wayTo names p (i :: path) = i :: wayTo names p path := by
  simp [wayTo, h]

lemma firstHit_of_hit (h : isHit names p i = true) :
    FirstHit names p (i :: path) b ↔ b.1 = i ∧ b.2 ∈ names i ∧ p b = true := by
  rw [FirstHit, List.find?_cons_of_pos h, Option.some.injEq]
  refine ⟨fun h => ⟨h.1.symm, h.1 ▸ h.2⟩, fun h => ⟨h.1.symm, h.1 ▸ h.2⟩⟩

lemma firstHit_of_not_hit (h : isHit names p i = false) :
    FirstHit names p (i :: path) b ↔ FirstHit names p path b := by
  rw [FirstHit, FirstHit, List.find?_cons_of_neg (by simp [h])]

lemma isHit_of_mem {n : String} (hn : n ∈ names i) (h : p (i, n) = true) : isHit names p i = true :=
  List.any_eq_true.mpr ⟨n, hn, h⟩

lemma isHit_congr (h : ∀ n ∈ names i, q (i, n) = p (i, n)) : isHit names q i = isHit names p i := by
  rw [Bool.eq_iff_iff, isHit, isHit, List.any_eq_true, List.any_eq_true]
  exact exists_congr fun n => and_congr_right fun hn => by rw [h n hn]

/-- **The same names are hit first** just if on the way to the first hit the same ones are. -/
lemma firstHit_iff (path : List ScopeId) :
    (∀ b, FirstHit names q path b ↔ FirstHit names p path b) ↔
      ∀ j ∈ wayTo names p path, ∀ n ∈ names j, q (j, n) = p (j, n) := by
  induction path with
  | nil => simp [FirstHit, wayTo]
  | cons i path ih =>
    cases hp : isHit names p i with
    | true =>
      rw [wayTo_of_hit hp, List.forall_mem_singleton]
      refine ⟨fun h n hn => ?_, fun h b => ?_⟩
      · have hiff := h (i, n)
        rw [firstHit_of_hit hp] at hiff
        rw [Bool.eq_iff_iff]
        refine ⟨fun hq => ?_, fun hp => (hiff.mpr ⟨rfl, hn, hp⟩).2.2⟩
        exact (hiff.mp ((firstHit_of_hit (isHit_of_mem hn hq)).mpr ⟨rfl, hn, hq⟩)).2.2
      · have hq : isHit names q i = true := (isHit_congr h).trans hp
        rw [firstHit_of_hit hp, firstHit_of_hit hq]
        obtain ⟨j, n⟩ := b
        refine and_congr_right fun hj => and_congr_right fun hn => ?_
        obtain rfl : j = i := hj
        rw [h n hn]
    | false =>
      have hnone : ∀ n ∈ names i, p (i, n) = false := by simpa [isHit] using hp
      rw [wayTo_of_not_hit hp, List.forall_mem_cons]
      have hrest (hq : isHit names q i = false) :
          (∀ b, FirstHit names q (i :: path) b ↔ FirstHit names p (i :: path) b) ↔
            ∀ j ∈ wayTo names p path, ∀ n ∈ names j, q (j, n) = p (j, n) := by
        rw [← ih]
        exact forall_congr' fun b => by rw [firstHit_of_not_hit hq, firstHit_of_not_hit hp]
      refine ⟨fun h => ?_, fun h => (hrest ((isHit_congr h.1).trans hp)).mpr h.2⟩
      -- a hit of the one at this scope would be a first one of the other further on
      have hq (n : String) (hn : n ∈ names i) : q (i, n) = false := by
        by_contra hq
        rw [Bool.not_eq_false] at hq
        have hfirst := (h (i, n)).mp ((firstHit_of_hit (isHit_of_mem hn hq)).mpr ⟨rfl, hn, hq⟩)
        rw [FirstHit, hnone n hn] at hfirst
        exact Bool.noConfusion hfirst.2.2
      have hmiss : isHit names q i = false := by simpa [isHit] using hq
      exact ⟨fun n hn => (hq n hn).trans (hnone n hn).symm, (hrest hmiss).mp h⟩

end

/-! ### Bindings by what their names spell -/

namespace ScopeTree

variable {t : ScopeTree} {f : Binding → String} {id j : ScopeId} {name : String}

def namesIn (t : ScopeTree) (id : ScopeId) : List String :=
  ((t.scopes[id]?).map Scope.bindings).getD []

/-- The scope that binds what a name spells, for a name used in a scope. -/
def resolveSpelled (t : ScopeTree) (name : String) (id : ScopeId) : Option ScopeId :=
  (t.ancestors id).find? fun j => (t.namesIn j).any fun n => spelled n == spelled name

/-- The variable that a name stands for in a scope, if one is bound there or around it. -/
def variableOf (t : ScopeTree) (name : String) (id : ScopeId) : Option (ScopeId × List Nat) :=
  (t.resolveSpelled name id).map fun j => (j, spelled name)

/-- The scopes on the way from a scope to the one that binds what a name spells, with that one. -/
def reached (t : ScopeTree) (name : String) (id : ScopeId) : List ScopeId :=
  wayTo t.namesIn (fun b => spelled b.2 == spelled name) (t.ancestors id)

/-- The name refers to a binding of the script, when `f` gives the bindings their names. -/
def RefersBy (t : ScopeTree) (f : Binding → String) (name : String) (id : ScopeId) (b : Binding) :
    Prop :=
  (t.renameBindings f).resolveSpelled name id = some b.1 ∧ b.2 ∈ t.namesIn b.1 ∧
    spelled (f b) = spelled name

/-- The name refers to a binding of the script. -/
def Refers (t : ScopeTree) (name : String) (id : ScopeId) (b : Binding) : Prop :=
  t.resolveSpelled name id = some b.1 ∧ b.2 ∈ t.namesIn b.1 ∧ spelled b.2 = spelled name

lemma namesIn_renameBindings (t : ScopeTree) (f : Binding → String) (id : ScopeId) :
    (t.renameBindings f).namesIn id = (t.namesIn id).map fun n => f (id, n) := by
  rw [namesIn, namesIn, getElem?_renameBindings]
  cases t.scopes[id]? <;> rfl

lemma resolveSpelled_renameBindings (t : ScopeTree) (f : Binding → String) (name : String)
    (id : ScopeId) : (t.renameBindings f).resolveSpelled name id
      = (t.ancestors id).find? (isHit t.namesIn fun b => spelled (f b) == spelled name) := by
  rw [resolveSpelled, ancestors_renameBindings]
  refine List.find?_congr fun j _ => ?_
  rw [namesIn_renameBindings, List.any_map]
  rfl

lemma refersBy_iff {b : Binding} : t.RefersBy f name id b ↔
    FirstHit t.namesIn (fun b => spelled (f b) == spelled name) (t.ancestors id) b := by
  rw [RefersBy, FirstHit, resolveSpelled_renameBindings, beq_iff_eq]

lemma refers_iff {b : Binding} : t.Refers name id b ↔
    FirstHit t.namesIn (fun b => spelled b.2 == spelled name) (t.ancestors id) b := by
  rw [Refers, FirstHit, beq_iff_eq]
  rfl

lemma exists_firstHit {names : ScopeId → List String} {p : Binding → Bool} {path : List ScopeId}
    (h : path.find? (isHit names p) = some j) : ∃ n, FirstHit names p path (j, n) := by
  have hhit : isHit names p j = true := List.find?_some h
  obtain ⟨n, hn, hp⟩ := List.any_eq_true.mp hhit
  exact ⟨n, h, hn, hp⟩

lemma exists_refers (h : t.resolveSpelled name id = some j) : ∃ n, t.Refers name id (j, n) := by
  have hfind : (t.ancestors id).find? (isHit t.namesIn fun b => spelled b.2 == spelled name)
      = some j := h
  obtain ⟨n, hn⟩ := exists_firstHit hfind
  exact ⟨n, refers_iff.mpr hn⟩

lemma exists_refersBy (h : (t.renameBindings f).resolveSpelled name id = some j) :
    ∃ n, t.RefersBy f name id (j, n) := by
  rw [resolveSpelled_renameBindings] at h
  obtain ⟨n, hn⟩ := exists_firstHit h
  exact ⟨n, refersBy_iff.mpr hn⟩

end ScopeTree

/-! ### New names -/

/-- The new names of the bindings of a script and of its identifiers. -/
structure Renaming where
  binding : Binding → String
  ident : Occurrence → String

/-- The new names that the options ask for. -/
def Options.renaming (o : Options) (p : ProtectedNames) (tokens : List Token) (tree : ScopeTree) :
    Renaming :=
  let q := o.privateNames p tokens
  if o.shrinkVars then ⟨Context.finalName ⟨tree, p, q⟩, Context.newName ⟨tree, p, q⟩⟩
  else ⟨fun b => q.rename b.2, fun u => q.rename u.name⟩

namespace Renaming

variable {r : Renaming} {tree : ScopeTree}

/-- Every identifier is written with its new name, like the binding it refers to. -/
structure WrittenIn (r : Renaming) (tree : ScopeTree) (texts : List (Token × String)) : Prop where
  ident : ∀ u ∈ tree.occurrences, u.written? texts = some (r.ident u)
  binding : ∀ u ∈ tree.occurrences, ∀ id, tree.resolved u = some id →
    r.ident u = r.binding (id, u.name)

/-- Identifiers with different variables, or one with a variable and one with none, still have
different ones. -/
def Apart (r : Renaming) (tree : ScopeTree) : Prop :=
  ∀ u ∈ tree.occurrences, ∀ v ∈ tree.occurrences,
    tree.variableOf u.name u.scope ≠ tree.variableOf v.name v.scope →
      (tree.renameBindings r.binding).variableOf (r.ident u) u.scope
        ≠ (tree.renameBindings r.binding).variableOf (r.ident v) v.scope

/-- Every identifier refers to the bindings it referred to. -/
def Keeps (r : Renaming) (tree : ScopeTree) : Prop :=
  ∀ u ∈ tree.occurrences, ∀ b,
    tree.RefersBy r.binding (r.ident u) u.scope b ↔ tree.Refers u.name u.scope b

/-- An identifier and a name bound on its way, one of them with an escape, spell the same by their
new names just if they do by their old ones. -/
def Clear (r : Renaming) (tree : ScopeTree) : Prop :=
  ∀ u ∈ tree.occurrences, ∀ j ∈ tree.reached u.name u.scope, ∀ n ∈ tree.namesIn j,
    ¬ (IsPlain u.name ∧ IsPlain n) →
      (spelled (r.binding (j, n)) = spelled (r.ident u) ↔ spelled n = spelled u.name)

/-- An identifier and a name bound on its way have the same new name just if they are the same.
Without escapes their new names have none either. -/
structure Sound (r : Renaming) (tree : ScopeTree) : Prop where
  agrees : ∀ u ∈ tree.occurrences, ∀ j ∈ tree.reached u.name u.scope, ∀ n ∈ tree.namesIn j,
    r.binding (j, n) = r.ident u ↔ n = u.name
  binding : ∀ j, ∀ n ∈ tree.namesIn j, IsPlain n → IsPlain (r.binding (j, n))
  ident : ∀ u ∈ tree.occurrences, IsPlain u.name → IsPlain (r.ident u)

/-- Without escapes nothing is mixed up, so it all lies with the escapes. -/
lemma keeps_iff (h : r.Sound tree) : r.Keeps tree ↔ r.Clear tree := by
  refine forall_congr' fun u => forall_congr' fun hu => ?_
  simp only [ScopeTree.refersBy_iff, ScopeTree.refers_iff]
  rw [firstHit_iff]
  refine forall_congr' fun j => forall_congr' fun hj => forall_congr' fun n =>
    forall_congr' fun hn => ?_
  rw [Bool.eq_iff_iff, beq_iff_eq, beq_iff_eq]
  refine ⟨fun hsame _ => hsame, fun hsame => ?_⟩
  by_cases hplain : IsPlain u.name ∧ IsPlain n
  · rw [spelled_inj (h.binding j n hn hplain.2) (h.ident u hu hplain.1),
      spelled_inj hplain.2 hplain.1]
    exact h.agrees u hu j hj n hn
  · exact hsame hplain

lemma apart_of_keeps (h : r.Keeps tree) : r.Apart tree := by
  intro u hu v hv hne heq
  have hnone {w : Occurrence} (hw : w ∈ tree.occurrences)
      (hafter : (tree.renameBindings r.binding).resolveSpelled (r.ident w) w.scope = none) :
      tree.variableOf w.name w.scope = none := by
    cases hbefore : tree.resolveSpelled w.name w.scope with
    | none => simp [ScopeTree.variableOf, hbefore]
    | some j =>
      obtain ⟨n, hn⟩ := ScopeTree.exists_refers hbefore
      have hsome := ((h w hw _).mpr hn).1
      rw [hafter] at hsome
      cases hsome
  have hsome {w : Occurrence} {b : Binding} (hb : tree.Refers w.name w.scope b) :
      tree.variableOf w.name w.scope = some (b.1, spelled b.2) := by
    rw [ScopeTree.variableOf, hb.1, hb.2.2]
    rfl
  cases hafter : (tree.renameBindings r.binding).resolveSpelled (r.ident u) u.scope with
  | none =>
    cases hafter' : (tree.renameBindings r.binding).resolveSpelled (r.ident v) v.scope with
    | none => exact hne ((hnone hu hafter).trans (hnone hv hafter').symm)
    | some j => simp [ScopeTree.variableOf, hafter, hafter'] at heq
  | some j =>
    cases hafter' : (tree.renameBindings r.binding).resolveSpelled (r.ident v) v.scope with
    | none => simp [ScopeTree.variableOf, hafter, hafter'] at heq
    | some j' =>
      obtain ⟨rfl, hspelled⟩ : j = j' ∧ spelled (r.ident u) = spelled (r.ident v) := by
        simpa [ScopeTree.variableOf, hafter, hafter'] using heq
      obtain ⟨n, hn⟩ := ScopeTree.exists_refersBy hafter
      have hn' : tree.RefersBy r.binding (r.ident v) v.scope (j, n) :=
        ⟨hafter', hn.2.1, hn.2.2.trans hspelled⟩
      exact hne ((hsome ((h u hu _).mp hn)).trans (hsome ((h v hv _).mp hn')).symm)

end Renaming

/-! ### New names without escapes -/

lemma isPlain_nth (k : Nat) : IsPlain (ShortName.nth k) := by
  intro h
  rw [ShortName.toList_nth] at h
  exact absurd (ShortName.small_of_mem_letters h).1 (by decide)

/-- A private name gets an escape only from the mark, which it begins with. -/
lemma PrivateNames.Of.isPlain_rename {q : PrivateNames} {tokens : List Token} {p : ProtectedNames}
    (h : q.Of tokens p) {n : String} (hn : IsPlain n) : IsPlain (q.rename n) := by
  rcases h with rfl | ⟨mark, rfl⟩
  · exact hn
  cases hget : (collect tokens mark p).get? n with
  | none => rwa [rename, hget]
  | some v =>
    obtain ⟨⟨bound, hfound⟩, -, -⟩ := found_collectFrom (.nil mark p) tokens
    have hmem : (n, v) ∈ collectFrom mark p [] 0 tokens :=
      List.mem_reverse.mp (mem_names_of_get? hget)
    have hprivate : isPrivate n mark = true := hfound.marked _ hmem
    obtain ⟨k, -, hv, -⟩ := hfound.numbered _ hmem
    rw [rename, hget, Option.getD_some, show v = numbered mark k from hv, IsPlain, numbered,
      Numeral.encode, String.toList_append, String.toList_ofList, List.mem_append, not_or]
    simp only [isPrivate, Bool.and_eq_true] at hprivate
    refine ⟨fun hmark => hn ((List.isPrefixOf_iff_prefix.mp hprivate.1.2).subset hmark),
      fun hdigit => ?_⟩
    have hword := Numeral.isWordChar_of_mem_digits ⟨by decide, by decide⟩ hdigit
    cases hword

/-! ### The new names of a script -/

lemma mem_wayTo {names : ScopeId → List String} {p : Binding → Bool} {r j : ScopeId}
    {front rest : List ScopeId} (hr : isHit names p r = true)
    (hj : j ∈ wayTo names p (front ++ r :: rest)) : j ∈ front ∨ j = r := by
  induction front with
  | nil =>
    rw [List.nil_append, wayTo_of_hit hr, List.mem_singleton] at hj
    exact .inr hj
  | cons i front ih =>
    rw [List.cons_append] at hj
    cases hi : isHit names p i with
    | true =>
      rw [wayTo_of_hit hi, List.mem_singleton] at hj
      exact .inl (hj ▸ List.mem_cons_self)
    | false =>
      rw [wayTo_of_not_hit hi, List.mem_cons] at hj
      rcases hj with rfl | hj
      · exact .inl List.mem_cons_self
      · exact (ih hj).imp_left (List.mem_cons_of_mem i)

lemma wayTo_subset {names : ScopeId → List String} {p : Binding → Bool} (path : List ScopeId) :
    wayTo names p path ⊆ path := by
  intro j hj
  rcases List.mem_append.mp hj with hj | hj
  · exact (List.takeWhile_sublist _).subset hj
  · exact List.mem_of_find?_eq_some (Option.mem_toList.mp hj)

namespace Shrink.Context

variable {ctx : Context} {tokens : List Token}

/-- By what it spells an identifier never gets further than by its text. -/
lemma crossed_or_resolved {u : Occurrence} {j : ScopeId}
    (hj : j ∈ ctx.tree.reached u.name u.scope) :
    j ∈ ctx.crossed u ∨ ctx.tree.resolved u = some j := by
  have hsplit := (crossed_splits ctx u).2
  unfold ScopeTree.reached at hj
  cases hr : ctx.tree.resolved u with
  | none =>
    rw [hr] at hsplit
    exact .inl (hsplit ▸ wayTo_subset _ hj)
  | some r =>
    rw [hr] at hsplit
    obtain ⟨hb, rest, hpath⟩ := hsplit
    have hmem : u.name ∈ ctx.tree.namesIn r := mem_bindings.mpr hb
    have hhit : isHit ctx.tree.namesIn (fun b => spelled b.2 == spelled u.name) r = true :=
      isHit_of_mem hmem (beq_self_eq_true _)
    rw [hpath] at hj
    exact (mem_wayTo hhit hj).imp_right fun h => congrArg some h.symm

lemma isPlain_finalName (hq : ctx.privateNames.Of tokens ctx.protectedNames) {b : Binding}
    (hb : b.2 ∈ ctx.bindings b.1) (h : IsPlain b.2) : IsPlain (ctx.finalName b) := by
  rcases finalName_cases hb with ⟨-, hw⟩ | ⟨-, hname, -⟩
  · obtain ⟨k, hk⟩ := ((assigned_assign ctx).apart _ _ hw).short
    exact hk ▸ isPlain_nth k
  · exact hname ▸ hq.isPlain_rename h

lemma sound (hq : ctx.privateNames.Of tokens ctx.protectedNames)
    (hnames : ∀ id, ∀ name ∈ ctx.bindings id, ∃ t ∈ tokens, t.kind = .identifier ∧ t.text = name)
    (hwords : ∀ u ∈ ctx.tree.occurrences, ∃ t ∈ tokens, t.kind = .identifier ∧ t.text = u.name) :
    Renaming.Sound ⟨ctx.finalName, ctx.newName⟩ ctx.tree := by
  refine ⟨fun u hu j hj n hn => ?_, fun j n hn h => isPlain_finalName hq hn h, fun u hu h => ?_⟩
  · dsimp only
    rcases crossed_or_resolved hj with hj | hr
    · refine iff_of_false (finalName_ne_of_crossed hq.covers hnames hu (hwords u hu) hj hn) ?_
      rintro rfl
      have hb := mem_bindings.mp hn
      rw [(crossed_splits ctx u).1 j hj] at hb
      cases hb
    · rw [newName_of_resolved hr]
      refine ⟨fun h => ?_, fun h => h ▸ rfl⟩
      have hsplit := (crossed_splits ctx u).2
      rw [hr] at hsplit
      exact finalName_injective hq.covers hnames hn (mem_bindings.mpr hsplit.1) h
  · dsimp only
    cases hr : ctx.tree.resolved u with
    | none =>
      unfold newName
      rw [hr]
      exact hq.isPlain_rename h
    | some id =>
      have hsplit := (crossed_splits ctx u).2
      rw [hr] at hsplit
      rw [newName_of_resolved hr]
      exact isPlain_finalName hq (mem_bindings.mpr hsplit.1) h

end Shrink.Context

variable {tokens : List Token} {tree : ScopeTree} {o : Options} {p : ProtectedNames}
  {replaced : Replacements}

lemma privateNames_of (o : Options) (p : ProtectedNames) (tokens : List Token) :
    (o.privateNames p tokens).Of tokens p := by
  unfold Options.privateNames
  split
  · exact .inr ⟨_, rfl⟩
  · exact .inl rfl

lemma sound_renaming (h : ScopeTree.ofTokens tokens = .ok tree) (o : Options) (p : ProtectedNames) :
    (o.renaming p tokens tree).Sound tree := by
  have hq := privateNames_of o p tokens
  have hnames : ∀ id, ∀ name ∈ tree.namesIn id, ∃ t ∈ tokens, t.kind = .identifier ∧
    t.text = name := by
    intro id name hname
    unfold ScopeTree.namesIn at hname
    cases hs : tree.scopes[id]? with
    | none => simp [hs] at hname
    | some s => exact ScopeTree.exists_token_of_binds h hs (by simpa [hs] using hname)
  have hwords : ∀ u ∈ tree.occurrences, ∃ t ∈ tokens, t.kind = .identifier ∧ t.text = u.name := by
    intro u hu
    obtain ⟨t, ht, hi, hname⟩ := ScopeTree.exists_token_of_mem h hu
    exact ⟨t, List.mem_of_getElem? ht, hi, hname⟩
  unfold Options.renaming
  dsimp only
  split
  · exact @Context.sound ⟨tree, p, o.privateNames p tokens⟩ tokens hq hnames hwords
  · refine ⟨fun u hu j hj n hn => ⟨fun he => ?_, fun he => he ▸ rfl⟩, fun j n hn =>
      hq.isPlain_rename,
      fun u hu => hq.isPlain_rename⟩
    exact hq.covers.rename_injective (hnames j n hn) (hwords u hu) he

lemma isWrittenIn_private (h : ScopeTree.ofTokens tokens = .ok tree) {q : PrivateNames}
    (hc : q.Covers p tokens) : Renaming.WrittenIn ⟨fun b => q.rename b.2, fun u => q.rename u.name⟩
      tree (newTexts tokens (q.replacements tokens)) := by
  refine ⟨fun u hu => ?_, fun _ _ _ _ => rfl⟩
  obtain ⟨t, ht, hi, hname⟩ := ScopeTree.exists_token_of_mem h hu
  unfold Occurrence.written?
  rw [getElem?_newTexts _ ht, PrivateNames.getElem?_replacements q ht,
    PrivateNames.getD_newText? hi,
    hname, Option.map_some, afterKey_rename hc]
  split <;> rfl

lemma isWrittenIn_shrink {ctx : Context} (h : ScopeTree.ofTokens tokens = .ok ctx.tree)
    (hc : ctx.privateNames.Covers ctx.protectedNames tokens) :
    Renaming.WrittenIn ⟨ctx.finalName, ctx.newName⟩ ctx.tree (newTexts tokens
      (renameAll tokens ctx.tree ctx.protectedNames ctx.privateNames)) := by
  have hne : (ctx.tree.occurrences.map Occurrence.token).Nodup :=
    List.pairwise_map.mpr ((ScopeTree.occurrences_pairwise h).imp Nat.ne_of_lt)
  refine ⟨fun u hu => ?_, fun u _ id hid => Context.newName_of_resolved hid⟩
  obtain ⟨t, ht, hi, hname⟩ := ScopeTree.exists_token_of_mem h hu
  exact Context.written?_eq hc hne hu ht hi hname

lemma isWrittenIn_renaming (h : ScopeTree.ofTokens tokens = .ok tree)
    (hreplaced : o.replacements p tokens = .ok replaced) :
    (o.renaming p tokens tree).WrittenIn tree (newTexts tokens replaced) := by
  have hc := (privateNames_of o p tokens).covers
  unfold Options.replacements at hreplaced
  unfold Options.renaming
  dsimp only at hreplaced ⊢
  split at hreplaced
  · rename_i hshrink
    rw [h] at hreplaced
    cases hreplaced
    rw [if_pos hshrink]
    exact @isWrittenIn_shrink tokens ⟨tree, p, o.privateNames p tokens⟩ h hc
  · rename_i hshrink
    rw [if_neg hshrink]
    cases hreplaced
    exact isWrittenIn_private h hc

/-- **Names that spell the same**, in every script whose brackets are balanced, whatever is
protected and whichever names are to change. All identifiers refer to the bindings they referred to
just when the new names tell apart each name with an escape from those on its way as the old ones
do. Then no two variables become one. -/
theorem spelled_names_kept (h : ScopeTree.ofTokens tokens = .ok tree)
    (hreplaced : o.replacements p tokens = .ok replaced) :
    (o.renaming p tokens tree).WrittenIn tree (newTexts tokens replaced) ∧
      ((o.renaming p tokens tree).Keeps tree ↔ (o.renaming p tokens tree).Clear tree) ∧
      ((o.renaming p tokens tree).Clear tree → (o.renaming p tokens tree).Apart tree) := by
  have hkeeps := Renaming.keeps_iff (sound_renaming h o p)
  exact ⟨isWrittenIn_renaming h hreplaced, hkeeps, fun hclear =>
    Renaming.apart_of_keeps (hkeeps.mpr hclear)⟩

set_option maxRecDepth 20000 in
/-- In `function f(_a)\x7breturn \u005f1\x7d` the parameter becomes `_0`, and the other name spells
`_1`. -/
theorem spelled_names_kept_private :
    let source := "function f(_a)\x7breturn \\u005f1\x7d"
    let o : Options := { renamePrivate := true }
    let tokens : List Token := [
      ⟨.keyword .kwFunction, "function", 0⟩, ⟨.blank, " ", 8⟩, ⟨.identifier, "f", 9⟩,
      ⟨.punctuator, "(", 10⟩, ⟨.identifier, "_a", 11⟩, ⟨.punctuator, ")", 13⟩,
      ⟨.punctuator, "\x7b", 14⟩, ⟨.keyword .kwReturn, "return", 15⟩, ⟨.blank, " ", 21⟩,
      ⟨.identifier, "\\u005f1", 22⟩, ⟨.punctuator, "\x7d", 29⟩]
    let tree : ScopeTree := {
      scopes := #[⟨none, .global, ["f"], false⟩, ⟨some 0, .function, ["_a"], false⟩]
      inside := #[[1], []]
      occurrences := [⟨2, "f", 0, false⟩, ⟨4, "_a", 1, false⟩, ⟨9, "\\u005f1", 1, false⟩] }
    let replaced := (o.privateNames .empty tokens).replacements tokens
    tokenize source = .ok tokens ∧ ScopeTree.ofTokens tokens = .ok tree ∧
      o.replacements .empty tokens = .ok replaced ∧
      (compact tokens replaced).code = "function f(_0)\x7breturn \\u005f1\x7d" ∧
      (o.renaming .empty tokens tree).WrittenIn tree (newTexts tokens replaced) ∧
      (o.renaming .empty tokens tree).Keeps tree ∧ (o.renaming .empty tokens tree).Apart tree := by
  intro source o tokens tree replaced
  have htokens : tokenize source = .ok tokens := by
    rw [tokenize, tokens_eq_runFor]
    decide +kernel
  have htree : ScopeTree.ofTokens tokens = .ok tree := by cbv
  have hreplaced : o.replacements .empty tokens = .ok replaced := rfl
  have hclear : (o.renaming .empty tokens tree).Clear tree := by
    unfold Renaming.Clear
    decide +kernel
  obtain ⟨hwritten, hkeeps, hapart⟩ := spelled_names_kept htree hreplaced
  exact ⟨htokens, htree, hreplaced, by decide +kernel, hwritten, hkeeps.mpr hclear, hapart hclear⟩

set_option maxRecDepth 20000 in
/-- The parameter of `function f(b)\x7breturn \u0061\x7d` gets the name that the other identifier
spells, and becomes its variable. -/
theorem spelled_name_captured :
    let source := "function f(b)\x7breturn \\u0061\x7d"
    let o : Options := { shrinkVars := true }
    let tokens : List Token := [
      ⟨.keyword .kwFunction, "function", 0⟩, ⟨.blank, " ", 8⟩, ⟨.identifier, "f", 9⟩,
      ⟨.punctuator, "(", 10⟩, ⟨.identifier, "b", 11⟩, ⟨.punctuator, ")", 12⟩,
      ⟨.punctuator, "\x7b", 13⟩, ⟨.keyword .kwReturn, "return", 14⟩, ⟨.blank, " ", 20⟩,
      ⟨.identifier, "\\u0061", 21⟩, ⟨.punctuator, "\x7d", 27⟩]
    let tree : ScopeTree := {
      scopes := #[⟨none, .global, ["f"], false⟩, ⟨some 0, .function, ["b"], false⟩]
      inside := #[[1], []]
      occurrences := [⟨2, "f", 0, false⟩, ⟨4, "b", 1, false⟩, ⟨9, "\\u0061", 1, false⟩] }
    let r := o.renaming .empty tokens tree
    tokenize source = .ok tokens ∧ ScopeTree.ofTokens tokens = .ok tree ∧
      tree.variableOf "b" 1 = some (1, spelled "b") ∧ tree.variableOf "\\u0061" 1 = none ∧
      r.ident ⟨4, "b", 1, false⟩ = "a" ∧ r.ident ⟨9, "\\u0061", 1, false⟩ = "\\u0061" ∧
      (tree.renameBindings r.binding).variableOf "a" 1 = some (1, spelled "a") ∧
      (tree.renameBindings r.binding).variableOf "\\u0061" 1 = some (1, spelled "a") ∧
      ¬ r.Apart tree := by
  intro source o tokens tree r
  have htokens : tokenize source = .ok tokens := by
    rw [tokenize, tokens_eq_runFor]
    decide +kernel
  have htree : ScopeTree.ofTokens tokens = .ok tree := by cbv
  let ctx : Context := ⟨tree, .empty, .empty⟩
  have hrenaming : r = ⟨ctx.finalName, ctx.newName⟩ := rfl
  have hinner : tree.resolved ⟨4, "b", 1, false⟩ = some 1 := by cbv
  have houter : tree.resolved ⟨9, "\\u0061", 1, false⟩ = none := by cbv
  have hescaped : ctx.newName ⟨9, "\\u0061", 1, false⟩ = "\\u0061" := by
    unfold Context.newName
    rw [houter]
    rfl
  have hoccurrence {w : Occurrence} (hw : w ∈ tree.occurrences) : w = ⟨2, "f", 0, false⟩ ∨
      w = ⟨4, "b", 1, false⟩ ∨ w = ⟨9, "\\u0061", 1, false⟩ := by simpa [tree] using hw
  have hout : 1 ∉ tree.ancestors 0 := by decide +kernel
  have hfree : ¬ Context.Opposes ctx (1, "b") (ShortName.nth 0) := by
    intro hopposes
    cases hopposes with
    | kept hkept => exact absurd hkept (by decide +kernel)
    | @sibling name hname hne => exact hne (by simpa [Context.bindings, ctx, tree] using hname)
    | @passing w hw hp hc =>
      rcases hoccurrence hw with rfl | rfl | rfl
      · exact hout hp.inside
      · exact (hp.out 1 hinner).1 rfl
      · rw [hescaped] at hc
        exact absurd hc (by decide +kernel)
    | @between w hw hr hu j hj hin hne =>
      rcases hoccurrence hw with rfl | rfl | rfl
      · exact absurd hu (by decide)
      · have hpath : tree.ancestors 1 = [1, 0] := by decide +kernel
        have hj' : j ∈ tree.ancestors 1 := hj
        rw [hpath] at hj'
        obtain rfl : j = 0 := by simpa [hne] using hj'
        exact hout hin
      · exact absurd hu (by decide)
  have hrenamable : ctx.isRenamable (1, "b") = true := Context.isRenamable_iff.mpr
    ⟨by decide, by decide +kernel, by decide +kernel, by decide +kernel, rfl⟩
  have hfirst : ShortName.nth 0 = "a" := by decide +kernel
  have hassign : ctx.assign[((1, "b") : Binding)]? = some "a" :=
    hfirst ▸ Context.assign_eq_nth htree (by decide) hrenamable hfree
      fun k hk => absurd hk k.not_lt_zero
  have hfinal : ctx.finalName (1, "b") = "a" := Context.finalName_of_assign hassign
  have hname : ctx.newName ⟨4, "b", 1, false⟩ = "a" :=
    (Context.newName_of_resolved hinner).trans hfinal
  have hglobal : ctx.finalName (0, "f") = "f" := by
    rw [Context.finalName_of_not_renamable (by decide +kernel)]
    rfl
  have hrenamed : tree.renameBindings ctx.finalName = {
      scopes := #[⟨none, .global, ["f"], false⟩, ⟨some 0, .function, ["a"], false⟩]
      inside := #[[1], []]
      occurrences := tree.occurrences } := by
    simp [ScopeTree.renameBindings, tree, hfinal, hglobal]
  have hbefore : tree.variableOf "b" 1 = some (1, spelled "b") := by decide +kernel
  have hbefore' : tree.variableOf "\\u0061" 1 = none := by decide +kernel
  have hafter : (tree.renameBindings ctx.finalName).variableOf "a" 1 = some (1, spelled "a") := by
    rw [hrenamed]
    decide +kernel
  have hafter' : (tree.renameBindings ctx.finalName).variableOf "\\u0061" 1
      = some (1, spelled "a") := by
    rw [hrenamed]
    decide +kernel
  rw [hrenaming]
  refine ⟨htokens, htree, hbefore, hbefore', hname, hescaped, hafter, hafter', fun hapart => ?_⟩
  refine hapart ⟨4, "b", 1, false⟩ (by decide) ⟨9, "\\u0061", 1, false⟩ (by decide) ?_ ?_
  · dsimp only
    rw [hbefore, hbefore']
    exact Option.some_ne_none _
  · dsimp only
    rw [hname, hescaped, hafter, hafter']

end Minify
