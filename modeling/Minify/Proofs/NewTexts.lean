import Mathlib.Data.List.Nodup
import Minify.Rename.Shrink

/-!
The new texts of a script's tokens, one by one.

The texts are given as pairs of a token's index and its text, with no index twice, so the text of a
token can be looked up without regard to the others.
-/

namespace Minify

namespace Replacements

lemma compare_ne {i j : Nat} (h : i ≠ j) : ¬compare i j = .eq := fun he =>
  h (Std.LawfulEqCmp.compare_eq_iff_eq.mp he)

/-- The text for an item out of a list of items with different indices. -/
lemma getElem?_ofList {α : Type} {items : List α} {index : α → Nat} (f : α → Option String)
    (hne : (items.map index).Nodup) {a : α} (ha : a ∈ items) :
    (Std.TreeMap.ofList (items.filterMap fun a => (f a).map fun text => (index a, text)) :
      Replacements)[index a]? = f a := by
  cases hf : f a with
  | some text =>
    have hpairs : items.Pairwise fun a b => index a ≠ index b := List.pairwise_map.mp hne
    have hdistinct : (items.filterMap fun a => (f a).map fun text => (index a, text)).Pairwise
        fun x y => ¬compare x.1 y.1 = .eq := by
      refine hpairs.filterMap _ fun a b hab x hx y hy => ?_
      obtain ⟨_, -, rfl⟩ := Option.map_eq_some_iff.mp hx
      obtain ⟨_, -, rfl⟩ := Option.map_eq_some_iff.mp hy
      exact compare_ne hab
    refine Std.TreeMap.getElem?_ofList_of_mem Std.ReflCmp.compare_self hdistinct ?_
    exact List.mem_filterMap.mpr ⟨a, ha, by rw [hf]; rfl⟩
  | none =>
    apply Std.TreeMap.getElem?_ofList_of_contains_eq_false
    rw [Bool.eq_false_iff]
    intro hc
    obtain ⟨x, hx, hi⟩ := List.mem_map.mp (List.contains_iff_mem.mp hc)
    obtain ⟨b, hb, hx⟩ := List.mem_filterMap.mp hx
    obtain ⟨text, ht, rfl⟩ := Option.map_eq_some_iff.mp hx
    rw [List.inj_on_of_nodup_map hne hb ha hi, hf] at ht
    cases ht

/-- New texts over others: those that are there go first. -/
lemma getElem?_insertMany_toList (r r' : Replacements) (i : Nat) :
    (r.insertMany r'.toList)[i]? = (r'[i]?).or (r[i]?) := by
  cases h : r'[i]? with
  | some text =>
    have hmem : (i, text) ∈ r'.toList := Std.TreeMap.mem_toList_iff_getElem?_eq_some.mpr h
    rw [Std.TreeMap.getElem?_insertMany_list_of_mem Std.ReflCmp.compare_self
      Std.TreeMap.distinct_keys_toList hmem]
    rfl
  | none =>
    rw [Std.TreeMap.getElem?_insertMany_list_of_contains_eq_false]
    · rfl
    · rw [Bool.eq_false_iff]
      intro hc
      obtain ⟨x, hx, rfl⟩ := List.mem_map.mp (List.contains_iff_mem.mp hc)
      rw [Std.TreeMap.mem_toList_iff_getElem?_eq_some.mp hx] at h
      cases h

end Replacements

lemma PrivateNames.getElem?_replacements (p : PrivateNames) {tokens : List Token} {t : Token}
    {i : Nat} (h : tokens[i]? = some t) : (p.replacements tokens)[i]? = p.newText? t := by
  have hne : (tokens.zipIdx.map Prod.snd).Nodup := by
    rw [List.zipIdx_map_snd]
    exact List.nodup_range'
  have hmem : (t, i) ∈ tokens.zipIdx := List.mk_mem_zipIdx_iff_getElem?.mpr h
  have hget := Replacements.getElem?_ofList (fun x => p.newText? x.1) hne hmem
  exact hget

/-- What is written of an identifier that gets no short name is its private name. -/
lemma PrivateNames.getD_newText? {q : PrivateNames} {t : Token} (hi : t.kind = .identifier) :
    (q.newText? t).getD t.text = q.rename t.text := by
  unfold PrivateNames.newText?
  split
  · rfl
  · rename_i h
    have he : q.rename t.text = t.text := by simpa [hi] using h
    exact he.symm

lemma Shrink.Context.getElem?_replacements (ctx : Context)
    (hne : (ctx.tree.occurrences.map Occurrence.token).Nodup) {o : Occurrence}
    (ho : o ∈ ctx.tree.occurrences) : ctx.replacements[o.token]? = ctx.newText? ctx.assign o :=
  Replacements.getElem?_ofList (ctx.newText? ctx.assign) hne ho

/-- The new text of an occurrence is its short name, or else its private one. -/
lemma getElem?_renameAll {tokens : List Token} {tree : ScopeTree} (protectedNames : ProtectedNames)
    (privateNames : PrivateNames) (hne : (tree.occurrences.map Occurrence.token).Nodup)
    {o : Occurrence} (ho : o ∈ tree.occurrences) {t : Token} (ht : tokens[o.token]? = some t) :
    (renameAll tokens tree protectedNames privateNames)[o.token]?
      = (Shrink.Context.newText? ⟨tree, protectedNames, privateNames⟩
          (Shrink.Context.assign ⟨tree, protectedNames, privateNames⟩) o).or
        (privateNames.newText? t) := by
  have hshort := Shrink.Context.getElem?_replacements ⟨tree, protectedNames, privateNames⟩ hne ho
  rw [renameAll, Replacements.getElem?_insertMany_toList, shrink, hshort,
    PrivateNames.getElem?_replacements privateNames ht]

lemma getElem?_newTexts (r : Replacements) {tokens : List Token} {t : Token} {i : Nat}
    (ht : tokens[i]? = some t) :
    (Layout.newTexts tokens r)[i]? = some (t, (r[i]?).getD t.text) := by
  unfold Layout.newTexts
  rw [List.getElem?_map, List.getElem?_zipIdx, ht, Nat.zero_add]
  rfl

lemma of_getElem?_newTexts {r : Replacements} {tokens : List Token} {i : Nat} {t : Token}
    {text : String} (h : (Layout.newTexts tokens r)[i]? = some (t, text)) :
    tokens[i]? = some t ∧ (r[i]?).getD t.text = text := by
  cases hs : tokens[i]? with
  | none =>
    unfold Layout.newTexts at h
    rw [List.getElem?_map, List.getElem?_zipIdx, hs] at h
    cases h
  | some s =>
    rw [getElem?_newTexts r hs] at h
    cases h
    exact ⟨rfl, rfl⟩

end Minify
