import Mathlib
import Minify.Proofs.CaptureFree
import Minify.Proofs.ChunkPlaces
import Minify.Proofs.ExposedScopes
import Minify.Proofs.LexedText
import Minify.Proofs.PackingDecodes
import Minify.Proofs.PrivateNumbering

/-!
What renaming leaves alone.

A token gets a new text as a private name or as a variable, never as both: the names that get short
ones are those without a private one. Either way it is an identifier whose name may change, and its
new name is one that may be given. All other tokens that stay are written as they are.
-/

namespace Minify

open Layout Minify.Shrink

/-! ### Where new texts come from -/

lemma Replacements.exists_of_getElem?_ofList {α : Type} {items : List α} {index : α → Nat}
    {f : α → Option String} (hne : (items.map index).Nodup) {i : Nat} {text : String}
    (h : (Std.TreeMap.ofList (items.filterMap fun a => (f a).map fun text => (index a, text)) :
      Replacements)[i]? = some text) : ∃ a ∈ items, index a = i ∧ f a = some text := by
  have hmem : i ∈ (Std.TreeMap.ofList
      (items.filterMap fun a => (f a).map fun text => (index a, text)) : Replacements) :=
    Std.TreeMap.mem_iff_isSome_getElem?.mpr (by rw [h]; rfl)
  obtain ⟨x, hx, rfl⟩ := List.mem_map.mp (List.contains_iff_mem.mp (Std.TreeMap.mem_ofList.mp hmem))
  obtain ⟨a, ha, hx⟩ := List.mem_filterMap.mp hx
  obtain ⟨text', -, rfl⟩ := Option.map_eq_some_iff.mp hx
  rw [getElem?_ofList f hne ha] at h
  exact ⟨a, ha, rfl, h⟩

namespace PrivateNames

variable {q : PrivateNames} {tokens : List Token} {mark : String} {p : ProtectedNames}

/-- Only a token with a private name gets a new text as one. -/
lemma exists_of_getElem?_replacements {i : Nat} {text : String}
    (h : (q.replacements tokens)[i]? = some text) :
    ∃ t, tokens[i]? = some t ∧ t.kind = .identifier ∧ q.get? t.text = some text := by
  have hne : (tokens.zipIdx.map Prod.snd).Nodup := by
    rw [List.zipIdx_map_snd]
    exact List.nodup_range'
  obtain ⟨⟨t, j⟩, hmem, rfl, hnew⟩ := Replacements.exists_of_getElem?_ofList hne h
  refine ⟨t, List.mk_mem_zipIdx_iff_getElem?.mp hmem, ?_⟩
  unfold newText? at hnew
  split at hnew
  · rename_i hchanged
    rw [Bool.and_eq_true, decide_eq_true_eq] at hchanged
    refine ⟨hchanged.1, ?_⟩
    unfold rename at hnew hchanged
    cases hget : q.get? t.text with
    | none => simp [hget] at hchanged
    | some v => rwa [hget, Option.getD_some] at hnew
  · cases hnew

/-- The names that change are private and not protected, and so are their new ones. -/
lemma of_get?_collect {x v : String} (h : (collect tokens mark p).get? x = some v) :
    isPrivate x mark = true ∧ p.contains x = false ∧ isPrivate v mark = true ∧
      p.contains v = false := by
  obtain ⟨bound, hcount⟩ := (counted_nil mark p).collectFrom tokens
  obtain ⟨⟨_, hfound⟩, -, -⟩ := found_collectFrom (.nil mark p) tokens
  have hmem : (x, v) ∈ collectFrom mark p [] 0 tokens := List.mem_reverse.mp (mem_names_of_get? h)
  have hname : x ∈ collectible mark p tokens := hcount.mem_fst.mp (List.mem_map_of_mem hmem)
  obtain ⟨t, ht, rfl⟩ := List.mem_map.mp hname
  have hc := (List.mem_filter.mp ht).2
  simp only [isCollectible, Bool.and_eq_true, Bool.not_eq_true'] at hc
  obtain ⟨n, -, rfl, hfree⟩ := hfound.numbered _ hmem
  exact ⟨hc.1.2, hc.2, isPrivate_numbered hc.1.2 n, by simpa [isFree] using hfree⟩

end PrivateNames

namespace Shrink.Context

variable {ctx : Context}

/-- Only an occurrence of a binding with a short name gets a new text for it. -/
lemma of_newText?_eq_some {o : Occurrence} {text : String}
    (h : ctx.newText? ctx.assign o = some text) :
    ∃ id short, ctx.tree.resolved o = some id ∧
      ctx.assign[((id, o.name) : Binding)]? = some short ∧
      text = if o.shorthand then o.name ++ ":" ++ short else short := by
  cases hr : ctx.tree.resolved o with
  | none =>
    rw [newText?_of_not_assigned fun r hr' => by rw [hr] at hr'; cases hr'] at h
    cases h
  | some id =>
    cases hw : ctx.assign[((id, o.name) : Binding)]? with
    | none =>
      rw [newText?_of_not_assigned fun r hr' => by rw [hr] at hr'; cases hr'; exact hw] at h
      cases h
    | some short =>
      rw [newText?_of_assigned hr hw] at h
      refine ⟨id, short, rfl, hw, ?_⟩
      split_ifs at h ⊢
      · exact (Option.some.inj h).symm
      · exact (Option.some.inj h).symm

lemma isRenamable_iff {b : Binding} : ctx.isRenamable b = true ↔
    b.1 ≠ ScopeTree.global ∧ (ctx.tree.scopes[b.1]?).any Scope.hasEval = false ∧
      ctx.protectedNames.contains b.2 = false ∧ '\\' ∉ b.2.toList ∧
      ctx.privateNames.get? b.2 = none := by
  unfold isRenamable ScopeTree.isRenamable
  simp [and_assoc]

end Shrink.Context

/-! ### Tokens with new texts -/

/-- A name that is never changed and never given. -/
def Untouchable (p : ProtectedNames) (o : Options) (name : String) : Prop :=
  name ∈ reservedWords ∨ name = superAccessor ∨ name ∈ p.extra ∨ name ∈ o.protectedNames

/-- The token is changed as a private name. -/
structure AsPrivateName (p : ProtectedNames) (o : Options) (t : Token) (text : String) : Prop where
  asked : o.renamePrivate = true
  isPrivate : isPrivate t.text o.privateMark = true
  free : ¬Untouchable p o text

/-- The token is changed as a variable: it is an occurrence that refers to a scope which no name
made at run time may reach into. A shorthand keeps its key in front of the short name. -/
structure AsVariable (p : ProtectedNames) (o : Options) (tokens : List Token) (tree : ScopeTree)
    (u : Occurrence) (id : ScopeId) (short : String) (t : Token) (text : String) : Prop where
  asked : o.shrinkVars = true
  name : u.name = t.text
  resolved : tree.resolved u = some id
  inner : id ≠ ScopeTree.global
  sealed : ¬tree.Exposed tokens id
  plain : '\\' ∉ t.text.toList
  notPrivate : (o.privateNames (p.add o.protectedNames) tokens).get? t.text = none
  free : ¬Untouchable p o short
  written : text = if u.shorthand then t.text ++ ":" ++ short else short

/-- The token at an index may get a text of another name. -/
structure MayChange (p : ProtectedNames) (o : Options) (tokens : List Token) (i : Nat) (t : Token)
    (text : String) : Prop where
  identifier : t.kind = .identifier
  touchable : ¬Untouchable p o t.text
  reason : AsPrivateName p o t text ∨
    ∃ tree, ScopeTree.ofTokens tokens = .ok tree ∧ ∃ u ∈ tree.occurrences, u.token = i ∧
      ∃ id short, AsVariable p o tokens tree u id short t text

variable {p : ProtectedNames} {o : Options} {tokens : List Token} {tree : ScopeTree} {i : Nat}
  {text : String}

lemma contains_add {names : List String} {name : String} :
    (p.add names).contains name = true ↔
      name ∈ reservedWords ∨ name = superAccessor ∨ name ∈ p.extra ∨ name ∈ names := by
  unfold ProtectedNames.contains ProtectedNames.add ProtectedNames.builtin
  simp only [Bool.or_eq_true, List.contains_iff_mem, List.mem_append, List.mem_singleton,
    Std.TreeSet.contains_insertMany_list, Std.TreeSet.contains_iff_mem, or_assoc]

lemma not_untouchable {name : String} (h : (p.add o.protectedNames).contains name = false) :
    ¬Untouchable p o name := fun hu => by
  rw [contains_add.mpr hu] at h
  cases h

lemma of_getElem?_private
    (h : ((o.privateNames (p.add o.protectedNames) tokens).replacements tokens)[i]? = some text) :
    ∃ t, tokens[i]? = some t ∧ MayChange p o tokens i t text ∧ text ≠ "" := by
  obtain ⟨t, ht, hi, hget⟩ := PrivateNames.exists_of_getElem?_replacements h
  unfold Options.privateNames at hget
  split at hget
  · rename_i hasked
    obtain ⟨hname, hkept, hnew, hfree⟩ := PrivateNames.of_get?_collect hget
    refine ⟨t, ht, ⟨hi, not_untouchable hkept, .inl ⟨hasked, hname, not_untouchable hfree⟩⟩, ?_⟩
    rintro rfl
    simp [isPrivate] at hnew
  · cases hget

lemma exists_of_getElem?_shrink (htree : ScopeTree.ofTokens tokens = .ok tree) {q : PrivateNames}
    {p : ProtectedNames} (h : (shrink tree p q)[i]? = some text) :
    ∃ u ∈ tree.occurrences, u.token = i ∧
      Context.newText? ⟨tree, p, q⟩ (Context.assign ⟨tree, p, q⟩) u = some text := by
  have hne : (tree.occurrences.map Occurrence.token).Nodup :=
    List.pairwise_map.mpr ((ScopeTree.occurrences_pairwise htree).imp Nat.ne_of_lt)
  exact Replacements.exists_of_getElem?_ofList hne h

lemma of_getElem?_shrink (htree : ScopeTree.ofTokens tokens = .ok tree)
    (hasked : o.shrinkVars = true)
    (h : (shrink tree (p.add o.protectedNames)
      (o.privateNames (p.add o.protectedNames) tokens))[i]? = some text) :
    ∃ t, tokens[i]? = some t ∧ MayChange p o tokens i t text ∧ text ≠ "" := by
  obtain ⟨u, hu, rfl, hnew⟩ := exists_of_getElem?_shrink htree h
  obtain ⟨t, ht, hi, hname⟩ := ScopeTree.exists_token_of_mem htree hu
  obtain ⟨id, short, hr, hw, htext⟩ := Context.of_newText?_eq_some hnew
  have hapart := (Context.assigned_assign _).apart _ _ hw
  obtain ⟨hinner, hmarked, hkept, hplain, hprivate⟩ := Context.isRenamable_iff.mp hapart.renamable
  have hsealed : ¬tree.Exposed tokens id := fun he => by
    have hmark := (ScopeTree.hasEval_iff_exposed htree id).mpr he
    rw [hmarked] at hmark
    cases hmark
  dsimp only at hkept hplain hprivate
  rw [← hname] at hkept hplain hprivate htext
  refine ⟨t, ht, ⟨hi, not_untouchable hkept, .inr ⟨tree, htree, u, hu, rfl, id, short, ?_⟩⟩, ?_⟩
  · exact ⟨hasked, hname.symm, hr, hinner, hsealed, hplain, hprivate,
      not_untouchable hapart.unprotected, htext⟩
  · obtain ⟨n, hn⟩ := hapart.short
    have hshort : short ≠ "" := fun he => by
      rw [hn, ShortName.nth, String.ofList_eq_empty_iff] at he
      exact ShortName.letters_ne_nil n he
    rw [htext]
    split
    · simp [hshort]
    · exact hshort

lemma getElem?_shrink_of_private (htree : ScopeTree.ofTokens tokens = .ok tree)
    {q : PrivateNames} {p : ProtectedNames} (h : (q.replacements tokens)[i]? = some text) :
    (shrink tree p q)[i]? = none := by
  obtain ⟨t, ht, -, hget⟩ := PrivateNames.exists_of_getElem?_replacements h
  cases hnew : (shrink tree p q)[i]? with
  | none => rfl
  | some text' =>
    obtain ⟨u, hu, rfl, htext⟩ := exists_of_getElem?_shrink htree hnew
    obtain ⟨t', ht', -, hname⟩ := ScopeTree.exists_token_of_mem htree hu
    obtain ⟨id, short, -, hw, -⟩ := Context.of_newText?_eq_some htext
    have hnone := (Context.isRenamable_iff.mp
      ((Context.assigned_assign _).apart _ _ hw).renamable).2.2.2.2
    rw [ht] at ht'
    cases ht'
    dsimp only at hnone
    rw [← hname, hget] at hnone
    cases hnone

variable {replaced : Replacements}

/-- The new texts of a script are those of its private names, and of its variables if they are to
change. -/
lemma replacements_cases (h : o.replacements (p.add o.protectedNames) tokens = .ok replaced) :
    replaced = (o.privateNames (p.add o.protectedNames) tokens).replacements tokens ∨
      o.shrinkVars = true ∧ ∃ tree, ScopeTree.ofTokens tokens = .ok tree ∧
        replaced = renameAll tokens tree (p.add o.protectedNames)
          (o.privateNames (p.add o.protectedNames) tokens) := by
  unfold Options.replacements at h
  dsimp only at h
  split at h
  · rename_i hasked
    cases htree : ScopeTree.ofTokens tokens with
    | error e =>
      rw [htree] at h
      cases h
    | ok tree =>
      rw [htree] at h
      cases h
      exact .inr ⟨hasked, tree, rfl, rfl⟩
  · cases h
    exact .inl rfl

lemma mayChange_of_getElem? (h : o.replacements (p.add o.protectedNames) tokens = .ok replaced)
    (hi : replaced[i]? = some text) :
    ∃ t, tokens[i]? = some t ∧ MayChange p o tokens i t text ∧ text ≠ "" := by
  rcases replacements_cases h with rfl | ⟨hasked, tree, htree, rfl⟩
  · exact of_getElem?_private hi
  · rw [renameAll, Replacements.getElem?_insertMany_toList, Option.or_eq_some_iff] at hi
    rcases hi with hi | ⟨-, hi⟩
    · exact of_getElem?_shrink htree hasked hi
    · exact of_getElem?_private hi

/-- A token that stays with another text is one whose name may change. -/
lemma mayChange_of_mem_written (h : o.replacements (p.add o.protectedNames) tokens = .ok replaced)
    {e : Token × String} (he : e ∈ written [] (newTexts tokens replaced)) (hne : e.2 ≠ e.1.text) :
    ∃ i, tokens[i]? = some e.1 ∧ MayChange p o tokens i e.1 e.2 := by
  obtain ⟨t, a⟩ := e
  obtain ⟨-, text, hmem, htext⟩ := of_mem_written _ he
  obtain rfl : a = text := htext.resolve_right hne
  obtain ⟨i, hi⟩ := List.mem_iff_getElem?.mp hmem
  obtain ⟨ht, htext⟩ := of_getElem?_newTexts hi
  refine ⟨i, ht, ?_⟩
  cases hnew : replaced[i]? with
  | none =>
    rw [hnew] at htext
    exact absurd htext.symm hne
  | some text =>
    obtain ⟨t, ht', hchange, -⟩ := mayChange_of_getElem? h hnew
    rw [ht] at ht'
    cases ht'
    rw [hnew, Option.getD_some] at htext
    exact htext ▸ hchange

/-- A script that can be laid out is written token by token. -/
lemma exists_of_layOut {source : String} {c : Compacted} (h : layOut p o source = .ok c) :
    ∃ tokens replaced gaps, tokenize source = .ok tokens ∧
      o.replacements (p.add o.protectedNames) tokens = .ok replaced ∧
      Placed gaps (written [] (newTexts tokens replaced)) c := by
  unfold layOut at h
  cases htokens : tokenize source with
  | error e =>
    rw [htokens] at h
    cases h
  | ok tokens =>
    rw [htokens] at h
    cases hreplaced : o.replacements (p.add o.protectedNames) tokens with
    | error e =>
      simp only [Except.mapError, bind, Except.bind, hreplaced] at h
      cases h
    | ok replaced =>
      simp only [Except.mapError, bind, Except.bind, hreplaced] at h
      cases h
      obtain ⟨gaps, hplaced⟩ := exists_placed (covers_of_tokenize htokens).1.text_ne_empty
        fun i text hi => (mayChange_of_getElem? hreplaced hi).choose_spec.2.2
      exact ⟨tokens, replaced, gaps, rfl, hreplaced, hplaced⟩

/-- What is written of the tokens of a script: those that stay in their places, each with its own
text unless it is an identifier whose name may change, and none with a new text both as a private
name and as a variable. -/
structure Restrained (p : ProtectedNames) (o : Options) (tokens : List Token)
    (replaced : Replacements) (gaps : List Gap) (c : Compacted) : Prop where
  placed : Placed gaps (written [] (newTexts tokens replaced)) c
  changed : ∀ e ∈ written [] (newTexts tokens replaced), e.2 ≠ e.1.text →
    ∃ i, tokens[i]? = some e.1 ∧ MayChange p o tokens i e.1 e.2
  apart : ∀ tree, ScopeTree.ofTokens tokens = .ok tree → ∀ (i : Nat) (text : String),
    ((o.privateNames (p.add o.protectedNames) tokens).replacements tokens)[i]? = some text →
      (shrink tree (p.add o.protectedNames)
        (o.privateNames (p.add o.protectedNames) tokens))[i]? = none

/-- **Renaming touches only what it may**, in every script that can be laid out. Without a
dictionary it is packed as it is laid out. -/
theorem layOut_restrained {p : ProtectedNames} {o : Options} {source : String} {c : Compacted}
    (h : layOut p o source = .ok c) :
    (pack p { o with base62 := false } source).map Packed.code = .ok c.code ∧
    ∃ tokens replaced gaps, tokenize source = .ok tokens ∧
      o.replacements (p.add o.protectedNames) tokens = .ok replaced ∧
      Restrained p o tokens replaced gaps c := by
  have hpack : (pack p { o with base62 := false } source).map Packed.code = .ok c.code := by
    rw [pack_plain p source rfl, layOut_base62, h]
    rfl
  obtain ⟨tokens, replaced, gaps, htokens, hreplaced, hplaced⟩ := exists_of_layOut h
  exact ⟨hpack, tokens, replaced, gaps, htokens, hreplaced, hplaced,
    fun e he hne => mayChange_of_mem_written hreplaced he hne,
    fun tree htree i text hi => getElem?_shrink_of_private htree hi⟩

set_option maxRecDepth 20000 in
/-- A variable and a private name, each of them also as a shorthand. -/
theorem layOut_restrained_shorthands :
    let o : Options := { shrinkVars := true, renamePrivate := true }
    let source := "function f(alpha,_b){return{alpha,_b}}"
    let tokens : List Token := [
      ⟨.keyword .kwFunction, "function", 0⟩, ⟨.blank, " ", 8⟩, ⟨.identifier, "f", 9⟩,
      ⟨.punctuator, "(", 10⟩, ⟨.identifier, "alpha", 11⟩, ⟨.punctuator, ",", 16⟩,
      ⟨.identifier, "_b", 17⟩, ⟨.punctuator, ")", 19⟩, ⟨.punctuator, "\x7b", 20⟩,
      ⟨.keyword .kwReturn, "return", 21⟩, ⟨.punctuator, "\x7b", 27⟩, ⟨.identifier, "alpha", 28⟩,
      ⟨.punctuator, ",", 33⟩, ⟨.identifier, "_b", 34⟩, ⟨.punctuator, "\x7d", 36⟩,
      ⟨.punctuator, "\x7d", 37⟩]
    let tree : ScopeTree := {
      scopes := #[⟨none, .global, ["f"], false⟩, ⟨some 0, .function, ["alpha", "_b"], false⟩]
      inside := #[[1], []]
      occurrences := [⟨2, "f", 0, false⟩, ⟨4, "alpha", 1, false⟩, ⟨6, "_b", 1, false⟩,
        ⟨11, "alpha", 1, true⟩, ⟨13, "_b", 1, true⟩] }
    let p := ProtectedNames.empty.add o.protectedNames
    let c := compact tokens (renameAll tokens tree p (.collect tokens "_" p))
    layOut .empty o source = .ok c ∧
      (pack .empty { o with base62 := false } source).map Packed.code = .ok c.code ∧
      ∃ tokens replaced gaps, tokenize source = .ok tokens ∧
        o.replacements p tokens = .ok replaced ∧
        Restrained .empty o tokens replaced gaps c := by
  intro o source tokens tree p c
  have htokens : tokenize source = .ok tokens := by
    rw [tokenize, tokens_eq_runFor]
    decide +kernel
  have htree : ScopeTree.ofTokens tokens = .ok tree := by cbv
  have h : layOut .empty o source = .ok c := by
    rw [layOut, htokens]
    simp only [Except.mapError, bind, Except.bind, Options.replacements]
    rw [if_pos rfl, htree]
    rfl
  exact ⟨h, layOut_restrained h⟩

end Minify
