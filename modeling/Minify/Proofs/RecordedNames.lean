import Minify.Proofs.ClosingBrackets
import Minify.Proofs.TrackerMoves

/-!
Where the names in the scopes of a script come from.

The sites of a script are its tokens in their order. Reading a site records at most one occurrence,
which is the site's identifier, and binds no other name. So the occurrences of a script stand at
different identifiers, and every bound name is written somewhere in it.
-/

namespace Minify

namespace Site

lemma getElem?_of_mem_significant {index : Nat} {newline : Bool} {tokens : List Token}
    {site : Site} (h : site ∈ significant index newline tokens) :
    ∃ k, site.index = index + k ∧ tokens[k]? = some site.token := by
  induction tokens generalizing index newline with
  | nil => cases h
  | cons t ts ih =>
    have hrest {b : Bool} (h : site ∈ significant (index + 1) b ts) :
        ∃ k, site.index = index + k ∧ (t :: ts)[k]? = some site.token := by
      obtain ⟨k, hk, ht⟩ := ih h
      exact ⟨k + 1, by omega, by simpa using ht⟩
    rcases significant_cons index newline t with ⟨-, b, he⟩ | ⟨-, he⟩
    · exact hrest (he ts ▸ h)
    · rw [he, List.mem_cons] at h
      rcases h with rfl | h
      · exact ⟨0, rfl, rfl⟩
      · exact hrest h

lemma significant_pairwise (index : Nat) (newline : Bool) (tokens : List Token) :
    (significant index newline tokens).Pairwise fun a b => a.index < b.index := by
  induction tokens generalizing index newline with
  | nil => exact .nil
  | cons t ts ih =>
    rcases significant_cons index newline t with ⟨-, b, he⟩ | ⟨-, he⟩
    · exact he ts ▸ ih _ _
    · rw [he]
      refine List.pairwise_cons.mpr ⟨fun site hs => ?_, ih _ _⟩
      obtain ⟨k, hk, -⟩ := getElem?_of_mem_significant hs
      change index < site.index
      omega

def plain (s : Site) : Site := { s with beforeArrow := false }

lemma map_plain_ofTokens (tokens : List Token) :
    (ofTokens tokens).map plain = (significant 0 false tokens).map plain := by
  unfold ofTokens
  split
  · refine List.ext_getElem? fun i => ?_
    simp only [withArrows, List.getElem?_map, List.getElem?_mapIdx, Option.map_map]
    rfl
  · rfl

lemma getElem?_of_mem_ofTokens {tokens : List Token} {site : Site} (h : site ∈ ofTokens tokens) :
    tokens[site.index]? = some site.token := by
  have hmem : site.plain ∈ (significant 0 false tokens).map plain := by
    rw [← map_plain_ofTokens]
    exact List.mem_map_of_mem h
  obtain ⟨other, ho, he⟩ := List.mem_map.mp hmem
  obtain ⟨k, hk, ht⟩ := getElem?_of_mem_significant ho
  have hindex : other.plain.index = site.plain.index := congrArg Site.index he
  have htoken : other.plain.token = site.plain.token := congrArg Site.token he
  change other.index = site.index at hindex
  change other.token = site.token at htoken
  rw [← hindex, hk, Nat.zero_add, ht, htoken]

/-- The sites of a script come in the order of their tokens. -/
lemma ofTokens_pairwise (tokens : List Token) :
    (ofTokens tokens).Pairwise fun a b => a.index < b.index := by
  have h : ((ofTokens tokens).map plain).Pairwise fun a b => a.index < b.index := by
    rw [map_plain_ofTokens]
    exact List.pairwise_map.mpr (significant_pairwise 0 false tokens)
  rw [List.pairwise_map] at h
  exact h

end Site

namespace Tracker

/-- Every name in the scopes is written in the script. -/
structure Named (tokens : List Token) (s : Tracker) : Prop where
  occurrence : ∀ o ∈ s.occurrences,
    ∃ t, tokens[o.token]? = some t ∧ t.kind = .identifier ∧ t.text = o.name
  binding : ∀ sc ∈ s.scopes, ∀ name ∈ sc.bindings,
    ∃ t ∈ tokens, t.kind = .identifier ∧ t.text = name

/-- The occurrences stand at different tokens before a place, the last first. -/
structure Ordered (bound : Nat) (occurrences : List Occurrence) : Prop where
  pairwise : occurrences.Pairwise fun a b => b.token < a.token
  lt : ∀ o ∈ occurrences, o.token < bound

variable {tokens : List Token} {s t : Tracker} {site : Site}

lemma getElem?_foldl_mark (ids : List ScopeId) (scopes : Array Scope) (i : ScopeId) :
    (ids.foldl (fun scopes id => scopes.modify id fun sc => { sc with hasEval := true }) scopes)[i]?
      = (scopes[i]?).map fun sc => { sc with hasEval := sc.hasEval || ids.contains i } := by
  induction ids generalizing scopes with
  | nil => simp
  | cons id ids ih =>
    rw [List.foldl_cons, ih, Array.getElem?_modify]
    by_cases h : id = i
    · cases scopes[i]? <;> simp [h]
    · have hne : ¬i = id := fun e => h e.symm
      simp [h, hne]

/-- Only the marks change, on the way from the current scope to the outermost one. -/
lemma getElem?_markEval (s : Tracker) (i : ScopeId) :
    s.markEval.scopes[i]? = (s.scopes[i]?).map fun sc =>
      { sc with hasEval := sc.hasEval || (Scope.ancestors s.scopes s.current).contains i } :=
  getElem?_foldl_mark _ _ i

lemma getElem?_declareIn (s : Tracker) (site : Site) (target scope : ScopeId) (shorthand : Bool)
    (i : ScopeId) : (s.declareIn site target scope shorthand).scopes[i]?
      = if target = i then (s.scopes[i]?).map fun sc => sc.bind site.token.text
        else s.scopes[i]? :=
  Array.getElem?_modify

lemma mem_bindings_bind {sc : Scope} {name n : String} (h : n ∈ (sc.bind name).bindings) :
    n ∈ sc.bindings ∨ n = name := by
  unfold Scope.bind at h
  split at h
  · exact .inl h
  · simpa using h

lemma nodup_bind {sc : Scope} (h : sc.bindings.Nodup) (name : String) :
    (sc.bind name).bindings.Nodup := by
  unfold Scope.bind
  split
  · exact h
  · rename_i hnew
    refine List.nodup_append.mpr ⟨h, List.pairwise_singleton _ _, fun a ha b hb he => hnew ?_⟩
    rw [List.contains_iff_mem, ← List.mem_singleton.mp hb, ← he]
    exact ha

lemma Quiet.occurrences (h : Quiet s t) : t.occurrences = s.occurrences := by
  induction h with
  | refl => rfl
  | settle _ m ih => rw [m.occurrences, ih]
  | add _ m ih => rw [m.occurrences, ih]
  | mark _ ih => exact ih

/-- A scope has the names that one had before, or none. -/
lemma Quiet.bindings (h : Quiet s t) {sc : Scope} (hsc : sc ∈ t.scopes) :
    sc.bindings = [] ∨ ∃ sc' ∈ s.scopes, sc.bindings = sc'.bindings := by
  induction h generalizing sc with
  | refl => exact .inr ⟨sc, hsc, rfl⟩
  | settle _ m ih => exact ih (m.scopes ▸ hsc)
  | add _ m ih =>
    rw [m.scopes, Array.mem_push] at hsc
    rcases hsc with hsc | rfl
    · exact ih hsc
    · exact .inl rfl
  | mark _ ih =>
    obtain ⟨i, hi⟩ := Array.mem_iff_getElem?.mp hsc
    rw [getElem?_markEval] at hi
    obtain ⟨sc', hs, rfl⟩ := Option.map_eq_some_iff.mp hi
    have hold : sc'.bindings = [] ∨ ∃ old ∈ (_ : Array Scope), sc'.bindings = old.bindings :=
      ih (Array.mem_of_getElem? hs)
    exact hold

lemma Quiet.exists_binding (h : Quiet s t) {sc : Scope} (hsc : sc ∈ t.scopes) {name : String}
    (hn : name ∈ sc.bindings) : ∃ sc' ∈ s.scopes, name ∈ sc'.bindings := by
  rcases h.bindings hsc with he | ⟨sc', hsc', he⟩
  · rw [he] at hn
    cases hn
  · exact ⟨sc', hsc', he ▸ hn⟩

lemma Quiet.named (h : Quiet s t) (hs : Named tokens s) : Named tokens t := by
  refine ⟨fun o ho => hs.occurrence o (h.occurrences ▸ ho), fun sc hsc name hn => ?_⟩
  obtain ⟨sc', hsc', hn'⟩ := h.exists_binding hsc hn
  exact hs.binding sc' hsc' name hn'

lemma named_mention (hs : Named tokens s) (hi : site.token.kind = .identifier)
    (ht : tokens[site.index]? = some site.token) (scope : ScopeId) (shorthand : Bool) :
    Named tokens (s.mention site scope shorthand) := by
  refine ⟨fun o ho => ?_, hs.binding⟩
  rcases List.mem_cons.mp ho with rfl | ho
  · exact ⟨site.token, ht, hi, rfl⟩
  · exact hs.occurrence o ho

lemma named_declareIn (hs : Named tokens s) (hi : site.token.kind = .identifier)
    (ht : tokens[site.index]? = some site.token) (target scope : ScopeId) (shorthand : Bool) :
    Named tokens (s.declareIn site target scope shorthand) := by
  refine ⟨(named_mention hs hi ht scope shorthand).occurrence, fun sc hsc name hn => ?_⟩
  obtain ⟨i, hget⟩ := Array.mem_iff_getElem?.mp hsc
  rw [getElem?_declareIn] at hget
  split at hget
  · obtain ⟨sc', hs', rfl⟩ := Option.map_eq_some_iff.mp hget
    rcases mem_bindings_bind hn with hn | rfl
    · exact hs.binding sc' (Array.mem_of_getElem? hs') name hn
    · exact ⟨site.token, List.mem_of_getElem? ht, hi, rfl⟩
  · exact hs.binding sc (Array.mem_of_getElem? hget) name hn

lemma Reads.named (h : Reads site s t) (ht : tokens[site.index]? = some site.token)
    (hs : Named tokens s) : Named tokens t := by
  induction h with
  | quiet h => exact h.named hs
  | mention h hi _ sh => exact named_mention (h.named hs) hi ht _ sh
  | declare h hi _ _ sh => exact named_declareIn (h.named hs) hi ht _ _ sh
  | settle _ m ih => exact m.quiet.named ih

/-- No scope binds a name twice. -/
def BindsOnce (s : Tracker) : Prop := ∀ sc ∈ s.scopes, sc.bindings.Nodup

lemma Quiet.bindsOnce (h : Quiet s t) (hs : BindsOnce s) : BindsOnce t := by
  intro sc hsc
  rcases h.bindings hsc with he | ⟨sc', hsc', he⟩
  · exact he ▸ List.nodup_nil
  · exact he ▸ hs sc' hsc'

lemma bindsOnce_declareIn (hs : BindsOnce s) (site : Site) (target scope : ScopeId)
    (shorthand : Bool) : BindsOnce (s.declareIn site target scope shorthand) := by
  intro sc hsc
  obtain ⟨i, hi⟩ := Array.mem_iff_getElem?.mp hsc
  rw [getElem?_declareIn] at hi
  split at hi
  · obtain ⟨sc', hsc', rfl⟩ := Option.map_eq_some_iff.mp hi
    exact nodup_bind (hs sc' (Array.mem_of_getElem? hsc')) _
  · exact hs sc (Array.mem_of_getElem? hi)

lemma Reads.bindsOnce (h : Reads site s t) (hs : BindsOnce s) : BindsOnce t := by
  induction h with
  | quiet h => exact h.bindsOnce hs
  | mention h _ _ _ => exact h.bindsOnce hs
  | declare h _ _ _ sh => exact bindsOnce_declareIn (h.bindsOnce hs) _ _ _ sh
  | settle _ m ih => exact m.quiet.bindsOnce ih

lemma Ordered.cons {bound : Nat} {occurrences : List Occurrence} {o : Occurrence}
    (h : Ordered bound occurrences) (ho : bound ≤ o.token) :
    Ordered (o.token + 1) (o :: occurrences) := by
  refine ⟨List.pairwise_cons.mpr ⟨fun x hx => ?_, h.pairwise⟩, fun x hx => ?_⟩
  · have := h.lt x hx
    omega
  · rcases List.mem_cons.mp hx with rfl | hx
    · exact Nat.lt_succ_self x.token
    · have := h.lt x hx
      omega

lemma Ordered.mono {bound bound' : Nat} {occurrences : List Occurrence}
    (h : Ordered bound occurrences) (hb : bound ≤ bound') : Ordered bound' occurrences :=
  ⟨h.pairwise, fun o ho => Nat.lt_of_lt_of_le (h.lt o ho) hb⟩

/-- A token records at most one occurrence, after those before. -/
lemma Reads.ordered (h : Reads site s t) {bound : Nat} (hb : bound ≤ site.index)
    (hs : Ordered bound s.occurrences) : Ordered (site.index + 1) t.occurrences := by
  have hmention {u : Tracker} (h : Quiet s u) (scope : ScopeId) (sh : Bool) :
      Ordered (site.index + 1) (u.mention site scope sh).occurrences := by
    have hu : Ordered bound u.occurrences := h.occurrences ▸ hs
    exact hu.cons (o := ⟨site.index, site.token.text, scope, sh⟩) hb
  induction h with
  | quiet h =>
    rw [h.occurrences]
    exact hs.mono (Nat.le_succ_of_le hb)
  | mention h _ _ sh => exact hmention h _ sh
  | declare h _ _ _ sh => exact hmention h _ sh
  | settle _ m ih =>
    rw [m.occurrences]
    exact ih

lemma Reads.mem_occurrences (h : Reads site s t) {o : Occurrence} (ho : o ∈ t.occurrences) :
    o ∈ s.occurrences ∨ o.token = site.index := by
  induction h with
  | quiet h => exact .inl (h.occurrences ▸ ho)
  | mention h _ _ sh =>
    rcases List.mem_cons.mp ho with rfl | ho
    · exact .inr rfl
    · exact .inl (h.occurrences ▸ ho)
  | declare h _ _ _ sh =>
    rcases List.mem_cons.mp ho with rfl | ho
    · exact .inr rfl
    · exact .inl (h.occurrences ▸ ho)
  | settle _ m ih => exact ih (m.occurrences ▸ ho)

lemma named_run (sites : List Site) (hsites : ∀ site ∈ sites, tokens[site.index]? = some site.token)
    (hs : Named tokens s) : Named tokens (s.run sites) := by
  induction sites generalizing s with
  | nil => exact hs
  | cons site rest ih =>
    have hread := reads_step s site (rest.head?.map Site.token)
    have hstep := hread.named (hsites site List.mem_cons_self) hs
    exact ih (fun x hx => hsites x (List.mem_cons_of_mem _ hx)) hstep

lemma bindsOnce_run (sites : List Site) (hs : BindsOnce s) : BindsOnce (s.run sites) := by
  induction sites generalizing s with
  | nil => exact hs
  | cons site rest ih => exact ih ((reads_step s site _).bindsOnce hs)

lemma pairwise_run (sites : List Site) (hsites : sites.Pairwise fun a b => a.index < b.index)
    {bound : Nat} (hb : ∀ site ∈ sites, bound ≤ site.index) (hs : Ordered bound s.occurrences) :
    (s.run sites).occurrences.Pairwise fun a b => b.token < a.token := by
  induction sites generalizing s bound with
  | nil => exact hs.pairwise
  | cons site rest ih =>
    obtain ⟨hlt, hrest⟩ := List.pairwise_cons.mp hsites
    have hread := reads_step s site (rest.head?.map Site.token)
    have hstep := hread.ordered (hb site List.mem_cons_self) hs
    exact ih hrest (fun x hx => hlt x hx) hstep

end Tracker

namespace ScopeTree

open Tracker

variable {tokens : List Token} {tree : ScopeTree}

lemma eq_of_ofTokens (h : ofTokens tokens = .ok tree) :
    tree.scopes = (Tracker.start.run (Site.ofTokens tokens)).scopes ∧
      tree.occurrences = (Tracker.start.run (Site.ofTokens tokens)).occurrences.reverse ∧
      tree.inside = (Tracker.start.run (Site.ofTokens tokens)).inside := by
  rw [ofTokens_eq] at h
  cases hc : Brackets.check tokens with
  | error e => rw [hc] at h; cases h
  | ok u => rw [hc] at h; cases h; exact ⟨rfl, rfl, rfl⟩

lemma named_of_ofTokens (tokens : List Token) :
    Named tokens (Tracker.start.run (Site.ofTokens tokens)) := by
  refine named_run _ (fun _ => Site.getElem?_of_mem_ofTokens)
    ⟨fun o ho => ?_, fun sc hsc n hn => ?_⟩
  · cases ho
  · have he : sc = _ := Array.mem_singleton.mp hsc
    rw [he] at hn
    cases hn

theorem exists_token_of_mem (h : ofTokens tokens = .ok tree) {o : Occurrence}
    (ho : o ∈ tree.occurrences) :
    ∃ t, tokens[o.token]? = some t ∧ t.kind = .identifier ∧ t.text = o.name := by
  rw [(eq_of_ofTokens h).2.1, List.mem_reverse] at ho
  exact (named_of_ofTokens tokens).occurrence o ho

theorem exists_token_of_binds (h : ofTokens tokens = .ok tree) {id : ScopeId} {sc : Scope}
    (hsc : tree.scopes[id]? = some sc) {name : String} (hn : name ∈ sc.bindings) :
    ∃ t ∈ tokens, t.kind = .identifier ∧ t.text = name := by
  rw [(eq_of_ofTokens h).1] at hsc
  exact (named_of_ofTokens tokens).binding sc (Array.mem_of_getElem? hsc) name hn

theorem bindings_nodup (h : ofTokens tokens = .ok tree) {id : ScopeId} {sc : Scope}
    (hsc : tree.scopes[id]? = some sc) : sc.bindings.Nodup := by
  rw [(eq_of_ofTokens h).1] at hsc
  refine bindsOnce_run _ (fun sc hsc => ?_) sc (Array.mem_of_getElem? hsc)
  have he : sc = _ := Array.mem_singleton.mp hsc
  exact he ▸ List.nodup_nil

/-- The occurrences stand in the order of their tokens. -/
theorem occurrences_pairwise (h : ofTokens tokens = .ok tree) :
    tree.occurrences.Pairwise fun a b => a.token < b.token := by
  rw [(eq_of_ofTokens h).2.1, List.pairwise_reverse]
  exact pairwise_run _ (Site.ofTokens_pairwise tokens) (fun _ _ => Nat.zero_le _)
    ⟨.nil, fun o ho => by cases ho⟩

end ScopeTree

end Minify
