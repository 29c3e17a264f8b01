import Mathlib.Data.List.Basic
import Mathlib.Tactic.Common
import Minify.Scope

/-!
The path from a scope to the scopes around it.

A path goes to smaller and smaller indices, the path of a scope on it is its end from there on, and
it depends on nothing but the parents on it.
-/

namespace Minify.Scope

variable {scopes scopes' : Array Scope} {id j k : ScopeId}

lemma ancestors_of_parent {p : ScopeId} (h : (scopes[id]?).bind Scope.parent = some p)
    (hp : p < id) : ancestors scopes id = id :: ancestors scopes p := by
  rw [ancestors, h]
  simp [hp]

lemma ancestors_of_none (h : (scopes[id]?).bind Scope.parent = none) :
    ancestors scopes id = [id] := by
  rw [ancestors, h]

lemma ancestors_zero : ancestors scopes 0 = [0] := by
  rw [ancestors]
  split <;> simp

lemma ancestors_of_le {p : ScopeId} (h : (scopes[id]?).bind Scope.parent = some p)
    (hp : ¬p < id) : ancestors scopes id = [id] := by
  rw [ancestors, h]
  simp [hp]

/-- A path is a scope alone or goes on with the path of a smaller one. -/
lemma ancestors_cases (scopes : Array Scope) (id : ScopeId) :
    ancestors scopes id = [id] ∨ ∃ p < id, (scopes[id]?).bind Scope.parent = some p ∧
      ancestors scopes id = id :: ancestors scopes p := by
  cases h : (scopes[id]?).bind Scope.parent with
  | none => exact .inl (ancestors_of_none h)
  | some p =>
    by_cases hp : p < id
    · exact .inr ⟨p, hp, rfl, ancestors_of_parent h hp⟩
    · exact .inl (ancestors_of_le h hp)

lemma self_mem_ancestors (scopes : Array Scope) (id : ScopeId) : id ∈ ancestors scopes id := by
  rw [ancestors]
  exact List.mem_cons_self

lemma ancestors_suffix (h : j ∈ ancestors scopes id) :
    ancestors scopes j <:+ ancestors scopes id := by
  induction id using Nat.strongRecOn with
  | ind id ih =>
    rcases ancestors_cases scopes id with he | ⟨p, hp, -, he⟩
    · rw [he, List.mem_singleton] at h
      exact h ▸ List.suffix_refl _
    · rw [he, List.mem_cons] at h
      rcases h with rfl | h
      · exact List.suffix_refl _
      · rw [he]
        exact (ih p hp h).trans (List.suffix_cons id _)

lemma ancestors_trans (h : j ∈ ancestors scopes id) (h' : k ∈ ancestors scopes j) :
    k ∈ ancestors scopes id :=
  (ancestors_suffix h).subset h'

lemma le_of_mem_ancestors (h : j ∈ ancestors scopes id) : j ≤ id := by
  induction id using Nat.strongRecOn with
  | ind id ih =>
    rcases ancestors_cases scopes id with he | ⟨p, hp, -, he⟩
    · rw [he, List.mem_singleton] at h
      exact Nat.le_of_eq h
    · rw [he, List.mem_cons] at h
      rcases h with rfl | h
      · exact Nat.le_refl j
      · exact Nat.le_trans (ih p hp h) (Nat.le_of_lt hp)

/-- Of two scopes on a path, the lower one is on the path of the other. -/
lemma mem_ancestors_of_le {i j : ScopeId} (hi : i ∈ ancestors scopes k)
    (hj : j ∈ ancestors scopes k) (hle : i ≤ j) : i ∈ ancestors scopes j := by
  rcases List.suffix_or_suffix_of_suffix (ancestors_suffix hi) (ancestors_suffix hj) with h | h
  · exact h.subset (self_mem_ancestors scopes i)
  · have hge := le_of_mem_ancestors (h.subset (self_mem_ancestors scopes j))
    obtain rfl : i = j := Nat.le_antisymm hle hge
    exact self_mem_ancestors scopes i

lemma ancestors_pairwise (scopes : Array Scope) (id : ScopeId) :
    (ancestors scopes id).Pairwise (· > ·) := by
  induction id using Nat.strongRecOn with
  | ind id ih =>
    rcases ancestors_cases scopes id with he | ⟨p, hp, -, he⟩
    · rw [he]
      exact List.pairwise_singleton _ _
    · rw [he]
      exact List.pairwise_cons.mpr
        ⟨fun j hj => Nat.lt_of_le_of_lt (le_of_mem_ancestors hj) hp, ih p hp⟩

lemma ancestors_congr
    (h : ∀ i ≤ id, (scopes'[i]?).bind Scope.parent = (scopes[i]?).bind Scope.parent) :
    ancestors scopes' id = ancestors scopes id := by
  induction id using Nat.strongRecOn with
  | ind id ih =>
    rw [ancestors, ancestors, h id (Nat.le_refl id)]
    cases (scopes[id]?).bind Scope.parent with
    | none => rfl
    | some p =>
      by_cases hp : p < id
      · simp only [hp, if_true]
        rw [ih p hp fun i hi => h i (Nat.le_trans hi (Nat.le_of_lt hp))]
      · simp only [hp, if_false]

end Minify.Scope
