import Mathlib.Data.List.Nodup
import Mathlib.Tactic.Common

/-!
A list without its repetitions, in the order of first places.
-/

namespace Minify

variable {α β : Type} [BEq α] [LawfulBEq α] [BEq β] [LawfulBEq β]

/-- `found` holds the members of `xs`, each once and in the order of their first places. -/
structure FirstSeen (xs found : List α) : Prop where
  nodup : found.Nodup
  mem : ∀ x, x ∈ found ↔ x ∈ xs
  order : found.Pairwise fun x y => xs.idxOf x < xs.idxOf y

/-- Leaving members out keeps the order of first places among the others. -/
lemma idxOf_lt_of_filter {p : α → Bool} {xs : List α} {x y : α} (hx : p x = true)
    (hy : p y = true) (h : (xs.filter p).idxOf x < (xs.filter p).idxOf y) :
    xs.idxOf x < xs.idxOf y := by
  induction xs with
  | nil => simp at h
  | cons a xs ih =>
    by_cases hax : a = x
    · subst hax
      rcases eq_or_ne a y with rfl | hay
      · exact absurd h (Nat.lt_irrefl _)
      · rw [List.idxOf_cons_self, List.idxOf_cons_ne xs hay]
        omega
    by_cases hay : a = y
    · subst hay
      rw [List.filter_cons_of_pos hy, List.idxOf_cons_self] at h
      omega
    rw [List.idxOf_cons_ne xs hax, List.idxOf_cons_ne xs hay]
    by_cases hp : p a = true
    · rw [List.filter_cons_of_pos hp, List.idxOf_cons_ne _ hax, List.idxOf_cons_ne _ hay] at h
      have := ih (by omega)
      omega
    · rw [List.filter_cons_of_neg hp] at h
      have := ih h
      omega

theorem firstSeen_eraseDups (xs : List α) : FirstSeen xs xs.eraseDups := by
  induction hn : xs.length using Nat.strongRecOn generalizing xs with
  | ind n ih =>
    cases xs with
    | nil => exact ⟨List.nodup_nil, by simp, List.Pairwise.nil⟩
    | cons a xs =>
      set rest := xs.filter fun b => !b == a with hrest
      have hlen : rest.length < n := by
        have : rest.length ≤ xs.length := List.length_filter_le _ xs
        simp only [List.length_cons] at hn
        omega
      have hs := ih rest.length hlen rest rfl
      rw [List.eraseDups_cons]
      have hne : ∀ x ∈ rest.eraseDups, x ≠ a := by
        intro x hx
        have hx := (hs.mem x).mp hx
        simp only [hrest, List.mem_filter] at hx
        simpa using hx.2
      refine ⟨List.nodup_cons.mpr ⟨fun h => hne a h rfl, hs.nodup⟩, fun x => ?_, ?_⟩
      · rw [← List.eraseDups_cons, List.mem_eraseDups]
      · refine List.pairwise_cons.mpr ⟨fun x hx => ?_, ?_⟩
        · rw [List.idxOf_cons_self, List.idxOf_cons_ne xs (hne x hx).symm]
          omega
        · refine hs.order.imp_of_mem fun {x y} hx hy hxy => ?_
          rw [List.idxOf_cons_ne xs (hne x hx).symm, List.idxOf_cons_ne xs (hne y hy).symm]
          have := idxOf_lt_of_filter (by simpa using hne x hx) (by simpa using hne y hy) hxy
          omega

lemma eraseDups_concat_of_mem {xs : List α} {x : α} (h : x ∈ xs) :
    (xs ++ [x]).eraseDups = xs.eraseDups := by
  simp [List.eraseDups_append, List.removeAll, h]

lemma eraseDups_concat_of_not_mem {xs : List α} {x : α} (h : x ∉ xs) :
    (xs ++ [x]).eraseDups = xs.eraseDups ++ [x] := by
  simp [List.eraseDups_append, List.removeAll, h, List.eraseDups_cons]

lemma idxOf_map {f : α → β} (hf : Function.Injective f) (xs : List α) (x : α) :
    (xs.map f).idxOf (f x) = xs.idxOf x := by
  induction xs with
  | nil => rfl
  | cons a xs ih =>
    rcases eq_or_ne a x with rfl | h
    · simp
    · rw [List.map_cons, List.idxOf_cons_ne _ fun e => h (hf e), ih, List.idxOf_cons_ne _ h]

/-- Renaming the members one to one keeps the order of first places. -/
lemma FirstSeen.map {f : α → β} (hf : Function.Injective f) {xs found : List α}
    (h : FirstSeen xs found) : FirstSeen (xs.map f) (found.map f) := by
  refine ⟨h.nodup.map hf, fun y => ?_, ?_⟩
  · simp only [List.mem_map, h.mem]
  · rw [List.pairwise_map]
    simpa only [idxOf_map hf] using h.order

end Minify
