import Mathlib.Data.Finset.Dedup
import Mathlib.Order.Interval.Finset.Nat
import Minify.Proofs.Numerals
import Minify.Rename.Shrink

/-!
The search for a free name finds one.

Different numbers have different short names and different private names, so no more of them are
passed over than names are taken; and one more than that are tried.
-/

namespace Minify

namespace ShortName

lemma nth_injective {m n : Nat} (h : nth m = nth n) : m = n :=
  letters_injective (String.ofList_injective h)

end ShortName

namespace ProtectedNames

def names (p : ProtectedNames) : List String := builtin ++ p.extra.toList

lemma length_names (p : ProtectedNames) : p.names.length = p.count := by
  rw [names, List.length_append, Std.TreeSet.length_toList]
  rfl

lemma mem_names {p : ProtectedNames} {name : String} :
    name ∈ p.names ↔ p.contains name = true := by
  rw [names, List.mem_append, Std.TreeSet.mem_toList, contains, Bool.or_eq_true,
    List.contains_iff_mem]
  rfl

end ProtectedNames

namespace Candidate

variable {free : Nat → Bool} {name : Nat → String} {taken : Finset String}

/-- The numbers passed over have different names, all of them taken. -/
lemma first_le_of_taken (hname : ∀ m n, name m = name n → m = n)
    (htaken : ∀ m, free m = false → name m ∈ taken) (n tries : Nat) :
    first free n tries ≤ n + taken.card := by
  have hpassed : ∀ m ∈ Finset.Ico n (first free n tries), name m ∈ taken := by
    intro m hm
    rw [Finset.mem_Ico] at hm
    exact htaken m (not_free_of_lt_first hm.1 hm.2)
  have hcard := Finset.card_le_card_of_injOn name hpassed fun _ _ _ _ => hname _ _
  rw [Nat.card_Ico] at hcard
  omega

/-- A search among more names than are taken ends at a free one. -/
lemma free_first_of_taken (hname : ∀ m n, name m = name n → m = n)
    (htaken : ∀ m, free m = false → name m ∈ taken) {tries : Nat} (htries : taken.card < tries)
    (n : Nat) : free (first free n tries) = true := by
  have hle := first_le_of_taken hname htaken n tries
  apply free_first_of_lt
  omega

end Candidate

namespace Shrink.Context

/-- A name that is not free is protected, or used, or blocked. -/
lemma not_isFree_cases {ctx : Context} {used blocked : Std.HashSet String} {n : Nat}
    (h : ctx.isFree used blocked n = false) :
    ctx.protectedNames.contains (ShortName.nth n) = true ∨ ShortName.nth n ∈ used ∨
      ShortName.nth n ∈ blocked := by
  simp only [isFree, Bool.and_eq_false_iff, Bool.not_eq_false'] at h
  rcases h with (h | h) | h
  · exact .inr (.inl h)
  · exact .inl h
  · exact .inr (.inr h)

/-- The names that a search may pass over: those used in the scope, those blocked for the binding,
the reserved ones and the protected ones. -/
def takenNames (ctx : Context) (used blocked : Std.HashSet String) : Finset String :=
  (used.toList ++ blocked.toList ++ ctx.protectedNames.names).toFinset

lemma mem_takenNames_of_not_isFree {ctx : Context} {used blocked : Std.HashSet String} {n : Nat}
    (h : ctx.isFree used blocked n = false) :
    ShortName.nth n ∈ ctx.takenNames used blocked := by
  rw [takenNames, List.mem_toFinset, List.mem_append, List.mem_append, Std.HashSet.mem_toList,
    Std.HashSet.mem_toList, ProtectedNames.mem_names]
  rcases not_isFree_cases h with h | h | h
  · exact .inr h
  · exact .inl (.inl h)
  · exact .inl (.inr h)

lemma card_takenNames_le (ctx : Context) (used blocked : Std.HashSet String) :
    (ctx.takenNames used blocked).card ≤ used.size + blocked.size + ctx.protectedNames.count := by
  unfold takenNames
  refine (List.toFinset_card_le _).trans_eq ?_
  rw [List.length_append, List.length_append, Std.HashSet.length_toList, Std.HashSet.length_toList,
    ProtectedNames.length_names]

lemma choose_le_card (ctx : Context) (used blocked : Std.HashSet String) :
    ctx.choose used blocked ≤ (ctx.takenNames used blocked).card := by
  rw [← Nat.zero_add (ctx.takenNames used blocked).card]
  exact Candidate.first_le_of_taken (fun _ _ => ShortName.nth_injective)
    (fun _ => mem_takenNames_of_not_isFree) 0 _

lemma isFree_choose (ctx : Context) (used blocked : Std.HashSet String) :
    ctx.isFree used blocked (ctx.choose used blocked) = true :=
  Candidate.free_first_of_taken (fun _ _ => ShortName.nth_injective)
    (fun _ => mem_takenNames_of_not_isFree)
    (Nat.lt_succ_of_le (ctx.card_takenNames_le used blocked)) 0

lemma choose_free (ctx : Context) (used blocked : Std.HashSet String) :
    ShortName.nth (ctx.choose used blocked) ∉ used ∧
      ctx.protectedNames.contains (ShortName.nth (ctx.choose used blocked)) = false ∧
      ShortName.nth (ctx.choose used blocked) ∉ blocked := by
  have h := ctx.isFree_choose used blocked
  simp only [isFree, Bool.and_eq_true, Bool.not_eq_true'] at h
  exact ⟨Std.HashSet.contains_eq_false_iff_not_mem.mp h.1.1, h.1.2,
    Std.HashSet.contains_eq_false_iff_not_mem.mp h.2⟩

end Shrink.Context

namespace PrivateNames

lemma numbered_injective {mark : String} {m n : Nat} (h : numbered mark m = numbered mark n) :
    m = n := by
  unfold numbered at h
  rw [String.append_right_inj] at h
  exact Numeral.encode_injective ⟨by decide, by decide⟩ h

/-- The number of a private name is one whose name is not protected. -/
lemma isFree_freeNumber (mark : String) (p : ProtectedNames) (n : Nat) :
    isFree mark p (freeNumber mark p n) = true := by
  have hcard := List.toFinset_card_le p.names
  rw [p.length_names] at hcard
  refine Candidate.free_first_of_taken (fun i j (h : numbered mark i = numbered mark j) =>
    numbered_injective h) (fun m hm => List.mem_toFinset.mpr ?_) (Nat.lt_succ_of_le hcard) n
  rw [ProtectedNames.mem_names]
  simpa [isFree] using hm

lemma le_freeNumber (mark : String) (p : ProtectedNames) (n : Nat) :
    n ≤ freeNumber mark p n :=
  Candidate.le_first _ n _

end PrivateNames

end Minify
