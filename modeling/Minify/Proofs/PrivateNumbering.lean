import Minify.Proofs.FirstSeen
import Minify.Proofs.NewTexts
import Minify.Proofs.PrivateRenaming

/-!
The numbers of the private names.

Reading the tokens from the front, what has been found so far are the private names of the part
read, once each, and their new names are those with the free numbers up to the next one. A further
name moves both lists on by one. So a script's private names are numbered in the order of their
first places, and no number is left out but for a protected name.
-/

namespace Minify

namespace PrivateNames

/-- A token is an identifier with a private name that is not protected. -/
def isCollectible (mark : String) (p : ProtectedNames) (t : Token) : Bool :=
  t.kind = .identifier && isPrivate t.text mark && !p.contains t.text

/-- The names in the tokens that get new ones, as often as they stand there. -/
def collectible (mark : String) (p : ProtectedNames) (tokens : List Token) : List String :=
  (tokens.filter (isCollectible mark p)).map Token.text

/-- The new names with the numbers below a bound, without the protected ones. -/
def freeNames (mark : String) (p : ProtectedNames) (bound : Nat) : List String :=
  ((List.range bound).filter (isFree mark p)).map (numbered mark)

/-- The names found in the tokens `front`, the last first, when the numbers from `next` on are
left. -/
structure Counted (mark : String) (p : ProtectedNames) (front : List Token) (next : Nat)
    (found : List (String × String)) : Prop where
  names : (found.map Prod.fst).reverse = (collectible mark p front).eraseDups
  numbers : (found.map Prod.snd).reverse = freeNames mark p next

variable {mark : String} {p : ProtectedNames} {front : List Token} {next : Nat}
  {found : List (String × String)} {t : Token}

lemma collectible_concat_of_pos (h : isCollectible mark p t = true) :
    collectible mark p (front ++ [t]) = collectible mark p front ++ [t.text] := by
  unfold collectible
  rw [List.filter_append, List.filter_cons_of_pos h, List.map_append]
  rfl

lemma collectible_concat_of_neg (h : isCollectible mark p t = false) :
    collectible mark p (front ++ [t]) = collectible mark p front := by
  unfold collectible
  rw [List.filter_append, List.filter_cons_of_neg (Bool.eq_false_iff.mp h), List.filter_nil,
    List.append_nil]

lemma isNew_eq (mark : String) (p : ProtectedNames) (found : List (String × String)) (t : Token) :
    isNew mark p found t = (isCollectible mark p t && (found.lookup t.text).isNone) := rfl

lemma Counted.mem_fst (h : Counted mark p front next found) {name : String} :
    name ∈ found.map Prod.fst ↔ name ∈ collectible mark p front := by
  rw [← List.mem_reverse, h.names, List.mem_eraseDups]

lemma isNone_lookup {name : String} :
    (found.lookup name).isNone = true ↔ name ∉ found.map Prod.fst := by
  rw [Option.isNone_iff_eq_none, List.lookup_eq_none_iff]
  grind

/-- Between the next number and the free one that is taken, no number is free. -/
lemma freeNames_succ (mark : String) (p : ProtectedNames) (next : Nat) :
    freeNames mark p (freeNumber mark p next + 1)
      = freeNames mark p next ++ [numbered mark (freeNumber mark p next)] := by
  obtain ⟨n, hn⟩ : ∃ n, n = freeNumber mark p next := ⟨_, rfl⟩
  have hle : next ≤ n := hn ▸ le_freeNumber mark p next
  have hfree : isFree mark p n = true := hn ▸ isFree_freeNumber mark p next
  have hskip : (List.range' next (n - next)).filter (isFree mark p) = [] := by
    refine List.filter_eq_nil_iff.mpr fun m hm => ?_
    obtain ⟨hm1, hm2⟩ := List.mem_range'_1.mp hm
    have hlt : m < freeNumber mark p next := by omega
    exact Bool.eq_false_iff.mp (Candidate.not_free_of_lt_first hm1 hlt)
  have hrange : List.range n = List.range next ++ List.range' next (n - next) := by
    have happ : List.range' 0 next ++ List.range' (0 + next) (n - next)
        = List.range' 0 (next + (n - next)) := List.range'_append_1
    rw [Nat.zero_add, Nat.add_sub_cancel' hle] at happ
    rw [List.range_eq_range', List.range_eq_range', happ]
  unfold freeNames
  rw [← hn, List.range_succ, List.filter_append, hrange, List.filter_append, hskip,
    List.append_nil, List.filter_cons_of_pos hfree, List.map_append]
  rfl

lemma Counted.new (h : Counted mark p front next found) (hnew : isNew mark p found t = true) :
    Counted mark p (front ++ [t]) (freeNumber mark p next + 1)
      ((t.text, numbered mark (freeNumber mark p next)) :: found) := by
  rw [isNew_eq, Bool.and_eq_true, isNone_lookup, h.mem_fst] at hnew
  obtain ⟨hc, hnot⟩ := hnew
  refine ⟨?_, ?_⟩
  · rw [collectible_concat_of_pos hc, eraseDups_concat_of_not_mem hnot, ← h.names,
      List.map_cons, List.reverse_cons]
  · rw [freeNames_succ, ← h.numbers, List.map_cons, List.reverse_cons]

lemma Counted.old (h : Counted mark p front next found) (hold : isNew mark p found t = false) :
    Counted mark p (front ++ [t]) next found := by
  refine ⟨?_, h.numbers⟩
  cases hc : isCollectible mark p t with
  | false => rw [collectible_concat_of_neg hc, h.names]
  | true =>
    have hmem : t.text ∈ collectible mark p front := by
      rw [isNew_eq, hc, Bool.true_and, Bool.eq_false_iff, ne_eq, isNone_lookup, h.mem_fst,
        not_not] at hold
      exact hold
    rw [collectible_concat_of_pos hc, eraseDups_concat_of_mem hmem, h.names]

lemma Counted.collectFrom (h : Counted mark p front next found) (tokens : List Token) :
    ∃ bound, Counted mark p (front ++ tokens) bound
      (PrivateNames.collectFrom mark p found next tokens) := by
  induction tokens generalizing front next found with
  | nil => exact ⟨next, by rwa [List.append_nil]⟩
  | cons t ts ih =>
    rw [List.append_cons, PrivateNames.collectFrom]
    split
    · rename_i hnew
      exact ih (h.new hnew)
    · rename_i hold
      exact ih (h.old (Bool.eq_false_iff.mpr hold))

lemma counted_nil (mark : String) (p : ProtectedNames) : Counted mark p [] 0 [] := ⟨rfl, rfl⟩

/-! ### A script with new private names -/

/-- The tokens of a script, and their texts once its private names are changed. -/
def renamed (tokens : List Token) (mark : String) (p : ProtectedNames) : List (Token × String) :=
  Layout.newTexts tokens ((collect tokens mark p).replacements tokens)

/-- An identifier becomes its new name, and nothing else changes. -/
lemma of_getElem?_renamed {tokens : List Token} {i : Nat} {a : String}
    (h : (renamed tokens mark p)[i]? = some (t, a)) :
    tokens[i]? = some t ∧
      a = if t.kind = .identifier then (collect tokens mark p).rename t.text else t.text := by
  obtain ⟨ht, ha⟩ := of_getElem?_newTexts h
  rw [getElem?_replacements _ ht] at ha
  refine ⟨ht, ?_⟩
  split
  · rw [← ha, getD_newText? ‹_›]
  · rw [← ha]
    simp [newText?, *]

/-- What changing the private names of a script does. -/
structure Consistent (tokens : List Token) (mark : String) (p : ProtectedNames) : Prop where
  /-- Identifiers are spelled alike afterwards exactly when they were before. -/
  faithful : ∀ (i j : Nat) (s t : Token) (a b : String),
    (renamed tokens mark p)[i]? = some (s, a) → (renamed tokens mark p)[j]? = some (t, b) →
    s.kind = .identifier → t.kind = .identifier → (a = b ↔ s.text = t.text)
  /-- A private name becomes its new name wherever it stands. -/
  uniform : ∀ (i : Nat) (t : Token) (a v : String), (renamed tokens mark p)[i]? = some (t, a) →
    t.kind = .identifier → (collect tokens mark p).get? t.text = some v → a = v
  /-- All else stays. -/
  others : ∀ (i : Nat) (t : Token) (a : String), (renamed tokens mark p)[i]? = some (t, a) →
    (t.kind = .identifier → (collect tokens mark p).get? t.text = none) → a = t.text
  /-- No new name is reserved or protected. -/
  unprotected : ∀ x v : String, (collect tokens mark p).get? x = some v →
    v ∉ reservedWords ∧ p.contains v = false
  /-- The names come in the order of their first places. -/
  order : FirstSeen (collectible mark p tokens) ((collect tokens mark p).names.map Prod.fst)
  /-- Their new names have the numbers from zero on, without those whose name is protected. -/
  numbers : ∃ bound, (collect tokens mark p).names.map Prod.snd = freeNames mark p bound

/-- **Changing the private names** of a script is one-to-one on its identifiers, the same at all
places, and numbers the names as they come. -/
theorem consistent_collect (tokens : List Token) (mark : String) (p : ProtectedNames) :
    Consistent tokens mark p := by
  have hc : Covers (collect tokens mark p) p tokens := covers_collect tokens mark p
  obtain ⟨bound, hcount⟩ := (counted_nil mark p).collectFrom tokens
  rw [List.nil_append] at hcount
  refine ⟨fun i j s t a b hs ht hsi hti => ?_, fun i t a v h hi hv => ?_, fun i t a h hn => ?_,
    fun x v hv => ?_, ?_, bound, ?_⟩
  · obtain ⟨hs', rfl⟩ := of_getElem?_renamed hs
    obtain ⟨ht', rfl⟩ := of_getElem?_renamed ht
    rw [if_pos hsi, if_pos hti]
    refine ⟨fun he => ?_, fun he => congrArg _ he⟩
    exact hc.rename_injective ⟨s, List.mem_of_getElem? hs', hsi, rfl⟩
      ⟨t, List.mem_of_getElem? ht', hti, rfl⟩ he
  · obtain ⟨-, rfl⟩ := of_getElem?_renamed h
    rw [if_pos hi, rename, hv, Option.getD_some]
  · obtain ⟨-, rfl⟩ := of_getElem?_renamed h
    split
    · rw [rename, hn ‹_›, Option.getD_none]
    · rfl
  · have hp := hc.unprotected hv
    refine ⟨fun hmem => ?_, hp⟩
    have hcontains : p.contains v = true := by
      simp [ProtectedNames.contains, ProtectedNames.builtin, hmem]
    rw [hp] at hcontains
    cases hcontains
  · have hnames : (collect tokens mark p).names.map Prod.fst
        = (collectible mark p tokens).eraseDups := by
      rw [← hcount.names, collect, List.map_reverse]
    rw [hnames]
    exact firstSeen_eraseDups _
  · rw [← hcount.numbers, collect, List.map_reverse]

/-- A name that is written like a new one gets another. -/
example : (collect [⟨.identifier, "_b", 0⟩, ⟨.identifier, "_0", 3⟩, ⟨.identifier, "_b", 6⟩]
    "_" .empty).names = [("_b", "_0"), ("_0", "_1")] := by cbv

end PrivateNames

end Minify
