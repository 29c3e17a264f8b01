import Mathlib.Data.List.Nodup
import Minify.Proofs.FreshNames

/-!
Private names never meet.

The new name of a private name is the mark and a number, which no other private name gets. It is
itself written like a private name, so where it stands in the script already it gets another number
there. Hence different identifiers of a script stay different.
-/

namespace Minify.PrivateNames

/-- What a search for private names has found once all numbers below `next` may be taken. -/
structure Found (mark : String) (p : ProtectedNames) (next : Nat)
    (found : List (String × String)) : Prop where
  marked : ∀ e ∈ found, isPrivate e.1 mark = true
  numbered : ∀ e ∈ found, ∃ n < next, e.2 = PrivateNames.numbered mark n ∧ isFree mark p n = true
  nodup : (found.map Prod.snd).Nodup

variable {mark : String} {p : ProtectedNames} {next : Nat} {found : List (String × String)}

lemma Found.nil (mark : String) (p : ProtectedNames) : Found mark p 0 [] :=
  ⟨fun _ he => absurd he List.not_mem_nil, fun _ he => absurd he List.not_mem_nil, List.nodup_nil⟩

/-- A further private name gets a number from `next` on. -/
lemma Found.cons (h : Found mark p next found) {name : String} (hname : isPrivate name mark = true)
    {n : Nat} (hn : next ≤ n) (hfree : isFree mark p n = true) :
    Found mark p (n + 1) ((name, PrivateNames.numbered mark n) :: found) := by
  refine ⟨fun e he => ?_, fun e he => ?_, List.nodup_cons.mpr ⟨fun hmem => ?_, h.nodup⟩⟩
  · rcases List.mem_cons.mp he with rfl | he
    · exact hname
    · exact h.marked e he
  · rcases List.mem_cons.mp he with rfl | he
    · exact ⟨n, Nat.lt_succ_self n, rfl, hfree⟩
    · obtain ⟨m, hm, hv, hf⟩ := h.numbered e he
      exact ⟨m, by omega, hv, hf⟩
  · obtain ⟨e, he, hv⟩ := List.mem_map.mp hmem
    obtain ⟨m, hm, hv', -⟩ := h.numbered e he
    have := numbered_injective (hv'.symm.trans hv)
    omega

lemma found_collectFrom (h : Found mark p next found) (tokens : List Token) :
    (∃ bound, Found mark p bound (collectFrom mark p found next tokens)) ∧
      found ⊆ collectFrom mark p found next tokens ∧
      ∀ t ∈ tokens, t.kind = .identifier → isPrivate t.text mark = true →
        p.contains t.text = false → ∃ v, (t.text, v) ∈ collectFrom mark p found next tokens := by
  induction tokens generalizing found next with
  | nil => exact ⟨⟨next, h⟩, List.Subset.refl _, fun t ht => by cases ht⟩
  | cons t ts ih =>
    rw [collectFrom]
    split
    · rename_i hnew
      simp only [isNew, Bool.and_eq_true, decide_eq_true_eq] at hnew
      obtain ⟨⟨⟨-, hpriv⟩, -⟩, -⟩ := hnew
      obtain ⟨hfound, hsub, hall⟩ := ih (h.cons hpriv (le_freeNumber mark p next)
        (isFree_freeNumber mark p next))
      refine ⟨hfound, fun x hx => hsub (List.mem_cons_of_mem _ hx), fun u hu hi hm hp => ?_⟩
      rcases List.mem_cons.mp hu with rfl | hu
      · exact ⟨_, hsub List.mem_cons_self⟩
      · exact hall u hu hi hm hp
    · rename_i hnew
      obtain ⟨hfound, hsub, hall⟩ := ih h
      refine ⟨hfound, hsub, fun u hu hi hm hp => ?_⟩
      rcases List.mem_cons.mp hu with rfl | hu
      · have hsome : (found.lookup u.text).isNone = false := by
          simpa [isNew, hi, hm, hp] using hnew
        cases hl : found.lookup u.text with
        | none => rw [hl] at hsome; cases hsome
        | some v =>
          obtain ⟨l, r, he, -⟩ := List.lookup_eq_some_iff.mp hl
          exact ⟨v, hsub (by rw [he]; simp)⟩
      · exact hall u hu hi hm hp

/-! ### The private names of a script -/

lemma mem_names_of_get? {q : PrivateNames} {x v : String} (h : q.get? x = some v) :
    (x, v) ∈ q.names := by
  obtain ⟨l, r, he, -⟩ := List.lookup_eq_some_iff.mp h
  rw [he]
  simp

lemma isPrivate_numbered {x : String} (h : isPrivate x mark = true) (n : Nat) :
    isPrivate (numbered mark n) mark = true := by
  simp only [isPrivate, Bool.and_eq_true] at h
  have hdigits := Numeral.digits_ne_nil Numeral.maxRadix n
  have hradix : Numeral.IsRadix Numeral.maxRadix := ⟨by decide, by decide⟩
  simp only [isPrivate, numbered, Numeral.encode, Bool.and_eq_true, h.1.1, true_and,
    String.toList_append, String.toList_ofList, List.drop_left]
  refine ⟨by simp, ?_⟩
  cases hd : Numeral.digits Numeral.maxRadix n with
  | nil => exact absurd hd hdigits
  | cons c cs =>
    have hc : c ∈ Numeral.digits Numeral.maxRadix n := hd ▸ List.mem_cons_self
    obtain ⟨d, hlt, rfl⟩ := Numeral.mem_digits hradix hc
    simp [Numeral.isAlphanum_digit hlt]

lemma colon_not_mem_digits (n : Nat) : ':' ∉ Numeral.digits Numeral.maxRadix n := by
  intro h
  have hword := Numeral.isWordChar_of_mem_digits ⟨by decide, by decide⟩ h
  cases hword

/-- A new name does not begin with a private name and a colon. -/
lemma not_isPrefix_numbered {x : String} (h : isPrivate x mark = true) (n : Nat) :
    ¬(x ++ ":").toList <+: (numbered mark n).toList := by
  intro hpre
  simp only [isPrivate, Bool.and_eq_true] at h
  obtain ⟨rest, hx⟩ := List.isPrefixOf_iff_prefix.mp h.1.2
  rw [numbered, Numeral.encode, String.toList_append, String.toList_append, String.toList_ofList,
    ← hx, List.append_assoc, List.prefix_append_right_inj] at hpre
  have hcolon := hpre.subset (List.mem_append_right rest List.mem_cons_self)
  rw [String.toList_ofList] at hcolon
  exact colon_not_mem_digits n hcolon

/-- What the new names of a script are: they belong to different names, none of them is protected,
none begins with its old name and a colon, and an identifier written like one gets another. -/
structure Covers (q : PrivateNames) (p : ProtectedNames) (tokens : List Token) : Prop where
  injective : ∀ {x y v : String}, q.get? x = some v → q.get? y = some v → x = y
  unprotected : ∀ {x v : String}, q.get? x = some v → p.contains v = false
  collected : ∀ {x v : String}, q.get? x = some v → ∀ t ∈ tokens, t.kind = .identifier →
    t.text = v → ∃ w, q.get? v = some w
  noKey : ∀ {x v : String}, q.get? x = some v → ¬(x ++ ":").toList <+: v.toList

lemma covers_empty (p : ProtectedNames) (tokens : List Token) : Covers .empty p tokens where
  injective h := by cases h
  unprotected h := by cases h
  collected h := by cases h
  noKey h := by cases h

lemma covers_collect (tokens : List Token) (mark : String) (p : ProtectedNames) :
    Covers (.collect tokens mark p) p tokens := by
  obtain ⟨⟨bound, hfound⟩, -, hall⟩ := found_collectFrom (.nil mark p) tokens
  have hmem {x v : String} (h : (collect tokens mark p).get? x = some v) :
      (x, v) ∈ collectFrom mark p [] 0 tokens := List.mem_reverse.mp (mem_names_of_get? h)
  refine ⟨fun {x y v} hx hy => ?_, fun {x v} hx => ?_, fun {x v} hx t ht hi hv => ?_,
    fun {x v} hx => ?_⟩
  · have he := List.inj_on_of_nodup_map hfound.nodup (hmem hx) (hmem hy) rfl
    exact congrArg Prod.fst he
  · obtain ⟨n, -, rfl, hfree⟩ := hfound.numbered _ (hmem hx)
    simpa [isFree] using hfree
  · obtain ⟨n, -, rfl, hfree⟩ := hfound.numbered _ (hmem hx)
    have hp : p.contains t.text = false := by simpa [isFree, hv] using hfree
    have hm : isPrivate t.text mark = true := hv ▸ isPrivate_numbered (hfound.marked _ (hmem hx)) n
    obtain ⟨w, hw⟩ := hall t ht hi hm hp
    have hsome : ((collect tokens mark p).names.lookup t.text).isSome = true :=
      List.lookup_isSome_iff.mpr ⟨(t.text, w), List.mem_reverse.mpr hw, beq_self_eq_true _⟩
    exact Option.isSome_iff_exists.mp (hv ▸ hsome)
  · obtain ⟨n, -, rfl, -⟩ := hfound.numbered _ (hmem hx)
    exact not_isPrefix_numbered (hfound.marked _ (hmem hx)) n

variable {q : PrivateNames} {tokens : List Token}

/-- **Private renaming is injective** on the identifiers of a script. -/
theorem Covers.rename_injective (h : Covers q p tokens) {x y : String}
    (hx : ∃ t ∈ tokens, t.kind = .identifier ∧ t.text = x)
    (hy : ∃ t ∈ tokens, t.kind = .identifier ∧ t.text = y) (he : q.rename x = q.rename y) :
    x = y := by
  -- a name that stays would be another's new name, so it would not stay
  have hmixed {x y v : String} (hy : ∃ t ∈ tokens, t.kind = .identifier ∧ t.text = y)
      (hgx : q.get? x = some v) (hgy : q.get? y = none) : v ≠ y := by
    rintro rfl
    obtain ⟨t, ht, hi, htext⟩ := hy
    obtain ⟨w, hw⟩ := h.collected hgx t ht hi htext
    rw [hgy] at hw
    cases hw
  unfold rename at he
  cases hgx : q.get? x with
  | none =>
    cases hgy : q.get? y with
    | none => simpa [hgx, hgy] using he
    | some v =>
      rw [hgx, hgy] at he
      exact absurd he.symm (hmixed hx hgy hgx)
  | some v =>
    cases hgy : q.get? y with
    | none =>
      rw [hgx, hgy] at he
      exact absurd he (hmixed hy hgx hgy)
    | some w =>
      rw [hgx, hgy] at he
      have he : v = w := he
      exact h.injective hgx (he ▸ hgy)

end Minify.PrivateNames
