import Mathlib

/-!
Runs of computations that may fail.

A computation made of parts goes on as its first part ends. So a run of the whole is a run of the
part, and then of what follows a result or an error of it.
-/

namespace Minify

variable {ε ε' σ α β : Type} {s s' : σ}

lemma bind_eq_ok_iff {x : Except ε α} {f : α → Except ε β} {b : β} :
    x >>= f = .ok b ↔ ∃ a, x = .ok a ∧ f a = .ok b := by
  cases x <;> simp [bind, Except.bind]

/-- What a computation does one after another, whether it ends well or not. -/
lemma bind_run_cases {x : ExceptT ε (StateM σ) α} {f : α → ExceptT ε (StateM σ) β}
    {result : Except ε β} (h : (x >>= f).run.run s = (result, s')) :
    (∃ e, x.run.run s = (.error e, s') ∧ result = .error e) ∨
      ∃ a s₁, x.run.run s = (.ok a, s₁) ∧ (f a).run.run s₁ = (result, s') := by
  rw [ExceptT.run_bind, StateT.run_bind] at h
  match hx : x.run.run s with
  | (.ok a, s₁) =>
    rw [hx] at h
    exact .inr ⟨a, s₁, rfl, h⟩
  | (.error e, s₁) =>
    rw [hx] at h
    cases h
    exact .inl ⟨e, rfl, rfl⟩

/-- What a computation does one after another when it ends well. -/
lemma bind_run {x : ExceptT ε (StateM σ) α} {f : α → ExceptT ε (StateM σ) β} {b : β}
    (h : (x >>= f).run.run s = (.ok b, s')) :
    ∃ a s₁, x.run.run s = (.ok a, s₁) ∧ (f a).run.run s₁ = (.ok b, s') := by
  rcases bind_run_cases h with ⟨e, -, he⟩ | hresult
  · cases he
  · exact hresult

lemma run_bind {x : ExceptT ε (StateM σ) α} {f : α → ExceptT ε (StateM σ) β} {a : α}
    (h : x.run.run s = (.ok a, s')) : (x >>= f).run.run s = (f a).run.run s' := by
  rw [ExceptT.run_bind, StateT.run_bind, h]
  rfl

/-- What a computation does that turns to another when it fails. -/
lemma tryCatch_run_cases {x : ExceptT ε (StateM σ) α} {f : ε → ExceptT ε (StateM σ) α}
    {result : Except ε α} (h : (tryCatch x f).run.run s = (result, s')) :
    (∃ a, x.run.run s = (.ok a, s') ∧ result = .ok a) ∨
      ∃ e s₁, x.run.run s = (.error e, s₁) ∧ (f e).run.run s₁ = (result, s') := by
  rw [ExceptT.run_tryCatch, StateT.run_bind] at h
  match hx : x.run.run s with
  | (.ok a, s₁) =>
    rw [hx] at h
    cases h
    exact .inl ⟨a, rfl, rfl⟩
  | (.error e, s₁) =>
    rw [hx] at h
    exact .inr ⟨e, s₁, rfl, h⟩

/-- What a computation does whose errors are told in other words. -/
lemma adapt_run_cases {x : ExceptT ε (StateM σ) α} {f : ε → ε'} {result : Except ε' α}
    (h : (x.adapt f).run.run s = (result, s')) :
    (∃ e, x.run.run s = (.error e, s') ∧ result = .error (f e)) ∨
      ∃ a, x.run.run s = (.ok a, s') ∧ result = .ok a := by
  rw [ExceptT.run_adapt, StateT.run_map] at h
  match hx : x.run.run s with
  | (.ok a, s₁) =>
    rw [hx] at h
    cases h
    exact .inr ⟨a, rfl, rfl⟩
  | (.error e, s₁) =>
    rw [hx] at h
    cases h
    exact .inl ⟨e, rfl, rfl⟩

/-- A computation that cannot fail among those that may. -/
lemma of_lift_run {x : StateM σ α} {a : α}
    (h : (liftM x : ExceptT ε (StateM σ) α).run.run s = (.ok a, s')) : x.run s = (a, s') := by
  have hlift : (liftM x : ExceptT ε (StateM σ) α).run.run s = (.ok (x.run s).1, (x.run s).2) := rfl
  obtain ⟨ha, hs⟩ := Prod.mk.inj (hlift.symm.trans h)
  exact Prod.ext (Except.ok.inj ha) hs

end Minify
