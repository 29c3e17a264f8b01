import Mathlib
import Minify.Proofs.SitesInScript

/-!
The check of the brackets against a grammar.

A token has the brackets it opens and closes: the head of a template opens a brace, its tail closes
one, and a middle part closes one and opens the next. Brackets are well nested when they are made up
of pairs with well-nested brackets between them. The check accepts just these. Of the others it
names the first closing bracket at fault, up to which the brackets could still be completed, or else
the innermost one that is left open.
-/

namespace Minify.Brackets

open Site

inductive Mark where
  | opens (opener : Char)
  | closes (closer : Char)
  deriving DecidableEq, Repr

/-- The brackets of a token. -/
def marks (t : Token) : List Mark :=
  match bracket t with
  | .opens c => [.opens c]
  | .closes c => [.closes c]
  | .reopens => [.closes '\x7d', .opens '\x7b']
  | .none => []

/-- The brackets of some tokens, with the bytes where the tokens start. -/
def placed (tokens : List Token) : List (Mark × Nat) :=
  tokens.flatMap fun t => (marks t).map fun m => (m, t.start)

/-- Brackets in pairs, with brackets in pairs between them. Places do not matter. -/
inductive WellNested : List (Mark × Nat) → Prop
  | nil : WellNested []
  | group {c : Char} {i j : Nat} {inner rest : List (Mark × Nat)} (hin : WellNested inner)
      (hrest : WellNested rest) :
      WellNested ((.opens c, i) :: (inner ++ (.closes (closer c), j) :: rest))

/-- Brackets that could go on to be well nested: every closing one has its opening one. -/
def Completable (ms : List (Mark × Nat)) : Prop := ∃ more, WellNested (ms ++ more)

/-- What is wrong with brackets that are not well nested. -/
inductive Fault : List (Mark × Nat) → ScopeError → Prop
  | unexpectedClose {front back : List (Mark × Nat)} {c : Char} {i : Nat}
    (hfront : WellNested front) :
      Fault (front ++ (.closes c, i) :: back) ⟨.unexpectedClose c, i⟩
  | mismatched {front inner back : List (Mark × Nat)} {o c : Char} {i j : Nat}
      (hfront : Completable front) (hin : WellNested inner) (hne : closer o ≠ c) :
      Fault (front ++ (.opens o, i) :: (inner ++ (.closes c, j) :: back))
        ⟨.mismatched (closer o) c, j⟩
  | unclosed {front inner : List (Mark × Nat)} {o : Char} {i : Nat} (hfront : Completable front)
      (hin : WellNested inner) :
      Fault (front ++ (.opens o, i) :: inner) ⟨.unclosed o, i⟩

def stepMark (stack : List (Char × Nat)) : Mark × Nat → Except ScopeError (List (Char × Nat))
  | (.opens c, i) => .ok ((c, i) :: stack)
  | (.closes c, i) => close c i stack

variable {stack stack' : List (Char × Nat)} {ms ns : List (Mark × Nat)} {m : Mark × Nat}
  {e : ScopeError}

lemma step_eq_foldlM (stack : List (Char × Nat)) (t : Token) :
    step stack t = ((marks t).map fun m => (m, t.start)).foldlM stepMark stack := by
  unfold step marks
  cases bracket t with
  | opens c => rfl
  | closes c => exact (bind_pure (close c t.start stack)).symm
  | reopens => rfl
  | none => rfl

lemma foldlM_step_eq (tokens : List Token) (stack : List (Char × Nat)) :
    tokens.foldlM step stack = (placed tokens).foldlM stepMark stack := by
  induction tokens generalizing stack with
  | nil => rfl
  | cons t ts ih =>
    rw [List.foldlM_cons, step_eq_foldlM, placed, List.flatMap_cons, List.foldlM_append]
    exact bind_congr fun mid => ih mid

lemma WellNested.append (h : WellNested ms) (h' : WellNested ns) : WellNested (ms ++ ns) := by
  induction h with
  | nil => exact h'
  | group hin _ _ ih =>
    rw [List.cons_append, List.append_assoc, List.cons_append]
    exact .group hin ih

/-- The brackets of `ms` that stay open are those of the stack. -/
def LeavesOpen : List (Char × Nat) → List (Mark × Nat) → Prop
  | [], ms => WellNested ms
  | (c, i) :: stack, ms => ∃ front inner, ms = front ++ (.opens c, i) :: inner ∧
      LeavesOpen stack front ∧ WellNested inner

lemma LeavesOpen.append (h : LeavesOpen stack ms) (h' : WellNested ns) :
    LeavesOpen stack (ms ++ ns) := by
  cases stack with
  | nil => exact WellNested.append h h'
  | cons top stack =>
    obtain ⟨front, inner, rfl, hfront, hin⟩ := h
    exact ⟨front, inner ++ ns, by rw [List.append_assoc, List.cons_append], hfront, hin.append h'⟩

lemma LeavesOpen.next (h : LeavesOpen stack ms) (hm : stepMark stack m = .ok stack') :
    LeavesOpen stack' (ms ++ [m]) := by
  match m with
  | (.opens c, i) =>
    cases hm
    exact ⟨ms, [], rfl, h, .nil⟩
  | (.closes c, j) =>
    obtain ⟨o, i, rfl, rfl⟩ := close_eq_ok_iff.mp hm
    obtain ⟨front, inner, rfl, hfront, hin⟩ := h
    have hgroup : WellNested ((.opens o, i) :: (inner ++ [(.closes (closer o), j)])) :=
      .group hin .nil
    rw [List.append_assoc, List.cons_append]
    exact hfront.append hgroup

lemma foldlM_opens (c : Char) (i : Nat) (ms : List (Mark × Nat)) (stack : List (Char × Nat)) :
    ((.opens c, i) :: ms).foldlM stepMark stack = ms.foldlM stepMark ((c, i) :: stack) := rfl

lemma foldlM_closes {c : Char} {i : Nat} (h : close c i stack = .ok stack')
    (ms : List (Mark × Nat)) :
    ((.closes c, i) :: ms).foldlM stepMark stack = ms.foldlM stepMark stack' := by
  rw [List.foldlM_cons, stepMark, h]
  rfl

lemma foldlM_closes_error {c : Char} {i : Nat} (h : close c i stack = .error e)
    (ms : List (Mark × Nat)) : ((.closes c, i) :: ms).foldlM stepMark stack = .error e := by
  rw [List.foldlM_cons, stepMark, h]
  rfl

/-- Well-nested brackets leave the open ones as they are. -/
lemma WellNested.run (h : WellNested ms) (stack : List (Char × Nat)) :
    ms.foldlM stepMark stack = .ok stack := by
  induction h generalizing stack with
  | nil => rfl
  | @group c i j inner rest _ _ ihin ihrest =>
    have hclose : close (closer c) j ((c, i) :: stack) = .ok stack := if_pos rfl
    rw [foldlM_opens, List.foldlM_append, ihin]
    exact (foldlM_closes hclose rest).trans (ihrest stack)

/-- Brackets that stay open come on top of those around. -/
lemma LeavesOpen.run (h : LeavesOpen stack ms) (base : List (Char × Nat)) :
    ms.foldlM stepMark base = .ok (stack ++ base) := by
  induction stack generalizing ms with
  | nil => exact WellNested.run h base
  | cons top stack ih =>
    obtain ⟨front, inner, rfl, hfront, hin⟩ := h
    rw [List.foldlM_append, ih hfront]
    exact hin.run (top :: (stack ++ base))

/-- **What the check has on its stack** are the brackets that are open. -/
lemma foldlM_eq_ok_iff : ms.foldlM stepMark [] = .ok stack ↔ LeavesOpen stack ms := by
  refine ⟨fun h => ?_, fun h => (h.run []).trans (congrArg _ (List.append_nil stack))⟩
  induction ms using List.reverseRecOn generalizing stack with
  | nil =>
    cases h
    exact .nil
  | append_singleton ms m ih =>
    rw [List.foldlM_append] at h
    cases hms : ms.foldlM stepMark [] with
    | error e => rw [hms] at h; cases h
    | ok mid =>
      rw [hms] at h
      exact (ih hms).next ((bind_pure (stepMark mid m)).symm.trans h)

lemma LeavesOpen.completable (h : LeavesOpen stack ms) : Completable ms := by
  induction stack generalizing ms with
  | nil => exact ⟨[], (List.append_nil ms).symm ▸ h⟩
  | cons top stack ih =>
    obtain ⟨c, i⟩ := top
    obtain ⟨front, inner, rfl, hfront, hin⟩ := h
    have hgroup : WellNested ((.opens c, i) :: (inner ++ [(.closes (closer c), i)])) :=
      .group hin .nil
    obtain ⟨more, hmore⟩ := ih (hfront.append hgroup)
    refine ⟨(.closes (closer c), i) :: more, ?_⟩
    simpa using hmore

lemma completable_iff : Completable ms ↔ ∃ stack, LeavesOpen stack ms := by
  refine ⟨fun ⟨more, h⟩ => ?_, fun ⟨_, h⟩ => h.completable⟩
  have hall := h.run []
  rw [List.foldlM_append] at hall
  cases hms : ms.foldlM stepMark [] with
  | error e => rw [hms] at hall; cases hall
  | ok stack => exact ⟨stack, foldlM_eq_ok_iff.mp hms⟩

lemma fault_of_close {front back : List (Mark × Nat)} {c : Char} {i : Nat}
    (h : LeavesOpen stack front) (hc : close c i stack = .error e) :
    Fault (front ++ (.closes c, i) :: back) e := by
  match stack with
  | [] =>
    cases hc
    exact .unexpectedClose h
  | (o, j) :: stack =>
    simp only [close] at hc
    split at hc
    · cases hc
    · rename_i hne
      cases hc
      obtain ⟨front, inner, rfl, hfront, hin⟩ := h
      rw [List.append_assoc, List.cons_append]
      exact .mismatched hfront.completable hin hne

lemma exists_close_of_error {xs : List (Mark × Nat)} (h : xs.foldlM stepMark [] = .error e) :
    ∃ stack front c i back, xs = front ++ (.closes c, i) :: back ∧ LeavesOpen stack front ∧
      close c i stack = .error e := by
  induction xs using List.reverseRecOn with
  | nil => cases h
  | append_singleton xs m ih =>
    rw [List.foldlM_append] at h
    cases hxs : xs.foldlM stepMark [] with
    | error e' =>
      rw [hxs] at h
      cases h
      obtain ⟨stack, front, c, i, back, rfl, hfront, hc⟩ := ih hxs
      exact ⟨stack, front, c, i, back ++ [m], by simp, hfront, hc⟩
    | ok stack =>
      rw [hxs] at h
      have hm : stepMark stack m = .error e := (bind_pure (stepMark stack m)).symm.trans h
      match m with
      | (.opens c, i) => cases hm
      | (.closes c, i) => exact ⟨stack, xs, c, i, [], rfl, foldlM_eq_ok_iff.mp hxs, hm⟩

lemma foldlM_of_close {front back : List (Mark × Nat)} {c : Char} {i : Nat}
    (h : LeavesOpen stack front) (hc : close c i stack = .error e) :
    (front ++ (.closes c, i) :: back).foldlM stepMark [] = .error e := by
  rw [List.foldlM_append, foldlM_eq_ok_iff.mpr h]
  exact foldlM_closes_error hc back

/-! ### The check -/

lemma check_eq_ok_iff (tokens : List Token) : check tokens = .ok () ↔
    WellNested (placed tokens) := by
  rw [check_eq_ok, foldlM_step_eq]
  exact foldlM_eq_ok_iff

/-- The check ends with the open brackets, or at the closing one that does not fit. -/
lemma check_eq_error_cases {tokens : List Token} : check tokens = .error e ↔
    (placed tokens).foldlM stepMark [] = .error e ∨
      ∃ o i stack, (placed tokens).foldlM stepMark [] = .ok ((o, i) :: stack) ∧
        e = ⟨.unclosed o, i⟩ := by
  rw [check_eq, foldlM_step_eq]
  cases (placed tokens).foldlM stepMark [] with
  | error e' =>
    refine ⟨fun h => .inl (congrArg _ (Except.error.inj h)), fun h => ?_⟩
    rcases h with h | ⟨_, _, _, h, -⟩
    · exact congrArg _ (Except.error.inj h)
    · cases h
  | ok stack =>
    cases stack with
    | nil => exact ⟨nofun, fun h => h.elim nofun nofun⟩
    | cons top stack =>
      refine ⟨fun h => ?_, fun h => ?_⟩
      · cases h
        exact .inr ⟨_, _, _, rfl, rfl⟩
      · rcases h with h | ⟨o, i, stack', h, rfl⟩
        · cases h
        · cases h
          rfl

/-- **The fault that is reported** is the first one, if a closing bracket is at fault, and the
innermost one that stays open otherwise. -/
lemma check_eq_error_iff {tokens : List Token} : check tokens = .error e ↔
    Fault (placed tokens) e := by
  rw [check_eq_error_cases]
  refine ⟨fun h => ?_, fun h => ?_⟩
  · rcases h with h | ⟨o, i, stack, h, rfl⟩
    · obtain ⟨stack, front, c, i, back, hsplit, hfront, hc⟩ := exists_close_of_error h
      rw [hsplit]
      exact fault_of_close hfront hc
    · obtain ⟨front, inner, hsplit, hfront, hin⟩ := foldlM_eq_ok_iff.mp h
      rw [hsplit]
      exact .unclosed hfront.completable hin
  · generalize placed tokens = ms at h
    cases h with
    | @unexpectedClose front _ _ _ hfront =>
      have hnone : LeavesOpen [] front := hfront
      exact .inl (foldlM_of_close hnone rfl)
    | @mismatched front inner back o c i j hfront hin hne =>
      obtain ⟨stack, hstack⟩ := completable_iff.mp hfront
      have hopen : LeavesOpen ((o, i) :: stack) (front ++ (.opens o, i) :: inner) :=
        ⟨front, inner, rfl, hstack, hin⟩
      refine .inl ?_
      rw [← List.cons_append, ← List.append_assoc]
      exact foldlM_of_close hopen (if_neg hne)
    | @unclosed front inner o i hfront hin =>
      obtain ⟨stack, hstack⟩ := completable_iff.mp hfront
      exact .inr ⟨o, i, stack, foldlM_eq_ok_iff.mpr ⟨front, inner, rfl, hstack, hin⟩, rfl⟩

end Minify.Brackets
