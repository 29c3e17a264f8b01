/-!
Texts between separators.
-/

namespace Minify.Text

/-- The texts between separators; there is always one more of them. -/
def splitOn (sep : Char) : List Char → List (List Char)
  | [] => [[]]
  | c :: cs =>
    if c = sep then [] :: splitOn sep cs
    else
      match splitOn sep cs with
      | [] => [[c]]
      | p :: ps => (c :: p) :: ps

section

attribute [local simp] splitOn

theorem splitOn_ne_nil (sep : Char) (cs : List Char) : splitOn sep cs ≠ [] := by
  fun_cases splitOn sep cs <;> simp

theorem intercalate_splitOn (sep : Char) (cs : List Char) :
    [sep].intercalate (splitOn sep cs) = cs := by
  induction cs with
  | nil => rfl
  | cons c cs ih =>
    match hp : splitOn sep cs with
    | [] => exact absurd hp (splitOn_ne_nil sep cs)
    | p :: ps =>
      rw [hp] at ih
      by_cases h : c = sep
      · simpa [h, hp] using ih
      · cases ps <;> simpa [h, hp] using ih

theorem not_mem_of_mem_splitOn {sep : Char} {cs p : List Char} (h : p ∈ splitOn sep cs) :
    sep ∉ p := by
  induction cs generalizing p with
  | nil => simp_all
  | cons c cs ih =>
    match hp : splitOn sep cs with
    | [] => exact absurd hp (splitOn_ne_nil sep cs)
    | q :: qs => by_cases hc : c = sep <;> grind [splitOn]

theorem splitOn_eq_of_not_mem {sep : Char} {cs : List Char} (h : sep ∉ cs) :
    splitOn sep cs = [cs] := by
  induction cs with
  | nil => rfl
  | cons c cs ih =>
    rw [List.mem_cons, not_or] at h
    rw [splitOn, if_neg (Ne.symm h.1), ih h.2]

theorem splitOn_append {sep : Char} {cs : List Char} (h : sep ∉ cs) (rest : List Char) :
    splitOn sep (cs ++ sep :: rest) = cs :: splitOn sep rest := by
  induction cs with
  | nil => simp
  | cons c cs ih =>
    rw [List.mem_cons, not_or] at h
    rw [List.cons_append, splitOn, if_neg (Ne.symm h.1), ih h.2]

/-- A text without separators in front lengthens the first part. -/
theorem splitOn_append_eq {sep : Char} {cs : List Char} (h : sep ∉ cs) {rest p : List Char}
    {ps : List (List Char)} (hrest : splitOn sep rest = p :: ps) :
    splitOn sep (cs ++ rest) = (cs ++ p) :: ps := by
  induction cs with
  | nil => exact hrest
  | cons c cs ih =>
    rw [List.mem_cons, not_or] at h
    rw [List.cons_append, splitOn, if_neg (Ne.symm h.1), ih h.2]
    rfl

theorem splitOn_replicate_append (sep : Char) (n : Nat) (rest : List Char) :
    splitOn sep (List.replicate n sep ++ rest) = List.replicate n [] ++ splitOn sep rest := by
  induction n with
  | zero => rfl
  | succ n ih =>
    rw [List.replicate_succ, List.replicate_succ, List.cons_append, splitOn, if_pos rfl, ih,
      List.cons_append]

end

end Minify.Text
