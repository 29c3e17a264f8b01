import Minify.Proofs.StatementGrammar

/-!
What the parser reads is in the text.

The words of what was read are the lexemes of the text, but for semicolons: one may be missing in
the text, and the empty statements between braces are nothing but semicolons.
-/

namespace Minify

namespace Grammar

variable {ws rest as bs cs : List Lexeme} {x : String} {k : Lead} {s : Statement}
  {l : List Statement}

lemma eq_of_header? (h : header? ws = some (x, rest)) : ws = header x ++ rest := by
  unfold header? at h
  split at h
  · split at h
    · rename_i hpair
      cases h
      rw [hpair.1, hpair.2]
      rfl
    · cases h
  · cases h

lemma eq_of_forHead? (h : forHead? ws = some (k, rest)) : forWord :: ws = k.words ++ rest := by
  unfold forHead? at h
  split at h
  · split at h
    · rename_i hpair
      cases h
      obtain ⟨rfl, rfl, rfl, rfl⟩ := hpair
      rfl
    · split at h
      · split at h
        · rename_i hpair
          cases h
          obtain ⟨rfl, rfl, rfl, rfl⟩ := hpair
          rfl
        · cases h
      · cases h
  · cases h

lemma eq_of_lead? (h : lead? ws = some (k, rest)) : ws = k.words ++ rest := by
  unfold lead? at h
  split at h
  · split at h
    · rename_i hword
      obtain ⟨⟨x, ws⟩, hheader, heq⟩ := Option.map_eq_some_iff.mp h
      cases heq
      rw [hword, eq_of_header? hheader]
      rfl
    · split at h
      · rename_i hword
        rw [hword]
        exact eq_of_forHead? h
      · split at h
        · split at h
          · rename_i hcolon
            cases h
            rw [hcolon]
            rfl
          · cases h
        · cases h
  · cases h

/-- Two texts say the same, up to semicolons. -/
def SameFixed (as bs : List Lexeme) : Prop := as.filter Lexeme.isFixed = bs.filter Lexeme.isFixed

lemma SameFixed.append (h : SameFixed as bs) (front : List Lexeme) :
    SameFixed (front ++ as) (front ++ bs) := by
  unfold SameFixed at *
  rw [List.filter_append, List.filter_append, h]

lemma SameFixed.trans (h : SameFixed as bs) (h' : SameFixed bs cs) :
    SameFixed as cs := Eq.trans h h'

lemma sameFixed_semicolon (ws : List Lexeme) : SameFixed ws (.semicolon :: ws) := rfl

lemma sameFixed_of_semicolon? (h : semicolon? ws = some rest) : SameFixed ws rest := by
  unfold semicolon? at h
  split at h
  · split at h
    · rename_i hword
      cases h
      rw [hword]
      rfl
    · split at h
      · cases h
        rfl
      · cases h
  · cases h

lemma sameFixed_of_use? (h : use? ws = some (s, rest)) : SameFixed ws (s.words ++ rest) := by
  unfold use? at h
  split at h
  · rename_i x ws
    obtain ⟨ws', hend, heq⟩ := Option.map_eq_some_iff.mp h
    cases heq
    exact ((sameFixed_of_semicolon? hend).trans (sameFixed_semicolon _)).append [Lexeme.name x]
  · cases h

lemma sameFixed_of_whileEnd? (h : whileEnd? ws = some (x, rest)) :
    SameFixed ws (whileWord :: (header x ++ [.semicolon]) ++ rest) := by
  unfold whileEnd? at h
  split at h
  · split at h
    · rename_i hword
      obtain ⟨⟨y, ws⟩, hheader, h⟩ := Option.bind_eq_some_iff.mp h
      obtain ⟨ws', hend, heq⟩ := Option.map_eq_some_iff.mp h
      cases heq
      rw [hword, eq_of_header? hheader]
      exact ((sameFixed_of_semicolon? hend).trans (sameFixed_semicolon _)).append
        (whileWord :: header y)
    · cases h
  · cases h

/-- With so much fuel nothing but semicolons of a statement is made up or passed over. -/
def StmtSound (n : Nat) : Prop :=
  ∀ ws s rest, stmt n ws = some (s, rest) → SameFixed ws (s.words ++ rest)

def StmtsSound (n : Nat) : Prop :=
  ∀ ws l rest, stmts n ws = some (l, rest) →
    SameFixed ws (Statement.listWords l ++ closeBrace :: rest)

variable {n : Nat}

lemma sameFixed_of_branches (ih : StmtSound n)
    (h : ((stmt n ws).bind fun yes =>
      if yes.2.head? = some elseWord then
        (stmt n yes.2.tail).map fun no => (Statement.branch x yes.1 no.1, no.2)
      else some (.cond x yes.1, yes.2)) = some (s, rest)) :
    SameFixed (ifWord :: (header x ++ ws)) (s.words ++ rest) := by
  obtain ⟨⟨yes, ws'⟩, hyes, h⟩ := Option.bind_eq_some_iff.mp h
  have hfirst := (ih _ _ _ hyes).append (ifWord :: header x)
  refine SameFixed.trans hfirst ?_
  dsimp only at h
  split_ifs at h with helse
  · obtain ⟨⟨no, rest'⟩, hno, heq⟩ := Option.map_eq_some_iff.mp h
    cases heq
    obtain ⟨ws, rfl⟩ : ∃ ws, ws' = elseWord :: ws := by
      cases ws' with
      | nil => cases helse
      | cons w ws => exact ⟨ws, by rw [Option.some.inj helse]⟩
    have hsecond := (ih _ _ _ hno).append (ifWord :: header x ++ yes.words ++ [elseWord])
    simpa [Statement.words] using hsecond
  · cases h
    simp [Statement.words, SameFixed]

lemma stmtSound_succ (ih : StmtSound n) (ih' : StmtsSound n) : StmtSound (n + 1) := by
  intro ws s rest h
  simp only [stmt] at h
  split at h
  · -- a statement with its body behind it
    rename_i k ws' hlead
    obtain ⟨⟨body, r⟩, hbody, heq⟩ := Option.map_eq_some_iff.mp h
    cases heq
    rw [eq_of_lead? hlead, Statement.words, List.append_assoc]
    exact (ih _ _ _ hbody).append _
  · split at h
    · cases h
    · rename_i w ws hnone
      split_ifs at h with hempty hopen hif hdo
      · cases h
        rw [hempty]
        rfl
      · obtain ⟨⟨body, r⟩, hbody, heq⟩ := Option.map_eq_some_iff.mp h
        cases heq
        rw [hopen, Statement.words, List.cons_append, List.append_assoc]
        exact (ih' _ _ _ hbody).append [openBrace]
      · obtain ⟨⟨x, ws'⟩, hheader, h⟩ := Option.bind_eq_some_iff.mp h
        rw [hif, eq_of_header? hheader]
        exact sameFixed_of_branches ih h
      · obtain ⟨⟨body, ws'⟩, hbody, h⟩ := Option.bind_eq_some_iff.mp h
        obtain ⟨⟨x, r⟩, hend, heq⟩ := Option.map_eq_some_iff.mp h
        cases heq
        rw [hdo]
        have hfirst := (ih _ _ _ hbody).append [doWord]
        have hsecond := (sameFixed_of_whileEnd? hend).append (doWord :: body.words)
        simpa [Statement.words] using SameFixed.trans hfirst hsecond
      · exact sameFixed_of_use? h

lemma stmtsSound_succ (ih : StmtSound n) (ih' : StmtsSound n) : StmtsSound (n + 1) := by
  intro ws l rest h
  rw [stmts] at h
  split_ifs at h with hclose
  · cases h
    cases ws with
    | nil => cases hclose
    | cons w ws =>
      rw [Option.some.inj hclose]
      rfl
  · obtain ⟨⟨s, ws'⟩, hs, h⟩ := Option.bind_eq_some_iff.mp h
    obtain ⟨⟨l, r⟩, hl, heq⟩ := Option.map_eq_some_iff.mp h
    cases heq
    have hrest := (ih' _ _ _ hl).append s.words
    rw [Statement.listWords, List.append_assoc]
    exact (ih _ _ _ hs).trans hrest

/-- **What is read is in the text.** -/
theorem sound (n : Nat) : StmtSound n ∧ StmtsSound n := by
  induction n with
  | zero => refine ⟨fun _ _ _ h => ?_, fun _ _ _ h => ?_⟩ <;> cases h
  | succ n ih => exact ⟨stmtSound_succ ih.1 ih.2, stmtsSound_succ ih.1 ih.2⟩

lemma sameFixed_of_parse (h : parse ws = some l) :
    SameFixed ws (Statement.listWords l ++ [closeBrace]) := by
  obtain ⟨⟨l', rest⟩, hl, h⟩ := Option.bind_eq_some_iff.mp h
  dsimp only at h
  split_ifs at h with hrest
  cases h
  rw [← hrest]
  exact (sound _).2 _ _ _ hl

namespace Statement

lemma sameFixed_of_isEmpty (h : s.isEmpty = true) (ws : List Lexeme) :
    SameFixed (s.words ++ ws) ws := by
  cases s <;> simp_all [isEmpty, words]
  rfl

mutual

/-- The empty statements between braces have no words but semicolons. -/
theorem sameFixed_tidy : ∀ s : Statement, SameFixed s.tidy.words s.words
  | use x => rfl
  | empty => rfl
  | block body => by
    have hbody := listSameFixed_tidy body
    unfold SameFixed at *
    simp [tidy, words, List.filter_append, List.filter_cons, hbody]
  | cond x yes => (sameFixed_tidy yes).append (ifWord :: header x)
  | branch x yes no => by
    have hyes := sameFixed_tidy yes
    have hno := sameFixed_tidy no
    unfold SameFixed at *
    simp [tidy, words, List.filter_append, List.filter_cons, hyes, hno]
  | lead k body => (sameFixed_tidy body).append k.words
  | doWhile body x => by
    have hbody := sameFixed_tidy body
    unfold SameFixed at *
    simp [tidy, words, List.filter_append, List.filter_cons, hbody]

theorem listSameFixed_tidy : ∀ l : List Statement, SameFixed (listWords (listTidy l)) (listWords l)
  | [] => rfl
  | s :: rest => by
    have hrest := listSameFixed_tidy rest
    rw [listTidy, listWords]
    split
    · rename_i hempty
      exact hrest.trans (sameFixed_of_isEmpty hempty _).symm
    · have hs := sameFixed_tidy s
      unfold SameFixed at *
      rw [listWords, List.filter_append, List.filter_append, hs, hrest]

end

end Statement

/-! ### Whole scripts -/

lemma sameFixed_of_script? {p : Script} (h : script? ws = some p) : SameFixed ws p.words := by
  unfold script? at h
  split at h
  · split at h
    · rename_i hfront
      obtain ⟨body, hbody, heq⟩ := Option.map_eq_some_iff.mp h
      obtain ⟨rfl, rfl, rfl, rfl⟩ := hfront
      cases heq
      exact (sameFixed_of_parse hbody).append (Script.front { name := _, body := body })
    · cases h
  · cases h

lemma Script.sameFixed_tidy (p : Script) : SameFixed p.tidy.words p.words := by
  have hbody := Statement.listSameFixed_tidy p.body
  refine SameFixed.append ?_ p.front
  unfold SameFixed at *
  rw [List.filter_append, List.filter_append, Script.tidy, hbody]

/-- Scripts that are the same up to empty statements are so up to semicolons. -/
theorem sameFixed_of_tidy {p q : Script} (h : p.tidy = q.tidy) : SameFixed p.words q.words :=
  (p.sameFixed_tidy.symm.trans (congrArg (List.filter _ ∘ Script.words) h)).trans q.sameFixed_tidy

end Grammar

end Minify
