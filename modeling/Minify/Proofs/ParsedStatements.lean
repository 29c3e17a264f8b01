import Minify.Proofs.StatementGrammar

/-!
What the parser makes of the words of statements.

Each list of statements has a list with the same words where every `else` goes to the nearest `if`,
and this is what is read from the words. It is read as well when the semicolons in front of closing
braces are left out, but for empty statements at the end of braces, as long as none of them was the
body of a `for await`. For a body that is left out nothing can be read at all.
-/

namespace Minify

namespace Grammar

namespace Statement

/-! ### An `else` goes to the nearest `if` -/

/-- An `else` after the statement would go to an `if` in it. -/
def isOpen : Statement → Bool
  | use _ | empty | block _ | doWhile _ _ => false
  | cond _ _ => true
  | branch _ _ no => no.isOpen
  | lead _ body => body.isOpen

mutual

/-- Each `else` goes to the nearest `if`. -/
def nearest : Statement → Bool
  | use _ | empty => true
  | block body => listNearest body
  | cond _ yes => nearest yes
  | branch _ yes no => !yes.isOpen && nearest yes && nearest no
  | lead _ body => nearest body
  | doWhile body _ => nearest body

def listNearest : List Statement → Bool
  | [] => true
  | s :: rest => nearest s && listNearest rest

end

lemma exists_branch {no : Statement} (hno : no.nearest = true) :
    ∀ s : Statement, s.nearest = true → s.isOpen = true →
      ∃ t : Statement, t.nearest = true ∧ t.words = s.words ++ elseWord :: no.words
  | cond x yes, h, _ => by
    cases hopen : yes.isOpen with
    | false =>
      refine ⟨branch x yes no, ?_, by simp [words]⟩
      have hyes : yes.nearest = true := h
      simp [nearest, hopen, hyes, hno]
    | true =>
      obtain ⟨t, ht, hwords⟩ := exists_branch hno yes h hopen
      exact ⟨cond x t, ht, by simp [words, hwords]⟩
  | branch x yes other, h, hopen => by
    simp only [nearest, Bool.and_eq_true] at h
    obtain ⟨t, ht, hwords⟩ := exists_branch hno other h.2 hopen
    exact ⟨branch x yes t, by simp [nearest, h.1, ht], by simp [words, hwords]⟩
  | lead k body, h, hopen => by
    obtain ⟨t, ht, hwords⟩ := exists_branch hno body h hopen
    exact ⟨lead k t, ht, by simp [words, hwords]⟩
  | use _, _, hopen | empty, _, hopen | block _, _, hopen | doWhile _ _, _, hopen => by cases hopen

mutual

/-- Each statement has the words of one where every `else` goes to the nearest `if`. -/
theorem exists_nearest : ∀ s : Statement, ∃ t : Statement, t.nearest = true ∧ t.words = s.words
  | use x => ⟨use x, rfl, rfl⟩
  | empty => ⟨empty, rfl, rfl⟩
  | block body => by
    obtain ⟨l, hl, hwords⟩ := exists_listNearest body
    exact ⟨block l, hl, by simp [words, hwords]⟩
  | cond x yes => by
    obtain ⟨t, ht, hwords⟩ := exists_nearest yes
    exact ⟨cond x t, ht, by simp [words, hwords]⟩
  | branch x yes no => by
    obtain ⟨t, ht, hwords⟩ := exists_nearest yes
    obtain ⟨t', ht', hwords'⟩ := exists_nearest no
    cases hopen : t.isOpen with
    | false =>
      exact ⟨branch x t t', by simp [nearest, hopen, ht, ht'], by simp [words, hwords, hwords']⟩
    | true =>
      obtain ⟨u, hu, huwords⟩ := exists_branch ht' t ht hopen
      exact ⟨cond x u, hu, by simp [words, hwords, hwords', huwords]⟩
  | lead k body => by
    obtain ⟨t, ht, hwords⟩ := exists_nearest body
    exact ⟨lead k t, ht, by simp [words, hwords]⟩
  | doWhile body x => by
    obtain ⟨t, ht, hwords⟩ := exists_nearest body
    exact ⟨doWhile t x, ht, by simp [words, hwords]⟩

theorem exists_listNearest :
    ∀ l : List Statement, ∃ l' : List Statement, listNearest l' = true ∧ listWords l' = listWords l
  | [] => ⟨[], rfl, rfl⟩
  | s :: rest => by
    obtain ⟨t, ht, hwords⟩ := exists_nearest s
    obtain ⟨l, hl, hlwords⟩ := exists_listNearest rest
    exact ⟨t :: l, by simp [listNearest, ht, hl], by simp [listWords, hwords, hlwords]⟩

end

/-! ### Words without some of their semicolons -/

mutual

/-- The words of a statement, which is the `last` in front of a closing brace or not. If they are
`short`, what ends there has no semicolon, unless it is the empty body of an `if`, of a `while` or
of another statement whose header the layout knows. -/
def spelled (short last : Bool) : Statement → List Lexeme
  | use x => .name x :: (if short && last then [] else [.semicolon])
  | empty => [.semicolon]
  | block body => openBrace :: (listSpelled short body ++ [closeBrace])
  | cond x yes => ifWord :: (header x ++ spelled short last yes)
  | branch x yes no =>
    ifWord :: (header x ++ (spelled short false yes ++ elseWord :: spelled short last no))
  | lead k body =>
    k.words ++ (if short && last && k.isForAwait && body.isEmpty then [] else spelled
      short last body)
  | doWhile body x =>
    doWord :: (spelled short false body ++ whileWord :: (header x ++ [.semicolon]))

def listSpelled (short : Bool) : List Statement → List Lexeme
  | [] => []
  | s :: rest =>
    (if short && rest.isEmpty && s.isEmpty then [] else spelled short rest.isEmpty s)
      ++ listSpelled short rest

end

mutual

lemma spelled_false (last : Bool) : ∀ s : Statement, s.spelled false last = s.words
  | use x => rfl
  | empty => rfl
  | block body => by simp [spelled, words, listSpelled_false body]
  | cond x yes => by simp [spelled, words, spelled_false last yes]
  | branch x yes no => by simp [spelled, words, spelled_false false yes, spelled_false last no]
  | lead k body => by simp [spelled, words, spelled_false last body]
  | doWhile body x => by simp [spelled, words, spelled_false false body]

lemma listSpelled_false : ∀ l : List Statement, listSpelled false l = listWords l
  | [] => rfl
  | s :: rest => by simp [listSpelled, listWords, spelled_false, listSpelled_false rest]

end

mutual

/-- What is read from the words: if they are short, the statement without the empty ones that stood
last between braces. -/
def trimmed (short : Bool) : Statement → Statement
  | use x => use x
  | empty => empty
  | block body => block (listTrimmed short body)
  | cond x yes => cond x (trimmed short yes)
  | branch x yes no => branch x (trimmed short yes) (trimmed short no)
  | lead k body => lead k (trimmed short body)
  | doWhile body x => doWhile (trimmed short body) x

def listTrimmed (short : Bool) : List Statement → List Statement
  | [] => []
  | s :: rest =>
    if short && rest.isEmpty && s.isEmpty then [] else trimmed short s :: listTrimmed short rest

end

mutual

lemma trimmed_false : ∀ s : Statement, s.trimmed false = s
  | use x => rfl
  | empty => rfl
  | block body => by simp [trimmed, listTrimmed_false body]
  | cond x yes => by simp [trimmed, trimmed_false yes]
  | branch x yes no => by simp [trimmed, trimmed_false yes, trimmed_false no]
  | lead k body => by simp [trimmed, trimmed_false body]
  | doWhile body x => by simp [trimmed, trimmed_false body]

lemma listTrimmed_false : ∀ l : List Statement, listTrimmed false l = l
  | [] => rfl
  | s :: rest => by simp [listTrimmed, trimmed_false s, listTrimmed_false rest]

end

lemma isEmpty_trimmed (short : Bool) (s : Statement) : (s.trimmed short).isEmpty = s.isEmpty := by
  cases s <;> rfl

mutual

lemma tidy_trimmed (short : Bool) : ∀ s : Statement, (s.trimmed short).tidy = s.tidy
  | use x => rfl
  | empty => rfl
  | block body => by simp [trimmed, tidy, listTidy_trimmed short body]
  | cond x yes => by simp [trimmed, tidy, tidy_trimmed short yes]
  | branch x yes no => by simp [trimmed, tidy, tidy_trimmed short yes, tidy_trimmed short no]
  | lead k body => by simp [trimmed, tidy, tidy_trimmed short body]
  | doWhile body x => by simp [trimmed, tidy, tidy_trimmed short body]

lemma listTidy_trimmed (short : Bool) :
    ∀ l : List Statement, listTidy (listTrimmed short l) = listTidy l
  | [] => rfl
  | s :: rest => by
    cases hs : s.isEmpty with
    | false =>
      simp [listTrimmed, listTidy, hs, isEmpty_trimmed, tidy_trimmed short s,
        listTidy_trimmed short rest]
    | true =>
      cases rest with
      | nil => cases short <;> simp [listTrimmed, listTidy, hs, isEmpty_trimmed]
      | cons t rest =>
        have hrest := listTidy_trimmed short (t :: rest)
        simp [listTrimmed, listTidy, hs, isEmpty_trimmed] at hrest ⊢
        exact hrest

end

/-! ### Reading them -/

variable {short last : Bool} {n : Nat} {rest : List Lexeme}

/-- No statement begins with a closing brace, an `else` or a colon. -/
lemma head_spelled (s : Statement) (short last : Bool) (rest : List Lexeme) :
    ∀ w ∈ (s.spelled short last ++ rest).head?,
      w ≠ closeBrace ∧ w ≠ elseWord ∧ w ≠ .punct ":" := by
  intro w hw
  cases s with
  | lead k body => cases k <;> cases hw <;> exact ⟨nofun, nofun, nofun⟩
  | _ => cases hw; exact ⟨nofun, nofun, nofun⟩

lemma head_listSpelled (l : List Statement) (short : Bool) (rest : List Lexeme) :
    ∀ w ∈ (listSpelled short l ++ closeBrace :: rest).head?, w ≠ elseWord ∧ w ≠ .punct ":" := by
  cases l with
  | nil =>
    intro w hw
    cases hw
    exact ⟨nofun, nofun⟩
  | cons s l =>
    rw [listSpelled]
    split
    · rename_i hempty
      have hl : l = [] := by simp_all
      subst hl
      intro w hw
      cases hw
      exact ⟨nofun, nofun⟩
    · intro w hw
      rw [List.append_assoc] at hw
      exact (head_spelled s short l.isEmpty _ w hw).2

/-- From its words the statement is read, and nothing at all if a body was left out. -/
def IsRead (short : Bool) (s : Statement) : Prop :=
  ∀ (last : Bool) (n : Nat) (rest : List Lexeme), (s.spelled short last).length ≤ n →
    ((short && last) = true → rest.head? = some closeBrace) →
    (s.isOpen = true → rest.head? ≠ some elseWord) →
    stmt n (s.spelled short last ++ rest)
      = if !short || s.keepsBodies last then some (s.trimmed short, rest) else none

/-- So are statements up to the closing brace. -/
def ListIsRead (short : Bool) (l : List Statement) : Prop :=
  ∀ (n : Nat) (rest : List Lexeme), (listSpelled short l).length < n →
    stmts n (listSpelled short l ++ closeBrace :: rest)
      = if !short || listKeepsBodies l then some (listTrimmed short l, rest) else none

lemma isRead_use (short : Bool) (x : String) : IsRead short (use x) := by
  intro last n rest hn hlast _
  obtain ⟨m, rfl⟩ : ∃ m, n = m + 1 := Nat.exists_eq_add_of_le' (Nat.le_trans (by simp [spelled]) hn)
  have hkeeps : (!short || (use x).keepsBodies last) = true := by simp [keepsBodies]
  rw [if_pos hkeeps]
  cases hleft : short && last with
  | false =>
    rw [spelled, hleft, List.cons_append, stmt_use x m (by simp [Lexeme.semicolon, Lexeme.punct])]
    simp [semicolon?, trimmed]
  | true =>
    have hrest := hlast hleft
    rw [spelled, hleft, if_pos rfl, List.cons_append, List.nil_append,
      stmt_use x m (by rw [hrest]; decide)]
    cases rest with
    | nil => cases hrest
    | cons w rest =>
      obtain rfl : w = closeBrace := Option.some.inj hrest
      rfl

lemma isRead_empty (short : Bool) : IsRead short empty := by
  intro last n rest hn _ _
  obtain ⟨m, rfl⟩ : ∃ m, n = m + 1 := Nat.exists_eq_add_of_le' hn
  have hkeeps : (!short || empty.keepsBodies last) = true := by simp [keepsBodies]
  rw [if_pos hkeeps]
  exact stmt_empty m rest

lemma isRead_block {l : List Statement} (ih : ListIsRead short l) : IsRead short (block l) := by
  intro last n rest hn _ _
  simp only [spelled, List.length_cons, List.length_append, List.length_nil] at hn
  obtain ⟨m, rfl⟩ : ∃ m, n = m + 1 := Nat.exists_eq_add_of_le' (Nat.le_trans (by omega) hn)
  have hbody := ih m rest (by omega)
  rw [spelled, List.cons_append, List.append_assoc, List.singleton_append, stmt_block, hbody,
    keepsBodies, trimmed]
  split <;> rfl

lemma isRead_lead {body : Statement} (k : Lead) (ih : IsRead short body) :
    IsRead short (lead k body) := by
  intro last n rest hn hlast hopen
  have hwords : 0 < k.words.length := by cases k <;> exact Nat.succ_pos _
  simp only [spelled, List.length_append] at hn
  obtain ⟨m, rfl⟩ : ∃ m, n = m + 1 := Nat.exists_eq_add_of_le' (Nat.le_trans (by omega) hn)
  rw [spelled, List.append_assoc, stmt_lead]
  cases hleft : short && last && k.isForAwait && body.isEmpty with
  | true =>
    simp only [Bool.and_eq_true] at hleft
    obtain ⟨⟨⟨hshort, hl⟩, hk⟩, hbody⟩ := hleft
    have hloses : (!short || (lead k body).keepsBodies last) = false := by
      simp [keepsBodies, hshort, hl, hk, hbody]
    rw [hloses, if_pos rfl, List.nil_append, stmt_close m (hlast (by simp [hshort, hl]))]
    rfl
  | false =>
    rw [hleft, if_neg Bool.false_ne_true] at hn
    have hsame : (!short || (lead k body).keepsBodies last)
      = (!short || body.keepsBodies last) := by
      cases short with
      | false => rfl
      | true =>
        simp only [Bool.true_and] at hleft
        simp [keepsBodies, hleft]
    rw [if_neg Bool.false_ne_true, ih last m rest (by omega) hlast hopen, hsame, trimmed]
    split <;> rfl

lemma isRead_cond {yes : Statement} (x : String) (ih : IsRead short yes) :
    IsRead short (cond x yes) := by
  intro last n rest hn hlast hopen
  simp only [spelled, List.length_cons, List.length_append] at hn
  obtain ⟨m, rfl⟩ : ∃ m, n = m + 1 := Nat.exists_eq_add_of_le' (Nat.le_trans (by omega) hn)
  have hyes := ih last m rest (by omega) hlast fun _ => hopen rfl
  rw [spelled, List.cons_append, List.append_assoc, stmt_if, hyes, keepsBodies, trimmed]
  split
  · rw [Option.bind_some, if_neg (hopen rfl)]
  · rfl

lemma isRead_branch {yes no : Statement} (x : String) (hclosed : yes.isOpen = false)
    (ih : IsRead short yes) (ih' : IsRead short no) : IsRead short (branch x yes no) := by
  intro last n rest hn hlast hopen
  simp only [spelled, List.length_cons, List.length_append] at hn
  obtain ⟨m, rfl⟩ : ∃ m, n = m + 1 := Nat.exists_eq_add_of_le' (Nat.le_trans (by omega) hn)
  have hyes := ih false m (elseWord :: (no.spelled short last ++ rest)) (by omega) (by simp)
    (by simp [hclosed])
  have hno := ih' last m rest (by omega) hlast hopen
  rw [spelled, List.cons_append, List.append_assoc, List.append_assoc, List.cons_append, stmt_if,
    hyes, keepsBodies, trimmed]
  cases short with
  | false => simpa using hno
  | true =>
    cases hk : yes.keepsBodies false with
    | false => simp
    | true =>
      simp only [Bool.not_true, Bool.false_or, Bool.true_and, if_true, Option.bind_some,
        List.head?_cons, List.tail_cons] at hno ⊢
      rw [hno]
      split <;> rfl

lemma whileEnd?_header (x : String) (ws : List Lexeme) :
    whileEnd? (whileWord :: (header x ++ .semicolon :: ws)) = some (x, ws) := by
  simp [whileEnd?, header?_header, semicolon?]

lemma isRead_doWhile {body : Statement} (x : String) (ih : IsRead short body) :
    IsRead short (doWhile body x) := by
  intro last n rest hn _ _
  simp only [spelled, List.length_cons, List.length_append] at hn
  obtain ⟨m, rfl⟩ : ∃ m, n = m + 1 := Nat.exists_eq_add_of_le' (Nat.le_trans (by omega) hn)
  have hbody := ih false m (whileWord :: (header x ++ .semicolon :: rest)) (by omega) (by simp)
    fun _ => nofun
  rw [spelled, List.cons_append, List.append_assoc, List.cons_append, List.append_assoc,
    List.singleton_append, stmt_do, hbody, keepsBodies, trimmed]
  split
  · rw [Option.bind_some, whileEnd?_header]
    rfl
  · rfl

lemma listIsRead_nil (short : Bool) : ListIsRead short [] := by
  intro n rest hn
  obtain ⟨m, rfl⟩ : ∃ m, n = m + 1 := Nat.exists_eq_add_of_le' hn
  simp [listSpelled, stmts, listKeepsBodies, listTrimmed]

lemma listIsRead_cons {s : Statement} {l : List Statement} (ih : IsRead short s)
    (ih' : ListIsRead short l) :
    ListIsRead short (s :: l) := by
  intro n rest hn
  obtain ⟨m, rfl⟩ : ∃ m, n = m + 1 := Nat.exists_eq_add_of_le' (Nat.zero_lt_of_lt hn)
  cases hleft : short && l.isEmpty && s.isEmpty with
  | true =>
    simp only [Bool.and_eq_true, List.isEmpty_iff] at hleft
    obtain ⟨⟨hshort, rfl⟩, hs⟩ := hleft
    have hkeeps : listKeepsBodies [s] = true := by
      cases s <;> simp_all [isEmpty, listKeepsBodies, keepsBodies]
    simp [listSpelled, hshort, hs, stmts, hkeeps, listTrimmed]
  | false =>
    have hspelled : listSpelled short (s :: l)
        = s.spelled short l.isEmpty ++ listSpelled short l := by
      rw [listSpelled, hleft, if_neg Bool.false_ne_true]
    have htrimmed : listTrimmed short (s :: l) = s.trimmed short :: listTrimmed short l := by
      rw [listTrimmed, hleft, if_neg Bool.false_ne_true]
    rw [hspelled, List.length_append] at hn
    have hpos : 0 < (s.spelled short l.isEmpty).length := by
      cases s with
      | lead k _ => cases k <;> simp [spelled, Lead.words]
      | _ => simp [spelled]
    have hclose : (s.spelled short l.isEmpty ++ (listSpelled short l ++ closeBrace :: rest)).head?
        ≠ some closeBrace := fun h => (head_spelled s short l.isEmpty _ _ h).1 rfl
    have hhead := ih l.isEmpty m (listSpelled short l ++ closeBrace :: rest) (by omega)
      (fun h => by
        simp only [Bool.and_eq_true, List.isEmpty_iff] at h
        rw [h.2]
        rfl)
      fun _ h => (head_listSpelled l short rest _ h).1 rfl
    have hrest := ih' m rest (by omega)
    rw [hspelled, htrimmed, List.append_assoc, stmts, if_neg hclose, hhead, listKeepsBodies]
    cases short with
    | false => simpa using hrest
    | true =>
      cases hk : s.keepsBodies l.isEmpty with
      | false => simp
      | true =>
        simp only [Bool.not_true, Bool.false_or, Bool.true_and, if_true,
          Option.bind_some] at hrest ⊢
        rw [hrest]
        split <;> rfl

mutual

/-- **From its words a statement is read.** -/
theorem isRead (short : Bool) : ∀ s : Statement, s.nearest = true → IsRead short s
  | use x, _ => isRead_use short x
  | empty, _ => isRead_empty short
  | block body, h => isRead_block (listIsRead short body h)
  | cond x yes, h => isRead_cond x (isRead short yes h)
  | branch x yes no, h => by
    simp only [nearest, Bool.and_eq_true, Bool.not_eq_true'] at h
    exact isRead_branch x h.1.1 (isRead short yes h.1.2) (isRead short no h.2)
  | lead k body, h => isRead_lead k (isRead short body h)
  | doWhile body x, h => isRead_doWhile x (isRead short body h)

theorem listIsRead (short : Bool) : ∀ l : List Statement, listNearest l = true → ListIsRead short l
  | [], _ => listIsRead_nil short
  | s :: rest, h => by
    simp only [listNearest, Bool.and_eq_true] at h
    exact listIsRead_cons (isRead short s h.1) (listIsRead short rest h.2)

end

/-- The words of statements, short or not, up to the closing brace. -/
theorem parse_spelled (short : Bool) {l : List Statement} (h : listNearest l = true) :
    parse (listSpelled short l ++ [closeBrace])
      = if !short || listKeepsBodies l then some (listTrimmed short l) else none := by
  rw [parse, listIsRead short l h _ [] (by simp)]
  split <;> rfl

end Statement

/-- The words of a script, short or not, are read but for what it loses. -/
theorem script?_spelled (short : Bool) {p : Script} (h : Statement.listNearest p.body = true) :
    script? (p.front ++ (Statement.listSpelled short p.body ++ [closeBrace]))
      = if !short || p.keepsBodies then some { p with body := Statement.listTrimmed short p.body }
        else none := by
  rw [script?_front, Statement.parse_spelled short h, Script.keepsBodies]
  split <;> rfl

end Grammar

end Minify
