import Mathlib.Tactic.Common
import Minify.Proofs.Shifts

/-!
The scopes that wait, and the scope that a token records its identifier in.

A function or a catch clause with a scope of its own waits for its name or its parameters in the
scope around it: a token that makes one wait adds it inside the current scope. And an identifier is
recorded in the scope that the tracker stands in, unless it is the name of a function, which the
scope of the function may have.
-/

namespace Minify.Tracker

variable {last s t u : Tracker} {site : Site} {next : Option Token} {id : ScopeId}

/-- What waits did so before, or has a new scope inside the current one. -/
def Awaits (last s t : Tracker) : Prop :=
  ∀ id, t.Waits id → s.Waits id ∨ ∃ kind, Child last s.current kind id

lemma Awaits.of_eq (hp : t.nextParams = s.nextParams) (hf : t.functionName = s.functionName)
    (hc : t.catchScope = s.catchScope) : Awaits last s t := by
  intro id h
  unfold Waits at h ⊢
  rw [hp, hf, hc] at h
  exact .inl h

lemma Awaits.after (h : Awaits last s t) (hc : t.current = s.current) (h' : Awaits last t u) :
    Awaits last s u := by
  intro id hid
  rcases h' id hid with hid | ⟨kind, hchild⟩
  · exact h id hid
  · exact .inr ⟨kind, hc ▸ hchild⟩

lemma waiting_takeSlot {kind : DeclKind} (h : s.takeSlot = some (kind, t)) :
    t.nextParams = s.nextParams ∧ t.functionName = s.functionName ∧ t.catchScope
      = s.catchScope := by
  cases takeSlot_cases h <;> exact ⟨rfl, rfl, rfl⟩

lemma awaits_takeSlot {kind : DeclKind} (h : s.takeSlot = some (kind, t)) : Awaits last s t :=
  .of_eq (waiting_takeSlot h).1 (waiting_takeSlot h).2.1 (waiting_takeSlot h).2.2

lemma awaits_declare (site : Site) (kind : DeclKind) (shorthand : Bool) :
    Awaits last s (s.declare site kind shorthand) := by
  cases kind <;> exact .of_eq rfl rfl rfl

lemma awaits_abandonDeclaration : Awaits last s s.abandonDeclaration := by
  unfold abandonDeclaration
  split <;> exact .of_eq rfl rfl rfl

lemma awaits_nextParams (hb : Bounded s)
    (hl : Keeps { (s.addScope .function).2 with nextParams := some s.scopes.size } last) :
    Awaits last s { (s.addScope .function).2 with nextParams := some s.scopes.size } := by
  have hchild : Child last s.current .function s.scopes.size := child_of_push rfl hl hb
  rintro id (h | h | h)
  · cases h
    exact .inr ⟨_, hchild⟩
  · exact .inl (.inr (.inl h))
  · exact .inl (.inr (.inr h))

lemma awaits_key (hb : Bounded s) (hl : Keeps (s.key site next) last) :
    Awaits last s (s.key site next) := by
  have hkey : Awaits last s (s.setTop fun f => { f with atKey := false }) := .of_eq rfl rfl rfl
  have hsettles : Settles s (s.setTop fun f => { f with atKey := false }) :=
    settles_setTop fun _ => rfl
  have h := key_cases s site next
  generalize s.key site next = t at h hl ⊢
  cases h with
  | staticBlock => exact .of_eq rfl rfl rfl
  | modifier => exact .of_eq rfl rfl rfl
  | method => exact hkey.after rfl (awaits_nextParams (hsettles.bounded hb) hl)
  | binding => exact hkey.after rfl (awaits_declare _ _ _)
  | shorthand => exact .of_eq rfl rfl rfl
  | plain => exact hkey

lemma awaits_keyword (hb : Bounded s) (k : Keyword) (hl : Keeps (s.keyword site next k) last) :
    Awaits last s (s.keyword site next k) := by
  have h := keyword_cases s site next k
  generalize s.keyword site next k = t at h hl ⊢
  cases h with
  | function =>
    have hchild : Child last s.current .function s.scopes.size := child_of_push rfl hl hb
    rintro id (h | ⟨declaration, h⟩ | h)
    · cases h
      exact .inr ⟨_, hchild⟩
    · cases h
      exact .inr ⟨_, hchild⟩
    · exact .inl (.inr (.inr h))
  | catchParam =>
    have hchild : Child last s.current .catchClause s.scopes.size := child_of_push rfl hl hb
    rintro id (h | h | h)
    · exact .inl (.inl h)
    · exact .inl (.inr (.inl h))
    · cases h
      exact .inr ⟨_, hchild⟩
  | _ => exact .of_eq rfl rfl rfl

lemma awaits_nameFunction (site : Site) (scope : ScopeId) (declaration : Bool) :
    Awaits last s (s.nameFunction site scope declaration) := by
  unfold nameFunction
  dsimp only
  split
  · rintro id (h | ⟨_, h⟩ | h)
    · exact .inl (.inl h)
    · cases h
    · exact .inl (.inr (.inr h))
  · rintro id (h | ⟨_, h⟩ | h)
    · exact .inl (.inl h)
    · cases h
    · exact .inl (.inr (.inr h))

lemma awaits_identifier : Awaits last s (s.identifier site next) := by
  have h := identifier_cases s site next
  generalize s.identifier site next = t at h ⊢
  cases h with
  | classDeclaration => exact awaits_declare _ _ _
  | functionName => exact awaits_nameFunction _ _ _
  | _ => exact .of_eq rfl rfl rfl

lemma awaits_word (hb : Bounded s) (hl : Keeps (s.word site next) last) :
    Awaits last s (s.word site next) := by
  have habandon : Awaits last s s.abandonDeclaration := awaits_abandonDeclaration
  have hcurrent : s.abandonDeclaration.current = s.current := rests_abandonDeclaration.current
  have hb' : Bounded s.abandonDeclaration := settles_abandonDeclaration.bounded hb
  have h := word_cases s site next
  generalize s.word site next = t at h hl ⊢
  cases h with
  | member => exact .of_eq rfl rfl rfl
  | privateKey => exact awaits_key hb hl
  | keywordKey => exact habandon.after hcurrent (awaits_key hb' hl)
  | keyword => exact habandon.after hcurrent (awaits_keyword hb' _ hl)
  | slot _ hslot =>
    exact (awaits_takeSlot hslot).after (rests_takeSlot hslot).current (awaits_declare _ _ _)
  | key => exact awaits_key hb hl
  | identifier => exact awaits_identifier

lemma awaits_openBrace : Awaits last s s.openBrace := by
  have h := openBrace_cases s
  generalize s.openBrace = t at h ⊢
  cases h with
  | pattern _ hslot =>
    exact (awaits_takeSlot hslot).after (rests_takeSlot hslot).current (.of_eq rfl rfl rfl)
  | _ => exact .of_eq rfl rfl rfl

lemma awaits_openSquare : Awaits last s s.openSquare := by
  have h := openSquare_cases s
  generalize s.openSquare = t at h ⊢
  cases h with
  | pattern hslot =>
    exact (awaits_takeSlot hslot).after (rests_takeSlot hslot).current (.of_eq rfl rfl rfl)
  | _ => exact .of_eq rfl rfl rfl

lemma awaits_openParen : Awaits last s (s.openParen site) := by
  have h := openParen_cases s site
  generalize s.openParen site = t at h ⊢
  cases h with
  | params =>
    rintro id (h | ⟨_, h⟩ | h)
    · cases h
    · cases h
    · exact .inl (.inr (.inr h))
  | catchParam =>
    rintro id (h | h | h)
    · exact .inl (.inl h)
    · exact .inl (.inr (.inl h))
    · cases h
  | _ => exact .of_eq rfl rfl rfl

lemma awaits_leave (hb : Bounded s) (f : Frame) (hl : Keeps (s.leave f next) last) :
    Awaits last s (s.leave f next) := by
  have h := leave_cases s f next
  generalize s.leave f next = t at h hl ⊢
  cases h with
  | method => exact awaits_nextParams hb hl
  | _ => exact .of_eq rfl rfl rfl

lemma waits_endBlock (next : Option Token) (h : (s.endBlock next).Waits id) : s.Waits id := by
  have hcases := endBlock_cases s next
  generalize s.endBlock next = t at hcases h
  cases hcases <;> exact h

lemma awaits_close (hb : Bounded s) (hl : Keeps (s.close next) last) :
    Awaits last s (s.close next) := by
  have hframe {around : Frame} {outer : List Frame} (ho : s.outer = around :: outer)
      (hl : Keeps (s.closeFrame around outer next) last) :
      Awaits last s (s.closeFrame around outer next) := by
    have hpop : Settles s (s.pop around outer) :=
      ⟨rfl, rfl, rfl, fun id h => by grind [live_iff, pop]⟩
    have hpopped : Awaits last s (s.pop around outer) := .of_eq rfl rfl rfl
    have hkeeps : Keeps ((s.pop around outer).leave s.top next) last := (Keeps.of_eq rfl).trans hl
    exact hpopped.after rfl (awaits_leave (hpop.bounded hb) s.top hkeeps)
  have h := close_cases s next
  generalize s.close next = t at h hl ⊢
  cases h with
  | root => exact .of_eq rfl rfl rfl
  | frame ho => exact hframe ho hl
  | @braces around outer ho =>
    have hscopes := (settles_endBlock (s := s.closeFrame around outer next) next).scopes
    exact fun id hid => hframe ho ((Keeps.of_eq hscopes).trans hl) id (waits_endBlock next hid)

lemma awaits_punctuator (hb : Bounded s) (hl : Keeps (s.punctuator site next) last) :
    Awaits last s (s.punctuator site next) := by
  have h := punctuator_cases s site next
  generalize s.punctuator site next = t at h hl ⊢
  cases h with
  | openBrace => exact awaits_openBrace
  | openSquare => exact awaits_openSquare
  | openParen => exact awaits_openParen
  | close => exact awaits_close hb hl
  | colon =>
    have hcolon := colon_cases s
    generalize s.colon = u at hcolon ⊢
    cases hcolon <;> exact .of_eq rfl rfl rfl
  | arrow =>
    have harrow := arrow_cases s next
    generalize s.arrow next = u at harrow ⊢
    cases harrow <;> exact .of_eq rfl rfl rfl
  | operator => exact awaits_abandonDeclaration
  | _ => exact .of_eq rfl rfl rfl

/-- **What waits after a token** did so before, or has a new scope inside the current one. -/
theorem awaits_read (hb : Bounded s) (hl : Keeps (s.read site next) last) :
    Awaits last s (s.read site next) := by
  have h := read_cases s site next
  generalize s.read site next = t at h hl ⊢
  cases h with
  | punctuator => exact awaits_punctuator hb hl
  | word => exact awaits_word hb hl
  | key => exact awaits_key hb hl
  | templateTail => exact awaits_close hb hl
  | _ => exact .of_eq rfl rfl rfl

lemma waits_prepare (h : (s.prepare site).Waits id) : s.Waits id := by
  have hbody (t : Tracker) (h : (t.beginBody site.token).Waits id) : t.Waits id := by
    have hcases := beginBody_cases t site.token
    generalize t.beginBody site.token = u at hcases h
    cases hcases <;> exact h
  rw [prepare_eq] at h
  have h := hbody _ h
  unfold afterLine at h
  dsimp only at h
  split at h <;> exact h

lemma catchScope_prepare (s : Tracker) (site : Site) :
    (s.prepare site).catchScope = s.catchScope := by
  have hbody (t : Tracker) : (t.beginBody site.token).catchScope = t.catchScope := by
    have hcases := beginBody_cases t site.token
    generalize t.beginBody site.token = u at hcases ⊢
    cases hcases <;> rfl
  rw [prepare_eq, hbody]
  unfold afterLine
  dsimp only
  split <;> rfl

/-! ### The scope of an occurrence -/

/-- A new occurrence stands in the scope that the tracker is in then, or in that of a function that
waits for its name. -/
def RecordsHere (s t : Tracker) : Prop :=
  ∀ o ∈ t.occurrences, o ∈ s.occurrences ∨ o.scope = t.current ∨
    ∃ declaration, s.functionName = some (o.scope, declaration)

lemma RecordsHere.of_eq (h : t.occurrences = s.occurrences) : RecordsHere s t :=
  fun _ ho => .inl (h ▸ ho)

lemma recordsHere_mention (shorthand : Bool) :
    RecordsHere s (s.mention site s.current shorthand) := by
  intro o ho
  rcases List.mem_cons.mp ho with rfl | ho
  · exact .inr (.inl rfl)
  · exact .inl ho

lemma recordsHere_declare (kind : DeclKind) (shorthand : Bool) :
    RecordsHere s (s.declare site kind shorthand) := by
  intro o ho
  cases kind with
  | hoisted =>
    rcases List.mem_cons.mp ho with rfl | ho
    · exact .inr (.inl rfl)
    · exact .inl ho
  | lexical =>
    rcases List.mem_cons.mp ho with rfl | ho
    · exact .inr (.inl rfl)
    · exact .inl ho

/-- The occurrences and the waiting names are the same before. -/
lemma RecordsHere.after (ho : t.occurrences = s.occurrences) (hf : t.functionName = s.functionName)
    (h : RecordsHere t u) : RecordsHere s u := fun o hmem => by
  rw [← ho, ← hf]
  exact h o hmem

lemma recordsHere_key : RecordsHere s (s.key site next) := by
  have h := key_cases s site next
  generalize s.key site next = t at h ⊢
  cases h with
  | binding => exact (recordsHere_declare _ _).after rfl rfl
  | shorthand => exact (recordsHere_mention _).after rfl rfl
  | _ => exact .of_eq rfl

lemma recordsHere_nameFunction {scope : ScopeId} {declaration : Bool}
    (h : s.functionName = some (scope, declaration)) :
    RecordsHere s (s.nameFunction site scope declaration) := by
  intro o ho
  unfold nameFunction at ho ⊢
  dsimp only at ho ⊢
  split at ho
  · rcases List.mem_cons.mp ho with rfl | ho
    · rename_i hd
      rw [if_pos hd]
      exact .inr (.inl rfl)
    · exact .inl ho
  · rcases List.mem_cons.mp ho with rfl | ho
    · exact .inr (.inr ⟨declaration, h⟩)
    · exact .inl ho

lemma recordsHere_identifier : RecordsHere s (s.identifier site next) := by
  have h := identifier_cases s site next
  generalize s.identifier site next = t at h ⊢
  cases h with
  | classDeclaration => exact recordsHere_declare _ _
  | functionName hname => exact recordsHere_nameFunction hname
  | parameter => exact (recordsHere_declare _ _).after rfl rfl
  | eval => exact (recordsHere_mention _).after rfl rfl
  | reference => exact recordsHere_mention _
  | _ => exact .of_eq rfl

lemma recordsHere_word (hi : site.token.kind = .identifier) :
    RecordsHere s (s.word site next) := by
  have h := word_cases s site next
  generalize s.word site next = t at h ⊢
  cases h with
  | member => exact .of_eq rfl
  | privateKey => exact recordsHere_key
  | keywordKey hk =>
    rw [hi] at hk
    cases hk
  | keyword hk =>
    rw [hi] at hk
    cases hk
  | slot _ hslot =>
    have hsettles := settles_takeSlot hslot
    exact (recordsHere_declare _ _).after hsettles.occurrences (waiting_takeSlot hslot).2.1
  | key => exact recordsHere_key
  | identifier => exact recordsHere_identifier

/-- Only an identifier is recorded. -/
lemma Reads.occurrences_eq (h : Reads site s t) (hi : site.token.kind ≠ .identifier) :
    t.occurrences = s.occurrences := by
  induction h with
  | quiet h => exact h.occurrences
  | mention h hk => exact absurd hk hi
  | declare h hk => exact absurd hk hi
  | settle _ m ih => exact m.occurrences.trans ih

/-- **An identifier is recorded where the tracker stands**, or as the name of a function. -/
theorem recordsHere_read (s : Tracker) (site : Site) (next : Option Token) :
    RecordsHere s (s.read site next) := by
  by_cases hi : site.token.kind = .identifier
  · unfold read
    rw [hi]
    exact recordsHere_word hi
  · exact .of_eq ((reads_read site next).occurrences_eq hi)

end Minify.Tracker
