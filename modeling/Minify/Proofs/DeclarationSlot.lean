import Mathlib.Tactic.Common
import Minify.Proofs.ExposedScopes

/-!
The declaration list in progress.

The tracker has one slot for the list whose names it reads. A name takes the place that waits for
one, a comma at the depth of the list makes the next place, and the end of a statement at that depth
ends the list. But the slot is taken over by a list that begins deeper inside, and it is emptied
when the list may have been the head of a loop: at `in` and at `of`. So a list goes on after an
initialiser exactly when none of these stands in it.
-/

namespace Minify.Tracker

/-- A list of `var` stands at a depth, and waits for a name or does not. -/
def Lists (depth : Nat) (expect : Bool) (s : Tracker) : Prop :=
  s.declaration = some ⟨.hoisted, depth, expect⟩

/-- A keyword that is no property and no name of one. -/
structure ReadsKeyword (s : Tracker) (site : Site) (k : Keyword) : Prop where
  kind : site.token.kind = .keyword k
  notProperty : afterDot s.before = false
  notPrivate : prevIs s.before "#" = false
  notKey : s.atKey = false

/-- An `of` that would be a variable but for the list. -/
structure ReadsOf (s : Tracker) (site : Site) : Prop where
  kind : site.token.kind = .identifier
  text : site.token.text = "of"
  notProperty : afterDot s.before = false
  notPrivate : prevIs s.before "#" = false
  notDeclared : s.takeSlot = none
  notKey : s.atKey = false
  notTarget : prevKeyword? s.before = some .kwBreak ∨ prevKeyword? s.before = some .kwContinue →
    site.newline = true
  notClass : prevKeyword? s.before ≠ some .kwClass
  notFunction : s.functionName ≠ none →
    s.before.head?.any
      (fun p => p.token.isKeyword .kwFunction || p.token.isPunct "*") = false

def listKind? : Keyword → Option DeclKind
  | .kwVar => some .hoisted
  | .kwLet | .kwConst => some .lexical
  | _ => none

/-- What reading a site can make of the list. -/
inductive Relists (s : Tracker) (site : Site) : Option Declaration → Prop
  | same : Relists s site s.declaration
  | taken {d : Declaration} (h : s.declaration = some d) (he : d.expect = true) :
      Relists s site (some { d with expect := false })
  | abandoned (h : s.declaring true = true) : Relists s site none
  | ended (h : site.token.isPunct ";" = true ∨ ∃ c, Site.bracket site.token = .closes c) :
      Relists s site (s.endDeclarations s.depth).declaration
  | renewed (h : site.token.isPunct "," = true) : Relists s site s.renewDeclaration.declaration
  | begun {k : Keyword} {kind : DeclKind} (h : ReadsKeyword s site k) (hk : listKind? k
    = some kind) :
      Relists s site (some ⟨kind, s.depth, true⟩)
  | loop (h : ReadsKeyword s site .kwIn ∨ ReadsOf s site) (hd : s.declaring false = true) :
      Relists s site none

/-- What loses the list at a depth: a line end or a semicolon that ends its statement, a list that
begins anywhere inside, and what would end the head of a loop. -/
inductive Drops (depth : Nat) (s : Tracker) (site : Site) : Prop
  | lineEnd (hd : s.depth = depth) (hh : s.closedHeader = false)
      (he : endsStatement s.before site = true)
  | semicolon (hd : s.depth = depth) (h : site.token.isPunct ";" = true)
  | list {k : Keyword} {kind : DeclKind} (hk : listKind? k = some kind)
      (h : ReadsKeyword (s.prepare site) site k)
  | loop (hd : s.depth = depth)
      (h : ReadsKeyword (s.prepare site) site .kwIn ∨ ReadsOf (s.prepare site) site)

variable {s t : Tracker} {site : Site} {next : Option Token} {depth : Nat} {expect : Bool}

/-! ### Parts of a step -/

lemma declaration_declare (site : Site) (kind : DeclKind) (shorthand : Bool) :
    (s.declare site kind shorthand).declaration = s.declaration := by
  cases kind <;> rfl

lemma declaration_beginBody (t : Token) : (s.beginBody t).declaration = s.declaration := by
  have h := beginBody_cases s t
  generalize s.beginBody t = u at h ⊢
  cases h <;> rfl

lemma declaration_key (site : Site) (next : Option Token) :
    (s.key site next).declaration = s.declaration := by
  have h := key_cases s site next
  generalize s.key site next = t at h ⊢
  cases h with
  | binding => exact declaration_declare _ _ _
  | _ => rfl

lemma declaration_takeSlot {kind : DeclKind} (h : s.takeSlot = some (kind, t)) :
    Relists s site t.declaration := by
  cases takeSlot_cases h with
  | pattern => exact .same
  | list hd _ hexpect => exact .taken hd hexpect

lemma declaration_abandonDeclaration : s.abandonDeclaration.declaration = s.declaration ∨
    s.declaring true = true ∧ s.abandonDeclaration.declaration = none := by
  unfold abandonDeclaration
  split
  · exact .inr ⟨‹_›, rfl⟩
  · exact .inl rfl

lemma declaration_leave (f : Frame) (next : Option Token) :
    (s.leave f next).declaration = s.declaration := by
  have h := leave_cases s f next
  generalize s.leave f next = t at h ⊢
  cases h <;> rfl

lemma declaration_endBlock (next : Option Token) :
    (s.endBlock next).declaration = s.declaration := by
  have h := endBlock_cases s next
  generalize s.endBlock next = t at h ⊢
  cases h <;> rfl

lemma declaration_close (next : Option Token) : (s.close next).declaration = s.declaration ∨
    (s.close next).declaration = (s.endDeclarations s.depth).declaration := by
  have hframe {around : Frame} {outer : List Frame} (ho : s.outer = around :: outer) :
      (s.closeFrame around outer next).declaration = (s.endDeclarations s.depth).declaration := by
    have hdepth := depth_of_outer ho (stack_closeFrame ho next)
    have hleft : ((s.pop around outer).leave s.top next).declaration = s.declaration :=
      declaration_leave _ _
    have hdepth' : ((s.pop around outer).leave s.top next).depth + 1 = s.depth := hdepth
    change (((s.pop around outer).leave s.top next).declaration.filter _) = _
    rw [hleft, hdepth']
    rfl
  have h := close_cases s next
  generalize s.close next = t at h ⊢
  cases h with
  | root => exact .inl rfl
  | frame ho => exact .inr (hframe ho)
  | braces ho => exact .inr ((declaration_endBlock next).trans (hframe ho))

lemma declaration_openParen (site : Site) : (s.openParen site).declaration = s.declaration := by
  have h := openParen_cases s site
  generalize s.openParen site = t at h ⊢
  cases h <;> rfl

lemma declaration_colon : s.colon.declaration = s.declaration := by
  have h := colon_cases s
  generalize s.colon = t at h ⊢
  cases h <;> rfl

lemma declaration_arrow (next : Option Token) : (s.arrow next).declaration = s.declaration := by
  have h := arrow_cases s next
  generalize s.arrow next = t at h ⊢
  cases h <;> rfl

/-! ### Reading a site -/

lemma relists_keyword {k : Keyword} (h : ReadsKeyword s site k) :
    Relists s site (s.abandonDeclaration.keyword site next k).declaration := by
  have habandon : Relists s site s.abandonDeclaration.declaration := by
    rcases declaration_abandonDeclaration (s := s) with he | ⟨hd, he⟩
    · exact he ▸ .same
    · exact he ▸ .abandoned hd
  have hdepth : s.abandonDeclaration.depth = s.depth := level_abandonDeclaration.depth
  have hcases := keyword_cases s.abandonDeclaration site next k
  generalize s.abandonDeclaration.keyword site next k = t at hcases ⊢
  cases hcases with
  | var =>
    rw [hdepth]
    exact .begun h rfl
  | list hk =>
    rw [hdepth]
    rcases hk with rfl | rfl <;> exact .begun h rfl
  | propertyLoop hin =>
    rcases declaration_abandonDeclaration (s := s) with he | ⟨hd, -⟩
    · refine .loop (.inl h) ?_
      unfold declaring at hin ⊢
      rwa [he, hdepth] at hin
    · exact .abandoned hd
  | _ => exact habandon

lemma relists_identifier (hi : site.token.kind = .identifier) (hm : NamesNoMember s)
    (hslot : s.takeSlot = none) (hkey : s.atKey = false) :
    Relists s site (s.identifier site next).declaration := by
  have h := identifier_cases s site next
  generalize s.identifier site next = t at h ⊢
  cases h with
  | classDeclaration =>
    rw [declaration_declare]
    exact .same
  | @functionName _ declaration => cases declaration <;> exact .same
  | between hn htext hd =>
    exact .loop (.inr ⟨hi, htext, hm.notProperty, hm.notPrivate, hslot, hkey, hn.notTarget,
      hn.notClass, hn.notFunction⟩) hd
  | parameter =>
    rw [declaration_declare]
    exact .same
  | _ => exact .same

lemma relists_word (hw : site.token.isWord = true) :
    Relists s site (s.word site next).declaration := by
  have h := word_cases s site next
  generalize s.word site next = t at h ⊢
  cases h with
  | member => exact .same
  | privateKey =>
    rw [declaration_key]
    exact .same
  | keywordKey =>
    rw [declaration_key]
    rcases declaration_abandonDeclaration (s := s) with he | ⟨hd, he⟩
    · exact he ▸ .same
    · exact he ▸ .abandoned hd
  | keyword hk hm hkey => exact relists_keyword ⟨hk, hm.notProperty, hm.notPrivate, hkey⟩
  | slot _ hslot =>
    rw [declaration_declare]
    exact declaration_takeSlot hslot
  | key =>
    rw [declaration_key]
    exact .same
  | identifier hk hm hslot hkey => exact relists_identifier (kind_of_isWord hw hk) hm hslot hkey

lemma relists_openBrace : Relists s site s.openBrace.declaration := by
  have h := openBrace_cases s
  generalize s.openBrace = t at h ⊢
  cases h with
  | pattern _ hslot =>
    have hslot : Relists s site _ := declaration_takeSlot hslot
    exact hslot
  | _ => exact .same

lemma relists_openSquare : Relists s site s.openSquare.declaration := by
  have h := openSquare_cases s
  generalize s.openSquare = t at h ⊢
  cases h with
  | pattern hslot =>
    have hslot : Relists s site _ := declaration_takeSlot hslot
    exact hslot
  | _ => exact .same

lemma relists_punctuator (hp : site.token.kind = .punctuator) :
    Relists s site (s.punctuator site next).declaration := by
  have hclose (hb : ∃ c, Site.bracket site.token = .closes c) :
      Relists s site (s.close next).declaration := by
    rcases declaration_close (s := s) next with he | he
    · exact he ▸ .same
    · exact he ▸ .ended (.inr hb)
  have h := punctuator_cases s site next
  generalize s.punctuator site next = t at h ⊢
  cases h with
  | openBrace => exact relists_openBrace
  | openSquare => exact relists_openSquare
  | openParen =>
    rw [declaration_openParen]
    exact .same
  | close ht => exact hclose (closes_of_mem hp ht)
  | endStatement ht => exact .ended (.inl (by simp [Token.isPunct, hp, ht]))
  | comma ht => exact .renewed (by simp [Token.isPunct, hp, ht])
  | colon =>
    rw [declaration_colon]
    exact .same
  | arrow =>
    rw [declaration_arrow]
    exact .same
  | operator =>
    rcases declaration_abandonDeclaration (s := s) with he | ⟨hd, he⟩
    · exact he ▸ .same
    · exact he ▸ .abandoned hd
  | _ => exact .same

/-- **What a token does to the list in progress.** -/
theorem relists_read (s : Tracker) (site : Site) (next : Option Token) :
    Relists s site (s.read site next).declaration := by
  have h := read_cases s site next
  generalize s.read site next = t at h ⊢
  cases h with
  | punctuator hk => exact relists_punctuator hk
  | word hw => exact relists_word hw
  | key =>
    rw [declaration_key]
    exact .same
  | templateTail hk =>
    rcases declaration_close (s := s) next with he | he
    · exact he ▸ .same
    · exact he ▸ .ended (.inr ⟨'\x7d', by simp [Site.bracket, hk]⟩)
  | _ => exact .same

/-! ### One list -/

lemma Relists.exists_lists {d : Option Declaration} (h : Relists s site d)
    (hd : d = some ⟨.hoisted, depth, expect⟩) :
    (∃ e, Lists depth e s) ∨ s.depth = depth ∧ ReadsKeyword s site .kwVar := by
  cases h with
  | same => exact .inl ⟨expect, hd⟩
  | @taken d h he =>
    obtain ⟨kind, place, e⟩ := d
    cases hd
    exact .inl ⟨e, h⟩
  | abandoned h => cases hd
  | ended h =>
    obtain ⟨hold, -⟩ := Option.filter_eq_some_iff.mp hd
    exact .inl ⟨expect, hold⟩
  | renewed h =>
    obtain ⟨⟨kind, place, e⟩, hold, hnew⟩ := Option.map_eq_some_iff.mp hd
    refine .inl ⟨e, ?_⟩
    split at hnew <;> cases hnew <;> exact hold
  | @begun k kind h hk =>
    cases hd
    have hvar : k = .kwVar := by cases k <;> simp [listKind?] at hk ⊢
    exact .inr ⟨rfl, hvar ▸ h⟩
  | loop h hd' => cases hd

lemma declaration_prepare (s : Tracker) (site : Site) : (s.prepare site).declaration
    = if !s.closedHeader && endsStatement s.before site then (s.endDeclarations s.depth).declaration
      else s.declaration := by
  unfold prepare
  dsimp only
  rw [declaration_beginBody]
  split <;> rfl

lemma exists_lists_of_step (h : Lists depth expect (s.step site next)) :
    (∃ e, Lists depth e s) ∨ s.depth = depth ∧ ReadsKeyword (s.prepare site) site .kwVar := by
  have hread : Lists depth expect ((s.prepare site).read site next) := h
  rcases (relists_read (s.prepare site) site next).exists_lists hread with ⟨e, he⟩ | ⟨hd, hvar⟩
  · unfold Lists at he
    rw [declaration_prepare] at he
    split at he
    · exact .inl ⟨e, (Option.filter_eq_some_iff.mp he).1⟩
    · exact .inl ⟨e, he⟩
  · exact .inr ⟨(level_prepare site).depth ▸ hd, hvar⟩

/-- The end of a statement deeper inside does not end the list. -/
lemma Lists.endDeclarations (h : Lists depth expect s) (hd : depth < s.depth) :
    Lists depth expect (s.endDeclarations s.depth) := by
  change s.declaration.filter _ = _
  rw [h]
  simp [hd]

lemma Lists.prepare (h : Lists depth expect s) (hd : depth ≤ s.depth)
    (hline : s.depth = depth → s.closedHeader = false → endsStatement s.before site = false) :
    Lists depth expect (s.prepare site) := by
  unfold Lists
  rw [declaration_prepare]
  split
  · rename_i hends
    simp only [Bool.and_eq_true, Bool.not_eq_true'] at hends
    have hdeep : depth ≠ s.depth := by
      rintro rfl
      rw [hline rfl hends.1] at hends
      cases hends.2
    exact h.endDeclarations (Nat.lt_of_le_of_ne hd hdeep)
  · exact h

/-- **A token that does not drop the list leaves it as it is.** -/
lemma Lists.step (h : Lists depth false s) (hd : depth ≤ s.depth)
    (hcloses : ∀ c, Site.bracket site.token = .closes c → depth < s.depth)
    (hcomma : site.token.isPunct "," = true → depth < s.depth) (hdrops : ¬Drops depth s site) :
    Lists depth false (s.step site next) := by
  have hp : Lists depth false (s.prepare site) := h.prepare hd fun hhere hheader =>
    Bool.eq_false_iff.mpr fun hends => hdrops (.lineEnd hhere hheader hends)
  have hdepth : (s.prepare site).depth = s.depth := (level_prepare site).depth
  have hexpect : (s.prepare site).declaring true = false := by
    unfold declaring
    rw [hp]
    simp
  change ((s.prepare site).read site next).declaration = _
  generalize hr : ((s.prepare site).read site next).declaration = r
  have hread : Relists (s.prepare site) site r := hr ▸ relists_read (s.prepare site) site next
  cases hread with
  | same => exact hp
  | taken hold he =>
    cases hp.symm.trans hold
    cases he
  | abandoned hw =>
    rw [hexpect] at hw
    cases hw
  | ended he =>
    refine hp.endDeclarations ?_
    rw [hdepth]
    rcases he with hsemi | ⟨c, hc⟩
    · exact Nat.lt_of_le_of_ne hd fun he => hdrops (.semicolon he.symm hsemi)
    · exact hcloses c hc
  | renewed hc =>
    have hne : ¬depth = (s.prepare site).depth := by
      rw [hdepth]
      exact Nat.ne_of_lt (hcomma hc)
    change (s.prepare site).declaration.map _ = _
    rw [hp]
    simp [hne]
  | begun hk hkind => exact absurd (.list hkind hk) hdrops
  | loop hk hin =>
    unfold declaring at hin
    rw [hp] at hin
    have hhere : depth = (s.prepare site).depth := by simpa using hin
    exact absurd (.loop (hdepth ▸ hhere.symm) hk) hdrops

lemma not_drops (hn : site.newline = false) (hp : site.token.isPunct ";" = false)
    (hk : ∀ k ∈ [Keyword.kwVar, .kwLet, .kwConst, .kwIn], site.token.isKeyword k = false)
    (hi : site.token.isIdent "of" = false) : ¬Drops depth s site := by
  have hkeyword {s : Tracker} {k : Keyword} (hmem : k ∈ [Keyword.kwVar, .kwLet, .kwConst, .kwIn])
      (h : ReadsKeyword s site k) : False := by
    have hnot := hk k hmem
    simp [Token.isKeyword, h.kind] at hnot
  intro h
  cases h with
  | lineEnd hd hh he => simp [endsStatement, hn] at he
  | semicolon hd h =>
    rw [hp] at h
    cases h
  | @list k kind hkind h => exact hkeyword (by cases k <;> simp [listKind?] at hkind ⊢) h
  | loop hd h =>
    rcases h with h | h
    · exact hkeyword (by simp) h
    · simp [Token.isIdent, h.kind, h.text] at hi

lemma read_of_readsKeyword {k : Keyword} (h : ReadsKeyword s site k) (next : Option Token) :
    s.read site next = s.abandonDeclaration.keyword site next k := by
  have hkey : s.abandonDeclaration.atKey = false := abandonDeclaration_keeps.2.2.trans h.notKey
  simp [read, h.kind, word, h.notProperty, h.notPrivate, hkey]

lemma read_of_readsOf (h : ReadsOf s site) (hd : s.declaring false = true) (next : Option Token) :
    s.read site next = { s with declaration := none } := by
  have hnames : NamesNothing s site := ⟨h.notTarget, h.notClass, h.notFunction⟩
  have hidentifier : s.identifier site next = { s with declaration := none } := by
    rw [hnames.identifier_eq, if_pos (by simp [h.text, hd])]
  simp [read, h.kind, word, h.notProperty, h.notPrivate, h.notDeclared, h.notKey, hidentifier]

lemma Lists.endDeclarations_eq_none (h : Lists depth expect s) (hd : s.depth = depth) :
    (s.endDeclarations s.depth).declaration = none := by
  change s.declaration.filter _ = _
  rw [h]
  simp [hd]

/-- **A token that drops the list loses it.** -/
lemma Lists.not_lists_step (h : Lists depth false s) (hd : depth ≤ s.depth)
    (hdrops : Drops depth s site)
    (hvar : s.depth = depth → ¬ReadsKeyword (s.prepare site) site .kwVar) (e : Bool) :
    ¬Lists depth e (s.step site next) := by
  have hdepth : (s.prepare site).depth = s.depth := (level_prepare site).depth
  intro hstep
  have hstep : ((s.prepare site).read site next).declaration = some ⟨.hoisted, depth, e⟩ := hstep
  by_cases hline : s.depth = depth ∧ s.closedHeader = false ∧ endsStatement s.before site = true
  · -- the statement has ended before the token is read
    obtain ⟨hhere, hh, he⟩ := hline
    rcases (relists_read (s.prepare site) site next).exists_lists hstep with ⟨e', he'⟩ | ⟨-, hkw⟩
    · unfold Lists at he'
      rw [declaration_prepare, hh, he, h.endDeclarations_eq_none hhere] at he'
      cases he'
    · exact hvar hhere hkw
  · have hp : Lists depth false (s.prepare site) := h.prepare hd fun hhere hheader =>
      Bool.eq_false_iff.mpr fun hends => hline ⟨hhere, hheader, hends⟩
    have hin (hhere : s.depth = depth) : (s.prepare site).declaring false = true := by
      unfold declaring
      rw [hp, hdepth, hhere]
      simp
    cases hdrops with
    | lineEnd hhere hh he => exact hline ⟨hhere, hh, he⟩
    | semicolon hhere hsemi =>
      simp only [Token.isPunct, Bool.and_eq_true, beq_iff_eq] at hsemi
      have hread : (s.prepare site).read site next = (s.prepare site).endStatement := by
        simp [read, hsemi.1, punctuator, hsemi.2]
      have hnone : (s.prepare site).endStatement.declaration = none :=
        hp.endDeclarations_eq_none (hdepth.trans hhere)
      rw [hread, hnone] at hstep
      cases hstep
    | @list k kind hk hkw =>
      have hread : ((s.prepare site).abandonDeclaration.keyword site next k).declaration
          = some ⟨kind, s.depth, true⟩ := by
        have hdepth' : (s.prepare site).abandonDeclaration.depth = s.depth :=
          level_abandonDeclaration.depth.trans hdepth
        cases k <;> simp [listKind?] at hk <;> subst hk <;> simp [keyword, hdepth']
      rw [read_of_readsKeyword hkw, hread] at hstep
      cases hstep
      have hk : k = .kwVar := by cases k <;> simp [listKind?] at hk ⊢
      exact hvar rfl (hk ▸ hkw)
    | loop hhere hkw =>
      have hread : ((s.prepare site).read site next).declaration = none := by
        rcases hkw with hkw | hof
        · have hsame : (s.prepare site).abandonDeclaration = s.prepare site := by
            unfold abandonDeclaration declaring
            rw [hp]
            simp
          rw [read_of_readsKeyword hkw, hsame]
          simp [keyword, hin hhere]
        · rw [read_of_readsOf hof (hin hhere)]
      rw [hread] at hstep
      cases hstep

end Minify.Tracker
