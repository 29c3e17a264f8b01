import Mathlib.Tactic.Common
import Minify.Proofs.TreeShape

/-!
Scopes that names made at run time may reach into.

A `with` statement and a use of `eval` mark the scope they stand in and those around it, and no
other token marks anything. Scopes are added inside others and names are bound in them, but the way
outwards from a scope stays. So in the end the marked scopes are those with one of the two somewhere
inside.
-/

namespace Minify

namespace Tracker

/-- The site is the keyword of a `with` statement. -/
structure StartsWith (s : Tracker) (site : Site) : Prop where
  kind : site.token.kind = .keyword .kwWith
  notProperty : afterDot s.before = false
  notPrivate : prevIs s.before "#" = false
  notKey : s.atKey = false

/-- The site is a use of `eval`: it neither declares the name nor names a property or a label. A
property `\x7beval\x7d` only hands the function on, and called by another name it does not see the
variables here. -/
structure UsesEval (s : Tracker) (site : Site) (next : Option Token) : Prop where
  kind : site.token.kind = .identifier
  text : site.token.text = "eval"
  notProperty : afterDot s.before = false
  notPrivate : prevIs s.before "#" = false
  notDeclared : s.takeSlot = none
  notKey : s.atKey = false
  notTarget : prevKeyword? s.before = some .kwBreak ∨ prevKeyword? s.before = some .kwContinue →
    site.newline = true
  notClass : prevKeyword? s.before ≠ some .kwClass
  notFunction : s.functionName ≠ none →
    s.before.head?.any
      (fun p => p.token.isKeyword .kwFunction || p.token.isPunct "*") = false
  notLabel : nextIs next ":" = true → s.top.ternary = 0 → prevKeyword? s.before = some .kwCase
  notParameter : nextIs next "=>" = false

/-- The site opens the scopes around it to names made at run time. -/
def Exposes (s : Tracker) (site : Site) (next : Option Token) : Prop :=
  StartsWith s site ∨ UsesEval s site next

def marked (s : Tracker) (id : ScopeId) : Bool := (s.scopes[id]?).any Scope.hasEval

/-- The marks stay as they are. -/
def SameMarks (s t : Tracker) : Prop := ∀ id, t.marked id = s.marked id

variable {s t u : Tracker} {site : Site} {next : Option Token}

/-! ### Moves that mark nothing -/

lemma SameMarks.of_eq (h : t.scopes = s.scopes) : SameMarks s t := fun id => by
  rw [marked, h, marked]

lemma SameMarks.trans (h : SameMarks s t) (h' : SameMarks t u) : SameMarks s u :=
  fun id => (h' id).trans (h id)

lemma SameMarks.of_push {parent : Option ScopeId} {kind : ScopeKind}
    (h : t.scopes = s.scopes.push ⟨parent, kind, [], false⟩) : SameMarks s t := by
  intro id
  rw [marked, h, Array.getElem?_push, marked]
  split
  · rename_i hid
    rw [hid, Array.getElem?_size]
    rfl
  · rfl

lemma sameMarks_declareIn (site : Site) (target scope : ScopeId) (shorthand : Bool) :
    SameMarks s (s.declareIn site target scope shorthand) := by
  intro id
  rw [marked, getElem?_declareIn, marked]
  split
  · cases s.scopes[id]? with
    | none => rfl
    | some sc => exact hasEval_bind sc site.token.text
  · rfl

lemma sameMarks_declare (site : Site) (kind : DeclKind) (shorthand : Bool) :
    SameMarks s (s.declare site kind shorthand) := by
  cases kind <;> exact sameMarks_declareIn _ _ _ _

lemma sameMarks_endStatement : SameMarks s s.endStatement := .of_eq rfl

lemma sameMarks_takeSlot {kind : DeclKind} (h : s.takeSlot = some (kind, t)) : SameMarks s t :=
  .of_eq (takeSlot_keeps h).1

lemma sameMarks_key (site : Site) (next : Option Token) : SameMarks s (s.key site next) := by
  have hkey : SameMarks s (s.setTop fun f => { f with atKey := false }) := .of_eq rfl
  have h := key_cases s site next
  generalize s.key site next = t at h ⊢
  cases h with
  | staticBlock => exact .of_push rfl
  | modifier => exact .of_eq rfl
  | method => exact .of_push rfl
  | binding => exact hkey.trans (sameMarks_declare _ _ _)
  | shorthand => exact .of_eq rfl
  | plain => exact hkey

lemma sameMarks_openBrace : SameMarks s s.openBrace := by
  have h := openBrace_cases s
  generalize s.openBrace = t at h ⊢
  cases h with
  | loopBody => exact .of_push rfl
  | pattern _ hslot => exact (sameMarks_takeSlot hslot).trans (.of_eq rfl)
  | block => exact .of_push rfl
  | _ => exact .of_eq rfl

lemma sameMarks_openSquare : SameMarks s s.openSquare := by
  have h := openSquare_cases s
  generalize s.openSquare = t at h ⊢
  cases h with
  | pattern hslot => exact (sameMarks_takeSlot hslot).trans (.of_eq rfl)
  | _ => exact .of_eq rfl

lemma sameMarks_openParen (site : Site) : SameMarks s (s.openParen site) := by
  have h := openParen_cases s site
  generalize s.openParen site = t at h ⊢
  cases h with
  | forHead => exact .of_push rfl
  | arrowParams => exact .of_push rfl
  | _ => exact .of_eq rfl

lemma sameMarks_leave (f : Frame) (next : Option Token) : SameMarks s (s.leave f next) := by
  have h := leave_cases s f next
  generalize s.leave f next = t at h ⊢
  cases h with
  | method => exact .of_push rfl
  | _ => exact .of_eq rfl

lemma sameMarks_endBlock (next : Option Token) : SameMarks s (s.endBlock next) :=
  .of_eq (settles_endBlock next).scopes

lemma sameMarks_close (next : Option Token) : SameMarks s (s.close next) := by
  have hframe (around : Frame) (outer : List Frame) :
      SameMarks s (s.closeFrame around outer next) := by
    have hpop : SameMarks s (s.pop around outer) := .of_eq rfl
    exact (hpop.trans (sameMarks_leave s.top next)).trans (.of_eq rfl)
  have h := close_cases s next
  generalize s.close next = t at h ⊢
  cases h with
  | root => exact .of_eq rfl
  | frame => exact hframe _ _
  | braces => exact (hframe _ _).trans (sameMarks_endBlock next)

lemma sameMarks_arrow (next : Option Token) : SameMarks s (s.arrow next) := by
  have h := arrow_cases s next
  generalize s.arrow next = t at h ⊢
  cases h <;> exact .of_eq rfl

lemma sameMarks_punctuator (site : Site) (next : Option Token) :
    SameMarks s (s.punctuator site next) := by
  have h := punctuator_cases s site next
  generalize s.punctuator site next = t at h ⊢
  cases h with
  | openBrace => exact sameMarks_openBrace
  | openSquare => exact sameMarks_openSquare
  | openParen => exact sameMarks_openParen site
  | close => exact sameMarks_close next
  | endStatement => exact sameMarks_endStatement
  | colon => exact .of_eq settles_colon.scopes
  | arrow => exact sameMarks_arrow next
  | operator => exact .of_eq abandonDeclaration_keeps.1
  | _ => exact .of_eq rfl

lemma sameMarks_prepare (site : Site) : SameMarks s (s.prepare site) := by
  have hbody (t : Tracker) : SameMarks t (t.beginBody site.token) :=
    .of_eq (settles_beginBody site.token).scopes
  unfold prepare
  dsimp only
  split
  · exact SameMarks.trans (.of_eq rfl) (hbody _)
  · exact SameMarks.trans (.of_eq rfl) (hbody _)

/-! ### Words -/

lemma sameMarks_keyword (site : Site) (next : Option Token) {k : Keyword} (hk : k ≠ .kwWith) :
    SameMarks s (s.keyword site next k) := by
  have h := keyword_cases s site next k
  generalize s.keyword site next k = t at h ⊢
  cases h with
  | function => exact .of_push rfl
  | catchParam => exact .of_push rfl
  | catchBody => exact .of_push rfl
  | withHead => exact absurd rfl hk
  | _ => exact .of_eq rfl

/-- An identifier that marks scopes is a use of `eval`. -/
lemma sameMarks_identifier (hi : site.token.kind = .identifier) (hm : NamesNoMember s)
    (hslot : s.takeSlot = none) (hkey : s.atKey = false) (h : ¬UsesEval s site next) :
    SameMarks s (s.identifier site next) := by
  have hcases := identifier_cases s site next
  generalize s.identifier site next = t at hcases ⊢
  cases hcases with
  | classDeclaration => exact sameMarks_declare _ _ _
  | @functionName _ declaration =>
    cases declaration <;> exact SameMarks.trans (.of_eq rfl) (sameMarks_declareIn _ _ _ _)
  | parameter => exact SameMarks.trans (.of_push rfl) (sameMarks_declare _ _ _)
  | eval hn htext hlabel hparameter =>
    exact absurd ⟨hi, htext, hm.notProperty, hm.notPrivate, hslot, hkey, hn.notTarget, hn.notClass,
      hn.notFunction, hlabel, hparameter⟩ h
  | _ => exact .of_eq rfl

lemma sameMarks_word (hw : site.token.isWord = true) (h : ¬Exposes s site next) :
    SameMarks s (s.word site next) := by
  have habandon : SameMarks s s.abandonDeclaration := .of_eq abandonDeclaration_keeps.1
  have hcases := word_cases s site next
  generalize s.word site next = t at hcases ⊢
  cases hcases with
  | member => exact .of_eq rfl
  | privateKey => exact sameMarks_key site next
  | keywordKey => exact habandon.trans (sameMarks_key site next)
  | keyword hk hm hkey =>
    refine habandon.trans (sameMarks_keyword site next ?_)
    rintro rfl
    exact h (.inl ⟨hk, hm.notProperty, hm.notPrivate, hkey⟩)
  | slot _ hslot => exact (sameMarks_takeSlot hslot).trans (sameMarks_declare _ _ _)
  | key => exact sameMarks_key site next
  | identifier hk hm hslot hkey =>
    exact sameMarks_identifier (kind_of_isWord hw hk) hm hslot hkey fun he => h (.inr he)

/-! ### Tokens -/

lemma sameMarks_read (h : ¬Exposes s site next) : SameMarks s (s.read site next) := by
  have hcases := read_cases s site next
  generalize s.read site next = t at hcases ⊢
  cases hcases with
  | punctuator => exact sameMarks_punctuator site next
  | word hw => exact sameMarks_word hw h
  | key => exact sameMarks_key site next
  | templateTail => exact sameMarks_close next
  | _ => exact .of_eq rfl

lemma scopes_markEval_congr (hs : t.scopes = s.scopes) (hc : t.current = s.current) :
    t.markEval.scopes = s.markEval.scopes := by
  unfold markEval
  rw [hs, hc]

lemma UsesEval.identifier_eq (h : UsesEval s site next) :
    s.identifier site next = s.markEval.mention site s.current false := by
  have hnames : NamesNothing s site := ⟨h.notTarget, h.notClass, h.notFunction⟩
  have hlabel : (nextIs next ":" && s.top.ternary = 0
      && prevKeyword? s.before != some .kwCase) = false := by
    have hlabel := h.notLabel
    grind
  rw [hnames.identifier_eq, if_neg (by rw [h.text]; simp), if_neg (Bool.eq_false_iff.mp hlabel),
    if_neg (by simp [h.notParameter]), if_pos (by rw [h.text]; rfl)]

/-- A `with` and a use of `eval` mark the current scope and those around it. -/
lemma Exposes.scopes_read (h : Exposes s site next) :
    (s.read site next).scopes = s.markEval.scopes := by
  rcases h with ⟨hk, hdot, hprivate, hkey⟩ | h
  · obtain ⟨hs, hc, hkey'⟩ := abandonDeclaration_keeps (s := s)
    simp only [read, hk, word, hdot, hprivate, Bool.false_eq_true, if_false, hkey', hkey, keyword]
    exact scopes_markEval_congr hs hc
  · simp only [read, h.kind, word, h.notProperty, h.notPrivate, Bool.false_eq_true, if_false,
      h.notDeclared, h.notKey, h.identifier_eq]
    rfl

lemma marked_markEval (hc : s.current < s.scopes.size) {id : ScopeId} :
    s.markEval.marked id = true ↔
      s.marked id = true ∨ id ∈ Scope.ancestors s.scopes s.current := by
  unfold marked
  rw [getElem?_markEval]
  cases hsc : s.scopes[id]? with
  | none =>
    have hid := Array.getElem?_eq_none_iff.mp hsc
    have hnot : id ∉ Scope.ancestors s.scopes s.current := fun hmem => by
      have hle := Scope.le_of_mem_ancestors hmem
      exact Nat.not_le.mpr (Nat.lt_of_le_of_lt hle hc) hid
    simp [hnot]
  | some sc => simp

/-- A token marks the scopes it opens to names made at run time, and no other. -/
lemma marked_step (hs : Bounded s) (site : Site) (next : Option Token) {id : ScopeId} :
    (s.step site next).marked id = true ↔ s.marked id = true ∨
      Exposes (s.prepare site) site next ∧
        id ∈ Scope.ancestors (s.prepare site).scopes (s.prepare site).current := by
  have hprepare := sameMarks_prepare (s := s) site id
  have hread : (s.step site next).marked id = ((s.prepare site).read site next).marked id := rfl
  rw [hread, ← hprepare]
  by_cases h : Exposes (s.prepare site) site next
  · have hcur : (s.prepare site).current < (s.prepare site).scopes.size :=
      ((quiet_prepare site).bounded hs).live _ .current
    unfold marked
    rw [h.scopes_read, ← marked, marked_markEval hcur, marked]
    simp [h]
  · rw [sameMarks_read h id]
    simp [h]

/-- The scopes opened to names made at run time while some sites are read, in the tree that they
lead to. -/
def ExposedIn (s : Tracker) (next : Option Token) (sites : List Site) (id : ScopeId) : Prop :=
  ∃ before site rest, sites = before ++ site :: rest ∧
    Exposes ((s.readAll (some site.token) before).prepare site) site
      ((rest.head?.map Site.token).or next) ∧
    id ∈ Scope.ancestors (s.readAll next sites).scopes
      ((s.readAll (some site.token) before).prepare site).current

lemma exposedIn_cons {rest : List Site} {id : ScopeId} :
    ExposedIn s next (site :: rest) id ↔
      (Exposes (s.prepare site) site ((rest.head?.map Site.token).or next) ∧
        id ∈ Scope.ancestors (s.readAll next (site :: rest)).scopes (s.prepare site).current) ∨
      ExposedIn (s.step site ((rest.head?.map Site.token).or next)) next rest id := by
  have hnext (before : List Site) (x : Site) (after : List Site) :
      ((before ++ x :: after).head?.map Site.token).or next
        = (before.head?.map Site.token).or (some x.token) := by
    rw [List.head?_append, Option.map_or, Option.or_assoc]
    rfl
  constructor
  · rintro ⟨before, x, after, hsites, hexposes, hid⟩
    cases before with
    | nil =>
      cases hsites
      exact .inl ⟨hexposes, hid⟩
    | cons y before =>
      rw [List.cons_append] at hsites
      obtain ⟨rfl, rfl⟩ := List.cons.inj hsites
      refine .inr ⟨before, x, after, rfl, ?_⟩
      simp only [readAll, hnext] at hexposes hid ⊢
      exact ⟨hexposes, hid⟩
  · rintro (⟨hexposes, hid⟩ | ⟨before, x, after, rfl, hexposes, hid⟩)
    · exact ⟨[], site, rest, rfl, hexposes, hid⟩
    · refine ⟨site :: before, x, after, rfl, ?_⟩
      simp only [readAll, hnext] at hexposes hid ⊢
      exact ⟨hexposes, hid⟩

/-- What some sites mark, they open to names made at run time. -/
lemma marked_readAll (hs : Bounded s) (next : Option Token) (sites : List Site) {id : ScopeId} :
    (s.readAll next sites).marked id = true ↔ s.marked id = true ∨ ExposedIn s next sites id := by
  induction sites generalizing s with
  | nil =>
    have hnone : ¬ExposedIn s next [] id := by
      rintro ⟨before, site, rest, hsites, -⟩
      simp at hsites
    simp [hnone, readAll]
  | cons site rest ih =>
    have hstep := (reads_step s site ((rest.head?.map Site.token).or next)).bounded hs
    have hcur : (s.prepare site).current < (s.prepare site).scopes.size :=
      ((quiet_prepare site).bounded hs).live _ .current
    have hgrows : Grows (s.prepare site) (s.readAll next (site :: rest)) :=
      (grows_prepare s site _).trans (grows_readAll _ next rest)
    rw [exposedIn_cons, hgrows.ancestors hcur, readAll, ih hstep, marked_step hs, or_assoc]

end Tracker

namespace ScopeTree

open Tracker

/-- In a scope or inside it stands a `with` statement or a use of `eval`. -/
def Exposed (tokens : List Token) (tree : ScopeTree) (id : ScopeId) : Prop :=
  ∃ before site rest, Site.ofTokens tokens = before ++ site :: rest ∧
    Exposes (reached before site) site (rest.head?.map Site.token) ∧
    id ∈ tree.ancestors (reached before site).current

/-- **The marked scopes** are those with a `with` statement or a use of `eval` in them. -/
theorem hasEval_iff_exposed {tokens : List Token} {tree : ScopeTree}
    (h : ofTokens tokens = .ok tree) (id : ScopeId) :
    (tree.scopes[id]?).any Scope.hasEval = true ↔ Exposed tokens tree id := by
  obtain ⟨hscopes, -⟩ := eq_of_ofTokens h
  rw [run_eq_readAll] at hscopes
  have hrun : (start.readAll none (Site.ofTokens tokens)).marked id = true ↔
      start.marked id = true ∨ ExposedIn start none (Site.ofTokens tokens) id :=
    marked_readAll bounded_start none (Site.ofTokens tokens)
  have hstart : start.marked id = false := by
    cases id <;> rfl
  unfold ExposedIn at hrun
  simp only [hstart, Bool.false_eq_true, false_or, Option.or_none] at hrun
  rw [hscopes, Exposed]
  unfold ScopeTree.ancestors
  rw [hscopes]
  exact hrun

end ScopeTree

end Minify
