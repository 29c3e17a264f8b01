import Mathlib
import Minify.Proofs.ClosingBrace

/-!
Names that are declared past blocks and catch clauses.

A `var` and the declaration of a function wait for names, which go to the nearest function. A
pattern or a list of `let` that is still open around takes a name first, as in `catch (var x)`, and
then it goes to the scope it stands in.
-/

namespace Minify.Tracker

/-- What sends the next identifier to the nearest function: the place of a `var` that it takes, or
else a pattern of a `var` or the declaration of a function. -/
inductive HoistedPlace (s : Tracker) (next : Option Token) : Prop
  | slot {t : Tracker} (h : s.takeSlot = some (.hoisted, t))
  | shorthand {expect : Bool} (h : s.takeSlot = none) (hkey : s.atKey = true)
      (hobject : s.top.kind = .object) (hp : s.top.pattern = some ⟨.hoisted, expect⟩)
      (hnext : nextIs next ":" = false)
  | function {scope : ScopeId} (h : s.takeSlot = none) (hkey : s.atKey = false)
      (hf : s.functionName = some (scope, true))
      (hbefore : s.before.head?.any
        (fun p => p.token.isKeyword .kwFunction || p.token.isPunct "*") = true)

/-- The site is an identifier that goes to the nearest function. -/
structure Hoists (s : Tracker) (site : Site) (next : Option Token) : Prop where
  kind : site.token.kind = .identifier
  notProperty : afterDot s.before = false
  notPrivate : prevIs s.before "#" = false
  place : HoistedPlace s next

/-- The state in which a script's site is read, when the sites before it have been. -/
def reached (before : List Site) (site : Site) : Tracker :=
  (start.readAll (some site.token) before).prepare site

/-- A `var` waits for a name, in its list or in a pattern there, or the declaration of a function
does. -/
inductive ExpectsHoisted (s : Tracker) (next : Option Token) : Prop
  | list (h : s.declaration = some ⟨.hoisted, s.depth, true⟩)
  | pattern (h : s.top.pattern = some ⟨.hoisted, true⟩)
  | shorthand {expect : Bool} (hkey : s.atKey = true) (hobject : s.top.kind = .object)
      (hp : s.top.pattern = some ⟨.hoisted, expect⟩) (hnext : nextIs next ":" = false)
  | function {scope : ScopeId} (hkey : s.atKey = false) (hf : s.functionName = some (scope, true))
      (hbefore : s.before.head?.any
        (fun p => p.token.isKeyword .kwFunction || p.token.isPunct "*") = true)

/-- The site is a name that a `var` or the declaration of a function declares. -/
structure DeclaresHoisted (s : Tracker) (site : Site) (next : Option Token) : Prop where
  kind : site.token.kind = .identifier
  notProperty : afterDot s.before = false
  notPrivate : prevIs s.before "#" = false
  expects : ExpectsHoisted s next

/-- A pattern that does not hoist, or else a list of `let`, takes the next name. -/
inductive LexicalFirst (s : Tracker) : Prop
  | pattern (h : s.top.pattern = some ⟨.lexical, true⟩)
  | list (hp : ∀ kind, s.top.pattern ≠ some ⟨kind, true⟩)
      (h : s.declaration = some ⟨.lexical, s.depth, true⟩)

/-- The site is a `var`, or the `function` of a declaration. -/
structure Introduces (s : Tracker) (site : Site) : Prop where
  keyword : site.token.kind = .keyword .kwVar ∨
    site.token.kind = .keyword .kwFunction ∧ declaresFunction s.colonValue s.before site = true
  notProperty : afterDot s.before = false
  notPrivate : prevIs s.before "#" = false
  notKey : s.atKey = false

variable {s t : Tracker} {site : Site} {next : Option Token}

lemma scopes_declare_hoisted (s : Tracker) (site : Site) (shorthand : Bool) :
    (s.declare site .hoisted shorthand).scopes
      = s.scopes.modify s.hoistTarget fun sc => sc.bind site.token.text := rfl

lemma hoistTarget_congr (hs : t.scopes = s.scopes) (hc : t.current = s.current) :
    t.hoistTarget = s.hoistTarget := by
  unfold hoistTarget
  rw [hs, hc]

/-- A name of `var` or of a function declaration is bound in the nearest function and nowhere
else. -/
lemma Hoists.scopes_read (h : Hoists s site next) :
    (s.read site next).scopes
      = s.scopes.modify s.hoistTarget fun sc => sc.bind site.token.text := by
  obtain ⟨hi, hdot, hprivate, hplace⟩ := h
  simp only [read, hi, word, hdot, hprivate, Bool.false_eq_true, if_false]
  cases hplace with
  | slot h =>
    obtain ⟨hscopes, hcurrent⟩ := takeSlot_keeps h
    rw [h]
    dsimp only
    rw [scopes_declare_hoisted, hoistTarget_congr hscopes hcurrent, hscopes]
  | shorthand h hkey hobject hp hnext =>
    rw [h]
    dsimp only
    rw [if_pos hkey]
    simp [key, hobject, hp, hi, hnext, setTop, scopes_declare_hoisted]
    rfl
  | function h hkey hf hbefore =>
    rw [h]
    dsimp only
    rw [if_neg (by simp [hkey]), identifier_of_functionName hf hbefore]
    rfl

/-! ### Which place takes a name -/

lemma takeSlot_of_pattern {kind : DeclKind} (h : s.top.pattern = some ⟨kind, true⟩) :
    s.takeSlot = some (kind, s.setTop (·.expectName false)) := by
  simp [takeSlot, h]

lemma takeSlot_of_list {kind : DeclKind} (hp : ∀ kind, s.top.pattern ≠ some ⟨kind, true⟩)
    (h : s.declaration = some ⟨kind, s.depth, true⟩) :
    s.takeSlot = some (kind, { s with declaration := some ⟨kind, s.depth, false⟩ }) := by
  unfold takeSlot
  split
  · exact absurd ‹_› (hp _)
  · simp [h]

lemma lexicalFirst_iff : LexicalFirst s ↔ ∃ t, s.takeSlot = some (.lexical, t) := by
  constructor
  · rintro (h | ⟨hp, h⟩)
    · exact ⟨_, takeSlot_of_pattern h⟩
    · exact ⟨_, takeSlot_of_list hp h⟩
  · rintro ⟨t, h⟩
    unfold takeSlot at h
    split at h
    · rename_i kind hpattern
      obtain ⟨rfl, -⟩ := Prod.mk.inj (Option.some.inj h)
      exact .pattern hpattern
    · rename_i hpattern
      split at h
      · rename_i d hd
        obtain ⟨kind, depth, expect⟩ := d
        split at h
        · rename_i hplace
          simp only [Bool.and_eq_true, decide_eq_true_eq] at hplace
          obtain ⟨rfl, -⟩ := Prod.mk.inj (Option.some.inj h)
          obtain ⟨rfl, rfl⟩ := hplace
          exact .list hpattern hd
        · cases h
      · cases h

lemma DeclaresHoisted.scopes_read (h : DeclaresHoisted s site next) (hl : LexicalFirst s) :
    (s.read site next).scopes = s.scopes.modify s.current fun sc => sc.bind site.token.text := by
  obtain ⟨t, hslot⟩ := lexicalFirst_iff.mp hl
  obtain ⟨hscopes, hcurrent⟩ := takeSlot_keeps hslot
  have hread : s.read site next = t.declare site .lexical false := by
    simp only [read, h.kind, word, h.notProperty, h.notPrivate, Bool.false_eq_true, if_false, hslot]
  rw [hread, ← hscopes, ← hcurrent]
  rfl

/-! ### Names right behind a keyword -/

/-- After a word that ends no operand the next site is read as it is. -/
lemma prepare_of_word {k : Site} (hbefore : s.before.head? = some k)
    (hoperand : k.token.endsOperand = false) (hpending : s.pendingBody = none) :
    s.prepare site = { s with closedHeader := false } := by
  have hends : endsStatement s.before site = false := by
    simp [endsStatement, hbefore, hoperand]
  simp only [prepare, hends, Bool.and_false, Bool.false_eq_true, if_false]
  simp [beginBody, hpending]

lemma atKey_abandonDeclaration (s : Tracker) : s.abandonDeclaration.atKey = s.atKey := by
  unfold abandonDeclaration
  split <;> rfl

lemma Introduces.read_eq {k : Keyword} (h : Introduces s site) (hk : site.token.kind = .keyword k) :
    s.read site next = s.abandonDeclaration.keyword site next k := by
  have hkey : s.abandonDeclaration.atKey = false := by rw [atKey_abandonDeclaration, h.notKey]
  simp only [read, hk, word, h.notProperty, h.notPrivate, Bool.false_eq_true, if_false, hkey]

lemma Introduces.read_var (h : Introduces s site) (hk : site.token.kind = .keyword .kwVar) :
    s.read site next = { s with declaration := some ⟨.hoisted, s.depth, true⟩ } := by
  rw [h.read_eq hk]
  unfold abandonDeclaration
  split <;> rfl

lemma Introduces.read_function (h : Introduces s site) (hk : site.token.kind = .keyword .kwFunction)
    (hd : declaresFunction s.colonValue s.before site = true) :
    (s.read site next).functionName = some (s.scopes.size, true) ∧
      (s.read site next).top = s.top ∧ (s.read site next).pendingBody = s.pendingBody := by
  rw [h.read_eq hk]
  unfold abandonDeclaration
  split <;> exact ⟨congrArg (fun d => some (s.scopes.size, d)) hd, rfl, rfl⟩

/-- **The name right behind `var`**, or behind the `function` of a declaration, is declared there.
-/
theorem Introduces.declares {before : List Site} {k : Site} (h : Introduces (reached before k) k)
    (hi : site.token.kind = .identifier) :
    DeclaresHoisted (reached (before ++ [k]) site) site next := by
  let s := reached before k
  let u := s.read k (some site.token)
  let t : Tracker := { u with before := k :: u.before }
  have hreached : reached (before ++ [k]) site = t.prepare site := by
    rw [reached, readAll_append]
    rfl
  obtain ⟨kw, hk, hnot⟩ : ∃ kw, k.token.kind = .keyword kw ∧ kw.isOperand = false := by
    rcases h.keyword with hk | ⟨hk, -⟩ <;> exact ⟨_, hk, rfl⟩
  have hpunct (p : String) : k.token.isPunct p = false := by simp [Token.isPunct, hk]
  have hoperand : k.token.endsOperand = false := by simp [Token.endsOperand, hk, hnot]
  have hnone : s.pendingBody = none := pendingBody_beginBody _ (hpunct _) (hpunct _)
  have hdot : afterDot t.before = false := by simp [afterDot, t, hpunct]
  have hhash : prevIs t.before "#" = false := by simp [prevIs, t, hpunct]
  rw [hreached]
  rcases h.keyword with hvar | ⟨hfunction, hd⟩
  · have hu : u = { s with declaration := some ⟨.hoisted, s.depth, true⟩ } := h.read_var hvar
    have hpending : t.pendingBody = none := (congrArg Tracker.pendingBody hu).trans hnone
    rw [prepare_of_word rfl hoperand hpending]
    refine ⟨hi, hdot, hhash, .list ?_⟩
    change u.declaration = some ⟨.hoisted, u.depth, true⟩
    rw [hu]
    rfl
  · obtain ⟨hname, htop, hbody⟩ : u.functionName = some (s.scopes.size, true) ∧ u.top = s.top ∧
        u.pendingBody = s.pendingBody := h.read_function hfunction hd
    have hpending : t.pendingBody = none := hbody.trans hnone
    rw [prepare_of_word rfl hoperand hpending]
    have hkey : t.atKey = s.atKey := by
      change (u.top.atKey && _) = (s.top.atKey && _)
      rw [htop]
    refine ⟨hi, hdot, hhash, .function (hkey.trans h.notKey) hname ?_⟩
    simp [Token.isKeyword, t, hfunction]

end Minify.Tracker
