import Mathlib.Tactic.Common
import Minify.Proofs.BraceScopes
import Minify.Proofs.DeclarationSlot
import Minify.Proofs.HomeScopes

/-!
A list of `var` right inside the body of a function.

The list is followed from declaration to declaration. At each of its names the tracker is back in
the frame of the body, so the name takes the place for a declaration if the list is still in
progress: the `var` begins it, a comma of the list renews it, and what stands in an initialiser
leaves it alone or loses it for good.
-/

namespace Minify

open Tracker

/-- A declaration of a list: the `var` or the comma before the name, the name, and the initialiser.
-/
structure Declarator where
  lead : Site
  name : Site
  rest : List Site

def Declarator.sites (d : Declarator) : List Site := d.lead :: d.name :: d.rest

/-- What is true of each site of a part that no bracket of the part stands around, and of the sites
before it. -/
def AtTop (P : List Site → Site → Prop) (part : List Site) : Prop :=
  ∀ front site back, part = front ++ site :: back →
    Brackets.check (front.map Site.token) = .ok () → P front site

instance {P : List Site → Site → Prop} [∀ front site, Decidable (P front site)]
    (part : List Site) : Decidable (AtTop P part) :=
  decidable_of_iff (∀ i : Fin part.length,
      Brackets.check ((part.take i).map Site.token) = .ok () → P (part.take i) part[i]) <| by
    constructor
    · rintro h front site back rfl hcheck
      have hlt : front.length < (front ++ site :: back).length := by simp
      simpa using h ⟨front.length, hlt⟩ (by simpa using hcheck)
    · intro h i hcheck
      refine h _ _ (part.drop (i + 1)) ?_ hcheck
      simp

/-- A name, and an initialiser without a comma or a `var` of its own outside brackets. -/
structure Declarator.Fits (d : Declarator) : Prop where
  name : d.name.token.kind = .identifier
  balanced : Brackets.check (d.rest.map Site.token) = .ok ()
  comma : AtTop (fun _ site => site.token.isPunct "," = false) d.rest
  var : AtTop (fun front site => site.token.isKeyword .kwVar = true →
    afterDot front.reverse = true ∨ prevIs front.reverse "#" = true) d.rest

/-- A list of `var` among the tokens between two braces, inside no further brackets. -/
structure VarList (b : Braces) where
  front : List Site
  declarators : List Declarator
  back : List Site
  inner_eq : b.inner = front ++ (declarators.flatMap Declarator.sites ++ back)
  balanced : Brackets.check (front.map Site.token) = .ok ()
  fits : ∀ d ∈ declarators, d.Fits
  /-- The list begins with the keyword. -/
  var : ∀ d ∈ declarators.head?, d.lead.token.isKeyword .kwVar = true
  notProperty : afterDot front.reverse = false
  notPrivate : prevIs front.reverse "#" = false
  /-- Its other declarations come after commas. -/
  comma : ∀ d ∈ declarators.tail, d.lead.token.isPunct "," = true

namespace Tracker

variable {s t : Tracker} {site : Site} {next : Option Token} {depth : Nat} {rest : List Site}

/-! ### The list and its names -/

/-- The list at a depth is not in progress. -/
def Lost (depth : Nat) (s : Tracker) : Prop := ∀ expect, ¬Lists depth expect s

/-- A site that neither begins a list of `var` at a depth nor is a comma there. -/
def Plain (depth : Nat) (s : Tracker) (site : Site) : Prop :=
  s.depth = depth →
    site.token.isPunct "," = false ∧ ¬ReadsKeyword (s.prepare site) site .kwVar

lemma Lost.step (h : Lost depth s)
    (hvar : s.depth = depth → ¬ReadsKeyword (s.prepare site) site .kwVar) :
    Lost depth (s.step site next) := by
  intro e he
  rcases exists_lists_of_step he with ⟨e', he'⟩ | ⟨hd, hread⟩
  · exact h e' he'
  · exact hvar hd hread

lemma Lists.step_plain {last : Tracker} (h : Lists depth false s)
    (ha : Above last depth s site next) (hp : Plain depth s site) (hdrops : ¬Drops depth s site) :
    Lists depth false (s.step site next) := by
  refine h.step ha.le (fun c hc => ha.lt ⟨c, hc⟩) (fun hcomma => ?_) hdrops
  refine Nat.lt_of_le_of_ne ha.le fun he => ?_
  rw [(hp he.symm).1] at hcomma
  cases hcomma

variable {base : List (FrameKind × ScopeId)} {bodies : List OpenBody}

/-- An initialiser that loses nothing leaves the list in progress. -/
lemma Lists.readAll {stack : List (Char × Nat)} (h : Lists base.length false s)
    (hinside : Inside base bodies 0 s) (hbase : base ≠ []) (hb : Bounded s)
    (hfits : (rest.map Site.token).foldlM Brackets.step [] = .ok stack)
    (hplain : Throughout (Plain base.length) s rest)
    (hdrops : Throughout (fun s site => ¬Drops base.length s site) s rest) :
    Lists base.length false (s.readAll next rest) :=
  Inside.induction (P := fun s site => Plain base.length s site ∧ ¬Drops base.length s site)
    hinside hbase hb hfits (Keeps.of_eq rfl)
    (fun front site back he => ⟨hplain front site back he, hdrops front site back he⟩)
    (fun ha hp hr => hr.step_plain ha hp.1 hp.2) h

lemma Lost.readAll (h : Lost depth s) (hplain : Throughout (Plain depth) s rest) :
    Lost depth (s.readAll next rest) := by
  induction rest generalizing s with
  | nil => exact h
  | cons site rest ih =>
    obtain ⟨hsite, hrest⟩ := (throughout_cons next).mp hplain
    exact ih (h.step fun hd => (hsite hd).2) hrest

/-- A token of an initialiser that loses the list loses it for good. -/
lemma Lists.lost_readAll {stack : List (Char × Nat)} (h : Lists base.length false s)
    (hinside : Inside base bodies 0 s) (hbase : base ≠ []) (hb : Bounded s)
    (hfits : (rest.map Site.token).foldlM Brackets.step [] = .ok stack)
    (hplain : Throughout (Plain base.length) s rest)
    (hdrops : ¬Throughout (fun s site => ¬Drops base.length s site) s rest) :
    Lost base.length (s.readAll next rest) := by
  simp only [Throughout, not_forall, not_not] at hdrops
  obtain ⟨front, site, back, rfl, hdrop⟩ := hdrops
  rw [List.map_append] at hfits
  obtain ⟨mid, hfront, hback⟩ := Brackets.foldlM_append_eq_ok hfits
  -- before the token the list is in progress, or an earlier one has lost it
  have hbefore : Lists base.length false (s.readAll (some site.token) front) ∨
      Lost base.length (s.readAll (some site.token) front) := by
    refine Inside.induction hinside hbase hb hfront (Keeps.of_eq rfl)
      hplain.left (R := fun s => Lists base.length false s ∨ Lost base.length s) ?_ (.inl h)
    rintro s x n ha hp (hlists | hlost)
    · by_cases hx : Drops base.length s x
      · exact .inr (hlists.not_lists_step ha.le hx fun hd => (hp hd).2)
      · exact .inl (hlists.step_plain ha hp hx)
    · exact .inr (hlost.step fun hd => (hp hd).2)
  obtain ⟨hsite, hafter⟩ := (throughout_cons next).mp hplain.right
  have hle : base.length ≤ (s.readAll (some site.token) front).depth := by
    have hdepth := (hinside.readAll hbase (some site.token) hfront).depth
    omega
  have hlost (n : Option Token) :
      Lost base.length ((s.readAll (some site.token) front).step site n) := by
    rcases hbefore with hlists | hlost
    · exact hlists.not_lists_step hle hdrop fun hd => (hsite hd).2
    · exact hlost.step fun hd => (hsite hd).2
  rw [readAll_append]
  exact (hlost _).readAll hafter

lemma before_readAll (sites : List Site) :
    (s.readAll next sites).before = sites.reverse ++ s.before := by
  induction sites generalizing s with
  | nil => rfl
  | cons site rest ih =>
    rw [Tracker.readAll, ih, before_step, List.reverse_cons, List.append_assoc,
      List.singleton_append]

end Tracker

lemma afterDot_append {xs : List Site} (ys : List Site) (h : afterDot xs = true) :
    afterDot (xs ++ ys) = true := by
  cases xs with
  | nil => cases h
  | cons x xs => exact h

lemma prevIs_append {xs : List Site} {punct : String} (ys : List Site)
    (h : prevIs xs punct = true) : prevIs (xs ++ ys) punct = true := by
  cases xs with
  | nil => cases h
  | cons x xs => exact h

/-- Nothing in an initialiser is a comma of the list or begins another one at its depth. -/
lemma Declarator.Fits.plain {d : Declarator} (h : d.Fits) {s : Tracker}
    {base : List (FrameKind × ScopeId)} {bodies : List OpenBody} (hinside : Inside base bodies 0 s)
    (hbase : base ≠ []) : Throughout (Plain base.length) s d.rest := by
  intro front site back he hdepth
  have hbalanced := Brackets.check_eq_ok.mp h.balanced
  rw [he, List.map_append] at hbalanced
  obtain ⟨stack, hfront, -⟩ := Brackets.foldlM_append_eq_ok hbalanced
  -- at the depth of the list, all brackets of the initialiser are closed
  have hstack : stack = [] := by
    have hd := (hinside.readAll hbase (some site.token) hfront).depth
    exact List.length_eq_zero_iff.mp (by omega)
  have hcheck : Brackets.check (front.map Site.token) = .ok () :=
    Brackets.check_eq_ok.mpr (hstack ▸ hfront)
  refine ⟨h.comma front site back he hcheck, fun hread => ?_⟩
  have hkind : site.token.isKeyword .kwVar = true := by simp [Token.isKeyword, hread.kind]
  have hdot := hread.notProperty
  have hprivate := hread.notPrivate
  rw [before_prepare, before_readAll] at hdot hprivate
  rcases h.var front site back he hcheck hkind with hfollows | hfollows
  · rw [afterDot_append _ hfollows] at hdot
    cases hdot
  · rw [prevIs_append _ hfollows] at hprivate
    cases hprivate

namespace Braces

/-- The braces hold the body of a function, and nothing else waits when it begins. -/
structure HoldFunction (b : Braces) : Prop where
  kind : b.opened.top.kind = .functionBody
  scope : ∃ sc, b.opened.scopes[b.scope]? = some sc ∧ sc.kind = .function
  waits : ∀ id, ¬b.opened.Waits id

/-- The tracker is in the frame of the body that the braces hold. -/
structure AtBody (b : Braces) (s : Tracker) : Prop where
  depth : s.depth = b.opened.depth
  kind : s.top.kind = .functionBody
  pattern : s.top.pattern = none

variable {b : Braces} {tokens : List Token} {tree : ScopeTree} {s t : Tracker} {site : Site}
variable {next : Option Token} {part : List Site} {expect : Bool}

/-- The frame of the body of a function holds no pattern, and after a brace no header waits. -/
lemma openBrace_opens (s : Tracker) : s.openBrace.pendingBody = none ∧
    (s.openBrace.top.kind = .functionBody → s.openBrace.top.pattern = none) := by
  unfold openBrace
  split
  · dsimp only
    split <;> exact ⟨rfl, fun _ => rfl⟩
  · rename_i hn
    split
    · rename_i hslot
      exact ⟨(rests_takeSlot hslot).pendingBody.trans hn, nofun⟩
    · split
      · exact ⟨hn, nofun⟩
      · split
        · exact ⟨hn, nofun⟩
        · exact ⟨hn, nofun⟩

lemma opened_eq (b : Braces) : ∃ n next,
    b.opened = (start.readAll n b.before).step b.brace next ∧
      ∀ s : Tracker, s.read b.brace next = s.openBrace := by
  have h := b.opens
  simp only [Token.isPunct, Bool.and_eq_true, beq_iff_eq] at h
  refine ⟨_, _, readAll_append _ _ _ _, fun s => ?_⟩
  simp [Tracker.read, h.1, punctuator, h.2]

lemma pendingBody_opened (b : Braces) : b.opened.pendingBody = none := by
  obtain ⟨n, next, he, hread⟩ := b.opened_eq
  rw [he]
  change (((start.readAll n b.before).prepare b.brace).read b.brace next).pendingBody = none
  rw [hread]
  exact (openBrace_opens _).1

lemma HoldFunction.pattern (h : b.HoldFunction) : b.opened.top.pattern = none := by
  obtain ⟨n, next, he, hread⟩ := b.opened_eq
  have htop : b.opened.top = ((start.readAll n b.before).prepare b.brace).openBrace.top := by
    rw [he, ← hread]
    rfl
  rw [htop]
  exact (openBrace_opens _).2 (htop ▸ h.kind)

lemma StandIn.bodiesInside_opened (h : b.StandIn tokens tree) : b.opened.bodiesInside = [] := by
  obtain ⟨stack, hstack⟩ := h.exists_stack
  obtain ⟨n, next, he, -⟩ := b.opened_eq
  have hinside : Inside [(.root, ScopeTree.global)] [] stack.length (start.readAll n b.before) :=
    inside_readAll inside_start (List.cons_ne_nil _ _) _ hstack
  have hsteps := steps_step (start.readAll n b.before) b.brace next
  rw [bracket_brace] at hsteps
  obtain ⟨u, hlevel, hdeeper⟩ := hsteps
  have htidy := hlevel.tidy hinside.tidy
  obtain ⟨m, hm⟩ := hdeeper.stack
  have hdepth : b.opened.depth = (start.readAll n b.before).depth + 1 := by
    rw [he, ← length_stack, hm, List.length_cons, length_stack, hlevel.depth]
  refine List.filter_eq_nil_iff.mpr fun x hx => ?_
  have hle := htidy.le x (hdeeper.bodies ▸ he ▸ hx)
  simp only [decide_eq_true_eq]
  omega

lemma AtBody.of_seats (h : b.AtBody s) (hs : t.seats = s.seats) : b.AtBody t := by
  have htop : t.top.seat = s.top.seat := (List.cons_eq_cons.mp hs).1
  have hkind : t.top.kind = s.top.kind := congrArg (fun x => x.1.1) htop
  have hpattern : t.top.pattern.isSome = s.top.pattern.isSome := congrArg Prod.snd htop
  refine ⟨(depth_congr hs).trans h.depth, hkind.trans h.kind, ?_⟩
  rw [h.pattern] at hpattern
  simpa using hpattern

lemma AtBody.prepare (h : b.AtBody s) (site : Site) : b.AtBody (s.prepare site) :=
  h.of_seats (seats_prepare s site)

/-- When all brackets between are closed, the tracker is back in the frame of the body. -/
lemma StandIn.atBody (h : b.StandIn tokens tree) (hf : b.HoldFunction)
    (hpart : (part.map Site.token).foldlM Brackets.step [] = .ok []) (n : Option Token) :
    b.AtBody (b.opened.readAll n part) := by
  have hbase : b.opened.stack ≠ [] := List.cons_ne_nil _ _
  have hinside := h.inside_opened.readAll hbase n hpart
  have hdepth : (b.opened.readAll n part).depth = b.opened.depth := by
    rw [hinside.depth, length_stack]
    exact Nat.zero_add _
  have hlength : b.opened.stack.length = b.opened.seats.length := by
    rw [length_stack, length_seats]
  have hkept : b.opened.seats <:+ (b.opened.readAll n part).seats :=
    Inside.induction (P := fun _ _ => True) (R := fun s => b.opened.seats <:+ s.seats)
      h.inside_opened hbase (bounded_readAll _ _ bounded_start) hpart (Keeps.of_eq rfl)
      (fun _ _ _ _ => trivial) (fun ha _ hr => (hlength ▸ ha).seats hr) (List.suffix_refl _)
  have hseats : b.opened.seats = (b.opened.readAll n part).seats :=
    hkept.eq_of_length (by rw [length_seats, length_seats, hdepth])
  have hopened : b.AtBody b.opened := ⟨rfl, hf.kind, hf.pattern⟩
  exact hopened.of_seats hseats.symm

/-! ### The tokens of the list -/

lemma AtBody.readsKeyword_var (h : b.AtBody s) (hk : site.token.isKeyword .kwVar = true)
    (hdot : afterDot s.before = false) (hprivate : prevIs s.before "#" = false) :
    ReadsKeyword (s.prepare site) site .kwVar := by
  refine ⟨by simpa [Token.isKeyword] using hk, ?_, ?_, by simp [atKey, (h.prepare site).kind]⟩
  · rwa [before_prepare]
  · rwa [before_prepare]

lemma AtBody.lists_var (h : b.AtBody s) (hread : ReadsKeyword (s.prepare site) site .kwVar) :
    Lists b.opened.depth true (s.step site next) := by
  change ((s.prepare site).read site next).declaration = _
  rw [read_of_readsKeyword hread]
  have hdepth : (s.prepare site).abandonDeclaration.depth = b.opened.depth :=
    level_abandonDeclaration.depth.trans (h.prepare site).depth
  simp [keyword, hdepth]

lemma read_comma (hc : site.token.isPunct "," = true) (next : Option Token) :
    s.read site next = s.comma := by
  simp only [Token.isPunct, Bool.and_eq_true, beq_iff_eq] at hc
  simp [Tracker.read, hc.1, punctuator, hc.2]

lemma AtBody.lists_comma (h : b.AtBody s) (hc : site.token.isPunct "," = true)
    (hl : Lists b.opened.depth false s) : Lists b.opened.depth true (s.step site next) := by
  have hp : Lists b.opened.depth false (s.prepare site) := by
    refine hl.prepare (Nat.le_of_eq h.depth.symm) fun _ _ => ?_
    simp only [Token.isPunct, Bool.and_eq_true, beq_iff_eq] at hc
    simp [endsStatement, Token.startsStatement, hc.1, hc.2]
  change ((s.prepare site).read site next).declaration = _
  rw [read_comma hc next]
  change (s.prepare site).declaration.map _ = _
  have hdepth : b.opened.depth = ((s.prepare site).endOpenBodies (s.prepare site).depth
    true).depth :=
    (h.prepare site).depth.symm
  rw [hp, Option.map_some, if_pos hdepth]

/-- The token before a name of the list. -/
def Leads (lead : Site) : Prop :=
  lead.token.isKeyword .kwVar = true ∨ lead.token.isPunct "," = true

lemma Leads.notOperand {lead : Site} (h : Leads lead) : lead.token.endsOperand = false := by
  simp only [Leads, Token.isKeyword, Token.isPunct, Bool.and_eq_true, beq_iff_eq] at h
  rcases h with h | h
  · simp [Token.endsOperand, h, Keyword.isOperand]
  · simp [Token.endsOperand, h.1, h.2]

lemma Leads.not_endsStatement {lead : Site} (h : Leads lead) (before : List Site) (site : Site) :
    endsStatement (lead :: before) site = false := by
  simp [endsStatement, h.notOperand]

lemma Leads.not_punct {lead : Site} (h : Leads lead) {punct : String} (hp : punct ≠ ",") :
    lead.token.isPunct punct = false := by
  simp only [Leads, Token.isKeyword, Token.isPunct, Bool.and_eq_true, beq_iff_eq] at h
  rcases h with h | h
  · simp [Token.isPunct, h]
  · simp [Token.isPunct, h.1, h.2, hp.symm]

lemma AtBody.takeSlot_name (h : b.AtBody s) (hl : Lists b.opened.depth true s) {lead : Site}
    {before : List Site} (hbefore : s.before = lead :: before) (hlead : Leads lead) (site : Site) :
    ∃ t, (s.prepare site).takeSlot = some (.hoisted, t) ∧
      t.declaration = some ⟨.hoisted, b.opened.depth, false⟩ := by
  have hp : Lists b.opened.depth true (s.prepare site) := by
    refine hl.prepare (Nat.le_of_eq h.depth.symm) fun _ _ => ?_
    rw [hbefore]
    exact hlead.not_endsStatement _ _
  have hbody := h.prepare site
  refine ⟨{ s.prepare site with declaration := some ⟨.hoisted, b.opened.depth, false⟩ }, ?_, rfl⟩
  unfold takeSlot
  rw [hbody.pattern, hp]
  simp [hbody.depth]

lemma AtBody.hoists_name (h : b.AtBody s) (hl : Lists b.opened.depth true s) {lead : Site}
    {before : List Site} (hbefore : s.before = lead :: before) (hlead : Leads lead)
    (hi : site.token.kind = .identifier) : Hoists (s.prepare site) site next := by
  obtain ⟨t, hslot, -⟩ := h.takeSlot_name hl hbefore hlead site
  refine ⟨hi, ?_, ?_, .slot hslot⟩
  · simp [before_prepare, hbefore, afterDot, hlead.not_punct]
  · simp [before_prepare, hbefore, prevIs, hlead.not_punct]

lemma AtBody.lists_name (h : b.AtBody s) (hl : Lists b.opened.depth true s) {lead : Site}
    {before : List Site} (hbefore : s.before = lead :: before) (hlead : Leads lead)
    (hi : site.token.kind = .identifier) : Lists b.opened.depth false (s.step site next) := by
  obtain ⟨t, hslot, hdeclaration⟩ := h.takeSlot_name hl hbefore hlead site
  have hdot : afterDot (s.prepare site).before = false := by
    simp [before_prepare, hbefore, afterDot, hlead.not_punct]
  have hprivate : prevIs (s.prepare site).before "#" = false := by
    simp [before_prepare, hbefore, prevIs, hlead.not_punct]
  have hread : (s.prepare site).read site next = t.declare site .hoisted false := by
    simp [Tracker.read, hi, word, hdot, hprivate, hslot]
  change ((s.prepare site).read site next).declaration = _
  rw [hread, declaration_declare, hdeclaration]

/-- After a comma a name declares nothing when the list is lost. -/
lemma AtBody.not_hoists_name (h : b.AtBody s) (hl : Lost b.opened.depth s) {lead : Site}
    {before : List Site} (hbefore : s.before = lead :: before)
    (hlead : lead.token.isPunct "," = true) : ¬Hoists (s.prepare site) site next := by
  have hbody := h.prepare site
  rintro ⟨-, -, -, hplace⟩
  cases hplace with
  | slot hslot =>
    -- only the list has a place
    unfold takeSlot at hslot
    rw [hbody.pattern] at hslot
    dsimp only at hslot
    split at hslot
    · rename_i d hd
      split at hslot
      · rename_i hhere
        simp only [Bool.and_eq_true, decide_eq_true_eq] at hhere
        obtain ⟨hplace, hexpect⟩ := hhere
        obtain ⟨kind, place, expect⟩ := d
        cases hslot
        dsimp only at hplace
        rw [declaration_prepare] at hd
        have hlists : s.declaration = some ⟨.hoisted, place, expect⟩ := by
          split at hd
          · exact (Option.filter_eq_some_iff.mp hd).1
          · exact hd
        exact hl expect (hbody.depth ▸ hplace ▸ hlists)
      · cases hslot
    · cases hslot
  | shorthand _ _ hobject =>
    rw [hbody.kind] at hobject
    cases hobject
  | function _ _ _ hafter =>
    simp only [Token.isPunct, Bool.and_eq_true, beq_iff_eq] at hlead
    simp [before_prepare, hbefore, Token.isKeyword, Token.isPunct, hlead.1, hlead.2] at hafter

end Braces

end Minify
