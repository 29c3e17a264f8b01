import Mathlib
import Minify.Proofs.DeclaredNames

/-!
The names of a list of `var` belong to the function whose body the list stands in.

In the body of a function every identifier is recorded in the scope of the function or inside it.
And while no token leads off the way out of the function, a name of the list finds the tracker in a
scope that no other function is around, so it is bound in the scope of the function. From then on
the binding stays, and every use of the name in the body refers to it, unless a nearer scope binds
the name too.
-/

namespace Minify

namespace Tracker

variable {s t u last : Tracker} {site : Site} {next : Option Token} {id : ScopeId} {name : String}

/-! ### Bindings stay -/

/-- The scopes keep the names they bind. -/
def KeepsNames (s t : Tracker) : Prop :=
  ∀ id name, Scope.binds s.scopes id name = true → Scope.binds t.scopes id name = true

lemma KeepsNames.of_eq (h : t.scopes = s.scopes) : KeepsNames s t :=
  fun _ _ hb => h ▸ hb

lemma KeepsNames.trans (h : KeepsNames s t) (h' : KeepsNames t u) : KeepsNames s u :=
  fun id name hb => h' id name (h id name hb)

lemma binds_iff {scopes : Array Scope} : Scope.binds scopes id name = true ↔
    ∃ sc, scopes[id]? = some sc ∧ name ∈ sc.bindings := by
  simp [Scope.binds, Option.any_eq_true]

lemma mem_bind_of_mem {sc : Scope} (h : name ∈ sc.bindings) (n : String) :
    name ∈ (sc.bind n).bindings := by
  unfold Scope.bind
  split
  · exact h
  · exact List.mem_append_left _ h

lemma mem_bind_self (sc : Scope) (name : String) : name ∈ (sc.bind name).bindings := by
  unfold Scope.bind
  split
  · rename_i h
    simpa using h
  · exact List.mem_append_right _ List.mem_cons_self

lemma keepsNames_declareIn (target scope : ScopeId) (shorthand : Bool) :
    KeepsNames s (s.declareIn site target scope shorthand) := by
  intro id name hb
  obtain ⟨sc, hsc, hn⟩ := binds_iff.mp hb
  rw [binds_iff, getElem?_declareIn]
  split
  · exact ⟨_, by rw [hsc]; rfl, mem_bind_of_mem hn _⟩
  · exact ⟨sc, hsc, hn⟩

lemma Quiet.keepsNames (h : Quiet s t) : KeepsNames s t := by
  induction h with
  | refl => exact .of_eq rfl
  | settle _ m ih => exact ih.trans (.of_eq m.scopes)
  | add _ m ih =>
    refine ih.trans fun id name hb => ?_
    obtain ⟨sc, hsc, hn⟩ := binds_iff.mp hb
    obtain ⟨hid, -⟩ := Array.getElem?_eq_some_iff.mp hsc
    refine binds_iff.mpr ⟨sc, ?_, hn⟩
    rw [m.scopes, Array.getElem?_push_lt hid, ← Array.getElem?_eq_getElem hid, hsc]
  | mark _ ih =>
    refine ih.trans fun id name hb => ?_
    obtain ⟨sc, hsc, hn⟩ := binds_iff.mp hb
    rw [binds_iff, getElem?_markEval, hsc]
    exact ⟨_, rfl, hn⟩

lemma Reads.keepsNames (h : Reads site s t) : KeepsNames s t := by
  induction h with
  | quiet h => exact h.keepsNames
  | mention h => exact h.keepsNames.trans (.of_eq rfl)
  | declare h _ _ _ sh => exact h.keepsNames.trans (keepsNames_declareIn _ _ sh)
  | settle _ m ih => exact ih.trans (.of_eq m.scopes)

lemma keepsNames_readAll (s : Tracker) (next : Option Token) (sites : List Site) :
    KeepsNames s (s.readAll next sites) := by
  induction sites generalizing s with
  | nil => exact .of_eq rfl
  | cons site rest ih => exact (reads_step s site _).keepsNames.trans (ih _)

lemma nearestFunction_congr (hk : Keeps s last) (hg : Grows s last) (hid : id < s.scopes.size) :
    nearestFunction last.scopes id = nearestFunction s.scopes id := by
  unfold nearestFunction
  rw [hg.ancestors hid]
  congr 1
  refine List.find?_congr fun i hi => ?_
  have hlt : i < s.scopes.size := Nat.lt_of_le_of_lt (Scope.le_of_mem_ancestors hi) hid
  obtain ⟨sc, hsc, -, hkind⟩ := hk i _ (Array.getElem?_eq_getElem hlt)
  rw [hsc, Array.getElem?_eq_getElem hlt, Option.any_some, Option.any_some, Scope.isInner, hkind]
  rfl

lemma nearestFunction_self {scopes : Array Scope} {sc : Scope} (h : scopes[id]? = some sc)
    (hk : sc.kind = .function) : nearestFunction scopes id = id := by
  have hinner : (scopes[id]?).any Scope.isInner = false := by
    rw [h, Option.any_some, Scope.isInner, hk]
  unfold nearestFunction
  rw [Scope.ancestors, List.find?_cons_of_pos (by simp [hinner])]
  rfl

end Tracker

open Tracker

namespace Braces

variable {b : Braces} {tokens : List Token} {tree : ScopeTree} {site : Site}
variable {part back : List Site} {s : Tracker}

def finish (tokens : List Token) : Tracker := start.readAll none (Site.ofTokens tokens)

lemma eq_finish (h : ScopeTree.ofTokens tokens = .ok tree) : tree.scopes = (finish tokens).scopes ∧
    tree.occurrences = (finish tokens).occurrences.reverse := by
  obtain ⟨hscopes, hoccurrences, -⟩ := ScopeTree.eq_of_ofTokens h
  rw [run_eq_readAll] at hscopes hoccurrences
  exact ⟨hscopes, hoccurrences⟩

lemma StandIn.exists_tail (h : b.StandIn tokens tree) :
    ∃ tail, Site.ofTokens tokens = b.before ++ b.brace :: (b.inner ++ b.closer :: tail) ∧
      finish tokens = b.opened.readAll none (b.inner ++ b.closer :: tail) := by
  obtain ⟨tail, htail⟩ := h.stands
  have hsites : Site.ofTokens tokens = (b.before ++ [b.brace]) ++ (b.inner ++ b.closer
    :: tail) := by
    rw [← htail, sites]
    simp
  have hhead : ((b.inner ++ b.closer :: tail).head?.map Site.token).or none
      = (b.inner ++ [b.closer]).head?.map Site.token := by
    cases b.inner <;> rfl
  refine ⟨tail, by rw [hsites]; simp, ?_⟩
  rw [finish, hsites, readAll_append, hhead]
  rfl

/-- What there is when a site between the braces has been read stays to the end. -/
lemma StandIn.exists_next (h : b.StandIn tokens tree)
    (hsplit : b.inner ++ [b.closer] = part ++ site :: back) : ∃ n,
      Keeps ((b.opened.readAll (some site.token) part).step site n) (finish tokens) ∧
      Grows ((b.opened.readAll (some site.token) part).step site n) (finish tokens) ∧
      KeepsNames ((b.opened.readAll (some site.token) part).step site n) (finish tokens) := by
  obtain ⟨tail, -, hfinish⟩ := h.exists_tail
  have hinner : b.inner ++ b.closer :: tail = part ++ site :: (back ++ tail) := by
    rw [List.append_cons, hsplit, List.append_assoc, List.cons_append]
  rw [hfinish, hinner, readAll_append, readAll]
  exact ⟨_, keeps_readAll _ _ _, grows_readAll _ _ _, keepsNames_readAll _ _ _⟩

lemma StandIn.keeps (h : b.StandIn tokens tree)
    (hsplit : b.inner ++ [b.closer] = part ++ site :: back) :
    Keeps (b.opened.readAll (some site.token) part) (finish tokens) := by
  obtain ⟨n, hkeeps, -⟩ := h.exists_next hsplit
  exact (reads_step _ site n).keeps.trans hkeeps

lemma bounded_opened (b : Braces) : Bounded b.opened := bounded_readAll _ _ bounded_start

/-! ### Inside the function -/

/-- At the brace the trail is the scope of the function alone. -/
lemma StandIn.trail_opened (h : b.StandIn tokens tree) :
    b.opened.trail b.opened.depth = [⟨false, b.scope⟩] := by
  rw [trail_of_none b.pendingBody_opened, exits_floor rfl, h.bodiesInside_opened]
  rfl

lemma StandIn.enclosed_opened (h : b.StandIn tokens tree) (hf : b.HoldFunction) (last : Tracker) :
    Enclosed last b.scope b.opened.depth b.opened := by
  refine ⟨?_, fun id hid => absurd hid (hf.waits id)⟩
  rw [h.trail_opened]
  intro x hx
  rw [List.mem_singleton.mp hx]
  exact Scope.self_mem_ancestors _ _

/-- What is recorded between the braces stands in the scope of the function or inside it. -/
lemma StandIn.recorded_inside (h : b.StandIn tokens tree) (hf : b.HoldFunction) :
    ∀ o ∈ b.reached.occurrences, o ∈ b.opened.occurrences ∨
      b.scope ∈ Scope.ancestors (finish tokens).scopes o.scope := by
  have hlength : b.opened.stack.length = b.opened.depth := length_stack _
  have hkeeps : Keeps (b.opened.readAll (some b.closer.token) b.inner) (finish tokens) :=
    h.keeps (rfl : b.inner ++ [b.closer] = b.inner ++ b.closer :: [])
  have hrun := Inside.induction (P := fun _ _ => True)
    (R := fun s => Enclosed (finish tokens) b.scope b.opened.depth s ∧
      ∀ o ∈ s.occurrences, o ∈ b.opened.occurrences ∨
        b.scope ∈ Scope.ancestors (finish tokens).scopes o.scope)
    h.inside_opened (List.cons_ne_nil _ _) b.bounded_opened
    (Brackets.check_eq_ok.mp b.balanced) hkeeps (fun _ _ _ _ => trivial) ?_
    ⟨h.enclosed_opened hf _, fun o ho => .inl ho⟩
  · exact hrun.2
  · rintro s site next ha - ⟨hs, hrecorded⟩
    rw [hlength] at ha
    refine ⟨hs.step ha, fun o ho => ?_⟩
    rcases hs.recorded ha ho with ho | ho
    · exact hrecorded o ho
    · exact .inr ho

/-- An occurrence between the braces stands in the scope of the function or inside it. -/
lemma StandIn.scope_mem_ancestors (h : b.StandIn tokens tree) (hf : b.HoldFunction) {o : Occurrence}
    (ho : o ∈ tree.occurrences) (hafter : b.brace.index < o.token)
    (hbefore : o.token < b.closer.index) : b.scope ∈ tree.ancestors o.scope := by
  obtain ⟨hscopes, hoccurrences⟩ := eq_finish h.accepted
  obtain ⟨tail, hsites, hfinish⟩ := h.exists_tail
  have hsorted := Site.ofTokens_pairwise tokens
  rw [hsites] at hsorted
  obtain ⟨-, hinner, hbrace⟩ := List.pairwise_append.mp hsorted
  obtain ⟨-, hsorted⟩ := List.pairwise_cons.mp hinner
  obtain ⟨-, hsorted, -⟩ := List.pairwise_append.mp hsorted
  obtain ⟨hclosing, -⟩ := List.pairwise_cons.mp hsorted
  -- it has been recorded before the closing brace, and not before the opening one
  have hreached : o ∈ b.reached.occurrences := by
    rw [hoccurrences, List.mem_reverse, hfinish, readAll_append] at ho
    rcases exists_site_of_mem_readAll ho with ho | ⟨x, hx, hindex⟩
    · exact ho
    · rcases List.mem_cons.mp hx with rfl | hx
      · omega
      · have := hclosing x hx
        omega
  have hopened : o ∉ b.opened.occurrences := by
    intro ho
    rcases exists_site_of_mem_readAll ho with ho | ⟨x, hx, hindex⟩
    · exact List.not_mem_nil ho
    · rcases List.mem_append.mp hx with hx | hx
      · have := hbrace x hx b.brace List.mem_cons_self
        omega
      · rw [List.mem_singleton.mp hx] at hindex
        omega
  rw [ScopeTree.ancestors, hscopes]
  exact (h.recorded_inside hf o hreached).resolve_left hopened

/-- A use that no scope between shadows refers to the scope of the function. -/
lemma StandIn.resolved_eq (h : b.StandIn tokens tree) (hf : b.HoldFunction) {o : Occurrence}
    (ho : o ∈ tree.occurrences) (hafter : b.brace.index < o.token)
    (hbefore : o.token < b.closer.index) (hbinds : Scope.binds tree.scopes b.scope o.name = true)
    (hnearer : ∀ id ∈ tree.ancestors o.scope, b.scope ∈ tree.ancestors id → id ≠ b.scope →
      Scope.binds tree.scopes id o.name = false) : tree.resolved o = some b.scope := by
  have hmem := h.scope_mem_ancestors hf ho hafter hbefore
  have hnearest := ScopeTree.nearest_resolve tree o.name o.scope
  change tree.resolve o.name o.scope = _
  cases hr : tree.resolve o.name o.scope with
  | none =>
    rw [hr] at hnearest
    rw [hnearest _ hmem] at hbinds
    cases hbinds
  | some id =>
    rw [hr] at hnearest
    obtain ⟨inner, outer, hpath, hid, hinner⟩ := hnearest
    have hmemid : id ∈ tree.ancestors o.scope := by
      rw [hpath]
      exact List.mem_append_right _ List.mem_cons_self
    -- the scope that binds the name is not outside the function, and none between does
    have hle : b.scope ≤ id := by
      have hdown := Scope.ancestors_pairwise tree.scopes o.scope
      change (tree.ancestors o.scope).Pairwise _ at hdown
      rw [hpath] at hdown hmem
      obtain ⟨-, hdown, -⟩ := List.pairwise_append.mp hdown
      rcases List.mem_append.mp hmem with hmem | hmem
      · rw [hinner _ hmem] at hbinds
        cases hbinds
      · rcases List.mem_cons.mp hmem with rfl | hmem
        · exact Nat.le_refl _
        · exact Nat.le_of_lt ((List.pairwise_cons.mp hdown).1 _ hmem)
    by_contra hne
    have hbetween := hnearer id hmemid (Scope.mem_ancestors_of_le hmem hmemid hle)
      fun he => hne (congrArg some he)
    rw [hbetween] at hid
    cases hid

/-! ### At home in the function -/

lemma StandIn.homed_opened (h : b.StandIn tokens tree) (hf : b.HoldFunction) {last : Tracker}
    (hk : Keeps b.opened last) :
    Homed last.scopes b.scope (b.opened.trail b.opened.depth) := by
  obtain ⟨sc, hsc, hkind⟩ := hf.scope
  obtain ⟨sc', hsc', -, hkind'⟩ := hk _ sc hsc
  rw [h.trail_opened]
  exact ⟨fun _ => nearestFunction_self hsc' (hkind'.trans hkind), trivial⟩

lemma StandIn.arrowsInside_opened (h : b.StandIn tokens tree) :
    ArrowsInside b.opened.depth b.opened.openBodies := by
  have hnone (x : OpenBody) (hx : x ∈ b.opened.openBodies) : ¬b.opened.depth ≤ x.depth := by
    have hinside := List.filter_eq_nil_iff.mp h.bodiesInside_opened x hx
    simpa using hinside
  exact List.Pairwise.imp_of_mem (R := fun _ _ => True)
    (fun ha _ _ hfloor => absurd hfloor (hnone _ ha)) (List.pairwise_of_forall fun _ _ => trivial)

/-- While no token leads off the way, the tracker stays at home. -/
lemma StandIn.homed (h : b.StandIn tokens tree) (hf : b.HoldFunction)
    (hsplit : b.inner ++ [b.closer] = part ++ site :: back) {stack : List (Char × Nat)}
    (hfits : (part.map Site.token).foldlM Brackets.step [] = .ok stack)
    (hstrays : Throughout (fun s site => ¬Strays tree.scopes b.opened.depth s site) b.opened part) :
    Homed tree.scopes b.scope
        ((b.opened.readAll (some site.token) part).trail b.opened.depth) ∧
      ArrowsInside b.opened.depth (b.opened.readAll (some site.token) part).openBodies := by
  have hlength : b.opened.stack.length = b.opened.depth := length_stack _
  obtain ⟨hscopes, -⟩ := eq_finish h.accepted
  have hkeeps := h.keeps hsplit
  rw [hscopes] at hstrays ⊢
  refine Inside.induction
    (R := fun s => Homed (finish tokens).scopes b.scope (s.trail b.opened.depth) ∧
      ArrowsInside b.opened.depth s.openBodies)
    h.inside_opened (List.cons_ne_nil _ _) b.bounded_opened hfits hkeeps hstrays ?_
    ⟨h.homed_opened hf ((keeps_readAll _ _ _).trans hkeeps), h.arrowsInside_opened⟩
  rintro s site next ha hstray ⟨hhomed, harrows⟩
  rw [hlength] at ha
  have hwalks : Walks (finish tokens) s.Waits _ (s.trail b.opened.depth)
      ((s.prepare site).trail b.opened.depth) := walks_prepare s site
  have hprepared := hwalks.homed hstray hhomed
  exact ⟨ha.walks.homed hstray hprepared, ha.arrowsInside harrows hstray⟩

end Braces

namespace VarList

variable {b : Braces} {l : VarList b} {pre post : List Declarator} {d : Declarator}
variable {tokens : List Token} {tree : ScopeTree} {next : Option Token}

/-- The tokens between the braces from a name of the list on. -/
lemma inner_split (hd : l.declarators = pre ++ d :: post) : b.inner ++ [b.closer]
    = (l.upTo pre ++ [d.lead]) ++ d.name ::
      (d.rest ++ (post.flatMap Declarator.sites ++ (l.back ++ [b.closer]))) := by
  rw [l.inner_eq, hd]
  simp [upTo, Declarator.sites]

/-- No header waits for its body, and no body of an arrow goes on around. -/
structure Still (s : Tracker) : Prop where
  pendingBody : s.pendingBody = none
  stays : ∀ x ∈ s.bodiesInside, x.endsAtComma = false

/-- A token that leads to a name is no body of a header. -/
lemma pendingBody_lead {s : Tracker} {lead : Site} (h : Braces.Leads lead) :
    (s.prepare lead).pendingBody = none := by
  rcases pendingBody_prepare s lead with hnone | hbrace | harrow
  · exact hnone
  · rw [h.not_punct (by decide)] at hbrace
    cases hbrace
  · rw [h.not_punct (by decide)] at harrow
    cases harrow

lemma still_var {s : Tracker} {lead : Site} {scopes : Array Scope} {floor : Nat}
    (hd : s.depth = floor) (hread : ReadsKeyword (s.prepare lead) lead .kwVar)
    (hstray : ¬Strays scopes floor s lead) : Still (s.step lead next) := by
  have hk : lead.token.isKeyword .kwVar = true := by simp [Token.isKeyword, hread.kind]
  have hrests : Rests (s.prepare lead) (s.prepare lead).abandonDeclaration :=
    rests_abandonDeclaration
  have hinside : (s.prepare lead).abandonDeclaration.bodiesInside
    = (s.prepare lead).bodiesInside := by
    unfold bodiesInside
    rw [hrests.openBodies, depth_congr hrests.seats]
  have hstill : Still ((s.prepare lead).abandonDeclaration.keyword lead next .kwVar) := by
    refine ⟨hrests.pendingBody.trans (pendingBody_lead (.inl hk)), fun x hx => ?_⟩
    change x ∈ (s.prepare lead).abandonDeclaration.bodiesInside at hx
    rw [hinside] at hx
    exact Bool.eq_false_iff.mpr fun harrow => hstray (.var hd hk hx harrow)
  rw [← read_of_readsKeyword hread next] at hstill
  exact ⟨hstill.pendingBody, hstill.stays⟩

lemma still_comma {s : Tracker} {lead : Site} {floor : Nat} (hc : lead.token.isPunct "," = true)
    (ht : Tidy (s.prepare lead).depth (s.prepare lead).openBodies)
    (ha : ArrowsInside floor (s.prepare lead).openBodies) (hd : floor ≤ (s.prepare lead).depth) :
    Still (s.step lead next) := by
  have hstill : Still (s.prepare lead).comma := by
    refine ⟨pendingBody_lead (.inr hc), fun x hx => ?_⟩
    obtain ⟨hx, hdeep⟩ := List.mem_filter.mp hx
    exact ha.endBodies ht hd _ x hx (of_decide_eq_true hdeep)
  rw [← Braces.read_comma hc next] at hstill
  exact ⟨hstill.pendingBody, hstill.stays⟩

section

variable (h : b.StandIn tokens tree) (hf : b.HoldFunction) (hd : l.declarators = pre ++ d :: post)
  (hstrays : Throughout (fun s site => ¬Strays tree.scopes b.opened.depth s site) b.opened
    (l.upTo pre ++ [d.lead]))
include h hf hd hstrays

lemma still_beforeName : Still (l.beforeName pre d) := by
  have hbody := atBody_lead h hf hd (some d.lead.token)
  have hstray := hstrays (l.upTo pre) d.lead [] rfl
  rw [beforeName_eq]
  by_cases hp : pre = []
  · subst hp
    exact still_var hbody.depth (readsKeyword_first h hf hd) hstray
  · have hsplit := inner_split hd
    rw [List.append_assoc] at hsplit
    have harrows := (h.homed hf hsplit (balanced_upTo hd) hstrays.left).2
    have hinside := h.inside_opened.readAll (List.cons_ne_nil _ _) (some d.lead.token)
      (balanced_upTo hd)
    have hlevel : Level (b.opened.readAll (some d.lead.token) (l.upTo pre)) _ :=
      level_prepare d.lead
    exact still_comma (lead_comma hd hp) (hlevel.depth ▸ hlevel.tidy hinside.tidy)
      (arrowsInside_prepare harrows hstray) (Nat.le_of_eq (hbody.prepare d.lead).depth.symm)

/-- The nearest function of the scope that a name is read in is that of the list. -/
lemma nearest_beforeName : nearestFunction tree.scopes (l.beforeName pre d).current = b.scope := by
  have hstill := still_beforeName h hf hd hstrays
  have hhomed := (h.homed hf (inner_split hd) (balanced_name hd) hstrays).1
  change Homed tree.scopes b.scope ((l.beforeName pre d).trail b.opened.depth) at hhomed
  rw [trail_of_none hstill.pendingBody, exits_floor (atBody_beforeName h hf hd).depth] at hhomed
  refine hhomed.1 fun y hy => ?_
  obtain ⟨x, hx, rfl⟩ := List.mem_map.mp hy
  exact hstill.stays x hx

/-- A name that declares is bound in the scope of the function. -/
lemma binds_name (hl : l.Lasts pre) :
    Scope.binds tree.scopes b.scope d.name.token.text = true := by
  obtain ⟨hscopes, -⟩ := Braces.eq_finish h.accepted
  obtain ⟨n, hkeeps, hgrows, hnames⟩ := h.exists_next (inner_split hd)
  have hbounded : Bounded (l.beforeName pre d) := bounded_readAll _ _ b.bounded_opened
  have hreads := reads_step (l.beforeName pre d) d.name n
  -- nothing happens between the token before the name and the name
  have hprepare : (l.beforeName pre d).prepare d.name
      = { l.beforeName pre d with closedHeader := false } := by
    have hends : endsStatement (l.beforeName pre d).before d.name = false := by
      rw [before_beforeName]
      exact (leads hd).not_endsStatement _ _
    simp [prepare, hends, beginBody, (still_beforeName h hf hd hstrays).pendingBody]
  have htarget : ((l.beforeName pre d).prepare d.name).hoistTarget = b.scope := by
    have hnearest := nearest_beforeName h hf hd hstrays
    rw [hscopes, nearestFunction_congr (hreads.keeps.trans hkeeps) (hreads.grows.trans hgrows)
      (hbounded.live _ .current)] at hnearest
    rw [hprepare]
    exact hnearest
  have hbound : Scope.binds ((l.beforeName pre d).step d.name n).scopes b.scope d.name.token.text
      = true := by
    have hhoists : Hoists ((l.beforeName pre d).prepare d.name) d.name n :=
      (hoists_iff h hf hd).mpr hl
    obtain ⟨sc, hsc, -⟩ := hf.scope
    obtain ⟨sc', hsc', -⟩ := (keeps_readAll b.opened (some d.name.token) (l.upTo pre ++ [d.lead]))
      _ sc hsc
    change Scope.binds (((l.beforeName pre d).prepare d.name).read d.name n).scopes _ _ = true
    rw [hhoists.scopes_read, htarget, hprepare]
    change (l.beforeName pre d).scopes[b.scope]? = _ at hsc'
    rw [binds_iff, Array.getElem?_modify, if_pos rfl, hsc']
    exact ⟨_, rfl, mem_bind_self _ _⟩
  rw [hscopes]
  exact hnames _ _ hbound

end

end VarList

/-- **Each name of a list of `var` in the body of a function declares while the list lasts.** It
declares exactly when no token in an initialiser before it loses the list. And if no token up to it
leads off the way out of the function, the name is then bound in the scope of the function, and
every use of it in the body that no nearer scope shadows refers to that scope. -/
theorem names_declare_iff {b : Braces} {l : VarList b} {pre post : List Declarator} {d : Declarator}
    {tokens : List Token} {tree : ScopeTree} (next : Option Token) (h : b.StandIn tokens tree)
    (hf : b.HoldFunction) (hd : l.declarators = pre ++ d :: post) :
    (Hoists ((l.beforeName pre d).prepare d.name) d.name next ↔ l.Lasts pre) ∧
      (l.Lasts pre →
        Throughout (fun s site => ¬Strays tree.scopes b.opened.depth s site) b.opened
          (l.upTo pre ++ [d.lead]) →
        Scope.binds tree.scopes b.scope d.name.token.text = true ∧
          ∀ o ∈ tree.occurrences, b.brace.index < o.token → o.token < b.closer.index →
            o.name = d.name.token.text →
            (∀ id ∈ tree.ancestors o.scope, b.scope ∈ tree.ancestors id → id ≠ b.scope →
              Scope.binds tree.scopes id o.name = false) →
            tree.resolved o = some b.scope) := by
  refine ⟨VarList.hoists_iff h hf hd, fun hl hstrays => ?_⟩
  have hbinds := VarList.binds_name h hf hd hstrays hl
  exact ⟨hbinds, fun o ho hafter hbefore hname hnearer =>
    h.resolved_eq hf ho hafter hbefore (hname ▸ hbinds) hnearer⟩

set_option maxRecDepth 20000 in
/-- A function without declarations of its own does not lose the list. -/
theorem names_declare_after_function :
    let tokens : List Token := [
      ⟨.keyword .kwFunction, "function", 0⟩, ⟨.blank, " ", 8⟩, ⟨.identifier, "f", 9⟩,
      ⟨.punctuator, "(", 10⟩, ⟨.punctuator, ")", 11⟩, ⟨.punctuator, "\x7b", 12⟩,
      ⟨.keyword .kwVar, "var", 13⟩, ⟨.blank, " ", 16⟩, ⟨.identifier, "a", 17⟩,
      ⟨.punctuator, "=", 18⟩, ⟨.keyword .kwFunction, "function", 19⟩, ⟨.punctuator, "(", 27⟩,
      ⟨.punctuator, ")", 28⟩, ⟨.punctuator, "\x7b", 29⟩, ⟨.punctuator, "\x7d", 30⟩,
      ⟨.punctuator, ",", 31⟩, ⟨.identifier, "c", 32⟩, ⟨.punctuator, "=", 33⟩,
      ⟨.identifier, "a", 34⟩, ⟨.punctuator, ";", 35⟩, ⟨.punctuator, "\x7d", 36⟩]
    let tree : ScopeTree := {
      scopes := #[⟨none, .global, ["f"], false⟩, ⟨some 0, .function, ["a", "c"], false⟩,
        ⟨some 1, .function, [], false⟩]
      inside := #[[1], [2], []]
      occurrences := [⟨2, "f", 0, false⟩, ⟨8, "a", 1, false⟩, ⟨16, "c", 1, false⟩,
        ⟨18, "a", 1, false⟩] }
    let sites := Site.ofTokens tokens
    let b : Braces := {
      before := sites.take 4
      brace := ⟨5, ⟨.punctuator, "\x7b", 12⟩, false, false⟩
      inner := (sites.drop 5).take 13
      closer := ⟨20, ⟨.punctuator, "\x7d", 36⟩, false, false⟩
      opens := rfl
      closes := rfl
      balanced := by decide +kernel }
    let a : Declarator := ⟨⟨6, ⟨.keyword .kwVar, "var", 13⟩, false, false⟩,
      ⟨8, ⟨.identifier, "a", 17⟩, false, false⟩, (sites.drop 7).take 6⟩
    let c : Declarator := ⟨⟨15, ⟨.punctuator, ",", 31⟩, false, false⟩,
      ⟨16, ⟨.identifier, "c", 32⟩, false, false⟩, (sites.drop 15).take 2⟩
    let l : VarList b := {
      front := []
      declarators := [a, c]
      back := (sites.drop 17).take 1
      inner_eq := by decide +kernel
      balanced := rfl
      fits := by
        have ha : a.Fits := ⟨rfl, by decide +kernel, by decide +kernel, by decide +kernel⟩
        have hc : c.Fits := ⟨rfl, by decide +kernel, by decide +kernel, by decide +kernel⟩
        simp [ha, hc]
      var := by simp; rfl
      notProperty := rfl
      notPrivate := rfl
      comma := by simp; rfl }
    tokenize "function f()\x7bvar a=function()\x7b\x7d,c=a;\x7d" = .ok tokens ∧
      b.StandIn tokens tree ∧ b.HoldFunction ∧ l.Lasts [a] ∧
      Throughout (fun s site => ¬Strays tree.scopes b.opened.depth s site) b.opened
        (l.upTo [a] ++ [c.lead]) ∧
      Hoists ((l.beforeName [a] c).prepare c.name) c.name none ∧
      Scope.binds tree.scopes b.scope "c" = true := by
  intro tokens tree sites b a c l
  have htokens : tokenize "function f()\x7bvar a=function()\x7b\x7d,c=a;\x7d" = .ok tokens := by
    rw [tokenize, tokens_eq_runFor]
    decide +kernel
  have hsites : b.sites ++ [] = Site.ofTokens tokens := by decide +kernel
  have hscript : b.StandIn tokens tree := ⟨by decide +kernel, ⟨_, hsites⟩⟩
  have hf : b.HoldFunction := by
    obtain ⟨hkind, hscope, hparams, hname, hclause⟩ : b.opened.top.kind = .functionBody ∧
        b.opened.scopes[b.opened.current]? = some ⟨some 0, .function, [], false⟩ ∧
        b.opened.nextParams = none ∧ b.opened.functionName = none ∧ b.opened.catchScope = none := by
      decide +kernel
    exact ⟨hkind, ⟨_, hscope, rfl⟩, by simp [Waits, hparams, hname, hclause]⟩
  have hlasts : l.Lasts [a] := by
    have hrest : ∀ site ∈ a.rest, site.newline = false ∧ site.token.isPunct ";" = false ∧
        (∀ k ∈ [Keyword.kwVar, .kwLet, .kwConst, .kwIn], site.token.isKeyword k = false) ∧
        site.token.isIdent "of" = false := by decide +kernel
    rw [← List.nil_append [a], VarList.lasts_append_singleton]
    refine ⟨VarList.lasts_nil, fun front site back he => ?_⟩
    obtain ⟨hn, hp, hk, hi⟩ := hrest site (by rw [he]; simp)
    exact not_drops hn hp hk hi
  have hstill : Throughout (fun s site => s.bodiesInside = [] ∧
      (s.prepare site).bodiesInside = [] ∧ s.catchScope = none) b.opened
      (l.upTo [a] ++ [c.lead]) := by decide +kernel
  have hstrays : Throughout (fun s site => ¬Strays tree.scopes b.opened.depth s site) b.opened
      (l.upTo [a] ++ [c.lead]) := hstill.mono fun s site h => not_strays h.1 h.2.1 h.2.2
  have hsplit : l.declarators = [a] ++ c :: [] := rfl
  have hdeclares : Hoists ((l.beforeName [a] c).prepare c.name) c.name none :=
    (names_declare_iff none hscript hf hsplit).1.mpr hlasts
  have hbound : Scope.binds tree.scopes b.scope "c" = true :=
    ((names_declare_iff none hscript hf hsplit).2 hlasts hstrays).1
  exact ⟨htokens, hscript, hf, hlasts, hstrays, hdeclares, hbound⟩

set_option maxRecDepth 20000 in
/-- A `var` in the body of a function that is an initialiser loses the list: the name after it is
not bound, and refers to nothing. -/
theorem name_lost_after_declaration :
    let tokens : List Token := [
      ⟨.keyword .kwFunction, "function", 0⟩, ⟨.blank, " ", 8⟩, ⟨.identifier, "f", 9⟩,
      ⟨.punctuator, "(", 10⟩, ⟨.punctuator, ")", 11⟩, ⟨.punctuator, "\x7b", 12⟩,
      ⟨.keyword .kwVar, "var", 13⟩, ⟨.blank, " ", 16⟩, ⟨.identifier, "a", 17⟩,
      ⟨.punctuator, "=", 18⟩, ⟨.keyword .kwFunction, "function", 19⟩, ⟨.punctuator, "(", 27⟩,
      ⟨.punctuator, ")", 28⟩, ⟨.punctuator, "\x7b", 29⟩, ⟨.keyword .kwVar, "var", 30⟩,
      ⟨.blank, " ", 33⟩, ⟨.identifier, "b", 34⟩, ⟨.punctuator, ";", 35⟩,
      ⟨.punctuator, "\x7d", 36⟩, ⟨.punctuator, ",", 37⟩, ⟨.identifier, "c", 38⟩,
      ⟨.punctuator, ";", 39⟩, ⟨.punctuator, "\x7d", 40⟩]
    let tree : ScopeTree := {
      scopes := #[⟨none, .global, ["f"], false⟩, ⟨some 0, .function, ["a"], false⟩,
        ⟨some 1, .function, ["b"], false⟩]
      inside := #[[1], [2], []]
      occurrences := [⟨2, "f", 0, false⟩, ⟨8, "a", 1, false⟩, ⟨16, "b", 2, false⟩,
        ⟨20, "c", 1, false⟩] }
    let sites := Site.ofTokens tokens
    let b : Braces := {
      before := sites.take 4
      brace := ⟨5, ⟨.punctuator, "\x7b", 12⟩, false, false⟩
      inner := (sites.drop 5).take 14
      closer := ⟨22, ⟨.punctuator, "\x7d", 40⟩, false, false⟩
      opens := rfl
      closes := rfl
      balanced := by decide +kernel }
    let a : Declarator := ⟨⟨6, ⟨.keyword .kwVar, "var", 13⟩, false, false⟩,
      ⟨8, ⟨.identifier, "a", 17⟩, false, false⟩, (sites.drop 7).take 9⟩
    let c : Declarator := ⟨⟨19, ⟨.punctuator, ",", 37⟩, false, false⟩,
      ⟨20, ⟨.identifier, "c", 38⟩, false, false⟩, []⟩
    let l : VarList b := {
      front := []
      declarators := [a, c]
      back := (sites.drop 18).take 1
      inner_eq := by decide +kernel
      balanced := rfl
      fits := by
        have ha : a.Fits := ⟨rfl, by decide +kernel, by decide +kernel, by decide +kernel⟩
        have hc : c.Fits := ⟨rfl, by decide +kernel, by decide +kernel, by decide +kernel⟩
        simp [ha, hc]
      var := by simp; rfl
      notProperty := rfl
      notPrivate := rfl
      comma := by simp; rfl }
    tokenize "function f()\x7bvar a=function()\x7bvar b;\x7d,c;\x7d" = .ok tokens ∧
      b.StandIn tokens tree ∧ b.HoldFunction ∧ l.declarators = [a, c] ∧
      Scope.binds tree.scopes b.scope "c" = false ∧
      ∃ o ∈ tree.occurrences, o.token = c.name.index ∧ o.scope = b.scope ∧
        tree.resolved o = none := by
  intro tokens tree sites b a c l
  have htokens : tokenize "function f()\x7bvar a=function()\x7bvar b;\x7d,c;\x7d" = .ok tokens := by
    rw [tokenize, tokens_eq_runFor]
    decide +kernel
  have hsites : b.sites ++ [] = Site.ofTokens tokens := by decide +kernel
  have hscript : b.StandIn tokens tree := ⟨by decide +kernel, ⟨_, hsites⟩⟩
  have hscope : b.scope = 1 := by decide +kernel
  have hf : b.HoldFunction := by
    obtain ⟨hkind, hsc, hparams, hname, hclause⟩ : b.opened.top.kind = .functionBody ∧
        b.opened.scopes[b.opened.current]? = some ⟨some 0, .function, [], false⟩ ∧
        b.opened.nextParams = none ∧ b.opened.functionName = none ∧ b.opened.catchScope = none := by
      decide +kernel
    exact ⟨hkind, ⟨_, hsc, rfl⟩, by simp [Waits, hparams, hname, hclause]⟩
  refine ⟨htokens, hscript, hf, rfl, by rw [hscope]; rfl, ⟨20, "c", 1, false⟩, ?_, rfl, hscope.symm,
    by decide +kernel⟩
  simp [tree]

end Minify
