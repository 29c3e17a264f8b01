import Mathlib.Tactic.Common
import Minify.Proofs.DeclarationLists

/-!
The names of a list of `var` right inside the body of a function.

Between the declarations all brackets of the list are closed. So from one name to the next the list
is in progress, or an initialiser has lost it for good; and a name declares exactly when no
initialiser before it loses the list.
-/

namespace Minify

open Tracker

namespace VarList

variable {b : Braces} (l : VarList b)

/-- The sites between the brace and a declaration, when those before it are known. -/
def upTo (pre : List Declarator) : List Site := l.front ++ pre.flatMap Declarator.sites

/-- The tracker when a name of the list is about to be read. -/
def beforeName (pre : List Declarator) (d : Declarator) : Tracker :=
  b.opened.readAll (some d.name.token) (l.upTo pre ++ [d.lead])

def afterName (pre : List Declarator) (d : Declarator) : Tracker :=
  (l.beforeName pre d).step d.name (d.rest.head?.map Site.token)

/-- No token of an initialiser loses the list. -/
def Passes (pre : List Declarator) (d : Declarator) : Prop :=
  Throughout (fun s site => ¬Drops b.opened.depth s site) (l.afterName pre d) d.rest

/-- No initialiser of some declarations loses the list. -/
def Lasts (pre : List Declarator) : Prop :=
  ∀ pre' d post, pre = pre' ++ d :: post → l.Passes pre' d

variable {l} {pre post : List Declarator} {d : Declarator} {tokens : List Token} {tree : ScopeTree}
variable {next : Option Token}

/-! ### Places in the list -/

lemma lead_var (hd : l.declarators = d :: post) : d.lead.token.isKeyword .kwVar = true :=
  l.var d (by rw [hd]; rfl)

lemma lead_comma (hd : l.declarators = pre ++ d :: post) (hp : pre ≠ []) :
    d.lead.token.isPunct "," = true := by
  refine l.comma d ?_
  obtain ⟨x, pre, rfl⟩ := List.exists_cons_of_ne_nil hp
  rw [hd]
  exact List.mem_append_right _ List.mem_cons_self

lemma leads (hd : l.declarators = pre ++ d :: post) : Braces.Leads d.lead := by
  by_cases hp : pre = []
  · subst hp
    exact .inl (lead_var hd)
  · exact .inr (lead_comma hd hp)

lemma bracket_of_leads {lead : Site} (h : Braces.Leads lead) : Site.bracket lead.token = .none := by
  simp only [Braces.Leads, Token.isKeyword, Token.isPunct, Bool.and_eq_true, beq_iff_eq] at h
  rcases h with h | h
  · simp [Site.bracket, h]
  · simp [Site.bracket, h.1, h.2]

lemma fits_of_eq (hd : l.declarators = pre ++ d :: post) : d.Fits :=
  l.fits d (by rw [hd]; exact List.mem_append_right _ List.mem_cons_self)

lemma foldlM_lead_name (hd : l.declarators = pre ++ d :: post) (sites : List Site)
    (stack : List (Char × Nat)) :
    ((d.lead :: d.name :: sites).map Site.token).foldlM Brackets.step stack
      = (sites.map Site.token).foldlM Brackets.step stack := by
  have hlead := bracket_of_leads (leads hd)
  have hname : Site.bracket d.name.token = .none := by simp [Site.bracket, (fits_of_eq hd).name]
  simp only [List.map_cons, List.foldlM_cons, Brackets.step, hlead, hname]
  rfl

lemma balanced_upTo (hd : l.declarators = pre ++ post) :
    ((l.upTo pre).map Site.token).foldlM Brackets.step [] = .ok [] := by
  have hfront := Brackets.check_eq_ok.mp l.balanced
  induction pre using List.reverseRecOn generalizing post with
  | nil => simpa [upTo] using hfront
  | append_singleton init d ih =>
    rw [List.append_assoc, List.singleton_append] at hd
    have hrest := Brackets.check_eq_ok.mp (fits_of_eq hd).balanced
    have hsites : l.upTo (init ++ [d]) = l.upTo init ++ d.sites := by
      simp [upTo, List.append_assoc]
    rw [hsites, List.map_append, List.foldlM_append, ih hd]
    exact (foldlM_lead_name hd d.rest []).trans hrest

lemma balanced_name (hd : l.declarators = pre ++ d :: post) :
    ((l.upTo pre ++ [d.lead]).map Site.token).foldlM Brackets.step [] = .ok [] := by
  have hlead := bracket_of_leads (leads hd)
  rw [List.map_append, List.foldlM_append, balanced_upTo hd]
  change List.foldlM Brackets.step [] [d.lead.token] = _
  rw [List.foldlM_cons, Brackets.step, hlead]
  rfl

lemma balanced_rest (hd : l.declarators = pre ++ d :: post) :
    ((l.upTo pre ++ [d.lead, d.name]).map Site.token).foldlM Brackets.step [] = .ok [] := by
  rw [List.map_append, List.foldlM_append, balanced_upTo hd]
  exact foldlM_lead_name hd [] []

lemma beforeName_eq (l : VarList b) (pre : List Declarator) (d : Declarator) : l.beforeName pre d
    = (b.opened.readAll (some d.lead.token) (l.upTo pre)).step d.lead (some d.name.token) := by
  rw [beforeName, readAll_append]
  rfl

lemma afterName_eq (l : VarList b) (pre : List Declarator) (d : Declarator) (n : Option Token) :
    (l.beforeName pre d).step d.name n = b.opened.readAll n (l.upTo pre ++ [d.lead, d.name]) := by
  have hsplit : l.upTo pre ++ [d.lead, d.name] = (l.upTo pre ++ [d.lead]) ++ [d.name] := by simp
  rw [hsplit, readAll_append]
  rfl

lemma before_beforeName (l : VarList b) (pre : List Declarator) (d : Declarator) :
    (l.beforeName pre d).before
      = d.lead :: (b.opened.readAll (some d.lead.token) (l.upTo pre)).before := by
  rw [beforeName_eq, before_step]

lemma readAll_upTo (l : VarList b) (pre : List Declarator) (d : Declarator) (n : Option Token) :
    b.opened.readAll n (l.upTo (pre ++ [d]))
      = ((l.beforeName pre d).step d.name ((d.rest.head?.map Site.token).or n)).readAll
        n d.rest := by
  have hsplit : l.upTo (pre ++ [d]) = (l.upTo pre ++ [d.lead, d.name]) ++ d.rest := by
    simp [upTo, Declarator.sites, List.append_assoc]
  rw [hsplit, readAll_append, afterName_eq]

/-- The token after an initialiser has no part in whether it loses the list. -/
lemma passes_iff (l : VarList b) (pre : List Declarator) (d : Declarator) (n : Option Token) :
    l.Passes pre d ↔ Throughout (fun s site => ¬Drops b.opened.depth s site)
      ((l.beforeName pre d).step d.name ((d.rest.head?.map Site.token).or n)) d.rest := by
  unfold Passes afterName
  cases d.rest with
  | nil =>
    have hnone (s : Tracker) : Throughout (fun s site => ¬Drops b.opened.depth s site) s [] := by
      intro front site back he
      cases front <;> cases he
    exact iff_of_true (hnone _) (hnone _)
  | cons site rest => rfl

lemma lasts_nil : l.Lasts [] := by
  intro pre' d post he
  cases pre' <;> cases he

lemma lasts_append_singleton : l.Lasts (pre ++ [d]) ↔ l.Lasts pre ∧ l.Passes pre d := by
  constructor
  · refine fun h => ⟨fun pre' d' post he => h pre' d' (post ++ [d]) ?_, h pre d [] rfl⟩
    rw [he, List.append_assoc, List.cons_append]
  · rintro ⟨h, hd⟩ pre' d' post he
    rcases List.eq_nil_or_concat post with rfl | ⟨post, x, rfl⟩
    · obtain ⟨rfl, hx⟩ := List.append_inj' he rfl
      cases hx
      exact hd
    · rw [List.concat_eq_append, ← List.cons_append, ← List.append_assoc] at he
      obtain ⟨he, -⟩ := List.append_inj' he rfl
      exact h pre' d' post he

/-! ### The list in progress -/

/-- After the name of a declaration the tracker is in the braces of the body. -/
lemma inside_afterName (h : b.StandIn tokens tree) (hd : l.declarators = pre ++ d :: post)
    (n : Option Token) : Inside b.opened.stack (bodiesBelow b.opened.depth b.opened.openBodies) 0
      ((l.beforeName pre d).step d.name ((d.rest.head?.map Site.token).or n)) := by
  have hbase : b.opened.stack ≠ [] := List.cons_ne_nil _ _
  rw [afterName_eq]
  exact h.inside_opened.readAll hbase _ (balanced_rest hd)

lemma lost_rest (h : b.StandIn tokens tree) (hd : l.declarators = pre ++ d :: post)
    (hp : pre ≠ []) (n : Option Token)
    (hl : Lost b.opened.depth (b.opened.readAll (some d.lead.token) (l.upTo pre))) :
    Lost b.opened.depth (l.beforeName pre d) ∧
      Lost b.opened.depth (b.opened.readAll n (l.upTo (pre ++ [d]))) := by
  have hbase : b.opened.stack ≠ [] := List.cons_ne_nil _ _
  have hlength : b.opened.stack.length = b.opened.depth := length_stack _
  have hcomma := lead_comma hd hp
  have hname := (fits_of_eq hd).name
  have hfirst : Lost b.opened.depth (l.beforeName pre d) := by
    rw [beforeName_eq]
    refine hl.step fun _ hread => ?_
    simp only [Token.isPunct, Bool.and_eq_true, beq_iff_eq] at hcomma
    rw [hread.kind] at hcomma
    cases hcomma.1
  refine ⟨hfirst, ?_⟩
  rw [readAll_upTo]
  have hinside := inside_afterName h hd n
  set m := (d.rest.head?.map Site.token).or n
  refine Lost.readAll (hfirst.step fun _ hread => ?_)
    (hlength ▸ (fits_of_eq hd).plain hinside hbase)
  rw [hread.kind] at hname
  cases hname

variable (h : b.StandIn tokens tree) (hf : b.HoldFunction)
include h hf

lemma atBody_lead (hd : l.declarators = pre ++ d :: post) (n : Option Token) :
    b.AtBody (b.opened.readAll n (l.upTo pre)) := h.atBody hf (balanced_upTo hd) n

lemma atBody_beforeName (hd : l.declarators = pre ++ d :: post) : b.AtBody (l.beforeName pre d) :=
  h.atBody hf (balanced_name hd) _

lemma readsKeyword_first (hd : l.declarators = d :: post) : ReadsKeyword
    ((b.opened.readAll (some d.lead.token) (l.upTo [])).prepare d.lead) d.lead .kwVar := by
  have hfront : l.upTo [] = l.front := by simp [upTo]
  have hbrace : ∀ before : List Site, afterDot (b.brace :: before) = false ∧
      prevIs (b.brace :: before) "#" = false := by
    have hopens := b.opens
    simp only [Token.isPunct, Bool.and_eq_true, beq_iff_eq] at hopens
    simp [afterDot, prevIs, Token.isPunct, hopens.1, hopens.2]
  obtain ⟨n, next, hopened, -⟩ := b.opened_eq
  have hbefore : (b.opened.readAll (some d.lead.token) (l.upTo [])).before
      = l.front.reverse ++ b.brace :: (start.readAll n b.before).before := by
    rw [before_readAll, hfront, hopened, before_step]
  have hnone : l.declarators = [] ++ d :: post := hd
  refine (atBody_lead h hf hnone _).readsKeyword_var (lead_var hd) ?_ ?_
  · rw [hbefore]
    have hnot := l.notProperty
    cases hr : l.front.reverse with
    | nil => exact (hbrace _).1
    | cons x xs =>
      rw [hr] at hnot
      exact hnot
  · rw [hbefore]
    have hnot := l.notPrivate
    cases hr : l.front.reverse with
    | nil => exact (hbrace _).2
    | cons x xs =>
      rw [hr] at hnot
      exact hnot

lemma lists_first (hd : l.declarators = d :: post) :
    Lists b.opened.depth true (l.beforeName [] d) := by
  have hnone : l.declarators = [] ++ d :: post := hd
  rw [beforeName_eq]
  exact (atBody_lead h hf hnone _).lists_var (readsKeyword_first h hf hd)

/-- An initialiser leaves the list in progress, or loses it for good. -/
lemma lists_rest (hd : l.declarators = pre ++ d :: post)
    (hl : Lists b.opened.depth true (l.beforeName pre d)) (n : Option Token) :
    (l.Passes pre d → Lists b.opened.depth false (b.opened.readAll n (l.upTo (pre ++ [d])))) ∧
      (¬l.Passes pre d → Lost b.opened.depth (b.opened.readAll n (l.upTo (pre ++ [d])))) := by
  have hbase : b.opened.stack ≠ [] := List.cons_ne_nil _ _
  have hlength : b.opened.stack.length = b.opened.depth := length_stack _
  rw [passes_iff l pre d n, readAll_upTo]
  have hinside := inside_afterName h hd n
  set m := (d.rest.head?.map Site.token).or n
  have hbounded : Bounded ((l.beforeName pre d).step d.name m) := by
    rw [afterName_eq]
    exact bounded_readAll _ _ (bounded_readAll _ _ bounded_start)
  have hname : Lists b.opened.depth false ((l.beforeName pre d).step d.name m) :=
    (atBody_beforeName h hf hd).lists_name hl (before_beforeName l pre d) (leads hd)
      (fits_of_eq hd).name
  have hplain := (fits_of_eq hd).plain hinside hbase
  have hbalanced := Brackets.check_eq_ok.mp (fits_of_eq hd).balanced
  rw [← hlength] at hname ⊢
  exact ⟨fun hp => hname.readAll hinside hbase hbounded hbalanced hplain hp,
    fun hp => hname.lost_readAll hinside hbase hbounded hbalanced hplain hp⟩

/-- After some declarations the list is in progress, or one of them has lost it. -/
lemma lists_upTo (hd : l.declarators = pre ++ post) (hp : pre ≠ []) (n : Option Token) :
    (l.Lasts pre → Lists b.opened.depth false (b.opened.readAll n (l.upTo pre))) ∧
      (¬l.Lasts pre → Lost b.opened.depth (b.opened.readAll n (l.upTo pre))) := by
  induction pre using List.reverseRecOn generalizing post n with
  | nil => exact absurd rfl hp
  | append_singleton init d ih =>
    rw [List.append_assoc, List.singleton_append] at hd
    rw [lasts_append_singleton]
    by_cases hinit : init = []
    · subst hinit
      have hrest := lists_rest h hf hd (lists_first h hf hd) n
      exact ⟨fun hl => hrest.1 hl.2, fun hl => hrest.2 fun hpass => hl ⟨lasts_nil, hpass⟩⟩
    · have hbefore := ih hd hinit (some d.lead.token)
      by_cases hlasts : l.Lasts init
      · have hname : Lists b.opened.depth true (l.beforeName init d) := by
          rw [beforeName_eq]
          exact (atBody_lead h hf hd _).lists_comma (lead_comma hd hinit) (hbefore.1 hlasts)
        have hrest := lists_rest h hf hd hname n
        exact ⟨fun hl => hrest.1 hl.2, fun hl => hrest.2 fun hpass => hl ⟨hlasts, hpass⟩⟩
      · exact ⟨fun hl => absurd hl.1 hlasts,
          fun _ => (lost_rest h hd hinit n (hbefore.2 hlasts)).2⟩

/-- A name of the list declares exactly when no initialiser before it loses the list. -/
lemma hoists_iff (hd : l.declarators = pre ++ d :: post) :
    Hoists ((l.beforeName pre d).prepare d.name) d.name next ↔ l.Lasts pre := by
  have hbody := atBody_beforeName h hf hd
  have hbefore := before_beforeName l pre d
  by_cases hp : pre = []
  · subst hp
    exact iff_of_true (hbody.hoists_name (lists_first h hf hd) hbefore (leads hd)
      (fits_of_eq hd).name)
      lasts_nil
  · have hlead := lists_upTo h hf hd hp (some d.lead.token)
    by_cases hlasts : l.Lasts pre
    · refine iff_of_true (hbody.hoists_name ?_ hbefore (leads hd) (fits_of_eq hd).name) hlasts
      rw [beforeName_eq]
      exact (atBody_lead h hf hd _).lists_comma (lead_comma hd hp) (hlead.1 hlasts)
    · have hlost := (lost_rest h hd hp none (hlead.2 hlasts)).1
      exact iff_of_false (hbody.not_hoists_name hlost hbefore (lead_comma hd hp)) hlasts

end VarList

end Minify
