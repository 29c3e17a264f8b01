import Mathlib
import Minify.Proofs.LeftBehind
import Minify.Proofs.LexerRun
import Minify.Proofs.SitesInScript

/-!
The scopes of blocks and functions end with their braces, or they do not.

A pair of braces with a scope of its own is followed through the script. What stands between the
braces leaves the frames and bodies outside alone, so at the closing brace the scope is sealed
unless something lingers in it. And when something does, a few tokens put in right after the brace
make a script, with the same sites up to there, that records a name inside the scope.
-/

namespace Minify

open Tracker

/-- A brace, the one that closes it, what stands between them, and all that stands before. -/
structure Braces where
  before : List Site
  brace : Site
  inner : List Site
  closer : Site
  opens : brace.token.isPunct "\x7b" = true
  closes : closer.token.isPunct "\x7d" = true
  balanced : Brackets.check (inner.map Site.token) = .ok ()

namespace Braces

variable (b : Braces)

def sites : List Site := b.before ++ b.brace :: (b.inner ++ [b.closer])

/-- The tracker when the opening brace has been read. -/
def opened : Tracker :=
  start.readAll ((b.inner ++ [b.closer]).head?.map Site.token) (b.before ++ [b.brace])

/-- The scope that the braces are for. -/
def scope : ScopeId := b.opened.current

def reached : Tracker := b.opened.readAll (some b.closer.token) b.inner

/-- The tracker when the closing brace is about to be read. -/
def closing : Tracker := b.reached.prepare b.closer

/-- The braces stand in a script, which has the scopes of a tree. -/
structure StandIn (tokens : List Token) (tree : ScopeTree) : Prop where
  accepted : ScopeTree.ofTokens tokens = .ok tree
  stands : b.sites <+: Site.ofTokens tokens

/-- After the braces, nothing is recorded in their scope or inside it. -/
structure Ends (tree : ScopeTree) : Prop where
  occurrence : ∀ o ∈ tree.occurrences, b.closer.index < o.token →
    b.scope ∉ tree.ancestors o.scope
  binding : ∀ id name, b.scope ∈ tree.ancestors id →
    Scope.binds tree.scopes id name = true → Scope.binds b.closing.scopes id name = true

variable {b} {tokens : List Token} {tree : ScopeTree} {after : List Site}

lemma readAll_sites (n : Option Token) : start.readAll n b.sites = b.reached.step b.closer n := by
  have hsplit : b.sites = (b.before ++ [b.brace]) ++ (b.inner ++ [b.closer]) := by
    simp [sites]
  have hhead : ((b.inner ++ [b.closer]).head?.map Site.token).or n
      = (b.inner ++ [b.closer]).head?.map Site.token := by
    cases b.inner <;> rfl
  rw [hsplit, readAll_append, hhead, readAll_append]
  rfl

lemma foldlM_of_accepted (h : ScopeTree.ofTokens tokens = .ok tree) :
    tokens.foldlM Brackets.step [] = .ok [] := by
  rw [ScopeTree.ofTokens_eq] at h
  cases hc : Brackets.check tokens with
  | error e => rw [hc] at h; cases h
  | ok u => exact Brackets.check_eq_ok.mp hc

lemma bracket_brace : Site.bracket b.brace.token = .opens '\x7b' := by
  have h := b.opens
  simp only [Token.isPunct, Bool.and_eq_true, beq_iff_eq] at h
  simp only [Site.bracket, h.1, h.2]

lemma StandIn.exists_stack (h : b.StandIn tokens tree) :
    ∃ stack, (b.before.map Site.token).foldlM Brackets.step [] = .ok stack := by
  obtain ⟨after, hafter⟩ := h.stands
  have hfold := (Site.foldlM_step_ofTokens tokens []).trans (foldlM_of_accepted h.accepted)
  rw [← hafter, sites, List.append_assoc, List.map_append] at hfold
  obtain ⟨stack, hstack, -⟩ := Brackets.foldlM_append_eq_ok hfold
  exact ⟨stack, hstack⟩

lemma foldlM_opened {stack : List (Char × Nat)}
    (h : (b.before.map Site.token).foldlM Brackets.step [] = .ok stack) :
    ((b.before ++ [b.brace]).map Site.token).foldlM Brackets.step []
      = .ok (('\x7b', b.brace.token.start) :: stack) := by
  rw [List.map_append, List.foldlM_append, h]
  change List.foldlM Brackets.step stack [b.brace.token] = _
  rw [List.foldlM_cons, Brackets.step, bracket_brace]
  rfl

lemma inside_start :
    Inside [(.root, ScopeTree.global)] [] ([] : List (Char × Nat)).length start :=
  ⟨⟨[], rfl, rfl⟩, rfl, ⟨.nil, fun _ hb => (List.not_mem_nil hb).elim⟩⟩

lemma StandIn.inside_script (h : b.StandIn tokens tree) :
    ∃ n, Inside [(.root, ScopeTree.global)] [] (n + 1) b.opened := by
  obtain ⟨stack, hstack⟩ := h.exists_stack
  exact ⟨stack.length, inside_readAll inside_start (List.cons_ne_nil _ _) _ (foldlM_opened hstack)⟩

lemma StandIn.inside_opened (h : b.StandIn tokens tree) :
    Inside b.opened.stack (bodiesBelow b.opened.depth b.opened.openBodies) 0 b.opened := by
  obtain ⟨n, hopened⟩ := h.inside_script
  refine ⟨⟨[], rfl, rfl⟩, ?_, hopened.tidy⟩
  rw [length_stack]

/-- Between the braces the tracker goes back to where it was. -/
lemma StandIn.between (h : b.StandIn tokens tree) (hown : b.opened.Owns) :
    Between b.opened b.reached := by
  obtain ⟨n, hopened⟩ := h.inside_script
  refine ⟨bounded_readAll _ _ bounded_start, hown, ?_, grows_readAll _ _ _, ?_⟩
  · have hdepth := hopened.depth
    rw [Tracker.depth, List.length_singleton] at hdepth
    exact List.ne_nil_of_length_pos (by omega)
  · exact inside_readAll h.inside_opened (List.cons_ne_nil _ _) _
      (Brackets.check_eq_ok.mp b.balanced)

/-! ### Nothing lingers -/

/-- An occurrence that sites record stands at one of them. -/
lemma exists_site_of_mem_readAll {s : Tracker} {next : Option Token} {sites : List Site}
    {o : Occurrence} (h : o ∈ (s.readAll next sites).occurrences) :
    o ∈ s.occurrences ∨ ∃ site ∈ sites, o.token = site.index := by
  induction sites generalizing s with
  | nil => exact .inl h
  | cons site rest ih =>
    rcases ih h with h | ⟨x, hx, hindex⟩
    · rcases (reads_step s site _).mem_occurrences h with h | h
      · exact .inl h
      · exact .inr ⟨site, List.mem_cons_self, h⟩
    · exact .inr ⟨x, List.mem_cons_of_mem _ hx, hindex⟩

/-- What was recorded up to the closing brace stands before it. -/
lemma StandIn.token_le (h : b.StandIn tokens tree) {n : Option Token} {o : Occurrence}
    (ho : o ∈ (b.reached.step b.closer n).occurrences) : o.token ≤ b.closer.index := by
  obtain ⟨after, hafter⟩ := h.stands
  have hsorted := Site.ofTokens_pairwise tokens
  have hlast : b.sites = (b.before ++ b.brace :: b.inner) ++ [b.closer] := by
    simp [sites]
  rw [← hafter, hlast] at hsorted
  have hbefore := (List.pairwise_append.mp (List.pairwise_append.mp hsorted).1).2.2
  rw [← readAll_sites] at ho
  rcases exists_site_of_mem_readAll ho with ho | ⟨site, hsite, he⟩
  · exact (List.not_mem_nil ho).elim
  · rw [hlast, List.mem_append, List.mem_singleton] at hsite
    rcases hsite with hsite | rfl
    · exact Nat.le_of_lt (he ▸ hbefore site hsite b.closer List.mem_cons_self)
    · exact Nat.le_of_eq he

lemma StandIn.exists_after (h : b.StandIn tokens tree) :
    ∃ n after, tree.scopes = ((b.reached.step b.closer n).readAll none after).scopes ∧
      tree.occurrences = ((b.reached.step b.closer n).readAll none after).occurrences.reverse := by
  obtain ⟨after, hafter⟩ := h.stands
  obtain ⟨hscopes, hoccurrences, -⟩ := ScopeTree.eq_of_ofTokens h.accepted
  rw [← hafter, run_append, readAll_sites, run_eq_readAll] at hscopes hoccurrences
  exact ⟨_, after, hscopes, hoccurrences⟩

/-- The scope ends with the braces when nothing lingers in it. -/
lemma StandIn.ends (h : b.StandIn tokens tree) (hown : b.opened.Owns)
    (hl : ¬Lingers b.scope b.closing) : b.Ends tree := by
  have hbetween := h.between hown
  have hbounded : Bounded b.reached := bounded_readAll _ _ (bounded_readAll _ _ bounded_start)
  obtain ⟨n, after, hscopes, hoccurrences⟩ := h.exists_after
  have hover : Over b.scope (b.reached.step b.closer n) := over_step hbetween hbounded b.closes hl
  obtain ⟨-, huntouched⟩ := over_readAll none after hover
  refine ⟨fun o ho hlater => ?_, fun id name hid hn => ?_⟩
  · rw [hoccurrences, List.mem_reverse] at ho
    rw [ScopeTree.ancestors, hscopes]
    rcases huntouched.occurrence o ho with ho | ho
    · exact absurd (h.token_le ho) (Nat.not_le.mpr hlater)
    · exact ho
  · rw [ScopeTree.ancestors, hscopes] at hid
    rw [hscopes] at hn
    have hn := huntouched.binding id name hid hn
    rwa [hbetween.scopes_step b.closes] at hn

/-! ### Something lingers -/

lemma foldlM_probe {inner : List Token} (h : inner ∈ probes) (stack : List (Char × Nat)) :
    (probe inner).foldlM Brackets.step stack = .ok stack := by
  simp only [probes, List.mem_cons, List.not_mem_nil, or_false] at h
  rcases h with rfl | rfl | rfl | rfl <;> rfl

lemma significant_plain {ts : List Token} (hts : ∀ t ∈ ts, t.isTrivia = false) (i : Nat)
    (more : List Token) : Site.significant i false (ts ++ more)
      = plainSites i ts ++ Site.significant (i + ts.length) false more := by
  induction ts generalizing i with
  | nil => rfl
  | cons t ts ih =>
    rcases Site.significant_cons i false t with ⟨ht, -⟩ | ⟨-, he⟩
    · rw [hts t List.mem_cons_self] at ht
      cases ht
    · rw [List.cons_append, he, ih fun t' ht' => hts t' (List.mem_cons_of_mem _ ht'),
        List.length_cons, Nat.add_right_comm, Nat.add_assoc]
      rfl

lemma markArrows_probe {inner : List Token} (h : inner ∈ probes) (i : Nat) (rest : List Site) :
    Site.markArrows (plainSites i (probe inner) ++ rest)
      = (plainSites i (probe inner) ++ (Site.markArrows rest).1, (Site.markArrows rest).2) := by
  simp only [probes, List.mem_cons, List.not_mem_nil, or_false] at h
  rcases h with rfl | rfl | rfl | rfl <;> rfl

lemma exists_of_balanced (h : tokens.foldlM Brackets.step [] = .ok []) :
    ∃ tree, ScopeTree.ofTokens tokens = .ok tree :=
  ⟨_, ScopeTree.ofTokens_of_check (Brackets.check_eq_ok.mpr h)⟩

/-- The brackets open before the closing brace, the innermost of which is the brace. -/
lemma StandIn.exists_stack_closer (h : b.StandIn tokens tree) :
    ∃ stack : List (Char × Nat), ((b.before ++ b.brace :: b.inner).map Site.token).foldlM
      Brackets.step [] = .ok (('\x7b', b.brace.token.start) :: stack) := by
  obtain ⟨stack, hstack⟩ := h.exists_stack
  have hinner := Brackets.foldlM_step_append (Brackets.check_eq_ok.mp b.balanced)
    (('\x7b', b.brace.token.start) :: stack)
  refine ⟨stack, ?_⟩
  rw [List.append_cons, List.map_append, List.foldlM_append, foldlM_opened hstack]
  exact hinner

/-- The tokens of a script with the braces, and the sites before its trivia and marks are added. -/
lemma StandIn.exists_significant (h : b.StandIn tokens tree) :
    ∃ xs ys, ∃ c : Site, Site.significant 0 false tokens = xs ++ c :: ys ∧
      xs.map Site.token = (b.before ++ b.brace :: b.inner).map Site.token ∧
      c.token = b.closer.token ∧ c.index = b.closer.index := by
  obtain ⟨after, hafter⟩ := h.stands
  have hplain := Site.map_plain_ofTokens tokens
  have hsites : b.sites ++ after = (b.before ++ b.brace :: b.inner) ++ b.closer :: after := by
    simp [sites]
  rw [← hafter, hsites, List.map_append, List.map_cons] at hplain
  obtain ⟨xs, rest, hsig, hxs, hrest⟩ := List.map_eq_append_iff.mp hplain.symm
  obtain ⟨c, ys, rfl, hc, -⟩ := List.map_eq_cons_iff.mp hrest
  have htoken : c.plain.token = b.closer.plain.token := congrArg Site.token hc
  have hindex : c.plain.index = b.closer.plain.index := congrArg Site.index hc
  refine ⟨xs, ys, c, hsig, ?_, htoken, hindex⟩
  have htokens := congrArg (List.map Site.token) hxs
  rw [List.map_map, List.map_map] at htokens
  exact htokens

/-- A probe leaves the brackets of a script balanced, wherever it stands. -/
lemma foldlM_with_probe {inner front rest : List Token} (hi : inner ∈ probes)
    (h : (front ++ rest).foldlM Brackets.step [] = .ok []) :
    (front ++ (probe inner ++ rest)).foldlM Brackets.step [] = .ok [] := by
  obtain ⟨mid, hmid, hlast⟩ := Brackets.foldlM_append_eq_ok h
  rw [List.foldlM_append, hmid]
  change (probe inner ++ rest).foldlM Brackets.step mid = _
  rw [List.foldlM_append, foldlM_probe hi]
  exact hlast

lemma not_trivia_of_mem_probe {inner : List Token} (hi : inner ∈ probes) :
    ∀ t ∈ probe inner, t.isTrivia = false := by
  simp only [probes, List.mem_cons, List.not_mem_nil, or_false] at hi
  rcases hi with rfl | rfl | rfl | rfl <;> decide

lemma marks_with_probe {inner : List Token} (hi : inner ∈ probes) (i : Nat) (rest : List Token) :
    (Site.markArrows (Site.significant i false rest)).2
      = (Site.markArrows (Site.significant i false (probe inner ++ rest))).2 := by
  rw [significant_plain (not_trivia_of_mem_probe hi), markArrows_probe hi]
  exact Site.markArrows_snd_congr (by rw [Site.map_token_significant, Site.map_token_significant])

/-- A probe can be put into the script right after the closing brace. -/
lemma StandIn.insert (h : b.StandIn tokens tree) {inner : List Token} (hi : inner ∈ probes) :
    ∃ tokens' tree' rest, ScopeTree.ofTokens tokens' = .ok tree' ∧
      Site.ofTokens tokens'
        = b.sites ++ (plainSites (b.closer.index + 1) (probe inner) ++ rest) := by
  obtain ⟨stack, hstack⟩ := h.exists_stack_closer
  obtain ⟨xs, ys, c, hsig, hxs, hctoken, hcindex⟩ := h.exists_significant
  obtain ⟨k, -, hmore⟩ := Site.significant_take hsig
  obtain ⟨after, hafter⟩ := h.stands
  -- The script with the probe, and that its brackets are balanced.
  set rest := tokens.drop (k + 1) with hrest
  have htokens : tokens.take (k + 1) ++ rest = tokens := List.take_append_drop _ _
  have hbalanced : (tokens.take (k + 1) ++ (probe inner ++ rest)).foldlM Brackets.step []
      = .ok [] := by
    refine foldlM_with_probe hi ?_
    rw [htokens]
    exact foldlM_of_accepted h.accepted
  obtain ⟨tree', htree'⟩ := exists_of_balanced hbalanced
  -- The sites up to the brace keep their marks.
  have hcloses : Site.bracket c.token = .closes '\x7d' := hctoken ▸ bracket_of_closing b.closes
  have hmarks := marks_with_probe hi (c.index + 1) rest
  have hagree : Site.Agree (('\x7b', b.brace.token.start) :: stack)
      (Site.markArrows (c :: Site.significant (c.index + 1) false rest)).2
      (Site.markArrows (c :: Site.significant (c.index + 1) false (probe inner ++ rest))).2 := by
    refine ⟨fun hc => absurd hc (by decide), ?_⟩
    simp only [Site.markArrows, hcloses, List.tail_cons, hmarks]
    exact Site.Agree.refl _ _
  have hcons (sites : List Site) :
      (Site.markArrows (c :: sites)).1 = c :: (Site.markArrows sites).1 := by
    simp only [Site.markArrows, hcloses]
  have hhead (sites sites' : List Site) :
      ((c :: sites).head?.any fun n => n.token.isPunct "=>")
        = (c :: sites').head?.any fun n => n.token.isPunct "=>" := rfl
  obtain ⟨-, ms, hlen, hms, hms'⟩ := Site.markArrows_append (hxs ▸ hstack) (hhead _ _) hagree
  have hsplit : ms ++ c :: (Site.markArrows (Site.significant (c.index + 1) false rest)).1
      = (b.before ++ b.brace :: b.inner) ++ b.closer :: after := by
    rw [← hcons, ← hms, ← hmore, htokens]
    rw [← Site.ofTokens_eq_markArrows (Brackets.check_eq_ok.mpr (foldlM_of_accepted h.accepted)),
      ← hafter]
    simp [sites]
  have hlength : ms.length = (b.before ++ b.brace :: b.inner).length := by
    rw [hlen, ← List.length_map, hxs, List.length_map]
  obtain ⟨rfl, htail⟩ := List.append_inj hsplit hlength
  obtain ⟨rfl, -⟩ := List.cons_eq_cons.mp htail
  refine ⟨_, tree', (Site.markArrows (Site.significant (b.closer.index + 1 + (probe inner).length)
    false rest)).1, htree', ?_⟩
  rw [Site.ofTokens_eq_markArrows (Brackets.check_eq_ok.mpr hbalanced), hmore, hms', hcons,
    significant_plain (not_trivia_of_mem_probe hi),
    markArrows_probe hi]
  simp [sites]

/-- Some script with the braces records a name in their scope when something lingers there. -/
lemma StandIn.exists_not_ends (h : b.StandIn tokens tree) (hown : b.opened.Owns)
    (hl : Lingers b.scope b.closing) :
    ∃ tokens' tree', b.StandIn tokens' tree' ∧ ¬b.Ends tree' := by
  have hbetween := h.between hown
  obtain ⟨id, hlive, hid, inner, hinner, j, hj, hrec⟩ :=
    reaches_of_lingers (i := b.closer.index + 1) hbetween b.closes hl
  obtain ⟨tokens', tree', rest, haccepted, hsites⟩ := h.insert hinner
  refine ⟨tokens', tree', ⟨haccepted, ⟨_, hsites.symm⟩⟩, fun hends => ?_⟩
  -- The script ends in a tracker that has read the probe.
  obtain ⟨hscopes, hoccurrences, -⟩ := ScopeTree.eq_of_ofTokens haccepted
  have hrun : start.run (Site.ofTokens tokens')
      = ((b.reached.step b.closer (some elseToken)).readAll (rest.head?.map Site.token)
          (plainSites (b.closer.index + 1) (probe inner))).run rest := by
    rw [hsites, run_append, readAll_sites, run_append]
    rfl
  rw [hrun, run_eq_readAll] at hscopes hoccurrences
  obtain ⟨o, ho, htoken, hscope⟩ := (hrec (rest.head?.map Site.token)).mono
    (grows_readAll _ none rest)
  refine hends.occurrence o (by rw [hoccurrences, List.mem_reverse]; exact ho) (by omega) ?_
  -- The way outwards from the scope is the one at the brace.
  have hbounded : Bounded b.closing :=
    (quiet_prepare _).bounded (bounded_readAll _ _ (bounded_readAll _ _ bounded_start))
  have hgrows := ((grows_prepare b.reached b.closer (some elseToken)).trans
    (grows_readAll _ (rest.head?.map Site.token)
    (plainSites (b.closer.index + 1) (probe inner)))).trans (grows_readAll _ none rest)
  rw [ScopeTree.ancestors, hscopes, hscope, hgrows.ancestors (hbounded.live id hlive)]
  exact hid

end Braces

/-- **Scopes end with their braces, unless something lingers.** Braces that opened a scope of their
own end it in every script they stand in exactly when, at the closing brace, the outermost of the
bodies without braces begun inside did not begin in the scope, and no function or catch clause of
the scope still waits for its name or its parameters. -/
theorem scopes_end_iff (b : Braces) (hscript : ∃ tokens tree, b.StandIn tokens tree)
    (hown : b.opened.Owns) :
    (∀ tokens tree, b.StandIn tokens tree → b.Ends tree) ↔ ¬Lingers b.scope b.closing := by
  constructor
  · intro hends hl
    obtain ⟨tokens, tree, h⟩ := hscript
    obtain ⟨tokens', tree', h', hnot⟩ := h.exists_not_ends hown hl
    exact hnot (hends tokens' tree' h')
  · intro hl tokens tree h
    exact h.ends hown hl

set_option maxRecDepth 20000 in
/-- The body of a loop that ends before the brace leaves nothing in the scope of the function. -/
theorem scopes_end_after_loop :
    let tokens : List Token := [
      ⟨.keyword .kwFunction, "function", 0⟩, ⟨.blank, " ", 8⟩, ⟨.identifier, "f", 9⟩,
      ⟨.punctuator, "(", 10⟩, ⟨.punctuator, ")", 11⟩, ⟨.punctuator, "\x7b", 12⟩,
      ⟨.keyword .kwFor, "for", 13⟩, ⟨.punctuator, "(", 16⟩, ⟨.punctuator, ";", 17⟩,
      ⟨.punctuator, ";", 18⟩, ⟨.punctuator, ")", 19⟩, ⟨.identifier, "x", 20⟩,
      ⟨.punctuator, ";", 21⟩, ⟨.punctuator, "\x7d", 22⟩, ⟨.keyword .kwVar, "var", 23⟩,
      ⟨.blank, " ", 26⟩, ⟨.identifier, "y", 27⟩]
    let tree : ScopeTree := {
      scopes := #[⟨none, .global, ["f", "y"], false⟩, ⟨some 0, .function, [], false⟩,
        ⟨some 1, .block, [], false⟩]
      inside := #[[1], [2], []]
      occurrences := [⟨2, "f", 0, false⟩, ⟨11, "x", 2, false⟩, ⟨16, "y", 0, false⟩] }
    let b : Braces := {
      before := (Site.ofTokens tokens).take 4
      brace := ⟨5, ⟨.punctuator, "\x7b", 12⟩, false, false⟩
      inner := ((Site.ofTokens tokens).drop 5).take 7
      closer := ⟨13, ⟨.punctuator, "\x7d", 22⟩, false, false⟩
      opens := rfl
      closes := rfl
      balanced := by cbv }
    tokenize "function f(){for(;;)x;}var y" = .ok tokens ∧ b.StandIn tokens tree ∧
      b.opened.Owns ∧ b.Ends tree := by
  intro tokens tree b
  have htokens : tokenize "function f(){for(;;)x;}var y" = .ok tokens := by
    rw [tokenize, tokens_eq_runFor]
    decide +kernel
  have hsites : b.sites ++ (Site.ofTokens tokens).drop 13 = Site.ofTokens tokens := by cbv
  have hscript : b.StandIn tokens tree := ⟨by cbv, ⟨_, hsites⟩⟩
  have hcurrent : b.opened.current = 1 := by cbv
  have hrestores : (b.opened.top :: b.opened.outer).map Frame.restore
      ++ b.opened.openBodies.map OpenBody.restore = [0, 0] := by cbv
  have hown : b.opened.Owns := by
    refine owns_of_newest (.inr (by cbv)) hrestores ?_
    rw [hcurrent]
    decide
  have hnothing : ¬Lingers b.scope b.closing :=
    not_lingers (by cbv) (by cbv) (by cbv) (by cbv)
  exact ⟨htokens, hscript, hown, (scopes_end_iff b ⟨tokens, tree, hscript⟩ hown).mpr hnothing
    tokens tree hscript⟩

set_option maxRecDepth 20000 in
/-- The body of a loop that ends with the brace takes what follows into the function. -/
theorem scope_goes_on_after_brace :
    let tokens : List Token := [
      ⟨.keyword .kwFunction, "function", 0⟩, ⟨.blank, " ", 8⟩, ⟨.identifier, "f", 9⟩,
      ⟨.punctuator, "(", 10⟩, ⟨.punctuator, ")", 11⟩, ⟨.punctuator, "\x7b", 12⟩,
      ⟨.keyword .kwFor, "for", 13⟩, ⟨.punctuator, "(", 16⟩, ⟨.punctuator, ";", 17⟩,
      ⟨.punctuator, ";", 18⟩, ⟨.punctuator, ")", 19⟩, ⟨.identifier, "x", 20⟩,
      ⟨.punctuator, "\x7d", 21⟩, ⟨.keyword .kwVar, "var", 22⟩, ⟨.blank, " ", 25⟩,
      ⟨.identifier, "y", 26⟩]
    let tree : ScopeTree := {
      scopes := #[⟨none, .global, ["f"], false⟩, ⟨some 0, .function, ["y"], false⟩,
        ⟨some 1, .block, [], false⟩]
      inside := #[[1], [2], []]
      occurrences := [⟨2, "f", 0, false⟩, ⟨11, "x", 2, false⟩, ⟨15, "y", 1, false⟩] }
    let b : Braces := {
      before := (Site.ofTokens tokens).take 4
      brace := ⟨5, ⟨.punctuator, "\x7b", 12⟩, false, false⟩
      inner := ((Site.ofTokens tokens).drop 5).take 6
      closer := ⟨12, ⟨.punctuator, "\x7d", 21⟩, false, false⟩
      opens := rfl
      closes := rfl
      balanced := by cbv }
    tokenize "function f(){for(;;)x}var y" = .ok tokens ∧ b.StandIn tokens tree ∧
      b.opened.Owns ∧ ¬b.Ends tree := by
  intro tokens tree b
  have htokens : tokenize "function f(){for(;;)x}var y" = .ok tokens := by
    rw [tokenize, tokens_eq_runFor]
    decide +kernel
  have hsites : b.sites ++ (Site.ofTokens tokens).drop 12 = Site.ofTokens tokens := by cbv
  have hcurrent : b.opened.current = 1 := by cbv
  have hrestores : (b.opened.top :: b.opened.outer).map Frame.restore
      ++ b.opened.openBodies.map OpenBody.restore = [0, 0] := by cbv
  have hown : b.opened.Owns := by
    refine owns_of_newest (.inr (by cbv)) hrestores ?_
    rw [hcurrent]
    decide
  refine ⟨htokens, ⟨by cbv, ⟨_, hsites⟩⟩, hown, fun hends => ?_⟩
  have hy : b.scope ∉ tree.ancestors 1 := hends.occurrence ⟨15, "y", 1, false⟩
    (.tail _ (.tail _ (.head _))) (show 12 < 15 by decide)
  rw [show b.scope = 1 from hcurrent] at hy
  exact hy (Scope.self_mem_ancestors tree.scopes 1)

end Minify
