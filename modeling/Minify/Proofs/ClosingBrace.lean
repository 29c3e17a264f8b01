import Minify.Proofs.SealedScopes

/-!
The brace that closes a block or the body of a function.

The frame gives back the scope around it, and then the bodies without braces that began inside end:
the outermost of them gives back the scope that it began in, which may lie inside the one that the
brace closes. Functions and catch clauses that wait for a name or for parameters go on waiting. So
the scope is sealed exactly when none of these lies in it.
-/

namespace Minify.Tracker

/-- The frame is that of a block or of the body of a function. -/
def Frame.hasScope (f : Frame) : Prop := f.kind = .block ∨ f.kind = .functionBody

/-- A brace has just opened a scope of its own: nothing that is open lies in the scope. -/
structure Owns (s : Tracker) : Prop where
  kind : s.top.hasScope
  frames : ∀ f ∈ s.top :: s.outer, s.current ∉ Scope.ancestors s.scopes f.restore
  bodies : ∀ b ∈ s.openBodies, s.current ∉ Scope.ancestors s.scopes b.restore

/-- The bodies without braces that began in the innermost frame. -/
def bodiesInside (s : Tracker) : List OpenBody :=
  s.openBodies.filter fun b => decide (s.depth ≤ b.depth)

/-- What a closing brace leaves inside a scope: the outermost of the bodies that end with it began
there, or a function or a catch clause there still waits. -/
inductive Lingers (scope : ScopeId) (s : Tracker) : Prop
  | body {b : OpenBody} (h : s.bodiesInside.getLast? = some b)
      (hs : scope ∈ Scope.ancestors s.scopes b.restore)
  | params {id : ScopeId} (h : s.nextParams = some id) (hs : scope ∈ Scope.ancestors s.scopes id)
  | name {id : ScopeId} (h : s.functionName = some (id, false))
      (hs : scope ∈ Scope.ancestors s.scopes id)
  | clause {id : ScopeId} (h : s.catchScope = some id) (hs : scope ∈ Scope.ancestors s.scopes id)

variable {s t : Tracker} {site : Site} {next : Option Token} {scope : ScopeId}

/-- A scope newer than all those given back lies in none of them. -/
lemma owns_of_newest (hk : s.top.hasScope) {ids : List ScopeId}
    (hids : (s.top :: s.outer).map Frame.restore ++ s.openBodies.map OpenBody.restore = ids)
    (hlt : ∀ id ∈ ids, id < s.current) : Owns s := by
  subst hids
  have hnot (id : ScopeId) (h : id < s.current) : s.current ∉ Scope.ancestors s.scopes id :=
    fun hs => absurd h (Nat.not_lt.mpr (Scope.le_of_mem_ancestors hs))
  exact ⟨hk, fun f hf => hnot _ (hlt _ (List.mem_append_left _ (List.mem_map_of_mem hf))),
    fun b hb => hnot _ (hlt _ (List.mem_append_right _ (List.mem_map_of_mem hb)))⟩

/-- Nothing lingers when all statements have ended and nothing waits. -/
lemma not_lingers (hb : s.bodiesInside = []) (hp : s.nextParams = none)
    (hf : s.functionName = none) (hc : s.catchScope = none) : ¬Lingers scope s := by
  rintro (⟨h, -⟩ | ⟨h, -⟩ | ⟨h, -⟩ | ⟨h, -⟩)
  · rw [hb] at h
    cases h
  · rw [hp] at h
    cases h
  · rw [hf] at h
    cases h
  · rw [hc] at h
    cases h

/-! ### Ending the frame -/

lemma leave_of_hasScope {f : Frame} (h : f.hasScope) :
    s.leave f next = { s with current := f.restore } := by
  rcases h with h | h <;> simp [leave, h]

lemma closeFrame_of_hasScope {around : Frame} {outer : List Frame}
    (h : s.outer = around :: outer) (hk : s.top.hasScope) :
    s.closeFrame around outer next
      = (({ s.pop around outer with current := s.top.restore }).endOpenBodies s.depth
          false).endDeclarations s.depth := by
  have hdepth : (s.pop around outer).depth + 1 = s.depth := depth_of_outer h (stack_pop h)
  unfold closeFrame
  rw [leave_of_hasScope hk, ← hdepth]
  rfl

lemma endBodies_tidy {d : Nat} {bodies : List OpenBody} (h : Tidy d bodies)
    (current : ScopeId) :
    (endBodies d false current bodies).1
        = ((bodies.filter fun b => decide (d ≤ b.depth)).getLast?.map OpenBody.restore).getD
            current ∧
      (endBodies d false current bodies).2 = bodiesBelow d bodies := by
  obtain ⟨ended, hb, hge, hcur⟩ := endBodies_split d false current bodies
  have hlt : ∀ b ∈ (endBodies d false current bodies).2, b.depth < d := lt_of_mem_endBodies h
  have hended : bodies.filter (fun b => decide (d ≤ b.depth)) = ended := by
    conv_lhs => rw [hb]
    rw [List.filter_append, List.filter_eq_self.mpr fun b hm => decide_eq_true (hge b hm),
      List.filter_eq_nil_iff.mpr fun b hm => ?_, List.append_nil]
    simpa using hlt b hm
  have hrest : bodiesBelow d bodies = (endBodies d false current bodies).2 := by
    unfold bodiesBelow
    conv_lhs => rw [hb]
    rw [List.filter_append, List.filter_eq_nil_iff.mpr fun b hm => ?_, List.nil_append,
      List.filter_eq_self.mpr fun b hm => decide_eq_true (hlt b hm)]
    simpa using hge b hm
  exact ⟨by rw [hcur, hended], hrest.symm⟩

/-- What is live after the frame of a block or a body: the scope given back, which is that of the
outermost body that ends or of the frame, and what was live outside. -/
lemma live_closeFrame {around : Frame} {outer : List Frame} (h : s.outer = around :: outer)
    (hk : s.top.hasScope) (ht : Tidy s.depth s.openBodies) (hp : s.pendingBody = none)
    {id : ScopeId} (hid : (s.closeFrame around outer next).Live id) :
    id = (s.bodiesInside.getLast?.map OpenBody.restore).getD s.top.restore ∨
      (∃ f ∈ s.outer, id = f.restore) ∨
      (∃ b ∈ bodiesBelow s.depth s.openBodies, id = b.restore) ∨
      s.nextParams = some id ∨ s.functionName = some (id, false) ∨ s.catchScope = some id := by
  rw [closeFrame_of_hasScope h hk] at hid
  obtain ⟨hcur, hrest⟩ := endBodies_tidy ht s.top.restore
  cases hid with
  | current => exact .inl hcur
  | frame hf => exact .inr (.inl ⟨_, h ▸ hf, rfl⟩)
  | body hb =>
    change _ ∈ (endBodies s.depth false s.top.restore s.openBodies).2 at hb
    rw [hrest] at hb
    exact .inr (.inr (.inl ⟨_, hb, rfl⟩))
  | pending hb => exact absurd (hp.symm.trans hb) nofun
  | params hf => exact .inr (.inr (.inr (.inl hf)))
  | name hf => exact .inr (.inr (.inr (.inr (.inl hf))))
  | clause hf => exact .inr (.inr (.inr (.inr (.inr hf))))

lemma close_of_hasScope {around : Frame} {outer : List Frame} (h : s.outer = around :: outer)
    (hk : s.top.hasScope) :
    s.close next = (s.closeFrame around outer next).endBlock next := by
  unfold close
  rw [h]
  dsimp only
  exact if_pos (by simpa [Frame.hasScope] using hk)

/-! ### Reading the brace -/

lemma startsStatement_of_closing (h : site.token.isPunct "\x7d" = true) :
    site.token.startsStatement = false := by
  simp only [Token.isPunct, Bool.and_eq_true, beq_iff_eq] at h
  simp [Token.startsStatement, h.1, h.2]

/-- No statement ends before a closing brace; it may have a body without braces begin. -/
lemma prepare_of_closing (h : site.token.isPunct "\x7d" = true) :
    s.prepare site = { s with closedHeader := false }.beginBody site.token := by
  simp [prepare, endsStatement, startsStatement_of_closing h]

lemma pendingBody_beginBody (t : Token) (h : t.isPunct "\x7b" = false)
    (h' : t.isPunct "=>" = false) : (s.beginBody t).pendingBody = none := by
  unfold beginBody
  split
  · assumption
  · split
    · rename_i hopen
      rw [h, h'] at hopen
      cases hopen
    · dsimp only
      split <;> rfl

lemma pendingBody_prepare_of_closing (h : site.token.isPunct "\x7d" = true) :
    (s.prepare site).pendingBody = none := by
  have hother (p : String) (hp : "\x7d" ≠ p) : site.token.isPunct p = false := by
    simp only [Token.isPunct, Bool.and_eq_true, beq_iff_eq] at h
    simp [Token.isPunct, h.1, h.2, hp]
  rw [prepare_of_closing h]
  exact pendingBody_beginBody _ (hother _ (by decide)) (hother _ (by decide))

lemma step_of_closing (h : site.token.isPunct "\x7d" = true) :
    s.step site next = { (s.prepare site).close next with
      before := site :: ((s.prepare site).close next).before } := by
  simp only [Token.isPunct, Bool.and_eq_true, beq_iff_eq] at h
  simp only [step, read, punctuator, h.1, h.2]

lemma bracket_of_closing (h : site.token.isPunct "\x7d" = true) :
    Site.bracket site.token = .closes '\x7d' := by
  simp only [Token.isPunct, Bool.and_eq_true, beq_iff_eq] at h
  simp only [Site.bracket, h.1, h.2]

/-- The tracker `s` has read what stands between a brace that opened a scope of its own, after which
it was `o`, and the brace that closes it. -/
structure Between (o s : Tracker) : Prop where
  bounded : Bounded o
  owns : Owns o
  outer : o.outer ≠ []
  grows : Grows o s
  inside : Inside o.stack (bodiesBelow o.depth o.openBodies) 0 s

namespace Between

variable {o : Tracker}

lemma prepare (h : Between o s) (site : Site) : Between o (s.prepare site) :=
  ⟨h.bounded, h.owns, h.outer, h.grows.trans (quiet_prepare site).grows,
    h.inside.level (level_prepare site)⟩

lemma stack (h : Between o s) : s.stack = o.stack := by
  obtain ⟨frames, hlen, hs⟩ := h.inside.stack
  rw [hs, List.eq_nil_of_length_eq_zero hlen, List.nil_append]

lemma depth (h : Between o s) : s.depth = o.depth := by
  rw [← length_stack, ← length_stack, h.stack]

lemma top (h : Between o s) : s.top.mark = o.top.mark :=
  (List.cons_eq_cons.mp h.stack).1

lemma hasScope (h : Between o s) : s.top.hasScope := by
  have hkind : s.top.kind = o.top.kind := congrArg Prod.fst h.top
  unfold Frame.hasScope
  rw [hkind]
  exact h.owns.kind

lemma exists_outer (h : Between o s) : ∃ around outer, s.outer = around :: outer := by
  have hmarks : s.outer.map Frame.mark = o.outer.map Frame.mark := (List.cons_eq_cons.mp h.stack).2
  refine List.exists_cons_of_ne_nil fun hs => h.outer ?_
  rw [hs] at hmarks
  exact List.map_eq_nil_iff.mp hmarks.symm

lemma ancestors (h : Between o s) {id : ScopeId} (hid : o.Live id) :
    Scope.ancestors s.scopes id = Scope.ancestors o.scopes id :=
  h.grows.ancestors (h.bounded.live id hid)

lemma frame (h : Between o s) {f : Frame} (hf : f ∈ s.top :: s.outer) :
    o.current ∉ Scope.ancestors s.scopes f.restore := by
  have hmark : f.mark ∈ o.stack := h.stack ▸ List.mem_map_of_mem hf
  obtain ⟨f', hf', he⟩ := List.mem_map.mp hmark
  have hrestore : f'.restore = f.restore := congrArg Prod.snd he
  rw [← hrestore, h.ancestors (.frame hf')]
  exact h.owns.frames f' hf'

lemma body (h : Between o s) {b : OpenBody} (hb : b ∈ bodiesBelow s.depth s.openBodies) :
    o.current ∉ Scope.ancestors s.scopes b.restore := by
  rw [h.depth, ← length_stack, h.inside.below] at hb
  have hmem : b ∈ o.openBodies := List.mem_of_mem_filter hb
  rw [h.ancestors (.body hmem)]
  exact h.owns.bodies b hmem

lemma scopes_step (h : Between o s) (hc : site.token.isPunct "\x7d" = true) :
    (s.step site next).scopes = (s.prepare site).scopes := by
  have hp := h.prepare site
  obtain ⟨around, outer, houter⟩ := hp.exists_outer
  have hblock := settles_endBlock (s := (s.prepare site).closeFrame around outer next) next
  rw [step_of_closing hc, close_of_hasScope houter hp.hasScope]
  refine hblock.scopes.trans ?_
  rw [closeFrame_of_hasScope houter hp.hasScope]
  rfl

end Between

/-- **The brace seals its scope** when nothing lingers in it. -/
theorem over_step {o : Tracker} (h : Between o s) (hb : Bounded s)
    (hc : site.token.isPunct "\x7d" = true) (hl : ¬Lingers o.current (s.prepare site)) :
    Over o.current (s.step site next) := by
  have hp := h.prepare site
  obtain ⟨around, outer, houter⟩ := hp.exists_outer
  have hread := reads_step s site next
  refine ⟨hread.bounded hb, ?_, fun id hid => ?_⟩
  · exact Nat.lt_of_lt_of_le (h.bounded.live _ .current) (h.grows.trans hread.grows).size
  · rw [h.scopes_step hc]
    rw [step_of_closing hc, close_of_hasScope houter hp.hasScope] at hid
    have hlive : ((s.prepare site).closeFrame around outer next).Live id :=
      (settles_endBlock next).live id (by simpa [live_iff] using hid)
    have htidy : Tidy (s.prepare site).depth (s.prepare site).openBodies := hp.inside.tidy
    rcases live_closeFrame houter hp.hasScope htidy (pendingBody_prepare_of_closing hc) hlive
      with rfl | ⟨f, hf, rfl⟩ | ⟨b, hb, rfl⟩ | hf | hf | hf
    · cases hlast : (s.prepare site).bodiesInside.getLast? with
      | none => exact hp.frame List.mem_cons_self
      | some b => exact fun hs => hl (.body hlast hs)
    · exact hp.frame (List.mem_cons_of_mem _ hf)
    · exact hp.body hb
    · exact fun hs => hl (.params hf hs)
    · exact fun hs => hl (.name hf hs)
    · exact fun hs => hl (.clause hf hs)

end Minify.Tracker
