import Mathlib.Tactic.Common
import Minify.Proofs.TrackerMoves

/-!
The frames and bodies of the tracker follow the brackets.

An opening bracket puts one frame on the stack, a closing one takes one off, and no other token
moves a frame or changes the scope it gives back. Bodies without braces begin and end at the depth
they stand at, so what goes on between two brackets leaves the bodies begun outside alone.
-/

namespace Minify.Tracker

/-- What a frame is for, and the scope it gives back. -/
def Frame.mark (f : Frame) : FrameKind × ScopeId := (f.kind, f.restore)

def stack (s : Tracker) : List (FrameKind × ScopeId) := (s.top :: s.outer).map Frame.mark

lemma length_stack (s : Tracker) : s.stack.length = s.depth := by
  simp [stack, depth]

/-- The bodies begun at a depth less than `k`. -/
def bodiesBelow (k : Nat) (bodies : List OpenBody) : List OpenBody :=
  bodies.filter fun b => decide (b.depth < k)

/-- The innermost bodies stand first, and none stands deeper than `d`. -/
structure Tidy (d : Nat) (bodies : List OpenBody) : Prop where
  pairwise : bodies.Pairwise fun a b => b.depth ≤ a.depth
  le : ∀ b ∈ bodies, b.depth ≤ d

variable {s t u : Tracker}

/-- The frames stay, and of the bodies only those at the depth itself change. -/
structure Level (s t : Tracker) : Prop where
  stack : t.stack = s.stack
  below : ∀ k ≤ s.depth, bodiesBelow k t.openBodies = bodiesBelow k s.openBodies
  tidy : Tidy s.depth s.openBodies → Tidy s.depth t.openBodies

lemma Level.depth (h : Level s t) : t.depth = s.depth := by
  rw [← length_stack, ← length_stack, h.stack]

lemma Level.of_eq (hs : t.stack = s.stack) (hb : t.openBodies = s.openBodies) : Level s t :=
  ⟨hs, fun k _ => by rw [hb], fun h => hb ▸ h⟩

lemma Level.refl (s : Tracker) : Level s s := .of_eq rfl rfl

lemma Level.trans (h : Level s t) (h' : Level t u) : Level s u := by
  refine ⟨h'.stack.trans h.stack, fun k hk => ?_, fun ht => ?_⟩
  · rw [h'.below k (h.depth ▸ hk), h.below k hk]
  · have := h'.tidy (h.depth ▸ h.tidy ht)
    rwa [h.depth] at this

/-! ### Tokens that move no frame -/

lemma stack_setTop {f : Frame → Frame} (hf : ∀ x, (f x).mark = x.mark) :
    (s.setTop f).stack = s.stack := by
  simp [stack, setTop, hf]

lemma level_setTop {f : Frame → Frame} (hf : ∀ x, (f x).mark = x.mark) : Level s (s.setTop f) :=
  .of_eq (stack_setTop hf) rfl

/-- Bodies end from the innermost one on, down to a depth. -/
lemma bodiesBelow_endBodies {k depth : Nat} (hk : k ≤ depth) (comma : Bool) (current : ScopeId)
    (bodies : List OpenBody) :
    bodiesBelow k (endBodies depth comma current bodies).2 = bodiesBelow k bodies := by
  obtain ⟨ended, hb, hdepth, -⟩ := endBodies_split depth comma current bodies
  have hended : bodiesBelow k ended = [] := by
    refine List.filter_eq_nil_iff.mpr fun b hb => ?_
    have := hdepth b hb
    simp only [decide_eq_true_eq]
    omega
  conv_rhs => rw [hb]
  unfold bodiesBelow at hended ⊢
  rw [List.filter_append, hended, List.nil_append]

lemma tidy_endBodies {d depth : Nat} {comma : Bool} {current : ScopeId} {bodies : List OpenBody}
    (h : Tidy d bodies) : Tidy d (endBodies depth comma current bodies).2 := by
  obtain ⟨ended, hb, -, -⟩ := endBodies_split depth comma current bodies
  rw [hb] at h
  exact ⟨(List.pairwise_append.mp h.pairwise).2.1, fun b hb => h.le b (List.mem_append_right _ hb)⟩

lemma level_endOpenBodies {depth : Nat} (hd : s.depth ≤ depth) (comma : Bool) :
    Level s (s.endOpenBodies depth comma) :=
  ⟨rfl, fun _ hk => bodiesBelow_endBodies (Nat.le_trans hk hd) _ _ _, tidy_endBodies⟩

lemma level_endStatement : Level s s.endStatement := by
  have hdecl : Level s (s.endDeclarations s.depth) := .of_eq rfl rfl
  have hends : Level (s.endDeclarations s.depth)
      ((s.endDeclarations s.depth).endOpenBodies s.depth false) :=
    level_endOpenBodies (Nat.le_refl _) false
  refine (hdecl.trans hends).trans ?_
  exact .of_eq rfl rfl

lemma level_begin (restore : ScopeId) (endsAtComma : Bool) (hs : t.stack = s.stack)
    (hb : t.openBodies = ⟨s.depth, restore, endsAtComma⟩ :: s.openBodies) : Level s t := by
  refine ⟨hs, fun k hk => ?_, fun h => ?_⟩
  · have hnot : ¬s.depth < k := Nat.not_lt.mpr hk
    rw [hb, bodiesBelow, List.filter_cons_of_neg (by simpa using hk)]
    rfl
  · rw [hb]
    refine ⟨List.pairwise_cons.mpr ⟨h.le, h.pairwise⟩, fun b hb => ?_⟩
    rcases List.mem_cons.mp hb with rfl | hb
    · exact Nat.le_refl _
    · exact h.le b hb

lemma level_beginBody (t : Token) : Level s (s.beginBody t) := by
  have h := beginBody_cases s t
  generalize s.beginBody t = u at h ⊢
  cases h with
  | waits => exact .refl s
  | opens => exact level_begin _ _ rfl rfl
  | missing => exact .of_eq rfl rfl

lemma level_takeSlot {kind : DeclKind} (h : s.takeSlot = some (kind, t)) : Level s t := by
  cases takeSlot_cases h with
  | pattern => exact level_setTop fun _ => rfl
  | list => exact .of_eq rfl rfl

lemma level_declare (site : Site) (kind : DeclKind) (shorthand : Bool) :
    Level s (s.declare site kind shorthand) := by
  cases kind <;> exact .of_eq rfl rfl

lemma level_abandonDeclaration : Level s s.abandonDeclaration := by
  unfold abandonDeclaration
  split <;> exact .of_eq rfl rfl

lemma level_key (site : Site) (next : Option Token) : Level s (s.key site next) := by
  have hkey : Level s (s.setTop fun f => { f with atKey := false }) := level_setTop fun _ => rfl
  have h := key_cases s site next
  generalize s.key site next = t at h ⊢
  cases h with
  | staticBlock => exact .of_eq rfl rfl
  | modifier => exact .refl s
  | method => exact hkey.trans (.of_eq rfl rfl)
  | binding => exact hkey.trans (level_declare _ _ _)
  | shorthand => exact hkey.trans (.of_eq rfl rfl)
  | plain => exact hkey

lemma level_keyword (site : Site) (next : Option Token) (k : Keyword) :
    Level s (s.keyword site next k) := by
  have h := keyword_cases s site next k
  generalize s.keyword site next k = t at h ⊢
  cases h <;> exact .of_eq rfl rfl

lemma level_identifier (site : Site) (next : Option Token) :
    Level s (s.identifier site next) := by
  have h := identifier_cases s site next
  generalize s.identifier site next = t at h ⊢
  cases h with
  | classDeclaration => exact level_declare _ _ _
  | @functionName _ declaration => cases declaration <;> exact .of_eq rfl rfl
  | _ => exact .of_eq rfl rfl

lemma level_word (site : Site) (next : Option Token) : Level s (s.word site next) := by
  have h := word_cases s site next
  generalize s.word site next = t at h ⊢
  cases h with
  | member => exact .refl s
  | privateKey => exact level_key site next
  | keywordKey => exact level_abandonDeclaration.trans (level_key site next)
  | keyword => exact level_abandonDeclaration.trans (level_keyword site next _)
  | slot _ hslot => exact (level_takeSlot hslot).trans (level_declare _ _ _)
  | key => exact level_key site next
  | identifier => exact level_identifier site next

lemma level_comma : Level s s.comma := by
  have hends : Level s (s.endOpenBodies s.depth true) := level_endOpenBodies (Nat.le_refl _) true
  refine hends.trans (.of_eq ?_ rfl)
  apply stack_setTop
  intro f
  split <;> rfl

lemma level_colon : Level s s.colon := by
  have h := colon_cases s
  generalize s.colon = t at h ⊢
  cases h <;> exact .of_eq rfl rfl

lemma level_arrow (next : Option Token) : Level s (s.arrow next) := by
  have h := arrow_cases s next
  generalize s.arrow next = t at h ⊢
  cases h with
  | same => exact .refl s
  | begins => exact level_begin _ _ rfl rfl

/-! ### Opening brackets -/

/-- One more frame is open, and the bodies stay. -/
structure Deeper (s t : Tracker) : Prop where
  stack : ∃ m, t.stack = m :: s.stack
  bodies : t.openBodies = s.openBodies

lemma deeper_push (f : Frame) : Deeper s (s.push f) := ⟨⟨f.mark, rfl⟩, rfl⟩

lemma openBodies_takeSlot {kind : DeclKind} (h : s.takeSlot = some (kind, t)) :
    t.openBodies = s.openBodies := by
  cases takeSlot_cases h <;> rfl

lemma deeper_takeSlot {kind : DeclKind} (h : s.takeSlot = some (kind, t)) (f : Frame) :
    Deeper s (t.push f) := by
  have hb : t.openBodies = s.openBodies := openBodies_takeSlot h
  exact ⟨⟨f.mark, congrArg (f.mark :: ·) (level_takeSlot h).stack⟩, hb⟩

lemma deeper_openBrace : Deeper s s.openBrace := by
  have h := openBrace_cases s
  generalize s.openBrace = t at h ⊢
  cases h with
  | pattern _ hslot => exact deeper_takeSlot hslot _
  | _ => exact ⟨⟨_, rfl⟩, rfl⟩

lemma deeper_openSquare : Deeper s s.openSquare := by
  have h := openSquare_cases s
  generalize s.openSquare = t at h ⊢
  cases h with
  | pattern hslot => exact deeper_takeSlot hslot _
  | _ => exact ⟨⟨_, rfl⟩, rfl⟩

lemma deeper_openParen (site : Site) : Deeper s (s.openParen site) := by
  have h := openParen_cases s site
  generalize s.openParen site = t at h ⊢
  cases h <;> exact ⟨⟨_, rfl⟩, rfl⟩

/-! ### Closing brackets -/

/-- The innermost frame is closed, and the bodies begun in it are over. -/
structure Shallower (s t : Tracker) : Prop where
  stack : t.stack = s.stack.tail
  below : ∀ k < s.depth, bodiesBelow k t.openBodies = bodiesBelow k s.openBodies
  tidy : Tidy s.depth s.openBodies → Tidy t.depth t.openBodies

lemma Shallower.depth (h : Shallower s t) : t.depth = s.depth - 1 := by
  rw [← length_stack, ← length_stack, h.stack, List.length_tail]

/-- Bodies that end at a depth leave only those of smaller depths. -/
lemma lt_of_mem_endBodies {d : Nat} {current : ScopeId} {bodies : List OpenBody}
    (h : Tidy d bodies) : ∀ b ∈ (endBodies d false current bodies).2, b.depth < d := by
  induction bodies generalizing current with
  | nil => exact fun b hb => absurd hb List.not_mem_nil
  | cons a rest ih =>
    obtain ⟨hle, hrest⟩ := List.pairwise_cons.mp h.pairwise
    unfold endBodies
    simp only [Bool.false_and, Bool.or_false, decide_eq_true_eq]
    split
    · rename_i ha
      intro b hb
      rcases List.mem_cons.mp hb with rfl | hb
      · exact ha
      · exact Nat.lt_of_le_of_lt (hle b hb) ha
    · exact ih ⟨hrest, fun b hb => h.le b (List.mem_cons_of_mem a hb)⟩

lemma level_endBlock (next : Option Token) : Level s (s.endBlock next) := by
  have h := endBlock_cases s next
  generalize s.endBlock next = t at h ⊢
  cases h with
  | stays => exact level_setTop fun _ => rfl
  | @ends b rest hb hdepth =>
    refine ⟨rfl, fun k hk => ?_, fun h => ?_⟩
    · have hnot : ¬b.depth < k := by omega
      change bodiesBelow k rest = bodiesBelow k s.openBodies
      rw [hb]
      exact (List.filter_cons_of_neg (by simpa using hnot)).symm
    · rw [hb] at h
      exact ⟨(List.pairwise_cons.mp h.pairwise).2, fun x hx => h.le x (List.mem_cons_of_mem b hx)⟩

lemma stack_leave (f : Frame) (next : Option Token) : (s.leave f next).stack = s.stack := by
  have h := leave_cases s f next
  generalize s.leave f next = t at h ⊢
  cases h <;> rfl

lemma openBodies_leave (f : Frame) (next : Option Token) :
    (s.leave f next).openBodies = s.openBodies := by
  have h := leave_cases s f next
  generalize s.leave f next = t at h ⊢
  cases h <;> rfl

lemma stack_pop {around : Frame} {outer : List Frame} (h : s.outer = around :: outer) :
    (s.pop around outer).stack = s.stack.tail := by
  simp [stack, pop, h]

lemma depth_of_outer {around : Frame} {outer : List Frame} (h : s.outer = around :: outer)
    (hs : t.stack = s.stack.tail) : t.depth + 1 = s.depth := by
  rw [← length_stack, hs, stack, h, depth, h]
  simp

lemma stack_closeFrame {around : Frame} {outer : List Frame} (h : s.outer = around :: outer)
    (next : Option Token) : (s.closeFrame around outer next).stack = s.stack.tail := by
  change ((s.pop around outer).leave s.top next).stack = _
  rw [stack_leave, stack_pop h]

lemma openBodies_closeFrame {around : Frame} {outer : List Frame} (h : s.outer = around :: outer)
    (next : Option Token) : (s.closeFrame around outer next).openBodies
      = (endBodies s.depth false ((s.pop around outer).leave s.top next).current
          s.openBodies).2 := by
  have hdepth := depth_of_outer (t := (s.pop around outer).leave s.top next) h
    (by rw [stack_leave, stack_pop h])
  have hbodies : ((s.pop around outer).leave s.top next).openBodies = s.openBodies :=
    openBodies_leave _ _
  rw [← hdepth]
  conv_rhs => rw [← hbodies]
  rfl

lemma shallower_closeFrame {around : Frame} {outer : List Frame}
    (h : s.outer = around :: outer) (next : Option Token) :
    Shallower s (s.closeFrame around outer next) := by
  have hstack := stack_closeFrame h next
  have hdepth := depth_of_outer h hstack
  refine ⟨hstack, fun k hk => ?_, fun ht => ?_⟩
  · rw [openBodies_closeFrame h]
    exact bodiesBelow_endBodies (Nat.le_of_lt hk) _ _ _
  · rw [openBodies_closeFrame h]
    refine ⟨(tidy_endBodies ht).pairwise, fun b hb => ?_⟩
    have := lt_of_mem_endBodies ht b hb
    omega

lemma Shallower.level (h : Shallower s t) (h' : Level t u) : Shallower s u := by
  have hdepth := h.depth
  refine ⟨h'.stack.trans h.stack, fun k hk => ?_, fun ht => ?_⟩
  · rw [h'.below k (by omega), h.below k hk]
  · rw [h'.depth]
    exact h'.tidy (h.tidy ht)

lemma shallower_close (h : s.outer ≠ []) (next : Option Token) : Shallower s (s.close next) := by
  have hcases := close_cases s next
  generalize s.close next = t at hcases ⊢
  cases hcases with
  | root hnil => exact absurd hnil h
  | frame hcons => exact shallower_closeFrame hcons next
  | braces hcons => exact (shallower_closeFrame hcons next).level (level_endBlock next)

/-! ### Tokens -/

/-- What a token does to the frames, by its bracket. -/
def Steps (b : Site.Bracket) (s t : Tracker) : Prop :=
  match b with
  | .opens _ => ∃ u, Level s u ∧ Deeper u t
  | .closes _ => s.outer ≠ [] → ∃ u, Level s u ∧ Shallower u t
  | .reopens | .none => Level s t

lemma Steps.after {b : Site.Bracket} (h : Level s t) (h' : Steps b t u) : Steps b s u := by
  have houter (hs : s.outer ≠ []) : t.outer ≠ [] := by
    have hlen := congrArg List.length h.stack
    have hpos := List.length_pos_of_ne_nil hs
    refine List.ne_nil_of_length_pos ?_
    simp only [stack, List.length_map, List.length_cons] at hlen
    omega
  cases b with
  | opens _ =>
    obtain ⟨v, hv, hd⟩ := h'
    exact ⟨v, h.trans hv, hd⟩
  | closes _ =>
    intro hs
    obtain ⟨v, hv, hd⟩ := h' (houter hs)
    exact ⟨v, h.trans hv, hd⟩
  | reopens => exact h.trans h'
  | none => exact h.trans h'

lemma Steps.before {b : Site.Bracket} (h : Steps b s t) (before : List Site) :
    Steps b s { t with before := before } := by
  cases b with
  | opens _ =>
    obtain ⟨v, hv, hd⟩ := h
    exact ⟨v, hv, ⟨hd.stack, hd.bodies⟩⟩
  | closes _ =>
    intro hs
    obtain ⟨v, hv, hd⟩ := h hs
    exact ⟨v, hv, ⟨hd.stack, hd.below, hd.tidy⟩⟩
  | reopens => exact h.trans (.of_eq rfl rfl)
  | none => exact h.trans (.of_eq rfl rfl)

lemma steps_punctuator (site : Site) (next : Option Token)
    (hp : site.token.kind = .punctuator) :
    Steps (Site.bracket site.token) s (s.punctuator site next) := by
  have hopens {t : Tracker} (hb : ∃ c, Site.bracket site.token = .opens c) (h : Deeper s t) :
      Steps (Site.bracket site.token) s t := by
    obtain ⟨c, hb⟩ := hb
    rw [hb]
    exact ⟨s, .refl s, h⟩
  have hcloses (hb : ∃ c, Site.bracket site.token = .closes c) :
      Steps (Site.bracket site.token) s (s.close next) := by
    obtain ⟨c, hb⟩ := hb
    rw [hb]
    exact fun h => ⟨s, .refl s, shallower_close h next⟩
  have hnone {t : Tracker} (hb : Site.bracket site.token = .none) (h : Level s t) :
      Steps (Site.bracket site.token) s t := by
    rw [hb]
    exact h
  have h := punctuator_cases s site next
  generalize s.punctuator site next = t at h ⊢
  cases h with
  | openBrace ht => exact hopens (by simp [Site.bracket, hp, ht]) deeper_openBrace
  | openSquare ht => exact hopens (by simp [Site.bracket, hp, ht]) deeper_openSquare
  | openParen ht => exact hopens (by simp [Site.bracket, hp, ht]) (deeper_openParen site)
  | close ht => exact hcloses (closes_of_mem hp ht)
  | endStatement ht => exact hnone (by simp [Site.bracket, hp, ht]) level_endStatement
  | comma ht => exact hnone (by simp [Site.bracket, hp, ht]) level_comma
  | colon ht => exact hnone (by simp [Site.bracket, hp, ht]) level_colon
  | arrow ht => exact hnone (by simp [Site.bracket, hp, ht]) (level_arrow next)
  | question ht => exact hnone (by simp [Site.bracket, hp, ht]) (.of_eq rfl rfl)
  | initial ht => exact hnone (by simp [Site.bracket, hp, ht]) (.of_eq rfl rfl)
  | spread ht => exact hnone (by simp [Site.bracket, hp, ht]) (.of_eq rfl rfl)
  | mark ht =>
    simp only [List.mem_cons, List.not_mem_nil, or_false] at ht
    refine hnone ?_ (.refl s)
    rcases ht with ht | ht <;> simp [Site.bracket, hp, ht]
  | operator ht =>
    simp only [List.mem_cons, List.not_mem_nil, or_false, not_or] at ht
    exact hnone (by simp [Site.bracket, hp, ht]) level_abandonDeclaration

lemma steps_read (site : Site) (next : Option Token) :
    Steps (Site.bracket site.token) s (s.read site next) := by
  have hnone {t : Tracker} (hb : Site.bracket site.token = .none) (h : Level s t) :
      Steps (Site.bracket site.token) s t := by
    rw [hb]
    exact h
  have h := read_cases s site next
  generalize s.read site next = t at h ⊢
  cases h with
  | punctuator hk => exact steps_punctuator site next hk
  | word hw => exact hnone (bracket_of_isWord hw) (level_word site next)
  | key hk =>
    refine hnone ?_ (level_key site next)
    rcases hk with hk | hk <;> simp [Site.bracket, hk]
  | templateHead hk =>
    have hb : Site.bracket site.token = .opens '\x7b' := by simp [Site.bracket, hk]
    rw [hb]
    exact ⟨s, .refl s, deeper_push _⟩
  | templateMiddle hk =>
    have hb : Site.bracket site.token = .reopens := by simp [Site.bracket, hk]
    have hends : Level s (s.endOpenBodies s.depth false) :=
      level_endOpenBodies (Nat.le_refl _) false
    rw [hb]
    exact hends.trans (.of_eq rfl rfl)
  | templateTail hk =>
    have hb : Site.bracket site.token = .closes '\x7d' := by simp [Site.bracket, hk]
    rw [hb]
    exact fun h => ⟨s, .refl s, shallower_close h next⟩
  | other hb => exact hnone hb (.refl s)

lemma level_prepare (site : Site) : Level s (s.prepare site) := by
  have hopen : Level s { s with closedHeader := false } := .of_eq rfl rfl
  unfold prepare
  dsimp only
  refine Level.trans ?_ (level_beginBody site.token)
  split
  · exact hopen.trans level_endStatement
  · exact hopen

/-- **A token moves the frames as its bracket says.** -/
theorem steps_step (s : Tracker) (site : Site) (next : Option Token) :
    Steps (Site.bracket site.token) s (s.step site next) := by
  have hread := (steps_read (s := s.prepare site) site next).after (level_prepare site)
  unfold step
  exact hread.before (site :: _)

end Minify.Tracker
