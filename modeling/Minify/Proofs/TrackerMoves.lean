import Mathlib.Tactic.Common
import Minify.Proofs.ScopePaths
import Minify.Proofs.TrackerCases

/-!
What one token can do to the scopes of a script.

A scope is live while the tracker may still record in it: it is the current one, or a frame or a
body gives it back, or a function or a catch clause that waits for its name or its parameters owns
it. A token adds scopes inside the current one, lets go of live scopes, and marks scopes as open to
names made at run time; besides, it records at most one identifier, in a live scope.
-/

namespace Minify.Tracker

/-- The scopes that the tracker may still record in or go back to. -/
inductive Live (s : Tracker) : ScopeId → Prop
  | current : Live s s.current
  | frame {f : Frame} (h : f ∈ s.top :: s.outer) : Live s f.restore
  | body {b : OpenBody} (h : b ∈ s.openBodies) : Live s b.restore
  | pending {b : PendingBody} (h : s.pendingBody = some b) : Live s b.restore
  | params {id : ScopeId} (h : s.nextParams = some id) : Live s id
  | name {id : ScopeId} (h : s.functionName = some (id, false)) : Live s id
  | clause {id : ScopeId} (h : s.catchScope = some id) : Live s id

lemma live_iff {s : Tracker} {id : ScopeId} :
    s.Live id ↔ id = s.current ∨ id = s.top.restore ∨ (∃ f ∈ s.outer, id = f.restore) ∨
      (∃ b ∈ s.openBodies, id = b.restore) ∨ (∃ b, s.pendingBody = some b ∧ id = b.restore) ∨
      s.nextParams = some id ∨ s.functionName = some (id, false) ∨ s.catchScope = some id := by
  constructor
  · rintro (_ | h | h | h | h | h | h)
    · exact .inl rfl
    · rcases List.mem_cons.mp h with rfl | h
      · exact .inr (.inl rfl)
      · exact .inr (.inr (.inl ⟨_, h, rfl⟩))
    all_goals grind
  · rintro (rfl | rfl | ⟨f, h, rfl⟩ | ⟨b, h, rfl⟩ | ⟨b, h, rfl⟩ | h | h | h)
    · exact .current
    · exact .frame List.mem_cons_self
    · exact .frame (List.mem_cons_of_mem _ h)
    · exact .body h
    · exact .pending h
    · exact .params h
    · exact .name h
    · exact .clause h

/-- The records stay, and no further scope is live. -/
structure Settles (s s' : Tracker) : Prop where
  scopes : s'.scopes = s.scopes
  inside : s'.inside = s.inside
  occurrences : s'.occurrences = s.occurrences
  live : ∀ id, s'.Live id → s.Live id

/-- A scope inside the current one is added, and no other further scope is live. -/
structure Opens (kind : ScopeKind) (s s' : Tracker) : Prop where
  scopes : s'.scopes = s.scopes.push
    { parent := some s.current, kind := kind, bindings := [], hasEval := false }
  inside : s'.inside = s.withInner
  occurrences : s'.occurrences = s.occurrences
  live : ∀ id, s'.Live id → s.Live id ∨ id = s.scopes.size

/-- What a token does besides recording an identifier. -/
inductive Quiet : Tracker → Tracker → Prop
  | refl (s : Tracker) : Quiet s s
  | settle {s t u : Tracker} (h : Quiet s t) (m : Settles t u) : Quiet s u
  | add {s t u : Tracker} {kind : ScopeKind} (h : Quiet s t) (m : Opens kind t u) : Quiet s u
  | mark {s t : Tracker} (h : Quiet s t) : Quiet s t.markEval

variable {s t u : Tracker} {site : Site} {next : Option Token}

lemma Quiet.trans (h : Quiet s t) (h' : Quiet t u) : Quiet s u := by
  induction h' with
  | refl => exact h
  | settle _ m ih => exact .settle ih m
  | add _ m ih => exact .add ih m
  | mark _ ih => exact .mark ih

lemma Settles.quiet (m : Settles s t) : Quiet s t := .settle (.refl s) m

lemma Opens.quiet (kind : ScopeKind) (m : Opens kind s t) : Quiet s t := .add (.refl s) m

/-- What a token does: nothing but quiet moves, or it records the identifier it is in a live scope,
which it may bind in a scope around that one. -/
inductive Reads (site : Site) : Tracker → Tracker → Prop
  | quiet {s t : Tracker} (h : Quiet s t) : Reads site s t
  | mention {s t : Tracker} (h : Quiet s t) (hi : site.token.kind = .identifier) {scope : ScopeId}
      (hl : t.Live scope) (shorthand : Bool) : Reads site s (t.mention site scope shorthand)
  | declare {s t : Tracker} (h : Quiet s t) (hi : site.token.kind = .identifier)
      {target scope : ScopeId} (hl : t.Live scope)
      (ht : target ∈ Scope.ancestors t.scopes scope ∨ target = ScopeTree.global)
      (shorthand : Bool) : Reads site s (t.declareIn site target scope shorthand)
  | settle {s t u : Tracker} (h : Reads site s t) (m : Settles t u) : Reads site s u

lemma Reads.after (h : Quiet s t) (h' : Reads site t u) : Reads site s u := by
  induction h' generalizing s with
  | quiet h' => exact .quiet (h.trans h')
  | mention h' hi hl sh => exact .mention (h.trans h') hi hl sh
  | declare h' hi hl ht sh => exact .declare (h.trans h') hi hl ht sh
  | settle _ m ih => exact .settle (ih h) m

/-! ### Frames -/

/-- The innermost frame changes, but not the scope it gives back. -/
lemma settles_setTop {f : Frame → Frame} (hf : ∀ x, (f x).restore = x.restore) :
    Settles s (s.setTop f) :=
  ⟨rfl, rfl, rfl, fun id h => by simpa [live_iff, setTop, hf] using h⟩

lemma settles_push {f : Frame} (hf : s.Live f.restore) : Settles s (s.push f) := by
  refine ⟨rfl, rfl, rfl, fun id h => ?_⟩
  grind [live_iff, push]

lemma settles_takeSlot {kind : DeclKind} (h : s.takeSlot = some (kind, t)) : Settles s t := by
  cases takeSlot_cases h with
  | pattern => exact settles_setTop fun _ => rfl
  | list => exact ⟨rfl, rfl, rfl, fun id h => by grind [live_iff]⟩

/-! ### Bodies without braces -/

/-- What ends is the first of the bodies, and the last one to end gives back its scope. -/
lemma endBodies_split (depth : Nat) (comma : Bool) (current : ScopeId) (bodies : List OpenBody) :
    ∃ ended, bodies = ended ++ (endBodies depth comma current bodies).2 ∧
      (∀ b ∈ ended, depth ≤ b.depth) ∧
      (endBodies depth comma current bodies).1
        = (ended.getLast?.map OpenBody.restore).getD current := by
  induction bodies generalizing current with
  | nil => exact ⟨[], rfl, by simp, rfl⟩
  | cons b rest ih =>
    unfold endBodies
    split
    · exact ⟨[], rfl, by simp, rfl⟩
    · rename_i hb
      obtain ⟨ended, hrest, hdepth, hcur⟩ := ih b.restore
      refine ⟨b :: ended, by rw [List.cons_append, ← hrest], ?_, ?_⟩
      · intro x hx
        rcases List.mem_cons.mp hx with rfl | hx
        · simp only [Bool.or_eq_true, decide_eq_true_eq, not_or] at hb
          omega
        · exact hdepth x hx
      · rw [hcur]
        cases ended with
        | nil => rfl
        | cons x xs => rfl

lemma settles_endOpenBodies (depth : Nat) (comma : Bool) :
    Settles s (s.endOpenBodies depth comma) := by
  obtain ⟨ended, hb, -, hc⟩ := endBodies_split depth comma s.current s.openBodies
  have hcur : s.Live (s.endOpenBodies depth comma).current := by
    change s.Live (endBodies depth comma s.current s.openBodies).1
    rw [hc]
    cases hl : ended.getLast? with
    | none => exact .current
    | some b =>
      have hmem : b ∈ s.openBodies := by
        rw [hb]
        exact List.mem_append_left _ (List.mem_of_getLast? hl)
      exact .body hmem
  refine ⟨rfl, rfl, rfl, fun id h => ?_⟩
  cases h with
  | current => exact hcur
  | frame h => exact .frame h
  | body h =>
    refine .body ?_
    rw [hb]
    exact List.mem_append_right _ h
  | pending h => exact .pending h
  | params h => exact .params h
  | name h => exact .name h
  | clause h => exact .clause h

lemma settles_endDeclarations (depth : Nat) : Settles s (s.endDeclarations depth) :=
  ⟨rfl, rfl, rfl, fun id h => by grind [live_iff, endDeclarations]⟩

lemma quiet_endStatement : Quiet s s.endStatement :=
  .settle (.settle (settles_endDeclarations _).quiet (settles_endOpenBodies _ _))
    (settles_setTop fun _ => rfl)

lemma settles_abandonDeclaration : Settles s s.abandonDeclaration := by
  unfold abandonDeclaration
  split
  · exact ⟨rfl, rfl, rfl, fun id h => by grind [live_iff]⟩
  · exact ⟨rfl, rfl, rfl, fun id h => h⟩

lemma settles_beginBody (t : Token) : Settles s (s.beginBody t) := by
  have h := beginBody_cases s t
  generalize s.beginBody t = u at h ⊢
  cases h <;> exact ⟨rfl, rfl, rfl, fun id h => by grind [live_iff]⟩

/-! ### New scopes and names -/

/-- The body of a function or a catch clause that comes next, in a scope of its own. -/
lemma opens_enter_pending (kind : ScopeKind) (body : BodyKind) :
    Opens kind s { s.enter kind with pendingBody := some ⟨body, s.current⟩ } :=
  ⟨rfl, rfl, rfl, fun id h => by grind [live_iff, enter, addScope]⟩

lemma opens_nextParams (kind : ScopeKind) :
    Opens kind s { (s.addScope kind).2 with nextParams := some s.scopes.size } :=
  ⟨rfl, rfl, rfl, fun id h => by grind [live_iff, addScope]⟩

lemma hoistTarget_mem :
    s.hoistTarget ∈ Scope.ancestors s.scopes s.current ∨ s.hoistTarget = ScopeTree.global := by
  unfold hoistTarget
  cases h : (Scope.ancestors s.scopes s.current).find? fun id =>
      !(s.scopes[id]?).any Scope.isInner with
  | none => exact .inr rfl
  | some id => exact .inl (List.mem_of_find?_eq_some h)

lemma reads_declare (hi : site.token.kind = .identifier) (kind : DeclKind) (shorthand : Bool) :
    Reads site s (s.declare site kind shorthand) := by
  cases kind with
  | hoisted => exact Reads.declare (.refl s) hi .current hoistTarget_mem shorthand
  | lexical =>
    have hself := Scope.self_mem_ancestors s.scopes s.current
    exact Reads.declare (.refl s) hi .current (.inl hself) shorthand

/-! ### Words -/

lemma reads_key (site : Site) (next : Option Token) : Reads site s (s.key site next) := by
  have hkey : Settles s (s.setTop fun f => { f with atKey := false }) := settles_setTop fun _ => rfl
  have h := key_cases s site next
  generalize s.key site next = t at h ⊢
  cases h with
  | staticBlock =>
    exact .quiet (.settle (Opens.quiet .function (opens_enter_pending .function .function))
      (settles_setTop fun _ => rfl))
  | modifier => exact .quiet (.refl s)
  | method => exact .quiet (.add hkey.quiet (opens_nextParams .function))
  | binding hi kind => exact (reads_declare hi kind true).after hkey.quiet
  | shorthand hi => exact .mention hkey.quiet hi .current true
  | plain => exact .quiet hkey.quiet

lemma quiet_keyword (site : Site) (next : Option Token) (k : Keyword) :
    Quiet s (s.keyword site next k) := by
  have h := keyword_cases s site next k
  generalize s.keyword site next k = t at h ⊢
  cases h with
  | function =>
    exact Opens.quiet .function ⟨rfl, rfl, rfl, fun id h => by grind [live_iff, addScope]⟩
  | catchParam =>
    exact Opens.quiet .catchClause ⟨rfl, rfl, rfl, fun id h => by grind [live_iff, addScope]⟩
  | catchBody => exact Opens.quiet .catchClause (opens_enter_pending .catchClause .catchClause)
  | withHead => exact .mark (.refl s)
  | other => exact .refl s
  | _ => exact Settles.quiet ⟨rfl, rfl, rfl, fun id h => by grind [live_iff]⟩

lemma reads_nameFunction (hi : site.token.kind = .identifier) {scope : ScopeId}
    {declaration : Bool} (h : s.functionName = some (scope, declaration)) :
    Reads site s (s.nameFunction site scope declaration) := by
  have hname (t : Tracker) : Settles t { t with functionName := none } :=
    ⟨rfl, rfl, rfl, fun id h => by grind [live_iff]⟩
  cases declaration with
  | true => exact .declare (hname s).quiet hi .current hoistTarget_mem false
  | false =>
    have hself := Scope.self_mem_ancestors s.scopes scope
    exact .settle (.declare (.refl s) hi (.name h) (.inl hself) false) (hname _)

/-- An identifier after the keyword of a function that waits for its name is that name. -/
lemma identifier_of_functionName {scope : ScopeId} {declaration : Bool}
    (hf : s.functionName = some (scope, declaration))
    (hbefore : s.before.head?.any
      (fun p => p.token.isKeyword .kwFunction || p.token.isPunct "*") = true) :
    s.identifier site next = s.nameFunction site scope declaration := by
  have hprev : prevKeyword? s.before ≠ some .kwBreak ∧ prevKeyword? s.before ≠ some .kwContinue ∧
      prevKeyword? s.before ≠ some .kwClass := by
    cases hb : s.before with
    | nil => simp [prevKeyword?]
    | cons p rest =>
      rw [hb] at hbefore
      simp only [List.head?_cons, Option.any_some, Bool.or_eq_true, Token.isKeyword,
        Token.isPunct, Bool.and_eq_true, beq_iff_eq] at hbefore
      rcases hbefore with hk | ⟨hk, -⟩
      · simp only [prevKeyword?, hk]
        split <;> simp
      · simp [prevKeyword?, hk]
  obtain ⟨hbreak, hcontinue, hclass⟩ := hprev
  simp [identifier, hbreak, hcontinue, hclass, hf, hbefore]

lemma reads_identifier (hi : site.token.kind = .identifier) :
    Reads site s (s.identifier site next) := by
  have h := identifier_cases s site next
  generalize s.identifier site next = t at h ⊢
  cases h with
  | target => exact .quiet (.refl s)
  | classDeclaration => exact reads_declare hi _ false
  | className => exact .quiet (.refl s)
  | functionName h => exact reads_nameFunction hi h
  | between =>
    have hnone : Settles s { s with declaration := none } :=
      ⟨rfl, rfl, rfl, fun id h => by grind [live_iff]⟩
    exact .quiet hnone.quiet
  | label => exact .quiet (.refl s)
  | parameter =>
    exact (reads_declare hi .lexical false).after
      (Opens.quiet .function (opens_enter_pending .function .function))
  | eval => exact .mention (.mark (.refl s)) hi .current false
  | reference => exact .mention (.refl s) hi .current false

lemma kind_of_isWord {t : Token} (hw : t.isWord = true) (hk : ∀ k, t.kind ≠ .keyword k) :
    t.kind = .identifier := by
  unfold Token.isWord at hw
  split at hw
  · assumption
  · exact absurd ‹_› (hk _)
  · cases hw

lemma reads_word (hw : site.token.isWord = true) : Reads site s (s.word site next) := by
  have h := word_cases s site next
  generalize s.word site next = t at h ⊢
  cases h with
  | member => exact .quiet (.refl s)
  | privateKey => exact reads_key site next
  | keywordKey => exact (reads_key site next).after settles_abandonDeclaration.quiet
  | keyword => exact .quiet (settles_abandonDeclaration.quiet.trans (quiet_keyword site next _))
  | slot hk hslot =>
    exact (reads_declare (kind_of_isWord hw hk) _ false).after (settles_takeSlot hslot).quiet
  | key => exact reads_key site next
  | identifier hk => exact reads_identifier (kind_of_isWord hw hk)

/-! ### Brackets -/

lemma quiet_openBrace : Quiet s s.openBrace := by
  have h := openBrace_cases s
  generalize s.openBrace = t at h ⊢
  cases h with
  | functionBody =>
    exact Settles.quiet ⟨rfl, rfl, rfl, fun id h => by grind [live_iff, push, Frame.ofKind]⟩
  | catchBody =>
    exact Settles.quiet ⟨rfl, rfl, rfl, fun id h => by grind [live_iff, push, Frame.ofKind]⟩
  | loopBody =>
    exact Opens.quiet .block
      ⟨rfl, rfl, rfl, fun id h => by grind [live_iff, push, Frame.ofKind, enter, addScope]⟩
  | pattern _ hslot => exact (settles_takeSlot hslot).quiet.trans (settles_push .current).quiet
  | classBody =>
    exact Settles.quiet ⟨rfl, rfl, rfl, fun id h => by grind [live_iff, push, Frame.ofKind]⟩
  | object => exact (settles_push .current).quiet
  | block =>
    exact Opens.quiet .block
      ⟨rfl, rfl, rfl, fun id h => by grind [live_iff, push, Frame.ofKind, enter, addScope]⟩

lemma quiet_openSquare : Quiet s s.openSquare := by
  have h := openSquare_cases s
  generalize s.openSquare = t at h ⊢
  cases h with
  | pattern hslot => exact (settles_takeSlot hslot).quiet.trans (settles_push .current).quiet
  | computedKey =>
    have hkey : Settles s (s.setTop fun f => { f with atKey := false }) :=
      settles_setTop fun _ => rfl
    exact hkey.quiet.trans (settles_push .current).quiet
  | square => exact (settles_push .current).quiet

lemma quiet_openParen (site : Site) : Quiet s (s.openParen site) := by
  have h := openParen_cases s site
  generalize s.openParen site = t at h ⊢
  cases h with
  | params =>
    exact Settles.quiet ⟨rfl, rfl, rfl, fun id h => by
      grind [live_iff, push, Frame.withPattern, Frame.ofKind]⟩
  | forHead =>
    exact Opens.quiet .block
      ⟨rfl, rfl, rfl, fun id h => by grind [live_iff, push, Frame.ofKind, enter, addScope]⟩
  | catchParam =>
    exact Settles.quiet ⟨rfl, rfl, rfl, fun id h => by
      grind [live_iff, push, Frame.withPattern, Frame.ofKind]⟩
  | arrowParams =>
    exact Opens.quiet .function ⟨rfl, rfl, rfl, fun id h => by
      grind [live_iff, push, Frame.withPattern, Frame.ofKind, addScope]⟩
  | header => exact (settles_push .current).quiet
  | paren => exact (settles_push .current).quiet

lemma settles_endBlock (next : Option Token) : Settles s (s.endBlock next) := by
  have h := endBlock_cases s next
  generalize s.endBlock next = t at h ⊢
  cases h with
  | stays => exact settles_setTop fun _ => rfl
  | ends hb => exact ⟨rfl, rfl, rfl, fun id h => by grind [live_iff, setTop]⟩

lemma quiet_leave {around : Frame} {outer : List Frame} (h : s.outer = around :: outer) :
    Quiet s ((s.pop around outer).leave s.top next) := by
  have hcases := leave_cases (s.pop around outer) s.top next
  generalize (s.pop around outer).leave s.top next = t at hcases ⊢
  cases hcases with
  | method =>
    exact Opens.quiet .function ⟨rfl, rfl, rfl, fun id h => by grind [live_iff, pop, addScope]⟩
  | _ => exact Settles.quiet ⟨rfl, rfl, rfl, fun id h => by grind [live_iff, pop]⟩

lemma quiet_closeFrame {around : Frame} {outer : List Frame} (h : s.outer = around :: outer)
    (next : Option Token) : Quiet s (s.closeFrame around outer next) :=
  .settle (.settle (quiet_leave h) (settles_endOpenBodies _ false)) (settles_endDeclarations _)

lemma quiet_close (next : Option Token) : Quiet s (s.close next) := by
  have h := close_cases s next
  generalize s.close next = t at h ⊢
  cases h with
  | root => exact .refl s
  | frame h => exact quiet_closeFrame h next
  | braces h => exact .settle (quiet_closeFrame h next) (settles_endBlock next)

/-! ### Tokens -/

lemma quiet_comma : Quiet s s.comma := by
  have hrenew (t : Tracker) : Settles t t.renewDeclaration :=
    ⟨rfl, rfl, rfl, fun id h => by grind [live_iff, renewDeclaration]⟩
  unfold comma
  refine .settle (.settle (settles_endOpenBodies s.depth true).quiet (hrenew _)) ?_
  apply settles_setTop
  intro f
  split <;> rfl

lemma settles_colon : Settles s s.colon := by
  have h := colon_cases s
  generalize s.colon = t at h ⊢
  cases h with
  | conditional => exact ⟨rfl, rfl, rfl, fun id h => by grind [live_iff, setTop]⟩
  | property => exact ⟨rfl, rfl, rfl, fun id h => by grind [live_iff, setTop, Frame.expectName]⟩
  | statement => exact ⟨rfl, rfl, rfl, fun id h => by grind [live_iff]⟩

lemma quiet_arrow (next : Option Token) : Quiet s (s.arrow next) := by
  have h := arrow_cases s next
  generalize s.arrow next = t at h ⊢
  cases h with
  | same => exact .refl s
  | begins => exact Settles.quiet ⟨rfl, rfl, rfl, fun id h => by grind [live_iff]⟩

lemma quiet_punctuator (site : Site) (next : Option Token) :
    Quiet s (s.punctuator site next) := by
  have hset {f : Frame → Frame} (hf : ∀ x, (f x).restore = x.restore) : Quiet s (s.setTop f) :=
    (settles_setTop hf).quiet
  have h := punctuator_cases s site next
  generalize s.punctuator site next = t at h ⊢
  cases h with
  | openBrace => exact quiet_openBrace
  | openSquare => exact quiet_openSquare
  | openParen => exact quiet_openParen site
  | close => exact quiet_close next
  | endStatement => exact quiet_endStatement
  | comma => exact quiet_comma
  | colon => exact settles_colon.quiet
  | arrow => exact quiet_arrow next
  | mark => exact .refl s
  | operator => exact settles_abandonDeclaration.quiet
  | question => exact hset fun _ => rfl
  | initial => exact hset fun _ => rfl
  | spread => exact hset fun _ => rfl

lemma reads_read (site : Site) (next : Option Token) : Reads site s (s.read site next) := by
  have h := read_cases s site next
  generalize s.read site next = t at h ⊢
  cases h with
  | punctuator => exact .quiet (quiet_punctuator site next)
  | word hw => exact reads_word hw
  | key => exact reads_key site next
  | templateHead => exact .quiet (settles_push .current).quiet
  | templateMiddle =>
    exact .quiet (.settle (settles_endOpenBodies _ false).quiet (settles_setTop fun _ => rfl))
  | templateTail => exact .quiet (quiet_close next)
  | other => exact .quiet (.refl s)

lemma quiet_prepare (site : Site) : Quiet s (s.prepare site) := by
  have hopen : Settles s { s with closedHeader := false } :=
    ⟨rfl, rfl, rfl, fun id h => by grind [live_iff]⟩
  unfold prepare
  dsimp only
  refine .settle ?_ (settles_beginBody site.token)
  split
  · exact hopen.quiet.trans quiet_endStatement
  · exact hopen.quiet

/-- **What a token does** to the scopes of a script. -/
theorem reads_step (s : Tracker) (site : Site) (next : Option Token) :
    Reads site s (s.step site next) := by
  have hbefore (t : Tracker) (before : List Site) : Settles t { t with before := before } :=
    ⟨rfl, rfl, rfl, fun id h => by grind [live_iff]⟩
  unfold step
  exact .settle ((reads_read site next).after (quiet_prepare site)) (hbefore _ _)

end Minify.Tracker
