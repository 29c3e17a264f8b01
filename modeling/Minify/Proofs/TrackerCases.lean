import Mathlib.Tactic.Common
import Minify.Scope.Tracker

/-!
What the tracker makes of a token, by cases.

A function of a step asks one thing after another about its token, what stands before and after it,
and its state. Here its cases are listed, each with the answers on the way to it that matter later.
What a step does to a part of the state is then shown case by case.
-/

namespace Minify.Tracker

variable {s t : Tracker} {site : Site} {next : Option Token}

/-! ### Words -/

/-- What has a place for a name: the pattern around it, or the list of declarations. -/
inductive TakeSlotCase (s : Tracker) : DeclKind → Tracker → Prop
  | pattern {kind : DeclKind} : TakeSlotCase s kind (s.setTop (·.expectName false))
  | list {d : Declaration} (h : s.declaration = some d) (hdepth : d.depth = s.depth)
      (hexpect : d.expect = true) :
      TakeSlotCase s d.kind { s with declaration := some { d with expect := false } }

lemma takeSlot_cases {kind : DeclKind} (h : s.takeSlot = some (kind, t)) :
    TakeSlotCase s kind t := by
  unfold takeSlot at h
  split at h
  · cases h
    exact .pattern
  split at h
  · rename_i d hd
    split at h
    · rename_i hplace
      simp only [Bool.and_eq_true, decide_eq_true_eq] at hplace
      cases h
      exact .list hd hplace.1 hplace.2
    · cases h
  · cases h

lemma takeSlot_keeps {kind : DeclKind} (h : s.takeSlot = some (kind, t)) :
    t.scopes = s.scopes ∧ t.current = s.current := by
  cases takeSlot_cases h <;> exact ⟨rfl, rfl⟩

/-- What the name of a property is. -/
inductive KeyCase (s : Tracker) (site : Site) (next : Option Token) : Tracker → Prop
  /-- The keyword of a static block, whose braces come next. -/
  | staticBlock : KeyCase s site next
      ({ s.enter .function with pendingBody := some ⟨.function, s.current⟩ }.setTop fun f =>
        { f with atKey := false })
  /-- A word in front of the name. -/
  | modifier : KeyCase s site next s
  | method : KeyCase s site next
      { ((s.setTop fun f => { f with atKey := false }).addScope .function).2 with
        nextParams := some s.scopes.size }
  /-- A name that a pattern binds. -/
  | binding (hi : site.token.kind = .identifier) (kind : DeclKind) : KeyCase s site next
      ((s.setTop fun f => { f with atKey := false }).declare site kind true)
  | shorthand (hi : site.token.kind = .identifier) : KeyCase s site next
      ((s.setTop fun f => { f with atKey := false }).mention site s.current true)
  | plain : KeyCase s site next (s.setTop fun f => { f with atKey := false })

lemma key_cases (s : Tracker) (site : Site) (next : Option Token) :
    KeyCase s site next (s.key site next) := by
  unfold key
  dsimp only
  split
  · exact .staticBlock
  · split
    · exact .modifier
    · split
      · exact .method
      · split
        · rename_i hname
          simp only [Bool.and_eq_true, decide_eq_true_eq] at hname
          split
          · exact .binding hname.1.2 _
          · exact .shorthand hname.1.2
        · exact .plain

/-- What a keyword begins. -/
inductive KeywordCase (s : Tracker) (site : Site) : Keyword → Tracker → Prop
  | var : KeywordCase s site .kwVar { s with declaration := some ⟨.hoisted, s.depth, true⟩ }
  | list {k : Keyword} (hk : k = .kwLet ∨ k = .kwConst) :
      KeywordCase s site k { s with declaration := some ⟨.lexical, s.depth, true⟩ }
  | function : KeywordCase s site .kwFunction
      { (s.addScope .function).2 with
        nextParams := some s.scopes.size
        functionName := some (s.scopes.size, declaresFunction s.colonValue s.before site) }
  | classHead : KeywordCase s site .kwClass
      { s with classDeclaration := declaresFunction s.colonValue s.before site
               classBody := some s.depth }
  | catchParam : KeywordCase s site .kwCatch
      { (s.addScope .catchClause).2 with catchScope := some s.scopes.size }
  | catchBody : KeywordCase s site .kwCatch
      { s.enter .catchClause with pendingBody := some ⟨.catchClause, s.current⟩ }
  | withHead : KeywordCase s site .kwWith s.markEval
  /-- The head of a loop over the properties of an object. -/
  | propertyLoop (hd : s.declaring false = true) :
      KeywordCase s site .kwIn { s with declaration := none }
  | other {k : Keyword} : KeywordCase s site k s

lemma keyword_cases (s : Tracker) (site : Site) (next : Option Token) (k : Keyword) :
    KeywordCase s site k (s.keyword site next k) := by
  unfold keyword
  split
  · exact .var
  · exact .list (.inl rfl)
  · exact .list (.inr rfl)
  · exact .function
  · exact .classHead
  · split
    · exact .catchParam
    · exact .catchBody
  · exact .withHead
  · split
    · rename_i hd
      exact .propertyLoop hd
    · exact .other
  · exact .other

/-- An identifier that is no label after `break` or `continue` and not the name of a class or of a
function. -/
structure NamesNothing (s : Tracker) (site : Site) : Prop where
  notTarget : prevKeyword? s.before = some .kwBreak ∨ prevKeyword? s.before = some .kwContinue →
    site.newline = true
  notClass : prevKeyword? s.before ≠ some .kwClass
  notFunction : s.functionName ≠ none →
    s.before.head?.any
      (fun p => p.token.isKeyword .kwFunction || p.token.isPunct "*") = false

lemma NamesNothing.identifier_eq (h : NamesNothing s site) (next : Option Token) :
    s.identifier site next =
      if site.token.text == "of" && s.declaring false then { s with declaration := none }
      else if nextIs next ":" && s.top.ternary = 0 && prevKeyword? s.before != some .kwCase then s
      else if nextIs next "=>" then
        { s.enter .function with pendingBody := some ⟨.function, s.current⟩ }.declare site .lexical
          false
      else if site.token.text == "eval" then s.markEval.mention site s.current false
      else s.mention site s.current false := by
  have htarget : ((prevKeyword? s.before == some .kwBreak
      || prevKeyword? s.before == some .kwContinue) && !site.newline) = false := by
    have hline := h.notTarget
    grind
  unfold identifier
  dsimp only
  rw [if_neg (Bool.eq_false_iff.mp htarget), if_neg (by simpa using h.notClass)]
  split
  · rename_i hname hafter
    rw [h.notFunction (by rw [hname]; exact Option.some_ne_none _)] at hafter
    cases hafter
  · split_ifs <;> rfl

/-- What an identifier is that is no property and no name in a pattern or a list. -/
inductive IdentifierCase (s : Tracker) (site : Site) (next : Option Token) : Tracker → Prop
  /-- The label that `break` or `continue` goes to. -/
  | target : IdentifierCase s site next s
  | classDeclaration : IdentifierCase s site next (s.declare site .lexical false)
  | className : IdentifierCase s site next s
  | functionName {scope : ScopeId} {declaration : Bool}
      (h : s.functionName = some (scope, declaration)) :
      IdentifierCase s site next (s.nameFunction site scope declaration)
  /-- The word between the variable of a loop and what it runs over. -/
  | between (h : NamesNothing s site) (htext : site.token.text = "of")
      (hd : s.declaring false = true) : IdentifierCase s site next { s with declaration := none }
  | label : IdentifierCase s site next s
  /-- The parameter of an arrow without parentheses. -/
  | parameter : IdentifierCase s site next
      ({ s.enter .function with pendingBody := some ⟨.function, s.current⟩ }.declare site .lexical
        false)
  | eval (h : NamesNothing s site) (htext : site.token.text = "eval")
      (hlabel : nextIs next ":" = true → s.top.ternary = 0 → prevKeyword? s.before = some .kwCase)
      (hparameter : nextIs next "=>" = false) :
      IdentifierCase s site next (s.markEval.mention site s.current false)
  | reference : IdentifierCase s site next (s.mention site s.current false)

lemma identifier_cases (s : Tracker) (site : Site) (next : Option Token) :
    IdentifierCase s site next (s.identifier site next) := by
  unfold identifier
  dsimp only
  split
  · exact .target
  rename_i htarget
  split
  · split
    · exact .classDeclaration
    · exact .className
  rename_i hclass
  split
  · rename_i h _
    exact .functionName h
  rename_i hfunction
  have hnames : NamesNothing s site := by
    refine ⟨fun hprev => ?_, by simpa using hclass, fun hname => ?_⟩
    · simpa [hprev] using htarget
    · obtain ⟨x, hx⟩ := Option.ne_none_iff_exists'.mp hname
      exact Bool.eq_false_iff.mpr fun hafter => hfunction x.1 x.2 hx hafter
  split
  · rename_i hof
    simp only [Bool.and_eq_true, beq_iff_eq] at hof
    exact .between hnames hof.1 hof.2
  split
  · exact .label
  rename_i hlabel
  split
  · exact .parameter
  rename_i hparameter
  split
  · rename_i heval
    refine .eval hnames (eq_of_beq heval) (fun hcolon hternary => ?_) (by simpa using hparameter)
    simpa [hcolon, hternary] using hlabel
  · exact .reference

/-- A word that names no property of what stands before a point and no private member. -/
structure NamesNoMember (s : Tracker) : Prop where
  notProperty : afterDot s.before = false
  notPrivate : prevIs s.before "#" = false

/-- What a word is. -/
inductive WordCase (s : Tracker) (site : Site) (next : Option Token) : Tracker → Prop
  /-- A property after a point, or a private name. -/
  | member : WordCase s site next s
  /-- A private name, where a class has it. -/
  | privateKey : WordCase s site next (s.key site next)
  | keywordKey {k : Keyword} (hk : site.token.kind = .keyword k) :
      WordCase s site next (s.abandonDeclaration.key site next)
  | keyword {k : Keyword} (hk : site.token.kind = .keyword k) (h : NamesNoMember s)
      (hkey : s.atKey = false) : WordCase s site next (s.abandonDeclaration.keyword site next k)
  /-- The name that a pattern or a list of declarations waits for. -/
  | slot {kind : DeclKind} {t : Tracker} (hk : ∀ k, site.token.kind ≠ .keyword k)
      (hslot : s.takeSlot = some (kind, t)) : WordCase s site next (t.declare site kind false)
  | key (hk : ∀ k, site.token.kind ≠ .keyword k) : WordCase s site next (s.key site next)
  | identifier (hk : ∀ k, site.token.kind ≠ .keyword k) (h : NamesNoMember s)
      (hslot : s.takeSlot = none) (hkey : s.atKey = false) :
      WordCase s site next (s.identifier site next)

/-- Giving up a declaration list changes neither the scopes nor the frames. -/
lemma abandonDeclaration_keeps : s.abandonDeclaration.scopes = s.scopes ∧
    s.abandonDeclaration.current = s.current ∧ s.abandonDeclaration.atKey = s.atKey := by
  unfold abandonDeclaration
  split <;> exact ⟨rfl, rfl, rfl⟩

lemma word_cases (s : Tracker) (site : Site) (next : Option Token) :
    WordCase s site next (s.word site next) := by
  unfold word
  split
  · exact .member
  rename_i hdot
  split
  · split
    · exact .privateKey
    · exact .member
  rename_i hprivate
  have hmember : NamesNoMember s := ⟨by simpa using hdot, by simpa using hprivate⟩
  split
  · rename_i k hk
    dsimp only
    split
    · exact .keywordKey hk
    · rename_i hkey
      rw [abandonDeclaration_keeps.2.2, Bool.not_eq_true] at hkey
      exact .keyword hk hmember hkey
  · rename_i hk
    split
    · rename_i hslot
      exact .slot hk hslot
    · rename_i hslot
      split
      · exact .key hk
      · rename_i hkey
        exact .identifier hk hmember hslot (by simpa using hkey)

/-! ### Bodies -/

/-- What a token makes of the body whose header has been read. -/
inductive BeginBodyCase (s : Tracker) : Tracker → Prop
  /-- None is to come, or it is yet to come. -/
  | waits : BeginBodyCase s s
  /-- It has no braces. -/
  | opens {b : PendingBody} (hb : s.pendingBody = some b) (hk : b.kind = .loop) : BeginBodyCase s
      { s with pendingBody := none, openBodies := ⟨s.depth, b.restore, false⟩ :: s.openBodies }
  /-- There is none. -/
  | missing {b : PendingBody} (hb : s.pendingBody = some b) :
      BeginBodyCase s { s with pendingBody := none, current := b.restore }

lemma beginBody_cases (s : Tracker) (t : Token) : BeginBodyCase s (s.beginBody t) := by
  unfold beginBody
  split
  · exact .waits
  rename_i b hb
  split
  · exact .waits
  dsimp only
  split
  · rename_i hk
    exact .opens hb hk
  · exact .missing hb
  · exact .missing hb

/-! ### Opening brackets -/

/-- What a brace opens. -/
inductive OpenBraceCase (s : Tracker) : Tracker → Prop
  | functionBody {b : PendingBody} (hb : s.pendingBody = some b) (hk : b.kind = .function) :
      OpenBraceCase s ({ s with pendingBody := none }.push (.ofKind .functionBody b.restore))
  | catchBody {b : PendingBody} (hb : s.pendingBody = some b) (hk : b.kind = .catchClause) :
      OpenBraceCase s ({ s with pendingBody := none }.push (.ofKind .block b.restore))
  | loopBody {b : PendingBody} (hb : s.pendingBody = some b) (hk : b.kind = .loop) :
      OpenBraceCase s
        (({ s with pendingBody := none }.enter .block).push (.ofKind .block b.restore))
  | pattern {kind : DeclKind} {t : Tracker} (hn : s.pendingBody = none)
      (hslot : s.takeSlot = some (kind, t)) :
      OpenBraceCase s (t.push (.withPattern .object t.current kind))
  | classBody (hn : s.pendingBody = none) :
      OpenBraceCase s ({ s with classBody := none }.push (.ofKind .classBody s.current))
  | object (hn : s.pendingBody = none) : OpenBraceCase s (s.push (.ofKind .object s.current))
  | block (hn : s.pendingBody = none) :
      OpenBraceCase s ((s.enter .block).push (.ofKind .block s.current))

lemma openBrace_cases (s : Tracker) : OpenBraceCase s s.openBrace := by
  unfold openBrace
  split
  · rename_i b hb
    dsimp only
    split
    · rename_i hk
      exact .functionBody hb hk
    · rename_i hk
      exact .catchBody hb hk
    · rename_i hk
      exact .loopBody hb hk
  rename_i hn
  split
  · rename_i hslot
    exact .pattern hn hslot
  split
  · exact .classBody hn
  split
  · exact .object hn
  · exact .block hn

/-- What a square bracket opens. -/
inductive OpenSquareCase (s : Tracker) : Tracker → Prop
  | pattern {kind : DeclKind} {t : Tracker} (hslot : s.takeSlot = some (kind, t)) :
      OpenSquareCase s (t.push (.withPattern .square t.current kind))
  | computedKey : OpenSquareCase s
      ((s.setTop fun f => { f with atKey := false }).push (.ofKind .computedKey s.current))
  | square : OpenSquareCase s (s.push (.ofKind .square s.current))

lemma openSquare_cases (s : Tracker) : OpenSquareCase s s.openSquare := by
  unfold openSquare
  split
  · rename_i hslot
    exact .pattern hslot
  split
  · exact .computedKey
  · exact .square

/-- What a parenthesis opens. -/
inductive OpenParenCase (s : Tracker) : Tracker → Prop
  | params {scope : ScopeId} (h : s.nextParams = some scope) : OpenParenCase s
      ({ s with nextParams := none, functionName := none, current := scope }.push
        (.withPattern .params s.current .lexical))
  | forHead : OpenParenCase s ((s.enter .block).push (.ofKind .forHead s.current))
  | catchParam {scope : ScopeId} (hnone : s.nextParams = none)
      (hprev : prevKeyword? s.before = some .kwCatch) (h : s.catchScope = some scope) :
      OpenParenCase s ({ s with catchScope := none, current := scope }.push
        (.withPattern .catchParam s.current .lexical))
  | arrowParams : OpenParenCase s ({ (s.addScope .function).2 with current := s.scopes.size }.push
      (.withPattern .params s.current .lexical))
  | header : OpenParenCase s (s.push (.ofKind .header s.current))
  | paren : OpenParenCase s (s.push (.ofKind .paren s.current))

lemma openParen_cases (s : Tracker) (site : Site) : OpenParenCase s (s.openParen site) := by
  unfold openParen
  dsimp only
  split
  · rename_i h
    exact .params h
  rename_i hnone
  split
  · exact .forHead
  split
  · rename_i hprev h
    exact .catchParam hnone hprev h
  split
  · exact .arrowParams
  split
  · exact .header
  · exact .paren

/-! ### Closing brackets -/

/-- What follows the end of a frame. -/
inductive LeaveCase (s : Tracker) (f : Frame) : Tracker → Prop
  /-- The scope of the frame ends. -/
  | braces (hk : f.kind = .block ∨ f.kind = .functionBody) :
      LeaveCase s f { s with current := f.restore }
  /-- The body comes next. -/
  | head {body : BodyKind} (hk : f.kind = .params ∧ body = .function ∨
      f.kind = .forHead ∧ body = .loop ∨ f.kind = .catchParam ∧ body = .catchClause) :
      LeaveCase s f { s with pendingBody := some ⟨body, f.restore⟩, closedHeader := true }
  | header (hk : f.kind = .header) : LeaveCase s f { s with closedHeader := true }
  | method (hk : f.kind = .computedKey) : LeaveCase s f
      { (s.addScope .function).2 with nextParams := some s.scopes.size }
  | plain (hk : f.kind ≠ .functionBody ∧ f.kind ≠ .params) : LeaveCase s f s

lemma leave_cases (s : Tracker) (f : Frame) (next : Option Token) :
    LeaveCase s f (s.leave f next) := by
  unfold leave
  split
  · rename_i hk
    exact .braces (.inl hk)
  · rename_i hk
    exact .braces (.inr hk)
  · rename_i hk
    exact .head (.inl ⟨hk, rfl⟩)
  · rename_i hk
    exact .head (.inr (.inl ⟨hk, rfl⟩))
  · rename_i hk
    exact .head (.inr (.inr ⟨hk, rfl⟩))
  · rename_i hk
    exact .header hk
  · rename_i hk
    split
    · exact .method hk
    · exact .plain (by simp [hk])
  · exact .plain ⟨by assumption, by assumption⟩

/-- What the end of a block does to the bodies without braces around it. -/
inductive EndBlockCase (s : Tracker) (next : Option Token) : Tracker → Prop
  | stays : EndBlockCase s next
      (s.setTop fun f => { f with atKey := f.atKey || f.kind = .classBody })
  /-- The innermost one ends with it. -/
  | ends {b : OpenBody} {rest : List OpenBody} (hb : s.openBodies = b :: rest)
      (hdepth : b.depth = s.depth) (hnext : goesOn next = false) : EndBlockCase s next
      { s.setTop (fun f => { f with atKey := f.atKey || f.kind = .classBody }) with
        current := b.restore, openBodies := rest }

lemma endBlock_cases (s : Tracker) (next : Option Token) :
    EndBlockCase s next (s.endBlock next) := by
  unfold endBlock
  dsimp only
  split
  · exact .stays
  · rename_i hb
    split
    · rename_i hends
      simp only [Bool.and_eq_true, decide_eq_true_eq, Bool.not_eq_true'] at hends
      exact .ends hb hends.1.1 hends.2
    · exact .stays

/-- What a closing bracket closes. -/
inductive CloseCase (s : Tracker) (next : Option Token) : Tracker → Prop
  /-- Nothing is open. -/
  | root (h : s.outer = []) : CloseCase s next s
  | frame {around : Frame} {outer : List Frame} (h : s.outer = around :: outer) :
      CloseCase s next (s.closeFrame around outer next)
  | braces {around : Frame} {outer : List Frame} (h : s.outer = around :: outer)
      (hk : s.top.kind = .block ∨ s.top.kind = .functionBody) :
      CloseCase s next ((s.closeFrame around outer next).endBlock next)

lemma close_cases (s : Tracker) (next : Option Token) : CloseCase s next (s.close next) := by
  unfold close
  split
  · rename_i h
    exact .root h
  · rename_i h
    dsimp only
    split
    · rename_i hk
      exact .braces h (by simpa using hk)
    · exact .frame h

/-! ### Tokens -/

/-- What a colon stands in. -/
inductive ColonCase (s : Tracker) : Tracker → Prop
  | conditional : ColonCase s
      { s.setTop fun f => { f with ternary := f.ternary - 1 } with colonValue := true }
  | property : ColonCase s { s.setTop (·.expectName true) with colonValue := true }
  | statement : ColonCase s { s with colonValue := false }

lemma colon_cases (s : Tracker) : ColonCase s s.colon := by
  unfold colon
  split
  · exact .conditional
  split
  · exact .property
  · exact .statement

/-- What follows an arrow. -/
inductive ArrowCase (s : Tracker) : Tracker → Prop
  /-- The braces of its body, or the arrow is none. -/
  | same : ArrowCase s s
  /-- A body without braces. -/
  | begins {restore : ScopeId} (hb : s.pendingBody = some ⟨.function, restore⟩) : ArrowCase s
      { s with pendingBody := none, openBodies := ⟨s.depth, restore, true⟩ :: s.openBodies }

lemma arrow_cases (s : Tracker) (next : Option Token) : ArrowCase s (s.arrow next) := by
  unfold arrow
  split
  · rename_i hb
    split
    · exact .same
    · exact .begins hb
  · exact .same

/-- What a punctuator does. -/
inductive PunctuatorCase (s : Tracker) (site : Site) (next : Option Token) : Tracker → Prop
  | openBrace (ht : site.token.text = "\x7b") : PunctuatorCase s site next s.openBrace
  | openSquare (ht : site.token.text = "[") : PunctuatorCase s site next s.openSquare
  | openParen (ht : site.token.text = "(") : PunctuatorCase s site next (s.openParen site)
  | close (ht : site.token.text ∈ [")", "]", "\x7d"]) : PunctuatorCase s site next (s.close next)
  | endStatement (ht : site.token.text = ";") : PunctuatorCase s site next s.endStatement
  | comma (ht : site.token.text = ",") : PunctuatorCase s site next s.comma
  | question (ht : site.token.text = "?") :
      PunctuatorCase s site next (s.setTop fun f => { f with ternary := f.ternary + 1 })
  | colon (ht : site.token.text = ":") : PunctuatorCase s site next s.colon
  | initial (ht : site.token.text = "=") : PunctuatorCase s site next
      (s.setTop fun f => { f.expectName false with atKey := f.atKey && f.kind != .classBody })
  | arrow (ht : site.token.text = "=>") : PunctuatorCase s site next (s.arrow next)
  | spread (ht : site.token.text = "...") : PunctuatorCase s site next
      (s.setTop fun f => { f.expectName true with atKey := f.atKey && f.kind != .object })
  /-- It may stand before the name of a property. -/
  | mark (ht : site.token.text ∈ ["*", "#"]) : PunctuatorCase s site next s
  | operator (ht : site.token.text ∉ ["\x7b", "[", "(", ")", "]", "\x7d"]) :
      PunctuatorCase s site next s.abandonDeclaration

lemma punctuator_cases (s : Tracker) (site : Site) (next : Option Token) :
    PunctuatorCase s site next (s.punctuator site next) := by
  unfold punctuator
  split
  · exact .openBrace ‹_›
  · exact .openSquare ‹_›
  · exact .openParen ‹_›
  · exact .close (by simp [*])
  · exact .close (by simp [*])
  · exact .close (by simp [*])
  · exact .endStatement ‹_›
  · exact .comma ‹_›
  · exact .question ‹_›
  · exact .colon ‹_›
  · exact .initial ‹_›
  · exact .arrow ‹_›
  · exact .spread ‹_›
  · exact .mark (by simp [*])
  · exact .mark (by simp [*])
  · exact .operator (by simp only [List.mem_cons, List.not_mem_nil, or_false]; tauto)

/-- What a token is read as. -/
inductive ReadCase (s : Tracker) (site : Site) (next : Option Token) : Tracker → Prop
  | punctuator (hk : site.token.kind = .punctuator) :
      ReadCase s site next (s.punctuator site next)
  | word (hw : site.token.isWord = true) : ReadCase s site next (s.word site next)
  /-- A property with a string or a number for its name. -/
  | key (hk : site.token.kind = .string ∨ site.token.kind = .number) :
      ReadCase s site next (s.key site next)
  | templateHead (hk : site.token.kind = .template .head) :
      ReadCase s site next (s.push (.ofKind .substitution s.current))
  | templateMiddle (hk : site.token.kind = .template .middle) : ReadCase s site next
      ((s.endOpenBodies s.depth false).setTop fun f => { f with ternary := 0 })
  | templateTail (hk : site.token.kind = .template .tail) : ReadCase s site next (s.close next)
  | other (hb : Site.bracket site.token = .none) : ReadCase s site next s

lemma read_cases (s : Tracker) (site : Site) (next : Option Token) :
    ReadCase s site next (s.read site next) := by
  unfold read
  split
  · exact .punctuator ‹_›
  · exact .word (by simp [Token.isWord, *])
  · exact .word (by simp [Token.isWord, *])
  · rename_i hk
    split
    · exact .key (.inl hk)
    · exact .other (by simp [Site.bracket, hk])
  · rename_i hk
    split
    · exact .key (.inr hk)
    · exact .other (by simp [Site.bracket, hk])
  · exact .templateHead ‹_›
  · exact .templateMiddle ‹_›
  · exact .templateTail ‹_›
  · exact .other (by unfold Site.bracket; split <;> simp_all)

lemma bracket_of_isWord (hw : site.token.isWord = true) : Site.bracket site.token = .none := by
  unfold Token.isWord at hw
  unfold Site.bracket
  split <;> simp_all

lemma closes_of_mem (hk : site.token.kind = .punctuator)
    (ht : site.token.text ∈ [")", "]", "\x7d"]) : ∃ c, Site.bracket site.token = .closes c := by
  simp only [List.mem_cons, List.not_mem_nil, or_false] at ht
  rcases ht with ht | ht | ht <;> simp [Site.bracket, hk, ht]

end Minify.Tracker
