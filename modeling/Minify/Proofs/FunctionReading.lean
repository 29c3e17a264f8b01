import Minify.Proofs.LoopBrackets
import Minify.Proofs.ReadExpressions

/-!
Reading functions, one after another, outside of all others.

The name of a function is declared in the scope around all others, its parameters in a scope of
their own, which is the scope of its body. Whatever the body is, as long as it gives back all that
it opens, the tracker comes out of its braces as it went into the function.
-/

namespace Minify

namespace MarkedWord

/-- `function name(params) { body }` -/
def function (name : String) (params : List String) (body : List MarkedWord) : List MarkedWord :=
  .other (.keyword .kwFunction "function") :: .name name :: .punct "(" ::
    (listed params ++ .punct ")" :: .punct "\x7b" :: (body ++ [.punct "\x7d"]))

lemma nested_function {body : List MarkedWord} (name : String) (params : List String)
    (h : Nested body) :
    Nested (function name params body) :=
  .plain rfl (.plain rfl (.group (a := "(") (b := ")") (by simp) rfl rfl rfl rfl (.listed params)
    (.braces h) rfl))

end MarkedWord

namespace Tracker

variable {s t u : Tracker} {site : Site} {next : Option Token} {sites : List Site}
  {sees after : String → Option ScopeId} {x : String} {params : List String} {indices : List Nat}
  {a : Nat} {f : List (String × Option ScopeId)} {i : List Nat} {ps : List MarkedWord}

/-- The tracker is where it was, and more is recorded. -/
def Back (s t : Tracker) : Prop :=
  t = { s with
    scopes := t.scopes, inside := t.inside, occurrences := t.occurrences
    colonValue := t.colonValue, before := t.before }

lemma Back.trans (h : Back s t) (h' : Back t u) : Back s u := by
  unfold Back
  rw [h', h]

/-- Statements that open and close all bodies of loops leave the tracker where it was. -/
lemma Moved.back (h : Moved s t s.current s.openBodies a f) (hc : s.closedHeader = false) :
    Back s t := by
  have hcolon : t.colonValue = s.colonValue := by rw [h.state]
  refine h.state.trans ?_
  rw [hcolon, ← hc]

/-! ### In the braces of a function -/

lemma Ready.free (hs : Ready s) (hb : ∀ b ∈ s.openBodies, b.depth ≤ s.depth) : Free s :=
  ⟨hs.pattern, hs.atKey, hs.declaration, hs.pendingBody, hs.nextParams, hs.functionName, hb⟩

lemma Opening.clear {before : List Site} (h : Opening before) : Clear before := by
  have hplain := h.plain
  obtain ⟨q, rest, rfl, hq⟩ := h
  refine ⟨hplain.dot, hplain.hash, fun k hk => ?_, ?_⟩
  · rcases hplain.keyword with hnone | helse
    · rw [hnone] at hk
      cases hk
    · rw [helse] at hk
      cases hk
      exact ⟨rfl, by decide⟩
  · rcases hq with ⟨hk, -⟩ | hk <;> simp [afterForAwait, Token.isIdent, hk]

lemma Back.ready (h : Back s t) (hs : Ready s) : Ready t := by
  rw [h]
  exact hs.of_eq rfl

lemma Ready.calm (hs : Ready s) (hb : ∀ b ∈ s.openBodies, b.depth < s.depth) : Calm s site := by
  refine .inr (.inr ?_)
  rw [hs.endStatement]
  exact endOpenBodies_of_lt hb

lemma step_keyword {k : Keyword} (hk : k ∈ [.kwReturn, .kwSwitch, .kwCase, .kwDefault])
    (hs : Free s)
    (hdot : afterDot s.before = false) (hhash : prevIs s.before "#" = false) (hc : Calm s site)
    (hsite : site.token.kind = .keyword k) : s.step site next = s.passed site := by
  have hread : s.unmarked.read site next = s.unmarked := by
    have habandon : s.unmarked.abandonDeclaration = s.unmarked :=
      abandonDeclaration_of_none hs.declaration
    have hkey : s.unmarked.atKey = false := hs.atKey_eq
    have hbefore : s.unmarked.before = s.before := rfl
    simp only [List.mem_cons, List.not_mem_nil, or_false] at hk
    rcases hk with rfl | rfl | rfl | rfl <;>
      simp only [read, hsite, word, hbefore, hdot, hhash, habandon, hkey, keyword,
        Bool.false_eq_true, if_false]
  rw [step_of_read hs.pendingBody hc hread]
  rfl

/-- A semicolon ends the bodies of arrows that an expression has left open. -/
lemma ReadAs.semicolon (next : Option Token) (hs : Ready s)
    (hb : ∀ b ∈ s.openBodies, b.depth < s.depth) (h : ReadAs s t after a f i)
    (hsite : (Word.punct ";").At site) :
    t.step site next = { s with
      scopes := t.scopes, inside := t.inside, occurrences := t.occurrences
      colonValue := t.colonValue, closedHeader := false, before := site :: t.before } := by
  obtain ⟨new, hnew, -⟩ := h.bodies
  have hready : Ready t := hs.of_eq h.alike
  have hbodies : endBodies t.depth false t.current t.openBodies = (s.current, s.openBodies) := by
    rw [h.alike.depth]
    exact hnew.ended hb
  rw [step_semicolon next hready hbodies hsite]
  exact congrArg (fun u : Tracker => { u with
    current := s.current, openBodies := s.openBodies, closedHeader := false
    before := site :: t.before }) h.alike

/-! ### The head of a function and its braces -/

/-- The tracker is outside of all functions and waits for nothing. -/
structure Outside (s : Tracker) : Prop where
  state : s = { start with
    scopes := s.scopes, inside := s.inside, occurrences := s.occurrences
    colonValue := s.colonValue, before := s.before }
  size : 0 < s.scopes.size
  before : ∀ p ∈ s.before.head?, (Word.punct "\x7d").At p

lemma outside_start : Outside start := ⟨rfl, Nat.one_pos, nofun⟩

lemma Outside.free (h : Outside s) : Free s := by
  rw [h.state]
  exact ⟨rfl, rfl, rfl, rfl, rfl, rfl, nofun⟩

lemma Outside.clear (h : Outside s) : Clear s.before := by
  have hbefore := h.before
  cases hb : s.before with
  | nil => exact ⟨rfl, rfl, nofun, rfl⟩
  | cons p rest => exact clear_punct (hbefore p (by rw [hb]; rfl)) (by simp)

lemma Outside.calm (h : Outside s) (site : Site) : Calm s site := by
  refine .inr (.inr ?_)
  rw [h.state]
  rfl

lemma Outside.declares (h : Outside s) (site : Site) :
    declaresFunction s.colonValue s.before site = true := by
  have hbefore := h.before
  cases hb : s.before with
  | nil => rfl
  | cons p rest =>
    have hp := hbefore p (by rw [hb]; rfl)
    simp [declaresFunction, Tracker.declares, Token.isIdent, hp.kind, hp.text, Word.punct]

def afterName (s : Tracker) (site : Site) (before : List Site) : Tracker :=
  { s.declareIn site 0 s.current false with before := before }

lemma hoistTarget_of_global (h : s.current = 0) : s.hoistTarget = 0 := by
  unfold hoistTarget
  rw [h, Scope.ancestors_zero, List.find?_cons]
  split <;> rfl

def functionScope (s : Tracker) : Scope :=
  { parent := some s.current, kind := .function, bindings := [], hasEval := false }

/-- After `function`, a name and the parameters are to come. -/
def afterFunction (s : Tracker) (p : Site) : Tracker :=
  { s with
    scopes := s.scopes.push s.functionScope, inside := s.withInner
    nextParams := some s.scopes.size
    functionName := some (s.scopes.size, true), closedHeader := false, before := p :: s.before }

def afterFunctionName (s : Tracker) (p site : Site) : Tracker :=
  { s with
    scopes := (s.scopes.push s.functionScope).modify 0 fun sc => sc.bind site.token.text
    inside := s.withInner
    occurrences := ⟨site.index, site.token.text, s.current, false⟩ :: s.occurrences
    nextParams := some s.scopes.size, closedHeader := false, before := site :: p :: s.before }

def atParams (s : Tracker) (p site o : Site) : Tracker :=
  { s.afterName site (o :: site :: p :: s.before) with
    scopes := (s.afterFunctionName p site).scopes
    inside := (s.afterFunctionName p site).inside, current := s.scopes.size
    top := { Frame.ofKind .params s.current with pattern := some ⟨.lexical, true⟩ }
    outer := s.top :: s.outer, closedHeader := false }

lemma step_function {p : Site} (next : Option Token) (hs : Outside s)
    (hp : p.token.kind = .keyword .kwFunction) : s.step p next = s.afterFunction p := by
  have hfree := hs.free
  have hread : s.unmarked.read p next = { s.afterFunction p with before := s.before } := by
    have habandon : s.unmarked.abandonDeclaration = s.unmarked :=
      abandonDeclaration_of_none hfree.declaration
    have hkey : s.unmarked.atKey = false := hfree.atKey_eq
    have hbefore : s.unmarked.before = s.before := rfl
    have hdeclares : declaresFunction s.unmarked.colonValue s.before p = true := hs.declares p
    simp only [read, hp, word, hbefore, hs.clear.dot, hs.clear.hash, habandon, hkey, keyword,
      hdeclares, Bool.false_eq_true, if_false]
    rfl
  rw [step_of_read hfree.pendingBody (hs.calm p) hread]
  rfl

lemma step_functionName {p : Site} (next : Option Token) (hs : Outside s)
    (hp : p.token.kind = .keyword .kwFunction) (hsite : site.token.kind = .identifier) :
    (s.afterFunction p).step site next = s.afterFunctionName p site := by
  have hfree := hs.free
  have hoperand : p.token.endsOperand = false := by
    simp [Token.endsOperand, hp, Keyword.isOperand]
  have hdot : afterDot (p :: s.before) = false := by simp [afterDot, Token.isPunct, hp]
  have hhash : prevIs (p :: s.before) "#" = false := by simp [prevIs, Token.isPunct, hp]
  have hread : (s.afterFunction p).unmarked.read site next
      = { s.afterFunctionName p site with before := p :: s.before } := by
    have hslot : (s.afterFunction p).unmarked.takeSlot = none :=
      takeSlot_of_none hfree.pattern hfree.declaration
    have hkey : (s.afterFunction p).unmarked.atKey = false := hfree.atKey_eq
    have hbefore : (s.afterFunction p).unmarked.before = p :: s.before := rfl
    have hcurrent : s.current = 0 := by rw [hs.state]; rfl
    have htarget :
        ({ (s.afterFunction p).unmarked with functionName := none } : Tracker).hoistTarget = 0 :=
      hoistTarget_of_global hcurrent
    simp only [read, hsite, word, hbefore, hdot, hhash, hslot, hkey, Bool.false_eq_true, if_false]
    rw [identifier_of_functionName rfl (by simp [hbefore, Token.isKeyword, hp])]
    simp only [nameFunction, if_true, htarget]
    change ({ s.afterFunctionName p site with
      functionName := none, before := p :: s.before } : Tracker) = _
    rw [← hfree.functionName]
    rfl
  rw [step_of_read (s := s.afterFunction p) hfree.pendingBody (calm_of_not_operand rfl hoperand)
    hread]
  rfl

lemma step_atParams {p o : Site} (next : Option Token) (hs : Free s) (ho : (Word.punct "(").At o) :
    (s.afterFunctionName p site).step o next = s.atParams p site o := by
  have hread : (s.afterFunctionName p site).unmarked.read o next
      = { s.atParams p site o with before := site :: p :: s.before } := by
    simp only [read, punctuator, ho.kind, ho.text, openParen, Word.punct]
    change ({ s.atParams p site o with
      nextParams := none, functionName := none, before := site :: p :: s.before } : Tracker) = _
    rw [← hs.functionName, ← hs.nextParams]
    rfl
  rw [step_of_read (s := s.afterFunctionName p site) hs.pendingBody
    (calm_of_word ho (by simp [Word.punct])) hread]
  rfl

/-- The scope of the function is the newest, and its name is one of the script. -/
lemma declares_atParams {p o : Site} (before : List Site) (h : 0 < s.scopes.size) :
    Declares (s.afterName site before) (s.atParams p site o) [] [] := by
  have he : (s.afterName site before).scopes
      = s.scopes.modify 0 fun sc => sc.bind site.token.text := rfl
  have hsize : (s.afterName site before).scopes.size = s.scopes.size := Array.size_modify
  have hscopes : (s.atParams p site o).scopes
      = (s.scopes.push s.functionScope).modify 0 fun sc => sc.bind site.token.text := rfl
  have hget (k : Nat) : (s.atParams p site o).scopes[k]?
      = ((s.afterName site before).scopes.push s.functionScope)[k]? := by
    have hzero : (0 : Nat) ≠ s.scopes.size := Nat.ne_of_lt h
    rw [hscopes, he, Array.getElem?_modify, Array.getElem?_push, Array.getElem?_push,
      Array.size_modify, Array.getElem?_modify]
    grind
  refine ⟨?_, fun k hk => ?_, ⟨s.functionScope, ?_, rfl, fun y => Iff.rfl⟩, [], rfl, rfl, rfl⟩
  · rw [hsize, hscopes]
    exact Array.size_modify.trans (Array.size_push _)
  · rw [hget, Array.getElem?_push_lt hk, Array.getElem?_eq_getElem hk]
  · rw [hget, Array.getElem?_push_size]

/-- `function name(` -/
lemma readAll_functionName {p o : Site} (next : Option Token) (hs : Outside s)
    (hsites : Marked [p, site, o]
      [.other (.keyword .kwFunction "function"), .name x, .punct "("]) :
    ∃ before, site.token.text = x ∧ (s.readAll next [p, site, o]).before = o :: before ∧
      Declares (s.afterName site before) (s.readAll next [p, site, o]) [] [] ∧
      AmongParams (s.afterName site before) (s.readAll next [p, site, o]) true := by
  obtain ⟨hp, hrest⟩ := List.forall₂_cons.mp hsites
  obtain ⟨hsite, hrest⟩ := List.forall₂_cons.mp hrest
  obtain ⟨ho, -⟩ := List.forall₂_cons.mp hrest
  have hread : s.readAll next [p, site, o] = s.atParams p site o := by
    simp only [readAll]
    rw [step_function _ hs hp.word.kind, step_functionName _ hs hp.word.kind hsite.word.kind,
      step_atParams _ hs.free ho.word]
  refine ⟨site :: p :: s.before, hsite.word.text, ?_⟩
  rw [hread]
  refine ⟨rfl, declares_atParams _ hs.size, ?_⟩
  have hsize : (s.afterName site (site :: p :: s.before)).scopes.size = s.scopes.size :=
    Array.size_modify
  unfold AmongParams
  rw [hsize]
  rfl

/-- The tracker is in the braces of a function, whose scope declares its parameters. -/
def InFunction (s t : Tracker) : Prop :=
  t = { s with
    scopes := t.scopes, inside := t.inside, occurrences := t.occurrences, before := t.before
    current := s.scopes.size
    top := Frame.ofKind .functionBody s.current, outer := s.top :: s.outer, closedHeader := false }

lemma step_openFunction {c o : Site} {expect : Bool} (hs : Free s)
    (hd : Declares s t params indices)
    (ht : AmongParams s t expect) (hc : (Word.punct ")").At c) (ho : (Word.punct "\x7b").At o)
    (n n' : Option Token) :
    Declares s ((t.step c n).step o n') params indices ∧ InFunction s ((t.step c n).step o n') := by
  obtain ⟨hdeclares, hclosed⟩ := step_closeParams n hs hd ht hc
  generalize t.step c n = u at hdeclares hclosed
  have hbrace : o.token.isPunct "\x7b" = true := by
    simp [Token.isPunct, ho.kind, ho.text, Word.punct]
  have hpending : u.unmarked.pendingBody = some ⟨.function, s.current⟩ := by rw [hclosed]; rfl
  have hread : u.unmarked.read o n'
      = ({ u.unmarked with pendingBody := none } : Tracker).push
        (.ofKind .functionBody s.current) := by
    simp only [read, punctuator, ho.kind, ho.text, Word.punct, openBrace, hpending]
  have hstep : u.step o n' = { s with
      scopes := u.scopes, inside := u.inside, occurrences := u.occurrences, current := s.scopes.size
      top := Frame.ofKind .functionBody s.current, outer := s.top :: s.outer, closedHeader := false
      before := o :: u.before } := by
    rw [step, prepare_of_closed (by rw [hclosed]), beginBody_of_brace hbrace, hread, hclosed]
    change ({ s with
      scopes := u.scopes, inside := u.inside, occurrences := u.occurrences, current := s.scopes.size
      top := Frame.ofKind .functionBody s.current, outer := s.top :: s.outer, pendingBody := none
      closedHeader := false, before := o :: u.before } : Tracker) = _
    rw [← hs.pendingBody]
  rw [hstep]
  exact ⟨⟨hdeclares.size, hdeclares.agree, hdeclares.scope, hdeclares.recorded⟩, rfl⟩

/-- The state after the name of a function, but for what stands before it. -/
lemma state_afterName (hs : Outside s) (site : Site) (before : List Site) :
    s.afterName site before = { start with
      scopes := (s.afterName site before).scopes
      inside := (s.afterName site before).inside
      occurrences := (s.afterName site before).occurrences
      colonValue := s.colonValue, before := before } := by
  rw [hs.state]
  rfl

lemma InFunction.ready {site : Site} {before : List Site} (hs : Outside s)
    (h : InFunction (s.afterName site before) t) : Ready t ∧ t.openBodies = [] := by
  rw [h, state_afterName hs]
  exact ⟨⟨.inr rfl, rfl, rfl, rfl, rfl, rfl, rfl, rfl, rfl, rfl⟩, rfl⟩

lemma step_closeFunction {site c : Site} {before : List Site} (next : Option Token) (hs : Outside s)
    (h : InFunction (s.afterName site before) t) (hrests : Back t u) (hsize : 0 < u.scopes.size)
    (hc : (Word.punct "\x7d").At c) :
    Outside (u.step c next) ∧ (u.step c next).scopes = u.scopes ∧
      (u.step c next).occurrences = u.occurrences := by
  obtain ⟨hready, -⟩ := h.ready hs
  have hcurrent : s.current = 0 := by rw [hs.state]; rfl
  have hstate : u.unmarked = { start with
      scopes := u.scopes, inside := u.inside, occurrences := u.occurrences, current := u.current
      top := Frame.ofKind .functionBody 0, outer := [start.top], colonValue := u.colonValue
      before := u.before } := by
    rw [hrests, h, state_afterName hs]
    rfl
  have hread : u.unmarked.read c next = { start with
      scopes := u.scopes, inside := u.inside, occurrences := u.occurrences
      colonValue := u.colonValue, before := u.before } := by
    simp only [read, punctuator, hc.kind, hc.text, Word.punct]
    rw [hstate]
    rfl
  rw [step_of_read (hrests.ready hready).pendingBody (calm_of_word hc (by simp [Word.punct])) hread]
  refine ⟨⟨rfl, hsize, ?_⟩, rfl, rfl⟩
  rintro p ⟨⟩
  exact hc

lemma marked_function (h : Marked sites (MarkedWord.function x params ps)) :
    ∃ p site q names c o inner e,
      sites = p :: site :: q :: (names ++ c :: o :: (inner ++ [e])) ∧
      Marked [p, site, q] [.other (.keyword .kwFunction "function"), .name x, .punct "("] ∧
      Marked names (MarkedWord.listed params) ∧ (Word.punct ")").At c ∧ (Word.punct "\x7b").At o ∧
      Marked inner ps ∧ (Word.punct "\x7d").At e := by
  obtain ⟨p, rest₁, hp, h₁, rfl⟩ := List.forall₂_cons_right_iff.mp h
  obtain ⟨site, rest₂, hsite, h₂, rfl⟩ := List.forall₂_cons_right_iff.mp h₁
  obtain ⟨q, rest₃, hq, h₃, rfl⟩ := List.forall₂_cons_right_iff.mp h₂
  obtain ⟨names, rest₄, rfl, hnames, h₄⟩ := marked_append h₃
  obtain ⟨c, rest₅, hc, h₅, rfl⟩ := List.forall₂_cons_right_iff.mp h₄
  obtain ⟨o, rest₆, ho, h₆, rfl⟩ := List.forall₂_cons_right_iff.mp h₅
  obtain ⟨inner, e, rfl, hinner, he⟩ := marked_last h₆
  exact ⟨p, site, q, names, c, o, inner, e, rfl, .cons hp (.cons hsite (.cons hq .nil)),
    hnames, hc.word,
    ho.word, hinner, he.word⟩

lemma readAll_function (next : Option Token) (hs : Outside s)
    (hsites : Marked sites (MarkedWord.function x params ps)) :
    ∃ site before inner c indices t, site.token.text = x ∧ Marked inner ps ∧
      (Word.punct "\x7d").At c ∧
      MarkedWord.named sites (MarkedWord.function x params ps)
        = site.index :: (indices ++ MarkedWord.named inner ps) ∧
      Declares (s.afterName site before) t params indices ∧
      InFunction (s.afterName site before) t ∧
      (∃ o rest, t.before = o :: rest ∧ (Word.punct "\x7b").At o) ∧
      s.readAll next sites = (t.readAll (some c.token) inner).step c next := by
  obtain ⟨p, site, q, names, c, o, inner, e, rfl, hhead, hnames, hc, ho, hinner, he⟩ :=
    marked_function hsites
  obtain ⟨before, hx, hbefore, hd, hamong⟩ := readAll_functionName
    (((names ++ c :: o :: (inner ++ [e])).head?.map Site.token).or next) hs hhead
  rw [show p :: site :: q :: (names ++ c :: o :: (inner ++ [e]))
    = [p, site, q] ++ (names ++ c :: o :: (inner ++ [e])) from rfl, readAll_append, readAll_append]
  generalize s.readAll _ [p, site, q] = t at hbefore hd hamong ⊢
  have hfree : Free (s.afterName site before) := by
    rw [state_afterName hs]
    exact ⟨rfl, rfl, rfl, rfl, rfl, rfl, nofun⟩
  have hq : (Word.punct "(").At q := (hhead.get (i := 2) (by simp) (by simp)).word
  obtain ⟨hd, expect, hamong⟩ := readAll_paramNames
    (((c :: o :: (inner ++ [e])).head?.map Site.token).or next) hfree hd hamong hbefore hq (by simp)
    hnames
  generalize t.readAll _ names = u at hd hamong ⊢
  obtain ⟨hd, hin⟩ := step_openFunction hfree hd hamong hc ho
    (((o :: (inner ++ [e])).head?.map Site.token).or next)
    (((inner ++ [e]).head?.map Site.token).or next)
  refine ⟨site, before, inner, e, [] ++ MarkedWord.named names (MarkedWord.listed params), _, hx,
    hinner, he,
    ?_, hd, hin, ⟨o, _, before_step, ho⟩, ?_⟩
  · simp [MarkedWord.named, MarkedWord.function, MarkedWord.other, MarkedWord.name,
      MarkedWord.punct,
      MarkedWord.named_append hnames, MarkedWord.named_append hinner]
  · rw [readAll, readAll, readAll_append]
    rfl

/-! ### A script that is one function -/

/-- Around a function that is the whole script a name is that of the function, or nothing known. -/
lemma sees_afterName {before : List Site} (hname : site.token.text = x) :
    Sees (start.afterName site before) 0 fun y =>
      if y = x then some ScopeTree.global else none := by
  have hscopes : (start.afterName site before).scopes = #[⟨none, .global, [x], false⟩] := by
    change start.scopes.modify 0 (fun sc => sc.bind site.token.text) = _
    rw [hname]
    rfl
  refine ⟨by rw [hscopes]; exact Nat.one_pos, fun y => ?_⟩
  unfold refersTo
  rw [hscopes, Scope.ancestors_zero, List.find?_cons]
  by_cases hy : y = x <;> simp [Scope.binds, hy, ScopeTree.global]

/-- The tracker has read the brace before the body of a function that is the whole script. -/
structure BeginsFunctionBody (t : Tracker) (name : String) (params : List String) : Prop where
  ready : Ready t
  opening : Opening t.before
  openBodies : t.openBodies = []
  closed : t.closedHeader = false
  size : t.scopes.size = 2
  sees : Sees t t.current
    (Expr.inside params 1 fun y => if y = name then some ScopeTree.global else none)

/-- **The names of a script that is one function** are its own, those of its parameters and what is
found in its body. -/
theorem found_function (opened : Nat) {found : List (String × Option ScopeId)}
    (hsites : Marked sites (MarkedWord.function x params ps))
    (hbody : ∀ {t : Tracker} {inner : List Site} {c : Site}, BeginsFunctionBody t x params →
      Marked inner ps → (Word.punct "\x7d").At c →
      Back t (t.readAll (some c.token) inner) ∧
        Adds t (t.readAll (some c.token) inner) opened found) :
    (start.readAll none sites).occurrences.reverse.map (fun o =>
        (o.name, (start.readAll none sites).refersTo o.name o.scope))
      = (x, some ScopeTree.global) :: (params.map (·, some 1) ++ found) := by
  obtain ⟨site, before, inner, c, indices, t, hname, hinner, hc, -, hd, hin, ⟨o, back, hback, ho⟩,
    hread⟩ := readAll_function none outside_start hsites
  -- the scope of the function, where its parameters are declared
  let s := start.afterName site before
  have hsees : Sees s 0 fun y => if y = x then some ScopeTree.global else none :=
    sees_afterName hname
  obtain ⟨hadds, hinside⟩ := hd.adds hsees
  obtain ⟨hready, hnone⟩ := hin.ready outside_start
  have hcurrent : t.current = 1 := by rw [hin]; rfl
  have hbegins : BeginsFunctionBody t x params :=
    ⟨hready, hback ▸ opening_punct ho (by simp), hnone, by rw [hin], hd.size,
      by rw [hcurrent]; exact hinside⟩
  -- the body and the brace that closes it
  obtain ⟨hback, hadded⟩ := hbody hbegins hinner hc
  have hall := hadds.trans hadded
  generalize t.readAll (some c.token) inner = u at hback hall hread
  obtain ⟨-, hscopes, hoccurrences⟩ := step_closeFunction none outside_start hin hback
    (by rw [hall.size]; exact Nat.lt_of_lt_of_le hsees.lt (Nat.le_add_right _ _)) hc
  have hrefers (y : String) (id : ScopeId) : (u.step c none).refersTo y id = u.refersTo y id := by
    unfold refersTo
    rw [hscopes]
  -- what was recorded
  obtain ⟨new, hnew, -, hnames⟩ := hall.recorded
  have hself : u.refersTo x 0 = some ScopeTree.global := by
    rw [hall.refersTo hsees.lt, hsees.refersTo, if_pos rfl]
  have hoccurrence : s.occurrences = [⟨site.index, x, 0, false⟩] := by
    rw [← hname]
    rfl
  rw [hread]
  simp only [hrefers]
  rw [hoccurrences, hnew, hoccurrence, List.reverse_append, List.map_append, hnames]
  change (x, u.refersTo x 0) :: _ = _
  rw [hself]
  rfl

end Tracker

end Minify
