import Minify.Proofs.LoopPrograms
import Minify.Proofs.RecordedMeaning
import Minify.Proofs.SitesBefore

/-!
Reading the words of a statement.

Between statements the tracker waits for nothing, and what stands before allows any statement to
come. From there the words of a header, of the head of a loop, the semicolon and the braces each do
one thing: they record names in the current scope, open a scope, or give back a scope.
-/

namespace Minify.Tracker

variable {s t u : Tracker} {site : Site} {next : Option Token}

/-! ### Between statements -/

/-- The site before ends or begins a statement. -/
def Opening (before : List Site) : Prop :=
  ∃ p rest, before = p :: rest ∧
    (p.token.kind = .punctuator ∧ p.token.text ∈ [";", "\x7b", "\x7d", ")"] ∨
      p.token.kind = .keyword .kwElse)

/-- The tracker waits for nothing and is in braces that hold statements. -/
structure Ready (s : Tracker) : Prop where
  kind : s.top.kind = .block ∨ s.top.kind = .functionBody
  pattern : s.top.pattern = none
  atKey : s.top.atKey = false
  ternary : s.top.ternary = 0
  declaration : s.declaration = none
  pendingBody : s.pendingBody = none
  nextParams : s.nextParams = none
  functionName : s.functionName = none
  catchScope : s.catchScope = none
  classBody : s.classBody = none

/-- Scopes, occurrences and bodies may have changed, and what stands before. -/
lemma Ready.of_eq (hs : Ready s) (h : t = { s with
      scopes := t.scopes, inside := t.inside, occurrences := t.occurrences, before := t.before
      current := t.current
      openBodies := t.openBodies, colonValue := t.colonValue, closedHeader := t.closedHeader }) :
    Ready t := by
  rw [h]
  exact ⟨hs.kind, hs.pattern, hs.atKey, hs.ternary, hs.declaration, hs.pendingBody, hs.nextParams,
    hs.functionName, hs.catchScope, hs.classBody⟩

/-- A line end before the site ends no statement, or no statement that has not ended. -/
def Calm (s : Tracker) (site : Site) : Prop :=
  s.closedHeader = true ∨ endsStatement s.before site = false ∨ s.endStatement = s

/-- Nothing before the site makes its word the name of a property. -/
structure Opening.Plain (before : List Site) : Prop where
  dot : afterDot before = false
  hash : prevIs before "#" = false
  keyword : prevKeyword? before = none ∨ prevKeyword? before = some .kwElse
  function : (before.head?.any fun p =>
    p.token.isKeyword .kwFunction || p.token.isPunct "*") = false
  object : ∀ colonValue, opensObject colonValue before = false

lemma Opening.plain {before : List Site} (h : Opening before) : Opening.Plain before := by
  obtain ⟨p, rest, rfl, ⟨hk, ht⟩ | hk⟩ := h
  · simp only [List.mem_cons, List.not_mem_nil, or_false] at ht
    rcases ht with ht | ht | ht | ht <;>
      constructor <;>
      simp [afterDot, prevIs, prevKeyword?, opensObject, Token.isPunct, Token.isKeyword, hk, ht]
  · refine ⟨?_, ?_, ?_, ?_, ?_⟩
    · simp [afterDot, Token.isPunct, hk]
    · simp [prevIs, Token.isPunct, hk]
    · simp only [prevKeyword?, hk]
      split
      · exact .inl rfl
      · exact .inr rfl
    · simp [Token.isPunct, Token.isKeyword, hk]
    · simp [opensObject, hk]

lemma prepare_of_calm (hp : s.pendingBody = none) (hc : Calm s site) :
    s.prepare site = { s with closedHeader := false } := by
  have hbegin : { s with closedHeader := false }.beginBody site.token
      = { s with closedHeader := false } := by
    simp only [beginBody, hp]
  unfold prepare
  dsimp only
  split
  · rename_i hends
    have hsame : s.endStatement = s := by
      rcases hc with hc | hc | hc
      · simp [hc] at hends
      · simp [hc] at hends
      · exact hc
    have hstep : { s with closedHeader := false }.endStatement
        = { s.endStatement with closedHeader := false } := rfl
    rw [hstep, hsame, hbegin]
  · exact hbegin

lemma calm_of_not_starts (h : site.token.startsStatement = false) : Calm s site :=
  .inr (.inl (by simp [endsStatement, h]))

lemma calm_of_not_operand {p : Site} {rest : List Site} (hb : s.before = p :: rest)
    (h : p.token.endsOperand = false) : Calm s site :=
  .inr (.inl (by simp [endsStatement, hb, h]))

/-! ### Single words -/

def unmarked (s : Tracker) : Tracker := { s with closedHeader := false }

lemma step_of_calm (hp : s.pendingBody = none) (hc : Calm s site) :
    s.step site next = { s.unmarked.read site next with
      before := site :: (s.unmarked.read site next).before } := by
  rw [step, prepare_of_calm hp hc]
  rfl

/-- The site before is no keyword or punctuator that makes something else of a name. -/
structure BeforeName (before : List Site) : Prop where
  dot : afterDot before = false
  hash : prevIs before "#" = false
  keyword : ∀ k, prevKeyword? before = some k → k = .kwElse
  function : (before.head?.any fun p =>
    p.token.isKeyword .kwFunction || p.token.isPunct "*") = false

lemma abandonDeclaration_of_none (h : s.declaration = none) : s.abandonDeclaration = s := by
  simp [abandonDeclaration, declaring, h]

lemma read_keyword {k : Keyword} (hk : k ∈ [.kwIf, .kwWhile, .kwFor, .kwElse])
    (hsite : site.token.kind = .keyword k) (hkey : s.atKey = false)
    (hd : s.declaration = none) (hdot : afterDot s.before = false)
    (hhash : prevIs s.before "#" = false) : s.read site next = s := by
  simp only [List.mem_cons, List.not_mem_nil, or_false] at hk
  rcases hk with rfl | rfl | rfl | rfl <;>
    simp [read, hsite, word, hdot, hhash, abandonDeclaration_of_none hd, hkey, keyword]

/-- A name in an expression is recorded in the current scope. -/
def named (s : Tracker) (site : Site) : Tracker :=
  { s with
    scopes := if site.token.text == "eval" then s.markEval.scopes else s.scopes
    occurrences := ⟨site.index, site.token.text, s.current, false⟩ :: s.occurrences }

lemma adds_named (hcur : s.current < s.scopes.size) (site : Site) :
    Adds s (s.named site) 0 [(site.token.text, s.refersTo site.token.text s.current)] := by
  by_cases heval : site.token.text == "eval"
  · have hmark := adds_markEval s
    have hlt : s.markEval.current < s.markEval.scopes.size := (size_markEval s).symm ▸ hcur
    have h := hmark.trans (adds_mention hlt site false)
    rw [show s.markEval.current = s.current from rfl, hmark.refersTo hcur] at h
    have hnamed : s.named site = s.markEval.mention site s.current false := by
      unfold named
      rw [if_pos heval]
      rfl
    exact hnamed ▸ h
  · have hnamed : s.named site = s.mention site s.current false := by
      unfold named
      rw [if_neg heval]
      rfl
    exact hnamed ▸ adds_mention hcur site false

lemma read_name (hsite : site.token.kind = .identifier)
    (hslot : s.takeSlot = none) (hkey : s.atKey = false) (hd : s.declaration = none)
    (hf : s.functionName = none) (hb : BeforeName s.before)
    (hcolon : nextIs next ":" = false) (harrow : nextIs next "=>" = false) :
    s.read site next = s.named site := by
  have hprev (k : Keyword) (hk : k ≠ .kwElse) : (prevKeyword? s.before == some k) = false := by
    simp only [beq_eq_false_iff_ne]
    exact fun h => hk (hb.keyword k h)
  have hdeclaring (expect : Bool) : s.declaring expect = false := by simp [declaring, hd]
  have hbreak := hprev .kwBreak (by decide)
  have hcontinue := hprev .kwContinue (by decide)
  have hclass := hprev .kwClass (by decide)
  simp only [read, hsite, word, hb.dot, hb.hash, hslot, hkey, identifier, hf, hbreak, hcontinue,
    hclass, hdeclaring, hcolon, harrow, Bool.false_eq_true, if_false, Bool.or_self, Bool.false_and,
    Bool.and_false]
  unfold named
  split <;> rfl

lemma takeSlot_of_none (hp : s.top.pattern = none) (hd : s.declaration = none) :
    s.takeSlot = none := by
  simp [takeSlot, hp, hd]

lemma prevKeyword_cons {p : Site} {rest : List Site} {k : Keyword} (hp : p.token.kind = .keyword k)
    (hdot : afterDot rest = false) : prevKeyword? (p :: rest) = some k := by
  simp [prevKeyword?, hp, hdot]

lemma afterForAwait_cons {p : Site} {rest : List Site} {k : Keyword}
    (hp : p.token.kind = .keyword k) : afterForAwait (p :: rest) = false := by
  simp [afterForAwait, Token.isIdent, hp]

lemma read_openHeader {p : Site} {rest : List Site} {k : Keyword} (hk : k = .kwIf ∨ k = .kwWhile)
    (hsite : site.token.kind = .punctuator) (htext : site.token.text = "(")
    (harrow : site.beforeArrow = false) (hparams : s.nextParams = none)
    (hb : s.before = p :: rest) (hp : p.token.kind = .keyword k) (hdot : afterDot rest = false) :
    s.read site next = s.push (.ofKind .header s.current) := by
  have hprev : prevKeyword? s.before = some k := hb ▸ prevKeyword_cons hp hdot
  have hawait : afterForAwait s.before = false := hb ▸ afterForAwait_cons hp
  rcases hk with rfl | rfl <;>
    simp [read, hsite, punctuator, htext, openParen, hparams, hprev, hawait, harrow,
      Keyword.hasHeader]

lemma read_openHead {p : Site} {rest : List Site} (hsite : site.token.kind = .punctuator)
    (htext : site.token.text = "(") (hparams : s.nextParams = none)
    (hb : s.before = p :: rest) (hp : p.token.kind = .keyword .kwFor)
    (hdot : afterDot rest = false) :
    s.read site next = (s.enter .block).push (.ofKind .forHead s.current) := by
  have hprev : prevKeyword? s.before = some .kwFor := hb ▸ prevKeyword_cons hp hdot
  simp [read, hsite, punctuator, htext, openParen, hparams, hprev]

/-! ### Ends -/

lemma endBodies_of_lt {depth : Nat} {comma : Bool} {current : ScopeId} {bodies : List OpenBody}
    (h : ∀ b ∈ bodies, b.depth < depth) :
    endBodies depth comma current bodies = (current, bodies) := by
  cases bodies with
  | nil => rfl
  | cons b rest => simp [endBodies, h b List.mem_cons_self]

lemma endOpenBodies_of_lt {depth : Nat} {comma : Bool} (h : ∀ b ∈ s.openBodies, b.depth < depth) :
    s.endOpenBodies depth comma = s := by
  unfold endOpenBodies
  rw [endBodies_of_lt h]

lemma endDeclarations_of_none (h : s.declaration = none) (depth : Nat) :
    s.endDeclarations depth = s := by
  unfold endDeclarations
  rw [h, Option.filter_none, ← h]

def scopeAround (current : ScopeId) (bodies : List OpenBody) : ScopeId :=
  (bodies.getLast?.map OpenBody.restore).getD current

lemma endBodies_append {depth : Nat} {current : ScopeId} {bodies around : List OpenBody}
    (h : ∀ b ∈ bodies, b.depth = depth) (h' : ∀ b ∈ around, b.depth < depth) :
    endBodies depth false current (bodies ++ around) = (scopeAround current bodies, around) := by
  induction bodies generalizing current with
  | nil => exact endBodies_of_lt h'
  | cons b rest ih =>
    have hb : b.depth = depth := h b List.mem_cons_self
    rw [List.cons_append, endBodies, if_neg (by simp [hb]),
      ih fun x hx => h x (List.mem_cons_of_mem _ hx)]
    cases rest <;> rfl

lemma setTop_of_eq {f : Frame → Frame} (h : f s.top = s.top) : s.setTop f = s := by
  unfold setTop
  rw [h]

lemma Ready.atKey_settled (h : Ready s) :
    (s.top.atKey || decide (s.top.kind = .classBody)) = s.top.atKey := by
  rcases h.kind with hk | hk <;> simp [hk]

/-- A statement that ends between statements ends bodies, and nothing else. -/
lemma Ready.endStatement (h : Ready s) : s.endStatement = s.endOpenBodies s.depth false := by
  have htop : ({ s.top with
      ternary := 0
      atKey := s.top.atKey || decide (s.top.kind = .classBody) } : Frame) = s.top := by
    rw [h.atKey_settled, ← h.ternary]
  unfold Tracker.endStatement
  rw [endDeclarations_of_none h.declaration]
  exact setTop_of_eq htop

lemma closeFrame_of_leave {around : Frame} {outer : List Frame}
    (hb : ∀ b ∈ s.openBodies, b.depth ≤ outer.length + 1)
    (ht : (s.pop around outer).leave s.top next = t) (hbodies : t.openBodies = s.openBodies)
    (hdepth : t.depth = outer.length + 1) (hd : t.declaration = none) :
    s.closeFrame around outer next = t := by
  unfold closeFrame
  dsimp only
  rw [ht, endOpenBodies_of_lt, endDeclarations_of_none hd]
  intro b hmem
  rw [hdepth]
  exact Nat.lt_succ_of_le (hb b (hbodies ▸ hmem))

lemma close_header {around : Frame} {outer : List Frame} (ho : s.outer = around :: outer)
    (hk : s.top.kind = .header) (hd : s.declaration = none)
    (hb : ∀ b ∈ s.openBodies, b.depth ≤ outer.length + 1) :
    s.close next = { s.pop around outer with closedHeader := true } := by
  have hframe := closeFrame_of_leave hb
    (show (s.pop around outer).leave s.top next = { s.pop around outer with closedHeader := true }
      by simp only [leave, hk]) rfl rfl hd
  simp [close, ho, hk, hframe]

lemma close_forHead {around : Frame} {outer : List Frame} (ho : s.outer = around :: outer)
    (hk : s.top.kind = .forHead) (hd : s.declaration = none)
    (hb : ∀ b ∈ s.openBodies, b.depth ≤ outer.length + 1) :
    s.close next = { s.pop around outer with
      pendingBody := some ⟨.loop, s.top.restore⟩, closedHeader := true } := by
  have hframe := closeFrame_of_leave hb
    (show (s.pop around outer).leave s.top next = { s.pop around outer with
      pendingBody := some ⟨.loop, s.top.restore⟩, closedHeader := true }
      by simp only [leave, hk]) rfl rfl hd
  simp [close, ho, hk, hframe]

lemma close_block {around : Frame} {outer : List Frame} (ho : s.outer = around :: outer)
    (hk : s.top.kind = .block ∨ s.top.kind = .functionBody) (hd : s.declaration = none)
    (hb : ∀ b ∈ s.openBodies, b.depth ≤ outer.length + 1) :
    s.close next = ({ s.pop around outer with current := s.top.restore }).endBlock next := by
  have hframe := closeFrame_of_leave hb
    (show (s.pop around outer).leave s.top next
        = { s.pop around outer with current := s.top.restore }
      by rcases hk with hk | hk <;> simp only [leave, hk]) rfl rfl hd
  simp [close, ho, hk, hframe]

/-! ### Headers -/

/-- The tracker has bodies of loops open in the braces it is in, and others around them. -/
structure Holds (s : Tracker) (bodies around : List OpenBody) : Prop where
  open_eq : s.openBodies = bodies ++ around
  here : ∀ b ∈ bodies, b.depth = s.depth ∧ b.endsAtComma = false
  outside : ∀ b ∈ around, b.depth < s.depth

variable {bodies around : List OpenBody}

lemma Holds.le (h : Holds s bodies around) : ∀ b ∈ s.openBodies, b.depth ≤ s.depth := by
  intro b hb
  rw [h.open_eq, List.mem_append] at hb
  rcases hb with hb | hb
  · exact Nat.le_of_eq (h.here b hb).1
  · exact Nat.le_of_lt (h.outside b hb)

lemma opening_punct {p : String} {rest : List Site} (h : (Word.punct p).At site)
    (hp : p ∈ [";", "\x7b", "\x7d", ")"]) : Opening (site :: rest) :=
  ⟨site, rest, rfl, .inl ⟨h.kind, h.text ▸ hp⟩⟩

lemma goesOn_punct {p : String} (h : (Word.punct p).At site) :
    goesOn (some site.token) = false := by
  simp [goesOn, Token.isKeyword, h.kind, Word.punct]

lemma calm_of_punct {p : String} (h : (Word.punct p).At site)
    (hp : p ∈ [";", "(", ")", "\x7d", ","]) : Calm s site := by
  refine calm_of_not_starts ?_
  simp only [List.mem_cons, List.not_mem_nil, or_false] at hp
  rcases hp with rfl | rfl | rfl | rfl | rfl <;>
    simp [Token.startsStatement, h.kind, h.text, Word.punct]

lemma endsOperand_of_punct {p : String} (h : (Word.punct p).At site)
    (hp : p ∈ [";", "(", "\x7b", ","]) : site.token.endsOperand = false := by
  simp only [List.mem_cons, List.not_mem_nil, or_false] at hp
  rcases hp with rfl | rfl | rfl | rfl <;>
    simp [Token.endsOperand, h.kind, h.text, Word.punct]

lemma nextIs_of_punct {p q : String} (h : (Word.punct p).At site) (hpq : p ≠ q) :
    nextIs (some site.token) q = false := by
  simp [nextIs, Token.isPunct, h.text, Word.punct, hpq]

lemma beforeName_punct {p : String} {site : Site} {rest : List Site} (h : (Word.punct p).At site)
    (hp : p ∈ ["(", ","]) : BeforeName (site :: rest) := by
  simp only [List.mem_cons, List.not_mem_nil, or_false] at hp
  rcases hp with rfl | rfl <;>
    constructor <;>
    simp [afterDot, prevIs, prevKeyword?, Token.isPunct, Token.isKeyword, h.kind, h.text,
      Word.punct]

lemma Opening.Plain.beforeName {before : List Site} (h : Opening.Plain before) :
    BeforeName before := by
  refine ⟨h.dot, h.hash, fun k hk => ?_, h.function⟩
  rcases h.keyword with hn | he
  · rw [hn] at hk
    cases hk
  · rw [he] at hk
    exact (Option.some.inj hk).symm

lemma step_headKeyword {k : Keyword} (next : Option Token)
    (hk : k ∈ [.kwIf, .kwWhile, .kwFor, .kwElse]) (hs : Ready s) (hb : Opening s.before)
    (hc : Calm s site) (hsite : site.token.kind = .keyword k) :
    s.step site next = { s with closedHeader := false, before := site :: s.before } := by
  have hplain := hb.plain
  have hatKey : s.atKey = false := by simp [atKey, hs.atKey]
  rw [step_of_calm hs.pendingBody hc,
    read_keyword (s := s.unmarked) hk hsite hatKey hs.declaration hplain.dot hplain.hash]
  rfl

/-- `if (x)` and `while (x)`. -/
lemma readAll_header (next : Option Token) {k : Keyword} {text x : String} {sites : List Site}
    (hk : k = .kwIf ∨ k = .kwWhile) (hs : Ready s) (hb : Opening s.before)
    (hh : Holds s bodies around)
    (hsites : Spells sites (.keyword k text :: Word.header x))
    (harrows : ∀ site ∈ sites, site.beforeArrow = false)
    (hcalm : ∀ site ∈ sites.head?, Calm s site) :
    ∃ site before, site.token.text = x ∧ Opening before ∧
      s.readAll next sites = { s.named site with closedHeader := true, before := before } := by
  obtain ⟨p, rest₁, hp, h₁, rfl⟩ := List.forall₂_cons_right_iff.mp hsites
  obtain ⟨o, rest₂, ho, h₂, rfl⟩ := List.forall₂_cons_right_iff.mp h₁
  obtain ⟨a, rest₃, ha, h₃, rfl⟩ := List.forall₂_cons_right_iff.mp h₂
  obtain ⟨c, rest₄, hc, h₄, rfl⟩ := List.forall₂_cons_right_iff.mp h₃
  cases h₄
  have harrow : o.beforeArrow = false := harrows o (.tail _ (.head _))
  -- the keyword
  let s₁ : Tracker := { s.unmarked with before := p :: s.before }
  have hkeyword (n : Option Token) : s.step p n = s₁ := by
    have hmem : k ∈ [.kwIf, .kwWhile, .kwFor, .kwElse] := by rcases hk with rfl | rfl <;> simp
    exact step_headKeyword n hmem hs hb (hcalm p rfl) hp.kind
  -- the parenthesis
  let s₂ : Tracker := { s.unmarked.push (.ofKind .header s.current) with before :=
    o :: p :: s.before }
  have hopen (n : Option Token) : s₁.step o n = s₂ := by
    rw [step_of_calm (s := s₁) hs.pendingBody (calm_of_punct ho (by simp)),
      read_openHeader (s := s₁.unmarked) hk ho.kind ho.text harrow hs.nextParams rfl hp.kind
        hb.plain.dot]
    rfl
  -- the name
  let s₃ : Tracker := { s₂.named a with before := a :: o :: p :: s.before }
  have hname : s₂.step a (some c.token) = s₃ := by
    rw [step_of_calm (s := s₂) hs.pendingBody
        (calm_of_not_operand rfl (endsOperand_of_punct ho (by simp))),
      read_name (s := s₂.unmarked) ha.kind (takeSlot_of_none rfl hs.declaration) rfl hs.declaration
        hs.functionName (beforeName_punct ho (by simp)) (nextIs_of_punct hc (by decide))
        (nextIs_of_punct hc (by decide))]
    rfl
  have hclose : s₃.step c next
      = { s.named a with closedHeader := true, before := c :: a :: o :: p :: s.before } := by
    rw [step_of_calm (s := s₃) hs.pendingBody (calm_of_punct hc (by simp))]
    have hread : s₃.unmarked.read c next = s₃.unmarked.close next := by
      simp only [read, punctuator, hc.kind, hc.text, Word.punct]
    rw [hread, close_header (s := s₃.unmarked) rfl rfl hs.declaration hh.le]
    rfl
  refine ⟨a, c :: a :: o :: p :: s.before, ha.text, ?_, ?_⟩
  · exact opening_punct hc (by simp)
  · simp only [readAll, List.head?_cons, Option.map_some, Option.some_or, List.head?_nil,
      Option.map_none, Option.none_or]
    rw [hkeyword, hopen, hname, hclose]

/-- The head of a loop opens a scope, in which it declares its first name and names the second. -/
def headed (s : Tracker) (x y : Site) : Tracker :=
  ((s.enter .block).declareIn x s.scopes.size s.scopes.size false).named y

lemma beforeName_name {site : Site} {rest : List Site} (h : site.token.kind = .identifier) :
    BeforeName (site :: rest) := by
  constructor <;> simp [afterDot, prevIs, prevKeyword?, Token.isPunct, Token.isKeyword, h]

lemma read_let (hsite : site.token.kind = .keyword .kwLet) (hkey : s.atKey = false)
    (hd : s.declaration = none) (hb : BeforeName s.before) :
    s.read site next = { s with declaration := some ⟨.lexical, s.depth, true⟩ } := by
  simp [read, hsite, word, hb.dot, hb.hash, abandonDeclaration_of_none hd, hkey, keyword]

lemma read_declared (hsite : site.token.kind = .identifier) (hp : s.top.pattern = none)
    (hd : s.declaration = some ⟨.lexical, s.depth, true⟩) (hdot : afterDot s.before = false)
    (hhash : prevIs s.before "#" = false) :
    s.read site next = { s.declareIn site s.current s.current false with
      declaration := some ⟨.lexical, s.depth, false⟩ } := by
  simp [read, hsite, word, hdot, hhash, takeSlot, hp, hd, declare, declareIn, mention]

lemma read_between (hsite : site.token.kind = .identifier) (htext : site.token.text = "of")
    (hp : s.top.pattern = none) (hkey : s.atKey = false) (hf : s.functionName = none)
    (hd : s.declaration = some ⟨.lexical, s.depth, false⟩) (hb : BeforeName s.before)
    (hk : prevKeyword? s.before = none) : s.read site next = { s with declaration := none } := by
  simp [read, hsite, word, hb.dot, hb.hash, takeSlot, hp, hd, hkey, identifier, hk, hf, htext,
    declaring]

def inForHead (s : Tracker) (before : List Site) : Tracker :=
  { (s.unmarked.enter .block).push (.ofKind .forHead s.current) with before := before }

/-- `for (` -/
lemma step_forHead {p o : Site} (n n' : Option Token) (hs : Ready s) (hb : Opening s.before)
    (hc : Calm s p) (hp : (Word.keyword .kwFor "for").At p) (ho : (Word.punct "(").At o) :
    (s.step p n).step o n' = s.inForHead (o :: p :: s.before) := by
  let s₁ : Tracker := { s.unmarked with before := p :: s.before }
  have hkeyword : s.step p n = s₁ := step_headKeyword n (by simp) hs hb hc hp.kind
  rw [hkeyword, step_of_calm (s := s₁) hs.pendingBody (calm_of_punct ho (by simp)),
    read_openHead (s := s₁.unmarked) ho.kind ho.text hs.nextParams rfl hp.kind hb.plain.dot]
  rfl

/-- `let x of`, right after the parenthesis. -/
lemma step_loopVariable {x : String} {o l a m : Site} {before : List Site}
    (n n' n'' : Option Token) (hs : Ready s) (ho : (Word.punct "(").At o)
    (hl : (Word.keyword .kwLet "let").At l) (ha : (Word.name x).At a) (hm : Word.between.At m) :
    (((s.inForHead (o :: before)).step l n).step a n').step m n''
      = { (s.inForHead (o :: before)).declareIn a s.scopes.size s.scopes.size false with
          before := m :: a :: l :: o :: before } := by
  let s₂ := s.inForHead (o :: before)
  -- `let`
  let s₃ : Tracker := { s₂ with
    declaration := some ⟨.lexical, s.depth + 1, true⟩, before := l :: s₂.before }
  have hlet : s₂.step l n = s₃ := by
    rw [step_of_calm (s := s₂) hs.pendingBody
        (calm_of_not_operand rfl (endsOperand_of_punct ho (by simp))),
      read_let (s := s₂.unmarked) hl.kind rfl hs.declaration (beforeName_punct ho (by simp))]
    rfl
  -- the name that is declared
  let s₄ : Tracker := { s₂.declareIn a s.scopes.size s.scopes.size false with
    declaration := some ⟨.lexical, s.depth + 1, false⟩, before := a :: s₃.before }
  have hdeclared : s₃.step a n' = s₄ := by
    have hoperand : l.token.endsOperand = false := by
      simp [Token.endsOperand, hl.kind, Word.keyword, Keyword.isOperand]
    rw [step_of_calm (s := s₃) hs.pendingBody (calm_of_not_operand rfl hoperand),
      read_declared (s := s₃.unmarked) ha.kind rfl rfl
        (by simp [s₃, unmarked, afterDot, Token.isPunct, hl.kind, Word.keyword])
        (by simp [s₃, unmarked, prevIs, Token.isPunct, hl.kind, Word.keyword])]
    rfl
  -- `of`
  have hline : Calm s₄ m := .inr (.inl (by simp [endsStatement, hm.line rfl]))
  rw [hlet, hdeclared, step_of_calm (s := s₄) hs.pendingBody hline,
    read_between (s := s₄.unmarked) hm.kind hm.text rfl rfl hs.functionName rfl
      (beforeName_name ha.kind) (by simp [s₄, unmarked, prevKeyword?, ha.kind, Word.name])]
  exact congrArg (fun d => ({ s₂.declareIn a s.scopes.size s.scopes.size false with
    declaration := d, before := m :: s₄.before } : Tracker)) hs.declaration.symm

/-- `for (let x of y)`. -/
lemma readAll_forHead (next : Option Token) {x y : String} {sites : List Site} (hs : Ready s)
    (hb : Opening s.before) (hh : Holds s bodies around) (hsites : Spells sites (Word.forHead x y))
    (hcalm : ∀ site ∈ sites.head?, Calm s site) :
    ∃ a b before, a.token.text = x ∧ b.token.text = y ∧ Opening before ∧
      s.readAll next sites = { s.headed a b with
        pendingBody := some ⟨.loop, s.current⟩, closedHeader := true, before := before } := by
  obtain ⟨p, rest₁, hp, h₁, rfl⟩ := List.forall₂_cons_right_iff.mp hsites
  obtain ⟨o, rest₂, ho, h₂, rfl⟩ := List.forall₂_cons_right_iff.mp h₁
  obtain ⟨l, rest₃, hl, h₃, rfl⟩ := List.forall₂_cons_right_iff.mp h₂
  obtain ⟨a, rest₄, ha, h₄, rfl⟩ := List.forall₂_cons_right_iff.mp h₃
  obtain ⟨m, rest₅, hm, h₅, rfl⟩ := List.forall₂_cons_right_iff.mp h₄
  obtain ⟨b, rest₆, hy, h₆, rfl⟩ := List.forall₂_cons_right_iff.mp h₅
  obtain ⟨c, rest₇, hc, h₇, rfl⟩ := List.forall₂_cons_right_iff.mp h₆
  cases h₇
  let s₅ : Tracker :=
    { (s.inForHead (o :: p :: s.before)).declareIn a s.scopes.size s.scopes.size false with
      before := m :: a :: l :: o :: p :: s.before }
  -- the other name, at the start of a line or not
  have hdeep : ∀ b ∈ s₅.openBodies, b.depth < s₅.depth :=
    fun b hb => Nat.lt_succ_of_le (hh.le b hb)
  let s₆ : Tracker := { s₅.named b with before := b :: s₅.before }
  have hname : s₅.step b (some c.token) = s₆ := by
    have hsame : s₅.endStatement = s₅ := by
      unfold endStatement
      rw [endDeclarations_of_none (s := s₅) hs.declaration, endOpenBodies_of_lt (s := s₅) hdeep]
      rfl
    rw [step_of_calm (s := s₅) hs.pendingBody (.inr (.inr hsame)),
      read_name (s := s₅.unmarked) hy.kind (takeSlot_of_none rfl hs.declaration) rfl
        hs.declaration hs.functionName (beforeName_name hm.kind) (nextIs_of_punct hc (by decide))
        (nextIs_of_punct hc (by decide))]
    rfl
  -- the closing parenthesis
  have hclose : s₆.step c next = { s.headed a b with
      pendingBody := some ⟨.loop, s.current⟩, closedHeader := true
      before := c :: s₆.before } := by
    rw [step_of_calm (s := s₆) hs.pendingBody (calm_of_punct hc (by simp))]
    have hread : s₆.unmarked.read c next = s₆.unmarked.close next := by
      simp only [read, punctuator, hc.kind, hc.text, Word.punct]
    rw [hread, close_forHead (s := s₆.unmarked) rfl rfl hs.declaration hh.le]
    rfl
  refine ⟨a, b, c :: s₆.before, ha.text, hy.text, opening_punct hc (by simp), ?_⟩
  simp only [readAll, List.head?_cons, Option.map_some, Option.some_or, List.head?_nil,
    Option.map_none, Option.none_or]
  rw [step_forHead _ _ hs hb (hcalm p rfl) hp ho, step_loopVariable _ _ _ hs ho hl ha hm, hname,
    hclose]

/-! ### Statements -/

/-- A semicolon ends the bodies without braces that are open at its depth. -/
lemma step_semicolon (next : Option Token) {current : ScopeId} (hs : Ready s)
    (hbodies : endBodies s.depth false s.current s.openBodies = (current, bodies))
    (hsite : (Word.punct ";").At site) :
    s.step site next = { s with
      current := current, openBodies := bodies, closedHeader := false
      before := site :: s.before } := by
  have hready : Ready s.unmarked := hs.of_eq rfl
  have hread : s.unmarked.read site next = s.unmarked.endStatement := by
    simp only [read, punctuator, hsite.kind, hsite.text, Word.punct]
  have hend : s.unmarked.endStatement
      = { s.unmarked with current := current, openBodies := bodies } := by
    have hsame : endBodies s.unmarked.depth false s.unmarked.current s.unmarked.openBodies
        = (current, bodies) := hbodies
    rw [hready.endStatement, endOpenBodies, hsame]
  rw [step_of_calm hs.pendingBody (calm_of_punct hsite (by simp)), hread, hend]
  rfl

/-- `x;` ends the bodies in the braces it is in. -/
lemma readAll_use (next : Option Token) {x : String} {sites : List Site} (hs : Ready s)
    (hb : Opening s.before) (hh : Holds s bodies around)
    (hsites : Spells sites [.name x, .punct ";"])
    (hcalm : ∀ site ∈ sites.head?, Calm s site) :
    ∃ site before, site.token.text = x ∧ Opening before ∧
      s.readAll next sites = { s.named site with
        current := scopeAround s.current bodies, openBodies := around, closedHeader := false
        before := before } := by
  obtain ⟨a, rest₁, ha, h₁, rfl⟩ := List.forall₂_cons_right_iff.mp hsites
  obtain ⟨c, rest₂, hc, h₂, rfl⟩ := List.forall₂_cons_right_iff.mp h₁
  cases h₂
  have hplain := hb.plain
  have hatKey : s.atKey = false := by simp [atKey, hs.atKey]
  have hcalm : Calm s a := hcalm a rfl
  let s₁ : Tracker := { s.unmarked.named a with before := a :: s.before }
  have hname : s.step a (some c.token) = s₁ := by
    rw [step_of_calm hs.pendingBody hcalm,
      read_name (s := s.unmarked) ha.kind (takeSlot_of_none hs.pattern hs.declaration) hatKey
        hs.declaration hs.functionName hplain.beforeName (nextIs_of_punct hc (by decide))
        (nextIs_of_punct hc (by decide))]
    rfl
  have hready : Ready s₁ := hs.of_eq rfl
  have hbodies : endBodies s₁.depth false s₁.current s₁.openBodies
      = (scopeAround s.current bodies, around) := by
    have hopen : s₁.openBodies = bodies ++ around := hh.open_eq
    rw [hopen]
    exact endBodies_append (fun b hb => (hh.here b hb).1) hh.outside
  refine ⟨a, c :: a :: s.before, ha.text, ?_, ?_⟩
  · exact opening_punct hc (by simp)
  · simp only [readAll, List.head?_cons, Option.map_some, Option.some_or, List.head?_nil,
      Option.map_none, Option.none_or]
    rw [hname, step_semicolon next hready hbodies hc]
    rfl

/-- `else`, on a line of its own or not. -/
lemma step_else (hs : Ready s) (hb : Opening s.before)
    (hsite : (Word.keyword .kwElse "else").At site) :
    s.step site next = { s with closedHeader := false, before := site :: s.before } := by
  have hstarts : site.token.startsStatement = false := by
    simp [Token.startsStatement, hsite.kind, Word.keyword, Keyword.continuesStatement]
  exact step_headKeyword next (by simp) hs hb (calm_of_not_starts hstarts) hsite.kind

/-- The braces of a block have just opened, in a scope of their own; after them comes a scope. -/
def inBlock (s : Tracker) (restore : ScopeId) (site : Site) : Tracker :=
  { (s.enter .block).push (.ofKind .block restore) with
    closedHeader := false, before := site :: s.before }

lemma Ready.inBlock (hs : Ready s) (restore : ScopeId) (site : Site) :
    Ready (s.inBlock restore site) :=
  ⟨.inl rfl, rfl, rfl, rfl, hs.declaration, hs.pendingBody, hs.nextParams, hs.functionName,
    hs.catchScope, hs.classBody⟩

lemma step_openBlock (hs : Ready s) (hb : Opening s.before) (hsite : (Word.punct "\x7b").At site)
    (hcalm : Calm s site) : s.step site next = s.inBlock s.current site := by
  have hread : s.unmarked.read site next = (s.unmarked.enter .block).push
    (.ofKind .block s.current) := by
    have hslot : s.unmarked.takeSlot = none := takeSlot_of_none hs.pattern hs.declaration
    have hpending : s.unmarked.pendingBody = none := hs.pendingBody
    have hclass : s.unmarked.classBody = none := hs.classBody
    have hobject : opensObject s.unmarked.colonValue s.unmarked.before = false := hb.plain.object _
    simp only [read, punctuator, hsite.kind, hsite.text, Word.punct, openBrace, hpending, hslot,
      hclass, hobject]
    rfl
  rw [step_of_calm hs.pendingBody hcalm, hread]
  rfl

lemma prepare_of_closed (h : s.closedHeader = true) :
    s.prepare site = s.unmarked.beginBody site.token := by
  simp only [prepare, h, Bool.not_true, Bool.false_and, Bool.false_eq_true, if_false]
  rfl

lemma beginBody_of_brace {t : Token} (h : t.isPunct "\x7b" = true) : s.beginBody t = s := by
  unfold beginBody
  split
  · rfl
  · rw [if_pos (by simp [h])]

lemma step_openBody {restore : ScopeId} (hp : s.pendingBody = some ⟨.loop, restore⟩)
    (hclosed : s.closedHeader = true) (hsite : (Word.punct "\x7b").At site) :
    s.step site next = ({ s with pendingBody := none } : Tracker).inBlock restore site := by
  have hbrace : site.token.isPunct "\x7b" = true := by
    simp [Token.isPunct, hsite.kind, hsite.text, Word.punct]
  have hread : s.unmarked.read site next
      = (({ s.unmarked with pendingBody := none } : Tracker).enter .block).push
        (.ofKind .block restore) := by
    have hpending : s.unmarked.pendingBody = some ⟨.loop, restore⟩ := hp
    simp only [read, punctuator, hsite.kind, hsite.text, Word.punct, openBrace, hpending]
  rw [step, prepare_of_closed hclosed, beginBody_of_brace hbrace, hread]
  rfl

/-- A body of a loop that begins with a word has no braces. -/
lemma step_begun (restore : ScopeId) (hp : s.pendingBody = some ⟨.loop, restore⟩)
    (hclosed : s.closedHeader = true) (hsite : site.token.kind ≠ .punctuator) :
    s.step site next = ({ s with
      pendingBody := none, openBodies := ⟨s.depth, restore, false⟩ :: s.openBodies }
        : Tracker).step site next := by
  have hother (p : String) : site.token.isPunct p = false := by simp [Token.isPunct, hsite]
  have hbegin : s.unmarked.beginBody site.token = { s.unmarked with
      pendingBody := none, openBodies := ⟨s.depth, restore, false⟩ :: s.openBodies } := by
    have hpending : s.unmarked.pendingBody = some ⟨.loop, restore⟩ := hp
    simp only [beginBody, hpending, hother, Bool.or_self, Bool.false_eq_true, if_false]
    rfl
  unfold step
  rw [prepare_of_closed hclosed, prepare_of_closed (by exact hclosed), hbegin]
  rfl

/-- A brace ends no body when there is none, or when the statement looks as if it went on. -/
lemma endBlock_eq_self (hs : Ready s) (hh : Holds s bodies around)
    (h : goesOn next = true ∨ bodies = []) : s.endBlock next = s := by
  have hsame : (s.setTop fun f => { f with atKey := f.atKey || f.kind = .classBody }) = s :=
    setTop_of_eq (by rw [hs.atKey_settled])
  unfold endBlock
  dsimp only
  rw [hsame]
  split
  · rfl
  · rename_i b rest hopen
    refine if_neg fun hends => ?_
    simp only [Bool.and_eq_true, decide_eq_true_eq, Bool.not_eq_true'] at hends
    rcases h with hgo | hnone
    · rw [hgo] at hends
      cases hends.2
    · have hb : b ∈ around := by
        rw [hh.open_eq, hnone, List.nil_append] at hopen
        exact hopen ▸ List.mem_cons_self
      exact absurd hends.1.1 (Nat.ne_of_lt (hh.outside b hb))

lemma endBlock_of_single {b : OpenBody} (hs : Ready s) (hh : Holds s [b] around)
    (h : goesOn next = false) :
    s.endBlock next = { s with current := b.restore, openBodies := around } := by
  have hsame : (s.setTop fun f => { f with atKey := f.atKey || f.kind = .classBody }) = s :=
    setTop_of_eq (by rw [hs.atKey_settled])
  obtain ⟨hdepth, hcomma⟩ := hh.here b List.mem_cons_self
  have hopen : s.openBodies = b :: around := hh.open_eq
  unfold endBlock
  dsimp only
  rw [hsame, hopen]
  exact if_pos (by simp [hdepth, hcomma, h])

/-- The brace at the end of a block may end a body without braces. -/
lemma step_closeBlock (next : Option Token) (restore : ScopeId) (o : Site)
    (scopes : Array Scope) (inside : Array (List ScopeId)) (occurrences : List Occurrence)
    (before : List Site) (hs : Ready s) (hh : Holds s bodies around)
    (hsite : (Word.punct "\x7d").At site) :
    ({ s.inBlock restore o with
        scopes := scopes, inside := inside, occurrences := occurrences
        before := before } : Tracker).step site next
      = { ({ s with
          scopes := scopes, inside := inside, occurrences := occurrences, current := restore
          closedHeader := false, before := before } : Tracker).endBlock next with
        before := site :: before } := by
  let u : Tracker := { s.inBlock restore o with
    scopes := scopes, inside := inside, occurrences := occurrences, before := before }
  have hread : u.unmarked.read site next = u.unmarked.close next := by
    simp only [read, punctuator, hsite.kind, hsite.text, Word.punct]
  rw [step_of_calm (s := u) hs.pendingBody (calm_of_punct hsite (by simp)), hread,
    close_block (s := u.unmarked) rfl (.inl rfl) hs.declaration hh.le, before_endBlock]
  rfl

end Minify.Tracker
