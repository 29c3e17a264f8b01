import Minify.Proofs.ClosingBrace

/-!
What lingers in a scope can be recorded in.

After the brace comes `else`, so that no loop around ends with it, and then a template with a
substitution, which is a place for an expression whatever stands around. A name in it is recorded in
the scope that a body left behind; and one behind a parenthesis, an asterisk or a word after a hash
is recorded in the scope of a function or of a catch clause that still waits.
-/

namespace Minify.Tracker

/-! ### Tokens to go on with -/

def punctToken (text : String) : Token := ⟨.punctuator, text, 0⟩

def nameToken : Token := ⟨.identifier, "x", 0⟩

def elseToken : Token := ⟨.keyword .kwElse, "else", 0⟩

def catchToken : Token := ⟨.keyword .kwCatch, "catch", 0⟩

def headToken : Token := ⟨.template .head, "`$\x7b", 0⟩

def tailToken : Token := ⟨.template .tail, "\x7d`", 0⟩

def plainSite (index : Nat) (t : Token) : Site := ⟨index, t, false, false⟩

variable {s t u : Tracker} {site : Site} {n : Option Token} {i : Nat} {scope : ScopeId}

/-- Nothing before the site makes its word the name of a property or of a function. -/
structure Fresh (before : List Site) : Prop where
  dot : afterDot before = false
  hash : prevIs before "#" = false
  keyword : prevKeyword? before = none
  await : afterForAwait before = false
  function : (before.head?.any fun p =>
    p.token.isKeyword .kwFunction || p.token.isPunct "*") = false

lemma step_of_plain (hn : site.newline = false) (hp : s.pendingBody = none) :
    s.step site n = { { s with closedHeader := false }.read site n with
      before := site :: ({ s with closedHeader := false }.read site n).before } := by
  simp [step, prepare, endsStatement, hn, beginBody, hp]

/-- What may be recorded in stays. -/
structure Stays (s t : Tracker) : Prop where
  scopes : t.scopes = s.scopes
  current : t.current = s.current
  pendingBody : t.pendingBody = none
  nextParams : t.nextParams = s.nextParams
  functionName : t.functionName = s.functionName
  catchScope : t.catchScope = s.catchScope

lemma Stays.setTop (h : Stays s t) (f : Frame → Frame) : Stays s (t.setTop f) :=
  ⟨h.scopes, h.current, h.pendingBody, h.nextParams, h.functionName, h.catchScope⟩

lemma Stays.before (h : Stays s t) (before : List Site) : Stays s { t with before := before } :=
  ⟨h.scopes, h.current, h.pendingBody, h.nextParams, h.functionName, h.catchScope⟩

lemma key_else : s.key (plainSite i elseToken) (some headToken)
    = s.setTop fun f => { f with atKey := false } := by
  simp [key, plainSite, elseToken, headToken, nextIs, Token.isPunct, Token.isWord]

/-- A keyword that goes on with a statement changes nothing. -/
lemma stays_else (hp : s.pendingBody = none) (hdot : afterDot s.before = false)
    (hhash : prevIs s.before "#" = false) :
    Stays s (s.step (plainSite i elseToken) (some headToken)) := by
  rw [step_of_plain rfl hp]
  refine Stays.before ?_ _
  have hopen : Stays s { s with closedHeader := false }.abandonDeclaration := by
    unfold abandonDeclaration
    split <;> exact ⟨rfl, rfl, hp, rfl, rfl, rfl⟩
  have hread : { s with closedHeader := false }.read (plainSite i elseToken) (some headToken)
      = if { s with closedHeader := false }.abandonDeclaration.atKey then
          { s with closedHeader := false }.abandonDeclaration.key (plainSite i elseToken)
            (some headToken)
        else { s with closedHeader := false }.abandonDeclaration := by
    simp [read, plainSite, elseToken, word, hdot, hhash, keyword]
  rw [hread]
  split
  · rw [key_else]
    exact hopen.setTop _
  · exact hopen

/-- The head of a template opens a place for an expression. -/
structure Opened (s t : Tracker) : Prop extends Stays s t where
  kind : t.top.kind = .substitution
  pattern : t.top.pattern = none
  fresh : Fresh t.before

lemma opened_head (hp : s.pendingBody = none) :
    Opened s (s.step (plainSite i headToken) n) := by
  rw [step_of_plain rfl hp]
  exact ⟨⟨rfl, rfl, hp, rfl, rfl, rfl⟩, rfl, rfl, ⟨rfl, rfl, rfl, rfl, rfl⟩⟩

/-! ### Names -/

/-- A token records an occurrence in a scope. -/
def Records (i : Nat) (scope : ScopeId) (t : Tracker) : Prop :=
  ∃ o ∈ t.occurrences, o.token = i ∧ o.scope = scope

lemma records_declare (site : Site) (kind : DeclKind) (shorthand : Bool) :
    Records site.index s.current (s.declare site kind shorthand) := by
  cases kind <;> exact ⟨_, List.mem_cons_self, rfl, rfl⟩

lemma records_read (hf : Fresh s.before) (hk : s.atKey = false) (hc : nextIs n ":" = false)
    (ha : nextIs n "=>" = false) :
    Records i s.current (s.read (plainSite i nameToken) n) := by
  simp only [read, plainSite, nameToken, word, hf.dot, hf.hash, Bool.false_eq_true, if_false]
  split
  · rename_i kind v h
    rw [← (takeSlot_keeps h).2]
    exact records_declare _ kind false
  · refine ⟨⟨i, "x", s.current, false⟩, ?_, rfl, rfl⟩
    simp [hk, identifier, hf.keyword, hf.function, hc, ha, mention]

/-- A name that comes n is recorded in a scope. -/
structure Naming (scope : ScopeId) (s : Tracker) : Prop where
  pendingBody : s.pendingBody = none
  current : s.current = scope
  atKey : s.atKey = false
  fresh : Fresh s.before

/-- A name is recorded in the current scope, as a variable or a declaration. -/
lemma Naming.records (h : Naming scope s) (hc : nextIs n ":" = false)
    (ha : nextIs n "=>" = false) :
    Records i scope (s.step (plainSite i nameToken) n) := by
  rw [step_of_plain rfl h.pendingBody, ← h.current]
  exact records_read (s := { s with closedHeader := false }) h.fresh h.atKey hc ha

lemma Opened.atKey (h : Opened s t) : t.atKey = false := by
  simp [Tracker.atKey, h.kind]

lemma Opened.naming (h : Opened s t) : Naming s.current t :=
  ⟨h.pendingBody, h.current, h.atKey, h.fresh⟩

/-! ### Parameters -/

lemma step_openParen (hp : s.pendingBody = none) :
    s.step (plainSite i (punctToken "(")) n
      = { { s with closedHeader := false }.openParen (plainSite i (punctToken "(")) with
          before := plainSite i (punctToken "(") ::
            ({ s with closedHeader := false }.openParen
              (plainSite i (punctToken "("))).before } :=
  step_of_plain rfl hp

/-- The name of a parameter, in the scope of the function that waits for it. -/
lemma naming_params (hp : s.pendingBody = none) (hn : s.nextParams = some scope) :
    Naming scope (s.step (plainSite i (punctToken "(")) n) := by
  rw [step_openParen hp]
  have hopen : { s with closedHeader := false }.openParen (plainSite i (punctToken "("))
      = { s with closedHeader := false, nextParams := none, functionName := none,
                 current := scope }.push (.withPattern .params s.current .lexical) := by
    simp [openParen, hn, push]
  rw [hopen]
  exact ⟨hp, rfl, rfl, ⟨rfl, rfl, rfl, rfl, rfl⟩⟩

/-- The parameter of a catch clause, in the scope of the clause that waits for it. -/
lemma naming_clause (hp : s.pendingBody = none) (hn : s.nextParams = none)
    (hc : s.catchScope = some scope) (hprev : prevKeyword? s.before = some .kwCatch)
    (hfor : afterForAwait s.before = false) :
    Naming scope (s.step (plainSite i (punctToken "(")) n) := by
  rw [step_openParen hp]
  have hopen : { s with closedHeader := false }.openParen (plainSite i (punctToken "("))
      = { s with closedHeader := false, catchScope := none, current := scope }.push
          (.withPattern .catchParam s.current .lexical) := by
    simp [openParen, hn, hc, hprev, hfor, push]
  rw [hopen]
  exact ⟨hp, rfl, rfl, ⟨rfl, rfl, rfl, rfl, rfl⟩⟩

/-! ### The name of a function -/

lemma takeSlot_eq_none (hpat : s.top.pattern = none) (hd : s.declaring true = false) :
    s.takeSlot = none := by
  unfold takeSlot
  rw [hpat]
  cases h : s.declaration with
  | none => rfl
  | some d => simpa [declaring, h] using hd

lemma abandonDeclaration_eq : ∃ d, s.abandonDeclaration = { s with declaration := d } := by
  unfold abandonDeclaration
  split
  · exact ⟨none, rfl⟩
  · exact ⟨s.declaration, rfl⟩

lemma declaring_abandonDeclaration : s.abandonDeclaration.declaring true = false := by
  unfold abandonDeclaration
  split
  · rfl
  · rename_i h
    exact Bool.eq_false_iff.mpr h

/-- An operator gives up a declaration that waits for a name. -/
lemma opened_plus (h : Opened s t) :
    Opened s (t.step (plainSite i (punctToken "+")) n) ∧
      (t.step (plainSite i (punctToken "+")) n).declaring true = false := by
  rw [step_of_plain rfl h.pendingBody]
  have hread : { t with closedHeader := false }.read (plainSite i (punctToken "+")) n
      = { t with closedHeader := false }.abandonDeclaration := rfl
  rw [hread]
  refine ⟨?_, declaring_abandonDeclaration⟩
  obtain ⟨d, hd⟩ := abandonDeclaration_eq (s := { t with closedHeader := false })
  rw [hd]
  exact ⟨⟨h.scopes, h.current, h.pendingBody, h.nextParams, h.functionName, h.catchScope⟩, h.kind,
    h.pattern, ⟨rfl, rfl, rfl, rfl, rfl⟩⟩

lemma read_function {star : Site} {before : List Site} (hn : s.functionName = some (scope, false))
    (hslot : s.takeSlot = none) (hk : s.atKey = false) (hb : s.before = star :: before)
    (hstar : star.token = punctToken "*") :
    s.read (plainSite i nameToken) n
      = s.nameFunction (plainSite i nameToken) scope false := by
  have hkind : star.token.kind = .punctuator := by rw [hstar]; rfl
  have htext : star.token.text = "*" := by rw [hstar]; rfl
  simp [read, plainSite, nameToken, word, hb, afterDot, prevIs, Token.isPunct, hkind, htext, hslot,
    hk, identifier, prevKeyword?, hn]

lemma step_star (hp : s.pendingBody = none) :
    s.step (plainSite i (punctToken "*")) n
      = { s with closedHeader := false, before := plainSite i (punctToken "*") :: s.before } :=
  step_of_plain rfl hp

/-- The name of a function, in the scope of the function that waits for it. -/
lemma records_function (h : Opened s t) (hd : t.declaring true = false)
    (hn : s.functionName = some (scope, false)) :
    Records (i + 1) scope
      ((t.step (plainSite i (punctToken "*")) (some nameToken)).step
        (plainSite (i + 1) nameToken) n) := by
  rw [step_star h.pendingBody]
  generalize hu : { t with
    closedHeader := false, before := plainSite i (punctToken "*") :: t.before } = u
  have hp : u.pendingBody = none := hu ▸ h.pendingBody
  have hname : u.functionName = some (scope, false) := hu ▸ h.functionName.trans hn
  have hkey : u.atKey = false := hu ▸ h.atKey
  have hpattern : u.top.pattern = none := hu ▸ h.pattern
  have hdeclaring : u.declaring true = false := hu ▸ hd
  have hbefore : u.before = plainSite i (punctToken "*") :: t.before := hu ▸ rfl
  rw [step_of_plain rfl hp]
  change Records (i + 1) scope ({ u with closedHeader := false }.read _ _)
  have hslot : { u with closedHeader := false }.takeSlot = none :=
    takeSlot_eq_none (s := { u with closedHeader := false }) hpattern hdeclaring
  rw [read_function (s := { u with closedHeader := false }) hname hslot hkey hbefore rfl]
  exact ⟨_, List.mem_cons_self, rfl, rfl⟩

/-! ### The parameter of a catch clause -/

/-- A parenthesis is open in which no function waits for parameters any more. -/
structure Entered (s t : Tracker) : Prop where
  kind : t.top.kind = .params ∨ t.top.kind = .paren
  outer : t.outer = s.top :: s.outer
  pendingBody : t.pendingBody = none
  nextParams : t.nextParams = none
  catchScope : t.catchScope = s.catchScope

lemma entered_openParen (hp : s.pendingBody = none) (hprev : prevKeyword? s.before = none)
    (hfor : afterForAwait s.before = false) :
    Entered s (s.openParen (plainSite i (punctToken "("))) := by
  cases hn : s.nextParams with
  | none =>
    have hopen : s.openParen (plainSite i (punctToken "("))
        = s.push (.ofKind .paren s.current) := by
      simp [openParen, hn, hprev, hfor, plainSite]
    rw [hopen]
    exact ⟨.inr rfl, rfl, hp, hn, rfl⟩
  | some id =>
    have hopen : s.openParen (plainSite i (punctToken "("))
        = { s with nextParams := none, functionName := none, current := id }.push
            (.withPattern .params s.current .lexical) := by
      simp [openParen, hn, push]
    rw [hopen]
    exact ⟨.inl rfl, rfl, hp, rfl, rfl⟩

lemma Opened.entered (h : Opened s t) :
    Entered t (t.step (plainSite i (punctToken "(")) n) := by
  rw [step_openParen h.pendingBody]
  obtain ⟨hkind, houter, hp, hn, hc⟩ :=
    entered_openParen (s := { t with closedHeader := false }) (i := i) h.pendingBody
      h.fresh.keyword h.fresh.await
  exact ⟨hkind, houter, hp, hn, hc⟩

lemma leave_paren {f : Frame} (hf : f.kind = .params ∨ f.kind = .paren) :
    ∃ body header, s.leave f n = { s with pendingBody := body, closedHeader := header } := by
  rcases hf with hf | hf
  · exact ⟨_, _, by simp only [leave, hf]; rfl⟩
  · exact ⟨s.pendingBody, s.closedHeader, by simp only [leave, hf]⟩

/-- The closing parenthesis goes back to the frame around. -/
lemma close_paren {around : Frame} {outer : List Frame} (h : s.outer = around :: outer)
    (hf : s.top.kind = .params ∨ s.top.kind = .paren) :
    (s.close n).top = around ∧ (s.close n).nextParams = s.nextParams ∧
      (s.close n).catchScope = s.catchScope ∧ (s.close n).before = s.before := by
  have hne : ¬(s.top.kind = .block || s.top.kind = .functionBody) = true := by
    rcases hf with hf | hf <;> simp [hf]
  have hclose : s.close n = s.closeFrame around outer n := by
    unfold close
    rw [h]
    exact if_neg hne
  rw [hclose]
  unfold closeFrame
  obtain ⟨body, header, hleave⟩ := leave_paren (s := s.pop around outer) (n := n) hf
  rw [hleave]
  exact ⟨rfl, rfl, rfl, rfl⟩

/-- Between the parentheses and the clause, a place for an expression stands on top. -/
structure Cleared (s t : Tracker) : Prop where
  kind : t.top.kind = .substitution
  nextParams : t.nextParams = none
  catchScope : t.catchScope = s.catchScope

lemma Entered.cleared (h : Entered s t) (hk : s.top.kind = .substitution) :
    Cleared s (t.step (plainSite i (punctToken ")")) n) := by
  rw [step_of_plain rfl h.pendingBody]
  obtain ⟨htop, hn, hc, -⟩ :=
    close_paren (s := { t with closedHeader := false }) (n := n) h.outer h.kind
  exact ⟨(congrArg Frame.kind htop).trans hk, hn.trans h.nextParams, hc.trans h.catchScope⟩

lemma Cleared.beginBody (h : Cleared s t) (token : Token) : Cleared s (t.beginBody token) := by
  have hcases := beginBody_cases t token
  generalize t.beginBody token = u at hcases ⊢
  cases hcases <;> exact ⟨h.kind, h.nextParams, h.catchScope⟩

lemma Cleared.hash (h : Cleared s t) :
    Cleared s (t.step (plainSite i (punctToken "#")) n) ∧
      (t.step (plainSite i (punctToken "#")) n).pendingBody = none := by
  have hprepare : t.prepare (plainSite i (punctToken "#"))
      = { t with closedHeader := false }.beginBody (punctToken "#") := by
    simp [prepare, endsStatement, plainSite]
  have hcleared : Cleared s { t with closedHeader := false } := ⟨h.kind, h.nextParams, h.catchScope⟩
  obtain ⟨hk, hn, hc⟩ := hcleared.beginBody (punctToken "#")
  have hp : ({ t with closedHeader := false }.beginBody (punctToken "#")).pendingBody = none :=
    pendingBody_beginBody _ rfl rfl
  unfold step
  rw [hprepare]
  exact ⟨⟨hk, hn, hc⟩, hp⟩

/-- A word after a hash changes nothing where no key may stand. -/
lemma step_catch {hash : Site} {before : List Site} (hp : s.pendingBody = none)
    (hk : s.top.kind = .substitution) (hb : s.before = hash :: before)
    (hhash : hash.token = punctToken "#") :
    s.step (plainSite i catchToken) n = { s with
      closedHeader := false, before := plainSite i catchToken :: s.before } := by
  have hkind : hash.token.kind = .punctuator := by rw [hhash]; rfl
  have htext : hash.token.text = "#" := by rw [hhash]; rfl
  have hread : { s with closedHeader := false }.read (plainSite i catchToken) n
      = { s with closedHeader := false } := by
    simp [read, plainSite, catchToken, word, hb, afterDot, prevIs, Token.isPunct, hkind, htext,
      atKey, hk]
  rw [step_of_plain rfl hp, hread]

/-- The parameter of a catch clause, in the scope of the clause that waits for it. -/
lemma naming_catch {hash : Site} {before : List Site} (hp : t.pendingBody = none)
    (h : Cleared s t) (hb : t.before = hash :: before) (hhash : hash.token = punctToken "#")
    (hc : s.catchScope = some scope) :
    Naming scope ((t.step (plainSite i catchToken) (some (punctToken "("))).step
      (plainSite (i + 1) (punctToken "(")) n) := by
  rw [step_catch hp h.kind hb hhash]
  refine naming_clause hp h.nextParams (h.catchScope.trans hc) ?_ rfl
  change prevKeyword? (plainSite i catchToken :: t.before) = some .kwCatch
  rw [hb, prevKeyword?]
  have hdot : afterDot (hash :: before) = false := by
    change (hash.token.isPunct "." || hash.token.isPunct "?.") = false
    rw [hhash]
    rfl
  rw [hdot]
  rfl

/-! ### Going on after the brace -/

def plainSites (i : Nat) : List Token → List Site
  | [] => []
  | t :: ts => plainSite i t :: plainSites (i + 1) ts

/-- A template with a substitution, after a keyword that keeps loops open. -/
def probe (inner : List Token) : List Token := elseToken :: headToken :: (inner ++ [tailToken])

/-- What stands in the substitution: a name, on its own, as a parameter, as the name of a function
or as the parameter of a catch clause. -/
def probes : List (List Token) :=
  [[nameToken],
    [punctToken "(", nameToken, punctToken ")"],
    [punctToken "+", punctToken "*", nameToken],
    [punctToken "(", punctToken ")", punctToken "#", catchToken, punctToken "(", nameToken,
      punctToken ")"]]

lemma Records.mono (h : Records i scope s) (hg : Grows s t) : Records i scope t := by
  obtain ⟨o, ho, hindex, hscope⟩ := h
  exact ⟨o, hg.occurrences.subset ho, hindex, hscope⟩

lemma Stays.trans (h : Stays s t) (h' : Stays t u) : Stays s u :=
  ⟨h'.scopes.trans h.scopes, h'.current.trans h.current, h'.pendingBody,
    h'.nextParams.trans h.nextParams, h'.functionName.trans h.functionName,
    h'.catchScope.trans h.catchScope⟩

lemma opened_probe (hp : s.pendingBody = none) (hdot : afterDot s.before = false)
    (hhash : prevIs s.before "#" = false) :
    Opened s ((s.step (plainSite i elseToken) (some headToken)).step
      (plainSite (i + 1) headToken) n) := by
  have helse : Stays s (s.step (plainSite i elseToken) (some headToken)) :=
    stays_else hp hdot hhash
  have hhead := opened_head (i := i + 1) (n := n) helse.pendingBody
  exact ⟨helse.trans hhead.toStays, hhead.kind, hhead.pattern, hhead.fresh⟩

/-- A name is recorded in a scope after some tokens, whatever comes next. -/
def Reaches (s : Tracker) (scope : ScopeId) (i : Nat) : Prop :=
  ∃ inner ∈ probes, ∃ j ≥ i, ∀ n, Records j scope (s.readAll n (plainSites i (probe inner)))

lemma readAll_cons_cons (s : Tracker) (x y : Site) (rest : List Site) :
    s.readAll n (x :: y :: rest) = (s.step x (some y.token)).readAll n (y :: rest) :=
  rfl

lemma readAll_singleton (s : Tracker) (x : Site) : s.readAll n [x] = s.step x n := rfl

lemma token_plainSite (token : Token) : (plainSite i token).token = token := rfl

lemma Records.append {j : Nat} (sites : List Site) (site : Site) (later : List Site)
    (h : Records j scope (s.readAll (some site.token) sites)) :
    Records j scope (s.readAll n (sites ++ site :: later)) := by
  rw [readAll_append]
  exact h.mono (grows_readAll _ _ _)

lemma reaches_current (hp : s.pendingBody = none) (hdot : afterDot s.before = false)
    (hhash : prevIs s.before "#" = false) : Reaches s s.current i := by
  have hopen := opened_probe (i := i) (n := some nameToken) hp hdot hhash
  have hrec := hopen.naming.records (i := i + 2) (n := some tailToken) rfl rfl
  refine ⟨_, .head _, i + 2, Nat.le_add_right _ _, fun n => ?_⟩
  refine Records.append [plainSite i elseToken, plainSite (i + 1) headToken,
    plainSite (i + 2) nameToken] (plainSite (i + 3) tailToken) [] ?_
  simpa only [readAll_cons_cons, readAll_singleton, token_plainSite] using hrec

lemma reaches_params (hp : s.pendingBody = none) (hdot : afterDot s.before = false)
    (hhash : prevIs s.before "#" = false) (hn : s.nextParams = some scope) :
    Reaches s scope i := by
  have hopen := opened_probe (i := i) (n := some (punctToken "(")) hp hdot hhash
  have hname := naming_params (i := i + 2) (n := some nameToken) hopen.pendingBody
    (hopen.nextParams.trans hn)
  have hrec := hname.records (i := i + 3) (n := some (punctToken ")")) rfl rfl
  refine ⟨_, .tail _ (.head _), i + 3, Nat.le_add_right _ _, fun n => ?_⟩
  refine Records.append [plainSite i elseToken, plainSite (i + 1) headToken,
    plainSite (i + 2) (punctToken "("), plainSite (i + 3) nameToken]
    (plainSite (i + 4) (punctToken ")")) [plainSite (i + 5) tailToken] ?_
  simpa only [readAll_cons_cons, readAll_singleton, token_plainSite] using hrec

lemma reaches_function (hp : s.pendingBody = none) (hdot : afterDot s.before = false)
    (hhash : prevIs s.before "#" = false) (hn : s.functionName = some (scope, false)) :
    Reaches s scope i := by
  have hopen := opened_probe (i := i) (n := some (punctToken "+")) hp hdot hhash
  obtain ⟨hplus, hd⟩ := opened_plus (i := i + 2) (n := some (punctToken "*")) hopen
  have hrec := records_function (i := i + 3) (n := some tailToken) hplus hd hn
  refine ⟨_, .tail _ (.tail _ (.head _)), i + 4, Nat.le_add_right _ _, fun n => ?_⟩
  refine Records.append [plainSite i elseToken, plainSite (i + 1) headToken,
    plainSite (i + 2) (punctToken "+"), plainSite (i + 3) (punctToken "*"),
    plainSite (i + 4) nameToken] (plainSite (i + 5) tailToken) [] ?_
  simpa only [readAll_cons_cons, readAll_singleton, token_plainSite] using hrec

lemma reaches_clause (hp : s.pendingBody = none) (hdot : afterDot s.before = false)
    (hhash : prevIs s.before "#" = false) (hc : s.catchScope = some scope) :
    Reaches s scope i := by
  have hopen := opened_probe (i := i) (n := some (punctToken "(")) hp hdot hhash
  have hparen := hopen.entered (i := i + 2) (n := some (punctToken ")"))
  have hclear := hparen.cleared (i := i + 3) (n := some (punctToken "#")) hopen.kind
  obtain ⟨hhashed, hpending⟩ := hclear.hash (i := i + 4) (n := some catchToken)
  have hname := naming_catch (i := i + 5) (n := some nameToken) hpending hhashed rfl rfl
    (hopen.catchScope.trans hc)
  have hrec := hname.records (i := i + 7) (n := some (punctToken ")")) rfl rfl
  refine ⟨_, .tail _ (.tail _ (.tail _ (.head _))), i + 7, Nat.le_add_right _ _, fun n => ?_⟩
  refine Records.append [plainSite i elseToken, plainSite (i + 1) headToken,
    plainSite (i + 2) (punctToken "("), plainSite (i + 3) (punctToken ")"),
    plainSite (i + 4) (punctToken "#"), plainSite (i + 5) catchToken,
    plainSite (i + 6) (punctToken "("), plainSite (i + 7) nameToken]
    (plainSite (i + 8) (punctToken ")")) [plainSite (i + 9) tailToken] ?_
  simpa only [readAll_cons_cons, readAll_singleton, token_plainSite] using hrec

lemma close_else {around : Frame} {outer : List Frame} (h : s.outer = around :: outer)
    (hk : s.top.hasScope) (ht : Tidy s.depth s.openBodies) (hp : s.pendingBody = none) :
    let t := s.close (some elseToken)
    t.current = (s.bodiesInside.getLast?.map OpenBody.restore).getD s.top.restore ∧
      t.pendingBody = none ∧ t.nextParams = s.nextParams ∧ t.functionName = s.functionName ∧
      t.catchScope = s.catchScope := by
  have hcur := (endBodies_tidy ht s.top.restore).1
  have hblock (t : Tracker) : ∃ f, t.endBlock (some elseToken) = t.setTop f := by
    unfold endBlock
    dsimp only
    split
    · exact ⟨_, rfl⟩
    · rw [if_neg (by simp [goesOn, elseToken, Token.isKeyword])]
      exact ⟨_, rfl⟩
  dsimp only
  rw [close_of_hasScope h hk]
  obtain ⟨f, hf⟩ := hblock (s.closeFrame around outer (some elseToken))
  rw [hf, closeFrame_of_hasScope h hk]
  exact ⟨hcur, hp, rfl, rfl, rfl⟩

/-- **What lingers can be recorded in**: some tokens after the brace record a name in a scope that
lies inside the one it closes. -/
theorem reaches_of_lingers {o : Tracker} (h : Between o s)
    (hc : site.token.isPunct "\x7d" = true) (hl : Lingers scope (s.prepare site)) :
    ∃ id, (s.prepare site).Live id ∧ scope ∈ Scope.ancestors (s.prepare site).scopes id ∧
      Reaches (s.step site (some elseToken)) id i := by
  have hp := h.prepare site
  obtain ⟨around, outer, houter⟩ := hp.exists_outer
  have hclose := close_else houter hp.hasScope hp.inside.tidy (pendingBody_prepare_of_closing hc)
  obtain ⟨hcur, hpending, hparams, hname, hclause⟩ := hclose
  have hother (p : String) (hne : "\x7d" ≠ p) : site.token.isPunct p = false := by
    simp only [Token.isPunct, Bool.and_eq_true, beq_iff_eq] at hc
    simp [Token.isPunct, hc.1, hc.2, hne]
  have hdot (before : List Site) : afterDot (site :: before) = false := by
    simp [afterDot, hother]
  have hhash (before : List Site) : prevIs (site :: before) "#" = false := by
    simp [prevIs, hother]
  rw [step_of_closing hc]
  cases hl with
  | @body b hb hs =>
    have hreach := reaches_current (i := i) (s := { (s.prepare site).close (some elseToken)
      with before := site :: ((s.prepare site).close (some elseToken)).before }) hpending (hdot _)
      (hhash _)
    have hrestore : ((s.prepare site).close (some elseToken)).current = b.restore := by
      rw [hcur, hb]
      rfl
    have hmem : b ∈ (s.prepare site).openBodies := List.mem_of_mem_filter (List.mem_of_getLast? hb)
    exact ⟨b.restore, .body hmem, hs, hrestore ▸ hreach⟩
  | params hf hs =>
    exact ⟨_, .params hf, hs, reaches_params hpending (hdot _) (hhash _) (hparams.trans hf)⟩
  | name hf hs =>
    exact ⟨_, .name hf, hs, reaches_function hpending (hdot _) (hhash _) (hname.trans hf)⟩
  | clause hf hs =>
    exact ⟨_, .clause hf, hs, reaches_clause hpending (hdot _) (hhash _) (hclause.trans hf)⟩

end Minify.Tracker
