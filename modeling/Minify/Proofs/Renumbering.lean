import Mathlib.Tactic.Common
import Minify.Proofs.SitesBefore

/-!
Where tokens stand does not matter for the scopes of a script.

A site's index goes into the occurrence that is recorded for it and nowhere else, and the byte
offset of a token is not looked at. Neither is a line end in front of the first site: what could be
ended by it is not there. So a run over sites with other indices and offsets takes the same steps,
function by function, and records the same occurrences with the other indices.
-/

namespace Minify

/-- The token without its place in the script. -/
def Token.unplaced (t : Token) : Token := { t with start := 0 }

/-- The site without its place and with another index, given by the one it has; the first one also
without the line ends in front of it. -/
def Site.renumber (f : Nat → Nat) (first : Bool) (s : Site) : Site :=
  { s with index := f s.index, token := s.token.unplaced, newline := !first && s.newline }

def Site.renumberFrom (f : Nat → Nat) (first : Bool) : List Site → List Site
  | [] => []
  | s :: rest => s.renumber f first :: renumberFrom f false rest

def Site.renumberBefore (f : Nat → Nat) : List Site → List Site
  | [] => []
  | s :: rest => s.renumber f rest.isEmpty :: renumberBefore f rest

def Occurrence.renumber (f : Nat → Nat) (o : Occurrence) : Occurrence :=
  { o with token := f o.token }

def ScopeTree.renumber (f : Nat → Nat) (t : ScopeTree) : ScopeTree :=
  { t with occurrences := t.occurrences.map (Occurrence.renumber f) }

namespace Tracker

def renumber (f : Nat → Nat) (s : Tracker) : Tracker :=
  { s with
    occurrences := s.occurrences.map (Occurrence.renumber f)
    before := Site.renumberBefore f s.before }

variable {f : Nat → Nat} {s : Tracker} {site : Site} {next : Option Token} {before : List Site}
  {first : Bool}

/-! ### What stands before a site -/

lemma afterDot_renumber : afterDot (Site.renumberBefore f before) = afterDot before := by
  cases before <;> rfl

lemma prevKeyword?_renumber :
    prevKeyword? (Site.renumberBefore f before) = prevKeyword? before := by
  cases before with
  | nil => rfl
  | cons p rest =>
    rw [Site.renumberBefore, prevKeyword?, prevKeyword?, afterDot_renumber]
    rfl

lemma prevIs_renumber (punct : String) :
    prevIs (Site.renumberBefore f before) punct = prevIs before punct := by
  cases before <;> rfl

lemma afterForAwait_renumber :
    afterForAwait (Site.renumberBefore f before) = afterForAwait before := by
  cases before with
  | nil => rfl
  | cons p rest =>
    rw [Site.renumberBefore, afterForAwait, afterForAwait, prevKeyword?_renumber]
    rfl

/-- In front of the first site there is no statement to end. -/
lemma endsStatement_renumber :
    endsStatement (Site.renumberBefore f before) (site.renumber f before.isEmpty)
      = endsStatement before site := by
  cases before with
  | nil => simp [endsStatement, Site.renumberBefore]
  | cons p rest => rfl

lemma declares_renumber (colonValue newline : Bool) :
    declares colonValue (Site.renumberBefore f before) newline
      = declares colonValue before newline := by
  cases before <;> rfl

/-- A function or class in front of everything is a declaration anyway. -/
lemma declares_isEmpty (colonValue newline : Bool) :
    declares colonValue before (!before.isEmpty && newline) = declares colonValue
      before newline := by
  cases before <;> rfl

lemma declaresFunction_renumber (colonValue : Bool) :
    declaresFunction colonValue (Site.renumberBefore f before) (site.renumber f before.isEmpty)
      = declaresFunction colonValue before site := by
  cases before with
  | nil => rfl
  | cons p rest =>
    have hrest : declares colonValue (Site.renumberBefore f rest) (!rest.isEmpty && p.newline)
        = declares colonValue rest p.newline :=
      (declares_renumber colonValue _).trans (declares_isEmpty colonValue p.newline)
    have hall : declares colonValue (Site.renumberBefore f (p :: rest)) site.newline
        = declares colonValue (p :: rest) site.newline := declares_renumber colonValue site.newline
    unfold declaresFunction
    change (if _ then declares colonValue (Site.renumberBefore f rest) (!rest.isEmpty && p.newline)
      else declares colonValue (Site.renumberBefore f (p :: rest)) site.newline) = _
    rw [hrest, hall]
    rfl

lemma opensObject_renumber (colonValue : Bool) :
    opensObject colonValue (Site.renumberBefore f before) = opensObject colonValue before := by
  cases before <;> rfl

lemma nextIs_unplaced (punct : String) :
    nextIs (next.map Token.unplaced) punct = nextIs next punct := by
  cases next <;> rfl

lemma any_startsKey_unplaced : (next.map Token.unplaced).any startsKey = next.any startsKey := by
  cases next <;> rfl

lemma goesOn_unplaced : goesOn (next.map Token.unplaced) = goesOn next := by
  cases next <;> rfl

lemma afterFunction_renumber : ((Site.renumberBefore f before).head?.any fun p =>
      p.token.isKeyword .kwFunction || p.token.isPunct "*")
    = before.head?.any fun p => p.token.isKeyword .kwFunction || p.token.isPunct "*" := by
  cases before <;> rfl

/-! ### Parts of the state -/

lemma takeSlot_renumber : (s.renumber f).takeSlot
    = s.takeSlot.map fun x => (x.1, x.2.renumber f) := by
  have htop : (s.renumber f).top = s.top := rfl
  have hdeclaration : (s.renumber f).declaration = s.declaration := rfl
  have hdepth : (s.renumber f).depth = s.depth := rfl
  unfold takeSlot
  rw [htop, hdeclaration, hdepth]
  split
  · rfl
  · split
    · split <;> rfl
    · rfl

lemma declare_renumber (kind : DeclKind) (shorthand : Bool) :
    (s.renumber f).declare (site.renumber f first) kind shorthand
      = (s.declare site kind shorthand).renumber f := by
  cases kind <;> rfl

lemma nameFunction_renumber (scope : ScopeId) (declaration : Bool) :
    (s.renumber f).nameFunction (site.renumber f first) scope declaration
      = (s.nameFunction site scope declaration).renumber f := by
  cases declaration <;> rfl

lemma abandonDeclaration_renumber :
    (s.renumber f).abandonDeclaration = s.abandonDeclaration.renumber f := by
  have hdeclaring : (s.renumber f).declaring true = s.declaring true := rfl
  unfold abandonDeclaration
  rw [hdeclaring]
  split <;> rfl

lemma beginBody_renumber :
    (s.renumber f).beginBody site.token.unplaced = (s.beginBody site.token).renumber f := by
  have hpending : (s.renumber f).pendingBody = s.pendingBody := rfl
  have hbrace : site.token.unplaced.isPunct "\x7b" = site.token.isPunct "\x7b" := rfl
  have harrow : site.token.unplaced.isPunct "=>" = site.token.isPunct "=>" := rfl
  unfold beginBody
  rw [hpending, hbrace, harrow]
  split
  · rfl
  · split
    · rfl
    · dsimp only
      split <;> rfl

/-! ### Words -/

lemma key_renumber : (s.renumber f).key (site.renumber f first) (next.map Token.unplaced)
    = (s.key site next).renumber f := by
  have htop : (s.renumber f).top = s.top := rfl
  have htext : (site.renumber f first).token.text = site.token.text := rfl
  have hword : (site.renumber f first).token.isWord = site.token.isWord := rfl
  have hkind : (site.renumber f first).token.kind = site.token.kind := rfl
  unfold key
  dsimp only
  rw [htop, htext, hword, hkind, nextIs_unplaced, nextIs_unplaced, nextIs_unplaced,
    any_startsKey_unplaced]
  split
  · rfl
  · split
    · rfl
    · split
      · rfl
      · have hkey : ((s.renumber f).setTop fun f => { f with atKey := false }).top
            = (s.setTop fun f => { f with atKey := false }).top := rfl
        rw [hkey]
        split
        · split
          · exact declare_renumber (s := s.setTop fun f => { f with atKey := false }) _ _
          · rfl
        · rfl

lemma keyword_renumber (k : Keyword) :
    (s.renumber f).keyword (site.renumber f s.before.isEmpty) (next.map Token.unplaced) k
      = (s.keyword site next k).renumber f := by
  have hdeclares : declaresFunction (s.renumber f).colonValue (s.renumber f).before
      (site.renumber f s.before.isEmpty) = declaresFunction s.colonValue s.before site :=
    declaresFunction_renumber _
  have hdeclaring : (s.renumber f).declaring false = s.declaring false := rfl
  unfold keyword
  rw [hdeclares, hdeclaring, nextIs_unplaced]
  split <;> try rfl
  · split <;> rfl
  · split <;> rfl

lemma identifier_renumber :
    (s.renumber f).identifier (site.renumber f s.before.isEmpty) (next.map Token.unplaced)
      = (s.identifier site next).renumber f := by
  have hprev : prevKeyword? (s.renumber f).before = prevKeyword? s.before :=
    prevKeyword?_renumber
  have htarget : ((prevKeyword? s.before == some .kwBreak
      || prevKeyword? s.before == some .kwContinue)
        && !(site.renumber f s.before.isEmpty).newline)
      = ((prevKeyword? s.before == some .kwBreak
        || prevKeyword? s.before == some .kwContinue) && !site.newline) := by
    cases s.before with
    | nil => rfl
    | cons p rest => rfl
  have hafter : ((s.renumber f).before.head?.any fun p =>
      p.token.isKeyword .kwFunction || p.token.isPunct "*")
      = s.before.head?.any fun p => p.token.isKeyword .kwFunction || p.token.isPunct "*" :=
    afterFunction_renumber
  have hdeclaring : (s.renumber f).declaring false = s.declaring false := rfl
  have hname : (s.renumber f).functionName = s.functionName := rfl
  have htext : (site.renumber f s.before.isEmpty).token.text = site.token.text := rfl
  have hclass : (s.renumber f).classDeclaration = s.classDeclaration := rfl
  have htop : (s.renumber f).top = s.top := rfl
  unfold identifier
  dsimp only
  rw [hprev, htarget, hafter, hdeclaring, hname, htext, hclass, htop, nextIs_unplaced,
    nextIs_unplaced]
  split
  · rfl
  · split
    · split <;> rfl
    · split
      · exact nameFunction_renumber _ _
      · split
        · rfl
        · split
          · rfl
          · split
            · rfl
            · split <;> rfl

lemma word_renumber :
    (s.renumber f).word (site.renumber f s.before.isEmpty) (next.map Token.unplaced)
      = (s.word site next).renumber f := by
  have hdot : afterDot (s.renumber f).before = afterDot s.before := afterDot_renumber
  have hhash : prevIs (s.renumber f).before "#" = prevIs s.before "#" := prevIs_renumber _
  have hkey : (s.renumber f).atKey = s.atKey := rfl
  have habandon : (s.renumber f).abandonDeclaration.atKey = s.abandonDeclaration.atKey := by
    rw [abandonDeclaration_renumber]
    rfl
  have hkind : (site.renumber f s.before.isEmpty).token.kind = site.token.kind := rfl
  unfold word
  rw [hdot, hhash, hkey, hkind, takeSlot_renumber]
  split
  · rfl
  · split
    · split
      · exact key_renumber
      · rfl
    · split
      · dsimp only
        rw [habandon, abandonDeclaration_renumber, ← before_abandonDeclaration (s := s)]
        split
        · exact key_renumber
        · exact keyword_renumber _
      · cases s.takeSlot with
        | some x => exact declare_renumber _ _
        | none =>
          dsimp only [Option.map_none]
          split
          · exact key_renumber
          · exact identifier_renumber

/-! ### Brackets -/

lemma openBrace_renumber : (s.renumber f).openBrace = s.openBrace.renumber f := by
  have hpending : (s.renumber f).pendingBody = s.pendingBody := rfl
  have hclass : (s.renumber f).classBody = s.classBody := rfl
  have hdepth : (s.renumber f).depth = s.depth := rfl
  have hobject : opensObject (s.renumber f).colonValue (s.renumber f).before
      = opensObject s.colonValue s.before := opensObject_renumber _
  unfold openBrace
  rw [hpending, hclass, hdepth, hobject, takeSlot_renumber]
  split
  · dsimp only
    split <;> rfl
  · cases s.takeSlot with
    | some x => rfl
    | none =>
      dsimp only [Option.map_none]
      split
      · rfl
      · split <;> rfl

lemma openSquare_renumber : (s.renumber f).openSquare = s.openSquare.renumber f := by
  have hkey : (s.renumber f).atKey = s.atKey := rfl
  unfold openSquare
  rw [hkey, takeSlot_renumber]
  cases s.takeSlot with
  | some x => rfl
  | none =>
    dsimp only [Option.map_none]
    split <;> rfl

lemma openParen_renumber :
    (s.renumber f).openParen (site.renumber f first) = (s.openParen site).renumber f := by
  have hparams : (s.renumber f).nextParams = s.nextParams := rfl
  have hcatch : (s.renumber f).catchScope = s.catchScope := rfl
  have hprev : prevKeyword? (s.renumber f).before = prevKeyword? s.before :=
    prevKeyword?_renumber
  have hawait : afterForAwait (s.renumber f).before = afterForAwait s.before :=
    afterForAwait_renumber
  have harrow : (site.renumber f first).beforeArrow = site.beforeArrow := rfl
  unfold openParen
  dsimp only
  rw [hparams, hcatch, hprev, hawait, harrow]
  split
  · rfl
  · split
    · rfl
    · split
      · rfl
      · split
        · rfl
        · split <;> rfl

lemma leave_renumber (frame : Frame) :
    (s.renumber f).leave frame (next.map Token.unplaced) = (s.leave frame next).renumber f := by
  have htop : (s.renumber f).top = s.top := rfl
  unfold leave
  rw [htop, nextIs_unplaced]
  split <;> try rfl
  split <;> rfl

lemma endBlock_renumber :
    (s.renumber f).endBlock (next.map Token.unplaced) = (s.endBlock next).renumber f := by
  have hbodies (g : Frame → Frame) :
      ((s.renumber f).setTop g).openBodies = (s.setTop g).openBodies := rfl
  have hdepth (g : Frame → Frame) : ((s.renumber f).setTop g).depth = (s.setTop g).depth := rfl
  unfold endBlock
  dsimp only
  rw [hbodies, hdepth, goesOn_unplaced]
  split
  · rfl
  · split <;> rfl

lemma closeFrame_renumber (around : Frame) (outer : List Frame) :
    (s.renumber f).closeFrame around outer (next.map Token.unplaced)
      = (s.closeFrame around outer next).renumber f := by
  have hleave : ((s.renumber f).pop around outer).leave (s.renumber f).top
      (next.map Token.unplaced) = ((s.pop around outer).leave s.top next).renumber f :=
    leave_renumber (s := s.pop around outer) s.top
  unfold closeFrame
  dsimp only
  rw [hleave]
  rfl

lemma close_renumber :
    (s.renumber f).close (next.map Token.unplaced) = (s.close next).renumber f := by
  have houter : (s.renumber f).outer = s.outer := rfl
  have htop : (s.renumber f).top = s.top := rfl
  unfold close
  rw [houter, htop]
  split
  · rfl
  · rw [closeFrame_renumber]
    dsimp only
    split
    · exact endBlock_renumber
    · rfl

/-! ### Tokens -/

lemma colon_renumber : (s.renumber f).colon = s.colon.renumber f := by
  have htop : (s.renumber f).top = s.top := rfl
  unfold colon
  rw [htop]
  split
  · rfl
  · split <;> rfl

lemma arrow_renumber :
    (s.renumber f).arrow (next.map Token.unplaced) = (s.arrow next).renumber f := by
  have hpending : (s.renumber f).pendingBody = s.pendingBody := rfl
  unfold arrow
  rw [hpending, nextIs_unplaced]
  split
  · split <;> rfl
  · rfl

lemma punctuator_renumber :
    (s.renumber f).punctuator (site.renumber f first) (next.map Token.unplaced)
      = (s.punctuator site next).renumber f := by
  have htext : (site.renumber f first).token.text = site.token.text := rfl
  unfold punctuator
  rw [htext]
  split
  · exact openBrace_renumber
  · exact openSquare_renumber
  · exact openParen_renumber
  · exact close_renumber
  · exact close_renumber
  · exact close_renumber
  · rfl
  · rfl
  · rfl
  · exact colon_renumber
  · rfl
  · exact arrow_renumber
  · rfl
  · rfl
  · rfl
  · exact abandonDeclaration_renumber

lemma read_renumber :
    (s.renumber f).read (site.renumber f s.before.isEmpty) (next.map Token.unplaced)
      = (s.read site next).renumber f := by
  have hkind : (site.renumber f s.before.isEmpty).token.kind = site.token.kind := rfl
  have hkey : (s.renumber f).atKey = s.atKey := rfl
  unfold read
  rw [hkind, hkey]
  split
  · exact punctuator_renumber
  · exact word_renumber
  · exact word_renumber
  · split
    · exact key_renumber
    · rfl
  · split
    · exact key_renumber
    · rfl
  · rfl
  · rfl
  · exact close_renumber
  · rfl

lemma prepare_renumber :
    (s.renumber f).prepare (site.renumber f s.before.isEmpty) = (s.prepare site).renumber f := by
  have hends : endsStatement (s.renumber f).before (site.renumber f s.before.isEmpty)
      = endsStatement s.before site := endsStatement_renumber
  have hclosed : (s.renumber f).closedHeader = s.closedHeader := rfl
  unfold prepare
  dsimp only
  rw [hends, hclosed]
  split
  · exact beginBody_renumber (s := ({ s with closedHeader := false } : Tracker).endStatement)
  · exact beginBody_renumber (s := { s with closedHeader := false })

/-- **A step over a renumbered site** is the renumbered step. -/
lemma step_renumber (s : Tracker) (site : Site) (next : Option Token) :
    (s.renumber f).step (site.renumber f s.before.isEmpty) (next.map Token.unplaced)
      = (s.step site next).renumber f := by
  have hread : ((s.prepare site).renumber f).read (site.renumber f s.before.isEmpty)
      (next.map Token.unplaced) = ((s.prepare site).read site next).renumber f := by
    have hbefore : (s.prepare site).before = s.before := before_prepare
    rw [← hbefore]
    exact read_renumber
  have hbefore : ((s.prepare site).read site next).before.isEmpty = s.before.isEmpty := by
    rw [before_read, before_prepare]
  unfold step
  dsimp only
  rw [prepare_renumber, hread, ← hbefore]
  rfl

/-- **A run over renumbered sites** is the renumbered run. -/
theorem run_renumber (s : Tracker) (sites : List Site) :
    (s.renumber f).run (Site.renumberFrom f s.before.isEmpty sites) = (s.run sites).renumber f := by
  induction sites generalizing s with
  | nil => rfl
  | cons site rest ih =>
    have hnext : (Site.renumberFrom f false rest).head?.map Site.token
        = (rest.head?.map Site.token).map Token.unplaced := by
      cases rest <;> rfl
    have hrest := ih (s.step site (rest.head?.map Site.token))
    rw [before_step, List.isEmpty_cons] at hrest
    rw [Site.renumberFrom, run, run, hnext, step_renumber]
    exact hrest

end Tracker

end Minify
