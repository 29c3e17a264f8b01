import Mathlib
import Minify.Proofs.CaseStatements
import Minify.Proofs.LexerRun

/-!
The names recorded in functions with labels and cases.

Between statements the tracker waits for nothing, and a colon brings it there again. Labels are not
recorded, and of the names of variables only the last one of a test may be missing.
-/

namespace Minify

namespace Tracker

variable {s t u : Tracker} {site c : Site} {next : Option Token} {sites : List Site}
  {indices indices' : List Nat} {ps : List MarkedWord}

/-- The tracker is between statements. -/
structure AtStatement (s : Tracker) : Prop where
  ready : Ready s
  openBodies : s.openBodies = []
  closed : s.closedHeader = false
  current : s.current < s.scopes.size
  clear : Clear s.before
  keyword : prevKeyword? s.before = none

/-- From `s` to `t` whole statements were read, and the sites with these indices were recorded. -/
structure NamesRecorded (s t : Tracker) (indices : List Nat) : Prop where
  back : Back s t
  size : s.scopes.size ≤ t.scopes.size
  clear : Clear t.before
  keyword : prevKeyword? t.before = none
  recorded : ∃ new, t.occurrences = new ++ s.occurrences ∧
    new.reverse.map Occurrence.token = indices

/-- A part of the text is read: the names of variables in it are recorded, in their order. -/
def Recorded (ps : List MarkedWord) : Prop :=
  ∀ {s : Tracker} (next : Option Token) {sites : List Site}, AtStatement s → Marked sites ps →
    NamesRecorded s (s.readAll next sites) (MarkedWord.named sites ps)

lemma NamesRecorded.refl (h : AtStatement s) : NamesRecorded s s [] :=
  ⟨rfl, Nat.le_refl _, h.clear, h.keyword, [], rfl, rfl⟩

lemma NamesRecorded.trans (h : NamesRecorded s t indices) (h' : NamesRecorded t u indices') :
    NamesRecorded s u (indices ++ indices') := by
  obtain ⟨new, hnew, hi⟩ := h.recorded
  obtain ⟨new', hnew', hi'⟩ := h'.recorded
  refine ⟨h.back.trans h'.back, Nat.le_trans h.size h'.size, h'.clear, h'.keyword,
    new' ++ new, ?_, ?_⟩
  · rw [hnew', hnew, List.append_assoc]
  · rw [List.reverse_append, List.map_append, hi, hi']

lemma NamesRecorded.between (h : NamesRecorded s t indices) (hs : AtStatement s) :
    AtStatement t := by
  have hrests := h.back
  refine ⟨hrests.ready hs.ready, ?_, ?_, ?_, h.clear, h.keyword⟩
  · rw [hrests]
    exact hs.openBodies
  · rw [hrests]
    exact hs.closed
  · have hcurrent : t.current = s.current := by rw [hrests]
    rw [hcurrent]
    exact Nat.lt_of_lt_of_le hs.current h.size

lemma AtStatement.back (hs : AtStatement s) (h : t = { s with
      scopes := t.scopes, inside := t.inside, occurrences := t.occurrences
      colonValue := t.colonValue, closedHeader := false, before := t.before }) : Back s t := by
  refine h.trans ?_
  rw [← hs.closed]

lemma AtStatement.free (hs : AtStatement s) : Free s :=
  hs.ready.free fun b hb => by rw [hs.openBodies] at hb; cases hb

lemma AtStatement.calm (hs : AtStatement s) : Calm s site :=
  hs.ready.calm fun b hb => by rw [hs.openBodies] at hb; cases hb

lemma AtStatement.sees (hs : AtStatement s) : Sees s s.current fun x => s.refersTo x s.current :=
  ⟨hs.current, fun _ => rfl⟩

lemma AtStatement.passed (hs : AtStatement s) (site : Site) : Ready (s.passed site) ∧
    Free (s.passed site) ∧
    Sees (s.passed site) (s.passed site).current fun x => s.refersTo x s.current := by
  exact ⟨hs.ready.of_eq rfl, hs.free.passed site, hs.current, fun _ => rfl⟩

/-! ### Colons and semicolons -/

lemma prevKeyword_punct {p : String} {before : List Site} (h : (Word.punct p).At site) :
    prevKeyword? (site :: before) = none := by
  simp [prevKeyword?, h.kind, Word.punct]

lemma step_colon (hs : Ready s) (hc : (Word.punct ":").At c) : s.step c next = { s with
    colonValue := false, closedHeader := false, before := c :: s.before } := by
  have hread : s.unmarked.read c next = { s with colonValue := false, closedHeader := false } := by
    have hternary : ¬ s.unmarked.top.ternary > 0 := by
      rw [show s.unmarked.top.ternary = 0 from hs.ternary]
      exact Nat.lt_irrefl 0
    have hkind : s.unmarked.top.kind ≠ .object := by
      rcases hs.kind with hk | hk <;> exact fun ho => by
        rw [show s.unmarked.top.kind = s.top.kind from rfl, hk] at ho
        cases ho
    have hcolon : s.unmarked.read c next = s.unmarked.colon := by
      simp only [read, punctuator, hc.kind, hc.text, Word.punct]
    rw [hcolon, colon, if_neg hternary, if_neg hkind]
    rfl
  exact step_of_read hs.pendingBody (calm_of_word hc (by simp [Word.punct])) hread

/-- `e;` -/
lemma recorded_use (e : Expr) : Recorded (e.pieces ++ [.punct ";"]) := by
  intro s next sites hs h
  obtain ⟨xs, c, rfl, hxs, hc⟩ := marked_last h
  obtain ⟨hcolon, harrow⟩ := nextIs_of_closing hc.word (by simp)
  have hread := Readable.complete (readable e) (some c.token)
    ⟨hs.free, hs.clear, hs.sees, hxs, fun _ _ => hs.calm⟩ harrow
    fun h => by rw [hcolon] at h; cases h
  have hend := hread.semicolon next hs.ready
    (fun b hb => by rw [hs.openBodies] at hb; cases hb) hc.word
  have hnamed :
      MarkedWord.named (xs ++ [c]) (e.pieces ++ [.punct ";"]) = MarkedWord.named xs e.pieces := by
    rw [MarkedWord.named_append hxs]
    simp [MarkedWord.named, MarkedWord.punct, MarkedWord.other]
  rw [readAll_append, hnamed]
  change NamesRecorded s ((s.readAll (some c.token) xs).step c next) _
  rw [hend]
  refine ⟨hs.back rfl, ?_, clear_punct hc.word (by simp), prevKeyword_punct hc.word,
    hread.recorded⟩
  · change s.scopes.size ≤ (s.readAll (some c.token) xs).scopes.size
    rw [hread.adds.size]
    exact Nat.le_add_right _ _

/-- `l:` -/
lemma recorded_label (l : String) : Recorded [.other (.name l), .punct ":"] := by
  intro s next sites hs h
  obtain ⟨a, rest, ha, hrest, rfl⟩ := List.forall₂_cons_right_iff.mp h
  obtain ⟨c, others, hc, hothers, rfl⟩ := List.forall₂_cons_right_iff.mp hrest
  cases hothers
  obtain ⟨hready, -, -⟩ := hs.passed a
  have hcolon : nextIs (some c.token) ":" = true := Nested.isPunct_iff hc.word
  have harrow : nextIs (some c.token) "=>" = false :=
    nextIs_of_word hc.word (by simp [MarkedWord.punct, MarkedWord.other, Word.punct])
  have hlabel : s.step a (some c.token) = s.passed a := by
    have hread : s.unmarked.read a (some c.token) = s.unmarked := by
      have hlost := read_variable (s := s.unmarked) (some c.token)
        hs.free.unmarked hs.clear ha.word.kind harrow
      have hternary : s.unmarked.top.ternary = 0 := hs.ready.ternary
      have hkeyword : prevKeyword? s.unmarked.before = none := hs.keyword
      rw [hlost, if_pos (by simp [hcolon, hternary, hkeyword])]
    rw [step_of_read hs.ready.pendingBody hs.calm hread]
    rfl
  have hnone : MarkedWord.named [a, c] [.other (.name l), .punct ":"] = [] := by
    simp [MarkedWord.named, MarkedWord.punct, MarkedWord.other]
  rw [hnone]
  change NamesRecorded s ((s.step a (some c.token)).step c next) []
  rw [hlabel, step_colon hready hc.word]
  exact ⟨hs.back rfl, Nat.le_refl _, clear_punct hc.word (by simp), prevKeyword_punct hc.word, [],
    rfl, rfl⟩

/-- `default:` -/
lemma recorded_default : Recorded [.other (.keyword .kwDefault "default"), .punct ":"] := by
  intro s next sites hs h
  obtain ⟨a, rest, ha, hrest, rfl⟩ := List.forall₂_cons_right_iff.mp h
  obtain ⟨c, others, hc, hothers, rfl⟩ := List.forall₂_cons_right_iff.mp hrest
  cases hothers
  obtain ⟨hready, -, -⟩ := hs.passed a
  have hkeyword : s.step a (some c.token) = s.passed a :=
    step_keyword (k := .kwDefault) (by simp) hs.free hs.clear.dot hs.clear.hash hs.calm ha.word.kind
  have hnone : MarkedWord.named [a, c] [.other (.keyword .kwDefault "default"),
    .punct ":"] = [] := by
    simp [MarkedWord.named, MarkedWord.punct, MarkedWord.other]
  rw [hnone]
  change NamesRecorded s ((s.step a (some c.token)).step c next) []
  rw [hkeyword, step_colon hready hc.word]
  exact ⟨hs.back rfl, Nat.le_refl _, clear_punct hc.word (by simp), prevKeyword_punct hc.word, [],
    rfl, rfl⟩

/-- The test of a case loses its last name unless it is all of it. -/
lemma losesLast_test (e : Expr) (hprev : prevKeyword? s.before = some .kwCase)
    (hternary : s.top.ternary = 0) (hnext : nextIs next ":" = true) :
    losesLast s next e = e.losesName := by
  unfold losesLast
  rw [hnext, hternary]
  cases e with
  | name x => simp [endsUnguarded, hprev, Expr.losesName]
  | _ => rfl

/-- The sites without the last one are those of the words without the last name. -/
lemma cut_named (e : Expr) (h : Marked sites e.pieces) :
    cut e.losesName (MarkedWord.named sites e.pieces) = MarkedWord.named sites e.recorded := by
  unfold Expr.recorded
  cases hloses : e.losesName with
  | false => rfl
  | true =>
    have hends : e.endsInName = true := by
      cases e with
      | name => cases hloses
      | _ => exact hloses
    obtain ⟨ps, p, hpieces, hp⟩ := Expr.exists_last_name hends
    rw [hpieces] at h ⊢
    rw [if_pos rfl, MarkedWord.named_forgetLast hp h]
    rfl

/-- What opened no scope opened no body either, and the tracker is where it was. -/
lemma ReadAs.eq_of_none {after : String → Option ScopeId} {found : List (String × Option ScopeId)}
    (h : ReadAs s t after 0 found indices) : t = { s with
      scopes := t.scopes, inside := t.inside, occurrences := t.occurrences
      colonValue := t.colonValue, closedHeader := false, before := t.before } := by
  obtain ⟨bodies, hbodies, hlen⟩ := h.bodies
  obtain rfl : bodies = [] := List.eq_nil_of_length_eq_zero (Nat.le_zero.mp hlen)
  have hcurrent : t.current = s.current := hbodies.around
  have hopen : t.openBodies = s.openBodies := hbodies.eq
  rw [h.alike, hcurrent, hopen, h.closed]

/-- `case e:` -/
lemma recorded_case (e : ArrowFree) :
    Recorded (.other (.keyword .kwCase "case") :: (e.1.recorded ++ [.punct ":"])) := by
  intro s next sites hs h
  obtain ⟨a, rest, ha, hrest, rfl⟩ := List.forall₂_cons_right_iff.mp h
  obtain ⟨xs, c, rfl, hxs, hc⟩ := marked_last hrest
  obtain ⟨hready, hfree, hsees⟩ := hs.passed a
  have hmarked : Marked xs e.1.pieces := marked_congr hxs e.1.map_shape_recorded
  have hkind : a.token.kind = .keyword .kwCase := ha.word.kind
  have hkeyword (n : Option Token) : s.step a n = s.passed a :=
    step_keyword (by simp) hs.free hs.clear.dot hs.clear.hash hs.calm hkind
  have hclear : Clear (a :: s.before) :=
    clear_keyword hs.clear.dot hkind ⟨rfl, by decide⟩
  have hoperand : a.token.endsOperand = false := by
    simp [Token.endsOperand, hkind, Keyword.isOperand]
  have hcolon : nextIs (some c.token) ":" = true := Nested.isPunct_iff hc.word
  have harrow : nextIs (some c.token) "=>" = false :=
    nextIs_of_word hc.word (by simp [MarkedWord.punct, MarkedWord.other, Word.punct])
  have hread := readable e.1 (s := s.passed a) (some c.token)
    ⟨hfree, hclear, hsees, hmarked, fun _ _ => calm_of_not_operand rfl hoperand⟩ harrow
  have hlost : losesLast (s.passed a) (some c.token) e.1 = e.1.losesName :=
    losesLast_test e.1 (prevKeyword_cons hkind hs.clear.dot) hs.ready.ternary hcolon
  rw [hlost, cut_named e.1 hmarked, e.2] at hread
  have hall : MarkedWord.named (a :: (xs ++ [c]))
      (.other (.keyword .kwCase "case") :: (e.1.recorded ++ [.punct ":"]))
      = MarkedWord.named xs e.1.recorded := by
    simp [MarkedWord.named, MarkedWord.named_append hxs, MarkedWord.punct, MarkedWord.other]
  rw [readAll, hkeyword, readAll_append, hall]
  change NamesRecorded s (((s.passed a).readAll (some c.token) xs).step c next) _
  generalize (s.passed a).readAll (some c.token) xs = t at hread
  have hstate : t = { s with
      scopes := t.scopes, inside := t.inside, occurrences := t.occurrences
      colonValue := t.colonValue, closedHeader := false, before := t.before } := hread.eq_of_none
  have htready : Ready t := by
    rw [hstate]
    exact hready.of_eq rfl
  rw [step_colon htready hc.word]
  refine ⟨hs.back (by rw [hstate]), ?_, clear_punct hc.word (by simp), prevKeyword_punct hc.word,
    hread.recorded⟩
  change s.scopes.size ≤ t.scopes.size
  exact Nat.le_of_eq hread.adds.size.symm

/-! ### `switch` -/

lemma step_openSwitch {k o : Site} {before : List Site} (hs : Free s) (hb : s.before = k :: before)
    (hk : k.token.kind = .keyword .kwSwitch) (hdot : afterDot before = false)
    (ho : (Word.punct "(").At o) (harrow : o.beforeArrow = false) :
    s.step o next = s.opened .header o := by
  have hread : s.unmarked.read o next = s.unmarked.push (.ofKind .header s.current) := by
    have hprev : prevKeyword? s.unmarked.before = some .kwSwitch := by
      rw [show s.unmarked.before = k :: before from hb]
      exact prevKeyword_cons hk hdot
    have hawait : afterForAwait s.unmarked.before = false := by
      rw [show s.unmarked.before = k :: before from hb]
      exact afterForAwait_cons hk
    have hparams : s.unmarked.nextParams = none := hs.nextParams
    simp [read, punctuator, ho.kind, ho.text, Word.punct, openParen, hparams, hprev, hawait, harrow,
      Keyword.hasHeader]
    rfl
  rw [step_of_read hs.pendingBody (calm_of_word ho (by simp [Word.punct])) hread]
  rfl

/-- What stands in the braces of a `switch` comes back to where the `switch` is. -/
lemma records_braces {o d : Site} {inner : List Site} (next : Option Token) (hs : Ready s)
    (hb : s.openBodies = [])
    (hopening : Opening s.before) (hclosed : s.closedHeader = true)
    (ho : (Word.punct "\x7b").At o)
    (hd : (Word.punct "\x7d").At d)
    (ih : ∀ {s : Tracker} (next : Option Token), AtStatement s →
      NamesRecorded s (s.readAll next inner) indices) :
    NamesRecorded { s with closedHeader := false }
      (s.readAll next (o :: (inner ++ [d]))) indices := by
  obtain ⟨n, hread⟩ := readAll_braces s next o d inner
  rw [hread, step_openBlock hs hopening ho (.inl hclosed)]
  have hsize : (s.inBlock s.current o).scopes.size = s.scopes.size + 1 := size_enter s
  have hbetween : AtStatement (s.inBlock s.current o) := by
    refine ⟨hs.inBlock s.current o, hb, rfl, ?_, clear_punct ho (by simp), prevKeyword_punct ho⟩
    rw [hsize]
    exact Nat.lt_succ_self _
  have hrecords := ih (some d.token) hbetween
  generalize (s.inBlock s.current o).readAll (some d.token) inner = u at hrecords ⊢
  let w : Tracker := { s with colonValue := u.colonValue }
  have hw : Ready w := hs.of_eq rfl
  have hnone : Holds w [] [] := ⟨hb, List.forall_mem_nil _, List.forall_mem_nil _⟩
  have hclose := step_closeBlock next s.current o u.scopes u.inside u.occurrences
    u.before hw hnone hd
  have hu : u = { w.inBlock s.current o with
      scopes := u.scopes, inside := u.inside, occurrences := u.occurrences
      before := u.before } := hrecords.back
  rw [← hu] at hclose
  let v : Tracker := { w with
    scopes := u.scopes, inside := u.inside, occurrences := u.occurrences, current := s.current
    closedHeader := false
    before := u.before }
  have hv : Ready v := hs.of_eq rfl
  have hholds : Holds v [] [] := ⟨hb, List.forall_mem_nil _, List.forall_mem_nil _⟩
  have hsame : v.endBlock next = v := endBlock_eq_self hv hholds (.inr rfl)
  rw [hclose]
  change NamesRecorded _ { v.endBlock next with before := d :: u.before } indices
  rw [hsame]
  refine ⟨rfl, ?_, clear_punct hd (by simp), prevKeyword_punct hd, hrecords.recorded⟩
  change s.scopes.size ≤ u.scopes.size
  have hgrows := hrecords.size
  rw [hsize] at hgrows
  exact Nat.le_of_succ_le hgrows

/-- `switch (e) { clauses }` -/
lemma recorded_switch (e : Expr) (ih : Recorded ps) :
    Recorded (.other (.keyword .kwSwitch "switch") :: .punct "(" ::
      (e.pieces ++ .punct ")" :: .punct "\x7b" :: (ps ++ [.punct "\x7d"]))) := by
  intro s next sites hs h
  obtain ⟨k, rest₁, hk, h₁, rfl⟩ := List.forall₂_cons_right_iff.mp h
  obtain ⟨o, rest₂, ho, h₂, rfl⟩ := List.forall₂_cons_right_iff.mp h₁
  obtain ⟨xs, rest₃, rfl, hxs, h₃⟩ := marked_append h₂
  obtain ⟨c, rest₄, hc, h₄, rfl⟩ := List.forall₂_cons_right_iff.mp h₃
  obtain ⟨q, rest₅, hq, h₅, rfl⟩ := List.forall₂_cons_right_iff.mp h₄
  obtain ⟨inner, d, rfl, hinner, hd⟩ := marked_last h₅
  obtain ⟨hready, hfree, hsees⟩ := hs.passed k
  have hkind : k.token.kind = .keyword .kwSwitch := hk.word.kind
  -- the header
  have hkeyword (n : Option Token) : s.step k n = s.passed k :=
    step_keyword (by simp) hs.free hs.clear.dot hs.clear.hash hs.calm hkind
  have hopen (n : Option Token) : (s.passed k).step o n = (s.passed k).opened .header o :=
    step_openSwitch hfree rfl hkind hs.clear.dot ho.word ho.beforeArrow
  obtain ⟨hcolon, harrow⟩ := nextIs_of_closing hc.word (by simp)
  have hread := Readable.complete (readable e) (some c.token)
    (AtStart.opened .header hfree hsees (by simp) ho.word (by simp) hxs) harrow
    fun h => by rw [hcolon] at h; cases h
  have hclose (n : Option Token) := step_closeGroup n hfree (by simp) hread hc.word (by simp)
  -- the braces
  have hnamed : MarkedWord.named (k :: o :: (xs ++ c :: q :: (inner ++ [d])))
      (.other (.keyword .kwSwitch "switch") :: .punct "(" ::
        (e.pieces ++ .punct ")" :: .punct "\x7b" :: (ps ++ [.punct "\x7d"])))
      = MarkedWord.named xs e.pieces ++ MarkedWord.named inner ps := by
    simp [MarkedWord.named, MarkedWord.named_append hxs, MarkedWord.named_append hinner,
      MarkedWord.punct, MarkedWord.other]
  rw [readAll, readAll, readAll_append, hkeyword, hopen, readAll, hnamed]
  change NamesRecorded s
    (((((s.passed k).opened .header o).readAll (some c.token) xs).step c _).readAll next
    (q :: (inner ++ [d]))) _
  rw [hclose]
  generalize ((s.passed k).opened .header o).readAll (some c.token) xs = t at hread
  let w : Tracker := { s.passed k with
    scopes := t.scopes, inside := t.inside, occurrences := t.occurrences, colonValue := t.colonValue
    closedHeader := true, before := c :: t.before }
  have hw : Ready w := hready.of_eq rfl
  have hsize : s.scopes.size ≤ t.scopes.size := by
    have hadds := hread.adds.size
    change t.scopes.size = s.scopes.size + _ at hadds
    rw [hadds]
    exact Nat.le_add_right _ _
  have hbraces := records_braces (s := w) next hw hs.openBodies
    ⟨c, _, rfl, .inl ⟨hc.word.kind,
      by simp [hc.word.text, MarkedWord.punct, MarkedWord.other, Word.punct]⟩⟩ rfl
    hq.word hd.word fun next hs => ih next hs hinner
  have hheader : NamesRecorded s { w with closedHeader := false } (MarkedWord.named xs e.pieces) :=
    ⟨hs.back rfl, hsize, clear_punct hc.word (by simp), prevKeyword_punct hc.word, hread.recorded⟩
  exact hheader.trans hbraces

/-! ### Statements and clauses -/

lemma recorded_nil : Recorded [] := by
  intro s next sites hs h
  cases h
  exact .refl hs

lemma Recorded.append {qs : List MarkedWord} (h : Recorded ps) (h' : Recorded qs) :
    Recorded (ps ++ qs) := by
  intro s next sites hs hsites
  obtain ⟨xs, ys, rfl, hxs, hys⟩ := marked_append hsites
  rw [readAll_append, MarkedWord.named_append hxs]
  have hfirst := h ((ys.head?.map Site.token).or next) hs hxs
  exact hfirst.trans (h' next (hfirst.between hs) hys)

mutual

theorem recorded_stmt : ∀ S : CaseStmt, Recorded (S.pieces Expr.recorded)
  | .use e => recorded_use e
  | .label l body => Recorded.append (recorded_label l) (recorded_stmt body)
  | .switch e clauses => recorded_switch e (recorded_clauses clauses)

theorem recorded_stmts : ∀ l : List CaseStmt, Recorded (CaseStmt.listPieces Expr.recorded l)
  | [] => recorded_nil
  | S :: rest => Recorded.append (recorded_stmt S) (recorded_stmts rest)

theorem recorded_clause : ∀ c : Clause, Recorded (c.pieces Expr.recorded)
  | .case e body => by
    have hpieces : (Clause.case e body).pieces Expr.recorded
        = (.other (.keyword .kwCase "case") :: (e.1.recorded ++ [.punct ":"])) ++
          CaseStmt.listPieces Expr.recorded body := by
      simp [Clause.pieces]
    rw [hpieces]
    exact Recorded.append (recorded_case e) (recorded_stmts body)
  | .default body => Recorded.append recorded_default (recorded_stmts body)

theorem recorded_clauses : ∀ l : List Clause, Recorded (Clause.listPieces Expr.recorded l)
  | [] => recorded_nil
  | c :: rest => Recorded.append (recorded_clause c) (recorded_clauses rest)

end

/-! ### Functions -/

lemma records_caseFunction {f : CaseFunction} (next : Option Token) (hs : Outside s)
    (h : Marked sites (f.pieces Expr.recorded)) :
    Outside (s.readAll next sites) ∧
      ∃ new, (s.readAll next sites).occurrences = new ++ s.occurrences ∧
        new.reverse.map Occurrence.token = MarkedWord.named sites (f.pieces Expr.recorded) := by
  obtain ⟨site, before, inner, c, indices, t, -, hinner, hc, hnamed, hd, hin, ⟨o, back, hback, ho⟩,
      hread⟩ :=
    readAll_function next hs h
  obtain ⟨hready, hnone⟩ := hin.ready hs
  have hbetween : AtStatement t := by
    refine ⟨hready, hnone, by rw [hin], ?_, hback ▸ clear_punct ho (by simp),
      hback ▸ prevKeyword_punct ho⟩
    have hcurrent : t.current = (s.afterName site before).scopes.size := by rw [hin]
    rw [hcurrent, hd.size]
    exact Nat.lt_succ_self _
  have hbody := recorded_stmts f.body (some c.token) hbetween hinner
  generalize t.readAll (some c.token) inner = u at hbody hread
  have hsize : 0 < u.scopes.size :=
    Nat.lt_of_lt_of_le (Nat.zero_lt_of_lt hbetween.current) hbody.size
  obtain ⟨houtside, -, hoccurrences⟩ := step_closeFunction next hs hin hbody.back hsize hc
  obtain ⟨params, hparams, hindices, -⟩ := hd.recorded
  obtain ⟨new, hnew, htokens⟩ := hbody.recorded
  have hname : (s.afterName site before).occurrences
      = [⟨site.index, site.token.text, s.current, false⟩] ++ s.occurrences := rfl
  rw [hread]
  refine ⟨houtside, new ++ (params ++ [⟨site.index, site.token.text, s.current, false⟩]), ?_, ?_⟩
  · rw [hoccurrences, hnew, hparams, hname, List.append_assoc, List.append_assoc]
  · rw [List.reverse_append, List.reverse_append, List.map_append, List.map_append,
      hindices, htokens]
    exact hnamed.symm

lemma records_functions {l : List CaseFunction} (next : Option Token) (hs : Outside s)
    (h : Marked sites (l.flatMap fun f => f.pieces Expr.recorded)) :
    ∃ new, (s.readAll next sites).occurrences = new ++ s.occurrences ∧
      new.reverse.map Occurrence.token
        = MarkedWord.named sites (l.flatMap fun f => f.pieces Expr.recorded) := by
  induction l generalizing s sites with
  | nil =>
    cases h
    exact ⟨[], rfl, rfl⟩
  | cons f rest ih =>
    rw [List.flatMap_cons] at h ⊢
    obtain ⟨xs, ys, rfl, hxs, hys⟩ := marked_append h
    obtain ⟨houtside, new, hnew, htokens⟩ :=
      records_caseFunction ((ys.head?.map Site.token).or next) hs hxs
    obtain ⟨new', hnew', htokens'⟩ := ih houtside hys
    rw [readAll_append, MarkedWord.named_append hxs]
    refine ⟨new' ++ new, ?_, ?_⟩
    · rw [hnew', hnew, List.append_assoc]
    · rw [List.reverse_append, List.map_append, htokens, htokens']

end Tracker

/-! ### The whole script -/

namespace CaseProgram

variable {p : CaseProgram} {tokens : List Token}

/-- A token list whose tokens, but for blanks, comments and line ends, are those of the functions.
-/
def SpelledBy (p : CaseProgram) (tokens : List Token) : Prop :=
  Spells (Site.ofTokens tokens) ((p.pieces Expr.pieces).map MarkedWord.word)

/-- The indices of the tokens that name variables. -/
def nameTokens (p : CaseProgram) (tokens : List Token) : List Nat :=
  MarkedWord.named (Site.ofTokens tokens) (p.pieces Expr.pieces)

lemma length_named {sites : List Site} {ps : List MarkedWord} (h : Marked sites ps) :
    (MarkedWord.named sites ps).length = ps.countP MarkedWord.names := by
  induction h with
  | nil => rfl
  | @cons site p sites ps _ _ ih =>
    rw [MarkedWord.named, List.countP_cons]
    split <;> simp_all

end CaseProgram

/-- **The names of variables are recorded, each once,** just if each test of a `case` that ends with
a name is that name and no more. -/
theorem occurrences_in_cases (p : CaseProgram) (tokens : List Token) (h : p.SpelledBy tokens) :
    ∃ tree, ScopeTree.ofTokens tokens = .ok tree ∧
      (tree.occurrences.map Occurrence.token = p.nameTokens tokens ↔ p.testsGuarded = true) := by
  have hmarked := p.nested_pieces.marked_ofTokens h
  have hrecorded : Marked (Site.ofTokens tokens) (p.pieces Expr.recorded) :=
    marked_congr hmarked p.map_shape_pieces.symm
  obtain ⟨new, hnew, htokens⟩ :=
    Tracker.records_functions none Tracker.outside_start hrecorded
  have hfound : (Tracker.start.run (Site.ofTokens tokens)).tree.occurrences.map Occurrence.token
      = MarkedWord.named (Site.ofTokens tokens) (p.pieces Expr.recorded) := by
    rw [Tracker.tree, Tracker.run_eq_readAll, hnew]
    rw [show Tracker.start.occurrences = [] from rfl, List.append_nil]
    exact htokens
  refine ⟨_, ScopeTree.ofTokens_of_check (p.nested_pieces.check h), ?_⟩
  rw [hfound, CaseProgram.nameTokens]
  rcases p.misses with ⟨hguarded, hsame⟩ | ⟨hguarded, hfewer⟩
  · rw [hsame, hguarded]
    simp
  · rw [hguarded]
    refine iff_of_false (fun hsame => ?_) Bool.false_ne_true
    have hlength := congrArg List.length hsame
    rw [CaseProgram.length_named hrecorded, CaseProgram.length_named hmarked] at hlength
    omega

set_option maxRecDepth 20000 in
/-- A name right after `case`, a label, and a conditional that ends with a name. -/
theorem occurrences_in_cases_with_label :
    let tokens : List Token := [
      ⟨.keyword .kwFunction, "function", 0⟩, ⟨.blank, " ", 8⟩, ⟨.identifier, "f", 9⟩,
      ⟨.punctuator, "(", 10⟩, ⟨.identifier, "x", 11⟩, ⟨.punctuator, ")", 12⟩,
      ⟨.punctuator, "\x7b", 13⟩, ⟨.keyword .kwSwitch, "switch", 14⟩, ⟨.punctuator, "(", 20⟩,
      ⟨.identifier, "x", 21⟩, ⟨.punctuator, ")", 22⟩, ⟨.punctuator, "\x7b", 23⟩,
      ⟨.keyword .kwCase, "case", 24⟩, ⟨.blank, " ", 28⟩, ⟨.identifier, "x", 29⟩,
      ⟨.punctuator, ":", 30⟩, ⟨.identifier, "l", 31⟩, ⟨.punctuator, ":", 32⟩,
      ⟨.identifier, "g", 33⟩, ⟨.punctuator, "(", 34⟩, ⟨.identifier, "x", 35⟩,
      ⟨.punctuator, "?", 36⟩, ⟨.punctuator, "-", 37⟩, ⟨.identifier, "x", 38⟩,
      ⟨.punctuator, ":", 39⟩, ⟨.identifier, "y", 40⟩, ⟨.punctuator, ")", 41⟩,
      ⟨.punctuator, ";", 42⟩, ⟨.keyword .kwDefault, "default", 43⟩, ⟨.punctuator, ":", 50⟩,
      ⟨.identifier, "x", 51⟩, ⟨.punctuator, ";", 52⟩, ⟨.punctuator, "\x7d", 53⟩,
      ⟨.punctuator, "\x7d", 54⟩]
    let p : CaseProgram := ⟨[⟨"f", ["x"], [.switch (.name "x") [
      .case ⟨.name "x", rfl⟩ [.label "l" (.use (.call (.name "g") [.cond (.name "x")
        (.unary ⟨.punct "-", by decide⟩ (.name "x")) (.name "y")]))],
      .default [.use (.name "x")]]]⟩]⟩
    tokenize "function f(x)\x7bswitch(x)\x7bcase x:l:g(x?-x:y);default:x;\x7d\x7d" = .ok tokens ∧
      p.SpelledBy tokens ∧ p.testsGuarded = true ∧
      ∃ tree, ScopeTree.ofTokens tokens = .ok tree ∧
        tree.occurrences.map Occurrence.token = p.nameTokens tokens := by
  intro tokens p
  have htokens : tokenize "function f(x)\x7bswitch(x)\x7bcase x:l:g(x?-x:y);default:x;\x7d\x7d"
      = .ok tokens := by
    rw [tokenize, tokens_eq_runFor]
    decide +kernel
  have hspelled : p.SpelledBy tokens := by
    unfold CaseProgram.SpelledBy
    decide +kernel
  have hguarded : p.testsGuarded = true := by decide +kernel
  obtain ⟨tree, htree, hrecorded⟩ := occurrences_in_cases p tokens hspelled
  exact ⟨htokens, hspelled, hguarded, tree, htree, hrecorded.mpr hguarded⟩

set_option maxRecDepth 20000 in
/-- A test that ends with a name, with more before it: the name is taken for a label. -/
theorem test_name_unrecorded :
    let tokens : List Token := [
      ⟨.keyword .kwFunction, "function", 0⟩, ⟨.blank, " ", 8⟩, ⟨.identifier, "f", 9⟩,
      ⟨.punctuator, "(", 10⟩, ⟨.identifier, "x", 11⟩, ⟨.punctuator, ")", 12⟩,
      ⟨.punctuator, "\x7b", 13⟩, ⟨.keyword .kwSwitch, "switch", 14⟩, ⟨.punctuator, "(", 20⟩,
      ⟨.identifier, "x", 21⟩, ⟨.punctuator, ")", 22⟩, ⟨.punctuator, "\x7b", 23⟩,
      ⟨.keyword .kwCase, "case", 24⟩, ⟨.punctuator, "-", 28⟩, ⟨.identifier, "x", 29⟩,
      ⟨.punctuator, ":", 30⟩, ⟨.punctuator, "\x7d", 31⟩, ⟨.punctuator, "\x7d", 32⟩]
    let p : CaseProgram := ⟨[⟨"f", ["x"], [.switch (.name "x") [
      .case ⟨.unary ⟨.punct "-", by decide⟩ (.name "x"), rfl⟩ []]]⟩]⟩
    tokenize "function f(x)\x7bswitch(x)\x7bcase-x:\x7d\x7d" = .ok tokens ∧
      p.SpelledBy tokens ∧ p.nameTokens tokens = [2, 4, 9, 14] ∧
      ∃ tree, ScopeTree.ofTokens tokens = .ok tree ∧
        tree.occurrences.map Occurrence.token = [2, 4, 9] := by
  intro tokens p
  have htokens : tokenize "function f(x)\x7bswitch(x)\x7bcase-x:\x7d\x7d" = .ok tokens := by
    rw [tokenize, tokens_eq_runFor]
    decide +kernel
  have hspelled : p.SpelledBy tokens := by
    unfold CaseProgram.SpelledBy
    decide +kernel
  have hnames : p.nameTokens tokens = [2, 4, 9, 14] := by decide +kernel
  refine ⟨htokens, hspelled, hnames, ⟨#[⟨none, .global, ["f"], false⟩,
      ⟨some 0, .function, ["x"], false⟩, ⟨some 1, .block, [], false⟩], #[[1], [2], []],
    [⟨2, "f", 0, false⟩, ⟨4, "x", 1, false⟩, ⟨9, "x", 1, false⟩]⟩, by cbv, by cbv⟩

end Minify
