import Minify.Proofs.FunctionReading

/-!
Functions with labels and with `switch` statements, and which of their words name variables.

A colon stands after a label, after the test of a `case`, after `default` and in a conditional. The
names of variables are marked in the words of the tree twice: as the tree has them, and without the
last name of each test that does not stand right after `case`.
-/

namespace Minify

def ArrowFree := { e : Expr // e.scopes = 0 }

mutual

/-- Statements with labels and cases. -/
inductive CaseStmt where
  /-- `e;` -/
  | use (e : Expr)
  /-- `l: body` -/
  | label (l : String) (body : CaseStmt)
  /-- `switch (e) { clauses }` -/
  | switch (e : Expr) (clauses : List Clause)

inductive Clause where
  /-- `case e: body` -/
  | case (e : ArrowFree) (body : List CaseStmt)
  /-- `default: body` -/
  | default (body : List CaseStmt)

end

namespace MarkedWord

def shape (p : MarkedWord) : Word × Bool := (p.word, p.beforeArrow)

def forgetLast : List MarkedWord → List MarkedWord
  | [] => []
  | [p] => [{ p with names := false }]
  | p :: q :: ps => p :: forgetLast (q :: ps)

lemma map_shape_forgetLast (ps : List MarkedWord) : (forgetLast ps).map shape = ps.map shape := by
  induction ps using forgetLast.induct with
  | case1 => rfl
  | case2 p => rfl
  | case3 p q ps ih =>
    rw [forgetLast, List.map_cons, ih, List.map_cons, List.map_cons, List.map_cons]

end MarkedWord

namespace Expr

def losesName : Expr → Bool
  | name _ => false
  | e => e.endsInName

/-- The words of a test before its colon. Its last name is not taken for one, unless it stands right
after `case`. -/
def recorded (e : Expr) : List MarkedWord :=
  if e.losesName then MarkedWord.forgetLast e.pieces else e.pieces

lemma map_shape_recorded (e : Expr) :
    e.recorded.map MarkedWord.shape = e.pieces.map MarkedWord.shape := by
  unfold recorded
  split
  · exact MarkedWord.map_shape_forgetLast e.pieces
  · rfl

end Expr

section

-- the words of the tests
variable (test : Expr → List MarkedWord)

mutual

def CaseStmt.pieces : CaseStmt → List MarkedWord
  | .use e => e.pieces ++ [.punct ";"]
  | .label l body => .other (.name l) :: .punct ":" :: body.pieces
  | .switch e clauses => .other (.keyword .kwSwitch "switch") :: .punct "(" ::
      (e.pieces ++ .punct ")" :: .punct "\x7b" :: (Clause.listPieces clauses ++ [.punct "\x7d"]))

def CaseStmt.listPieces : List CaseStmt → List MarkedWord
  | [] => []
  | s :: rest => s.pieces ++ CaseStmt.listPieces rest

def Clause.pieces : Clause → List MarkedWord
  | .case e body =>
    .other (.keyword .kwCase "case") :: (test e.1 ++ .punct ":" :: CaseStmt.listPieces body)
  | .default body =>
    .other (.keyword .kwDefault "default") :: .punct ":" :: CaseStmt.listPieces body

def Clause.listPieces : List Clause → List MarkedWord
  | [] => []
  | c :: rest => c.pieces ++ Clause.listPieces rest

end

end

mutual

/-- Each test that ends with a name is just that name. -/
def CaseStmt.testsGuarded : CaseStmt → Bool
  | .use _ => true
  | .label _ body => body.testsGuarded
  | .switch _ clauses => Clause.listTestsGuarded clauses

def CaseStmt.listTestsGuarded : List CaseStmt → Bool
  | [] => true
  | s :: rest => s.testsGuarded && CaseStmt.listTestsGuarded rest

def Clause.testsGuarded : Clause → Bool
  | .case e body => !e.1.losesName && CaseStmt.listTestsGuarded body
  | .default body => CaseStmt.listTestsGuarded body

def Clause.listTestsGuarded : List Clause → Bool
  | [] => true
  | c :: rest => c.testsGuarded && Clause.listTestsGuarded rest

end

/-- `function name(params) { body }` -/
structure CaseFunction where
  name : String
  params : List String
  body : List CaseStmt

/-- Functions, one after another. -/
structure CaseProgram where
  functions : List CaseFunction

section

variable (test : Expr → List MarkedWord)

def CaseFunction.pieces (f : CaseFunction) : List MarkedWord :=
  MarkedWord.function f.name f.params (CaseStmt.listPieces test f.body)

def CaseProgram.pieces (p : CaseProgram) : List MarkedWord :=
  p.functions.flatMap fun f => f.pieces test

end

def CaseProgram.testsGuarded (p : CaseProgram) : Bool :=
  p.functions.all fun f => CaseStmt.listTestsGuarded f.body

/-! ### The marks of names do not matter for the words -/

mutual

lemma CaseStmt.map_shape_pieces : ∀ s : CaseStmt,
    (s.pieces Expr.recorded).map MarkedWord.shape = (s.pieces Expr.pieces).map MarkedWord.shape
  | .use e => by simp [CaseStmt.pieces]
  | .label l body => by simp [CaseStmt.pieces, body.map_shape_pieces]
  | .switch e clauses => by simp [CaseStmt.pieces, Clause.map_shape_listPieces clauses]

lemma CaseStmt.map_shape_listPieces : ∀ l : List CaseStmt,
    (CaseStmt.listPieces Expr.recorded l).map MarkedWord.shape
      = (CaseStmt.listPieces Expr.pieces l).map MarkedWord.shape
  | [] => rfl
  | s :: rest => by
    simp [CaseStmt.listPieces, s.map_shape_pieces, CaseStmt.map_shape_listPieces rest]

lemma Clause.map_shape_pieces : ∀ c : Clause,
    (c.pieces Expr.recorded).map MarkedWord.shape = (c.pieces Expr.pieces).map MarkedWord.shape
  | .case e body => by
    simp [Clause.pieces, Expr.map_shape_recorded, CaseStmt.map_shape_listPieces body]
  | .default body => by simp [Clause.pieces, CaseStmt.map_shape_listPieces body]

lemma Clause.map_shape_listPieces : ∀ l : List Clause,
    (Clause.listPieces Expr.recorded l).map MarkedWord.shape
      = (Clause.listPieces Expr.pieces l).map MarkedWord.shape
  | [] => rfl
  | c :: rest => by
    simp [Clause.listPieces, c.map_shape_pieces, Clause.map_shape_listPieces rest]

end

lemma CaseProgram.map_shape_pieces (p : CaseProgram) :
    (p.pieces Expr.recorded).map MarkedWord.shape = (p.pieces Expr.pieces).map
      MarkedWord.shape := by
  unfold CaseProgram.pieces
  rw [List.map_flatMap, List.map_flatMap]
  refine List.flatMap_congr fun f _ => ?_
  simp [CaseFunction.pieces, MarkedWord.function, CaseStmt.map_shape_listPieces f.body]

lemma marked_congr {sites : List Site} {ps qs : List MarkedWord} (h : Marked sites ps)
    (hshape : ps.map MarkedWord.shape = qs.map MarkedWord.shape) : Marked sites qs := by
  induction h generalizing qs with
  | nil =>
    rw [List.map_nil, eq_comm, List.map_eq_nil_iff] at hshape
    rw [hshape]
    exact .nil
  | @cons site p sites ps hp _ ih =>
    obtain ⟨q, qs, rfl⟩ : ∃ q qs', qs = q :: qs' := by
      cases qs with
      | nil => cases hshape
      | cons q qs => exact ⟨q, qs, rfl⟩
    simp only [List.map_cons, List.cons.injEq, MarkedWord.shape, Prod.mk.injEq] at hshape
    exact .cons ⟨hshape.1.1 ▸ hp.word, hp.beforeArrow.trans hshape.1.2⟩ (ih hshape.2)

/-! ### Brackets -/

lemma CaseStmt.startsArrow_listPieces (l : List CaseStmt) :
    MarkedWord.startsArrow (CaseStmt.listPieces Expr.pieces l) = false := by
  rcases l with - | ⟨s, rest⟩
  · rfl
  · cases s with
    | use e =>
      rw [CaseStmt.listPieces, CaseStmt.pieces, List.append_assoc]
      exact e.startsArrow_pieces _
    | label l body => rfl
    | switch e clauses => rfl

lemma Clause.startsArrow_listPieces (l : List Clause) :
    MarkedWord.startsArrow (Clause.listPieces Expr.pieces l) = false := by
  rcases l with - | ⟨c, rest⟩
  · rfl
  · cases c <;> rfl

mutual

theorem CaseStmt.nested_pieces : ∀ s : CaseStmt, Nested (s.pieces Expr.pieces)
  | .use e => e.nested_pieces.append (.plain rfl .nil) rfl
  | .label _ body => .plain rfl (.plain rfl body.nested_pieces)
  | .switch e clauses => .plain rfl (.group (a := "(") (b := ")") (by simp) rfl rfl rfl rfl
      e.nested_pieces (.braces (Clause.nested_listPieces clauses)) rfl)

theorem CaseStmt.nested_listPieces : ∀ l : List CaseStmt, Nested (CaseStmt.listPieces Expr.pieces l)
  | [] => .nil
  | s :: rest => s.nested_pieces.append (CaseStmt.nested_listPieces rest)
      (CaseStmt.startsArrow_listPieces rest)

theorem Clause.nested_pieces : ∀ c : Clause, Nested (c.pieces Expr.pieces)
  | .case e body => .plain rfl (e.1.nested_pieces.append
      (.plain rfl (CaseStmt.nested_listPieces body)) rfl)
  | .default body => .plain rfl (.plain rfl (CaseStmt.nested_listPieces body))

theorem Clause.nested_listPieces : ∀ l : List Clause, Nested (Clause.listPieces Expr.pieces l)
  | [] => .nil
  | c :: rest => c.nested_pieces.append (Clause.nested_listPieces rest)
      (Clause.startsArrow_listPieces rest)

end

theorem CaseProgram.nested_pieces (p : CaseProgram) : Nested (p.pieces Expr.pieces) := by
  unfold CaseProgram.pieces
  induction p.functions with
  | nil => exact .nil
  | cons f rest ih =>
    have hf : Nested (f.pieces Expr.pieces) :=
      MarkedWord.nested_function f.name f.params (CaseStmt.nested_listPieces f.body)
    refine hf.append ih ?_
    cases rest <;> rfl

/-! ### What is not recorded -/

/-- The names are the same, or some are missing. -/
def Misses (ps qs : List MarkedWord) (none : Bool) : Prop :=
  none = true ∧ ps = qs ∨ none = false ∧ ps.countP MarkedWord.names < qs.countP MarkedWord.names

lemma Misses.refl (ps : List MarkedWord) : Misses ps ps true := .inl ⟨rfl, rfl⟩

lemma Misses.append {ps qs ps' qs' : List MarkedWord} {a b : Bool} (h : Misses ps qs a)
    (h' : Misses ps' qs' b) : Misses (ps ++ ps') (qs ++ qs') (a && b) := by
  unfold Misses
  rw [List.countP_append, List.countP_append]
  rcases h with ⟨rfl, rfl⟩ | ⟨rfl, h⟩ <;> rcases h' with ⟨rfl, rfl⟩ | ⟨rfl, h'⟩
  · exact .inl ⟨rfl, rfl⟩
  · exact .inr ⟨rfl, by omega⟩
  · exact .inr ⟨rfl, by omega⟩
  · exact .inr ⟨rfl, by omega⟩

lemma Misses.cons {ps qs : List MarkedWord} {a : Bool} (p : MarkedWord) (h : Misses ps qs a) :
    Misses (p :: ps) (p :: qs) a :=
  (Misses.refl [p]).append h

lemma Misses.inside {ps qs : List MarkedWord} {a : Bool} (h : Misses ps qs a)
    (rest : List MarkedWord) :
    Misses (ps ++ rest) (qs ++ rest) a := by
  have happend := h.append (Misses.refl rest)
  rwa [Bool.and_true] at happend

namespace MarkedWord

lemma forgetLast_append (ps : List MarkedWord) (p : MarkedWord) :
    forgetLast (ps ++ [p]) = ps ++ [{ p with names := false }] := by
  induction ps with
  | nil => rfl
  | cons q ps ih =>
    cases ps with
    | nil => rfl
    | cons r ps => exact congrArg (q :: ·) ih

/-- Of the sites that name variables the last one is missing. -/
lemma named_forgetLast {sites : List Site} {ps : List MarkedWord} {p : MarkedWord}
    (hp : p.names = true)
    (h : Marked sites (ps ++ [p])) :
    named sites (forgetLast (ps ++ [p])) = (named sites (ps ++ [p])).dropLast := by
  obtain ⟨xs, ys, rfl, hxs, hys⟩ := marked_append h
  obtain ⟨site, rest, -, hrest, rfl⟩ := List.forall₂_cons_right_iff.mp hys
  cases hrest
  rw [forgetLast_append, named_append hxs, named_append hxs]
  simp [named, hp]

end MarkedWord

lemma Expr.misses_recorded (e : Expr) : Misses e.recorded e.pieces (!e.losesName) := by
  unfold Expr.recorded
  split
  · rename_i hloses
    have hends : e.endsInName = true := by
      cases e with
      | name => cases hloses
      | _ => exact hloses
    obtain ⟨ps, p, hpieces, hnames⟩ := Expr.exists_last_name hends
    refine .inr ⟨by rw [hloses]; rfl, ?_⟩
    rw [hpieces, MarkedWord.forgetLast_append, List.countP_append, List.countP_append]
    simp [hnames]
  · rename_i hkeeps
    exact .inl ⟨by simpa using hkeeps, rfl⟩

mutual

lemma CaseStmt.misses : ∀ s : CaseStmt,
    Misses (s.pieces Expr.recorded) (s.pieces Expr.pieces) s.testsGuarded
  | .use _ => .refl _
  | .label _ body => body.misses.cons _ |>.cons _
  | .switch _ clauses => (((Clause.list_misses clauses).inside _).cons _ |>.cons _ |>
      (Misses.refl _).append).cons _ |>.cons _

lemma CaseStmt.list_misses : ∀ l : List CaseStmt,
    Misses (CaseStmt.listPieces Expr.recorded l) (CaseStmt.listPieces Expr.pieces l)
      (CaseStmt.listTestsGuarded l)
  | [] => .refl _
  | s :: rest => s.misses.append (CaseStmt.list_misses rest)

lemma Clause.misses : ∀ c : Clause,
    Misses (c.pieces Expr.recorded) (c.pieces Expr.pieces) c.testsGuarded
  | .case e body => (e.1.misses_recorded.append ((CaseStmt.list_misses body).cons _)).cons _
  | .default body => (CaseStmt.list_misses body).cons _ |>.cons _

lemma Clause.list_misses : ∀ l : List Clause,
    Misses (Clause.listPieces Expr.recorded l) (Clause.listPieces Expr.pieces l)
      (Clause.listTestsGuarded l)
  | [] => .refl _
  | c :: rest => c.misses.append (Clause.list_misses rest)

end

lemma CaseProgram.misses (p : CaseProgram) :
    Misses (p.pieces Expr.recorded) (p.pieces Expr.pieces) p.testsGuarded := by
  unfold CaseProgram.pieces CaseProgram.testsGuarded
  induction p.functions with
  | nil => exact .refl _
  | cons f rest ih =>
    have hbody := CaseStmt.list_misses f.body
    have hf : Misses (f.pieces Expr.recorded) (f.pieces Expr.pieces)
        (CaseStmt.listTestsGuarded f.body) :=
      (((hbody.inside _).cons _ |>.cons _ |> (Misses.refl _).append).cons _ |>.cons _).cons _
    exact hf.append ih

end Minify
