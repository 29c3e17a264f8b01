import Mathlib
import Minify.Proofs.FunctionReading
import Minify.Proofs.LoopFunction

/-!
A function that returns an expression with arrows.

Each name refers to what the expression says if, and only if, no conditional has an arrow before its
colon whose parameter is used after it: the colon does not end the body of the arrow.
-/

namespace Minify

namespace Expr

/-! ### Names by the words and by the tree -/

/-- All that names refer to has a smaller number. -/
def Fresh (sees : String → Option ScopeId) (n : ScopeId) : Prop :=
  ∀ x m, sees x = some m → m < n

lemma Fresh.mono {sees : String → Option ScopeId} {n k : ScopeId} (h : Fresh sees n) (hk : n ≤ k) :
    Fresh sees k :=
  fun x m hx => Nat.lt_of_lt_of_le (h x m hx) hk

lemma Fresh.inside {sees : String → Option ScopeId} {n : ScopeId} (h : Fresh sees n)
    (params : List String) : Fresh (inside params n sees) (n + 1) := by
  intro x m hx
  unfold Expr.inside at hx
  split at hx
  · cases hx
    exact Nat.lt_succ_self n
  · exact Nat.lt_succ_of_lt (h x m hx)

mutual

lemma length_reads (sees sees' : String → Option ScopeId) (n n' : ScopeId) :
    ∀ e : Expr, (e.reads sees n).length = (e.refers sees' n').length
  | name _ => rfl
  | paren e => length_reads sees sees' n n' e
  | call f args => by
    simp only [reads, refers, List.length_append]
    rw [length_reads sees sees' n n' f, length_listReads _ sees' _ (n' + f.scopes) args]
  | array items => length_listReads sees sees' n n' items
  | cond test yes no => by
    simp only [reads, refers, List.length_append]
    rw [length_reads sees sees' n n' test, length_reads _ sees' _ (n' + test.scopes) yes,
      length_reads _ sees' _ (n' + test.scopes + yes.scopes) no]
  | arrow x body => by
    simp only [reads, refers, List.length_cons]
    rw [length_reads _ (inside [x] n' sees') _ (n' + 1) body]
  | arrows params body => by
    simp only [reads, refers, List.length_append, List.length_map]
    rw [length_reads _ (inside params n' sees') _ (n' + 1) body]
  | unary _ e => length_reads sees sees' n n' e
  | update e _ => length_reads sees sees' n n' e
  | binary _ l r => by
    simp only [reads, refers, List.length_append]
    rw [length_reads sees sees' n n' l, length_reads _ sees' _ (n' + l.scopes) r]
  | member e _ _ => length_reads sees sees' n n' e
  | index e i => by
    simp only [reads, refers, List.length_append]
    rw [length_reads sees sees' n n' e, length_reads _ sees' _ (n' + e.scopes) i]

lemma length_listReads (sees sees' : String → Option ScopeId) (n n' : ScopeId) :
    ∀ l : List Expr, (listReads sees n l).length = (listRefers sees' n' l).length
  | [] => rfl
  | e :: rest => by
    simp only [listReads, listRefers, List.length_append]
    rw [length_reads sees sees' n n' e, length_listReads _ sees' _ (n' + e.scopes) rest]

end

/-- After an operand names refer to what they did before it. -/
lemma after_of_operand {sees : String → Option ScopeId} {n : ScopeId} :
    ∀ {e : Expr}, e.isOperand = true → e.parenthesised = true → e.after sees n = sees
  | name _, _, _ => rfl
  | paren _, _, _ => rfl
  | call f _, _, h => by
    simp only [parenthesised, Bool.and_eq_true] at h
    exact after_of_operand (e := f) h.1.1 h.1.2
  | array _, _, _ => rfl
  | unary _ e, _, h => by
    simp only [parenthesised, Bool.and_eq_true] at h
    exact after_of_operand (e := e) h.1 h.2
  | update e _, _, h => by
    simp only [parenthesised, Bool.and_eq_true] at h
    exact after_of_operand (e := e) h.1 h.2
  | binary _ l r, _, h => by
    simp only [parenthesised, Bool.and_eq_true] at h
    rw [after, after_of_operand h.1.1.1 h.1.2]
    exact after_of_operand h.1.1.2 h.2
  | member e _ _, _, h => by
    simp only [parenthesised, Bool.and_eq_true] at h
    exact after_of_operand (e := e) h.1 h.2
  | index e _, _, h => by
    simp only [parenthesised, Bool.and_eq_true] at h
    exact after_of_operand (e := e) h.1.1 h.1.2

/-- After an expression the parameters of its open arrows refer to new scopes, and all other names
to what they did before it. -/
structure Follows (sees after : String → Option ScopeId) (n : ScopeId) (trailing : List String) :
    Prop where
  same : ∀ x ∉ trailing, after x = sees x
  new : ∀ x ∈ trailing, ∃ m, n ≤ m ∧ after x = some m

lemma Follows.inside {sees after : String → Option ScopeId} {n : ScopeId} {trailing : List String}
    (params : List String) (h : Follows (inside params n sees) after (n + 1) trailing) :
    Follows sees after n (params ++ trailing) := by
  refine ⟨fun x hx => ?_, fun x hx => ?_⟩
  · rw [List.mem_append, not_or] at hx
    rw [h.same x hx.2, Expr.inside, if_neg hx.1]
  · by_cases ht : x ∈ trailing
    · obtain ⟨m, hm, hafter⟩ := h.new x ht
      exact ⟨m, Nat.le_of_succ_le hm, hafter⟩
    · have hparam : x ∈ params := (List.mem_append.mp hx).resolve_right ht
      exact ⟨n, Nat.le_refl n, by rw [h.same x ht, Expr.inside, if_pos hparam]⟩

lemma Follows.trans {sees after after' : String → Option ScopeId} {n k : ScopeId}
    {trailing trailing' : List String} (h : Follows sees after n trailing)
    (h' : Follows after after' k trailing') (hk : n ≤ k) :
    Follows sees after' n (trailing ++ trailing') := by
  refine ⟨fun x hx => ?_, fun x hx => ?_⟩
  · rw [List.mem_append, not_or] at hx
    rw [h'.same x hx.2, h.same x hx.1]
  · by_cases ht : x ∈ trailing'
    · obtain ⟨m, hm, hafter⟩ := h'.new x ht
      exact ⟨m, Nat.le_trans hk hm, hafter⟩
    · obtain ⟨m, hm, hafter⟩ := h.new x ((List.mem_append.mp hx).resolve_right ht)
      exact ⟨m, hm, (h'.same x ht).trans hafter⟩

lemma follows_after (sees : String → Option ScopeId) (n : ScopeId) :
    ∀ e : Expr, e.parenthesised = true → Follows sees (e.after sees n) n e.trailing
  | cond test yes no, h => by
    simp only [parenthesised, Bool.and_eq_true] at h
    obtain ⟨⟨⟨hoperand, htest⟩, hyes⟩, hno⟩ := h
    rw [after, after_of_operand hoperand htest]
    have hfirst := follows_after sees (n + test.scopes) yes hyes
    have hsecond :=
      follows_after (yes.after sees (n + test.scopes)) (n + test.scopes + yes.scopes) no hno
    have hboth := hfirst.trans hsecond (Nat.le_add_right _ _)
    exact ⟨hboth.same, fun x hx =>
      (hboth.new x hx).imp fun m hm => ⟨Nat.le_trans (Nat.le_add_right _ _) hm.1, hm.2⟩⟩
  | arrow x body, h => (follows_after (inside [x] n sees) (n + 1) body h).inside [x]
  | arrows params body, h => (follows_after (inside params n sees) (n + 1) body h).inside params
  | name _, _ => ⟨fun _ _ => rfl, nofun⟩
  | paren _, _ => ⟨fun _ _ => rfl, nofun⟩
  | array _, _ => ⟨fun _ _ => rfl, nofun⟩
  | call f args, h => ⟨fun x _ => congrFun (after_of_operand (e := call f args) rfl h) x, nofun⟩
  | unary op e, h => ⟨fun x _ => congrFun (after_of_operand (e := unary op e) rfl h) x, nofun⟩
  | update e op, h => ⟨fun x _ => congrFun (after_of_operand (e := update e op) rfl h) x, nofun⟩
  | binary op l r, h => ⟨fun x _ => congrFun (after_of_operand (e := binary op l r) rfl h) x, nofun⟩
  | member e dot x, h =>
    ⟨fun y _ => congrFun (after_of_operand (e := member e dot x) rfl h) y, nofun⟩
  | index e i, h => ⟨fun x _ => congrFun (after_of_operand (e := index e i) rfl h) x, nofun⟩

/-- What follows refers to the same names just if it uses no parameter of an open arrow. -/
lemma Follows.agree_iff {sees sees' after : String → Option ScopeId} {n : ScopeId}
    {trailing free : List String} (h : Follows sees' after n trailing) (hfresh : Fresh sees n) :
    (∀ x ∈ free, after x = sees x) ↔
      (∀ x ∈ free, sees' x = sees x) ∧ (trailing.all fun x => x ∉ free) = true := by
  simp only [List.all_eq_true, decide_eq_true_eq]
  constructor
  · intro hagree
    have hapart : ∀ x ∈ trailing, x ∉ free := by
      intro x hx hfree
      obtain ⟨m, hm, hafter⟩ := h.new x hx
      rw [hagree x hfree] at hafter
      exact absurd (hfresh x m hafter) (Nat.not_lt.mpr hm)
    refine ⟨fun x hx => ?_, hapart⟩
    rw [← h.same x fun ht => hapart x ht hx, hagree x hx]
  · rintro ⟨hagree, hapart⟩ x hx
    rw [h.same x fun ht => hapart x ht hx, hagree x hx]

lemma append_eq_append_iff_of_length {α : Type} {a b c d : List α} (h : a.length = c.length) :
    a ++ b = c ++ d ↔ a = c ∧ b = d :=
  ⟨fun he => List.append_inj he h, fun ⟨ha, hb⟩ => ha ▸ hb ▸ rfl⟩

/-- Inside an arrow all names agree just if those that are no parameters do around it. -/
lemma inside_agree_iff {sees sees' : String → Option ScopeId} {n : ScopeId}
    {params free : List String} :
    (∀ x ∈ free, inside params n sees' x = inside params n sees x) ↔
      ∀ x ∈ free.filter (· ∉ params), sees' x = sees x := by
  simp only [List.mem_filter, decide_eq_true_eq, inside]
  constructor
  · rintro h x ⟨hfree, hparam⟩
    have hx := h x hfree
    rwa [if_neg hparam, if_neg hparam] at hx
  · intro h x hfree
    by_cases hparam : x ∈ params
    · rw [if_pos hparam, if_pos hparam]
    · rw [if_neg hparam, if_neg hparam, h x ⟨hfree, hparam⟩]

mutual

/-- **The words say what the tree says** just if the branches of all conditionals are apart, and the
names that are free refer to the same around the expression. -/
theorem reads_eq_refers_iff {sees sees' : String → Option ScopeId} {n : ScopeId} :
    ∀ e : Expr, e.parenthesised = true → Fresh sees n →
      (e.reads sees' n = e.refers sees n ↔
        (∀ x ∈ e.free, sees' x = sees x) ∧ e.branchesApart = true)
  | name x, _, _ => by simp [reads, refers, free, branchesApart]
  | paren e, h, hfresh => reads_eq_refers_iff e h hfresh
  | call f args, h, hfresh => by
    simp only [parenthesised, Bool.and_eq_true] at h
    simp only [reads, refers, free, branchesApart, Bool.and_eq_true, List.forall_mem_append]
    rw [append_eq_append_iff_of_length (length_reads ..), after_of_operand h.1.1 h.1.2,
      reads_eq_refers_iff f h.1.2 hfresh,
      listReads_eq_listRefers_iff args h.2 (hfresh.mono (Nat.le_add_right _ _))]
    tauto
  | array items, h, hfresh => listReads_eq_listRefers_iff items h hfresh
  | cond test yes no, h, hfresh => by
    simp only [parenthesised, Bool.and_eq_true] at h
    obtain ⟨⟨⟨hoperand, htest⟩, hyes⟩, hno⟩ := h
    have hyesFresh := hfresh.mono (Nat.le_add_right n test.scopes)
    have hnoFresh := hyesFresh.mono (Nat.le_add_right _ yes.scopes)
    simp only [reads, refers, free, branchesApart, Bool.and_eq_true, List.forall_mem_append]
    rw [append_eq_append_iff_of_length (length_reads ..),
      append_eq_append_iff_of_length (length_reads ..), after_of_operand hoperand htest,
      reads_eq_refers_iff test htest hfresh, reads_eq_refers_iff yes hyes hyesFresh,
      reads_eq_refers_iff no hno hnoFresh, (follows_after sees' _ yes hyes).agree_iff hyesFresh]
    tauto
  | arrow x body, h, hfresh => by
    simp only [reads, refers, free, branchesApart, List.cons.injEq, true_and]
    rw [reads_eq_refers_iff body h (hfresh.inside [x]), inside_agree_iff]
  | arrows params body, h, hfresh => by
    simp only [reads, refers, free, branchesApart, List.append_cancel_left_eq]
    rw [reads_eq_refers_iff body h (hfresh.inside params), inside_agree_iff]
  | unary _ e, h, hfresh => by
    simp only [parenthesised, Bool.and_eq_true] at h
    exact reads_eq_refers_iff e h.2 hfresh
  | update e _, h, hfresh => by
    simp only [parenthesised, Bool.and_eq_true] at h
    exact reads_eq_refers_iff e h.2 hfresh
  | binary _ l r, h, hfresh => by
    simp only [parenthesised, Bool.and_eq_true] at h
    simp only [reads, refers, free, branchesApart, Bool.and_eq_true, List.forall_mem_append]
    rw [append_eq_append_iff_of_length (length_reads ..), after_of_operand h.1.1.1 h.1.2,
      reads_eq_refers_iff l h.1.2 hfresh,
      reads_eq_refers_iff r h.2 (hfresh.mono (Nat.le_add_right _ _))]
    tauto
  | member e _ _, h, hfresh => by
    simp only [parenthesised, Bool.and_eq_true] at h
    exact reads_eq_refers_iff e h.2 hfresh
  | index e i, h, hfresh => by
    simp only [parenthesised, Bool.and_eq_true] at h
    simp only [reads, refers, free, branchesApart, Bool.and_eq_true, List.forall_mem_append]
    rw [append_eq_append_iff_of_length (length_reads ..), after_of_operand h.1.1 h.1.2,
      reads_eq_refers_iff e h.1.2 hfresh,
      reads_eq_refers_iff i h.2 (hfresh.mono (Nat.le_add_right _ _))]
    tauto

theorem listReads_eq_listRefers_iff {sees sees' : String → Option ScopeId} {n : ScopeId} :
    ∀ l : List Expr, listParenthesised l = true → Fresh sees n →
      (listReads sees' n l = listRefers sees n l ↔
        (∀ x ∈ listFree l, sees' x = sees x) ∧ listBranchesApart l = true)
  | [], _, _ => by simp [listReads, listRefers, listFree, listBranchesApart]
  | e :: rest, h, hfresh => by
    simp only [listParenthesised, Bool.and_eq_true] at h
    simp only [listReads, listRefers, listFree, listBranchesApart, Bool.and_eq_true,
      List.forall_mem_append]
    rw [append_eq_append_iff_of_length (length_reads ..), reads_eq_refers_iff e h.1 hfresh,
      listReads_eq_listRefers_iff rest h.2 (hfresh.mono (Nat.le_add_right _ _))]
    tauto

end

end Expr

/-- `function name(params) { return result; }` -/
structure ArrowProgram where
  name : String
  params : List String
  result : Expr

namespace ArrowProgram

open Tracker

variable {p : ArrowProgram} {tokens : List Token}

/-- The expression begins on the line of `return`. -/
def body (p : ArrowProgram) : List MarkedWord :=
  .other (.keyword .kwReturn "return") :: (p.result.pieces.modifyHead MarkedWord.stay
    ++ [.punct ";"])

def pieces (p : ArrowProgram) : List MarkedWord := MarkedWord.function p.name p.params p.body

/-- Outside of the arrows a name refers to the parameter, if it is one, and to the function itself
if it is the function's. -/
def sees (p : ArrowProgram) (x : String) : Option ScopeId :=
  if x ∈ p.params then some 1 else if x = p.name then some ScopeTree.global else none

/-- The names of the function in their order, each with the scope it refers to: the innermost arrow
around it that has it as a parameter, otherwise what it refers to in the function. -/
def refers (p : ArrowProgram) : List (String × Option ScopeId) :=
  (p.name, some ScopeTree.global) ::
    (p.params.map (fun x => (x, some 1)) ++ p.result.refers p.sees 2)

/-- The same when the bodies of arrows go on until a comma or a bracket ends them. -/
def reads (p : ArrowProgram) : List (String × Option ScopeId) :=
  (p.name, some ScopeTree.global) ::
    (p.params.map (fun x => (x, some 1)) ++ p.result.reads p.sees 2)

/-- A token list whose tokens, but for blanks, comments and line ends, are those of the function. -/
def SpelledBy (p : ArrowProgram) (tokens : List Token) : Prop :=
  Spells (Site.ofTokens tokens) (p.pieces.map MarkedWord.word)

lemma nested_pieces (p : ArrowProgram) : Nested p.pieces :=
  MarkedWord.nested_function p.name p.params (.plain rfl
    (p.result.nested_pieces.stay.append (.plain rfl .nil) rfl))

/-- `return result;` -/
lemma reads_body {s : Tracker} {sees : String → Option ScopeId} {sites : List Site}
    (next : Option Token) (hs : Ready s) (hopening : Opening s.before) (hb : s.openBodies = [])
    (hclosed : s.closedHeader = false) (hsees : Sees s s.current sees)
    (hsites : Marked sites p.body) :
    Back s (s.readAll next sites) ∧ Adds s (s.readAll next sites) p.result.scopes
      (p.result.reads sees s.scopes.size) := by
  obtain ⟨q, rest, hq, hrest, rfl⟩ := List.forall₂_cons_right_iff.mp hsites
  obtain ⟨xs, c, rfl, hxs, hc⟩ := marked_last hrest
  obtain ⟨hmarked, hline⟩ := marked_stay hxs
  have hout : ∀ b ∈ s.openBodies, b.depth < s.depth := by rw [hb]; exact nofun
  have hfree := hs.free fun b hmem => Nat.le_of_lt (hout b hmem)
  have hclear := hopening.clear
  -- `return`
  have hkeyword : q.token.kind = .keyword .kwReturn := hq.word.kind
  have hstep (n : Option Token) : s.step q n = s.passed q :=
    step_keyword (by simp) hfree hclear.dot hclear.hash (hs.calm hout) hkeyword
  have hready : Ready (s.passed q) := hs.of_eq rfl
  have hafter : Clear (q :: s.before) :=
    clear_keyword hclear.dot hkeyword ⟨rfl, by decide⟩
  -- the expression and the semicolon
  obtain ⟨hcolon, harrow⟩ := nextIs_of_closing hc.word (by simp)
  have hread := Readable.complete (s := s.passed q) (readable p.result) (some c.token)
    ⟨hready.free fun b hmem => Nat.le_of_lt (hout b hmem), hafter,
      ⟨hsees.lt, hsees.refersTo⟩, hmarked,
      fun x hx => calm_of_line (hline x hx)⟩ harrow fun h => by rw [hcolon] at h; cases h
  have hend := hread.semicolon next hready hout hc.word
  rw [readAll, hstep, readAll_append]
  change Back s (((s.passed q).readAll (some c.token) xs).step c next) ∧
    Adds s (((s.passed q).readAll (some c.token) xs).step c next) _ _
  have hadds : Adds s ((s.passed q).readAll (some c.token) xs) p.result.scopes
      (p.result.reads sees s.scopes.size) := hread.adds.of_start rfl rfl
  rw [hend]
  refine ⟨?_, hadds.congr rfl rfl⟩
  unfold Back
  change ({ s with
    scopes := _, inside := _, occurrences := _, colonValue := _, closedHeader := false
    before := _ } : Tracker) = _
  rw [← hclosed]

lemma SpelledBy.run (h : p.SpelledBy tokens) :
    (start.run (Site.ofTokens tokens)).occurrences.reverse.map (fun o =>
      (o.name, (start.run (Site.ofTokens tokens)).refersTo o.name o.scope)) = p.reads := by
  rw [run_eq_readAll]
  refine found_function p.result.scopes (p.nested_pieces.marked_ofTokens h)
    fun {t inner c} ht hinner _ => ?_
  have hbody := reads_body (some c.token) ht.ready ht.opening ht.openBodies ht.closed ht.sees hinner
  rw [ht.size] at hbody
  exact hbody

end ArrowProgram

/-- **Names among arrows refer to what the expression says** just if nothing after the colon of a
conditional has the name of a parameter of an arrow whose body goes on up to the colon. -/
theorem found_among_arrows (p : ArrowProgram) (tokens : List Token) (h : p.SpelledBy tokens)
    (hparens : p.result.parenthesised = true) :
    ∃ tree, ScopeTree.ofTokens tokens = .ok tree ∧
      (tree.found = p.refers ↔ p.result.branchesApart = true) := by
  refine ⟨_, ScopeTree.ofTokens_of_check (p.nested_pieces.check h), ?_⟩
  have hfresh : Expr.Fresh p.sees 2 := by
    intro x m hx
    unfold ArrowProgram.sees at hx
    split at hx
    · cases hx
      exact Nat.one_lt_two
    · split at hx
      · cases hx
        exact Nat.two_pos
      · cases hx
  have hiff : p.result.reads p.sees 2 = p.result.refers p.sees 2 ↔
      (∀ x ∈ p.result.free, p.sees x = p.sees x) ∧ p.result.branchesApart = true :=
    Expr.reads_eq_refers_iff p.result hparens hfresh
  have hfound : (Tracker.start.run (Site.ofTokens tokens)).tree.found = p.reads := h.run
  rw [hfound, ArrowProgram.reads, ArrowProgram.refers, List.cons_inj_right,
    List.append_cancel_left_eq, hiff]
  simp

set_option maxRecDepth 20000 in
/-- An arrow in the items of an array, with a conditional as its body. -/
theorem found_among_arrows_in_array :
    let tokens : List Token := [
      ⟨.keyword .kwFunction, "function", 0⟩, ⟨.blank, " ", 8⟩, ⟨.identifier, "f", 9⟩,
      ⟨.punctuator, "(", 10⟩, ⟨.identifier, "a", 11⟩, ⟨.punctuator, ")", 12⟩,
      ⟨.punctuator, "\x7b", 13⟩, ⟨.keyword .kwReturn, "return", 14⟩, ⟨.blank, " ", 20⟩,
      ⟨.identifier, "x", 21⟩, ⟨.punctuator, "=>", 22⟩, ⟨.punctuator, "[", 24⟩,
      ⟨.identifier, "a", 25⟩, ⟨.punctuator, ",", 26⟩, ⟨.punctuator, "(", 27⟩,
      ⟨.identifier, "b", 28⟩, ⟨.punctuator, ")", 29⟩, ⟨.punctuator, "=>", 30⟩,
      ⟨.identifier, "b", 32⟩, ⟨.punctuator, "?", 33⟩, ⟨.identifier, "x", 34⟩,
      ⟨.punctuator, ":", 35⟩, ⟨.identifier, "c", 36⟩, ⟨.punctuator, "]", 37⟩,
      ⟨.punctuator, ";", 38⟩, ⟨.punctuator, "\x7d", 39⟩]
    let p : ArrowProgram := ⟨"f", ["a"], .arrow "x" (.array [.name "a",
      .arrows ["b"] (.cond (.name "b") (.name "x") (.name "c"))])⟩
    tokenize "function f(a)\x7breturn x=>[a,(b)=>b?x:c];\x7d" = .ok tokens ∧
      p.SpelledBy tokens ∧ p.result.parenthesised = true ∧ p.result.branchesApart = true ∧
      ∃ tree, ScopeTree.ofTokens tokens = .ok tree ∧ tree.found = p.refers := by
  intro tokens p
  have htokens : tokenize "function f(a)\x7breturn x=>[a,(b)=>b?x:c];\x7d" = .ok tokens := by
    rw [tokenize, tokens_eq_runFor]
    decide +kernel
  have hspelled : p.SpelledBy tokens := by
    unfold ArrowProgram.SpelledBy
    decide +kernel
  have hparens : p.result.parenthesised = true := by decide +kernel
  have hapart : p.result.branchesApart = true := by decide +kernel
  obtain ⟨tree, htree, hfound⟩ := found_among_arrows p tokens hspelled hparens
  exact ⟨htokens, hspelled, hparens, hapart, tree, htree, hfound.mpr hapart⟩

set_option maxRecDepth 20000 in
/-- The colon of a conditional leaves the arrow before it open, so the name after the colon is taken
for its parameter. -/
theorem found_in_arrow_after_colon :
    let tokens : List Token := [
      ⟨.keyword .kwFunction, "function", 0⟩, ⟨.blank, " ", 8⟩, ⟨.identifier, "f", 9⟩,
      ⟨.punctuator, "(", 10⟩, ⟨.punctuator, ")", 11⟩, ⟨.punctuator, "\x7b", 12⟩,
      ⟨.keyword .kwReturn, "return", 13⟩, ⟨.blank, " ", 19⟩, ⟨.identifier, "a", 20⟩,
      ⟨.punctuator, "?", 21⟩, ⟨.identifier, "x", 22⟩, ⟨.punctuator, "=>", 23⟩,
      ⟨.identifier, "b", 25⟩, ⟨.punctuator, ":", 26⟩, ⟨.identifier, "x", 27⟩,
      ⟨.punctuator, ";", 28⟩, ⟨.punctuator, "\x7d", 29⟩]
    let p : ArrowProgram :=
      ⟨"f", [], .cond (.name "a") (.arrow "x" (.name "b")) (.name "x")⟩
    let found : List (String × Option ScopeId) :=
      [("f", some 0), ("a", none), ("x", some 2), ("b", none)]
    tokenize "function f()\x7breturn a?x=>b:x;\x7d" = .ok tokens ∧
      p.SpelledBy tokens ∧ p.result.parenthesised = true ∧ p.refers = found ++ [("x", none)] ∧
      ∃ tree, ScopeTree.ofTokens tokens = .ok tree ∧ tree.found = found ++ [("x", some 2)] := by
  intro tokens p found
  have htokens : tokenize "function f()\x7breturn a?x=>b:x;\x7d" = .ok tokens := by
    rw [tokenize, tokens_eq_runFor]
    decide +kernel
  have hspelled : p.SpelledBy tokens := by
    unfold ArrowProgram.SpelledBy
    decide +kernel
  have hparens : p.result.parenthesised = true := by decide +kernel
  have hrefers : p.refers = found ++ [("x", none)] := by decide +kernel
  refine ⟨htokens, hspelled, hparens, hrefers, ⟨#[⟨none, .global, ["f"], false⟩,
      ⟨some 0, .function, [], false⟩, ⟨some 1, .function, ["x"], false⟩], #[[1], [2], []],
    [⟨2, "f", 0, false⟩, ⟨8, "a", 1, false⟩, ⟨10, "x", 2, false⟩, ⟨12, "b", 2, false⟩,
      ⟨14, "x", 2, false⟩]⟩, by cbv, by cbv⟩

end Minify
