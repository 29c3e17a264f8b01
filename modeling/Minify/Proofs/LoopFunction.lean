import Mathlib
import Minify.Proofs.FunctionReading
import Minify.Proofs.LexerRun

/-!
A function whose statements use names, branch and loop.

Its head declares the function in the scope around it and the parameters in its own scope; there the
statements are read. The tracker finds for each name what the tree says, if the bodies of the loops
end well, and not always otherwise.
-/

namespace Minify

open Tracker

namespace MarkedWord

lemma map_word_other (ws : List Word) : (ws.map other).map word = ws := by
  rw [List.map_map]
  exact List.map_id' ws

lemma map_word_listed (params : List String) :
    (listed params).map word = LoopProgram.listed params := by
  fun_induction listed params with
  | case1 => rfl
  | case2 x => rfl
  | case3 x xs hne ih =>
    rw [List.map_cons, List.map_cons, ih, LoopProgram.listed]
    · rfl
    · exact hne

lemma unmarked_listed (params : List String) : ∀ p ∈ listed params, p.beforeArrow = false := by
  fun_induction listed params with
  | case1 => exact nofun
  | case2 x => simp [name]
  | case3 x xs hne ih => simpa [name, punct, other] using ih

end MarkedWord

namespace LoopProgram

variable {p : LoopProgram} {tokens : List Token}

/-- A token list whose tokens, but for blanks, comments and line ends, are those of the function. No
line ends before the `of` of a loop. -/
def SpelledBy (p : LoopProgram) (tokens : List Token) : Prop :=
  Spells (Site.ofTokens tokens) p.words

lemma SpelledBy.beforeArrow (h : p.SpelledBy tokens) :
    ∀ s ∈ Site.ofTokens tokens, s.beforeArrow = false := by
  refine Site.beforeArrow_ofTokens fun s hs => ?_
  obtain ⟨i, hi, rfl⟩ := List.getElem_of_mem hs
  have hlen : i < p.words.length := h.length_eq ▸ hi
  have hat : (p.words[i]).At (Site.ofTokens tokens)[i] := h.get hi hlen
  have harrow := p.balanced_words.arrows _ (List.getElem_mem hlen)
  cases hk : (Site.ofTokens tokens)[i].token.isPunct "=>" with
  | false => rfl
  | true =>
    simp only [Token.isPunct, Bool.and_eq_true, beq_iff_eq] at hk
    exact absurd (hat.text ▸ hk.2) (harrow (hat.kind ▸ hk.1))

lemma SpelledBy.check (h : p.SpelledBy tokens) : Brackets.check tokens = .ok () := by
  rw [Brackets.check_eq_ok, ← Site.foldlM_step_ofTokens]
  exact p.balanced_words.fits _ _ h

/-- The function by its words, of which none is a parenthesis marked for an arrow. -/
def pieces (p : LoopProgram) : List MarkedWord :=
  MarkedWord.function p.name p.params ((Stmt.listWords p.body).map MarkedWord.other)

lemma map_word_pieces (p : LoopProgram) : p.pieces.map MarkedWord.word = p.words := by
  simp only [pieces, words, MarkedWord.function, List.map_cons, List.map_append,
    MarkedWord.map_word_listed, MarkedWord.map_word_other]
  rfl

lemma unmarked_pieces (p : LoopProgram) : ∀ q ∈ p.pieces, q.beforeArrow = false := by
  have hlisted := MarkedWord.unmarked_listed p.params
  simpa [pieces, MarkedWord.function, or_imp, forall_and, MarkedWord.other, MarkedWord.name,
    MarkedWord.punct] using hlisted

lemma SpelledBy.marked (h : p.SpelledBy tokens) : Marked (Site.ofTokens tokens) p.pieces :=
  (marked_iff_spells p.unmarked_pieces).mpr ⟨p.map_word_pieces ▸ h, h.beforeArrow⟩

lemma SpelledBy.run (h : p.SpelledBy tokens) (hwell : p.endsWell = true) :
    (start.run (Site.ofTokens tokens)).occurrences.reverse.map (fun o =>
      (o.name, (start.run (Site.ofTokens tokens)).refersTo o.name o.scope)) = p.refers := by
  rw [run_eq_readAll]
  refine found_function (Stmt.listScopes p.body) h.marked fun {t inner c} ht hinner hc => ?_
  obtain ⟨hspells, harrows⟩ := (marked_iff_spells (by simp [MarkedWord.other])).mp hinner
  rw [MarkedWord.map_word_other] at hspells
  have hmoves : ListMoves p.body p.sees t (t.readAll (some c.token) inner) :=
    moves_list p.body (goesOn_punct hc) ⟨ht.ready, ht.opening,
      ⟨rfl, List.forall_mem_nil _, by rw [ht.openBodies]; exact List.forall_mem_nil _⟩,
      ht.sees, ht.closed, hspells, harrows, hwell⟩
  unfold ListMoves at hmoves
  exact ⟨hmoves.back ht.closed, ht.size ▸ hmoves.adds⟩

end LoopProgram

/-- The names of a script in their order, each with the scope it refers to. -/
def ScopeTree.found (tree : ScopeTree) : List (String × Option ScopeId) :=
  tree.occurrences.map fun o => (o.name, tree.resolved o)

/-- **Names in loops refer to what the statements say** when the bodies of the loops end well: a
name refers to the innermost loop that declares it and whose head or body it stands in, and
otherwise to the parameter, or to the function itself if that is its name, or to nothing. -/
theorem found_in_loops (p : LoopProgram) (tokens : List Token) (h : p.SpelledBy tokens)
    (hwell : p.endsWell = true) :
    ∃ tree, ScopeTree.ofTokens tokens = .ok tree ∧ tree.found = p.refers := by
  exact ⟨_, ScopeTree.ofTokens_of_check h.check, h.run hwell⟩

set_option maxRecDepth 20000 in
/-- A loop without braces whose branch before `else` is a block. -/
theorem found_in_loops_block_before_else :
    let tokens : List Token := [
      ⟨.keyword .kwFunction, "function", 0⟩, ⟨.blank, " ", 8⟩, ⟨.identifier, "f", 9⟩,
      ⟨.punctuator, "(", 10⟩, ⟨.identifier, "p", 11⟩, ⟨.punctuator, ")", 12⟩,
      ⟨.punctuator, "\x7b", 13⟩, ⟨.keyword .kwFor, "for", 14⟩, ⟨.punctuator, "(", 17⟩,
      ⟨.keyword .kwLet, "let", 18⟩, ⟨.blank, " ", 21⟩, ⟨.identifier, "a", 22⟩, ⟨.blank, " ", 23⟩,
      ⟨.identifier, "of", 24⟩, ⟨.blank, " ", 26⟩, ⟨.identifier, "p", 27⟩, ⟨.punctuator, ")", 28⟩,
      ⟨.keyword .kwIf, "if", 29⟩, ⟨.punctuator, "(", 31⟩, ⟨.identifier, "a", 32⟩,
      ⟨.punctuator, ")", 33⟩, ⟨.punctuator, "\x7b", 34⟩, ⟨.identifier, "p", 35⟩,
      ⟨.punctuator, ";", 36⟩, ⟨.punctuator, "\x7d", 37⟩, ⟨.keyword .kwElse, "else", 38⟩,
      ⟨.blank, " ", 42⟩, ⟨.identifier, "a", 43⟩, ⟨.punctuator, ";", 44⟩, ⟨.identifier, "a", 45⟩,
      ⟨.punctuator, ";", 46⟩, ⟨.punctuator, "\x7d", 47⟩]
    let p : LoopProgram := ⟨"f", ["p"],
      [.loop "a" "p" (.branch "a" (.block [.use "p"]) (.use "a")), .use "a"]⟩
    tokenize "function f(p)\x7bfor(let a of p)if(a)\x7bp;\x7delse a;a;\x7d" = .ok tokens ∧
      p.SpelledBy tokens ∧ p.endsWell = true ∧
      ∃ tree, ScopeTree.ofTokens tokens = .ok tree ∧ tree.found = p.refers := by
  intro tokens p
  have htokens : tokenize "function f(p)\x7bfor(let a of p)if(a)\x7bp;\x7delse a;a;\x7d"
      = .ok tokens := by
    rw [tokenize, tokens_eq_runFor]
    decide +kernel
  have hspelled : p.SpelledBy tokens := by
    unfold LoopProgram.SpelledBy
    decide +kernel
  have hwell : p.endsWell = true := by decide +kernel
  exact ⟨htokens, hspelled, hwell, found_in_loops p tokens hspelled hwell⟩

set_option maxRecDepth 20000 in
/-- Where the statement before `else` ends with a semicolon, the one after it is taken out of the
loop. -/
theorem found_outside_after_else :
    let tokens : List Token := [
      ⟨.keyword .kwFunction, "function", 0⟩, ⟨.blank, " ", 8⟩, ⟨.identifier, "f", 9⟩,
      ⟨.punctuator, "(", 10⟩, ⟨.identifier, "x", 11⟩, ⟨.punctuator, ")", 12⟩,
      ⟨.punctuator, "\x7b", 13⟩, ⟨.keyword .kwFor, "for", 14⟩, ⟨.punctuator, "(", 17⟩,
      ⟨.keyword .kwLet, "let", 18⟩, ⟨.blank, " ", 21⟩, ⟨.identifier, "a", 22⟩, ⟨.blank, " ", 23⟩,
      ⟨.identifier, "of", 24⟩, ⟨.blank, " ", 26⟩, ⟨.identifier, "b", 27⟩, ⟨.punctuator, ")", 28⟩,
      ⟨.keyword .kwIf, "if", 29⟩, ⟨.punctuator, "(", 31⟩, ⟨.identifier, "c", 32⟩,
      ⟨.punctuator, ")", 33⟩, ⟨.identifier, "a", 34⟩, ⟨.punctuator, ";", 35⟩,
      ⟨.keyword .kwElse, "else", 36⟩, ⟨.blank, " ", 40⟩, ⟨.identifier, "a", 41⟩,
      ⟨.punctuator, ";", 42⟩, ⟨.punctuator, "\x7d", 43⟩]
    let p : LoopProgram := ⟨"f", ["x"], [.loop "a" "b" (.branch "c" (.use "a") (.use "a"))]⟩
    let found : List (String × Option ScopeId) :=
      [("f", some 0), ("x", some 1), ("a", some 2), ("b", none), ("c", none), ("a", some 2)]
    tokenize "function f(x)\x7bfor(let a of b)if(c)a;else a;\x7d" = .ok tokens ∧
      p.SpelledBy tokens ∧ p.refers = found ++ [("a", some 2)] ∧
      ∃ tree, ScopeTree.ofTokens tokens = .ok tree ∧ tree.found = found ++ [("a", none)] := by
  intro tokens p found
  have htokens : tokenize "function f(x)\x7bfor(let a of b)if(c)a;else a;\x7d" = .ok tokens := by
    rw [tokenize, tokens_eq_runFor]
    decide +kernel
  have hspelled : p.SpelledBy tokens := by
    unfold LoopProgram.SpelledBy
    decide +kernel
  have hrefers : p.refers = found ++ [("a", some 2)] := by decide +kernel
  refine ⟨htokens, hspelled, hrefers, ⟨#[⟨none, .global, ["f"], false⟩,
      ⟨some 0, .function, ["x"], false⟩, ⟨some 1, .block, ["a"], false⟩], #[[1], [2], []],
    [⟨2, "f", 0, false⟩, ⟨4, "x", 1, false⟩, ⟨11, "a", 2, false⟩, ⟨15, "b", 2, false⟩,
      ⟨19, "c", 2, false⟩, ⟨21, "a", 2, false⟩, ⟨25, "a", 1, false⟩]⟩, by cbv, by cbv⟩

end Minify
