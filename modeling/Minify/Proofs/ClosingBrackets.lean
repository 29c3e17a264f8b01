import Mathlib.Tactic.Common
import Minify.Scope.Tracker

/-!
The closing brackets of a script, and the parentheses that an arrow follows.

Reading a bracket notes nothing but the closing bracket of the innermost open one, so what is noted
of a bracket that is closed already stays. At the end every parenthesis finds the token behind its
own closing one. From the last site backwards, where the closing brackets come first, the same marks
need no places.
-/

namespace Minify

namespace Site

/-- Marks the parentheses whose closing one is followed by an arrow. From the last site backwards:
the second part holds, for each closing bracket whose opening one is still to come, whether an arrow
follows it. -/
def markArrows : List Site → List Site × List Bool
  | [] => ([], [])
  | s :: rest =>
    let r := markArrows rest
    let arrowNext := rest.head?.any fun n => n.token.isPunct "=>"
    match bracket s.token with
    | .opens c => ({ s with beforeArrow := c = '(' && r.2.head?.getD false } :: r.1, r.2.tail)
    | .closes _ => (s :: r.1, arrowNext :: r.2)
    | .reopens => (s :: r.1, arrowNext :: r.2.tail)
    | .none => (s :: r.1, r.2)

/-- The sites of a script, with marks if its brackets are balanced. -/
def ofTokens (tokens : List Token) : List Site :=
  match Brackets.closers (significant 0 false tokens) with
  | .ok closers => withArrows closers (significant 0 false tokens)
  | .error _ => significant 0 false tokens

lemma bracket_eq_paren (t : Token) : bracket t = .opens '(' ↔ t.isPunct "(" = true := by
  unfold bracket Token.isPunct
  refine ⟨fun h => ?_, fun h => ?_⟩
  · split at h
    · rename_i hk
      split at h <;> simp_all
    all_goals simp at h
  · simp only [Bool.and_eq_true, beq_iff_eq] at h
    simp [h.1, h.2]

lemma isPunct_of_bracket {t : Token} {c : Char} (h : bracket t = .opens c) :
    t.isPunct "(" = decide (c = '(') := by
  rw [Bool.eq_iff_iff, ← bracket_eq_paren, h]
  simp

lemma isPunct_of_bracket_ne {t : Token} (h : ∀ c, bracket t ≠ .opens c) : t.isPunct "(" = false :=
  Bool.eq_false_iff.mpr fun hp => h _ ((bracket_eq_paren t).mpr hp)

/-- A site with the mark that it gets at a place. -/
def markAt (closers : Array (Option Nat)) (all : List Site) (place : Nat) (s : Site) : Site :=
  { s with beforeArrow := s.token.isPunct "(" && arrowAfter closers all.toArray place }

lemma markAt_of_bracket_ne {closers : Array (Option Nat)} {all : List Site} {place : Nat} {s : Site}
    (hs : s.beforeArrow = false) (hb : ∀ c, bracket s.token ≠ .opens c) :
    s.markAt closers all place = s := by
  rw [markAt, isPunct_of_bracket_ne hb, Bool.false_and, ← hs]

lemma withArrows_eq (closers : Array (Option Nat)) (sites : List Site) :
    withArrows closers sites = sites.mapIdx (markAt closers sites) := rfl

end Site

namespace Brackets

open Site

/-- Whether the brackets of a script are balanced. -/
def check (tokens : List Token) : Except ScopeError Unit :=
  (closers (significant 0 false tokens)).map fun _ => ()

namespace Matching

variable {m m' : Matching} {place n p : Nat} {t : Token} {sites : List Site}

lemma map_stack_read (m : Matching) (place : Nat) (t : Token) :
    (m.read place t).map Matching.stack = step m.stack t := by
  unfold read
  cases step m.stack t <;> rfl

lemma map_stack_readFrom (m : Matching) (place : Nat) (sites : List Site) :
    (m.readFrom place sites).map Matching.stack = (sites.map Site.token).foldlM step m.stack := by
  induction sites generalizing m place with
  | nil => rfl
  | cons s rest ih =>
    have hread := map_stack_read m place s.token
    rw [readFrom, List.map_cons, List.foldlM_cons, ← hread]
    cases m.read place s.token with
    | error e => rfl
    | ok m' => exact ih m' (place + 1)

/-- What reading a token does. -/
inductive Moves (m : Matching) (place : Nat) (t : Token) : Matching → Prop
  | opens {c : Char} (hb : bracket t = .opens c) :
      Moves m place t ⟨(c, t.start) :: m.stack, place :: m.places, m.closers⟩
  | closes {c : Char} {p : Nat} {top : Char × Nat} {stack : List (Char × Nat)} {places : List Nat}
      (hb : bracket t = .closes c) (hs : m.stack = top :: stack) (hp : m.places = p :: places) :
      Moves m place t ⟨stack, places, m.closers.setIfInBounds p (some place)⟩
  | reopens {p : Nat} {top : Char × Nat} {stack : List (Char × Nat)} {places : List Nat}
      (hb : bracket t = .reopens) (hs : m.stack = top :: stack) (hp : m.places = p :: places) :
      Moves m place t ⟨('\x7b', t.start) :: stack, place :: places,
        m.closers.setIfInBounds p (some place)⟩
  | none (hb : bracket t = .none) : Moves m place t m

lemma moves_of_read (hlen : m.places.length = m.stack.length) (h : m.read place t = .ok m') :
    Moves m place t m' := by
  unfold read at h
  cases hstep : step m.stack t with
  | error e =>
    rw [hstep] at h
    cases h
  | ok stack =>
    rw [hstep] at h
    obtain rfl : { m.shift place t with stack := stack } = m' := Except.ok.inj h
    have hplaces {top : Char × Nat} {rest : List (Char × Nat)} (hs : m.stack = top :: rest) :
        ∃ p places, m.places = p :: places :=
      List.exists_cons_of_length_eq_add_one (hlen.trans (congrArg List.length hs))
    rw [step_eq_ok_iff] at hstep
    clear h
    unfold shift
    cases hb : bracket t with
    | opens c =>
      rw [hb] at hstep
      obtain rfl := hstep
      exact .opens hb
    | closes c =>
      rw [hb] at hstep
      obtain ⟨opener, i, hs, -⟩ := hstep
      obtain ⟨p, places, hp⟩ := hplaces hs
      simp only [closeAt, hp]
      exact .closes hb hs hp
    | reopens =>
      rw [hb] at hstep
      obtain ⟨opener, i, rest, hs, -, rfl⟩ := hstep
      obtain ⟨p, places, hp⟩ := hplaces hs
      simp only [closeAt, hp, openAt]
      exact .reopens hb hs hp
    | none =>
      rw [hb] at hstep
      obtain rfl := hstep
      exact .none hb

/-- The places of the open brackets are different and have been read. -/
structure Fits (n place : Nat) (m : Matching) : Prop where
  length : m.places.length = m.stack.length
  nodup : m.places.Nodup
  lt : ∀ p ∈ m.places, p < place
  size : m.closers.size = n

lemma fits_start (sites : List Site) : Fits sites.length 0 (start sites) :=
  ⟨rfl, .nil, nofun, Array.size_replicate⟩

lemma Moves.fits (h : Moves m place t m') (hm : Fits n place m) : Fits n (place + 1) m' := by
  obtain ⟨hlen, hnodup, hlt, hsize⟩ := hm
  have hlater (q : Nat) (hq : q ∈ m.places) : q < place + 1 := Nat.lt_succ_of_lt (hlt q hq)
  have hplace : place ∉ m.places := fun hp => Nat.lt_irrefl _ (hlt _ hp)
  cases h with
  | opens hb =>
    exact ⟨congrArg (· + 1) hlen, List.nodup_cons.mpr ⟨hplace, hnodup⟩,
      List.forall_mem_cons.mpr ⟨Nat.lt_succ_self _, hlater⟩, hsize⟩
  | closes hb hs hp =>
    rw [hp] at hlen hnodup hlater
    rw [hs] at hlen
    exact ⟨Nat.succ.inj hlen, hnodup.tail, fun q hq => hlater q (List.mem_cons_of_mem _ hq),
      Array.size_setIfInBounds.trans hsize⟩
  | reopens hb hs hp =>
    rw [hp] at hlen hnodup hlater hplace
    rw [hs] at hlen
    have hplace := List.not_mem_of_not_mem_cons hplace
    exact ⟨hlen, List.nodup_cons.mpr ⟨hplace, hnodup.tail⟩,
      List.forall_mem_cons.mpr
        ⟨Nat.lt_succ_self _, fun q hq => hlater q (List.mem_cons_of_mem _ hq)⟩,
      Array.size_setIfInBounds.trans hsize⟩
  | none hb => exact ⟨hlen, hnodup, hlater, hsize⟩

lemma Moves.stays (h : Moves m place t m') (hp : p ∉ m.places) (hlt : p < place) :
    m'.closers[p]? = m.closers[p]? ∧ p ∉ m'.places := by
  have hne : p ≠ place := Nat.ne_of_lt hlt
  cases h with
  | opens hb => exact ⟨rfl, List.not_mem_cons_of_ne_of_not_mem hne hp⟩
  | closes hb hs hq =>
    rw [hq] at hp
    obtain ⟨hpq, hp⟩ := List.ne_and_not_mem_of_not_mem_cons hp
    exact ⟨Array.getElem?_setIfInBounds_ne hpq.symm, hp⟩
  | reopens hb hs hq =>
    rw [hq] at hp
    obtain ⟨hpq, hp⟩ := List.ne_and_not_mem_of_not_mem_cons hp
    exact ⟨Array.getElem?_setIfInBounds_ne hpq.symm, List.not_mem_cons_of_ne_of_not_mem hne hp⟩
  | none hb => exact ⟨rfl, hp⟩

lemma readFrom_cons {s : Site} {rest : List Site} (h : m.readFrom place (s :: rest) = .ok m') :
    ∃ mid, m.read place s.token = .ok mid ∧ mid.readFrom (place + 1) rest = .ok m' := by
  rw [readFrom] at h
  cases hread : m.read place s.token with
  | error e =>
    rw [hread] at h
    cases h
  | ok mid =>
    rw [hread] at h
    exact ⟨mid, rfl, h⟩

lemma getElem?_closers_readFrom (hm : Fits n place m) (h : m.readFrom place sites = .ok m')
    (hp : p ∉ m.places) (hlt : p < place) : m'.closers[p]? = m.closers[p]? := by
  induction sites generalizing m place with
  | nil =>
    cases h
    rfl
  | cons s rest ih =>
    obtain ⟨mid, hread, hrest⟩ := readFrom_cons h
    have hmoves := moves_of_read hm.length hread
    obtain ⟨hclosers, hmid⟩ := hmoves.stays hp hlt
    rw [ih (hmoves.fits hm) hrest hmid (Nat.lt_succ_of_lt hlt), hclosers]

/-- A bracket that is closed here is not closed again, so what follows it is what comes next. -/
lemma arrowAfter_of_closed {all rest : List Site} {s : Site} {mid : Matching}
    (hm : Fits all.length place m) (hmid : Fits all.length (place + 1) mid)
    (hall : all.drop place = s :: rest) (h : mid.readFrom (place + 1) rest = .ok m')
    (hp : p ∈ m.places) (hnot : p ∉ mid.places)
    (hset : mid.closers = m.closers.setIfInBounds p (some place)) :
    arrowAfter m'.closers all.toArray p = rest.head?.any fun n => n.token.isPunct "=>" := by
  have hlt := hm.lt p hp
  have hplace : place < all.length := by
    by_contra hle
    rw [List.drop_eq_nil_of_le (by omega)] at hall
    cases hall
  have hnext : all[place + 1]? = rest.head? := by
    rw [← List.head?_drop, ← List.drop_drop, hall, List.drop_succ_cons, List.drop_zero]
  have hget : m'.closers[p]? = some (some place) := by
    rw [getElem?_closers_readFrom hmid h hnot (Nat.lt_succ_of_lt hlt), hset,
      Array.getElem?_setIfInBounds_self_of_lt (by rw [hm.size]; omega)]
  simp [arrowAfter, hget, hnext]

/-- The marks found backwards are those behind the closing brackets noted in the end. -/
lemma markArrows_of_readFrom {all rest : List Site} (hm : Fits all.length place m)
    (hall : all.drop place = rest) (hplain : ∀ s ∈ rest, s.beforeArrow = false)
    (h : m.readFrom place rest = .ok m') (hend : m'.stack = []) :
    (markArrows rest).2 = m.places.map (arrowAfter m'.closers all.toArray) ∧
      (markArrows rest).1 = rest.mapIdx fun i s => s.markAt m'.closers all (place + i) := by
  induction rest generalizing m place with
  | nil =>
    cases h
    have hplaces := hm.length
    rw [hend] at hplaces
    rw [List.length_eq_zero_iff.mp hplaces]
    exact ⟨rfl, rfl⟩
  | cons s rest ih =>
    obtain ⟨mid, hread, hrest⟩ := readFrom_cons h
    obtain ⟨hs, hplain⟩ := List.forall_mem_cons.mp hplain
    have hmoves := moves_of_read hm.length hread
    have hmid := hmoves.fits hm
    have hdrop : all.drop (place + 1) = rest := by
      rw [← List.drop_drop, hall, List.drop_succ_cons, List.drop_zero]
    obtain ⟨hmarks, hsites⟩ := ih hmid hdrop hplain hrest
    simp only [Nat.add_assoc, Nat.add_comm 1] at hsites
    rw [markArrows, List.mapIdx_cons, ← hsites, Nat.add_zero]
    have hsame (hb : ∀ c, bracket s.token ≠ .opens c) : s :: (markArrows rest).1
        = s.markAt m'.closers all place :: (markArrows rest).1 := by
      rw [markAt_of_bracket_ne hs hb]
    cases hmoves with
    | opens hb =>
      rw [hb, hmarks, markAt, isPunct_of_bracket hb]
      exact ⟨rfl, rfl⟩
    | @closes q _ _ _ places hb _ hp =>
      have hnodup := hm.nodup
      rw [hp] at hnodup
      have harrow := arrowAfter_of_closed hm hmid hall hrest (hp ▸ List.mem_cons_self)
        (List.nodup_cons.mp hnodup).1 rfl
      rw [hb, hmarks, hp, List.map_cons, harrow]
      exact ⟨rfl, hsame (by rw [hb]; exact nofun)⟩
    | @reopens q _ _ places hb _ hp =>
      have hnodup := hm.nodup
      rw [hp] at hnodup
      have hq : q ∉ place :: places := List.not_mem_cons_of_ne_of_not_mem
        (Nat.ne_of_lt (hm.lt q (hp ▸ List.mem_cons_self))) (List.nodup_cons.mp hnodup).1
      have harrow := arrowAfter_of_closed hm hmid hall hrest (hp ▸ List.mem_cons_self) hq rfl
      rw [hb, hmarks, hp, List.map_cons, List.map_cons, harrow]
      exact ⟨rfl, hsame (by rw [hb]; exact nofun)⟩
    | none hb =>
      rw [hb, hmarks]
      exact ⟨rfl, hsame (by rw [hb]; exact nofun)⟩

end Matching

/-- The closing brackets are noted when no bracket is left open. -/
lemma closers_eq_ok_iff {sites : List Site} {cs : Array (Option Nat)} : closers sites = .ok cs ↔
    ∃ m, (Matching.start sites).readFrom 0 sites = .ok m ∧ m.stack = [] ∧ m.closers = cs := by
  unfold closers
  cases h : (Matching.start sites).readFrom 0 sites with
  | error e => exact ⟨nofun, nofun⟩
  | ok m =>
    obtain ⟨stack, places, closers⟩ := m
    cases stack with
    | nil => exact ⟨fun hcs => ⟨_, rfl, rfl, Except.ok.inj hcs⟩, fun ⟨_, hm, _, hcs⟩ => by
        cases hm
        exact congrArg Except.ok hcs⟩
    | cons top stack => exact ⟨nofun, fun ⟨_, hm, hnil, _⟩ => by cases hm; cases hnil⟩

lemma exists_closers {tokens : List Token} (h : check tokens = .ok ()) :
    ∃ cs, closers (significant 0 false tokens) = .ok cs := by
  unfold check at h
  cases hcs : closers (significant 0 false tokens) with
  | error e =>
    rw [hcs] at h
    cases h
  | ok cs => exact ⟨cs, rfl⟩

end Brackets

namespace Site

/-- The first token is trivia and left out, or its site comes first. -/
lemma significant_cons (index : Nat) (newline : Bool) (t : Token) :
    (t.isTrivia = true ∧
        ∃ b, ∀ ts, significant index newline (t :: ts) = significant (index + 1) b ts) ∨
      (t.isTrivia = false ∧ ∀ ts, significant index newline (t :: ts)
        = ⟨index, t, newline, false⟩ :: significant (index + 1) false ts) := by
  unfold Token.isTrivia TokenKind.isTrivia
  simp only [significant]
  cases hk : t.kind with
  | lineBreak => exact .inl ⟨rfl, true, fun _ => rfl⟩
  | blank => exact .inl ⟨rfl, newline, fun _ => rfl⟩
  | comment kind =>
    refine .inl ⟨rfl, ?_⟩
    rcases kind with _ | (_ | _) | _
    · exact ⟨newline, fun _ => rfl⟩
    · exact ⟨newline, fun _ => rfl⟩
    · exact ⟨true, fun _ => rfl⟩
    · exact ⟨newline, fun _ => rfl⟩
  | _ => exact .inr ⟨rfl, fun _ => rfl⟩

lemma beforeArrow_significant (index : Nat) (newline : Bool) (tokens : List Token) :
    ∀ s ∈ significant index newline tokens, s.beforeArrow = false := by
  induction tokens generalizing index newline with
  | nil => exact nofun
  | cons t ts ih =>
    rcases significant_cons index newline t with ⟨-, b, he⟩ | ⟨-, he⟩
    · exact he ts ▸ ih _ _
    · rw [he]
      exact List.forall_mem_cons.mpr ⟨rfl, ih _ _⟩

/-- **The marks of a script** can be found from its end. -/
theorem ofTokens_eq_markArrows {tokens : List Token} (h : Brackets.check tokens = .ok ()) :
    ofTokens tokens = (markArrows (significant 0 false tokens)).1 := by
  obtain ⟨cs, hcs⟩ := Brackets.exists_closers h
  obtain ⟨m, hm, hend, rfl⟩ := Brackets.closers_eq_ok_iff.mp hcs
  obtain ⟨-, hmarks⟩ := Brackets.Matching.markArrows_of_readFrom (Brackets.Matching.fits_start _)
    List.drop_zero (beforeArrow_significant 0 false tokens) hm hend
  simp only [Nat.zero_add] at hmarks
  rw [ofTokens, hcs, hmarks]
  exact withArrows_eq m.closers _

end Site

/-- The scopes of a script are those that its marked sites make. -/
lemma ScopeTree.ofTokens_eq (tokens : List Token) : ofTokens tokens
    = (Brackets.check tokens).map fun _ => (Tracker.start.run (Site.ofTokens tokens)).tree := by
  unfold ofTokens Brackets.check Site.ofTokens
  dsimp only
  cases Brackets.closers (Site.significant 0 false tokens) <;> rfl

lemma ScopeTree.ofTokens_of_check {tokens : List Token} (h : Brackets.check tokens = .ok ()) :
    ofTokens tokens = .ok (Tracker.start.run (Site.ofTokens tokens)).tree := by
  rw [ofTokens_eq, h]
  rfl

end Minify
