import Mathlib
import Minify.Proofs.BraceScopes
import Minify.Proofs.BracketGrammar
import Minify.Proofs.LoopBrackets

/-!
The pairs of brackets of a script, and the frames of the tracker over them.

When the brackets are well nested, each opening one has a closing one of its own, with well-nested
brackets between the two. The check finds these pairs on its stack, and a parenthesis is marked when
an arrow follows its own closing one. The frames of the tracker keep step: there is one for each
open bracket and one for the script, and a closing bracket ends the frame of its own opening one.
-/

namespace Minify

namespace Brackets

open Site

variable {ts front inner back : List Token} {o c : Token} {b x : Char} {i j k : Nat}

/-! ### Pairs -/

/-- The token at `j` closes what the token at `i` opens. -/
def Pair (ts : List Token) (i j : Nat) : Prop :=
  ∃ front o inner c back b, ts = front ++ o :: (inner ++ c :: back) ∧ front.length = i ∧
    i + 1 + inner.length = j ∧ .opens b ∈ marks o ∧ .closes (closer b) ∈ marks c ∧
    WellNested (placed inner)

lemma exists_split {α : Type} {xs : List α} {x : α} (h : xs[i]? = some x) :
    ∃ front back, xs = front ++ x :: back ∧ front.length = i := by
  obtain ⟨hi, rfl⟩ := List.getElem?_eq_some_iff.mp h
  refine ⟨xs.take i, xs.drop (i + 1), ?_, List.length_take_of_le hi.le⟩
  rw [List.getElem_cons_drop, List.take_append_drop]

lemma placed_append (xs ys : List Token) : placed (xs ++ ys) = placed xs ++ placed ys :=
  List.flatMap_append

lemma placed_cons (t : Token) (xs : List Token) :
    placed (t :: xs) = (marks t).map (fun m => (m, t.start)) ++ placed xs := rfl

lemma marks_of_opens {l r : List Mark} (h : marks o = l ++ .opens b :: r) : r = [] := by
  unfold marks at h
  cases hb : bracket o <;> rw [hb] at h <;> simp [List.cons_eq_append_iff] at h
  · exact h.2.2
  · exact h.2.2

lemma marks_of_closes {l r : List Mark} (h : marks c = l ++ .closes x :: r) : l = [] := by
  unfold marks at h
  cases hb : bracket c <;> rw [hb] at h <;> simp [List.cons_eq_append_iff] at h
  · exact h.1
  · exact h.1

lemma exists_token {ms ns : List (Mark × Nat)} {m : Mark} (h : placed ts = ms ++ (m, i) :: ns) :
    ∃ xs t ys l r, ts = xs ++ t :: ys ∧ marks t = l ++ m :: r ∧
      ms = placed xs ++ l.map (fun m => (m, t.start)) ∧
      ns = r.map (fun m => (m, t.start)) ++ placed ys := by
  induction ts generalizing ms with
  | nil => simp [placed] at h
  | cons t ts ih =>
    rw [placed_cons, List.append_eq_append_iff] at h
    rcases h with ⟨as, rfl, hrest⟩ | ⟨as, hmarks, hns⟩
    · obtain ⟨xs, u, ys, l, r, rfl, hu, rfl, hns⟩ := ih hrest
      exact ⟨t :: xs, u, ys, l, r, rfl, hu, by rw [placed_cons, List.append_assoc], hns⟩
    · cases as with
      | nil =>
        rw [List.append_nil] at hmarks
        have hwhole : placed ts = [] ++ (m, i) :: ns := hns.symm
        obtain ⟨xs, u, ys, l, r, rfl, hu, hnil, hr⟩ := ih hwhole
        refine ⟨t :: xs, u, ys, l, r, rfl, hu, ?_, hr⟩
        rw [placed_cons, List.append_assoc, ← hnil, List.append_nil, hmarks]
      | cons a as =>
        obtain ⟨rfl, rfl⟩ := List.cons_eq_cons.mp hns
        obtain ⟨l, rest, hl, rfl, hrest⟩ := List.map_eq_append_iff.mp hmarks
        obtain ⟨m', r, rfl, hm', rfl⟩ := List.map_eq_cons_iff.mp hrest
        obtain ⟨rfl, -⟩ := Prod.mk.inj hm'
        exact ⟨[], t, ts, l, r, rfl, hl, rfl, rfl⟩

/-- The brackets that a first part leaves open, and the rest closes. -/
lemma WellNested.exists_stack {ms rest : List (Mark × Nat)} (h : WellNested (ms ++ rest)) :
    ∃ stack, ms.foldlM stepMark [] = .ok stack ∧ rest.foldlM stepMark stack = .ok [] := by
  have hall := h.run []
  rw [List.foldlM_append] at hall
  cases hms : ms.foldlM stepMark [] with
  | error e => rw [hms] at hall; cases hall
  | ok stack =>
    rw [hms] at hall
    exact ⟨stack, rfl, hall⟩

/-- A bracket that does not close the innermost one is an error. -/
lemma closer_eq_of_ok {rest : List (Mark × Nat)} {stack stack' : List (Char × Nat)}
    (h : ((.closes x, j) :: rest).foldlM stepMark ((b, i) :: stack) = .ok stack') :
    closer b = x := by
  by_contra hfits
  have hclose : close x j ((b, i) :: stack) = .error ⟨.mismatched (closer b) x, j⟩ := if_neg hfits
  cases (foldlM_closes_error hclose rest).symm.trans h

/-- Behind an opening bracket stands the one that closes it. -/
lemma exists_close {ms rest : List (Mark × Nat)} (h : WellNested (ms ++ (.opens b, i) :: rest)) :
    ∃ ns j more, rest = ns ++ (.closes (closer b), j) :: more ∧ WellNested ns := by
  obtain ⟨stack, -, hall⟩ := h.exists_stack
  replace hall : rest.foldlM stepMark ((b, i) :: stack) = .ok [] := hall
  cases hrest : rest.foldlM stepMark [] with
  | ok stack' =>
    rw [(foldlM_eq_ok_iff.mp hrest).run] at hall
    simp at hall
  | error e =>
    obtain ⟨open', ns, d, j, more, rfl, hns, hd⟩ := exists_close_of_error hrest
    rw [List.foldlM_append, hns.run] at hall
    match open' with
    | [] =>
      obtain rfl := closer_eq_of_ok hall
      exact ⟨ns, j, more, rfl, hns⟩
    | (a, l) :: open' =>
      -- the bracket that failed on its own fails here too
      rw [close, if_pos (closer_eq_of_ok hall)] at hd
      cases hd

/-- Before a closing bracket stands the one that it closes. -/
lemma exists_open {ms rest : List (Mark × Nat)} (h : WellNested (ms ++ (.closes x, j) :: rest)) :
    ∃ pre b i ns, ms = pre ++ (.opens b, i) :: ns ∧ closer b = x ∧ WellNested ns := by
  obtain ⟨stack, hms, hall⟩ := h.exists_stack
  match stack with
  | [] => cases hall
  | (b, i) :: stack =>
    obtain ⟨pre, ns, rfl, -, hns⟩ := foldlM_eq_ok_iff.mp hms
    exact ⟨pre, b, i, ns, rfl, closer_eq_of_ok hall, hns⟩

/-- After a token that opens a bracket stands the bracket that closes it. -/
lemma exists_close_of_opens (h : WellNested (placed (front ++ o :: back)))
    (ho : .opens b ∈ marks o) :
    ∃ ns j more, placed back = ns ++ (.closes (closer b), j) :: more ∧ WellNested ns := by
  obtain ⟨l, r, hl⟩ := List.append_of_mem ho
  obtain rfl := marks_of_opens hl
  rw [placed_append, placed_cons, hl, List.map_append, List.append_assoc, ← List.append_assoc] at h
  exact exists_close h

lemma exists_pair_of_opens (h : WellNested (placed (front ++ o :: back)))
    (ho : .opens b ∈ marks o) : ∃ j, Pair (front ++ o :: back) front.length j := by
  obtain ⟨ns, j, more, hback, hns⟩ := exists_close_of_opens h ho
  obtain ⟨inner, c, rest, l', r, rfl, hc, rfl, -⟩ := exists_token hback
  obtain rfl := marks_of_closes hc
  rw [List.map_nil, List.append_nil] at hns
  exact ⟨_, front, o, inner, c, rest, b, rfl, rfl, rfl, ho, hc ▸ List.mem_cons_self, hns⟩

lemma exists_pair_of_closes (h : WellNested (placed (front ++ c :: back)))
    (hc : .closes x ∈ marks c) : ∃ i, Pair (front ++ c :: back) i front.length := by
  obtain ⟨l, r, hl⟩ := List.append_of_mem hc
  obtain rfl := marks_of_closes hl
  rw [placed_append, placed_cons, hl] at h
  obtain ⟨pre, b, i, ns, hfront, rfl, hns⟩ := exists_open h
  obtain ⟨before, o, inner, l', r', rfl, ho, -, rfl⟩ := exists_token hfront
  obtain rfl := marks_of_opens ho
  have hmem : .opens b ∈ marks o := ho ▸ List.mem_append_right _ List.mem_cons_self
  refine ⟨_, before, o, inner, c, back, b, by simp, rfl, ?_, hmem, hc, hns⟩
  rw [List.length_append, List.length_cons]
  omega

/-- Nothing is left to close after well-nested brackets. -/
lemma WellNested.not_closes {ns more : List (Mark × Nat)} (h : WellNested ns) :
    ¬ WellNested (ns ++ (.closes x, j) :: more) := by
  intro hall
  replace hall := hall.run []
  rw [List.foldlM_append, h.run] at hall
  cases hall

lemma not_wellNested_of_opens (hin : WellNested (placed inner)) (ho : .opens b ∈ marks o) :
    ¬ WellNested (placed (front ++ o :: inner)) := by
  intro h
  obtain ⟨ns, j, more, hback, hns⟩ := exists_close_of_opens h ho
  exact hns.not_closes (hback ▸ hin)

lemma exists_between {xs ys us vs : List Token} {s t : Token}
    (h : xs ++ s :: ys = us ++ t :: vs) (hlt : xs.length < us.length) :
    ∃ mid, us = xs ++ s :: mid ∧ ys = mid ++ t :: vs := by
  rw [List.append_eq_append_iff] at h
  rcases h with ⟨as, rfl, hrest⟩ | ⟨as, rfl, -⟩
  · cases as with
    | nil => simp at hlt
    | cons a as =>
      obtain ⟨rfl, rfl⟩ := List.cons_eq_cons.mp hrest
      exact ⟨as, rfl, rfl⟩
  · simp at hlt

lemma Pair.left_unique (h : Pair ts i k) (h' : Pair ts j k) : i = j := by
  wlog hij : i < j generalizing i j with H
  · by_contra hne
    exact hne (H h' h (by omega)).symm
  exfalso
  obtain ⟨front, o, inner, c, back, b, rfl, rfl, rfl, -, hc, hin⟩ := h
  obtain ⟨front', o', inner', c', back', b', hts, rfl, hlen, ho', -, hin'⟩ := h'
  obtain ⟨mid, rfl, hback⟩ := exists_between hts hij
  simp only [List.length_append, List.length_cons] at hlen
  obtain ⟨rest, rfl, hrest⟩ := exists_between hback.symm (by omega)
  simp only [List.length_append, List.length_cons] at hlen
  obtain ⟨rfl, -⟩ := List.append_inj hrest (by omega)
  exact not_wellNested_of_opens hin' ho' hin

/-- The tokens up to the one that closes, from right after the one that it closes. -/
lemma Pair.take_eq (h : Pair ts i j) : ∃ front o inner b, .opens b ∈ marks o ∧
    WellNested (placed inner) ∧ ts[i]? = some o ∧ ts.take (i + 1) = front ++ [o] ∧
    ts.take j = front ++ [o] ++ inner := by
  obtain ⟨front, o, inner, c, back, b, rfl, rfl, rfl, ho, -, hin⟩ := h
  have hsplit : front ++ o :: (inner ++ c :: back) = front ++ [o] ++ (inner ++ c :: back) := by simp
  refine ⟨front, o, inner, b, ho, hin, by simp, ?_, ?_⟩
  · rw [hsplit]
    exact List.take_left' (by simp)
  · rw [hsplit, ← List.append_assoc]
    exact List.take_left' (by simp only [List.length_append, List.length_cons, List.length_nil])

lemma WellNested.check_eq (h : WellNested (placed inner)) (stack : List (Char × Nat)) :
    inner.foldlM step stack = .ok stack := by
  rw [foldlM_step_eq]
  exact h.run stack

lemma exists_foldlM_take (h : WellNested (placed ts)) (k : Nat) :
    ∃ stack, (ts.take k).foldlM step [] = .ok stack := by
  have hall := h.check_eq []
  rw [← List.take_append_drop k ts] at hall
  obtain ⟨stack, hstack, -⟩ := foldlM_append_eq_ok hall
  exact ⟨stack, hstack⟩

/-- A token that opens a bracket leaves it on the stack of the check. -/
lemma step_of_opens {stack stack' : List (Char × Nat)} (ho : .opens b ∈ marks o)
    (h : step stack o = .ok stack') : ∃ rest, stack' = (b, o.start) :: rest := by
  obtain ⟨l, r, hl⟩ := List.append_of_mem ho
  obtain rfl := marks_of_opens hl
  rw [step_eq_foldlM, hl, List.map_append, List.foldlM_append] at h
  cases hmid : (l.map fun m => (m, o.start)).foldlM stepMark stack with
  | error e => rw [hmid] at h; cases h
  | ok rest =>
    rw [hmid] at h
    cases h
    exact ⟨rest, rfl⟩

/-- What the check takes off its stack at a closing bracket is what it put there at the opening
one. -/
lemma Pair.on_stack (h : WellNested (placed ts)) (hpair : Pair ts i j) : ∃ o b stack,
    ts[i]? = some o ∧ .opens b ∈ marks o ∧
      (ts.take (i + 1)).foldlM step [] = .ok ((b, o.start) :: stack) ∧
      (ts.take j).foldlM step [] = .ok ((b, o.start) :: stack) := by
  obtain ⟨front, o, inner, b, ho, hin, hi, hopened, hreached⟩ := hpair.take_eq
  obtain ⟨stack, hstack⟩ := exists_foldlM_take h (i + 1)
  obtain ⟨mid, hfront, hlast⟩ := foldlM_append_eq_ok (hopened ▸ hstack)
  obtain ⟨stack', hstep, hnil⟩ := foldlM_cons_eq_ok hlast
  obtain rfl := Except.ok.inj hnil
  obtain ⟨rest, rfl⟩ := step_of_opens ho hstep
  refine ⟨o, b, rest, hi, ho, hstack, ?_⟩
  rw [hreached, ← hopened, List.foldlM_append, hstack]
  exact hin.check_eq _

lemma Pair.sites {sites : List Site} (h : Pair (sites.map Site.token) i j) :
    ∃ xs s ys u zs b x, sites = xs ++ s :: (ys ++ u :: zs) ∧ xs.length = i ∧
      i + 1 + ys.length = j ∧ .opens b ∈ marks s.token ∧ .closes x ∈ marks u.token ∧
      WellNested (placed (ys.map Site.token)) := by
  obtain ⟨front, o, inner, c, back, b, hts, rfl, rfl, ho, hc, hin⟩ := h
  obtain ⟨xs, behind, rfl, rfl, hbehind⟩ := List.map_eq_append_iff.mp hts
  obtain ⟨s, rest, rfl, rfl, hrest⟩ := List.map_eq_cons_iff.mp hbehind
  obtain ⟨ys, last, rfl, rfl, hlast⟩ := List.map_eq_append_iff.mp hrest
  obtain ⟨u, zs, rfl, rfl, rfl⟩ := List.map_eq_cons_iff.mp hlast
  exact ⟨xs, s, ys, u, zs, b, closer b, rfl, by simp, by simp, ho, hc, hin⟩

lemma Pair.inRange (h : Pair ts i j) : i < j ∧ j < ts.length := by
  obtain ⟨front, o, inner, c, back, b, rfl, rfl, rfl, -⟩ := h
  simp only [List.length_append, List.length_cons]
  omega

/-! ### The closing brackets that are noted -/

namespace Matching

variable {m m' : Matching} {place n p : Nat} {t : Token} {sites : List Site}

lemma readFrom_append {xs ys : List Site} (h : m.readFrom place (xs ++ ys) = .ok m') :
    ∃ mid, m.readFrom place xs = .ok mid ∧ mid.readFrom (place + xs.length) ys = .ok m' := by
  induction xs generalizing m place with
  | nil => exact ⟨m, rfl, h⟩
  | cons x xs ih =>
    obtain ⟨u, hx, hrest⟩ := readFrom_cons h
    obtain ⟨mid, hxs, hys⟩ := ih hrest
    refine ⟨mid, ?_, ?_⟩
    · rw [readFrom, hx]
      exact hxs
    · rwa [List.length_cons, Nat.add_comm xs.length, ← Nat.add_assoc]

lemma fits_readFrom (hm : Fits n place m) (h : m.readFrom place sites = .ok m') :
    Fits n (place + sites.length) m' := by
  induction sites generalizing m place with
  | nil =>
    cases h
    exact hm
  | cons s rest ih =>
    obtain ⟨mid, hread, hrest⟩ := readFrom_cons h
    rw [List.length_cons, Nat.add_comm rest.length, ← Nat.add_assoc]
    exact ih ((moves_of_read hm.length hread).fits hm) hrest

/-- The places go with the stack, on top of those around. -/
lemma Moves.places (h : Moves m place t m') {stack stack' : List (Char × Nat)}
    (hstep : step stack t = .ok stack') {ps base : List Nat} (hplaces : m.places = ps ++ base)
    (hlen : ps.length = stack.length) :
    ∃ ps', m'.places = ps' ++ base ∧ ps'.length = stack'.length := by
  rw [step_eq_ok_iff] at hstep
  cases h with
  | opens hb =>
    rw [hb] at hstep
    obtain rfl := hstep
    exact ⟨place :: ps, congrArg (place :: ·) hplaces, congrArg (· + 1) hlen⟩
  | closes hb _ hp =>
    rw [hb] at hstep
    obtain ⟨opener, i, rfl, -⟩ := hstep
    obtain ⟨q, ps, rfl⟩ := List.exists_cons_of_length_eq_add_one hlen
    exact ⟨ps, (List.cons_eq_cons.mp (hp.symm.trans hplaces)).2, Nat.succ.inj hlen⟩
  | reopens hb _ hp =>
    rw [hb] at hstep
    obtain ⟨opener, i, rest, rfl, -, rfl⟩ := hstep
    obtain ⟨q, ps, rfl⟩ := List.exists_cons_of_length_eq_add_one hlen
    obtain ⟨-, rfl⟩ := List.cons_eq_cons.mp (hp.symm.trans hplaces)
    exact ⟨place :: ps, rfl, hlen⟩
  | none hb =>
    rw [hb] at hstep
    obtain rfl := hstep
    exact ⟨ps, hplaces, hlen⟩

lemma places_readFrom (hm : Fits n place m) (h : m.readFrom place sites = .ok m')
    {stack stack' : List (Char × Nat)}
    (hrun : (sites.map Site.token).foldlM step stack = .ok stack') {ps base : List Nat}
    (hplaces : m.places = ps ++ base) (hlen : ps.length = stack.length) :
    ∃ ps', m'.places = ps' ++ base ∧ ps'.length = stack'.length := by
  induction sites generalizing m place ps stack with
  | nil =>
    cases h
    cases hrun
    exact ⟨ps, hplaces, hlen⟩
  | cons s rest ih =>
    obtain ⟨mid, hread, hrest⟩ := readFrom_cons h
    obtain ⟨stack₁, hstep, hrun⟩ := foldlM_cons_eq_ok hrun
    have hmoves := moves_of_read hm.length hread
    obtain ⟨ps₁, hplaces, hlen⟩ := hmoves.places hstep hplaces hlen
    exact ih (hmoves.fits hm) hrest hrun hplaces hlen

lemma places_of_wellNested (hm : Fits n place m) (h : m.readFrom place sites = .ok m')
    (hin : WellNested (placed (sites.map Site.token))) : m'.places = m.places := by
  obtain ⟨ps, hplaces, hlen⟩ :=
    places_readFrom hm h (hin.check_eq []) (List.nil_append m.places).symm rfl
  rw [hplaces, List.length_eq_zero_iff.mp hlen, List.nil_append]

lemma Moves.places_of_opens (h : Moves m place t m') (ho : .opens b ∈ marks t) :
    ∃ rest, m'.places = place :: rest := by
  unfold marks at ho
  cases h with
  | opens | reopens => exact ⟨_, rfl⟩
  | closes hb | none hb => simp [hb] at ho

/-- A closing bracket is noted for the innermost open one, which it closes. -/
lemma Moves.closers_of_closes (h : Moves m place t m') (hm : Fits n place m)
    (hc : .closes x ∈ marks t) {rest : List Nat} (hp : m.places = p :: rest) :
    m'.closers = m.closers.setIfInBounds p (some place) ∧ p ∉ m'.places := by
  have hnodup := hm.nodup
  have hlt := hm.lt p (hp ▸ List.mem_cons_self)
  rw [hp] at hnodup
  have hnot := (List.nodup_cons.mp hnodup).1
  unfold marks at hc
  cases h with
  | opens hb | none hb => simp [hb] at hc
  | closes hb hs hq =>
    obtain ⟨rfl, rfl⟩ := List.cons_eq_cons.mp (hq.symm.trans hp)
    exact ⟨rfl, hnot⟩
  | reopens hb hs hq =>
    obtain ⟨rfl, rfl⟩ := List.cons_eq_cons.mp (hq.symm.trans hp)
    exact ⟨rfl, List.not_mem_cons_of_ne_of_not_mem (Nat.ne_of_lt hlt) hnot⟩

/-- A bracket is opened at a place. -/
def OpensAt (all : List Site) (p : Nat) : Prop :=
  ∃ s b, all[p]? = some s ∧ .opens b ∈ marks s.token

/-- Only opening brackets are open, or have a closing one noted. -/
structure Opened (all : List Site) (m : Matching) : Prop where
  places : ∀ p ∈ m.places, OpensAt all p
  closers : ∀ p j, m.closers[p]? = some (some j) → OpensAt all p

lemma opened_start (sites : List Site) : Opened sites (start sites) where
  places := nofun
  closers := by
    intro p j h
    rw [start, Array.getElem?_replicate] at h
    split at h <;> cases h

/-- What is noted where the innermost bracket is closed. -/
lemma Opened.closed {all : List Site} (hm : Opened all m) (hp : p ∈ m.places) (q j : Nat)
    (h : (m.closers.setIfInBounds p (some place))[q]? = some (some j)) : OpensAt all q := by
  by_cases hq : p = q
  · exact hq ▸ hm.places p hp
  · rw [Array.getElem?_setIfInBounds_ne hq] at h
    exact hm.closers q j h

lemma Moves.opened {all : List Site} {s : Site} (h : Moves m place s.token m')
    (hs : all[place]? = some s) (hm : Opened all m) : Opened all m' := by
  cases h with
  | opens hb =>
    have hopens : OpensAt all place := ⟨s, _, hs, by rw [marks, hb]; exact List.mem_cons_self⟩
    exact ⟨List.forall_mem_cons.mpr ⟨hopens, hm.places⟩, hm.closers⟩
  | @closes _ q _ _ places hb _ hq =>
    have hplaces := hm.places
    rw [hq] at hplaces
    exact ⟨(List.forall_mem_cons.mp hplaces).2, hm.closed (hq ▸ List.mem_cons_self)⟩
  | @reopens q _ _ places hb _ hq =>
    have hplaces := hm.places
    rw [hq] at hplaces
    have hopens : OpensAt all place :=
      ⟨s, '\x7b', hs, by rw [marks, hb]; exact List.mem_cons_of_mem _ List.mem_cons_self⟩
    exact ⟨List.forall_mem_cons.mpr ⟨hopens, (List.forall_mem_cons.mp hplaces).2⟩,
      hm.closed (hq ▸ List.mem_cons_self)⟩
  | none hb => exact hm

lemma opened_readFrom {all : List Site} (hfits : Fits n place m) (hall : all.drop place = sites)
    (h : m.readFrom place sites = .ok m') (hm : Opened all m) : Opened all m' := by
  induction sites generalizing m place with
  | nil =>
    cases h
    exact hm
  | cons s rest ih =>
    obtain ⟨mid, hread, hrest⟩ := readFrom_cons h
    have hmoves := moves_of_read hfits.length hread
    have hs : all[place]? = some s := by rw [← List.head?_drop, hall, List.head?_cons]
    have hdrop : all.drop (place + 1) = rest := by
      rw [← List.drop_drop, hall, List.drop_succ_cons, List.drop_zero]
    exact ih (hmoves.fits hfits) hdrop hrest (hmoves.opened hs hm)

/-- **A pair is noted** when its closing bracket is read, and what is noted stays. -/
lemma closers_of_pair (h : (start sites).readFrom 0 sites = .ok m)
    (hpair : Pair (sites.map Site.token) i j) : m.closers[i]? = some (some j) := by
  obtain ⟨xs, s, ys, u, zs, b, x, rfl, rfl, rfl, ho, hc, hin⟩ := hpair.sites
  have hfits := fits_start (xs ++ s :: (ys ++ u :: zs))
  obtain ⟨m₁, hxs, h⟩ := readFrom_append h
  have hfits₁ := fits_readFrom hfits hxs
  obtain ⟨m₂, hs, h⟩ := readFrom_cons h
  have hopen := moves_of_read hfits₁.length hs
  have hfits₂ := hopen.fits hfits₁
  obtain ⟨m₃, hys, h⟩ := readFrom_append h
  have hfits₃ := fits_readFrom hfits₂ hys
  obtain ⟨m₄, hu, hzs⟩ := readFrom_cons h
  have hclose := moves_of_read hfits₃.length hu
  -- the bracket opened by `s` is the innermost one again when `u` is read
  obtain ⟨rest, hplaces⟩ := hopen.places_of_opens ho
  have hinner : m₃.places = (0 + xs.length) :: rest :=
    (places_of_wellNested hfits₂ hys hin).trans hplaces
  obtain ⟨hset, hnot⟩ := hclose.closers_of_closes hfits₃ hc hinner
  have hlt : 0 + xs.length < m₃.closers.size := by
    rw [hfits₃.size, List.length_append, List.length_cons]
    omega
  rw [Nat.zero_add] at hnot hset hlt hzs
  rw [getElem?_closers_readFrom (by simpa using hclose.fits hfits₃) hzs hnot (by omega), hset,
    Array.getElem?_setIfInBounds_self_of_lt hlt]

end Matching

lemma exists_split_token {sites : List Site} {s : Site} (hs : sites[i]? = some s) :
    ∃ front back : List Token, sites.map Site.token = front ++ s.token :: back ∧
      front.length = i := by
  obtain ⟨xs, rest, rfl, rfl⟩ := exists_split hs
  exact ⟨xs.map Site.token, rest.map Site.token, by simp, List.length_map _⟩

/-- The closing brackets that are noted are those of the pairs. -/
lemma getElem?_closers_iff {sites : List Site} {cs : Array (Option Nat)}
    (h : WellNested (placed (sites.map Site.token))) (hcs : closers sites = .ok cs) :
    cs[i]? = some (some j) ↔ Pair (sites.map Site.token) i j := by
  obtain ⟨m, hm, -, rfl⟩ := closers_eq_ok_iff.mp hcs
  refine ⟨fun hj => ?_, Matching.closers_of_pair hm⟩
  have hopened := Matching.opened_readFrom (Matching.fits_start sites) List.drop_zero hm
    (Matching.opened_start sites)
  obtain ⟨s, b, hs, hb⟩ := hopened.closers i j hj
  obtain ⟨front, back, htokens, rfl⟩ := exists_split_token hs
  obtain ⟨k, hpair⟩ := exists_pair_of_opens (htokens ▸ h) hb
  rw [← htokens] at hpair
  rw [Matching.closers_of_pair hm hpair] at hj
  cases hj
  exact hpair

/-! ### The pairs of a script -/

/-- What is found out about the brackets of some sites, with their closing brackets in a table. -/
structure Paired (sites : List Site) (closers : Array (Option Nat)) : Prop where
  size : closers.size = sites.length
  /-- The closing bracket in the table is that of the pair. -/
  pair : ∀ {i j : Nat}, closers[i]? = some (some j) ↔ Pair (sites.map Site.token) i j
  /-- Each opening bracket has its closing one in the table, at a later site. -/
  closed : ∀ {i : Nat} {s : Site} {b : Char}, sites[i]? = some s → .opens b ∈ marks s.token →
    ∃ j, closers[i]? = some (some j) ∧ i < j ∧ j < sites.length
  /-- Each closing bracket stands there for one opening bracket. -/
  opened : ∀ {j : Nat} {s : Site} {x : Char}, sites[j]? = some s → .closes x ∈ marks s.token →
    ∃! i : Nat, closers[i]? = some (some j)
  /-- The closing bracket takes what the opening one put on the stack. -/
  onStack : ∀ {i j : Nat}, closers[i]? = some (some j) → ∃ s b stack, sites[i]? = some s ∧
    .opens b ∈ marks s.token ∧
    ((sites.take (i + 1)).map Site.token).foldlM step [] = .ok ((b, s.token.start) :: stack) ∧
    ((sites.take j).map Site.token).foldlM step [] = .ok ((b, s.token.start) :: stack)
  /-- A parenthesis finds its closing one, and knows whether an arrow follows that. -/
  arrow : ∀ {i : Nat} {s : Site}, sites[i]? = some s → s.token.isPunct "(" = true →
    ∃ j, closers[i]? = some (some j) ∧ j < sites.length ∧
      (s.beforeArrow = true ↔ ∃ n, sites[j + 1]? = some n ∧ n.token.isPunct "=>" = true)
  /-- Nothing else is marked. -/
  unmarked : ∀ s ∈ sites, s.token.isPunct "(" = false → s.beforeArrow = false

section

variable {tokens : List Token} {cs : Array (Option Nat)}

lemma map_token_significant_eq (tokens : List Token) :
    (significant 0 false tokens).map Site.token = (ofTokens tokens).map Site.token := by
  rw [map_token_ofTokens, map_token_significant]

lemma length_significant_eq (tokens : List Token) :
    (significant 0 false tokens).length = (ofTokens tokens).length := by
  simpa using congrArg List.length (map_token_significant_eq tokens)

/-- A site of a script with what it was before it got its mark. -/
lemma exists_of_getElem?_ofTokens (hcs : closers (significant 0 false tokens) = .ok cs) {s : Site}
    (hs : (ofTokens tokens)[i]? = some s) : s.beforeArrow
      = (s.token.isPunct "(" && arrowAfter cs (significant 0 false tokens).toArray i) := by
  rw [ofTokens, hcs] at hs
  dsimp only at hs
  rw [withArrows, List.getElem?_mapIdx, Option.map_eq_some_iff] at hs
  obtain ⟨s', -, rfl⟩ := hs
  rfl

/-- A mark stands where an arrow follows the closing bracket in the table. -/
lemma beforeArrow_iff (hcs : closers (significant 0 false tokens) = .ok cs) {s : Site}
    (hs : (ofTokens tokens)[i]? = some s) (hparen : s.token.isPunct "(" = true)
    (hj : cs[i]? = some (some j)) : s.beforeArrow = true ↔
      ∃ n, (ofTokens tokens)[j + 1]? = some n ∧ n.token.isPunct "=>" = true := by
  have htoken : ((significant 0 false tokens)[j + 1]?).map Site.token
      = ((ofTokens tokens)[j + 1]?).map Site.token := by
    rw [← List.getElem?_map, map_token_significant_eq, List.getElem?_map]
  have hany := congrArg (Option.any fun t : Token => t.isPunct "=>") htoken
  rw [Option.any_map, Option.any_map] at hany
  rw [exists_of_getElem?_ofTokens hcs hs, hparen, Bool.true_and, arrowAfter, hj, Option.join_some,
    Option.bind_some, List.getElem?_toArray, ← Option.any_eq_true]
  exact Bool.eq_iff_iff.mp hany

lemma paired_ofTokens (h : WellNested (placed ((ofTokens tokens).map Site.token)))
    (hcs : closers (significant 0 false tokens) = .ok cs) : Paired (ofTokens tokens) cs := by
  have hpair {i j : Nat} :
      cs[i]? = some (some j) ↔ Pair ((ofTokens tokens).map Site.token) i j := by
    have hiff := getElem?_closers_iff (i := i) (j := j)
      ((map_token_significant_eq tokens).symm ▸ h) hcs
    rwa [map_token_significant_eq] at hiff
  have hclosed {i : Nat} {s : Site} {b : Char} (hs : (ofTokens tokens)[i]? = some s)
      (hb : .opens b ∈ marks s.token) :
      ∃ j, cs[i]? = some (some j) ∧ i < j ∧ j < (ofTokens tokens).length := by
    obtain ⟨front, back, htokens, rfl⟩ := exists_split_token hs
    obtain ⟨j, hj⟩ := exists_pair_of_opens (htokens ▸ h) hb
    rw [← htokens] at hj
    exact ⟨j, hpair.mpr hj, by simpa using hj.inRange⟩
  refine ⟨?_, hpair, hclosed, fun {j s x} hs hx => ?_, fun {i j} hj => ?_,
    fun {i s} hs hparen => ?_,
    fun s hs hparen => ?_⟩
  · obtain ⟨m, hm, -, rfl⟩ := closers_eq_ok_iff.mp hcs
    rw [(Matching.fits_readFrom (Matching.fits_start _) hm).size, length_significant_eq]
  · obtain ⟨front, back, htokens, rfl⟩ := exists_split_token hs
    obtain ⟨i, hi⟩ := exists_pair_of_closes (htokens ▸ h) hx
    rw [← htokens] at hi
    exact ⟨i, hpair.mpr hi, fun k hk => (hpair.mp hk).left_unique hi⟩
  · obtain ⟨o, b, stack, ho, hb, hopened, hreached⟩ := (hpair.mp hj).on_stack h
    rw [List.getElem?_map, Option.map_eq_some_iff] at ho
    obtain ⟨s, hs, rfl⟩ := ho
    rw [List.map_take, List.map_take]
    exact ⟨s, b, stack, hs, hb, hopened, hreached⟩
  · have hb : .opens '(' ∈ marks s.token := by
      rw [marks, (bracket_eq_paren _).mpr hparen]
      exact List.mem_cons_self
    obtain ⟨j, hj, -, hlt⟩ := hclosed hs hb
    exact ⟨j, hj, hlt, beforeArrow_iff hcs hs hparen hj⟩
  · obtain ⟨i, hi⟩ := List.getElem?_of_mem hs
    rw [exists_of_getElem?_ofTokens hcs hi, hparen, Bool.false_and]

end

end Brackets

namespace Tracker

open Brackets

/-- The tracker when it has read the first `k` of some sites. -/
def upTo (sites : List Site) (k : Nat) : Tracker :=
  start.readAll ((sites[k]?).map Site.token) (sites.take k)

lemma run_upTo (sites : List Site) (k : Nat) :
    (upTo sites k).run (sites.drop k) = start.run sites := by
  conv_rhs => rw [← List.take_append_drop k sites]
  rw [run_append, List.head?_drop]
  rfl

/-- How many brackets are open. -/
def nesting (ms : List (Mark × Nat)) : Int :=
  (ms.map fun m => match m.1 with
    | .opens _ => (1 : Int)
    | .closes _ => -1).sum

/-- The frames of the tracker along the brackets of some sites. -/
structure InStep (sites : List Site) : Prop where
  /-- One frame for each open bracket, and one for the script. -/
  depth : ∀ k ≤ sites.length,
    ((upTo sites k).depth : Int) = nesting (placed ((sites.take k).map Site.token)) + 1
  /-- The frames that are there after an opening bracket stay up to its closing one. -/
  kept : ∀ {i j k}, Pair (sites.map Site.token) i j → i < k → k ≤ j →
    (upTo sites (i + 1)).stack <:+ (upTo sites k).stack
  /-- The frame that a closing bracket ends is that of its opening one, never that of the script. -/
  own : ∀ {i j}, Pair (sites.map Site.token) i j →
    (upTo sites j).stack = (upTo sites (i + 1)).stack ∧ (upTo sites j).outer ≠ []
  /-- From each place on the tracker gets to where the whole script takes it. -/
  goesOn : ∀ k, (upTo sites k).run (sites.drop k) = start.run sites
  /-- At the end the frame of the script is left. -/
  root : (start.run sites).stack = [(.root, ScopeTree.global)]

variable {sites : List Site} {i j k : Nat}

@[simp] lemma nesting_nil : nesting [] = 0 := rfl

@[simp] lemma nesting_opens (c : Char) (i : Nat) (ms : List (Mark × Nat)) :
    nesting ((.opens c, i) :: ms) = 1 + nesting ms := List.sum_cons

@[simp] lemma nesting_closes (c : Char) (i : Nat) (ms : List (Mark × Nat)) :
    nesting ((.closes c, i) :: ms) = -1 + nesting ms := List.sum_cons

lemma nesting_of_run {ms : List (Mark × Nat)} {stack stack' : List (Char × Nat)}
    (h : ms.foldlM stepMark stack = .ok stack') :
    (stack'.length : Int) = stack.length + nesting ms := by
  induction ms generalizing stack with
  | nil =>
    cases h
    simp
  | cons m ms ih =>
    match m with
    | (.opens c, i) =>
      rw [foldlM_opens] at h
      have hlen := ih h
      rw [List.length_cons] at hlen
      rw [nesting_opens]
      omega
    | (.closes c, i) =>
      cases hc : Brackets.close c i stack with
      | error e =>
        rw [foldlM_closes_error hc] at h
        cases h
      | ok rest =>
        rw [foldlM_closes hc] at h
        obtain ⟨opener, j, rfl, -⟩ := Brackets.close_eq_ok_iff.mp hc
        have hlen := ih h
        rw [nesting_closes, List.length_cons]
        omega

lemma upTo_add (sites : List Site) (i n : Nat) : upTo sites (i + n)
    = (upTo sites i).readAll ((sites[i + n]?).map Site.token) ((sites.drop i).take n) := by
  have hnext : (((sites.drop i).take n).head?.map Site.token).or ((sites[i + n]?).map Site.token)
      = (sites[i]?).map Site.token := by
    cases n with
    | zero => rfl
    | succ n =>
      rw [List.head?_take, if_neg (Nat.succ_ne_zero n), List.head?_drop]
      cases hi : sites[i]? with
      | some s => rfl
      | none =>
        have hlen := List.getElem?_eq_none_iff.mp hi
        rw [List.getElem?_eq_none (by omega)]
        rfl
  unfold upTo
  rw [List.take_add, readAll_append, hnext]

/-- What stands between the brackets of a pair, up to a place. -/
lemma exists_between_pair (h : Pair (sites.map Site.token) i j) {n : Nat} (hn : i + 1 + n ≤ j) :
    ∃ ys : List Site, (sites.drop (i + 1)).take n = ys.take n ∧ WellNested
      (placed (ys.map Site.token)) ∧
      i + 1 + ys.length = j := by
  obtain ⟨xs, s, ys, u, zs, b, x, rfl, rfl, rfl, -, -, hin⟩ := h.sites
  refine ⟨ys, ?_, hin, rfl⟩
  rw [List.append_cons, List.drop_left' (by simp), List.take_append_of_le_length (by omega)]

lemma exists_inside (h : WellNested (placed (sites.map Site.token))) (k : Nat) :
    ∃ stack, ((sites.take k).map Site.token).foldlM Brackets.step [] = .ok stack ∧
      Inside [(.root, ScopeTree.global)] [] stack.length (upTo sites k) := by
  obtain ⟨stack, hstack⟩ := exists_foldlM_take h k
  rw [← List.map_take] at hstack
  exact ⟨stack, hstack, inside_readAll Braces.inside_start (List.cons_ne_nil _ _) _ hstack⟩

lemma inside_pair (h : WellNested (placed (sites.map Site.token)))
    (hpair : Pair (sites.map Site.token) i j) {n : Nat} (hn : i + 1 + n ≤ j) :
    ∃ frames, (upTo sites (i + 1 + n)).stack = frames ++ (upTo sites (i + 1)).stack ∧
      (i + 1 + n = j → frames = []) := by
  obtain ⟨ys, hys, hin, hj⟩ := exists_between_pair hpair hn
  obtain ⟨_, -, hopened⟩ := exists_inside h (i + 1)
  have hbase : Inside (upTo sites (i + 1)).stack _ ([] : List (Char × Nat)).length
      (upTo sites (i + 1)) := ⟨⟨[], rfl, rfl⟩, rfl, hopened.tidy⟩
  obtain ⟨stack, hstack⟩ := exists_foldlM_take hin n
  rw [← List.map_take, ← hys] at hstack
  obtain ⟨frames, hlen, hframes⟩ := (inside_readAll hbase (List.cons_ne_nil _ _) _ hstack).stack
  rw [← upTo_add] at hframes
  refine ⟨frames, hframes, fun hlast => ?_⟩
  rw [hys, List.take_of_length_le (by omega), hin.check_eq] at hstack
  cases hstack
  exact List.length_eq_zero_iff.mp hlen

lemma inStep (h : WellNested (placed (sites.map Site.token))) : InStep sites where
  depth := by
    intro k _
    obtain ⟨stack, hstack, hinside⟩ := exists_inside h k
    rw [foldlM_step_eq] at hstack
    have hnesting := nesting_of_run hstack
    have hdepth := hinside.depth
    simp only [List.length_cons, List.length_nil] at hnesting hdepth
    omega
  kept := by
    intro i j k hpair hik hkj
    obtain ⟨n, rfl⟩ := Nat.exists_eq_add_of_le (show i + 1 ≤ k by omega)
    obtain ⟨frames, hframes, -⟩ := inside_pair h hpair hkj
    exact ⟨frames, hframes.symm⟩
  own := by
    intro i j hpair
    obtain ⟨n, rfl⟩ := Nat.exists_eq_add_of_le (show i + 1 ≤ j from hpair.inRange.1)
    obtain ⟨frames, hframes, hlast⟩ := inside_pair h hpair le_rfl
    obtain rfl := hlast rfl
    refine ⟨hframes, ?_⟩
    obtain ⟨o, b, rest, -, -, -, hreached⟩ := hpair.on_stack h
    obtain ⟨stack, hstack, hinside⟩ := exists_inside h (i + 1 + n)
    rw [List.map_take, hreached] at hstack
    cases hstack
    have hdepth := hinside.depth
    simp only [Tracker.depth, List.length_cons] at hdepth
    exact List.ne_nil_of_length_pos (by omega)
  goesOn := run_upTo sites
  root := by
    have hstack : (sites.map Site.token).foldlM Brackets.step [] = .ok [] := h.check_eq []
    obtain ⟨frames, hlen, hframes⟩ :=
      (inside_readAll Braces.inside_start (List.cons_ne_nil _ _) none hstack).stack
    obtain rfl := List.length_eq_zero_iff.mp hlen
    rw [run_eq_readAll]
    exact hframes

end Tracker

/-! ### The check and the tracker -/

lemma ScopeTree.ofTokens_eq_ok {tokens : List Token} :
    (∃ tree, ofTokens tokens = .ok tree) ↔ Brackets.check tokens = .ok () := by
  rw [ofTokens_eq]
  cases Brackets.check tokens with
  | error e => exact ⟨fun ⟨_, h⟩ => (nomatch h), nofun⟩
  | ok u => exact ⟨fun _ => rfl, fun _ => ⟨_, rfl⟩⟩

lemma ScopeTree.ofTokens_eq_error {tokens : List Token} {e : ScopeError} :
    ofTokens tokens = .error e ↔ Brackets.check tokens = .error e := by
  rw [ofTokens_eq]
  cases Brackets.check tokens with
  | error e' =>
    exact ⟨fun h => congrArg _ (Except.error.inj h), fun h => congrArg _ (Except.error.inj h)⟩
  | ok u => exact ⟨nofun, nofun⟩

/-- **Brackets.** The scopes of a script are found just when its brackets are well nested. Otherwise
the bracket at fault is reported. Well-nested brackets come in the pairs that are noted, and the
frames of the tracker go along with them. -/
theorem brackets_checked (tokens : List Token) :
    ((∃ tree, ScopeTree.ofTokens tokens = .ok tree) ↔ Brackets.WellNested (Brackets.placed tokens)) ∧
      (∀ e, ScopeTree.ofTokens tokens = .error e ↔ Brackets.Fault (Brackets.placed tokens) e) ∧
      (Brackets.WellNested (Brackets.placed tokens) →
        ∃ closers, Brackets.closers (Site.significant 0 false tokens) = .ok closers ∧
          Brackets.Paired (Site.ofTokens tokens) closers ∧
          Tracker.InStep (Site.ofTokens tokens)) := by
  refine ⟨?_, fun e => ?_, fun h => ?_⟩
  · rw [ScopeTree.ofTokens_eq_ok, Brackets.check_eq_ok_iff]
  · rw [ScopeTree.ofTokens_eq_error, Brackets.check_eq_error_iff]
  · have hcheck := (Brackets.check_eq_ok_iff tokens).mpr h
    have hsites : Brackets.WellNested
      (Brackets.placed ((Site.ofTokens tokens).map Site.token)) := by
      rw [← Brackets.check_eq_ok_iff, Brackets.check_eq_ok, Site.foldlM_step_ofTokens,
        ← Brackets.check_eq_ok]
      exact hcheck
    obtain ⟨closers, hclosers⟩ := Brackets.exists_closers hcheck
    exact ⟨closers, hclosers, Brackets.paired_ofTokens hsites hclosers, Tracker.inStep hsites⟩

end Minify
