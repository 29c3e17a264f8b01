import Minify.Proofs.TrackerRuns

/-!
What is recorded while sites are read, and what it refers to.

The meaning of a name in a scope hangs on the parents and the names of the scopes around it. It
stays while scopes are added inside, so the occurrences recorded in one part of a script and those
of the next part can be put together.
-/

namespace Minify.Tracker

variable {s t u : Tracker} {site : Site}

def refersTo (s : Tracker) (name : String) (id : ScopeId) : Option ScopeId :=
  (Scope.ancestors s.scopes id).find? fun j => Scope.binds s.scopes j name

/-- What a scope adds to the meaning of names: its parent and what it binds. -/
def outline (sc : Scope) : Option ScopeId × List String := (sc.parent, sc.bindings)

/-- The first scopes keep their meaning. -/
def AgreeBelow (n : Nat) (s t : Tracker) : Prop :=
  ∀ i < n, (t.scopes[i]?).map outline = (s.scopes[i]?).map outline

lemma parent_of_outline {a b : Option Scope} (h : a.map outline = b.map outline) :
    a.bind Scope.parent = b.bind Scope.parent := by
  cases a <;> cases b <;> simp_all [outline]

lemma binds_of_outline {scopes scopes' : Array Scope} {i : ScopeId} {name : String}
    (h : (scopes'[i]?).map outline = (scopes[i]?).map outline) :
    Scope.binds scopes' i name = Scope.binds scopes i name := by
  unfold Scope.binds
  cases hs : scopes[i]? <;> cases hs' : scopes'[i]? <;> simp_all [outline]

lemma AgreeBelow.refersTo {n : Nat} (h : AgreeBelow n s t) {id : ScopeId} (hid : id < n)
    (name : String) : t.refersTo name id = s.refersTo name id := by
  have hpath : Scope.ancestors t.scopes id = Scope.ancestors s.scopes id :=
    Scope.ancestors_congr fun i hi => parent_of_outline (h i (Nat.lt_of_le_of_lt hi hid))
  unfold Tracker.refersTo
  rw [hpath, ← List.head?_filter, ← List.head?_filter]
  refine congrArg List.head? (List.filter_congr fun i hi => ?_)
  have hle := Scope.le_of_mem_ancestors hi
  exact binds_of_outline (h i (Nat.lt_of_le_of_lt hle hid))

/-- Some scopes were added inside those there were, and some names were recorded, which refer to
`found`. -/
structure Adds (s t : Tracker) (opened : Nat) (found : List (String × Option ScopeId)) : Prop where
  size : t.scopes.size = s.scopes.size + opened
  agree : AgreeBelow s.scopes.size s t
  recorded : ∃ new, t.occurrences = new ++ s.occurrences ∧ (∀ o ∈ new, o.scope < t.scopes.size) ∧
    new.reverse.map (fun o => (o.name, t.refersTo o.name o.scope)) = found

variable {a b : Nat} {f g : List (String × Option ScopeId)}

lemma Adds.of_eq (hs : t.scopes = s.scopes) (ho : t.occurrences = s.occurrences) :
    Adds s t 0 [] :=
  ⟨congrArg Array.size hs, fun i _ => by rw [hs], [], ho, nofun, rfl⟩

lemma Adds.refersTo (h : Adds s t a f) {id : ScopeId} (hid : id < s.scopes.size) (name : String) :
    t.refersTo name id = s.refersTo name id :=
  h.agree.refersTo hid name

lemma Adds.trans (h : Adds s t a f) (h' : Adds t u b g) : Adds s u (a + b) (f ++ g) := by
  obtain ⟨new, hnew, hlt, hf⟩ := h.recorded
  obtain ⟨new', hnew', hlt', hg⟩ := h'.recorded
  have hsize := h.size
  have hsize' := h'.size
  refine ⟨by omega, fun i hi => ?_, new' ++ new, ?_, fun o ho => ?_, ?_⟩
  · rw [h'.agree i (by omega), h.agree i hi]
  · rw [hnew', hnew, List.append_assoc]
  · rcases List.mem_append.mp ho with ho | ho
    · exact hlt' o ho
    · exact Nat.lt_of_lt_of_le (hlt o ho) (by omega)
  · rw [List.reverse_append, List.map_append, hg, ← hf]
    congr 1
    refine List.map_congr_left fun o ho => ?_
    rw [h'.refersTo (hlt o (List.mem_reverse.mp ho))]

/-- In a scope names refer to what is said. -/
structure Sees (s : Tracker) (id : ScopeId) (sees : String → Option ScopeId) : Prop where
  lt : id < s.scopes.size
  refersTo : ∀ name, s.refersTo name id = sees name

variable {sees : String → Option ScopeId} {id : ScopeId}

lemma Sees.adds (h : Sees s id sees) (h' : Adds s t a f) : Sees t id sees := by
  have hsize := h'.size
  exact ⟨Nat.lt_of_lt_of_le h.lt (by omega), fun name => (h'.refersTo h.lt name).trans
    (h.refersTo name)⟩

lemma adds_mention (hcur : s.current < s.scopes.size) (site : Site) (shorthand : Bool) :
    Adds s (s.mention site s.current shorthand) 0
      [(site.token.text, s.refersTo site.token.text s.current)] :=
  ⟨rfl, fun _ _ => rfl, [_], rfl, fun o ho => by rw [List.mem_singleton.mp ho]; exact hcur, rfl⟩

lemma adds_markEval (s : Tracker) : Adds s s.markEval 0 [] := by
  refine ⟨size_markEval s, fun i _ => ?_, [], rfl, nofun, rfl⟩
  rw [getElem?_markEval, Option.map_map]
  rfl

/-- A new scope inside a scope adds its names to those there. -/
lemma refersTo_new {sc : Scope} (hsc : t.scopes[s.scopes.size]? = some sc)
    (hp : sc.parent = some id) (hid : id < s.scopes.size) (h : AgreeBelow s.scopes.size s t)
    (name : String) : t.refersTo name s.scopes.size
      = if name ∈ sc.bindings then some s.scopes.size else s.refersTo name id := by
  have hpath : Scope.ancestors t.scopes s.scopes.size
      = s.scopes.size :: Scope.ancestors t.scopes id :=
    Scope.ancestors_of_parent (by rw [hsc]; exact hp) hid
  have hbinds : Scope.binds t.scopes s.scopes.size name = decide (name ∈ sc.bindings) := by
    unfold Scope.binds
    rw [hsc]
    simp
  rw [← h.refersTo hid]
  unfold Tracker.refersTo
  rw [hpath, List.find?_cons, hbinds]
  by_cases hn : name ∈ sc.bindings <;> simp [hn]

end Minify.Tracker
