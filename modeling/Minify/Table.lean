/-!
Tables: values by name, in the order of the names.
-/

namespace Minify

namespace Table

/-- The pairs of `entries` stand in the order of their names, and no name comes twice. -/
def Ordered {α : Type} (entries : List (String × α)) : Prop :=
  entries.Pairwise fun a b => a.1 < b.1

def put {α : Type} (name : String) (v : α) : List (String × α) → List (String × α)
  | [] => [(name, v)]
  | (k, w) :: rest =>
    if name = k then (name, v) :: rest
    else if name < k then (name, v) :: (k, w) :: rest
    else (k, w) :: put name v rest

theorem mem_put {α : Type} {name : String} {v : α} {entries : List (String × α)}
    {e : String × α} (h : e ∈ put name v entries) : e = (name, v) ∨ e ∈ entries := by
  fun_induction put name v entries <;> grind

theorem ordered_put {α : Type} (name : String) (v : α) {entries : List (String × α)}
    (h : Ordered entries) : Ordered (put name v entries) := by
  fun_induction put name v entries with
  | case1 => exact List.pairwise_singleton _ _
  | case2 w rest => simpa [Ordered] using h
  | case3 k w rest hne hlt =>
    refine List.pairwise_cons.2 ⟨fun e he => ?_, h⟩
    rcases List.mem_cons.1 he with rfl | he
    · exact hlt
    · exact String.lt_trans hlt ((List.pairwise_cons.1 h).1 e he)
  | case4 k w rest hne hlt ih =>
    obtain ⟨h1, h2⟩ := List.pairwise_cons.1 h
    refine List.pairwise_cons.2 ⟨fun e he => ?_, ih h2⟩
    rcases mem_put he with rfl | he
    · exact Std.lt_of_le_of_ne (String.not_lt.1 hlt) (Ne.symm hne)
    · exact h1 e he

end Table

structure Table (α : Type) where
  entries : List (String × α)
  ordered : Table.Ordered entries

namespace Table

variable {α : Type}

theorem ext {a b : Table α} (h : a.entries = b.entries) : a = b := by
  cases a; cases b; cases h; rfl

instance [DecidableEq α] : DecidableEq (Table α) := fun a b =>
  if h : a.entries = b.entries then isTrue (ext h)
  else isFalse fun e => h (congrArg entries e)

def empty : Table α := ⟨[], List.Pairwise.nil⟩

instance : Inhabited (Table α) := ⟨empty⟩

def insert (t : Table α) (name : String) (v : α) : Table α :=
  ⟨put name v t.entries, ordered_put name v t.ordered⟩

/-- The table of some pairs; of several with one name, the last counts. -/
def ofList (pairs : List (String × α)) : Table α :=
  pairs.foldl (fun t p => t.insert p.1 p.2) empty

end Table

end Minify
