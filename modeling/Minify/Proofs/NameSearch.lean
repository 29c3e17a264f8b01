import Minify.Proofs.CaptureFree
import Minify.Proofs.EndingLoops

/-!
The search for a short name ends.

Short names number the words over the small letters: each word is the name of one number, and longer
words come later. Names are taken by other things in the scope, blocked by scopes further in, or
protected, and these are finitely many; so a search that goes through the names one by one meets a
free one, at the latest when it has seen all that are taken. The names of a run are found in this
way, one binding after the other.
-/

namespace Minify

namespace ShortName

/-- The words over the small letters. -/
def words : Set String := {w | w ≠ "" ∧ ∀ c ∈ w.toList, 'a' ≤ c ∧ c ≤ 'z'}

lemma exists_letter {c : Char} (hc : 'a' ≤ c ∧ c ≤ 'z') : ∃ i < 26, letter i = c := by
  have hlow : 97 ≤ c.toNat := hc.1
  have hhigh : c.toNat ≤ 122 := hc.2
  refine ⟨c.toNat - 97, by omega, ?_⟩
  rw [letter, Nat.sub_add_cancel hlow, Char.ofNat_toNat]

/-- A word is the name at an index: its last letter is the remainder, and the letters in front of it
give the quotient. -/
lemma exists_letters {cs : List Char} (hne : cs ≠ []) (hcs : ∀ c ∈ cs, 'a' ≤ c ∧ c ≤ 'z') :
    ∃ n, letters n = cs := by
  induction cs using List.reverseRecOn with
  | nil => exact absurd rfl hne
  | append_singleton cs c ih =>
    obtain ⟨i, hi, rfl⟩ := exists_letter (hcs c (by simp))
    rcases eq_or_ne cs [] with rfl | hcs'
    · exact ⟨i, letters_of_lt hi⟩
    · obtain ⟨k, rfl⟩ := ih hcs' fun c hc => hcs c (List.mem_append_left _ hc)
      exact ⟨26 * (k + 1) + i, positional.text_mul_add (Nat.succ_pos k) hi⟩

/-- Each word over the small letters is the short name at one index. -/
theorem bijOn_nth : Set.BijOn nth Set.univ words := by
  refine ⟨fun n _ => ⟨fun he => ?_, fun c hc => ?_⟩, fun m _ n _ => nth_injective, fun w hw => ?_⟩
  · apply letters_ne_nil n
    rw [← toList_nth, he]
    rfl
  · rw [toList_nth] at hc
    exact small_of_mem_letters hc
  · have hne : w.toList ≠ [] := fun he => hw.1 (String.toList_eq_nil_iff.mp he)
    obtain ⟨n, hn⟩ := exists_letters hne hw.2
    exact ⟨n, Set.mem_univ n, String.toList_inj.mp ((toList_nth n).trans hn)⟩

end ShortName

namespace Shrink.Context

variable {ctx : Context} {used blocked : Std.HashSet String}

/-! ### One search -/

lemma endsAfter_choose (ctx : Context) (used blocked : Std.HashSet String) :
    EndsAfter (Candidate.attempt (ctx.isFree used blocked)) 0 (ctx.choose used blocked + 1)
      (ctx.choose used blocked) :=
  Candidate.endsAfter_first (ctx.isFree_choose used blocked)

/-! ### The searches of a run -/

/-- The short names given, and the names used in a scope, when its bindings `named` have been named,
after those of the scopes before it. -/
def naming (ctx : Context) (id : ScopeId) (named : List String) :
    Std.HashMap Binding String × Std.HashSet String :=
  named.foldl (ctx.assignBinding ctx.constraints id)
    (ctx.namesBefore id, ctx.usedNames (ctx.namesBefore id) id)

def blockedNames (ctx : Context) (b : Binding) : Std.HashSet String :=
  Std.HashSet.ofList (ctx.constraints.blocked.getD b [])

variable {id : ScopeId} {named rest names : List String} {name : String}
  {s : Std.HashMap Binding String × Std.HashSet String}

lemma assignBinding_of_renamable (hren : ctx.isRenamable (id, name) = true) {n : Nat}
    (hn : n = ctx.choose s.2 (ctx.blockedNames (id, name))) :
    ctx.assignBinding ctx.constraints id s name =
      (s.1.insert (id, name) (ShortName.nth n), s.2.insert (ShortName.nth n)) := by
  unfold assignBinding
  rw [if_pos hren, hn]
  rfl

lemma naming_concat (named : List String) (hren : ctx.isRenamable (id, name) = true) {n : Nat}
    (hn : n = ctx.choose (ctx.naming id named).2 (ctx.blockedNames (id, name))) :
    ctx.naming id (named ++ [name]) = ((ctx.naming id named).1.insert (id, name) (ShortName.nth n),
      (ctx.naming id named).2.insert (ShortName.nth n)) := by
  rw [naming, List.foldl_append, List.foldl_cons, List.foldl_nil, ← naming,
    assignBinding_of_renamable hren hn]

lemma getElem?_assignBinding {b : Binding} (hne : b ≠ (id, name)) :
    (ctx.assignBinding ctx.constraints id s name).1[b]? = s.1[b]? := by
  unfold assignBinding
  split
  · rw [Std.HashMap.getElem?_insert, if_neg]
    simpa using hne.symm
  · rfl

lemma getElem?_foldl {b : Binding} (hne : ∀ name ∈ names, b ≠ (id, name)) :
    (names.foldl (ctx.assignBinding ctx.constraints id) s).1[b]? = s.1[b]? := by
  induction names generalizing s with
  | nil => rfl
  | cons name names ih =>
    rw [List.foldl_cons, ih fun n hn => hne n (List.mem_cons_of_mem name hn)]
    exact getElem?_assignBinding (hne name List.mem_cons_self)

/-- Naming a scope gives its bindings the names of its searches, and leaves all others. -/
lemma getElem?_namesBefore_succ (b : Binding) :
    (ctx.namesBefore (id + 1))[b]? =
      if b.1 = id ∧ ctx.tree.isRenamable id = true then (ctx.naming id (ctx.bindings id)).1[b]?
      else (ctx.namesBefore id)[b]? := by
  rw [namesBefore_succ]
  unfold assignScope
  split
  · rename_i hren
    change (ctx.naming id (ctx.bindings id)).1[b]? = _
    by_cases hb : b.1 = id
    · rw [if_pos ⟨hb, hren⟩]
    · rw [if_neg fun h => hb h.1]
      exact getElem?_foldl fun name _ he => hb (congrArg Prod.fst he)
  · rename_i hren
    rw [if_neg fun h => hren h.2]

lemma getElem?_assign {b : Binding} (hb : b.1 < ctx.tree.scopes.size) :
    ctx.assign[b]? = (ctx.namesBefore (b.1 + 1))[b]? := by
  have hlater (n : Nat) (hn : b.1 + 1 ≤ n) :
      (ctx.namesBefore n)[b]? = (ctx.namesBefore (b.1 + 1))[b]? := by
    induction n, hn using Nat.le_induction with
    | base => rfl
    | succ n hn ih =>
      rw [getElem?_namesBefore_succ, if_neg fun h => Nat.ne_of_lt hn h.1, ih]
  exact hlater ctx.tree.scopes.size hb

lemma assign_eq_of_naming (hbind : ctx.bindings id = named ++ name :: rest) (hrest : name ∉ rest)
    (hren : ctx.isRenamable (id, name) = true) {short : String}
    (hshort : (ctx.naming id (named ++ [name])).1[((id, name) : Binding)]? = some short) :
    ctx.assign[((id, name) : Binding)]? = some short := by
  have hmem : name ∈ ctx.bindings id := by simp [hbind]
  have htree : ctx.tree.isRenamable id = true := by
    simp only [isRenamable, Bool.and_eq_true] at hren
    exact hren.1.1.1
  rw [getElem?_assign (lt_of_mem_bindings hmem), getElem?_namesBefore_succ, if_pos ⟨rfl, htree⟩,
    hbind, ← hshort, List.append_cons]
  unfold naming
  rw [List.foldl_append]
  refine getElem?_foldl fun other hother he => hrest ?_
  obtain rfl : name = other := congrArg Prod.snd he
  exact hother

end Shrink.Context

open Minify.Shrink

/-- **The search for a short name ends.** The short names are all words over the small letters, each
once, shorter ones first and those of one length by the alphabet. So in every tree, whatever names
are protected or have private ones, a search for the name of a binding ends without any bound on it,
after one round more than names are taken at most. The scope goes on with the name found, and the
binding has it in the end. -/
theorem name_search_ends :
    Set.BijOn ShortName.nth Set.univ ShortName.words ∧
      (∀ m n, List.Shortlex (· < ·) (ShortName.nth m).toList (ShortName.nth n).toList ↔ m < n) ∧
      ∀ (ctx : Context) (id : ScopeId) (named rest : List String) (name : String),
        ctx.bindings id = named ++ name :: rest → ctx.isRenamable (id, name) = true →
        let used := (ctx.naming id named).2
        let blocked := ctx.blockedNames (id, name)
        ∃ rounds n, rounds ≤ (ctx.takenNames used blocked).card + 1 ∧
          EndsAfter (Candidate.attempt (ctx.isFree used blocked)) 0 rounds n ∧
          ctx.naming id (named ++ [name]) =
            ((ctx.naming id named).1.insert (id, name) (ShortName.nth n),
              used.insert (ShortName.nth n)) ∧
          (name ∉ rest → ctx.assign[((id, name) : Binding)]? = some (ShortName.nth n)) := by
  refine ⟨ShortName.bijOn_nth, fun m n => ?_, fun ctx id named rest name hbind hren => ?_⟩
  · rw [ShortName.toList_nth, ShortName.toList_nth]
    exact ShortName.letters_shortlex_iff
  · intro used blocked
    have hnaming := Context.naming_concat named hren rfl
    refine ⟨ctx.choose used blocked + 1, ctx.choose used blocked,
      Nat.succ_le_succ (ctx.choose_le_card used blocked), ctx.endsAfter_choose used
        blocked, hnaming,
      fun hrest => ctx.assign_eq_of_naming hbind hrest hren ?_⟩
    rw [hnaming]
    exact Std.HashMap.getElem?_insert_self

/-- The second parameter of `function f(x,y)\x7ba;x;y\x7d`, where a name is protected and another
one is that of a global. -/
theorem name_search_ends_second_parameter :
    let tree : ScopeTree := {
      scopes := #[⟨none, .global, ["f"], false⟩, ⟨some 0, .function, ["x", "y"], false⟩]
      inside := #[[1], []]
      occurrences := [⟨2, "f", 0, false⟩, ⟨4, "x", 1, false⟩, ⟨6, "y", 1, false⟩,
        ⟨9, "a", 1, false⟩, ⟨11, "x", 1, false⟩, ⟨13, "y", 1, false⟩] }
    let ctx : Context := ⟨tree, .ofList ["b"], .empty⟩
    let used := (ctx.naming 1 ["x"]).2
    let blocked := ctx.blockedNames (1, "y")
    ctx.bindings 1 = ["x"] ++ "y" :: [] ∧ ctx.isRenamable (1, "y") = true ∧
      ∃ rounds n, rounds ≤ (ctx.takenNames used blocked).card + 1 ∧
        EndsAfter (Candidate.attempt (ctx.isFree used blocked)) 0 rounds n ∧
        ctx.assign[((1, "y") : Binding)]? = some (ShortName.nth n) := by
  intro tree ctx used blocked
  have hbind : ctx.bindings 1 = ["x"] ++ "y" :: [] := rfl
  have hren : ctx.isRenamable (1, "y") = true := by
    simp [ctx, Context.isRenamable, ScopeTree.isRenamable, tree, ScopeTree.global,
      ProtectedNames.ofList, ProtectedNames.add, ProtectedNames.contains, ProtectedNames.empty,
      ProtectedNames.builtin, reservedWords, superAccessor, PrivateNames.get?, PrivateNames.empty]
  obtain ⟨rounds, n, hrounds, hends, -, hname⟩ :=
    name_search_ends.2.2 ctx 1 ["x"] [] "y" hbind hren
  exact ⟨hbind, hren, rounds, n, hrounds, hends, hname (by simp)⟩

end Minify
