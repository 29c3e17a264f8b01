import Mathlib
import Minify.SourceMap
import Minify.Table

/-!
The files of a map by their starts.

A table holds the last value put under each name. Sorted by their starts, the file of a byte is the
last one that starts at it or before.
-/

namespace Minify

/-! ### What a table holds -/

namespace Table

variable {α : Type} {name : String} {v : α} {entries : List (String × α)} {e : String × α}

lemma mem_put_iff (h : Ordered entries) :
    e ∈ put name v entries ↔ e = (name, v) ∨ e ∈ entries ∧ e.1 ≠ name := by
  induction entries with
  | nil => simp [put]
  | cons d rest ih =>
    obtain ⟨k, w⟩ := d
    obtain ⟨hfirst, hrest⟩ := List.pairwise_cons.mp h
    have hrest_ne : name ≤ k → ∀ d ∈ rest, d.1 ≠ name := by
      rintro hle d hd rfl
      exact absurd (hfirst d hd) (not_lt_of_ge hle)
    rw [put]
    split_ifs with heq hlt
    · subst heq
      have := hrest_ne le_rfl e
      simp only [List.mem_cons]
      grind
    · have := hrest_ne hlt.le e
      have := hlt.ne'
      simp only [List.mem_cons]
      grind
    · have := ih hrest
      simp only [List.mem_cons]
      grind

/-- Of several values put under a name, the table holds the last. -/
lemma mem_foldl_insert (t : Table α) (pairs : List (String × α)) :
    e ∈ (pairs.foldl (fun t p => t.insert p.1 p.2) t).entries ↔
      (∃ front back, pairs = front ++ e :: back ∧ e.1 ∉ back.map Prod.fst) ∨
        e ∈ t.entries ∧ e.1 ∉ pairs.map Prod.fst := by
  induction pairs generalizing t with
  | nil => simp
  | cons p pairs ih =>
    have hput : e ∈ (t.insert p.1 p.2).entries ↔ e = p ∨ e ∈ t.entries ∧ e.1 ≠ p.1 :=
      mem_put_iff t.ordered
    rw [List.foldl_cons, ih, hput]
    constructor
    · rintro (⟨front, back, rfl, hlast⟩ | ⟨rfl | ⟨he, hne⟩, hnot⟩)
      · exact .inl ⟨p :: front, back, rfl, hlast⟩
      · exact .inl ⟨[], pairs, rfl, hnot⟩
      · exact .inr ⟨he, by simp [hne, hnot]⟩
    · rintro (⟨front, back, hsplit, hlast⟩ | ⟨he, hnot⟩)
      · cases front with
        | nil =>
          obtain ⟨rfl, rfl⟩ := List.cons.inj hsplit
          exact .inr ⟨.inl rfl, hlast⟩
        | cons q front =>
          obtain ⟨rfl, rfl⟩ := List.cons.inj hsplit
          exact .inl ⟨front, back, rfl, hlast⟩
      · rw [List.map_cons, List.mem_cons, not_or] at hnot
        exact .inr ⟨.inr ⟨he, hnot.1⟩, hnot.2⟩

end Table

/-! ### The last item not past an offset -/

namespace SourceMap

variable {α : Type} {start : α → Nat} {offset i : Nat} {items : List α}

lemma lt_of_mem_dropWhile (hs : items.Pairwise fun x y => start x ≤ start y) :
    ∀ z ∈ items.dropWhile fun x => decide (start x ≤ offset), offset < start z := by
  induction items with
  | nil => exact nofun
  | cons x items ih =>
    obtain ⟨hx, hrest⟩ := List.pairwise_cons.mp hs
    rw [List.dropWhile_cons]
    split
    · exact ih hrest
    · rename_i hgt
      have hgt : offset < start x := by simpa using hgt
      exact List.forall_mem_cons.mpr ⟨hgt, fun z hz => Nat.lt_of_lt_of_le hgt (hx z hz)⟩

/-- In a list where each item is related to those behind it, an earlier one is to a later one. -/
lemma rel_of_pairwise {R : α → α → Prop} (hs : items.Pairwise R) {j : Nat} {x y : α}
    (hx : items[i]? = some x) (hy : items[j]? = some y) (hlt : i < j) : R x y := by
  obtain ⟨hi, rfl⟩ := List.getElem?_eq_some_iff.mp hx
  obtain ⟨hj, rfl⟩ := List.getElem?_eq_some_iff.mp hy
  exact List.pairwise_iff_getElem.mp hs i j hi hj hlt

/-- Of sorted items, those not past an offset are the ones up to the last of them. -/
lemma start_le_iff_of_lastNotPast? {j : Nat} {y : α}
    (hs : items.Pairwise fun x y => start x ≤ start y)
    (h : lastNotPast? start offset items = some i) (hy : items[j]? = some y) :
    start y ≤ offset ↔ j ≤ i := by
  have hlen := length_takeWhile_of_lastNotPast? h
  have happ := List.takeWhile_append_dropWhile (p := fun x => decide (start x ≤ offset))
    (l := items)
  have hfront := List.all_takeWhile (p := fun x => decide (start x ≤ offset)) (l := items)
  have hback : ∀ z ∈ items.dropWhile fun x => decide (start x ≤ offset), offset < start z :=
    lt_of_mem_dropWhile hs
  rw [← happ] at hy
  constructor
  · intro hle
    by_contra hlt
    rw [List.getElem?_append_right (by omega)] at hy
    exact absurd hle (Nat.not_le.mpr (hback y (List.mem_of_getElem? hy)))
  · intro hle
    rw [List.getElem?_append_left (by omega)] at hy
    exact of_decide_eq_true (List.all_eq_true.mp hfront y (List.mem_of_getElem? hy))

lemma exists_getElem?_of_lastNotPast? (h : lastNotPast? start offset items = some i) :
    ∃ x, items[i]? = some x := by
  have hlen := length_takeWhile_of_lastNotPast? h
  have hle := (List.takeWhile_sublist (l := items) fun x => decide (start x ≤ offset)).length_le
  exact ⟨_, List.getElem?_eq_getElem (by omega)⟩

/-- Of sorted items, the last one not past an offset starts at it or before, and no other between
them. -/
lemma of_lastNotPast?_eq_some (hs : items.Pairwise fun x y => start x ≤ start y)
    (h : lastNotPast? start offset items = some i) :
    ∃ x, items[i]? = some x ∧ start x ≤ offset ∧
      ∀ y ∈ items, start y ≤ offset → start y ≤ start x := by
  obtain ⟨x, hx⟩ := exists_getElem?_of_lastNotPast? h
  refine ⟨x, hx, start_le_of_lastNotPast? h hx, fun y hy hle => ?_⟩
  obtain ⟨j, hj⟩ := List.mem_iff_getElem?.mp hy
  rcases Nat.eq_or_lt_of_le ((start_le_iff_of_lastNotPast? hs h hj).mp hle) with rfl | hlt
  · cases hj.symm.trans hx
    exact le_rfl
  · exact rel_of_pairwise hs hj hx hlt

lemma lastNotPast?_ne_none {y : α} (hs : items.Pairwise fun x y => start x ≤ start y)
    (hy : y ∈ items) (hle : start y ≤ offset) : lastNotPast? start offset items ≠ none := by
  cases items with
  | nil => cases hy
  | cons x items =>
    have hx : start x ≤ offset := by
      rcases List.mem_cons.mp hy with rfl | hy
      · exact hle
      · exact Nat.le_trans ((List.pairwise_cons.mp hs).1 y hy) hle
    unfold lastNotPast?
    rw [List.takeWhile_cons, if_pos (decide_eq_true hx)]
    exact Option.some_ne_none _

/-! ### The file of a mapping -/

lemma File.le_trans (a b c : File) (hab : a.le b = true) (hbc : b.le c = true) :
    a.le c = true := by
  simp only [File.le, Bool.or_eq_true, Bool.and_eq_true, decide_eq_true_eq, beq_iff_eq] at *
  rcases hab with hab | ⟨hab, hname⟩ <;> rcases hbc with hbc | ⟨hbc, hname'⟩
  · exact .inl (Nat.lt_trans hab hbc)
  · exact .inl (hbc ▸ hab)
  · exact .inl (hab ▸ hbc)
  · exact .inr ⟨hab.trans hbc, hname.trans hname'⟩

lemma File.le_total (a b : File) : (a.le b || b.le a) = true := by
  simp only [File.le, Bool.or_eq_true, Bool.and_eq_true, decide_eq_true_eq, beq_iff_eq]
  rcases Nat.lt_trichotomy a.start b.start with h | h | h
  · exact .inl (.inl h)
  · exact (Std.Total.total a.name b.name).imp (fun hn => .inr ⟨h, hn⟩) fun hn => .inr ⟨h.symm, hn⟩
  · exact .inr (.inl h)

lemma start_le_of_le {a b : File} (h : a.le b = true) : a.start ≤ b.start := by
  simp only [File.le, Bool.or_eq_true, Bool.and_eq_true, decide_eq_true_eq, beq_iff_eq] at h
  omega

lemma mergeSort_pairwise (files : List File) :
    (files.mergeSort File.le).Pairwise fun a b => a.start ≤ b.start := by
  have hsorted : (files.mergeSort File.le).Pairwise fun a b => a.le b = true :=
    List.pairwise_mergeSort File.le_trans File.le_total files
  exact hsorted.imp start_le_of_le

variable {input output : Text.LineIndex} {files : List File} {m : Layout.Mapping}

/-- A mapping leads into the last file that starts at its byte or before. -/
lemma file_of_resolveMapping {y : Entry × Segment}
    (hs : files.Pairwise fun a b => a.start ≤ b.start)
    (h : resolveMapping input output files m = some y) :
    ∃ f, files[y.1.source]? = some f ∧ y.1.generated = m.generated ∧
      y.1.offset = m.original - f.start ∧ f.start ≤ m.original ∧
      ∀ g ∈ files, g.start ≤ m.original → g.start ≤ f.start := by
  obtain ⟨i, f, hi, hf, rfl⟩ := resolveMapping_eq_some_iff.mp h
  obtain ⟨g, hg, hle, hlast⟩ := of_lastNotPast?_eq_some hs hi
  obtain rfl : g = f := Option.some.inj (hg.symm.trans hf)
  exact ⟨g, hg, rfl, rfl, hle, hlast⟩

/-- It leads into some file, if one starts there or before. -/
lemma exists_resolveMapping {g : File} (hs : files.Pairwise fun a b => a.start ≤ b.start)
    (hg : g ∈ files) (hle : g.start ≤ m.original) :
    ∃ y, resolveMapping input output files m = some y := by
  obtain ⟨i, hi⟩ := Option.ne_none_iff_exists'.mp (lastNotPast?_ne_none hs hg hle)
  obtain ⟨f, hf, -⟩ := of_lastNotPast?_eq_some hs hi
  exact ⟨_, resolveMapping_eq_some_iff.mpr ⟨i, f, hi, hf, rfl⟩⟩

/-! ### The entries of a map -/

section build

variable {source code : String} {mappings : List Layout.Mapping} {file : Option String}
  {lineOffset : Nat} {e : Entry}

lemma mem_sources_build {name : String} :
    name ∈ (build source code files mappings file lineOffset).sources
      ↔ ∃ f ∈ files, f.name = name := by
  simp [build]

lemma mem_entries_build :
    e ∈ (build source code files mappings file lineOffset).entries ↔
      ∃ x ∈ mappings, ∃ y, resolveMapping (.ofString source) (.ofString code)
        (files.mergeSort File.le) x = some y ∧ y.1 = e := by
  simp only [build, List.mem_mergeSort, List.mem_map, List.mem_filterMap]
  grind

/-- An entry comes from a mapping, and it names the last file that starts at the byte that is mapped
or before. -/
lemma of_mem_entries_build
    (h : e ∈ (build source code files mappings file lineOffset).entries) :
    ∃ x ∈ mappings, ∃ f ∈ files,
      (build source code files mappings file lineOffset).sources[e.source]? = some f.name ∧
      e.generated = x.generated ∧ e.offset = x.original - f.start ∧ f.start ≤ x.original ∧
      ∀ g ∈ files, g.start ≤ x.original → g.start ≤ f.start := by
  obtain ⟨x, hx, y, hy, rfl⟩ := mem_entries_build.mp h
  obtain ⟨f, hf, hgenerated, hoffset, hle, hlast⟩ :=
    file_of_resolveMapping (mergeSort_pairwise files) hy
  refine ⟨x, hx, f, List.mem_mergeSort.mp (List.mem_of_getElem? hf), ?_, hgenerated, hoffset, hle,
    fun g hg => hlast g (List.mem_mergeSort.mpr hg)⟩
  rw [build, List.getElem?_map, hf]
  rfl

/-- A mapping has an entry, if a file starts at its byte or before. -/
lemma exists_mem_entries_build {g : File} (hm : m ∈ mappings) (hg : g ∈ files)
    (hle : g.start ≤ m.original) :
    ∃ e ∈ (build source code files mappings file lineOffset).entries,
      e.generated = m.generated := by
  obtain ⟨y, hy⟩ := exists_resolveMapping (mergeSort_pairwise files) (List.mem_mergeSort.mpr hg) hle
  obtain ⟨f, -, hgenerated, -⟩ := file_of_resolveMapping (mergeSort_pairwise files) hy
  exact ⟨y.1, mem_entries_build.mpr ⟨m, hm, y, hy, rfl⟩, hgenerated⟩

end build

end SourceMap

end Minify
