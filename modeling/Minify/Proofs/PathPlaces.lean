import Mathlib
import Minify.FileStore.Disk

/-!
Where paths lead.

Of the names along a path only those that are not blank lead somewhere: two dots up, any other name
one further down. A path ends in its file's name below its folder, and the draft of a file lies in
the same folder under a longer name. So a draft is never in the way of the file or of its map.
-/

namespace Minify

namespace Text

variable {sep : Char}

/-- A separator parts what stands before it from what stands after it. -/
lemma splitOn_append_sep (sep : Char) (cs rest : List Char) :
    splitOn sep (cs ++ sep :: rest) = splitOn sep cs ++ splitOn sep rest := by
  induction cs with
  | nil => simp [splitOn]
  | cons c cs ih =>
    by_cases hc : c = sep
    · rw [List.cons_append, splitOn, if_pos hc, ih, splitOn, if_pos hc, List.cons_append]
    · obtain ⟨p, ps, hp⟩ := List.exists_cons_of_ne_nil (splitOn_ne_nil sep cs)
      rw [List.cons_append, splitOn, if_neg hc, ih, splitOn, if_neg hc, hp]
      rfl

/-- A text without separators at the end lengthens the last part. -/
lemma splitOn_append_last (cs : List Char) {s : List Char} (h : sep ∉ s) :
    ∃ front last, splitOn sep cs = front ++ [last] ∧ splitOn sep (cs ++ s)
      = front ++ [last ++ s] := by
  induction cs with
  | nil => exact ⟨[], [], rfl, splitOn_eq_of_not_mem h⟩
  | cons c cs ih =>
    obtain ⟨front, last, hcs, happ⟩ := ih
    by_cases hc : c = sep
    · refine ⟨[] :: front, last, ?_, ?_⟩
      · rw [splitOn, if_pos hc, hcs, List.cons_append]
      · rw [List.cons_append, splitOn, if_pos hc, happ, List.cons_append]
    · cases front with
      | nil =>
        refine ⟨[], c :: last, ?_, ?_⟩
        · rw [splitOn, if_neg hc, hcs]
          rfl
        · rw [List.cons_append, splitOn, if_neg hc, happ]
          rfl
      | cons p front =>
        refine ⟨(c :: p) :: front, last, ?_, ?_⟩
        · rw [splitOn, if_neg hc, hcs]
          rfl
        · rw [List.cons_append, splitOn, if_neg hc, happ]
          rfl

end Text

namespace Path

/-! ### The names that count -/

def steps (ns : List (List Char)) : List String :=
  (ns.filter fun name => !isBlank name).map String.ofList

/-- The names along a path that lead somewhere. -/
def trail (p : String) : List String := steps (names p.toList)

variable {ns : List (List Char)} {name : List Char} {p : String}

lemma names_append_slash (cs rest : List Char) :
    names (cs ++ '/' :: rest) = names cs ++ names rest := Text.splitOn_append_sep '/' cs rest

@[simp] lemma steps_names_nil : steps (names []) = [] := rfl

@[simp] lemma steps_append (ns ms : List (List Char)) :
    steps (ns ++ ms) = steps ns ++ steps ms := by
  simp [steps]

lemma steps_cons (name : List Char) (ns : List (List Char)) :
    steps (name :: ns) = steps [name] ++ steps ns := steps_append [name] ns

@[simp] lemma steps_singleton_of_blank (h : isBlank name = true) : steps [name] = [] := by
  simp [steps, h]

@[simp] lemma steps_singleton_of_not_blank (h : isBlank name = false) :
    steps [name] = [String.ofList name] := by
  simp [steps, h]

lemma steps_dropBlank (ns : List (List Char)) : steps (dropBlank ns) = steps ns := by
  change steps (ns.rdropWhile isBlank) = steps ns
  induction ns using List.reverseRecOn with
  | nil => rfl
  | append_singleton ns name ih =>
    rw [List.rdropWhile_concat]
    split
    · rename_i hblank
      rw [ih, steps_append, steps_singleton_of_blank hblank, List.append_nil]
    · rfl

/-- Without blank names at the end, names end in one that leads somewhere. -/
lemma dropBlank_cases (ns : List (List Char)) : dropBlank ns = [] ∨
    ∃ front name, dropBlank ns = front ++ [name] ∧ isBlank name = false := by
  refine or_iff_not_imp_left.mpr fun hne => ?_
  have hlast := List.rdropWhile_last_not isBlank ns hne
  exact ⟨_, _, (List.dropLast_append_getLast hne).symm, eq_false_of_ne_true hlast⟩

lemma dropBlank_isPrefix (ns : List (List Char)) : dropBlank ns <+: ns :=
  List.rdropWhile_prefix isBlank ns

lemma withSlashes_cons_cons (name next : List Char) (ns : List (List Char)) :
    withSlashes (name :: next :: ns) = name ++ '/' :: withSlashes (next :: ns) := by
  rw [withSlashes, List.intercalate_cons_cons, List.append_assoc]
  rfl

lemma withSlashes_singleton (name : List Char) : withSlashes [name] = name := by
  simp [withSlashes, List.intercalate]

/-- Fewer names with slashes between them are the start of the text with more. -/
lemma withSlashes_isPrefix {ns ms : List (List Char)} (h : ns <+: ms) :
    withSlashes ns <+: withSlashes ms := by
  induction ns generalizing ms with
  | nil => exact List.nil_prefix
  | cons name ns ih =>
    obtain ⟨rest, rfl⟩ := h
    cases ns with
    | nil =>
      rw [withSlashes_singleton]
      cases rest with
      | nil => exact (withSlashes_singleton name).symm ▸ List.prefix_rfl
      | cons next rest => exact withSlashes_cons_cons name next rest ▸ List.prefix_append _ _
    | cons next ns =>
      have hrest := ih (List.prefix_append (next :: ns) rest)
      rw [List.cons_append, List.cons_append, withSlashes_cons_cons, withSlashes_cons_cons]
      exact (List.prefix_append_right_inj name).mpr (List.cons_prefix_cons.mpr ⟨rfl, hrest⟩)

lemma steps_names_withSlashes (h : ∀ name ∈ ns, '/' ∉ name) :
    steps (names (withSlashes ns)) = steps ns := by
  induction ns with
  | nil => rfl
  | cons name ns ih =>
    obtain ⟨hname, hns⟩ := List.forall_mem_cons.mp h
    cases ns with
    | nil =>
      rw [withSlashes_singleton, names, Text.splitOn_eq_of_not_mem hname]
    | cons next ns =>
      rw [withSlashes_cons_cons, names, Text.splitOn_append hname, steps_cons, ← names, ih hns,
        ← steps_cons]

/-! ### The start of a path -/

/-- How a path starts, and what its names are after that. -/
inductive Opening (p : String) : List Char → List (List Char) → Prop
  | root (cs : List Char) (h : p.toList = '/' :: cs) : Opening p ['/'] (names cs)
  | dot (h : p.toList = ['.']) : Opening p ['.'] [[]]
  | dotSlash (cs : List Char) (h : p.toList = '.' :: '/' :: cs) : Opening p ['.'] ([] :: names cs)
  | bare (h : p.toList.head? ≠ some '/') : Opening p [] (names p.toList)

lemma split_opening (p : String) : Opening p (split p).1 (split p).2 := by
  unfold split
  split
  · exact .root _ ‹_›
  · exact .dot ‹_›
  · exact .dotSlash _ ‹_›
  · rename_i hroot _ _
    refine .bare fun hhead => ?_
    obtain ⟨cs, hcs⟩ := List.head?_eq_some_iff.mp hhead
    exact hroot cs hcs

lemma steps_split (p : String) : steps (split p).2 = trail p := by
  obtain ⟨start, ns, hsplit⟩ : ∃ start ns, split p = (start, ns) := ⟨_, _, rfl⟩
  have hopening := split_opening p
  rw [hsplit] at hopening ⊢
  cases hopening with
  | root cs h =>
    rw [trail, h]
    rfl
  | dot h =>
    rw [trail, h]
    rfl
  | dotSlash cs h =>
    have hnames : names ('.' :: '/' :: cs) = ['.'] :: names cs :=
      names_append_slash ['.'] cs
    rw [trail, h, hnames, steps_cons, steps_cons ['.']]
    rfl
  | bare h => rfl

lemma not_mem_of_mem_split (h : name ∈ (split p).2) : '/' ∉ name := by
  obtain ⟨start, ns, hsplit⟩ : ∃ start ns, split p = (start, ns) := ⟨_, _, rfl⟩
  have hopening := split_opening p
  rw [hsplit] at hopening h
  cases hopening with
  | root | bare => exact Text.not_mem_of_mem_splitOn h
  | dot =>
    rw [List.mem_singleton.mp h]
    exact List.not_mem_nil
  | dotSlash =>
    rcases List.mem_cons.mp h with rfl | h
    · exact List.not_mem_nil
    · exact Text.not_mem_of_mem_splitOn h

/-! ### The last name -/

lemma getLast?_trail (p : String) :
    (trail p).getLast? = (dropBlank (split p).2).getLast?.map String.ofList := by
  rw [← steps_split, ← steps_dropBlank]
  rcases dropBlank_cases (split p).2 with hnil | ⟨front, name, heq, hname⟩
  · rw [hnil]
    rfl
  · rw [heq, steps_append, steps_singleton_of_not_blank hname, List.getLast?_concat,
      List.getLast?_concat]
    rfl

/-- The name of a file is the last that leads somewhere, if it leads down. -/
lemma fileName?_eq (p : String) : fileName? p = (trail p).getLast?.filter (· != "..") := by
  rw [getLast?_trail, fileName?]
  cases (dropBlank (split p).2).getLast? with
  | none => rfl
  | some name =>
    by_cases h : name = ['.', '.']
    · rw [h]
      rfl
    · have hne : String.ofList name ≠ ".." := fun heq =>
        h (by simpa using congrArg String.toList heq)
      simp [h, Option.filter, hne]

/-! ### Folders -/

/-- What is left of a path that is cut after some of its names. -/
lemma Opening.trail_cut {start : List Char} {cut : List (List Char)} (h : Opening p start ns)
    (hslash : ∀ name ∈ ns, '/' ∉ name) (hcut : cut <+: ns) :
    trail (String.ofList (start ++ withSlashes cut)) = steps cut := by
  have hback : steps (names (withSlashes cut)) = steps cut :=
    steps_names_withSlashes fun name hname => hslash name (hcut.subset hname)
  rw [trail, String.toList_ofList]
  cases h with
  | root => exact hback
  | bare => exact hback
  | dot =>
    have hblank : cut = [] ∨ cut = [[]] := by
      simpa [List.prefix_cons_iff] using hcut
    rcases hblank with rfl | rfl <;> rfl
  | dotSlash =>
    match cut with
    | [] => rfl
    | [] :: [] => rfl
    | [] :: next :: cut =>
      rw [withSlashes_cons_cons] at hback ⊢
      have hnames : names ('.' :: '/' :: withSlashes (next :: cut))
          = ['.'] :: names (withSlashes (next :: cut)) := names_append_slash ['.'] _
      exact (congrArg steps hnames).trans hback
    | (c :: name) :: cut =>
      obtain ⟨ms, hms⟩ := hcut
      cases hms

lemma Opening.isAbsolute_cut {start : List Char} {cut : List (List Char)} (h : Opening p start ns)
    (hcut : cut <+: ns) :
    isAbsolute (String.ofList (start ++ withSlashes cut)) = isAbsolute p := by
  rw [isAbsolute, isAbsolute, String.toList_ofList]
  cases h with
  | root cs h | dotSlash cs h | dot h =>
    rw [h]
    rfl
  | bare h =>
    have hpre := withSlashes_names p.toList ▸ withSlashes_isPrefix hcut
    rw [List.nil_append]
    cases hw : withSlashes cut with
    | nil => exact (beq_eq_false_iff_ne.mpr h).symm
    | cons c w =>
      obtain ⟨rest, hrest⟩ := hw ▸ hpre
      rw [← hrest]
      rfl

lemma trail_dot : trail "." = [] := rfl

/-- The folder of a path is where the names before the last one lead. -/
lemma folder_cases (p : String) : (trail p = [] ∧ FileStore.folder p = ".") ∨
    ∃ name, trail p = trail (FileStore.folder p) ++ [name] ∧
      isAbsolute (FileStore.folder p) = isAbsolute p := by
  obtain ⟨start, ns, hsplit⟩ : ∃ start ns, split p = (start, ns) := ⟨_, _, rfl⟩
  have hopening := split_opening p
  have hslash : ∀ name ∈ (split p).2, '/' ∉ name := fun _ => not_mem_of_mem_split
  have htrail := steps_split p
  rw [FileStore.folder, parent?]
  rw [hsplit] at hopening hslash htrail ⊢
  dsimp only at hopening hslash htrail ⊢
  rw [← steps_dropBlank] at htrail
  rcases dropBlank_cases ns with hnil | ⟨front, name, heq, hname⟩
  · rw [hnil] at htrail ⊢
    refine .inl ⟨htrail.symm, ?_⟩
    rw [if_pos rfl]
    split_ifs <;> rfl
  · have hcut : dropBlank front <+: ns :=
      (dropBlank_isPrefix front).trans ((List.prefix_append front [name]).trans
        (heq ▸ dropBlank_isPrefix ns))
    have hlead := hopening.trail_cut hslash hcut
    have habs := hopening.isAbsolute_cut hcut
    rw [heq, steps_append, steps_singleton_of_not_blank hname, ← steps_dropBlank front,
      ← hlead] at htrail
    rw [heq, List.dropLast_concat, if_neg (by simp)]
    dsimp only
    generalize String.ofList (start ++ withSlashes (dropBlank front)) = dir at htrail habs ⊢
    refine .inr ⟨String.ofList name, ?_⟩
    split_ifs with hempty
    · rw [String.isEmpty_iff.mp hempty] at htrail habs
      exact ⟨htrail.symm, habs⟩
    · exact ⟨htrail.symm, habs⟩

lemma folder_ne_empty (p : String) : FileStore.folder p ≠ "" := by
  rw [FileStore.folder]
  split
  · split_ifs with hempty
    · decide
    · exact fun h => hempty (String.isEmpty_iff.mpr h)
  · decide

/-! ### Names in a folder -/

/-- A name that is put behind the path of a folder comes last. -/
lemma trail_join {base name : String} (hbase : base ≠ "") (hname : '/' ∉ name.toList)
    (hblank : isBlank name.toList = false) : trail (join base name) = trail base ++ [name] ∧
      isAbsolute (join base name) = isAbsolute base := by
  have hrel : isAbsolute name = false := by
    cases hn : name.toList with
    | nil => simp [isAbsolute, hn]
    | cons c cs =>
      rw [hn, List.mem_cons, not_or] at hname
      simp [isAbsolute, hn, Ne.symm hname.1]
  have hlast : steps (names name.toList) = [name] := by
    rw [names, Text.splitOn_eq_of_not_mem hname, steps_singleton_of_not_blank hblank,
      String.ofList_toList]
  rw [join, hrel, Bool.false_or, if_neg (by simpa using hbase)]
  obtain ⟨c, cs, hcons⟩ := List.exists_cons_of_ne_nil (l := base.toList) (by simpa using hbase)
  split_ifs with hend
  · -- the path ends in a slash already
    obtain ⟨front, hfront⟩ := List.getLast?_eq_some_iff.mp hend
    have happ : (base ++ name).toList = front ++ '/' :: name.toList := by
      rw [String.toList_append, hfront, List.append_assoc]
      rfl
    constructor
    · rw [trail, happ, trail, hfront, names_append_slash, names_append_slash, steps_append,
        steps_append, hlast, steps_names_nil, List.append_nil]
    · rw [isAbsolute, String.toList_append, isAbsolute, hcons]
      rfl
  · have happ : (base ++ "/" ++ name).toList = base.toList ++ '/' :: name.toList := by
      simp [String.toList_append]
    constructor
    · rw [trail, happ, trail, names_append_slash, steps_append, hlast]
    · rw [isAbsolute, happ, isAbsolute, hcons]
      rfl

lemma proper_of_mem_trail {name : String} (h : name ∈ trail p) :
    '/' ∉ name.toList ∧ isBlank name.toList = false := by
  obtain ⟨cs, hcs, rfl⟩ := List.mem_map.mp h
  obtain ⟨hcs, hblank⟩ := List.mem_filter.mp hcs
  rw [String.toList_ofList]
  exact ⟨Text.not_mem_of_mem_splitOn hcs, by simpa using hblank⟩

lemma trail_of_fileName? {name : String} (h : fileName? p = some name) :
    trail p = (trail p).dropLast ++ [name] ∧ name ≠ ".." := by
  rw [fileName?_eq, Option.filter_eq_some_iff] at h
  obtain ⟨hlast, hne⟩ := h
  exact ⟨(List.dropLast_append_getLast? name hlast).symm, by simpa using hne⟩

/-- What stands for the name of a file in that of its draft. -/
lemma proper_fileName (p : String) : '/' ∉ ((fileName? p).getD "bundle").toList ∧
    0 < ((fileName? p).getD "bundle").length := by
  cases hp : fileName? p with
  | none => decide
  | some name =>
    have hmem : name ∈ trail p := (trail_of_fileName? hp).1 ▸ List.mem_append_right _ (by simp)
    obtain ⟨hslash, hblank⟩ := proper_of_mem_trail hmem
    refine ⟨hslash, Nat.pos_of_ne_zero fun hzero => ?_⟩
    rw [Option.getD_some, String.length_eq_zero_iff] at hzero
    rw [hzero] at hblank
    cases hblank

/-- The name that the text of a path ends in. -/
def lastName (p : String) : String := String.ofList ((names p.toList).getLast?.getD [])

lemma names_eq_lastName (p : String) :
    ∃ front, names p.toList = front ++ [(lastName p).toList] := by
  have hne : names p.toList ≠ [] := Text.splitOn_ne_nil '/' p.toList
  refine ⟨_, (List.dropLast_append_getLast? _ ?_).symm⟩
  rw [lastName, String.toList_ofList, List.getLast?_eq_some_getLast hne]
  rfl

/-- A file is named as the text of its path ends, if that leads down. -/
lemma fileName?_of_lastName (hblank : isBlank (lastName p).toList = false)
    (hdots : lastName p ≠ "..") : fileName? p = some (lastName p) := by
  obtain ⟨front, hnames⟩ := names_eq_lastName p
  rw [fileName?_eq, trail, hnames, steps_append, steps_singleton_of_not_blank hblank,
    List.getLast?_concat, String.ofList_toList]
  simp [Option.filter, hdots]

lemma fileName?_eq_lastName_or (p : String) :
    (lastName p).length ≤ 2 ∨ fileName? p = some (lastName p) := by
  rw [or_iff_not_imp_left]
  intro hlen
  have hne : ∀ s : String, s.length ≤ 2 → lastName p ≠ s := fun s hs h => hlen (h ▸ hs)
  refine fileName?_of_lastName ?_ (hne ".." (by decide))
  rw [isBlank, Bool.or_eq_false_iff, beq_eq_false_iff_ne, beq_eq_false_iff_ne]
  exact ⟨fun h => hne "" (by decide) (String.toList_inj.mp h),
    fun h => hne "." (by decide) (String.toList_inj.mp h)⟩

lemma lastName_append {s : String} (hs : '/' ∉ s.toList) : lastName (p ++ s) = lastName p ++ s := by
  obtain ⟨front, last, hnames, happ⟩ := Text.splitOn_append_last p.toList hs
  rw [lastName, lastName, String.toList_append, names, names, happ, hnames, List.getLast?_concat,
    List.getLast?_concat, ← String.toList_inj, String.toList_append]
  simp only [Option.getD_some, String.toList_ofList]

lemma fileName?_map (p : String) : fileName? (p ++ ".map") = some (lastName p ++ ".map") := by
  have hlast : lastName (p ++ ".map") = lastName p ++ ".map" := lastName_append (by decide)
  have hmap : ".map".length = 4 := rfl
  rcases fileName?_eq_lastName_or (p ++ ".map") with hshort | hname
  · rw [hlast, String.length_append, hmap] at hshort
    omega
  · rw [hname, hlast]

end Path

/-! ### Places -/

namespace Disk

variable {d : Disk} {p mark : String}

def enter (place : Place) (name : String) : Place :=
  if name = ".." then place.dropLast else place ++ [name]

/-- Where a path starts. -/
def start (d : Disk) (p : String) : Place := if Path.isAbsolute p then [] else d.workingDirectory

/-- The place that the names of a path lead to, if all of them can be followed. -/
def spot (d : Disk) (p : String) : Place := (Path.trail p).foldl enter (d.start p)

lemma eq_of_follow {place q : Place} {names : List String} (h : d.follow place names = .ok q) :
    q = (names.filter fun name => !isBlank name).foldl enter place := by
  induction names generalizing place with
  | nil =>
    cases h
    rfl
  | cons name names ih =>
    rw [follow] at h
    split at h
    · cases h
    · cases h
    · split_ifs at h with hblank hdots
      · rw [ih h, List.filter_cons_of_neg (by simp [hblank])]
      · rw [ih h, List.filter_cons_of_pos (by simp [hblank]), List.foldl_cons, enter, if_pos hdots]
      · rw [ih h, List.filter_cons_of_pos (by simp [hblank]), List.foldl_cons, enter, if_neg hdots]

lemma filter_map_ofList (ns : List (List Char)) :
    ((ns.map String.ofList).filter fun name => !isBlank name) = Path.steps ns := by
  rw [List.filter_map, Path.steps]
  congr 2
  funext name
  simp [isBlank]

lemma eq_of_route {s : Place} {names : List String} (h : d.route p = .ok (s, names)) :
    s = d.start p ∧ names = (Path.names p.toList).map String.ofList := by
  unfold route at h
  split_ifs at h
  all_goals
    cases h
    exact ⟨by simp_all [start], rfl⟩

lemma eq_spot_of_place {q : Place} (h : d.place p = .ok q) : q = d.spot p := by
  unfold place at h
  cases hroute : d.route p with
  | error fault =>
    rw [hroute] at h
    cases h
  | ok found =>
    rw [hroute] at h
    obtain ⟨hstart, hnames⟩ := eq_of_route hroute
    have hfollow : d.follow found.1 found.2 = .ok q := h
    rw [eq_of_follow hfollow, hstart, hnames, filter_map_ofList]
    rfl

/-! ### Files, their drafts and their maps -/

open FileStore Minify.Path

lemma spot_of_fileName? {name : String} (h : fileName? p = some name) :
    d.spot p = d.spot (folder p) ++ [name] := by
  obtain ⟨htrail, hne⟩ := trail_of_fileName? h
  rcases folder_cases p with ⟨hnil, -⟩ | ⟨last, hfolder, habs⟩
  · rw [hnil] at htrail
    simp at htrail
  · rw [hfolder, List.dropLast_concat] at htrail
    rw [spot, hfolder, htrail, List.foldl_concat, enter, if_neg hne, spot, start, start, habs]

/-- A path that does not end in the name of a file leads no further than its folder. -/
lemma length_spot_le (h : fileName? p = none) : (d.spot p).length ≤ (d.spot (folder p)).length := by
  rcases folder_cases p with ⟨hnil, hdot⟩ | ⟨last, hfolder, habs⟩
  · rw [hdot, spot, hnil, spot, trail_dot, List.foldl_nil, List.foldl_nil, start]
    split_ifs
    · exact Nat.zero_le _
    · exact le_rfl
  · have hdots : last = ".." := by
      rw [fileName?_eq, hfolder, List.getLast?_concat] at h
      simpa [Option.filter] using h
    rw [spot, hfolder, List.foldl_concat, enter, if_pos hdots, spot, start, start, habs,
      List.length_dropLast]
    exact Nat.sub_le _ _

def draftName (mark p : String) : String :=
  "." ++ (fileName? p).getD "bundle" ++ ".tmp." ++ mark

lemma length_draftName (mark p : String) : (draftName mark p).length
    = ((fileName? p).getD "bundle").length + 6 + mark.length := by
  have hdot : ".".length = 1 := rfl
  have htmp : ".tmp.".length = 5 := rfl
  rw [draftName, String.length_append, String.length_append, String.length_append, hdot, htmp]
  omega

/-- The draft of a file lies in the folder of the file. -/
lemma spot_draft (hmark : '/' ∉ mark.toList) (d : Disk) (p : String) :
    d.spot (draft mark p) = d.spot (folder p) ++ [draftName mark p] := by
  have hname : '/' ∉ (draftName mark p).toList := by
    simp [draftName, (proper_fileName p).1, hmark]
  have hlong := length_draftName mark p
  have hne : ∀ s : String, s.length < 6 → draftName mark p ≠ s := by
    rintro s hs rfl
    omega
  have hblank : Path.isBlank (draftName mark p).toList = false := by
    have h₀ := hne "" (by decide)
    have h₁ := hne "." (by decide)
    rw [Path.isBlank, Bool.or_eq_false_iff, beq_eq_false_iff_ne, beq_eq_false_iff_ne]
    exact ⟨fun h => h₀ (String.toList_inj.mp h), fun h => h₁ (String.toList_inj.mp h)⟩
  obtain ⟨htrail, habs⟩ := trail_join (folder_ne_empty p) hname hblank
  have hdraft : draft mark p = join (folder p) (draftName mark p) := rfl
  rw [spot, hdraft, htrail, List.foldl_concat, enter, if_neg (hne ".." (by decide)), spot, start,
    start, habs]

lemma eq_of_concat_eq {place place' : Place} {name name' : String}
    (h : place ++ [name] = place' ++ [name']) : name = name' :=
  List.singleton_inj.mp (List.append_inj_right' h rfl)

lemma spot_ne_spot_draft (hmark : '/' ∉ mark.toList) : d.spot p ≠ d.spot (draft mark p) := by
  rw [spot_draft hmark]
  cases hp : fileName? p with
  | none =>
    have hle := length_spot_le (d := d) hp
    intro heq
    rw [heq, List.length_append, List.length_singleton] at hle
    omega
  | some name =>
    rw [spot_of_fileName? hp]
    intro heq
    have hlen := congrArg String.length (eq_of_concat_eq heq)
    rw [length_draftName, hp, Option.getD_some] at hlen
    omega

/-- The map of a file and the draft of the file do not lie at one place. -/
lemma spot_map_ne_spot_draft (hmark : '/' ∉ mark.toList) :
    d.spot (p ++ ".map") ≠ d.spot (draft mark p) := by
  rw [spot_draft hmark, spot_of_fileName? (fileName?_map p)]
  intro heq
  have hlen := congrArg String.length (eq_of_concat_eq heq)
  have hdot : ".map".length = 4 := rfl
  have hpos := (proper_fileName p).2
  rw [length_draftName, String.length_append, hdot] at hlen
  rcases fileName?_eq_lastName_or p with hshort | hfile
  · omega
  · rw [hfile, Option.getD_some] at hlen
    omega

/-- A file lies elsewhere than its map, if the text of its path ends in its name. -/
lemma spot_ne_spot_map (h : fileName? p = some (lastName p)) : d.spot p ≠ d.spot (p ++ ".map") := by
  rw [spot_of_fileName? h, spot_of_fileName? (fileName?_map p)]
  intro heq
  have hlen := congrArg String.length (eq_of_concat_eq heq)
  have hdot : ".map".length = 4 := rfl
  rw [String.length_append, hdot] at hlen
  omega

/-- A file lies elsewhere than the draft of its map, if the text of its path ends in its name. -/
lemma spot_ne_spot_draft_map (hmark : '/' ∉ mark.toList) (h : fileName? p = some (lastName p)) :
    d.spot p ≠ d.spot (draft mark (p ++ ".map")) := by
  rw [spot_of_fileName? h, spot_draft hmark]
  intro heq
  have hlen := congrArg String.length (eq_of_concat_eq heq)
  rw [length_draftName, fileName?_map, Option.getD_some, String.length_append] at hlen
  omega

end Disk

end Minify
