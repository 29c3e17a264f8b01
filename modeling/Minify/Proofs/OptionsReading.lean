import Mathlib
import Minify.Options.Text
import Minify.Proofs.JsonReading

/-!
Options written and read.

What prints and reads JSON is any `Codec` that keeps what such a library promises: plain values are
read back from their texts, and each reader takes values of its own kind. Then the fields of an
object say what the options are, each by its value or its default, and a name is an item's text
whatever its kind. Options are written with every field and with their names as texts, so they are
read back as they were.
-/

namespace Minify

namespace Table

variable {α : Type}

lemma put_of_last {name : String} {v : α} {entries : List (String × α)}
    (h : ∀ e ∈ entries, e.1 < name) : put name v entries = entries ++ [(name, v)] := by
  induction entries with
  | nil => rfl
  | cons e entries ih =>
    obtain ⟨he, hrest⟩ := List.forall_mem_cons.mp h
    rw [put, if_neg he.ne', if_neg he.not_gt, ih hrest, List.cons_append]

lemma foldl_insert (t : Table α) {pairs : List (String × α)} (h : Ordered (t.entries ++ pairs)) :
    (pairs.foldl (fun t p => t.insert p.1 p.2) t).entries = t.entries ++ pairs := by
  induction pairs generalizing t with
  | nil => exact (List.append_nil _).symm
  | cons p pairs ih =>
    have hlast : (t.insert p.1 p.2).entries = t.entries ++ [p] :=
      put_of_last fun e he => (List.pairwise_append.mp h).2.2 e he p List.mem_cons_self
    have hsplit : t.entries ++ p :: pairs = (t.insert p.1 p.2).entries ++ pairs := by
      rw [hlast, List.append_assoc, List.singleton_append]
    rw [hsplit] at h
    rw [List.foldl_cons, ih _ h, ← hsplit]

lemma ofList_entries (t : Table α) : ofList t.entries = t :=
  ext (foldl_insert empty t.ordered)

end Table

/-- A list read item by item, and its results taken further. -/
lemma map_mapM_eq_some_iff {α β γ : Type} {f : α → Option β} {g : β → γ} {R : α → γ → Prop}
    (h : ∀ a c, (∃ b, f a = some b ∧ c = g b) ↔ R a c) {as : List α} {cs : List γ} :
    (∃ bs, as.mapM f = some bs ∧ cs = bs.map g) ↔ List.Forall₂ R as cs := by
  induction as generalizing cs with
  | nil => simp
  | cons a as ih =>
    simp only [List.mapM_cons, Option.bind_eq_bind, Option.bind_eq_some_iff, Option.pure_def,
      Option.some.injEq, List.forall₂_cons_left_iff, ← h, ← ih]
    constructor
    · rintro ⟨-, ⟨b, hb, bs, hbs, rfl⟩, rfl⟩
      exact ⟨g b, bs.map g, ⟨b, hb, rfl⟩, ⟨bs, hbs, rfl⟩, rfl⟩
    · rintro ⟨-, -, ⟨b, hb, rfl⟩, ⟨bs, hbs, rfl⟩, rfl⟩
      exact ⟨b :: bs, ⟨b, hb, bs, hbs, rfl⟩, rfl⟩

lemma mapM_eq_some_iff {α β : Type} {f : α → Option β} {g : β → α}
    (h : ∀ a b, f a = some b ↔ a = g b) {as : List α} {bs : List β} :
    as.mapM f = some bs ↔ as = bs.map g := by
  have hR (a : α) (b : β) : (∃ b', f a = some b' ∧ b = id b') ↔ a = g b := by
    simp only [h, id]
    exact ⟨fun ⟨_, ha, hb⟩ => hb ▸ ha, fun ha => ⟨b, ha, rfl⟩⟩
  have hlist : (∃ cs, as.mapM f = some cs ∧ bs = cs.map id)
      ↔ List.Forall₂ (fun a b => a = g b) as bs := map_mapM_eq_some_iff hR
  simp only [List.map_id, exists_eq_right'] at hlist
  rw [hlist, List.forall₂_map_right_iff.symm, List.forall₂_eq_eq_eq]

namespace Json

/-- No name in a list comes twice among some fields. -/
def Once (names : List String) (fields : List (String × Json)) : Prop :=
  ∀ n ∈ names, fields.countP (fun f => f.1 == n) ≤ 1

instance (names : List String) (fields : List (String × Json)) : Decidable (Once names fields) :=
  inferInstanceAs (Decidable (∀ n ∈ names, fields.countP (fun f => f.1 == n) ≤ 1))

/-- What a library for JSON promises. -/
structure Codec.Documented (c : Codec) : Prop where
  parse?_print {v : Json} (h : Plain v) (hdepth : v.depth ≤ depthLimit) :
    c.parse? (c.print v) = some v
  record?_obj {names : List String} {fields : List (String × Json)} (h : Once names fields) :
    c.record? names (obj fields) = some (names.map fun n => fields.lookup n)
  field?_none {α : Type} (default : α) (read : Json → Option α) :
    c.field? default read none = some default
  field?_some {α : Type} (default : α) (read : Json → Option α) (v : Json) :
    c.field? default read (some v) = read v
  bool?_eq_some_iff (v : Json) (b : Bool) : c.bool? v = some b ↔ v = bool b
  word?_eq_some_iff (v : Json) (n : UInt32) : c.word? v = some n ↔ v = int n.toNat
  text?_eq_some_iff (v : Json) (s : String) : c.text? v = some s ↔ v = str s
  nullable?_eq_some_iff (v : Json) (s : Option String) :
    c.nullable? v = some s ↔ v = (s.map str).getD null
  table?_eq_some_iff (v : Json) (t : Table UInt32) : c.table? v = some t ↔
    ∃ pairs : List (String × UInt32), v = obj (pairs.map fun p => (p.1, int p.2.toNat)) ∧
      t = Table.ofList pairs
  list?_eq_some_iff {α : Type} (read : Json → Option α) (v : Json) (as : List α) :
    c.list? read v = some as ↔ ∃ items, v = arr items ∧ items.mapM read = some as
  value?_eq_str_iff (v : Json) (s : String) : c.value? v = some (str s) ↔ v = str s

/-! ### The codec that runs -/

/-- Of a name that does not come twice, the last field is the first. -/
lemma lookup_reverse {name : String} {fields : List (String × Json)}
    (h : fields.countP (fun f => f.1 == name) ≤ 1) :
    fields.reverse.lookup name = fields.lookup name := by
  induction fields with
  | nil => rfl
  | cons f fields ih =>
    obtain ⟨key, v⟩ := f
    rw [List.reverse_cons, List.lookup_append]
    by_cases hkey : key = name
    · subst hkey
      rw [List.countP_cons_of_pos (by simp)] at h
      have hnone : fields.reverse.lookup key = none := by
        rw [List.lookup_eq_none_iff]
        intro f hf
        have hcount : fields.countP (fun f => f.1 == key) = 0 := by omega
        have hne := List.countP_eq_zero.mp hcount f (List.mem_reverse.mp hf)
        rw [beq_iff_eq] at hne
        exact bne_iff_ne.mpr (Ne.symm hne)
      rw [hnone, Option.none_or, List.lookup_cons_self, List.lookup_cons_self]
    · have hne : (name == key) = false := by simpa using Ne.symm hkey
      rw [List.countP_cons_of_neg (by simpa using hkey)] at h
      rw [ih h, List.lookup_cons, List.lookup_cons, hne]
      simp

lemma word?_eq_some_iff (v : Json) (n : UInt32) : word? v = some n ↔ v = int n.toNat := by
  have hlt := n.toNat_lt
  constructor
  · intro h
    obtain ⟨k, hk, h⟩ := Option.bind_eq_some_iff.mp h
    split at h
    · rename_i hsize
      cases h
      cases v with
      | int m =>
        have hm : m.toNat? = some k := hk
        rw [UInt32.toNat_ofNat_of_lt' hsize]
        cases m with
        | ofNat m => cases hm; rfl
        | negSucc m => cases hm
      | _ => cases hk
    · cases h
  · rintro rfl
    have hnat : (int n.toNat).nat? = some n.toNat := rfl
    rw [word?, hnat, Option.bind_some, if_pos hlt, UInt32.ofNat_toNat]

lemma table?_eq_some_iff (v : Json) (t : Table UInt32) : table? v = some t ↔
    ∃ pairs : List (String × UInt32), v = obj (pairs.map fun p => (p.1, int p.2.toNat)) ∧
      t = Table.ofList pairs := by
  have hpair (f : String × Json) (p : String × UInt32) :
      ((word? f.2).map fun n => (f.1, n)) = some p ↔ f = (p.1, int p.2.toNat) := by
    rw [Option.map_eq_some_iff]
    simp only [word?_eq_some_iff]
    constructor
    · rintro ⟨n, hn, rfl⟩
      exact Prod.ext rfl hn
    · rintro rfl
      exact ⟨p.2, rfl, rfl⟩
  have hlist (fields : List (String × Json)) (pairs : List (String × UInt32)) :
      fields.mapM (fun f => (word? f.2).map fun n => (f.1, n)) = some pairs
        ↔ fields = pairs.map fun p => (p.1, int p.2.toNat) := mapM_eq_some_iff hpair
  cases v with
  | obj fields =>
    simp only [table?, fields?, Option.bind_eq_bind, Option.bind_some, Option.bind_eq_some_iff,
      hlist, Option.pure_def, Option.some.injEq, obj.injEq, eq_comm (b := t)]
  | _ => simp [table?, fields?]

lemma value?_eq_str_iff (level : Nat) (v : Json) (s : String) :
    value? level v = some (str s) ↔ v = str s := by
  cases v <;> simp [value?, sorted?]

lemma documented_codec (level : Nat) : (codec level).Documented where
  parse?_print h _ := parse?_text h
  record?_obj := by
    intro names fields h
    have hall : (names.all fun n => decide (fields.countP (fun f => f.1 == n) ≤ 1)) = true :=
      List.all_eq_true.mpr fun n hn => decide_eq_true (h n hn)
    change record? names (obj fields) = _
    rw [record?, if_pos hall]
    exact congrArg some (List.map_congr_left fun n hn => lookup_reverse (h n hn))
  field?_none _ _ := rfl
  field?_some _ _ _ := rfl
  bool?_eq_some_iff v b := by cases v <;> simp [codec, bool?]
  word?_eq_some_iff := word?_eq_some_iff
  text?_eq_some_iff v s := by cases v <;> simp [codec, str?]
  nullable?_eq_some_iff v s := by cases v <;> cases s <;> simp [codec, nullable?]
  table?_eq_some_iff := table?_eq_some_iff
  list?_eq_some_iff read v as := by cases v <;> simp [codec, list?, items?]
  value?_eq_str_iff := value?_eq_str_iff level

end Json

namespace Options

open Json

variable {c : Codec}

/-! ### What an object says of options -/

/-- What an item of a list says of a name: a text itself, and any other value by its text. -/
inductive Names (c : Codec) : Json → String → Prop
  | text (s : String) : Names c (.str s) s
  | other {v w : Json} (hv : ∀ s, v ≠ .str s) (hw : c.value? v = some w) : Names c v (c.print w)

/-- What some fields say of an option: by the value that stands there, or else its default. -/
def Says {α : Type} (fields : List (String × Json)) (name : String) (default : α)
    (Means : Json → α → Prop) (a : α) : Prop :=
  match fields.lookup name with
  | none => a = default
  | some v => Means v a

/-- The fields of an object spell options. -/
structure Spelled (c : Codec) (fields : List (String × Json)) (o : Options) : Prop where
  shrinkVars : Says fields "shrink_vars" false (fun v b => v = .bool b) o.shrinkVars
  renamePrivate : Says fields "private" false (fun v b => v = .bool b) o.renamePrivate
  base62 : Says fields "base62" false (fun v b => v = .bool b) o.base62
  protectedNames : Says fields "protected_names" []
    (fun v names => ∃ items, v = .arr items ∧ List.Forall₂ (Names c) items names) o.protectedNames
  sourceFiles : Says fields "source_files" .empty
    (fun v t => ∃ pairs : List (String × UInt32),
      v = .obj (pairs.map fun p => (p.1, .int p.2.toNat)) ∧ t = .ofList pairs) o.sourceFiles
  outputFile : Says fields "output_file" none (fun v s => v = (s.map Json.str).getD .null)
    o.outputFile
  lineOffset : Says fields "line_offset" 0 (fun v n => v = .int n.toNat) o.lineOffset
  privateMark : Says fields "private_prefix" "_" (fun v s => v = .str s) o.privateMark
  radix : Says fields "radix" 62 (fun v n => v = .int n.toNat) o.radix
  wordPattern : Says fields "word_pattern" "\\w+" (fun v s => v = .str s) o.wordPattern

lemma field?_eq_some_iff (hc : c.Documented) {α : Type} {read : Json → Option α}
    {Means : Json → α → Prop} (h : ∀ v a, read v = some a ↔ Means v a)
    (fields : List (String × Json)) (name : String) (default a : α) :
    c.field? default read (fields.lookup name) = some a ↔ Says fields name default Means a := by
  unfold Says
  cases fields.lookup name with
  | none => simp only [hc.field?_none, Option.some.injEq, eq_comm (b := a)]
  | some v => exact (hc.field?_some default read v).symm ▸ h v a

lemma exists_nameOf_iff (hc : c.Documented) (v : Json) (n : String) :
    (∃ w, c.value? v = some w ∧ n = nameOf c w) ↔ Names c v n := by
  constructor
  · rintro ⟨w, hw, rfl⟩
    by_cases htext : ∃ s, v = .str s
    · obtain ⟨s, rfl⟩ := htext
      rw [(hc.value?_eq_str_iff _ s).mpr rfl] at hw
      cases hw
      exact .text s
    · have hv (s : String) : v ≠ .str s := fun hs => htext ⟨s, hs⟩
      have hprint : nameOf c w = c.print w := by
        cases w with
        | str s => exact absurd ((hc.value?_eq_str_iff v s).mp hw) (hv s)
        | _ => rfl
      rw [hprint]
      exact .other hv hw
  · intro h
    cases h with
    | text => exact ⟨.str n, (hc.value?_eq_str_iff _ n).mpr rfl, rfl⟩
    | @other _ w hv hw =>
      refine ⟨w, hw, ?_⟩
      cases w with
      | str s => exact absurd ((hc.value?_eq_str_iff v s).mp hw) (hv s)
      | _ => rfl

lemma names?_eq_some_iff (hc : c.Documented) (v : Json) (names : List String) :
    names? c v = some names ↔ ∃ items, v = .arr items ∧ List.Forall₂ (Names c) items names := by
  simp only [names?, Option.map_eq_some_iff, hc.list?_eq_some_iff, eq_comm (b := names),
    ← map_mapM_eq_some_iff (exists_nameOf_iff hc)]
  constructor
  · rintro ⟨vs, ⟨items, rfl, hvs⟩, hnames⟩
    exact ⟨items, rfl, vs, hvs, hnames⟩
  · rintro ⟨items, rfl, vs, hvs, hnames⟩
    exact ⟨vs, ⟨items, rfl, hvs⟩, hnames⟩

/-- **Options are what the fields say.** -/
lemma read?_eq_some_iff (hc : c.Documented) {fields : List (String × Json)}
    (h : Once fieldNames fields) (o : Options) :
    read? c (.obj fields) = some o ↔ Spelled c fields o := by
  have hbool := field?_eq_some_iff hc hc.bool?_eq_some_iff fields
  have hword := field?_eq_some_iff hc hc.word?_eq_some_iff fields
  have htext := field?_eq_some_iff hc hc.text?_eq_some_iff fields
  have hnames := field?_eq_some_iff hc (names?_eq_some_iff hc) fields
  have htable := field?_eq_some_iff hc hc.table?_eq_some_iff fields
  have hnullable := field?_eq_some_iff hc hc.nullable?_eq_some_iff fields
  rw [read?, hc.record?_obj h]
  simp only [fieldNames, List.map_cons, List.map_nil, Option.bind_eq_bind, Option.bind_some,
    Option.bind_eq_some_iff, Option.pure_def, Option.some.injEq, hbool, hword, htext, hnames,
    htable, hnullable]
  constructor
  · rintro ⟨_, h₁, _, h₂, _, h₃, _, h₄, _, h₅, _, h₆, _, h₇, _, h₈, _, h₉, _, h₁₀, rfl⟩
    exact ⟨h₁, h₂, h₃, h₄, h₅, h₆, h₇, h₈, h₉, h₁₀⟩
  · rintro ⟨h₁, h₂, h₃, h₄, h₅, h₆, h₇, h₈, h₉, h₁₀⟩
    exact ⟨_, h₁, _, h₂, _, h₃, _, h₄, _, h₅, _, h₆, _, h₇, _, h₈, _, h₉, _, h₁₀, rfl⟩

/-! ### Options written -/

lemma plain_word (n : UInt32) : Plain (.int n.toNat) := by
  have hlt := n.toNat_lt
  exact .int (by omega) (by simp only [UInt64.size]; omega)

lemma plain_toJson (o : Options) : Plain o.toJson := by
  refine .obj fun f hf => ?_
  have hmem := (List.of_mem_zip hf).2
  simp only [List.mem_cons, List.not_mem_nil, or_false] at hmem
  rcases hmem with h | h | h | h | h | h | h | h | h | h <;> rw [h]
  · exact .bool _
  · exact .bool _
  · exact .bool _
  · refine .arr fun v hv => ?_
    obtain ⟨s, -, rfl⟩ := List.mem_map.mp hv
    exact .str s
  · refine .obj fun f hf => ?_
    obtain ⟨e, -, rfl⟩ := List.mem_map.mp hf
    exact plain_word e.2
  · cases o.outputFile with
    | none => exact .null
    | some name => exact .str name
  · exact plain_word _
  · exact .str _
  · exact plain_word _
  · exact .str _

lemma depth_toJson_le (o : Options) : o.toJson.depth ≤ 2 := by
  have hnames (names : List String) : itemsDepth (names.map .str) = 0 := by
    induction names with
    | nil => rfl
    | cons n names ih => simp [itemsDepth, depth, ih]
  have hfiles (entries : List (String × UInt32)) :
      fieldsDepth (entries.map fun e => (e.1, .int e.2.toNat)) = 0 := by
    induction entries with
    | nil => rfl
    | cons e entries ih => simp [fieldsDepth, depth, ih]
  have hfile : ((o.outputFile.map Json.str).getD .null).depth = 0 := by
    cases o.outputFile <;> rfl
  simp [toJson, fields, fieldNames, depth, fieldsDepth, hnames, hfiles, hfile]

lemma once_fields (o : Options) : Once fieldNames o.fields := by
  have hnodup : fieldNames.Nodup := by simp [fieldNames]
  have hkeys : o.fields.map Prod.fst = fieldNames := rfl
  intro n _
  have hcount := List.nodup_iff_count_le_one.mp (hkeys ▸ hnodup) n
  rwa [List.count, List.countP_map] at hcount

lemma spelled_fields (o : Options) : Spelled c o.fields o where
  shrinkVars := rfl
  renamePrivate := rfl
  base62 := rfl
  protectedNames := by
    refine ⟨_, rfl, ?_⟩
    exact List.forall₂_map_left_iff.mpr (List.forall₂_same.mpr fun s _ => .text s)
  sourceFiles := ⟨o.sourceFiles.entries, rfl, o.sourceFiles.ofList_entries.symm⟩
  outputFile := rfl
  lineOffset := rfl
  privateMark := rfl
  radix := rfl
  wordPattern := rfl

lemma ofText?_write (hc : c.Documented) (o : Options) : ofText? c (o.write c) = some o := by
  have hdepth : o.toJson.depth ≤ depthLimit := o.depth_toJson_le.trans (by decide)
  rw [ofText?, write, hc.parse?_print o.plain_toJson hdepth, Option.bind_some]
  exact (read?_eq_some_iff hc o.once_fields o).mpr o.spelled_fields

/-- **Options survive being written and read.** The text of options is read back as the same
options. An object without a field twice is read as the options that its fields spell, with defaults
for those that are missing and names out of items of any kind; to write and read what has been read
changes nothing. -/
theorem options_read_back (hc : c.Documented) :
    (∀ o : Options, ofText? c (o.write c) = some o) ∧
      (∀ s fields, c.parse? s = some (.obj fields) → Once fieldNames fields →
        ∀ o, ofText? c s = some o ↔ Spelled c fields o) ∧
      ∀ s o, ofText? c s = some o → ofText? c (o.write c) = ofText? c s := by
  refine ⟨ofText?_write hc, fun s fields hs h o => ?_, fun s o hs => ?_⟩
  · rw [ofText?, hs, Option.bind_some]
    exact read?_eq_some_iff hc h o
  · rw [hs, ofText?_write hc]

/-- Names out of items of four kinds, and all other options left out. -/
theorem options_read_back_mixed :
    let s :=
      "\x7b\"shrink_vars\":true,\"protected_names\":[\"a\",24,null,\x7b\"b\":[true]\x7d]\x7d"
    let o : Options :=
      { shrinkVars := true, protectedNames := ["a", "24", "null", "\x7b\"b\":[true]\x7d"] }
    (codec 2).Documented ∧ ofString? s = some o ∧ ofString? (o.write (codec 2)) = some o := by
  intro s o
  have hc := documented_codec 2
  let items : List Json := [.str "a", .int 24, .null, .obj [("b", .arr [.bool true])]]
  let fields : List (String × Json) :=
    [("shrink_vars", .bool true), ("protected_names", .arr items)]
  obtain ⟨-, hread, hagain⟩ := options_read_back hc
  have hparse : (codec 2).parse? s = some (.obj fields) := by cbv
  have hspelled : Spelled (codec 2) fields o := by
    refine ⟨rfl, rfl, rfl, ⟨items, rfl, ?_⟩, rfl, rfl, rfl, rfl, rfl, rfl⟩
    refine .cons (.text "a") (.cons ?_ (.cons ?_ (.cons ?_ .nil)))
    · exact .other (by simp) (w := .int 24) rfl
    · exact .other (by simp) (w := .null) rfl
    · exact .other (by simp) (w := .obj [("b", .arr [.bool true])]) rfl
  have hs := (hread s fields hparse (by decide) o).mpr hspelled
  exact ⟨hc, hs, (hagain s o hs).trans hs⟩

end Options

end Minify
