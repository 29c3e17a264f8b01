import Mathlib
import Minify.Proofs.FileStarts
import Minify.Proofs.RenamedTokens

/-!
Looking up a byte of a packed script.

The pieces of a packed script stand in the order of their tokens, in the script as in the output. So
the last entry that is not past a byte is the one of the piece the byte stands for. That piece has
no entry if no file starts at its token or before; but then no piece in front of it has one either,
and nothing is found.
-/

namespace Minify

open Layout

/-! ### The file of a byte -/

namespace SourceMap

/-- A byte of the input lies in a file: it is the last one, by start and then by name, of those that
start at the byte or before. -/
structure Home (files : List File) (offset : Nat) (f : File) : Prop where
  mem : f ∈ files
  start_le : f.start ≤ offset
  last : ∀ g ∈ files, g.start ≤ offset → g.le f = true

/-- What is found for a byte of the input: its file by name and its place there, or nothing if it
lies before all files. -/
structure Finds (files : List File) (offset : Nat) (found : Option (String × Nat)) : Prop where
  some_iff : ∀ name place, found = some (name, place) ↔
    ∃ f, Home files offset f ∧ name = f.name ∧ place = offset - f.start
  none_iff : found = none ↔ ∀ f ∈ files, offset < f.start

variable {files : List File} {f g : File} {offset : Nat}

lemma File.le_antisymm (hfg : f.le g = true) (hgf : g.le f = true) : f = g := by
  have hle := start_le_of_le hfg
  have hge := start_le_of_le hgf
  obtain ⟨name, start⟩ := f
  obtain ⟨name', start'⟩ := g
  obtain rfl : start = start' := Nat.le_antisymm hle hge
  simp only [File.le, lt_self_iff_false, decide_false, Bool.false_or, beq_self_eq_true,
    Bool.true_and, decide_eq_true_eq] at hfg hgf
  rw [Std.le_antisymm hfg hgf]

lemma Home.unique (hf : Home files offset f) (hg : Home files offset g) : f = g :=
  File.le_antisymm (hg.last f hf.mem hf.start_le) (hf.last g hg.mem hg.start_le)

lemma Home.finds (h : Home files offset f) :
    Finds files offset (some (f.name, offset - f.start)) := by
  refine ⟨fun name place => ⟨fun he => ?_, ?_⟩, ⟨nofun, fun hall => ?_⟩⟩
  · obtain ⟨rfl, rfl⟩ := Prod.mk.inj (Option.some.inj he)
    exact ⟨f, h, rfl, rfl⟩
  · rintro ⟨g, hg, rfl, rfl⟩
    rw [h.unique hg]
  · exact absurd h.start_le (Nat.not_le.mpr (hall f h.mem))

lemma finds_none (h : ∀ f ∈ files, offset < f.start) : Finds files offset none := by
  refine ⟨fun name place => ⟨nofun, ?_⟩, ⟨fun _ => h, fun _ => rfl⟩⟩
  rintro ⟨f, hf, -, -⟩
  exact absurd hf.start_le (Nat.not_le.mpr (h f hf.mem))

lemma pairwise_le (files : List File) :
    (files.mergeSort File.le).Pairwise fun a b => a.le b = true :=
  List.pairwise_mergeSort File.le_trans File.le_total files

variable {input output : Text.LineIndex} {m : Mapping} {y : Entry × Segment}

/-- A mapping leads into the file that its byte lies in. -/
lemma home_of_resolveMapping (h : resolveMapping input output (files.mergeSort File.le) m = some y) :
    ∃ f, Home files m.original f ∧ (files.mergeSort File.le)[y.1.source]? = some f ∧
      y.1.generated = m.generated ∧ y.1.offset = m.original - f.start := by
  obtain ⟨i, f, hi, hf, rfl⟩ := resolveMapping_eq_some_iff.mp h
  refine ⟨f, ⟨List.mem_mergeSort.mp (List.mem_of_getElem? hf), start_le_of_lastNotPast? hi hf,
    fun g hg hle => ?_⟩, hf, rfl, rfl⟩
  obtain ⟨j, hj⟩ := List.mem_iff_getElem?.mp (List.mem_mergeSort.mpr hg)
  rcases Nat.eq_or_lt_of_le
    ((start_le_iff_of_lastNotPast? (mergeSort_pairwise files) hi hj).mp hle) with rfl | hlt
  · obtain rfl : g = f := Option.some.inj (hj.symm.trans hf)
    exact (Bool.or_self _).symm.trans (File.le_total g g)
  · exact rel_of_pairwise (pairwise_le files) hj hf hlt

/-! ### The entry of a byte -/

variable {t : SourceMap} {e : Entry}

/-- The entry of a byte is the last one that is not past it. -/
lemma lookup_eq_some (hs : t.entries.Pairwise fun a b => a.generated ≤ b.generated)
    (he : e ∈ t.entries) (hle : e.generated ≤ offset)
    (hlast : ∀ d ∈ t.entries, e.generated ≤ d.generated → d.generated ≤ offset → d = e)
    {name : String} (hname : t.sources[e.source]? = some name) :
    t.lookup offset = some (name, e.offset) := by
  obtain ⟨i, hi⟩ := Option.ne_none_iff_exists'.mp (lastNotPast?_ne_none hs he hle)
  obtain ⟨d, hd, hdle, hdlast⟩ := of_lastNotPast?_eq_some hs hi
  obtain rfl := hlast d (List.mem_of_getElem? hd) (hdlast e he hle) hdle
  simp [lookup, hi, hd, hname]

lemma lookup_eq_none (h : ∀ e ∈ t.entries, offset < e.generated) : t.lookup offset = none := by
  cases hi : lastNotPast? Entry.generated offset t.entries with
  | none => simp [lookup, hi]
  | some i =>
    obtain ⟨e, he⟩ := exists_getElem?_of_lastNotPast? hi
    exact absurd (start_le_of_lastNotPast? hi he) (Nat.not_le.mpr (h e (List.mem_of_getElem? he)))

lemma entries_build_pairwise (source code : String) (files : List File) (mappings : List Mapping)
    (file : Option String) (lineOffset : Nat) :
    (build source code files mappings file lineOffset).entries.Pairwise
      fun a b => a.generated ≤ b.generated := by
  have hsorted : (build source code files mappings file lineOffset).entries.Pairwise
      fun a b => decide (a.generated ≤ b.generated) = true :=
    List.pairwise_mergeSort (fun _ _ _ => by simpa using Nat.le_trans)
      (fun a b => by simpa using Nat.le_total a.generated b.generated) _
  exact hsorted.imp of_decide_eq_true

end SourceMap

/-! ### The pieces of a compacted script -/

namespace Layout

lemma Placed.map_original {gaps : List Gap} {kept : List (Token × String)} {c : Compacted}
    (h : Placed gaps kept c) : c.mappings.map Mapping.original = kept.map fun e => e.1.start := by
  refine List.ext_getElem? fun i => ?_
  rw [List.getElem?_map, List.getElem?_map]
  cases he : kept[i]? with
  | none =>
    have hlen := List.getElem?_eq_none_iff.mp he
    rw [List.getElem?_eq_none_iff.mpr (h.count ▸ hlen)]
    rfl
  | some e =>
    have hlt : i < gaps.length := h.length ▸ (List.getElem?_eq_some_iff.mp he).1
    rw [h.mapping i _ e (List.getElem?_eq_getElem hlt) he]
    rfl

end Layout

lemma Tile.pairwise_start {start stop : Nat} {ts : List Token} (h : Tile start stop ts) :
    ts.Pairwise (fun s t => s.start < t.start) ∧ ∀ t ∈ ts, start ≤ t.start := by
  induction ts generalizing start with
  | nil => exact ⟨.nil, nofun⟩
  | cons t ts ih =>
    obtain ⟨hstart, hlt, hrest⟩ := h
    obtain ⟨hpairwise, hle⟩ := ih hrest
    have hlater : ∀ s ∈ ts, start < s.start := fun s hs => Nat.lt_of_lt_of_le hlt (hle s hs)
    exact ⟨List.pairwise_cons.mpr ⟨fun s hs => hstart ▸ hlater s hs, hpairwise⟩,
      List.forall_mem_cons.mpr ⟨hstart.ge, fun s hs => (hlater s hs).le⟩⟩

lemma Tile.start_lt {start stop : Nat} {ts : List Token} (h : Tile start stop ts) :
    start ≤ stop ∧ ∀ t ∈ ts, t.start < stop := by
  induction ts generalizing start with
  | nil => exact ⟨h.le, nofun⟩
  | cons t ts ih =>
    obtain ⟨hstart, hlt, hrest⟩ := h
    obtain ⟨hle, hall⟩ := ih hrest
    exact ⟨(Nat.lt_of_lt_of_le hlt hle).le,
      List.forall_mem_cons.mpr ⟨hstart ▸ Nat.lt_of_lt_of_le hlt hle, hall⟩⟩

/-- A byte of a compacted script stands for the piece at an index: it is one of those from the start
of its text on, up to where the text of the next piece starts. -/
structure Compacted.StandsFor (c : Compacted) (i offset : Nat) : Prop where
  from_start : ∀ x, c.mappings[i]? = some x → x.generated ≤ offset
  before_next : ∀ y, c.mappings[i + 1]? = some y → offset < y.generated

variable {c : Compacted} {i j offset : Nat} {x y : Mapping}

/-- The pieces up to a byte are those up to the one it stands for. -/
lemma Compacted.StandsFor.le_iff (h : c.StandsFor i offset)
    (hs : c.mappings.Pairwise fun a b => a.generated < b.generated) (hx : c.mappings[i]? = some x)
    (hy : c.mappings[j]? = some y) : y.generated ≤ offset ↔ j ≤ i := by
  have hle := h.from_start x hx
  constructor
  · intro hyle
    by_contra hlt
    obtain ⟨z, hz⟩ : ∃ z, c.mappings[i + 1]? = some z :=
      ⟨_, List.getElem?_eq_getElem
        (Nat.lt_of_le_of_lt (Nat.not_le.mp hlt) (List.getElem?_eq_some_iff.mp hy).1)⟩
    have hnext := h.before_next z hz
    rcases Nat.eq_or_lt_of_le (Nat.not_le.mp hlt) with rfl | hlt
    · cases hy.symm.trans hz
      omega
    · have := SourceMap.rel_of_pairwise hs hz hy hlt
      omega
  · intro hji
    rcases Nat.eq_or_lt_of_le hji with rfl | hlt
    · cases hy.symm.trans hx
      exact hle
    · exact Nat.le_trans (SourceMap.rel_of_pairwise hs hy hx hlt).le hle

/-! ### Looking up -/

variable {files : List SourceMap.File} {source code : String} {file : Option String}
  {lineOffset : Nat}

/-- An entry that is not past a byte belongs to the piece that the byte stands for, or to one in
front of it. -/
lemma exists_mapping_of_entry (hs : c.mappings.Pairwise fun a b => a.generated < b.generated)
    (hx : c.mappings[i]? = some x) (h : c.StandsFor i offset) {e : SourceMap.Entry}
    (he : e ∈ (SourceMap.build source code files c.mappings file lineOffset).entries)
    (hle : e.generated ≤ offset) :
    ∃ (j : Nat) (y : Mapping), j ≤ i ∧ c.mappings[j]? = some y ∧
      ∃ z, SourceMap.resolveMapping (.ofString source) (.ofString code)
        (files.mergeSort SourceMap.File.le) y = some z ∧ z.1 = e := by
  obtain ⟨y, hy, z, hz, rfl⟩ := SourceMap.mem_entries_build.mp he
  obtain ⟨j, hj⟩ := List.mem_iff_getElem?.mp hy
  obtain ⟨f, -, -, hgenerated, -⟩ := SourceMap.home_of_resolveMapping hz
  exact ⟨j, y, (h.le_iff hs hx hj).mp (hgenerated ▸ hle), hj, z, hz, rfl⟩

lemma finds_of_file (hs : c.mappings.Pairwise fun a b => a.generated < b.generated)
    (hx : c.mappings[i]? = some x) (h : c.StandsFor i offset) {g : SourceMap.File} (hg : g ∈ files)
    (hle : g.start ≤ x.original) :
    SourceMap.Finds files x.original
      ((SourceMap.build source code files c.mappings file lineOffset).lookup offset) := by
  obtain ⟨z, hz⟩ : ∃ z, SourceMap.resolveMapping (.ofString source) (.ofString code)
      (files.mergeSort SourceMap.File.le) x = some z :=
    SourceMap.exists_resolveMapping (SourceMap.mergeSort_pairwise files)
      (List.mem_mergeSort.mpr hg) hle
  obtain ⟨f, hf, hsource, hgenerated, hoffset⟩ := SourceMap.home_of_resolveMapping hz
  have hname : (SourceMap.build source code files c.mappings file lineOffset).sources[z.1.source]?
      = some f.name := by
    rw [SourceMap.build, List.getElem?_map, hsource]
    rfl
  have hlookup := SourceMap.lookup_eq_some
    (SourceMap.entries_build_pairwise source code files c.mappings file lineOffset)
    (SourceMap.mem_entries_build.mpr ⟨x, List.mem_of_getElem? hx, z, hz, rfl⟩)
    (hgenerated ▸ h.from_start x hx) (fun d hd hge hle => ?_) hname
  · rw [hlookup, hoffset]
    exact hf.finds
  · obtain ⟨j, y, hji, hy, z', hz', rfl⟩ := exists_mapping_of_entry hs hx h hd hle
    obtain ⟨-, -, -, hgenerated', -⟩ := SourceMap.home_of_resolveMapping hz'
    rcases Nat.eq_or_lt_of_le hji with rfl | hlt
    · cases hy.symm.trans hx
      cases hz.symm.trans hz'
      rfl
    · have := SourceMap.rel_of_pairwise hs hy hx hlt
      omega

lemma finds_without_file (hs : c.mappings.Pairwise fun a b => a.generated < b.generated)
    (hos : c.mappings.Pairwise fun a b => a.original < b.original)
    (hx : c.mappings[i]? = some x) (h : c.StandsFor i offset)
    (hall : ∀ f ∈ files, x.original < f.start) :
    SourceMap.Finds files x.original
      ((SourceMap.build source code files c.mappings file lineOffset).lookup offset) := by
  rw [SourceMap.lookup_eq_none fun e he => Nat.not_le.mp fun hle => ?_]
  · exact SourceMap.finds_none hall
  · obtain ⟨j, y, hji, hy, z, hz, rfl⟩ := exists_mapping_of_entry hs hx h he hle
    obtain ⟨f, hf, -⟩ := SourceMap.home_of_resolveMapping hz
    have hstart := hall f hf.mem
    have hstart' := hf.start_le
    rcases Nat.eq_or_lt_of_le hji with rfl | hlt
    · cases hy.symm.trans hx
      omega
    · have := SourceMap.rel_of_pairwise hos hy hx hlt
      omega

/-- A byte that stands for a piece leads to the file of the piece. -/
lemma finds_lookup_build (hs : c.mappings.Pairwise fun a b => a.generated < b.generated)
    (hos : c.mappings.Pairwise fun a b => a.original < b.original)
    (hx : c.mappings[i]? = some x) (h : c.StandsFor i offset) :
    SourceMap.Finds files x.original
      ((SourceMap.build source code files c.mappings file lineOffset).lookup offset) := by
  by_cases hhome : ∃ f ∈ files, f.start ≤ x.original
  · obtain ⟨g, hg, hle⟩ := hhome
    exact finds_of_file hs hx h hg hle
  · exact finds_without_file hs hos hx h fun f hf => Nat.not_le.mp fun hle => hhome ⟨f, hf, hle⟩

/-- The pieces of a script come from one place after another. -/
lemma Layout.Placed.pairwise_original {tokens : List Token} {replaced : Replacements} {gaps : List Gap}
    (h : Placed gaps (written [] (newTexts tokens replaced)) c)
    (htokens : tokenize source = .ok tokens) :
    c.mappings.Pairwise fun a b => a.original < b.original := by
  have hsub := written_sublist [] (newTexts tokens replaced)
  rw [map_fst_newTexts] at hsub
  have hstarts := (covers_of_tokenize htokens).1.pairwise_start.1.sublist hsub
  rw [List.pairwise_map] at hstarts
  have horiginals : (c.mappings.map Mapping.original).Pairwise (· < ·) := by
    rw [h.map_original]
    exact List.pairwise_map.mpr hstarts
  exact List.pairwise_map.mp horiginals

/-- A script is packed piece by piece, and every byte that stands for a piece, the gap behind the
piece included, leads to the file that the token of the piece starts in. -/
structure LooksUp (p : ProtectedNames) (o : Options) (source : String) (packed : Packed)
    (tokens : List Token) (replaced : Replacements) (gaps : List Gap) (c : Compacted) : Prop where
  read : tokenize source = .ok tokens
  renamed : o.replacements (p.add o.protectedNames) tokens = .ok replaced
  placed : Placed gaps (written [] (newTexts tokens replaced)) c
  code : packed.code = c.code
  finds : ∀ (i : Nat) (e : Token × String), (written [] (newTexts tokens replaced))[i]? = some e →
    ∀ offset, c.StandsFor i offset →
      SourceMap.Finds o.files e.1.start (packed.sourceMap.lookup offset)

lemma exists_looksUp {p : ProtectedNames} {o : Options} {source : String} {packed : Packed}
    (h62 : o.base62 = false) (h : pack p o source = .ok packed) :
    ∃ tokens replaced gaps c lineOffset, LooksUp p o source packed tokens replaced gaps c ∧
      packed.sourceMap
        = SourceMap.build source c.code o.files c.mappings o.outputFile lineOffset := by
  rw [pack_eq_map_layOut p source h62] at h
  cases hc : layOut p o source with
  | error e =>
    rw [hc] at h
    cases h
  | ok c =>
    rw [hc] at h
    cases h
    obtain ⟨tokens, replaced, gaps, htokens, hreplaced, hplaced⟩ := exists_of_layOut hc
    refine ⟨tokens, replaced, gaps, c, _, ⟨htokens, hreplaced, hplaced, rfl,
      fun i e he offset h => ?_⟩, rfl⟩
    obtain ⟨x, hx, hstart⟩ : ∃ x, c.mappings[i]? = some x ∧ x.original = e.1.start := by
      have hmap := congrArg (·[i]?) hplaced.map_original
      simp only [List.getElem?_map, he, Option.map_some] at hmap
      exact Option.map_eq_some_iff.mp hmap
    rw [← hstart]
    exact finds_lookup_build hplaced.increasing (hplaced.pairwise_original htokens) hx h

/-- The numbers that a packed script is looked up by are words of 32 bits. -/
structure LookupInWords (c : Compacted) (m : SourceMap) : Prop where
  mapping : ∀ x ∈ c.mappings, x.InWords
  entry : ∀ e ∈ m.entries, e.generated < UInt32.size ∧ e.offset < UInt32.size

lemma LooksUp.inWords {p : ProtectedNames} {o : Options} {source : String} {packed : Packed}
    {tokens : List Token} {replaced : Replacements} {gaps : List Gap} {c : Compacted}
    {lineOffset : Nat} (h : LooksUp p o source packed tokens replaced gaps c)
    (hsource : Text.FitsWord source) (hcode : Text.FitsWord packed.code)
    (hmap : packed.sourceMap
      = SourceMap.build source c.code o.files c.mappings o.outputFile lineOffset) :
    LookupInWords c packed.sourceMap := by
  have hstart : ∀ t ∈ tokens, t.start < UInt32.size := fun t ht =>
    Nat.lt_trans ((covers_of_tokenize h.read).1.start_lt.2 t ht) hsource
  have hmapping : ∀ x ∈ c.mappings, x.InWords := by
    refine h.placed.inWords (h.code ▸ hcode) fun e he => hstart e.1 ?_
    have hmem := (written_sublist [] (newTexts tokens replaced)).subset (List.mem_map_of_mem he)
    rwa [map_fst_newTexts] at hmem
  refine ⟨hmapping, fun e he => ?_⟩
  obtain ⟨x, hx, f, -, -, hgenerated, hoffset, -⟩ := SourceMap.of_mem_entries_build (hmap ▸ he)
  rw [hgenerated, hoffset]
  exact ⟨(hmapping x hx).generated, Nat.lt_of_le_of_lt (Nat.sub_le _ _) (hmapping x hx).original⟩

/-- **Looking up is exact** in every script that is packed without a dictionary, as long as places
in it and in what it is packed to are words of 32 bits: a byte leads to the file that the token of
its piece starts in, and to the place of the token there, or to nothing exactly if all files start
behind the token. -/
theorem lookup_exact {p : ProtectedNames} {o : Options} {source : String} {packed : Packed}
    (h62 : o.base62 = false) (h : pack p o source = .ok packed) (hsource : Text.FitsWord source)
    (hcode : Text.FitsWord packed.code) :
    ∃ tokens replaced gaps c, LooksUp p o source packed tokens replaced gaps c ∧
      LookupInWords c packed.sourceMap := by
  obtain ⟨tokens, replaced, gaps, c, lineOffset, hlooks, hmap⟩ := exists_looksUp h62 h
  exact ⟨tokens, replaced, gaps, c, hlooks, hlooks.inWords hsource hcode hmap⟩

set_option maxRecDepth 20000 in
/-- Two files that start in the middle of a name, and a line feed that stays behind it: the bytes up
to the next name stand for a token in front of both files, those after it for tokens in the file
with the later name. -/
theorem lookup_exact_at_line_end :
    let o : Options := { sourceFiles := (Table.empty.insert "b" 1).insert "a" 1 }
    o.base62 = false ∧ Text.FitsWord "xy\n  z=1" ∧ ∃ packed,
      pack .empty o "xy\n  z=1" = .ok packed ∧ packed.code = "xy\nz=1" ∧
      Text.FitsWord packed.code ∧
      (List.range 6).map packed.sourceMap.lookup
        = [none, none, none, some ("b", 4), some ("b", 5), some ("b", 6)] ∧
      ∃ tokens replaced gaps c, LooksUp .empty o "xy\n  z=1" packed tokens replaced gaps c ∧
        LookupInWords c packed.sourceMap := by
  intro o
  have hsource : Text.FitsWord "xy\n  z=1" := by
    unfold Text.FitsWord
    decide
  have hpack : (pack .empty o "xy\n  z=1").map (fun r =>
      (r.code, (List.range 6).map r.sourceMap.lookup))
      = .ok ("xy\nz=1", [none, none, none, some ("b", 4), some ("b", 5), some ("b", 6)]) := by
    rw [pack, tokenize, tokens_eq_runFor]
    cbv
  cases h : pack .empty o "xy\n  z=1" with
  | error e => simp [h, Except.map] at hpack
  | ok packed =>
    rw [h] at hpack
    obtain ⟨hcode, hlookup⟩ := Prod.mk.inj (Except.ok.inj hpack)
    have hfits : Text.FitsWord packed.code := by
      rw [hcode]
      unfold Text.FitsWord
      decide
    exact ⟨rfl, hsource, packed, rfl, hcode, hfits, hlookup, lookup_exact rfl h hsource hfits⟩

end Minify
