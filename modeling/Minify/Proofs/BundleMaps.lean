import Mathlib
import Minify.Proofs.FileStarts
import Minify.Proofs.JoinedScripts
import Minify.Proofs.PackingDecodes
import Minify.Proofs.ReadBack
import Minify.Proofs.RenamedTokens

/-!
When the map of a bundle points every token at the script it comes from.

The map knows the scripts by a table of their paths, which holds one start for each: of several
copies of a script, that of the last. A byte in a copy that is not the last belongs to the script
before it, if any, and the starts that the options of the bundle hold already stay among them. All
else is as it should be: the scripts start at different bytes, and no token starts at a line feed
between them.
-/

namespace Minify

open Layout SourceMap

/-! ### Tokens in copies -/

/-- A token that stays begins behind the texts of those before it, and not with a line feed. -/
lemma front_of_mem {source : String} {ts : List Token} {t : Token} (h : tokenize source = .ok ts)
    (ht : t ∈ ts) (hkept : isKept t = true) : ∃ front c rest,
      source.toList = front ++ c :: rest ∧ c ≠ '\n' ∧ t.start = Text.byteSize front := by
  obtain ⟨htile, hjoin⟩ := covers_of_tokenize h
  obtain ⟨c, cs, htext, hspace, -⟩ := (isInk_of_tokenize h t ht hkept).head
  obtain ⟨before, after, rfl⟩ := List.append_of_mem ht
  have hc : c ≠ '\n' := by
    rintro rfl
    cases hspace
  have hstart := htile.start_eq
  rw [Nat.zero_add, Text.utf8ByteSize_eq] at hstart
  refine ⟨_, c, cs ++ (String.join (after.map Token.text)).toList, ?_, hc, hstart⟩
  have htext : t.text.toList = c :: cs := htext
  rw [← hjoin, List.map_append, List.map_cons, String.join_append, String.join_cons,
    String.toList_append, String.toList_append, htext, List.cons_append]

variable {p : ProtectedNames} {o : Options} {copies before after : List Copy} {copy : Copy}
  {c : Compacted} {x : Mapping}

/-- What is written of joined copies comes from one of them. -/
lemma liesIn_of_mem_mappings (h : layOut p o (Copy.joined copies) = .ok c) (hx : x ∈ c.mappings) :
    ∃ before copy after, Copy.LiesIn copies before copy after x.original := by
  obtain ⟨tokens, replaced, gaps, htokens, -, hplaced⟩ := exists_of_layOut h
  obtain ⟨e, he, hstart⟩ := hplaced.exists_token hx
  obtain ⟨hkept, text, hmem, -⟩ := of_mem_written e he
  obtain ⟨i, hi⟩ := List.mem_iff_getElem?.mp hmem
  obtain ⟨front, d, rest, hfront, hd, hsize⟩ := front_of_mem htokens
    (List.mem_of_getElem? (of_getElem?_newTexts hi).1) hkept
  rw [hstart, hsize]
  exact Copy.exists_liesIn hfront hd

lemma Copy.LiesIn.unique {before' after' : List Copy} {copy' : Copy} {offset : Nat}
    (h : LiesIn copies before copy after offset) (h' : LiesIn copies before' copy' after' offset) :
    before' = before ∧ copy' = copy ∧ after' = after := by
  rcases split_cases h.split h'.split with he | ⟨-, -, hlt⟩ | ⟨-, -, hlt⟩
  · exact he
  · exact absurd (Nat.lt_of_lt_of_le hlt h'.le) (Nat.not_lt.mpr h.lt.le)
  · exact absurd (Nat.lt_of_lt_of_le hlt h.le) (Nat.not_lt.mpr h'.lt.le)

lemma Copy.path_mem (h : copies = before ++ copy :: after) : copy.path ∈ copies.map Copy.path := by
  rw [h, List.map_append]
  exact List.mem_append_right _ List.mem_cons_self

variable {files : List File} {source code : String} {file : Option String} {lineOffset : Nat}

/-- The entry at the place of a token names the last file that starts at the byte it comes from or
before. -/
lemma file_of_entry {e : SourceMap.Entry} (h : layOut p o (Copy.joined copies) = .ok c)
    (hx : x ∈ c.mappings)
    (he : e ∈ (SourceMap.build source code files c.mappings file lineOffset).entries)
    (hgenerated : e.generated = x.generated) :
    ∃ f ∈ files, (SourceMap.build source code files c.mappings file lineOffset).sources[e.source]?
        = some f.name ∧
      e.offset = x.original - f.start ∧ f.start ≤ x.original ∧
      ∀ g ∈ files, g.start ≤ x.original → g.start ≤ f.start := by
  obtain ⟨tokens, replaced, gaps, -, -, hplaced⟩ := exists_of_layOut h
  obtain ⟨x', hx', f, hf, hname, hgenerated', hplace⟩ := of_mem_entries_build he
  obtain rfl := hplaced.eq_of_generated hx' hx (hgenerated'.symm.trans hgenerated)
  exact ⟨f, hf, hname, hplace⟩

/-! ### The files of a bundle -/

namespace Bundle

variable {b : Bundle} {f : File}

lemma foldl_addSourceFile (o : Options) (starts : List (String × UInt32)) :
    starts.foldl (fun o s => o.addSourceFile s.1 s.2) o
      = { o with sourceFiles := starts.foldl (fun t s => t.insert s.1 s.2) o.sourceFiles } := by
  induction starts generalizing o with
  | nil => rfl
  | cons s starts ih =>
    rw [List.foldl_cons, ih]
    rfl

/-- The files that the packer is told of are the last copies of the scripts, and those that the
options hold under other names. -/
lemma mem_files (hfits : Copy.size copies < UInt32.size) :
    f ∈ (b.packOptions (Copy.together copies)).files ↔
      (∃ before copy after, copies = before ++ copy :: after ∧ copy.path ∉ after.map Copy.path ∧
        f = ⟨copy.path, Copy.size before⟩) ∨
      ∃ e ∈ b.options.sourceFiles.entries, e.1 ∉ copies.map Copy.path ∧ f = ⟨e.1, e.2.toNat⟩ := by
  have hstart {before after : List Copy} {copy : Copy} (h : copies = before ++ copy :: after) :
      (UInt32.ofNat (Copy.size before)).toNat = Copy.size before := by
    refine UInt32.toNat_ofNat_of_lt' (Nat.lt_of_le_of_lt ?_ hfits)
    rw [h, Copy.size_append]
    exact Nat.le_add_right _ _
  unfold Options.files packOptions
  rw [foldl_addSourceFile, List.mem_map]
  simp only [Table.mem_foldl_insert, Copy.together, Copy.map_fst_starts]
  constructor
  · rintro ⟨e, ⟨front, back, hsplit, hlast⟩ | ⟨he, hnot⟩, rfl⟩
    · obtain ⟨before, copy, after, hcopies, rfl, rfl⟩ := Copy.starts_split hsplit
      rw [Copy.map_fst_starts] at hlast
      refine .inl ⟨before, copy, after, hcopies, hlast, ?_⟩
      rw [Nat.zero_add, hstart hcopies]
    · exact .inr ⟨e, he, hnot, rfl⟩
  · rintro (⟨before, copy, after, hcopies, hlast, rfl⟩ | ⟨e, he, hnot, rfl⟩)
    · refine ⟨(copy.path, UInt32.ofNat (Copy.size before)), .inl ?_, by rw [hstart hcopies]⟩
      have hsplit : Copy.starts 0 copies = Copy.starts 0 before
          ++ (copy.path, UInt32.ofNat (Copy.size before))
            :: Copy.starts (Copy.size before + copy.text.utf8ByteSize + 1) after := by
        rw [hcopies, Copy.starts_append, Nat.zero_add, Copy.starts]
      refine ⟨_, _, hsplit, ?_⟩
      rw [Copy.map_fst_starts]
      exact hlast
    · exact ⟨e, .inr ⟨he, hnot⟩, rfl⟩

/-- A bundle without a dictionary is packed as its scripts are laid out, with a map to their
files. -/
lemma packed_eq_map_layOut (h62 : b.options.base62 = false) :
    b.packed (Copy.together copies)
      = ((layOut .empty (b.packOptions (Copy.together copies)) (Copy.joined copies)).map fun c =>
        ⟨c.code, SourceMap.build (Copy.joined copies) c.code
          (b.packOptions (Copy.together copies)).files c.mappings (some b.output)
          (b.packOptions (Copy.together copies)).lineOffset.toNat⟩).mapError (.pack b.output) := by
  have hplain : (b.packOptions (Copy.together copies)).base62 = false := by
    unfold packOptions
    rw [foldl_addSourceFile]
    exact h62
  rw [packed, pack_eq_map_layOut _ _ hplain]
  rfl

lemma of_packed {r : Packed} (h62 : b.options.base62 = false)
    (h : b.packed (Copy.together copies) = .ok r) :
    ∃ c lineOffset,
      layOut .empty (b.packOptions (Copy.together copies)) (Copy.joined copies) = .ok c ∧
      r = ⟨c.code, SourceMap.build (Copy.joined copies) c.code
        (b.packOptions (Copy.together copies)).files c.mappings (some b.output) lineOffset⟩ := by
  rw [packed_eq_map_layOut h62] at h
  cases hc : layOut .empty (b.packOptions (Copy.together copies)) (Copy.joined copies) with
  | error e =>
    rw [hc] at h
    cases h
  | ok c =>
    rw [hc] at h
    cases h
    exact ⟨c, _, rfl, rfl⟩

end Bundle

/-! ### Maps that point at the scripts -/

/-- A map points every token of a bundle at the copy that it comes from: by the path of the copy and
the place of its first byte there. And it names no file but the scripts. -/
structure Attributes (copies : List Copy) (c : Compacted) (m : SourceMap) : Prop where
  entry : ∀ x ∈ c.mappings, ∃ before copy after,
    Copy.LiesIn copies before copy after x.original ∧
    ∃ e ∈ m.entries, e.generated = x.generated ∧ m.sources[e.source]? = some copy.path ∧
      e.offset = x.original - Copy.size before
  sources : ∀ name ∈ m.sources, name ∈ copies.map Copy.path

/-- Every token comes from the last copy of its script. -/
def FromLast (copies : List Copy) (c : Compacted) : Prop :=
  ∀ x ∈ c.mappings, ∀ before copy after, Copy.LiesIn copies before copy after x.original →
    copy.path ∉ after.map Copy.path

namespace Bundle

variable {b : Bundle}

/-- What a bundle is built from, and what comes out of it. -/
structure Built (b : Bundle) (d d' : Disk) (copies : List Copy) (c : Compacted) (r : Packed) :
    Prop where
  /-- The scripts are the inputs, in order, and hold what lies on the disk. -/
  paths : copies.map Copy.path = b.inputs
  read : ∀ c ∈ copies, c.LiesOn d
  /-- They are laid out token by token. -/
  laidOut : layOut .empty (b.packOptions (Copy.together copies)) (Copy.joined copies) = .ok c
  placed : ∃ tokens replaced gaps, tokenize (Copy.joined copies) = .ok tokens ∧
    Placed gaps (written [] (newTexts tokens replaced)) c
  /-- What is packed is saved, with the map beside it. -/
  packed : b.packed (Copy.together copies) = .ok r
  code : r.code = c.code
  saved : (b.saveAll r).run.run d = (.ok (), d')

/-- The map points at the scripts if the files are the last copies alone, and tokens come from
these. -/
lemma attributes_of_fromLast (hfits : Copy.size copies < UInt32.size)
    (hlaidOut : layOut p o (Copy.joined copies) = .ok c)
    (hfiles : ∀ e ∈ b.options.sourceFiles.entries, e.1 ∈ copies.map Copy.path)
    (hlast : FromLast copies c) :
    Attributes copies c (SourceMap.build source code
      (b.packOptions (Copy.together copies)).files c.mappings file lineOffset) := by
  -- every file of the map is a copy of a script
  have hcopy {f : File} (hf : f ∈ (b.packOptions (Copy.together copies)).files) :
      ∃ before copy after, copies = before ++ copy :: after ∧ f
        = ⟨copy.path, Copy.size before⟩ := by
    rcases (mem_files hfits).mp hf with ⟨before, copy, after, hsplit, -, rfl⟩ | ⟨e, he, hnot, -⟩
    · exact ⟨before, copy, after, hsplit, rfl⟩
    · exact absurd (hfiles e he) hnot
  refine ⟨fun x hx => ?_, fun name hname => ?_⟩
  · obtain ⟨before, copy, after, hlies⟩ := liesIn_of_mem_mappings hlaidOut hx
    have hmem : ⟨copy.path, Copy.size before⟩ ∈ (b.packOptions (Copy.together copies)).files :=
      (mem_files hfits).mpr
        (.inl ⟨before, copy, after, hlies.split, hlast x hx _ _ _ hlies, rfl⟩)
    obtain ⟨e, he, hgenerated⟩ := exists_mem_entries_build hx hmem hlies.le
    obtain ⟨f, hf, hname, hoffset, hle, hfarthest⟩ := file_of_entry hlaidOut hx he hgenerated
    refine ⟨before, copy, after, hlies, e, he, hgenerated, ?_⟩
    obtain ⟨before', copy', after', hsplit, rfl⟩ := hcopy hf
    rcases Copy.split_cases hlies.split hsplit with ⟨rfl, rfl, -⟩ | ⟨-, -, hlt⟩ | ⟨-, -, hlt⟩
    · exact ⟨hname, hoffset⟩
    · exact absurd (Nat.lt_of_lt_of_le hlt hle) (Nat.not_lt.mpr hlies.lt.le)
    · have hstart : Copy.size before ≤ Copy.size before' := hfarthest _ hmem hlies.le
      omega
  · obtain ⟨f, hf, rfl⟩ := mem_sources_build.mp hname
    obtain ⟨before, copy, after, hsplit, rfl⟩ := hcopy hf
    exact Copy.path_mem hsplit

lemma fromLast_of_attributes (hfits : Copy.size copies < UInt32.size)
    (hlaidOut : layOut p o (Copy.joined copies) = .ok c)
    (h : Attributes copies c (SourceMap.build source code
      (b.packOptions (Copy.together copies)).files c.mappings file lineOffset)) :
    (∀ e ∈ b.options.sourceFiles.entries, e.1 ∈ copies.map Copy.path) ∧ FromLast copies c := by
  refine ⟨fun e he => ?_, fun x hx before copy after hlies => ?_⟩
  · by_contra hnot
    have hmem : ⟨e.1, e.2.toNat⟩ ∈ (b.packOptions (Copy.together copies)).files :=
      (mem_files hfits).mpr (.inr ⟨e, he, hnot, rfl⟩)
    exact hnot (h.sources e.1 (mem_sources_build.mpr ⟨_, hmem, rfl⟩))
  · obtain ⟨before', copy', after', hlies', e, he, hgenerated, hname, hoffset⟩ := h.entry x hx
    obtain ⟨rfl, rfl, rfl⟩ := hlies.unique hlies'
    obtain ⟨f, hf, hname', hoffset', hle, -⟩ := file_of_entry hlaidOut hx he hgenerated
    have hpath : f.name = copy'.path := Option.some.inj (hname'.symm.trans hname)
    -- the file is the last copy of the script, so it is this one if it starts where this one does
    rcases (mem_files hfits).mp hf with ⟨front, last, back, hsplit, hlast, rfl⟩ | ⟨e', -, hnot, rfl⟩
    · have hstart : Copy.size before' = Copy.size front := by
        have hle : Copy.size front ≤ x.original := hle
        have := hlies.le
        dsimp only at hoffset'
        omega
      rcases Copy.split_cases hlies.split hsplit with ⟨rfl, rfl, rfl⟩ | ⟨-, -, hlt⟩ | ⟨-, -, hlt⟩
      · exact hlast
      · omega
      · omega
    · have hpath : e'.1 = copy'.path := hpath
      exact absurd (hpath ▸ Copy.path_mem hlies.split) hnot

/-- **Where the map of a bundle points at its scripts.** A bundle that is built without a dictionary
has such a map exactly when its options hold no file that is not a script, and every token comes
from the last copy of its script. -/
theorem map_attributes_iff {b : Bundle} {d d' : Disk} {report : BundleReport}
    (h62 : b.options.base62 = false)
    (h : (b.build : ExceptT BundleError (StateM Disk) BundleReport).run.run d = (.ok report, d')) :
    ∃ copies c r, Built b d d' copies c r ∧
      (Attributes copies c r.sourceMap ↔
        (∀ e ∈ b.options.sourceFiles.entries, e.1 ∈ b.inputs) ∧ FromLast copies c) := by
  obtain ⟨copies, hpaths, hall, hfits, r, hpacked, hsaved⟩ := of_build_run h
  obtain ⟨c, lineOffset, hlaidOut, rfl⟩ := of_packed h62 hpacked
  obtain ⟨tokens, replaced, gaps, htokens, -, hplaced⟩ := exists_of_layOut hlaidOut
  refine ⟨copies, c, _, ⟨hpaths, hall, hlaidOut, ⟨tokens, replaced, gaps, htokens,
    hplaced⟩, hpacked,
    rfl, hsaved⟩, fun hmap => ?_, fun ⟨hfiles, hlast⟩ => ?_⟩
  · rw [← hpaths]
    exact fromLast_of_attributes hfits hlaidOut hmap
  · rw [← hpaths] at hfiles
    exact attributes_of_fromLast hfits hlaidOut hfiles hlast

/-- Two scripts, the first of which the options place wrongly, which does no harm. -/
theorem map_attributes_iff_two :
    let d := ((Disk.ofDirectory []).put ["a.js"] (.file "x=1".toUTF8)).put ["b.js"]
      (.file "y".toUTF8)
    let options : Options := { sourceFiles := Table.empty.insert "a.js" 5 }
    let b : Bundle := { inputs := ["a.js", "b.js"], output := "o.js", options := options }
    let report : BundleReport := ⟨"o.js", "o.js.map", 2, 6, 5⟩
    ∃ d', b.options.base62 = false ∧
      (b.build : ExceptT BundleError (StateM Disk) BundleReport).run.run d = (.ok report, d') ∧
      ∃ copies c r, Built b d d' copies c r ∧
        (Attributes copies c r.sourceMap ↔
          (∀ e ∈ b.options.sourceFiles.entries, e.1 ∈ b.inputs) ∧ FromLast copies c) := by
  intro d options b report
  have hok : ((b.build : ExceptT BundleError (StateM Disk) BundleReport).run.run d).1
      = .ok report := by decide +kernel
  have hbuild : (b.build : ExceptT BundleError (StateM Disk) BundleReport).run.run d
      = (.ok report, _) := Prod.ext hok rfl
  exact ⟨_, rfl, hbuild, map_attributes_iff rfl hbuild⟩

/-- A script that is bundled twice: the map knows its second copy only, and no token of the first.
-/
theorem map_misses_first_copy :
    let d := (Disk.ofDirectory []).put ["a.js"] (.file "x=1".toUTF8)
    let b : Bundle := { inputs := ["a.js", "a.js"], output := "o.js" }
    let copies : List Copy := [⟨"a.js", "x=1"⟩, ⟨"a.js", "x=1"⟩]
    let c : Compacted := ⟨"x=1\nx=1", [⟨0, 0⟩, ⟨1, 1⟩, ⟨2, 2⟩, ⟨4, 4⟩, ⟨5, 5⟩, ⟨6, 6⟩]⟩
    let m := SourceMap.build (Copy.joined copies) c.code [⟨"a.js", 4⟩] c.mappings (some "o.js") 0
    ∃ d' report, b.options.base62 = false ∧
      (b.build : ExceptT BundleError (StateM Disk) BundleReport).run.run d = (.ok report, d') ∧
      Built b d d' copies c ⟨c.code, m⟩ ∧ ¬ Attributes copies c m := by
  intro d b copies c m
  have htext : ((FileStore.readText "a.js" : ExceptT FileFault (StateM Disk) String).run.run d).1
      = .ok "x=1" := by decide +kernel
  have hlies : Copy.LiesOn d ⟨"a.js", "x=1"⟩ := Prod.ext htext (readText_run d "a.js")
  have hread : ∀ c ∈ copies, c.LiesOn d :=
    List.forall_mem_cons.mpr ⟨hlies, List.forall_mem_cons.mpr ⟨hlies, nofun⟩⟩
  have hlaidOut : layOut .empty (b.packOptions (Copy.together copies)) (Copy.joined copies)
      = .ok c := by decide +kernel
  have hpacked : b.packed (Copy.together copies) = .ok ⟨c.code, m⟩ := by
    rw [packed_eq_map_layOut rfl, hlaidOut]
    rfl
  have hok : ((b.saveAll ⟨c.code, m⟩).run.run d).1 = .ok () := by decide +kernel
  have hsaved : (b.saveAll ⟨c.code, m⟩).run.run d = (.ok (), _) := Prod.ext hok rfl
  obtain ⟨report, hbuild⟩ := build_run rfl hread (by decide) hpacked hsaved
  obtain ⟨tokens, replaced, gaps, htokens, -, hplaced⟩ := exists_of_layOut hlaidOut
  refine ⟨_, report, rfl, hbuild, ⟨rfl, hread, hlaidOut, ⟨tokens, replaced, gaps, htokens, hplaced⟩,
    hpacked, rfl, hsaved⟩, fun h => ?_⟩
  obtain ⟨before, copy, after, -, e, he, hgenerated, -⟩ := h.entry ⟨0, 0⟩ List.mem_cons_self
  obtain ⟨x, hx, f, hf, -, hgenerated', -, hle, -⟩ := of_mem_entries_build he
  -- the only file starts behind the first copy, and so does all that has an entry
  obtain rfl := List.mem_singleton.mp hf
  have hbehind : ∀ x ∈ c.mappings, 4 ≤ x.original → x.generated ≠ 0 := by decide
  exact hbehind x hx hle (hgenerated'.symm.trans hgenerated)

end Bundle

end Minify
