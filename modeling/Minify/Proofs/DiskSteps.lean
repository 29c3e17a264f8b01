import Mathlib
import Minify.Proofs.FailingRuns
import Minify.Proofs.PathPlaces

/-!
What the steps on a disk do to its files.

A step that happens changes the file at one place, or at two; every other file stays, and so does
every directory. So a path that led somewhere still leads there.
-/

namespace Minify.Disk

variable {d d' d'' : Disk} {p q : String} {place found : Place} {e : Entry}

/-- The bytes of the file at a place. -/
def contents (d : Disk) (place : Place) : Option ByteArray :=
  match d.entry? place with
  | some (.file bytes) => some bytes
  | _ => none

/-! ### Single entries -/

lemma lookup_filter_ne (entries : List (Place × Entry)) (place found : Place) :
    (entries.filter fun e => e.1 != place).lookup found
      = if found = place then none else entries.lookup found := by
  induction entries with
  | nil => exact (ite_self none).symm
  | cons head entries ih =>
    obtain ⟨there, e⟩ := head
    by_cases hthere : there = place
    · rw [List.filter_cons_of_neg (by simp [hthere]), ih, List.lookup_cons, hthere]
      split_ifs with hfound
      · rfl
      · rw [beq_false_of_ne hfound]
    · rw [List.filter_cons_of_pos (by simp [hthere]), List.lookup_cons, List.lookup_cons, ih]
      cases hfound : found == there with
      | true => exact (if_neg (eq_of_beq hfound ▸ hthere)).symm
      | false => rfl

lemma entry?_erase (d : Disk) (place : Place) (hne : found ≠ []) :
    Disk.entry? (d.erase place) found = if found = place then none else d.entry? found := by
  simp only [Disk.entry?, erase, if_neg hne, lookup_filter_ne]

lemma entry?_put (hne : place ≠ []) :
    Disk.entry? (d.put place e) found = if found = place then some e else d.entry? found := by
  by_cases hroot : found = []
  · rw [hroot, if_neg hne.symm]
    rfl
  · rw [Disk.entry?, if_neg hroot, put, List.lookup_cons]
    cases hfound : found == place with
    | true => simp [eq_of_beq hfound]
    | false =>
      have hother := ne_of_beq_false hfound
      have herase := entry?_erase d place hroot
      rw [if_neg hother] at herase ⊢
      rwa [Disk.entry?, if_neg hroot] at herase

lemma contents_root (d : Disk) : d.contents [] = none := rfl

lemma ne_root (h : d.isDirectory place = false) : place ≠ [] := by
  rintro rfl
  cases h

lemma contents_put_file (h : d.isDirectory place = false) (bytes : ByteArray) :
    (d.put place (.file bytes)).contents = Function.update d.contents place (some bytes) := by
  funext found
  rw [contents, entry?_put (ne_root h), Function.update_apply]
  split_ifs <;> rfl

lemma contents_erase : (d.erase place).contents = Function.update d.contents place none := by
  funext found
  rw [Function.update_apply]
  by_cases hroot : found = []
  · rw [hroot, contents_root, contents_root, ite_self]
  · rw [contents, entry?_erase _ _ hroot]
    split_ifs <;> rfl

/-! ### Directories stay -/

/-- Every directory of a disk is one of another disk, too. -/
structure Grown (d d' : Disk) : Prop where
  workingDirectory : d'.workingDirectory = d.workingDirectory
  isDirectory : ∀ place, d.isDirectory place = true → d'.isDirectory place = true

namespace Grown

lemma refl (d : Disk) : Grown d d := ⟨rfl, fun _ h => h⟩

lemma trans (h : Grown d d') (h' : Grown d' d'') : Grown d d'' :=
  ⟨h'.workingDirectory.trans h.workingDirectory,
    fun place hplace => h'.isDirectory place (h.isDirectory place hplace)⟩

lemma spot_eq (h : Grown d d') (p : String) : d'.spot p = d.spot p := by
  rw [spot, start, h.workingDirectory]
  rfl

lemma route_eq (h : Grown d d') (p : String) : d'.route p = d.route p := by
  rw [route, h.workingDirectory]
  rfl

end Grown

lemma follow_cons (d : Disk) (place : Place) (name : String) (names : List String) :
    d.follow place (name :: names) =
      match d.entry? place with
      | none => .error .notFound
      | some (.file _) => .error .notDirectory
      | some .directory =>
        d.follow (if isBlank name then place else enter place name) names := by
  rw [follow, enter]
  cases d.entry? place with
  | none => rfl
  | some e =>
    cases e with
    | file bytes => rfl
    | directory =>
      dsimp only
      split_ifs <;> rfl

lemma isDirectory_iff : d.isDirectory place = true ↔ d.entry? place = some .directory := by
  unfold isDirectory
  split <;> simp_all

lemma Grown.follow_ok {names : List String} (h : Grown d d')
    (hfollow : d.follow place names = .ok found) : d'.follow place names = .ok found := by
  induction names generalizing place with
  | nil => exact hfollow
  | cons name names ih =>
    rw [follow_cons] at hfollow ⊢
    split at hfollow
    · cases hfollow
    · cases hfollow
    · rename_i hdir
      rw [isDirectory_iff.mp (h.isDirectory place (isDirectory_iff.mpr hdir))]
      exact ih hfollow

lemma Grown.place_ok (h : Grown d d') (hplace : d.place p = .ok found) :
    d'.place p = .ok found := by
  unfold Disk.place at hplace ⊢
  rw [h.route_eq]
  cases hroute : d.route p with
  | error fault =>
    rw [hroute] at hplace
    cases hplace
  | ok route =>
    rw [hroute] at hplace
    exact h.follow_ok hplace

lemma put_file_grown (h : d.isDirectory place = false) (bytes : ByteArray) :
    Grown d (d.put place (.file bytes)) := by
  refine ⟨rfl, fun other hother => ?_⟩
  rw [isDirectory_iff] at hother ⊢
  rw [entry?_put (ne_root h), if_neg, hother]
  rintro rfl
  rw [isDirectory_iff.mpr hother] at h
  cases h

lemma erase_grown (h : d.isDirectory place = false) : Grown d (d.erase place) := by
  refine ⟨rfl, fun other hother => ?_⟩
  rw [isDirectory_iff] at hother ⊢
  by_cases hroot : other = []
  · rw [hroot]
    rfl
  · rw [entry?_erase _ _ hroot, if_neg, hother]
    rintro rfl
    rw [isDirectory_iff.mpr hother] at h
    cases h

/-! ### The steps -/

/-- Every file of a disk stays as it is, and every directory. -/
structure SameFiles (d d' : Disk) : Prop extends Grown d d' where
  contents : d'.contents = d.contents

namespace SameFiles

lemma refl (d : Disk) : SameFiles d d := ⟨.refl d, rfl⟩

lemma trans (h : SameFiles d d') (h' : SameFiles d' d'') : SameFiles d d'' :=
  ⟨h.toGrown.trans h'.toGrown, h'.contents.trans h.contents⟩

end SameFiles

lemma put_directory (h : d.entry? place = none) : SameFiles d (d.put place .directory) := by
  have hne : place ≠ [] := by
    rintro rfl
    cases h
  refine ⟨⟨rfl, fun other hother => ?_⟩, ?_⟩
  · rw [isDirectory_iff] at hother ⊢
    rw [entry?_put hne, hother, ite_self]
  · funext other
    rw [Disk.contents, entry?_put hne]
    split_ifs with heq
    · rw [heq, Disk.contents, h]
    · rfl

lemma makeDirs_sameFiles (names : List String) :
    ∀ (d : Disk) (place : Place), SameFiles d (d.makeDirs place names).2 := by
  induction names with
  | nil =>
    intro d place
    rw [makeDirs]
    split <;> exact .refl d
  | cons name names ih =>
    intro d place
    rw [makeDirs]
    split
    · exact .refl d
    · exact .refl d
    · split_ifs with hblank hdots
      · exact ih d place
      · exact ih d place.dropLast
      · refine .trans ?_ (ih _ (place ++ [name]))
        split_ifs with hnew
        · exact put_directory (Option.isNone_iff_eq_none.mp hnew)
        · exact .refl d

lemma createDirs_sameFiles (d : Disk) (p : String) : SameFiles d (d.createDirs p).2 := by
  unfold createDirs
  split
  · exact .refl d
  · exact makeDirs_sameFiles _ _ _

lemma of_file {bytes : ByteArray} (h : d.file p = .ok (found, bytes)) :
    d.place p = .ok found ∧ d.contents found = some bytes := by
  obtain ⟨there, hplace, h⟩ := bind_eq_ok_iff.mp h
  split at h
  · cases h
  · cases h
  · rename_i hentry
    cases h
    exact ⟨hplace, by rw [contents, hentry]⟩

lemma contents_eq_some {bytes : ByteArray} (h : d.contents found = some bytes) :
    d.entry? found = some (.file bytes) := by
  unfold contents at h
  split at h
  · cases h
    assumption
  · cases h

/-- The file at a place is read by every path that leads there. -/
lemma read_eq {bytes : ByteArray} (hplace : d.place p = .ok found)
    (hbytes : d.contents found = some bytes) : d.read p = .ok bytes := by
  have hfile : d.file p = .ok (found, bytes) := by
    simp only [file, hplace, bind, Except.bind, contents_eq_some hbytes]
  rw [read, hfile]
  rfl

lemma of_read {bytes : ByteArray} (h : d.read p = .ok bytes) :
    d.place p = .ok (d.spot p) ∧ d.contents (d.spot p) = some bytes := by
  unfold read at h
  match hfile : d.file p with
  | .error fault =>
    rw [hfile] at h
    cases h
  | .ok (found, bytes') =>
    rw [hfile] at h
    cases h
    obtain ⟨hplace, hbytes⟩ := of_file hfile
    cases eq_spot_of_place hplace
    exact ⟨hplace, hbytes⟩

lemma follow_concat {names : List String} {name : String} {folder : Place}
    (h : d.follow place names = .ok folder) :
    d.follow place (names ++ [name]) = d.follow folder [name] := by
  induction names generalizing place with
  | nil =>
    cases h
    rfl
  | cons next names ih =>
    rw [follow_cons] at h
    rw [List.cons_append, follow_cons]
    split at h
    · cases h
    · cases h
    · exact ih h

/-- Where a path leads for a file that may be new: it is named by the end of its text, and its
folder is there. -/
lemma of_filePlace (h : d.filePlace p = .ok found) :
    found = d.spot p ∧ Path.fileName? p = some (Path.lastName p) ∧ d.isDirectory found = false ∧
      ∀ d', Grown d d' → d'.place p = .ok found := by
  obtain ⟨⟨start, names⟩, hroute, h⟩ := bind_eq_ok_iff.mp h
  obtain ⟨folder, hfollow, h⟩ := bind_eq_ok_iff.mp h
  obtain ⟨-, hnames⟩ := eq_of_route hroute
  split at h
  · rename_i name hdir hlast
    dsimp only at h
    split_ifs at h with hbad
    cases h
    rw [Bool.or_assoc, Bool.or_eq_true, Bool.or_eq_true, not_or, not_or, beq_iff_eq,
      Bool.not_eq_true, Bool.not_eq_true] at hbad
    obtain ⟨hblank, hdots, hfile⟩ := hbad
    have hname : name = Path.lastName p := by
      rw [hnames, List.getLast?_map, Option.map_eq_some_iff] at hlast
      obtain ⟨cs, hcs, rfl⟩ := hlast
      rw [Path.lastName, hcs]
      rfl
    have hsplit := List.dropLast_append_getLast? name hlast
    have hplace : ∀ d', Grown d d' → d'.place p = .ok (folder ++ [name]) := by
      intro d' hgrown
      have hstep : d'.follow folder [name] = .ok (folder ++ [name]) := by
        have hdir' := hgrown.isDirectory folder (isDirectory_iff.mpr hdir)
        rw [follow_cons, isDirectory_iff.mp hdir', hblank, enter, if_neg hdots]
        rfl
      rw [Disk.place, hgrown.route_eq, hroute]
      change d'.follow start names = _
      rw [← hsplit, follow_concat (hgrown.follow_ok hfollow), hstep]
    refine ⟨eq_spot_of_place (hplace d (.refl d)), ?_, hfile, hplace⟩
    exact Path.fileName?_of_lastName (hname ▸ hblank) (hname ▸ hdots)
  · cases h
  · cases h

lemma of_write {bytes : ByteArray} (h : d.write p bytes = .ok d') :
    Grown d d' ∧ d'.contents = Function.update d.contents (d.spot p) (some bytes) := by
  obtain ⟨found, hfound, h⟩ := bind_eq_ok_iff.mp h
  cases h
  obtain ⟨rfl, -, hfile, -⟩ := of_filePlace hfound
  exact ⟨put_file_grown hfile bytes, contents_put_file hfile bytes⟩

lemma not_isDirectory_of_contents {bytes : ByteArray} (h : d.contents found = some bytes) :
    d.isDirectory found = false := by
  rw [isDirectory, contents_eq_some h]

lemma of_remove (h : d.remove p = .ok d') :
    Grown d d' ∧ d'.contents = Function.update d.contents (d.spot p) none := by
  obtain ⟨⟨found, bytes⟩, hfile, h⟩ := bind_eq_ok_iff.mp h
  cases h
  obtain ⟨hplace, hbytes⟩ := of_file hfile
  cases eq_spot_of_place hplace
  exact ⟨erase_grown (not_isDirectory_of_contents hbytes), contents_erase⟩

/-- A file that is moved lies at the new place, and no longer at the old one. -/
lemma of_rename (h : d.rename p q = .ok d') : Grown d d' ∧
    (∃ bytes, d.contents (d.spot p) = some bytes ∧ d'.contents =
      Function.update (Function.update d.contents (d.spot p) none) (d.spot q) (some bytes)) ∧
    Path.fileName? q = some (Path.lastName q) ∧ d'.place q = .ok (d.spot q) := by
  obtain ⟨⟨source, bytes⟩, hfile, h⟩ := bind_eq_ok_iff.mp h
  obtain ⟨target, htarget, h⟩ := bind_eq_ok_iff.mp h
  cases h
  obtain ⟨hplace, hbytes⟩ := of_file hfile
  cases eq_spot_of_place hplace
  obtain ⟨rfl, hname, hnew, hleads⟩ := of_filePlace htarget
  have herase := erase_grown (not_isDirectory_of_contents hbytes)
  have hnew' : (d.erase (d.spot p)).isDirectory (d.spot q) = false := by
    rw [isDirectory, entry?_erase _ _ (ne_root hnew)]
    split_ifs
    · rfl
    · exact hnew
  have hgrown := herase.trans (put_file_grown hnew' bytes)
  refine ⟨hgrown, ⟨bytes, hbytes, ?_⟩, hname, hleads _ hgrown⟩
  rw [contents_put_file hnew', contents_erase]

end Minify.Disk
