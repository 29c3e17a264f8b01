import Mathlib
import Minify.Proofs.JoinedScripts
import Minify.Proofs.SavedFiles

/-!
What a build leaves of the files, however it ends.

Scripts are read and packed before anything is written, so a build that fails by then leaves the
disk as it was. The output is saved before its map, each through a draft. So as long as the output
cannot be written, only a draft may be left over, and after a build that ends well there is none.
-/

namespace Minify

namespace Drive

variable {v v' : Drive} {path text : String}

/-! ### Reading -/

/-- Reading a text leaves the disk as it is, and the text lies on it. -/
lemma of_readText_run {result : Except FileFault String}
    (h : (FileStore.readText path : ExceptT FileFault (StateM Drive) String).run.run v
      = (result, v')) :
    v'.process = v.process ∧ v'.disk = v.disk ∧
      ∀ text, result = .ok text → Copy.LiesOn v.disk ⟨path, text⟩ := by
  unfold FileStore.readText at h
  rcases bind_run_cases h with ⟨fault, hread, rfl⟩ | ⟨bytes, v₁, hread, h⟩
  · obtain ⟨hprocess, hstep | ⟨hdisk, -⟩⟩ := of_attempt_run hread
    · exact ⟨hprocess, (congrArg Prod.snd hstep).symm, nofun⟩
    · exact ⟨hprocess, hdisk, nofun⟩
  · obtain ⟨hprocess, hstep | ⟨-, fault, hfault⟩⟩ := of_attempt_run hread
    · have hdisk : v.disk = v₁.disk := congrArg Prod.snd hstep
      cases htext : String.fromUTF8? bytes with
      | none =>
        rw [htext] at h
        cases h
        exact ⟨hprocess, hdisk.symm, nofun⟩
      | some s =>
        rw [htext] at h
        cases h
        refine ⟨hprocess, hdisk.symm, fun text heq => ?_⟩
        cases heq
        rw [← hdisk] at hstep
        rw [Copy.LiesOn, FileStore.readText, run_bind hstep, htext]
        rfl
    · cases hfault

/-- A build on a drive: how it ends, and the drive after it. -/
def build (v : Drive) (b : Bundle) : Except BundleError BundleReport × Drive :=
  (b.build : ExceptT BundleError (StateM Drive) BundleReport).run.run v

end Drive

/-- An error that is not about writing a file. -/
def BundleError.Early (e : BundleError) : Prop := ∀ path fault, e ≠ .write path fault

namespace Bundle

variable {v v' : Drive} {b : Bundle} {path text : String}

open Drive

/-- Reading one more script leaves the disk as it is, and ends well only as it would on the disk. -/
lemma of_joinNext_drive_run {j : Joined} {result : Except BundleError Joined}
    (h : (joinNext j path : ExceptT BundleError (StateM Drive) Joined).run.run v = (result, v')) :
    v'.process = v.process ∧ v'.disk = v.disk ∧ (∀ e, result = .error e → e.Early) ∧
      ∀ j', result = .ok j' → (joinNext j path :
        ExceptT BundleError (StateM Disk) Joined).run.run v.disk = (.ok j', v.disk) := by
  unfold joinNext at h ⊢
  cases hstop : j.stop? with
  | none =>
    rw [hstop] at h
    cases h
    exact ⟨rfl, rfl, fun e he => Except.error.inj he ▸ nofun, nofun⟩
  | some start =>
    rw [hstop] at h
    rcases bind_run_cases h with ⟨e, hread, rfl⟩ | ⟨text, v₁, hread, h⟩
    · rcases adapt_run_cases hread with ⟨fault, hread, he⟩ | ⟨text, -, he⟩
      · obtain ⟨hprocess, hdisk, -⟩ := of_readText_run hread
        cases he
        exact ⟨hprocess, hdisk, fun e he => Except.error.inj he ▸ nofun, nofun⟩
      · cases he
    · rcases adapt_run_cases hread with ⟨fault, -, he⟩ | ⟨text', hread, he⟩
      · cases he
      · obtain ⟨hprocess, hdisk, hlies⟩ := of_readText_run hread
        cases he
        cases h
        refine ⟨hprocess, hdisk, nofun, fun j' hj' => ?_⟩
        cases hj'
        exact run_bind ((hlies text rfl).adapt_run _)

lemma of_foldlM_joinNext_drive_run {paths : List String} {j : Joined}
    {result : Except BundleError Joined}
    (h : (paths.foldlM joinNext j : ExceptT BundleError (StateM Drive) Joined).run.run v
      = (result, v')) :
    v'.process = v.process ∧ v'.disk = v.disk ∧ (∀ e, result = .error e → e.Early) ∧
      ∀ j', result = .ok j' → (paths.foldlM joinNext j :
        ExceptT BundleError (StateM Disk) Joined).run.run v.disk = (.ok j', v.disk) := by
  induction paths generalizing v j with
  | nil =>
    cases h
    refine ⟨rfl, rfl, nofun, fun j' hj' => ?_⟩
    cases hj'
    rfl
  | cons path paths ih =>
    rw [List.foldlM_cons] at h ⊢
    rcases bind_run_cases h with ⟨e, hnext, rfl⟩ | ⟨j₁, v₁, hnext, h⟩
    · obtain ⟨hprocess, hdisk, hearly, -⟩ := of_joinNext_drive_run hnext
      exact ⟨hprocess, hdisk, fun e' he' => hearly e' (Except.error.inj he' ▸ rfl), nofun⟩
    · obtain ⟨hprocess, hdisk, -, hnext⟩ := of_joinNext_drive_run hnext
      obtain ⟨hprocess', hdisk', hearly, hrest⟩ := ih h
      exact ⟨hprocess'.trans hprocess, hdisk'.trans hdisk, hearly, fun j' hj' =>
        (run_bind (hnext j₁ rfl)).trans (hdisk ▸ hrest j' hj')⟩

/-- **Joining scripts** leaves the disk as it is, and joins copies of what lies on it. -/
lemma of_join_drive_run {paths : List String} {result : Except BundleError Joined}
    (h : (join paths : ExceptT BundleError (StateM Drive) Joined).run.run v = (result, v')) :
    v'.process = v.process ∧ v'.disk = v.disk ∧ (∀ e, result = .error e → e.Early) ∧
      ∀ j, result = .ok j → ∃ copies : List Copy, copies.map Copy.path = paths ∧
        (∀ c ∈ copies, c.LiesOn v.disk) ∧ j = Copy.together copies := by
  obtain ⟨hprocess, hdisk, hearly, hjoined⟩ := of_foldlM_joinNext_drive_run h
  refine ⟨hprocess, hdisk, hearly, fun j hj => ?_⟩
  have hnone : ∀ c ∈ ([] : List Copy), c.LiesOn v.disk := fun c hc => absurd hc List.not_mem_nil
  obtain ⟨-, copies, hpaths, hall, hcopies⟩ := of_foldlM_joinNext_run hnone (hjoined j hj)
  exact ⟨copies, hpaths, hall, hcopies⟩

/-! ### Building -/

lemma of_save_drive_run {result : Except BundleError Unit}
    (h : (save path text : ExceptT BundleError (StateM Drive) Unit).run.run v = (result, v')) :
    v'.process = v.process ∧
      (result = .ok () ∧ v.disk.Saved (FileStore.draft v.mark path) path text v'.disk ∨
        (∃ fault, result = .error (.write path fault)) ∧
          v.disk.Unsaved (FileStore.draft v.mark path) v'.disk) := by
  rcases adapt_run_cases h with ⟨fault, hsave, rfl⟩ | ⟨_, hsave, rfl⟩
  · obtain ⟨hprocess, ⟨hok, -⟩ | ⟨-, hunsaved⟩⟩ := save_run hsave
    · cases hok
    · exact ⟨hprocess, .inr ⟨⟨fault, rfl⟩, hunsaved⟩⟩
  · obtain ⟨hprocess, ⟨-, hsaved⟩ | ⟨⟨fault, hfault⟩, -⟩⟩ := save_run hsave
    · exact ⟨hprocess, .inl ⟨rfl, hsaved⟩⟩
    · cases hfault

/-- What a build packs: copies of the scripts that lie on a disk. -/
structure PackedFrom (b : Bundle) (d : Disk) (copies : List Copy) (r : Packed) : Prop where
  paths : copies.map Copy.path = b.inputs
  lies : ∀ c ∈ copies, c.LiesOn d
  packed : b.packed (Copy.together copies) = .ok r

/-- How far a build has got on a disk, by how it has ended. -/
inductive Reached (b : Bundle) (d : Disk) (mark : String) (d' : Disk) :
    Except BundleError BundleReport → Prop
  /-- Nothing has been saved. -/
  | early {e : BundleError} (he : e.Early) (hdisk : d' = d) : Reached b d mark d' (.error e)
  /-- The output could not be saved. -/
  | packed {copies : List Copy} {r : Packed} {fault : FileFault} (h : b.PackedFrom d copies r)
      (houtput : d.Unsaved (FileStore.draft mark b.output) d') :
      Reached b d mark d' (.error (.write b.output fault))
  /-- The output has been saved, and the map could not be. -/
  | output {copies : List Copy} {r : Packed} {fault : FileFault} {d₁ : Disk}
      (h : b.PackedFrom d copies r)
      (houtput : d.Saved (FileStore.draft mark b.output) b.output (b.heading ++ r.code) d₁)
      (hmap : d₁.Unsaved (FileStore.draft mark b.mapPath) d') :
      Reached b d mark d' (.error (.write b.mapPath fault))
  /-- Both have been saved. -/
  | map {copies : List Copy} {r : Packed} {d₁ : Disk} (h : b.PackedFrom d copies r)
      (houtput : d.Saved (FileStore.draft mark b.output) b.output (b.heading ++ r.code) d₁)
      (hmap : d₁.Saved (FileStore.draft mark b.mapPath) b.mapPath r.sourceMap.render d') :
      Reached b d mark d' (.ok ⟨b.output, b.mapPath, b.inputs.length, Copy.size copies,
        (b.heading ++ r.code).utf8ByteSize⟩)

lemma early_of_packed {j : Joined} {e : BundleError} (h : b.packed j = .error e) : e.Early := by
  unfold packed at h
  cases hpack : pack .empty (b.packOptions j) j.code with
  | error fault =>
    rw [hpack] at h
    cases h
    exact nofun
  | ok r =>
    rw [hpack] at h
    cases h

lemma of_saves_drive_run {copies : List Copy} {r : Packed}
    {result : Except BundleError BundleReport}
    (hfrom : b.PackedFrom v.disk copies r)
    (h : (do
      save b.output (b.heading ++ r.code)
      save b.mapPath r.sourceMap.render
      return ⟨b.output, b.mapPath, b.inputs.length, Copy.size copies,
        (b.heading ++ r.code).utf8ByteSize⟩ :
      ExceptT BundleError (StateM Drive) BundleReport).run.run v = (result, v')) :
    b.Reached v.disk v.mark v'.disk result := by
  rcases bind_run_cases h with ⟨e, hsave, rfl⟩ | ⟨_, v₁, hsave, h⟩
  · obtain ⟨-, ⟨hok, -⟩ | ⟨⟨fault, hfault⟩, hunsaved⟩⟩ := of_save_drive_run hsave
    · cases hok
    · cases hfault
      exact .packed hfrom hunsaved
  obtain ⟨hprocess, ⟨-, houtput⟩ | ⟨⟨fault, hfault⟩, -⟩⟩ := of_save_drive_run hsave
  · have hmark : v₁.mark = v.mark := congrArg toString hprocess
    rcases bind_run_cases h with ⟨e, hsave, rfl⟩ | ⟨_, v₂, hsave, h⟩
    · obtain ⟨-, ⟨hok, -⟩ | ⟨⟨fault, hfault⟩, hunsaved⟩⟩ := of_save_drive_run hsave
      · cases hok
      · cases hfault
        exact .output hfrom houtput (hmark ▸ hunsaved)
    · obtain ⟨-, ⟨-, hmap⟩ | ⟨⟨fault, hfault⟩, -⟩⟩ := of_save_drive_run hsave
      · cases h
        exact .map hfrom houtput (hmark ▸ hmap)
      · cases hfault
  · cases hfault

lemma of_build_drive_run {result : Except BundleError BundleReport}
    (h : v.build b = (result, v')) : b.Reached v.disk v.mark v'.disk result := by
  unfold Drive.build Bundle.build at h
  rcases bind_run_cases h with ⟨e, hjoin, rfl⟩ | ⟨j, v₁, hjoin, h⟩
  · obtain ⟨-, hdisk, hearly, -⟩ := of_join_drive_run hjoin
    exact .early (hearly e rfl) hdisk
  obtain ⟨hprocess, hdisk, -, hjoined⟩ := of_join_drive_run hjoin
  obtain ⟨copies, hpaths, hlies, rfl⟩ := hjoined j rfl
  have hmark : v₁.mark = v.mark := congrArg toString hprocess
  rw [← hdisk] at hlies
  rw [← hdisk, ← hmark]
  cases hstop : (Copy.together copies).stop? with
  | none =>
    rw [hstop] at h
    cases h
    exact .early nofun rfl
  | some start =>
    rw [hstop] at h
    simp only [Option.isNone_some, Bool.false_eq_true, if_false] at h
    rcases bind_run_cases h with ⟨e, hpack, rfl⟩ | ⟨r, v₂, hpack, h⟩
    · obtain ⟨hfail, rfl⟩ := Prod.mk.inj (show (b.packed _, v₁) = (.error e, v') from hpack)
      exact .early (early_of_packed hfail) rfl
    · obtain ⟨hr, rfl⟩ := Prod.mk.inj (show (b.packed _, v₁) = (.ok r, v₂) from hpack)
      simp only [filename_of_packed hr, Option.getD_some] at h
      exact of_saves_drive_run ⟨hpaths, hlies, hr⟩ h

/-! ### What a build leaves -/

/-- No file lies where the drafts of a bundle would. -/
def NoDrafts (b : Bundle) (d : Disk) (mark : String) : Prop :=
  ∀ path ∈ [b.output, b.mapPath], d.contents (d.spot (FileStore.draft mark path)) = none

/-- At most the draft of the output has changed, so the output and the map are as before. What a
path holds is what lies at its place: as directories may be new, it may lead there only now. -/
structure OutputKept (b : Bundle) (d : Disk) (mark : String) (d' : Disk) : Prop where
  files : ∀ place ≠ d.spot (FileStore.draft mark b.output), d'.contents place = d.contents place
  output : d'.contents (d.spot b.output) = d.contents (d.spot b.output)
  map : d'.contents (d.spot b.mapPath) = d.contents (d.spot b.mapPath)
  reads : ∀ path ∈ [b.output, b.mapPath], ∀ bytes, d.read path = .ok bytes →
    d'.read path = .ok bytes

/-- The output holds the packed code, and the map is as before. -/
structure MapKept (b : Bundle) (d d' : Disk) (r : Packed) : Prop where
  output : d'.read b.output = .ok (b.heading ++ r.code).toUTF8
  map : d'.contents (d.spot b.mapPath) = d.contents (d.spot b.mapPath)

/-- The output holds the packed code and the map path the map, and no other file has changed. -/
structure Written (b : Bundle) (d : Disk) (mark : String) (d' : Disk) (copies : List Copy)
    (r : Packed) (report : BundleReport) : Prop where
  output : d'.read b.output = .ok (b.heading ++ r.code).toUTF8
  map : d'.read b.mapPath = .ok r.sourceMap.render.toUTF8
  others : ∀ place, place ≠ d.spot b.output → place ≠ d.spot b.mapPath →
    d'.contents place = d.contents place
  noDrafts : b.NoDrafts d' mark
  report : report = ⟨b.output, b.mapPath, b.inputs.length, (Copy.joined copies).utf8ByteSize,
    (b.heading ++ r.code).toUTF8.size⟩

/-- What a build leaves of a disk `d`, by how it ends. -/
def Leaves (b : Bundle) (d : Disk) (mark : String) (d' : Disk) :
    Except BundleError BundleReport → Prop
  | .error (.write path _) =>
      path = b.output ∧ b.OutputKept d mark d' ∨
        path = b.mapPath ∧ ∃ copies r, b.PackedFrom d copies r ∧ b.MapKept d d' r
  | .error _ => d' = d
  | .ok report => ∃ copies r, b.PackedFrom d copies r ∧ b.Written d mark d' copies r report

variable {d d' d₁ : Disk} {mark : String} {r : Packed} {copies : List Copy}

lemma outputKept_of_unsaved (hmark : '/' ∉ mark.toList)
    (h : d.Unsaved (FileStore.draft mark b.output) d') : b.OutputKept d mark d' := by
  have houtput := h.contents _ (Disk.spot_ne_spot_draft (d := d) (p := b.output) hmark)
  have hmap := h.contents _ (Disk.spot_map_ne_spot_draft (d := d) (p := b.output) hmark)
  refine ⟨h.contents, houtput, hmap, fun path hpath bytes hread => ?_⟩
  obtain ⟨hplace, hbytes⟩ := Disk.of_read hread
  refine Disk.read_eq (h.toGrown.place_ok hplace) (hbytes ▸ ?_)
  rcases List.mem_pair.mp hpath with rfl | rfl
  · exact houtput
  · exact hmap

/-- The map lies elsewhere than an output that has been saved and its draft. -/
lemma contents_map_of_saved (hmark : '/' ∉ mark.toList)
    (h : d.Saved (FileStore.draft mark b.output) b.output text d₁) :
    d₁.contents (d.spot b.mapPath) = d.contents (d.spot b.mapPath) :=
  h.contents_of_ne (Disk.spot_ne_spot_map h.named).symm (Disk.spot_map_ne_spot_draft hmark)

lemma mapKept_of_unsaved (hmark : '/' ∉ mark.toList)
    (houtput : d.Saved (FileStore.draft mark b.output) b.output (b.heading ++ r.code) d₁)
    (hmap : d₁.Unsaved (FileStore.draft mark b.mapPath) d') : b.MapKept d d' r := by
  have hspot := houtput.toGrown.spot_eq
  have hfiles := hmap.contents
  rw [hspot] at hfiles
  refine ⟨houtput.read_eq hmap.toGrown ?_, ?_⟩
  · exact hfiles _ (Disk.spot_ne_spot_draft_map hmark houtput.named)
  · rw [hfiles _ (Disk.spot_ne_spot_draft hmark), contents_map_of_saved hmark houtput]

lemma written_of_saved (hmark : '/' ∉ mark.toList) (hnew : b.NoDrafts d mark)
    (houtput : d.Saved (FileStore.draft mark b.output) b.output (b.heading ++ r.code) d₁)
    (hmap : d₁.Saved (FileStore.draft mark b.mapPath) b.mapPath r.sourceMap.render d') :
    b.Written d mark d' copies r ⟨b.output, b.mapPath, b.inputs.length, Copy.size copies,
      (b.heading ++ r.code).utf8ByteSize⟩ := by
  have hspot := houtput.toGrown.spot_eq
  have hspot' := (houtput.toGrown.trans hmap.toGrown).spot_eq
  have hne_map : d.spot b.output ≠ d.spot b.mapPath := Disk.spot_ne_spot_map houtput.named
  have hne_draft : d.spot b.output ≠ d.spot (FileStore.draft mark b.mapPath) :=
    Disk.spot_ne_spot_draft_map hmark houtput.named
  have hmap_ne : d.spot b.mapPath ≠ d.spot (FileStore.draft mark b.output) :=
    Disk.spot_map_ne_spot_draft hmark
  have hmap_of_ne (place : Place) (hp : place ≠ d.spot b.mapPath)
      (hdraft : place ≠ d.spot (FileStore.draft mark b.mapPath)) :
      d'.contents place = d₁.contents place := by
    rw [← hspot] at hp hdraft
    exact hmap.contents_of_ne hp hdraft
  have hothers : ∀ place, place ≠ d.spot b.output → place ≠ d.spot b.mapPath →
      d'.contents place = d.contents place := by
    intro place ho hm
    by_cases hdm : place = d.spot (FileStore.draft mark b.mapPath)
    · have hnone := hmap.contents_draft (Disk.spot_ne_spot_draft hmark)
      rw [hspot] at hnone
      rw [hdm, hnone, hnew b.mapPath (by simp)]
    rw [hmap_of_ne place hm hdm]
    by_cases hdo : place = d.spot (FileStore.draft mark b.output)
    · rw [hdo, houtput.contents_draft (Disk.spot_ne_spot_draft hmark), hnew b.output (by simp)]
    · exact houtput.contents_of_ne ho hdo
  refine ⟨houtput.read_eq hmap.toGrown (hmap_of_ne _ hne_map hne_draft),
    hmap.read_eq (.refl d') rfl, hothers, fun path hpath => ?_, ?_⟩
  · rw [hspot']
    rcases List.mem_pair.mp hpath with rfl | rfl
    · rw [hothers _ (Disk.spot_ne_spot_draft hmark).symm hmap_ne.symm, hnew _ hpath]
    · rw [hothers _ hne_draft.symm (Disk.spot_ne_spot_draft hmark).symm, hnew _ hpath]
  · rw [String.toUTF8, String.size_toByteArray]
    rfl

/-- **A build leaves the files as they were unless it got that far**, whichever of its steps fail.
If a script cannot be read, or the scripts are too large or cannot be packed, the disk is as it was.
If the output cannot be saved, it is as before, and so is its map. If all goes well, both are saved,
and nothing else has changed. -/
theorem build_leaves (b : Bundle) (v : Drive) (hnew : b.NoDrafts v.disk v.mark) :
    b.Leaves v.disk v.mark (v.build b).2.disk (v.build b).1 := by
  have hmark := v.not_mem_mark
  obtain ⟨result, v', hrun⟩ : ∃ result v', v.build b = (result, v') := ⟨_, _, rfl⟩
  rw [hrun]
  cases of_build_drive_run hrun with
  | @early e he hdisk =>
    cases e with
    | write path fault => exact absurd rfl (he path fault)
    | read | manifest | tooLarge | pack => exact hdisk
  | packed h houtput => exact .inl ⟨rfl, outputKept_of_unsaved hmark houtput⟩
  | output h houtput hmap => exact .inr ⟨rfl, _, _, h, mapKept_of_unsaved hmark houtput hmap⟩
  | map h houtput hmap => exact ⟨_, _, h, written_of_saved hmark hnew houtput hmap⟩

/-- An older output stays when the draft may not take its place, and gives way when nothing fails.
-/
theorem build_leaves_older_output :
    let d := ((Disk.ofDirectory []).put ["a.js"] (.file "x = 1".toUTF8)).put ["o.js"]
      (.file "y".toUTF8)
    let b : Bundle := { inputs := ["a.js"], output := "o.js", header := some "// x" }
    let busy : Drive := ⟨d, 7, [none, none, none, some (.other "busy")]⟩
    let v : Drive := ⟨d, 7, []⟩
    b.NoDrafts d v.mark ∧ (busy.build b).1 = .error (.write "o.js" (.other "busy")) ∧
      b.Leaves d busy.mark (busy.build b).2.disk (busy.build b).1 ∧
      (v.build b).1 = .ok ⟨"o.js", "o.js.map", 1, 6, 8⟩ ∧
      b.Leaves d v.mark (v.build b).2.disk (v.build b).1 := by
  intro d b busy v
  have hnew : b.NoDrafts d v.mark := by
    intro path hpath
    rcases List.mem_pair.mp hpath with rfl | rfl <;> decide +kernel
  exact ⟨hnew, by decide +kernel, build_leaves b busy hnew, by decide +kernel,
    build_leaves b v hnew⟩

end Bundle

end Minify
