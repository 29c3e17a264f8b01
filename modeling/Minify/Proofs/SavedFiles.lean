import Mathlib
import Minify.Proofs.DiskSteps
import Minify.Proofs.FailingRuns

/-!
Saving a file on a disk whose steps may fail.

A drive is a disk with faults to come: any step may be stopped, and it then leaves the disk as it
was. Whatever is stopped, saving a file changes nothing but the draft until the draft takes the
place of the file, and then no draft is left.
-/

namespace Minify

/-- A disk whose steps may fail, as seen by one process. -/
structure Drive where
  disk : Disk
  /-- The number of the process, which marks its drafts. -/
  process : Nat
  /-- What befalls the steps to come: a fault stops a step, otherwise it is left to the disk. -/
  faults : List (Option FileFault)

namespace Drive

def attempt {α : Type} (step : ExceptT FileFault (StateM Disk) α) :
    ExceptT FileFault (StateM Drive) α :=
  ExceptT.mk fun v =>
    match v.faults.head?.join with
    | some fault => (.error fault, { v with faults := v.faults.tail })
    | none =>
      let (result, disk) := step.run.run v.disk
      (result, { v with disk := disk, faults := v.faults.tail })

instance : FileStore (StateM Drive) where
  read p := attempt (FileStore.read p)
  createDirs p := attempt (FileStore.createDirs p)
  write p text := attempt (FileStore.write p text)
  rename p q := attempt (FileStore.rename p q)
  remove p := attempt (FileStore.remove p)
  mark v := (toString v.process, v)

/-- What marks the drafts of the process. -/
def mark (v : Drive) : String := toString v.process

variable {v v' : Drive} {p text : String}

lemma not_mem_mark (v : Drive) : '/' ∉ v.mark.toList := by
  intro hmem
  rw [mark, Nat.toString_eq_repr, Nat.toList_repr] at hmem
  exact absurd (Nat.isDigit_of_mem_toDigits (by decide) (by decide) hmem) (by decide)

lemma of_attempt_run {α : Type} {step : ExceptT FileFault (StateM Disk) α}
    {result : Except FileFault α} (h : (attempt step).run.run v = (result, v')) :
    v'.process = v.process ∧ (step.run.run v.disk = (result, v'.disk) ∨
      v'.disk = v.disk ∧ ∃ fault, result = .error fault) := by
  have hrun : (attempt step).run.run v = match v.faults.head?.join with
    | some fault => (.error fault, { v with faults := v.faults.tail })
    | none =>
      let (result, disk) := step.run.run v.disk
      (result, { v with disk := disk, faults := v.faults.tail }) := rfl
  rw [hrun] at h
  split at h
  · rename_i fault _
    cases h
    exact ⟨rfl, .inr ⟨rfl, fault, rfl⟩⟩
  · cases h
    exact ⟨rfl, .inl rfl⟩

/-- Making directories leaves the files as they are, as far as it comes. -/
lemma of_createDirs_run {result : Except FileFault Unit}
    (h : (FileStore.createDirs p : ExceptT FileFault (StateM Drive) Unit).run.run v
      = (result, v')) :
    v'.process = v.process ∧ Disk.SameFiles v.disk v'.disk := by
  obtain ⟨hprocess, hstep | ⟨hdisk, -⟩⟩ := of_attempt_run h
  · have hrun : (v.disk.createDirs p).2 = v'.disk := congrArg Prod.snd hstep
    exact ⟨hprocess, hrun ▸ v.disk.createDirs_sameFiles p⟩
  · exact ⟨hprocess, hdisk ▸ .refl _⟩

/-- A change of the disk happens, or the disk is as it was. -/
lemma of_change_run {step : Disk → Except FileFault Disk} {result : Except FileFault Unit}
    (h : (attempt (Disk.change step)).run.run v = (result, v')) :
    v'.process = v.process ∧ (result = .ok () ∧ step v.disk = .ok v'.disk ∨
      (∃ fault, result = .error fault) ∧ v'.disk = v.disk) := by
  obtain ⟨hprocess, hstep | ⟨hdisk, hfault⟩⟩ := of_attempt_run h
  · cases hd : step v.disk with
    | ok d =>
      simp only [Disk.change, ExceptT.run_mk, StateT.run, hd] at hstep
      obtain ⟨rfl, rfl⟩ := Prod.mk.inj hstep
      exact ⟨hprocess, .inl ⟨rfl, rfl⟩⟩
    | error fault =>
      simp only [Disk.change, ExceptT.run_mk, StateT.run, hd] at hstep
      obtain ⟨rfl, hdisk⟩ := Prod.mk.inj hstep
      exact ⟨hprocess, .inr ⟨⟨fault, rfl⟩, hdisk.symm⟩⟩
  · exact ⟨hprocess, .inr ⟨hfault, hdisk⟩⟩

/-! ### Saving -/

/-- A draft takes the place of a file, or it is removed, if that is possible. -/
lemma of_settle_run {draft : String} {result : Except FileFault Unit}
    (h : (tryCatch (FileStore.rename draft p) (fun fault => do
        let _ ← ExceptT.lift (FileStore.remove draft : ExceptT FileFault (StateM Drive) Unit).run
        throw fault) : ExceptT FileFault (StateM Drive) Unit).run.run v = (result, v')) :
    v'.process = v.process ∧ (result = .ok () ∧ v.disk.rename draft p = .ok v'.disk ∨
      (∃ fault, result = .error fault) ∧
        (v'.disk = v.disk ∨ v.disk.remove draft = .ok v'.disk)) := by
  rcases tryCatch_run_cases h with ⟨_, hrename, rfl⟩ | ⟨fault, v₁, hrename, h⟩
  · obtain ⟨hprocess, ⟨-, hmoved⟩ | ⟨⟨fault, hfault⟩, -⟩⟩ := of_change_run hrename
    · exact ⟨hprocess, .inl ⟨rfl, hmoved⟩⟩
    · cases hfault
  · obtain ⟨hprocess, ⟨hok, -⟩ | ⟨-, hdisk⟩⟩ := of_change_run hrename
    · cases hok
    rcases bind_run_cases h with ⟨_, hremove, -⟩ | ⟨gone, v₂, hremove, hthrow⟩
    · cases hremove
    cases hthrow
    obtain ⟨hprocess', hgone⟩ := of_change_run (of_lift_run hremove)
    refine ⟨hprocess'.trans hprocess, .inr ⟨⟨fault, rfl⟩, ?_⟩⟩
    rw [← hdisk]
    exact hgone.symm.imp And.right And.right

lemma of_save_run {result : Except FileFault Unit}
    (h : (FileStore.save p text : ExceptT FileFault (StateM Drive) Unit).run.run v = (result, v')) :
    v'.process = v.process ∧ ∃ d, Disk.SameFiles v.disk d ∧
      ((∃ fault, result = .error fault) ∧ v'.disk = d ∨
        ∃ d', d.write (FileStore.draft v.mark p) text.toUTF8 = .ok d' ∧
          (result = .ok () ∧ d'.rename (FileStore.draft v.mark p) p = .ok v'.disk ∨
            (∃ fault, result = .error fault) ∧ (v'.disk = d' ∨
              d'.remove (FileStore.draft v.mark p) = .ok v'.disk))) := by
  unfold FileStore.save at h
  rcases bind_run_cases h with ⟨fault, hmake, rfl⟩ | ⟨_, v₁, hmake, h⟩
  · obtain ⟨hprocess, hsame⟩ := of_createDirs_run hmake
    exact ⟨hprocess, _, hsame, .inl ⟨⟨fault, rfl⟩, rfl⟩⟩
  obtain ⟨hprocess₁, hsame⟩ := of_createDirs_run hmake
  rcases bind_run_cases h with ⟨fault, hmark, -⟩ | ⟨mark, v₂, hmark, h⟩
  · cases hmark
  obtain ⟨rfl, rfl⟩ := Prod.mk.inj (of_lift_run hmark)
  have hmark : toString v₁.process = v.mark := congrArg toString hprocess₁
  dsimp only at h
  rw [hmark] at h
  rcases bind_run_cases h with ⟨fault, hwrite, rfl⟩ | ⟨_, v₃, hwrite, h⟩
  · obtain ⟨hprocess₂, ⟨hok, -⟩ | ⟨-, hdisk⟩⟩ := of_change_run hwrite
    · cases hok
    exact ⟨hprocess₂.trans hprocess₁, _, hsame, .inl ⟨⟨fault, rfl⟩, hdisk⟩⟩
  · obtain ⟨hprocess₂, ⟨-, hwritten⟩ | ⟨⟨fault, hfault⟩, -⟩⟩ := of_change_run hwrite
    · obtain ⟨hprocess₃, hsettled⟩ := of_settle_run h
      exact ⟨hprocess₃.trans (hprocess₂.trans hprocess₁), _, hsame,
        .inr ⟨v₃.disk, hwritten, hsettled⟩⟩
    · cases hfault

end Drive

/-- Nothing but the draft may have changed on a disk, and directories may be new. -/
structure Disk.Unsaved (d : Disk) (draft : String) (d' : Disk) : Prop extends Disk.Grown d d' where
  contents : ∀ place ≠ d.spot draft, d'.contents place = d.contents place

/-- A text has been saved on a disk: the file is there, and no draft. -/
structure Disk.Saved (d : Disk) (draft p text : String) (d' : Disk) : Prop
    extends Disk.Grown d d' where
  contents : d'.contents =
    Function.update (Function.update d.contents (d.spot draft) none) (d.spot p) (some text.toUTF8)
  place : d'.place p = .ok (d.spot p)
  named : Path.fileName? p = some (Path.lastName p)

namespace Disk.Saved

variable {d d' d'' : Disk} {draft p text : String} {place : Place}

lemma contents_self (h : d.Saved draft p text d') : d'.contents (d.spot p) = some text.toUTF8 := by
  rw [h.contents, Function.update_self]

lemma contents_of_ne (h : d.Saved draft p text d') (hp : place ≠ d.spot p)
    (hdraft : place ≠ d.spot draft) : d'.contents place = d.contents place := by
  rw [h.contents, Function.update_of_ne hp, Function.update_of_ne hdraft]

lemma contents_draft (h : d.Saved draft p text d') (hne : d.spot p ≠ d.spot draft) :
    d'.contents (d.spot draft) = none := by
  rw [h.contents, Function.update_of_ne hne.symm, Function.update_self]

/-- The text is read as long as directories stay and no one changes the file. -/
lemma read_eq (h : d.Saved draft p text d') (hgrown : Grown d' d'')
    (hsame : d''.contents (d.spot p) = d'.contents (d.spot p)) : d''.read p = .ok text.toUTF8 :=
  Disk.read_eq (hgrown.place_ok h.place) (hsame.trans h.contents_self)

end Disk.Saved

namespace Drive

variable {v v' : Drive} {p text : String}

/-- **Saving a file** changes the file if it ends well, and at most the draft if not. -/
theorem save_run {result : Except FileFault Unit}
    (h : (FileStore.save p text : ExceptT FileFault (StateM Drive) Unit).run.run v = (result, v')) :
    v'.process = v.process ∧
      (result = .ok () ∧ v.disk.Saved (FileStore.draft v.mark p) p text v'.disk ∨
        (∃ fault, result = .error fault) ∧
          v.disk.Unsaved (FileStore.draft v.mark p) v'.disk) := by
  obtain ⟨hprocess, d, hsame, ⟨hfault, rfl⟩ | ⟨d', hwrite, h⟩⟩ := of_save_run h
  · exact ⟨hprocess, .inr ⟨hfault, hsame.toGrown, fun place _ => congrFun hsame.contents place⟩⟩
  refine ⟨hprocess, ?_⟩
  obtain ⟨hgrown, hwritten⟩ := Disk.of_write hwrite
  have hall := hsame.toGrown.trans hgrown
  rw [hsame.toGrown.spot_eq, hsame.contents] at hwritten
  rcases h with ⟨hok, hrename⟩ | ⟨hfault, rfl | hremove⟩
  · obtain ⟨hmoved, ⟨bytes, hbytes, hcontents⟩, hnamed, hplace⟩ := Disk.of_rename hrename
    rw [hall.spot_eq, hwritten, Function.update_self] at hbytes
    cases hbytes
    rw [hall.spot_eq] at hplace
    rw [hall.spot_eq, hall.spot_eq, hwritten, Function.update_idem] at hcontents
    exact .inl ⟨hok, hall.trans hmoved, hcontents, hplace, hnamed⟩
  · refine .inr ⟨hfault, hall, fun place hne => ?_⟩
    rw [hwritten, Function.update_of_ne hne]
  · obtain ⟨hremoved, hcontents⟩ := Disk.of_remove hremove
    rw [hall.spot_eq, hwritten, Function.update_idem] at hcontents
    refine .inr ⟨hfault, hall.trans hremoved, fun place hne => ?_⟩
    rw [hcontents, Function.update_of_ne hne]

end Drive

end Minify
