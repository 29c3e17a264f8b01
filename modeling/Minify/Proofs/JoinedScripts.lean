import Mathlib
import Minify.Bundle
import Minify.FileStore.Disk
import Minify.Proofs.ByteSize
import Minify.Proofs.FailingRuns

/-!
The scripts of a bundle, one after another.

Every script that is read is copied behind those before it, with a line feed after it. So a byte of
the joined scripts lies in one copy, or is one of the line feeds.
-/

namespace Minify

/-- A script that is copied into a bundle. -/
structure Copy where
  path : String
  text : String
  deriving DecidableEq, Repr

namespace Copy

def joined (copies : List Copy) : String := String.join (copies.map fun c => c.text ++ "\n")

/-- How many bytes the copies take. -/
def size (copies : List Copy) : Nat := (joined copies).utf8ByteSize

/-- The paths of the copies, and where each of them starts after `pos` bytes. -/
def starts (pos : Nat) : List Copy → List (String × UInt32)
  | [] => []
  | c :: cs => (c.path, UInt32.ofNat pos) :: starts (pos + c.text.utf8ByteSize + 1) cs

def together (copies : List Copy) : Joined := ⟨joined copies, starts 0 copies⟩

/-- A byte of the joined copies lies in `copy`. -/
structure LiesIn (copies before : List Copy) (copy : Copy) (after : List Copy) (offset : Nat) :
    Prop where
  split : copies = before ++ copy :: after
  le : size before ≤ offset
  lt : offset < size before + copy.text.utf8ByteSize

variable {copies before after : List Copy} {copy c : Copy} {offset pos : Nat}

lemma joined_append (cs ds : List Copy) : joined (cs ++ ds) = joined cs ++ joined ds := by
  rw [joined, List.map_append, String.join_append]
  rfl

lemma joined_cons (c : Copy) (cs : List Copy) : joined (c :: cs) = c.text ++ "\n" ++ joined cs := by
  rw [joined, List.map_cons, String.join_cons]
  rfl

lemma size_cons (c : Copy) (cs : List Copy) :
    size (c :: cs) = c.text.utf8ByteSize + 1 + size cs := by
  rw [size, joined_cons, String.utf8ByteSize_append, String.utf8ByteSize_append]
  rfl

lemma size_append (cs ds : List Copy) : size (cs ++ ds) = size cs + size ds := by
  rw [size, joined_append, String.utf8ByteSize_append]
  rfl

lemma starts_append (pos : Nat) (cs ds : List Copy) :
    starts pos (cs ++ ds) = starts pos cs ++ starts (pos + size cs) ds := by
  induction cs generalizing pos with
  | nil => rfl
  | cons c cs ih =>
    have hpos : pos + c.text.utf8ByteSize + 1 + size cs = pos + size (c :: cs) := by
      rw [size_cons]
      omega
    rw [List.cons_append, starts, ih, hpos]
    rfl

lemma together_add (copies : List Copy) (path text : String) :
    (together copies).add path (UInt32.ofNat (size copies)) text
      = together (copies ++ [⟨path, text⟩]) := by
  rw [together, Joined.add, together, joined_append, starts_append, Nat.zero_add, joined_cons,
    String.append_assoc]
  simp [starts, size, joined]

lemma map_fst_starts (pos : Nat) (cs : List Copy) : (starts pos cs).map Prod.fst
    = cs.map Copy.path := by
  induction cs generalizing pos with
  | nil => rfl
  | cons c cs ih => rw [starts, List.map_cons, ih, List.map_cons]

/-- Where a copy starts, with those before and after it. -/
lemma starts_split {front back : List (String × UInt32)} {e : String × UInt32}
    (h : starts pos copies = front ++ e :: back) : ∃ before copy after,
      copies = before ++ copy :: after ∧ e = (copy.path, UInt32.ofNat (pos + size before)) ∧
      back = starts (pos + size before + copy.text.utf8ByteSize + 1) after := by
  induction copies generalizing pos front with
  | nil => simp [starts] at h
  | cons c cs ih =>
    rw [starts] at h
    cases front with
    | nil =>
      obtain ⟨rfl, rfl⟩ := List.cons.inj h
      exact ⟨[], c, cs, rfl, rfl, rfl⟩
    | cons e' front =>
      rw [List.cons_append] at h
      obtain ⟨-, hrest⟩ := List.cons.inj h
      obtain ⟨before, copy, after, rfl, he, hback⟩ := ih hrest
      have hpos : pos + c.text.utf8ByteSize + 1 + size before = pos + size (c :: before) := by
        rw [size_cons]
        omega
      rw [hpos] at he hback
      exact ⟨c :: before, copy, after, rfl, he, hback⟩

/-- Of two copies, the one that starts further on stands behind the other. -/
lemma split_cases {before' after' : List Copy} {copy' : Copy}
    (h : copies = before ++ copy :: after) (h' : copies = before' ++ copy' :: after') :
    (before' = before ∧ copy' = copy ∧ after' = after) ∨
      (copy ∈ before' ∧ copy' ∈ after ∧ size before + copy.text.utf8ByteSize < size before') ∨
      (copy' ∈ before ∧ copy ∈ after' ∧ size before' + copy'.text.utf8ByteSize < size before) := by
  rw [h, List.append_eq_append_iff] at h'
  rcases h' with ⟨mid, rfl, hmid⟩ | ⟨mid, rfl, hmid⟩
  · cases mid with
    | nil =>
      obtain ⟨rfl, rfl⟩ := List.cons.inj hmid
      exact .inl ⟨List.append_nil _, rfl, rfl⟩
    | cons c mid =>
      obtain ⟨rfl, rfl⟩ := List.cons.inj hmid
      refine .inr (.inl ⟨by simp, by simp, ?_⟩)
      rw [size_append, size_cons]
      omega
  · cases mid with
    | nil =>
      obtain ⟨rfl, rfl⟩ := List.cons.inj hmid
      exact .inl ⟨(List.append_nil _).symm, rfl, rfl⟩
    | cons c mid =>
      obtain ⟨rfl, rfl⟩ := List.cons.inj hmid
      refine .inr (.inr ⟨by simp, by simp, ?_⟩)
      rw [size_append, size_cons]
      omega

/-- A byte where anything but a line feed begins lies in one of the copies. -/
lemma exists_liesIn {front rest : List Char} {c : Char}
    (h : (joined copies).toList = front ++ c :: rest) (hc : c ≠ '\n') :
    ∃ before copy after, LiesIn copies before copy after (Text.byteSize front) := by
  induction copies generalizing front with
  | nil => simp [joined] at h
  | cons x xs ih =>
    have hjoined : (joined (x :: xs)).toList = x.text.toList ++ '\n' :: (joined xs).toList := by
      rw [joined_cons, String.toList_append, String.toList_append, List.append_assoc]
      rfl
    rw [hjoined, List.append_eq_append_iff] at h
    rcases h with ⟨mid, rfl, hmid⟩ | ⟨mid, htext, hmid⟩
    · cases mid with
      | nil => exact absurd (List.cons.inj hmid).1.symm hc
      | cons d mid =>
        obtain ⟨rfl, hrest⟩ := List.cons.inj hmid
        obtain ⟨before, copy, after, rfl, hle, hlt⟩ := ih hrest
        have hsize : Text.byteSize (x.text.toList ++ '\n' :: mid)
            = x.text.utf8ByteSize + 1 + Text.byteSize mid := by
          rw [Text.byteSize_append, Text.byteSize_cons, ← Text.utf8ByteSize_eq, Nat.add_assoc]
          rfl
        refine ⟨x :: before, copy, after, rfl, ?_, ?_⟩ <;> rw [hsize, size_cons] <;> omega
    · cases mid with
      | nil => exact absurd (List.cons.inj hmid).1 hc
      | cons d mid =>
        refine ⟨[], x, xs, rfl, Nat.zero_le _, ?_⟩
        have hpos := d.utf8Size_pos
        have hsize : size [] = 0 := rfl
        rw [hsize, Nat.zero_add, Text.utf8ByteSize_eq, htext, Text.byteSize_append,
          Text.byteSize_cons]
        omega

end Copy

/-! ### Reading the scripts -/

/-- The text of a script lies on the disk at its path. -/
def Copy.LiesOn (d : Disk) (c : Copy) : Prop :=
  (FileStore.readText c.path : ExceptT FileFault (StateM Disk) String).run.run d = (.ok c.text, d)

lemma readText_run (d : Disk) (path : String) :
    ((FileStore.readText path : ExceptT FileFault (StateM Disk) String).run.run d).2 = d := by
  have hread : (FileStore.read path : ExceptT FileFault (StateM Disk) ByteArray).run.run d
      = (d.read path, d) := rfl
  unfold FileStore.readText
  cases hd : d.read path with
  | error e =>
    rw [ExceptT.run_bind, StateT.run_bind, hread, hd]
    rfl
  | ok bytes =>
    rw [hd] at hread
    rw [run_bind hread]
    cases String.fromUTF8? bytes <;> rfl

lemma liesOn_of_adapt {d d' : Disk} {path text : String} {fault : FileFault → BundleError}
    (h : ((FileStore.readText path : ExceptT FileFault (StateM Disk) String).adapt fault).run.run d
      = (.ok text, d')) : d' = d ∧ Copy.LiesOn d ⟨path, text⟩ := by
  rcases adapt_run_cases h with ⟨_, -, he⟩ | ⟨_, hread, he⟩
  · cases he
  · cases he
    obtain rfl : d' = d := (congrArg Prod.snd hread).symm.trans (readText_run d path)
    exact ⟨rfl, hread⟩

lemma Copy.LiesOn.adapt_run {d : Disk} {c : Copy} (h : c.LiesOn d)
    (fault : FileFault → BundleError) :
    ((FileStore.readText c.path : ExceptT FileFault (StateM Disk) String).adapt fault).run.run d
      = (.ok c.text, d) := by
  have hread : (FileStore.readText c.path : ExceptT FileFault (StateM Disk) String).run.run d
      = (.ok c.text, d) := h
  rw [ExceptT.run_adapt, StateT.run_map, hread]
  rfl

namespace Bundle

/-- One more script is read and copied behind the others. -/
lemma of_joinNext_run {d d' : Disk} {path : String} {j j' : Joined}
    (h : (joinNext j path : ExceptT BundleError (StateM Disk) Joined).run.run d = (.ok j', d')) :
    d' = d ∧ ∃ text, Copy.LiesOn d ⟨path, text⟩ ∧
      j' = j.add path (UInt32.ofNat j.code.utf8ByteSize) text := by
  unfold joinNext Joined.stop? at h
  split at h
  · cases h
  · rename_i hstop
    split at hstop
    · cases hstop
      obtain ⟨text, d₁, hread, hrest⟩ := bind_run h
      obtain ⟨rfl, hlies⟩ := liesOn_of_adapt hread
      cases hrest
      exact ⟨rfl, text, hlies, rfl⟩
    · cases hstop

/-- Reading more scripts joins copies of them to those of the scripts before. -/
lemma of_foldlM_joinNext_run {d d' : Disk} {paths : List String} {done : List Copy} {j : Joined}
    (hdone : ∀ c ∈ done, c.LiesOn d)
    (h : (paths.foldlM joinNext (Copy.together done) :
      ExceptT BundleError (StateM Disk) Joined).run.run d = (.ok j, d')) :
    d' = d ∧ ∃ copies : List Copy, copies.map Copy.path = done.map Copy.path ++ paths ∧
      (∀ c ∈ copies, c.LiesOn d) ∧ j = Copy.together copies := by
  induction paths generalizing done with
  | nil =>
    cases h
    exact ⟨rfl, done, (List.append_nil _).symm, hdone, rfl⟩
  | cons path paths ih =>
    rw [List.foldlM_cons] at h
    obtain ⟨j₁, d₁, hstep, hrest⟩ := bind_run h
    obtain ⟨rfl, text, hlies, rfl⟩ := of_joinNext_run hstep
    have hdone' : ∀ c ∈ done ++ [⟨path, text⟩], c.LiesOn d₁ := by
      intro c hc
      rcases List.mem_append.mp hc with hc | hc
      · exact hdone c hc
      · exact List.mem_singleton.mp hc ▸ hlies
    obtain ⟨rfl, copies, hpaths, hall, rfl⟩ := ih hdone' (Copy.together_add done path text ▸ hrest)
    refine ⟨rfl, copies, ?_, hall, rfl⟩
    rw [hpaths, List.map_append, List.append_assoc]
    rfl

lemma foldlM_joinNext_run {d : Disk} {done copies : List Copy} (hlies : ∀ c ∈ copies, c.LiesOn d)
    (hfits : Copy.size (done ++ copies) < UInt32.size) :
    ((copies.map Copy.path).foldlM joinNext (Copy.together done) :
      ExceptT BundleError (StateM Disk) Joined).run.run d
        = (.ok (Copy.together (done ++ copies)), d) := by
  induction copies generalizing done with
  | nil =>
    rw [List.append_nil]
    rfl
  | cons c copies ih =>
    obtain ⟨hc, hrest⟩ := List.forall_mem_cons.mp hlies
    have hsplit : done ++ c :: copies = done ++ [c] ++ copies := by simp
    have hstop : (Copy.together done).stop? = some (UInt32.ofNat (Copy.size done)) := by
      rw [Copy.size_append] at hfits
      exact if_pos (Nat.lt_of_le_of_lt (Nat.le_add_right _ _) hfits)
    have hnext : (joinNext (Copy.together done) c.path :
        ExceptT BundleError (StateM Disk) Joined).run.run d
          = (.ok (Copy.together (done ++ [c])), d) := by
      rw [joinNext, hstop, ← Copy.together_add]
      exact run_bind (hc.adapt_run _)
    rw [List.map_cons, List.foldlM_cons, run_bind hnext, hsplit]
    exact ih hrest (hsplit ▸ hfits)

lemma file_of_pack {p : ProtectedNames} {o : Options} {source : String} {r : Packed}
    (h : pack p o source = .ok r) : r.sourceMap.file = o.outputFile := by
  unfold pack at h
  obtain ⟨encoder, -, h⟩ := bind_eq_ok_iff.mp h
  obtain ⟨tokens, -, h⟩ := bind_eq_ok_iff.mp h
  obtain ⟨replaced, -, h⟩ := bind_eq_ok_iff.mp h
  cases encoder with
  | none =>
    cases h
    rfl
  | some e =>
    obtain ⟨x, -, h⟩ := bind_eq_ok_iff.mp h
    cases h
    rfl

lemma filename_of_packed {b : Bundle} {j : Joined} {r : Packed} (h : b.packed j = .ok r) :
    r.sourceMap.filename = some b.mapPath := by
  unfold packed at h
  cases hpack : pack .empty (b.packOptions j) j.code with
  | error e =>
    rw [hpack] at h
    cases h
  | ok r' =>
    rw [hpack] at h
    cases h
    rw [SourceMap.filename, file_of_pack hpack]
    rfl

/-- Saving a bundle: the packed code below its header, and the map beside it. -/
def saveAll (b : Bundle) (r : Packed) : ExceptT BundleError (StateM Disk) Unit := do
  save b.output (b.heading ++ r.code)
  save b.mapPath r.sourceMap.render

/-- **A bundle that is built** is made of copies of its scripts, packed together and saved. -/
lemma of_build_run {b : Bundle} {d d' : Disk} {report : BundleReport}
    (h : (b.build : ExceptT BundleError (StateM Disk) BundleReport).run.run d = (.ok report, d')) :
    ∃ copies : List Copy, copies.map Copy.path = b.inputs ∧ (∀ c ∈ copies, c.LiesOn d) ∧
      Copy.size copies < UInt32.size ∧ ∃ r, b.packed (Copy.together copies) = .ok r ∧
        (b.saveAll r).run.run d = (.ok (), d') := by
  obtain ⟨j, d₁, hjoin, h⟩ := bind_run h
  have hjoin : (b.inputs.foldlM joinNext (Copy.together []) :
      ExceptT BundleError (StateM Disk) Joined).run.run d = (.ok j, d₁) := hjoin
  have hnone : ∀ c ∈ ([] : List Copy), c.LiesOn d := fun c hc => absurd hc List.not_mem_nil
  obtain ⟨rfl, copies, hpaths, hall, rfl⟩ := of_foldlM_joinNext_run hnone hjoin
  refine ⟨copies, hpaths, hall, ?_⟩
  have hstop : (Copy.together copies).stop?
      = if Copy.size copies < UInt32.size then some (UInt32.ofNat (Copy.size copies)) else none := rfl
  by_cases hfits : Copy.size copies < UInt32.size
  · rw [hstop, if_pos hfits] at h
    obtain ⟨r, d₂, hpacked, h⟩ := bind_run h
    obtain ⟨_, d₃, hcode, h⟩ := bind_run h
    obtain ⟨_, d₄, hmap, h⟩ := bind_run h
    cases h
    have hpacked : (b.packed (Copy.together copies), d₁) = (.ok r, d₂) := hpacked
    obtain ⟨hr, rfl⟩ := Prod.mk.inj hpacked
    refine ⟨hfits, r, hr, ?_⟩
    rw [filename_of_packed hr] at hmap
    unfold saveAll
    rw [ExceptT.run_bind, StateT.run_bind, hcode]
    exact hmap
  · rw [hstop, if_neg hfits] at h
    cases h

/-- **A bundle is built** when its scripts lie on the disk and fit, they can be packed together, and
the result can be saved. -/
lemma build_run {b : Bundle} {d d' : Disk} {copies : List Copy} {r : Packed}
    (hpaths : copies.map Copy.path = b.inputs) (hlies : ∀ c ∈ copies, c.LiesOn d)
    (hfits : Copy.size copies < UInt32.size) (hpacked : b.packed (Copy.together copies) = .ok r)
    (hsaved : (b.saveAll r).run.run d = (.ok (), d')) :
    ∃ report, (b.build : ExceptT BundleError (StateM Disk) BundleReport).run.run d
      = (.ok report, d') := by
  have hjoin : (join b.inputs : ExceptT BundleError (StateM Disk) Joined).run.run d
      = (.ok (Copy.together copies), d) := hpaths ▸ @foldlM_joinNext_run d [] copies hlies hfits
  have hstop : (Copy.together copies).stop? = some (UInt32.ofNat (Copy.size copies)) := if_pos hfits
  have hpack : (ExceptT.mk (pure (b.packed (Copy.together copies))) :
      ExceptT BundleError (StateM Disk) Packed).run.run d = (.ok r, d) := by
    rw [hpacked]
    rfl
  obtain ⟨_, d₁, hcode, hmap⟩ := bind_run hsaved
  have hname : r.sourceMap.filename.getD b.mapPath = b.mapPath := by
    rw [filename_of_packed hpacked, Option.getD_some]
  rw [← hname] at hmap
  refine ⟨⟨b.output, r.sourceMap.filename.getD b.mapPath, b.inputs.length,
    (Copy.joined copies).utf8ByteSize, (b.heading ++ r.code).utf8ByteSize⟩, ?_⟩
  rw [build, run_bind hjoin, hstop]
  exact (run_bind hpack).trans ((run_bind hcode).trans ((run_bind hmap).trans rfl))

end Bundle

end Minify
