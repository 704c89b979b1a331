import Vsfs.Volume.Overwrite
import Vsfs.Volume.ShmRun

/-!
# A write changes only the bytes it writes

Both versions of `vsfs_write` set the size to the end of the write, also when the file was longer.

- `writes_keep_files_iff`: in every run whose calls find what they need, a write does to the files what it should
  exactly if the file ends at the end of the write or before;
- `overwrite_shortens`: one byte written over the first of two.
-/

set_option autoImplicit false

namespace Vsfs

open Function ByteSeq WordBits GuardedRun

/-! ## A run -/

/-- Two bytes written to it, and the offset set back. -/
def openTwoBytes : List Call := openEmpty ++ [.write 1 (fun _ => 97) 2, .lseek 1 0 seekSet]

/-- The two calls of `openEmpty` find what they need. -/
theorem reachedBy_opened {s₁ s : State} {rc ro : Int}
    (hc : Call.run 0 (.creat (letter 0) 0) (blankVolume 4096) = .ok (rc, s₁))
    (ho : Call.run 0 (.open (letter 0) oRdwr) s₁ = .ok (ro, s)) : ReachedBy OwnershipOk s := by
  have hcreat : OwnershipOk (.creat (letter 0) 0) (blankVolume 4096) := by
    refine ⟨?_, ?_⟩
    · exact fresh_creat_device (by decide) (by decide) _ _ _ (by decide) (by decide)
    · rintro _ _ ⟨⟩ _ _
      exact Nat.zero_le _
  have hopen : OwnershipOk (.open (letter 0) oRdwr) s₁ := ⟨trivial, fun _ _ hcall => by cases hcall⟩
  exact ((reachedBy_blankVolume (by decide) (by decide)).step hcreat ⟨0, rc, by decide, hc⟩).step hopen
    ⟨0, ro, by decide, ho⟩

/-- After `openEmpty` a write of one byte finds what it needs. -/
theorem opened_empty : ∃ s e, ReachedBy OwnershipOk s ∧ s.OpenOn 1 e 0 ∧
    WriteReady s.vol.cached.sbi.nrDregionBlocks s e 0 1 ∧ (s.desc.opFtable 0).offset = 0 ∧
    (s.vol.inode (s.desc.opFtable 0).inodeNr).fileSize = 0 := by
  have h : (do
      let c ← Call.run 0 (.creat (letter 0) 0) (blankVolume 4096)
      let r ← Call.run 0 (.open (letter 0) oRdwr) c.2
      let found ← r.2.desc.findTarget 1
      let file ← r.2.desc.fileOf 0
      .ok (found.any fun x => x.2.ptr = some 0 ∧ x.2.flags = some oRdwr ∧ r.2.desc.opCounter = true ∧
        r.2.sbCached.isSome ∧ (r.2.desc.opFtable 0).inodeNr = 1 ∧ (r.2.desc.opFtable 0).offset = 0 ∧
        (r.2.vol.inode 1).blocks = 0 ∧ (r.2.vol.inode 1).size = 0 ∧ bit r.2.vol.cached.dbitmap 1 = true ∧
        1 < r.2.vol.cached.sbi.nrDregionBlocks ∧ 1 < dbitmapBits r.2.vol.cached.sbi) : M Bool) = .ok true := by
    decide +kernel
  obtain ⟨⟨rc, s₁⟩, hc, h⟩ := ExceptLib.bind_eq_ok.mp h
  obtain ⟨⟨ro, s⟩, ho, h⟩ := ExceptLib.bind_eq_ok.mp h
  obtain ⟨found, hfind, h⟩ := ExceptLib.bind_eq_ok.mp h
  obtain ⟨⟨a, f⟩, hfile, h⟩ := ExceptLib.bind_eq_ok.mp h
  obtain ⟨⟨b, e⟩, rfl, hall⟩ := (Option.any_eq_true _ _).mp (Except.ok.inj h)
  obtain ⟨hp, hfl, hop, hsc, hi, hofs, hb, hz, hbit, hB, hbits⟩ := of_decide_eq_true hall
  dsimp only at hp hfl hop hsc hi hofs hb hz hbit hB hbits
  obtain ⟨hfp, hfl'⟩ := fileOf_eq_ok.mp hfile
  refine ⟨s, e, reachedBy_opened hc ho, ⟨b, hfind, hp⟩, ⟨hop, FdTable.canWrite_of_rdwr hfl, Option.isSome_iff_ne_none.mp hsc,
    by rw [hi]; decide, ⟨a, f, hfp, hfl', fun hlt => ?_⟩, fun _ => ?_⟩, hofs, ?_⟩
  · rw [hi, hb] at hlt
    exact absurd hlt (Nat.not_lt_zero _)
  · rw [hi, hofs, hb]
    exact room_pos hbit hB hbits
  · rw [hi]
    simp [Inode.fileSize, hz, hb]

/-- The first call of `openEmpty` finds what it needs, also in the shared-memory variant. -/
theorem Shm.first_creat_ok : Shm.CallOk (Shm.Process.start (blankVolume 4096).vol).cached.sbi.nrDregionBlocks
    (.creat (letter 0) 0) (.start (blankVolume 4096).vol) := by
  have hdev : (Shm.Process.start (blankVolume 4096).vol).cached.sbi.nrDregionBlocks = 2045 := by decide +kernel
  rw [hdev]
  obtain ⟨hfree, hroom⟩ : InodeFree (blankVolume 4096) ∧ CreatRoom 2045 0 (blankVolume 4096).vol :=
    fresh_creatRoom (by decide) (by decide) _ _ (by decide) (by decide)
  refine fun _ => Shm.start_creatReady hfree (Nat.zero_le _) hroom fun q hq => ?_
  rw [fresh_used (by decide) (by decide) _ _ hq]
  trivial

/-- The same for the shared-memory variant. -/
theorem Shm.opened_empty : ∃ s e, Shm.ReachedBy (fun c s => Shm.CallOk s.cached.sbi.nrDregionBlocks c s) s ∧
    s.OpenOn 1 e 0 ∧ Shm.WriteAllowed s e 0 1 ∧ Shm.WriteReady s.cached.sbi.nrDregionBlocks s 0 1 ∧
    (s.desc.opFtable 0).offset = 0 ∧ (s.inodes (s.desc.opFtable 0).inodeNr).fileSize = 0 := by
  have h : (do
      let c ← Shm.run 0 (.creat (letter 0) 0) (.start (blankVolume 4096).vol)
      let r ← Shm.run 0 (.open (letter 0) oRdwr) c.2
      let found ← r.2.desc.findTarget 1
      .ok (found.any fun x => x.2.ptr = some 0 ∧ x.2.flags = some oRdwr ∧ r.2.desc.opCounter = true ∧ r.2.sb = true ∧
        r.2.sbCached = true ∧ (r.2.desc.opFtable 0).inodeNr = 1 ∧ (r.2.desc.opFtable 0).offset = 0 ∧
        (r.2.inodes 1).blocks = 0 ∧ (r.2.inodes 1).size = 0 ∧ bit r.2.cached.dbitmap 1 = true ∧
        1 < r.2.cached.sbi.nrDregionBlocks ∧ 1 < dbitmapBits r.2.cached.sbi) : M Bool) = .ok true := by
    decide +kernel
  obtain ⟨⟨rc, s₁⟩, hc, h⟩ := ExceptLib.bind_eq_ok.mp h
  obtain ⟨⟨ro, s⟩, ho, h⟩ := ExceptLib.bind_eq_ok.mp h
  obtain ⟨found, hfind, h⟩ := ExceptLib.bind_eq_ok.mp h
  obtain ⟨⟨b, e⟩, rfl, hall⟩ := (Option.any_eq_true _ _).mp (Except.ok.inj h)
  obtain ⟨hp, hfl, hop, hsb, hsc, hi, hofs, hb, hz, hbit, hB, hbits⟩ := of_decide_eq_true hall
  dsimp only at hp hfl hop hsb hsc hi hofs hb hz hbit hB hbits
  have hcreated : Shm.ReachedBy (fun c s => Shm.CallOk s.cached.sbi.nrDregionBlocks c s) s₁ :=
    Shm.ReachedBy.step (Shm.reachedBy_start (by decide) (by decide)) Shm.first_creat_ok ⟨0, rc, by decide, hc⟩
  have hopen : Shm.CallOk s₁.cached.sbi.nrDregionBlocks (.open (letter 0) oRdwr) s₁ := trivial
  have hreach := hcreated.step hopen ⟨0, ro, by decide, ho⟩
  have hend : s.desc.writeEnd 0 1 = 1 := by
    unfold Desc.writeEnd
    rw [hofs]
    rfl
  refine ⟨s, e, hreach, ⟨b, hfind, hp⟩, ⟨hsb, hop, FdTable.canWrite_of_rdwr hfl, hsc, by rw [hend]; decide,
    by rw [hi]; decide⟩, ⟨by rw [hofs]; decide, fun _ => ?_, Or.inl (by rw [hofs]; decide)⟩, hofs, ?_⟩
  · rw [hi, hofs, hb]
    exact room_pos hbit hB hbits
  · rw [hi]
    simp [Inode.fileSize, hz, hb]

/-! ## What a write should do -/

/-- A write of `nbyte` bytes through slot `p` returns their number, gives them to the file, and changes nothing else. -/
def State.WriteKeeps (s : State) (now : Nat) (fildes : Int) (buf : Bytes) (nbyte : UInt64) (p : Nat) : Prop :=
  ∃ t, vsfsWrite now fildes buf nbyte s = .ok (toInt32 nbyte.toNat, t) ∧
    WriteKept s.vol t.vol (s.desc.opFtable p).inodeNr (s.desc.opFtable p).offset nbyte.toNat buf

/-- The same for the shared-memory variant. -/
def Shm.Process.WriteKeeps (s : Shm.Process) (now : Nat) (fildes : Int) (buf : Bytes) (nbyte : UInt64) (p : Nat) : Prop :=
  ∃ t, Shm.vsfsWrite now fildes buf nbyte s = .ok (toInt32 nbyte.toNat, t) ∧
    WriteKept s.seg.toVolume t.seg.toVolume (s.desc.opFtable p).inodeNr (s.desc.opFtable p).offset nbyte.toNat buf

/-- **A write keeps what it does not write** exactly if the file ended at its end or before, in both variants. -/
theorem writes_keep_files_iff (now : Nat) (fildes : Int) (buf : Bytes) {nbyte : UInt64} (hn : 1 ≤ nbyte.toNat) :
    (∀ (s : State) (e : FdTable) (p : Nat), ReachedBy OwnershipOk s → s.OpenOn fildes e p →
      WriteReady s.vol.cached.sbi.nrDregionBlocks s e p nbyte.toNat →
      (s.desc.opFtable p).offset + nbyte.toNat < 2 ^ 32 →
      (s.WriteKeeps now fildes buf nbyte p ↔
        (s.vol.inode (s.desc.opFtable p).inodeNr).fileSize ≤ (s.desc.opFtable p).offset + nbyte.toNat)) ∧
    ∀ (s : Shm.Process) (e : FdTable) (p : Nat),
      Shm.ReachedBy (fun c s => Shm.CallOk s.cached.sbi.nrDregionBlocks c s) s → s.OpenOn fildes e p →
      Shm.WriteAllowed s e p nbyte → Shm.WriteReady s.cached.sbi.nrDregionBlocks s p nbyte.toNat →
      (s.desc.opFtable p).offset + nbyte.toNat < 2 ^ 32 →
      (s.WriteKeeps now fildes buf nbyte p ↔
        (s.inodes (s.desc.opFtable p).inodeNr).fileSize ≤ (s.desc.opFtable p).offset + nbyte.toNat) := by
  constructor
  · intro s e p h ho hr hl
    exact vsfsWrite_kept_iff h ho hr hn hl
  · intro s e p h ho ha hr hl
    have hsane := h.sane
    exact Shm.vsfsWrite_kept hsane.sound ha hr now buf hsane.sized ho hn hl

/-- The first byte of a file. -/
theorem writes_keep_files_iff_first : (∃ s : State, s.WriteKeeps 0 1 (fun _ => 97) 1 0) ∧
    ∃ s : Shm.Process, s.WriteKeeps 0 1 (fun _ => 97) 1 0 := by
  obtain ⟨hspdk, hshm⟩ := writes_keep_files_iff 0 1 (fun _ => 97) (show 1 ≤ (1 : UInt64).toNat by decide)
  constructor
  · obtain ⟨s, e, h, ho, hr, hofs, hsize⟩ := opened_empty
    refine ⟨s, (hspdk s e 0 h ho hr ?_).mpr ?_⟩
    · rw [hofs]
      decide
    · rw [hsize]
      exact Nat.zero_le _
  · obtain ⟨s, e, h, ho, ha, hr, hofs, hsize⟩ := Shm.opened_empty
    refine ⟨s, (hshm s e 0 h ho ha hr ?_).mpr ?_⟩
    · rw [hofs]
      decide
    · rw [hsize]
      exact Nat.zero_le _

/-- **An overwrite shortens the file**: a write of one byte at the start of a file of two bytes that finds all it needs
does not keep the second one, in both variants. -/
theorem overwrite_shortens :
    (∃ s e, Reached s ∧ s.OpenOn 1 e 0 ∧ WriteReady s.vol.cached.sbi.nrDregionBlocks s e 0 1 ∧
      (s.desc.opFtable 0).offset ≤ (s.vol.inode (s.desc.opFtable 0).inodeNr).fileSize ∧
      ¬s.WriteKeeps 0 1 (fun _ => 98) 1 0) ∧
    ∃ s e, Shm.ReachedBy (fun _ _ => True) s ∧ s.OpenOn 1 e 0 ∧ Shm.WriteAllowed s e 0 1 ∧
      Shm.WriteReady s.cached.sbi.nrDregionBlocks s 0 1 ∧
      (s.desc.opFtable 0).offset ≤ (s.inodes (s.desc.opFtable 0).inodeNr).fileSize ∧
      ¬s.WriteKeeps 0 1 (fun _ => 98) 1 0 := by
  constructor
  · have h : (do
        let r ← runCalls openTwoBytes (0, blankVolume 4096)
        let found ← r.2.desc.findTarget 1
        let file ← r.2.desc.fileOf 0
        let w ← vsfsWrite 0 1 (fun _ => 98) 1 r.2
        .ok (found.any fun x => x.2.ptr = some 0 ∧ x.2.flags = some oRdwr ∧ r.2.desc.opCounter = true ∧
          r.2.sbCached.isSome ∧ (r.2.desc.opFtable 0).inodeNr = 1 ∧ (r.2.desc.opFtable 0).offset = 0 ∧
          (r.2.vol.inode 1).blocks = 1 ∧ (r.2.vol.inode 1).size = 2 ∧ (w.2.vol.inode 1).fileSize = 1) : M Bool) =
        .ok true := by decide +kernel
    obtain ⟨⟨r, s⟩, hrun, h⟩ := ExceptLib.bind_eq_ok.mp h
    obtain ⟨found, hfind, h⟩ := ExceptLib.bind_eq_ok.mp h
    obtain ⟨⟨a, f⟩, hfile, h⟩ := ExceptLib.bind_eq_ok.mp h
    obtain ⟨⟨w, t⟩, hw, h⟩ := ExceptLib.bind_eq_ok.mp h
    obtain ⟨⟨b, e⟩, rfl, hall⟩ := (Option.any_eq_true _ _).mp (Except.ok.inj h)
    obtain ⟨hp, hfl, hop, hsc, hi, ho, hb, hz, ht⟩ := of_decide_eq_true hall
    dsimp only at hp hfl hop hsc hi ho hb hz ht
    obtain ⟨hfp, hfl'⟩ := fileOf_eq_ok.mp hfile
    have hsize : (s.vol.inode 1).fileSize = 2 := by simp [Inode.fileSize, hz]
    refine ⟨s, e, ReachedBy.runCalls (reachedBy_blankVolume (by decide) (by decide)) hrun, ⟨b, hfind, hp⟩, ?_, ?_, ?_⟩
    · refine ⟨hop, FdTable.canWrite_of_rdwr hfl, Option.isSome_iff_ne_none.mp hsc, by rw [hi]; decide,
        ⟨a, f, hfp, hfl', fun hlt => ?_⟩, fun _ => ?_⟩
      · rw [hi, ho, hb] at hlt
        exact absurd hlt (by decide)
      · rw [hi, ho, hb]
        exact Nat.zero_le _
    · rw [hi, ho]
      exact Nat.zero_le _
    · rintro ⟨t', hrun', hkept⟩
      rw [hw] at hrun'
      cases hrun'
      have := hkept.size
      rw [hi, ho, ht, hsize] at this
      exact absurd this (by decide)
  · have h : (do
        let r ← Shm.runCalls openTwoBytes (0, .start (blankVolume 4096).vol)
        let found ← r.2.desc.findTarget 1
        let w ← Shm.vsfsWrite 0 1 (fun _ => 98) 1 r.2
        .ok (found.any fun x => x.2.ptr = some 0 ∧ x.2.flags = some oRdwr ∧ r.2.desc.opCounter = true ∧
          r.2.sb = true ∧ r.2.sbCached = true ∧ (r.2.desc.opFtable 0).inodeNr = 1 ∧ (r.2.desc.opFtable 0).offset = 0 ∧
          (r.2.inodes 1).blocks = 1 ∧ (r.2.inodes 1).size = 2 ∧ (w.2.inodes 1).fileSize = 1) : M Bool) =
        .ok true := by decide +kernel
    obtain ⟨⟨r, s⟩, hrun, h⟩ := ExceptLib.bind_eq_ok.mp h
    obtain ⟨found, hfind, h⟩ := ExceptLib.bind_eq_ok.mp h
    obtain ⟨⟨w, t⟩, hw, h⟩ := ExceptLib.bind_eq_ok.mp h
    obtain ⟨⟨b, e⟩, rfl, hall⟩ := (Option.any_eq_true _ _).mp (Except.ok.inj h)
    obtain ⟨hp, hfl, hop, hsb, hsc, hi, ho, hb, hz, ht⟩ := of_decide_eq_true hall
    dsimp only at hp hfl hop hsb hsc hi ho hb hz ht
    have hsize : (s.inodes 1).fileSize = 2 := by simp [Inode.fileSize, hz]
    have hend : s.desc.writeEnd 0 1 = 1 := by
      unfold Desc.writeEnd
      rw [ho]
      rfl
    refine ⟨s, e, Shm.ReachedBy.runCalls (Shm.reachedBy_start (by decide) (by decide)) hrun, ⟨b, hfind, hp⟩,
      ⟨hsb, hop, FdTable.canWrite_of_rdwr hfl, hsc, by rw [hend]; decide, by rw [hi]; decide⟩,
      ⟨by rw [ho]; decide, fun _ => ?_, Or.inl (by rw [ho]; decide)⟩, ?_, ?_⟩
    · rw [hi, ho, hb]
      exact Nat.zero_le _
    · rw [hi, ho]
      exact Nat.zero_le _
    · rintro ⟨t', hrun', hkept⟩
      rw [hw] at hrun'
      cases hrun'
      have hsz : (t.inodes 1).fileSize = max (s.inodes 1).fileSize (0 + 1) := by
        have := hkept.size
        rwa [hi, ho] at this
      rw [ht, hsize] at hsz
      exact absurd hsz (by decide)

end Vsfs
