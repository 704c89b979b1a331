import Vsfs.Volume.Exclusive

/-!
# What `vsfs_creat` leaves unchanged

`vsfs_creat` puts the new slot into physical block `entry / 16`. As long as that block is the one that `l1[entry / 16]`
of the root names, it writes to the directory and to free blocks only.

- `CreatFrameOk.alloc`: in a sound volume the condition says that the slot's block is no pointer block;
- `CreatDone.frame`: what the call leaves unchanged;
- `creat_touches_no_file`: the same in every run.
-/

set_option autoImplicit false

namespace Vsfs

open Function ByteSeq WordBits

/-- The blocks of files, the directory slots in use, and all blocks but the free ones and the one that takes the new
slot are unchanged. -/
structure CreatFrame (B : Nat) (v w : Volume) : Prop where
  files : ∀ p, p ∈ v.used → p.1 ≠ 0 → w.disk (v.lba (v.val p)) = v.disk (v.lba (v.val p))
  slots : ∀ i, i < (v.inode 0).entry → ∀ k, k < 256 →
    w.disk (v.lba ((v.inode 0).l1 (i / 16))) (256 * (i % 16) + k) =
      v.disk (v.lba ((v.inode 0).l1 (i / 16))) (256 * (i % 16) + k)
  only : ∀ l, w.disk l ≠ v.disk l → l = v.lba ((v.inode 0).l1 ((v.inode 0).entry / 16)) ∨
    ∃ b, b < B ∧ bit v.cached.dbitmap b = true ∧ l = v.lba b

/-- The entries of the directory are in its blocks, and block `entry / 16`, if the directory has a slot left, is the
one that its map names. -/
structure SlotInDirectory (v : Volume) : Prop where
  entry : (v.inode 0).entry ≤ 16 * (v.inode 0).blocks
  blocks : (v.inode 0).blocks ≤ 49
  slot : (v.inode 0).HasSlot → (v.inode 0).l1 ((v.inode 0).entry / 16) = (v.inode 0).entry / 16

/-- `vsfs_creat` finds a free inode and enough free blocks, and puts the slot into a block of the directory; the other
calls that allocate find enough free blocks. -/
def CreatFrameOk (B : Nat) : Call → State → Prop
  | .creat name blockNum, s =>
    Enters name s → InodeFree s ∧ CreatRoom B blockNum.toNat s.vol ∧ SlotInDirectory s.vol
  | .open pathname flags, s => AllocOk B (.open pathname flags) s
  | .stat pathname, s => AllocOk B (.stat pathname) s
  | .close fildes, s => AllocOk B (.close fildes) s
  | .write fildes buf nbyte, s => AllocOk B (.write fildes buf nbyte) s
  | .read fildes buf nbyte, s => AllocOk B (.read fildes buf nbyte) s
  | .lseek fildes offset whence, s => AllocOk B (.lseek fildes offset whence) s

variable {B n : Nat} {s t : State} {c : Call} {v w : Volume}

theorem hasSlot_iff (hb : (v.inode 0).blocks ≤ 49) :
    (v.inode 0).HasSlot ↔ (v.inode 0).entry < 16 * (v.inode 0).blocks := by
  unfold Inode.HasSlot
  omega

/-- The blocks of the directory are in use. -/
theorem directory_used {k : Nat} (hb : (v.inode 0).blocks ≤ 49) (hk : k < (v.inode 0).blocks) : (0, Ref.l1 k) ∈ v.used :=
  ⟨(by decide : 0 < nrInodes), by simp only [Ref.Valid]; omega, hk⟩

/-- A block of the directory is no pointer block. -/
theorem SlotInDirectory.clear (h : SlotInDirectory v) (hs : v.Sound B) : CreatClear v := by
  intro hslot p hp hd he
  have hlt := (hasSlot_iff h.blocks).mp hslot
  have hmem := directory_used (k := (v.inode 0).entry / 16) h.blocks (by omega)
  have hval : v.val (0, .l1 ((v.inode 0).entry / 16)) = (v.inode 0).entry / 16 := h.slot hslot
  have hown := hs.owns.owned
  have hp' := lba_inj hs.owns.addr (hown.lt p hp) (hval ▸ hown.lt _ hmem) he
  rw [hown.inj p _ hp hmem (hp'.trans hval.symm)] at hd
  exact hd trivial

theorem CreatFrameOk.alloc (h : CreatFrameOk B c s) (hs : s.vol.Sound B) : AllocOk B c s := by
  cases c with
  | creat name blockNum =>
    intro he
    obtain ⟨hi, hr, hd⟩ := h he
    exact ⟨hi, hr, hd.clear hs⟩
  | _ => exact h

/-- A block in use is at no address of a free block. -/
theorem used_ne_free {p : Nat × Ref} {a : Nat} (hs : v.Sound B) (hp : p ∈ v.used) (ha : a < B)
    (hb : bit v.cached.dbitmap a = true) : v.lba (v.val p) ≠ v.lba a := by
  intro he
  have := lba_inj hs.owns.addr (hs.owns.owned.lt p hp) ha he
  exact hs.owns.owned.used p hp (this ▸ hb)

/-- The blocks of the directory hold its entries. -/
theorem SlotInDirectory.used {j : Nat} (h : SlotInDirectory v) (hj : j < (v.inode 0).entry) :
    (0, Ref.l1 (j / 16)) ∈ v.used :=
  directory_used h.blocks (by have := h.entry; omega)

/-- Entering a file changes the block of its slot, and blocks that were free. -/
theorem EntryAdded.changed {u : Volume} {now m i d e : Nat} {name : CStr} (hp : Prepared B i v u)
    (ha : EntryAdded B now name m i d e u w) {l : Nat} (hl : l ≠ v.lba d) (hne : w.disk l ≠ v.disk l) :
    ∃ b, b < B ∧ bit v.cached.dbitmap b = true ∧ l = v.lba b := by
  have hlba : ∀ b, u.lba b = v.lba b := fun b => lba_congr hp.evolves.ofsDregion rfl
  obtain ⟨a, hlt, hbit, rfl⟩ := ha.disk l (by
    rw [hlba, writeBlock_disk_of_ne _ _ _ hl, hp.disk]
    exact hne)
  exact ⟨a, hlt, hp.evolves.free a hbit, hlba a⟩

/-- The slot is in its block, which is in use, afterwards. -/
theorem EntryAdded.slot_written {u : Volume} {now m i d e : Nat} {name : CStr} {r : Ref} (hp : Prepared B i v u)
    (hr : (0, r) ∈ u.used) (hd : u.val (0, r) = d) (ha : EntryAdded B now name m i d e u w) :
    w.disk (v.lba d) = setSlot (v.disk (v.lba d)) e i name := by
  have hlba : ∀ b, u.lba b = v.lba b := fun b => lba_congr hp.evolves.ofsDregion rfl
  by_contra hne
  obtain ⟨a, hlt, hbit, he⟩ := ha.disk (v.lba d) (by
    rw [hlba, writeBlock_disk_self, hp.disk]
    exact hne)
  exact used_ne_free hp.evolves.sound hr hlt hbit (by rw [hd, hlba]; exact he)

/-- The slot goes to block `entry / 16`, a block of the directory. -/
theorem EntryAdded.slot_frame {u : Volume} {now m i : Nat} {name : CStr} (hs : v.Sound B)
    (hname : name.strlen < filenameLen) (hd : SlotInDirectory v) (h : (v.inode 0).HasSlot)
    (hp : Prepared B i v u) (hroot : u.inode 0 = v.inode 0)
    (ha : EntryAdded B now name m i ((v.inode 0).entry / 16)
      ((v.inode 0).entry - (v.inode 0).entry / 16 * 16) u w) : CreatFrame B v w := by
  have hown := hs.owns.owned
  have hlt := (hasSlot_iff hd.blocks).mp h
  have hmem := directory_used (k := (v.inode 0).entry / 16) hd.blocks (by omega)
  have hval : v.val (0, .l1 ((v.inode 0).entry / 16)) = (v.inode 0).entry / 16 := hd.slot h
  have hu : (0, Ref.l1 ((v.inode 0).entry / 16)) ∈ u.used :=
    directory_used (by rw [hroot]; exact hd.blocks) (by rw [hroot]; omega)
  have huval : u.val (0, .l1 ((v.inode 0).entry / 16)) = (v.inode 0).entry / 16 := by
    simp only [Volume.val, hroot]
    exact hd.slot h
  have hslot := ha.slot_written hp hu huval
  -- a block in use other than the slot's block is as it was
  have hkeep : ∀ p, p ∈ v.used → p ≠ (0, .l1 ((v.inode 0).entry / 16)) →
      w.disk (v.lba (v.val p)) = v.disk (v.lba (v.val p)) := by
    intro p hpu hne
    by_contra hch
    by_cases hl : v.lba (v.val p) = v.lba ((v.inode 0).entry / 16)
    · have heq := lba_inj hs.owns.addr (hown.lt p hpu) (hval ▸ hown.lt _ hmem) hl
      exact hne (hown.inj p _ hpu hmem (heq.trans hval.symm))
    · obtain ⟨b, hb, hbit, he⟩ := ha.changed hp hl hch
      exact used_ne_free hs hpu hb hbit he
  refine ⟨fun p hpu h0 => hkeep p hpu fun he => h0 (by rw [he]), fun j hj k hk => ?_, fun l hl => ?_⟩
  · by_cases hb : j / 16 = (v.inode 0).entry / 16
    · rw [hb, hd.slot h, hslot]
      exact setSlot_out _ hname (by omega)
    · have := hkeep _ (hd.used hj) (by simpa using hb)
      exact congrFun this _
  · rw [hd.slot h]
    by_cases hl' : l = v.lba ((v.inode 0).entry / 16)
    · exact Or.inl hl'
    · exact Or.inr (ha.changed hp hl' hl)

/-- The slot goes to a block that was free. -/
theorem EntryAdded.grow_frame {u : Volume} {now m i b e : Nat} {name : CStr}
    (hs : v.Sound B) (hd : SlotInDirectory v) (hb : b < B)
    (hbit : bit v.cached.dbitmap b = true) (hp : Prepared B i v u)
    (ha : EntryAdded B now name m i b e u w) : CreatFrame B v w := by
  have hch : ∀ l, w.disk l ≠ v.disk l → ∃ a, a < B ∧ bit v.cached.dbitmap a = true ∧
      l = v.lba a := by
    intro l hl
    by_cases he : l = v.lba b
    · exact ⟨b, hb, hbit, he⟩
    · exact ha.changed hp he hl
  have hkeep : ∀ p, p ∈ v.used → w.disk (v.lba (v.val p)) = v.disk (v.lba (v.val p)) := by
    intro p hpu
    by_contra hne
    obtain ⟨a, hlt, hfree, he⟩ := hch _ hne
    exact used_ne_free hs hpu hlt hfree he
  exact ⟨fun p hpu _ => hkeep p hpu, fun j hj k _ => congrFun (hkeep _ (hd.used hj)) _, fun l hl => Or.inr (hch l hl)⟩

/-- **A `vsfs_creat` that takes an inode**, the slot going to a block of the directory. -/
theorem CreatDone.frame {now m i : Nat} {name : CStr} {ret : Int} (hs : v.Sound B)
    (hname : name.strlen < filenameLen) (hd : SlotInDirectory v)
    (hc : CreatDone B now name m i v w ret) : CreatFrame B v w := by
  cases hc with
  | slot h hp hroot _ ha => exact ha.slot_frame hs hname hd h hp hroot
  | @grow u b h hb hp hroot hl ha =>
    have hmem : (0, Ref.l1 (v.inode 0).blocks) ∈ u.used :=
      directory_used (by rw [hroot]; exact hb) (by rw [hroot]; exact Nat.lt_succ_self _)
    have hval : u.val (0, .l1 (v.inode 0).blocks) = b := by
      simp only [Volume.val, hroot, update_self]
    have hlt := hp.evolves.sound.owns.owned.lt _ hmem
    rw [hval] at hlt
    exact ha.grow_frame hs hd hlt hl.bit hp
  | full h hb hw =>
    subst hw
    exact ⟨fun _ _ _ => rfl, fun _ _ _ _ => rfl, fun l hl => absurd rfl hl⟩

/-! ## The main theorem -/

/-- The condition with the blocks that the device has as the bound. -/
def FrameOk (c : Call) (s : State) : Prop := CreatFrameOk s.vol.cached.sbi.nrDregionBlocks c s

theorem ReachedOn.frame_steady (h : ReachedOn n FrameOk s) :
    Steady (superblockInfo n).nrDregionBlocks (superblockInfo n) s := by
  obtain ⟨hl, hu, disk, seg, hr⟩ := h
  refine hr.invariant (fresh_steady_device hl hu disk seg) fun c u v hP hok hs => ?_
  have hok' : CreatFrameOk (superblockInfo n).nrDregionBlocks c u := by
    rw [← hP.fits.regions.nrDregionBlocks]
    exact hok
  exact hP.step (superblockInfo_layout hl hu).nrIbitmapBlocks (hok'.alloc hP.sound) hs

theorem fresh_slotInDirectory (hl : 2052 ≤ n) (hu : n < 2 ^ 32) (disk : Nat → Block) (seg : Bytes) :
    SlotInDirectory (State.fresh n disk seg).vol := by
  obtain ⟨hrb, hrs, hrf⟩ := fresh_root hl hu disk seg
  refine ⟨?_, by rw [hrb]; decide, fun _ => ?_⟩
  · unfold Inode.entry
    rw [hrb, hrs]
    decide
  · unfold Inode.entry
    rw [hrs]
    exact hrf

/-- **`vsfs_creat` touches no existing file**, in every run whose calls meet the condition. -/
theorem creat_touches_no_file {name : CStr} {blockNum : UInt32} (h : ReachedBy FrameOk s)
    (hc : FrameOk (.creat name blockNum) s) (hs : Step (.creat name blockNum) s t) :
    CreatFrame s.vol.cached.sbi.nrDregionBlocks s.vol t.vol := by
  obtain ⟨n, hn⟩ := h
  have hst := hn.frame_steady
  have hnr := hst.fits.regions.nrDregionBlocks
  rw [← hnr] at hst
  obtain ⟨now, ret, _, hr⟩ := hs
  have hsb := (superblockInfo_layout hn.1 hn.2.1).nrIbitmapBlocks
  rcases creat_steps hst hsb (CreatFrameOk.alloc hc hst.sound) hr with ⟨_, hv, _⟩ | ⟨he, i, _, _, _, hdone⟩
  · rw [hv]
    exact ⟨fun _ _ _ => rfl, fun _ _ _ _ => rfl, fun l hl => absurd rfl hl⟩
  · exact hdone.frame hst.sound he.1 (hc he).2.2

theorem creat_touches_no_file_fresh : ∃ t, Step (.creat (letter 0) 3) (blankVolume 4096) t ∧
    CreatFrame (blankVolume 4096).vol.cached.sbi.nrDregionBlocks (blankVolume 4096).vol t.vol := by
  have h : (do
      let (_, t) ← Call.run 0 (.creat (letter 0) 3) (blankVolume 4096)
      .ok (decide ((t.vol.inode 1).blocks = 3)) : M Bool) = .ok true := by decide +kernel
  obtain ⟨⟨r, t⟩, hrun, _⟩ := ExceptLib.bind_eq_ok.mp h
  have hs : Step (.creat (letter 0) 3) (blankVolume 4096) t := ⟨0, r, by decide, hrun⟩
  have hB : (blankVolume 4096).vol.cached.sbi.nrDregionBlocks = 2045 := by decide +kernel
  obtain ⟨hi, hr⟩ := fresh_creatRoom (B := 2045) (n := 4096) (m := 3) (by decide) (by decide) (fun _ _ => 0) (fun _ => 0)
    (by decide) (by decide)
  exact ⟨t, hs, creat_touches_no_file (reachedBy_blankVolume (by decide) (by decide))
    (fun _ => ⟨hi, by rw [hB]; exact hr, fresh_slotInDirectory (by decide) (by decide) _ _⟩) hs⟩

/-- The first slot of the second directory block goes to that block, which is block 2; the next slot goes to block 1,
which is the data block of the first file. -/
theorem creat_overwrites_file : ∃ s t, Reached s ∧ CreatRoom s.vol.cached.sbi.nrDregionBlocks 0 s.vol ∧
    Step (.creat (letter 20) 0) s t ∧ ¬CreatFrame s.vol.cached.sbi.nrDregionBlocks s.vol t.vol := by
  have h : (do
      let (_, s) ← runCalls growDirectory (0, blankVolume 4096)
      let (_, t) ← Call.run 0 (.creat (letter 20) 0) s
      .ok (decide ((s.vol.inode 0).entry < (s.vol.inode 0).blocks * 16 % 2 ^ 32 ∧ (s.vol.inode 1).blocks = 1 ∧
        t.vol.disk (s.vol.lba ((s.vol.inode 1).l1 0)) 256 ≠ s.vol.disk (s.vol.lba ((s.vol.inode 1).l1 0)) 256)) :
        M Bool) = .ok true := by decide +kernel
  obtain ⟨⟨r, s⟩, hrun, h⟩ := ExceptLib.bind_eq_ok.mp h
  obtain ⟨⟨r', t⟩, hcall, h⟩ := ExceptLib.bind_eq_ok.mp h
  obtain ⟨hslot, hb, hne⟩ := of_decide_eq_true (Except.ok.inj h)
  refine ⟨s, t, ReachedBy.runCalls (reachedBy_blankVolume (by decide) (by decide)) hrun,
    ⟨fun _ => Nat.zero_le _, fun hno => absurd hslot hno⟩, ⟨0, r', by decide, hcall⟩, fun hf => hne ?_⟩
  have hmem : (1, Ref.l1 0) ∈ s.vol.used := ⟨(by decide : 1 < nrInodes), by simp [Ref.Valid], by rw [hb]; decide⟩
  exact congrFun (hf.files _ hmem (by decide)) 256

end Vsfs
