import Vsfs.Volume.Content
import Vsfs.Volume.Remount

/-!
# Volumes that differ in the free counters only

An unmount and a mount bring the bitmaps and the inode table back as far as the arrays go, and the data region as it
is. `Alike v w` says so of the volume `w` after the volume `v`.

- `Alike.val`, `Alike.used`: the same references are in use and hold the same blocks;
- `Alike.sound`: so the volume is as sound as it was;
- `Alike.fileSize`, `Alike.stat`, `Alike.byteAt`: the files are the same.
-/

set_option autoImplicit false

namespace Vsfs

open Function ByteSeq WordBits PointerForest

/-- `w` is `v` but for the free counters, as far as the arrays go. -/
structure Volume.Alike (v w : Volume) : Prop where
  regions : v.cached.sbi.SameRegions w.cached.sbi
  ibitmap : ∀ k, k < 1024 → w.cached.ibitmap k = v.cached.ibitmap k
  inode : ∀ i, i < nrInodes → (w.inode i).Same (v.inode i)
  dbitmap : ∀ k, k < 1024 * v.cached.sbi.nrDbitmapBlocks → w.cached.dbitmap k = v.cached.dbitmap k
  disk : ∀ l, v.cached.sbi.ofsDregion ≤ l → w.disk l = v.disk l

theorem SbInfo.SameRegions.symm {s t : SbInfo} (h : s.SameRegions t) : t.SameRegions s :=
  ⟨h.magic.symm, h.nrBlocks.symm, h.ofsIbitmap.symm, h.ofsIregion.symm, h.ofsDbitmap.symm, h.ofsDregion.symm,
    h.nrIbitmapBlocks.symm, h.nrIregionBlocks.symm, h.nrDbitmapBlocks.symm, h.nrDregionBlocks.symm⟩

theorem SbInfo.SameRegions.trans {s t u : SbInfo} (h : s.SameRegions t) (h' : t.SameRegions u) : s.SameRegions u :=
  ⟨h'.magic.trans h.magic, h'.nrBlocks.trans h.nrBlocks, h'.ofsIbitmap.trans h.ofsIbitmap,
    h'.ofsIregion.trans h.ofsIregion, h'.ofsDbitmap.trans h.ofsDbitmap, h'.ofsDregion.trans h.ofsDregion,
    h'.nrIbitmapBlocks.trans h.nrIbitmapBlocks, h'.nrIregionBlocks.trans h.nrIregionBlocks,
    h'.nrDbitmapBlocks.trans h.nrDbitmapBlocks, h'.nrDregionBlocks.trans h.nrDregionBlocks⟩

theorem Inode.Same.symm {x y : Inode} (h : x.Same y) : y.Same x :=
  ⟨h.mode.symm, h.blocks.symm, h.size.symm, fun k hk => (h.l1 k hk).symm, fun k hk => (h.l2 k hk).symm, h.l3.symm,
    h.atime.symm, h.ctime.symm, h.mtime.symm⟩

variable {v w x : Volume} {B i k q n : Nat}

theorem Volume.Alike.symm (h : v.Alike w) : w.Alike v := by
  refine ⟨h.regions.symm, fun k hk => (h.ibitmap k hk).symm, fun i hi => (h.inode i hi).symm, fun k hk => ?_,
    fun l hl => ?_⟩
  · rw [h.regions.nrDbitmapBlocks] at hk
    exact (h.dbitmap k hk).symm
  · rw [h.regions.ofsDregion] at hl
    exact (h.disk l hl).symm

theorem Volume.Alike.trans (h : v.Alike w) (h' : w.Alike x) : v.Alike x := by
  refine ⟨h.regions.trans h'.regions, fun k hk => (h'.ibitmap k hk).trans (h.ibitmap k hk),
    fun i hi => (h'.inode i hi).trans (h.inode i hi), fun k hk => ?_, fun l hl => ?_⟩
  · rw [h'.dbitmap k (by rwa [h.regions.nrDbitmapBlocks]), h.dbitmap k hk]
  · rw [h'.disk l (by rwa [h.regions.ofsDregion]), h.disk l hl]

/-! ## References and blocks -/

theorem Volume.Alike.ibit (h : v.Alike w) (hi : i < nrInodes) : bit w.cached.ibitmap i = bit v.cached.ibitmap i := by
  unfold bit
  rw [h.ibitmap _ (by unfold nrInodes at hi; omega)]

theorem Volume.Alike.dbit (h : v.Alike w) (hk : k < 32768 * v.cached.sbi.nrDbitmapBlocks) :
    bit w.cached.dbitmap k = bit v.cached.dbitmap k := by
  unfold bit
  rw [h.dbitmap _ (by omega)]

theorem Volume.Alike.bits (h : v.Alike w) : dbitmapBits w.cached.sbi = dbitmapBits v.cached.sbi := by
  unfold dbitmapBits
  rw [h.regions.nrDregionBlocks, h.regions.nrDbitmapBlocks]

/-- The bits that the allocator reaches are in the array. -/
theorem dbitmapBits_le (s : SbInfo) : dbitmapBits s ≤ 32768 * s.nrDbitmapBlocks := by
  unfold dbitmapBits
  omega

theorem Volume.Alike.used (h : v.Alike w) : w.used = v.used := by
  ext ⟨i, r⟩
  simp only [mem_used]
  exact and_congr_right fun hi => by rw [(h.inode i hi).blocks]

/-- The blocks of the data region are the same. -/
theorem Volume.Alike.disk_lba (h : v.Alike w) (hs : v.cached.sbi.ofsDregion + B ≤ 2 ^ 32) (hk : k < B) :
    w.disk (w.lba k) = v.disk (v.lba k) := by
  rw [lba_congr h.regions.ofsDregion rfl]
  exact h.disk _ (by rw [lba_of_lt hs hk]; exact Nat.le_add_right ..)

/-- **The references in use** hold the same blocks. -/
theorem Volume.Alike.val (h : v.Alike w) (hs : v.Sound B) : ∀ p, p ∈ v.used → w.val p = v.val p := by
  refine (reads_val v).agree (reads_val w) (closed_used v) ?_ ?_
  · rintro ⟨i, r⟩ ⟨hi, hv, hlt⟩ hp
    have hr : r.parent = none := by simpa [refForest] using hp
    have hx := h.inode i hi
    cases r with
    | l2e | l3e | l3d => cases hr
    | l1 k => exact hx.l1 k hv
    | l2 j => exact hx.l2 j hv
    | l3 => exact hx.l3
  · rintro p q hp hq
    unfold Volume.entry
    rw [h.disk_lba hs.owns.addr (hs.owns.owned.lt q (closed_used v p q hp hq))]

theorem Volume.Alike.sound (h : v.Alike w) (hs : v.Sound B) (hB : B ≤ 32768 * v.cached.sbi.nrDbitmapBlocks) :
    w.Sound B := by
  have hval := h.val hs
  have h0 := h.inode 0 (by decide)
  have hB0 : 0 < B := Nat.lt_of_le_of_lt (Nat.zero_le _)
    (hs.owns.owned.lt (0, .l1 0) ⟨by decide, by simp [Ref.Valid], hs.rootBlocks⟩)
  refine ⟨⟨⟨closed_used w, fun p r hp hr => ?_, fun p hp => ?_, fun p hp => ?_⟩, ?_, ?_, ?_⟩, ?_, ?_⟩
  · rw [h.used] at hp hr
    rw [hval p hp, hval r hr]
    exact hs.owns.owned.inj p r hp hr
  · rw [h.used] at hp
    rw [hval p hp]
    exact hs.owns.owned.lt p hp
  · rw [h.used] at hp
    have hlt := hs.owns.owned.lt p hp
    rw [hval p hp, h.dbit (by omega)]
    exact hs.owns.owned.used p hp
  · rw [h.dbit (by omega)]
    exact hs.owns.zero
  · rw [h.regions.ofsDregion]
    exact hs.owns.addr
  · rw [h.bits]
    exact hs.owns.bits
  · rw [h0.blocks]
    exact hs.rootBlocks
  · rw [h0.l1 0 (by omega)]
    exact hs.rootFirst

/-! ## Files -/

theorem Volume.Alike.fileSize (h : v.Alike w) (hi : i < nrInodes) : (w.inode i).fileSize = (v.inode i).fileSize := by
  unfold Inode.fileSize
  rw [(h.inode i hi).size, (h.inode i hi).blocks]

theorem Volume.Alike.stat (h : v.Alike w) (hi : i < nrInodes) : (w.inode i).stat = (v.inode i).stat := by
  have hx := h.inode i hi
  unfold Inode.stat
  rw [h.fileSize hi, hx.mode, hx.blocks, hx.atime, hx.ctime, hx.mtime]

/-- The bytes in the blocks that files have are the same. -/
theorem Volume.Alike.byteAt (h : v.Alike w) (hs : v.Sound B) (hp : (i, dataRef (k / 4096)) ∈ v.used) :
    w.byteAt i k = v.byteAt i k := by
  unfold Volume.byteAt Paged.cell Volume.page
  rw [h.val hs _ hp, h.disk_lba hs.owns.addr (hs.owns.owned.lt _ hp)]

end Vsfs
