import Vsfs.Model.System
import Vsfs.Volume.Fresh

/-!
# Unmounting and mounting again

The calls change the segment; `c.store` are its bytes when the cached data is `c`. Unmounting writes the bitmaps and
the inode region back but not the superblock, so what a mount restores is all but the superblock info.

- `load_store`: the bytes of the segment represent the cached data;
- `remount_bytes`: after an unmount and a mount the segment holds the bytes it held, but for the superblock info;
- `remount_restores_iff`: the cached data is restored exactly when the superblock on the device is up to date.
-/

set_option autoImplicit false

namespace Vsfs

open ByteSeq GuardedRun

/-! ## The bytes of the segment -/

/-- Byte `k` of a `struct vsfs_inode`. -/
def Inode.byteAt (x : Inode) (k : Nat) : UInt8 :=
  if k < 12 then byteOf ([x.mode, x.blocks, x.size].getD (k / 4) 0) (k % 4)
  else if k < 208 then byteOf (x.l1 ((k - 12) / 4)) ((k - 12) % 4)
  else if k < 228 then byteOf (x.l2 ((k - 208) / 4)) ((k - 208) % 4)
  else if k < 232 then byteOf x.l3 (k - 228)
  else byteOf ([x.atime, x.ctime, x.mtime].getD ((k - 232) / 8) 0) ((k - 232) % 8)

/-- The segment that holds the cached data. -/
def Cached.store (c : Cached) : Bytes := fun k =>
  if k < 48 then byteOf (c.sbi.fields.getD (k / 4) 0) (k % 4)
  else if k < 4144 then byteOf (c.ibitmap ((k - 48) / 4)).toNat ((k - 48) % 4)
  else if k < 8392752 then (c.inodeReg ((k - 4144) / 256)).byteAt ((k - 4144) % 256)
  else byteOf (c.dbitmap ((k - 8392752) / 4)).toNat ((k - 8392752) % 4)

/-- Equal as far as the arrays of an inode go. -/
structure Inode.Same (x y : Inode) : Prop where
  mode : x.mode = y.mode
  blocks : x.blocks = y.blocks
  size : x.size = y.size
  l1 : ∀ k, k < 49 → x.l1 k = y.l1 k
  l2 : ∀ k, k < 5 → x.l2 k = y.l2 k
  l3 : x.l3 = y.l3
  atime : x.atime = y.atime
  ctime : x.ctime = y.ctime
  mtime : x.mtime = y.mtime

/-- Equal in every field, as far as the arrays go. -/
structure Cached.Same (c c' : Cached) : Prop where
  sbi : c.sbi = c'.sbi
  ibitmap : ∀ w, w < 1024 → c.ibitmap w = c'.ibitmap w
  inodeReg : ∀ i, i < 32768 → (c.inodeReg i).Same (c'.inodeReg i)
  dbitmap : ∀ w, w < 1024 * c'.sbi.nrDbitmapBlocks → c.dbitmap w = c'.dbitmap w

/-- The inode at `o` of a buffer that holds its bytes there. -/
theorem load_inode {b : Bytes} {o : Nat} {x : Inode} (hx : x.Fits) (h : ∀ k, k < 256 → b (o + k) = x.byteAt k) :
    (Inode.load b o).Same x := by
  have hword : ∀ j v, j + 4 ≤ 256 → v < 2 ^ 32 → (∀ k, k < 4 → x.byteAt (j + k) = byteOf v k) → u32 b (o + j) = v := by
    intro j v hj hv hb
    rw [u32_of_bytes (v := v) fun k hk => by rw [Nat.add_assoc, h (j + k) (by omega), hb k hk]]
    exact Nat.mod_eq_of_lt hv
  have htime : ∀ j v, j + 8 ≤ 256 → v < 2 ^ 64 → (∀ k, k < 8 → x.byteAt (j + k) = byteOf v k) → u64 b (o + j) = v := by
    intro j v hj hv hb
    rw [u64_of_bytes (v := v) fun k hk => by rw [Nat.add_assoc, h (j + k) (by omega), hb k hk]]
    exact Nat.mod_eq_of_lt hv
  -- the words before the arrays, and the times behind them
  have hhead : ∀ i, i < 3 → ∀ k, k < 4 →
      x.byteAt (4 * i + k) = byteOf ([x.mode, x.blocks, x.size].getD i 0) k := by
    intro i hi k hk
    unfold Inode.byteAt
    rw [if_pos (by omega), show (4 * i + k) / 4 = i by omega, show (4 * i + k) % 4 = k by omega]
  have htail : ∀ i, i < 3 → ∀ k, k < 8 →
      x.byteAt (232 + 8 * i + k) = byteOf ([x.atime, x.ctime, x.mtime].getD i 0) k := by
    intro i hi k hk
    unfold Inode.byteAt
    rw [if_neg (by omega), if_neg (by omega), if_neg (by omega), if_neg (by omega),
      show (232 + 8 * i + k - 232) / 8 = i by omega, show (232 + 8 * i + k - 232) % 8 = k by omega]
  refine ⟨hword 0 _ (by omega) hx.mode (hhead 0 (by omega)), hword 4 _ (by omega) hx.blocks (hhead 1 (by omega)),
    hword 8 _ (by omega) hx.size (hhead 2 (by omega)), fun i hi => ?_, fun i hi => ?_,
    hword 228 _ (by omega) hx.l3 fun k hk => ?_, htime 232 _ (by omega) hx.atime (htail 0 (by omega)),
    htime 240 _ (by omega) hx.ctime (htail 1 (by omega)), htime 248 _ (by omega) hx.mtime (htail 2 (by omega))⟩
  · refine Eq.trans (congrArg (u32 b) (Nat.add_assoc ..)) (hword (12 + 4 * i) _ (by omega) (hx.l1 i) fun k hk => ?_)
    unfold Inode.byteAt
    rw [if_neg (by omega), if_pos (by omega), show (12 + 4 * i + k - 12) / 4 = i by omega,
      show (12 + 4 * i + k - 12) % 4 = k by omega]
  · refine Eq.trans (congrArg (u32 b) (Nat.add_assoc ..)) (hword (208 + 4 * i) _ (by omega) (hx.l2 i) fun k hk => ?_)
    unfold Inode.byteAt
    rw [if_neg (by omega), if_neg (by omega), if_pos (by omega), show (208 + 4 * i + k - 208) / 4 = i by omega,
      show (208 + 4 * i + k - 208) % 4 = k by omega]
  · unfold Inode.byteAt
    rw [if_neg (by omega), if_neg (by omega), if_neg (by omega), if_pos (by omega), Nat.add_sub_cancel_left]

/-- The segment as the calls see it. -/
theorem load_offsets (seg : Bytes) : (Cached.load seg).ibitmap = (fun w => BitVec.ofNat 32 (u32 seg (48 + 4 * w))) ∧
    (Cached.load seg).inodeReg = (fun i => Inode.load seg (4144 + 256 * i)) ∧
    (Cached.load seg).dbitmap = fun w => BitVec.ofNat 32 (u32 seg (8392752 + 4 * w)) := ⟨rfl, rfl, rfl⟩

/-- A word of a bitmap from its bytes. -/
theorem word_of_bytes {seg : Bytes} {o : Nat} {w : BitVec 32} (h : ∀ k, k < 4 → seg (o + k) = byteOf w.toNat k) :
    BitVec.ofNat 32 (u32 seg o) = w := by
  rw [u32_of_bytes h]
  exact BitVec.eq_of_toNat_eq (by simp [Nat.mod_eq_of_lt w.isLt])

/-- Two segments with the same bytes behind the superblock info hold the same bitmaps and inodes. -/
theorem load_same {seg seg' : Bytes} {d : Nat} (hs : SbInfo.load seg = SbInfo.load seg')
    (hd : (SbInfo.load seg').nrDbitmapBlocks = d)
    (h : ∀ k, 48 ≤ k → k < 8392752 + 4096 * d → seg k = seg' k) : (Cached.load seg).Same (Cached.load seg') := by
  have hword : ∀ o, 48 ≤ o → o + 4 ≤ 8392752 + 4096 * d → u32 seg o = u32 seg' o := fun o ho hl =>
    u32_congr fun k hk => h _ (by omega) (by omega)
  have htime : ∀ o, 48 ≤ o → o + 8 ≤ 8392752 + 4096 * d → u64 seg o = u64 seg' o := fun o ho hl =>
    u64_congr fun k hk => h _ (by omega) (by omega)
  refine ⟨hs, fun w hw => ?_, fun i hi => ?_, fun w hw => ?_⟩
  · simp only [load_offsets]
    rw [hword _ (by omega) (by omega)]
  · simp only [load_offsets]
    refine ⟨hword _ (by omega) (by omega), hword _ (by omega) (by omega), hword _ (by omega) (by omega),
      fun k hk => hword _ (by omega) (by omega), fun k hk => hword _ (by omega) (by omega),
      hword _ (by omega) (by omega), htime _ (by omega) (by omega), htime _ (by omega) (by omega),
      htime _ (by omega) (by omega)⟩
  · have hw' : w < 1024 * d := hd ▸ hw
    simp only [load_offsets]
    rw [hword _ (by omega) (by omega)]

/-- The superblock info at the start of the segment. -/
theorem load_store_sbi (c : Cached) (h : ∀ v ∈ c.sbi.fields, v < 2 ^ 32) : SbInfo.load c.store = c.sbi := by
  refine SbInfo.load_eq fun i hi => ?_
  rw [u32_of_bytes (v := c.sbi.fields.getD i 0) fun k hk => by
    unfold Cached.store
    rw [if_pos (by omega), show (4 * i + k) / 4 = i by omega, show (4 * i + k) % 4 = k by omega]]
  exact SbInfo.fields_getD_mod h hi

/-- **The segment represents the cached data.** -/
theorem load_store {c : Cached} (hs : ∀ v ∈ c.sbi.fields, v < 2 ^ 32) (hi : ∀ i, (c.inodeReg i).Fits) :
    (Cached.load c.store).Same c := by
  refine ⟨load_store_sbi c hs, fun w hw => ?_, fun i hin => ?_, fun w _ => ?_⟩
  · simp only [load_offsets]
    refine word_of_bytes fun k hk => ?_
    unfold Cached.store
    rw [if_neg (by omega), if_pos (by omega), show (48 + 4 * w + k - 48) / 4 = w by omega,
      show (48 + 4 * w + k - 48) % 4 = k by omega]
  · simp only [load_offsets]
    refine load_inode (hi i) fun k hk => ?_
    unfold Cached.store
    rw [if_neg (by omega), if_neg (by omega), if_pos (by omega), show (4144 + 256 * i + k - 4144) / 256 = i by omega,
      show (4144 + 256 * i + k - 4144) % 256 = k by omega]
  · simp only [load_offsets]
    refine word_of_bytes fun k hk => ?_
    unfold Cached.store
    rw [if_neg (by omega), if_neg (by omega), if_neg (by omega), show (8392752 + 4 * w + k - 8392752) / 4 = w by omega,
      show (8392752 + 4 * w + k - 8392752) % 4 = k by omega]

theorem Inode.Same.trans {x y z : Inode} (h : x.Same y) (h' : y.Same z) : x.Same z :=
  ⟨h.mode.trans h'.mode, h.blocks.trans h'.blocks, h.size.trans h'.size, fun k hk => (h.l1 k hk).trans (h'.l1 k hk),
    fun k hk => (h.l2 k hk).trans (h'.l2 k hk), h.l3.trans h'.l3, h.atime.trans h'.atime, h.ctime.trans h'.ctime,
    h.mtime.trans h'.mtime⟩

theorem Cached.Same.trans {a b c : Cached} (h : a.Same b) (h' : b.Same c) : a.Same c :=
  ⟨h.sbi.trans h'.sbi, fun w hw => (h.ibitmap w hw).trans (h'.ibitmap w hw),
    fun i hi => (h.inodeReg i hi).trans (h'.inodeReg i hi),
    fun w hw => (h.dbitmap w (by rw [h'.sbi]; exact hw)).trans (h'.dbitmap w hw)⟩

/-! ## Unmount and mount -/

/-- After an unmount and a mount the segment holds the bytes it held, but for the superblock info, which is that of
block 0 of the device. -/
theorem remount_bytes {disk : Nat → Block} {seg old sb : Bytes} {d : Nat} (h : (SbInfo.load seg).Layout d)
    (h0 : (SbInfo.load sb).Layout d) {k : Nat} (hk : 48 ≤ k) (hlt : k < 8392752 + 4096 * d) :
    makeShmCached (unmountVsfs seg disk) sb old k = seg k := by
  by_cases h1 : k < 4144
  · obtain ⟨j, rfl⟩ := Nat.exists_eq_add_of_le hk
    rw [makeShmCached_ibitmap h0 (by omega), unmountVsfs_ibitmap h (by omega)]
  · by_cases h2 : k < 8392752
    · obtain ⟨j, rfl⟩ := Nat.exists_eq_add_of_le (Nat.le_of_not_lt h1)
      rw [makeShmCached_iregion h0 (by omega), unmountVsfs_iregion h (by omega)]
    · obtain ⟨j, rfl⟩ := Nat.exists_eq_add_of_le (Nat.le_of_not_lt h2)
      rw [makeShmCached_dbitmap h0 (by omega), unmountVsfs_dbitmap h (by omega)]

/-- Unmounting and mounting again brings the cached data `c` back: whatever segment holds it when the volume is
unmounted, and whatever the segment of the second mount holds before it. -/
def Restored (c : Cached) (disk : Nat → Block) : Prop :=
  ∀ seg old, (Cached.load seg).Same c → (mountVsfs (unmountVsfs seg disk) old).1 = 0 ∧
    (Cached.load (mountVsfs (unmountVsfs seg disk) old).2).Same c

section

variable {n : Nat}

/-- The regions of the cached data are those of the device. -/
theorem Cached.Fits.layout {c : Cached} (hl : 2052 ≤ n) (hu : n < 2 ^ 32) (h : c.Fits (superblockInfo n)) :
    c.sbi.Layout (dbitmapBlocks n) := by
  have hs := superblockInfo_layout hl hu
  have hr := h.regions
  exact ⟨hr.ofsIbitmap.trans hs.ofsIbitmap, hr.ofsIregion.trans hs.ofsIregion, hr.ofsDbitmap.trans hs.ofsDbitmap,
    hr.nrIbitmapBlocks.trans hs.nrIbitmapBlocks, hr.nrIregionBlocks.trans hs.nrIregionBlocks,
    hr.nrDbitmapBlocks.trans hs.nrDbitmapBlocks, hs.bound⟩

/-- Every member of the superblock info of the cached data is a `uint32_t`. -/
theorem Cached.Fits.fields_lt {c : Cached} (hl : 2052 ≤ n) (hu : n < 2 ^ 32) (h : c.Fits (superblockInfo n)) :
    ∀ v ∈ c.sbi.fields, v < 2 ^ 32 := by
  have hs := superblockInfo_fields_lt hl hu
  obtain ⟨h1, h2, h3, h4, h5, h6, h7, h8, h9, h10⟩ := h.regions
  simp only [SbInfo.fields, List.forall_mem_cons, List.not_mem_nil, false_implies, implies_true, and_true] at hs ⊢
  rw [h1, h2, h3, h4, h5, h6, h7, h8, h9, h10]
  obtain ⟨k1, k2, k3, k4, k5, k6, k7, k8, k9, k10, -⟩ := hs
  exact ⟨k1, k2, k3, k4, k5, k6, k7, k8, k9, k10, h.nrFreeInodes, h.nrFreeDblock⟩

/-- The magic number is that of the file system. -/
theorem Cached.Fits.magic {c : Cached} (h : c.Fits (superblockInfo n)) : c.sbi.magic = vsfsMagic :=
  h.regions.magic

/-- A mount after an unmount finds the superblock of block 0. -/
theorem mountVsfs_unmountVsfs {disk : Nat → Block} {seg old : Bytes} {d : Nat} (h : (SbInfo.load seg).Layout d) :
    mountVsfs (unmountVsfs seg disk) old = if (SbInfo.load (disk 0)).magic ≠ vsfsMagic then (1, old) else
      (0, makeShmCached (unmountVsfs seg disk) (readSpdk (unmountVsfs seg disk) 0 1 dmaBuffer) old) := by
  unfold mountVsfs
  simp only [load_readSpdk, unmountVsfs_zero h]

theorem restored_iff {c : Cached} {disk : Nat → Block} (hl : 2052 ≤ n) (hu : n < 2 ^ 32)
    (h : c.Fits (superblockInfo n)) : Restored c disk ↔ SbInfo.load (disk 0) = c.sbi := by
  constructor
  · intro hr
    have hc := load_store (h.fields_lt hl hu) h.inode
    have hlay : (SbInfo.load c.store).Layout (dbitmapBlocks n) := by
      rw [show SbInfo.load c.store = c.sbi from hc.sbi]
      exact h.layout hl hu
    obtain ⟨hret, hsame⟩ := hr c.store (fun _ => 0) hc
    rw [mountVsfs_unmountVsfs hlay] at hret hsame
    by_cases hm : (SbInfo.load (disk 0)).magic ≠ vsfsMagic
    · rw [if_pos hm] at hret
      contradiction
    · rw [if_neg hm] at hsame
      dsimp only at hsame
      -- the superblock info of the second mount is that of block 0, whatever its regions are
      have hsb : SbInfo.load (makeShmCached (unmountVsfs c.store disk)
          (readSpdk (unmountVsfs c.store disk) 0 1 dmaBuffer) fun _ => 0) = c.sbi := hsame.sbi
      rwa [load_congr fun k hk => makeShmCached_sb hk, load_readSpdk, unmountVsfs_zero hlay] at hsb
  · intro h0 seg old hseg
    have hsb : SbInfo.load seg = c.sbi := hseg.sbi
    have hlay : (SbInfo.load seg).Layout (dbitmapBlocks n) := by
      rw [hsb]
      exact h.layout hl hu
    rw [mountVsfs_unmountVsfs hlay, if_neg (by rw [h0, h.magic]; simp)]
    have hread : SbInfo.load (readSpdk (unmountVsfs seg disk) 0 1 dmaBuffer) = c.sbi := by
      rw [load_readSpdk, unmountVsfs_zero hlay, h0]
    have hlay' : (SbInfo.load (readSpdk (unmountVsfs seg disk) 0 1 dmaBuffer)).Layout (dbitmapBlocks n) := by
      rw [hread]
      exact h.layout hl hu
    have hd : (SbInfo.load seg).nrDbitmapBlocks = dbitmapBlocks n := hlay.nrDbitmapBlocks
    have hsame : (Cached.load (makeShmCached (unmountVsfs seg disk) (readSpdk (unmountVsfs seg disk) 0 1 dmaBuffer)
        old)).Same (Cached.load seg) := by
      have hinfo : SbInfo.load (makeShmCached (unmountVsfs seg disk) (readSpdk (unmountVsfs seg disk) 0 1 dmaBuffer)
          old) = SbInfo.load seg := by
        rw [hsb, ← hread]
        exact load_congr fun k hk => makeShmCached_sb hk
      exact load_same hinfo hd fun k hk hlt => remount_bytes hlay hlay' hk hlt
    dsimp only
    exact ⟨rfl, Cached.Same.trans hsame hseg⟩

end

/-- The cached data of a reached state is in range and describes the regions of the device. -/
theorem Reached.fits {s : State} (h : Reached s) : ∃ n, 2052 ≤ n ∧ n < 2 ^ 32 ∧ s.vol.cached.Fits (superblockInfo n) := by
  obtain ⟨n, hl, hu, disk, seg, hr⟩ := h
  exact ⟨n, hl, hu, hr.invariant (fresh_fits hl hu disk seg) fun c u v hf _ hs => hs.fits hf⟩

/-- **Unmounting and mounting again** restores the cached data exactly when block 0 of the device, which an unmount
does not write, holds the superblock info of the cached data. -/
theorem remount_restores_iff {s : State} (h : Reached s) :
    Restored s.vol.cached s.vol.disk ↔ SbInfo.load (s.vol.disk 0) = s.vol.cached.sbi := by
  obtain ⟨n, hl, hu, hf⟩ := h.fits
  exact restored_iff hl hu hf

/-- On a volume just formatted the cached data is restored. -/
theorem remount_restores_iff_fresh : Reached (blankVolume 4096) ∧
    Restored (blankVolume 4096).vol.cached (blankVolume 4096).vol.disk :=
  ⟨reachedBy_blankVolume (by decide) (by decide),
    (remount_restores_iff (reachedBy_blankVolume (by decide) (by decide))).mpr (by decide +kernel)⟩

/-- Once a file has been created, the number of free inodes comes back as it was before. -/
theorem remount_forgets_counters : ∃ s, Reached s ∧ ¬Restored s.vol.cached s.vol.disk := by
  have h : (do
      let (_, s) ← runCalls [.creat ⟨[97], by decide⟩ 0] (0, blankVolume 4096)
      .ok (decide (SbInfo.load (s.vol.disk 0) ≠ s.vol.cached.sbi)) : M Bool) = .ok true := by decide +kernel
  obtain ⟨⟨r, s⟩, hrun, hne⟩ := ExceptLib.bind_eq_ok.mp h
  have hs : Reached s := ReachedBy.runCalls (reachedBy_blankVolume (by decide) (by decide)) hrun
  obtain ⟨n, hl, hu, hf⟩ := hs.fits
  exact ⟨s, hs, fun hr => of_decide_eq_true (Except.ok.inj hne) ((restored_iff hl hu hf).mp hr)⟩

end Vsfs
