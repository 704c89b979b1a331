import Vsfs.Lib.WordBits
import Vsfs.Volume.Geometry
import Vsfs.Volume.Updates

/-!
# A freshly formatted and mounted volume

What `init_vsfs` has written to each region (`formatDevice_superblock`, `formatDevice_ibitmap`, `formatDevice_iregion`,
`formatDevice_dbitmap`, `formatDevice_root`), and what a mount then finds: the superblock info that was computed
(`fresh_sbi`), bitmaps with bit 0 cleared only (`fresh_ibitmap`, `fresh_dbitmap`), a root inode and zeroed others
(`fresh_root`, `fresh_inode`), and the two entries of the root directory (`fresh_dir`). All of it depends on the number
of blocks that `write_superblock` computes only (`formatDevice_congr`, `fresh_of_initVsfs`).
-/

set_option autoImplicit false

namespace Vsfs

open ByteSeq WordBits

section

variable {n : Nat} (hl : 2052 ≤ n) (hu : n < 2 ^ 32) (disk : Nat → Block) (seg : Bytes)

/-! ## The device -/

theorem deviceBlocks_blockSize (h : n < 2 ^ 32) : deviceBlocks blockSize n = n := by
  unfold deviceBlocks blockSize
  omega

/-- The device enters by the number of blocks that `write_superblock` computes for it. -/
theorem formatDevice_congr {b d b' d' : Nat} (h : deviceBlocks b d = deviceBlocks b' d') :
    formatDevice b d disk = formatDevice b' d' disk := by
  unfold formatDevice writeSuperblock
  rw [h]

/-- A volume that `init_vsfs` has formatted is a fresh volume with the number of blocks that was computed. -/
theorem fresh_of_initVsfs (ns : Namespace) :
    State.start (mountVsfs (initVsfs ns disk) seg).2 (initVsfs ns disk) =
      State.fresh (deviceBlocks ns.sectorSize ns.size) disk seg := by
  have hsame : initVsfs ns disk = formatDevice blockSize (deviceBlocks ns.sectorSize ns.size) disk :=
    formatDevice_congr disk (deviceBlocks_blockSize (Nat.mod_lt _ (by decide))).symm
  rw [hsame]
  rfl

include hl hu in
/-- The five regions that formatting writes. -/
theorem formatDevice_eq : formatDevice blockSize n disk =
    writeSpdk (writeSpdk (writeSpdk (writeSpdk (writeSpdk (writeSpdk (writeSpdk disk 0 1
      (putWords dmaBuffer 0 (superblockInfo n).fields)) 1 1 fullBitmap) 2 1 rootInodeBlock) 3 2047 dmaBuffer)
      2050 1 fullBitmap) 2051 (dbitmapBlocks n - 1) (fill dmaBuffer 0 255 (4096 * (dbitmapBlocks n - 1))))
      (2050 + dbitmapBlocks n) 1 rootDirBlock := by
  obtain ⟨hd1, hd2, hd3, _⟩ := dbitmapBlocks_bounds hl hu
  have hn := deviceBlocks_blockSize hu
  have hir : sub32 (superblockInfo n).nrIregionBlocks 1 = 2047 := by
    simp only [superblockInfo_eq hl hu]
    exact sub32_of_le (by omega) (by omega)
  have hdb : sub32 (superblockInfo n).nrDbitmapBlocks 1 = dbitmapBlocks n - 1 := by
    simp only [superblockInfo_eq hl hu]
    exact sub32_of_le hd1 (by omega)
  unfold formatDevice writeSuperblock writeInodeBitmap writeInodeRegion writeDataBitmap writeDataRegion
  simp only [hn, hir, hdb, Nat.zero_add, Nat.reduceAdd]
  rw [show 2050 + 1 + (dbitmapBlocks n - 1) = 2050 + dbitmapBlocks n by omega]
  rfl

include hl hu in
theorem formatDevice_superblock : formatDevice blockSize n disk 0 = putWords dmaBuffer 0 (superblockInfo n).fields := by
  obtain ⟨hd1, _⟩ := dbitmapBlocks_bounds hl hu
  rw [formatDevice_eq hl hu, writeSpdk_out (by omega), writeSpdk_out (by omega), writeSpdk_out (by omega),
    writeSpdk_out (by omega), writeSpdk_out (by omega), writeSpdk_out (by omega)]
  funext k
  rw [writeSpdk_in (by omega)]
  congr 1
  omega

include hl hu in
theorem formatDevice_ibitmap : formatDevice blockSize n disk 1 = fullBitmap := by
  obtain ⟨hd1, _⟩ := dbitmapBlocks_bounds hl hu
  rw [formatDevice_eq hl hu, writeSpdk_out (by omega), writeSpdk_out (by omega), writeSpdk_out (by omega),
    writeSpdk_out (by omega), writeSpdk_out (by omega)]
  funext k
  rw [writeSpdk_in (by omega)]
  congr 1
  omega

include hl hu in
theorem formatDevice_iregion {l : Nat} (h : 2 ≤ l ∧ l < 2050) :
    formatDevice blockSize n disk l = if l = 2 then rootInodeBlock else dmaBuffer := by
  obtain ⟨hd1, _⟩ := dbitmapBlocks_bounds hl hu
  rw [formatDevice_eq hl hu, writeSpdk_out (by omega), writeSpdk_out (by omega), writeSpdk_out (by omega)]
  by_cases h2 : l = 2
  · subst h2
    rw [writeSpdk_out (by omega), if_pos rfl]
    funext k
    rw [writeSpdk_in (by omega)]
    congr 1
    omega
  · rw [if_neg h2]
    funext k
    rw [writeSpdk_in (by omega)]
    rfl

include hl hu in
theorem formatDevice_dbitmap {l k : Nat} (h : 2050 ≤ l ∧ l < 2050 + dbitmapBlocks n) (hk : k < 4096) :
    formatDevice blockSize n disk l k = if l = 2050 then fullBitmap k else 255 := by
  obtain ⟨hd1, _⟩ := dbitmapBlocks_bounds hl hu
  rw [formatDevice_eq hl hu, writeSpdk_out (by omega)]
  by_cases h2 : l = 2050
  · subst h2
    rw [writeSpdk_out (by omega), if_pos rfl, writeSpdk_in (by omega)]
    congr 1
    omega
  · rw [if_neg h2, writeSpdk_in (by omega)]
    unfold fill
    rw [copy_at (by omega)]

include hl hu in
theorem formatDevice_root : formatDevice blockSize n disk (2050 + dbitmapBlocks n) = rootDirBlock := by
  rw [formatDevice_eq hl hu]
  funext k
  rw [writeSpdk_in (by omega)]
  congr 1
  omega

/-! ## The cached data -/

theorem u32_putWords_out {b : Bytes} {o p : Nat} {vs : List Nat} (h : p + 4 ≤ o) : u32 (putWords b o vs) p = u32 b p := by
  induction vs generalizing b o with
  | nil => rfl
  | cons v vs ih =>
    rw [putWords, ih (by omega)]
    exact u32_copy_out (Or.inl h)

/-- Word `j` of a sequence of words stored one after the other. -/
theorem u32_putWords {b : Bytes} {o j : Nat} {vs : List Nat} (h : j < vs.length) :
    u32 (putWords b o vs) (o + 4 * j) = vs.getD j 0 % 2 ^ 32 := by
  induction vs generalizing b o j with
  | nil => simp at h
  | cons v vs ih =>
    cases j with
    | zero =>
      rw [putWords, u32_putWords_out (by omega)]
      exact u32_putU32 ..
    | succ j =>
      have := ih (b := putU32 b o v) (o := o + 4) (j := j) (by simpa using h)
      rw [putWords, show o + 4 * (j + 1) = o + 4 + 4 * j by omega, this]
      rfl

include hl hu in
/-- Formatting stores the superblock info that it has computed. -/
theorem load_formatDevice : SbInfo.load (formatDevice blockSize n disk 0) = superblockInfo n := by
  rw [formatDevice_superblock hl hu]
  refine SbInfo.load_eq fun i hi => ?_
  have hlen : i < (superblockInfo n).fields.length := hi
  have h := u32_putWords (b := dmaBuffer) (o := 0) hlen
  rw [Nat.zero_add] at h
  rw [h, SbInfo.fields_getD_mod (superblockInfo_fields_lt hl hu) hi]

include hl hu in
/-- The segment of a freshly formatted and mounted volume. -/
theorem mountVsfs_formatDevice : (mountVsfs (formatDevice blockSize n disk) seg).2 =
    makeShmCached (formatDevice blockSize n disk) (readSpdk (formatDevice blockSize n disk) 0 1 dmaBuffer) seg := by
  unfold mountVsfs
  simp only [load_readSpdk, load_formatDevice hl hu]
  rw [if_neg (by rw [superblockInfo_eq hl hu]; simp)]

include hl hu in
/-- The superblock that the mount read has the layout of `n`. -/
theorem mount_layout : (SbInfo.load (readSpdk (formatDevice blockSize n disk) 0 1 dmaBuffer)).Layout (dbitmapBlocks n) := by
  rw [load_readSpdk, load_formatDevice hl hu]
  exact superblockInfo_layout hl hu

include hl hu in
theorem fresh_seg : (State.fresh n disk seg).vol.cached =
    Cached.load (makeShmCached (formatDevice blockSize n disk) (readSpdk (formatDevice blockSize n disk) 0 1 dmaBuffer) seg) := by
  rw [← mountVsfs_formatDevice hl hu]
  rfl

include hl hu in
theorem fresh_sbi : (State.fresh n disk seg).vol.cached.sbi = superblockInfo n := by
  rw [fresh_seg hl hu]
  refine (load_congr fun k hk => makeShmCached_sb hk).trans ?_
  rw [load_readSpdk, load_formatDevice hl hu]

/-- The bytes of a bitmap whose bit 0 is cleared. -/
theorem fullBitmap_at {k : Nat} (h : k < 4096) : fullBitmap k = if k = 0 then 254 else 255 := by
  unfold fullBitmap putU64
  by_cases h8 : k < 8
  · rw [copy_at (by omega), Nat.sub_zero]
    exact (by decide : ∀ k, k < 8 → byteOf 0xfffffffffffffffe k = if k = 0 then 254 else 255) k h8
  · unfold fill
    rw [copy_out (by omega), copy_at (by unfold blockSize; omega), if_neg (by omega)]

theorem load_fits (b : Bytes) (o : Nat) : (Inode.load b o).Fits :=
  ⟨u32_lt _ _, u32_lt _ _, u32_lt _ _, fun _ => u32_lt _ _, fun _ => u32_lt _ _, u32_lt _ _, u64_lt _ _, u64_lt _ _,
    u64_lt _ _⟩

include hl hu in
theorem fresh_fits : (State.fresh n disk seg).vol.cached.Fits (superblockInfo n) := by
  refine ⟨?_, ?_, ?_, fun i => ?_⟩
  · rw [fresh_sbi hl hu]
    exact ⟨rfl, rfl, rfl, rfl, rfl, rfl, rfl, rfl, rfl, rfl⟩
  · rw [fresh_seg hl hu]
    exact u32_lt _ _
  · rw [fresh_seg hl hu]
    exact u32_lt _ _
  · rw [fresh_seg hl hu]
    exact load_fits _ _

/-- A bitmap stored at `o` with all its bits set but for bit 0. -/
theorem bit_of_full {b : Bytes} {o m i : Nat} (h : ∀ k, k < 4 * m → b (o + k) = if k = 0 then 254 else 255)
    (hi : i < 32 * m) : bit (fun w => BitVec.ofNat 32 (u32 b (o + 4 * w))) i = decide (i ≠ 0) := by
  have hlt : i % 32 < 32 := Nat.mod_lt _ (by decide)
  unfold bit
  by_cases h0 : i / 32 = 0
  · have hw : u32 b (o + 4 * (i / 32)) = 0xfffffffe := by
      refine u32_of_bytes (v := 0xfffffffe) fun k hk => ?_
      rw [Nat.add_assoc, h _ (by omega), h0]
      exact (by decide : ∀ k, k < 4 → (if 4 * 0 + k = 0 then 254 else 255) = byteOf 0xfffffffe k) k hk
    have hbits : ∀ j, j < 32 → (0xfffffffe#32).getLsbD j = decide (j ≠ 0) := by decide
    simp only [hw]
    rw [hbits _ hlt, show i % 32 = i by omega]
  · have hw : u32 b (o + 4 * (i / 32)) = 0xffffffff := by
      refine u32_of_bytes (v := 0xffffffff) fun k hk => ?_
      rw [Nat.add_assoc, h _ (by omega), if_neg (by omega)]
      exact (by decide : ∀ k, k < 4 → 255 = byteOf 0xffffffff k) k hk
    have hbits : ∀ j, j < 32 → (0xffffffff#32).getLsbD j = true := by decide
    simp only [hw]
    rw [hbits _ hlt, decide_eq_true (by omega)]

include hl hu in
/-- Every inode but the root is free. -/
theorem fresh_ibitmap {i : Nat} (h : i < 32768) :
    bit (State.fresh n disk seg).vol.cached.ibitmap i = decide (i ≠ 0) := by
  rw [fresh_seg hl hu]
  refine bit_of_full (m := 1024) (fun k hk => ?_) (by omega)
  refine (makeShmCached_ibitmap (mount_layout hl hu disk) hk).trans ?_
  rw [formatDevice_ibitmap hl hu, fullBitmap_at hk]

include hl hu in
/-- Every data block but the first is free. -/
theorem fresh_dbitmap {i : Nat} (h : i < 32768 * dbitmapBlocks n) :
    bit (State.fresh n disk seg).vol.cached.dbitmap i = decide (i ≠ 0) := by
  rw [fresh_seg hl hu]
  refine bit_of_full (m := 1024 * dbitmapBlocks n) (fun k hk => ?_) (by omega)
  refine (makeShmCached_dbitmap (mount_layout hl hu disk) (by omega)).trans ?_
  have hk' : k % 4096 < 4096 := Nat.mod_lt _ (by decide)
  rw [formatDevice_dbitmap hl hu disk (by omega) hk', fullBitmap_at hk']
  by_cases hb : k / 4096 = 0
  · rw [if_pos (by omega), show k % 4096 = k by omega]
  · rw [if_neg (by omega), if_neg (by omega)]

/-- The words of a buffer of zeros. -/
theorem u32_zero {b : Bytes} {o : Nat} (h : ∀ k, k < 4 → b (o + k) = 0) : u32 b o = 0 :=
  u32_of_bytes (v := 0) fun k hk => (h k hk).trans (by simp [byteOf])

include hl hu in
/-- The bytes of the inode region. -/
theorem fresh_region {k : Nat} (h : k < 8388608) :
    makeShmCached (formatDevice blockSize n disk) (readSpdk (formatDevice blockSize n disk) 0 1 dmaBuffer) seg (4144 + k) =
      if k < 4096 then rootInodeBlock k else 0 := by
  rw [makeShmCached_iregion (mount_layout hl hu disk) h, formatDevice_iregion hl hu disk (by omega)]
  by_cases hk : k < 4096
  · rw [if_pos (by omega), if_pos hk, Nat.mod_eq_of_lt hk]
  · rw [if_neg (by omega), if_neg hk]
    rfl

/-- The block of the root inode is zero but for the mode, the number of blocks and the entry count. -/
theorem rootInodeBlock_zero {k : Nat} (h : 12 ≤ k) : rootInodeBlock k = 0 := by
  unfold rootInodeBlock putU32 putU64
  by_cases h16 : k < 16
  · rw [copy_at (by omega)]
    simp [byteOf]
  · rw [copy_out (by omega), copy_out (by omega), copy_out (by omega)]
    have hzero : ∀ {b : Bytes} {o : Nat}, b k = 0 → copy b o (byteOf 0) 8 k = 0 := by
      intro b o hb
      unfold copy
      split
      · simp [byteOf]
      · exact hb
    refine hzero (hzero (hzero ?_))
    rw [copy_out (by omega), copy_out (by omega)]
    rfl

include hl hu in
/-- The root directory has one block, number 0, and two entries. -/
theorem fresh_root : ((State.fresh n disk seg).vol.inode 0).blocks = 1 ∧
    ((State.fresh n disk seg).vol.inode 0).size = 2 ∧ ((State.fresh n disk seg).vol.inode 0).l1 0 = 0 := by
  have hword : ∀ o, o + 4 ≤ 4096 → u32 (makeShmCached (formatDevice blockSize n disk)
      (readSpdk (formatDevice blockSize n disk) 0 1 dmaBuffer) seg) (4144 + o) = u32 rootInodeBlock o := by
    intro o ho
    refine u32_congr fun k hk => ?_
    rw [Nat.add_assoc, fresh_region hl hu disk seg (by omega), if_pos (by omega)]
  rw [show (State.fresh n disk seg).vol.inode 0 = (State.fresh n disk seg).vol.cached.inodeReg 0 from rfl,
    fresh_seg hl hu]
  exact ⟨hword 4 (by decide), hword 8 (by decide), (hword 12 (by decide)).trans (u32_zero fun k _ =>
    rootInodeBlock_zero (by omega))⟩

include hl hu in
/-- The other inodes are zero. -/
theorem fresh_inode {i : Nat} (h0 : i ≠ 0) (h : i < 32768) : ((State.fresh n disk seg).vol.inode i).blocks = 0 ∧
    ((State.fresh n disk seg).vol.inode i).size = 0 := by
  have hword : ∀ o, 256 ≤ o → o + 4 ≤ 8388608 → u32 (makeShmCached (formatDevice blockSize n disk)
      (readSpdk (formatDevice blockSize n disk) 0 1 dmaBuffer) seg) (4144 + o) = 0 := by
    intro o ho ho'
    refine u32_zero fun k hk => ?_
    rw [Nat.add_assoc, fresh_region hl hu disk seg (by omega)]
    split
    · exact rootInodeBlock_zero (by omega)
    · rfl
  rw [show (State.fresh n disk seg).vol.inode i = (State.fresh n disk seg).vol.cached.inodeReg i from rfl,
    fresh_seg hl hu]
  have h1 := hword (256 * i + 4) (by omega) (by omega)
  have h2 := hword (256 * i + 8) (by omega) (by omega)
  rw [← Nat.add_assoc] at h1 h2
  exact ⟨h1, h2⟩

include hl hu in
/-- The first data block of a fresh volume. -/
theorem fresh_lba : (State.fresh n disk seg).vol.lba 0 = 2050 + dbitmapBlocks n := by
  obtain ⟨hd1, hd2, hd3, _⟩ := dbitmapBlocks_bounds hl hu
  have hofs : (superblockInfo n).ofsDregion = 2050 + dbitmapBlocks n := by rw [superblockInfo_eq hl hu]
  unfold Volume.lba
  rw [fresh_sbi hl hu, hofs, Nat.add_zero]
  exact Nat.mod_eq_of_lt (by omega)

include hl hu in
/-- The first data block holds the entries of the root directory. -/
theorem fresh_dir : (State.fresh n disk seg).vol.disk ((State.fresh n disk seg).vol.lba 0) = rootDirBlock := by
  rw [fresh_lba hl hu]
  unfold State.fresh State.start
  simp only [formatDevice_root hl hu]

end

end Vsfs
