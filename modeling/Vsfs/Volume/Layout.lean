import Vsfs.Lib.Extents
import Vsfs.Volume.Fresh

/-!
# The layout that formatting produces

The superblock describes five regions, and `init_vsfs` writes them with a cursor `lba_cnt` of its own. `initStages` are
the cursor and the device before each of its writers and after the last.

- `superblockInfo_tiles`: the regions follow each other and end with the device;
- `superblockInfo_fits`: no computation of the superblock wraps;
- `formatStages_staged`: every writer starts at its region and changes blocks of it only;
- `consistentFormat_of`: all of this for the number of blocks that `write_superblock` computes;
- `format_is_consistent_iff`: when that is the number of blocks of the device.
-/

set_option autoImplicit false

namespace Vsfs

open ByteSeq Extents

/-! ## Regions and writers -/

/-- The regions that a superblock describes, in the order of the device. -/
def SbInfo.regions (s : SbInfo) : List Extent :=
  [⟨0, 1⟩, ⟨s.ofsIbitmap, s.nrIbitmapBlocks⟩, ⟨s.ofsIregion, s.nrIregionBlocks⟩, ⟨s.ofsDbitmap, s.nrDbitmapBlocks⟩,
    ⟨s.ofsDregion, s.nrDregionBlocks⟩]

/-- `lba_cnt` and the device before each writer of `init_vsfs`, and after the last. -/
def formatStages (blkSize deviceSize : Nat) (disk : Nat → Block) : List (Nat × (Nat → Block)) :=
  let (sb, s₁) := writeSuperblock 0 blkSize deviceSize disk
  let s₂ := writeInodeBitmap s₁.1 s₁.2
  let s₃ := writeInodeRegion s₂.1 sb s₂.2
  let s₄ := writeDataBitmap s₃.1 sb s₃.2
  [(0, disk), s₁, s₂, s₃, s₄, writeDataRegion s₄.1 s₄.2]

@[inherit_doc formatStages]
def initStages (ns : Namespace) (disk : Nat → Block) : List (Nat × (Nat → Block)) :=
  let (blkSize, deviceSize) := getDeviceInfo ns
  formatStages blkSize deviceSize disk

/-- The superblock that `write_superblock` returns to `init_vsfs`. -/
def initSuperblock (ns : Namespace) (disk : Nat → Block) : SbInfo :=
  let (blkSize, deviceSize) := getDeviceInfo ns
  (writeSuperblock 0 blkSize deviceSize disk).1

/-- The last stage is what `init_vsfs` leaves. -/
theorem initStages_last (ns : Namespace) (disk : Nat → Block) :
    (initStages ns disk).getLast?.map Prod.snd = some (initVsfs ns disk) := rfl

/-- Each writer starts at the first block of its region and changes blocks of its region only. -/
def Staged : List Extent → List (Nat × (Nat → Block)) → Prop
  | [], [_] => True
  | r :: rs, u :: w :: us => (u.1 = r.ofs ∧ ∀ l, ¬r.Has l → w.2 l = u.2 l) ∧ Staged rs (w :: us)
  | _, _ => False

/-- The 32-bit computations of formatting are exact for the superblock `s` of a device of `n` blocks: what is subtracted
is not larger, and sums, quotients and products fit. -/
structure SbInfo.Exact (n : Nat) (s : SbInfo) : Prop where
  size : blockSize * n < 2 ^ 64
  nrBlocks : s.nrBlocks = n ∧ n < 2 ^ 32
  remain : s.nrIbitmapBlocks ≤ n ∧ s.nrIregionBlocks ≤ n - s.nrIbitmapBlocks ∧
    1 ≤ n - s.nrIbitmapBlocks - s.nrIregionBlocks
  nrDbitmapBlocks : s.nrDbitmapBlocks = idivCeil (n - s.nrIbitmapBlocks - s.nrIregionBlocks - 1) (4096 * 2 ^ 3) ∧
    s.nrDbitmapBlocks ≤ n - s.nrIbitmapBlocks - s.nrIregionBlocks - 1
  nrDregionBlocks : s.nrDregionBlocks = n - s.nrIbitmapBlocks - s.nrIregionBlocks - 1 - s.nrDbitmapBlocks
  ofsDbitmap : s.ofsDbitmap = s.ofsIregion + s.nrIregionBlocks ∧ s.ofsDbitmap < 2 ^ 32
  ofsDregion : s.ofsDregion = s.ofsDbitmap + s.nrDbitmapBlocks ∧ s.ofsDregion < 2 ^ 32
  nrFreeDblock : 1 ≤ s.nrDregionBlocks ∧ s.nrFreeDblock = s.nrDregionBlocks - 1
  iregionBuffer : 1 ≤ s.nrIregionBlocks ∧ (s.nrIregionBlocks - 1) * blockSize < 2 ^ 32
  dbitmapBuffer : 1 ≤ s.nrDbitmapBlocks ∧ (s.nrDbitmapBlocks - 1) * blockSize < 2 ^ 32

/-- What a superblock `s` and the stages of `init_vsfs` have to satisfy on a device of `n` blocks. -/
structure ConsistentFormat (n : Nat) (s : SbInfo) (stages : List (Nat × (Nat → Block))) : Prop where
  ordered : s.regions.Pairwise fun r t => r.ofs + r.len ≤ t.ofs
  disjoint : s.regions.Pairwise fun r t => ∀ l, r.Has l → ¬t.Has l
  gapless : Tiles 0 s.regions n
  covers : ∀ l, (∃ r, r ∈ s.regions ∧ r.Has l) ↔ l < n
  exact : s.Exact n
  dregion : 1 ≤ s.nrDregionBlocks ∧ s.nrDregionBlocks ≤ 32768 * s.nrDbitmapBlocks
  inodes : 8 * blockSize * s.nrIbitmapBlocks = blockSize / inodeSize * s.nrIregionBlocks
  staged : Staged s.regions stages
  first : ∀ u w, stages[4]? = some u → stages[5]? = some w → u.1 = s.ofsDregion ∧ w.2 s.ofsDregion = rootDirBlock ∧
    ∀ l, l ≠ s.ofsDregion → w.2 l = u.2 l

/-! ## The superblock -/

section

variable {n : Nat} (hl : 2052 ≤ n) (hu : n < 2 ^ 32)

include hl hu in
theorem superblockInfo_tiles : Tiles 0 (superblockInfo n).regions n := by
  obtain ⟨hd1, hd2, hd3, _⟩ := dbitmapBlocks_bounds hl hu
  rw [superblockInfo_eq hl hu]
  refine ⟨rfl, rfl, rfl, rfl, rfl, ?_⟩
  show 0 + 1 + 1 + 2048 + dbitmapBlocks n + (n - 2050 - dbitmapBlocks n) = n
  omega

include hl hu in
theorem superblockInfo_fits : (superblockInfo n).Exact n := by
  obtain ⟨hd1, hd2, hd3, _⟩ := dbitmapBlocks_bounds hl hu
  have hceil : idivCeil (n - 1 - 2048 - 1) (4096 * 2 ^ 3) = dbitmapBlocks n := by
    unfold idivCeil dbitmapBlocks
    split <;> omega
  rw [superblockInfo_eq hl hu]
  constructor <;> dsimp only [blockSize]
  · omega
  · exact ⟨rfl, hu⟩
  · omega
  · rw [hceil]
    omega
  · omega
  · omega
  · omega
  · omega
  · omega
  · omega

/-- The superblock that `write_superblock` writes and returns. -/
theorem writeSuperblock_eq {blkSize deviceSize : Nat} (hn : deviceBlocks blkSize deviceSize = n) (disk : Nat → Block) :
    writeSuperblock 0 blkSize deviceSize disk =
      (superblockInfo n, 1, writeSpdk disk 0 1 (putWords dmaBuffer 0 (superblockInfo n).fields)) := by
  unfold writeSuperblock
  rw [hn]

/-! ## The writers -/

variable {blkSize deviceSize : Nat} (hn : deviceBlocks blkSize deviceSize = n)

include hl hu hn in
/-- **Every writer** starts at its region and changes blocks of it only. -/
theorem formatStages_staged (disk : Nat → Block) :
    Staged (superblockInfo n).regions (formatStages blkSize deviceSize disk) := by
  obtain ⟨hd1, hd2, hd3, _⟩ := dbitmapBlocks_bounds hl hu
  have hir : sub32 2048 1 = 2047 := rfl
  have hdb : sub32 (dbitmapBlocks n) 1 = dbitmapBlocks n - 1 := sub32_of_le hd1 (by omega)
  unfold formatStages writeInodeBitmap writeInodeRegion writeDataBitmap writeDataRegion
  rw [writeSuperblock_eq hn, superblockInfo_eq hl hu]
  simp only [SbInfo.regions, Staged, Extent.Has, hir, hdb]
  refine ⟨⟨trivial, fun l h => ?_⟩, ⟨trivial, fun l h => ?_⟩, ⟨trivial, fun l h => ?_⟩, ⟨trivial, fun l h => ?_⟩,
    ⟨?_, fun l h => ?_⟩, trivial⟩
  · exact writeSpdk_out (by omega)
  · exact writeSpdk_out (by omega)
  · rw [writeSpdk_out (by omega), writeSpdk_out (by omega)]
  · rw [writeSpdk_out (by omega), writeSpdk_out (by omega)]
  · omega
  · exact writeSpdk_out (by omega)

include hl hu hn in
/-- The last writer fills the first block of the data region. -/
theorem formatStages_first (disk : Nat → Block) {u w : Nat × (Nat → Block)}
    (h4 : (formatStages blkSize deviceSize disk)[4]? = some u)
    (h5 : (formatStages blkSize deviceSize disk)[5]? = some w) :
    u.1 = (superblockInfo n).ofsDregion ∧ w.2 (superblockInfo n).ofsDregion = rootDirBlock ∧
      ∀ l, l ≠ (superblockInfo n).ofsDregion → w.2 l = u.2 l := by
  have hst := formatStages_staged hl hu hn disk
  have hlast : w = writeDataRegion u.1 u.2 := by
    unfold formatStages at h4 h5
    simp only [List.getElem?_cons_succ, List.getElem?_cons_zero, Option.some.injEq] at h4 h5
    rw [← h4, ← h5]
  have hcur : u.1 = (superblockInfo n).ofsDregion := by
    unfold formatStages at h4 hst
    simp only [List.getElem?_cons_succ, List.getElem?_cons_zero, Option.some.injEq] at h4
    simp only [SbInfo.regions, Staged] at hst
    rw [← h4]
    exact hst.2.2.2.2.1.1
  rw [hlast]
  unfold writeDataRegion
  rw [hcur]
  generalize (superblockInfo n).ofsDregion = o
  dsimp only
  refine ⟨rfl, ?_, fun l hne => writeSpdk_out (by omega)⟩
  funext k
  rw [writeSpdk_in (by omega), Nat.sub_self, Nat.mul_zero, Nat.zero_add]

include hl hu hn in
/-- **Formatting produces a consistent layout** of the blocks that `write_superblock` computes, if these are 2052 or
more. -/
theorem consistentFormat_of (disk : Nat → Block) :
    ConsistentFormat n (writeSuperblock 0 blkSize deviceSize disk).1 (formatStages blkSize deviceSize disk) := by
  have htiles := superblockInfo_tiles hl hu
  have hfits := superblockInfo_fits hl hu
  obtain ⟨hd1, hd2, hd3, hd4⟩ := dbitmapBlocks_bounds hl hu
  rw [writeSuperblock_eq hn]
  refine ⟨htiles.ordered, htiles.disjoint, htiles, fun l => ?_, hfits, ⟨hfits.nrFreeDblock.1, ?_⟩, ?_,
    formatStages_staged hl hu hn disk, fun u w => formatStages_first hl hu hn disk⟩
  · rw [htiles.covers]
    omega
  · rw [superblockInfo_eq hl hu]
    dsimp only
    omega
  · rw [superblockInfo_eq hl hu]
    rfl

end

/-! ## The device -/

/-- What `write_superblock` computes for a namespace of `n` blocks: `get_device_info` gives the size in bytes, which is
multiplied by the size of a sector again. -/
theorem deviceBlocks_namespace {ns : Namespace} {n : Nat} (hs : ns.size = blockSize * n) :
    deviceBlocks ns.sectorSize ns.size = ns.sectorSize * n % 2 ^ 32 := by
  unfold deviceBlocks
  rw [hs, Nat.mul_left_comm]
  unfold blockSize
  omega

/-- No number of blocks is its own product with an even number in 32 bits. -/
theorem even_mul_ne {b n : Nat} (hb : b % 2 = 0) (hl : 0 < n) (hu : n < 2 ^ 32) : b * n % 2 ^ 32 ≠ n := by
  intro h
  have hpos : 0 < b := by
    rcases Nat.eq_zero_or_pos b with rfl | hpos
    · rw [Nat.zero_mul] at h
      omega
    · exact hpos
  have hcop : Nat.Coprime (2 ^ 32) (b - 1) := by
    refine Nat.Coprime.pow_left 32 ?_
    unfold Nat.Coprime
    rw [Nat.gcd_rec, show (b - 1) % 2 = 1 by omega, Nat.gcd_one_left]
  -- `b * n - n` is a multiple of the word, and `b - 1` shares no factor with it
  have hdvd : 2 ^ 32 ∣ (b - 1) * n := by
    rw [Nat.sub_one_mul]
    exact ⟨b * n / 2 ^ 32, by omega⟩
  have hle := Nat.le_of_dvd hl (hcop.dvd_of_dvd_mul_left hdvd)
  omega

/-- The superblock of a namespace of `n` blocks is written for the product of the size of a sector and `n`. -/
theorem initSuperblock_eq {ns : Namespace} {n : Nat} (hs : ns.size = blockSize * n) (disk : Nat → Block) :
    initSuperblock ns disk = superblockInfo (ns.sectorSize * n % 2 ^ 32) := by
  show (writeSuperblock 0 ns.sectorSize ns.size disk).1 = _
  rw [writeSuperblock_eq (deviceBlocks_namespace hs)]

/-- **When formatting a namespace of `n` blocks produces a consistent layout**: exactly if the size of a sector times `n`
is `n` in 32 bits. It never is for sectors of an even number of bytes, as all sectors of NVMe are. -/
theorem format_is_consistent_iff {ns : Namespace} {n : Nat} (hl : 2052 ≤ n) (hu : n < 2 ^ 32)
    (hs : ns.size = blockSize * n) (disk : Nat → Block) :
    (ConsistentFormat n (initSuperblock ns disk) (initStages ns disk) ↔ ns.sectorSize * n % 2 ^ 32 = n) ∧
      (ns.sectorSize % 2 = 0 → ¬ConsistentFormat n (initSuperblock ns disk) (initStages ns disk)) := by
  have hiff : ConsistentFormat n (initSuperblock ns disk) (initStages ns disk) ↔ ns.sectorSize * n % 2 ^ 32 = n := by
    constructor
    · intro h
      have hnr := h.exact.nrBlocks.1
      rw [initSuperblock_eq hs] at hnr
      exact hnr
    · intro h
      exact consistentFormat_of hl hu ((deviceBlocks_namespace hs).trans h) disk
  exact ⟨hiff, fun he h => even_mul_ne he (by omega) hu (hiff.mp h)⟩

/-- A device of 16 MiB, as one of 512-byte sectors and as one of single bytes. -/
theorem format_is_consistent_iff_small :
    ¬ConsistentFormat 4096 (initSuperblock ⟨512, 32768⟩ fun _ => dmaBuffer) (initStages ⟨512, 32768⟩ fun _ => dmaBuffer) ∧
      ConsistentFormat 4096 (initSuperblock ⟨1, 16777216⟩ fun _ => dmaBuffer)
        (initStages ⟨1, 16777216⟩ fun _ => dmaBuffer) :=
  ⟨(format_is_consistent_iff (by decide) (by decide) rfl _).2 rfl,
    (format_is_consistent_iff (by decide) (by decide) rfl _).1.mpr rfl⟩

/-- **A device of 16 MiB** with sectors of 512 bytes has 4096 blocks, and its superblock counts 2097152, with 64 blocks
of data bitmap instead of one. -/
theorem format_overruns_device :
    (⟨512, 32768⟩ : Namespace).size = blockSize * 4096 ∧
      (initSuperblock ⟨512, 32768⟩ fun _ => dmaBuffer).nrBlocks = 2097152 ∧
      (initSuperblock ⟨512, 32768⟩ fun _ => dmaBuffer).nrDbitmapBlocks = 64 ∧
      ¬ConsistentFormat 4096 (initSuperblock ⟨512, 32768⟩ fun _ => dmaBuffer)
        (initStages ⟨512, 32768⟩ fun _ => dmaBuffer) := by
  refine ⟨rfl, by decide, by decide, fun h => ?_⟩
  have hnr : (initSuperblock ⟨512, 32768⟩ fun _ => dmaBuffer).nrBlocks = 4096 := h.exact.nrBlocks.1
  revert hnr
  decide

end Vsfs
