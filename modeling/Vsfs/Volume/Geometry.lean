import Vsfs.Model.Mount

/-!
# The regions of a formatted volume

- `superblockInfo_eq`: what `write_superblock` computes for a device of `n` blocks, no step of which wraps;
- `makeShmCached_sb`, `makeShmCached_ibitmap`, `makeShmCached_iregion`, `makeShmCached_dbitmap`: which byte of the
  device is at which place of the segment after a mount;
- `unmountVsfs_zero`, `unmountVsfs_ibitmap`, `unmountVsfs_iregion`, `unmountVsfs_dbitmap`: which block of the device an
  unmount fills from which place.
-/

set_option autoImplicit false

namespace Vsfs

open ByteSeq

/-! ## The superblock -/

/-- The blocks of the data bitmap on a device of `n` blocks. -/
def dbitmapBlocks (n : Nat) : Nat := (n - 2050 + 32767) / 32768

theorem dbitmapBlocks_bounds {n : Nat} (hl : 2052 ≤ n) (hu : n < 2 ^ 32) :
    1 ≤ dbitmapBlocks n ∧ dbitmapBlocks n < n - 2050 ∧ dbitmapBlocks n ≤ 131072 ∧
      n - 2050 ≤ 32768 * dbitmapBlocks n := by
  unfold dbitmapBlocks
  omega

/-- The superblock of a device of `n` blocks. -/
theorem superblockInfo_eq {n : Nat} (hl : 2052 ≤ n) (hu : n < 2 ^ 32) : superblockInfo n =
    { magic := vsfsMagic, nrBlocks := n, ofsIbitmap := 1, ofsIregion := 2, ofsDbitmap := 2050
      ofsDregion := 2050 + dbitmapBlocks n, nrIbitmapBlocks := 1, nrIregionBlocks := 2048
      nrDbitmapBlocks := dbitmapBlocks n, nrDregionBlocks := n - 2050 - dbitmapBlocks n, nrFreeInodes := 32767
      nrFreeDblock := n - 2051 - dbitmapBlocks n } := by
  obtain ⟨hd1, hd2, hd3, _⟩ := dbitmapBlocks_bounds hl hu
  have hremain : sub32 (sub32 (sub32 n 1) 2048) 1 = n - 2050 := by
    rw [sub32_of_le (by omega : 1 ≤ n) hu, sub32_of_le (by omega : 2048 ≤ n - 1) (by omega),
      sub32_of_le (by omega) (by omega)]
    omega
  have hceil : idivCeil (n - 2050) (4096 * 2 ^ 3) % 2 ^ 32 = dbitmapBlocks n := by
    unfold idivCeil dbitmapBlocks
    split <;> omega
  have hregion : nrInodes / (blockSize / inodeSize) = 2048 := rfl
  unfold superblockInfo
  simp only [hregion, hremain, hceil]
  rw [sub32_of_le (by omega : dbitmapBlocks n ≤ n - 2050) (by omega), sub32_of_le (by omega) (by omega)]
  simp only [SbInfo.mk.injEq, true_and]
  refine ⟨rfl, by omega, rfl, by omega⟩

/-- The regions of a formatted volume with `d` bitmap blocks for the data. -/
structure SbInfo.Layout (s : SbInfo) (d : Nat) : Prop where
  ofsIbitmap : s.ofsIbitmap = 1
  ofsIregion : s.ofsIregion = 2
  ofsDbitmap : s.ofsDbitmap = 2050
  nrIbitmapBlocks : s.nrIbitmapBlocks = 1
  nrIregionBlocks : s.nrIregionBlocks = 2048
  nrDbitmapBlocks : s.nrDbitmapBlocks = d
  bound : d ≤ 131072

theorem superblockInfo_layout {n : Nat} (hl : 2052 ≤ n) (hu : n < 2 ^ 32) :
    (superblockInfo n).Layout (dbitmapBlocks n) := by
  rw [superblockInfo_eq hl hu]
  exact ⟨rfl, rfl, rfl, rfl, rfl, rfl, (dbitmapBlocks_bounds hl hu).2.2.1⟩

/-- Every member of the superblock is a `uint32_t`. -/
theorem superblockInfo_fields_lt {n : Nat} (hl : 2052 ≤ n) (hu : n < 2 ^ 32) :
    ∀ v ∈ (superblockInfo n).fields, v < 2 ^ 32 := by
  obtain ⟨hd1, hd2, hd3, _⟩ := dbitmapBlocks_bounds hl hu
  rw [superblockInfo_eq hl hu]
  simp only [SbInfo.fields, List.forall_mem_cons, List.not_mem_nil, false_implies, implies_true, and_true]
  have hmagic : vsfsMagic < 2 ^ 32 := by decide
  omega

/-- A superblock info from its words. -/
theorem SbInfo.load_eq {b : Bytes} {s : SbInfo} (h : ∀ i, i < 12 → u32 b (4 * i) = s.fields.getD i 0) :
    SbInfo.load b = s := by
  have h0 := h 0 (by omega)
  have h1 := h 1 (by omega)
  have h2 := h 2 (by omega)
  have h3 := h 3 (by omega)
  have h4 := h 4 (by omega)
  have h5 := h 5 (by omega)
  have h6 := h 6 (by omega)
  have h7 := h 7 (by omega)
  have h8 := h 8 (by omega)
  have h9 := h 9 (by omega)
  have h10 := h 10 (by omega)
  have h11 := h 11 (by omega)
  obtain ⟨⟩ := s
  simp only [SbInfo.load, SbInfo.mk.injEq]
  exact ⟨h0, h1, h2, h3, h4, h5, h6, h7, h8, h9, h10, h11⟩

/-- A member of the superblock, reduced as it is stored. -/
theorem SbInfo.fields_getD_mod {s : SbInfo} (h : ∀ v ∈ s.fields, v < 2 ^ 32) {i : Nat} (hi : i < 12) :
    s.fields.getD i 0 % 2 ^ 32 = s.fields.getD i 0 := by
  have hlen : i < s.fields.length := hi
  rw [List.getD_eq_getElem?_getD, List.getElem?_eq_getElem hlen, Option.getD_some]
  exact Nat.mod_eq_of_lt (h _ (List.getElem_mem hlen))

/-! ## Mounting -/

/-- The sizes and places that mounting and unmounting compute. -/
theorem segment_numbers : 1 * 4096 % 2 ^ 32 = 4096 ∧ 2048 * 4096 % 2 ^ 32 = 8388608 ∧ 48 + 4096 = 4144 ∧
    4144 + 8388608 = 8392752 := ⟨rfl, rfl, rfl, rfl⟩

section

variable {disk : Nat → Block} {sb seg : Bytes} {d : Nat}

theorem readSpdk_in {lba n k : Nat} {buf : Bytes} (h : k < 4096 * n) :
    readSpdk disk lba n buf k = disk (lba + k / 4096) (k % 4096) := by
  unfold readSpdk copy
  rw [if_pos ⟨Nat.zero_le k, by rw [Nat.zero_add]; exact h⟩]
  rfl

theorem copy_at {dst src : Bytes} {o n k : Nat} (h : o ≤ k ∧ k < o + n) : copy dst o src n k = src (k - o) := by
  obtain ⟨j, rfl⟩ := Nat.exists_eq_add_of_le h.1
  rw [copy_in (by omega), Nat.add_sub_cancel_left]

/-- The four copies of a mount, with the numbers of the layout. -/
theorem makeShmCached_eq (h : (SbInfo.load sb).Layout d) : makeShmCached disk sb seg =
    copy (copy (copy (copy seg 0 sb 48) 48 (readSpdk disk 1 1 dmaBuffer) 4096) 4144
      (readSpdk disk 2 2048 dmaBuffer) 8388608) 8392752 (readSpdk disk 2050 d dmaBuffer) (4096 * d) := by
  have hb := h.bound
  have hd : d * 4096 % 2 ^ 32 = 4096 * d := by omega
  unfold makeShmCached SbInfo.segmentIbitmap SbInfo.segmentIregion SbInfo.segmentDbitmap
  simp only [h.ofsIbitmap, h.ofsIregion, h.ofsDbitmap, h.nrIbitmapBlocks, h.nrIregionBlocks, h.nrDbitmapBlocks,
    sbInfoSize, blockSize, hd, segment_numbers]

/-- Whatever the superblock says, the segment starts with it. -/
theorem makeShmCached_sb {k : Nat} (hk : k < 48) : makeShmCached disk sb seg k = sb k := by
  unfold makeShmCached SbInfo.segmentIbitmap SbInfo.segmentIregion SbInfo.segmentDbitmap sbInfoSize
  rw [copy_out (by omega), copy_out (by omega), copy_out (by omega), copy_at (by omega), Nat.sub_zero]

theorem makeShmCached_ibitmap (h : (SbInfo.load sb).Layout d) {k : Nat} (hk : k < 4096) :
    makeShmCached disk sb seg (48 + k) = disk 1 k := by
  rw [makeShmCached_eq h, copy_out (by omega), copy_out (by omega), copy_at (by omega), Nat.add_sub_cancel_left,
    readSpdk_in (by omega)]
  rw [Nat.div_eq_of_lt hk, Nat.mod_eq_of_lt hk]

theorem makeShmCached_iregion (h : (SbInfo.load sb).Layout d) {k : Nat} (hk : k < 8388608) :
    makeShmCached disk sb seg (4144 + k) = disk (2 + k / 4096) (k % 4096) := by
  rw [makeShmCached_eq h, copy_out (by omega), copy_at (by omega), Nat.add_sub_cancel_left, readSpdk_in (by omega)]

theorem makeShmCached_dbitmap (h : (SbInfo.load sb).Layout d) {k : Nat} (hk : k < 4096 * d) :
    makeShmCached disk sb seg (8392752 + k) = disk (2050 + k / 4096) (k % 4096) := by
  rw [makeShmCached_eq h, copy_at (by omega), Nat.add_sub_cancel_left, readSpdk_in (by omega)]

/-- Two buffers with the same first 48 bytes hold the same superblock info. -/
theorem load_congr {b c : Bytes} (h : ∀ k, k < 48 → b k = c k) : SbInfo.load b = SbInfo.load c := by
  have hword : ∀ o, o + 4 ≤ 48 → u32 b o = u32 c o := fun o ho => u32_congr fun k hk => h (o + k) (by omega)
  unfold SbInfo.load
  simp only [hword _ (by decide : 0 + 4 ≤ 48), hword _ (by decide : 4 + 4 ≤ 48),
    hword _ (by decide : 8 + 4 ≤ 48), hword _ (by decide : 12 + 4 ≤ 48), hword _ (by decide : 16 + 4 ≤ 48),
    hword _ (by decide : 20 + 4 ≤ 48), hword _ (by decide : 24 + 4 ≤ 48), hword _ (by decide : 28 + 4 ≤ 48),
    hword _ (by decide : 32 + 4 ≤ 48), hword _ (by decide : 36 + 4 ≤ 48), hword _ (by decide : 40 + 4 ≤ 48),
    hword _ (by decide : 44 + 4 ≤ 48)]

/-- The superblock that a mount reads is block 0. -/
theorem load_readSpdk (disk : Nat → Block) : SbInfo.load (readSpdk disk 0 1 dmaBuffer) = SbInfo.load (disk 0) := by
  refine load_congr fun k hk => ?_
  rw [readSpdk_in (by omega), Nat.zero_add, Nat.div_eq_of_lt (by omega), Nat.mod_eq_of_lt (by omega)]

/-! ## Unmounting -/

theorem writeSpdk_in {lba n l k : Nat} {buf : Bytes} (h : lba ≤ l ∧ l < lba + n) :
    writeSpdk disk lba n buf l k = buf (4096 * (l - lba) + k) := by
  unfold writeSpdk
  rw [if_pos h]
  rfl

theorem writeSpdk_out {lba n l : Nat} {buf : Bytes} (h : l < lba ∨ lba + n ≤ l) : writeSpdk disk lba n buf l = disk l := by
  unfold writeSpdk
  rw [if_neg (by omega)]

/-- The three writes of an unmount, with the numbers of the layout. -/
theorem unmountVsfs_eq (h : (SbInfo.load seg).Layout d) : unmountVsfs seg disk =
    writeSpdk (writeSpdk (writeSpdk disk 1 1 (copy dmaBuffer 0 (fun k => seg (48 + k)) 4096)) 2050 d
      (copy dmaBuffer 0 (fun k => seg (8392752 + k)) (4096 * d))) 2 2048
      (copy dmaBuffer 0 (fun k => seg (4144 + k)) 8388608) := by
  have hb := h.bound
  have hd : d * 4096 % 2 ^ 32 = 4096 * d := by omega
  unfold unmountVsfs SbInfo.segmentIbitmap SbInfo.segmentIregion SbInfo.segmentDbitmap
  simp only [h.ofsIbitmap, h.ofsIregion, h.ofsDbitmap, h.nrIbitmapBlocks, h.nrIregionBlocks, h.nrDbitmapBlocks,
    sbInfoSize, blockSize, hd, segment_numbers]

/-- An unmount leaves the superblock on the device alone. -/
theorem unmountVsfs_zero (h : (SbInfo.load seg).Layout d) : unmountVsfs seg disk 0 = disk 0 := by
  rw [unmountVsfs_eq h, writeSpdk_out (by omega), writeSpdk_out (by omega), writeSpdk_out (by omega)]

theorem unmountVsfs_ibitmap (h : (SbInfo.load seg).Layout d) {k : Nat} (hk : k < 4096) :
    unmountVsfs seg disk 1 k = seg (48 + k) := by
  rw [unmountVsfs_eq h, writeSpdk_out (by omega), writeSpdk_out (by omega), writeSpdk_in (by omega),
    copy_at (by omega)]
  congr 1
  omega

theorem unmountVsfs_iregion (h : (SbInfo.load seg).Layout d) {k : Nat} (hk : k < 8388608) :
    unmountVsfs seg disk (2 + k / 4096) (k % 4096) = seg (4144 + k) := by
  rw [unmountVsfs_eq h, writeSpdk_in (by omega), copy_at (by omega)]
  congr 1
  omega

theorem unmountVsfs_dbitmap (h : (SbInfo.load seg).Layout d) {k : Nat} (hk : k < 4096 * d) :
    unmountVsfs seg disk (2050 + k / 4096) (k % 4096) = seg (8392752 + k) := by
  rw [unmountVsfs_eq h, writeSpdk_out (by omega), writeSpdk_in (by omega), copy_at (by omega)]
  congr 1
  omega

end

end Vsfs
