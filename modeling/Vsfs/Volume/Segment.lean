import Vsfs.Model.ShmMount
import Vsfs.Volume.Geometry

/-!
# The segment that the shared-memory mount writes

The allocators read the segment as a `struct vsfs_cached_data`, which has the inode table between the two bitmaps. The
mount of `shm_mount.c` leaves no room for it.

- `segment_ibitmap`: the inode bitmap is where the allocators read it;
- `segment_dbitmap`: the words of the data bitmap that they read inside the segment are 2097152 words further on;
- `segment_never_matches`: the last word of the data bitmap lies outside the segment, whatever the geometry.
-/

set_option autoImplicit false

namespace Vsfs.Shm

open ByteSeq

variable {ptr seg : Bytes} {d w : Nat}

/-! ## What the allocators read -/

/-- The offset of `dbitmap[w]` in a `struct vsfs_cached_data`. -/
def dbitmapOffset (w : Nat) : Nat := sbInfoSize + 4 * (nrInodes / 32) + inodeSize * nrInodes + 4 * w

/-- Word `w` of the inode bitmap on the device. -/
def diskIbitmap (ptr : Bytes) (w : Nat) : BitVec 32 :=
  BitVec.ofNat 32 (u32 ptr (blockSize * (SbInfo.load ptr).ofsIbitmap + 4 * w))

/-- Word `w` of the data bitmap on the device. -/
def diskDbitmap (ptr : Bytes) (w : Nat) : BitVec 32 :=
  BitVec.ofNat 32 (u32 ptr (blockSize * (SbInfo.load ptr).ofsDbitmap + 4 * w))

/-- The segment, of the given size, viewed as a `struct vsfs_cached_data`: its bitmaps are those on the device, and the
data bitmap lies inside it. -/
structure SegmentMatches (ptr : Bytes) (size : Nat) (seg : Bytes) : Prop where
  ibitmap : ∀ w, w < 1024 → (Cached.load seg).ibitmap w = diskIbitmap ptr w
  inside : ∀ w, w < 1024 * (SbInfo.load ptr).nrDbitmapBlocks → dbitmapOffset w + 4 ≤ size
  dbitmap : ∀ w, w < 1024 * (SbInfo.load ptr).nrDbitmapBlocks → (Cached.load seg).dbitmap w = diskDbitmap ptr w

/-! ## What the mount writes -/

/-- The three copies of the mount, with the numbers of the layout. -/
theorem makeShmCached_eq (h : (SbInfo.load ptr).Layout d) : makeShmCached ptr seg =
    (48 + 4096 * (d + 1), copy (copy (copy seg 0 ptr 48) 48 (fun k => ptr (4096 + k)) 4096) 4144
      (fun k => ptr (8396800 + k)) (4096 * d)) := by
  have hb := h.bound
  have hmul : ∀ k, k ≤ 131073 → k * 4096 % 2 ^ 32 = 4096 * k := fun k hk => by omega
  have hsum : (1 + d) % 2 ^ 32 = d + 1 := by omega
  have hofs : 2050 * 4096 % 2 ^ 32 = 8396800 := rfl
  unfold makeShmCached bitmapTotalSize
  simp only [h.ofsIbitmap, h.ofsDbitmap, h.nrIbitmapBlocks, h.nrDbitmapBlocks, sbInfoSize, blockSize, hsum, hofs,
    hmul d (Nat.le_succ_of_le hb), hmul (d + 1) (by omega), segment_numbers]

/-- The inode bitmap is the one on the device. -/
theorem segment_ibitmap (h : (SbInfo.load ptr).Layout d) (hw : w < 1024) :
    (Cached.load (makeShmCached ptr seg).2).ibitmap w = diskIbitmap ptr w := by
  refine congrArg (BitVec.ofNat 32) (u32_congr fun k hk => ?_)
  rw [makeShmCached_eq h, h.ofsIbitmap]
  unfold sbInfoSize blockSize
  dsimp only
  rw [copy_out (by omega), copy_at (by omega)]
  exact congrArg ptr (by omega)

/-- `dbitmap[w]` is inside the segment only if the device has a word 2097152 places further on, and it is that word. -/
theorem segment_dbitmap (h : (SbInfo.load ptr).Layout d) :
    (dbitmapOffset w + 4 ≤ (makeShmCached ptr seg).1 ↔ w + 2097152 < 1024 * d) ∧ (w + 2097152 < 1024 * d →
      (Cached.load (makeShmCached ptr seg).2).dbitmap w = diskDbitmap ptr (w + 2097152)) := by
  constructor
  · have hofs : dbitmapOffset w = 8392752 + 4 * w := rfl
    rw [makeShmCached_eq h, hofs]
    omega
  · intro hw
    refine congrArg (BitVec.ofNat 32) (u32_congr fun k hk => ?_)
    rw [makeShmCached_eq h, h.ofsDbitmap]
    unfold sbInfoSize nrInodes inodeSize blockSize
    dsimp only
    rw [copy_at (by omega)]
    exact congrArg ptr (by omega)

/-- The segment ends before the last word of the data bitmap that the allocators read. -/
theorem segment_size_lt (hi : (SbInfo.load ptr).nrIbitmapBlocks = 1) (hd : 1 ≤ (SbInfo.load ptr).nrDbitmapBlocks) :
    (makeShmCached ptr seg).1 < dbitmapOffset (1024 * (SbInfo.load ptr).nrDbitmapBlocks - 1) + 4 := by
  have hsize : bitmapTotalSize (SbInfo.load ptr) ≤ 4096 * (1 + (SbInfo.load ptr).nrDbitmapBlocks) := by
    unfold bitmapTotalSize blockSize
    rw [hi]
    have h1 := Nat.mod_le ((1 + (SbInfo.load ptr).nrDbitmapBlocks) % 2 ^ 32 * 4096) (2 ^ 32)
    have h2 := Nat.mod_le (1 + (SbInfo.load ptr).nrDbitmapBlocks) (2 ^ 32)
    omega
  show 48 + bitmapTotalSize (SbInfo.load ptr) < 8392752 + 4 * (1024 * (SbInfo.load ptr).nrDbitmapBlocks - 1) + 4
  omega

/-- **The segment never matches**, whatever the device holds. -/
theorem segment_never_matches (ptr seg : Bytes) (hi : (SbInfo.load ptr).nrIbitmapBlocks = 1)
    (hd : 1 ≤ (SbInfo.load ptr).nrDbitmapBlocks) :
    ¬SegmentMatches ptr (makeShmCached ptr seg).1 (makeShmCached ptr seg).2 := by
  intro h
  have hin := h.inside (1024 * (SbInfo.load ptr).nrDbitmapBlocks - 1) (by omega)
  have hlt : (makeShmCached ptr seg).1 < _ := segment_size_lt hi hd
  omega

/-- A device of 4096 blocks as `mkfs` leaves it. -/
def formattedDevice : Bytes := fun k => formatDevice blockSize 4096 (fun _ _ => 0) (k / 4096) (k % 4096)

theorem segment_never_matches_formatted :
    ¬SegmentMatches formattedDevice (makeShmCached formattedDevice fun _ => 0).1
      (makeShmCached formattedDevice fun _ => 0).2 :=
  segment_never_matches _ _ (by decide +kernel) (by decide +kernel)

/-- The first word of the data bitmap lies behind the segment. -/
theorem first_word_outside : (SbInfo.load formattedDevice).nrIbitmapBlocks = 1 ∧
    (SbInfo.load formattedDevice).nrIregionBlocks = 2048 ∧ (SbInfo.load formattedDevice).nrDbitmapBlocks = 1 ∧
    ¬SegmentMatches formattedDevice (makeShmCached formattedDevice fun _ => 0).1
      (makeShmCached formattedDevice fun _ => 0).2 := by
  have hd : (SbInfo.load formattedDevice).nrDbitmapBlocks = 1 := by decide +kernel
  refine ⟨by decide +kernel, by decide +kernel, hd, fun h => ?_⟩
  have hin := h.inside 0 (by rw [hd]; decide)
  have hsize : (makeShmCached formattedDevice fun _ => 0).1 = 8240 := by decide +kernel
  rw [hsize] at hin
  exact absurd hin (by decide)

end Vsfs.Shm
