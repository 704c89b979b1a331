import Vsfs.Model.Types

/-!
# The bitmaps of `vsfs_bitmap.h`

`get_first_free_bit` scans words for a 1-bit, clears it and returns its index, or 0 when it sees none; the two
allocators call it with a length in bytes that they compute from the superblock, and the array they scan has a length
of its own. A scan that runs past the array is out of bounds.

- `getFirstFreeBit_cases` says all a scan can do;
- `getFreeDblock_cases`, `getFreeInode_cases` say it for the allocators, with `dbitmapBits` and `ibitmapBits` the
  number of bits that a scan reaches inside the array.
-/

set_option autoImplicit false

namespace Vsfs

open Function WordBits

/-! ## The code -/

/-- The loop of `get_first_free_bit`: the `n` words from `count` on, in an array of `len` words. -/
def scanWords (len : Nat) (freemap : Words) : Nat → Nat → M (Nat × Words)
  | 0, _ => .ok (0, freemap)
  | n + 1, count =>
    if count < len then
      if freemap count ≠ 0 then
        let k := ffs (freemap count) - 1
        .ok ((count * 32 + k) % 2 ^ 32, update freemap count (freemap count &&& ~~~(1#32 <<< k)))
      else scanWords len freemap n (count + 1)
    else .error .outOfBounds

/-- `get_first_free_bit(freemap, size)` on an array of `len` words. -/
def getFirstFreeBit (len : Nat) (freemap : Words) (size : Nat) : M (Nat × Words) :=
  scanWords len freemap (size / 4 % 2 ^ 32) 0

/-- `put_free_bit(freemap, size, i)` on an array of `len` words; the code does not use `size`. -/
def putFreeBit (len : Nat) (freemap : Words) (i : Nat) : M Words :=
  if i / 32 < len then .ok (set freemap i) else .error .outOfBounds

/-- A `uint32_t` decrement. -/
def pred32 (n : Nat) : Nat := if n = 0 then 2 ^ 32 - 1 else n - 1

/-- A `uint32_t` increment. -/
def succ32 (n : Nat) : Nat := if n = 2 ^ 32 - 1 then 0 else n + 1

/-- `get_free_inode`. -/
def getFreeInode (c : Cached) : M (Nat × Cached) := do
  let (ret, ibitmap) ← getFirstFreeBit (nrInodes / 32) c.ibitmap (blockSize * c.sbi.nrIbitmapBlocks % 2 ^ 32)
  .ok (ret, { c with
    ibitmap := ibitmap
    sbi := if ret ≠ 0 then { c.sbi with nrFreeInodes := pred32 c.sbi.nrFreeInodes } else c.sbi })

/-- `get_free_dblock`. -/
def getFreeDblock (c : Cached) : M (Nat × Cached) := do
  let (ret, dbitmap) ← getFirstFreeBit (1024 * c.sbi.nrDbitmapBlocks) c.dbitmap
    (blockSize * c.sbi.nrDregionBlocks % 2 ^ 32)
  .ok (ret, { c with
    dbitmap := dbitmap
    sbi := if ret ≠ 0 then { c.sbi with nrFreeDblock := pred32 c.sbi.nrFreeDblock } else c.sbi })

/-- `put_inode`. -/
def putInode (c : Cached) (ino : Nat) : M Cached := do
  let ibitmap ← putFreeBit (nrInodes / 32) c.ibitmap ino
  .ok { c with ibitmap := ibitmap, sbi := { c.sbi with nrFreeInodes := succ32 c.sbi.nrFreeInodes } }

/-- `put_dblock`. -/
def putDblock (c : Cached) (bno : Nat) : M Cached := do
  let dbitmap ← putFreeBit (1024 * c.sbi.nrDbitmapBlocks) c.dbitmap bno
  .ok { c with dbitmap := dbitmap, sbi := { c.sbi with nrFreeDblock := succ32 c.sbi.nrFreeDblock } }

/-! ## What a scan can do -/

theorem succ32_pred32 {n : Nat} (h : n < 2 ^ 32) : succ32 (pred32 n) = n := by
  unfold succ32 pred32; split <;> split <;> omega

theorem succ32_of_lt {n : Nat} (h : n < 2 ^ 32 - 1) : succ32 n = n + 1 := by
  unfold succ32; rw [if_neg (by omega)]

theorem pred32_of_pos {n : Nat} (h : 0 < n) : pred32 n = n - 1 := by
  unfold pred32; rw [if_neg (by omega)]

/-- Clearing the found bit of its word is clearing the bit. -/
theorem update_word_eq_clear (m : Words) {c k : Nat} (hk : k < 32) :
    update m c (m c &&& ~~~(1#32 <<< k)) = clear m (32 * c + k) := by
  unfold clear
  rw [show (32 * c + k) / 32 = c by omega, show (32 * c + k) % 32 = k by omega]

/-- The scan from word `c`, all words before it being zero. -/
theorem scanWords_cases (len : Nat) (m : Words) : ∀ n c, (∀ k, k < c → m k = 0) →
    (∃ i, Least m (32 * min (c + n) len) i ∧ scanWords len m n c = .ok (i % 2 ^ 32, clear m i)) ∨
    ((∀ k, k < c + n → m k = 0) ∧ (n = 0 ∨ c + n ≤ len) ∧ scanWords len m n c = .ok (0, m)) ∨
    ((∀ k, k < len → m k = 0) ∧ len < c + n ∧ scanWords len m n c = .error .outOfBounds)
  | 0, c, hz => Or.inr (Or.inl ⟨hz, Or.inl rfl, rfl⟩)
  | n + 1, c, hz => by
    by_cases hc : c < len
    · by_cases hw : m c = 0
      · have hz' : ∀ k, k < c + 1 → m k = 0 := fun k hk => by
          rcases Nat.lt_succ_iff_lt_or_eq.mp hk with h | rfl
          · exact hz k h
          · exact hw
        have hs : scanWords len m (n + 1) c = scanWords len m n (c + 1) := by simp [scanWords, hc, hw]
        have he : c + (n + 1) = c + 1 + n := by omega
        rw [hs, he]
        rcases scanWords_cases len m n (c + 1) hz' with h | ⟨h, hl, hr⟩ | h
        · exact Or.inl h
        · exact Or.inr (Or.inl ⟨h, Or.inr (by omega), hr⟩)
        · exact Or.inr (Or.inr h)
      · obtain ⟨k, hk, hf, _, _⟩ := ffs_spec hw
        refine Or.inl ⟨32 * c + k, ?_, ?_⟩
        · have hl := least_of_first_word hz hw (n := 32 * min (c + (n + 1)) len) (by omega)
          rwa [hf, Nat.add_sub_cancel] at hl
        · simp only [scanWords, hc, if_true, ne_eq, hw, not_false_eq_true, hf, Nat.add_sub_cancel]
          rw [update_word_eq_clear m hk, Nat.mul_comm c 32]
    · refine Or.inr (Or.inr ⟨fun k hk => hz k (by omega), by omega, ?_⟩)
      simp [scanWords, hc]

/-- All a call of `get_first_free_bit` can do: clear and return the lowest set bit that it reaches, return 0 because
it reaches none, or run past the array. -/
theorem getFirstFreeBit_cases (len : Nat) (m : Words) (size : Nat) :
    (∃ i, Least m (32 * min (size / 4 % 2 ^ 32) len) i ∧ getFirstFreeBit len m size = .ok (i % 2 ^ 32, clear m i)) ∨
    (freeBelow m (32 * min (size / 4 % 2 ^ 32) len) = ∅ ∧
      (getFirstFreeBit len m size = .ok (0, m) ∨ getFirstFreeBit len m size = .error .outOfBounds)) := by
  have hempty : ∀ n, (∀ k, k < n → m k = 0) → freeBelow m (32 * min n len) = ∅ := by
    intro n hz
    refine Finset.eq_empty_of_forall_notMem fun i hi => ?_
    have hm := mem_freeBelow.mp hi
    rw [bit_eq_false_of_words (fun k hk => hz k hk) (by omega : i < 32 * n)] at hm
    exact absurd hm.2 (by simp)
  have hempty' : ∀ n, (∀ k, k < len → m k = 0) → freeBelow m (32 * min n len) = ∅ := by
    intro n hz
    refine Finset.eq_empty_of_forall_notMem fun i hi => ?_
    have hm := mem_freeBelow.mp hi
    rw [bit_eq_false_of_words (fun k hk => hz k hk) (by omega : i < 32 * len)] at hm
    exact absurd hm.2 (by simp)
  unfold getFirstFreeBit
  rcases scanWords_cases len m (size / 4 % 2 ^ 32) 0 (by simp) with ⟨i, hl, hr⟩ | ⟨hz, _, hr⟩ | ⟨hz, _, hr⟩
  · rw [Nat.zero_add] at hl
    exact Or.inl ⟨i, hl, hr⟩
  · rw [Nat.zero_add] at hz
    exact Or.inr ⟨hempty _ hz, Or.inl hr⟩
  · exact Or.inr ⟨hempty' _ hz, Or.inr hr⟩

/-! ## The block allocator -/

/-- The bits of the data bitmap that `get_free_dblock` reaches inside the array. -/
def dbitmapBits (s : SbInfo) : Nat :=
  32 * min (blockSize * s.nrDregionBlocks % 2 ^ 32 / 4 % 2 ^ 32) (1024 * s.nrDbitmapBlocks)

/-- The bits of the inode bitmap that `get_free_inode` reaches inside the array. -/
def ibitmapBits (s : SbInfo) : Nat := 32 * min (blockSize * s.nrIbitmapBlocks % 2 ^ 32 / 4 % 2 ^ 32) (nrInodes / 32)

/-- The cached data after data block `i` has been taken. -/
def Cached.takeDblock (c : Cached) (i : Nat) : Cached :=
  { c with dbitmap := clear c.dbitmap i, sbi := { c.sbi with nrFreeDblock := pred32 c.sbi.nrFreeDblock } }

/-- The cached data after inode `i` has been taken. -/
def Cached.takeInode (c : Cached) (i : Nat) : Cached :=
  { c with ibitmap := clear c.ibitmap i, sbi := { c.sbi with nrFreeInodes := pred32 c.sbi.nrFreeInodes } }

/-- With a free block in reach, `get_free_dblock` takes the lowest one. -/
theorem getFreeDblock_of_least {c : Cached} {n i : Nat} (hn : n ≤ dbitmapBits c.sbi) (hl : Least c.dbitmap n i)
    (h0 : i ≠ 0) (h32 : i < 2 ^ 32) : getFreeDblock c = .ok (i, c.takeDblock i) := by
  have hm : i ∈ freeBelow c.dbitmap (dbitmapBits c.sbi) := mem_freeBelow.mpr ⟨by have := hl.lt; omega, hl.bit⟩
  unfold getFreeDblock
  rcases getFirstFreeBit_cases (1024 * c.sbi.nrDbitmapBlocks) c.dbitmap
    (blockSize * c.sbi.nrDregionBlocks % 2 ^ 32) with ⟨j, hj, hr⟩ | ⟨he, _⟩
  · obtain rfl := hl.unique hj
    rw [hr, Nat.mod_eq_of_lt h32]
    simp [h0, Cached.takeDblock]
  · exact absurd hm (by rw [show freeBelow c.dbitmap (dbitmapBits c.sbi) = ∅ from he]; simp)

/-- All a call of `get_free_dblock` can do when block 0 is in use: take the lowest free block in reach, or find none,
return 0 and change nothing. -/
theorem getFreeDblock_cases {c c' : Cached} {b : Nat} (h : getFreeDblock c = .ok (b, c'))
    (h0 : bit c.dbitmap 0 = false) (h32 : dbitmapBits c.sbi ≤ 2 ^ 32) :
    (b ≠ 0 ∧ Least c.dbitmap (dbitmapBits c.sbi) b ∧ c' = c.takeDblock b) ∨
    (b = 0 ∧ freeBelow c.dbitmap (dbitmapBits c.sbi) = ∅ ∧ c' = c) := by
  unfold getFreeDblock at h
  rcases getFirstFreeBit_cases (1024 * c.sbi.nrDbitmapBlocks) c.dbitmap
    (blockSize * c.sbi.nrDregionBlocks % 2 ^ 32) with ⟨j, hj, hr⟩ | ⟨he, hr | hr⟩
  · have hj0 : j ≠ 0 := by rintro rfl; have := hj.bit; rw [h0] at this; contradiction
    have hlt : j < 2 ^ 32 := lt_of_lt_of_le hj.lt h32
    rw [hr] at h
    simp only [ExceptLib.ok_bind, Nat.mod_eq_of_lt hlt, Except.ok.injEq, Prod.mk.injEq, ne_eq, hj0,
      not_false_eq_true, if_true] at h
    obtain ⟨rfl, rfl⟩ := h
    exact Or.inl ⟨hj0, hj, rfl⟩
  · rw [hr] at h
    simp only [ExceptLib.ok_bind, Except.ok.injEq, Prod.mk.injEq, ne_eq, not_true_eq_false, if_false] at h
    obtain ⟨rfl, rfl⟩ := h
    exact Or.inr ⟨rfl, he, rfl⟩
  · rw [hr] at h; cases h

/-- With a free inode in reach, `get_free_inode` takes the lowest one. -/
theorem getFreeInode_of_least {c : Cached} {i : Nat} (hl : Least c.ibitmap (ibitmapBits c.sbi) i)
    (h0 : i ≠ 0) (h32 : i < 2 ^ 32) : getFreeInode c = .ok (i, c.takeInode i) := by
  unfold getFreeInode
  rcases getFirstFreeBit_cases (nrInodes / 32) c.ibitmap
    (blockSize * c.sbi.nrIbitmapBlocks % 2 ^ 32) with ⟨j, hj, hr⟩ | ⟨he, _⟩
  · obtain rfl := hl.unique hj
    rw [hr, Nat.mod_eq_of_lt h32]
    simp [h0, Cached.takeInode]
  · have hm := mem_freeBelow.mpr ⟨hl.lt, hl.bit⟩
    rw [show freeBelow c.ibitmap (ibitmapBits c.sbi) = ∅ from he] at hm
    exact absurd hm (by simp)

/-- `put_inode` undoes the `get_free_inode` that took the inode. -/
theorem putInode_takeInode {c : Cached} {i : Nat} (hb : bit c.ibitmap i = true) (hi : i < nrInodes)
    (hn : c.sbi.nrFreeInodes < 2 ^ 32) : putInode (c.takeInode i) i = .ok c := by
  have hw : i / 32 < nrInodes / 32 := by unfold nrInodes at *; omega
  obtain ⟨⟨⟩, ib, inodeReg, dbitmap⟩ := c
  simp only [putInode, putFreeBit, Cached.takeInode, hw, if_true, ExceptLib.ok_bind, set_clear hb]
  rw [succ32_pred32 hn]

end Vsfs
