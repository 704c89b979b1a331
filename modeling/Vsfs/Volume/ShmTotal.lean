import Vsfs.Volume.ShmWrite
import Vsfs.Volume.Supply

/-!
# `__alloc_block` counted in both variants

The versions of `__alloc_block` differ in where a pointer block is filled, and what they count does not depend on it.
Whatever the maps are like, they run alike on the sizes, the block counts, the bitmaps and the counters, so what the
loops of one version count holds of the other.

- `getFreeDblock_alike`, `fillPointers_alike`, `allocLevel2_alike`, `allocLevel3_alike`: the loops;
- `allocBlock_alike`: `__alloc_block`;
- `Shm.allocBlock_count`, `Shm.allocBlock_takes`: the blocks that an inode gets, and when it gets them.
-/

set_option autoImplicit false

namespace Vsfs

open Function ExceptLib WordBits

variable {v w : Volume} {u u' : Shm.Segments} {e : Cached} {p : Nat → Prop} {ofs i n m : Nat}

/-! ## The same counts -/

/-- The sizes and block counts of the inodes, the bitmaps and the counters are the same on both sides. -/
structure SameCounts (v : Volume) (u : Shm.Segments) : Prop where
  size : ∀ j, (u.inodes j).size = (v.inode j).size
  blocks : ∀ j, (u.inodes j).blocks = (v.inode j).blocks
  ibitmap : u.cached.ibitmap = v.cached.ibitmap
  dbitmap : u.cached.dbitmap = v.cached.dbitmap
  sbi : u.cached.sbi = v.cached.sbi

/-- Results with a number that is the same and counts that are the same. -/
def SameResult (r : Nat × Volume) (s : Nat × Shm.Segments) : Prop := r.1 = s.1 ∧ SameCounts r.2 s.2

/-- An inode is changed in the same way on both sides. -/
theorem SameCounts.modInode {f g : Inode → Inode} (h : SameCounts v u)
    (hsize : (g (u.inodes i)).size = (f (v.inode i)).size) (hblocks : (g (u.inodes i)).blocks = (f (v.inode i)).blocks) :
    SameCounts (v.modInode i f) (u.modInode i g) := by
  refine ⟨fun j => ?_, fun j => ?_, h.ibitmap, h.dbitmap, h.sbi⟩
  · by_cases hj : j = i
    · subst hj
      simpa [Shm.Segments.modInode] using hsize
    · simpa [Shm.Segments.modInode, hj] using h.size j
  · by_cases hj : j = i
    · subst hj
      simpa [Shm.Segments.modInode] using hblocks
    · simpa [Shm.Segments.modInode, hj] using h.blocks j

theorem SameCounts.writeBlock (h : SameCounts v u) (lba : Nat) (b : Block) : SameCounts (v.writeBlock lba b) u :=
  ⟨h.size, h.blocks, h.ibitmap, h.dbitmap, h.sbi⟩

theorem SameCounts.setEntry (h : SameCounts v u) (a j b : Nat) : SameCounts v (u.setEntry a j b) :=
  ⟨h.size, h.blocks, h.ibitmap, h.dbitmap, h.sbi⟩

theorem getFreeDblock_alike (h : SameCounts v u) : Alike SameResult v.getFreeDblock u.getFreeDblock := by
  unfold Volume.getFreeDblock Shm.Segments.getFreeDblock Vsfs.getFreeDblock
  rw [h.sbi, h.dbitmap]
  cases getFirstFreeBit (1024 * v.cached.sbi.nrDbitmapBlocks) v.cached.dbitmap
      (blockSize * v.cached.sbi.nrDregionBlocks % 2 ^ 32) with
  | error e => exact .error e
  | ok r => exact .ok ⟨rfl, h.size, h.blocks, h.ibitmap, rfl, rfl⟩

/-! ## The loops -/

theorem allocLevel1_alike {k : Nat} (h : SameCounts v u) :
    Alike SameResult (allocLevel1 i n k v) (Shm.allocLevel1 i n k u) := by
  induction n generalizing k v u with
  | zero => exact .ok ⟨rfl, h⟩
  | succ n ih =>
    unfold allocLevel1 Shm.allocLevel1
    split
    · apply (getFreeDblock_alike h).bind
      rintro ⟨b, v'⟩ ⟨_, u'⟩ ⟨rfl, h'⟩
      apply ih
      apply h'.modInode
      · exact h'.size i
      · exact congrArg succ32 (h'.blocks i)
    · exact .ok ⟨rfl, h⟩

theorem fillPointers_alike {a j : Nat} {x : Block} (h : SameCounts v u) :
    Alike (fun r s => SameResult (r.1, r.2.2) s) (fillPointers i n j x v) (Shm.fillPointers i a n j u) := by
  induction n generalizing j x v u with
  | zero => exact .ok ⟨rfl, h⟩
  | succ n ih =>
    unfold fillPointers Shm.fillPointers
    split
    · apply (getFreeDblock_alike h).bind
      rintro ⟨b, v'⟩ ⟨_, u'⟩ ⟨rfl, h'⟩
      apply ih
      apply (h'.setEntry a j b).modInode
      · exact h'.size i
      · exact congrArg succ32 (h'.blocks i)
    · exact .ok ⟨rfl, h⟩

/-- A block for a field of the inode that is not counted. -/
theorem takePointer_alike {c : Prop} [Decidable c] (f : Nat → Inode → Inode) (h : SameCounts v u)
    (hf : ∀ b x, (f b x).size = x.size ∧ (f b x).blocks = x.blocks) :
    Alike SameCounts (if c then do
        let (b, v) ← v.getFreeDblock
        .ok (v.modInode i (f b))
      else .ok v : M Volume) (if c then do
        let (b, u) ← u.getFreeDblock
        .ok (u.modInode i (f b))
      else .ok u : M Shm.Segments) := by
  split
  · apply (getFreeDblock_alike h).bind
    rintro ⟨b, v'⟩ ⟨_, u'⟩ ⟨rfl, h'⟩
    refine .ok (h'.modInode ?_ ?_)
    · rw [(hf b _).1, (hf b _).1]
      exact h'.size i
    · rw [(hf b _).2, (hf b _).2]
      exact h'.blocks i
  · exact .ok h

theorem allocLevel2_alike {fuel j start : Nat} (h : SameCounts v u) :
    Alike SameResult (allocLevel2 ofs i fuel j start n v) (Shm.allocLevel2 i fuel j start n u) := by
  induction fuel generalizing j start n v u with
  | zero => exact .ok ⟨rfl, h⟩
  | succ fuel ih =>
    unfold allocLevel2 Shm.allocLevel2
    split
    · exact .ok ⟨rfl, h⟩
    · apply (takePointer_alike (fun b x => { x with l2 := update x.l2 j b }) h fun _ _ => ⟨rfl, rfl⟩).bind
      intro v₁ u₁ h₁
      apply (fillPointers_alike h₁).bind
      rintro ⟨k, y, v₂⟩ ⟨_, u₂⟩ ⟨rfl, h₂⟩
      exact ih (h₂.writeBlock _ y)

theorem allocLevel3_alike {fuel q start a : Nat} {x : Block} (h : SameCounts v u) :
    Alike (fun r s => SameResult (r.1, r.2.2) s) (allocLevel3 ofs i fuel q start n x v)
      (Shm.allocLevel3 i a fuel q start n u) := by
  induction fuel generalizing q start n x v u with
  | zero => exact .ok ⟨rfl, h⟩
  | succ fuel ih =>
    unfold allocLevel3 Shm.allocLevel3
    split
    · exact .ok ⟨rfl, h⟩
    · have hstart : Alike (fun r s => SameCounts r.2 s) (if start = 0 then do
          let (b, v) ← v.getFreeDblock
          .ok (setPointer x q b, v)
        else .ok (x, v) : M (Block × Volume)) (if start = 0 then do
          let (b, u) ← u.getFreeDblock
          .ok (u.setEntry a q b)
        else .ok u : M Shm.Segments) := by
        split
        · apply (getFreeDblock_alike h).bind
          rintro ⟨b, v'⟩ ⟨_, u'⟩ ⟨rfl, h'⟩
          exact .ok (h'.setEntry a q b)
        · exact .ok h
      apply hstart.bind
      rintro ⟨x₁, v₁⟩ u₁ h₁
      apply (fillPointers_alike h₁).bind
      rintro ⟨k, y, v₂⟩ ⟨_, u₂⟩ ⟨rfl, h₂⟩
      exact ih (h₂.writeBlock _ y)

/-! ## `__alloc_block` -/

theorem allocFromLevel3_alike (h : SameCounts v u) :
    Alike SameResult (allocFromLevel3 ofs i n v) (Shm.allocFromLevel3 i n u) := by
  unfold allocFromLevel3 Shm.allocFromLevel3
  rw [h.blocks i]
  apply (takePointer_alike (fun b x => { x with l3 := b }) h fun _ _ => ⟨rfl, rfl⟩).bind
  intro v₁ u₁ h₁
  apply (allocLevel3_alike h₁).bind
  rintro ⟨k, y, v₂⟩ ⟨_, u₂⟩ ⟨rfl, h₂⟩
  exact .ok ⟨rfl, h₂.writeBlock _ y⟩

theorem allocFromLevel2_alike (h : SameCounts v u) :
    Alike SameResult (allocFromLevel2 ofs i n v) (Shm.allocFromLevel2 i n u) := by
  unfold allocFromLevel2 Shm.allocFromLevel2
  rw [h.blocks i]
  apply (allocLevel2_alike h).bind
  rintro ⟨k, v₁⟩ ⟨_, u₁⟩ ⟨rfl, h₁⟩
  dsimp only
  split
  · exact .ok ⟨rfl, h₁⟩
  · exact allocFromLevel3_alike h₁

/-- **The two versions of `__alloc_block`** take the same blocks, give an inode the same number of them and fail
alike. -/
theorem allocBlock_alike (ofs i n : Nat) (h : SameCounts v u) :
    Alike SameResult (allocBlock ofs i n v) (Shm.allocBlock i n u) := by
  unfold allocBlock Shm.allocBlock Volume.inodeAt
  by_cases hi : i < nrInodes
  · rw [if_pos hi, if_neg (Nat.not_le.mpr hi), ok_bind, h.blocks i]
    split
    · exact allocFromLevel3_alike h
    split
    · exact allocFromLevel2_alike h
    apply (allocLevel1_alike h).bind
    rintro ⟨k, v₁⟩ ⟨_, u₁⟩ ⟨rfl, h₁⟩
    dsimp only
    split
    · exact .ok ⟨rfl, h₁⟩
    · exact allocFromLevel2_alike h₁
  · rw [if_neg hi, if_pos (Nat.not_lt.mp hi)]
    exact .error _

/-! ## The shared-memory variant -/

namespace Shm

variable {r : Nat}

theorem sameCounts_toVolume (u : Segments) : SameCounts u.toVolume u := ⟨fun _ => rfl, fun _ => rfl, rfl, rfl, rfl⟩

/-- The sizes and block counts that an allocation for inode `i` leaves: `c` blocks more for it. -/
structure Allotted (i c : Nat) (u u' : Segments) : Prop where
  size : ∀ j, (u'.inodes j).size = (u.inodes j).size
  other : ∀ j, j ≠ i → (u'.inodes j).blocks = (u.inodes j).blocks
  blocks : (u.inodes i).blocks + c < 2 ^ 32 → (u'.inodes i).blocks = (u.inodes i).blocks + c

/-- **The blocks that an inode gets**: those asked for, as far as its map reaches. -/
theorem allocBlock_count (h : allocBlock i n u = .ok (r, u')) :
    Allotted i (min n (allocLeft (u.inodes i).blocks)) u u' := by
  obtain ⟨⟨m, w⟩, hw, -, hc⟩ := (allocBlock_alike 0 i n (sameCounts_toVolume u)).of_right h
  have hf := Vsfs.allocBlock_count hw
  refine ⟨fun j => ?_, fun j hj => ?_, fun hlt => ?_⟩
  · rw [hc.size]
    by_cases hj : j = i
    · rw [hj]
      exact hf.head.size
    · exact congrArg Inode.size (hf.other j hj)
  · rw [hc.blocks]
    exact congrArg Inode.blocks (hf.other j hj)
  · rw [hc.blocks]
    exact hf.blocks hlt

/-- With calls of the allocator that succeed an inode gets the blocks asked for. -/
theorem allocBlock_takes (hi : i < nrInodes) (hn : (u.inodes i).blocks + n ≤ level3Limit)
    (ht : Takes p e (allocTakes (u.inodes i).blocks n) u.cached) : ∃ u', allocBlock i n u = .ok (0, u') := by
  obtain ⟨w, hw, -⟩ : ∃ w, Vsfs.allocBlock 0 i n u.toVolume = .ok (0, w) ∧ Takes p e 0 w.cached :=
    Vsfs.allocBlock_takes hi hn (ht.congr rfl rfl)
  obtain ⟨⟨m, u'⟩, hu, rfl, -⟩ := (allocBlock_alike 0 i n (sameCounts_toVolume u)).of_left hw
  exact ⟨u', hu⟩

end Shm

end Vsfs
