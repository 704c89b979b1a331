import Vsfs.Model.AllocBlock

/-!
# `__alloc_block` of `vsfsio.h`

The version for the segment `vsfs`: the inode region and the data region are arrays, `ptr_reg` and `l3_ptr_reg` point
into the data region, and an entry of a pointer block is assigned where it is.
-/

set_option autoImplicit false

namespace Vsfs.Shm

open Function

/-- The inode region and the data region of the segment `vsfs`, and the segment `vsfs_cached`. -/
structure Segments where
  inodes : Nat → Inode
  data : Nat → Block
  cached : Cached

/-- Apply `f` to inode `i`. -/
def Segments.modInode (u : Segments) (i : Nat) (f : Inode → Inode) : Segments :=
  { u with inodes := update u.inodes i (f (u.inodes i)) }

/-- Assign entry `j` of the pointer block `data_reg[a]`. -/
def Segments.setEntry (u : Segments) (a j b : Nat) : Segments :=
  { u with data := update u.data a (setPointer (u.data a) j b) }

/-- `get_free_dblock(sb_cached)`. -/
def Segments.getFreeDblock (u : Segments) : M (Nat × Segments) := do
  let (b, c) ← Vsfs.getFreeDblock u.cached
  .ok (b, { u with cached := c })

/-- The loop of level 1: `count_down` is `n`, the index into `l1` is `i`. -/
def allocLevel1 (ino : Nat) : Nat → Nat → Segments → M (Nat × Segments)
  | 0, _, u => .ok (0, u)
  | n + 1, i, u =>
    if i < level1Limit then do
      let (b, u) ← u.getFreeDblock
      allocLevel1 ino n (i + 1)
        (u.modInode ino fun x => { x with l1 := update x.l1 i b, blocks := succ32 x.blocks })
    else .ok (n + 1, u)

/-- The loop over the pointer block `ptr_reg = &data_reg[a]` from entry `j` on, `count_down` being `n`. -/
def fillPointers (ino a : Nat) : Nat → Nat → Segments → M (Nat × Segments)
  | 0, _, u => .ok (0, u)
  | n + 1, j, u =>
    if j < pointerPerBlock then do
      let (b, u) ← u.getFreeDblock
      fillPointers ino a n (j + 1) ((u.setEntry a j b).modInode ino fun x => { x with blocks := succ32 x.blocks })
    else .ok (n + 1, u)

/-- The loop of level 2 over `l2[i]`, with `fuel` indices left below 5; `start` is `start_block_l1`. -/
def allocLevel2 (ino : Nat) : Nat → Nat → Nat → Nat → Segments → M (Nat × Segments)
  | 0, _, _, n, u => .ok (n, u)
  | fuel + 1, i, start, n, u =>
    if n = 0 then .ok (0, u)
    else do
      let u ← (if start = 0 then do
          let (b, u) ← u.getFreeDblock
          .ok (u.modInode ino fun x => { x with l2 := update x.l2 i b })
        else .ok u : M Segments)
      let (n, u) ← fillPointers ino ((u.inodes ino).l2 i) n start u
      allocLevel2 ino fuel (i + 1) 0 n u

/-- The loop of level 3 over the entries `i` of `l3_ptr_reg = &data_reg[l3]`, with `fuel` entries left below 1024. -/
def allocLevel3 (ino l3 : Nat) : Nat → Nat → Nat → Nat → Segments → M (Nat × Segments)
  | 0, _, _, n, u => .ok (n, u)
  | fuel + 1, i, start, n, u =>
    if n = 0 then .ok (0, u)
    else do
      let u ← (if start = 0 then do
          let (b, u) ← u.getFreeDblock
          .ok (u.setEntry l3 i b)
        else .ok u : M Segments)
      let (n, u) ← fillPointers ino (pointer (u.data l3) i) n start u
      allocLevel3 ino l3 fuel (i + 1) 0 n u

/-- From the label `level3` on, with `count_down` = `n`. -/
def allocFromLevel3 (ino n : Nat) (u : Segments) : M (Nat × Segments) := do
  let realBlocks := (u.inodes ino).blocks - level2Limit
  let startL1 := realBlocks % pointerPerBlock
  let startL2 := realBlocks / pointerPerBlock % 65536
  let u ← (if realBlocks = 0 then do
      let (b, u) ← u.getFreeDblock
      .ok (u.modInode ino fun x => { x with l3 := b })
    else .ok u : M Segments)
  let (n, u) ← allocLevel3 ino (u.inodes ino).l3 (pointerPerBlock - startL2) startL2 startL1 n u
  .ok (if n = 0 then 0 else 1, u)

/-- From the label `level2` on, with `count_down` = `n`. -/
def allocFromLevel2 (ino n : Nat) (u : Segments) : M (Nat × Segments) := do
  let realBlocks := (u.inodes ino).blocks - level1Limit
  let startL1 := realBlocks % pointerPerBlock
  let startL2 := realBlocks / pointerPerBlock
  let (n, u) ← allocLevel2 ino (5 - startL2) startL2 startL1 n u
  if n = 0 then .ok (0, u) else allocFromLevel3 ino n u

/-- `__alloc_block(inode_reg, data_reg, inode_nr, need_alloc)`; the inode region has `VSFS_NR_INODES` inodes. -/
def allocBlock (ino needAlloc : Nat) (u : Segments) : M (Nat × Segments) :=
  if nrInodes ≤ ino then .error .outOfBounds
  else if level2Limit ≤ (u.inodes ino).blocks then allocFromLevel3 ino needAlloc u
  else if level1Limit ≤ (u.inodes ino).blocks then allocFromLevel2 ino needAlloc u
  else do
    let (n, u) ← allocLevel1 ino needAlloc (u.inodes ino).blocks u
    if n = 0 then .ok (0, u) else allocFromLevel2 ino n u

end Vsfs.Shm
