import Vsfs.Model.Bitmap

/-!
# `__alloc_block` and `vsfs_get_inode_info` of `vsfsio_spdk.h`

`allocBlock` grows an inode by `need_alloc` data blocks through the three levels of its block map. Pointer blocks are
read into a buffer, filled there and written back: `ptr_reg` for the block being filled, `l3_ptr_reg` for the block
that lists the pointer blocks of level 3. `vsfsGetInodeInfo` flattens the map into the copy an open file keeps.
-/

set_option autoImplicit false

namespace Vsfs

open Function

/-! ## `__alloc_block` -/

/-- `get_free_dblock(sb_cached)`. -/
def Volume.getFreeDblock (v : Volume) : M (Nat × Volume) := do
  let (b, c) ← Vsfs.getFreeDblock v.cached
  .ok (b, { v with cached := c })

/-- Taking a block changes the bitmap and the counter of free blocks. -/
theorem getFreeDblock_frame {v w : Volume} {b : Nat} (h : v.getFreeDblock = .ok (b, w)) :
    w.inode = v.inode ∧ w.cached.ibitmap = v.cached.ibitmap ∧ w.disk = v.disk ∧
      ∃ k, w.cached.sbi = { v.cached.sbi with nrFreeDblock := k } := by
  obtain ⟨⟨b', c⟩, hc, h⟩ := ExceptLib.bind_eq_ok.mp h
  cases h
  obtain ⟨⟨b', m⟩, _, hc⟩ := ExceptLib.bind_eq_ok.mp hc
  cases hc
  refine ⟨rfl, rfl, rfl, ?_⟩
  dsimp only
  split
  · exact ⟨_, rfl⟩
  · exact ⟨_, rfl⟩

/-- The loop of level 1: `count_down` is `n`, the index into `l1` is `i`. -/
def allocLevel1 (ino : Nat) : Nat → Nat → Volume → M (Nat × Volume)
  | 0, _, v => .ok (0, v)
  | n + 1, i, v =>
    if i < level1Limit then do
      let (b, v) ← v.getFreeDblock
      allocLevel1 ino n (i + 1)
        (v.modInode ino fun x => { x with l1 := update x.l1 i b, blocks := succ32 x.blocks })
    else .ok (n + 1, v)

/-- The loop that fills the pointer block `ptr_reg` from entry `j` on, `count_down` being `n`. -/
def fillPointers (ino : Nat) : Nat → Nat → Block → Volume → M (Nat × Block × Volume)
  | 0, _, ptr, v => .ok (0, ptr, v)
  | n + 1, j, ptr, v =>
    if j < pointerPerBlock then do
      let (b, v) ← v.getFreeDblock
      fillPointers ino n (j + 1) (setPointer ptr j b) (v.modInode ino fun x => { x with blocks := succ32 x.blocks })
    else .ok (n + 1, ptr, v)

/-- The loop of level 2 over `l2[i]`, with `fuel` indices left below 5; `start` is `start_block_l1`. -/
def allocLevel2 (ofs ino : Nat) : Nat → Nat → Nat → Nat → Volume → M (Nat × Volume)
  | 0, _, _, n, v => .ok (n, v)
  | fuel + 1, i, start, n, v =>
    if n = 0 then .ok (0, v)
    else do
      let v ← (if start = 0 then do
          let (b, v) ← v.getFreeDblock
          .ok (v.modInode ino fun x => { x with l2 := update x.l2 i b })
        else .ok v : M Volume)
      let lba := ofs + (v.inode ino).l2 i
      let (n, ptr, v) ← fillPointers ino n start (v.disk lba) v
      allocLevel2 ofs ino fuel (i + 1) 0 n (v.writeBlock lba ptr)

/-- The loop of level 3 over the entries `i` of `l3_ptr_reg`, with `fuel` entries left below 1024. -/
def allocLevel3 (ofs ino : Nat) : Nat → Nat → Nat → Nat → Block → Volume → M (Nat × Block × Volume)
  | 0, _, _, n, l3, v => .ok (n, l3, v)
  | fuel + 1, i, start, n, l3, v =>
    if n = 0 then .ok (0, l3, v)
    else do
      let (l3, v) ← (if start = 0 then do
          let (b, v) ← v.getFreeDblock
          .ok (setPointer l3 i b, v)
        else .ok (l3, v) : M (Block × Volume))
      let lba := ofs + pointer l3 i
      let (n, ptr, v) ← fillPointers ino n start (v.disk lba) v
      allocLevel3 ofs ino fuel (i + 1) 0 n l3 (v.writeBlock lba ptr)

/-- From the label `level3` on, with `count_down` = `n`. -/
def allocFromLevel3 (ofs ino n : Nat) (v : Volume) : M (Nat × Volume) := do
  let realBlocks := (v.inode ino).blocks - level2Limit
  let startL1 := realBlocks % pointerPerBlock
  let startL2 := realBlocks / pointerPerBlock % 65536
  let v ← (if realBlocks = 0 then do
      let (b, v) ← v.getFreeDblock
      .ok (v.modInode ino fun x => { x with l3 := b })
    else .ok v : M Volume)
  let lba := ofs + (v.inode ino).l3
  let (n, l3, v) ← allocLevel3 ofs ino (pointerPerBlock - startL2) startL2 startL1 n (v.disk lba) v
  .ok (if n = 0 then 0 else 1, v.writeBlock lba l3)

/-- From the label `level2` on, with `count_down` = `n`. -/
def allocFromLevel2 (ofs ino n : Nat) (v : Volume) : M (Nat × Volume) := do
  let realBlocks := (v.inode ino).blocks - level1Limit
  let startL1 := realBlocks % pointerPerBlock
  let startL2 := realBlocks / pointerPerBlock
  let (n, v) ← allocLevel2 ofs ino (5 - startL2) startL2 startL1 n v
  if n = 0 then .ok (0, v) else allocFromLevel3 ofs ino n v

/-- `__alloc_block(data_reg_offset, inode_nr, need_alloc)`. -/
def allocBlock (ofs ino needAlloc : Nat) (v : Volume) : M (Nat × Volume) := do
  let x ← v.inodeAt ino
  if level2Limit ≤ x.blocks then allocFromLevel3 ofs ino needAlloc v
  else if level1Limit ≤ x.blocks then allocFromLevel2 ofs ino needAlloc v
  else do
    let (n, v) ← allocLevel1 ino needAlloc x.blocks v
    if n = 0 then .ok (0, v) else allocFromLevel2 ofs ino n v

/-! ## `vsfs_get_inode_info` -/

/-- The size a file has: the stored 32-bit size, with the sentinel for 4 GiB. -/
def Inode.fileSize (x : Inode) : Nat := if x.size = 0 ∧ x.blocks = 1048576 then 0x100000000 else x.size

/-- The inner loop, from entry `j` of a pointer block on, with `fuel` entries left below 1024; `blks` counts down. -/
def copyPointers (ptr : Block) : Nat → Nat → Nat → List Nat → Nat × List Nat
  | 0, _, blks, block => (blks, block)
  | fuel + 1, j, blks, block =>
    if blks = 0 then (0, block) else copyPointers ptr fuel (j + 1) (blks - 1) (block ++ [pointer ptr j])

/-- The loop over `l2[i]`, with `fuel` indices left below 5. -/
def infoLevel2 (v : Volume) (x : Inode) : Nat → Nat → Nat → File → Nat × File
  | 0, _, blks, f => (blks, f)
  | fuel + 1, i, blks, f =>
    if blks = 0 then (0, f)
    else
      let (blks, block) := copyPointers (v.disk (v.lba (x.l2 i))) pointerPerBlock 0 blks f.block
      infoLevel2 v x fuel (i + 1) blks { f with block := block, l2Block := update f.l2Block i (x.l2 i) }

/-- The loop over the entries `i` of the level-3 block, with `fuel` entries left below 1024. The array `l2_block` has
1024 elements. -/
def infoLevel3 (v : Volume) (l3 : Block) : Nat → Nat → Nat → File → M File
  | 0, _, _, f => .ok f
  | fuel + 1, i, blks, f =>
    if blks = 0 then .ok f
    else if 1024 ≤ i + 5 then .error .outOfBounds
    else
      let (blks, block) := copyPointers (v.disk (v.lba (pointer l3 i))) pointerPerBlock 0 blks f.block
      infoLevel3 v l3 fuel (i + 1) blks
        { f with block := block, l2Block := update f.l2Block (i + 5) (pointer l3 i) }

/-- `vsfs_get_inode_info(file, inode_num)` with the cached data mapped: the contents it gives to `*file`. -/
def vsfsGetInodeInfo (v : Volume) (inodeNum : Nat) : M File := do
  let x ← v.inodeAt inodeNum
  let f : File :=
    { size := x.fileSize, mode := x.mode, blocks := x.blocks
      block := (List.range (min x.blocks level1Limit)).map x.l1
      l2Block := fun _ => 0, l3Block := 0, inode := inodeNum
      atime := x.atime, ctime := x.ctime, mtime := x.mtime }
  let blks := x.blocks - min x.blocks level1Limit
  if blks = 0 then .ok f
  else
    let (blks, f) := infoLevel2 v x 5 0 blks f
    if blks = 0 then .ok f
    else infoLevel3 v (v.disk (v.lba x.l3)) pointerPerBlock 0 blks { f with l3Block := x.l3 }

end Vsfs
