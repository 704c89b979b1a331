import Vsfs.Model.ShmIO

/-!
# `__return_block` of `vsfsio.h`

It takes blocks off the end of a file: through the entries of level 3 and of level 2 from the last one in use down, and
then through `l1`, there from its last entry down. The loops of levels 2 and 3 differ in the table of pointer blocks
that they go through, so they are one loop with the table as a parameter.
-/

set_option autoImplicit false

namespace Vsfs

/-- `put_dblock` of one block after the other. -/
def putDblocks : List Nat → Cached → M Cached
  | [], c => .ok c
  | b :: bs, c => do
    let c ← putDblock c b
    putDblocks bs c

namespace Shm

/-- `put_dblock(sb_cached, ..)` of one block after the other. -/
def Segments.putDblocks (bs : List Nat) (u : Segments) : M Segments := do
  let c ← Vsfs.putDblocks bs u.cached
  .ok { u with cached := c }

/-- `inode_reg[ino].blocks--`. -/
def Segments.dropBlock (ino : Nat) (u : Segments) : Segments :=
  u.modInode ino fun x => { x with blocks := pred32 x.blocks }

/-- The loop over the pointer block `ptr_reg = &data_reg[a]`, from the last of its first `j` entries down, `need_return`
being `n`; the blocks `ptrs` are put with entry 0. -/
def returnPointers (ino a : Nat) (ptrs : List Nat) : Nat → Nat → Segments → M (Nat × Segments)
  | 0, n, u => .ok (n, u)
  | j + 1, n, u =>
    if n = 0 then .ok (0, u)
    else do
      let u ← u.putDblocks [pointer (u.data a) j]
      let u ← (u.dropBlock ino).putDblocks (if j = 0 then ptrs else [])
      returnPointers ino a ptrs j (n - 1) u

/-- The loop over the pointer blocks `table u i`, from the last of the first `i` of them down; `limit` of them have an
entry in the table, and `start` is `start_block_l1`. The blocks `roots u i` are put behind pointer block `i`. -/
def returnTable (ino limit : Nat) (table : Segments → Nat → Nat) (roots : Segments → Nat → List Nat) :
    Nat → Nat → Nat → Segments → M (Nat × Segments)
  | 0, _, n, u => .ok (n, u)
  | i + 1, start, n, u =>
    if n = 0 then .ok (0, u)
    else if limit ≤ i then .error .outOfBounds
    else do
      let (n, u) ← returnPointers ino (table u i) (table u i :: roots u i) (start + 1) n u
      returnTable ino limit table roots i 1023 n u

/-- The loop of level 3, over the entries of the block of `l3`; this block is put behind the first of them. -/
def returnLevel3 (ino : Nat) : Nat → Nat → Nat → Segments → M (Nat × Segments) :=
  returnTable ino pointerPerBlock (fun u i => pointer (u.data (u.inodes ino).l3) i)
    fun u i => if i = 0 then [(u.inodes ino).l3] else []

/-- The loop of level 2, over `l2`. -/
def returnLevel2 (ino : Nat) : Nat → Nat → Nat → Segments → M (Nat × Segments) :=
  returnTable ino 5 (fun u i => (u.inodes ino).l2 i) fun _ _ => []

/-- The loop of level 1, from the last of the first `i` entries of `l1` down. -/
def returnLevel1 (ino : Nat) : Nat → Nat → Segments → M (Nat × Segments)
  | 0, n, u => .ok (n, u)
  | i + 1, n, u =>
    if n = 0 then .ok (0, u)
    else do
      let u ← u.putDblocks [(u.inodes ino).l1 i]
      returnLevel1 ino i (n - 1) (u.dropBlock ino)

/-- From the label `re_level1` on, with `need_return` = `n`; the loop starts at the last entry of `l1`. -/
def returnFromLevel1 (ino n : Nat) (u : Segments) : M (Nat × Segments) := do
  let (n, u) ← returnLevel1 ino level1Limit n u
  .ok (if n = 0 then 0 else 1, u)

/-- From the label `re_level2` on, with `need_return` = `n`. -/
def returnFromLevel2 (ino n : Nat) (u : Segments) : M (Nat × Segments) := do
  let realBlocks := (u.inodes ino).blocks - 1 - level1Limit
  let startL1 := realBlocks % pointerPerBlock
  let startL2 := realBlocks / pointerPerBlock % 65536
  let (n, u) ← returnLevel2 ino (startL2 + 1) startL1 n u
  if n = 0 then .ok (0, u) else returnFromLevel1 ino n u

/-- From level 3 on, with `need_return` = `n`. -/
def returnFromLevel3 (ino n : Nat) (u : Segments) : M (Nat × Segments) := do
  let realBlocks := (u.inodes ino).blocks - 1 - level2Limit
  let startL1 := realBlocks % pointerPerBlock
  let startL2 := realBlocks / pointerPerBlock % 65536
  let (n, u) ← returnLevel3 ino (startL2 + 1) startL1 n u
  if n = 0 then .ok (0, u) else returnFromLevel2 ino n u

/-- `__return_block(inode_reg, data_reg, target_op, nbyte)`. -/
def returnBlock (op : OpEntry) (nbyte : Nat) (u : Segments) : M (Nat × Segments) :=
  if nrInodes ≤ op.inodeNr then .error .outOfBounds
  else
    let blocks := (u.inodes op.inodeNr).blocks
    let total := neededBlocks ((op.offset + nbyte) % 2 ^ 64)
    let needReturn := if total < blocks then blocks - total else 0
    if blocks ≤ level1Limit then returnFromLevel1 op.inodeNr needReturn u
    else if blocks ≤ level2Limit then returnFromLevel2 op.inodeNr needReturn u
    else returnFromLevel3 op.inodeNr needReturn u

end Shm

end Vsfs
