import Vsfs.Model.Shm
import Vsfs.Model.ShmAlloc
import Vsfs.Model.SpdkIO

/-!
# Creating, reading, writing and seeking in `vsfsio.h`

The variant has no file object: the size and the block map are read from the inode, and the data is copied from and to
the data region. `__write_dblock` and `__read_dblock` walk through the map in the same way; `throughMap` is that walk,
with what is done at a block as a parameter.
-/

set_option autoImplicit false

namespace Vsfs.Shm

open Function ByteSeq

/-- The process with the segment `vsfs_cached`. -/
structure Process extends State where
  cached : Cached

/-- What is in the segments. -/
def Process.seg (s : Process) : Segments := { inodes := s.inodes, data := s.data, cached := s.cached }

/-- The process with `u` in the segments. -/
def Process.withSeg (s : Process) (u : Segments) : Process :=
  { s with inodes := u.inodes, data := u.data, cached := u.cached }

/-! ## The walk through the block map -/

/-- The variables of a copy: `written` or `readed`, `left`, `offset` in the block and `target_op->offset`. -/
structure Cursor where
  done : Nat
  left : Nat
  offset : Nat
  pos : Nat

/-- `write_length` or `read_length`. -/
def Cursor.length (c : Cursor) : Nat := roundLength c.offset c.left

/-- After a block. -/
def Cursor.next (c : Cursor) : Cursor :=
  { done := c.done + c.length, left := c.left - c.length, offset := 0, pos := (c.pos + c.length) % 2 ^ 64 }

/-- At the start of a copy of `left` bytes. -/
def Cursor.start (pos left : Nat) : Cursor := { done := 0, left := left, offset := pos % blockSize, pos := pos }

section

variable {σ : Type} (view : σ → Segments) (act : Nat → Cursor → σ → σ)

/-- The loop over the blocks `block s j` from `j` on, with `fuel` of them left. -/
def loopBlocks (block : σ → Nat → Nat) : Nat → Nat → Cursor → σ → Cursor × σ
  | 0, _, c, s => (c, s)
  | fuel + 1, j, c, s =>
    if c.left = 0 then (c, s) else loopBlocks block fuel (j + 1) c.next (act (block s j) c s)

/-- The loop over the pointer blocks `ptr s i` from `i` on, with `fuel` of them left; `start` is `start_block_l1`. -/
def loopPointers (ptr : σ → Nat → Nat) : Nat → Nat → Nat → Cursor → σ → Cursor × σ
  | 0, _, _, c, s => (c, s)
  | fuel + 1, i, start, c, s =>
    if c.left = 0 then (c, s)
    else
      let a := ptr s i
      let (c, s) := loopBlocks act (fun s j => pointer ((view s).data a) j) (pointerPerBlock - start) start c s
      loopPointers ptr fuel (i + 1) 0 c s

/-- The loops of level 3, with `start_block_l2` and `start_block_l1`. -/
def loopLevel3 (ino startL2 startL1 : Nat) (c : Cursor) (s : σ) : Cursor × σ :=
  let l3 := ((view s).inodes ino).l3
  loopPointers view act (fun s i => pointer ((view s).data l3) i) (pointerPerBlock - startL2) startL2 startL1 c s

/-- From the label `write_level_3` or `read_level_3` on. -/
def fromLevel3 (ino : Nat) (c : Cursor) (s : σ) : Cursor × σ :=
  let realBlocks := sub32 (c.pos / blockSize) level2Limit
  loopLevel3 view act ino (realBlocks / pointerPerBlock % 65536) (realBlocks % pointerPerBlock)
    { c with offset := c.pos % blockSize } s

/-- The loops of level 2 and what follows them. -/
def loopLevel2 (ino startL2 startL1 : Nat) (c : Cursor) (s : σ) : Cursor × σ :=
  let (c, s) := loopPointers view act (fun s i => ((view s).inodes ino).l2 i) (5 - startL2) startL2 startL1 c s
  if c.left = 0 then (c, s) else fromLevel3 view act ino c s

/-- From the label `write_level_2` or `read_level_2` on. -/
def fromLevel2 (ino : Nat) (c : Cursor) (s : σ) : Cursor × σ :=
  let realBlocks := sub32 (c.pos / blockSize) level1Limit
  loopLevel2 view act ino (realBlocks / pointerPerBlock % 65536) (realBlocks % pointerPerBlock)
    { c with offset := c.pos % blockSize } s

/-- The loop of level 1 and what follows it. -/
def loopLevel1 (ino start : Nat) (c : Cursor) (s : σ) : Cursor × σ :=
  let (c, s) := loopBlocks act (fun s j => ((view s).inodes ino).l1 j) (level1Limit - start) start c s
  if c.left = 0 then (c, s) else fromLevel2 view act ino c s

/-- The walk from `target_op->offset` on. The number of the first block is kept in 16 bits. -/
def throughMap (ino : Nat) (c : Cursor) (s : σ) : Cursor × σ :=
  let start := c.pos / blockSize % 65536
  if level2Limit ≤ start then fromLevel3 view act ino c s
  else if level1Limit ≤ start then fromLevel2 view act ino c s
  else loopLevel1 view act ino start c s

end

/-! ## `vsfs_write` -/

/-- The `memcpy` into block `a`. -/
def copyIn (buf : Bytes) (a : Nat) (c : Cursor) (u : Segments) : Segments :=
  { u with data := update u.data a (copy (u.data a) c.offset (fun k => buf (c.done + k)) c.length) }

/-- `__write_dblock(inode_reg, data_reg, target_op, nbyte, buf)` for inode `ino`, at `pos`: the result of `vsfs_write`,
`target_op->offset` and the segments. -/
def writeDblock (ino pos nbyte : Nat) (buf : Bytes) (u : Segments) : Int × Nat × Segments :=
  let (c, u) := throughMap id (copyIn buf) ino (.start pos nbyte) u
  (if c.left = 0 then toInt32 c.done else -1, c.pos, u)

/-- `vsfs_write(fildes, buf, nbyte)`. `sb` and the slot are read before any check. -/
def vsfsWrite (now : Nat) (fildes : Int) (buf : Bytes) (nbyte : UInt64) (s : Process) : M (Int × Process) := do
  match ← s.desc.findTarget fildes with
  | none => .error .nullDeref
  | some (_, fd) => do
    let p ← fd.slot
    let op := s.desc.opFtable p
    let fin := (op.offset + nbyte.toNat) % 2 ^ 64
    let total := neededBlocks fin
    if s.sb = false then .error .nullDeref
    else if s.desc.opCounter = false then .ok (-1, s)
    else do
      let flags ← fd.accessMode
      if flags = oRdonly then .ok (-1, s)
      else if s.sbCached = false then .ok (-1, s)
      else if level3LimitTimesBlockSize < fin then .ok (-1, s)
      else if 0x100000000 < fin / blockSize then .ok (-1, s)
      else if nrInodes ≤ op.inodeNr then .error .outOfBounds
      else do
        let blocks := (s.inodes op.inodeNr).blocks
        let u ← (if blocks ≤ total then do
            let (_, u) ← allocBlock op.inodeNr (sub32 total blocks) s.seg
            .ok u
          else .ok s.seg : M Segments)
        let u := u.modInode op.inodeNr fun x => { x with atime := now, mtime := now }
        let (ret, pos, u) := writeDblock op.inodeNr op.offset nbyte.toNat buf u
        let u := u.modInode op.inodeNr fun x => { x with size := pos % 2 ^ 32 }
        let s := s.withSeg u
        .ok (ret, { s with desc := s.desc.setOffset p pos })

/-! ## `vsfs_read` -/

/-- The `memcpy` out of block `a`. -/
def copyOut (u : Segments) (a : Nat) (c : Cursor) (buf : Bytes) : Bytes :=
  copy buf c.done (fun k => u.data a (c.offset + k)) c.length

/-- `__read_dblock(inode_reg, data_reg, target_op, nbyte, buf)` for inode `ino`, at `pos`: the result,
`target_op->offset` and the caller's memory. -/
def readDblock (ino pos nbyte : Nat) (buf : Bytes) (u : Segments) : Int × Nat × Bytes :=
  let fileSize := (u.inodes ino).fileSize
  if fileSize < (pos + nbyte) % 2 ^ 64 ∧ fileSize = pos then (-1, pos, buf)
  else
    let left := if (pos + nbyte) % 2 ^ 64 ≤ fileSize then nbyte else (fileSize + (2 ^ 64 - pos % 2 ^ 64)) % 2 ^ 64
    let padded := if (pos + nbyte) % 2 ^ 64 ≤ fileSize then 0 else (nbyte + (2 ^ 64 - left)) % 2 ^ 64
    let (c, buf) := throughMap (fun _ => u) (copyOut u) ino (.start pos left) buf
    (toInt32 nbyte, c.pos, fill buf c.done 0 padded)

/-- `vsfs_read(fildes, buf, nbyte)`: the result, the caller's memory and the process. -/
def vsfsRead (now : Nat) (fildes : Int) (buf : Bytes) (nbyte : UInt64) (s : Process) : M (Int × Bytes × Process) := do
  if s.desc.opCounter = false then .ok (-1, buf, s)
  else
    match ← s.desc.findTarget fildes with
    | none => .ok (-1, buf, s)
    | some (_, fd) => do
      let flags ← fd.accessMode
      if flags = oWronly then .ok (-1, buf, s)
      else if s.sb = false then .ok (-1, buf, s)
      else do
        let p ← fd.slot
        let op := s.desc.opFtable p
        if nrInodes ≤ op.inodeNr then .error .outOfBounds
        else
          let u := s.seg.modInode op.inodeNr fun x => { x with atime := now }
          let (ret, pos, buf) := readDblock op.inodeNr op.offset nbyte.toNat buf u
          let s := s.withSeg u
          .ok (ret, buf, { s with desc := s.desc.setOffset p pos })

/-! ## `vsfs_lseek` -/

/-- `__alloc_block` calls `get_free_dblock` for an inode with `blocks` blocks that needs `n`. -/
def CallsAllocator (blocks n : Nat) : Prop :=
  blocks = level2Limit ∨ n ≠ 0 ∧ (blocks < level2Limit ∨ (blocks - level2Limit) / pointerPerBlock % 65536 < pointerPerBlock)

instance (blocks n : Nat) : Decidable (CallsAllocator blocks n) := by
  unfold CallsAllocator
  infer_instance

/-- `vsfs_lseek(fd, offset, whence)`. `sb` is read before the search, `sb_cached` by the allocator only. -/
def vsfsLseek (fildes : Int) (offset : UInt64) (whence : Int) (s : Process) : M (Nat × Process) := do
  if s.desc.opCounter = false then .ok (seekError, s)
  else if s.sb = false then .error .nullDeref
  else
    match ← s.desc.findTarget fildes with
    | none => .ok (seekError, s)
    | some (_, fd) => do
      let p ← fd.slot
      let op := s.desc.opFtable p
      if nrInodes ≤ op.inodeNr then .error .outOfBounds
      else
        let x := s.inodes op.inodeNr
        if whence = seekSet then
          if 0x100000000 < offset.toNat then .ok (seekError, s)
          else do
            let s ← (if x.fileSize < offset.toNat then do
                let need := sub32 (neededBlocks offset.toNat) x.blocks
                if s.sbCached = false ∧ CallsAllocator x.blocks need then .error .nullDeref
                else do
                  let (_, u) ← allocBlock op.inodeNr need s.seg
                  .ok (s.withSeg (u.modInode op.inodeNr fun x => { x with size := offset.toNat % 2 ^ 32 }))
              else .ok s : M Process)
            .ok (offset.toNat, { s with desc := s.desc.setOffset p offset.toNat })
        else if whence = seekEnd then
          -- the offset is moved to the stored size before the check
          let o := (x.size + offset.toNat) % 2 ^ 64
          if x.fileSize < o then .ok (seekError, { s with desc := s.desc.setOffset p x.size })
          else .ok (o, { s with desc := s.desc.setOffset p o })
        else if whence = seekCur then
          let o := (op.offset + offset.toNat) % 2 ^ 64
          if x.fileSize < o then .ok (seekError, s)
          else .ok (o, { s with desc := s.desc.setOffset p o })
        else .ok (seekError, s)

/-! ## `vsfs_creat` -/

/-- The duplicate check from entry `i` on, with `n` entries left: entry `i` is looked for in block `i / 16`. -/
def dupScan (data : Nat → Block) (name : CStr) : Nat → Nat → Bool
  | 0, _ => false
  | n + 1, i => if slotNamed (data (i / 16)) (i % 16) name then true else dupScan data name n (i + 1)

/-- From the label `adding_entry` on. -/
def addingEntry (now : Nat) (name : CStr) (blockNum fInode fDblock dEntry : Nat) (u : Segments) : M Segments := do
  if filesPerBlock ≤ dEntry then .error .outOfBounds
  else if nrInodes ≤ fInode then .error .outOfBounds
  else do
    let u := { u with data := update u.data fDblock (setSlot (u.data fDblock) dEntry fInode name) }
    let u := u.modInode 0 fun x => { x with size := succ32 x.size, atime := now, mtime := now }
    let u := u.modInode fInode fun x =>
      { x with mode := 7, blocks := 0, atime := now, ctime := now, mtime := now, size := 0 }
    let (_, u) ← allocBlock fInode blockNum u
    .ok (u.modInode fInode fun x => { x with blocks := blockNum, size := blockNum * 4096 % 2 ^ 32 })

/-- `vsfs_creat(file_name, block_num)`. With a file entered `sb_cached` is set to null. -/
def vsfsCreat (now : Nat) (name : CStr) (blockNum : UInt32) (s : Process) : M (Int × Process) := do
  if filenameLen ≤ name.strlen then .ok (-1, s)
  else if dupScan s.data name (s.inodes 0).entry 0 then .ok (-1, s)
  else do
    let (fInode, c) ← getFreeInode s.cached
    let u : Segments := { s.seg with cached := c }
    let root := u.inodes 0
    if root.entry < root.blocks * 16 % 2 ^ 32 then do
      let fDblock := root.entry / 16
      let u ← addingEntry now name blockNum.toNat fInode fDblock (root.entry - fDblock * 16) u
      .ok (0, { s.withSeg u with sbCached := false })
    else if root.blocks < 49 then do
      let (fDblock, u) ← u.getFreeDblock
      let dEntry := (root.entry + (2 ^ 32 - root.blocks * 16 % 2 ^ 32)) % 2 ^ 32
      let u := u.modInode 0 fun x => { x with l1 := update x.l1 x.blocks fDblock, blocks := x.blocks + 1 }
      let u ← addingEntry now name blockNum.toNat fInode fDblock dEntry u
      .ok (0, { s.withSeg u with sbCached := false })
    else do
      let c ← putInode u.cached fInode
      .ok (-1, s.withSeg { u with cached := c })

/-! ## `vsfs_stat` -/

/-- `vsfs_stat(pathname, fre)`, with what it stores in `*fre`. -/
def vsfsStat (pathname : CStr) (s : Process) : M (Int × Option FileStat) := do
  match ← lookup s.inodes s.data pathname (s.inodes 0).entry 0 with
  | none => .ok (-1, none)
  | some target =>
    if nrInodes ≤ target then .error .outOfBounds
    else .ok (0, some (s.inodes target).stat)

end Vsfs.Shm
