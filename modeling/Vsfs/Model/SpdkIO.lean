import Mathlib.Algebra.Ring.Int.Defs
import Vsfs.Model.Spdk

/-!
# Reading, writing and seeking in `vsfsio_spdk.h`

The data blocks of an open file are found through `file_ptr->block`, the flattened block map that the descriptor's
slot keeps. `buf` is the caller's memory from the buffer's address on. `Call` collects the seven calls, and
`Call.run` performs one.
-/

set_option autoImplicit false

namespace Vsfs

open Function ByteSeq

/-- The conversion of a 64-bit value to `int`. -/
def toInt32 (n : Nat) : Int := if n % 2 ^ 32 < 2 ^ 31 then (n % 2 ^ 32 : Nat) else (n % 2 ^ 32 : Nat) - 2 ^ 32

/-- The number of blocks that hold `n` bytes, as the code rounds it: a quotient, plus one for a remainder, in 32
bits. -/
def neededBlocks (n : Nat) : Nat := (n / blockSize + if n % blockSize = 0 then 0 else 1) % 2 ^ 32

/-- Change the file object at `a`. -/
def Desc.modFile (d : Desc) (a : Nat) (f : File) : Desc := { d with files := update d.files a (some f) }

/-- `target_op->offset = o`. -/
def Desc.setOffset (d : Desc) (p o : Nat) : Desc :=
  { d with opFtable := update d.opFtable p { d.opFtable p with offset := o } }

/-- The file object that a slot points at, with its address. -/
def Desc.fileOf (d : Desc) (p : Nat) : M (Nat × File) := do
  let f ← load d.files (d.opFtable p).filePtr
  match (d.opFtable p).filePtr with
  | none => .error .nullDeref
  | some a => .ok (a, f)

/-! ## `vsfs_write` -/

/-- The bytes of this round: up to the end of the block or of the request. -/
def roundLength (offset left : Nat) : Nat := if blockSize - offset ≤ left then blockSize - offset else left

/-- The loop of `__write_dblock` from block `i` of the file on. -/
def writeLoop (block : List Nat) (buf : Bytes) : Nat → Nat → Nat → Nat → Nat → Volume → M Volume
  | 0, _, _, _, _, v => .ok v
  | fuel + 1, i, written, offset, left, v =>
    if left = 0 then .ok v
    else
      let len := roundLength offset left
      match block[i]? with
      | none => .error .outOfBounds
      | some b =>
        let data : Bytes := fun k => buf (written + k)
        -- a part of a block is read, changed in `dma_buf` and written back, a whole one goes out directly
        let out := if len ≠ blockSize then copy (v.disk (v.lba b)) offset data len
          else copy (fun _ => 0) 0 data blockSize
        writeLoop block buf fuel (i + 1) (written + len) 0 (left - len) (v.writeBlock (v.lba b) out)

/-- `__write_dblock(target_op, nbyte, buf)` on the file object `f`, at `offset`; every round moves at least a byte. -/
def writeDblock (f : File) (offset nbyte : Nat) (buf : Bytes) (v : Volume) : M Volume :=
  writeLoop f.block buf nbyte (offset / blockSize % 2 ^ 32) 0 (offset % blockSize) nbyte v

/-- `vsfs_write(fildes, buf, nbyte)`. The slot of the descriptor is read before the search is known to have
succeeded. -/
def vsfsWrite (now : Nat) (fildes : Int) (buf : Bytes) (nbyte : UInt64) (s : State) : M (Int × State) := do
  match ← s.desc.findTarget fildes with
  | none => .error .nullDeref
  | some (_, fd) => do
    let p ← fd.slot
    let op := s.desc.opFtable p
    let fin := (op.offset + nbyte.toNat) % 2 ^ 64
    let total := neededBlocks fin
    if s.desc.opCounter = false then .ok (-1, s)
    else do
      let flags ← fd.accessMode
      if flags = oRdonly then .ok (-1, s)
      else if s.sbCached = none then .ok (-1, s)
      else if level3LimitTimesBlockSize < fin then .ok (-1, s)
      else if 0x100000000 < fin / blockSize then .ok (-1, s)
      else do
        let s := { s with inodeReg := s.sbCached }
        let x ← s.vol.inodeAt op.inodeNr
        let s ← (if x.blocks ≤ total then do
            let (_, v) ← allocBlock s.vol.cached.sbi.ofsDregion op.inodeNr (sub32 total x.blocks) s.vol
            let (a, _) ← s.desc.fileOf p
            let info ← vsfsGetInodeInfo v op.inodeNr
            .ok { s with vol := v, desc := s.desc.modFile a info }
          else .ok s : M State)
        let (a, f) ← s.desc.fileOf p
        let f := { f with atime := now, mtime := now }
        let v := s.vol.modInode op.inodeNr fun x => { x with atime := now, mtime := now }
        let v ← writeDblock f op.offset nbyte.toNat buf v
        let d := (s.desc.modFile a f).setOffset p fin
        let v := v.modInode op.inodeNr fun x => { x with size := fin % 2 ^ 32 }
        .ok (toInt32 nbyte.toNat, { s with vol := v, desc := d })

/-! ## `vsfs_read` -/

/-- The loop of `__read_dblock` from block `i` of the file on: `readed`, `left` and the caller's memory at its end.
Every block is read to the start of the buffer. -/
def readLoop (v : Volume) (f : File) : Nat → Nat → Nat → Nat → Nat → Bytes → M (Nat × Nat × Bytes)
  | 0, _, readed, _, left, buf => .ok (readed, left, buf)
  | fuel + 1, i, readed, offset, left, buf =>
    if i < f.blocks ∧ 0 < left then
      let len := roundLength offset left
      match f.block[i]? with
      | none => .error .outOfBounds
      | some b =>
        readLoop v f fuel (i + 1) (readed + len) 0 (left - len) (copy buf 0 (v.disk (v.lba b)) blockSize)
    else .ok (readed, left, buf)

/-- `__read_dblock(target_op, nbyte, buf)` on the file object `f`, at `offset`: the result, the bytes read and the
caller's memory. -/
def readDblock (f : File) (offset nbyte : Nat) (buf : Bytes) (v : Volume) : M (Int × Nat × Bytes) :=
  if f.size = offset then .ok (-1, 0, buf)
  else
    let (left, padded) :=
      if f.size ≤ (offset + nbyte) % 2 ^ 64 then
        let left := (f.size + (2 ^ 64 - offset % 2 ^ 64)) % 2 ^ 64
        (left, (nbyte + (2 ^ 64 - left)) % 2 ^ 64)
      else (nbyte, 0)
    do
      let (readed, _, buf) ← readLoop v f left (offset / blockSize % 2 ^ 32) 0 (offset % blockSize) left buf
      .ok (toInt32 nbyte, readed, fill buf readed 0 padded)

/-- `vsfs_read(fildes, buf, nbyte)`: the result, the caller's memory and the state. -/
def vsfsRead (now : Nat) (fildes : Int) (buf : Bytes) (nbyte : UInt64) (s : State) : M (Int × Bytes × State) := do
  if s.desc.opCounter = false then .ok (-1, buf, s)
  else
    match ← s.desc.findTarget fildes with
    | none => .ok (-1, buf, s)
    | some (_, fd) => do
      let flags ← fd.accessMode
      if flags = oWronly then .ok (-1, buf, s)
      else do
        let p ← fd.slot
        let op := s.desc.opFtable p
        let (a, f) ← s.desc.fileOf p
        let f := { f with atime := now }
        s.useInodeReg
        let _ ← s.vol.inodeAt op.inodeNr
        let v := s.vol.modInode op.inodeNr fun x => { x with atime := now }
        let (ret, readed, buf) ← readDblock f op.offset nbyte.toNat buf v
        let d := (s.desc.modFile a f).setOffset p ((op.offset + readed) % 2 ^ 64)
        .ok (ret, buf, { s with vol := v, desc := d })

/-! ## `vsfs_lseek` -/

/-- `SEEK_SET`. -/
def seekSet : Int := 0

/-- `SEEK_CUR`. -/
def seekCur : Int := 1

/-- `SEEK_END`. -/
def seekEnd : Int := 2

/-- `return -1` of a function that returns `uint64_t`. -/
def seekError : Nat := 2 ^ 64 - 1

/-- `if (!inode_reg) inode_reg = sb_cached->inode_reg;` -/
def State.setInodeReg (s : State) : M State :=
  match s.inodeReg with
  | none => do
    s.useSbCached
    .ok { s with inodeReg := s.sbCached }
  | some _ => .ok s

/-- `vsfs_lseek(fd, offset, whence)`. -/
def vsfsLseek (fildes : Int) (offset : UInt64) (whence : Int) (s : State) : M (Nat × State) := do
  if s.desc.opCounter = false then .ok (seekError, s)
  else do
    let s ← s.setInodeReg
    match ← s.desc.findTarget fildes with
    | none => .ok (seekError, s)
    | some (_, fd) => do
      let p ← fd.slot
      let op := s.desc.opFtable p
      let (a, f) ← s.desc.fileOf p
      if whence = seekSet then
        if 0x100000000 < offset.toNat then .ok (seekError, s)
        else do
          let s ← (if f.size < offset.toNat then do
              s.useSbCached
              let total := neededBlocks offset.toNat
              let (_, v) ← allocBlock s.vol.cached.sbi.ofsDregion op.inodeNr (sub32 total f.blocks) s.vol
              let info ← vsfsGetInodeInfo v op.inodeNr
              let info := { info with blocks := (info.blocks + total) % 2 ^ 32, size := offset.toNat }
              .ok { s with vol := v, desc := s.desc.modFile a info }
            else .ok s : M State)
          .ok (offset.toNat, { s with desc := s.desc.setOffset p offset.toNat })
      else if whence = seekEnd then
        -- the offset is moved to the end of the file before the check
        if f.size < (f.size + offset.toNat) % 2 ^ 64 then
          .ok (seekError, { s with desc := s.desc.setOffset p f.size })
        else
          let o := (f.size + offset.toNat) % 2 ^ 64
          .ok (o, { s with desc := s.desc.setOffset p o })
      else if whence = seekCur then
        let o := (op.offset + offset.toNat) % 2 ^ 64
        if f.size < o then .ok (seekError, s)
        else .ok (o, { s with desc := s.desc.setOffset p o })
      else .ok (seekError, s)

/-! ## Calls -/

/-- A call with its arguments. -/
inductive Call
  | creat (name : CStr) (blockNum : UInt32)
  | open (pathname : CStr) (flags : Int)
  | stat (pathname : CStr)
  | close (fildes : Int)
  | write (fildes : Int) (buf : Bytes) (nbyte : UInt64)
  | read (fildes : Int) (buf : Bytes) (nbyte : UInt64)
  | lseek (fildes : Int) (offset : UInt64) (whence : Int)

/-- One call at the time `now`: its return value and the state after it. A position that `vsfs_lseek` returns is
given as the number it is, its error as -1. -/
def Call.run (now : Nat) : Call → State → M (Int × State)
  | .creat name blockNum, s => vsfsCreat now name blockNum s
  | .open pathname flags, s => vsfsOpen now pathname flags s
  | .stat pathname, s => do
    let (ret, _, s) ← vsfsStat pathname s
    .ok (ret, s)
  | .close fildes, s => vsfsClose fildes s
  | .write fildes buf nbyte, s => vsfsWrite now fildes buf nbyte s
  | .read fildes buf nbyte, s => do
    let (ret, _, s) ← vsfsRead now fildes buf nbyte s
    .ok (ret, s)
  | .lseek fildes offset whence, s => do
    let (ret, s) ← vsfsLseek fildes offset whence s
    .ok (if ret = seekError then -1 else ret, s)

/-- A call takes the process from one state to another. The time is a 64-bit number. -/
def Step (c : Call) (s t : State) : Prop := ∃ now ret, now < 2 ^ 64 ∧ c.run now s = .ok (ret, t)

end Vsfs
