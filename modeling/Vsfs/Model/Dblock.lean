import Vsfs.Model.ShmIO

/-!
# `__write_dblock` and `__read_dblock` by themselves

Both functions of both variants with their own parameters and results: the slot `target_op`, whose offset they advance,
and a `size_t` or an `int64_t` that `vsfs_write` and `vsfs_read` convert to `int`. In `vsfsio_spdk.h` the buffer of a
write has an end, and reading behind it is undefined; a read is given the caller's memory from the buffer on.
-/

set_option autoImplicit false

namespace Vsfs

open Function ByteSeq Shm

/-- The conversion of a 64-bit value to `int64_t`. -/
def toInt64 (n : Nat) : Int := if n % 2 ^ 64 < 2 ^ 63 then (n % 2 ^ 64 : Nat) else (n % 2 ^ 64 : Nat) - 2 ^ 64

/-- A buffer: its first `size` bytes may be read. -/
structure Buffer where
  bytes : Bytes
  size : Nat

/-- `len` bytes from byte `k` on. -/
def Buffer.read (buf : Buffer) (k len : Nat) : M Bytes :=
  if k + len ≤ buf.size then .ok fun j => buf.bytes (k + j) else .error .outOfBounds

section

variable (d : Desc) (p : Nat)

/-- The loop of `__write_dblock` from block `i` of the file on, for the slot `p`. -/
def writeRounds (buf : Buffer) : Nat → Nat → Cursor → Volume → M (Cursor × Volume)
  | 0, _, c, v => if c.left = 0 then .ok (c, v) else .error .diverges
  | fuel + 1, i, c, v =>
    if c.left = 0 then .ok (c, v)
    else do
      let (_, f) ← d.fileOf p
      match f.block[i]? with
      | none => .error .outOfBounds
      | some b => do
        let out ← (if c.length ≠ blockSize then do
            let data ← buf.read c.done c.length
            .ok (copy (v.disk (v.lba b)) c.offset data c.length)
          else do
            let data ← buf.read c.done blockSize
            .ok (copy (fun _ => 0) 0 data blockSize) : M Block)
        writeRounds buf fuel ((i + 1) % 2 ^ 32) c.next (v.writeBlock (v.lba b) out)

/-- `__write_dblock(target_op, nbyte, buf)` of `vsfsio_spdk.h`: `written`, the descriptors and the volume. -/
def Desc.writeDblock (nbyte : Nat) (buf : Buffer) (v : Volume) : M (Nat × Desc × Volume) := do
  let op := d.opFtable p
  let (c, v) ← writeRounds d p buf nbyte (op.offset / blockSize % 2 ^ 32) (.start op.offset nbyte) v
  .ok (c.done, d.setOffset p c.pos, v)

/-- The loop of `__read_dblock` from block `i` of the file on. -/
def readRounds (v : Volume) (f : File) : Nat → Nat → Cursor → Bytes → M (Cursor × Bytes)
  | 0, i, c, buf => if i < f.blocks ∧ 0 < c.left then .error .diverges else .ok (c, buf)
  | fuel + 1, i, c, buf =>
    if i < f.blocks ∧ 0 < c.left then
      match f.block[i]? with
      | none => .error .outOfBounds
      | some b => readRounds v f fuel ((i + 1) % 2 ^ 32) c.next (copy buf 0 (v.disk (v.lba b)) blockSize)
    else .ok (c, buf)

/-- `__read_dblock(target_op, nbyte, buf)` of `vsfsio_spdk.h`: the result, the descriptors and the caller's memory. -/
def Desc.readDblock (nbyte : Nat) (buf : Bytes) (v : Volume) : M (Int × Desc × Bytes) := do
  let (_, f) ← d.fileOf p
  let op := d.opFtable p
  if f.size = op.offset then .ok (-1, d, buf)
  else do
    let fin := (op.offset + nbyte) % 2 ^ 64
    let left := if f.size ≤ fin then (f.size + (2 ^ 64 - op.offset % 2 ^ 64)) % 2 ^ 64 else nbyte
    let padded := if f.size ≤ fin then (nbyte + (2 ^ 64 - left)) % 2 ^ 64 else 0
    let (c, buf) ← readRounds v f left (op.offset / blockSize % 2 ^ 32) (.start op.offset left) buf
    .ok (toInt64 nbyte, d.setOffset p c.pos, fill buf c.done 0 padded)

end

namespace Shm

/-- `__write_dblock(inode_reg, data_reg, target_op, nbyte, buf)` of `vsfsio.h`: the result, the slot and the
segments. -/
def Segments.writeDblock (op : OpEntry) (nbyte : Nat) (buf : Bytes) (u : Segments) : Nat × OpEntry × Segments :=
  let (c, u) := throughMap id (copyIn buf) op.inodeNr (.start op.offset nbyte) u
  (if c.left = 0 then c.done else 2 ^ 64 - 1, { op with offset := c.pos }, u)

/-- `__read_dblock(inode_reg, data_reg, target_op, nbyte, buf)` of `vsfsio.h`: the result, the slot and the caller's
memory. -/
def Segments.readDblock (op : OpEntry) (nbyte : Nat) (buf : Bytes) (u : Segments) : Int × OpEntry × Bytes :=
  let fileSize := (u.inodes op.inodeNr).fileSize
  let fin := (op.offset + nbyte) % 2 ^ 64
  if fin ≤ fileSize then
    let (c, buf) := throughMap (fun _ => u) (copyOut u) op.inodeNr (.start op.offset nbyte) buf
    (toInt64 nbyte, { op with offset := c.pos }, fill buf c.done 0 0)
  else if fileSize = op.offset then (-1, op, buf)
  else
    let left := (fileSize + (2 ^ 64 - op.offset % 2 ^ 64)) % 2 ^ 64
    let padded := (nbyte + (2 ^ 64 - left)) % 2 ^ 64
    let (c, buf) := throughMap (fun _ => u) (copyOut u) op.inodeNr (.start op.offset left) buf
    (toInt64 nbyte, { op with offset := c.pos }, fill buf c.done 0 padded)

end Shm

end Vsfs
