import Vsfs.Model.Types

/-!
# `init_vsfs` of `vsfs_init.c`

Formatting writes five regions of the device one after the other: the superblock, the inode bitmap, the inode region,
the data bitmap and the first data block. DMA buffers come zeroed. All transfers succeed, also to blocks that the
superblock counts and the device does not have. The namespace has been found before.
-/

set_option autoImplicit false

namespace Vsfs

open ByteSeq

/-! ## Transfers -/

/-- `read_spdk(buf, lba, n)`. -/
def readSpdk (disk : Nat → Block) (lba n : Nat) (buf : Bytes) : Bytes :=
  copy buf 0 (fun k => disk (lba + k / blockSize) (k % blockSize)) (blockSize * n)

/-- `write_spdk(buf, lba, n)`. -/
def writeSpdk (disk : Nat → Block) (lba n : Nat) (buf : Bytes) : Nat → Block :=
  fun l => if lba ≤ l ∧ l < lba + n then fun k => buf (blockSize * (l - lba) + k) else disk l

/-- A buffer of `alloc_dma_buffer`. -/
def dmaBuffer : Bytes := fun _ => 0

/-! ## Structures in memory -/

/-- The members of `struct vsfs_sb_info` in order, each a `uint32_t`. -/
def SbInfo.fields (s : SbInfo) : List Nat :=
  [s.magic, s.nrBlocks, s.ofsIbitmap, s.ofsIregion, s.ofsDbitmap, s.ofsDregion, s.nrIbitmapBlocks, s.nrIregionBlocks,
    s.nrDbitmapBlocks, s.nrDregionBlocks, s.nrFreeInodes, s.nrFreeDblock]

/-- `sizeof(struct vsfs_sb_info)`. -/
def sbInfoSize : Nat := 48

/-- The `struct vsfs_sb_info` at the start of a buffer. -/
def SbInfo.load (b : Bytes) : SbInfo :=
  { magic := u32 b 0, nrBlocks := u32 b 4, ofsIbitmap := u32 b 8, ofsIregion := u32 b 12, ofsDbitmap := u32 b 16
    ofsDregion := u32 b 20, nrIbitmapBlocks := u32 b 24, nrIregionBlocks := u32 b 28, nrDbitmapBlocks := u32 b 32
    nrDregionBlocks := u32 b 36, nrFreeInodes := u32 b 40, nrFreeDblock := u32 b 44 }

/-- Store `uint32_t`s one after the other from `o` on. -/
def putWords (b : Bytes) (o : Nat) : List Nat → Bytes
  | [] => b
  | v :: vs => putWords (putU32 b o v) (o + 4) vs

/-- `sizeof(struct vsfs_inode)`. -/
def inodeSize : Nat := 256

/-- The `struct vsfs_inode` at `o`. -/
def Inode.load (b : Bytes) (o : Nat) : Inode :=
  { mode := u32 b o, blocks := u32 b (o + 4), size := u32 b (o + 8)
    l1 := fun k => u32 b (o + 12 + 4 * k), l2 := fun k => u32 b (o + 208 + 4 * k), l3 := u32 b (o + 228)
    atime := u64 b (o + 232), ctime := u64 b (o + 240), mtime := u64 b (o + 248) }

/-! ## The regions -/

/-- `idiv_ceil(a, b)`. -/
def idivCeil (a b : Nat) : Nat := a / b + if a % b = 0 then 0 else 1

/-- The `info` that `write_superblock` computes for a device of `nrBlocks` blocks. -/
def superblockInfo (nrBlocks : Nat) : SbInfo :=
  let nrIbitmapBlocks := 1
  let nrIregionBlocks := nrInodes / (blockSize / inodeSize)
  let remain := sub32 (sub32 (sub32 nrBlocks nrIbitmapBlocks) nrIregionBlocks) 1
  let mod := idivCeil remain (4096 * 2 ^ 3) % 2 ^ 32
  let nrDregionBlocks := sub32 remain mod
  let ofsIregion := 2
  let ofsDbitmap := (ofsIregion + nrIregionBlocks) % 2 ^ 32
  { magic := vsfsMagic, nrBlocks := nrBlocks, ofsIbitmap := 1, ofsIregion := ofsIregion, ofsDbitmap := ofsDbitmap
    ofsDregion := (ofsDbitmap + mod) % 2 ^ 32, nrIbitmapBlocks := nrIbitmapBlocks, nrIregionBlocks := nrIregionBlocks
    nrDbitmapBlocks := mod, nrDregionBlocks := nrDregionBlocks, nrFreeInodes := nrInodes - 1
    nrFreeDblock := sub32 nrDregionBlocks 1 }

/-- The number of blocks that `write_superblock` computes: `block_size * device_size / VSFS_BLOCK_SIZE`. -/
def deviceBlocks (blkSize deviceSize : Nat) : Nat := blkSize * deviceSize % 2 ^ 64 / blockSize % 2 ^ 32

/-- `write_superblock(&lba_cnt, block_size, device_size)`, with the superblock it returns. -/
def writeSuperblock (lbaCnt blkSize deviceSize : Nat) (disk : Nat → Block) : SbInfo × Nat × (Nat → Block) :=
  let info := superblockInfo (deviceBlocks blkSize deviceSize)
  (info, lbaCnt + 1, writeSpdk disk lbaCnt 1 (putWords dmaBuffer 0 info.fields))

/-- A bitmap block or more, all ones but for bit 0. -/
def fullBitmap : Bytes := putU64 (fill dmaBuffer 0 255 blockSize) 0 0xfffffffffffffffe

/-- `write_inode_bitmap(&lba_cnt, sb)`. -/
def writeInodeBitmap (lbaCnt : Nat) (disk : Nat → Block) : Nat × (Nat → Block) :=
  (lbaCnt + 1, writeSpdk disk lbaCnt 1 fullBitmap)

/-- The first block of the inode region: the root directory. -/
def rootInodeBlock : Bytes :=
  putU32 (putU32 (putU32 (putU64 (putU64 (putU64 (putU32 (putU32 dmaBuffer 0 0x0f) 4 1) 248 0) 240 0) 232 0) 8 2) 12 0)
    12 0

/-- `write_inode_region(&lba_cnt, sb)`. -/
def writeInodeRegion (lbaCnt : Nat) (sb : SbInfo) (disk : Nat → Block) : Nat × (Nat → Block) :=
  let disk := writeSpdk disk lbaCnt 1 rootInodeBlock
  let rest := sub32 sb.nrIregionBlocks 1
  (lbaCnt + 1 + rest, writeSpdk disk (lbaCnt + 1) rest dmaBuffer)

/-- `write_data_bitmap(&lba_cnt, sb)`. -/
def writeDataBitmap (lbaCnt : Nat) (sb : SbInfo) (disk : Nat → Block) : Nat × (Nat → Block) :=
  let disk := writeSpdk disk lbaCnt 1 fullBitmap
  let rest := sub32 sb.nrDbitmapBlocks 1
  (lbaCnt + 1 + rest, writeSpdk disk (lbaCnt + 1) rest (fill dmaBuffer 0 255 (blockSize * rest)))

/-- The name `"."`. -/
def dotName : CStr := ⟨[46], by decide⟩

/-- The name `".."`. -/
def dotDotName : CStr := ⟨[46, 46], by decide⟩

/-- The first data block: the entries `.` and `..` of the root directory. -/
def rootDirBlock : Bytes := setSlot (setSlot dmaBuffer 0 0 dotName) 1 0 dotDotName

/-- `write_data_region(&lba_cnt, sb)`. -/
def writeDataRegion (lbaCnt : Nat) (disk : Nat → Block) : Nat × (Nat → Block) :=
  (lbaCnt + 1, writeSpdk disk lbaCnt 1 rootDirBlock)

/-- `init_vsfs(name)` after `get_device_info`, which has stored `blkSize` and `deviceSize`. -/
def formatDevice (blkSize deviceSize : Nat) (disk : Nat → Block) : Nat → Block :=
  let (sb, lbaCnt, disk) := writeSuperblock 0 blkSize deviceSize disk
  let (lbaCnt, disk) := writeInodeBitmap lbaCnt disk
  let (lbaCnt, disk) := writeInodeRegion lbaCnt sb disk
  let (lbaCnt, disk) := writeDataBitmap lbaCnt sb disk
  (writeDataRegion lbaCnt disk).2

/-- A namespace of the NVMe device: the size of its sectors in bytes, and their number. -/
structure Namespace where
  sectorSize : Nat
  numSectors : Nat

/-- `spdk_nvme_ns_get_size(ns)`: the size in bytes. -/
def Namespace.size (ns : Namespace) : Nat := ns.sectorSize * ns.numSectors

/-- `get_device_info(&block_size, &device_size)`. The comment at its declaration says that `device_size` is the number
of sectors; what it stores is the size. -/
def getDeviceInfo (ns : Namespace) : Nat × Nat := (ns.sectorSize, ns.size)

/-- `init_vsfs(name)` on the namespace `ns`. -/
def initVsfs (ns : Namespace) (disk : Nat → Block) : Nat → Block :=
  let (blkSize, deviceSize) := getDeviceInfo ns
  formatDevice blkSize deviceSize disk

end Vsfs
