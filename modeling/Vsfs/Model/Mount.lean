import Vsfs.Model.Format
import Vsfs.Model.Spdk

/-!
# `mount_vsfs` and `unmount_vsfs` of `vsfs_init.c`

Mounting copies the superblock info, the inode bitmap, the inode region and the data bitmap from the device into the
segment `<name>_cached`, one behind the other; unmounting writes the last three back. The calls see the segment as a
`struct vsfs_cached_data`.
-/

set_option autoImplicit false

namespace Vsfs

open ByteSeq

/-! ## The segment -/

/-- The segment as a `struct vsfs_cached_data`. -/
def Cached.load (seg : Bytes) : Cached :=
  { sbi := SbInfo.load seg
    ibitmap := fun w => BitVec.ofNat 32 (u32 seg (sbInfoSize + 4 * w))
    inodeReg := fun i => Inode.load seg (sbInfoSize + 4 * (nrInodes / 32) + inodeSize * i)
    dbitmap := fun w => BitVec.ofNat 32 (u32 seg (sbInfoSize + 4 * (nrInodes / 32) + inodeSize * nrInodes + 4 * w)) }

/-- Where the three regions lie in the segment: `cached_ibitmap`, `cached_iregion`, `cached_dbitmap`. -/
def SbInfo.segmentIbitmap : Nat := sbInfoSize

@[inherit_doc SbInfo.segmentIbitmap]
def SbInfo.segmentIregion (s : SbInfo) : Nat := sbInfoSize + s.nrIbitmapBlocks * blockSize % 2 ^ 32

@[inherit_doc SbInfo.segmentIbitmap]
def SbInfo.segmentDbitmap (s : SbInfo) : Nat :=
  sbInfoSize + s.nrIbitmapBlocks * blockSize % 2 ^ 32 + s.nrIregionBlocks * blockSize % 2 ^ 32

/-- `make_shm_cached(name, ptr)`: `sb` is the superblock, `seg` what the segment holds before. -/
def makeShmCached (disk : Nat → Block) (sb seg : Bytes) : Bytes :=
  let info := SbInfo.load sb
  let ibitmap := readSpdk disk info.ofsIbitmap info.nrIbitmapBlocks dmaBuffer
  let dbitmap := readSpdk disk info.ofsDbitmap info.nrDbitmapBlocks dmaBuffer
  let inodeReg := readSpdk disk info.ofsIregion info.nrIregionBlocks dmaBuffer
  let seg := copy seg 0 sb sbInfoSize
  let seg := copy seg SbInfo.segmentIbitmap ibitmap (info.nrIbitmapBlocks * blockSize % 2 ^ 32)
  let seg := copy seg info.segmentIregion inodeReg (info.nrIregionBlocks * blockSize % 2 ^ 32)
  copy seg info.segmentDbitmap dbitmap (info.nrDbitmapBlocks * blockSize % 2 ^ 32)

/-- `mount_vsfs(name)`: the result and the segment. -/
def mountVsfs (disk : Nat → Block) (seg : Bytes) : Int × Bytes :=
  let ptr := readSpdk disk 0 1 dmaBuffer
  if (SbInfo.load ptr).magic ≠ vsfsMagic then (1, seg) else (0, makeShmCached disk ptr seg)

/-- `unmount_vsfs(name)`, which is `write_sb_cached_to_SSD(name)`: the device after it. -/
def unmountVsfs (seg : Bytes) (disk : Nat → Block) : Nat → Block :=
  let info := SbInfo.load seg
  let region (o n : Nat) : Bytes := copy dmaBuffer 0 (fun k => seg (o + k)) (n * blockSize % 2 ^ 32)
  let ibitmap := region SbInfo.segmentIbitmap info.nrIbitmapBlocks
  let inodeReg := region info.segmentIregion info.nrIregionBlocks
  let dbitmap := region info.segmentDbitmap info.nrDbitmapBlocks
  let disk := writeSpdk disk info.ofsIbitmap info.nrIbitmapBlocks ibitmap
  let disk := writeSpdk disk info.ofsDbitmap info.nrDbitmapBlocks dbitmap
  writeSpdk disk info.ofsIregion info.nrIregionBlocks inodeReg

/-! ## A process on the mounted volume -/

/-- `creat_open_file_table()` and a process that has not called anything yet. -/
def Desc.initial : Desc :=
  { opCounter := false, count := 0, opFtable := fun _ => ⟨0, 0, 0, 0, none⟩, fdTable := .null, fds := fun _ => none
    files := fun _ => none, brk := 0 }

/-- A process on the volume whose segment is `seg`. -/
def State.start (seg : Bytes) (disk : Nat → Block) : State :=
  { vol := { cached := Cached.load seg, disk := disk }, desc := Desc.initial, sbCached := none, inodeReg := none
    maps := 0, tmpBasePtr := false }

/-- A freshly formatted and mounted volume of `nrBlocks` blocks of 4096 bytes, on a device that has these blocks: what
`get_device_info` stores has the product `4096 * nrBlocks`. `disk` is what the device held before, `seg` what the segment
held. -/
def State.fresh (nrBlocks : Nat) (disk : Nat → Block) (seg : Bytes) : State :=
  let disk := formatDevice blockSize nrBlocks disk
  State.start (mountVsfs disk seg).2 disk

end Vsfs
