import Vsfs.Model.Mount

/-!
# The mount of `shm_mount.c`

The device is the segment `<name>`, mapped at `ptr`. Its mount lays the segment `<name>_cached` out without the inode
region: the superblock info, the inode bitmap, the data bitmap.
-/

set_option autoImplicit false

namespace Vsfs.Shm

open ByteSeq

/-- `bitmap_total_size`. -/
def bitmapTotalSize (info : SbInfo) : Nat :=
  (info.nrIbitmapBlocks + info.nrDbitmapBlocks) % 2 ^ 32 * blockSize % 2 ^ 32

/-- `make_shm_cached(name, ptr)`: the size that `ftruncate` gives the segment, and what it holds; `seg` is what it held
before. -/
def makeShmCached (ptr seg : Bytes) : Nat × Bytes :=
  let info := SbInfo.load ptr
  let ibitmap : Bytes := fun k => ptr (info.ofsIbitmap * blockSize % 2 ^ 32 + k)
  let dbitmap : Bytes := fun k => ptr (info.ofsDbitmap * blockSize % 2 ^ 32 + k)
  let cachedIbitmap := sbInfoSize
  let cachedDbitmap := sbInfoSize + info.nrIbitmapBlocks * blockSize % 2 ^ 32
  let seg := copy seg 0 ptr sbInfoSize
  let seg := copy seg cachedIbitmap ibitmap (info.nrIbitmapBlocks * blockSize % 2 ^ 32)
  let seg := copy seg cachedDbitmap dbitmap (info.nrDbitmapBlocks * blockSize % 2 ^ 32)
  (sbInfoSize + bitmapTotalSize info, seg)

end Vsfs.Shm
