import Vsfs.Lib.ByteSeq
import Vsfs.Lib.Except
import Vsfs.Lib.HeapChain
import Vsfs.Lib.WordBits

/-!
# The data types of `vsfs.h`

Numbers of the fixed-width C types are naturals; the operations take them modulo the width where it can matter. An
array of a structure is a function of the index together with the bound that the code's accesses must respect: an
access outside it, a null or freed pointer, and a pointer into an unmapped segment are undefined behaviour, and a
function that performs one ends in a `Fault`.
-/

set_option autoImplicit false

namespace Vsfs

open ByteSeq WordBits

/-- Undefined behaviour reached by the C code. -/
inductive Fault
  | nullDeref
  | useAfterFree
  | outOfBounds
  | unmapped
  | uninitialised
  | diverges
  deriving DecidableEq, Repr

/-- A C computation: a result, or undefined behaviour. -/
abbrev M := Except Fault

/-! ## Constants -/

/-- `VSFS_MAGIC`. -/
def vsfsMagic : Nat := 0xF0000000

/-- `VSFS_BLOCK_SIZE`. -/
def blockSize : Nat := 4096

/-- `VSFS_NR_INODES`. -/
def nrInodes : Nat := 32768

/-- `VSFS_FILENAME_LEN`. -/
def filenameLen : Nat := 254

/-- `VSFS_FILES_PER_BLOCK`. -/
def filesPerBlock : Nat := 16

/-- `VSFS_POINTER_PER_BLOCK`. -/
def pointerPerBlock : Nat := 1024

/-- `VSFS_LEVEL1_LIMIT`. -/
def level1Limit : Nat := 49

/-- `VSFS_LEVEL2_LIMIT`, `49 + 5 * 1024`. -/
def level2Limit : Nat := 5169

/-- `VSFS_LEVEL3_LIMIT`, `49 + 5 * 1024 + 1024 * 1024`: the data blocks an inode can map. -/
def level3Limit : Nat := 1053745

/-- `VSFS_LEVEL3_LIMIT * VSFS_BLOCK_SIZE`. The macro has no parentheses, so only its last summand is multiplied:
`49 + 5 * 1024 + 1024 * 1024 * 4096`. -/
def level3LimitTimesBlockSize : Nat := 4294972465

/-- `OP_LIMIT`, `VSFS_OPTAB_SIZE / sizeof(op_ftable_t)` = `2 * 4096 / 24`. -/
def opLimit : Nat := 341

/-- `a - b` in 32 bits. -/
def sub32 (a b : Nat) : Nat := (a + (2 ^ 32 - b % 2 ^ 32)) % 2 ^ 32

theorem sub32_of_le {a b : Nat} (h : b ≤ a) (ha : a < 2 ^ 32) : sub32 a b = a - b := by
  unfold sub32
  omega

/-! ## Disk blocks -/

/-- A block of the device, `VSFS_BLOCK_SIZE` bytes of it. -/
abbrev Block := Bytes

/-- `struct vsfs_pointer_block`: entry `j`. -/
def pointer (b : Block) (j : Nat) : Nat := u32 b (4 * j)

/-- Assign entry `j` of a pointer block. -/
def setPointer (b : Block) (j v : Nat) : Block := putU32 b (4 * j) v

/-- `struct vsfs_dir_block`: the inode number in slot `j`. -/
def slotInode (b : Block) (j : Nat) : Nat := u16 b (256 * j)

/-- `!strcmp(b->files[j].filename, name)`. -/
def slotNamed (b : Block) (j : Nat) (name : CStr) : Bool := strAt b (256 * j + 2) name.chars

/-- Fill slot `j`: its inode number, then `memcpy` of the name with its terminator. -/
def setSlot (b : Block) (j ino : Nat) (name : CStr) : Block :=
  copy (putU16 b (256 * j) ino) (256 * j + 2) name.mem (name.strlen + 1)

/-! ## The cached file system -/

/-- `struct vsfs_sb_info`. -/
structure SbInfo where
  magic : Nat
  nrBlocks : Nat
  ofsIbitmap : Nat
  ofsIregion : Nat
  ofsDbitmap : Nat
  ofsDregion : Nat
  nrIbitmapBlocks : Nat
  nrIregionBlocks : Nat
  nrDbitmapBlocks : Nat
  nrDregionBlocks : Nat
  nrFreeInodes : Nat
  nrFreeDblock : Nat
  deriving DecidableEq, Repr

/-- `struct vsfs_inode`. `size` is the union of the size of a file and the entry count of a directory; `l1` has 49
entries, `l2` five, `l3` one. -/
structure Inode where
  mode : Nat
  blocks : Nat
  size : Nat
  l1 : Nat → Nat
  l2 : Nat → Nat
  l3 : Nat
  atime : Nat
  ctime : Nat
  mtime : Nat

/-- The union member `entry` of an inode. -/
abbrev Inode.entry (x : Inode) : Nat := x.size

/-- `struct vsfs_cached_data`, the segment `vsfs_cached`: `ibitmap` has `VSFS_NR_INODES / 32` words, `inodeReg`
`VSFS_NR_INODES` inodes, `dbitmap` as many words as `sbi.nrDbitmapBlocks` blocks hold. -/
structure Cached where
  sbi : SbInfo
  ibitmap : Words
  inodeReg : Nat → Inode
  dbitmap : Words

/-- The cached data and the device. -/
structure Volume where
  cached : Cached
  disk : Nat → Block

/-- The inode table. -/
abbrev Volume.inode (v : Volume) (i : Nat) : Inode := v.cached.inodeReg i

/-- Apply `f` to inode `i`. -/
def Volume.modInode (v : Volume) (i : Nat) (f : Inode → Inode) : Volume :=
  { v with cached := { v.cached with inodeReg := Function.update v.cached.inodeReg i (f (v.cached.inodeReg i)) } }

/-- Write one block of the device. -/
def Volume.writeBlock (v : Volume) (lba : Nat) (b : Block) : Volume :=
  { v with disk := Function.update v.disk lba b }

/-- `inode_reg[i]`, an access inside the table. -/
def Volume.inodeAt (v : Volume) (i : Nat) : M Inode :=
  if i < nrInodes then .ok (v.inode i) else .error .outOfBounds

/-- `sb_cached->sbi.ofs_dregion + block`, an addition of two `uint32_t`. -/
def Volume.lba (v : Volume) (block : Nat) : Nat := (v.cached.sbi.ofsDregion + block) % 2 ^ 32

/-! ## Open files -/

/-- `file_t`, the copy of an inode that an open file keeps; `block` is the allocated array. -/
structure File where
  size : Nat
  mode : Nat
  blocks : Nat
  block : List Nat
  l2Block : Nat → Nat
  l3Block : Nat
  inode : Nat
  atime : Nat
  ctime : Nat
  mtime : Nat

/-- `op_ftable_t`, a slot of the open-file table. -/
structure OpEntry where
  offset : Nat
  inodeNr : Nat
  ptrCounter : Nat
  lock : Nat
  filePtr : Option Nat
  deriving DecidableEq, Repr

/-- `fd_table_t`, a node of the descriptor list. `ptr` is the index of the slot pointed at, `path` the inode numbers
of the list from `p_head` to `p_tail`; a field not yet assigned after `malloc` is `none`. -/
structure FdTable where
  index : Nat
  ptr : Option Nat
  path : List Nat
  flags : Option Nat
  next : Option Nat
  deriving DecidableEq, Repr

/-- `O_RDONLY`. -/
def oRdonly : Nat := 0

/-- `O_WRONLY`. -/
def oWronly : Nat := 1

/-- `O_RDWR`. -/
def oRdwr : Nat := 2

/-! ## Frame lemmas -/

section Frames

variable (v : Volume) (i j lba n : Nat) (f : Inode → Inode) (b : Block)

@[simp] theorem modInode_inode_self : (v.modInode i f).inode i = f (v.inode i) := by
  simp [Volume.modInode, Volume.inode]

@[simp] theorem modInode_inode_of_ne {i j : Nat} (h : j ≠ i) : (v.modInode i f).inode j = v.inode j := by
  simp [Volume.modInode, Volume.inode, Function.update_of_ne h]

@[simp] theorem modInode_disk : (v.modInode i f).disk = v.disk := rfl

@[simp] theorem modInode_sbi : (v.modInode i f).cached.sbi = v.cached.sbi := rfl

@[simp] theorem modInode_ibitmap : (v.modInode i f).cached.ibitmap = v.cached.ibitmap := rfl

@[simp] theorem modInode_dbitmap : (v.modInode i f).cached.dbitmap = v.cached.dbitmap := rfl

@[simp] theorem writeBlock_cached : (v.writeBlock lba b).cached = v.cached := rfl

@[simp] theorem writeBlock_disk_self : (v.writeBlock lba b).disk lba = b := by simp [Volume.writeBlock]

@[simp] theorem writeBlock_disk_of_ne {n : Nat} (h : n ≠ lba) : (v.writeBlock lba b).disk n = v.disk n := by
  simp [Volume.writeBlock, Function.update_of_ne h]

theorem inodeAt_eq_ok {x : Inode} : v.inodeAt i = .ok x ↔ i < nrInodes ∧ v.inode i = x := by
  unfold Volume.inodeAt
  split <;> simp_all

end Frames

section Blocks

variable (b : Block)

/-- Reading back a pointer. -/
theorem pointer_setPointer_self (j v : Nat) : pointer (setPointer b j v) j = v % 2 ^ 32 := u32_putU32 ..

/-- The other pointers of the block. -/
theorem pointer_setPointer_of_ne {j k : Nat} (v : Nat) (h : k ≠ j) : pointer (setPointer b j v) k = pointer b k :=
  u32_copy_out (by omega)

/-- Filling a slot stores its inode number. -/
theorem slotInode_setSlot_self (j ino : Nat) (name : CStr) : slotInode (setSlot b j ino name) j = ino % 65536 := by
  unfold slotInode setSlot
  rw [u16_copy_out (Or.inl (by omega)), u16_putU16]

/-- Filling a slot with a name that fits does not reach any other slot. -/
theorem setSlot_out {j ino : Nat} {name : CStr} (hn : name.strlen < filenameLen) {k : Nat}
    (hk : k < 256 * j ∨ 256 * j + 256 ≤ k) : setSlot b j ino name k = b k := by
  unfold filenameLen at hn
  unfold setSlot putU16
  rw [copy_out (by omega), copy_out (by omega)]

theorem slotInode_setSlot_of_ne {j k ino : Nat} {name : CStr} (hn : name.strlen < filenameLen) (h : k ≠ j) :
    slotInode (setSlot b j ino name) k = slotInode b k :=
  u16_congr fun _ _ => setSlot_out b hn (by omega)

/-- A filled slot holds the name. -/
theorem slotNamed_setSlot_self (j ino : Nat) (name : CStr) : slotNamed (setSlot b j ino name) j name = true := by
  apply strAt_of_mem
  intro k hk
  unfold setSlot
  rw [copy_in (by unfold CStr.strlen; omega)]
  rfl

theorem slotNamed_setSlot_of_ne {j k ino : Nat} {name other : CStr} (hn : name.strlen < filenameLen)
    (ho : other.strlen < filenameLen) (h : k ≠ j) :
    slotNamed (setSlot b j ino name) k other = slotNamed b k other := by
  apply strAt_congr
  intro l hl
  unfold CStr.strlen filenameLen at ho
  exact setSlot_out b hn (by omega)

/-- A slot holds at most one name. -/
theorem slotNamed_unique {j : Nat} {s t : CStr} (hs : slotNamed b j s = true) (ht : slotNamed b j t = true) : s = t :=
  CStr.ext_chars (strAt_unique s.noNul t.noNul hs ht)

end Blocks

end Vsfs
