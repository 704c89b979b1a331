import Vsfs.Model.Spdk

/-!
# Listing the root directory: `ufs_sh.c`

The shell lists the directory in two places. Both loops go over the entries of the root inode, read a block of the
directory at every 16th of them, and print the slot of the entry; they differ in the entry of `l1` that they read and
in the slot that they print. `sb` is mapped.
-/

set_option autoImplicit false

namespace Vsfs

open ByteSeq

/-- What `%s` prints of `b->files[j].filename`: the characters up to a terminator, at most to the end of the block. -/
def slotText (b : Block) (j : Nat) : List UInt8 := textAt b (blockSize - (256 * j + 2)) (256 * j + 2)

/-- A use of `root_dir_info->files[j]`, an access inside the array. -/
def slotAt {α : Type} (out : Block → Nat → α) (b : Block) (j : Nat) : M α :=
  if j < filesPerBlock then .ok (out b j) else .error .outOfBounds

/-- The loop of a listing from entry `i` on, with `n` entries left. `buf` is `root_dir_info`; every 16th entry reads
`l1[ptr i]` into it, and entry `i` prints `out` of the slot `files[slot i]`. -/
def listRoot {α : Type} (v : Volume) (ptr slot : Nat → Nat) (out : Block → Nat → α) : Nat → Nat → Block → M (List α)
  | 0, _, _ => .ok []
  | n + 1, i, buf => do
    let buf ← (if i % 16 = 0 then do
        let b ← (v.inode 0).l1At (ptr i)
        .ok (v.disk (v.lba b))
      else .ok buf : M Block)
    let text ← slotAt out buf (slot i)
    let rest ← listRoot v ptr slot out n (i + 1) buf
    .ok (text :: rest)

/-- `cmd_ls`: the names that it prints. -/
def cmdLs (v : Volume) : M (List (List UInt8)) :=
  listRoot v (fun i => i) (fun i => i) slotText (v.inode 0).entry 0 (fun _ => 0)

/-- What `p_root_info` prints: the fields of the root inode, then a name and an inode number for each entry. -/
structure RootInfo where
  mode : Nat
  blocks : Nat
  entry : Nat
  atime : Nat
  ctime : Nat
  mtime : Nat
  files : List (List UInt8 × Nat)

/-- `p_root_info`, up to the call of `free_dma_buffer(root_inode)` at its end. -/
def pRootInfo (v : Volume) : M RootInfo := do
  let x := v.inode 0
  let b ← x.l1At 0
  let files ← listRoot v (fun i => i / 16) (fun i => i % 16) (fun b j => (slotText b j, slotInode b j)) x.entry 0
    (v.disk (v.lba b))
  .ok ⟨x.mode, x.blocks, x.entry, x.atime, x.ctime, x.mtime, files⟩

end Vsfs
