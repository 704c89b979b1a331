import Vsfs.Model.Spdk

/-!
# Opening and closing in `vsfsio.h`

The variant whose device is the segment `vsfs`: `sb` points to it, and the inode region and the data region are parts
of it. Open files have no file object here, so a slot keeps the `file_ptr` it had. The error labels of `vsfs_open`
free the descriptor list but leave `fd_table` pointing at the freed header, and so does closing the last descriptor.
-/

set_option autoImplicit false

namespace Vsfs.Shm

open Function ByteSeq

/-- The state of the process and its segments; `sb` and `sbCached` say whether the two are mapped. -/
structure State where
  inodes : Nat → Inode
  data : Nat → Block
  desc : Desc
  sb : Bool
  sbCached : Bool

/-- The search of the root directory from entry `i` on, with `n` entries left. -/
def lookup (inodes : Nat → Inode) (data : Nat → Block) (pathname : CStr) : Nat → Nat → M (Option Nat)
  | 0, _ => .ok none
  | n + 1, i => do
    let offset ← (inodes 0).l1At (i / 16)
    let j := (i + (2 ^ 32 - 16 * offset % 2 ^ 32)) % 2 ^ 32
    if filesPerBlock ≤ j then .error .outOfBounds
    else if slotNamed (data offset) j pathname then .ok (some (slotInode (data offset) j))
    else lookup inodes data pathname n (i + 1)

/-- The time stamps of the inodes on the path of a descriptor that has been opened. -/
def touchPath (now : Nat) (flags : Int) (inode : Nat) (inodes : Nat → Inode) : Nat → Inode :=
  let stamp : Inode → Inode :=
    if flags = oRdonly then fun x => { x with atime := now }
    else if flags = oWronly ∨ flags = oRdwr then fun x => { x with atime := now, mtime := now }
    else id
  fun i => if i = 0 ∨ i = inode then stamp (inodes i) else inodes i

/-- The error label `free_fd_path` and those after it. -/
def State.unwind (s : State) (d : Desc) : M State := do
  let d ← d.freeFdTable .freed
  .ok { s with desc := { d with opCounter := false }, sb := false }

/-- `vsfs_open(pathname, flags)`. -/
def vsfsOpen (now : Nat) (pathname : CStr) (flags : Int) (s : State) : M (Int × State) := do
  if filenameLen ≤ pathname.strlen then .ok (-1, s)
  else do
    let s := { s with desc := { s.desc with opCounter := true }, sb := true, sbCached := true }
    let (ret, a, d) ← s.desc.addFdTable
    match ← lookup s.inodes s.data pathname (s.inodes 0).entry 0 with
    | none => do
      let s ← s.unwind d
      .ok (-1, s)
    | some target =>
      if opLimit ≤ d.count then do
        let s ← s.unwind d
        .ok (-1, s)
      else
        .ok (ret, { s with
          inodes := touchPath now flags target s.inodes
          desc := d.takeSlot a target (d.opFtable d.count).filePtr flags })

/-- The end of `vsfs_close`: `fd_rm`, at `a`, is freed, and with the list empty its header and the handles go. -/
def State.closeLast (s : State) (a : Nat) : State :=
  let d := { s.desc with fds := update s.desc.fds a none }
  match d.fdTable with
  | .table none _ => { s with desc := { d with fdTable := .freed, opCounter := false }, sb := false, sbCached := false }
  | _ => { s with desc := d }

/-- `vsfs_close(fildes)`. -/
def vsfsClose (fildes : Int) (s : State) : M (Int × State) := do
  match s.desc.fdTable with
  | .null | .table none _ => .ok (-1, s)
  | .freed => .error .useAfterFree
  | .table (some h) t => do
    let head ← load s.desc.fds (some h)
    if head.path = [] ∨ s.desc.opCounter = false then .ok (-1, s)
    else do
      let (rm, d) ← s.desc.unlink fildes h t
      match rm with
      | none => .ok (-1, { s with desc := d })
      | some a => do
        let fd ← load d.fds (some a)
        let p ← fd.slot
        match d.dropSlot p with
        | (false, d) => .ok (-1, { s with desc := d })
        | (true, d) => .ok (0, { s with desc := d }.closeLast a)

end Vsfs.Shm
