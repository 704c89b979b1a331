import Vsfs.Model.AllocBlock
import Vsfs.Model.Descriptor

/-!
# The calls of `vsfsio_spdk.h`

One process over the mounted volume. `sb_cached` and `inode_reg` are pointers into a mapping of the segment
`vsfs_cached`; the mappings are numbered in the order of the calls of `shm_oandm`, and a pointer is the number of the
mapping it points into. Where a mapping lies is `mmapAddress`. `shm_open`, `mmap`, `malloc` and the device succeed.
`now` is what `time` returns.

Directory slots are elements of an array of 16, so an index from 16 on is out of bounds. The buffers that a call reads
blocks into are there once `init_base_ptr` has run, which `tmpBasePtr` says; their contents are local to a call, which
fills them before it looks at them.
-/

set_option autoImplicit false

namespace Vsfs

open Function ByteSeq

/-- The state of the process, its two segments and the device. -/
structure State where
  vol : Volume
  desc : Desc
  sbCached : Option Nat
  inodeReg : Option Nat
  maps : Nat
  tmpBasePtr : Bool

/-! ## Handles -/

/-- `if (tmp_base_ptr == NULL) init_base_ptr();` -/
def State.initBasePtr (s : State) : State := { s with tmpBasePtr := true }

@[simp] theorem initBasePtr_vol (s : State) : s.initBasePtr.vol = s.vol := rfl

@[simp] theorem initBasePtr_desc (s : State) : s.initBasePtr.desc = s.desc := rfl

@[simp] theorem initBasePtr_sbCached (s : State) : s.initBasePtr.sbCached = s.sbCached := rfl

@[simp] theorem initBasePtr_inodeReg (s : State) : s.initBasePtr.inodeReg = s.inodeReg := rfl

@[simp] theorem initBasePtr_tmpBasePtr (s : State) : s.initBasePtr.tmpBasePtr = true := rfl

/-- A use of the buffers that `init_base_ptr` sets up. -/
def State.useBaseBuffers (s : State) : M Unit := if s.tmpBasePtr = false then .error .nullDeref else .ok ()

/-- `if (!sb_cached) sb_cached = shm_oandm(...); if (!inode_reg) inode_reg = sb_cached->inode_reg;` -/
def State.attach (s : State) : State :=
  let s := match s.sbCached with
    | none => { s with sbCached := some s.maps, maps := s.maps + 1 }
    | some _ => s
  match s.inodeReg with
  | none => { s with inodeReg := s.sbCached }
  | some _ => s

theorem attach_withDesc (s : State) (d : Desc) : { s with desc := d }.attach = { s.attach with desc := d } := by
  obtain ⟨vol, desc, _ | c, _ | r, maps, base⟩ := s <;> rfl

@[simp] theorem attach_vol (s : State) : s.attach.vol = s.vol := by
  obtain ⟨vol, desc, _ | c, _ | r, maps, base⟩ := s <;> rfl

@[simp] theorem attach_desc (s : State) : s.attach.desc = s.desc := by
  obtain ⟨vol, desc, _ | c, _ | r, maps, base⟩ := s <;> rfl

@[simp] theorem initBasePtr_attach (s : State) : s.initBasePtr.attach = s.attach.initBasePtr := by
  obtain ⟨vol, desc, _ | c, _ | r, maps, base⟩ := s <;> rfl

@[simp] theorem attach_tmpBasePtr (s : State) : s.attach.tmpBasePtr = s.tmpBasePtr := by
  obtain ⟨vol, desc, _ | c, _ | r, maps, base⟩ := s <;> rfl

/-- `shm_close((void **)&sb_cached, fd_cached)`. -/
def State.closeCached (s : State) : State := { s with sbCached := none }

/-- A use of `sb_cached`. -/
def State.useSbCached (s : State) : M Unit :=
  match s.sbCached with
  | none => .error .nullDeref
  | some _ => .ok ()

/-- The address of the `n`-th mapping of `vsfs_cached`. That all of them have one address is an assumption about the
kernel: it maps the segment again where it was. -/
def mmapAddress (_n : Nat) : Nat := 0

/-- The assumption as the calls use it: a pointer into an earlier mapping points into the present one. -/
theorem mmapAddress_reused (m n : Nat) : mmapAddress m = mmapAddress n := rfl

/-- A use of `inode_reg[...]`: the pointer has to point into the mapping that `sb_cached` has. -/
def State.useInodeReg (s : State) : M Unit :=
  match s.inodeReg, s.sbCached with
  | none, _ => .error .nullDeref
  | some _, none => .error .unmapped
  | some m, some n => if mmapAddress m = mmapAddress n then .ok () else .error .unmapped

theorem useInodeReg_eq_ok {s : State} : s.useInodeReg = .ok () ↔ s.inodeReg ≠ none ∧ s.sbCached ≠ none := by
  unfold State.useInodeReg
  cases s.inodeReg with
  | none => simp
  | some m =>
    cases s.sbCached with
    | none => simp
    | some n => simp [mmapAddress_reused m n]

/-! ## `vsfs_creat` -/

/-- `inode->l1[k]`, an access inside the array. -/
def Inode.l1At (x : Inode) (k : Nat) : M Nat := if k < level1Limit then .ok (x.l1 k) else .error .outOfBounds

/-- The duplicate check from entry `i` on, with `n` entries left; `buf` is `tmp_dir_reg`. -/
def dupScan (v : Volume) (name : CStr) : Nat → Nat → Block → M Bool
  | 0, _, _ => .ok false
  | n + 1, i, buf => do
    let buf ← (if i % 16 = 0 then do
        let b ← (v.inode 0).l1At (i / 16)
        .ok (v.disk (v.lba b))
      else .ok buf : M Block)
    if slotNamed buf (i % 16) name then .ok true else dupScan v name n (i + 1) buf

/-- The buffer at entry `i`: block `q` of the directory, read at its first entry and kept until its last. -/
theorem entryBlock_eq {v : Volume} {buf : Block} {i p q : Nat} (hq : q < level1Limit) (hp : i % 16 = 0 → p = q)
    (hbuf : i % 16 ≠ 0 → buf = v.disk (v.lba ((v.inode 0).l1 q))) :
    ((if i % 16 = 0 then do
        let b ← (v.inode 0).l1At p
        .ok (v.disk (v.lba b))
      else .ok buf) : M Block) = .ok (v.disk (v.lba ((v.inode 0).l1 q))) := by
  split
  case isTrue h0 =>
    unfold Inode.l1At
    rw [hp h0, if_pos hq]
    rfl
  case isFalse h0 => rw [hbuf h0]

/-- From the label `adding_entry` on. -/
def addingEntry (now : Nat) (name : CStr) (blockNum fInode fDblock dEntry : Nat) (v : Volume) : M Volume := do
  if filesPerBlock ≤ dEntry then .error .outOfBounds
  else do
    let lba := v.lba fDblock
    let v := v.writeBlock lba (setSlot (v.disk lba) dEntry fInode name)
    let v := v.modInode 0 fun x => { x with size := succ32 x.size, atime := now, mtime := now }
    let _ ← v.inodeAt fInode
    let v := v.modInode fInode fun x =>
      { x with mode := 7, blocks := 0, atime := now, ctime := now, mtime := now, size := 0 }
    let (_, v) ← allocBlock v.cached.sbi.ofsDregion fInode blockNum v
    .ok (v.modInode fInode fun x => { x with blocks := blockNum, size := 0 })

/-- `vsfs_creat(file_name, block_num)`. -/
def vsfsCreat (now : Nat) (name : CStr) (blockNum : UInt32) (s : State) : M (Int × State) := do
  let s := s.initBasePtr
  if filenameLen ≤ name.strlen then .ok (-1, s)
  else do
    let s := s.attach
    let dup ← dupScan s.vol name (s.vol.inode 0).entry 0 (fun _ => 0)
    if dup then .ok (-1, s.closeCached)
    else do
      let (fInode, c) ← getFreeInode s.vol.cached
      let v : Volume := { s.vol with cached := c }
      let root := v.inode 0
      if root.entry < root.blocks * 16 % 2 ^ 32 then do
        let fDblock := root.entry / 16
        let v ← addingEntry now name blockNum.toNat fInode fDblock (root.entry - fDblock * 16) v
        .ok (0, { s with vol := v }.closeCached)
      else if root.blocks < 49 then do
        let (fDblock, v) ← v.getFreeDblock
        let dEntry := (root.entry + (2 ^ 32 - root.blocks * 16 % 2 ^ 32)) % 2 ^ 32
        let v := v.modInode 0 fun x => { x with l1 := update x.l1 x.blocks fDblock, blocks := x.blocks + 1 }
        let v ← addingEntry now name blockNum.toNat fInode fDblock dEntry v
        .ok (0, { s with vol := v }.closeCached)
      else do
        let c ← putInode v.cached fInode
        .ok (-1, { s with vol := { v with cached := c } }.closeCached)

/-! ## `vsfs_open` and `vsfs_stat` -/

/-- The search of the root directory from entry `i` on, with `n` entries left: the inode number in the slot that holds
`pathname`. The slot looked at is `files[i - 16 * offset]`. -/
def lookup (v : Volume) (pathname : CStr) : Nat → Nat → M (Option Nat)
  | 0, _ => .ok none
  | n + 1, i => do
    let offset ← (v.inode 0).l1At (i / 16)
    let buf := v.disk (v.lba offset)
    let j := (i + (2 ^ 32 - 16 * offset % 2 ^ 32)) % 2 ^ 32
    if filesPerBlock ≤ j then .error .outOfBounds
    else if slotNamed buf j pathname then .ok (some (slotInode buf j))
    else lookup v pathname n (i + 1)

/-- The time stamps of the inodes on the path of a descriptor that has been opened. -/
def touchPath (now : Nat) (flags : Int) (inode : Nat) (v : Volume) : Volume :=
  if flags = oRdonly then
    (v.modInode 0 fun x => { x with atime := now }).modInode inode fun x => { x with atime := now }
  else if flags = oWronly ∨ flags = oRdwr then
    (v.modInode 0 fun x => { x with atime := now, mtime := now }).modInode inode fun x =>
      { x with atime := now, mtime := now }
  else v

/-- `vsfs_open(pathname, flags)`. -/
def vsfsOpen (now : Nat) (pathname : CStr) (flags : Int) (s : State) : M (Int × State) := do
  let s := s.initBasePtr
  if filenameLen ≤ pathname.strlen then .ok (-1, s)
  else do
    let s := { s with desc := { s.desc with opCounter := true } }.attach
    let (ret, a, d) ← s.desc.addFdTable
    let file := d.brk
    let d := { d with brk := file + 1 }
    match ← lookup s.vol pathname (s.vol.inode 0).entry 0 with
    | none => do
      let d ← d.freeFdTable .null
      .ok (-1, { s with desc := { d with opCounter := false } })
    | some target => do
      let info ← vsfsGetInodeInfo s.vol target
      let d := { d with files := update d.files file (some info) }
      if opLimit ≤ d.count then do
        let d ← d.freeFdTable .null
        .ok (-1, { s with desc := { d with opCounter := false } })
      else
        .ok (ret, { s with
          vol := touchPath now flags target s.vol
          desc := d.takeSlot a target (some file) flags })

/-- `file_stat_t`. -/
structure FileStat where
  mode : List Char
  blocks : Nat
  size : Nat
  atime : Nat
  ctime : Nat
  mtime : Nat
  deriving DecidableEq

/-- The status of an inode as `vsfs_stat` reports it. -/
def Inode.stat (x : Inode) : FileStat :=
  { mode := [if x.mode.testBit 3 then 'd' else '-', if x.mode.testBit 2 then 'r' else '-',
      if x.mode.testBit 1 then 'w' else '-', if x.mode.testBit 0 then 'x' else '-']
    blocks := x.blocks, size := x.fileSize, atime := x.atime, ctime := x.ctime, mtime := x.mtime }

/-- `vsfs_stat(pathname, fre)`, with what it stores in `*fre`. It reads into `tmp_data_reg` without asking whether
there is one. -/
def vsfsStat (pathname : CStr) (s : State) : M (Int × Option FileStat × State) := do
  let s := s.attach
  s.useBaseBuffers
  match ← lookup s.vol pathname (s.vol.inode 0).entry 0 with
  | none => .ok (-1, none, s.closeCached)
  | some target => do
    let x ← s.vol.inodeAt target
    .ok (0, some x.stat, s)

/-! ## `vsfs_close` -/

/-- `free(ptr->file_ptr)` for slot `p`. -/
def Desc.freeFile (d : Desc) (p : Nat) : Desc :=
  match (d.opFtable p).filePtr with
  | some f => { d with files := update d.files f none }
  | none => d

/-- The end of `vsfs_close`: `fd_rm`, at `a`, is freed, and with the list empty its header and the handles go. -/
def State.closeLast (s : State) (a : Nat) : State :=
  let d := { s.desc with fds := update s.desc.fds a none }
  match d.fdTable with
  | .table none _ => { s with desc := { d with fdTable := .null, opCounter := false }, sbCached := none }
  | _ => { s with desc := d }

/-- `vsfs_close(fildes)`. -/
def vsfsClose (fildes : Int) (s : State) : M (Int × State) := do
  let s := { s with inodeReg := none }
  match s.desc.fdTable with
  | .null | .table none _ => .ok (-1, s)
  | .freed => .error .useAfterFree
  | .table (some h) t => do
    let head ← load s.desc.fds (some h)
    if head.path = [] ∨ s.desc.opCounter = false then .ok (-1, s)
    else do
      let (rm, d) ← s.desc.unlink fildes h t
      match rm with
      | none => .ok (-1, { s with desc := d })
      | some a => do
        let fd ← load d.fds (some a)
        let p ← fd.slot
        let _ ← load d.files (d.opFtable p).filePtr
        match (d.freeFile p).dropSlot p with
        | (false, d) => .ok (-1, { s with desc := d })
        | (true, d) => .ok (0, { s with desc := d }.closeLast a)

end Vsfs
