import Vsfs.Model.SpdkIO

/-!
# What the calls of `vsfsio_spdk.h` print

A call that goes wrong prints a text to standard output. The texts are given here for a call that is made in the state
`s`, with the checks in the order of the source. What depends on `SHOW_PROC`, which is 0, and what follows a failure of
`malloc`, of a mapping or of the device is left out.
-/

set_option autoImplicit false

namespace Vsfs

open ByteSeq

/-- `vsfs_creat(file_name, block_num)`. -/
def vsfsCreatPrints (name : CStr) (s : State) : M (List String) :=
  if filenameLen ≤ name.strlen then .ok ["the file_name's lens over the limit!\n"]
  else do
    let dup ← dupScan s.vol name (s.vol.inode 0).entry 0 (fun _ => 0)
    let root := s.vol.inode 0
    if dup then .ok ["ERR: in vsfs_creat(): you have the same file_name in FS\n"]
    else if root.entry < root.blocks * 16 % 2 ^ 32 then .ok []
    else if root.blocks < 49 then .ok []
    else .ok ["the / inode dentry bigger than 49 blocks, need to turn to level 2 pointer!\n"]

/-- `vsfs_open(pathname, flags)`. -/
def vsfsOpenPrints (pathname : CStr) (s : State) : M (List String) :=
  if filenameLen ≤ pathname.strlen then .ok ["ERR: the pathname's lens over the limit!\n"]
  else do
    match ← lookup s.vol pathname (s.vol.inode 0).entry 0 with
    | none => .ok ["ERR: in vsfs_open(): file or dir not find!\n"]
    | some _ =>
      if opLimit ≤ s.desc.count then .ok ["ERR: in vsfs_open(): open file table full, need to allocate a new block\n"]
      else .ok []

/-- `vsfs_stat(pathname, fre)`. -/
def vsfsStatPrints (pathname : CStr) (s : State) : M (List String) := do
  match ← lookup s.vol pathname (s.vol.inode 0).entry 0 with
  | none => .ok ["vsfs_stat(): the filename not find in FS\n"]
  | some _ => .ok []

/-- The end of `vsfs_close`, for slot `p`. -/
def Desc.dropSlotPrints (d : Desc) (p : Nat) : List String :=
  if (d.opFtable p).ptrCounter = 0 then
    ["ERR: in vsfs_close(): the target's open file table counter is already 0\n"]
  else if (d.opFtable p).ptrCounter - 1 = 0 ∧ d.count = 0 then
    ["ERR: in vsfs_close(): the (*op_counter) is small than 0\n"]
  else []

/-- `vsfs_close(fildes)`. -/
def vsfsClosePrints (fildes : Int) (s : State) : M (List String) :=
  match s.desc.fdTable with
  | .null => .ok ["ERR: in vsfs_close(): fd_table are not exist!\n"]
  | .table none _ => .ok ["ERR: in vsfs_close(): fd_table's head are not exist!\n"]
  | .freed => .error .useAfterFree
  | .table (some h) t => do
    let head ← load s.desc.fds (some h)
    if head.path = [] then .ok ["ERR: in vsfs_close(): fd_table's path_head are not exist!\n"]
    else if s.desc.opCounter = false then .ok ["ERR: in vsfs_close(): open file table are not exist!\n"]
    else do
      let (rm, d) ← s.desc.unlink fildes h t
      match rm with
      | none => .ok ["ERR: in vsfs_close(): doesn't find the target!\n"]
      | some a => do
        let fd ← load d.fds (some a)
        let p ← fd.slot
        .ok (d.dropSlotPrints p)

/-- `_find_target_in_fdtable` when it fails. -/
def Desc.notFound (d : Desc) : String :=
  if d.fdTable = .null then "ERR: in _find_target_in_fdtable(): fd table are not exist!\n"
  else "ERR: in _find_target_in_fdtable(): not found the target in fd_table!\n"

/-- `vsfs_write(fildes, buf, nbyte)`. -/
def vsfsWritePrints (fildes : Int) (nbyte : UInt64) (s : State) : M (List String) := do
  match ← s.desc.findTarget fildes with
  | none => .error .nullDeref
  | some (_, fd) => do
    let p ← fd.slot
    let fin := ((s.desc.opFtable p).offset + nbyte.toNat) % 2 ^ 64
    if s.desc.opCounter = false then .ok ["ERR: in vsfs_write(): open file table do not exist!\n"]
    else do
      let flags ← fd.accessMode
      if flags = oRdonly then .ok ["ERR: in vsfs_write(): the open flags error!\n"]
      else if s.sbCached = none then .ok ["ERR: in vsfs_write(): vsfa_cached are not exist!\n"]
      else if level3LimitTimesBlockSize < fin then
        .ok ["ERR: in vsfs_write(): there are too much data, exceed the limit(4G)!\n"]
      else if 0x100000000 < fin / blockSize then .ok ["ERR: in vsfs_write(): over the file size limit(4G)!\n"]
      else .ok []

/-- `vsfs_read(fildes, buf, nbyte)`. -/
def vsfsReadPrints (fildes : Int) (s : State) : M (List String) :=
  if s.desc.opCounter = false then .ok ["ERR: in vsfs_read(): open file table are not exist!\n"]
  else do
    match ← s.desc.findTarget fildes with
    | none => .ok [s.desc.notFound]
    | some (_, fd) => do
      let flags ← fd.accessMode
      if flags = oWronly then .ok ["ERR: in vsfs_read(): the open flags error!\n"] else .ok []

/-- `vsfs_lseek(fd, offset, whence)`. -/
def vsfsLseekPrints (fildes : Int) (offset : UInt64) (whence : Int) (s : State) : M (List String) :=
  if s.desc.opCounter = false then .ok ["ERR: in vsfs_lseek(): you need to open the file first!\n"]
  else do
    match ← s.desc.findTarget fildes with
    | none => .ok [s.desc.notFound]
    | some (_, fd) => do
      let p ← fd.slot
      let (_, f) ← s.desc.fileOf p
      if whence = seekSet then
        if 0x100000000 < offset.toNat then .ok ["ERR: in vsfs_lseek(): setting offset over the file size limit\n"]
        else .ok []
      else if whence = seekEnd then
        if f.size < (f.size + offset.toNat) % 2 ^ 64 then
          .ok ["ERR: in vsfs_lseek(): setting offset over the file size\n"]
        else .ok []
      else if whence = seekCur then
        if f.size < ((s.desc.opFtable p).offset + offset.toNat) % 2 ^ 64 then
          .ok ["ERR: in vsfs_lseek(): setting offset over the file size\n"]
        else .ok []
      else .ok ["ERR: in vsfs_lseek(): not know where to set the offset\n"]

/-- What a call prints. -/
def Call.prints : Call → State → M (List String)
  | .creat name _, s => vsfsCreatPrints name s
  | .open pathname _, s => vsfsOpenPrints pathname s
  | .stat pathname, s => vsfsStatPrints pathname s
  | .close fildes, s => vsfsClosePrints fildes s
  | .write fildes _ nbyte, s => vsfsWritePrints fildes nbyte s
  | .read fildes _ _, s => vsfsReadPrints fildes s
  | .lseek fildes offset whence, s => vsfsLseekPrints fildes offset whence s

end Vsfs
