import Vsfs.Model.Types

/-!
# Descriptors and the open-file table

The parts of `vsfs_open`, `vsfs_close` and `_find_target_in_fdtable` that `vsfsio.h` and `vsfsio_spdk.h` share: the
descriptor list of the process, whose nodes and table header are heap objects, and the table of open files in the
shared segment `optab`. A slot of the open-file table is named by its index, which is what a pointer into the segment
comes to. Where the two variants differ (the freed header becomes `NULL` in one of them and dangles in the other), the
caller says what becomes of it.
-/

set_option autoImplicit false

namespace Vsfs

open Function HeapChain

/-- `fd_table`: null, a pointer to a freed header, or a header with its `head` and `tail`. -/
inductive TablePtr
  | null
  | freed
  | table (head tail : Option Nat)
  deriving DecidableEq, Repr

/-- The descriptor list of a process, its heap, and the segment `optab` with the pointer `op_counter` into it. -/
structure Desc where
  opCounter : Bool
  count : Nat
  opFtable : Nat → OpEntry
  fdTable : TablePtr
  fds : Heap FdTable
  files : Heap File
  brk : Nat

/-- `*p` for a pointer into the heap. -/
def load {α : Type} (h : Heap α) : Option Nat → M α
  | none => .error .nullDeref
  | some a =>
    match h a with
    | none => .error .useAfterFree
    | some c => .ok c

/-- The nodes from `head` on. -/
def Desc.nodes (d : Desc) (head : Option Nat) : M (List (Nat × FdTable)) :=
  walk FdTable.next .useAfterFree .diverges d.fds d.brk head

/-- The nodes reachable from `fd_table->head`. -/
def Desc.reachable (d : Desc) : M (List (Nat × FdTable)) :=
  match d.fdTable with
  | .null => .ok []
  | .freed => .error .useAfterFree
  | .table head _ => d.nodes head

/-- `_find_target_in_fdtable`. The loop does not stop at a match, so the last one counts. -/
def Desc.findTarget (d : Desc) (fildes : Int) : M (Option (Nat × FdTable)) := do
  let cs ← d.reachable
  .ok (cs.reverse.find? fun c => (c.2.index : Int) = fildes)

/-- The slot a descriptor points at. -/
def FdTable.slot (e : FdTable) : M Nat :=
  match e.ptr with
  | none => .error .uninitialised
  | some p => .ok p

/-- A use of `flags`, which `vsfs_open` leaves unset for a value that is none of the three. -/
def FdTable.accessMode (e : FdTable) : M Nat :=
  match e.flags with
  | none => .error .uninitialised
  | some f => .ok f

/-! ## `vsfs_open` -/

/-- A `uint16_t` increment. -/
def succ16 (n : Nat) : Nat := if n = 65535 then 0 else n + 1

/-- Adding a node to the list: the number `ret` for the caller and the address of the node. -/
def Desc.addFdTable (d : Desc) : M (Int × Nat × Desc) :=
  match d.fdTable with
  | .freed => .error .useAfterFree
  | .null | .table none _ =>
    .ok (1, d.brk, { d with
      fds := update d.fds d.brk (some ⟨1, none, [0], none, none⟩)
      fdTable := .table (some d.brk) (some d.brk)
      brk := d.brk + 1 })
  | .table (some _) none => .error .nullDeref
  | .table (some h) (some t) => do
    let tail ← load d.fds (some t)
    .ok (tail.index + 1, d.brk, { d with
      fds := update (update d.fds d.brk (some ⟨succ16 tail.index, none, [0], none, none⟩)) t
        (some { tail with next := some d.brk })
      fdTable := .table (some h) (some d.brk)
      brk := d.brk + 1 })

/-- `flags` as the descriptor keeps them; other values leave the field as `malloc` gave it. -/
def openFlags (flags : Int) : Option Nat :=
  if flags = oRdonly then some oRdonly
  else if flags = oWronly then some oWronly
  else if flags = oRdwr then some oRdwr
  else none

/-- Taking the slot at `*op_counter` for the node at `a` that was opened on `inode`. -/
def Desc.takeSlot (d : Desc) (a inode : Nat) (filePtr : Option Nat) (flags : Int) : Desc :=
  { d with
    opFtable := update d.opFtable d.count
      { offset := 0, inodeNr := inode, ptrCounter := 1, lock := 0, filePtr := filePtr }
    fds := update d.fds a
      ((d.fds a).map fun e => { e with ptr := some d.count, path := [0, inode], flags := openFlags flags })
    count := d.count + 1 }

/-- The error labels `free_fd_path` and `free_fd`: every node of the list is freed, then the header, after which
`fd_table` is `table`. -/
def Desc.freeFdTable (d : Desc) (table : TablePtr) : M Desc := do
  let cs ← d.reachable
  .ok { d with fds := fun a => if a ∈ cs.map Prod.fst then none else d.fds a, fdTable := table }

/-! ## `vsfs_close` -/

/-- The loop that unlinks an inner node: `tmp` is the node at `p`, `rm` is `fd_rm`. It reads `tmp->next->index` at
every node and does not stop at a match. -/
def unlinkLoop (fildes : Int) : Nat → Option Nat → Heap FdTable → Option Nat → M (Option Nat × Heap FdTable)
  | _, none, h, rm => .ok (rm, h)
  | 0, some _, _, _ => .error .diverges
  | n + 1, some a, h, rm => do
    let tmp ← load h (some a)
    let next ← load h tmp.next
    if (next.index : Int) = fildes then
      unlinkLoop fildes n next.next (update h a (some { tmp with next := next.next })) tmp.next
    else unlinkLoop fildes n tmp.next h rm

/-- Unlinking the descriptor `fildes` from a list that starts at `head`: the node, if it was found. -/
def Desc.unlink (d : Desc) (fildes : Int) (head : Nat) (tail : Option Nat) : M (Option Nat × Desc) := do
  let first ← load d.fds (some head)
  if (first.index : Int) = fildes then
    .ok (some head, { d with fdTable := .table first.next tail })
  else do
    let (rm, fds) ← unlinkLoop fildes d.brk (some head) d.fds none
    .ok (rm, { d with fds := fds })

/-- Giving up slot `p`: count it down and, at zero, move the last slot of the table over it. `false` for the two error
exits. -/
def Desc.dropSlot (d : Desc) (p : Nat) : Bool × Desc :=
  if (d.opFtable p).ptrCounter = 0 then (false, d)
  else
    let opFtable := update d.opFtable p { d.opFtable p with ptrCounter := (d.opFtable p).ptrCounter - 1 }
    if (d.opFtable p).ptrCounter - 1 ≠ 0 then (true, { d with opFtable := opFtable })
    else if d.count = 0 then (false, { d with opFtable := opFtable })
    else if 1 < d.count then
      (true, { d with opFtable := update opFtable p (opFtable (d.count - 1)), count := d.count - 1 })
    else (true, { d with opFtable := opFtable, count := d.count - 1 })

end Vsfs
