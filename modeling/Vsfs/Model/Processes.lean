import Vsfs.Lib.Interleaving
import Vsfs.Model.ShmSystem

/-!
# Processes on one mounted volume

The segments `vsfs_cached` and `optab` and the device are shared by all processes that have included `vsfsio_spdk.h`; the
pointers, the descriptor list and the heap are those of each process. The calls take no lock, so this is a model of
processes whose calls do not overlap: a step is one call of one process.

The heaps of all processes take their addresses from one counter. So a pointer to a file object that another process has
left in the open-file table is no address in the heap of this one, and using it is an error as it is in the code.

`Shm.Machine` is the same for `vsfsio.h`, whose device is one more segment that all processes share.
-/

set_option autoImplicit false

namespace Vsfs

open Interleaving GuardedRun

/-- What all processes see. -/
structure Shared where
  vol : Volume
  count : Nat
  opFtable : Nat → OpEntry
  brk : Nat

/-- What a process has for itself. -/
structure Own where
  opCounter : Bool
  fdTable : TablePtr
  fds : HeapChain.Heap FdTable
  files : HeapChain.Heap File
  sbCached : Option Nat
  inodeReg : Option Nat
  maps : Nat
  tmpBasePtr : Bool

/-- The state of a process from the two parts. -/
def State.split : Split State Shared Own where
  join g o :=
    { vol := g.vol
      desc := { opCounter := o.opCounter, count := g.count, opFtable := g.opFtable, fdTable := o.fdTable, fds := o.fds
                files := o.files, brk := g.brk }
      sbCached := o.sbCached, inodeReg := o.inodeReg, maps := o.maps, tmpBasePtr := o.tmpBasePtr }
  shared s := ⟨s.vol, s.desc.count, s.desc.opFtable, s.desc.brk⟩
  own s := ⟨s.desc.opCounter, s.desc.fdTable, s.desc.fds, s.desc.files, s.sbCached, s.inodeReg, s.maps, s.tmpBasePtr⟩
  join_split _ := rfl
  shared_join _ _ := rfl
  own_join _ _ := rfl

/-- Processes on a volume. -/
abbrev Machine (ι : Type) := System ι Shared Own

/-- The state as process `p` sees it. -/
abbrev Machine.at {ι : Type} (m : Machine ι) (p : ι) : State := m.view State.split p

/-- Processes that have not called anything yet. -/
def Machine.start (ι : Type) (s : State) : Machine ι := ⟨State.split.shared s, fun _ => State.split.own s⟩

@[simp] theorem Machine.start_at {ι : Type} (s : State) (p : ι) : (Machine.start ι s).at p = s := rfl

/-- A run of calls of processes in any order. -/
def Machine.Run {ι : Type} [DecidableEq ι] (ok : Call → State → Prop) : Machine ι → Machine ι → Prop :=
  GuardedRun.Run (Interleaving.Step State.split Step) (Interleaving.Ok State.split ok)

namespace Shm

/-- What all processes see. -/
structure Shared where
  seg : Segments
  count : Nat
  opFtable : Nat → OpEntry
  brk : Nat

/-- What a process has for itself. -/
structure Own where
  opCounter : Bool
  fdTable : TablePtr
  fds : HeapChain.Heap FdTable
  files : HeapChain.Heap File
  sb : Bool
  sbCached : Bool

/-- The state of a process from the two parts. -/
def Process.split : Split Process Shared Own where
  join g o :=
    { inodes := g.seg.inodes, data := g.seg.data, cached := g.seg.cached
      desc := { opCounter := o.opCounter, count := g.count, opFtable := g.opFtable, fdTable := o.fdTable, fds := o.fds
                files := o.files, brk := g.brk }
      sb := o.sb, sbCached := o.sbCached }
  shared s := ⟨s.seg, s.desc.count, s.desc.opFtable, s.desc.brk⟩
  own s := ⟨s.desc.opCounter, s.desc.fdTable, s.desc.fds, s.desc.files, s.sb, s.sbCached⟩
  join_split _ := rfl
  shared_join _ _ := rfl
  own_join _ _ := rfl

/-- Processes on the segments. -/
abbrev Machine (ι : Type) := System ι Shared Own

/-- The state as process `p` sees it. -/
abbrev Machine.at {ι : Type} (m : Machine ι) (p : ι) : Process := m.view Process.split p

/-- Processes that have not called anything yet. -/
def Machine.start (ι : Type) (s : Process) : Machine ι := ⟨Process.split.shared s, fun _ => Process.split.own s⟩

/-- A run of calls of processes in any order. -/
def Machine.Run {ι : Type} [DecidableEq ι] (ok : Call → Process → Prop) : Machine ι → Machine ι → Prop :=
  GuardedRun.Run (Interleaving.Step Process.split Step) (Interleaving.Ok Process.split ok)

end Shm

end Vsfs
