import Vsfs.Shell.Contents
import Vsfs.Volume.Overwrite

/-!
# One file open at a time

The shell has no descriptor open between two commands (`Idle`), and one while `cmd_read` or `cmd_write` runs
(`OneOpen`). The calls of these two commands are computed here on the descriptor list and the open-file table.
-/

set_option autoImplicit false

namespace Vsfs

open Function ByteSeq HeapChain

variable {s t : State} {now i j o : Nat} {f g : File} {name : CStr} {buf : Bytes}

/-! ## The two kinds of states -/

/-- No descriptor is open, and no slot of the table is taken. -/
structure Idle (s : State) : Prop where
  table : s.desc.fdTable = .null
  count : s.desc.count = 0

/-- Descriptor 1 is the only one: it is open on inode `i` at the offset `o`, and the file object is `f`. -/
structure OneOpen (s : State) (i o : Nat) (f : File) : Prop where
  node : ∃ a, s.desc.fdTable = .table (some a) (some a) ∧ a < s.desc.brk ∧
    s.desc.fds a = some ⟨1, some 0, [0, i], some oRdwr, none⟩
  slot : ∃ b, s.desc.opFtable 0 = ⟨o, i, 1, 0, some b⟩ ∧ s.desc.files b = some f
  count : s.desc.count = 1
  opCounter : s.desc.opCounter = true
  sbCached : s.sbCached ≠ none
  inodeReg : s.inodeReg ≠ none

/-- The node that the descriptor has. -/
def oneNode (i : Nat) : FdTable := ⟨1, some 0, [0, i], some oRdwr, none⟩

theorem OneOpen.reachable (h : OneOpen s i o f) : ∃ a, s.desc.fds a = some (oneNode i) ∧
    s.desc.fdTable = .table (some a) (some a) ∧ s.desc.reachable = .ok [(a, oneNode i)] := by
  obtain ⟨a, ht, hlt, hn⟩ := h.node
  obtain ⟨k, hk⟩ := Nat.exists_eq_add_of_lt hlt
  refine ⟨a, hn, ht, ?_⟩
  unfold Desc.reachable Desc.nodes
  rw [ht, hk]
  simp [walk, hn, oneNode]

theorem OneOpen.openOn (h : OneOpen s i o f) : s.OpenOn 1 (oneNode i) 0 := by
  obtain ⟨a, _, _, hr⟩ := h.reachable
  refine ⟨a, ?_, rfl⟩
  unfold Desc.findTarget
  rw [hr]
  simp [oneNode]

theorem OneOpen.fileOf (h : OneOpen s i o f) : ∃ b, s.desc.opFtable 0 = ⟨o, i, 1, 0, some b⟩ ∧
    s.desc.files b = some f ∧ s.desc.fileOf 0 = .ok (b, f) := by
  obtain ⟨b, hslot, hf⟩ := h.slot
  exact ⟨b, hslot, hf, fileOf_eq_ok.mpr ⟨by rw [hslot], hf⟩⟩

/-- Other contents of the file object, another offset and another volume. -/
theorem OneOpen.changed (h : OneOpen s i o f) {b : Nat} (hb : (s.desc.opFtable 0).filePtr = some b) (v : Volume)
    (g : File) (o' : Nat) : OneOpen { s with vol := v, desc := (s.desc.modFile b g).setOffset 0 o' } i o' g := by
  obtain ⟨c, hslot, _⟩ := h.slot
  rw [hslot] at hb
  cases hb
  refine ⟨h.node, ⟨b, ?_, update_self ..⟩, h.count, h.opCounter, h.sbCached, h.inodeReg⟩
  simp [Desc.setOffset, Desc.modFile, hslot]

/-! ## `vsfs_open` -/

/-- What `vsfs_open` adds to an empty list. -/
theorem Idle.addFdTable (h : Idle s) (oc : Bool) : Desc.addFdTable { s.desc with opCounter := oc } =
    .ok (1, s.desc.brk, { s.desc with
      opCounter := oc
      fds := update s.desc.fds s.desc.brk (some ⟨1, none, [0], none, none⟩)
      fdTable := .table (some s.desc.brk) (some s.desc.brk)
      brk := s.desc.brk + 1 }) := by
  unfold Desc.addFdTable
  simp only [h.table]

/-- After `attach` both handles are there. -/
theorem attach_handles (s : State) : s.attach.sbCached ≠ none ∧ s.attach.inodeReg ≠ none := by
  obtain ⟨vol, desc, _ | c, _ | r, maps, base⟩ := s <;> simp [State.attach]

/-- **`vsfs_open` of a file**, for reading and writing. -/
theorem Idle.open (h : Idle s) (hlen : name.strlen < filenameLen)
    (hl : lookup s.vol name (s.vol.inode 0).entry 0 = .ok (some i)) (hi : vsfsGetInodeInfo s.vol i = .ok f) :
    ∃ t, vsfsOpen now name oRdwr s = .ok (1, t) ∧ OneOpen t i 0 f ∧ t.vol = touchPath now oRdwr i s.vol := by
  have hflags : openFlags ((oRdwr : Nat) : Int) = some oRdwr := rfl
  obtain ⟨hsb, hir⟩ := attach_handles s
  unfold vsfsOpen
  dsimp only
  rw [if_neg (by omega), attach_withDesc, initBasePtr_attach]
  simp only [initBasePtr_vol, initBasePtr_desc, attach_vol, h.addFdTable, ExceptLib.ok_bind, hl, hi]
  rw [if_neg (by rw [h.count]; decide)]
  refine ⟨_, rfl, ⟨⟨s.desc.brk, rfl, by simp only [Desc.takeSlot]; omega, ?_⟩, ⟨s.desc.brk + 1, ?_, ?_⟩, ?_, rfl, hsb,
    hir⟩, rfl⟩
  · simp [Desc.takeSlot, hflags, h.count]
  · simp [Desc.takeSlot, h.count]
  · simp [Desc.takeSlot]
  · simp [Desc.takeSlot, h.count]

/-- **`vsfs_open` of a name that no file has**. -/
theorem Idle.open_missing (h : Idle s) (hl : lookup s.vol name (s.vol.inode 0).entry 0 = .ok none) :
    ∃ t, vsfsOpen now name oRdwr s = .ok (-1, t) ∧ Idle t ∧ t.vol = s.vol := by
  unfold vsfsOpen
  dsimp only
  split
  case isTrue => exact ⟨s.initBasePtr, rfl, ⟨h.table, h.count⟩, rfl⟩
  case isFalse =>
  rw [attach_withDesc, initBasePtr_attach]
  simp only [initBasePtr_vol, initBasePtr_desc, attach_vol, h.addFdTable, ExceptLib.ok_bind, hl]
  have hr : Desc.reachable { s.desc with
      opCounter := true
      fds := update s.desc.fds s.desc.brk (some ⟨1, none, [0], none, none⟩)
      fdTable := .table (some s.desc.brk) (some s.desc.brk)
      brk := s.desc.brk + 1 + 1 } = .ok [(s.desc.brk, ⟨1, none, [0], none, none⟩)] := by
    simp [Desc.reachable, Desc.nodes, walk]
  unfold Desc.freeFdTable
  rw [hr]
  exact ⟨_, rfl, ⟨rfl, h.count⟩, rfl⟩

/-! ## `vsfs_lseek`, `vsfs_read` and `vsfs_close` -/

/-- **`vsfs_lseek`** to the start. -/
theorem OneOpen.rewind (h : OneOpen s i o f) : ∃ t, vsfsLseek 1 0 seekSet s = .ok (0, t) ∧ OneOpen t i 0 f ∧
    t.vol = s.vol := by
  obtain ⟨a, hfind, hp⟩ := h.openOn
  obtain ⟨b, hslot, hfile, hof⟩ := h.fileOf
  obtain ⟨r, hr⟩ := Option.ne_none_iff_exists'.mp h.inodeReg
  have hreg : s.setInodeReg = .ok s := by simp [State.setInodeReg, hr]
  unfold vsfsLseek
  rw [if_neg (by simp [h.opCounter]), hreg, ExceptLib.ok_bind, hfind, ExceptLib.ok_bind]
  dsimp only
  rw [slot_eq_ok.mpr hp, ExceptLib.ok_bind, hof, ExceptLib.ok_bind]
  dsimp only
  have h0 : (0 : UInt64).toNat = 0 := rfl
  rw [if_pos rfl, h0, if_neg (by decide), if_neg (Nat.not_lt_zero _), ExceptLib.ok_bind]
  refine ⟨_, rfl, ⟨h.node, ⟨b, ?_, hfile⟩, h.count, h.opCounter, h.sbCached, h.inodeReg⟩, rfl⟩
  simp [Desc.setOffset, hslot]

/-- **`vsfs_read`** of a block, when `__read_dblock` succeeds. -/
theorem OneOpen.read {ret : Int} {readed : Nat} {buf' : Bytes} (h : OneOpen s i o f) (hi : i < nrInodes)
    (hr : readDblock { f with atime := now } o 4096 buf (s.vol.modInode i fun x => { x with atime := now }) =
      .ok (ret, readed, buf')) :
    ∃ t, vsfsRead now 1 buf 4096 s = .ok (ret, buf', t) ∧
      OneOpen t i ((o + readed) % 2 ^ 64) { f with atime := now } ∧ Touched s.vol t.vol := by
  obtain ⟨a, hfind, hp⟩ := h.openOn
  obtain ⟨b, hslot, hfile, hof⟩ := h.fileOf
  have huse : s.useInodeReg = .ok () := useInodeReg_eq_ok.mpr ⟨h.inodeReg, h.sbCached⟩
  have hn : (4096 : UInt64).toNat = 4096 := rfl
  have hop : (s.desc.opFtable 0).offset = o ∧ (s.desc.opFtable 0).inodeNr = i := by rw [hslot]; exact ⟨rfl, rfl⟩
  obtain ⟨t, hrun, ht⟩ : ∃ t, vsfsRead now 1 buf 4096 s = .ok (ret, buf', t) ∧
      OneOpen t i ((o + readed) % 2 ^ 64) { f with atime := now } := by
    unfold vsfsRead
    rw [if_neg (by simp [h.opCounter]), hfind, ExceptLib.ok_bind]
    dsimp only
    have hmode : (oneNode i).accessMode = .ok oRdwr := rfl
    rw [hmode, ExceptLib.ok_bind, if_neg (by decide), slot_eq_ok.mpr hp, ExceptLib.ok_bind, hof, ExceptLib.ok_bind]
    dsimp only
    rw [huse, ExceptLib.ok_bind, hop.2, (inodeAt_eq_ok _ _).mpr ⟨hi, rfl⟩, ExceptLib.ok_bind, hop.1, hn, hr,
      ExceptLib.ok_bind]
    exact ⟨_, rfl, h.changed (by rw [hslot]) _ _ _⟩
  exact ⟨t, hrun, ht, read_touched hrun⟩

/-- **`vsfs_close`** of the descriptor. -/
theorem OneOpen.close (h : OneOpen s i o f) : ∃ t, vsfsClose 1 s = .ok (0, t) ∧ Idle t ∧ t.vol = s.vol := by
  obtain ⟨a, hn, ht, _⟩ := h.reachable
  obtain ⟨b, hslot, hfile, _⟩ := h.fileOf
  unfold vsfsClose
  simp only [ht]
  have hload : Vsfs.load s.desc.fds (some a) = .ok (oneNode i) := by simp [Vsfs.load, hn]
  rw [hload, ExceptLib.ok_bind, if_neg (by simp [oneNode, h.opCounter])]
  have hunlink : s.desc.unlink 1 a (some a) = .ok (some a, { s.desc with fdTable := .table none (some a) }) := by
    unfold Desc.unlink
    rw [hload]
    simp [oneNode]
  rw [hunlink, ExceptLib.ok_bind]
  dsimp only
  rw [hload, ExceptLib.ok_bind]
  simp only [FdTable.slot, oneNode, ExceptLib.ok_bind, hslot, Vsfs.load, hfile]
  have hdrop : Desc.dropSlot (Desc.freeFile { s.desc with fdTable := .table none (some a) } 0) 0 = (true,
      { s.desc with
        fdTable := .table none (some a)
        files := update s.desc.files b none
        opFtable := update s.desc.opFtable 0 ⟨o, i, 0, 0, some b⟩
        count := 0 }) := by
    simp [Desc.dropSlot, Desc.freeFile, hslot, h.count]
  rw [hdrop]
  exact ⟨_, rfl, ⟨rfl, rfl⟩, rfl⟩

end Vsfs
