import Vsfs.Descriptors.List
import Vsfs.Model.Shm

/-!
# What `vsfs_close` can do

`vsfsClose_cases` takes a call apart: it finds nothing to close, or it unlinks a node and gives its slot up;
`Shm.vsfsClose_zero` does so for a successful call of the shared-memory variant. `dropSlot_once` says what giving up
a slot does.
-/

set_option autoImplicit false

namespace Vsfs

open Function

theorem load_eq_ok {α : Type} {h : HeapChain.Heap α} {p : Option Nat} {c : α} :
    load h p = .ok c ↔ ∃ a, p = some a ∧ h a = some c := by
  unfold load
  constructor
  · intro hl
    split at hl
    case h_1 => cases hl
    case h_2 a =>
      split at hl
      case h_1 => cases hl
      case h_2 c' hc => cases hl; exact ⟨a, rfl, hc⟩
  · rintro ⟨a, rfl, hc⟩
    simp [hc]

theorem slot_eq_ok {e : FdTable} {p : Nat} : e.slot = .ok p ↔ e.ptr = some p := by
  unfold FdTable.slot
  constructor
  · intro h
    split at h
    case h_1 => cases h
    case h_2 q hq => cases h; exact hq
  · intro h
    rw [h]

theorem accessMode_eq_ok {e : FdTable} {f : Nat} : e.accessMode = .ok f ↔ e.flags = some f := by
  unfold FdTable.accessMode
  cases e.flags <;> simp

/-- The flags of the descriptor are set, and are not `O_WRONLY`. -/
def FdTable.CanRead (e : FdTable) : Prop := ∃ f, e.flags = some f ∧ f ≠ oWronly

/-- The flags of the descriptor are set, and are not `O_RDONLY`. -/
def FdTable.CanWrite (e : FdTable) : Prop := ∃ f, e.flags = some f ∧ f ≠ oRdonly

theorem FdTable.CanRead.ne {e : FdTable} (h : e.CanRead) : e.flags ≠ some oWronly := by
  obtain ⟨f, hf, hne⟩ := h
  rw [hf]
  simpa using hne

/-- A descriptor that was opened with `O_RDWR` can do both. -/
theorem FdTable.canRead_of_rdwr {e : FdTable} (h : e.flags = some oRdwr) : e.CanRead := ⟨oRdwr, h, by decide⟩

@[inherit_doc FdTable.canRead_of_rdwr]
theorem FdTable.canWrite_of_rdwr {e : FdTable} (h : e.flags = some oRdwr) : e.CanWrite := ⟨oRdwr, h, by decide⟩

/-! ## Giving up a slot -/

/-- All but the table of open files and its count. -/
structure Desc.SameList (d d' : Desc) : Prop where
  fds : d'.fds = d.fds
  fdTable : d'.fdTable = d.fdTable
  brk : d'.brk = d.brk

theorem dropSlot_sameList (d : Desc) (p : Nat) : d.SameList (d.dropSlot p).2 := by
  unfold Desc.dropSlot
  split
  · exact ⟨rfl, rfl, rfl⟩
  · split
    · exact ⟨rfl, rfl, rfl⟩
    · split
      · exact ⟨rfl, rfl, rfl⟩
      · split <;> exact ⟨rfl, rfl, rfl⟩

theorem dropSlot_files (d : Desc) (p : Nat) : (d.dropSlot p).2.files = d.files := by
  unfold Desc.dropSlot
  split
  · rfl
  · split
    · rfl
    · split
      · rfl
      · split <;> rfl

/-- A slot that is held once is given up: the other slots stay as they are. -/
theorem dropSlot_once {d : Desc} {p : Nat} (hp : (d.opFtable p).ptrCounter = 1) (hc : 0 < d.count) :
    (d.dropSlot p).1 = true ∧ (d.dropSlot p).2.count = d.count - 1 ∧
    ∀ q, q ≠ p → (d.dropSlot p).2.opFtable q = d.opFtable q := by
  unfold Desc.dropSlot
  rw [if_neg (by omega), hp]
  simp only [Nat.sub_self, ne_eq, not_true_eq_false, if_false, if_neg (by omega : ¬d.count = 0)]
  by_cases h1 : 1 < d.count
  · rw [if_pos h1]
    refine ⟨rfl, rfl, fun q hq => ?_⟩
    simp only [update_of_ne hq]
  · rw [if_neg h1]
    refine ⟨rfl, rfl, fun q hq => ?_⟩
    simp only [update_of_ne hq]

@[simp] theorem freeFile_opFtable (d : Desc) (p : Nat) : (d.freeFile p).opFtable = d.opFtable := by
  unfold Desc.freeFile
  split <;> rfl

@[simp] theorem freeFile_count (d : Desc) (p : Nat) : (d.freeFile p).count = d.count := by
  unfold Desc.freeFile
  split <;> rfl

theorem freeFile_sameList (d : Desc) (p : Nat) : d.SameList (d.freeFile p) := by
  unfold Desc.freeFile
  split <;> exact ⟨rfl, rfl, rfl⟩

theorem dropSlot_opCounter (d : Desc) (p : Nat) : (d.dropSlot p).2.opCounter = d.opCounter := by
  unfold Desc.dropSlot
  split
  · rfl
  · split
    · rfl
    · split
      · rfl
      · split <;> rfl

@[simp] theorem freeFile_opCounter (d : Desc) (p : Nat) : (d.freeFile p).opCounter = d.opCounter := by
  unfold Desc.freeFile
  split <;> rfl

/-! ## Freeing the node -/

/-- The end of `vsfs_close`: the node is freed; the header goes with the last node. -/
theorem closeLast_desc {s : State} {next tl : Option Nat} (h : s.desc.fdTable = .table next tl) (a : Nat) :
    (s.closeLast a).desc.fds = update s.desc.fds a none ∧ (s.closeLast a).desc.brk = s.desc.brk ∧
    (s.closeLast a).desc.count = s.desc.count ∧ (s.closeLast a).desc.opFtable = s.desc.opFtable ∧
    (s.closeLast a).desc.files = s.desc.files ∧
    ((next = none ∧ (s.closeLast a).desc.fdTable = .null) ∨
    (next ≠ none ∧ (s.closeLast a).desc.fdTable = .table next tl ∧
      (s.closeLast a).desc.opCounter = s.desc.opCounter)) := by
  obtain ⟨vol, ⟨oc, count, opFtable, fdTable, fds, files, brk⟩, sc, ir, maps, base⟩ := s
  cases h
  cases next with
  | none => exact ⟨rfl, rfl, rfl, rfl, rfl, Or.inl ⟨rfl, rfl⟩⟩
  | some n => exact ⟨rfl, rfl, rfl, rfl, rfl, Or.inr ⟨by simp, rfl, rfl⟩⟩

/-- The same in the shared-memory variant, where the header dangles. -/
theorem Shm.closeLast_desc {s : Shm.State} {next tl : Option Nat} (h : s.desc.fdTable = .table next tl) (a : Nat) :
    (s.closeLast a).desc.fds = update s.desc.fds a none ∧ (s.closeLast a).desc.brk = s.desc.brk ∧
    (s.closeLast a).desc.count = s.desc.count ∧ (s.closeLast a).desc.opFtable = s.desc.opFtable ∧
    ((next = none ∧ (s.closeLast a).desc.fdTable = .freed) ∨
    (next ≠ none ∧ (s.closeLast a).desc.fdTable = .table next tl)) := by
  obtain ⟨inodes, data, ⟨oc, count, opFtable, fdTable, fds, files, brk⟩, sb, sc⟩ := s
  cases h
  cases next with
  | none => exact ⟨rfl, rfl, rfl, rfl, Or.inl ⟨rfl, rfl⟩⟩
  | some n => exact ⟨rfl, rfl, rfl, rfl, Or.inr ⟨by simp, rfl⟩⟩

/-- Unlinking leaves `tail` alone. -/
theorem unlink_fdTable {d d' : Desc} {fildes : Int} {hd : Nat} {tl rm : Option Nat}
    (h : d.unlink fildes hd tl = .ok (rm, d')) (ht : d.fdTable = .table (some hd) tl) :
    ∃ next, d'.fdTable = .table next tl := by
  unfold Desc.unlink at h
  obtain ⟨first, _, h⟩ := ExceptLib.bind_eq_ok.mp h
  split at h
  · cases h
    exact ⟨_, rfl⟩
  · obtain ⟨⟨rm', fds⟩, _, h⟩ := ExceptLib.bind_eq_ok.mp h
    cases h
    exact ⟨_, ht⟩

/-! ## A call -/

section

variable {fildes ret : Int}

/-- A list with a first node that `vsfs_close` is willing to search. -/
structure Desc.Searched (d : Desc) (hd : Nat) (tl : Option Nat) : Prop where
  fdTable : d.fdTable = .table (some hd) tl
  opCounter : d.opCounter = true
  path : ∃ e, d.fds hd = some e ∧ e.path ≠ []

/-- All that `vsfs_close` can do. -/
theorem vsfsClose_cases {s t : State} (h : vsfsClose fildes s = .ok (ret, t)) :
    ((∀ hd tl, ¬s.desc.Searched hd tl) ∧ s.desc.fdTable ≠ .freed ∧ ret = -1 ∧ t = { s with inodeReg := none }) ∨
    ∃ hd tl rm d, s.desc.Searched hd tl ∧ s.desc.unlink fildes hd tl = .ok (rm, d) ∧
      ((rm = none ∧ ret = -1 ∧ t = { s with inodeReg := none, desc := d }) ∨
      ∃ a e p f, rm = some a ∧ d.fds a = some e ∧ e.ptr = some p ∧ load d.files (d.opFtable p).filePtr = .ok f ∧
        ((((d.freeFile p).dropSlot p).1 = false ∧ ret = -1 ∧
          t = { s with inodeReg := none, desc := ((d.freeFile p).dropSlot p).2 }) ∨
        (((d.freeFile p).dropSlot p).1 = true ∧ ret = 0 ∧
          t = { s with inodeReg := none, desc := ((d.freeFile p).dropSlot p).2 }.closeLast a))) := by
  unfold vsfsClose at h
  simp only at h
  split at h
  case h_1 ht =>
    cases h
    refine Or.inl ⟨fun _ _ hs => ?_, by rw [ht]; simp, rfl, rfl⟩
    have htab := hs.fdTable
    rw [ht] at htab
    cases htab
  case h_2 ht =>
    cases h
    refine Or.inl ⟨fun _ _ hs => ?_, by rw [ht]; simp, rfl, rfl⟩
    have htab := hs.fdTable
    rw [ht] at htab
    cases htab
  case h_3 => cases h
  case h_4 hd tl ht =>
  obtain ⟨e, he, h⟩ := ExceptLib.bind_eq_ok.mp h
  obtain ⟨_, ⟨⟩, hc⟩ := load_eq_ok.mp he
  split at h
  case isTrue hno =>
    cases h
    refine Or.inl ⟨fun hd' tl' hs => ?_, by rw [ht]; simp, rfl, rfl⟩
    have htab := hs.fdTable
    rw [ht] at htab
    cases htab
    obtain ⟨e', hc', hp⟩ := hs.path
    rw [hc] at hc'
    cases hc'
    rcases hno with hno | hno
    · exact hp hno
    · rw [hs.opCounter] at hno; cases hno
  case isFalse hyes =>
  rw [not_or] at hyes
  obtain ⟨⟨rm, d⟩, hu, h⟩ := ExceptLib.bind_eq_ok.mp h
  refine Or.inr ⟨hd, tl, rm, d, ⟨ht, by simpa using hyes.2, e, hc, hyes.1⟩, hu, ?_⟩
  cases rm with
  | none => cases h; exact Or.inl ⟨rfl, rfl, rfl⟩
  | some a =>
    obtain ⟨fd, hfd, h⟩ := ExceptLib.bind_eq_ok.mp h
    obtain ⟨_, ⟨⟩, hfd⟩ := load_eq_ok.mp hfd
    obtain ⟨p, hp, h⟩ := ExceptLib.bind_eq_ok.mp h
    obtain ⟨f, hf, h⟩ := ExceptLib.bind_eq_ok.mp h
    refine Or.inr ⟨a, fd, p, f, rfl, hfd, slot_eq_ok.mp hp, hf, ?_⟩
    generalize (d.freeFile p).dropSlot p = r at h
    obtain ⟨_ | _, d'⟩ := r
    · cases h; exact Or.inl ⟨rfl, rfl, rfl⟩
    · cases h; exact Or.inr ⟨rfl, rfl, rfl⟩

/-- All that a successful `vsfs_close` of the shared-memory variant can do. -/
theorem Shm.vsfsClose_zero {s t : Shm.State} (h : Shm.vsfsClose fildes s = .ok (0, t)) :
    ∃ hd tl a d e p, s.desc.Searched hd tl ∧ s.desc.unlink fildes hd tl = .ok (some a, d) ∧ d.fds a = some e ∧
      e.ptr = some p ∧ (d.dropSlot p).1 = true ∧ t = { s with desc := (d.dropSlot p).2 }.closeLast a := by
  unfold Shm.vsfsClose at h
  split at h
  case h_1 => cases h
  case h_2 => cases h
  case h_3 => cases h
  case h_4 hd tl ht =>
  obtain ⟨e, he, h⟩ := ExceptLib.bind_eq_ok.mp h
  obtain ⟨_, ⟨⟩, hc⟩ := load_eq_ok.mp he
  split at h
  case isTrue => cases h
  case isFalse hyes =>
  rw [not_or] at hyes
  obtain ⟨⟨rm, d⟩, hu, h⟩ := ExceptLib.bind_eq_ok.mp h
  cases rm with
  | none => cases h
  | some a =>
    obtain ⟨fd, hfd, h⟩ := ExceptLib.bind_eq_ok.mp h
    obtain ⟨_, ⟨⟩, hfd⟩ := load_eq_ok.mp hfd
    obtain ⟨p, hp, h⟩ := ExceptLib.bind_eq_ok.mp h
    refine ⟨hd, tl, a, d, fd, p, ⟨ht, by simpa using hyes.2, e, hc, hyes.1⟩, hu, hfd, slot_eq_ok.mp hp, ?_⟩
    generalize d.dropSlot p = r at h
    obtain ⟨_ | _, d'⟩ := r
    · cases h
    · cases h; exact ⟨rfl, rfl⟩

end

end Vsfs
