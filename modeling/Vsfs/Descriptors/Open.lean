import Vsfs.Descriptors.List
import Vsfs.Model.Shm
import Vsfs.Model.System

/-!
# What a failed `vsfs_open` leaves behind

- `vsfsOpen_cases`, `Shm.vsfsOpen_cases`: all that the two versions of `vsfs_open` can do;
- `vsfsOpen_atomic_iff`: a call that returns -1 leaves descriptors, table and handles as they were exactly when the
  name is too long or, in the SPDK variant, when there was nothing to lose.
-/

set_option autoImplicit false

namespace Vsfs

open Function ByteSeq

/-! ## All that a call can do -/

/-- Attaching leaves the two pointers as they are exactly when both are set. -/
theorem attach_handles_iff (s : State) : (s.attach.sbCached = s.sbCached ∧ s.attach.inodeReg = s.inodeReg) ↔
    s.sbCached ≠ none ∧ s.inodeReg ≠ none := by
  obtain ⟨vol, desc, _ | c, _ | r, maps, base⟩ := s <;> simp [State.attach]

theorem freeFdTable_eq_ok {d d' : Desc} {p : TablePtr} : d.freeFdTable p = .ok d' ↔
    ∃ cs, d.reachable = .ok cs ∧
      { d with fds := fun a => if a ∈ cs.map Prod.fst then none else d.fds a, fdTable := p } = d' := by
  unfold Desc.freeFdTable
  rw [ExceptLib.bind_eq_ok]
  constructor
  · rintro ⟨cs, hr, h⟩
    exact ⟨cs, hr, by simpa using h⟩
  · rintro ⟨cs, hr, h⟩
    exact ⟨cs, hr, by rw [h]⟩

section Spdk

variable {now : Nat} {pathname : CStr} {flags ret : Int} {s t : State}

/-- What a failing `vsfs_open` leaves when it has added its node: no list and no open-file table. -/
structure Unwound (s t : State) : Prop where
  vol : t.vol = s.vol
  sbCached : t.sbCached = s.attach.sbCached
  inodeReg : t.inodeReg = s.attach.inodeReg
  fdTable : t.desc.fdTable = .null
  opCounter : t.desc.opCounter = false
  count : t.desc.count = s.desc.count
  opFtable : t.desc.opFtable = s.desc.opFtable
  files : ∀ a f, t.desc.files a = some f → s.desc.files a = some f ∨ ∃ i, vsfsGetInodeInfo s.vol i = .ok f
  tmpBasePtr : t.tmpBasePtr = true

/-- All that `vsfs_open` can do: reject the name, fail with its node added, or open the file. -/
theorem vsfsOpen_cases (h : vsfsOpen now pathname flags s = .ok (ret, t)) :
    (filenameLen ≤ pathname.strlen ∧ ret = -1 ∧ t = s.initBasePtr) ∨
    pathname.strlen < filenameLen ∧ ∃ fd a d, { s.desc with opCounter := true }.addFdTable = .ok (fd, a, d) ∧
      ((ret = -1 ∧ Unwound s t) ∨
      ∃ target info, lookup s.vol pathname (s.vol.inode 0).entry 0 = .ok (some target) ∧
        vsfsGetInodeInfo s.vol target = .ok info ∧ s.desc.count < opLimit ∧ ret = fd ∧
        t = { s.attach.initBasePtr with
          vol := touchPath now flags target s.vol
          desc := { d with brk := d.brk + 1, files := update d.files d.brk (some info) }.takeSlot a target
            (some d.brk) flags }) := by
  unfold vsfsOpen at h
  dsimp only at h
  split at h
  case isTrue hlen => cases h; exact Or.inl ⟨hlen, rfl, rfl⟩
  case isFalse hlen =>
  rw [attach_withDesc, initBasePtr_attach] at h
  obtain ⟨⟨fd, a, d⟩, hadd, h⟩ := ExceptLib.bind_eq_ok.mp h
  obtain ⟨hcount, hop, _⟩ := addFdTable_optab hadd
  have hfiles : d.files = s.desc.files := (addFdTable_files hadd).trans rfl
  refine Or.inr ⟨by omega, fd, a, d, hadd, ?_⟩
  simp only [initBasePtr_vol, attach_vol] at h
  obtain ⟨found, hlook, h⟩ := ExceptLib.bind_eq_ok.mp h
  cases found with
  | none =>
    obtain ⟨d', hfree, h⟩ := ExceptLib.bind_eq_ok.mp h
    obtain ⟨cs, _, rfl⟩ := freeFdTable_eq_ok.mp hfree
    cases h
    exact Or.inl ⟨rfl, rfl, rfl, rfl, rfl, rfl, hcount, hop, fun b f hb => Or.inl (hfiles ▸ hb), rfl⟩
  | some target =>
    obtain ⟨info, hinfo, h⟩ := ExceptLib.bind_eq_ok.mp h
    split at h
    case isTrue hfull =>
      obtain ⟨d', hfree, h⟩ := ExceptLib.bind_eq_ok.mp h
      obtain ⟨cs, _, rfl⟩ := freeFdTable_eq_ok.mp hfree
      cases h
      refine Or.inl ⟨rfl, rfl, rfl, rfl, rfl, rfl, hcount, hop, fun b f hb => ?_, rfl⟩
      simp only [update_apply] at hb
      split at hb
      · cases hb
        exact Or.inr ⟨target, hinfo⟩
      · exact Or.inl (hfiles ▸ hb)
    case isFalse hfull =>
      cases h
      simp only [initBasePtr_desc] at hcount
      exact Or.inr ⟨target, info, hlook, hinfo, by omega, rfl, rfl⟩

/-- `vsfs_open` leaves the buffers behind, whatever it returns. -/
theorem vsfsOpen_tmpBasePtr (h : vsfsOpen now pathname flags s = .ok (ret, t)) : t.tmpBasePtr = true := by
  obtain ⟨_, _, rfl⟩ | ⟨_, _, _, _, _, ⟨_, hu⟩ | ⟨_, _, _, _, _, _, rfl⟩⟩ := vsfsOpen_cases h
  · rfl
  · exact hu.tmpBasePtr
  · rfl

/-- **When `vsfs_open` of a file that is there returns**, the table of open files having a slot left: exactly if its node
can be added. -/
theorem vsfsOpen_returns_iff {i : Nat} {f : File} (hlen : pathname.strlen < filenameLen)
    (hl : lookup s.vol pathname (s.vol.inode 0).entry 0 = .ok (some i)) (hf : vsfsGetInodeInfo s.vol i = .ok f)
    (hc : s.desc.count < opLimit) : (∃ r, vsfsOpen now pathname flags s = .ok r) ↔ s.desc.TailLive := by
  constructor
  · rintro ⟨⟨ret, t⟩, h⟩
    obtain ⟨hlong, -⟩ | ⟨-, fd, a, d, hadd, -⟩ := vsfsOpen_cases h
    · omega
    · have hlive : Desc.TailLive { s.desc with opCounter := true } := addFdTable_ok_iff.mp ⟨_, hadd⟩
      exact hlive
  · intro ht
    obtain ⟨⟨fd, a, d⟩, hadd⟩ := addFdTable_ok_iff.mpr (show Desc.TailLive { s.desc with opCounter := true } from ht)
    have hcount : d.count = s.desc.count := (addFdTable_optab hadd).1
    unfold vsfsOpen
    dsimp only
    rw [if_neg (by omega), attach_withDesc, initBasePtr_attach]
    simp only [initBasePtr_vol, initBasePtr_desc, attach_vol, hadd, ExceptLib.ok_bind, hl, hf]
    rw [if_neg (by omega)]
    exact ⟨_, rfl⟩

/-- The number of a new descriptor is positive. -/
theorem addFdTable_pos {d d' : Desc} {fd : Int} {a : Nat} (h : d.addFdTable = .ok (fd, a, d')) : 0 < fd := by
  obtain ⟨_, _, ⟨_, rfl, _⟩ | ⟨_, _, _, _, _, rfl, _⟩⟩ := addFdTable_cases h
  · decide
  · omega

/-- Nothing that `vsfs_open` works on has changed: the descriptors that can be reached, the table of open files and
its count, and the mapped handles. -/
structure SameDescriptors (s t : State) : Prop where
  list : t.desc.reachable = s.desc.reachable
  opFtable : t.desc.opFtable = s.desc.opFtable
  count : t.desc.count = s.desc.count
  opCounter : t.desc.opCounter = s.desc.opCounter
  sbCached : t.sbCached = s.sbCached
  inodeReg : t.inodeReg = s.inodeReg

/-- Nothing to lose: no descriptor, no table of open files, and both pointers into `vsfs_cached` set. -/
def NothingToLose (s : State) : Prop :=
  s.desc.opCounter = false ∧ s.desc.reachable = .ok [] ∧ s.sbCached ≠ none ∧ s.inodeReg ≠ none

theorem sameDescriptors_of_unwound (h : Unwound s t) : SameDescriptors s t ↔ NothingToLose s := by
  have hr : t.desc.reachable = .ok [] := by unfold Desc.reachable; rw [h.fdTable]
  have hh := attach_handles_iff s
  rw [← h.sbCached, ← h.inodeReg] at hh
  constructor
  · intro hs
    exact ⟨by rw [← hs.opCounter, h.opCounter], by rw [← hs.list, hr], hh.mp ⟨hs.sbCached, hs.inodeReg⟩⟩
  · rintro ⟨ho, hl, hm⟩
    obtain ⟨hc, hi⟩ := hh.mpr hm
    exact ⟨by rw [hr, hl], h.opFtable, h.count, by rw [h.opCounter, ho], hc, hi⟩

end Spdk

/-! ## The shared-memory variant -/

namespace Shm

variable {now : Nat} {pathname : CStr} {flags ret : Int} {s t : State}

/-- What a failing `vsfs_open` leaves when it has added its node: a dangling list and no open-file table. -/
structure Unwound (s t : State) : Prop where
  fdTable : t.desc.fdTable = .freed
  opCounter : t.desc.opCounter = false

/-- All that `vsfs_open` can do. -/
theorem vsfsOpen_cases (h : vsfsOpen now pathname flags s = .ok (ret, t)) :
    (filenameLen ≤ pathname.strlen ∧ ret = -1 ∧ t = s) ∨
    pathname.strlen < filenameLen ∧ ∃ fd a d, { s.desc with opCounter := true }.addFdTable = .ok (fd, a, d) ∧
      ((ret = -1 ∧ Unwound s t) ∨
      ∃ target, lookup s.inodes s.data pathname (s.inodes 0).entry 0 = .ok (some target) ∧
        s.desc.count < opLimit ∧ ret = fd ∧
        t = { s with
          inodes := touchPath now flags target s.inodes, sb := true, sbCached := true
          desc := d.takeSlot a target (d.opFtable d.count).filePtr flags }) := by
  unfold vsfsOpen at h
  split at h
  case isTrue hlen => cases h; exact Or.inl ⟨hlen, rfl, rfl⟩
  case isFalse hlen =>
  obtain ⟨⟨fd, a, d⟩, hadd, h⟩ := ExceptLib.bind_eq_ok.mp h
  obtain ⟨hcount, hop, _⟩ := addFdTable_optab hadd
  refine Or.inr ⟨by omega, fd, a, d, hadd, ?_⟩
  have hunwind : ∀ {u u' : State} {r : Int}, (u.unwind d >>= fun s => Except.ok (-1, s)) = .ok (r, u') →
      r = -1 ∧ Unwound s u' := by
    intro u u' r hu
    obtain ⟨w, hw, hu⟩ := ExceptLib.bind_eq_ok.mp hu
    obtain ⟨d', hfree, hw⟩ := ExceptLib.bind_eq_ok.mp hw
    obtain ⟨cs, _, rfl⟩ := freeFdTable_eq_ok.mp hfree
    cases hw
    cases hu
    exact ⟨rfl, ⟨rfl, rfl⟩⟩
  obtain ⟨found, hlook, h⟩ := ExceptLib.bind_eq_ok.mp h
  cases found with
  | none => exact Or.inl (hunwind h)
  | some target =>
    simp only at h
    split at h
    case isTrue hfull => exact Or.inl (hunwind h)
    case isFalse hfull =>
      cases h
      simp only at hcount
      exact Or.inr ⟨target, hlook, by omega, rfl, rfl⟩

/-- **When `vsfs_open` of a file that is there returns.** -/
theorem vsfsOpen_returns_iff {i : Nat} (hlen : pathname.strlen < filenameLen)
    (hl : lookup s.inodes s.data pathname (s.inodes 0).entry 0 = .ok (some i)) (hc : s.desc.count < opLimit) :
    (∃ r, vsfsOpen now pathname flags s = .ok r) ↔ s.desc.TailLive := by
  constructor
  · rintro ⟨⟨ret, t⟩, h⟩
    obtain ⟨hlong, -⟩ | ⟨-, fd, a, d, hadd, -⟩ := vsfsOpen_cases h
    · omega
    · have hlive : Desc.TailLive { s.desc with opCounter := true } := addFdTable_ok_iff.mp ⟨_, hadd⟩
      exact hlive
  · intro ht
    obtain ⟨⟨fd, a, d⟩, hadd⟩ := addFdTable_ok_iff.mpr (show Desc.TailLive { s.desc with opCounter := true } from ht)
    have hcount : d.count = s.desc.count := (addFdTable_optab hadd).1
    unfold vsfsOpen
    rw [if_neg (by omega)]
    simp only [hadd, ExceptLib.ok_bind, hl]
    rw [if_neg (by omega)]
    exact ⟨_, rfl⟩

/-- Nothing that `vsfs_open` works on has changed; a list header that was live still is. -/
structure SameDescriptors (s t : State) : Prop where
  list : t.desc.reachable = s.desc.reachable
  header : t.desc.fdTable = .freed → s.desc.fdTable = .freed
  opFtable : t.desc.opFtable = s.desc.opFtable
  count : t.desc.count = s.desc.count
  opCounter : t.desc.opCounter = s.desc.opCounter
  sb : t.sb = s.sb
  sbCached : t.sbCached = s.sbCached

theorem SameDescriptors.refl (s : State) : SameDescriptors s s := ⟨rfl, id, rfl, rfl, rfl, rfl, rfl⟩

end Shm

/-! ## Atomicity -/

theorem SameDescriptors.initBasePtr (s : State) : SameDescriptors s s.initBasePtr := ⟨rfl, rfl, rfl, rfl, rfl, rfl⟩

/-- **When a failed `vsfs_open` is atomic**: in the SPDK variant exactly when the name is rejected for its length or
there was nothing to lose, in the shared-memory variant exactly when the name is rejected for its length. -/
theorem vsfsOpen_atomic_iff (now : Nat) (pathname : CStr) (flags : Int) :
    (∀ s t : State,
      vsfsOpen now pathname flags s = .ok (-1, t) →
        (SameDescriptors s t ↔ filenameLen ≤ pathname.strlen ∨ NothingToLose s)) ∧
    (∀ s t : Shm.State,
      Shm.vsfsOpen now pathname flags s = .ok (-1, t) →
        (Shm.SameDescriptors s t ↔ filenameLen ≤ pathname.strlen)) := by
  constructor
  · intro s t h
    obtain ⟨hlen, _, rfl⟩ | ⟨hlen, fd, a, d, hadd, ⟨_, hu⟩ | ⟨_, _, _, _, _, hfd, _⟩⟩ := vsfsOpen_cases h
    · exact ⟨fun _ => Or.inl hlen, fun _ => .initBasePtr _⟩
    · rw [sameDescriptors_of_unwound hu]
      exact ⟨Or.inr, fun hn => hn.resolve_left (by omega)⟩
    · have := addFdTable_pos hadd
      omega
  · intro s t h
    obtain ⟨hlen, _, rfl⟩ | ⟨hlen, fd, a, d, hadd, ⟨_, hu⟩ | ⟨_, _, _, hfd, _⟩⟩ := Shm.vsfsOpen_cases h
    · exact ⟨fun _ => hlen, fun _ => .refl _⟩
    · have hlive := (addFdTable_cases hadd).2.1
      exact ⟨fun hs => absurd (hs.header hu.fdTable) hlive, fun hn => absurd hn (by omega)⟩
    · have := addFdTable_pos hadd
      omega

/-- A name that is not in the directory of a blank volume. -/
def missingName : CStr := ⟨[120], by decide⟩

/-- The theorem at a failed first `vsfs_open` on a blank volume. -/
theorem vsfsOpen_atomic_iff_missing :
    (∃ t, vsfsOpen 0 missingName oRdwr (blankVolume 4096) = .ok (-1, t) ∧
      (SameDescriptors (blankVolume 4096) t ↔
        filenameLen ≤ missingName.strlen ∨ NothingToLose (blankVolume 4096))) ∧
    ∃ s t, Shm.vsfsOpen 0 missingName oRdwr s = .ok (-1, t) ∧
      (Shm.SameDescriptors s t ↔ filenameLen ≤ missingName.strlen) := by
  constructor
  · obtain ⟨t, ht⟩ := ExceptLib.exists_of_map_fst
      (show (vsfsOpen 0 missingName oRdwr (blankVolume 4096)).map Prod.fst = .ok (-1) by decide +kernel)
    exact ⟨t, ht, (vsfsOpen_atomic_iff _ _ _).1 _ _ ht⟩
  · obtain ⟨t, ht⟩ := ExceptLib.exists_of_map_fst (show (Shm.vsfsOpen 0 missingName oRdwr
      ⟨(blankVolume 4096).vol.inode, fun _ => rootDirBlock, Desc.initial, false, false⟩).map Prod.fst = .ok (-1) by
        decide +kernel)
    exact ⟨_, t, ht, (vsfsOpen_atomic_iff _ _ _).2 _ _ ht⟩

/-- With one descriptor open, opening a name that is not there loses it. -/
theorem failed_open_loses_descriptors : ∃ s t c, Reached s ∧ s.desc.reachable = .ok [c] ∧
    vsfsOpen 0 missingName oRdwr s = .ok (-1, t) ∧ ¬SameDescriptors s t := by
  have hrun : (do
      let (_, s) ← runCalls [.open dotName oRdwr] (0, blankVolume 4096)
      let cs ← s.desc.reachable
      let (ret, t) ← vsfsOpen 0 missingName oRdwr s
      let cs' ← t.desc.reachable
      .ok (decide (cs.length = 1 ∧ ret = -1 ∧ cs'.length = 0)) : M Bool) = .ok true := by decide +kernel
  obtain ⟨⟨r, s⟩, hs, hrun⟩ := ExceptLib.bind_eq_ok.mp hrun
  obtain ⟨cs, hcs, hrun⟩ := ExceptLib.bind_eq_ok.mp hrun
  obtain ⟨⟨ret, t⟩, ht, hrun⟩ := ExceptLib.bind_eq_ok.mp hrun
  obtain ⟨cs', hcs', hrun⟩ := ExceptLib.bind_eq_ok.mp hrun
  obtain ⟨hone, rfl, hnone⟩ := of_decide_eq_true (Except.ok.inj hrun)
  obtain ⟨c, rfl⟩ := List.length_eq_one_iff.mp hone
  refine ⟨s, t, c, (reachedBy_blankVolume (by decide) (by decide)).runCalls hs, hcs, ht, fun hsame => ?_⟩
  have hlist := hsame.list
  rw [hcs, hcs', Except.ok.injEq] at hlist
  rw [hlist] at hnone
  exact absurd hnone (by simp)

end Vsfs
