import Vsfs.Volume.Listed
import Vsfs.Volume.ShmRun

/-!
# What `vsfs_lseek` computes

A seek that does not grow the file is a function of the size that the call compares with, of the position that
`SEEK_END` counts from, and of the offset: `seekResult`. Both are `file_ptr->size` in the SPDK variant; in the
shared-memory variant they are the decoded and the stored size of the inode.

- `vsfsLseek_open`, `Shm.vsfsLseek_open`: all that a call on an open descriptor can do, and when it does it;
- `neededBlocks_eq`: the blocks that an offset needs.
-/

set_option autoImplicit false

namespace Vsfs

open Function ByteSeq ExceptLib

/-! ## Positions -/

/-- What a seek that does not grow the file returns, and the offset that it leaves. -/
def seekResult (whence : Int) (offset size base pos : Nat) : Nat × Nat :=
  if whence = seekSet then if 0x100000000 < offset then (seekError, pos) else (offset, offset)
  else if whence = seekEnd then
    if size < (base + offset) % 2 ^ 64 then (seekError, base)
    else ((base + offset) % 2 ^ 64, (base + offset) % 2 ^ 64)
  else if whence = seekCur then
    if size < (pos + offset) % 2 ^ 64 then (seekError, pos)
    else ((pos + offset) % 2 ^ 64, (pos + offset) % 2 ^ 64)
  else (seekError, pos)

/-- The number of blocks that hold `n` bytes is the quotient, rounded up. -/
theorem neededBlocks_eq {n : Nat} (h : n ≤ 2 ^ 32) : neededBlocks n = (n + 4095) / 4096 := by
  unfold neededBlocks blockSize
  split <;> omega

/-- What a file of `n` bytes has, with a size of 32 bits. -/
theorem fileSize_of {x : Inode} {n : Nat} (hn : n ≤ 2 ^ 32) (h0 : 0 < n) (hs : x.size = n % 2 ^ 32)
    (hb : n = 2 ^ 32 → x.blocks = 1048576) : x.fileSize = n := by
  unfold Inode.fileSize
  by_cases hfull : n = 2 ^ 32
  · rw [if_pos ⟨by omega, hb hfull⟩]
    omega
  · rw [if_neg (by omega)]
    omega

theorem setOffset_self (d : Desc) (p : Nat) : d.setOffset p (d.opFtable p).offset = d := by
  unfold Desc.setOffset
  rw [show ({ d.opFtable p with offset := (d.opFtable p).offset } : OpEntry) = d.opFtable p from rfl, update_eq_self]

@[simp] theorem setOffset_offset (d : Desc) (p o : Nat) : ((d.setOffset p o).opFtable p).offset = o := by
  simp [Desc.setOffset]

/-! ## The SPDK variant -/

section Spdk

variable {s t : State} {e : FdTable} {p a r : Nat} {f : File} {fildes whence : Int} {offset : UInt64}

/-- One of the two handles is set, and slot `p` has the live file object `f` at `a`. -/
structure Seekable (s : State) (p a : Nat) (f : File) : Prop where
  handle : s.inodeReg ≠ none ∨ s.sbCached ≠ none
  filePtr : (s.desc.opFtable p).filePtr = some a
  file : s.desc.files a = some f

theorem Seekable.unique {b : Nat} {g : File} (h : Seekable s p a f) (h' : Seekable s p b g) : a = b ∧ f = g := by
  have ha := h.filePtr
  rw [h'.filePtr, Option.some.injEq] at ha
  subst ha
  have hf := h.file
  rw [h'.file, Option.some.injEq] at hf
  exact ⟨rfl, hf.symm⟩

/-- The process with `inode_reg` set. -/
def State.withReg (s : State) : State := { s with inodeReg := s.inodeReg.or s.sbCached }

@[simp] theorem withReg_vol (s : State) : s.withReg.vol = s.vol := rfl

@[simp] theorem withReg_desc (s : State) : s.withReg.desc = s.desc := rfl

/-- The process with `inode_reg` set and the offset of slot `p` moved. -/
def State.moved (s : State) (p o : Nat) : State := { s.withReg with desc := s.desc.setOffset p o }

theorem moved_self (s : State) (p : Nat) : s.moved p (s.desc.opFtable p).offset = s.withReg := by
  unfold State.moved
  rw [setOffset_self]
  rfl

theorem setInodeReg_iff : s.setInodeReg = .ok t ↔ (s.inodeReg ≠ none ∨ s.sbCached ≠ none) ∧ t = s.withReg := by
  obtain ⟨vol, desc, _ | c, _ | m, maps, base⟩ := s <;>
    simp [State.setInodeReg, State.useSbCached, State.withReg, ok_bind, eq_comm]

/-- The part of `SEEK_SET` that grows the file, as the code does it. -/
theorem seekGrown_iff (hg : SeekGrows f offset whence) :
    (∃ s', (do
        s.useSbCached
        let (_, v) ← allocBlock s.vol.cached.sbi.ofsDregion (s.desc.opFtable p).inodeNr
          (sub32 (neededBlocks offset.toNat) f.blocks) s.vol
        let info ← vsfsGetInodeInfo v (s.desc.opFtable p).inodeNr
        .ok { s with vol := v, desc := s.desc.modFile a { info with
          blocks := (info.blocks + neededBlocks offset.toNat) % 2 ^ 32, size := offset.toNat } } : M State) = .ok s' ∧
        t = { s' with desc := s'.desc.setOffset p offset.toNat }) ↔ ∃ info v, SeekGrown p offset s t a f info v := by
  obtain ⟨-, hlim, hlt⟩ := hg
  constructor
  · rintro ⟨s', hs', rfl⟩
    obtain ⟨u, hu, hs'⟩ := bind_eq_ok.mp hs'
    obtain ⟨⟨m, v⟩, hal, hs'⟩ := bind_eq_ok.mp hs'
    obtain ⟨info, hinfo, hs'⟩ := bind_eq_ok.mp hs'
    cases hs'
    refine ⟨info, v, hlim, hlt, fun hno => ?_, ⟨m, hal⟩, hinfo, rfl⟩
    unfold State.useSbCached at hu
    rw [hno] at hu
    cases hu
  · rintro ⟨info, v, hg⟩
    obtain ⟨c, hc⟩ := Option.ne_none_iff_exists'.mp hg.sbCached
    obtain ⟨m, hm⟩ := hg.alloc
    refine ⟨{ s with vol := v, desc := s.desc.modFile a { info with
      blocks := (info.blocks + neededBlocks offset.toNat) % 2 ^ 32, size := offset.toNat } }, ?_, hg.result⟩
    rw [show s.useSbCached = .ok () by simp [State.useSbCached, hc], ok_bind, hm, ok_bind]
    dsimp only
    rw [hg.copy]
    rfl

/-- **`vsfs_lseek` on an open descriptor**: it grows the file to the offset, or leaves the file alone and sets the
offset. -/
theorem vsfsLseek_open (ho : s.OpenOn fildes e p) (hoc : s.desc.opCounter = true) :
    vsfsLseek fildes offset whence s = .ok (r, t) ↔ ∃ a f, Seekable s p a f ∧
      ((¬SeekGrows f offset whence ∧
          r = (seekResult whence offset.toNat f.size f.size (s.desc.opFtable p).offset).1 ∧
          t = s.moved p (seekResult whence offset.toNat f.size f.size (s.desc.opFtable p).offset).2) ∨
        (SeekGrows f offset whence ∧ r = offset.toNat ∧ ∃ info v, SeekGrown p offset s.withReg t a f info v)) := by
  obtain ⟨b, hfind, hp⟩ := ho
  have hfind' : s.withReg.desc.findTarget fildes = .ok (some (b, e)) := hfind
  -- a process that can be used, and one that cannot
  by_cases hs : ∃ a f, Seekable s p a f
  · obtain ⟨a, f, hs⟩ := hs
    have hreg : s.setInodeReg = .ok s.withReg := setInodeReg_iff.mpr ⟨hs.handle, rfl⟩
    have hof : s.withReg.desc.fileOf p = .ok (a, f) := fileOf_eq_ok.mpr ⟨hs.filePtr, hs.file⟩
    have hex : ∀ P : Nat → File → Prop, (∃ a f, Seekable s p a f ∧ P a f) ↔ P a f := fun P =>
      ⟨fun ⟨a', f', h', hP⟩ => by obtain ⟨rfl, rfl⟩ := hs.unique h'; exact hP, fun hP => ⟨a, f, hs, hP⟩⟩
    unfold vsfsLseek
    rw [if_neg (by simp [hoc]), hreg, ok_bind]
    dsimp only
    rw [hfind', ok_bind]
    dsimp only
    rw [slot_eq_ok.mpr hp, ok_bind, hof, ok_bind, hex]
    dsimp only
    unfold seekResult
    by_cases hset : whence = seekSet
    · rw [if_pos hset]
      simp only [if_pos hset]
      by_cases hlim : 0x100000000 < offset.toNat
      · rw [if_pos hlim]
        simp only [if_pos hlim, moved_self, Except.ok.injEq, Prod.mk.injEq]
        have hno : ¬SeekGrows f offset whence := fun h => absurd h.2.1 (by omega)
        simp [hno, eq_comm]
      · rw [if_neg hlim]
        simp only [if_neg hlim]
        by_cases hlt : f.size < offset.toNat
        · rw [if_pos hlt]
          have hg : SeekGrows f offset whence := ⟨hset, Nat.not_lt.mp hlim, hlt⟩
          rw [bind_eq_ok]
          constructor
          · rintro ⟨s', hs', hr⟩
            cases hr
            exact Or.inr ⟨hg, rfl, (seekGrown_iff hg).mp ⟨s', hs', rfl⟩⟩
          · rintro (⟨hno, -⟩ | ⟨-, rfl, hgrown⟩)
            · exact absurd hg hno
            · obtain ⟨s', hs', rfl⟩ := (seekGrown_iff hg).mpr hgrown
              exact ⟨s', hs', rfl⟩
        · rw [if_neg hlt, ok_bind]
          have hno : ¬SeekGrows f offset whence := fun h => absurd h.2.2 hlt
          simp only [hno, not_false_eq_true, true_and, false_and, or_false, Except.ok.injEq, Prod.mk.injEq]
          exact and_congr eq_comm eq_comm
    · have hno : ¬SeekGrows f offset whence := fun h => absurd h.1 hset
      simp only [if_neg hset, hno, not_false_eq_true, true_and, false_and, or_false]
      by_cases hend : whence = seekEnd
      · simp only [if_pos hend]
        by_cases hgt : f.size < (f.size + offset.toNat) % 2 ^ 64
        · simp only [if_pos hgt, Except.ok.injEq, Prod.mk.injEq]
          exact and_congr eq_comm eq_comm
        · simp only [if_neg hgt, Except.ok.injEq, Prod.mk.injEq]
          exact and_congr eq_comm eq_comm
      simp only [if_neg hend]
      by_cases hcur : whence = seekCur
      · simp only [if_pos hcur]
        by_cases hgt : f.size < ((s.desc.opFtable p).offset + offset.toNat) % 2 ^ 64
        · have hgt' : f.size < ((s.withReg.desc.opFtable p).offset + offset.toNat) % 2 ^ 64 := hgt
          simp only [if_pos hgt, if_pos hgt', moved_self, Except.ok.injEq, Prod.mk.injEq]
          exact and_congr eq_comm eq_comm
        · have hgt' : ¬f.size < ((s.withReg.desc.opFtable p).offset + offset.toNat) % 2 ^ 64 := hgt
          simp only [if_neg hgt, if_neg hgt', Except.ok.injEq, Prod.mk.injEq]
          exact and_congr eq_comm eq_comm
      · simp only [if_neg hcur, moved_self, Except.ok.injEq, Prod.mk.injEq]
        exact and_congr eq_comm eq_comm
  · constructor
    · intro h
      obtain ⟨s', hs'⟩ : ∃ s', s.setInodeReg = .ok s' := by
        unfold vsfsLseek at h
        rw [if_neg (by simp [hoc])] at h
        obtain ⟨s', hs', -⟩ := bind_eq_ok.mp h
        exact ⟨s', hs'⟩
      obtain ⟨hh, rfl⟩ := setInodeReg_iff.mp hs'
      unfold vsfsLseek at h
      rw [if_neg (by simp [hoc]), hs', ok_bind] at h
      dsimp only at h
      rw [hfind', ok_bind] at h
      dsimp only at h
      rw [slot_eq_ok.mpr hp, ok_bind] at h
      obtain ⟨⟨a, f⟩, hof, -⟩ := bind_eq_ok.mp h
      obtain ⟨hfp, hf⟩ := fileOf_eq_ok.mp hof
      exact absurd ⟨a, f, hh, hfp, hf⟩ hs
    · rintro ⟨a, f, h, -⟩
      exact absurd ⟨a, f, h⟩ hs

end Spdk

/-! ## The shared-memory variant -/

namespace Shm

variable {s t : Process} {e : FdTable} {p r : Nat} {fildes whence : Int} {offset : UInt64}

/-- A seek in the file of inode `x` grows it. -/
def SeekGrows (x : Inode) (offset : UInt64) (whence : Int) : Prop :=
  whence = seekSet ∧ offset.toNat ≤ 0x100000000 ∧ x.fileSize < offset.toNat

/-- A seek that grows the file at slot `p` to `offset`, with `u` in the segments after the allocation. -/
structure SeekGrown (p : Nat) (offset : UInt64) (s t : Process) (u : Segments) : Prop where
  mapped : ¬(s.sbCached = false ∧ CallsAllocator (s.inodes (s.desc.opFtable p).inodeNr).blocks
    (sub32 (neededBlocks offset.toNat) (s.inodes (s.desc.opFtable p).inodeNr).blocks))
  alloc : ∃ m, allocBlock (s.desc.opFtable p).inodeNr
    (sub32 (neededBlocks offset.toNat) (s.inodes (s.desc.opFtable p).inodeNr).blocks) s.seg = .ok (m, u)
  result : t = { s.withSeg (u.modInode (s.desc.opFtable p).inodeNr fun x => { x with size := offset.toNat % 2 ^ 32 }) with
    desc := s.desc.setOffset p offset.toNat }

/-- The process with the offset of slot `p` moved. -/
def Process.moved (s : Process) (p o : Nat) : Process := { s with desc := s.desc.setOffset p o }

theorem moved_self (s : Process) (p : Nat) : s.moved p (s.desc.opFtable p).offset = s := by
  unfold Process.moved
  rw [setOffset_self]

/-- **`vsfs_lseek` on an open descriptor.** -/
theorem vsfsLseek_open (ho : s.OpenOn fildes e p) (hoc : s.desc.opCounter = true) (hsb : s.sb = true) :
    vsfsLseek fildes offset whence s = .ok (r, t) ↔ (s.desc.opFtable p).inodeNr < nrInodes ∧
      ((¬SeekGrows (s.inodes (s.desc.opFtable p).inodeNr) offset whence ∧
          r = (seekResult whence offset.toNat (s.inodes (s.desc.opFtable p).inodeNr).fileSize
            (s.inodes (s.desc.opFtable p).inodeNr).size (s.desc.opFtable p).offset).1 ∧
          t = s.moved p (seekResult whence offset.toNat (s.inodes (s.desc.opFtable p).inodeNr).fileSize
            (s.inodes (s.desc.opFtable p).inodeNr).size (s.desc.opFtable p).offset).2) ∨
        (SeekGrows (s.inodes (s.desc.opFtable p).inodeNr) offset whence ∧ r = offset.toNat ∧
          ∃ u, SeekGrown p offset s t u)) := by
  obtain ⟨b, hfind, hp⟩ := ho
  unfold vsfsLseek
  rw [if_neg (by simp [hoc]), if_neg (by simp [hsb]), hfind, ok_bind]
  dsimp only
  rw [slot_eq_ok.mpr hp, ok_bind]
  by_cases hi : (s.desc.opFtable p).inodeNr < nrInodes
  swap
  · rw [if_pos (Nat.not_lt.mp hi)]
    simp [hi]
  rw [if_neg (Nat.not_le.mpr hi)]
  simp only [hi, true_and]
  unfold seekResult
  by_cases hset : whence = seekSet
  · simp only [if_pos hset]
    by_cases hlim : 0x100000000 < offset.toNat
    · have hno : ¬SeekGrows (s.inodes (s.desc.opFtable p).inodeNr) offset whence := fun h => absurd h.2.1 (by omega)
      simp [hlim, hno, moved_self, eq_comm]
    simp only [if_neg hlim]
    by_cases hlt : (s.inodes (s.desc.opFtable p).inodeNr).fileSize < offset.toNat
    · have hg : SeekGrows (s.inodes (s.desc.opFtable p).inodeNr) offset whence := ⟨hset, Nat.not_lt.mp hlim, hlt⟩
      rw [if_pos hlt, bind_eq_ok]
      constructor
      · rintro ⟨s', hs', hr⟩
        cases hr
        split at hs'
        case isTrue => cases hs'
        case isFalse hm =>
        obtain ⟨⟨m, u⟩, hu, hs'⟩ := bind_eq_ok.mp hs'
        cases hs'
        exact Or.inr ⟨hg, rfl, u, hm, ⟨m, hu⟩, rfl⟩
      · rintro (⟨hno, -⟩ | ⟨-, rfl, u, hm, ⟨m, hu⟩, rfl⟩)
        · exact absurd hg hno
        · refine ⟨_, ?_, rfl⟩
          rw [if_neg hm, hu]
          rfl
    · have hno : ¬SeekGrows (s.inodes (s.desc.opFtable p).inodeNr) offset whence := fun h => absurd h.2.2 hlt
      rw [if_neg hlt, ok_bind]
      simp only [hno, not_false_eq_true, true_and, false_and, or_false, Except.ok.injEq, Prod.mk.injEq]
      exact and_congr eq_comm eq_comm
  have hno : ¬SeekGrows (s.inodes (s.desc.opFtable p).inodeNr) offset whence := fun h => absurd h.1 hset
  simp only [if_neg hset, hno, not_false_eq_true, true_and, false_and, or_false]
  by_cases hend : whence = seekEnd
  · simp only [if_pos hend]
    split
    · simp only [Except.ok.injEq, Prod.mk.injEq]
      exact and_congr eq_comm eq_comm
    · simp only [Except.ok.injEq, Prod.mk.injEq]
      exact and_congr eq_comm eq_comm
  simp only [if_neg hend]
  by_cases hcur : whence = seekCur
  · simp only [if_pos hcur]
    split
    · simp only [moved_self, Except.ok.injEq, Prod.mk.injEq]
      exact and_congr eq_comm eq_comm
    · simp only [Except.ok.injEq, Prod.mk.injEq]
      exact and_congr eq_comm eq_comm
  · simp only [if_neg hcur, moved_self, Except.ok.injEq, Prod.mk.injEq]
    exact and_congr eq_comm eq_comm

/-- A call that does not leave the process alone has found its descriptor open. -/
theorem vsfsLseek_found (h : vsfsLseek fildes offset whence s = .ok (r, t)) :
    t = s ∨ ∃ e p, s.OpenOn fildes e p ∧ s.desc.opCounter = true ∧ s.sb = true := by
  unfold vsfsLseek at h
  split at h
  case isTrue => cases h; exact Or.inl rfl
  case isFalse hoc =>
  split at h
  case isTrue => cases h
  case isFalse hsb =>
  obtain ⟨found, hfind, h⟩ := bind_eq_ok.mp h
  cases found with
  | none => cases h; exact Or.inl rfl
  | some x =>
    obtain ⟨b, e⟩ := x
    obtain ⟨p, hp, h⟩ := bind_eq_ok.mp h
    exact Or.inr ⟨e, p, ⟨b, hfind, slot_eq_ok.mp hp⟩, by simpa using hoc, by simpa using hsb⟩

end Shm

end Vsfs
