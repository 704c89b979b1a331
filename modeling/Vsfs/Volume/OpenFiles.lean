import Vsfs.Descriptors.Nodes
import Vsfs.Volume.Content
import Vsfs.Volume.Remount
import Vsfs.Volume.Seek
import Vsfs.Volume.ShmTotal

/-!
# Sizes in every state

What holds of the sizes and of the handles in every state that any calls lead to, whether they find what they need or
not.

- `ReachedBy.small`: file objects and inodes have the size of a file, and slots name inodes of the table;
- `Shm.CreatCounted`, `Shm.Written`: what `vsfs_creat` and `vsfs_write` of the shared-memory variant make of the sizes;
- `Shm.ReachedBy.small`, `Shm.ReachedBy.mapped`: the same bounds there, and `sb` is mapped as long as there is a list.
-/

set_option autoImplicit false

namespace Vsfs

open Function ByteSeq ExceptLib

theorem fileSize_le {x : Inode} (h : x.size < 2 ^ 32) : x.fileSize ≤ 2 ^ 32 := by
  unfold Inode.fileSize
  split <;> omega

/-! ## The SPDK variant -/

section Spdk

variable {s t : State} {d : Desc} {a p o : Nat} {f : File} {now : Nat} {fildes ret : Int}

/-- File objects have the size of a file and a number of blocks of 32 bits, and slots name inodes of the table. -/
structure Desc.Small (d : Desc) : Prop where
  size : ∀ a f, d.files a = some f → f.size ≤ 2 ^ 32
  blocks : ∀ a f, d.files a = some f → f.blocks < 2 ^ 32
  inode : ∀ p, (d.opFtable p).inodeNr < nrInodes

theorem setOffset_inodeNr (d : Desc) (p o q : Nat) : ((d.setOffset p o).opFtable q).inodeNr = (d.opFtable q).inodeNr := by
  simp only [Desc.setOffset, update_apply]
  split
  case isTrue h => rw [h]
  case isFalse => rfl

theorem setOffset_filePtr (d : Desc) (p o q : Nat) : ((d.setOffset p o).opFtable q).filePtr = (d.opFtable q).filePtr := by
  simp only [Desc.setOffset, update_apply]
  split
  case isTrue h => rw [h]
  case isFalse => rfl

theorem Desc.Small.setOffset (h : d.Small) (p o : Nat) : (d.setOffset p o).Small :=
  ⟨h.size, h.blocks, fun q => by rw [setOffset_inodeNr]; exact h.inode q⟩

theorem Desc.Small.modFile (h : d.Small) (hf : f.size ≤ 2 ^ 32) (hb : f.blocks < 2 ^ 32) :
    ((d.modFile a f).setOffset p o).Small := by
  refine Desc.Small.setOffset (d := d.modFile a f) ⟨fun b g hg => ?_, fun b g hg => ?_, h.inode⟩ p o
  all_goals
    simp only [Desc.modFile, update_apply] at hg
    split at hg
  · cases hg
    exact hf
  · exact h.size b g hg
  · cases hg
    exact hb
  · exact h.blocks b g hg

/-- A file object that has just been filled. -/
theorem info_small {v : Volume} {i : Nat} (hz : ∀ i, (v.inode i).size < 2 ^ 32) (h : vsfsGetInodeInfo v i = .ok f) :
    f.size ≤ 2 ^ 32 ∧ f.blocks < 2 ^ 32 := by
  have hinfo := vsfsGetInodeInfo_spec h
  rw [hinfo.size, hinfo.blocks]
  exact ⟨fileSize_le (hz i), lt_of_le_of_lt hinfo.limit (by decide)⟩

theorem Desc.Small.open {pathname : CStr} {flags : Int} (h : s.desc.Small) (hz : ∀ i, (s.vol.inode i).size < 2 ^ 32)
    (ho : vsfsOpen now pathname flags s = .ok (ret, t)) : t.desc.Small := by
  obtain ⟨_, _, rfl⟩ | ⟨_, fd, b, d, hadd, ⟨_, hu⟩ | ⟨target, info, _, hi, _, _, rfl⟩⟩ := vsfsOpen_cases ho
  · exact h
  · refine ⟨fun a f hf => ?_, fun a f hf => ?_, by rw [hu.opFtable]; exact h.inode⟩
    all_goals rcases hu.files a f hf with hf | ⟨i, hi⟩
    · exact h.size a f hf
    · exact (info_small hz hi).1
    · exact h.blocks a f hf
    · exact (info_small hz hi).2
  · obtain ⟨hcount, hop, _⟩ := addFdTable_optab hadd
    have hfiles := addFdTable_files hadd
    dsimp only at hcount hop hfiles
    refine ⟨fun a f hf => ?_, fun a f hf => ?_, fun p => ?_⟩
    · simp only [Desc.takeSlot, update_apply] at hf
      split at hf
      · cases hf
        exact (info_small hz hi).1
      · exact h.size a f (hfiles ▸ hf)
    · simp only [Desc.takeSlot, update_apply] at hf
      split at hf
      · cases hf
        exact (info_small hz hi).2
      · exact h.blocks a f (hfiles ▸ hf)
    · simp only [Desc.takeSlot, update_apply]
      split
      case isTrue => exact (vsfsGetInodeInfo_spec hi).lt
      case isFalse =>
        rw [hop]
        exact h.inode p

theorem Desc.Small.close (h : s.desc.Small) (hc : vsfsClose fildes s = .ok (ret, t)) : t.desc.Small := by
  refine ⟨fun a f hf => h.size a f (close_files hc a f hf), fun a f hf => h.blocks a f (close_files hc a f hf),
    fun q => ?_⟩
  rcases (vsfsClose_nodes hc).slots with hs | ⟨_, _, p, _, _, _, _, hmoved, hs⟩
  · rw [(hs q).inodeNr]
    exact h.inode q
  · by_cases hq : q = p
    · rw [hq, hmoved.inodeNr]
      exact h.inode _
    · rw [(hs q hq).inodeNr]
      exact h.inode q

/-- **Every call** keeps the bounds. -/
theorem Desc.Small.step {c : Call} (h : s.desc.Small) (hz : ∀ i, (s.vol.inode i).size < 2 ^ 32) (hs : Step c s t) :
    t.desc.Small := by
  obtain ⟨now, ret, _, hr⟩ := hs
  cases c with
  | creat name blockNum => exact (vsfsCreat_desc hr).symm ▸ h
  | «open» pathname flags => exact h.open hz hr
  | stat pathname =>
    obtain ⟨⟨r, fre, u⟩, hst, hr⟩ := bind_eq_ok.mp hr
    cases hr
    exact (vsfsStat_desc hst).symm ▸ h
  | close fildes => exact h.close hr
  | write fildes buf nbyte =>
    obtain ⟨_, _, p, _, _, ⟨_, rfl⟩ | ⟨_, _, a, f, v₁, v₂, hw⟩⟩ := vsfsWrite_cases hr
    · exact h
    rw [hw.result]
    have hf : f.size ≤ 2 ^ 32 ∧ f.blocks < 2 ^ 32 := by
      rcases hw.alloc with ⟨_, ⟨m, hm⟩, _, hinfo⟩ | ⟨_, _, hf⟩
      · refine info_small (fun i => ?_) hinfo
        by_cases hi : i = (s.desc.opFtable p).inodeNr
        · rw [hi, (allocBlock_count hm).head.size]
          exact hz _
        · rw [(allocBlock_count hm).other i hi]
          exact hz i
      · exact ⟨h.size a f hf, h.blocks a f hf⟩
    exact h.modFile hf.1 hf.2
  | read fildes buf nbyte =>
    obtain ⟨⟨r, b, u⟩, hrd, hr⟩ := bind_eq_ok.mp hr
    cases hr
    obtain ⟨_, rfl, _⟩ | ⟨_, _, p, a, f, readed, _, _, _, hd⟩ := vsfsRead_cases hrd
    · exact h
    · rw [hd.result]
      exact h.modFile (h.size a f hd.file) (h.blocks a f hd.file)
  | lseek fildes offset whence =>
    obtain ⟨⟨r, u⟩, hl, hr⟩ := bind_eq_ok.mp hr
    cases hr
    obtain ⟨_, hres, _⟩ | ⟨b, e, p, a, f, s', hs', _, _, _, hfile, ⟨o, hres, _⟩ | ⟨_, _, info, v, hg⟩⟩ :=
      vsfsLseek_cases hl
    · rw [hres]
      exact h
    · rw [hres]
      exact h.setOffset p o
    · rw [hg.result, (setInodeReg_eq_ok hs').1]
      exact h.modFile hg.limit (Nat.mod_lt _ (by decide))

theorem Desc.Small.initial : Desc.initial.Small := by
  refine ⟨fun a f hf => ?_, fun a f hf => ?_, fun p => ?_⟩
  · cases hf
  · cases hf
  · show 0 < nrInodes
    decide

/-- **The sizes in every state.** -/
theorem ReachedBy.small {ok : Call → State → Prop} (h : ReachedBy ok s) :
    s.desc.Small ∧ ∀ i, (s.vol.inode i).Fits := by
  obtain ⟨n, hl, hu, disk, seg, hr⟩ := h
  obtain ⟨hfits, hsmall⟩ := hr.invariant (P := fun s => s.vol.cached.Fits (superblockInfo n) ∧ s.desc.Small)
    ⟨fresh_fits hl hu disk seg, Desc.Small.initial⟩
    fun c u v hP _ hs => ⟨hs.fits hP.1, hP.2.step (fun i => (hP.1.inode i).size) hs⟩
  exact ⟨hsmall, hfits.inode⟩

end Spdk

/-! ## The shared-memory variant -/

namespace Shm

variable {s t : Process} {u u' : Segments} {i j n now p : Nat} {fildes ret : Int} {buf : Bytes} {nbyte : UInt64}

/-! ### `vsfs_creat` -/

/-- The sizes and block counts that entering a file of `n` blocks as inode `i` leaves. -/
structure EntryCounted (n i : Nat) (u u' : Segments) : Prop where
  size : (u'.inodes i).size = n * 4096 % 2 ^ 32
  blocks : (u'.inodes i).blocks = n
  root : i ≠ 0 → (u'.inodes 0).size = succ32 (u.inodes 0).size ∧ (u'.inodes 0).blocks = (u.inodes 0).blocks
  other : ∀ j, j ≠ 0 → j ≠ i → (u'.inodes j).size = (u.inodes j).size ∧ (u'.inodes j).blocks = (u.inodes j).blocks

theorem addingEntry_counted {name : CStr} {d e : Nat} (h : addingEntry now name n i d e u = .ok u') :
    EntryCounted n i u u' := by
  unfold addingEntry at h
  split at h
  case isTrue => cases h
  case isFalse =>
  split at h
  case isTrue => cases h
  case isFalse =>
  obtain ⟨⟨m, w⟩, hal, h⟩ := bind_eq_ok.mp h
  cases h
  have hc := allocBlock_count hal
  refine ⟨by simp [Segments.modInode], by simp [Segments.modInode], fun hi => ?_, fun j hj hji => ?_⟩
  · have hb := hc.other 0 (Ne.symm hi)
    have hz := hc.size 0
    simp only [Segments.modInode, update_of_ne (Ne.symm hi), update_self] at hb hz ⊢
    exact ⟨hz, hb⟩
  · have hb := hc.other j hji
    have hz := hc.size j
    simp only [Segments.modInode, update_of_ne hji, update_of_ne hj] at hb hz ⊢
    exact ⟨hz, hb⟩

/-- The sizes and block counts that `vsfs_creat` leaves: those that were there, or a file of `n` blocks has been entered
as inode `i`. -/
structure CreatCounted (n i : Nat) (s t : Process) : Prop where
  size : (t.inodes i).size = n * 4096 % 2 ^ 32
  blocks : (t.inodes i).blocks = n
  root : i ≠ 0 → (t.inodes 0).size = succ32 (s.inodes 0).size
  other : ∀ j, j ≠ 0 → j ≠ i → (t.inodes j).size = (s.inodes j).size ∧ (t.inodes j).blocks = (s.inodes j).blocks

theorem getFreeDblock_inodes {b : Nat} (h : u.getFreeDblock = .ok (b, u')) : u'.inodes = u.inodes := by
  obtain ⟨⟨_, c⟩, _, h⟩ := bind_eq_ok.mp h
  cases h
  rfl

theorem vsfsCreat_counted {name : CStr} {blockNum : UInt32} (h : vsfsCreat now name blockNum s = .ok (ret, t)) :
    (∀ j, (t.inodes j).size = (s.inodes j).size ∧ (t.inodes j).blocks = (s.inodes j).blocks) ∨
    Enters name s ∧ ∃ i c, getFreeInode s.cached = .ok (i, c) ∧ CreatCounted blockNum.toNat i s t := by
  rcases vsfsCreat_cases h with rfl | ⟨hent, i, c, hgi, hdone⟩
  · exact Or.inl fun _ => ⟨rfl, rfl⟩
  cases hdone with
  | slot _ ha =>
    obtain ⟨hz, hb, hroot, hother⟩ := addingEntry_counted ha
    exact Or.inr ⟨hent, i, c, hgi, hz, hb, fun hi => (hroot hi).1, hother⟩
  | grow _ _ hg ha =>
    have hin := getFreeDblock_inodes hg
    obtain ⟨hz, hb, hroot, hother⟩ := addingEntry_counted ha
    refine Or.inr ⟨hent, i, c, hgi, hz, hb, fun hi => ?_, fun j hj hji => ?_⟩
    · have := (hroot hi).1
      simp only [Segments.modInode, update_self, hin] at this
      exact this
    · have := hother j hj hji
      simp only [Segments.modInode, update_of_ne hj, hin] at this
      exact this
  | full _ ht =>
    have hin : t.inodes = s.inodes := congrArg Segments.inodes ht
    exact Or.inl fun j => by rw [hin]; exact ⟨rfl, rfl⟩

/-- `vsfs_creat` does not look at the descriptors. -/
theorem vsfsCreat_desc {name : CStr} {blockNum : UInt32} (h : vsfsCreat now name blockNum s = .ok (ret, t)) :
    t.desc = s.desc ∧ t.sb = s.sb := by
  unfold vsfsCreat at h
  split at h
  case isTrue => cases h; exact ⟨rfl, rfl⟩
  case isFalse =>
  split at h
  case isTrue => cases h; exact ⟨rfl, rfl⟩
  case isFalse =>
  obtain ⟨⟨i, c⟩, _, h⟩ := bind_eq_ok.mp h
  dsimp only at h
  split at h
  case isTrue =>
    obtain ⟨u, _, h⟩ := bind_eq_ok.mp h
    cases h
    exact ⟨rfl, rfl⟩
  case isFalse =>
  split at h
  case isTrue =>
    obtain ⟨⟨b, u₁⟩, _, h⟩ := bind_eq_ok.mp h
    obtain ⟨u, _, h⟩ := bind_eq_ok.mp h
    cases h
    exact ⟨rfl, rfl⟩
  case isFalse =>
    obtain ⟨c', _, h⟩ := bind_eq_ok.mp h
    cases h
    exact ⟨rfl, rfl⟩

/-! ### `vsfs_write` -/

/-- What an allowed `vsfs_write` through slot `p` does: `u` is in the segments after the allocation, and the copy ends at
`pos` with `u'` in them. -/
structure Written (now p : Nat) (buf : Bytes) (nbyte : UInt64) (ret : Int) (s t : Process) (u u' : Segments) (pos : Nat) :
    Prop where
  alloc : ((s.inodes (s.desc.opFtable p).inodeNr).blocks ≤ neededBlocks (s.desc.writeEnd p nbyte) ∧
      ∃ m, allocBlock (s.desc.opFtable p).inodeNr
        (sub32 (neededBlocks (s.desc.writeEnd p nbyte)) (s.inodes (s.desc.opFtable p).inodeNr).blocks) s.seg =
          .ok (m, u)) ∨
    (neededBlocks (s.desc.writeEnd p nbyte) < (s.inodes (s.desc.opFtable p).inodeNr).blocks ∧ u = s.seg)
  data : writeDblock (s.desc.opFtable p).inodeNr (s.desc.opFtable p).offset nbyte.toNat buf
    (u.modInode (s.desc.opFtable p).inodeNr fun x => { x with atime := now, mtime := now }) = (ret, pos, u')
  result : t = { s.withSeg (u'.modInode (s.desc.opFtable p).inodeNr fun x => { x with size := pos % 2 ^ 32 }) with
    desc := s.desc.setOffset p pos }

/-- **`vsfs_write` that passes its checks.** -/
theorem vsfsWrite_written {e : FdTable} (ho : s.OpenOn fildes e p) (ha : WriteAllowed s e p nbyte)  :
    vsfsWrite now fildes buf nbyte s = .ok (ret, t) ↔ ∃ u u' pos, Written now p buf nbyte ret s t u u' pos := by
  have hlim := ha.limit
  have hquot : ¬0x100000000 < s.desc.writeEnd p nbyte / blockSize := by
    unfold level3LimitTimesBlockSize at hlim
    unfold blockSize
    omega
  obtain ⟨b, hfind, hp⟩ := ho
  have hfin : ((s.desc.opFtable p).offset + nbyte.toNat) % 2 ^ 64 = s.desc.writeEnd p nbyte := rfl
  unfold vsfsWrite
  rw [hfind, ok_bind]
  dsimp only
  rw [slot_eq_ok.mpr hp, ok_bind]
  simp only [hfin]
  obtain ⟨fl, hset, hne⟩ := ha.flags
  rw [if_neg (by simp [ha.sb]), if_neg (by simp [ha.opCounter]), accessMode_eq_ok.mpr hset, ok_bind, if_neg hne,
    if_neg (by simp [ha.sbCached]), if_neg (by omega), if_neg hquot, if_neg (Nat.not_le.mpr ha.inode)]
  constructor
  · intro h
    obtain ⟨u, hu, h⟩ := bind_eq_ok.mp h
    cases h
    refine ⟨u, _, _, ?_, rfl, rfl⟩
    split at hu
    case isTrue hle =>
      obtain ⟨⟨m, w⟩, hm, hu⟩ := bind_eq_ok.mp hu
      cases hu
      exact Or.inl ⟨hle, m, hm⟩
    case isFalse hlt =>
      cases hu
      exact Or.inr ⟨Nat.not_le.mp hlt, rfl⟩
  · rintro ⟨u, u', pos, halloc, hdata, rfl⟩
    refine bind_eq_ok.mpr ⟨u, ?_, ?_⟩
    · rcases halloc with ⟨hle, m, hm⟩ | ⟨hlt, rfl⟩
      · rw [if_pos hle, hm]
        rfl
      · rw [if_neg (Nat.not_le.mpr hlt)]
    · rw [hdata]
      rfl

/-! ### `vsfs_read` -/

/-- What a `vsfs_read` that is not rejected does. -/
structure ReadDone (now p : Nat) (buf buf' : Bytes) (nbyte : UInt64) (ret : Int) (s t : Process) (pos : Nat) : Prop where
  inode : (s.desc.opFtable p).inodeNr < nrInodes
  data : readDblock (s.desc.opFtable p).inodeNr (s.desc.opFtable p).offset nbyte.toNat buf
    (s.seg.modInode (s.desc.opFtable p).inodeNr fun x => { x with atime := now }) = (ret, pos, buf')
  result : t = { s.withSeg (s.seg.modInode (s.desc.opFtable p).inodeNr fun x => { x with atime := now }) with
    desc := s.desc.setOffset p pos }

/-- All that `vsfs_read` can do. -/
theorem vsfsRead_cases {buf' : Bytes} (h : vsfsRead now fildes buf nbyte s = .ok (ret, buf', t)) :
    (ret = -1 ∧ t = s ∧ buf' = buf) ∨
    ∃ e p pos, s.OpenOn fildes e p ∧ e.CanRead ∧ ReadDone now p buf buf' nbyte ret s t pos := by
  unfold vsfsRead at h
  split at h
  case isTrue => cases h; exact Or.inl ⟨rfl, rfl, rfl⟩
  case isFalse =>
  obtain ⟨found, hfind, h⟩ := bind_eq_ok.mp h
  cases found with
  | none => cases h; exact Or.inl ⟨rfl, rfl, rfl⟩
  | some x =>
    obtain ⟨b, e⟩ := x
    dsimp only at h
    obtain ⟨fl, hset, h⟩ := bind_eq_ok.mp h
    split at h
    case isTrue => cases h; exact Or.inl ⟨rfl, rfl, rfl⟩
    case isFalse hne =>
    split at h
    case isTrue => cases h; exact Or.inl ⟨rfl, rfl, rfl⟩
    case isFalse =>
    obtain ⟨p, hp, h⟩ := bind_eq_ok.mp h
    split at h
    case isTrue => cases h
    case isFalse hi =>
      cases h
      exact Or.inr ⟨e, p, _, ⟨b, hfind, slot_eq_ok.mp hp⟩, ⟨fl, accessMode_eq_ok.mp hset, hne⟩, Nat.not_le.mp hi, rfl, rfl⟩

/-! ### The copy of `vsfs_write` -/

/-- The copy leaves the inodes alone. -/
theorem writeDblock_inodes (ino pos n : Nat) (buf : Bytes) (u : Segments) :
    (writeDblock ino pos n buf u).2.2.inodes = u.inodes := by
  have hact : ∀ a (c : Cursor) (w : Segments), w.inodes = u.inodes → (copyIn buf a c w).inodes = u.inodes :=
    fun _ _ _ h => h
  have hkeep : (throughMap id (copyIn buf) ino (.start pos n) u).2.inodes = u.inodes :=
    throughMap_preserves (P := fun w : Segments => w.inodes = u.inodes) hact ino rfl
  unfold writeDblock
  obtain ⟨⟨c, w⟩, hr⟩ : ∃ r, throughMap id (copyIn buf) ino (.start pos n) u = r := ⟨_, rfl⟩
  rw [hr] at hkeep ⊢
  exact hkeep

/-- The sizes that a write leaves. -/
theorem Written.inodes {u u' : Segments} {pos : Nat} (h : Written now p buf nbyte ret s t u u' pos) (j : Nat) :
    (t.inodes j).size = (if j = (s.desc.opFtable p).inodeNr then pos % 2 ^ 32 else (s.inodes j).size) ∧
      (t.inodes j).blocks = (u.inodes j).blocks := by
  have hin : u'.inodes = (u.modInode (s.desc.opFtable p).inodeNr fun x => { x with atime := now, mtime := now }).inodes := by
    have hkeep := writeDblock_inodes (s.desc.opFtable p).inodeNr (s.desc.opFtable p).offset nbyte.toNat buf
      (u.modInode (s.desc.opFtable p).inodeNr fun x => { x with atime := now, mtime := now })
    rwa [h.data] at hkeep
  have hsize : (u.inodes j).size = (s.inodes j).size := by
    rcases h.alloc with ⟨_, m, hm⟩ | ⟨_, hu⟩
    · exact (allocBlock_count hm).size j
    · rw [hu]
      rfl
  have ht : t.inodes = (u'.modInode (s.desc.opFtable p).inodeNr fun x => { x with size := pos % 2 ^ 32 }).inodes := by
    rw [h.result]
    rfl
  rw [ht]
  simp only [Segments.modInode, hin]
  by_cases hj : j = (s.desc.opFtable p).inodeNr
  · subst hj
    simp
  · simp [hj, hsize]

/-- The blocks of the file after a write: those that its end needs, or more that were there. -/
theorem Written.blocks {u u' : Segments} {pos : Nat} (h : Written now p buf nbyte ret s t u u' pos)
    (hlim : s.desc.writeEnd p nbyte ≤ level3LimitTimesBlockSize) : (u.inodes (s.desc.opFtable p).inodeNr).blocks =
      max (s.inodes (s.desc.opFtable p).inodeNr).blocks (neededBlocks (s.desc.writeEnd p nbyte)) := by
  have hmax : level3Limit = 1053745 := rfl
  have hneed := neededBlocks_le hlim
  rcases h.alloc with ⟨hle, m, hal⟩ | ⟨hlt, rfl⟩
  · have hcount := allocBlock_count hal
    have hin : (s.seg.inodes (s.desc.opFtable p).inodeNr).blocks = (s.inodes (s.desc.opFtable p).inodeNr).blocks := rfl
    rw [sub32_of_le hle (by omega), hin, allocLeft_of_le (by omega), Nat.min_eq_left (by omega)] at hcount
    rw [hcount.blocks (by omega), hin]
    omega
  · exact (Nat.max_eq_left hlt.le).symm

/-! ### Every call -/

theorem open_counted {s t : State} {pathname : CStr} {flags : Int}
    (h : vsfsOpen now pathname flags s = .ok (ret, t)) (j : Nat) :
    (t.inodes j).size = (s.inodes j).size ∧ (t.inodes j).blocks = (s.inodes j).blocks := by
  rcases (open_inodes h).2 with hin | ⟨target, hin⟩
  · rw [hin]
    exact ⟨rfl, rfl⟩
  · rw [hin]
    unfold touchPath
    split_ifs <;> exact ⟨rfl, rfl⟩

theorem read_counted {b : Bytes} (h : vsfsRead now fildes buf nbyte s = .ok (ret, b, t)) (j : Nat) :
    (t.inodes j).size = (s.inodes j).size ∧ (t.inodes j).blocks = (s.inodes j).blocks :=
  ⟨(read_touched h).size j, (read_touched h).blocks j⟩

/-- The stored sizes are in range. -/
def Process.Small (s : Process) : Prop := ∀ j, (s.inodes j).size < 2 ^ 32

theorem succ32_lt (hn : n < 2 ^ 32) : succ32 n < 2 ^ 32 := by
  unfold succ32
  split <;> omega

theorem Process.Small.step {c : Call} (h : s.Small) (hs : Step c s t) : t.Small := by
  obtain ⟨now, ret, -, hr⟩ := hs
  intro j
  cases c with
  | creat name blockNum =>
    rcases vsfsCreat_counted hr with hsame | ⟨_, i, _, _, hc⟩
    · rw [(hsame j).1]
      exact h j
    by_cases hji : j = i
    · rw [hji, hc.size]
      exact Nat.mod_lt _ (by decide)
    by_cases hj : j = 0
    · subst hj
      rw [hc.root (Ne.symm hji)]
      exact succ32_lt (h 0)
    · rw [(hc.other j hj hji).1]
      exact h j
  | «open» pathname flags =>
    obtain ⟨⟨r, u⟩, ho, hr⟩ := bind_eq_ok.mp hr
    cases hr
    show (u.inodes j).size < _
    rw [(open_counted ho j).1]
    exact h j
  | stat pathname =>
    obtain ⟨⟨r, fre⟩, _, hr⟩ := bind_eq_ok.mp hr
    cases hr
    exact h j
  | close fildes =>
    obtain ⟨⟨r, u⟩, hc, hr⟩ := bind_eq_ok.mp hr
    cases hr
    show (u.inodes j).size < _
    rw [(close_segments hc).1]
    exact h j
  | write fildes buf nbyte =>
    obtain ⟨e, p, ho, rfl | ha⟩ := vsfsWrite_cases hr
    · exact h j
    obtain ⟨u, u', pos, hw⟩ := (vsfsWrite_written ho ha).mp hr
    rw [(hw.inodes j).1]
    split
    · exact Nat.mod_lt _ (by decide)
    · exact h j
  | read fildes buf nbyte =>
    obtain ⟨⟨r, b, u⟩, hrd, hr⟩ := bind_eq_ok.mp hr
    cases hr
    rw [(read_counted hrd j).1]
    exact h j
  | lseek fildes offset whence =>
    obtain ⟨⟨r, u⟩, hl, hr⟩ := bind_eq_ok.mp hr
    cases hr
    rcases vsfsLseek_cases hl with hseg | ⟨e, p, _, _, _, _, _, m, w, hw, hseg⟩
    · rw [show t.inodes = s.inodes from congrArg Segments.inodes hseg]
      exact h j
    · rw [show t.inodes = _ from congrArg Segments.inodes hseg]
      simp only [Segments.modInode, update_apply]
      split
      · exact Nat.mod_lt _ (by decide)
      · rw [(allocBlock_count hw).size]
        exact h j

/-- **The sizes in every state.** -/
theorem ReachedBy.small {ok : Call → Process → Prop} (h : ReachedBy ok s) : s.Small := by
  obtain ⟨n, hl, hu, disk, seg, hr⟩ := h
  exact hr.invariant (P := Process.Small) (fun j => ((fresh_fits hl hu disk seg).inode j).size)
    fun c u v hP _ hs => hP.step hs

/-- With a list of descriptors the two segments of `vsfs_open` are there. -/
def Process.Mapped (s : Process) : Prop :=
  ∀ hd tl, s.desc.fdTable = .table hd tl → s.desc.opCounter = true ∧ s.sb = true

theorem Process.Mapped.openOn {e : FdTable} (h : s.Mapped) (ho : s.OpenOn fildes e p) :
    s.desc.opCounter = true ∧ s.sb = true := by
  obtain ⟨b, hfind, _⟩ := ho
  obtain ⟨cs, hr, hf⟩ := bind_eq_ok.mp hfind
  unfold Desc.reachable at hr
  split at hr
  case h_1 =>
    cases hr
    cases hf
  case h_2 => cases hr
  case h_3 hd tl ht => exact h hd tl ht

theorem Process.Mapped.open {pathname : CStr} {flags : Int} {t : State} (h : s.Mapped)
    (ho : vsfsOpen now pathname flags s.toState = .ok (ret, t)) : ({ s with toState := t } : Process).Mapped := by
  intro hd tl ht
  obtain ⟨_, _, rfl⟩ | ⟨_, fd, b, d, hadd, ⟨_, hu⟩ | ⟨target, _, _, _, rfl⟩⟩ := vsfsOpen_cases ho
  · exact h hd tl ht
  · rw [show t.desc.fdTable = .freed from hu.fdTable] at ht
    cases ht
  · refine ⟨?_, rfl⟩
    show d.opCounter = true
    obtain ⟨_, _, ⟨_, _, rfl⟩ | ⟨_, _, _, _, _, _, rfl⟩⟩ := addFdTable_cases hadd <;> rfl

theorem Process.Mapped.close {t : State} (h : s.Mapped) (hc : vsfsClose fildes s.toState = .ok (ret, t)) :
    ({ s with toState := t } : Process).Mapped := by
  intro hd tl ht
  unfold vsfsClose at hc
  split at hc
  case h_1 => cases hc; exact h hd tl ht
  case h_2 => cases hc; exact h hd tl ht
  case h_3 => cases hc
  case h_4 hd₀ tl₀ ht₀ =>
  obtain ⟨hoc, hsb⟩ := h _ _ ht₀
  obtain ⟨_, _, hc⟩ := bind_eq_ok.mp hc
  split at hc
  case isTrue => cases hc; exact ⟨hoc, hsb⟩
  case isFalse =>
  obtain ⟨⟨rm, d⟩, hu, hc⟩ := bind_eq_ok.mp hc
  have hd' : d.opCounter = true := (unlink_nodes hu).2.1.opCounter.trans hoc
  cases rm with
  | none => cases hc; exact ⟨hd', hsb⟩
  | some a =>
    obtain ⟨_, _, hc⟩ := bind_eq_ok.mp hc
    obtain ⟨p, _, hc⟩ := bind_eq_ok.mp hc
    have hdrop := (dropSlot_opCounter d p).trans hd'
    split at hc
    case h_1 d₁ he =>
      cases hc
      rw [he] at hdrop
      exact ⟨hdrop, hsb⟩
    case h_2 d₁ he =>
      cases hc
      rw [he] at hdrop
      -- with the last node the header has gone
      obtain ⟨next, htab⟩ := unlink_fdTable hu ht₀
      have htab' : d₁.fdTable = .table next tl₀ := by
        have := (dropSlot_sameList d p).fdTable
        rw [he] at this
        exact this.trans htab
      cases next with
      | none =>
        have hfreed : (State.closeLast { s.toState with desc := d₁ } a).desc.fdTable = .freed := by
          unfold State.closeLast
          simp only [htab']
        rw [show (State.closeLast { s.toState with desc := d₁ } a).desc.fdTable = .table hd tl from ht] at hfreed
        cases hfreed
      | some k =>
        have hlast : State.closeLast { s.toState with desc := d₁ } a =
            { s.toState with desc := { d₁ with fds := update d₁.fds a none } } := by
          unfold State.closeLast
          simp only [htab']
        rw [hlast]
        exact ⟨hdrop, hsb⟩

theorem Process.Mapped.step {c : Call} (h : s.Mapped) (hs : Step c s t) : t.Mapped := by
  obtain ⟨now, ret, -, hr⟩ := hs
  cases c with
  | creat name blockNum =>
    obtain ⟨hd, hsb⟩ := vsfsCreat_desc hr
    unfold Process.Mapped
    rwa [hd, hsb]
  | «open» pathname flags =>
    obtain ⟨⟨r, u⟩, ho, hr⟩ := bind_eq_ok.mp hr
    cases hr
    exact h.open ho
  | stat pathname =>
    obtain ⟨⟨r, fre⟩, _, hr⟩ := bind_eq_ok.mp hr
    cases hr
    exact h
  | close fildes =>
    obtain ⟨⟨r, u⟩, hc, hr⟩ := bind_eq_ok.mp hr
    cases hr
    exact h.close hc
  | write fildes buf nbyte =>
    obtain ⟨e, p, ho, rfl | ha⟩ := vsfsWrite_cases hr
    · exact h
    obtain ⟨u, u', pos, hw⟩ := (vsfsWrite_written ho ha).mp hr
    rw [hw.result]
    exact h
  | read fildes buf nbyte =>
    obtain ⟨⟨r, b, u⟩, hrd, hr⟩ := bind_eq_ok.mp hr
    cases hr
    obtain ⟨_, rfl, _⟩ | ⟨e, p, pos, _, _, hd⟩ := vsfsRead_cases hrd
    · exact h
    · rw [hd.result]
      exact h
  | lseek fildes offset whence =>
    obtain ⟨⟨r, u⟩, hl, hr⟩ := bind_eq_ok.mp hr
    cases hr
    obtain rfl | ⟨e, p, ho, hoc, hsb⟩ := vsfsLseek_found hl
    · exact h
    obtain ⟨_, ⟨_, _, rfl⟩ | ⟨_, _, u, hg⟩⟩ := (vsfsLseek_open ho hoc hsb).mp hl
    · exact h
    · rw [hg.result]
      exact h

/-- **The handles in every state** with an open descriptor. -/
theorem ReachedBy.mapped {ok : Call → Process → Prop} {e : FdTable} (h : ReachedBy ok s) (ho : s.OpenOn fildes e p) :
    s.desc.opCounter = true ∧ s.sb = true := by
  obtain ⟨n, hl, hu, disk, seg, hr⟩ := h
  refine Process.Mapped.openOn (hr.invariant (P := Process.Mapped) ?_ fun c u v hP _ hs => hP.step hs) ho
  intro hd tl ht
  cases ht

end Shm

end Vsfs
