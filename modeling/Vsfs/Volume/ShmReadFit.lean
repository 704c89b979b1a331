import Vsfs.Volume.Limit
import Vsfs.Volume.ReadFit
import Vsfs.Volume.SeekGrowth

/-!
# Reads inside a file of the shared-memory variant

The size that a read takes the offset from is that of the inode, which all the descriptors on the file share: any of
them can make the file shorter under the offset of another.

- `readCopy_inside`: the copy of a read from inside the size;
- `Process.StaysInside`: the calls that leave the offset of every descriptor that can be read inside the size;
- `Step.inside`, `ReachedBy.inside`: they do, in every state of a run of such calls;
- `reads_within`: the reads in these states, of both variants.
-/

set_option autoImplicit false

namespace Vsfs

open Function ByteSeq ExceptLib

namespace Shm

/-! ## The copy -/

/-- `left` at the start of the copy of `__read_dblock`. -/
def readLeft (size offset nbyte : Nat) : Nat :=
  if (offset + nbyte) % 2 ^ 64 ≤ size then nbyte else (size + (2 ^ 64 - offset % 2 ^ 64)) % 2 ^ 64

/-- `padded`. -/
def readPadded (size offset nbyte : Nat) : Nat :=
  if (offset + nbyte) % 2 ^ 64 ≤ size then 0 else (nbyte + (2 ^ 64 - readLeft size offset nbyte)) % 2 ^ 64

/-- `__read_dblock` returns -1: the request ends behind the end of the file, and the offset is there. -/
def AtEnd (size offset nbyte : Nat) : Prop := size < (offset + nbyte) % 2 ^ 64 ∧ size = offset

/-- The copy of `__read_dblock`. -/
def readCopy (ino offset nbyte : Nat) (buf : Bytes) (u : Segments) : Cursor × Bytes :=
  throughMap (fun _ => u) (copyOut u) ino (.start offset (readLeft (u.inodes ino).fileSize offset nbyte)) buf

variable {s t : Process} {u : Segments} {ino i n o p q now size : Nat} {fildes ret : Int} {buf : Bytes} {nbyte : UInt64}
  {e : FdTable}

/-- `__read_dblock` is this copy and the padding. -/
theorem readDblock_copy (hne : ¬AtEnd (u.inodes ino).fileSize o n) : readDblock ino o n buf u =
    (toInt32 n, (readCopy ino o n buf u).1.pos,
      fill (readCopy ino o n buf u).2 (readCopy ino o n buf u).1.done 0 (readPadded (u.inodes ino).fileSize o n)) := by
  unfold readDblock readCopy readPadded readLeft
  unfold AtEnd at hne
  rw [if_neg hne]

/-- What is left of the file and of the request, with nothing wrapped. -/
theorem readLeft_inside (ho : o ≤ size) (hs : size ≤ 2 ^ 32) (hn : o + n < 2 ^ 64) :
    readLeft size o n = min n (size - o) ∧ min n (size - o) + readPadded size o n = n := by
  have hleft : readLeft size o n = min n (size - o) := by
    unfold readLeft
    split <;> omega
  refine ⟨hleft, ?_⟩
  unfold readPadded
  rw [hleft]
  split <;> omega

/-- **The copy of a read from inside the size** copies what is left. -/
theorem readCopy_inside (ho : o ≤ (u.inodes ino).fileSize) (hs : (u.inodes ino).fileSize ≤ 2 ^ 32) (hn : o + n < 2 ^ 64)
    (buf : Bytes) : (readCopy ino o n buf u).1.Ended (o + min n ((u.inodes ino).fileSize - o))
      (min n ((u.inodes ino).fileSize - o)) := by
  have hmax : level3LimitTimesBlockSize = 4294972465 := rfl
  unfold readCopy
  rw [(readLeft_inside ho hs hn).1]
  exact throughMap_done _ _ ino buf (by omega) rfl

/-- Where a read from inside the size leaves the offset. -/
theorem readDblock_inside (ho : o ≤ (u.inodes ino).fileSize) (hs : (u.inodes ino).fileSize ≤ 2 ^ 32)
    (hn : o + n < 2 ^ 64) (buf : Bytes) : (readDblock ino o n buf u).2.1 ≤ (u.inodes ino).fileSize := by
  by_cases hend : AtEnd (u.inodes ino).fileSize o n
  · unfold readDblock
    unfold AtEnd at hend
    rw [if_pos hend]
    exact ho
  · obtain ⟨-, -, hpos⟩ := readCopy_inside ho hs hn buf
    rw [readDblock_copy hend]
    dsimp only
    omega

/-! ## The offsets -/

/-- The offset of a slot is inside the size of its inode. -/
def Process.Fits (s : Process) (q : Nat) : Prop :=
  (s.desc.opFtable q).offset ≤ (s.inodes (s.desc.opFtable q).inodeNr).fileSize

theorem fileSize_congr {x y : Inode} (hs : y.size = x.size) (hb : y.blocks = x.blocks) : y.fileSize = x.fileSize := by
  unfold Inode.fileSize
  rw [hs, hb]

/-- The same slot, with the same sizes. -/
theorem Process.Fits.of_same {r : Nat} (h : s.Fits r) (hs : (s.desc.opFtable r).Same (t.desc.opFtable q))
    (hin : ∀ j, (t.inodes j).size = (s.inodes j).size ∧ (t.inodes j).blocks = (s.inodes j).blocks) : t.Fits q := by
  unfold Process.Fits
  rw [hs.offset, hs.inodeNr, fileSize_congr (hin _).1 (hin _).2]
  exact h

/-- A call that moves the offset of slot `p`. -/
theorem fits_moved (hd : t.desc = s.desc.setOffset p o)
    (h : (if q = p then o else (s.desc.opFtable q).offset) ≤ (t.inodes (s.desc.opFtable q).inodeNr).fileSize) :
    t.Fits q := by
  unfold Process.Fits
  rw [hd, setOffset_inodeNr]
  refine le_of_eq_of_le ?_ h
  simp only [Desc.setOffset, update_apply]
  split <;> rfl

/-! ## The condition -/

/-- The size of a file of `n` blocks that has been entered. -/
def entrySize (n : Nat) : Nat := if n = 2 ^ 20 then 2 ^ 32 else n * 4096 % 2 ^ 32

/-- The size of the file on slot `p` after a `vsfs_write`. -/
def Process.sizeAfterWrite (s : Process) (p : Nat) (nbyte : UInt64) : Nat :=
  { s.inodes (s.desc.opFtable p).inodeNr with
    size := s.desc.writeEnd p nbyte % 2 ^ 32
    blocks := max (s.inodes (s.desc.opFtable p).inodeNr).blocks (neededBlocks (s.desc.writeEnd p nbyte))
      : Inode }.fileSize

/-- The calls after which the slots that can be read have their offsets inside, if they had them before: `vsfs_creat`
enters no file under a descriptor that is further in it, and does not wrap the size of the directory under one; a
`vsfs_write` leaves a size that reaches the offsets on the file, its own end among them, and its end is no wrapped sum;
a `vsfs_lseek` to 4 GiB finds no more than 2^20 blocks in the inode; a `vsfs_close` moves no slot that does not fit under
another descriptor; the end of a `vsfs_read` is no wrapped sum. -/
def Process.StaysInside : Call → Process → Prop
  | .creat name blockNum, s => Enters name s → (s.inodes 0).HasSlot ∨ (s.inodes 0).blocks < 49 →
      ∀ i c q, getFreeInode s.cached = .ok (i, c) → s.desc.Reads q →
      ((s.desc.opFtable q).inodeNr = i → (s.desc.opFtable q).offset ≤ entrySize blockNum.toNat) ∧
      (i ≠ 0 → (s.desc.opFtable q).inodeNr = 0 → (s.desc.opFtable q).offset ≤
        { s.inodes 0 with size := succ32 (s.inodes 0).size : Inode }.fileSize)
  | .write fildes _ nbyte, s => ∀ e p q, s.OpenOn fildes e p → WriteAllowed s e p nbyte → s.desc.Reads q →
      (s.desc.opFtable q).inodeNr = (s.desc.opFtable p).inodeNr →
      (s.desc.opFtable p).offset + nbyte.toNat < 2 ^ 64 ∧
      (if q = p then s.desc.writeEnd p nbyte else (s.desc.opFtable q).offset) ≤ s.sizeAfterWrite p nbyte
  | .lseek fildes offset whence, s => ∀ e p q, s.OpenOn fildes e p →
      SeekGrows (s.inodes (s.desc.opFtable p).inodeNr) offset whence → s.desc.Reads q →
      (s.desc.opFtable q).inodeNr = (s.desc.opFtable p).inodeNr → offset.toNat = 2 ^ 32 →
      2 ^ 20 < (s.inodes (s.desc.opFtable p).inodeNr).blocks → q ≠ p ∧ (s.desc.opFtable q).offset = 0
  | .close fildes, s => ∀ a e p b e', s.desc.fds a = some e → (e.index : Int) = fildes → e.ptr = some p → b ≠ a →
      s.desc.fds b = some e' → e'.ptr = some p → e'.flags ≠ some oWronly → s.Fits (s.desc.count - 1)
  | .read fildes _ nbyte, s => ∀ e p, s.OpenOn fildes e p → e.flags ≠ some oWronly →
      (s.desc.opFtable p).offset + nbyte.toNat < 2 ^ 64
  | _, _ => True

/-! ## Steps -/

theorem fileSize_entered {x : Inode} (hs : x.size = n * 4096 % 2 ^ 32) (hb : x.blocks = n) : x.fileSize = entrySize n := by
  unfold Inode.fileSize entrySize
  rw [hs, hb]
  split_ifs <;> omega

/-- The sizes that `vsfs_creat` leaves: those that were there, or a file of `n` blocks has been entered as inode `i`. -/
theorem vsfsCreat_sizes {name : CStr} {blockNum : UInt32} (h : vsfsCreat now name blockNum s = .ok (ret, t)) :
    (∀ j, (t.inodes j).fileSize = (s.inodes j).fileSize) ∨
    Enters name s ∧ ((s.inodes 0).HasSlot ∨ (s.inodes 0).blocks < 49) ∧ ∃ i c, getFreeInode s.cached = .ok (i, c) ∧
      (t.inodes i).fileSize = entrySize blockNum.toNat ∧
      (i ≠ 0 → (t.inodes 0).fileSize = { s.inodes 0 with size := succ32 (s.inodes 0).size : Inode }.fileSize) ∧
      ∀ j, j ≠ 0 → j ≠ i → (t.inodes j).fileSize = (s.inodes j).fileSize := by
  rcases vsfsCreat_cases h with rfl | ⟨hent, i, c, hgi, hdone⟩
  · exact Or.inl fun _ => rfl
  cases hdone with
  | slot hslot ha =>
    obtain ⟨hz, hb, hroot, hother⟩ := addingEntry_counted ha
    refine Or.inr ⟨hent, Or.inl hslot, i, c, hgi, fileSize_entered hz hb, fun hi => ?_, fun j hj hji => ?_⟩
    · exact fileSize_congr (hroot hi).1 (hroot hi).2
    · exact fileSize_congr (hother j hj hji).1 (hother j hj hji).2
  | grow _ hlt hg ha =>
    have hin := getFreeDblock_inodes hg
    obtain ⟨hz, hb, hroot, hother⟩ := addingEntry_counted ha
    refine Or.inr ⟨hent, Or.inr hlt, i, c, hgi, fileSize_entered hz hb, fun hi => ?_, fun j hj hji => ?_⟩
    · obtain ⟨hsize, hblocks⟩ := hroot hi
      simp only [Segments.modInode, update_self, hin] at hsize hblocks
      -- the directory has too few blocks for a size of 4 GiB
      have hlt' : (s.inodes 0).blocks < 49 := hlt
      have hsize' : (t.inodes 0).size = succ32 (s.inodes 0).size := hsize
      have hblocks' : (t.inodes 0).blocks = (s.inodes 0).blocks + 1 := hblocks
      unfold Inode.fileSize
      dsimp only
      rw [hsize', hblocks', if_neg (by omega), if_neg (by omega)]
    · obtain ⟨hsize, hblocks⟩ := hother j hj hji
      simp only [Segments.modInode, update_of_ne hj, hin] at hsize hblocks
      exact fileSize_congr hsize hblocks
  | full _ ht =>
    have hin : t.inodes = s.inodes := congrArg Segments.inodes ht
    exact Or.inl fun j => by rw [hin]

theorem fits_creat {name : CStr} {blockNum : UInt32} (hfits : ∀ q, s.desc.Reads q → s.Fits q)
    (hok : s.StaysInside (.creat name blockNum)) (h : vsfsCreat now name blockNum s = .ok (ret, t))
    (hq : t.desc.Reads q) : t.Fits q := by
  rw [(vsfsCreat_desc h).1] at hq
  have hfit := hfits q hq
  unfold Process.Fits at hfit ⊢
  rw [(vsfsCreat_desc h).1]
  rcases vsfsCreat_sizes h with hsame | ⟨hent, hroom, i, c, hgi, hnew, hroot, hother⟩
  · rwa [hsame]
  obtain ⟨hat, hat0⟩ := hok hent hroom i c q hgi hq
  by_cases hi : (s.desc.opFtable q).inodeNr = i
  · rw [hi, hnew]
    exact hat hi
  by_cases h0 : (s.desc.opFtable q).inodeNr = 0
  · have hi0 : i ≠ 0 := fun hi0 => hi (h0.trans hi0.symm)
    rw [h0, hroot hi0]
    exact hat0 hi0 h0
  · rwa [hother _ h0 hi]

/-- The slots that `vsfs_open` leaves: those that were there, or the next one has been taken, with the offset 0. -/
theorem open_slots {s t : State} {pathname : CStr} {flags : Int} (h : vsfsOpen now pathname flags s = .ok (ret, t)) :
    (ret = -1 ∧ t.desc.opFtable = s.desc.opFtable) ∨
      ∃ x : OpEntry, x.offset = 0 ∧ t.desc.opFtable = update s.desc.opFtable s.desc.count x := by
  have hunwind : ∀ {u u' : State} {d : Desc} {r : Int}, (u.unwind d >>= fun s => Except.ok (-1, s)) = .ok (r, u') →
      r = -1 ∧ u'.desc.opFtable = d.opFtable := by
    intro u u' d r hu
    obtain ⟨w, hw, hu⟩ := bind_eq_ok.mp hu
    obtain ⟨d', hfree, hw⟩ := bind_eq_ok.mp hw
    obtain ⟨cs, _, rfl⟩ := freeFdTable_eq_ok.mp hfree
    cases hw
    cases hu
    exact ⟨rfl, rfl⟩
  unfold vsfsOpen at h
  split at h
  case isTrue =>
    cases h
    exact Or.inl ⟨rfl, rfl⟩
  case isFalse =>
  obtain ⟨⟨fd, a, d⟩, hadd, h⟩ := bind_eq_ok.mp h
  obtain ⟨hcount, hop, _⟩ := addFdTable_optab hadd
  dsimp only at hcount hop h
  obtain ⟨found, _, h⟩ := bind_eq_ok.mp h
  cases found with
  | none =>
    obtain ⟨hret, hslots⟩ := hunwind h
    exact Or.inl ⟨hret, hslots.trans hop⟩
  | some target =>
    dsimp only at h
    split at h
    case isTrue =>
      obtain ⟨hret, hslots⟩ := hunwind h
      exact Or.inl ⟨hret, hslots.trans hop⟩
    case isFalse =>
      cases h
      refine Or.inr ⟨⟨0, target, 1, 0, (d.opFtable d.count).filePtr⟩, rfl, ?_⟩
      rw [← hop, ← hcount]
      rfl

theorem fits_open {u : State} {pathname : CStr} {flags : Int} (hfits : ∀ q, s.desc.Reads q → s.Fits q)
    (ho : vsfsOpen now pathname flags s.toState = .ok (ret, u)) (hq : u.desc.Reads q) :
    ({ s with toState := u } : Process).Fits q := by
  obtain ⟨b, e, hb, hp, hfl⟩ := hq
  have hsizes := open_counted ho
  -- a slot of before
  have hkeep : u.desc.opFtable q = s.desc.opFtable q → WasNode s.desc.fds b e →
      ({ s with toState := u } : Process).Fits q := by
    rintro hsame ⟨e₀, _, he₀, rfl⟩
    refine (hfits q ⟨b, e₀, he₀, hp, hfl⟩).of_same ?_ hsizes
    show (s.desc.opFtable q).Same (u.desc.opFtable q)
    rw [hsame]
    exact .refl _
  have hnode := vsfsOpen_nodes ho hb
  rcases open_slots ho with ⟨hret, hslots⟩ | ⟨x, hx, hslots⟩
  · rcases hnode with hwas | hnone | ⟨hne, -⟩
    · exact hkeep (by rw [hslots]) hwas
    · rw [hnone] at hp
      cases hp
    · exact absurd hret hne
  by_cases hqc : q = s.desc.count
  · -- the slot that has been taken
    unfold Process.Fits
    show (u.desc.opFtable q).offset ≤ _
    rw [hslots, hqc, update_self, hx]
    exact Nat.zero_le _
  · rcases hnode with hwas | hnone | ⟨-, hnew⟩
    · exact hkeep (by rw [hslots, update_of_ne hqc]) hwas
    · rw [hnone] at hp
      cases hp
    · rw [hnew] at hp
      exact absurd (Option.some.inj hp).symm hqc

theorem fits_close {u : State} (hfits : ∀ q, s.desc.Reads q → s.Fits q) (hok : s.StaysInside (.close fildes))
    (hc : vsfsClose fildes s.toState = .ok (ret, u)) (hq : u.desc.Reads q) :
    ({ s with toState := u } : Process).Fits q := by
  have hin : ∀ j, (u.inodes j).size = (s.inodes j).size ∧ (u.inodes j).blocks = (s.inodes j).blocks := fun j => by
    rw [(close_segments hc).1]
    exact ⟨rfl, rfl⟩
  obtain ⟨hnodes, hslots⟩ := vsfsClose_nodes hc
  have hwas := hfits q (hnodes.wasReads hq)
  rcases hslots with hs | ⟨a, e, p, ha, hi, hp, hfree, hmoved, hs⟩
  · exact hwas.of_same (hs q) hin
  by_cases hqp : q = p
  · -- another node points at the slot that has been given up
    subst hqp
    obtain ⟨b, e', hb, hp', hfl⟩ := hq
    have hba : b ≠ a := by
      rintro rfl
      rw [hfree] at hb
      cases hb
    obtain ⟨e₀, _, he₀, rfl⟩ := hnodes b e' hb
    exact (hok a e q b e₀ ha hi hp hba he₀ hp' hfl).of_same hmoved hin
  · exact hwas.of_same (hs q hqp) hin

/-- The size that a write leaves. -/
theorem Written.fileSize {u u' : Segments} {pos : Nat} (hw : Written now p buf nbyte ret s t u u' pos)
    (ha : WriteAllowed s e p nbyte) (hn : (s.desc.opFtable p).offset + nbyte.toNat < 2 ^ 64) :
    pos = s.desc.writeEnd p nbyte ∧ (t.inodes (s.desc.opFtable p).inodeNr).fileSize = s.sizeAfterWrite p nbyte := by
  have hend : s.desc.writeEnd p nbyte = (s.desc.opFtable p).offset + nbyte.toNat := Nat.mod_eq_of_lt hn
  have hpos : pos = s.desc.writeEnd p nbyte := by
    have hdone := writeDblock_pos (s.desc.opFtable p).inodeNr buf
      (u.modInode (s.desc.opFtable p).inodeNr fun x => { x with atime := now, mtime := now })
      (show (s.desc.opFtable p).offset + nbyte.toNat ≤ _ from hend ▸ ha.limit)
    rw [hw.data] at hdone
    exact hdone.trans hend.symm
  refine ⟨hpos, fileSize_congr ?_ ?_⟩
  · rw [(hw.inodes _).1, if_pos rfl, hpos]
  · rw [(hw.inodes _).2, hw.blocks ha.limit]

/-- A write leaves the sizes of the other files. -/
theorem Written.other {u u' : Segments} {pos j : Nat} (hw : Written now p buf nbyte ret s t u u' pos)
    (hj : j ≠ (s.desc.opFtable p).inodeNr) : (t.inodes j).fileSize = (s.inodes j).fileSize := by
  refine fileSize_congr ?_ ?_
  · rw [(hw.inodes j).1, if_neg hj]
  · rw [(hw.inodes j).2]
    rcases hw.alloc with ⟨_, m, hal⟩ | ⟨_, rfl⟩
    · exact (allocBlock_count hal).other j hj
    · rfl

theorem fits_write (hfits : ∀ q, s.desc.Reads q → s.Fits q) (hok : s.StaysInside (.write fildes buf nbyte))
    (h : vsfsWrite now fildes buf nbyte s = .ok (ret, t)) (hq : t.desc.Reads q) : t.Fits q := by
  obtain ⟨e, p, ho, rfl | ha⟩ := vsfsWrite_cases h
  · exact hfits q hq
  obtain ⟨u, u', pos, hw⟩ := (vsfsWrite_written ho ha).mp h
  have hdesc : t.desc = s.desc.setOffset p pos := congrArg (fun r : Process => r.desc) hw.result
  rw [hdesc] at hq
  have hq' : s.desc.Reads q := hq
  refine fits_moved hdesc ?_
  by_cases hi : (s.desc.opFtable q).inodeNr = (s.desc.opFtable p).inodeNr
  · obtain ⟨hn, hle⟩ := hok e p q ho ha hq' hi
    obtain ⟨rfl, hsize⟩ := hw.fileSize ha hn
    rw [hi, hsize]
    exact hle
  · have hqp : q ≠ p := by
      rintro rfl
      exact hi rfl
    rw [if_neg hqp, hw.other hi]
    exact hfits q hq'

theorem fits_read {buf' : Bytes} (hr : ReachedBy (fun _ _ => True) s) (hfits : ∀ q, s.desc.Reads q → s.Fits q)
    (hok : s.StaysInside (.read fildes buf nbyte)) (h : vsfsRead now fildes buf nbyte s = .ok (ret, buf', t))
    (hq : t.desc.Reads q) : t.Fits q := by
  have hcounted := read_counted h
  obtain ⟨_, rfl, _⟩ | ⟨e, p, pos, ho, hfl, hd⟩ := vsfsRead_cases h
  · exact hfits q hq
  have hdesc : t.desc = s.desc.setOffset p pos := congrArg (fun r : Process => r.desc) hd.result
  rw [hdesc] at hq
  have hq' : s.desc.Reads q := hq
  refine fits_moved hdesc ?_
  rw [fileSize_congr (hcounted _).1 (hcounted _).2]
  split
  case isTrue hqp =>
    subst hqp
    have hsize : ((s.seg.modInode (s.desc.opFtable q).inodeNr fun x => { x with atime := now }).inodes
        (s.desc.opFtable q).inodeNr).fileSize = (s.inodes (s.desc.opFtable q).inodeNr).fileSize := by
      rw [show (s.seg.modInode (s.desc.opFtable q).inodeNr fun x => { x with atime := now }).inodes
        (s.desc.opFtable q).inodeNr = { s.inodes (s.desc.opFtable q).inodeNr with atime := now } from update_self ..]
      rfl
    have hin := readDblock_inside (hsize.symm ▸ hfits q hq') (hsize.symm ▸ fileSize_le ((ReachedBy.small hr) _))
      (hok e q ho hfl.ne) buf
    rw [hd.data, hsize] at hin
    exact hin
  case isFalse => exact hfits q hq'

/-- A seek that does not grow the file leaves the offset inside the size. -/
theorem seekResult_inside {whence : Int} {v base pos : Nat} (hbase : base ≤ size) (hpos : pos ≤ size)
    (hset : whence = seekSet → v ≤ 0x100000000 → v ≤ size) : (seekResult whence v size base pos).2 ≤ size := by
  unfold seekResult
  split_ifs with h <;> dsimp only
  · exact hpos
  · exact hset h (by omega)
  all_goals omega

/-- The blocks of a file that a seek has grown to 4 GiB. -/
theorem seek_blocks {u' : Segments} (hn : n = 2 ^ 32) (hb : ¬2 ^ 20 < (u.inodes i).blocks)
    (h : Allotted i (min (sub32 (neededBlocks n) (u.inodes i).blocks) (allocLeft (u.inodes i).blocks)) u u') :
    (u'.inodes i).blocks = 1048576 := by
  have hlim : level3Limit = 1053745 := rfl
  have hneed : neededBlocks n = 1048576 := by
    rw [neededBlocks_eq (by omega)]
    omega
  rw [hneed, sub32_of_le (by omega) (by decide), allocLeft_of_le (by omega), Nat.min_eq_left (by omega)] at h
  rw [h.blocks (by omega)]
  omega

theorem fits_seek {offset : UInt64} {whence : Int} {r : Nat}
    (hfits : ∀ q, s.desc.Reads q → s.Fits q) (hok : s.StaysInside (.lseek fildes offset whence))
    (hl : vsfsLseek fildes offset whence s = .ok (r, t)) (hq : t.desc.Reads q) : t.Fits q := by
  obtain rfl | ⟨e, p, ho, hoc, hsb⟩ := vsfsLseek_found hl
  · exact hfits q hq
  obtain ⟨-, ⟨hno, -, rfl⟩ | ⟨hg, -, u, hgrown⟩⟩ := (vsfsLseek_open ho hoc hsb).mp hl
  · have hq' : s.desc.Reads q := hq
    refine fits_moved rfl ?_
    show _ ≤ (s.inodes (s.desc.opFtable q).inodeNr).fileSize
    split
    case isFalse => exact hfits q hq'
    case isTrue hqp =>
      subst hqp
      refine seekResult_inside ?_ (hfits q hq') fun hset hle => ?_
      · unfold Inode.fileSize
        split <;> omega
      · by_contra hlt
        exact hno ⟨hset, hle, by omega⟩
  · have hdesc : t.desc = s.desc.setOffset p offset.toNat := congrArg (fun r : Process => r.desc) hgrown.result
    have hin : t.inodes = (u.modInode (s.desc.opFtable p).inodeNr fun x =>
        { x with size := offset.toNat % 2 ^ 32 }).inodes := congrArg (fun r : Process => r.inodes) hgrown.result
    rw [hdesc] at hq
    have hq' : s.desc.Reads q := hq
    obtain ⟨m, hal⟩ := hgrown.alloc
    have hcount := allocBlock_count hal
    refine fits_moved hdesc ?_
    by_cases hi : (s.desc.opFtable q).inodeNr = (s.desc.opFtable p).inodeNr
    · have hfit := hfits q hq'
      have hwrap := hok e p q ho hg hq' hi
      obtain ⟨-, hle, hlt⟩ := hg
      unfold Process.Fits at hfit
      rw [hi] at hfit ⊢
      by_cases hfull : offset.toNat = 2 ^ 32 ∧ 2 ^ 20 < (s.inodes (s.desc.opFtable p).inodeNr).blocks
      · obtain ⟨hqp, hzero⟩ := hwrap hfull.1 hfull.2
        rw [if_neg hqp, hzero]
        exact Nat.zero_le _
      · have hsize : (t.inodes (s.desc.opFtable p).inodeNr).fileSize = offset.toNat := by
          rw [hin, segments_modInode_self]
          exact fileSize_of hle (by omega) rfl fun h => seek_blocks (u := s.seg) h (fun hlt => hfull ⟨h, hlt⟩) hcount
        rw [hsize]
        split <;> omega
    · have hqp : q ≠ p := by
        rintro rfl
        exact hi rfl
      rw [if_neg hqp]
      refine le_of_le_of_eq (hfits q hq') (fileSize_congr ?_ ?_).symm
      · rw [hin, show (u.modInode (s.desc.opFtable p).inodeNr fun x => { x with size := offset.toNat % 2 ^ 32 }).inodes
          (s.desc.opFtable q).inodeNr = u.inodes (s.desc.opFtable q).inodeNr from update_of_ne hi ..]
        exact hcount.size _
      · rw [hin, show (u.modInode (s.desc.opFtable p).inodeNr fun x => { x with size := offset.toNat % 2 ^ 32 }).inodes
          (s.desc.opFtable q).inodeNr = u.inodes (s.desc.opFtable q).inodeNr from update_of_ne hi ..]
        exact hcount.other _ hi

/-- **A call that meets the condition** leaves the offsets inside. -/
theorem Step.inside {c : Call} (hr : ReachedBy (fun _ _ => True) s) (hfits : ∀ q, s.desc.Reads q → s.Fits q)
    (hok : s.StaysInside c) (hs : Step c s t) (hq : t.desc.Reads q) : t.Fits q := by
  obtain ⟨now, ret, -, hrun⟩ := hs
  cases c with
  | creat name blockNum => exact fits_creat hfits hok hrun hq
  | «open» pathname flags =>
    obtain ⟨⟨r, u⟩, ho, hrun⟩ := bind_eq_ok.mp hrun
    cases hrun
    exact fits_open hfits ho hq
  | stat pathname =>
    obtain ⟨⟨r, fre⟩, _, hrun⟩ := bind_eq_ok.mp hrun
    cases hrun
    exact hfits q hq
  | close fildes =>
    obtain ⟨⟨r, u⟩, hc, hrun⟩ := bind_eq_ok.mp hrun
    cases hrun
    exact fits_close hfits hok hc hq
  | write fildes buf nbyte => exact fits_write hfits hok hrun hq
  | read fildes buf nbyte =>
    obtain ⟨⟨r, b, u⟩, hrd, hrun⟩ := bind_eq_ok.mp hrun
    cases hrun
    exact fits_read hr hfits hok hrd hq
  | lseek fildes offset whence =>
    obtain ⟨⟨r, u⟩, hl, hrun⟩ := bind_eq_ok.mp hrun
    cases hrun
    exact fits_seek hfits hok hl hq

/-- **The offsets in every state** of a run of such calls. -/
theorem ReachedBy.inside (h : ReachedBy Process.StaysInside s) (hq : s.desc.Reads q) : s.Fits q := by
  obtain ⟨n, hl, hu, disk, seg, hr⟩ := h
  have hall : ReachedBy (fun _ _ => True) s ∧ ∀ q, s.desc.Reads q → s.Fits q :=
    hr.invariant (P := fun s => ReachedBy (fun _ _ => True) s ∧ ∀ q, s.desc.Reads q → s.Fits q)
      ⟨⟨n, hl, hu, disk, seg, GuardedRun.Run.refl _⟩, fun _ ⟨_, _, hb, _⟩ => by cases hb⟩
      fun c u v hP hok hs => ⟨hP.1.step trivial hs, fun q hq => hs.inside hP.1 hP.2 hok hq⟩
  exact hall.2 q hq

/-! ## Reads -/

/-- The reads of `nbyte` bytes through `fildes`: one that does not return -1 starts its copy with no more than the
request and ends it, with the rest of the request padded; and a read leaves the offset inside the size. -/
structure ReadsWithin (s : Process) (fildes : Int) (nbyte : UInt64) : Prop where
  left : ∀ e p, s.OpenOn fildes e p → e.flags ≠ some oWronly →
    ¬AtEnd (s.inodes (s.desc.opFtable p).inodeNr).fileSize (s.desc.opFtable p).offset nbyte.toNat →
    readLeft (s.inodes (s.desc.opFtable p).inodeNr).fileSize (s.desc.opFtable p).offset nbyte.toNat ≤ nbyte.toNat
  copy : ∀ e p now buf, s.OpenOn fildes e p → e.flags ≠ some oWronly →
    ¬AtEnd (s.inodes (s.desc.opFtable p).inodeNr).fileSize (s.desc.opFtable p).offset nbyte.toNat → ∃ c out,
    readCopy (s.desc.opFtable p).inodeNr (s.desc.opFtable p).offset nbyte.toNat buf
      (s.seg.modInode (s.desc.opFtable p).inodeNr fun x => { x with atime := now }) = (c, out) ∧ c.left = 0 ∧
    c.done + readPadded (s.inodes (s.desc.opFtable p).inodeNr).fileSize (s.desc.opFtable p).offset nbyte.toNat =
      nbyte.toNat
  offset : ∀ e p now buf ret out t, s.OpenOn fildes e p → e.flags ≠ some oWronly →
    vsfsRead now fildes buf nbyte s = .ok (ret, out, t) →
    (t.desc.opFtable p).offset ≤ (s.inodes (s.desc.opFtable p).inodeNr).fileSize

theorem atime_fileSize (s : Process) (i now : Nat) :
    ((s.seg.modInode i fun x => { x with atime := now }).inodes i).fileSize = (s.inodes i).fileSize := by
  rw [segments_modInode_self]
  rfl

/-- **The reads of the shared-memory variant** in a state of such a run. -/
theorem readsWithin (h : ReachedBy Process.StaysInside s) (hok : s.StaysInside (.read fildes buf nbyte)) :
    ReadsWithin s fildes nbyte := by
  have hr : ReachedBy (fun _ _ => True) s := h.mono fun _ _ _ => trivial
  have hfits : ∀ e p, s.OpenOn fildes e p → e.flags ≠ some oWronly → s.Fits p := fun e p ho hfl => by
    obtain ⟨b, hfind, hp⟩ := ho
    exact h.inside ⟨b, e, findTarget_node hfind, hp, hfl⟩
  have hsize := fun i => fileSize_le ((ReachedBy.small hr) i)
  refine ⟨fun e p ho hfl hne => ?_, fun e p now buf ho hfl hne => ?_, fun e p now buf ret out t ho hfl hrd => ?_⟩
  · rw [(readLeft_inside (hfits e p ho hfl) (hsize _) (hok e p ho hfl)).1]
    exact Nat.min_le_left ..
  · have hin := atime_fileSize s (s.desc.opFtable p).inodeNr now
    have hended := readCopy_inside (hin.symm ▸ hfits e p ho hfl) (hin.symm ▸ hsize _) (hok e p ho hfl) buf
    obtain ⟨⟨c, out⟩, hr⟩ : ∃ r, readCopy (s.desc.opFtable p).inodeNr (s.desc.opFtable p).offset nbyte.toNat buf
      (s.seg.modInode (s.desc.opFtable p).inodeNr fun x => { x with atime := now }) = r := ⟨_, rfl⟩
    rw [hr, hin] at hended
    obtain ⟨hleft, hdone, -⟩ := hended
    dsimp only at hleft hdone
    refine ⟨c, out, hr, hleft, ?_⟩
    rw [hdone]
    exact (readLeft_inside (hfits e p ho hfl) (hsize _) (hok e p ho hfl)).2
  · obtain ⟨_, rfl, _⟩ | ⟨e', p', pos, ho', _, hd⟩ := vsfsRead_cases hrd
    · exact hfits e p ho hfl
    -- the search finds one descriptor
    obtain ⟨b, hfind, hp⟩ := ho
    obtain ⟨b', hfind', hp'⟩ := ho'
    rw [hfind, Except.ok.injEq, Option.some.injEq, Prod.mk.injEq] at hfind'
    obtain ⟨rfl, rfl⟩ := hfind'
    obtain rfl : p' = p := Option.some.inj (hp'.symm.trans hp)
    have hin := atime_fileSize s (s.desc.opFtable p').inodeNr now
    have ho : s.OpenOn fildes e p' := ⟨b, hfind, hp⟩
    have hle := readDblock_inside (hin.symm ▸ hfits e p' ho hfl) (hin.symm ▸ hsize _) (hok e p' ho hfl) buf
    rw [hd.data, hin] at hle
    rw [hd.result]
    dsimp only
    rw [setOffset_offset]
    exact hle

end Shm

/-! ## Both -/

/-- **Reads compute no negative lengths** in any state of a run whose calls leave the offsets inside the files. -/
theorem reads_within (fildes : Int) (buf : Bytes) (nbyte : UInt64) :
    (∀ s : State, ReachedBy State.StaysInside s → s.StaysInside (.read fildes buf nbyte) →
      ReadsWithin s fildes nbyte) ∧
    ∀ s : Shm.Process, Shm.ReachedBy Shm.Process.StaysInside s → s.StaysInside (.read fildes buf nbyte) →
      Shm.ReadsWithin s fildes nbyte :=
  ⟨fun _ h hok => readsWithin h hok, fun _ h hok => Shm.readsWithin h hok⟩

/-- Ten bytes from the start: of a file that a seek has grown to one byte, and of a new file of one block. -/
theorem reads_within_start :
    (∃ s a f, ReadOn s 1 0 a f ∧ f.size = 1 ∧ (s.desc.opFtable 0).offset = 0 ∧ ReadsWithin s 1 10) ∧
    ∃ s e, Shm.Process.OpenOn s 1 e 0 ∧ e.flags ≠ some oWronly ∧
      (s.inodes (s.desc.opFtable 0).inodeNr).fileSize = 4096 ∧ Shm.ReadsWithin s 1 10 := by
  obtain ⟨hspdk, hshm⟩ := reads_within 1 (fun _ => 0) 10
  constructor
  · have h : (do
        let r ← (Call.creat (letter 0) 0).run 0 (blankVolume 4096)
        let q ← (Call.open (letter 0) oRdwr).run 0 r.2
        let found ← q.2.desc.findTarget 1
        let file ← q.2.desc.fileOf 0
        let g ← (Call.lseek 1 1 seekSet).run 0 q.2
        let b ← (Call.lseek 1 0 seekSet).run 0 g.2
        let found' ← b.2.desc.findTarget 1
        let file' ← b.2.desc.fileOf 0
        .ok (decide (file.2.blocks = 0 ∧ found.any fun x => x.2.ptr = some 0) && found'.any fun x =>
          x.2.ptr = some 0 ∧ x.2.flags = some oRdwr ∧ (b.2.desc.opFtable 0).offset = 0 ∧ file'.2.size = 1) : M Bool) =
            .ok true := by decide +kernel
    obtain ⟨⟨r₁, s₁⟩, hcreat, h⟩ := bind_eq_ok.mp h
    obtain ⟨⟨r₂, s₂⟩, hopen, h⟩ := bind_eq_ok.mp h
    obtain ⟨found₂, hfind₂, h⟩ := bind_eq_ok.mp h
    obtain ⟨⟨a₂, f₂⟩, hfile₂, h⟩ := bind_eq_ok.mp h
    obtain ⟨⟨r₃, s₃⟩, hgrow, h⟩ := bind_eq_ok.mp h
    obtain ⟨⟨r, s⟩, hback, h⟩ := bind_eq_ok.mp h
    obtain ⟨found, hfind, h⟩ := bind_eq_ok.mp h
    obtain ⟨⟨a, f⟩, hfile, h⟩ := bind_eq_ok.mp h
    obtain ⟨hopened, hall⟩ := Bool.and_eq_true_iff.mp (Except.ok.inj h)
    obtain ⟨hblocks₂, hptr₂⟩ := of_decide_eq_true hopened
    obtain ⟨⟨b, e⟩, rfl, hall⟩ := (Option.any_eq_true _ _).mp hall
    obtain ⟨hp, hfl, hofs, hsize⟩ := of_decide_eq_true hall
    obtain ⟨⟨b₂, e₂⟩, rfl, hp₂⟩ := (Option.any_eq_true _ _).mp hptr₂
    have hp₂ := of_decide_eq_true hp₂
    dsimp only at hp hfl hofs hsize hfind hfile hp₂ hfind₂ hfile₂ hblocks₂
    obtain ⟨hfp, hf⟩ := fileOf_eq_ok.mp hfile
    obtain ⟨hfp₂, hf₂⟩ := fileOf_eq_ok.mp hfile₂
    have hr₂ : ReachedBy State.StaysInside s₂ :=
      ((reachedBy_blankVolume (by decide) (by decide)).step (by trivial) ⟨0, r₁, by decide, hcreat⟩).step (by trivial)
        ⟨0, r₂, by decide, hopen⟩
    have hr₃ : ReachedBy State.StaysInside s₃ := by
      refine hr₂.step ?_ ⟨0, r₃, by decide, hgrow⟩
      -- the file object is empty
      rintro e' p' a' f' q ⟨b', hfind', hp'⟩ hfp' hf' - - -
      rw [hfind₂, Except.ok.injEq, Option.some.injEq, Prod.mk.injEq] at hfind'
      obtain ⟨rfl, rfl⟩ := hfind'
      obtain rfl : 0 = p' := Option.some.inj (hp₂.symm.trans hp')
      obtain rfl : a₂ = a' := Option.some.inj (hfp₂.symm.trans hfp')
      obtain rfl : f₂ = f' := Option.some.inj (hf₂.symm.trans hf')
      rw [hblocks₂]
      exact Nat.le_add_left ..
    have hr : ReachedBy State.StaysInside s := by
      refine hr₃.step ?_ ⟨0, r, by decide, hback⟩
      rintro e' p' a' f' q - - - ⟨-, -, hlt⟩
      exact absurd hlt (Nat.not_lt_zero _)
    refine ⟨s, a, f, ⟨⟨e, ⟨b, hfind, hp⟩, by simp [hfl, oRdwr, oWronly]⟩, hfp, hf⟩, hsize, hofs, hspdk s hr ?_⟩
    rintro p _ _ ⟨⟨e', ⟨b', hfind', hp'⟩, -⟩, -, -⟩ -
    rw [hfind, Except.ok.injEq, Option.some.injEq, Prod.mk.injEq] at hfind'
    obtain ⟨rfl, rfl⟩ := hfind'
    obtain rfl : 0 = p := Option.some.inj (hp.symm.trans hp')
    rw [hofs]
    decide
  · have h : (do
        let r ← Shm.run 0 (Call.creat (letter 0) 1) (.start (blankVolume 4096).vol)
        let q ← Shm.run 0 (Call.open (letter 0) oRdwr) r.2
        let found ← q.2.desc.findTarget 1
        .ok (found.any fun x => x.2.ptr = some 0 ∧ x.2.flags = some oRdwr ∧ (q.2.desc.opFtable 0).offset = 0 ∧
          (q.2.inodes (q.2.desc.opFtable 0).inodeNr).fileSize = 4096) : M Bool) = .ok true := by decide +kernel
    obtain ⟨⟨r, s₁⟩, hcreat, h⟩ := bind_eq_ok.mp h
    obtain ⟨⟨r', s⟩, hopen, h⟩ := bind_eq_ok.mp h
    obtain ⟨found, hfind, h⟩ := bind_eq_ok.mp h
    obtain ⟨⟨b, e⟩, rfl, hall⟩ := (Option.any_eq_true _ _).mp (Except.ok.inj h)
    obtain ⟨hp, hfl, hofs, hsize⟩ := of_decide_eq_true hall
    dsimp only at hp hfl hofs hsize hfind
    have hr : Shm.ReachedBy Shm.Process.StaysInside s := by
      refine ((Shm.reachedBy_start (by decide) (by decide)).step ?_ ⟨0, r, by decide, hcreat⟩).step (by trivial)
        ⟨0, r', by decide, hopen⟩
      -- no descriptor is open before
      rintro - - _ _ _ - ⟨_, _, hb, -⟩
      cases hb
    refine ⟨s, e, ⟨b, hfind, hp⟩, by simp [hfl, oRdwr, oWronly], hsize, hshm s hr ?_⟩
    rintro e' p ⟨b', hfind', hp'⟩ -
    rw [hfind, Except.ok.injEq, Option.some.injEq, Prod.mk.injEq] at hfind'
    obtain ⟨rfl, rfl⟩ := hfind'
    obtain rfl : 0 = p := Option.some.inj (hp.symm.trans hp')
    rw [hofs]
    decide

/-- **Reads compute negative lengths**: a byte is read behind the one that has just been written to a new file, where the
file object of the SPDK variant still has the size 0; and behind a second descriptor through which the file has become
shorter in the shared-memory variant. -/
theorem read_wraps :
    (∃ s p a f, Reached s ∧ ReadOn s 1 p a f ∧ f.size ≠ (s.desc.opFtable p).offset ∧
      (∃ t, (Call.read 1 (fun _ => 0) 1).run 0 s = .ok (1, t)) ∧ ¬ReadsWithin s 1 1) ∧
    ∃ s e p, Shm.ReachedBy (fun _ _ => True) s ∧ s.OpenOn 2 e p ∧ e.flags ≠ some oWronly ∧
      ¬Shm.AtEnd (s.inodes (s.desc.opFtable p).inodeNr).fileSize (s.desc.opFtable p).offset 1 ∧
      ¬Shm.ReadsWithin s 2 1 := by
  constructor
  · have h : (do
        let r ← runCalls (openEmpty ++ [.write 1 (fun _ => 97) 1]) (0, blankVolume 4096)
        let found ← r.2.desc.findTarget 1
        let file ← r.2.desc.fileOf 0
        let q ← (Call.read 1 (fun _ => 0) 1).run 0 r.2
        .ok (found.any fun x => x.2.ptr = some 0 ∧ x.2.flags = some oRdwr ∧ (r.2.desc.opFtable 0).offset = 1 ∧
          file.2.size = 0 ∧ q.1 = 1) : M Bool) = .ok true := by decide +kernel
    obtain ⟨⟨r, s⟩, hrun, h⟩ := bind_eq_ok.mp h
    obtain ⟨found, hfind, h⟩ := bind_eq_ok.mp h
    obtain ⟨⟨a, f⟩, hfile, h⟩ := bind_eq_ok.mp h
    obtain ⟨⟨ret, t⟩, hread, h⟩ := bind_eq_ok.mp h
    obtain ⟨⟨b, e⟩, rfl, hall⟩ := (Option.any_eq_true _ _).mp (Except.ok.inj h)
    obtain ⟨hp, hfl, hofs, hsize, hret⟩ := of_decide_eq_true hall
    dsimp only at hp hfl hofs hsize hret hfind hfile hread
    subst hret
    obtain ⟨hfp, hf⟩ := fileOf_eq_ok.mp hfile
    have hon : ReadOn s 1 0 a f := ⟨⟨e, ⟨b, hfind, hp⟩, by simp [hfl, oRdwr, oWronly]⟩, hfp, hf⟩
    have hne : f.size ≠ (s.desc.opFtable 0).offset := by
      rw [hsize, hofs]
      decide
    refine ⟨s, 0, a, f, ReachedBy.runCalls (reachedBy_blankVolume (by decide) (by decide)) hrun, hon, hne,
      ⟨t, hread⟩, fun hw => ?_⟩
    have hleft := hw.left 0 a f hon hne
    rw [hsize, hofs] at hleft
    exact absurd hleft (by decide)
  · have h : (do
        let r ← Shm.runCalls (openEmpty ++ [.open (letter 0) oRdwr, .write 1 (fun _ => 97) 2, .read 2 (fun _ => 0) 2,
          .lseek 1 0 seekSet, .write 1 (fun _ => 97) 1]) (0, .start (blankVolume 4096).vol)
        let found ← r.2.desc.findTarget 2
        .ok (found.any fun x => x.2.ptr = some 1 ∧ x.2.flags = some oRdwr ∧ (r.2.desc.opFtable 1).offset = 2 ∧
          (r.2.inodes (r.2.desc.opFtable 1).inodeNr).fileSize = 1) : M Bool) = .ok true := by decide +kernel
    obtain ⟨⟨r, s⟩, hrun, h⟩ := bind_eq_ok.mp h
    obtain ⟨found, hfind, h⟩ := bind_eq_ok.mp h
    obtain ⟨⟨b, e⟩, rfl, hall⟩ := (Option.any_eq_true _ _).mp (Except.ok.inj h)
    obtain ⟨hp, hfl, hofs, hsize⟩ := of_decide_eq_true hall
    dsimp only at hp hfl hofs hsize hfind
    have hread : e.flags ≠ some oWronly := by simp [hfl, oRdwr, oWronly]
    have hne : ¬Shm.AtEnd (s.inodes (s.desc.opFtable 1).inodeNr).fileSize (s.desc.opFtable 1).offset 1 := by
      rw [hsize, hofs]
      rintro ⟨-, heq⟩
      exact absurd heq (by decide)
    refine ⟨s, e, 1, Shm.ReachedBy.runCalls (Shm.reachedBy_start (by decide) (by decide)) hrun, ⟨b, hfind, hp⟩, hread,
      hne, fun hw => ?_⟩
    have hleft := hw.left e 1 ⟨b, hfind, hp⟩ hread hne
    rw [hsize, hofs] at hleft
    exact absurd hleft (by decide)

end Vsfs
