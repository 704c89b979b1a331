import Vsfs.Volume.OpenFiles
import Vsfs.Volume.Overwrite
import Vsfs.Volume.WriteFrame

/-!
# The size limit

`vsfs_write` compares the end of the write, a sum in 64 bits, with `VSFS_LEVEL3_LIMIT * VSFS_BLOCK_SIZE`, a number
above 4 GiB, and stores the end in 32 bits. A size of 4 GiB is stored as 0 and told from it by the number of blocks.

- `writeLoop_ok_iff`: the blocks that a write needs in the list of the file object;
- `Written.kept`, `Written.lost`: the size that a write leaves;
- `size_limit_iff`: when the check is sound and the stored size is the end of the write.
-/

set_option autoImplicit false

namespace Vsfs

open Function ByteSeq ExceptLib

/-- The rounds of `__write_dblock` go well exactly if the blocks are listed. -/
theorem writeLoop_ok_iff {block : List Nat} {buf : Bytes} {fuel k written offset left : Nat} {v : Volume}
    (hfuel : left ≤ fuel) (ho : offset < 4096) : (∃ w, writeLoop block buf fuel k written offset left v = .ok w) ↔
      left = 0 ∨ 4096 * k + offset + left ≤ 4096 * block.length := by
  induction fuel generalizing k written offset left v with
  | zero =>
    obtain rfl : left = 0 := Nat.le_zero.mp hfuel
    simp [writeLoop]
  | succ fuel ih =>
    by_cases h0 : left = 0
    · subst h0
      simp [writeLoop_zero]
    obtain ⟨hpos, hle, hend, hlast⟩ := roundLength_spec ho h0
    unfold writeLoop
    rw [if_neg h0]
    by_cases hk : k < block.length
    · rw [List.getElem?_eq_getElem hk]
      dsimp only
      rw [ih (by omega) (by decide)]
      omega
    · rw [List.getElem?_eq_none (Nat.not_lt.mp hk)]
      simp only [reduceCtorEq, exists_false, h0, false_or, false_iff]
      omega

/-! ## The SPDK variant -/

section Spdk

variable {s t : State} {fildes ret : Int} {e : FdTable} {p now a : Nat} {buf : Bytes} {nbyte : UInt64} {f : File}
  {v₁ v₂ : Volume}

/-- `vsfs_write` of `nbyte` bytes through slot `p`, by a descriptor that is not `O_RDONLY`, is not rejected. -/
structure State.WritePasses (s : State) (p : Nat) (nbyte : UInt64) : Prop where
  opCounter : s.desc.opCounter = true
  sbCached : s.sbCached ≠ none
  limit : s.desc.writeEnd p nbyte ≤ level3LimitTimesBlockSize

/-- The end of the write is at most 4 GiB, and it is the size afterwards if it was above the size before. -/
structure SizeKept (s : State) (fildes : Int) (p : Nat) (nbyte : UInt64) : Prop where
  sum : (s.desc.opFtable p).offset + nbyte.toNat ≤ 2 ^ 32
  size : ∀ now buf ret t, vsfsWrite now fildes buf nbyte s = .ok (ret, t) →
    (s.vol.inode (s.desc.opFtable p).inodeNr).fileSize < (s.desc.opFtable p).offset + nbyte.toNat →
    (t.vol.inode (s.desc.opFtable p).inodeNr).fileSize = (s.desc.opFtable p).offset + nbyte.toNat

/-- A write that ends at 4 GiB with more blocks than that: no block is added, and the stored size is 0. -/
theorem Written.lost (hw : Written now p buf nbyte s t a f v₁ v₂)
    (hend : s.desc.writeEnd p nbyte = 2 ^ 32) (hb : 2 ^ 20 < (s.vol.inode (s.desc.opFtable p).inodeNr).blocks) :
    (t.vol.inode (s.desc.opFtable p).inodeNr).fileSize = 0 := by
  obtain ⟨hsize, hblocks⟩ := hw.stored
  have hneed := neededBlocks_eq hend.le
  rw [hw.blocks (hend.trans_le (by decide))] at hblocks
  unfold Inode.fileSize
  rw [hsize, hend, if_neg (by omega), Nat.mod_self]

/-- A write that ends below 4 GiB, or at 4 GiB with no more blocks than that, stores its end. -/
theorem Written.kept (hw : Written now p buf nbyte s t a f v₁ v₂) (h0 : 0 < s.desc.writeEnd p nbyte)
    (hend : s.desc.writeEnd p nbyte ≤ 2 ^ 32)
    (hb : s.desc.writeEnd p nbyte = 2 ^ 32 → (s.vol.inode (s.desc.opFtable p).inodeNr).blocks ≤ 2 ^ 20) :
    (t.vol.inode (s.desc.opFtable p).inodeNr).fileSize = s.desc.writeEnd p nbyte := by
  obtain ⟨hsize, hblocks⟩ := hw.stored
  have hneed := neededBlocks_eq hend
  refine fileSize_of hend h0 hsize fun h32 => ?_
  have hle := hb h32
  rw [hblocks, hw.blocks (hend.trans (by decide))]
  omega

/-- **When the size limit does its work**: the write that passes the checks ends at 4 GiB or below, and if it ends at
4 GiB, the file has no more blocks than that, or the file object does not list them. -/
theorem sizeKept_iff {ok : Call → State → Prop} (hr : ReachedBy ok s) (ho : s.OpenOn fildes e p)
    (hfl : e.CanWrite) (hn : 1 ≤ nbyte.toNat) (hpass : s.WritePasses p nbyte) : SizeKept s fildes p nbyte ↔
      (s.desc.opFtable p).offset + nbyte.toNat ≤ 2 ^ 32 ∧
        ((s.desc.opFtable p).offset + nbyte.toNat = 2 ^ 32 →
          (s.vol.inode (s.desc.opFtable p).inodeNr).blocks ≤ 2 ^ 20 ∨
            ¬∃ a f, (s.desc.opFtable p).filePtr = some a ∧ s.desc.files a = some f ∧ 2 ^ 20 ≤ f.block.length) := by
  have hbs : blockSize = 4096 := rfl
  obtain ⟨hdesc, hfits⟩ := hr.small
  have hallowed : WriteAllowed s e p nbyte := ⟨hpass.opCounter, hfl, hpass.sbCached, hpass.limit, hdesc.inode p⟩
  have hdata : ∀ {f : File} {v : Volume} {buf : Bytes}, (s.desc.opFtable p).offset + nbyte.toNat ≤ 2 ^ 32 →
      ((∃ w, writeDblock f (s.desc.opFtable p).offset nbyte.toNat buf v = .ok w) ↔
        (s.desc.opFtable p).offset + nbyte.toNat ≤ 4096 * f.block.length) := by
    intro f v buf hsum
    unfold writeDblock
    rw [hbs, Nat.mod_eq_of_lt (by omega : (s.desc.opFtable p).offset / 4096 < 2 ^ 32),
      writeLoop_ok_iff (Nat.le_refl _) (Nat.mod_lt _ (by decide))]
    omega
  constructor
  · rintro ⟨hsum, hsize⟩
    refine ⟨hsum, fun h32 => ?_⟩
    by_contra hno
    obtain ⟨hb, hno⟩ := not_or.mp hno
    obtain ⟨a, f, hfp, hf, hlen⟩ := not_not.mp hno
    have hend : s.desc.writeEnd p nbyte = 2 ^ 32 := (Nat.mod_eq_of_lt (by omega)).trans h32
    have hneed := neededBlocks_eq (Nat.le_of_eq hend)
    -- the write is made without an allocation, and stores 0
    obtain ⟨w, hw⟩ := (@hdata { f with atime := 0, mtime := 0 } (s.vol.modInode (s.desc.opFtable p).inodeNr
      fun x => { x with atime := 0, mtime := 0 }) (fun _ => 0) hsum).mpr (by dsimp only; omega)
    have hwritten : Written 0 p (fun _ => 0) nbyte s _ a f s.vol w :=
      ⟨hfp, Or.inr ⟨by omega, rfl, hf⟩, hw, rfl⟩
    have hz := hwritten.lost hend (by omega)
    have hsmall : (s.vol.inode (s.desc.opFtable p).inodeNr).fileSize < 2 ^ 32 := by
      have := (hfits (s.desc.opFtable p).inodeNr).size
      unfold Inode.fileSize
      rw [if_neg (by omega)]
      exact this
    have hkept := hsize _ _ _ _ (hwritten.run ho hallowed) (by omega)
    omega
  · rintro ⟨hsum, h32⟩
    refine ⟨hsum, fun now buf ret t ht hlt => ?_⟩
    have hend : s.desc.writeEnd p nbyte = (s.desc.opFtable p).offset + nbyte.toNat := Nat.mod_eq_of_lt (by omega)
    obtain ⟨b, hfind, hp⟩ := ho
    obtain ⟨-, -, a, f, v₁, v₂, hw⟩ :=
      vsfsWrite_written hfind hp hpass.opCounter hfl hpass.sbCached hpass.limit ht
    rw [← hend]
    refine hw.kept (by omega) (by omega) fun hend32 => ?_
    rcases h32 (by omega) with hb | hno
    · exact hb
    · -- the rounds have found the last block in the list
      by_contra hb
      have hneed := neededBlocks_eq (Nat.le_of_eq hend32)
      rcases hw.alloc with ⟨hle, -⟩ | ⟨-, -, hf⟩
      · omega
      · have hlen := (hdata hsum).mp ⟨_, hw.data⟩
        dsimp only at hlen
        exact hno ⟨a, f, hw.filePtr, hf, by omega⟩

/-- The size of a file that has only been created. -/
theorem creat_fileSize {name : CStr} {blockNum : UInt32} {i : Nat} {c : Cached}
    (h : vsfsCreat now name blockNum s = .ok (0, t)) (hi : getFreeInode s.vol.cached = .ok (i, c)) :
    (t.vol.inode i).fileSize = if blockNum.toNat = 2 ^ 20 then 2 ^ 32 else 0 := by
  have hadded : ∀ {d n : Nat} {v w : Volume}, addingEntry now name blockNum.toNat i d n v = .ok w →
      (w.inode i).fileSize = if blockNum.toNat = 2 ^ 20 then 2 ^ 32 else 0 := by
    intro d n v w ha
    unfold addingEntry at ha
    split at ha
    case isTrue => cases ha
    case isFalse =>
    obtain ⟨x, -, ha⟩ := bind_eq_ok.mp ha
    obtain ⟨⟨r, u⟩, -, ha⟩ := bind_eq_ok.mp ha
    cases ha
    rw [modInode_inode_self]
    unfold Inode.fileSize
    simp
  obtain ⟨hret, -⟩ | ⟨-, -, j, c', hj, he⟩ := vsfsCreat_cases h
  · omega
  rw [hi] at hj
  cases hj
  cases he with
  | slot _ ha ht =>
    rw [ht]
    exact hadded ha
  | grow _ _ _ ha ht =>
    rw [ht]
    exact hadded ha

end Spdk

/-! ## The shared-memory variant -/

namespace Shm

variable {s t : Process} {fildes ret : Int} {e : FdTable} {p now pos ino n : Nat} {buf : Bytes} {nbyte : UInt64}
  {u u' : Segments}

/-- `vsfs_write` of `nbyte` bytes through slot `p`, by a descriptor that is not `O_RDONLY`, is not rejected. -/
structure Process.WritePasses (s : Process) (p : Nat) (nbyte : UInt64) : Prop where
  sb : s.sb = true
  opCounter : s.desc.opCounter = true
  sbCached : s.sbCached = true
  limit : s.desc.writeEnd p nbyte ≤ level3LimitTimesBlockSize

/-- The end of the write is at most 4 GiB, and it is the size afterwards if it was above the size before. -/
structure SizeKept (s : Process) (fildes : Int) (p : Nat) (nbyte : UInt64) : Prop where
  sum : (s.desc.opFtable p).offset + nbyte.toNat ≤ 2 ^ 32
  size : ∀ now buf ret t, vsfsWrite now fildes buf nbyte s = .ok (ret, t) →
    (s.inodes (s.desc.opFtable p).inodeNr).fileSize < (s.desc.opFtable p).offset + nbyte.toNat →
    (t.inodes (s.desc.opFtable p).inodeNr).fileSize = (s.desc.opFtable p).offset + nbyte.toNat

/-- The copy ends at the end of the write. -/
theorem writeDblock_pos (ino : Nat) (buf : Bytes) (u : Segments) (h : pos + n ≤ level3LimitTimesBlockSize) :
    (writeDblock ino pos n buf u).2.1 = pos + n := by
  have hend := throughMap_done id (copyIn buf) ino u h rfl
  unfold writeDblock
  obtain ⟨⟨c, w⟩, hr⟩ : ∃ r, throughMap id (copyIn buf) ino (.start pos n) u = r := ⟨_, rfl⟩
  rw [hr] at hend ⊢
  exact hend.2.2

/-- The size and the blocks that a write leaves. -/
theorem Written.stored (hw : Written now p buf nbyte ret s t u u' pos)
    (hsum : (s.desc.opFtable p).offset + nbyte.toNat ≤ 2 ^ 32) :
    (t.inodes (s.desc.opFtable p).inodeNr).size = ((s.desc.opFtable p).offset + nbyte.toNat) % 2 ^ 32 ∧
      (t.inodes (s.desc.opFtable p).inodeNr).blocks = (u.inodes (s.desc.opFtable p).inodeNr).blocks := by
  have hmax : level3LimitTimesBlockSize = 4294972465 := rfl
  obtain ⟨hsize, hblocks⟩ := hw.inodes (s.desc.opFtable p).inodeNr
  have hpos := writeDblock_pos (s.desc.opFtable p).inodeNr buf
    (u.modInode (s.desc.opFtable p).inodeNr fun x => { x with atime := now, mtime := now })
    (by omega : (s.desc.opFtable p).offset + nbyte.toNat ≤ level3LimitTimesBlockSize)
  rw [hw.data] at hpos
  rw [if_pos rfl, show pos = _ from hpos] at hsize
  exact ⟨hsize, hblocks⟩

/-- A write that ends at 4 GiB with more blocks than that: no block is added, and the stored size is 0. -/
theorem Written.lost (hw : Written now p buf nbyte ret s t u u' pos)
    (hend : (s.desc.opFtable p).offset + nbyte.toNat = 2 ^ 32)
    (hb : 2 ^ 20 < (s.inodes (s.desc.opFtable p).inodeNr).blocks) :
    (t.inodes (s.desc.opFtable p).inodeNr).fileSize = 0 := by
  obtain ⟨hsize, hblocks⟩ := hw.stored hend.le
  have hfin : s.desc.writeEnd p nbyte = 2 ^ 32 := (Nat.mod_eq_of_lt (by omega)).trans hend
  have hneed := neededBlocks_eq hfin.le
  rw [hw.blocks (hfin.trans_le (by decide))] at hblocks
  unfold Inode.fileSize
  rw [hsize, hend, if_neg (by omega), Nat.mod_self]

/-- A write that ends below 4 GiB, or at 4 GiB with no more blocks than that, stores its end. -/
theorem Written.kept (hw : Written now p buf nbyte ret s t u u' pos)
    (h0 : 0 < (s.desc.opFtable p).offset + nbyte.toNat) (hsum : (s.desc.opFtable p).offset + nbyte.toNat ≤ 2 ^ 32)
    (hb : (s.desc.opFtable p).offset + nbyte.toNat = 2 ^ 32 →
      (s.inodes (s.desc.opFtable p).inodeNr).blocks ≤ 2 ^ 20) :
    (t.inodes (s.desc.opFtable p).inodeNr).fileSize = (s.desc.opFtable p).offset + nbyte.toNat := by
  obtain ⟨hsize, hblocks⟩ := hw.stored hsum
  have hfin : s.desc.writeEnd p nbyte = (s.desc.opFtable p).offset + nbyte.toNat := Nat.mod_eq_of_lt (by omega)
  have hneed := neededBlocks_eq (hfin.trans_le hsum)
  refine fileSize_of hsum h0 hsize fun h32 => ?_
  have hle := hb h32
  rw [hblocks, hw.blocks (hfin.trans_le (hsum.trans (by decide)))]
  omega

/-- **When the size limit does its work.** -/
theorem sizeKept_iff {ok : Call → Process → Prop} (hr : ReachedBy ok s) (ho : s.OpenOn fildes e p)
    (hfl : e.CanWrite) (hn : 1 ≤ nbyte.toNat) (hpass : s.WritePasses p nbyte) : SizeKept s fildes p nbyte ↔
      (s.desc.opFtable p).offset + nbyte.toNat ≤ 2 ^ 32 ∧
        ((s.desc.opFtable p).offset + nbyte.toNat = 2 ^ 32 →
          (s.inodes (s.desc.opFtable p).inodeNr).blocks ≤ 2 ^ 20 ∨ nrInodes ≤ (s.desc.opFtable p).inodeNr) := by
  have hsmall := hr.small
  constructor
  · rintro ⟨hsum, hsize⟩
    refine ⟨hsum, fun h32 => ?_⟩
    by_contra hno
    obtain ⟨hb, hi⟩ := not_or.mp hno
    have hallowed : WriteAllowed s e p nbyte :=
      ⟨hpass.sb, hpass.opCounter, hfl, hpass.sbCached, hpass.limit, Nat.not_le.mp hi⟩
    have hend : s.desc.writeEnd p nbyte = 2 ^ 32 := (Nat.mod_eq_of_lt (by omega)).trans h32
    have hneed := neededBlocks_eq (Nat.le_of_eq hend)
    -- the write is made without an allocation, and stores 0
    obtain ⟨⟨ret, pos, u'⟩, hd⟩ : ∃ r, writeDblock (s.desc.opFtable p).inodeNr (s.desc.opFtable p).offset nbyte.toNat
        (fun _ => 0) (s.seg.modInode (s.desc.opFtable p).inodeNr fun x => { x with atime := 0, mtime := 0 }) = r :=
      ⟨_, rfl⟩
    have hwritten : Written 0 p (fun _ => 0) nbyte ret s _ s.seg u' pos := ⟨Or.inr ⟨by omega, rfl⟩, hd, rfl⟩
    have hz := hwritten.lost h32 (by omega)
    have hlt : (s.inodes (s.desc.opFtable p).inodeNr).fileSize < 2 ^ 32 := by
      have := hsmall (s.desc.opFtable p).inodeNr
      unfold Inode.fileSize
      rw [if_neg (by omega)]
      exact this
    have hkept := hsize _ _ _ _ ((vsfsWrite_written ho hallowed).mpr ⟨_, _, _, hwritten⟩) (by omega)
    omega
  · rintro ⟨hsum, h32⟩
    refine ⟨hsum, fun now buf ret t ht hlt => ?_⟩
    by_cases hi : (s.desc.opFtable p).inodeNr < nrInodes
    · have hallowed : WriteAllowed s e p nbyte :=
        ⟨hpass.sb, hpass.opCounter, hfl, hpass.sbCached, hpass.limit, hi⟩
      obtain ⟨u, u', pos, hw⟩ := (vsfsWrite_written ho hallowed).mp ht
      refine hw.kept (by omega) hsum fun hend => ?_
      rcases h32 hend with hb | hge
      · exact hb
      · omega
    · -- the inode is not in the table
      obtain ⟨b, hfind, hp⟩ := ho
      have hlim := hpass.limit
      have hquot : ¬0x100000000 < s.desc.writeEnd p nbyte / blockSize := by
        unfold level3LimitTimesBlockSize at hlim
        unfold blockSize
        omega
      have hfin : ((s.desc.opFtable p).offset + nbyte.toNat) % 2 ^ 64 = s.desc.writeEnd p nbyte := rfl
      unfold vsfsWrite at ht
      rw [hfind, ok_bind] at ht
      dsimp only at ht
      rw [slot_eq_ok.mpr hp, ok_bind] at ht
      simp only [hfin] at ht
      obtain ⟨fl, hset, hne⟩ := hfl
      rw [if_neg (by simp [hpass.sb]), if_neg (by simp [hpass.opCounter]), accessMode_eq_ok.mpr hset, ok_bind,
        if_neg hne, if_neg (by simp [hpass.sbCached]), if_neg (by omega), if_neg hquot,
        if_pos (Nat.not_lt.mp hi)] at ht
      cases ht

end Shm

/-! ## Both -/

/-- **The size limit**: a write that passes the checks ends at 4 GiB or below and its end is the size afterwards; and
the size of a file that has only been created is 0. -/
theorem size_limit_iff (fildes : Int) (p : Nat) {nbyte : UInt64} (hn : 1 ≤ nbyte.toNat) :
    (∀ (s : State) (e : FdTable), Reached s → s.OpenOn fildes e p → e.CanWrite →
      ((s.WritePasses p nbyte → SizeKept s fildes p nbyte) ↔
        (s.WritePasses p nbyte → (s.desc.opFtable p).offset + nbyte.toNat ≤ 2 ^ 32 ∧
          ((s.desc.opFtable p).offset + nbyte.toNat = 2 ^ 32 →
            (s.vol.inode (s.desc.opFtable p).inodeNr).blocks ≤ 2 ^ 20 ∨
              ¬∃ a f, (s.desc.opFtable p).filePtr = some a ∧ s.desc.files a = some f ∧ 2 ^ 20 ≤ f.block.length)))) ∧
    (∀ (s : Shm.Process) (e : FdTable), Shm.ReachedBy (fun _ _ => True) s → s.OpenOn fildes e p →
      e.CanWrite →
      ((s.WritePasses p nbyte → Shm.SizeKept s fildes p nbyte) ↔
        (s.WritePasses p nbyte → (s.desc.opFtable p).offset + nbyte.toNat ≤ 2 ^ 32 ∧
          ((s.desc.opFtable p).offset + nbyte.toNat = 2 ^ 32 →
            (s.inodes (s.desc.opFtable p).inodeNr).blocks ≤ 2 ^ 20 ∨ nrInodes ≤ (s.desc.opFtable p).inodeNr)))) ∧
    ∀ (s t : State) (now : Nat) (name : CStr) (blockNum : UInt32) (i : Nat) (c : Cached), Reached s →
      vsfsCreat now name blockNum s = .ok (0, t) → getFreeInode s.vol.cached = .ok (i, c) →
      ((t.vol.inode i).fileSize = 0 ↔ blockNum.toNat ≠ 2 ^ 20) := by
  refine ⟨?_, ?_, ?_⟩
  · intro s e hr ho hfl
    exact imp_congr_right fun hpass => sizeKept_iff hr ho hfl hn hpass
  · intro s e hr ho hfl
    exact imp_congr_right fun hpass => Shm.sizeKept_iff hr ho hfl hn hpass
  · intro s t now name blockNum i c _ h hi
    rw [creat_fileSize h hi]
    by_cases hk : blockNum.toNat = 2 ^ 20 <;> simp [hk]

/-- The first byte of a file, and a file that has only been created. -/
theorem size_limit_iff_first :
    (∃ s : State, SizeKept s 1 0 1) ∧ (∃ s : Shm.Process, Shm.SizeKept s 1 0 1) ∧
      ∃ t, vsfsCreat 0 (letter 0) 0 (blankVolume 4096) = .ok (0, t) ∧ (t.vol.inode 1).fileSize = 0 := by
  obtain ⟨hspdk, hshm, hcreat⟩ := size_limit_iff 1 0 (show 1 ≤ (1 : UInt64).toNat by decide)
  refine ⟨?_, ?_, ?_⟩
  · obtain ⟨s, e, h, ho, hr, hofs, -⟩ := opened_empty
    have hend : s.desc.writeEnd 0 1 ≤ level3LimitTimesBlockSize := by
      unfold Desc.writeEnd
      rw [hofs]
      decide
    refine ⟨s, (hspdk s e (h.mono fun _ _ _ => trivial) ho hr.flags).mpr ?_
      ⟨hr.opCounter, hr.sbCached, hend⟩⟩
    intro _
    rw [hofs]
    exact ⟨by decide, fun h => absurd h (by decide)⟩
  · obtain ⟨s, e, h, ho, ha, -, hofs, -⟩ := Shm.opened_empty
    refine ⟨s, (hshm s e (h.mono fun _ _ _ => trivial) ho ha.flags).mpr ?_
      ⟨ha.sb, ha.opCounter, ha.sbCached, ha.limit⟩⟩
    intro _
    rw [hofs]
    exact ⟨by decide, fun h => absurd h (by decide)⟩
  · have h : (do
        let r ← vsfsCreat 0 (letter 0) 0 (blankVolume 4096)
        let x ← getFreeInode (blankVolume 4096).vol.cached
        .ok (decide (r.1 = 0 ∧ x.1 = 1)) : M Bool) = .ok true := by decide +kernel
    obtain ⟨⟨r, t⟩, hc, h⟩ := bind_eq_ok.mp h
    obtain ⟨⟨i, c⟩, hi, h⟩ := bind_eq_ok.mp h
    obtain ⟨rfl, rfl⟩ := of_decide_eq_true (Except.ok.inj h)
    exact ⟨t, hc, (hcreat _ _ _ _ _ _ _ (reachedBy_blankVolume (by decide) (by decide)) hc hi).mpr (by decide)⟩

/-- **A write past 4 GiB passes the checks**: from the start of an empty file, one byte more than 4 GiB. -/
theorem limit_lets_pass :
    (∃ s e, Reached s ∧ s.OpenOn 1 e 0 ∧ e.CanWrite ∧ s.WritePasses 0 4294967297 ∧
      ¬SizeKept s 1 0 4294967297) ∧
    ∃ s e, Shm.ReachedBy (fun _ _ => True) s ∧ s.OpenOn 1 e 0 ∧ e.CanWrite ∧ s.WritePasses 0 4294967297 ∧
      ¬Shm.SizeKept s 1 0 4294967297 := by
  constructor
  · obtain ⟨s, e, h, ho, hr, hofs, -⟩ := opened_empty
    have hend : s.desc.writeEnd 0 4294967297 ≤ level3LimitTimesBlockSize := by
      unfold Desc.writeEnd
      rw [hofs]
      decide
    refine ⟨s, e, h.mono fun _ _ _ => trivial, ho, hr.flags, ⟨hr.opCounter, hr.sbCached, hend⟩, fun hkept => ?_⟩
    have hsum := hkept.sum
    rw [hofs] at hsum
    exact absurd hsum (by decide)
  · obtain ⟨s, e, h, ho, ha, -, hofs, -⟩ := Shm.opened_empty
    have hend : s.desc.writeEnd 0 4294967297 ≤ level3LimitTimesBlockSize := by
      unfold Desc.writeEnd
      rw [hofs]
      decide
    refine ⟨s, e, h.mono fun _ _ _ => trivial, ho, ha.flags, ⟨ha.sb, ha.opCounter, ha.sbCached, hend⟩, fun hkept => ?_⟩
    have hsum := hkept.sum
    rw [hofs] at hsum
    exact absurd hsum (by decide)

end Vsfs
