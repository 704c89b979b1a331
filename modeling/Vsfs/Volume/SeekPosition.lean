import Vsfs.Model.Dblock
import Vsfs.Volume.OpenFiles
import Vsfs.Volume.Supply
import Vsfs.Volume.WriteFrame

/-!
# Where a seek goes

The position that `vsfs_lseek` is asked for is the argument, or the offset or the size plus the argument read as a
number with a sign. The code adds in 64 bits. The SPDK variant compares with `file_ptr->size`, which a write does not
set; the shared-memory variant compares with the decoded size but counts from the stored one; and `SEEK_END` moves the
offset before its check.

- `seekResult_target`: when a seek goes to a position inside the file;
- `seekResult_keeps`: when a seek that fails leaves the offset;
- `seeks_sound_iff`: when every seek inside the file goes there and every one that fails changes nothing.
-/

set_option autoImplicit false

namespace Vsfs

open Function ByteSeq ExceptLib

/-! ## Positions -/

/-- The position that a seek asks for, in a file of `size` bytes with the offset `pos`. -/
def seekTarget (whence : Int) (offset pos size : Nat) : Option Int :=
  if whence = seekSet then some offset
  else if whence = seekEnd then some (size + toInt64 offset)
  else if whence = seekCur then some (pos + toInt64 offset)
  else none

/-- The argument read with its sign. -/
theorem toInt64_spec {v : Nat} (hv : v < 2 ^ 64) : toInt64 v = v ∧ v < 2 ^ 63 ∨ toInt64 v = v - 2 ^ 64 ∧ 2 ^ 63 ≤ v := by
  unfold toInt64
  rw [Nat.mod_eq_of_lt hv]
  split
  · exact Or.inl ⟨rfl, ‹_›⟩
  · exact Or.inr ⟨by omega, by omega⟩

/-- The position that a seek asks for is inside the file. -/
def SeekInside (whence : Int) (offset pos size : Nat) : Prop :=
  ∃ t, seekTarget whence offset pos size = some t ∧ 0 ≤ t ∧ t ≤ size

/-- A sum in 64 bits is the sum with the sign, if that is in range, and no other sum. -/
theorem add_wrap_iff {a v n : Nat} (hv : v < 2 ^ 64) (ha : a ≤ 2 ^ 32) (hn : n ≤ 2 ^ 32) :
    (a + v) % 2 ^ 64 = n ↔ (a : Int) + toInt64 v = n := by
  rcases toInt64_spec hv with ⟨h, hlt⟩ | ⟨h, hle⟩ <;> rw [h] <;> omega

section

variable {whence t : Int} {v size base pos whole : Nat}

/-- **A seek to a position inside the file** gets there if the size that it compares with lets it pass, and if
`SEEK_END` counts from the size of the file. -/
theorem seekResult_target (hv : v < 2 ^ 64) (hwhole : whole ≤ 2 ^ 32) (hbase : base ≤ 2 ^ 32)
    (ht : seekTarget whence v pos whole = some t) (h0 : 0 ≤ t) (hle : t ≤ whole) :
    seekResult whence v size base pos = (t.toNat, t.toNat) ↔
      (whence = seekCur → t ≤ size) ∧ (whence = seekEnd → base = whole ∧ t ≤ size) := by
  have herr : seekError = 2 ^ 64 - 1 := rfl
  obtain ⟨n, rfl⟩ := Int.eq_ofNat_of_zero_le h0
  have hn : n ≤ 2 ^ 32 := by omega
  have hne : ∀ q : Nat, (seekError, q) ≠ (n, n) := fun q h => by
    have := (Prod.mk.inj h).1
    omega
  rw [Int.toNat_natCast]
  unfold seekTarget at ht
  unfold seekResult
  by_cases hset : whence = seekSet
  · have hc : whence ≠ seekCur := by rw [hset]; decide
    have he : whence ≠ seekEnd := by rw [hset]; decide
    rw [if_pos hset, Option.some.injEq] at ht
    rw [if_pos hset, if_neg (by omega), show v = n by omega]
    simp [hc, he]
  rw [if_neg hset] at ht
  rw [if_neg hset]
  by_cases hend : whence = seekEnd
  · have hc : whence ≠ seekCur := by rw [hend]; decide
    rw [if_pos hend, Option.some.injEq] at ht
    simp only [hend, if_true, true_implies, show seekEnd ≠ seekCur by decide, false_implies, true_and]
    have hsum := add_wrap_iff (n := n) hv hbase hn
    split
    case isTrue hlt =>
      refine iff_of_false (hne base) ?_
      rintro ⟨rfl, hsize⟩
      have := hsum.mpr ht
      omega
    case isFalse hge =>
      rw [Prod.mk.injEq, and_self, hsum]
      constructor
      · intro h
        have := hsum.mpr h
        omega
      · rintro ⟨rfl, -⟩
        exact ht
  rw [if_neg hend] at ht
  rw [if_neg hend]
  by_cases hcur : whence = seekCur
  · rw [if_pos hcur, Option.some.injEq] at ht
    have hsum : (pos + v) % 2 ^ 64 = n := by
      rcases toInt64_spec hv with ⟨h, hlt⟩ | ⟨h, hle⟩ <;> rw [h] at ht <;> omega
    simp only [hcur, if_true, true_implies, show seekCur ≠ seekEnd by decide, false_implies, and_true, hsum]
    split
    case isTrue hlt => exact iff_of_false (hne pos) (by omega)
    case isFalse hge => exact iff_of_true rfl (by omega)
  · rw [if_neg hcur] at ht
    cases ht

/-- What returns the position returns it as the offset. -/
theorem seekResult_fst {n : Nat} (h : (seekResult whence v size base pos).1 = n) (hn : n ≤ 2 ^ 32) :
    seekResult whence v size base pos = (n, n) := by
  have herr : seekError = 2 ^ 64 - 1 := rfl
  unfold seekResult at h ⊢
  split_ifs at h ⊢ <;> dsimp only at h <;> first | omega | rw [h]

/-- **A seek that fails** leaves the offset, but for `SEEK_END`, which has moved it. -/
theorem seekResult_keeps (hsize : size ≤ 2 ^ 32) :
    ((seekResult whence v size base pos).1 = seekError → (seekResult whence v size base pos).2 = pos) ↔
      (whence = seekEnd → size < (base + v) % 2 ^ 64 → base = pos) := by
  have herr : seekError = 2 ^ 64 - 1 := rfl
  unfold seekResult
  by_cases hset : whence = seekSet
  · have he : whence ≠ seekEnd := by rw [hset]; decide
    simp only [if_pos hset, he, false_implies, iff_true]
    split
    · exact fun _ => rfl
    · intro h
      dsimp only at h
      omega
  rw [if_neg hset]
  by_cases hend : whence = seekEnd
  · rw [if_pos hend]
    simp only [hend, true_implies]
    split
    case isTrue hlt => exact ⟨fun h _ => h rfl, fun h _ => h hlt⟩
    case isFalse hge =>
      simp only [hge, false_implies, iff_true]
      intro h
      omega
  rw [if_neg hend]
  simp only [hend, false_implies, iff_true]
  split
  · split
    · exact fun _ => rfl
    · intro h
      dsimp only at h
      omega
  · exact fun _ => rfl

end

/-! ## The SPDK variant -/

section Spdk

variable {s t : State} {fildes whence : Int} {e : FdTable} {p : Nat} {offset : UInt64}

/-- A seek of `fildes`, which is open on slot `p`, to a position inside the file goes there, and one that fails leaves
the offset, the size and the blocks of the file, and the bitmaps. -/
structure SeekSound (s : State) (fildes : Int) (p : Nat) (offset : UInt64) (whence : Int) : Prop where
  reached : ∀ t, seekTarget whence offset.toNat (s.desc.opFtable p).offset
      (s.vol.inode (s.desc.opFtable p).inodeNr).fileSize = some t → 0 ≤ t →
    t ≤ (s.vol.inode (s.desc.opFtable p).inodeNr).fileSize →
      ∃ u, vsfsLseek fildes offset whence s = .ok (t.toNat, u) ∧ (u.desc.opFtable p).offset = t.toNat
  rejected : ∀ u, vsfsLseek fildes offset whence s = .ok (seekError, u) →
    (u.desc.opFtable p).offset = (s.desc.opFtable p).offset ∧
      (u.vol.inode (s.desc.opFtable p).inodeNr).size = (s.vol.inode (s.desc.opFtable p).inodeNr).size ∧
      (u.vol.inode (s.desc.opFtable p).inodeNr).blocks = (s.vol.inode (s.desc.opFtable p).inodeNr).blocks ∧
      u.vol.cached.ibitmap = s.vol.cached.ibitmap ∧ u.vol.cached.dbitmap = s.vol.cached.dbitmap

/-- The growth of a file with the file object `f` to `n` bytes ends well: the cached data are there, the inode is left
with no more blocks than `vsfs_get_inode_info` can list, and the bitmap is not left by the calls of the allocator. -/
structure GrowthEnds (s : State) (p n : Nat) (f : File) : Prop where
  sbCached : s.sbCached ≠ none
  limit : (s.vol.inode (s.desc.opFtable p).inodeNr).blocks + sub32 (neededBlocks n) f.blocks ≤ 1048625
  takes : ∃ c, Takes (fun _ => True) c
    (allocTakes (s.vol.inode (s.desc.opFtable p).inodeNr).blocks (sub32 (neededBlocks n) f.blocks)) s.vol.cached

/-- The blocks that the inode has after a growth: what it asks for, as the file object can list them. -/
theorem SeekGrown.blocks {a : Nat} {f info : File} {v : Volume}
    (hb : (s.vol.inode (s.desc.opFtable p).inodeNr).blocks < 2 ^ 32) (h : SeekGrown p offset s t a f info v) :
    (v.inode (s.desc.opFtable p).inodeNr).blocks =
      (s.vol.inode (s.desc.opFtable p).inodeNr).blocks + sub32 (neededBlocks offset.toNat) f.blocks ∧
    (s.vol.inode (s.desc.opFtable p).inodeNr).blocks + sub32 (neededBlocks offset.toNat) f.blocks ≤ 1048625 := by
  have hlim : level3Limit = 1053745 := rfl
  obtain ⟨r, hal⟩ := h.alloc
  have hlimit := (vsfsGetInodeInfo_spec h.copy).limit
  obtain ⟨hlt, -⟩ := allocLeft_spec (n := sub32 (neededBlocks offset.toNat) f.blocks) hb
  have hblocks := (allocBlock_count hal).blocks hlt
  rw [hblocks] at hlimit
  have hmin : min (sub32 (neededBlocks offset.toNat) f.blocks)
      (allocLeft (s.vol.inode (s.desc.opFtable p).inodeNr).blocks) = sub32 (neededBlocks offset.toNat) f.blocks := by
    rw [allocLeft_of_le (by omega)] at hlimit ⊢
    omega
  rw [hmin] at hblocks hlimit
  exact ⟨hblocks, hlimit⟩

theorem growthEnds_iff {a : Nat} {f : File} (hi : (s.desc.opFtable p).inodeNr < nrInodes)
    (hb : (s.vol.inode (s.desc.opFtable p).inodeNr).blocks < 2 ^ 32) (hg : SeekGrows f offset whence) :
    (∃ t info v, SeekGrown p offset s t a f info v) ↔ GrowthEnds s p offset.toNat f := by
  have hlim : level3Limit = 1053745 := rfl
  constructor
  · rintro ⟨t, info, v, hgrown⟩
    obtain ⟨r, hal⟩ := hgrown.alloc
    obtain ⟨-, hlimit⟩ := hgrown.blocks hb
    exact ⟨hgrown.sbCached, hlimit, _, allocBlock_calls (by omega) hal⟩
  · rintro ⟨hsb, hlimit, c, htakes⟩
    obtain ⟨v, hv, -⟩ : ∃ v, allocBlock s.vol.cached.sbi.ofsDregion _ _ s.vol = .ok (0, v) ∧ _ :=
      allocBlock_takes hi (by omega) htakes
    have hblocks : (v.inode (s.desc.opFtable p).inodeNr).blocks ≤ 1048625 := by
      have hmin := allocLeft_of_le (b := (s.vol.inode (s.desc.opFtable p).inodeNr).blocks) (by omega)
      have hcount := allocBlock_count hv
      rw [hcount.blocks (by omega)]
      omega
    obtain ⟨info, hinfo⟩ := vsfsGetInodeInfo_ok hi hblocks
    exact ⟨_, info, v, hg.2.1, hg.2.2, hsb, ⟨0, hv⟩, hinfo, rfl⟩

/-- What a seek through slot `p` to a position inside the file needs: the file object is there; if the seek grows the
file it can do so; and the size in the file object lets it pass, or is that of the file if it counts from there. -/
def State.SeekReaches (s : State) (p : Nat) (offset : UInt64) (whence : Int) : Prop :=
  ∃ a f, Seekable s p a f ∧ (SeekGrows f offset whence → GrowthEnds s p offset.toNat f) ∧
    (whence = seekCur → (s.desc.opFtable p).offset + toInt64 offset.toNat ≤ f.size) ∧
    (whence = seekEnd → f.size = (s.vol.inode (s.desc.opFtable p).inodeNr).fileSize)

section

variable (hr : Reached s) (ho : s.OpenOn fildes e p)

include hr ho in
theorem Reached.opCounter : s.desc.opCounter = true := by
  obtain ⟨b, hfind, hp⟩ := ho
  exact (ReachedBy.listed hr).opCounter_of_isOpen ⟨_, p, opened_of_findTarget hfind hp, rfl⟩

include hr ho in
/-- **`vsfs_lseek` of the SPDK variant** is sound exactly if a seek inside the file has what it needs, and `SEEK_END` past
the size in the file object starts at this size. -/
theorem seekSound_iff : SeekSound s fildes p offset whence ↔
    (SeekInside whence offset.toNat (s.desc.opFtable p).offset
      (s.vol.inode (s.desc.opFtable p).inodeNr).fileSize → s.SeekReaches p offset whence) ∧
    (whence = seekEnd → ∀ a f, Seekable s p a f → f.size < (f.size + offset.toNat) % 2 ^ 64 →
      f.size = (s.desc.opFtable p).offset) := by
  have herr : seekError = 2 ^ 64 - 1 := rfl
  obtain ⟨hsmall, hfits⟩ := ReachedBy.small hr
  have hv := offset.toNat_lt
  have hwhole := fileSize_le (hfits (s.desc.opFtable p).inodeNr).size
  have hopen (r : Nat) (u : State) : vsfsLseek fildes offset whence s = .ok (r, u) ↔ _ :=
    vsfsLseek_open ho (hr.opCounter ho)
  constructor
  · refine fun h => ⟨?_, fun hend a f hs hlt => ?_⟩
    · rintro ⟨t, ht, h0, hle⟩
      obtain ⟨u, hu, -⟩ := h.reached t ht h0 hle
      obtain ⟨a, f, hs, ⟨hno, hfst, -⟩ | ⟨hg, -, info, v, hgrown⟩⟩ := (hopen _ _).mp hu
      · have hsize := hsmall.size _ _ hs.file
        obtain ⟨hcur, hend⟩ := (seekResult_target hv hwhole hsize ht h0 hle).mp (seekResult_fst hfst.symm (by omega))
        refine ⟨a, f, hs, fun hg => absurd hg hno, fun hc => ?_, fun he => (hend he).1⟩
        unfold seekTarget at ht
        rw [hc, if_neg (by decide), if_neg (by decide), if_pos rfl, Option.some.injEq] at ht
        rw [ht]
        exact hcur hc
      · obtain ⟨h1, h2, h3⟩ := (growthEnds_iff (s := s.withReg) (hsmall.inode p) (hfits _).blocks hg).mp ⟨_, _, _, hgrown⟩
        refine ⟨a, f, hs, fun _ => ⟨h1, h2, h3⟩, fun hc => ?_, fun he => ?_⟩
        · exact absurd (hg.1.symm.trans hc) (by decide)
        · exact absurd (hg.1.symm.trans he) (by decide)
    · have hno : ¬SeekGrows f offset whence := fun hg => absurd (hg.1.symm.trans hend) (by decide)
      refine (seekResult_keeps (hsmall.size _ _ hs.file)).mp (fun hfst => ?_) hend hlt
      have hpos := (h.rejected _ ((hopen _ _).mpr ⟨a, f, hs, Or.inl ⟨hno, hfst.symm, rfl⟩⟩)).1
      simpa [State.moved] using hpos
  · rintro ⟨hreach, hkeep⟩
    refine ⟨fun t ht h0 hle => ?_, fun u hu => ?_⟩
    · obtain ⟨a, f, hs, hgrow, hcur, hend⟩ := hreach ⟨t, ht, h0, hle⟩
      by_cases hg : SeekGrows f offset whence
      · have hends := hgrow hg
        obtain ⟨u, info, v, hgrown⟩ := (growthEnds_iff (s := s.withReg) (a := a) (hsmall.inode p) (hfits _).blocks hg).mpr
          ⟨hends.sbCached, hends.limit, hends.takes⟩
        have htv : t.toNat = offset.toNat := by
          unfold seekTarget at ht
          rw [if_pos hg.1, Option.some.injEq] at ht
          omega
        refine ⟨u, (hopen _ _).mpr ⟨a, f, hs, Or.inr ⟨hg, htv, info, v, hgrown⟩⟩, ?_⟩
        rw [hgrown.result, htv]
        exact setOffset_offset ..
      · have hres : seekResult whence offset.toNat f.size f.size (s.desc.opFtable p).offset = _ :=
          (seekResult_target hv hwhole (hsmall.size _ _ hs.file) ht h0 hle).mpr ⟨fun hc => ?_,
            fun he => ⟨hend he, by rw [hend he]; exact hle⟩⟩
        · refine ⟨_, (hopen _ _).mpr ⟨a, f, hs, Or.inl ⟨hg, by rw [hres], rfl⟩⟩, ?_⟩
          rw [hres]
          exact setOffset_offset ..
        · unfold seekTarget at ht
          rw [hc, if_neg (by decide), if_neg (by decide), if_pos rfl, Option.some.injEq] at ht
          rw [← ht]
          exact hcur hc
    · obtain ⟨a, f, hs, ⟨hno, hfst, rfl⟩ | ⟨hg, he, -⟩⟩ := (hopen _ _).mp hu
      · refine ⟨?_, rfl, rfl, rfl, rfl⟩
        rw [show ((s.moved p _).desc.opFtable p).offset = _ from setOffset_offset ..]
        exact (seekResult_keeps (hsmall.size _ _ hs.file)).mpr (fun he hlt => hkeep he a f hs hlt) hfst.symm
      · have := hg.2.1
        omega

end

end Spdk

/-! ## The shared-memory variant -/

namespace Shm

variable {s t : Process} {fildes whence : Int} {e : FdTable} {p : Nat} {offset : UInt64}

/-- The same for the shared-memory variant. -/
structure SeekSound (s : Process) (fildes : Int) (p : Nat) (offset : UInt64) (whence : Int) : Prop where
  reached : ∀ t, seekTarget whence offset.toNat (s.desc.opFtable p).offset
      (s.inodes (s.desc.opFtable p).inodeNr).fileSize = some t → 0 ≤ t →
    t ≤ (s.inodes (s.desc.opFtable p).inodeNr).fileSize →
      ∃ u, vsfsLseek fildes offset whence s = .ok (t.toNat, u) ∧ (u.desc.opFtable p).offset = t.toNat
  rejected : ∀ u, vsfsLseek fildes offset whence s = .ok (seekError, u) →
    (u.desc.opFtable p).offset = (s.desc.opFtable p).offset ∧
      (u.inodes (s.desc.opFtable p).inodeNr).size = (s.inodes (s.desc.opFtable p).inodeNr).size ∧
      (u.inodes (s.desc.opFtable p).inodeNr).blocks = (s.inodes (s.desc.opFtable p).inodeNr).blocks ∧
      u.cached.ibitmap = s.cached.ibitmap ∧ u.cached.dbitmap = s.cached.dbitmap

/-- **`vsfs_lseek` of the shared-memory variant** is sound exactly if the inode of a seek inside the file is in the table,
`SEEK_END` counts from the size of the file, and `SEEK_END` past it starts at the size that the inode has stored. -/
theorem seekSound_iff (hr : ReachedBy (fun _ _ => True) s) (ho : s.OpenOn fildes e p) : SeekSound s fildes p offset whence ↔
    (SeekInside whence offset.toNat (s.desc.opFtable p).offset
      (s.inodes (s.desc.opFtable p).inodeNr).fileSize → (s.desc.opFtable p).inodeNr < nrInodes ∧
        (whence = seekEnd → (s.inodes (s.desc.opFtable p).inodeNr).size =
          (s.inodes (s.desc.opFtable p).inodeNr).fileSize)) ∧
    (whence = seekEnd → (s.desc.opFtable p).inodeNr < nrInodes →
      (s.inodes (s.desc.opFtable p).inodeNr).fileSize <
        ((s.inodes (s.desc.opFtable p).inodeNr).size + offset.toNat) % 2 ^ 64 →
      (s.inodes (s.desc.opFtable p).inodeNr).size = (s.desc.opFtable p).offset) := by
  have herr : seekError = 2 ^ 64 - 1 := rfl
  obtain ⟨hoc, hsb⟩ := hr.mapped ho
  have hv := offset.toNat_lt
  have hbase := (ReachedBy.small hr) (s.desc.opFtable p).inodeNr
  have hwhole := fileSize_le hbase
  have hopen (r : Nat) (u : Process) : vsfsLseek fildes offset whence s = .ok (r, u) ↔ _ :=
    vsfsLseek_open ho hoc hsb
  constructor
  · refine fun h => ⟨?_, fun hend hi hlt => ?_⟩
    · rintro ⟨t, ht, h0, hle⟩
      obtain ⟨u, hu, -⟩ := h.reached t ht h0 hle
      obtain ⟨hi, ⟨-, hfst, -⟩ | ⟨hg, -⟩⟩ := (hopen _ _).mp hu
      · obtain ⟨-, hend⟩ := (seekResult_target hv hwhole hbase.le ht h0 hle).mp (seekResult_fst hfst.symm (by omega))
        exact ⟨hi, fun he => (hend he).1⟩
      · exact ⟨hi, fun he => absurd (hg.1.symm.trans he) (by decide)⟩
    · have hno : ¬SeekGrows (s.inodes (s.desc.opFtable p).inodeNr) offset whence := fun hg =>
        absurd (hg.1.symm.trans hend) (by decide)
      refine (seekResult_keeps hwhole).mp (fun hfst => ?_) hend hlt
      have hpos := (h.rejected _ ((hopen _ _).mpr ⟨hi, Or.inl ⟨hno, hfst.symm, rfl⟩⟩)).1
      simpa [Process.moved] using hpos
  · rintro ⟨hreach, hkeep⟩
    refine ⟨fun t ht h0 hle => ?_, fun u hu => ?_⟩
    · obtain ⟨hi, hend⟩ := hreach ⟨t, ht, h0, hle⟩
      have hno : ¬SeekGrows (s.inodes (s.desc.opFtable p).inodeNr) offset whence := by
        rintro ⟨hset, -, hlt⟩
        unfold seekTarget at ht
        rw [if_pos hset, Option.some.injEq] at ht
        omega
      have hres : seekResult whence offset.toNat (s.inodes (s.desc.opFtable p).inodeNr).fileSize
          (s.inodes (s.desc.opFtable p).inodeNr).size (s.desc.opFtable p).offset = _ :=
        (seekResult_target hv hwhole hbase.le ht h0 hle).mpr ⟨fun _ => hle, fun he => ⟨hend he, hle⟩⟩
      refine ⟨_, (hopen _ _).mpr ⟨hi, Or.inl ⟨hno, by rw [hres], rfl⟩⟩, ?_⟩
      rw [hres]
      exact setOffset_offset ..
    · obtain ⟨hi, ⟨-, hfst, rfl⟩ | ⟨hg, he, -⟩⟩ := (hopen _ _).mp hu
      · refine ⟨?_, rfl, rfl, rfl, rfl⟩
        rw [show ((s.moved p _).desc.opFtable p).offset = _ from setOffset_offset ..]
        exact (seekResult_keeps hwhole).mpr (fun he hlt => hkeep he hi hlt) hfst.symm
      · have := hg.2.1
        omega

end Shm

/-! ## The main theorem -/

/-- **`vsfs_lseek` goes to a position inside the file, or changes nothing**, for every descriptor, argument and `whence`,
under these conditions and no others. In the SPDK variant the size in the file object must let the position pass, and a
file object with an older size must be able to grow; `SEEK_END` must count from the size of the file; and `SEEK_END` past
that size leaves the offset only if it was there. In the shared-memory variant the stored size must be the size of the
file for `SEEK_END`. -/
theorem seeks_sound_iff (fildes : Int) (p : Nat) (offset : UInt64) (whence : Int) :
    (∀ (s : State) (e : FdTable), Reached s → s.OpenOn fildes e p → (SeekSound s fildes p offset whence ↔
        (SeekInside whence offset.toNat (s.desc.opFtable p).offset
          (s.vol.inode (s.desc.opFtable p).inodeNr).fileSize → s.SeekReaches p offset whence) ∧
        (whence = seekEnd → ∀ a f, Seekable s p a f → f.size < (f.size + offset.toNat) % 2 ^ 64 →
          f.size = (s.desc.opFtable p).offset))) ∧
    ∀ (s : Shm.Process) (e : FdTable), Shm.ReachedBy (fun _ _ => True) s → s.OpenOn fildes e p →
      (Shm.SeekSound s fildes p offset whence ↔
        (SeekInside whence offset.toNat (s.desc.opFtable p).offset
          (s.inodes (s.desc.opFtable p).inodeNr).fileSize → (s.desc.opFtable p).inodeNr < nrInodes ∧
            (whence = seekEnd → (s.inodes (s.desc.opFtable p).inodeNr).size =
              (s.inodes (s.desc.opFtable p).inodeNr).fileSize)) ∧
        (whence = seekEnd → (s.desc.opFtable p).inodeNr < nrInodes →
          (s.inodes (s.desc.opFtable p).inodeNr).fileSize <
            ((s.inodes (s.desc.opFtable p).inodeNr).size + offset.toNat) % 2 ^ 64 →
          (s.inodes (s.desc.opFtable p).inodeNr).size = (s.desc.opFtable p).offset)) :=
  ⟨fun _ _ hr ho => seekSound_iff hr ho, fun _ _ hr ho => Shm.seekSound_iff hr ho⟩

/-- `SEEK_END` by -1, in a file of one byte that has been opened again, and in a file of two bytes. -/
theorem seeks_sound_iff_back :
    (∃ s : State, Reached s ∧ (s.vol.inode (s.desc.opFtable 0).inodeNr).fileSize = 1 ∧
      SeekSound s 1 0 0xffffffffffffffff seekEnd) ∧
    ∃ s : Shm.Process, Shm.ReachedBy (fun _ _ => True) s ∧ (s.inodes (s.desc.opFtable 0).inodeNr).fileSize = 2 ∧
      Shm.SeekSound s 1 0 0xffffffffffffffff seekEnd := by
  obtain ⟨hspdk, hshm⟩ := seeks_sound_iff 1 0 0xffffffffffffffff seekEnd
  have hback : (0xffffffffffffffff : UInt64).toNat = 2 ^ 64 - 1 := rfl
  constructor
  · have h : (do
        let r ← runCalls openAgain (0, blankVolume 4096)
        let found ← r.2.desc.findTarget 1
        let file ← r.2.desc.fileOf 0
        .ok (found.any fun x => x.2.ptr = some 0 ∧ r.2.sbCached.isSome ∧
          (r.2.vol.inode (r.2.desc.opFtable 0).inodeNr).fileSize = 1 ∧ file.2.size = 1) : M Bool) = .ok true := by
      decide +kernel
    obtain ⟨⟨r, s⟩, hrun, h⟩ := bind_eq_ok.mp h
    obtain ⟨found, hfind, h⟩ := bind_eq_ok.mp h
    obtain ⟨⟨a, f⟩, hfile, h⟩ := bind_eq_ok.mp h
    obtain ⟨⟨b, e⟩, rfl, hall⟩ := (Option.any_eq_true _ _).mp (Except.ok.inj h)
    obtain ⟨hp, hsc, hsize, hfs⟩ := of_decide_eq_true hall
    dsimp only at hp hsc hsize hfs
    obtain ⟨hfp, hf⟩ := fileOf_eq_ok.mp hfile
    have hreach : Reached s := ReachedBy.runCalls (reachedBy_blankVolume (by decide) (by decide)) hrun
    have hseek : Seekable s 0 a f := ⟨Or.inr (Option.isSome_iff_ne_none.mp hsc), hfp, hf⟩
    refine ⟨s, hreach, hsize, (hspdk s e hreach ⟨b, hfind, hp⟩).mpr ⟨fun _ => ?_, fun _ a' f' hs' hlt => ?_⟩⟩
    · exact ⟨a, f, hseek, fun hg => absurd hg.1 (by decide), fun hc => absurd hc (by decide), fun _ => hfs.trans hsize.symm⟩
    · rw [(hs'.unique hseek).2, hback, hfs] at hlt
      exact absurd hlt (by decide)
  · have h : (do
        let r ← Shm.runCalls (openEmpty ++ [.write 1 (fun _ => 97) 2]) (0, .start (blankVolume 4096).vol)
        let found ← r.2.desc.findTarget 1
        .ok (found.any fun x => x.2.ptr = some 0 ∧ (r.2.desc.opFtable 0).inodeNr < nrInodes ∧
          (r.2.inodes (r.2.desc.opFtable 0).inodeNr).size = 2 ∧
          (r.2.inodes (r.2.desc.opFtable 0).inodeNr).fileSize = 2) : M Bool) = .ok true := by decide +kernel
    obtain ⟨⟨r, s⟩, hrun, h⟩ := bind_eq_ok.mp h
    obtain ⟨found, hfind, h⟩ := bind_eq_ok.mp h
    obtain ⟨⟨b, e⟩, rfl, hall⟩ := (Option.any_eq_true _ _).mp (Except.ok.inj h)
    obtain ⟨hp, hi, hbase, hsize⟩ := of_decide_eq_true hall
    dsimp only at hp hi hbase hsize
    have hreach : Shm.ReachedBy (fun _ _ => True) s := Shm.ReachedBy.runCalls (Shm.reachedBy_start (by decide) (by decide)) hrun
    refine ⟨s, hreach, hsize, (hshm s e hreach ⟨b, hfind, hp⟩).mpr
      ⟨fun _ => ⟨hi, fun _ => hbase.trans hsize.symm⟩, fun _ _ hlt => ?_⟩⟩
    rw [hbase, hsize, hback] at hlt
    exact absurd hlt (by decide)

/-- **The end of a file is missed**: in a file of one byte that has just been written `SEEK_END` goes to 0 in the SPDK
variant; in the shared-memory variant `SEEK_END` past the end of a file of two bytes fails and moves the offset. -/
theorem seek_end_misses :
    (∃ s e, Reached s ∧ s.OpenOn 1 e 0 ∧ (s.vol.inode (s.desc.opFtable 0).inodeNr).fileSize = 1 ∧
      ¬SeekSound s 1 0 0 seekEnd) ∧
    ∃ s e, Shm.ReachedBy (fun _ _ => True) s ∧ s.OpenOn 1 e 0 ∧ ¬Shm.SeekSound s 1 0 1 seekEnd := by
  constructor
  · have h : (do
        let r ← runCalls (openEmpty ++ [.write 1 (fun _ => 97) 1]) (0, blankVolume 4096)
        let found ← r.2.desc.findTarget 1
        let q ← vsfsLseek 1 0 seekEnd r.2
        .ok (found.any fun x => x.2.ptr = some 0 ∧ (r.2.vol.inode (r.2.desc.opFtable 0).inodeNr).fileSize = 1 ∧
          q.1 = 0) : M Bool) = .ok true := by decide +kernel
    obtain ⟨⟨r, s⟩, hrun, h⟩ := bind_eq_ok.mp h
    obtain ⟨found, hfind, h⟩ := bind_eq_ok.mp h
    obtain ⟨⟨q, u⟩, hq, h⟩ := bind_eq_ok.mp h
    obtain ⟨⟨b, e⟩, rfl, hall⟩ := (Option.any_eq_true _ _).mp (Except.ok.inj h)
    obtain ⟨hp, hsize, hzero⟩ := of_decide_eq_true hall
    dsimp only at hp hsize hzero hfind hq
    refine ⟨s, e, ReachedBy.runCalls (reachedBy_blankVolume (by decide) (by decide)) hrun, ⟨b, hfind, hp⟩, hsize,
      fun hs => ?_⟩
    have htarget : seekTarget seekEnd (0 : UInt64).toNat (s.desc.opFtable 0).offset
        (s.vol.inode (s.desc.opFtable 0).inodeNr).fileSize = some 1 := by
      rw [hsize]
      rfl
    obtain ⟨u', hu', -⟩ := hs.reached 1 htarget (by decide) (by rw [hsize]; decide)
    rw [hq, Except.ok.injEq, Prod.mk.injEq, hzero] at hu'
    exact absurd hu'.1 (by decide)
  · have h : (do
        let r ← Shm.runCalls openTwoBytes (0, .start (blankVolume 4096).vol)
        let found ← r.2.desc.findTarget 1
        let q ← Shm.vsfsLseek 1 1 seekEnd r.2
        .ok (found.any fun x => x.2.ptr = some 0 ∧ (r.2.desc.opFtable 0).offset = 0 ∧ q.1 = seekError ∧
          (q.2.desc.opFtable 0).offset = 2) : M Bool) = .ok true := by decide +kernel
    obtain ⟨⟨r, s⟩, hrun, h⟩ := bind_eq_ok.mp h
    obtain ⟨found, hfind, h⟩ := bind_eq_ok.mp h
    obtain ⟨⟨q, u⟩, hq, h⟩ := bind_eq_ok.mp h
    obtain ⟨⟨b, e⟩, rfl, hall⟩ := (Option.any_eq_true _ _).mp (Except.ok.inj h)
    obtain ⟨hp, hofs, herr, hmoved⟩ := of_decide_eq_true hall
    dsimp only at hp hofs herr hmoved hfind hq
    refine ⟨s, e, Shm.ReachedBy.runCalls (Shm.reachedBy_start (by decide) (by decide)) hrun, ⟨b, hfind, hp⟩, fun hs => ?_⟩
    rw [herr] at hq
    have hpos := (hs.rejected u hq).1
    rw [hofs, hmoved] at hpos
    exact absurd hpos (by decide)

end Vsfs
