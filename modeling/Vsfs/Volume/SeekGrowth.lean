import Vsfs.Volume.Append
import Vsfs.Volume.SeekPosition

/-!
# What a seek past the end allocates

`vsfs_lseek` compares sizes and subtracts numbers of blocks, in 32 bits. In the SPDK variant both are those of the file
object, which `vsfs_creat`, a write and a growing seek leave behind the inode; and the size of the inode is not set. In
the shared-memory variant they are those of the inode, and an inode may have more blocks than its size needs.

- `seekExact_iff`, `Shm.seekExact_iff`: when a seek gives the file the blocks that it misses, and the size;
- `seeks_allocate_iff`: both variants.
-/

set_option autoImplicit false

namespace Vsfs

open Function ByteSeq ExceptLib

/-- The number of blocks for `n` bytes. -/
def blocksFor (n : Nat) : Nat := (n + 4095) / 4096

/-- The next calls of the allocator find the free blocks that an inode with `blocks` blocks needs for `n` bytes. -/
def GrowthSupplied (blocks n : Nat) (c : Cached) : Prop :=
  ∃ e, Takes (· ≠ 0) e (allocTakes blocks (blocksFor n - blocks)) c

theorem Takes.weaken {p q : Nat → Prop} {e c : Cached} {k : Nat} (h : Takes p e k c) (hpq : ∀ b, p b → q b) :
    Takes q e k c := by
  induction h with
  | done hs hd => exact .done hs hd
  | next hb hp _ ih => exact .next hb (hpq _ hp) ih

/-! ## The SPDK variant -/

section Spdk

variable {s t : State} {fildes : Int} {e : FdTable} {p : Nat} {offset : UInt64}

/-- A seek of `fildes`, which is open on slot `p`, gives the file the blocks that it misses and, if it was shorter, the
size; the difference that it asks for does not wrap. -/
structure SeekExact (s : State) (fildes : Int) (p : Nat) (offset : UInt64) : Prop where
  noWrap : ∀ a f, (s.desc.opFtable p).filePtr = some a → s.desc.files a = some f → f.size < offset.toNat →
    f.blocks ≤ blocksFor offset.toNat
  grown : ∃ t, vsfsLseek fildes offset seekSet s = .ok (offset.toNat, t) ∧
    (t.vol.inode (s.desc.opFtable p).inodeNr).blocks =
      max (s.vol.inode (s.desc.opFtable p).inodeNr).blocks (blocksFor offset.toNat) ∧
    ((s.vol.inode (s.desc.opFtable p).inodeNr).fileSize < offset.toNat →
      (t.vol.inode (s.desc.opFtable p).inodeNr).fileSize = offset.toNat)

/-- The file object of slot `p` is as a seek to `offset` needs it: its size is above `offset` only if that of the file
is; and if it is not, then it has the blocks of the inode, or all that are needed, and the seek does not change the size
of the file. -/
def State.SeekMatches (s : State) (p : Nat) (offset : UInt64) : Prop :=
  ∃ a f, Seekable s p a f ∧
    (offset.toNat ≤ f.size → offset.toNat ≤ (s.vol.inode (s.desc.opFtable p).inodeNr).fileSize) ∧
    (f.size < offset.toNat → s.sbCached ≠ none ∧
      f.blocks = min (s.vol.inode (s.desc.opFtable p).inodeNr).blocks (blocksFor offset.toNat) ∧
      (s.vol.inode (s.desc.opFtable p).inodeNr).blocks ≤ 1048625 ∧
      (offset.toNat ≤ (s.vol.inode (s.desc.opFtable p).inodeNr).fileSize ∨ offset.toNat = 2 ^ 32 ∧
        (s.vol.inode (s.desc.opFtable p).inodeNr).size = 0 ∧
        (s.vol.inode (s.desc.opFtable p).inodeNr).blocks ≤ 1048576))

/-- The size that an inode has after an allocation. -/
theorem fileSize_grown {x y : Inode} {n : Nat} (hx : x.size < 2 ^ 32) (hs : y.size = x.size)
    (hb : y.blocks = max x.blocks (blocksFor n)) (hn : n ≤ 2 ^ 32) :
    (x.fileSize < n → y.fileSize = n) ↔ n ≤ x.fileSize ∨ n = 2 ^ 32 ∧ x.size = 0 ∧ x.blocks ≤ 1048576 := by
  unfold blocksFor at hb
  unfold Inode.fileSize
  rw [hs, hb]
  split_ifs <;> omega

/-- The blocks that the seek asks for are those that the inode misses exactly if the file object has as many as the
inode, or all that are needed. -/
theorem asks_iff {b f n : Nat} (hb : b ≤ 1048625) (hf : f < 2 ^ 32) (hn : n ≤ 2 ^ 32) :
    b + sub32 (neededBlocks n) f = max b (blocksFor n) ↔ f = min b (blocksFor n) := by
  rw [neededBlocks_eq hn]
  unfold sub32 blocksFor
  omega

section

variable (hr : Reached s) (ho : s.OpenOn fildes e p) (hle : offset.toNat ≤ 2 ^ 32)
  (henough : GrowthSupplied (s.vol.inode (s.desc.opFtable p).inodeNr).blocks offset.toNat s.vol.cached)

include hr ho hle henough in
/-- **`vsfs_lseek` of the SPDK variant** gives a file what it misses exactly if the file object is as it needs it. -/
theorem seekExact_iff : SeekExact s fildes p offset ↔ s.SeekMatches p offset := by
  obtain ⟨hsmall, hfits⟩ := ReachedBy.small hr
  have hsized := (ReachedBy.sized hr).fileSize (hsmall.inode p)
  have hopen (r : Nat) (u : State) : vsfsLseek fildes offset seekSet s = .ok (r, u) ↔ _ :=
    vsfsLseek_open ho (hr.opCounter ho)
  have hx := hfits (s.desc.opFtable p).inodeNr
  have hset : ∀ base pos size, seekResult seekSet offset.toNat size base pos = (offset.toNat, offset.toNat) := by
    intro base pos size
    unfold seekResult
    rw [if_pos rfl, if_neg (by omega)]
  constructor
  · rintro ⟨hno, t, hseek, hblocks, hsize⟩
    obtain ⟨a, f, hs, ⟨hstay, -, rfl⟩ | ⟨hg, -, info, v, hgrown⟩⟩ := (hopen _ _).mp hseek
    · -- the inode is as it was
      have hge : offset.toNat ≤ f.size := Nat.not_lt.mp fun hlt => hstay ⟨rfl, hle, hlt⟩
      refine ⟨a, f, hs, fun _ => ?_, fun hlt => absurd hge (Nat.not_le.mpr hlt)⟩
      by_contra hlt
      exact hlt (hsize (Nat.not_le.mp hlt)).ge
    · obtain ⟨r, hal⟩ := hgrown.alloc
      obtain ⟨hv, hlimit⟩ := SeekGrown.blocks (s := s.withReg) hx.blocks hgrown
      simp only [withReg_vol, withReg_desc] at hv hlimit
      rw [show t.vol = v from congrArg State.vol hgrown.result] at hblocks hsize
      have hkept := (fileSize_grown hx.size (allocBlock_count hal).head.size hblocks hle).mp hsize
      rw [show (v.inode (s.desc.opFtable p).inodeNr).blocks = _ from hv] at hblocks
      have hbound : (s.vol.inode (s.desc.opFtable p).inodeNr).blocks ≤ 1048625 := (Nat.le_add_right _ _).trans hlimit
      refine ⟨a, f, hs, fun hge => absurd hge (Nat.not_le.mpr hg.2.2), fun _ => ⟨hgrown.sbCached, ?_, hbound, hkept⟩⟩
      exact (asks_iff hbound (hsmall.blocks _ _ hs.file) hle).mp hblocks
  · rintro ⟨a, f, hs, hge, hgrow⟩
    have hno : ∀ a' f', (s.desc.opFtable p).filePtr = some a' → s.desc.files a' = some f' → f'.size < offset.toNat →
        f'.blocks ≤ blocksFor offset.toNat := by
      intro a' f' hfp hf hlt
      obtain ⟨rfl, rfl⟩ := hs.unique ⟨hs.handle, hfp, hf⟩
      rw [(hgrow hlt).2.1]
      exact Nat.min_le_right _ _
    refine ⟨hno, ?_⟩
    by_cases hlt : f.size < offset.toNat
    · obtain ⟨hsb, hblocks, hbound, hkept⟩ := hgrow hlt
      have hasks := (asks_iff hbound (hsmall.blocks _ _ hs.file) hle).mpr hblocks
      have hfor : blocksFor offset.toNat ≤ 1048576 := by
        unfold blocksFor
        omega
      have hmiss : sub32 (neededBlocks offset.toNat) f.blocks =
          blocksFor offset.toNat - (s.vol.inode (s.desc.opFtable p).inodeNr).blocks := by omega
      have hg : SeekGrows f offset seekSet := ⟨rfl, hle, hlt⟩
      obtain ⟨c, htakes⟩ := henough
      have hends : GrowthEnds s.withReg p offset.toNat f :=
        ⟨hsb, by simp only [withReg_vol, withReg_desc]; omega, c, by rw [hmiss]; exact htakes.weaken fun _ _ => trivial⟩
      obtain ⟨t, info, v, hgrown⟩ := (growthEnds_iff (s := s.withReg) (a := a) (hsmall.inode p) hx.blocks hg).mpr hends
      obtain ⟨r, hal⟩ := hgrown.alloc
      obtain ⟨hv, -⟩ := SeekGrown.blocks (s := s.withReg) hx.blocks hgrown
      simp only [withReg_vol, withReg_desc] at hv
      have hv' : (v.inode (s.desc.opFtable p).inodeNr).blocks =
        max (s.vol.inode (s.desc.opFtable p).inodeNr).blocks (blocksFor offset.toNat) := hv.trans hasks
      refine ⟨t, (hopen _ _).mpr ⟨a, f, hs, Or.inr ⟨hg, rfl, info, v, hgrown⟩⟩, ?_⟩
      rw [show t.vol = v from congrArg State.vol hgrown.result]
      exact ⟨hv', (fileSize_grown hx.size (allocBlock_count hal).head.size hv' hle).mpr hkept⟩
    · have hstay : ¬SeekGrows f offset seekSet := fun hg => hlt hg.2.2
      have hfile := hge (Nat.not_lt.mp hlt)
      refine ⟨_, (hopen _ _).mpr ⟨a, f, hs, Or.inl ⟨hstay, by rw [hset], rfl⟩⟩, ?_, fun h => absurd hfile (Nat.not_le.mpr h)⟩
      show (s.vol.inode (s.desc.opFtable p).inodeNr).blocks = _
      have hcover : blocksFor offset.toNat ≤ (s.vol.inode (s.desc.opFtable p).inodeNr).blocks := by
        unfold blocksFor
        omega
      exact (Nat.max_eq_left hcover).symm

end

end Spdk

/-! ## The shared-memory variant -/

namespace Shm

variable {s t : Process} {fildes : Int} {e : FdTable} {p : Nat} {offset : UInt64}

/-- The same for the shared-memory variant, where the difference is that of the inode. -/
structure SeekExact (s : Process) (fildes : Int) (p : Nat) (offset : UInt64) : Prop where
  noWrap : (s.inodes (s.desc.opFtable p).inodeNr).fileSize < offset.toNat →
    (s.inodes (s.desc.opFtable p).inodeNr).blocks ≤ blocksFor offset.toNat
  grown : ∃ t, vsfsLseek fildes offset seekSet s = .ok (offset.toNat, t) ∧
    (t.inodes (s.desc.opFtable p).inodeNr).blocks =
      max (s.inodes (s.desc.opFtable p).inodeNr).blocks (blocksFor offset.toNat) ∧
    ((s.inodes (s.desc.opFtable p).inodeNr).fileSize < offset.toNat →
      (t.inodes (s.desc.opFtable p).inodeNr).fileSize = offset.toNat)

/-- The inode of slot `p` is as a seek to `offset` needs it: it has the blocks for its size; a seek past the size needs
the blocks that it has; and if the allocator is called then `sb_cached` is set. -/
structure Process.SeekMatches (s : Process) (p : Nat) (offset : UInt64) : Prop where
  inode : (s.desc.opFtable p).inodeNr < nrInodes
  inside : offset.toNat ≤ (s.inodes (s.desc.opFtable p).inodeNr).fileSize →
    blocksFor offset.toNat ≤ (s.inodes (s.desc.opFtable p).inodeNr).blocks
  beyond : (s.inodes (s.desc.opFtable p).inodeNr).fileSize < offset.toNat →
    (s.inodes (s.desc.opFtable p).inodeNr).blocks ≤ blocksFor offset.toNat ∧
      ¬(s.sbCached = false ∧ CallsAllocator (s.inodes (s.desc.opFtable p).inodeNr).blocks
        (blocksFor offset.toNat - (s.inodes (s.desc.opFtable p).inodeNr).blocks))

section

variable (hr : ReachedBy (fun _ _ => True) s) (ho : s.OpenOn fildes e p) (hle : offset.toNat ≤ 2 ^ 32)
  (henough : GrowthSupplied (s.inodes (s.desc.opFtable p).inodeNr).blocks offset.toNat s.cached)

include hr ho hle henough in
/-- **`vsfs_lseek` of the shared-memory variant** gives a file what it misses exactly if the inode is as it needs it. -/
theorem seekExact_iff : SeekExact s fildes p offset ↔ s.SeekMatches p offset := by
  have hlim : level3Limit = 1053745 := rfl
  obtain ⟨hoc, hsb⟩ := hr.mapped ho
  have hopen (r : Nat) (u : Process) : vsfsLseek fildes offset seekSet s = .ok (r, u) ↔ _ :=
    vsfsLseek_open ho hoc hsb
  have hfor : blocksFor offset.toNat ≤ 1048576 := by
    unfold blocksFor
    omega
  have hneed : neededBlocks offset.toNat = blocksFor offset.toNat := neededBlocks_eq hle
  have hset : ∀ base pos size, seekResult seekSet offset.toNat size base pos = (offset.toNat, offset.toNat) := by
    intro base pos size
    unfold seekResult
    rw [if_pos rfl, if_neg (by omega)]
  constructor
  · rintro ⟨hno, t, hseek, hblocks, hsize⟩
    obtain ⟨hi, ⟨hstay, -, rfl⟩ | ⟨hg, -, u, hgrown⟩⟩ := (hopen _ _).mp hseek
    · have hge := Nat.not_lt.mp fun hlt => hstay ⟨rfl, hle, hlt⟩
      refine ⟨hi, fun _ => ?_, fun hlt => absurd hge (Nat.not_le.mpr hlt)⟩
      have hsame : (s.inodes (s.desc.opFtable p).inodeNr).blocks =
        max (s.inodes (s.desc.opFtable p).inodeNr).blocks (blocksFor offset.toNat) := hblocks
      omega
    · have hmapped := hgrown.mapped
      rw [hneed, sub32_of_le (hno hg.2.2) (by omega)] at hmapped
      exact ⟨hi, fun hge => absurd hge (Nat.not_le.mpr hg.2.2), fun hlt => ⟨hno hlt, hmapped⟩⟩
  · rintro ⟨hi, hinside, hbeyond⟩
    refine ⟨fun hlt => (hbeyond hlt).1, ?_⟩
    by_cases hlt : (s.inodes (s.desc.opFtable p).inodeNr).fileSize < offset.toNat
    · obtain ⟨hno, hmapped⟩ := hbeyond hlt
      have hmiss := sub32_of_le hno (by omega)
      rw [← hneed] at hmiss
      obtain ⟨c, htakes⟩ := henough
      obtain ⟨u, hu⟩ := allocBlock_takes (u := s.seg) hi (by show (s.inodes _).blocks + _ ≤ _; omega) htakes
      have hleft := allocLeft_of_le (b := (s.inodes (s.desc.opFtable p).inodeNr).blocks) (by omega)
      have hcount : Allotted (s.desc.opFtable p).inodeNr
          (min (blocksFor offset.toNat - (s.inodes (s.desc.opFtable p).inodeNr).blocks)
            (allocLeft (s.inodes (s.desc.opFtable p).inodeNr).blocks)) s.seg u := allocBlock_count hu
      have hblocks : (u.inodes (s.desc.opFtable p).inodeNr).blocks = blocksFor offset.toNat := by
        have hsum : (s.seg.inodes (s.desc.opFtable p).inodeNr).blocks = (s.inodes (s.desc.opFtable p).inodeNr).blocks := rfl
        rw [hcount.blocks (by rw [hsum]; omega), hsum]
        omega
      refine ⟨_, (hopen _ _).mpr ⟨hi, Or.inr ⟨⟨rfl, hle, hlt⟩, rfl, u, ⟨?_, ?_, rfl⟩⟩⟩, ?_, fun _ => ?_⟩
      · rwa [hmiss, hneed]
      · rw [hmiss, hneed]
        exact ⟨0, hu⟩
      · show ((u.modInode (s.desc.opFtable p).inodeNr fun x => { x with size := offset.toNat % 2 ^ 32 }).inodes
          (s.desc.opFtable p).inodeNr).blocks = _
        rw [segments_modInode_self]
        show (u.inodes (s.desc.opFtable p).inodeNr).blocks = _
        rw [hblocks, Nat.max_eq_right hno]
      · show ((u.modInode (s.desc.opFtable p).inodeNr fun x => { x with size := offset.toNat % 2 ^ 32 }).inodes
          (s.desc.opFtable p).inodeNr).fileSize = _
        rw [segments_modInode_self]
        refine fileSize_of hle (by omega) rfl fun hfull => ?_
        show (u.inodes (s.desc.opFtable p).inodeNr).blocks = _
        rw [hblocks, hfull]
        rfl
    · have hge := Nat.not_lt.mp hlt
      refine ⟨_, (hopen _ _).mpr ⟨hi, Or.inl ⟨fun hg => hlt hg.2.2, by rw [hset], rfl⟩⟩, ?_, fun h => absurd h hlt⟩
      exact (Nat.max_eq_left (hinside hge)).symm

end

end Shm

/-! ## Both -/

/-- **Seeking past the end allocates exactly the missing blocks**, for every descriptor and position that is found enough
free blocks for, exactly if the file object of the SPDK variant, or the inode of the shared-memory variant, is as the
subtraction and the comparison of the code need it. -/
theorem seeks_allocate_iff (fildes : Int) (p : Nat) {offset : UInt64} (hle : offset.toNat ≤ 2 ^ 32) :
    (∀ (s : State) (e : FdTable), Reached s → s.OpenOn fildes e p →
      GrowthSupplied (s.vol.inode (s.desc.opFtable p).inodeNr).blocks offset.toNat s.vol.cached →
      (SeekExact s fildes p offset ↔ s.SeekMatches p offset)) ∧
    ∀ (s : Shm.Process) (e : FdTable), Shm.ReachedBy (fun _ _ => True) s → s.OpenOn fildes e p →
      GrowthSupplied (s.inodes (s.desc.opFtable p).inodeNr).blocks offset.toNat s.cached →
      (Shm.SeekExact s fildes p offset ↔ s.SeekMatches p offset) :=
  ⟨fun _ _ hr ho henough => seekExact_iff hr ho hle henough,
    fun _ _ hr ho henough => Shm.seekExact_iff hr ho hle henough⟩

/-- An inode that has the blocks needs no others. -/
theorem growthSupplied_of_le {b n : Nat} (c : Cached) (hb : b ≠ level2Limit) (h : blocksFor n ≤ b) : GrowthSupplied b n c := by
  refine ⟨c, ?_⟩
  rw [allocTakes_eq_zero.mpr ⟨by omega, hb⟩]
  exact .done rfl rfl

/-- The first block of a file. -/
theorem growthSupplied_first {b : Nat} {c c' : Cached} (h : getFreeDblock c = .ok (b, c')) (hb : b ≠ 0) :
    GrowthSupplied 0 1 c := by
  have htakes : allocTakes 0 (blocksFor 1 - 0) = 1 := by decide +kernel
  refine ⟨c', ?_⟩
  rw [htakes]
  exact .next h hb (.done rfl rfl)

/-- A seek to the end of a file of one byte that has just been written, and one to byte 1 of an empty file. -/
theorem seeks_allocate_iff_one :
    (∃ s : State, SeekExact s 1 0 1) ∧ ∃ s : Shm.Process, Shm.SeekExact s 1 0 1 := by
  obtain ⟨hspdk, hshm⟩ := seeks_allocate_iff 1 0 (show (1 : UInt64).toNat ≤ 2 ^ 32 by decide)
  constructor
  · have h : (do
        let r ← runCalls (openEmpty ++ [.write 1 (fun _ => 97) 1]) (0, blankVolume 4096)
        let found ← r.2.desc.findTarget 1
        let q ← r.2.desc.fileOf 0
        .ok (found.any fun x => x.2.ptr = some 0 ∧ r.2.sbCached.isSome ∧ q.2.size = 0 ∧ q.2.blocks = 1 ∧
          (r.2.vol.inode (r.2.desc.opFtable 0).inodeNr).blocks = 1 ∧
          (r.2.vol.inode (r.2.desc.opFtable 0).inodeNr).fileSize = 1) : M Bool) = .ok true := by decide +kernel
    obtain ⟨⟨r, s⟩, hrun, h⟩ := bind_eq_ok.mp h
    obtain ⟨found, hfind, h⟩ := bind_eq_ok.mp h
    obtain ⟨⟨a, f⟩, hq, h⟩ := bind_eq_ok.mp h
    obtain ⟨⟨b, e⟩, rfl, hall⟩ := (Option.any_eq_true _ _).mp (Except.ok.inj h)
    obtain ⟨hp, hsb, hsize, hblocks, hx, hfile⟩ := of_decide_eq_true hall
    dsimp only at hp hsb hsize hblocks hx hfile hfind hq
    obtain ⟨hfp, hf⟩ := fileOf_eq_ok.mp hq
    have hsb' : s.sbCached ≠ none := Option.isSome_iff_ne_none.mp hsb
    refine ⟨s, (hspdk s e (ReachedBy.runCalls (reachedBy_blankVolume (by decide) (by decide)) hrun) ⟨b, hfind, hp⟩
      (growthSupplied_of_le _ (by rw [hx]; decide) (by rw [hx]; decide))).mpr
      ⟨a, f, ⟨Or.inr hsb', hfp, hf⟩, fun _ => ?_, fun _ => ⟨hsb', ?_, ?_, Or.inl ?_⟩⟩⟩
    · rw [hfile]
      decide
    · rw [hblocks, hx]
      decide
    · rw [hx]
      decide
    · rw [hfile]
      decide
  · have h : (do
        let r ← Shm.runCalls openEmpty (0, .start (blankVolume 4096).vol)
        let found ← r.2.desc.findTarget 1
        let q ← getFreeDblock r.2.cached
        .ok (found.any fun x => x.2.ptr = some 0 ∧ r.2.sbCached = true ∧ (r.2.desc.opFtable 0).inodeNr = 1 ∧ q.1 ≠ 0 ∧
          (r.2.inodes 1).blocks = 0 ∧ (r.2.inodes 1).fileSize = 0) : M Bool) = .ok true := by decide +kernel
    obtain ⟨⟨r, s⟩, hrun, h⟩ := bind_eq_ok.mp h
    obtain ⟨found, hfind, h⟩ := bind_eq_ok.mp h
    obtain ⟨⟨q, c⟩, hq, h⟩ := bind_eq_ok.mp h
    obtain ⟨⟨b, e⟩, rfl, hall⟩ := (Option.any_eq_true _ _).mp (Except.ok.inj h)
    obtain ⟨hp, hsb, hi, hb0, hx, hfile⟩ := of_decide_eq_true hall
    dsimp only at hp hsb hi hb0 hx hfile hfind hq
    refine ⟨s, (hshm s e (Shm.ReachedBy.runCalls (Shm.reachedBy_start (by decide) (by decide)) hrun) ⟨b, hfind, hp⟩
      ?_).mpr ⟨by rw [hi]; decide, fun hle => ?_, fun _ => ⟨by rw [hi, hx]; decide, fun hno => ?_⟩⟩⟩
    · rw [hi, hx]
      exact growthSupplied_first hq hb0
    · rw [hi, hfile] at hle
      exact absurd hle (by decide)
    · rw [hsb] at hno
      exact absurd hno.1 (by decide)

/-- **A seek past the end misses**: in an empty file a seek to byte 1 leaves the size of the inode 0 in the SPDK variant; in
the shared-memory variant a file of two blocks and one byte is asked for `1 - 2` blocks by a seek to byte 2. -/
theorem seek_past_end_misses :
    (∃ s e, Reached s ∧ s.OpenOn 1 e 0 ∧
      GrowthSupplied (s.vol.inode (s.desc.opFtable 0).inodeNr).blocks 1 s.vol.cached ∧ ¬SeekExact s 1 0 1) ∧
    ∃ s e, Shm.ReachedBy (fun _ _ => True) s ∧ s.OpenOn 1 e 0 ∧
      GrowthSupplied (s.inodes (s.desc.opFtable 0).inodeNr).blocks 2 s.cached ∧ ¬Shm.SeekExact s 1 0 2 := by
  constructor
  · have h : (do
        let r ← runCalls openEmpty (0, blankVolume 4096)
        let found ← r.2.desc.findTarget 1
        let q ← getFreeDblock r.2.vol.cached
        let t ← vsfsLseek 1 1 seekSet r.2
        .ok (found.any fun x => x.2.ptr = some 0 ∧ (r.2.desc.opFtable 0).inodeNr = 1 ∧ q.1 ≠ 0 ∧
          (r.2.vol.inode 1).blocks = 0 ∧ (r.2.vol.inode 1).fileSize = 0 ∧ (t.2.vol.inode 1).fileSize = 0) : M Bool) =
        .ok true := by decide +kernel
    obtain ⟨⟨r, s⟩, hrun, h⟩ := bind_eq_ok.mp h
    obtain ⟨found, hfind, h⟩ := bind_eq_ok.mp h
    obtain ⟨⟨q, c⟩, hq, h⟩ := bind_eq_ok.mp h
    obtain ⟨⟨w, t⟩, ht, h⟩ := bind_eq_ok.mp h
    obtain ⟨⟨b, e⟩, rfl, hall⟩ := (Option.any_eq_true _ _).mp (Except.ok.inj h)
    obtain ⟨hp, hi, hb0, hx, hbefore, hafter⟩ := of_decide_eq_true hall
    dsimp only at hp hi hb0 hx hbefore hafter hfind hq ht
    refine ⟨s, e, ReachedBy.runCalls (reachedBy_blankVolume (by decide) (by decide)) hrun, ⟨b, hfind, hp⟩, ?_, ?_⟩
    · rw [hi, hx]
      exact growthSupplied_first hq hb0
    · rintro ⟨-, t', ht', -, hsize⟩
      rw [ht, Except.ok.injEq, Prod.mk.injEq] at ht'
      rw [← ht'.2, hi, hafter, hbefore] at hsize
      exact absurd (hsize (by decide)) (by decide)
  · have h : (do
        let r ← Shm.runCalls (openRoomy ++ [.write 1 (fun _ => 97) 1]) (0, .start (blankVolume 4096).vol)
        let found ← r.2.desc.findTarget 1
        .ok (found.any fun x => x.2.ptr = some 0 ∧ (r.2.inodes (r.2.desc.opFtable 0).inodeNr).blocks = 2 ∧
          (r.2.inodes (r.2.desc.opFtable 0).inodeNr).fileSize = 1) : M Bool) = .ok true := by decide +kernel
    obtain ⟨⟨r, s⟩, hrun, h⟩ := bind_eq_ok.mp h
    obtain ⟨found, hfind, h⟩ := bind_eq_ok.mp h
    obtain ⟨⟨b, e⟩, rfl, hall⟩ := (Option.any_eq_true _ _).mp (Except.ok.inj h)
    obtain ⟨hp, hx, hsize⟩ := of_decide_eq_true hall
    dsimp only at hp hx hsize hfind
    refine ⟨s, e, Shm.ReachedBy.runCalls (Shm.reachedBy_start (by decide) (by decide)) hrun, ⟨b, hfind, hp⟩,
      growthSupplied_of_le _ (by rw [hx]; decide) (by rw [hx]; decide), fun hs => ?_⟩
    have hno := hs.noWrap (by rw [hsize]; decide)
    rw [hx] at hno
    exact absurd hno (by decide)

end Vsfs
