import Vsfs.Volume.Exclusive

/-!
# Running out of space

`Exceeds c s`: the blocks that the call needs exceed the free data blocks or the block map. `__alloc_block` does not
report that, so a call that exceeds comes back with -1 only if a check made before the allocation rejects it
(`Rejected.unchanged`).

- `space_is_reported`: in every run whose calls fit or are rejected, an exceeding call returns -1 and leaves the volume
  as it was, and after every call the map of every inode holds `blocks` allocated blocks.
-/

set_option autoImplicit false

namespace Vsfs

open Function ByteSeq WordBits

/-! ## What a call needs -/

/-- The free data blocks of the device. -/
def Volume.freeDblocks (v : Volume) : Nat := (freeBelow v.cached.dbitmap v.cached.sbi.nrDregionBlocks).card

/-- Inode `i` cannot grow to hold `fin` bytes: they are beyond the map, or the blocks that are missing are not free. -/
def Volume.TooFew (v : Volume) (i fin : Nat) : Prop :=
  level3Limit < (fin + 4095) / 4096 ∨
    v.freeDblocks < (refs (v.inode i).blocks ((fin + 4095) / 4096 - (v.inode i).blocks)).length

/-- The blocks that `vsfs_creat` needs: data blocks, pointer blocks, and one for the directory if it has to grow. -/
def Volume.creatNeed (v : Volume) (n : Nat) : Nat :=
  fileNeed n + if (v.inode 0).entry < (v.inode 0).blocks * 16 % 2 ^ 32 then 0 else 1

/-- The new blocks that the call needs exceed the free data blocks or the block map. -/
def Exceeds : Call → State → Prop
  | .creat _ blockNum, s => level3Limit < blockNum.toNat ∨ s.vol.freeDblocks < s.vol.creatNeed blockNum.toNat
  | .write fildes _ nbyte, s =>
    ∃ e p, s.OpenOn fildes e p ∧ s.vol.TooFew (s.desc.opFtable p).inodeNr ((s.desc.opFtable p).offset + nbyte.toNat)
  | .lseek fildes offset whence, s =>
    ∃ e p, whence = seekSet ∧ s.OpenOn fildes e p ∧ s.vol.TooFew (s.desc.opFtable p).inodeNr offset.toNat
  | _, _ => False

/-! ## Calls that a check rejects -/

/-- A check made before any allocation rejects the call: the name is too long or taken, or the directory is full; the
descriptor is read-only or its handles are gone, or the end of the write is beyond the limit; the offset is beyond
4 GiB. -/
inductive Rejected (s : State) : Call → Prop
  | tooLong {name : CStr} {blockNum : UInt32} (h : filenameLen ≤ name.strlen) : Rejected s (.creat name blockNum)
  | duplicate {name : CStr} {blockNum : UInt32} (h : name.strlen < filenameLen)
      (hd : dupScan s.vol name (s.vol.inode 0).entry 0 (fun _ => 0) = .ok true) : Rejected s (.creat name blockNum)
  | full {name : CStr} {blockNum : UInt32} (h : Enters name s) (hi : InodeFree s) (hs : ¬(s.vol.inode 0).HasSlot)
      (hb : 49 ≤ (s.vol.inode 0).blocks) : Rejected s (.creat name blockNum)
  | write {fildes : Int} {buf : Bytes} {nbyte : UInt64} {e : FdTable} {p : Nat} (h : s.OpenOn fildes e p)
      (hfl : e.flags ≠ none) (hr : s.desc.opCounter = false ∨ e.flags = some oRdonly ∨ s.sbCached = none ∨
        level3LimitTimesBlockSize < s.desc.writeEnd p nbyte) : Rejected s (.write fildes buf nbyte)
  | unmapped {fildes whence : Int} {offset : UInt64} (h : s.desc.opCounter = false) :
      Rejected s (.lseek fildes offset whence)
  | seek {fildes : Int} {offset : UInt64} {e : FdTable} {p a : Nat} {f : File} (h : s.OpenOn fildes e p)
      (hi : s.inodeReg ≠ none ∨ s.sbCached ≠ none) (hp : (s.desc.opFtable p).filePtr = some a)
      (hf : s.desc.files a = some f) (ho : 0x100000000 < offset.toNat) : Rejected s (.lseek fildes offset seekSet)

variable {s t : State} {c : Call} {n : Nat}

theorem setInodeReg_ok (hi : s.inodeReg ≠ none ∨ s.sbCached ≠ none) : ∃ r, s.setInodeReg = .ok { s with inodeReg := r } := by
  obtain ⟨vol, desc, sb, reg, maps, base⟩ := s
  cases reg with
  | some r => exact ⟨some r, rfl⟩
  | none =>
    cases sb with
    | none => simp at hi
    | some m => exact ⟨some m, rfl⟩

/-- A full directory gives the inode back that `vsfs_creat` has taken. -/
theorem full_unchanged {sb : SbInfo} {name : CStr} {blockNum : UInt32} (now : Nat) (hf : s.vol.cached.Fits sb)
    (hsb : sb.nrIbitmapBlocks = 1) (h0 : bit s.vol.cached.ibitmap 0 = false) (h : Enters name s) (hi : InodeFree s)
    (hs : ¬(s.vol.inode 0).HasSlot) (hb : 49 ≤ (s.vol.inode 0).blocks) :
    vsfsCreat now name blockNum s = .ok (-1, s.attach.initBasePtr.closeCached) := by
  obtain ⟨j, hj, hbit⟩ := hi
  obtain ⟨k, hk⟩ := exists_least (m := s.vol.cached.ibitmap) (n := nrInodes) ⟨j, mem_freeBelow.mpr ⟨hj, hbit⟩⟩
  have hk0 : k ≠ 0 := by
    rintro rfl
    have := hk.bit
    rw [h0] at this
    contradiction
  have hbits := ibitmapBits_eq hf hsb
  have hget : getFreeInode s.vol.cached = .ok (k, s.vol.cached.takeInode k) :=
    getFreeInode_of_least (hbits ▸ hk) hk0 (Nat.lt_trans hk.lt (by decide))
  have hput : putInode (s.vol.cached.takeInode k) k = .ok s.vol.cached :=
    putInode_takeInode hk.bit hk.lt hf.nrFreeInodes
  have hroot : Volume.inode { s.vol with cached := s.vol.cached.takeInode k } 0 = s.vol.inode 0 := rfl
  unfold vsfsCreat
  dsimp only
  rw [if_neg (Nat.not_le.mpr h.1)]
  simp only [initBasePtr_attach, initBasePtr_vol, attach_vol, h.2, ExceptLib.ok_bind, hget, hroot, Bool.false_eq_true, if_false]
  unfold Inode.HasSlot at hs
  rw [if_neg hs, if_neg (Nat.not_lt.mpr hb), hput]
  simp only [ExceptLib.ok_bind]
  have hsame : { s.attach.initBasePtr with vol := s.vol } = s.attach.initBasePtr := by rw [← attach_vol s]; rfl
  exact congrArg (fun u => Except.ok (-1, u.closeCached)) hsame

/-- **A rejected call** returns -1 and leaves the volume as it was. -/
theorem Rejected.unchanged {sb : SbInfo} (h : Rejected s c) (now : Nat) (hf : s.vol.cached.Fits sb)
    (hsb : sb.nrIbitmapBlocks = 1) (h0 : bit s.vol.cached.ibitmap 0 = false) :
    ∃ t, c.run now s = .ok (-1, t) ∧ t.vol = s.vol := by
  cases h with
  | @tooLong name blockNum h =>
    refine ⟨s.initBasePtr, ?_, rfl⟩
    show vsfsCreat now name blockNum s = _
    unfold vsfsCreat
    dsimp only
    rw [if_pos h]
  | @duplicate name blockNum h hd =>
    refine ⟨s.attach.initBasePtr.closeCached, ?_, attach_vol s⟩
    show vsfsCreat now name blockNum s = _
    unfold vsfsCreat
    dsimp only
    rw [if_neg (Nat.not_le.mpr h)]
    simp only [initBasePtr_attach, initBasePtr_vol, attach_vol, hd, ExceptLib.ok_bind, if_true]
  | full h hi hs hb => exact ⟨_, full_unchanged now hf hsb h0 h hi hs hb, attach_vol s⟩
  | @write fildes buf nbyte e p h hfl hr =>
    obtain ⟨b, hfind, hp⟩ := h
    obtain ⟨fl, hset⟩ := Option.ne_none_iff_exists'.mp hfl
    rw [hset, Option.some.injEq] at hr
    refine ⟨s, ?_, rfl⟩
    show vsfsWrite now fildes buf nbyte s = _
    unfold vsfsWrite
    rw [hfind]
    simp only [ExceptLib.ok_bind, slot_eq_ok.mpr hp, accessMode_eq_ok.mpr hset]
    split_ifs with h1 h2 h3 h4
    all_goals first | rfl | skip
    exact absurd hr (by
      rintro (h | h | h | h)
      · exact h1 h
      · exact h2 h
      · exact h3 h
      · exact h4 h)
  | @unmapped fildes whence offset h =>
    have hl : vsfsLseek fildes offset whence s = .ok (seekError, s) := by
      unfold vsfsLseek
      rw [if_pos h]
    refine ⟨s, ?_, rfl⟩
    unfold Call.run
    simp only [hl, ExceptLib.ok_bind, if_true]
  | @seek fildes offset e p a f h hi hp hfile ho =>
    obtain ⟨b, hfind, hptr⟩ := h
    obtain ⟨r, hr⟩ := setInodeReg_ok hi
    obtain ⟨t, hv, hl⟩ : ∃ t, t.vol = s.vol ∧ vsfsLseek fildes offset seekSet s = .ok (seekError, t) := by
      unfold vsfsLseek
      by_cases hoc : s.desc.opCounter = false
      · exact ⟨s, rfl, by rw [if_pos hoc]⟩
      · refine ⟨{ s with inodeReg := r }, rfl, ?_⟩
        rw [if_neg hoc]
        simp only [hr, ExceptLib.ok_bind, hfind, slot_eq_ok.mpr hptr, fileOf_eq_ok.mpr ⟨hp, hfile⟩, if_true, ho]
    refine ⟨t, ?_, hv⟩
    unfold Call.run
    simp only [hl, ExceptLib.ok_bind, if_true]

/-! ## The blocks that a map holds -/

/-- The allocated blocks that the map of inode `i` lists. -/
def Volume.heldBlocks (v : Volume) (i : Nat) : Finset Nat :=
  (v.dataBlocks i (min (v.inode i).blocks level3Limit)).toFinset.filter fun b =>
    b < v.cached.sbi.nrDregionBlocks ∧ bit v.cached.dbitmap b = false

/-- The number of blocks of every inode is the number of allocated blocks that its map holds. -/
def Volume.BlocksHeld (v : Volume) : Prop := ∀ i, i < nrInodes → (v.inode i).blocks = (v.heldBlocks i).card

theorem ExclusiveBlocks.blocksHeld {v : Volume} (h : ExclusiveBlocks v) : v.BlocksHeld := by
  intro i hi
  have hcap := h.inMap i hi
  have hused : ∀ k, k < (v.inode i).blocks → (i, dataRef k) ∈ v.used ∧ (dataRef k).first = k := by
    intro k hk
    obtain ⟨hv, _, hfirst⟩ := dataRef_spec (k := k) (by omega)
    exact ⟨⟨hi, hv, by rw [hfirst]; exact hk⟩, hfirst⟩
  unfold Volume.heldBlocks
  rw [Nat.min_eq_left hcap, Finset.filter_true_of_mem, List.toFinset_card_of_nodup, dataBlocks_length]
  · refine List.Nodup.map_on (fun a ha b hb he => ?_) List.nodup_range
    obtain ⟨hua, hfa⟩ := hused a (List.mem_range.mp ha)
    obtain ⟨hub, hfb⟩ := hused b (List.mem_range.mp hb)
    have := congrArg (fun p : Nat × Ref => p.2.first) (h.distinct _ _ hua hub he)
    dsimp only at this
    omega
  · intro b hb
    obtain ⟨k, hk, rfl⟩ := mem_dataBlocks.mp (List.mem_toFinset.mp hb)
    exact ⟨h.lt _ (hused k hk).1, h.taken _ (hused k hk).1⟩

/-! ## The main theorem -/

/-- The call fits, or a check rejects it. -/
def SpaceOk (c : Call) (s : State) : Prop := OwnershipOk c s ∧ (Exceeds c s → Rejected s c)

/-- **Exhaustion is reported** in every run whose calls meet the condition: the call that exceeds returns -1 and leaves
the volume as it was, and after every call the maps hold as many allocated blocks as the inodes say. -/
theorem space_is_reported (h : ReachedBy SpaceOk s) (hc : SpaceOk c s) :
    (Exceeds c s → ∀ now, ∃ t, c.run now s = .ok (-1, t) ∧ t.vol = s.vol) ∧ (∀ t, Step c s t → t.vol.BlocksHeld) := by
  have hown : ReachedBy OwnershipOk s := h.mono fun c u h => h.1
  refine ⟨fun he now => ?_, fun t hs => (blocks_are_exclusive (hown.step hc.1 hs)).blocksHeld⟩
  obtain ⟨n, hn⟩ := hown
  have hst := hn.owned.1
  exact (hc.2 he).unchanged now hst.fits (superblockInfo_layout hn.1 hn.2.1).nrIbitmapBlocks hst.root

/-- Of four free blocks `a` takes three; a second `a` of three blocks exceeds what is left, and is refused. -/
theorem space_is_reported_taken : ∃ s t, Step (.creat (letter 0) 3) (blankVolume 2056) s ∧
    Exceeds (.creat (letter 0) 3) s ∧ Call.run 0 (.creat (letter 0) 3) s = .ok (-1, t) ∧ t.vol = s.vol ∧
    t.vol.BlocksHeld := by
  have h : (do
      let r ← Call.run 0 (.creat (letter 0) 3) (blankVolume 2056)
      let dup ← dupScan r.2.vol (letter 0) (r.2.vol.inode 0).entry 0 (fun _ => 0)
      .ok (decide (dup = true ∧ r.2.vol.freeDblocks < r.2.vol.creatNeed 3)) : M Bool) = .ok true := by decide +kernel
  obtain ⟨⟨r, s⟩, hrun, h⟩ := ExceptLib.bind_eq_ok.mp h
  obtain ⟨dup, hdup, h⟩ := ExceptLib.bind_eq_ok.mp h
  obtain ⟨rfl, hless⟩ := of_decide_eq_true (Except.ok.inj h)
  have hs : Step (.creat (letter 0) 3) (blankVolume 2056) s := ⟨0, r, by decide, hrun⟩
  have hfirst : SpaceOk (.creat (letter 0) 3) (blankVolume 2056) := by
    refine ⟨⟨?_, ?_⟩, fun hex => absurd hex ?_⟩
    · exact fresh_creat_device (by decide) (by decide) _ _ _ (by decide) (by decide)
    · rintro _ _ ⟨⟩ _ _
      decide
    · show ¬(_ ∨ _)
      decide +kernel
  have hnot : ¬Enters (letter 0) s := fun hent => by
    have hno := hent.2
    rw [hdup] at hno
    cases hno
  have hex : Exceeds (.creat (letter 0) 3) s := Or.inr hless
  have hsecond : SpaceOk (.creat (letter 0) 3) s := by
    refine ⟨⟨fun hent => absurd hent hnot, ?_⟩, fun _ => .duplicate (by decide) hdup⟩
    rintro _ _ ⟨⟩ hent
    exact absurd hent hnot
  obtain ⟨hfail, hheld⟩ := space_is_reported ((reachedBy_blankVolume (by decide) (by decide)).step hfirst hs) hsecond
  obtain ⟨t, ht, hvol⟩ := hfail hex 0
  exact ⟨s, t, hs, hex, ht, hvol, hheld t ⟨0, -1, by decide, ht⟩⟩

/-- With no free block left `vsfs_creat` of a file of one block succeeds. -/
theorem creat_ignores_exhaustion : ∃ s c, Reached s ∧ Exceeds c s ∧ ∃ t, c.run 0 s = .ok (0, t) := by
  have h : (do
      let r ← Call.run 0 (.creat ⟨[97], by decide⟩ 1) (blankVolume 2052)
      .ok (decide (r.1 = 0)) : M Bool) = .ok true := by decide +kernel
  obtain ⟨⟨r, t⟩, hrun, hr⟩ := ExceptLib.bind_eq_ok.mp h
  have hr0 : r = 0 := of_decide_eq_true (Except.ok.inj hr)
  subst hr0
  have hex : Exceeds (.creat ⟨[97], by decide⟩ 1) (blankVolume 2052) := by
    refine Or.inr ?_
    decide +kernel
  exact ⟨_, _, reachedBy_blankVolume (by decide) (by decide), hex, t, hrun⟩

end Vsfs
