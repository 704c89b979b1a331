import Vsfs.Volume.Lookup
import Vsfs.Volume.Space
import Vsfs.Volume.Total

/-!
# Runs of `vsfs_creat`, whatever blocks they are given

`vsfs_creat` does not look at the results of the allocators, so the directory's entry count, the inode bitmap and the
counter of free inodes evolve in the same way when blocks run out.

- `CreatEntered.counted`: what a call that takes an inode does to them;
- `Counted.step`: one call keeps the accounts;
- `inodes_are_counted`: no inode is given to two files, and inode 0 to none;
- `creat_fails_iff`: a call fails exactly for a reason, and then leaves the volume as it was.
-/

set_option autoImplicit false

namespace Vsfs

open Function ByteSeq WordBits GuardedRun

variable {sb : SbInfo} {s t : State} {v w : Volume} {log log' : List (CStr × Nat)} {name : CStr} {now n i d e : Nat}

/-! ## One call -/

/-- The root inode after an entry has been made. -/
structure RootEntered (x y : Inode) (blocks : Nat) : Prop where
  entry : y.entry = succ32 x.entry
  blocks : y.blocks = blocks

/-- **From the label `adding_entry` on**: one entry more, and the inode bitmap and its counter stay. -/
theorem addingEntry_entered (hi : i ≠ 0) (h : addingEntry now name n i d e v = .ok w) :
    RootEntered (v.inode 0) (w.inode 0) (v.inode 0).blocks ∧ w.cached.ibitmap = v.cached.ibitmap ∧
      w.cached.sbi.nrFreeInodes = v.cached.sbi.nrFreeInodes := by
  unfold addingEntry at h
  split at h
  case isTrue => cases h
  case isFalse =>
  obtain ⟨x, _, h⟩ := ExceptLib.bind_eq_ok.mp h
  obtain ⟨⟨r, u⟩, hal, h⟩ := ExceptLib.bind_eq_ok.mp h
  cases h
  obtain ⟨c, hf, _⟩ := allocBlock_frame (by rw [modInode_inode_self]; exact Nat.two_pow_pos 32) hal
  have hroot := hf.other 0 hi.symm
  rw [modInode_inode_of_ne _ _ hi.symm, modInode_inode_self] at hroot
  obtain ⟨k, hk⟩ := hf.sbi
  rw [modInode_inode_of_ne _ _ hi.symm, hroot]
  refine ⟨⟨rfl, rfl⟩, hf.ibitmap, ?_⟩
  rw [modInode_sbi, hk]
  rfl

instance (x : Inode) : Decidable x.HasSlot := inferInstanceAs (Decidable (_ < _))

/-- What a `vsfs_creat` that returns 0 does to the accounts, inode `i` having been taken. -/
structure EntryCounted (i : Nat) (v w : Volume) : Prop where
  root : RootEntered (v.inode 0) (w.inode 0) ((v.inode 0).blocks + if (v.inode 0).HasSlot then 0 else 1)
  blocks : (v.inode 0).HasSlot ∨ (v.inode 0).blocks < 49
  ibitmap : w.cached.ibitmap = clear v.cached.ibitmap i
  counter : w.cached.sbi.nrFreeInodes = pred32 v.cached.sbi.nrFreeInodes

/-- **A `vsfs_creat` that takes an inode** enters the file, or gives the inode back. -/
theorem CreatEntered.counted {ret : Int} (hi : i ≠ 0)
    (h : CreatEntered now name n i (s.vol.cached.takeInode i) s t ret) :
    (ret = 0 ∧ EntryCounted i s.vol t.vol) ∨
    (ret = -1 ∧ ¬(s.vol.inode 0).HasSlot ∧ 49 ≤ (s.vol.inode 0).blocks ∧
      ∃ c, putInode (s.vol.cached.takeInode i) i = .ok c ∧ t.vol = { s.vol with cached := c }) := by
  cases h with
  | slot hs ha ht =>
    obtain ⟨hroot, hib, hn⟩ := addingEntry_entered hi ha
    refine Or.inl ⟨rfl, ?_, Or.inl hs, ?_, ?_⟩
    · rw [if_pos hs, ht]
      exact hroot
    · rw [ht]
      exact hib
    · rw [ht]
      exact hn
  | @grow b v₁ v hs hb hg ha ht =>
    obtain ⟨hroot, hib, hn⟩ := addingEntry_entered hi ha
    obtain ⟨hin, hib', _, k, hk⟩ := getFreeDblock_frame hg
    refine Or.inl ⟨rfl, ?_, Or.inr hb, ?_, ?_⟩
    · rw [if_neg hs, ht]
      unfold Volume.growRoot at hroot
      rw [modInode_inode_self, hin] at hroot
      exact ⟨hroot.entry, hroot.blocks⟩
    · rw [ht]
      exact hib.trans hib'
    · rw [ht]
      exact hn.trans (congrArg SbInfo.nrFreeInodes hk)
  | full hs hb hp ht => exact Or.inr ⟨rfl, hs, hb, _, hp, by rw [ht]; rfl⟩

/-! ## The accounts -/

/-- The entries of the directory fit its blocks, and the inodes of the log are the ones in use. -/
structure Counted (sb : SbInfo) (log : List (CStr × Nat)) (s : State) : Prop where
  fits : s.vol.cached.Fits sb
  entry : (s.vol.inode 0).entry = log.length + 2
  slots : (s.vol.inode 0).entry ≤ 16 * (s.vol.inode 0).blocks
  blocks : (s.vol.inode 0).blocks ≤ 49
  inodes : (0 :: log.map Prod.snd).Nodup
  valid : ∀ x, x ∈ log → x.2 < nrInodes
  taken : ∀ j, j < nrInodes → (bit s.vol.cached.ibitmap j = true ↔ j ∉ 0 :: log.map Prod.snd)
  counter : s.vol.cached.sbi.nrFreeInodes = (freeBelow s.vol.cached.ibitmap nrInodes).card

/-- The free inodes are those that are not in the log. -/
theorem Counted.card (h : Counted sb log s) :
    (freeBelow s.vol.cached.ibitmap nrInodes).card + (log.length + 1) = nrInodes := by
  have hfree : freeBelow s.vol.cached.ibitmap nrInodes =
      Finset.range nrInodes \ (0 :: log.map Prod.snd).toFinset := by
    ext j
    rw [mem_freeBelow, Finset.mem_sdiff, Finset.mem_range, List.mem_toFinset]
    exact and_congr_right fun hj => h.taken j hj
  have hsub : (0 :: log.map Prod.snd).toFinset ⊆ Finset.range nrInodes := by
    intro j hj
    rw [List.mem_toFinset, List.mem_cons, List.mem_map] at hj
    rw [Finset.mem_range]
    rcases hj with rfl | ⟨x, hx, rfl⟩
    · decide
    · exact h.valid x hx
  have hlen : (0 :: log.map Prod.snd).toFinset.card = log.length + 1 := by
    rw [List.toFinset_card_of_nodup h.inodes, List.length_cons, List.length_map]
  have hle := Finset.card_le_card hsub
  rw [hfree, Finset.card_sdiff_of_subset hsub, Finset.card_range, hlen]
  rw [hlen, Finset.card_range] at hle
  omega

theorem Counted.root (h : Counted sb log s) : bit s.vol.cached.ibitmap 0 = false := by
  cases hb : bit s.vol.cached.ibitmap 0 with
  | false => rfl
  | true => exact absurd List.mem_cons_self ((h.taken 0 (by decide)).mp hb)

/-- A directory holds fewer files than there are inodes. -/
theorem Counted.inodeFree (h : Counted sb log s) : InodeFree s := by
  have hcard := h.card
  have := h.entry
  have := h.slots
  have := h.blocks
  have hn : nrInodes = 32768 := rfl
  obtain ⟨j, hj⟩ := Finset.card_pos.mp (by omega : 0 < (freeBelow s.vol.cached.ibitmap nrInodes).card)
  exact ⟨j, mem_freeBelow.mp hj⟩

/-- **`get_free_inode`** finds an inode, and never returns 0. -/
theorem Counted.take {c : Cached} (h : Counted sb log s) (hsb : sb.nrIbitmapBlocks = 1)
    (hi : getFreeInode s.vol.cached = .ok (i, c)) :
    i ≠ 0 ∧ Least s.vol.cached.ibitmap nrInodes i ∧ c = s.vol.cached.takeInode i :=
  takeInode_spec hi h.root (ibitmapBits_eq h.fits hsb) h.inodeFree

/-- One file more. -/
theorem Counted.enter (h : Counted sb log s) (hf : t.vol.cached.Fits sb)
    (hleast : Least s.vol.cached.ibitmap nrInodes i) (he : EntryCounted i s.vol t.vol) :
    Counted sb (log ++ [(name, i)]) t := by
  have hentry := h.entry
  have hslots := h.slots
  have hblocks := h.blocks
  have hnew := (h.taken i hleast.lt).mp hleast.bit
  have hsucc : succ32 (s.vol.inode 0).entry = (s.vol.inode 0).entry + 1 := succ32_of_lt (by omega)
  have hmem : ∀ j, j ∈ 0 :: (log ++ [(name, i)]).map Prod.snd ↔ j ∈ 0 :: log.map Prod.snd ∨ j = i := by
    intro j
    simp only [List.map_append, List.mem_cons, List.mem_append, List.map_cons, List.map_nil, List.not_mem_nil, or_false]
    tauto
  have hroot := he.root
  refine ⟨hf, ?_, ?_, ?_, ?_, fun x hx => ?_, fun j hj => ?_, ?_⟩
  · rw [hroot.entry, hsucc, hentry, List.length_append, List.length_singleton]
  · rw [hroot.entry, hroot.blocks, hsucc]
    split
    case isTrue hs =>
      have := (hasSlot_iff hblocks).mp hs
      omega
    case isFalse => omega
  · rw [hroot.blocks]
    split
    case isTrue => omega
    case isFalse hs =>
      have := he.blocks.resolve_left hs
      omega
  · rw [List.map_append, ← List.cons_append, List.nodup_append_comm]
    exact List.nodup_cons.mpr ⟨hnew, h.inodes⟩
  · rcases List.mem_append.mp hx with hx | hx
    · exact h.valid x hx
    · rw [List.mem_singleton.mp hx]
      exact hleast.lt
  · rw [he.ibitmap, bit_clear, Bool.and_eq_true, decide_eq_true_eq, h.taken j hj, hmem, not_or]
  · have hcard := card_freeBelow_clear hleast.lt hleast.bit
    rw [he.ibitmap, he.counter, pred32_of_pos (by rw [h.counter]; omega), h.counter]
    omega

/-- **One call** keeps the accounts. -/
theorem Counted.step {c : CStr × UInt32} (h : Counted sb log s) (hsb : sb.nrIbitmapBlocks = 1)
    (hs : Logged c (log, s) (log', t)) : Counted sb log' t := by
  obtain ⟨name, blockNum⟩ := c
  obtain ⟨now, ret, hn, hr, hlog⟩ := hs
  dsimp only at hr hlog
  have hf : t.vol.cached.Fits sb := Step.fits (c := .creat name blockNum) ⟨now, ret, hn, hr⟩ h.fits
  -- a call that fails leaves the log and the volume
  have hfail : ret = -1 → t.vol = s.vol → Counted sb log' t := by
    rintro rfl hv
    obtain rfl : log' = log := by
      rcases hlog with ⟨h0, _⟩ | ⟨_, hl⟩
      · exact absurd h0 (by decide)
      · exact hl
    exact ⟨hf, by rw [hv]; exact h.entry, by rw [hv]; exact h.slots, by rw [hv]; exact h.blocks, h.inodes, h.valid,
      by rw [hv]; exact h.taken, by rw [hv]; exact h.counter⟩
  rcases vsfsCreat_cases hr with ⟨hret, hrej⟩ | ⟨_, _, i, c, hi, hent⟩
  · cases hrej with
    | tooLong _ ht => exact hfail hret (by rw [ht]; rfl)
    | duplicate _ _ ht => exact hfail hret (by rw [ht]; exact attach_vol s)
  · obtain ⟨hi0, hleast, rfl⟩ := h.take hsb hi
    rcases hent.counted hi0 with ⟨rfl, hc⟩ | ⟨hret, _, _, c, hp, hv⟩
    · obtain rfl : log' = log ++ [(name, i)] := by
        rcases hlog with ⟨_, j, cached, hj, hl⟩ | ⟨h0, _⟩
        · rw [hi] at hj
          cases hj
          exact hl
        · exact absurd rfl h0
      exact h.enter hf hleast hc
    · rw [putInode_takeInode hleast.bit hleast.lt h.fits.nrFreeInodes] at hp
      cases hp
      exact hfail hret hv

theorem fresh_counted (hl : 2052 ≤ n) (hu : n < 2 ^ 32) (disk : Nat → Block) (seg : Bytes) :
    Counted (superblockInfo n) [] (State.fresh n disk seg) := by
  obtain ⟨hrb, hrs, _⟩ := fresh_root hl hu disk seg
  have htaken : ∀ j, j < nrInodes →
      (bit (State.fresh n disk seg).vol.cached.ibitmap j = true ↔ j ∉ 0 :: ([] : List (CStr × Nat)).map Prod.snd) := by
    intro j hj
    rw [fresh_ibitmap hl hu disk seg hj]
    simp
  have hfree : freeBelow (State.fresh n disk seg).vol.cached.ibitmap nrInodes = (Finset.range nrInodes).erase 0 := by
    ext j
    rw [mem_freeBelow, Finset.mem_erase, Finset.mem_range]
    constructor
    · rintro ⟨hj, hb⟩
      exact ⟨by simpa using (htaken j hj).mp hb, hj⟩
    · rintro ⟨h0, hj⟩
      exact ⟨hj, (htaken j hj).mpr (by simpa using h0)⟩
  refine ⟨fresh_fits hl hu disk seg, hrs, ?_, by rw [hrb]; decide, by decide, fun x hx => (List.not_mem_nil hx).elim,
    htaken, ?_⟩
  · unfold Inode.entry
    rw [hrb, hrs]
    decide
  · rw [hfree, Finset.card_erase_of_mem (Finset.mem_range.mpr (by decide)), Finset.card_range, fresh_sbi hl hu,
      superblockInfo_eq hl hu]
    rfl

/-- In every run of `vsfs_creat` calls the accounts are kept. -/
theorem CreatedBy.counted {ok : CStr × UInt32 → LoggedState → Prop} (h : CreatedBy ok log s) :
    ∃ n, 2052 ≤ n ∧ n < 2 ^ 32 ∧ Counted (superblockInfo n) log s := by
  obtain ⟨n, disk, seg, hl, hu, hr⟩ := h
  refine ⟨n, hl, hu, ?_⟩
  exact hr.invariant (P := fun x => Counted (superblockInfo n) x.1 x.2) (fresh_counted hl hu disk seg)
    fun c x y hP _ hs => hP.step (superblockInfo_layout hl hu).nrIbitmapBlocks hs

/-! ## Inode numbers -/

/-- The directory's entries fit its blocks, all inodes but those of the entries are free, and they are counted; the two
entries of the root directory share inode 0. -/
structure InodeAccounting (v : Volume) : Prop where
  two : 2 ≤ (v.inode 0).entry
  slots : (v.inode 0).entry ≤ 16 * (v.inode 0).blocks
  blocks : (v.inode 0).blocks ≤ 49
  cleared : ((Finset.range nrInodes).filter fun j => bit v.cached.ibitmap j = false).card = (v.inode 0).entry - 1
  counter : v.cached.sbi.nrFreeInodes = ((Finset.range nrInodes).filter fun j => bit v.cached.ibitmap j = true).card

theorem Counted.accounting (h : Counted sb log s) : InodeAccounting s.vol := by
  have hentry := h.entry
  have hcard := h.card
  refine ⟨by omega, h.slots, h.blocks, ?_, h.counter⟩
  have hsplit := Finset.card_filter_add_card_filter_not (s := Finset.range nrInodes)
    fun j => bit s.vol.cached.ibitmap j = true
  simp only [Bool.not_eq_true, Finset.card_range] at hsplit
  unfold freeBelow at hcard
  omega

/-- **Inodes are counted and given once** in every run of `vsfs_creat` calls: the next call finds an inode other than 0,
and the numbers that the files were given are different. -/
theorem inodes_are_counted (h : CreatedBy (fun _ _ => True) log s) :
    InodeAccounting s.vol ∧ (∃ i c, getFreeInode s.vol.cached = .ok (i, c) ∧ i ≠ 0) ∧
      (∀ x, x ∈ log → x.2 ≠ 0 ∧ x.2 < 32768) ∧ (log.map Prod.snd).Nodup := by
  obtain ⟨n, hl, hu, hc⟩ := h.counted
  obtain ⟨h0, hn⟩ := List.nodup_cons.mp hc.inodes
  refine ⟨hc.accounting, ?_, fun x hx => ⟨fun hx0 => h0 ?_, hc.valid x hx⟩, hn⟩
  · obtain ⟨j, hj, hbit⟩ := hc.inodeFree
    obtain ⟨k, hk⟩ := exists_least (m := s.vol.cached.ibitmap) (n := nrInodes) ⟨j, mem_freeBelow.mpr ⟨hj, hbit⟩⟩
    have hk0 : k ≠ 0 := by
      rintro rfl
      have := hk.bit
      rw [hc.root] at this
      contradiction
    have hbits := ibitmapBits_eq hc.fits (superblockInfo_layout hl hu).nrIbitmapBlocks
    exact ⟨k, _, getFreeInode_of_least (hbits ▸ hk) hk0 (Nat.lt_trans hk.lt (by decide)), hk0⟩
  · rw [← hx0]
    exact List.mem_map_of_mem hx

/-- A file created on a blank volume. -/
theorem inodes_are_counted_one : ∃ s, vsfsCreat 0 (letter 0) 3 (blankVolume 4096) = .ok (0, s) ∧
    InodeAccounting s.vol ∧ (∃ i c, getFreeInode s.vol.cached = .ok (i, c) ∧ i ≠ 0) := by
  have h : (do
      let r ← vsfsCreat 0 (letter 0) 3 (blankVolume 4096)
      let i ← getFreeInode (blankVolume 4096).vol.cached
      .ok (decide (r.1 = 0 ∧ i.1 = 1)) : M Bool) = .ok true := by decide +kernel
  obtain ⟨⟨r, s⟩, hrun, h⟩ := ExceptLib.bind_eq_ok.mp h
  obtain ⟨⟨i, c⟩, hget, h⟩ := ExceptLib.bind_eq_ok.mp h
  obtain ⟨rfl, rfl⟩ := of_decide_eq_true (Except.ok.inj h)
  have hby : CreatedBy (fun _ _ => True) [(letter 0, 1)] s :=
    ⟨4096, fun _ _ => 0, fun _ => 0, by decide, by decide, (Run.refl _).snoc (c := (letter 0, 3)) trivial
      ⟨0, 0, by decide, hrun, Or.inl ⟨rfl, 1, c, hget, rfl⟩⟩⟩
  obtain ⟨ha, hi, _⟩ := inodes_are_counted hby
  exact ⟨s, hrun, ha, hi⟩

/-! ## Failures -/

/-- The reasons for which `vsfs_creat` fails: the name is too long, a slot in use holds it, or the directory is full. -/
def CreatFails (name : CStr) (v : Volume) : Prop :=
  filenameLen ≤ name.strlen ∨
  (∃ i, i < (v.inode 0).entry ∧ slotNamed (v.disk (v.lba ((v.inode 0).l1 (i / 16)))) (i % 16) name = true) ∨
  ((v.inode 0).entry = 16 * (v.inode 0).blocks ∧ (v.inode 0).blocks = 49)

/-- **The duplicate check** looks at every slot from entry `i` on; `buf` is the block of the entry before. -/
theorem dupScan_slots (v : Volume) (name : CStr) {n i : Nat} {buf : Block} (hn : i + n ≤ 784)
    (hbuf : i % 16 ≠ 0 → buf = v.disk (v.lba ((v.inode 0).l1 (i / 16)))) :
    ∃ found, dupScan v name n i buf = .ok found ∧ (found = true ↔
      ∃ j, i ≤ j ∧ j < i + n ∧ slotNamed (v.disk (v.lba ((v.inode 0).l1 (j / 16)))) (j % 16) name = true) := by
  induction n generalizing i buf with
  | zero => exact ⟨false, rfl, by simp; omega⟩
  | succ n ih =>
    have hread := entryBlock_eq (i := i) (q := i / 16) (by unfold level1Limit; omega) (fun _ => rfl) hbuf
    unfold dupScan
    rw [hread]
    simp only [ExceptLib.ok_bind]
    cases hs : slotNamed (v.disk (v.lba ((v.inode 0).l1 (i / 16)))) (i % 16) name with
    | true => exact ⟨true, rfl, by simp only [true_iff]; exact ⟨i, Nat.le_refl _, by omega, hs⟩⟩
    | false =>
      obtain ⟨found, hd, hf⟩ := @ih (i + 1) (v.disk (v.lba ((v.inode 0).l1 (i / 16)))) (by omega)
        fun h0 => by rw [show (i + 1) / 16 = i / 16 by omega]
      refine ⟨found, hd, hf.trans ⟨?_, ?_⟩⟩
      · rintro ⟨j, hj, hlt, hm⟩
        exact ⟨j, by omega, by omega, hm⟩
      · rintro ⟨j, hj, hlt, hm⟩
        have hne : j ≠ i := by
          rintro rfl
          rw [hs] at hm
          contradiction
        exact ⟨j, by omega, by omega, hm⟩

/-- The check of a directory whose entries fit its blocks. -/
theorem Counted.dupScan (h : Counted sb log s) (name : CStr) :
    ∃ found, Vsfs.dupScan s.vol name (s.vol.inode 0).entry 0 (fun _ => 0) = .ok found ∧ (found = true ↔
      ∃ i, i < (s.vol.inode 0).entry ∧
        slotNamed (s.vol.disk (s.vol.lba ((s.vol.inode 0).l1 (i / 16)))) (i % 16) name = true) := by
  have hslots := h.slots
  have hblocks := h.blocks
  obtain ⟨found, hd, hf⟩ := @dupScan_slots s.vol name (s.vol.inode 0).entry 0 (fun _ => 0) (by omega)
    fun h0 => absurd rfl h0
  refine ⟨found, hd, hf.trans ?_⟩
  simp only [Nat.zero_le, true_and, Nat.zero_add]

/-- **A failing `vsfs_creat`** has a reason, and leaves the volume as it was. -/
theorem Counted.fails {blockNum : UInt32} (h : Counted sb log s) (hsb : sb.nrIbitmapBlocks = 1)
    (hc : vsfsCreat now name blockNum s = .ok (-1, t)) : CreatFails name s.vol ∧ t.vol = s.vol := by
  obtain ⟨found, hd, hf⟩ := h.dupScan name
  rcases vsfsCreat_cases hc with ⟨_, hrej⟩ | ⟨_, _, i, c, hi, hent⟩
  · cases hrej with
    | tooLong hlen ht => exact ⟨Or.inl hlen, by rw [ht]; rfl⟩
    | duplicate _ hdup ht =>
      rw [hd] at hdup
      exact ⟨Or.inr (Or.inl (hf.mp (Except.ok.inj hdup))), by rw [ht]; exact attach_vol s⟩
  · obtain ⟨hi0, hleast, rfl⟩ := h.take hsb hi
    rcases hent.counted hi0 with ⟨h0, _⟩ | ⟨_, hs, hb, c, hp, hv⟩
    · exact absurd h0 (by decide)
    · rw [putInode_takeInode hleast.bit hleast.lt h.fits.nrFreeInodes] at hp
      cases hp
      have hslots := h.slots
      have hblocks := h.blocks
      rw [hasSlot_iff hblocks] at hs
      exact ⟨Or.inr (Or.inr ⟨by omega, by omega⟩), hv⟩

/-- With a reason `vsfs_creat` returns -1. -/
theorem Counted.fails_of {blockNum : UInt32} (h : Counted sb log s) (hsb : sb.nrIbitmapBlocks = 1) (now : Nat)
    (hr : CreatFails name s.vol) : ∃ t, vsfsCreat now name blockNum s = .ok (-1, t) := by
  by_cases hlen : filenameLen ≤ name.strlen
  · refine ⟨s.initBasePtr, ?_⟩
    unfold vsfsCreat
    dsimp only
    rw [if_pos hlen]
  · obtain ⟨found, hd, hf⟩ := h.dupScan name
    cases found with
    | true =>
      refine ⟨s.attach.initBasePtr.closeCached, ?_⟩
      unfold vsfsCreat
      dsimp only
      rw [if_neg hlen]
      simp only [initBasePtr_attach, initBasePtr_vol, attach_vol, hd, ExceptLib.ok_bind, if_true]
    | false =>
      have hfull : (s.vol.inode 0).entry = 16 * (s.vol.inode 0).blocks ∧ (s.vol.inode 0).blocks = 49 := by
        rcases hr with hr | hr | hr
        · exact absurd hr hlen
        · exact absurd (hf.mpr hr) (by simp)
        · exact hr
      have hno : ¬(s.vol.inode 0).HasSlot := by
        rw [hasSlot_iff h.blocks]
        omega
      exact ⟨_, full_unchanged now h.fits hsb h.root ⟨by omega, hd⟩ h.inodeFree hno (by omega)⟩

/-- **`vsfs_creat` fails exactly for a reason**, in every state that `vsfs_creat` calls lead to, and then the cached data
and the device are as they were. -/
theorem creat_fails_iff (h : CreatedBy (fun _ _ => True) log s) (now : Nat) (name : CStr) (blockNum : UInt32) :
    ((∃ t, vsfsCreat now name blockNum s = .ok (-1, t)) ↔ CreatFails name s.vol) ∧
      ∀ t, vsfsCreat now name blockNum s = .ok (-1, t) → t.vol = s.vol := by
  obtain ⟨n, hl, hu, hc⟩ := h.counted
  have hsb := (superblockInfo_layout hl hu).nrIbitmapBlocks
  exact ⟨⟨fun ⟨t, ht⟩ => (hc.fails hsb ht).1, fun hr => hc.fails_of hsb now hr⟩, fun t ht => (hc.fails hsb ht).2⟩

/-- After `a` has been created `a` is refused, and `b` is not. -/
theorem creat_fails_iff_taken : ∃ log s, CreatedBy (fun _ _ => True) log s ∧ log = [(letter 0, 1)] ∧
    (∃ t, vsfsCreat 0 (letter 0) 1 s = .ok (-1, t) ∧ CreatFails (letter 0) s.vol ∧ t.vol = s.vol) ∧
    ¬CreatFails (letter 1) s.vol := by
  have h : (do
      let x ← createAll [(letter 0, 3)] ([], blankVolume 4096)
      let r ← vsfsCreat 0 (letter 0) 1 x.2
      let q ← vsfsCreat 0 (letter 1) 1 x.2
      .ok (decide (x.1 = [(letter 0, 1)] ∧ r.1 = -1 ∧ q.1 = 0)) : M Bool) = .ok true := by decide +kernel
  obtain ⟨⟨log, s⟩, hrun, h⟩ := ExceptLib.bind_eq_ok.mp h
  obtain ⟨⟨r, t⟩, hr, h⟩ := ExceptLib.bind_eq_ok.mp h
  obtain ⟨⟨q, u⟩, hq, h⟩ := ExceptLib.bind_eq_ok.mp h
  obtain ⟨hlog, rfl, rfl⟩ := of_decide_eq_true (Except.ok.inj h)
  have hc : CreatedBy (fun _ _ => True) log s := ⟨4096, _, _, by decide, by decide, run_createAll hrun⟩
  obtain ⟨hiff, hkeep⟩ := creat_fails_iff hc 0 (letter 0) 1
  refine ⟨log, s, hc, hlog, ⟨t, hr, hiff.mp ⟨t, hr⟩, hkeep t hr⟩, fun hf => ?_⟩
  obtain ⟨u', hu'⟩ := (creat_fails_iff hc 0 (letter 1) 1).1.mpr hf
  rw [hq] at hu'
  cases hu'

end Vsfs
