import Vsfs.Volume.Supply

/-!
# A file that grows keeps its blocks

`__alloc_block` appends to the block map of an inode: in a well-formed volume, when no call of `get_free_dblock` returns
0, the map is the old one followed by blocks that were free.

- `v.mapBlock i k`: data block `k` of inode `i`, read through the three levels of its map;
- `allocBlock_newRefs`: `__alloc_block` gives blocks to the references `newRefs`;
- `allocBlock_appends`: what the map of the inode is afterwards, and that of every other inode.
-/

set_option autoImplicit false

namespace Vsfs

open Function ByteSeq PointerForest WordBits

variable {v w : Volume} {c e : Cached} {B i b n k : Nat} {R : Set (Nat × Ref)} {bs : List Nat}

/-! ## New references -/

theorem newRefs_length (b n : Nat) : (newRefs b n).length = allocTakes b n := by
  unfold newRefs allocTakes
  split
  case isTrue h =>
    rw [h.2]
    rfl
  case isFalse => rfl

/-- No call of the allocator is made for an inode that needs nothing, unless it ends with level 2. -/
theorem allocTakes_eq_zero : allocTakes b n = 0 ↔ n = 0 ∧ b ≠ level2Limit := by
  unfold allocTakes
  constructor
  · intro hz
    cases n with
    | zero =>
      refine ⟨rfl, fun hb => ?_⟩
      rw [if_pos ⟨hb, rfl⟩] at hz
      omega
    | succ n =>
      rw [refs, List.length_append, refsAt, List.length_append, List.length_singleton] at hz
      omega
  · rintro ⟨rfl, hb⟩
    rw [if_neg fun h => hb h.1]
    rfl

/-- **The references that `__alloc_block` gives blocks to**, with room for them. -/
theorem allocBlock_newRefs {r : Nat} (hb : (v.inode i).blocks = b) (ho : v.Owns B R)
    (hR : ∀ r, (i, r) ∈ R ↔ r.Used b) (hn : b + n ≤ level3Limit) (hroom : allocTakes b n ≤ v.room B)
    (h : allocBlock v.cached.sbi.ofsDregion i n v = .ok (r, w)) :
    Puts i (newRefs b n) v w ∧ Grown B i R (newRefs b n) v w := by
  have hmin : min n (level3Limit - b) = n := by omega
  have hneed : (refs b n).length ≤ v.room B := (Nat.le_add_right ..).trans hroom
  have hp := allocBlock_puts hb ho hR (by rwa [hmin]) h (by omega)
  rw [hmin] at hp
  exact ⟨hp, hp.grown ho (fresh_newRefs hn hR) (by rwa [newRefs_length])⟩

/-- What the inodes have after `__alloc_block`. -/
theorem Puts.mapFrame (h : Puts i (newRefs b n) v w) : MapFrame i n v w := by
  have hf := h.frame
  rwa [newRefs_weight] at hf

/-! ## Well-formed volumes -/

/-- All blocks that the inodes refer to, pointer blocks included, are different, of the data region and marked used;
every free bit that the allocator reaches denotes a block of the region; and block addresses have 32 bits. -/
structure Volume.WellFormed (v : Volume) : Prop where
  distinct : ∀ p q, p ∈ v.used → q ∈ v.used → v.val p = v.val q → p = q
  taken : ∀ p, p ∈ v.used → bit v.cached.dbitmap (v.val p) = false
  region : ∀ p, p ∈ v.used → v.val p < v.cached.sbi.nrDregionBlocks
  free : ∀ a, a < dbitmapBits v.cached.sbi → bit v.cached.dbitmap a = true → a < v.cached.sbi.nrDregionBlocks
  addr : v.cached.sbi.ofsDregion + v.cached.sbi.nrDregionBlocks ≤ 2 ^ 32
  bits : dbitmapBits v.cached.sbi ≤ 2 ^ 32

theorem Volume.WellFormed.owns (h : v.WellFormed) (h0 : bit v.cached.dbitmap 0 = false) :
    v.Owns v.cached.sbi.nrDregionBlocks v.used :=
  ⟨⟨closed_used v, h.distinct, h.region, fun p hp => by simp [h.taken p hp]⟩, h0, h.addr, h.bits⟩

/-- All free blocks that the allocator reaches are room. -/
theorem Volume.WellFormed.room (h : v.WellFormed) :
    v.room v.cached.sbi.nrDregionBlocks = (freeBelow v.cached.dbitmap (dbitmapBits v.cached.sbi)).card := by
  unfold Volume.room
  congr 1
  ext a
  rw [mem_freeBelow, mem_freeBelow]
  constructor
  · rintro ⟨hlt, hb⟩
    exact ⟨by omega, hb⟩
  · rintro ⟨hlt, hb⟩
    have := h.free a hlt hb
    exact ⟨by omega, hb⟩

/-- An inode that has been given blocks uses the new references. -/
theorem mem_used_newRefs (hn : (v.inode i).blocks + n ≤ level3Limit) (hf : MapFrame i n v w) {p : Nat × Ref}
    (hp : p ∈ w.used) : p ∈ addRefs v.used i (newRefs (v.inode i).blocks n) := by
  have hlim : level3Limit = 1053745 := rfl
  obtain ⟨j, r⟩ := p
  obtain ⟨hj, hr⟩ := hp
  by_cases hij : j = i
  · subst hij
    rw [hf.blocks (by omega)] at hr
    obtain ⟨hv, hlt⟩ := hr
    by_cases hold : r.first < (v.inode j).blocks
    · exact Or.inl ⟨hj, hv, hold⟩
    · exact Or.inr ⟨rfl, mem_newRefs ((mem_refs hn).mpr ⟨hv, Nat.le_of_not_lt hold, hlt⟩)⟩
  · rw [hf.other j hij] at hr
    exact Or.inl ⟨hj, hr⟩

/-- A well-formed volume stays so. -/
theorem Volume.WellFormed.grown (h : v.WellFormed) (hn : (v.inode i).blocks + n ≤ level3Limit) (hf : MapFrame i n v w)
    (hg : Grown v.cached.sbi.nrDregionBlocks i v.used (newRefs (v.inode i).blocks n) v w) : w.WellFormed := by
  obtain ⟨m, hm⟩ := hf.sbi
  have hR : w.cached.sbi.nrDregionBlocks = v.cached.sbi.nrDregionBlocks := by rw [hm]
  have hbits : dbitmapBits w.cached.sbi = dbitmapBits v.cached.sbi := by
    rw [hm]
    rfl
  have hown := hg.owns.owned
  have hmem := fun p hp => mem_used_newRefs (p := p) hn hf hp
  refine ⟨fun p q hp hq => hown.inj p q (hmem p hp) (hmem q hq), fun p hp => ?_, fun p hp => ?_, fun a ha hb => ?_, ?_, ?_⟩
  · simpa using hown.used p (hmem p hp)
  · rw [hR]
    exact hown.lt p (hmem p hp)
  · rw [hR]
    exact h.free a (hbits ▸ ha) (hg.free a hb)
  · rw [hR, hg.ofsDregion]
    exact h.addr
  · rw [hbits]
    exact h.bits

/-! ## Growing a file -/

/-- Inode `i` has been given `n` more data blocks, which were free, behind those that it had; the inodes, the maps and
the blocks of all others are what they were. -/
structure Appended (i n : Nat) (v w : Volume) : Prop where
  blocks : (w.inode i).blocks = (v.inode i).blocks + n
  kept : ∀ k, k < (v.inode i).blocks → w.mapBlock i k = v.mapBlock i k
  distinct : ∀ k l, (v.inode i).blocks ≤ k → k < (v.inode i).blocks + n → (v.inode i).blocks ≤ l →
    l < (v.inode i).blocks + n → w.mapBlock i k = w.mapBlock i l → k = l
  fresh : ∀ k, (v.inode i).blocks ≤ k → k < (v.inode i).blocks + n → bit v.cached.dbitmap (w.mapBlock i k) = true
  other : ∀ j, j ≠ i → w.inode j = v.inode j
  otherMap : ∀ j k, j ≠ i → j < nrInodes → k < (v.inode j).blocks → k < level3Limit → w.mapBlock j k = v.mapBlock j k
  otherBlocks : ∀ p, p ∈ v.used → p.1 ≠ i → w.val p = v.val p ∧ w.disk (w.lba (w.val p)) = v.disk (v.lba (v.val p))

theorem Appended.refl (i : Nat) (v : Volume) : Appended i 0 v v :=
  ⟨rfl, fun _ _ => rfl, fun _ _ _ _ _ _ _ => by omega, fun _ _ _ => by omega, fun _ _ => rfl, fun _ _ _ _ _ _ => rfl,
    fun _ _ _ => ⟨rfl, rfl⟩⟩

/-- The reference to a data block that is in use. -/
theorem dataRef_used {j : Nat} (hj : j < nrInodes) (hk : k < (v.inode j).blocks) (hlim : k < level3Limit) :
    (j, dataRef k) ∈ v.used := by
  obtain ⟨hv, _, hf⟩ := dataRef_spec hlim
  exact ⟨hj, hv, by rwa [hf]⟩

/-- Blocks given to the new references of an inode are appended to its map. -/
theorem appended_of_grown (h : v.WellFormed) (hi : i < nrInodes) (hn : (v.inode i).blocks + n ≤ level3Limit)
    (hf : MapFrame i n v w)
    (hg : Grown v.cached.sbi.nrDregionBlocks i v.used (newRefs (v.inode i).blocks n) v w) : Appended i n v w := by
  have hlim : level3Limit = 1053745 := rfl
  have hblocks : (w.inode i).blocks = (v.inode i).blocks + n := hf.blocks (by omega)
  have hnew : ∀ k, (v.inode i).blocks ≤ k → k < (v.inode i).blocks + n →
      dataRef k ∈ newRefs (v.inode i).blocks n := fun k h1 h2 => by
    obtain ⟨hv, _, hfirst⟩ := dataRef_spec (k := k) (by omega)
    exact mem_newRefs ((mem_refs hn).mpr ⟨hv, by rwa [hfirst], by rwa [hfirst]⟩)
  refine ⟨hblocks, fun k hk => ?_, fun k l hk hk' hl hl' he => ?_, fun k hk hk' => ?_, hf.other, fun j k _ hj hk hk' => ?_,
    fun p hp hne => ⟨hg.val p hp, ?_⟩⟩
  · rw [mapBlock_eq, mapBlock_eq]
    exact hg.val _ (dataRef_used hi hk (by omega))
  · rw [mapBlock_eq, mapBlock_eq] at he
    have hw := h.grown hn hf hg
    have hpair := hw.distinct _ _ (dataRef_used hi (by omega : k < _) (by omega))
      (dataRef_used hi (by omega : l < _) (by omega)) he
    have hfst := (dataRef_spec (k := k) (by omega)).2.2
    rw [(Prod.mk.inj hpair).2, (dataRef_spec (k := l) (by omega)).2.2] at hfst
    exact hfst.symm
  · rw [mapBlock_eq]
    exact hg.fresh _ (hnew k hk hk')
  · rw [mapBlock_eq, mapBlock_eq]
    exact hg.val _ (dataRef_used hj hk hk')
  · rw [hg.val p hp, lba_congr hg.ofsDregion rfl]
    by_contra hd
    -- only pointer blocks of the inode are written
    obtain ⟨r, s, hr, hs, hl⟩ := hg.disk _ hd
    have hmem : (i, s) ∈ addRefs v.used i (newRefs (v.inode i).blocks n) :=
      hg.owns.owned.closed (i, r) (i, s) (Or.inr ⟨rfl, hr⟩) (parent_eq_some.mpr ⟨s, hs, rfl⟩)
    have hval := hg.val p hp
    have heq := lba_inj h.addr (h.region p hp) (hg.owns.owned.lt _ hmem) hl
    rw [← hval] at heq
    exact hne (congrArg Prod.fst (hg.owns.owned.inj p (i, s) (Or.inl hp) hmem heq))

/-- **`__alloc_block` appends to the block map** of the inode and disturbs nothing. In a well-formed volume, for every
inode and every number of blocks that the map has left, with no 0 among the results of the calls of `get_free_dblock`,
it returns 0; the bitmap and the counters are those after exactly these calls, and the volume is well formed again. -/
theorem allocBlock_appends (h : v.WellFormed) (hi : i < nrInodes) (hn : (v.inode i).blocks + n ≤ level3Limit)
    (hfree : freeDblocks (allocTakes (v.inode i).blocks n) v.cached = .ok (bs, e)) (h0 : 0 ∉ bs) :
    ∃ w, allocBlock v.cached.sbi.ofsDregion i n v = .ok (0, w) ∧ Appended i n v w ∧ w.WellFormed ∧
      w.cached.sbi = e.sbi ∧ w.cached.dbitmap = e.dbitmap := by
  have ht : Takes (· ≠ 0) e (allocTakes (v.inode i).blocks n) v.cached := takes_of_freeDblocks hfree fun b hb => by
    rintro rfl
    exact h0 hb
  obtain ⟨w, hw, hend⟩ := allocBlock_takes hi hn ht
  obtain ⟨hs, hd⟩ := hend.end_eq
  refine ⟨w, hw, ?_⟩
  by_cases hz : allocTakes (v.inode i).blocks n = 0
  · -- no call is made, so block 0 may be anything
    obtain ⟨rfl, hb⟩ := allocTakes_eq_zero.mp hz
    obtain rfl := allocBlock_none hb hw
    exact ⟨.refl i w, h, hs, hd⟩
  · obtain ⟨k, hk⟩ := Nat.exists_eq_succ_of_ne_zero hz
    have ho := h.owns ((hk ▸ ht).zero h.bits)
    have hR : ∀ r, (i, r) ∈ v.used ↔ r.Used (v.inode i).blocks := fun r => ⟨fun h => h.2, fun h => ⟨hi, h⟩⟩
    obtain ⟨hp, hg⟩ := allocBlock_newRefs rfl ho hR hn (by rw [h.room]; exact ht.room h.bits) hw
    exact ⟨appended_of_grown h hi hn hp.mapFrame hg, h.grown hn hp.mapFrame hg, hs, hd⟩

/-- A formatted volume in which the blocks 1 to 31 are free and no others. -/
def smallVolume : Volume :=
  { (blankVolume 4096).vol with
    cached := { (blankVolume 4096).vol.cached with dbitmap := fun w => if w = 0 then 0xFFFFFFFE#32 else 0#32 } }

theorem bit_smallVolume (a : Nat) : bit smallVolume.cached.dbitmap a = decide (0 < a ∧ a < 32) := by
  show (if a / 32 = 0 then 0xFFFFFFFE#32 else 0#32).getLsbD (a % 32) = _
  by_cases h : a < 32
  · rw [if_pos (by omega), Nat.mod_eq_of_lt h]
    have hall : ∀ a, a < 32 → (0xFFFFFFFE#32).getLsbD a = decide (0 < a ∧ a < 32) := by decide
    exact hall a h
  · rw [if_neg (by omega), decide_eq_false (by omega)]
    exact BitVec.getLsbD_zero

theorem smallVolume_wellFormed : smallVolume.WellFormed := by
  have hu : ∀ p, p ∈ smallVolume.used → p = (0, .l1 0) := fun p hp =>
    fresh_used (n := 4096) (by decide) (by decide) _ _ hp
  have hR : smallVolume.cached.sbi.nrDregionBlocks = 2045 := by decide +kernel
  have hval : smallVolume.val (0, .l1 0) = 0 := (fresh_root (n := 4096) (by decide) (by decide) _ _).2.2
  refine ⟨fun p q hp hq _ => by rw [hu p hp, hu q hq], fun p hp => ?_, fun p hp => ?_, fun a _ hb => ?_, ?_, ?_⟩
  · rw [hu p hp, hval, bit_smallVolume]
    rfl
  · rw [hu p hp, hval, hR]
    decide
  · rw [bit_smallVolume] at hb
    have := of_decide_eq_true hb
    omega
  · decide +kernel
  · decide +kernel

theorem allocBlock_appends_three : ∃ (e : Cached) (w : Volume),
    allocBlock smallVolume.cached.sbi.ofsDregion 1 3 smallVolume = .ok (0, w) ∧ Appended 1 3 smallVolume w ∧
      w.WellFormed ∧ w.cached.sbi = e.sbi ∧ w.cached.dbitmap = e.dbitmap := by
  have hblocks : (smallVolume.inode 1).blocks = 0 := by decide +kernel
  have hrun : (freeDblocks 3 smallVolume.cached).map Prod.fst = .ok [1, 2, 3] := by decide +kernel
  obtain ⟨e, he⟩ := ExceptLib.exists_of_map_fst hrun
  refine ⟨e, allocBlock_appends smallVolume_wellFormed (by decide) ?_ (by rw [hblocks]; exact he) (by decide)⟩
  rw [hblocks]
  decide

end Vsfs
