import Vsfs.Volume.Exclusive

/-!
# The block allocator on a formatted volume

`get_free_dblock` derives the length of its scan from the number of blocks of the data region, taken for a number of
bitmap blocks and reduced to 32 bits. On a fresh volume successive calls hand out 1, 2, 3 and so on, and the question
is where they stop.

- `freeDblocks_spec`: the calls up to the end of the scan;
- `allocator_matches_iff`: the allocator matches the geometry as long as the next block is inside the region and inside
  the scan.
-/

set_option autoImplicit false

namespace Vsfs

open ByteSeq WordBits

variable {c c' : Cached} {n k j : Nat} {bs : List Nat}

/-! ## Successive calls -/

/-- `k` successive calls of `get_free_dblock`: what they return, in order, and the cached data after them. -/
def freeDblocks : Nat → Cached → M (List Nat × Cached)
  | 0, c => .ok ([], c)
  | k + 1, c => do
    let (bs, c) ← freeDblocks k c
    let (b, c) ← getFreeDblock c
    .ok (bs ++ [b], c)

/-- The blocks handed out: the results other than 0. -/
def handedOut (bs : List Nat) : List Nat := bs.filter (· ≠ 0)

/-- The results of `k` successive calls match the geometry: no call leaves the bitmap; the blocks handed out are
different and inside the data region; a call returns 0 exactly if all blocks but the first have been handed out; and
the counter is the number of blocks left. -/
def AllocatorMatches (c : Cached) (k : Nat) : Prop :=
  ∃ bs c', freeDblocks k c = .ok (bs, c') ∧ (handedOut bs).Nodup ∧
    (∀ b, b ∈ handedOut bs → b < c.sbi.nrDregionBlocks) ∧
    (∀ j b, bs[j]? = some b → (b = 0 ↔ (handedOut (bs.take j)).length = c.sbi.nrDregionBlocks - 1)) ∧
    c'.sbi.nrFreeDblock + (handedOut bs).length + 1 = c.sbi.nrDregionBlocks

theorem freeDblocks_length (h : freeDblocks k c = .ok (bs, c')) : bs.length = k := by
  induction k generalizing bs c' with
  | zero =>
    cases h
    rfl
  | succ k ih =>
    obtain ⟨⟨bs₁, c₁⟩, h₁, h⟩ := ExceptLib.bind_eq_ok.mp h
    obtain ⟨⟨b, c₂⟩, _, h⟩ := ExceptLib.bind_eq_ok.mp h
    cases h
    rw [List.length_append, ih h₁, List.length_singleton]

/-- The first calls of more calls. -/
theorem freeDblocks_take (h : freeDblocks k c = .ok (bs, c')) (hj : j ≤ k) :
    ∃ c'', freeDblocks j c = .ok (bs.take j, c'') := by
  induction k generalizing bs c' with
  | zero =>
    obtain rfl : j = 0 := by omega
    cases h
    exact ⟨c, rfl⟩
  | succ k ih =>
    obtain rfl | hlt := Nat.eq_or_lt_of_le hj
    · refine ⟨c', ?_⟩
      rw [h, ← freeDblocks_length h, List.take_length]
    · obtain ⟨⟨bs₁, c₁⟩, h₁, h⟩ := ExceptLib.bind_eq_ok.mp h
      obtain ⟨⟨b, c₂⟩, _, h⟩ := ExceptLib.bind_eq_ok.mp h
      cases h
      rw [List.take_append_of_le_length (by rw [freeDblocks_length h₁]; omega)]
      exact ih h₁ (by omega)

/-! ## Up to the end of the scan -/

/-- All bits of the bitmap that the scan reaches are set but those below `k`, and `k - 1` blocks are counted off. -/
structure HandedTo (c : Cached) (k : Nat) (c' : Cached) : Prop where
  sbi : c'.sbi = { c.sbi with nrFreeDblock := c.sbi.nrFreeDblock - (k - 1) }
  bits : ∀ i, i < dbitmapBits c.sbi → bit c'.dbitmap i = decide (k ≤ i)

theorem handedTo_one (h : ∀ i, i < dbitmapBits c.sbi → bit c.dbitmap i = decide (1 ≤ i)) : HandedTo c 1 c := ⟨rfl, h⟩

/-- The first block that is left is handed out. -/
theorem HandedTo.next (h : HandedTo c k c') (h0 : 0 < k) (hk : k < dbitmapBits c.sbi) (h32 : dbitmapBits c.sbi ≤ 2 ^ 32)
    (hn : k ≤ c.sbi.nrFreeDblock) :
    getFreeDblock c' = .ok (k, c'.takeDblock k) ∧ HandedTo c (k + 1) (c'.takeDblock k) := by
  have hbits : dbitmapBits c'.sbi = dbitmapBits c.sbi := by rw [h.sbi]; rfl
  have hleast : Least c'.dbitmap (dbitmapBits c'.sbi) k := by
    refine ⟨by rw [hbits]; exact hk, ?_, fun i hi => ?_⟩
    · rw [h.bits k hk]
      exact decide_eq_true (Nat.le_refl k)
    · rw [h.bits i (by omega)]
      exact decide_eq_false (by omega)
  refine ⟨getFreeDblock_of_least (Nat.le_refl _) hleast (by omega) (by omega), ?_, fun i hi => ?_⟩
  · have hpred : pred32 c'.sbi.nrFreeDblock = c.sbi.nrFreeDblock - k := by
      rw [h.sbi]
      dsimp only
      rw [pred32_of_pos (by omega)]
      omega
    show { c'.sbi with nrFreeDblock := pred32 c'.sbi.nrFreeDblock } = _
    rw [hpred, h.sbi]
    rfl
  · show bit (clear c'.dbitmap k) i = _
    rw [bit_clear, h.bits i hi]
    by_cases hki : k + 1 ≤ i
    · rw [decide_eq_true hki, decide_eq_true (by omega : k ≤ i), decide_eq_true (by omega : i ≠ k)]
      rfl
    · rw [decide_eq_false hki, ← Bool.decide_and]
      exact decide_eq_false (by omega)

/-- **The calls up to the end of the scan** hand out 1, 2, 3 and so on. -/
theorem freeDblocks_spec (h0 : HandedTo c 1 c) (h32 : dbitmapBits c.sbi ≤ 2 ^ 32)
    (hk : k = 0 ∨ k < dbitmapBits c.sbi) (hn : k ≤ c.sbi.nrFreeDblock) :
    ∃ c', freeDblocks k c = .ok (List.range' 1 k, c') ∧ HandedTo c (k + 1) c' := by
  induction k with
  | zero => exact ⟨c, rfl, h0⟩
  | succ k ih =>
    obtain ⟨c₁, h₁, hto⟩ := ih (by omega) (by omega)
    obtain ⟨hget, hto'⟩ := hto.next (Nat.succ_pos k) (by omega) h32 hn
    refine ⟨_, ?_, hto'⟩
    unfold freeDblocks
    simp only [h₁, ExceptLib.ok_bind, hget]
    rw [List.range'_concat, Nat.one_mul, Nat.add_comm 1 k]

/-! ## The end of the scan -/

/-- A scan that reaches no set bit returns 0. -/
theorem getFreeDblock_empty {b : Nat} (he : freeBelow c.dbitmap (dbitmapBits c.sbi) = ∅)
    (h : getFreeDblock c = .ok (b, c')) : b = 0 := by
  obtain ⟨⟨b', m⟩, hf, h⟩ := ExceptLib.bind_eq_ok.mp h
  cases h
  rcases getFirstFreeBit_cases (1024 * c.sbi.nrDbitmapBlocks) c.dbitmap
    (blockSize * c.sbi.nrDregionBlocks % 2 ^ 32) with ⟨i, hi, _⟩ | ⟨_, hr | hr⟩
  · have hm := mem_freeBelow.mpr ⟨hi.lt, hi.bit⟩
    unfold dbitmapBits at he
    rw [he] at hm
    exact absurd hm (Finset.notMem_empty i)
  · rw [hr] at hf
    cases hf
    rfl
  · rw [hr] at hf
    cases hf

theorem handedOut_range' (k : Nat) : handedOut (List.range' 1 k) = List.range' 1 k := by
  refine List.filter_eq_self.mpr fun b hb => ?_
  have := (List.mem_range'_1.mp hb).1
  exact decide_eq_true (by omega)

/-- The calls up to the end of the scan match the geometry. -/
theorem matches_of_lt (h0 : HandedTo c 1 c) (h32 : dbitmapBits c.sbi ≤ 2 ^ 32)
    (hcount : c.sbi.nrFreeDblock + 1 = c.sbi.nrDregionBlocks) (hk : k = 0 ∨ k < dbitmapBits c.sbi)
    (hR : k < c.sbi.nrDregionBlocks) : AllocatorMatches c k := by
  obtain ⟨c', hd, hto⟩ := freeDblocks_spec h0 h32 hk (by omega)
  refine ⟨_, c', hd, ?_, fun b hb => ?_, fun j b hj => ?_, ?_⟩
  · rw [handedOut_range']
    exact List.nodup_range'
  · rw [handedOut_range', List.mem_range'_1] at hb
    omega
  · obtain ⟨hlt, hb⟩ := List.getElem?_eq_some_iff.mp hj
    rw [List.length_range'] at hlt
    rw [List.getElem_range'] at hb
    rw [List.take_range'_of_length_ge (by omega), handedOut_range', List.length_range']
    omega
  · rw [handedOut_range', List.length_range', hto.sbi]
    dsimp only
    omega

/-- At the end of the scan, or of the region, the next call does not match. -/
theorem lt_of_matches (h0 : HandedTo c 1 c) (h32 : dbitmapBits c.sbi ≤ 2 ^ 32)
    (hcount : c.sbi.nrFreeDblock + 1 = c.sbi.nrDregionBlocks) (hne : dbitmapBits c.sbi ≠ c.sbi.nrDregionBlocks)
    (h1 : dbitmapBits c.sbi = 0 → c.sbi.nrDregionBlocks ≠ 1) (h : AllocatorMatches c k) :
    k < c.sbi.nrDregionBlocks ∧ (k = 0 ∨ k < dbitmapBits c.sbi) := by
  obtain ⟨bs, c', hd, _, _, hzero, _⟩ := h
  by_contra hno
  -- `m + 1` calls are one too many
  obtain ⟨m, hm⟩ : ∃ m, min c.sbi.nrDregionBlocks (max (dbitmapBits c.sbi) 1) = m + 1 :=
    ⟨min c.sbi.nrDregionBlocks (max (dbitmapBits c.sbi) 1) - 1, by omega⟩
  obtain ⟨c₂, htake⟩ := freeDblocks_take hd (by omega : m + 1 ≤ k)
  obtain ⟨c₁, h₁, hto⟩ := freeDblocks_spec h0 h32 (k := m) (by omega) (by omega)
  unfold freeDblocks at htake
  rw [h₁, ExceptLib.ok_bind] at htake
  obtain ⟨⟨b, c₃⟩, hget, htake⟩ := ExceptLib.bind_eq_ok.mp htake
  have hbs : List.range' 1 m ++ [b] = bs.take (m + 1) := congrArg Prod.fst (Except.ok.inj htake)
  have hlast : bs[m]? = some b := by
    have : (List.range' 1 m ++ [b])[m]? = (bs.take (m + 1))[m]? := by rw [hbs]
    rw [List.getElem?_append_right (by rw [List.length_range']), List.length_range', Nat.sub_self,
      List.getElem?_take_of_lt (Nat.lt_succ_self m)] at this
    exact this.symm
  have hbefore : bs.take m = List.range' 1 m := by
    have := congrArg (List.take m) hbs
    rw [List.take_append_of_le_length (by rw [List.length_range']), List.take_of_length_le (by rw [List.length_range']),
      List.take_take, Nat.min_eq_left (Nat.le_succ m)] at this
    exact this.symm
  have hz := hzero m b hlast
  rw [hbefore, handedOut_range', List.length_range'] at hz
  by_cases hin : m + 1 < dbitmapBits c.sbi
  · -- inside the scan a block outside the region is handed out
    have hbits : dbitmapBits c₁.sbi = dbitmapBits c.sbi := by rw [hto.sbi]; rfl
    have hleast : Least c₁.dbitmap (dbitmapBits c₁.sbi) (m + 1) := by
      refine ⟨by rw [hbits]; exact hin, ?_, fun i hi => ?_⟩
      · rw [hto.bits _ hin]
        exact decide_eq_true (Nat.le_refl _)
      · rw [hto.bits i (by omega)]
        exact decide_eq_false (by omega)
    rw [getFreeDblock_of_least (Nat.le_refl _) hleast (by omega) (by omega)] at hget
    cases hget
    omega
  · -- at the end of the scan nothing is handed out although blocks are left
    have hempty : freeBelow c₁.dbitmap (dbitmapBits c₁.sbi) = ∅ := by
      have hbits : dbitmapBits c₁.sbi = dbitmapBits c.sbi := by rw [hto.sbi]; rfl
      refine Finset.eq_empty_of_forall_notMem fun i hi => ?_
      obtain ⟨hlt, hb⟩ := mem_freeBelow.mp hi
      rw [hbits] at hlt
      rw [hto.bits i hlt] at hb
      exact absurd (of_decide_eq_true hb) (by omega)
    have hb0 := getFreeDblock_empty hempty hget
    have := hz.mp hb0
    omega

/-! ## Formatted volumes -/

section

variable (hl : 2052 ≤ n) (hu : n < 2 ^ 32)

/-- The scan never ends with the region: one of `R` blocks with `d` bitmap blocks. -/
theorem scan_ne {R d : Nat} (h0 : 0 < R) (hd : R < 32768 * d) : 32768 * min (R % 1048576) d ≠ R := by
  intro he
  rcases Nat.le_total d (R % 1048576) with h | h
  · rw [Nat.min_eq_right h] at he
    omega
  · rw [Nat.min_eq_left h] at he
    -- `R` is a multiple of 32768, so `R % 1048576` is one, and `R` a multiple of 1048576
    have hmod : R % 1048576 % 32768 = R % 32768 := Nat.mod_mod_of_dvd R (by decide)
    have h32 : R % 32768 = 0 := by omega
    omega

include hl hu in
/-- The bits that the scan reaches on a device of `n` blocks. -/
theorem superblockInfo_bits : dbitmapBits (superblockInfo n) =
    32768 * min ((n - 2050 - dbitmapBlocks n) % 1048576) (dbitmapBlocks n) := by
  unfold dbitmapBits blockSize
  rw [superblockInfo_eq hl hu]
  dsimp only
  omega

include hl hu in
theorem fresh_handedTo (disk : Nat → Block) (seg : Bytes) :
    HandedTo (State.fresh n disk seg).vol.cached 1 (State.fresh n disk seg).vol.cached := by
  have hbits := fresh_dbitmapBits hl hu
  refine handedTo_one fun i hi => ?_
  rw [fresh_sbi hl hu] at hi
  rw [fresh_dbitmap hl hu disk seg (by omega)]
  exact decide_eq_decide.mpr (by omega)

end

/-- **The allocator matches the geometry** of a formatted volume exactly for as many calls as stay below the number of
blocks of the region and inside the scan, which the multiplication in 32 bits may cut short. -/
theorem allocator_matches_iff (hl : 2052 ≤ n) (hu : n < 2 ^ 32) (disk : Nat → Block) (seg : Bytes) (k : Nat) :
    AllocatorMatches (State.fresh n disk seg).vol.cached k ↔ k < (superblockInfo n).nrDregionBlocks ∧
      (k = 0 ∨ k < 32768 * ((superblockInfo n).nrDregionBlocks % 1048576)) := by
  obtain ⟨hd1, hd2, hd3, hd4⟩ := dbitmapBlocks_bounds hl hu
  have hsbi := fresh_sbi hl hu disk seg
  have hbits := superblockInfo_bits hl hu
  have hR : (superblockInfo n).nrDregionBlocks = n - 2050 - dbitmapBlocks n := by rw [superblockInfo_eq hl hu]
  have hF : (superblockInfo n).nrFreeDblock = n - 2051 - dbitmapBlocks n := by rw [superblockInfo_eq hl hu]
  have h0 := fresh_handedTo hl hu disk seg
  -- only the superblock info of the fresh volume matters from here on
  generalize (State.fresh n disk seg).vol.cached = c at hsbi h0 ⊢
  have h32 : dbitmapBits c.sbi ≤ 2 ^ 32 := by
    rw [hsbi, hbits]
    omega
  have hcount : c.sbi.nrFreeDblock + 1 = c.sbi.nrDregionBlocks := by
    rw [hsbi, hR, hF]
    omega
  constructor
  · intro h
    have hne := scan_ne (R := n - 2050 - dbitmapBlocks n) (d := dbitmapBlocks n) (by omega) (by omega)
    have hlt := lt_of_matches h0 h32 hcount (by rwa [hsbi, hbits, hR]) (by rw [hsbi, hbits, hR]; omega) h
    rw [hsbi, hbits, hR] at hlt
    rw [hR]
    omega
  · rintro ⟨hk, hor⟩
    rw [hR] at hk hor
    refine matches_of_lt h0 h32 hcount ?_ ?_
    · rw [hsbi, hbits]
      omega
    · rw [hsbi, hR]
      exact hk

theorem allocator_matches_iff_three : AllocatorMatches (State.fresh 4096 (fun _ _ => 0) fun _ => 0).vol.cached 3 ↔
    3 < (superblockInfo 4096).nrDregionBlocks ∧ (3 = 0 ∨ 3 < 32768 * ((superblockInfo 4096).nrDregionBlocks % 1048576)) :=
  allocator_matches_iff (by decide) (by decide) _ _ 3

/-- On a device of 2052 blocks the only block of the region is that of the root directory, and the first call hands out
a second one. -/
theorem allocator_hands_out_too_much : ¬AllocatorMatches (blankVolume 2052).vol.cached 1 := by
  have h : (do
      let r ← freeDblocks 1 (blankVolume 2052).vol.cached
      .ok (decide (r.1 = [1] ∧ (blankVolume 2052).vol.cached.sbi.nrDregionBlocks = 1)) : M Bool) = .ok true := by
    decide +kernel
  obtain ⟨⟨bs, c⟩, hrun, h⟩ := ExceptLib.bind_eq_ok.mp h
  obtain ⟨rfl, hR⟩ := of_decide_eq_true (Except.ok.inj h)
  rintro ⟨bs', c', hd, _, hlt, _⟩
  rw [hrun] at hd
  cases hd
  have := hlt 1 (by simp [handedOut])
  omega

end Vsfs
