import Vsfs.Model.ShmAlloc
import Vsfs.Volume.Allocator
import Vsfs.Volume.Total

/-!
# The two versions of `__alloc_block`

The version of `vsfsio_spdk.h` fills a pointer block in a buffer and writes it back, the one of `vsfsio.h` fills it
where it is. The simulation keeps the two apart by the blocks that are in a buffer: `Agrees ofs ov v u` says that the
data region of `u` is the device of `v` from block `ofs` on, the blocks of `ov` having the contents given there.

- `Takes p e k c`: the next `k` calls of `get_free_dblock` succeed;
- `fillPointers_agrees`, `allocLevel1_agrees`, `allocLevel2_agrees`, `allocLevel3_agrees`: the loops;
- `Shm.allocBlock_agrees`: the two versions give the same result from the same state.
-/

set_option autoImplicit false

namespace Vsfs

open Function ByteSeq WordBits

variable {v w : Volume} {u : Shm.Segments} {p : Nat → Prop} {c c' d e : Cached} {ofs i n m k b : Nat} {bs : List Nat}

/-! ## Calls of the allocator that succeed -/

/-- The next `k` calls of `get_free_dblock` return blocks with property `p` and lead to the bitmap and the counters
of `e`. -/
inductive Takes (p : Nat → Prop) (e : Cached) : Nat → Cached → Prop
  | done {c : Cached} (hs : c.sbi = e.sbi) (hd : c.dbitmap = e.dbitmap) : Takes p e 0 c
  | next {k b : Nat} {c c' : Cached} (hb : getFreeDblock c = .ok (b, c')) (hp : p b) (h : Takes p e k c') :
      Takes p e (k + 1) c

/-- The allocator works on the bitmap of the data blocks and the counters. -/
theorem getFreeDblock_congr (hs : d.sbi = c.sbi) (hd : d.dbitmap = c.dbitmap) (h : getFreeDblock c = .ok (b, c')) :
    ∃ d', getFreeDblock d = .ok (b, d') ∧ d'.sbi = c'.sbi ∧ d'.dbitmap = c'.dbitmap ∧ d'.ibitmap = d.ibitmap ∧
      d'.inodeReg = d.inodeReg := by
  obtain ⟨⟨b', m⟩, hf, h⟩ := ExceptLib.bind_eq_ok.mp h
  cases h
  rw [← hs, ← hd] at hf
  refine ⟨_, ExceptLib.bind_eq_ok.mpr ⟨_, hf, rfl⟩, ?_, rfl, rfl, rfl⟩
  dsimp only
  rw [hs]

theorem Takes.congr (h : Takes p e k c) (hs : d.sbi = c.sbi) (hd : d.dbitmap = c.dbitmap) : Takes p e k d := by
  induction h generalizing d with
  | done hs' hd' => exact .done (hs.trans hs') (hd.trans hd')
  | next hb hp _ ih =>
    obtain ⟨d', hb', hs', hd', -⟩ := getFreeDblock_congr hs hd hb
    exact .next hb' hp (ih hs' hd')

theorem Takes.snoc {e' : Cached} (h : Takes p e k c) (hb : getFreeDblock e = .ok (b, e')) (hp : p b) :
    Takes p e' (k + 1) c := by
  induction h with
  | done hs hd =>
    obtain ⟨d', hb', hs', hd', -⟩ := getFreeDblock_congr hs hd hb
    exact .next hb' hp (.done hs' hd')
  | next hb' hp' _ ih => exact .next hb' hp' ih

theorem takes_of_freeDblocks (h : freeDblocks k c = .ok (bs, e)) (hp : ∀ b, b ∈ bs → p b) : Takes p e k c := by
  induction k generalizing bs e with
  | zero =>
    cases h
    exact .done rfl rfl
  | succ k ih =>
    obtain ⟨⟨bs₁, c₁⟩, h₁, h⟩ := ExceptLib.bind_eq_ok.mp h
    obtain ⟨⟨b, c₂⟩, h₂, h⟩ := ExceptLib.bind_eq_ok.mp h
    cases h
    refine (ih h₁ fun b hb => ?_).snoc h₂ ?_
    · exact hp b (List.mem_append_left _ hb)
    · exact hp b (List.mem_append_right _ (List.mem_singleton_self b))

/-- A result other than 0 is the lowest free block. -/
theorem getFreeDblock_of_ne_zero (h : getFreeDblock c = .ok (b, c')) (h32 : dbitmapBits c.sbi ≤ 2 ^ 32) (h0 : b ≠ 0) :
    b < 2 ^ 32 ∧ Least c.dbitmap (dbitmapBits c.sbi) b ∧ c' = c.takeDblock b := by
  unfold getFreeDblock at h
  rcases getFirstFreeBit_cases (1024 * c.sbi.nrDbitmapBlocks) c.dbitmap
    (blockSize * c.sbi.nrDregionBlocks % 2 ^ 32) with ⟨j, hj, hr⟩ | ⟨_, hr | hr⟩
  · have hlt : j < 2 ^ 32 := lt_of_lt_of_le hj.lt h32
    rw [hr] at h
    simp only [ExceptLib.ok_bind, Nat.mod_eq_of_lt hlt, Except.ok.injEq, Prod.mk.injEq] at h
    obtain ⟨rfl, rfl⟩ := h
    refine ⟨hlt, hj, ?_⟩
    simp [h0, Cached.takeDblock]
  · rw [hr] at h
    cases h
    exact absurd rfl h0
  · rw [hr] at h
    cases h

/-- Calls that succeed do not return a block that is in use. -/
theorem Takes.avoid {L : Nat} (h : Takes (· ≠ 0) e k c) (h32 : dbitmapBits c.sbi ≤ 2 ^ 32)
    (hL : bit c.dbitmap L = false) : Takes (fun b => b < 2 ^ 32 ∧ b ≠ L) e k c := by
  induction h with
  | done hs hd => exact .done hs hd
  | next hb hp _ ih =>
    obtain ⟨hlt, hleast, rfl⟩ := getFreeDblock_of_ne_zero hb h32 hp
    refine .next hb ⟨hlt, ?_⟩ (ih h32 ?_)
    · rintro rfl
      have := hleast.bit
      rw [hL] at this
      contradiction
    · show bit (clear _ _) L = false
      rw [bit_clear, hL, Bool.false_and]

/-! ## Agreement -/

/-- The segments hold what the cached data and the device hold, with the blocks of `ov` in buffers. -/
structure Agrees (ofs : Nat) (ov : Nat → Option Block) (v : Volume) (u : Shm.Segments) : Prop where
  inodes : u.inodes = v.cached.inodeReg
  sbi : u.cached.sbi = v.cached.sbi
  ibitmap : u.cached.ibitmap = v.cached.ibitmap
  dbitmap : u.cached.dbitmap = v.cached.dbitmap
  data : ∀ k, u.data k = (ov k).getD (v.disk (ofs + k))

/-- No block is in a buffer. -/
def noBuffer : Nat → Option Block := fun _ => none

section

variable {ov : Nat → Option Block} {x : Block} {a j : Nat}

theorem Agrees.take (h : Agrees ofs ov v u) (hb : v.getFreeDblock = .ok (b, w)) :
    ∃ u', u.getFreeDblock = .ok (b, u') ∧ Agrees ofs ov w u' := by
  obtain ⟨⟨b', c⟩, hc, hb⟩ := ExceptLib.bind_eq_ok.mp hb
  cases hb
  obtain ⟨d, hd, hs, hm, hi, -⟩ := getFreeDblock_congr h.sbi h.dbitmap hc
  obtain ⟨⟨b', m⟩, _, hc⟩ := ExceptLib.bind_eq_ok.mp hc
  cases hc
  exact ⟨_, ExceptLib.bind_eq_ok.mpr ⟨_, hd, rfl⟩, h.inodes, hs, hi.trans h.ibitmap, hm, h.data⟩

theorem Agrees.modInode (h : Agrees ofs ov v u) (f : Inode → Inode) :
    Agrees ofs ov (v.modInode i f) (u.modInode i f) := by
  refine ⟨?_, h.sbi, h.ibitmap, h.dbitmap, h.data⟩
  unfold Shm.Segments.modInode Volume.modInode
  simp only [h.inodes]

/-- A block is read into a buffer. -/
theorem Agrees.read (h : Agrees ofs ov v u) (ha : ov a = none) :
    Agrees ofs (update ov a (some (v.disk (ofs + a)))) v u := by
  refine ⟨h.inodes, h.sbi, h.ibitmap, h.dbitmap, fun k => ?_⟩
  by_cases hk : k = a
  · subst hk
    rw [h.data, ha, update_self]
    rfl
  · rw [h.data, update_of_ne hk]

/-- An entry is assigned, in the buffer and in place. -/
theorem Agrees.setEntry (h : Agrees ofs (update ov a (some x)) v u) (j b : Nat) :
    Agrees ofs (update ov a (some (setPointer x j b))) v (u.setEntry a j b) := by
  refine ⟨h.inodes, h.sbi, h.ibitmap, h.dbitmap, fun k => ?_⟩
  show update u.data a _ k = _
  have := h.data k
  by_cases hk : k = a
  · subst hk
    rw [update_self] at this ⊢
    rw [update_self, this]
    rfl
  · rw [update_of_ne hk] at this ⊢
    rw [update_of_ne hk, this]

/-- A buffer is written back. -/
theorem Agrees.writeBack (h : Agrees ofs (update ov a (some x)) v u) (ha : ov a = none) :
    Agrees ofs ov (v.writeBlock (ofs + a) x) u := by
  refine ⟨h.inodes, h.sbi, h.ibitmap, h.dbitmap, fun k => ?_⟩
  have := h.data k
  by_cases hk : k = a
  · subst hk
    rw [update_self] at this
    rw [this, ha]
    exact (writeBlock_disk_self ..).symm
  · rw [update_of_ne hk] at this
    rw [this, writeBlock_disk_of_ne _ _ _ (by omega)]

end

/-! ## The loops -/

/-- One more call of the allocator, in both versions. -/
theorem Takes.both {ov : Nat → Option Block} (ht : Takes p e (k + 1) v.cached) (h : Agrees ofs ov v u) :
    ∃ b w u', v.getFreeDblock = .ok (b, w) ∧ u.getFreeDblock = .ok (b, u') ∧ p b ∧ Agrees ofs ov w u' ∧
      Takes p e k w.cached := by
  obtain _ | @⟨_, b, _, c', hb, hp, ht⟩ := ht
  have hv : v.getFreeDblock = .ok (b, { v with cached := c' }) := ExceptLib.bind_eq_ok.mpr ⟨_, hb, rfl⟩
  obtain ⟨u', hu, h'⟩ := h.take hv
  exact ⟨b, _, u', hv, hu, hp, h', ht⟩

theorem Takes.modInode {f : Inode → Inode} (ht : Takes p e k v.cached) : Takes p e k (v.modInode i f).cached :=
  ht.congr rfl rfl

/-- The loop over a pointer block. -/
theorem fillPointers_agrees {ov : Nat → Option Block} {x : Block} {a j : Nat}
    (h : Agrees ofs (update ov a (some x)) v u) (ht : Takes p e (min n (1024 - j) + m) v.cached) :
    ∃ y w u', fillPointers i n j x v = .ok (n - (1024 - j), y, w) ∧
      Shm.fillPointers i a n j u = .ok (n - (1024 - j), u') ∧ Agrees ofs (update ov a (some y)) w u' ∧
      Takes p e m w.cached := by
  have h1 : pointerPerBlock = 1024 := rfl
  induction n generalizing j x v u with
  | zero =>
    rw [Nat.zero_min, Nat.zero_add] at ht
    rw [Nat.zero_sub]
    exact ⟨x, v, u, rfl, rfl, h, ht⟩
  | succ n ih =>
    unfold fillPointers Shm.fillPointers
    by_cases hj : j < 1024
    · rw [show min (n + 1) (1024 - j) + m = min n (1024 - (j + 1)) + m + 1 by omega] at ht
      obtain ⟨b, v₁, u₁, hv, hu, -, h₁, ht₁⟩ := ht.both h
      obtain ⟨y, w, u', hv', hu', h', ht'⟩ := ih ((h₁.setEntry j b).modInode (i := i) fun x =>
        { x with blocks := succ32 x.blocks }) ht₁.modInode
      rw [h1, if_pos hj, if_pos hj, hv, hu, show n + 1 - (1024 - j) = n - (1024 - (j + 1)) by omega]
      exact ⟨y, w, u', hv', hu', h', ht'⟩
    · rw [show min (n + 1) (1024 - j) + m = m by omega] at ht
      rw [h1, if_neg hj, if_neg hj, show n + 1 - (1024 - j) = n + 1 by omega]
      exact ⟨x, v, u, rfl, rfl, h, ht⟩

theorem refs_l1_length (h : k + n ≤ 49) : (refs k n).length = n := by
  induction n generalizing k with
  | zero => rfl
  | succ n ih => rw [refs, refsAt_l1 (by omega), List.length_append, ih (by omega), List.length_singleton, Nat.add_comm]

/-- The loop of level 1. -/
theorem allocLevel1_agrees {k : Nat} (h : Agrees ofs noBuffer v u) (ht : Takes p e (min n (49 - k) + m) v.cached) :
    ∃ w u', allocLevel1 i n k v = .ok (n - (49 - k), w) ∧ Shm.allocLevel1 i n k u = .ok (n - (49 - k), u') ∧
      Agrees ofs noBuffer w u' ∧ Takes p e m w.cached := by
  have h1 : level1Limit = 49 := rfl
  induction n generalizing k v u with
  | zero =>
    rw [Nat.zero_min, Nat.zero_add] at ht
    rw [Nat.zero_sub]
    exact ⟨v, u, rfl, rfl, h, ht⟩
  | succ n ih =>
    unfold allocLevel1 Shm.allocLevel1
    by_cases hk : k < 49
    · rw [show min (n + 1) (49 - k) + m = min n (49 - (k + 1)) + m + 1 by omega] at ht
      obtain ⟨b, v₁, u₁, hv, hu, -, h₁, ht₁⟩ := ht.both h
      obtain ⟨w, u', hv', hu', h', ht'⟩ := ih (h₁.modInode (i := i) fun x =>
        { x with l1 := update x.l1 k b, blocks := succ32 x.blocks }) ht₁.modInode
      rw [h1, if_pos hk, if_pos hk, hv, hu, show n + 1 - (49 - k) = n - (49 - (k + 1)) by omega]
      exact ⟨w, u', hv', hu', h', ht'⟩
    · rw [show min (n + 1) (49 - k) + m = m by omega] at ht
      rw [h1, if_neg hk, if_neg hk, show n + 1 - (49 - k) = n + 1 by omega]
      exact ⟨v, u, rfl, rfl, h, ht⟩

/-! ## Level 2 -/

/-- The calls of the allocator for one pointer block of level 2, then the others. -/
theorem refs_l2_length {j start : Nat} (hj : j < 5) (hs : start < 1024) (hn : 0 < n) :
    (refs (49 + 1024 * j + start) (min n (5169 - (49 + 1024 * j + start)))).length =
      (if start = 0 then 1 else 0) + min n (1024 - start) +
        (refs (49 + 1024 * (j + 1) + 0) (min (n - (1024 - start)) (5169 - (49 + 1024 * (j + 1) + 0)))).length := by
  have hsplit : min n (5169 - (49 + 1024 * j + start)) = min n (1024 - start) +
      min (n - (1024 - start)) (5169 - (49 + 1024 * (j + 1) + 0)) := by omega
  rw [hsplit, refs_add, refs_l2 hj (by omega) (by omega), List.length_append, List.length_append, List.length_map,
    List.length_range']
  congr 1
  · split <;> rfl
  · by_cases hc : n ≤ 1024 - start
    · rw [show n - (1024 - start) = 0 by omega, Nat.zero_min]
      rfl
    · rw [show 49 + 1024 * j + start + min n (1024 - start) = 49 + 1024 * (j + 1) + 0 by omega]

/-- The block taken for `l2[j]` at its start. -/
theorem level2_start_agrees {j start : Nat} (h : Agrees ofs noBuffer v u)
    (ht : Takes p e ((if start = 0 then 1 else 0) + k) v.cached) :
    ∃ v₁ u₁, (if start = 0 then do
        let (b, v) ← v.getFreeDblock
        .ok (v.modInode i fun x => { x with l2 := update x.l2 j b })
      else .ok v : M Volume) = .ok v₁ ∧ (if start = 0 then do
        let (b, u) ← u.getFreeDblock
        .ok (u.modInode i fun x => { x with l2 := update x.l2 j b })
      else .ok u : M Shm.Segments) = .ok u₁ ∧ Agrees ofs noBuffer v₁ u₁ ∧ Takes p e k v₁.cached := by
  by_cases hs : start = 0
  · rw [if_pos hs, Nat.add_comm] at ht
    obtain ⟨b, v₁, u₁, hv, hu, -, h₁, ht₁⟩ := ht.both h
    rw [if_pos hs, if_pos hs, hv, hu]
    exact ⟨_, _, rfl, rfl, h₁.modInode _, ht₁.modInode⟩
  · rw [if_neg hs, Nat.zero_add] at ht
    rw [if_neg hs, if_neg hs]
    exact ⟨v, u, rfl, rfl, h, ht⟩

/-- The loop of level 2, from `l2[j]` on. -/
theorem allocLevel2_agrees {fuel j start : Nat} (hfuel : fuel = 5 - j) (hs : start < 1024) (hj : j ≤ 5)
    (h : Agrees ofs noBuffer v u)
    (ht : Takes p e ((refs (49 + 1024 * j + start) (min n (5169 - (49 + 1024 * j + start)))).length + m) v.cached) :
    ∃ w u', allocLevel2 ofs i fuel j start n v = .ok (n - (5169 - (49 + 1024 * j + start)), w) ∧
      Shm.allocLevel2 i fuel j start n u = .ok (n - (5169 - (49 + 1024 * j + start)), u') ∧
      Agrees ofs noBuffer w u' ∧ Takes p e m w.cached := by
  induction fuel generalizing j start n v u with
  | zero =>
    rw [show 5169 - (49 + 1024 * j + start) = 0 by omega, Nat.min_zero, refs, List.length_nil, Nat.zero_add] at ht
    rw [show 5169 - (49 + 1024 * j + start) = 0 by omega, Nat.sub_zero]
    exact ⟨v, u, rfl, rfl, h, ht⟩
  | succ fuel ih =>
    unfold allocLevel2 Shm.allocLevel2
    by_cases hn : n = 0
    · subst hn
      rw [Nat.zero_min, refs, List.length_nil, Nat.zero_add] at ht
      rw [if_pos rfl, if_pos rfl, Nat.zero_sub]
      exact ⟨v, u, rfl, rfl, h, ht⟩
    · rw [refs_l2_length (by omega) hs (by omega), Nat.add_assoc, Nat.add_assoc] at ht
      obtain ⟨v₁, u₁, hv₁, hu₁, h₁, ht₁⟩ := level2_start_agrees (i := i) (j := j) h ht
      -- the pointer block goes through a buffer in one version
      obtain ⟨y, v₂, u₂, hv₂, hu₂, h₂, ht₂⟩ := fillPointers_agrees (i := i)
        (h₁.read (a := (v₁.inode i).l2 j) rfl) ht₁
      obtain ⟨w, u', hv₃, hu₃, h₃, ht₃⟩ := ih (by omega) (by omega) (by omega)
        (h₂.writeBack (a := (v₁.inode i).l2 j) rfl) ht₂
      have hl2 : (u₁.inodes i).l2 j = (v₁.inode i).l2 j := by rw [h₁.inodes]
      have hm : n - (5169 - (49 + 1024 * j + start)) =
        n - (1024 - start) - (5169 - (49 + 1024 * (j + 1) + 0)) := by omega
      rw [if_neg hn, if_neg hn, hv₁, hu₁, hm]
      simp only [ExceptLib.ok_bind, hl2, hv₂, hu₂]
      exact ⟨w, u', hv₃, hu₃, h₃, ht₃⟩

/-! ## Level 3 -/

/-- The calls of the allocator for one pointer block of level 3, then the others. -/
theorem refs3_length {q start : Nat} (hs : start < 1024) (hn : 0 < n) : (refs3 (5169 + 1024 * q + start) n).length =
    (if start = 0 then 1 else 0) + min n (1024 - start) +
      (refs3 (5169 + 1024 * (q + 1) + 0) (n - (1024 - start))).length := by
  have hhead : (if start = 0 then [Ref.l3e q] else []).length = if start = 0 then 1 else 0 := by split <;> rfl
  have hrest : (refs3 (5169 + 1024 * q + (start + min n (1024 - start))) (n - (1024 - start))).length =
      (refs3 (5169 + 1024 * (q + 1) + 0) (n - (1024 - start))).length := by
    by_cases hc : n ≤ 1024 - start
    · rw [show n - (1024 - start) = 0 by omega, refs3_zero, refs3_zero]
    · rw [show 5169 + 1024 * q + (start + min n (1024 - start)) = 5169 + 1024 * (q + 1) + 0 by omega]
  have hsplit := refs3_split (q := q) (k := start) (c := min n (1024 - start)) (by omega) (by omega) (n - (1024 - start))
  rw [show min n (1024 - start) + (n - (1024 - start)) = n by omega] at hsplit
  rw [hsplit, List.length_append, List.length_append, List.length_map, List.length_range', hhead, hrest]

section

variable {L : Nat} {x : Block}

/-- The block taken for entry `q` of the block of `l3` at its start: it is not that block. -/
theorem level3_start_agrees {q start : Nat} (h : Agrees ofs (update noBuffer L (some x)) v u)
    (hstart : start ≠ 0 → pointer x q ≠ L)
    (ht : Takes (fun b => b < 2 ^ 32 ∧ b ≠ L) e ((if start = 0 then 1 else 0) + k) v.cached) :
    ∃ y v₁ u₁, (if start = 0 then do
        let (b, v) ← v.getFreeDblock
        .ok (setPointer x q b, v)
      else .ok (x, v) : M (Block × Volume)) = .ok (y, v₁) ∧ (if start = 0 then do
        let (b, u) ← u.getFreeDblock
        .ok (u.setEntry L q b)
      else .ok u : M Shm.Segments) = .ok u₁ ∧ Agrees ofs (update noBuffer L (some y)) v₁ u₁ ∧ pointer y q ≠ L ∧
      Takes (fun b => b < 2 ^ 32 ∧ b ≠ L) e k v₁.cached := by
  by_cases hs : start = 0
  · rw [if_pos hs, Nat.add_comm] at ht
    obtain ⟨b, v₁, u₁, hv, hu, ⟨hlt, hne⟩, h₁, ht₁⟩ := ht.both h
    rw [if_pos hs, if_pos hs, hv, hu]
    refine ⟨_, _, _, rfl, rfl, h₁.setEntry q b, ?_, ht₁⟩
    rw [pointer_setPointer_self, Nat.mod_eq_of_lt hlt]
    exact hne
  · rw [if_neg hs, Nat.zero_add] at ht
    rw [if_neg hs, if_neg hs]
    exact ⟨x, v, u, rfl, rfl, h, hstart hs, ht⟩

/-- **The loop of level 3**, from entry `q` of the block of `l3` on. That block, at `L`, stays in its buffer, and no
pointer block that is filled is the block itself. -/
theorem allocLevel3_agrees {fuel q start : Nat} (hfuel : fuel = 1024 - q) (hs : start < 1024)
    (hn : 5169 + 1024 * q + start + n ≤ level3Limit) (h : Agrees ofs (update noBuffer L (some x)) v u)
    (hstart : start ≠ 0 → pointer x q ≠ L)
    (ht : Takes (fun b => b < 2 ^ 32 ∧ b ≠ L) e (refs3 (5169 + 1024 * q + start) n).length v.cached) :
    ∃ y w u', allocLevel3 ofs i fuel q start n x v = .ok (0, y, w) ∧ Shm.allocLevel3 i L fuel q start n u = .ok (0, u') ∧
      Agrees ofs (update noBuffer L (some y)) w u' ∧ Takes (fun b => b < 2 ^ 32 ∧ b ≠ L) e 0 w.cached := by
  have hlim : level3Limit = 1053745 := rfl
  induction fuel generalizing q start n x v u with
  | zero =>
    obtain rfl : n = 0 := by omega
    rw [refs3_zero] at ht
    exact ⟨x, v, u, rfl, rfl, h, ht⟩
  | succ fuel ih =>
    unfold allocLevel3 Shm.allocLevel3
    by_cases h0 : n = 0
    · subst h0
      rw [refs3_zero] at ht
      rw [if_pos rfl, if_pos rfl]
      exact ⟨x, v, u, rfl, rfl, h, ht⟩
    · rw [refs3_length hs (by omega), Nat.add_assoc] at ht
      obtain ⟨x₁, v₁, u₁, hv₁, hu₁, h₁, hne, ht₁⟩ := level3_start_agrees h hstart ht
      obtain ⟨a, ha⟩ : ∃ a, pointer x₁ q = a := ⟨_, rfl⟩
      rw [ha] at hne
      have hov : update noBuffer L (some x₁) a = none := update_of_ne hne ..
      obtain ⟨y, v₂, u₂, hv₂, hu₂, h₂, ht₂⟩ := fillPointers_agrees (i := i) (h₁.read hov) ht₁
      obtain ⟨z, w, u', hv₃, hu₃, h₃, ht₃⟩ := ih (by omega) (by omega) (by omega) (h₂.writeBack hov)
        (fun h => absurd rfl h) ht₂
      -- the entry is read from the buffer and from the block itself
      have hentry : pointer (u₁.data L) q = a := by
        rw [h₁.data, update_self]
        exact ha
      rw [if_neg h0, if_neg h0, hv₁, hu₁]
      simp only [ExceptLib.ok_bind, hentry, ha, hv₂, hu₂]
      exact ⟨z, w, u', hv₃, hu₃, h₃, ht₃⟩

end

/-! ## `__alloc_block` -/

/-- The number of calls of `get_free_dblock` that `__alloc_block` makes for an inode with `b` blocks that needs `n`: one
for each reference, and one for `l3` when nothing is needed right behind level 2. -/
def allocTakes (b n : Nat) : Nat := (refs b n).length + if b = level2Limit ∧ n = 0 then 1 else 0

theorem allocTakes_level3 {b : Nat} (hb : 5169 ≤ b) (n : Nat) :
    allocTakes b n = (if b - 5169 = 0 then 1 else 0) + (refs3 b n).length := by
  have h2 : level2Limit = 5169 := rfl
  unfold allocTakes refs3
  rw [h2]
  by_cases h : b = 5169
  · subst h
    cases n with
    | zero => rfl
    | succ n =>
      rw [if_neg (by omega), if_pos rfl, if_pos rfl, List.length_tail]
      have : 0 < (refs 5169 (n + 1)).length := by
        rw [refs, List.length_append]
        exact Nat.add_pos_left (by decide) _
      omega
  · rw [if_neg (by omega), if_neg h, if_neg (by omega), Nat.zero_add, Nat.add_zero]

theorem Takes.end_eq (h : Takes p e 0 c) : c.sbi = e.sbi ∧ c.dbitmap = e.dbitmap := by
  cases h with
  | done hs hd => exact ⟨hs, hd⟩

/-- The block taken for `l3` at the start of level 3. It is in use then, and so it was if there was one. -/
theorem fromLevel3_start_agrees {k : Nat} (h32 : dbitmapBits v.cached.sbi ≤ 2 ^ 32) (h : Agrees ofs noBuffer v u)
    (hL : k ≠ 0 → bit v.cached.dbitmap (v.inode i).l3 = false)
    (ht : Takes (· ≠ 0) e ((if k = 0 then 1 else 0) + m) v.cached) :
    ∃ v₁ u₁, (if k = 0 then do
        let (b, v) ← v.getFreeDblock
        .ok (v.modInode i fun x => { x with l3 := b })
      else .ok v : M Volume) = .ok v₁ ∧ (if k = 0 then do
        let (b, u) ← u.getFreeDblock
        .ok (u.modInode i fun x => { x with l3 := b })
      else .ok u : M Shm.Segments) = .ok u₁ ∧ Agrees ofs noBuffer v₁ u₁ ∧ (k ≠ 0 → v₁ = v) ∧
      Takes (fun b => b < 2 ^ 32 ∧ b ≠ (v₁.inode i).l3) e m v₁.cached := by
  by_cases hk : k = 0
  · rw [if_pos hk, Nat.add_comm] at ht
    obtain ⟨b, v₁, u₁, hv, hu, h0, h₁, ht₁⟩ := ht.both h
    rw [if_pos hk, if_pos hk, hv, hu]
    refine ⟨_, _, rfl, rfl, h₁.modInode _, fun h => absurd hk h, ?_⟩
    obtain ⟨⟨b', c⟩, hc, hv⟩ := ExceptLib.bind_eq_ok.mp hv
    cases hv
    obtain ⟨_, _, rfl⟩ := getFreeDblock_of_ne_zero hc h32 h0
    rw [modInode_inode_self]
    refine (ht₁.avoid h32 ?_).modInode
    show bit (clear _ _) b = false
    rw [bit_clear, decide_eq_false (fun h => h rfl), Bool.and_false]
  · rw [if_neg hk, Nat.zero_add] at ht
    rw [if_neg hk, if_neg hk]
    exact ⟨v, u, rfl, rfl, h, fun _ => rfl, ht.avoid h32 (hL hk)⟩

section

variable {r : Nat} (hb : (v.inode i).blocks = b) (h32 : dbitmapBits v.cached.sbi ≤ 2 ^ 32) (h : Agrees ofs noBuffer v u)
  (hn : b + n ≤ level3Limit)

include hb h32 h hn in
/-- From level 3 on. -/
theorem allocFromLevel3_agrees (hlo : 5169 ≤ b) (hL : b ≠ 5169 → bit v.cached.dbitmap (v.inode i).l3 = false)
    (hne : (b - 5169) % 1024 ≠ 0 →
      pointer (v.disk (ofs + (v.inode i).l3)) ((b - 5169) / 1024) ≠ (v.inode i).l3)
    (ht : Takes (· ≠ 0) e (allocTakes b n) v.cached) :
    ∃ w u', allocFromLevel3 ofs i n v = .ok (0, w) ∧ Shm.allocFromLevel3 i n u = .ok (0, u') ∧
      Agrees ofs noBuffer w u' ∧ w.cached.sbi = e.sbi ∧ w.cached.dbitmap = e.dbitmap := by
  have hlim : level3Limit = 1053745 := rfl
  have h2 : level2Limit = 5169 := rfl
  have hp : pointerPerBlock = 1024 := rfl
  obtain ⟨q, start, hs, hbq⟩ : ∃ q start, start < 1024 ∧ b = 5169 + 1024 * q + start :=
    ⟨(b - 5169) / 1024, (b - 5169) % 1024, by omega, by omega⟩
  have hub : (u.inodes i).blocks = b := by rw [h.inodes, hb]
  have hq : (b - level2Limit) / pointerPerBlock % 65536 = q := by
    rw [h2, hp]
    omega
  have hr : (b - level2Limit) % pointerPerBlock = start := by
    rw [h2, hp]
    omega
  rw [allocTakes_level3 hlo] at ht
  rw [show (b - 5169) / 1024 = q by omega, show (b - 5169) % 1024 = start by omega] at hne
  obtain ⟨v₁, u₁, hv₁, hu₁, h₁, hsame, ht₁⟩ := fromLevel3_start_agrees (i := i) (k := b - level2Limit) h32 h
    (fun h0 => hL (by omega)) ht
  have hstart : start ≠ 0 → pointer (v₁.disk (ofs + (v₁.inode i).l3)) q ≠ (v₁.inode i).l3 := by
    intro h0
    rw [hsame (by omega)]
    exact hne h0
  rw [hbq] at ht₁
  obtain ⟨y, w, u', hv₂, hu₂, h', ht'⟩ := allocLevel3_agrees (i := i) (Eq.refl (1024 - q)) hs (by omega)
    (h₁.read (a := (v₁.inode i).l3) rfl) hstart ht₁
  obtain ⟨hsbi, hd⟩ := ht'.end_eq
  have hl3 : (u₁.inodes i).l3 = (v₁.inode i).l3 := by rw [h₁.inodes]
  refine ⟨w.writeBlock (ofs + (v₁.inode i).l3) y, u', ?_, ?_, h'.writeBack rfl, hsbi, hd⟩
  · unfold allocFromLevel3
    simp only [hb, hv₁, ExceptLib.ok_bind, hq, hr]
    rw [hp, hv₂]
    rfl
  · unfold Shm.allocFromLevel3
    simp only [hub, hu₁, ExceptLib.ok_bind, hq, hr, hl3]
    rw [hp, hu₂]
    rfl

include hb h32 h hn in
/-- From level 2 on. -/
theorem allocFromLevel2_agrees (hlo : 49 ≤ b) (hhi : b < 5169) (ht : Takes (· ≠ 0) e (refs b n).length v.cached) :
    ∃ w u', allocFromLevel2 ofs i n v = .ok (0, w) ∧ Shm.allocFromLevel2 i n u = .ok (0, u') ∧
      Agrees ofs noBuffer w u' ∧ w.cached.sbi = e.sbi ∧ w.cached.dbitmap = e.dbitmap := by
  have hlim : level3Limit = 1053745 := rfl
  have h1 : level1Limit = 49 := rfl
  have h2 : level2Limit = 5169 := rfl
  have hp : pointerPerBlock = 1024 := rfl
  obtain ⟨j, start, hs, hbj⟩ : ∃ j start, start < 1024 ∧ b = 49 + 1024 * j + start :=
    ⟨(b - 49) / 1024, (b - 49) % 1024, by omega, by omega⟩
  have hub : (u.inodes i).blocks = b := by rw [h.inodes, hb]
  have hq : (b - level1Limit) / pointerPerBlock = j := by
    rw [h1, hp]
    omega
  have hr : (b - level1Limit) % pointerPerBlock = start := by
    rw [h1, hp]
    omega
  have hsplit : refs b n = refs b (min n (5169 - b)) ++ refs (b + min n (5169 - b)) (n - (5169 - b)) := by
    rw [← refs_add]
    congr 1
    omega
  rw [hsplit, List.length_append] at ht
  obtain ⟨v₁, u₁, hv₁, hu₁, h₁, ht₁⟩ := allocLevel2_agrees (i := i) (Eq.refl (5 - j)) hs (by omega) h
    (by rw [← hbj]; exact ht)
  rw [← hbj] at hv₁ hu₁
  by_cases h0 : n - (5169 - b) = 0
  · rw [h0] at ht₁ hv₁ hu₁
    obtain ⟨hsbi, hd⟩ := ht₁.end_eq
    refine ⟨v₁, u₁, ?_, ?_, h₁, hsbi, hd⟩
    · unfold allocFromLevel2
      simp only [hb, hq, hr, hv₁, ExceptLib.ok_bind, if_true]
    · unfold Shm.allocFromLevel2
      simp only [hub, hq, hr, hu₁, ExceptLib.ok_bind, if_true]
  · rw [show b + min n (5169 - b) = 5169 by omega] at ht₁
    obtain ⟨hm, hf⟩ := allocLevel2_frame hs hv₁
    have hb₁ : (v₁.inode i).blocks = 5169 := by
      rw [hf.blocks (by omega), hb]
      omega
    have h32₁ : dbitmapBits v₁.cached.sbi ≤ 2 ^ 32 := by
      obtain ⟨k, hk⟩ := hf.sbi
      rw [hk]
      exact h32
    obtain ⟨w, u', hv₂, hu₂, h', hend⟩ := allocFromLevel3_agrees (i := i) (n := n - (5169 - b)) hb₁ h32₁ h₁ (by omega)
      (Nat.le_refl _)
      (fun h => absurd rfl h) (fun h => absurd rfl h) (by
        unfold allocTakes
        rw [if_neg (fun h => h0 h.2), Nat.add_zero]
        exact ht₁)
    refine ⟨w, u', ?_, ?_, h', hend⟩
    · unfold allocFromLevel2
      simp only [hb, hq, hr, hv₁, ExceptLib.ok_bind, h0, if_false, hv₂]
    · unfold Shm.allocFromLevel2
      simp only [hub, hq, hr, hu₁, ExceptLib.ok_bind, h0, if_false, hu₂]

end

/-! ## The same function -/

/-- The pointer blocks that inode `ino` uses: those of level 2, the block of `l3` and those that it lists. -/
def Shm.Segments.pointerBlocks (u : Shm.Segments) (ino : Nat) : List Nat :=
  let x := u.inodes ino
  (List.range (min 5 ((x.blocks - level1Limit + 1023) / 1024))).map x.l2 ++
    if x.blocks ≤ level2Limit then []
    else x.l3 :: (List.range ((x.blocks - level2Limit + 1023) / 1024)).map (pointer (u.data x.l3))

/-- The pointer blocks that inode `ino` uses are pairwise distinct and not free. -/
structure Shm.Segments.MapWellFormed (u : Shm.Segments) (ino : Nat) : Prop where
  nodup : (u.pointerBlocks ino).Nodup
  taken : ∀ a, a ∈ u.pointerBlocks ino → bit u.cached.dbitmap a = false

/-- What the map of an inode behind level 2 has in level 3. -/
theorem Shm.Segments.MapWellFormed.level3 (hw : u.MapWellFormed i) (h : Agrees ofs noBuffer v u)
    (hlo : 5169 < (v.inode i).blocks) : bit v.cached.dbitmap (v.inode i).l3 = false ∧
      (((v.inode i).blocks - 5169) % 1024 ≠ 0 →
        pointer (v.disk (ofs + (v.inode i).l3)) (((v.inode i).blocks - 5169) / 1024) ≠ (v.inode i).l3) := by
  have h2 : level2Limit = 5169 := rfl
  obtain ⟨hnd, ht⟩ := hw
  have hin : u.inodes i = v.inode i := by rw [h.inodes]
  have hdata : u.data (v.inode i).l3 = v.disk (ofs + (v.inode i).l3) := h.data _
  unfold Shm.Segments.pointerBlocks at hnd ht
  simp only [hin, h2, if_neg (Nat.not_le.mpr hlo), hdata] at hnd ht
  constructor
  · rw [← h.dbitmap]
    exact ht _ (List.mem_append_right _ List.mem_cons_self)
  · intro hs he
    have hnot := (List.nodup_cons.mp (List.nodup_append.mp hnd).2.1).1
    apply hnot
    exact List.mem_map.mpr ⟨((v.inode i).blocks - 5169) / 1024, List.mem_range.mpr (by omega), he⟩

/-- **`__alloc_block`** in both versions, with calls of the allocator that succeed. Behind level 2 the block of `l3` is
in use, and it is not the pointer block that is filled first. -/
theorem allocBlock_both (h : Agrees ofs noBuffer v u) (hi : i < nrInodes)
    (hl3 : 5169 < (v.inode i).blocks → bit v.cached.dbitmap (v.inode i).l3 = false ∧
      (((v.inode i).blocks - 5169) % 1024 ≠ 0 →
        pointer (v.disk (ofs + (v.inode i).l3)) (((v.inode i).blocks - 5169) / 1024) ≠ (v.inode i).l3))
    (hn : (v.inode i).blocks + n ≤ level3Limit) (h32 : dbitmapBits v.cached.sbi ≤ 2 ^ 32)
    (ht : Takes (· ≠ 0) e (allocTakes (v.inode i).blocks n) v.cached) :
    ∃ w u', allocBlock ofs i n v = .ok (0, w) ∧ Shm.allocBlock i n u = .ok (0, u') ∧ Agrees ofs noBuffer w u' ∧
      w.cached.sbi = e.sbi ∧ w.cached.dbitmap = e.dbitmap := by
  have hlim : level3Limit = 1053745 := rfl
  have h1 : level1Limit = 49 := rfl
  have h2 : level2Limit = 5169 := rfl
  have hub : (u.inodes i).blocks = (v.inode i).blocks := by rw [h.inodes]
  have hat : v.inodeAt i = .ok (v.inode i) := (inodeAt_eq_ok _ _).mpr ⟨hi, rfl⟩
  unfold allocBlock Shm.allocBlock
  rw [hat, if_neg (Nat.not_le.mpr hi), hub, h1, h2]
  simp only [ExceptLib.ok_bind]
  by_cases hlo : 5169 ≤ (v.inode i).blocks
  · rw [if_pos hlo, if_pos hlo]
    refine allocFromLevel3_agrees rfl h32 h hn hlo (fun hb => ?_) (fun hs => ?_) ht
    · exact (hl3 (by omega)).1
    · exact (hl3 (by omega)).2 hs
  rw [if_neg hlo, if_neg hlo]
  have ht : Takes (· ≠ 0) e (refs (v.inode i).blocks n).length v.cached := by
    unfold allocTakes at ht
    rwa [if_neg (by omega), Nat.add_zero] at ht
  by_cases hlo1 : 49 ≤ (v.inode i).blocks
  · rw [if_pos hlo1, if_pos hlo1]
    exact allocFromLevel2_agrees rfl h32 h hn hlo1 (by omega) ht
  rw [if_neg hlo1, if_neg hlo1]
  obtain ⟨b, hb⟩ : ∃ b, (v.inode i).blocks = b := ⟨_, rfl⟩
  rw [hb] at ht hn hlo1 ⊢
  have hsplit : refs b n = refs b (min n (49 - b)) ++ refs (b + min n (49 - b)) (n - (49 - b)) := by
    rw [← refs_add]
    congr 1
    omega
  have hl1 : (refs b (min n (49 - b))).length = min n (49 - b) := refs_l1_length (by omega)
  rw [hsplit, List.length_append, hl1] at ht
  obtain ⟨v₁, u₁, hv₁, hu₁, h₁, ht₁⟩ := allocLevel1_agrees (i := i) h ht
  rw [hv₁, hu₁]
  simp only [ExceptLib.ok_bind]
  by_cases hz : n - (49 - b) = 0
  · rw [hz] at ht₁ ⊢
    exact ⟨v₁, u₁, rfl, rfl, h₁, ht₁.end_eq⟩
  · rw [if_neg hz, if_neg hz]
    obtain ⟨hm, hf⟩ := allocLevel1_frame hv₁
    have hb₁ : (v₁.inode i).blocks = 49 := by
      rw [hf.blocks (by omega), hb]
      omega
    have h32₁ : dbitmapBits v₁.cached.sbi ≤ 2 ^ 32 := by
      obtain ⟨k, hk⟩ := hf.sbi
      rw [hk]
      exact h32
    rw [show b + min n (49 - b) = 49 by omega] at ht₁
    exact allocFromLevel2_agrees hb₁ h32₁ h₁ (by omega) (Nat.le_refl _) (by decide) ht₁

/-- **The two versions of `__alloc_block`** are the same function. From states that agree, for an inode whose pointer
blocks are distinct and not free, with no 0 among the results of the calls of `get_free_dblock`, they return the same
value and end in states that agree; the bitmap and the counters are those after exactly these calls. The bitmap has no
more bits than there are block numbers of 32 bits. -/
theorem Shm.allocBlock_agrees (h : Agrees ofs noBuffer v u) (hi : i < nrInodes) (hw : u.MapWellFormed i)
    (hn : (v.inode i).blocks + n ≤ level3Limit) (h32 : dbitmapBits v.cached.sbi ≤ 2 ^ 32)
    (hfree : freeDblocks (allocTakes (v.inode i).blocks n) v.cached = .ok (bs, e)) (h0 : 0 ∉ bs) :
    ∃ r w u', Vsfs.allocBlock ofs i n v = .ok (r, w) ∧ Shm.allocBlock i n u = .ok (r, u') ∧
      Agrees ofs noBuffer w u' ∧ w.cached.sbi = e.sbi ∧ w.cached.dbitmap = e.dbitmap := by
  have ht : Takes (· ≠ 0) e (allocTakes (v.inode i).blocks n) v.cached := takes_of_freeDblocks hfree fun b hb => by
    rintro rfl
    exact h0 hb
  exact ⟨0, allocBlock_both h hi (hw.level3 h) hn h32 ht⟩

/-- The inode table and the data region of a volume as segments. -/
def Volume.toSegments (ofs : Nat) (v : Volume) : Shm.Segments :=
  { inodes := v.cached.inodeReg, data := fun k => v.disk (ofs + k), cached := v.cached }

theorem agrees_toSegments (ofs : Nat) (v : Volume) : Agrees ofs noBuffer v (v.toSegments ofs) :=
  ⟨rfl, rfl, rfl, rfl, fun _ => rfl⟩

theorem Shm.allocBlock_agrees_three : ∃ (e : Cached) (r : Nat) (w : Volume) (u' : Shm.Segments),
    Vsfs.allocBlock 2051 1 3 (blankVolume 4096).vol = .ok (r, w) ∧
      Shm.allocBlock 1 3 ((blankVolume 4096).vol.toSegments 2051) = .ok (r, u') ∧ Agrees 2051 noBuffer w u' ∧
      w.cached.sbi = e.sbi ∧ w.cached.dbitmap = e.dbitmap := by
  have hblocks : ((blankVolume 4096).vol.inode 1).blocks = 0 := by decide +kernel
  have hnone : ((blankVolume 4096).vol.toSegments 2051).pointerBlocks 1 = [] := by decide +kernel
  have hrun : (freeDblocks 3 (blankVolume 4096).vol.cached).map Prod.fst = .ok [1, 2, 3] := by decide +kernel
  have h32 : dbitmapBits (blankVolume 4096).vol.cached.sbi ≤ 2 ^ 32 := by decide +kernel
  obtain ⟨e, he⟩ := ExceptLib.exists_of_map_fst hrun
  refine ⟨e, Shm.allocBlock_agrees (agrees_toSegments 2051 _) (by decide) ⟨?_, ?_⟩ ?_ h32 (by rw [hblocks]; exact he)
    (by decide)⟩
  · rw [hnone]
    exact List.nodup_nil
  · rw [hnone]
    exact fun a ha => absurd ha (List.not_mem_nil)
  · rw [hblocks]
    decide

end Vsfs
