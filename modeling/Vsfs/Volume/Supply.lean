import Vsfs.Volume.Content
import Vsfs.Volume.Remount

/-!
# Enough free blocks

In every state reached bit 0 of the data bitmap is cleared, so that with `k` free blocks the next `k` calls of
`get_free_dblock` succeed. `__alloc_block` then gives the blocks asked for, whatever the map of the inode is like.

- `Reached.takes`: the calls that succeed;
- `allocLevel3_takes`, `allocFromLevel3_takes`, `allocFromLevel2_takes`: the loops;
- `allocBlock_takes`, `allocBlock_takes_rest`: `__alloc_block`;
- `allocBlock_calls`: an allocation that succeeds has made these calls.
-/

set_option autoImplicit false

namespace Vsfs

open Function ByteSeq WordBits

variable {v w : Volume} {s : State} {p : Nat → Prop} {c e : Cached} {ofs i n m k l b : Nat} {x : Block}

/-! ## Calls that succeed -/

/-- The calls one after the other. -/
theorem Takes.split (h : Takes p e (k + l) c) : ∃ d, Takes p d k c ∧ Takes p e l d := by
  induction k generalizing c with
  | zero => exact ⟨c, .done rfl rfl, by rwa [Nat.zero_add] at h⟩
  | succ k ih =>
    rw [show k + 1 + l = k + l + 1 by omega] at h
    obtain _ | ⟨hb, hp, h⟩ := h
    obtain ⟨d, hk, hl⟩ := ih h
    exact ⟨d, .next hb hp hk, hl⟩

/-- Each call takes a free block. -/
theorem Takes.room (h : Takes (· ≠ 0) e k c) (h32 : dbitmapBits c.sbi ≤ 2 ^ 32) :
    k ≤ (freeBelow c.dbitmap (dbitmapBits c.sbi)).card := by
  induction h with
  | done => exact Nat.zero_le _
  | next hb hp _ ih =>
    obtain ⟨_, hleast, rfl⟩ := getFreeDblock_of_ne_zero hb h32 hp
    have hcard := card_freeBelow_clear hleast.lt hleast.bit
    have hk := ih h32
    simp only [Cached.takeDblock, dbitmapBits] at hk hcard ⊢
    omega

/-- A call that succeeds does so with block 0 in use. -/
theorem Takes.zero (h : Takes (· ≠ 0) e (k + 1) c) (h32 : dbitmapBits c.sbi ≤ 2 ^ 32) : bit c.dbitmap 0 = false := by
  obtain _ | ⟨hb, hp, _⟩ := h
  obtain ⟨_, hleast, _⟩ := getFreeDblock_of_ne_zero hb h32 hp
  exact hleast.low 0 (Nat.pos_of_ne_zero hp)

/-- No update gives back block 0. -/
theorem Update.zero {sb : SbInfo} (h : Update v w) (hf : v.cached.Fits sb) (h32 : dbitmapBits sb ≤ 2 ^ 32)
    (h0 : bit v.cached.dbitmap 0 = false) : bit w.cached.dbitmap 0 = false := by
  cases h with
  | inode i f hf => exact h0
  | write lba b => exact h0
  | takeDblock hc =>
    have hbits : dbitmapBits v.cached.sbi ≤ 2 ^ 32 := by
      unfold dbitmapBits at *
      rwa [hf.regions.nrDbitmapBlocks, hf.regions.nrDregionBlocks]
    rcases getFreeDblock_cases hc h0 hbits with ⟨-, -, rfl⟩ | ⟨-, -, rfl⟩
    · show bit (clear _ _) 0 = false
      rw [bit_clear, h0, Bool.false_and]
    · exact h0
  | takeInode hc =>
    obtain ⟨⟨b, m⟩, -, hc⟩ := ExceptLib.bind_eq_ok.mp hc
    cases hc
    exact h0
  | putInode hc =>
    obtain ⟨m, -, hc⟩ := ExceptLib.bind_eq_ok.mp hc
    cases hc
    exact h0

/-- In every state reached block 0 is in use, and the bitmap has no more bits than there are block numbers. -/
theorem Reached.zero (h : Reached s) :
    bit s.vol.cached.dbitmap 0 = false ∧ dbitmapBits s.vol.cached.sbi ≤ 2 ^ 32 := by
  obtain ⟨n, hl, hu, disk, seg, hr⟩ := h
  obtain ⟨hd1, hd2, hd3, _⟩ := dbitmapBlocks_bounds hl hu
  have h32 : dbitmapBits (superblockInfo n) ≤ 2 ^ 32 := (fresh_dbitmapBits hl hu).trans (by omega)
  have hinv := hr.invariant (P := fun s => s.vol.cached.Fits (superblockInfo n) ∧ bit s.vol.cached.dbitmap 0 = false)
    ⟨fresh_fits hl hu disk seg, ?_⟩ fun c u v hP _ hs => ?_
  · refine ⟨hinv.2, ?_⟩
    unfold dbitmapBits at *
    rwa [hinv.1.regions.nrDbitmapBlocks, hinv.1.regions.nrDregionBlocks]
  · rw [fresh_dbitmap hl hu disk seg (by omega)]
    rfl
  · exact (step_updates hs).keep (P := fun v => v.cached.Fits (superblockInfo n) ∧ bit v.cached.dbitmap 0 = false) hP
      fun _ _ hup hv => ⟨hup.fits hv.1, hup.zero hv.1 h32 hv.2⟩

/-- **With `k` free blocks** the next `k` calls of the allocator succeed. -/
theorem Reached.takes (h : Reached s)
    (hk : k ≤ (freeBelow s.vol.cached.dbitmap (dbitmapBits s.vol.cached.sbi)).card) :
    ∃ e, Takes (· ≠ 0) e k s.vol.cached :=
  takes_of_room h.zero.1 h.zero.2 hk

/-! ## Level 3, whatever is in its blocks -/

/-- One more call of the allocator. -/
theorem Takes.step (h : Takes p e (k + 1) v.cached) :
    ∃ b w, v.getFreeDblock = .ok (b, w) ∧ Takes p e k w.cached := by
  obtain _ | @⟨_, b, _, c', hb, hp, h⟩ := h
  exact ⟨b, _, ExceptLib.bind_eq_ok.mpr ⟨_, hb, rfl⟩, h⟩

/-- The loop over a pointer block. -/
theorem fillPointers_takes {j : Nat} (ofs a : Nat) (ht : Takes p e (min n (1024 - j) + m) v.cached) :
    ∃ y w, fillPointers i n j (v.disk (ofs + a)) v = .ok (n - (1024 - j), y, w) ∧ Takes p e m w.cached := by
  obtain ⟨y, w, _, hv, -, -, ht'⟩ :=
    fillPointers_agrees (i := i) ((agrees_toSegments ofs v).read (a := a) rfl) ht
  exact ⟨y, w, hv, ht'⟩

theorem level3_start_takes {q start : Nat} (ht : Takes p e ((if start = 0 then 1 else 0) + k) v.cached) :
    ∃ y v₁, (if start = 0 then do
        let (b, v) ← v.getFreeDblock
        .ok (setPointer x q b, v)
      else .ok (x, v) : M (Block × Volume)) = .ok (y, v₁) ∧ Takes p e k v₁.cached := by
  by_cases hs : start = 0
  · rw [if_pos hs, Nat.add_comm] at ht
    obtain ⟨b, v₁, hv, ht₁⟩ := ht.step
    rw [if_pos hs, hv]
    exact ⟨_, _, rfl, ht₁⟩
  · rw [if_neg hs, Nat.zero_add] at ht
    rw [if_neg hs]
    exact ⟨x, v, rfl, ht⟩

/-- The loop of level 3, from entry `q` of the block of `l3` on. -/
theorem allocLevel3_takes {fuel q start : Nat} (ofs : Nat) (hfuel : fuel = 1024 - q) (hs : start < 1024)
    (hn : 5169 + 1024 * q + start + n ≤ level3Limit)
    (ht : Takes p e (refs3 (5169 + 1024 * q + start) n).length v.cached) :
    ∃ y w, allocLevel3 ofs i fuel q start n x v = .ok (0, y, w) ∧ Takes p e 0 w.cached := by
  have hlim : level3Limit = 1053745 := rfl
  induction fuel generalizing q start n x v with
  | zero =>
    obtain rfl : n = 0 := by omega
    rw [refs3_zero] at ht
    exact ⟨x, v, rfl, ht⟩
  | succ fuel ih =>
    unfold allocLevel3
    by_cases h0 : n = 0
    · subst h0
      rw [refs3_zero] at ht
      rw [if_pos rfl]
      exact ⟨x, v, rfl, ht⟩
    · rw [refs3_length hs (by omega), Nat.add_assoc] at ht
      obtain ⟨x₁, v₁, hv₁, ht₁⟩ := level3_start_takes (q := q) (x := x) ht
      obtain ⟨y, v₂, hv₂, ht₂⟩ := fillPointers_takes (i := i) ofs (pointer x₁ q) ht₁
      obtain ⟨z, w, hv₃, ht₃⟩ := @ih (v₂.writeBlock (ofs + pointer x₁ q) y) _ x₁ (q + 1) 0 (by omega) (by omega)
        (by omega) ht₂
      rw [if_neg h0, hv₁]
      simp only [ExceptLib.ok_bind, hv₂]
      exact ⟨z, w, hv₃, ht₃⟩

/-! ## `__alloc_block` -/

section

variable (hb : (v.inode i).blocks = b) (hn : b + n ≤ level3Limit)

include hb hn in
/-- From level 3 on. -/
theorem allocFromLevel3_takes (ofs : Nat) (hlo : 5169 ≤ b) (ht : Takes p e (allocTakes b n) v.cached) :
    ∃ w, allocFromLevel3 ofs i n v = .ok (0, w) ∧ Takes p e 0 w.cached := by
  have hlim : level3Limit = 1053745 := rfl
  have h2 : level2Limit = 5169 := rfl
  have hp : pointerPerBlock = 1024 := rfl
  obtain ⟨q, start, hs, hbq⟩ : ∃ q start, start < 1024 ∧ b = 5169 + 1024 * q + start :=
    ⟨(b - 5169) / 1024, (b - 5169) % 1024, by omega, by omega⟩
  have hq : (b - level2Limit) / pointerPerBlock % 65536 = q := by
    rw [h2, hp]
    omega
  have hr : (b - level2Limit) % pointerPerBlock = start := by
    rw [h2, hp]
    omega
  rw [allocTakes_level3 hlo] at ht
  obtain ⟨v₁, hv₁, ht₁⟩ : ∃ v₁, (if b - level2Limit = 0 then do
      let (b, v) ← v.getFreeDblock
      .ok (v.modInode i fun x => { x with l3 := b })
    else .ok v : M Volume) = .ok v₁ ∧ Takes p e (refs3 b n).length v₁.cached := by
    by_cases h0 : b - level2Limit = 0
    · rw [if_pos (by omega), Nat.add_comm] at ht
      obtain ⟨a, v₁, hv, ht₁⟩ := ht.step
      rw [if_pos h0, hv]
      exact ⟨_, rfl, ht₁.modInode⟩
    · rw [if_neg (by omega), Nat.zero_add] at ht
      rw [if_neg h0]
      exact ⟨v, rfl, ht⟩
  rw [hbq] at ht₁
  obtain ⟨y, w, hv₂, ht'⟩ := allocLevel3_takes (i := i) (x := v₁.disk (ofs + (v₁.inode i).l3)) ofs
    (Eq.refl (1024 - q)) hs (by omega) ht₁
  refine ⟨w.writeBlock (ofs + (v₁.inode i).l3) y, ?_, ht'⟩
  unfold allocFromLevel3
  simp only [hb, hv₁, ExceptLib.ok_bind, hq, hr]
  rw [hp, hv₂]
  rfl

include hb hn in
/-- From level 2 on. -/
theorem allocFromLevel2_takes (hlo : 49 ≤ b) (hhi : b < 5169) (ht : Takes p e (refs b n).length v.cached) :
    ∃ w, allocFromLevel2 ofs i n v = .ok (0, w) ∧ Takes p e 0 w.cached := by
  have hlim : level3Limit = 1053745 := rfl
  have h1 : level1Limit = 49 := rfl
  have hp : pointerPerBlock = 1024 := rfl
  obtain ⟨j, start, hs, hbj⟩ : ∃ j start, start < 1024 ∧ b = 49 + 1024 * j + start :=
    ⟨(b - 49) / 1024, (b - 49) % 1024, by omega, by omega⟩
  have hq : (b - level1Limit) / pointerPerBlock = j := by
    rw [h1, hp]
    omega
  have hr : (b - level1Limit) % pointerPerBlock = start := by
    rw [h1, hp]
    omega
  have hsplit : refs b n = refs b (min n (5169 - b)) ++ refs (b + min n (5169 - b)) (n - (5169 - b)) := by
    rw [← refs_add]
    congr 1
    omega
  rw [hsplit, List.length_append] at ht
  obtain ⟨v₁, _, hv₁, -, -, ht₁⟩ := allocLevel2_agrees (i := i) (Eq.refl (5 - j)) hs (by omega)
    (agrees_toSegments ofs v) (by rw [← hbj]; exact ht)
  rw [← hbj] at hv₁
  by_cases h0 : n - (5169 - b) = 0
  · rw [h0] at ht₁ hv₁
    refine ⟨v₁, ?_, ht₁⟩
    unfold allocFromLevel2
    simp only [hb, hq, hr, hv₁, ExceptLib.ok_bind, if_true]
  · obtain ⟨hm, hf⟩ := allocLevel2_frame hs hv₁
    have hb₁ : (v₁.inode i).blocks = 5169 := by
      rw [hf.blocks (by omega), hb]
      omega
    rw [show b + min n (5169 - b) = 5169 by omega] at ht₁
    have ht₂ : Takes p e (allocTakes 5169 (n - (5169 - b))) v₁.cached := by
      unfold allocTakes
      rwa [if_neg (fun h => h0 h.2), Nat.add_zero]
    obtain ⟨w, hv₂, ht'⟩ := allocFromLevel3_takes hb₁ (by omega) ofs (Nat.le_refl _) ht₂
    refine ⟨w, ?_, ht'⟩
    unfold allocFromLevel2
    simp only [hb, hq, hr, hv₁, ExceptLib.ok_bind, h0, if_false, hv₂]

end

/-- **`__alloc_block`** with calls of the allocator that succeed. -/
theorem allocBlock_takes (hi : i < nrInodes) (hn : (v.inode i).blocks + n ≤ level3Limit)
    (ht : Takes p e (allocTakes (v.inode i).blocks n) v.cached) :
    ∃ w, allocBlock ofs i n v = .ok (0, w) ∧ Takes p e 0 w.cached := by
  have hlim : level3Limit = 1053745 := rfl
  have h1 : level1Limit = 49 := rfl
  have h2 : level2Limit = 5169 := rfl
  have hat : v.inodeAt i = .ok (v.inode i) := (inodeAt_eq_ok _ _).mpr ⟨hi, rfl⟩
  unfold allocBlock
  rw [hat, h1, h2]
  simp only [ExceptLib.ok_bind]
  obtain ⟨b, hb⟩ : ∃ b, (v.inode i).blocks = b := ⟨_, rfl⟩
  rw [hb] at ht hn ⊢
  by_cases hlo : 5169 ≤ b
  · rw [if_pos hlo]
    exact allocFromLevel3_takes hb hn ofs hlo ht
  rw [if_neg hlo]
  have ht : Takes p e (refs b n).length v.cached := by
    unfold allocTakes at ht
    rwa [if_neg (by omega), Nat.add_zero] at ht
  by_cases hlo1 : 49 ≤ b
  · rw [if_pos hlo1]
    exact allocFromLevel2_takes hb hn hlo1 (by omega) ht
  rw [if_neg hlo1]
  have hsplit : refs b n = refs b (min n (49 - b)) ++ refs (b + min n (49 - b)) (n - (49 - b)) := by
    rw [← refs_add]
    congr 1
    omega
  have hl1 : (refs b (min n (49 - b))).length = min n (49 - b) := refs_l1_length (by omega)
  rw [hsplit, List.length_append, hl1] at ht
  obtain ⟨v₁, _, hv₁, -, -, ht₁⟩ := allocLevel1_agrees (i := i) (agrees_toSegments ofs v) ht
  rw [hv₁]
  simp only [ExceptLib.ok_bind]
  by_cases hz : n - (49 - b) = 0
  · rw [hz] at ht₁ ⊢
    exact ⟨v₁, rfl, ht₁⟩
  · rw [if_neg hz]
    obtain ⟨hm, hf⟩ := allocLevel1_frame hv₁
    have hb₁ : (v₁.inode i).blocks = 49 := by
      rw [hf.blocks (by omega), hb]
      omega
    rw [show b + min n (49 - b) = 49 by omega] at ht₁
    exact allocFromLevel2_takes hb₁ (by omega) (Nat.le_refl _) (by decide) ht₁

/-- `__alloc_block`, with calls of the allocator left over. -/
theorem allocBlock_takes_rest (hi : i < nrInodes) (hn : (v.inode i).blocks + n ≤ level3Limit)
    (ht : Takes p e (allocTakes (v.inode i).blocks n + k) v.cached) :
    ∃ w, allocBlock ofs i n v = .ok (0, w) ∧ Takes p e k w.cached := by
  obtain ⟨d, hnow, hlater⟩ := ht.split
  obtain ⟨w, hw, hend⟩ := allocBlock_takes hi hn hnow
  obtain ⟨hsbi, hbitmap⟩ := hend.end_eq
  exact ⟨w, hw, hlater.congr hsbi hbitmap⟩

/-! ## The calls of an allocation that succeeds -/

section

variable {q : Nat → Prop} {r : Nat}

/-- A call that has succeeded, and those after it. -/
theorem Takes.cons (hb : v.getFreeDblock = .ok (b, w)) (hq : q b) (h : Takes q e k w.cached) :
    Takes q e (k + 1) v.cached := by
  obtain ⟨⟨b', c'⟩, hc, hb⟩ := ExceptLib.bind_eq_ok.mp hb
  cases hb
  exact .next hc hq h

theorem fillPointers_calls {j : Nat} {y : Block} (h : fillPointers i n j x v = .ok (r, y, w))
    (ht : Takes (fun _ => True) e m w.cached) : Takes (fun _ => True) e (min n (1024 - j) + m) v.cached := by
  have h1 : pointerPerBlock = 1024 := rfl
  induction n generalizing j x v with
  | zero =>
    cases h
    rwa [Nat.zero_min, Nat.zero_add]
  | succ n ih =>
    unfold fillPointers at h
    split at h
    case isFalse hj =>
      cases h
      rwa [show min (n + 1) (1024 - j) + m = m by omega]
    case isTrue hj =>
      obtain ⟨⟨b, v'⟩, hb, h⟩ := ExceptLib.bind_eq_ok.mp h
      rw [show min (n + 1) (1024 - j) + m = min n (1024 - (j + 1)) + m + 1 by omega]
      exact Takes.cons hb trivial ((ih h).congr rfl rfl)

theorem allocLevel1_calls {l : Nat} (h : allocLevel1 i n l v = .ok (r, w))
    (ht : Takes (fun _ => True) e m w.cached) : Takes (fun _ => True) e (min n (49 - l) + m) v.cached := by
  have h1 : level1Limit = 49 := rfl
  induction n generalizing l v with
  | zero =>
    cases h
    rwa [Nat.zero_min, Nat.zero_add]
  | succ n ih =>
    unfold allocLevel1 at h
    split at h
    case isFalse hl =>
      cases h
      rwa [show min (n + 1) (49 - l) + m = m by omega]
    case isTrue hl =>
      obtain ⟨⟨b, v'⟩, hb, h⟩ := ExceptLib.bind_eq_ok.mp h
      rw [show min (n + 1) (49 - l) + m = min n (49 - (l + 1)) + m + 1 by omega]
      exact Takes.cons hb trivial ((ih h).congr rfl rfl)

/-- The loop of level 2, from `l2[j]` on. -/
theorem allocLevel2_calls {fuel j start : Nat} (hfuel : fuel = 5 - j) (hs : start < 1024)
    (h : allocLevel2 ofs i fuel j start n v = .ok (r, w)) (ht : Takes (fun _ => True) e m w.cached) :
    Takes (fun _ => True) e
      ((refs (49 + 1024 * j + start) (min n (5169 - (49 + 1024 * j + start)))).length + m) v.cached := by
  induction fuel generalizing j start n v with
  | zero =>
    cases h
    rwa [show 5169 - (49 + 1024 * j + start) = 0 by omega, Nat.min_zero, refs, List.length_nil, Nat.zero_add]
  | succ fuel ih =>
    unfold allocLevel2 at h
    split at h
    case isTrue hn =>
      cases h
      subst hn
      rwa [Nat.zero_min, refs, List.length_nil, Nat.zero_add]
    case isFalse hn =>
      obtain ⟨v₁, h₁, h⟩ := ExceptLib.bind_eq_ok.mp h
      obtain ⟨⟨l, y, v₂⟩, h₂, h⟩ := ExceptLib.bind_eq_ok.mp h
      obtain ⟨hl, -⟩ := fillPointers_frame h₂
      have ht₂ := ih (by omega) (by decide) h
      rw [hl] at ht₂
      have ht₁ := fillPointers_calls h₂ ht₂
      rw [refs_l2_length (by omega) hs (by omega), Nat.add_assoc, Nat.add_assoc]
      split at h₁
      case isFalse h0 =>
        cases h₁
        rwa [if_neg h0, Nat.zero_add]
      case isTrue h0 =>
        obtain ⟨⟨b, v'⟩, hb, h₁⟩ := ExceptLib.bind_eq_ok.mp h₁
        cases h₁
        rw [if_pos h0, Nat.add_comm 1]
        exact Takes.cons hb trivial (ht₁.congr rfl rfl)

/-- The loop of level 3, from entry `l` of the block of `l3` on. -/
theorem allocLevel3_calls {fuel l start : Nat} {y : Block} (hfuel : fuel = 1024 - l) (hs : start < 1024)
    (hn : 5169 + 1024 * l + start + n ≤ level3Limit) (h : allocLevel3 ofs i fuel l start n x v = .ok (r, y, w))
    (ht : Takes (fun _ => True) e m w.cached) :
    Takes (fun _ => True) e ((refs3 (5169 + 1024 * l + start) n).length + m) v.cached := by
  have hlim : level3Limit = 1053745 := rfl
  induction fuel generalizing l start n x v with
  | zero =>
    obtain rfl : n = 0 := by omega
    cases h
    rwa [refs3_zero, List.length_nil, Nat.zero_add]
  | succ fuel ih =>
    unfold allocLevel3 at h
    split at h
    case isTrue h0 =>
      cases h
      subst h0
      rwa [refs3_zero, List.length_nil, Nat.zero_add]
    case isFalse h0 =>
      obtain ⟨⟨x₁, v₁⟩, h₁, h⟩ := ExceptLib.bind_eq_ok.mp h
      obtain ⟨⟨l', z, v₂⟩, h₂, h⟩ := ExceptLib.bind_eq_ok.mp h
      obtain ⟨hl, -⟩ := fillPointers_frame h₂
      subst hl
      have ht₂ := ih (by omega) (by decide) (by omega) h
      have ht₁ := fillPointers_calls h₂ ht₂
      rw [refs3_length hs (by omega), Nat.add_assoc, Nat.add_assoc]
      split at h₁
      case isFalse h0 =>
        cases h₁
        rwa [if_neg h0, Nat.zero_add]
      case isTrue h0 =>
        obtain ⟨⟨b, v'⟩, hb, h₁⟩ := ExceptLib.bind_eq_ok.mp h₁
        cases h₁
        rw [if_pos h0, Nat.add_comm 1]
        exact Takes.cons hb trivial ht₁

/-- From level 3 on. -/
theorem allocFromLevel3_calls (hb : (v.inode i).blocks = b) (hn : b + n ≤ level3Limit) (hlo : 5169 ≤ b)
    (h : allocFromLevel3 ofs i n v = .ok (r, w)) : Takes (fun _ => True) w.cached (allocTakes b n) v.cached := by
  have hlim : level3Limit = 1053745 := rfl
  have h2 : level2Limit = 5169 := rfl
  have hp : pointerPerBlock = 1024 := rfl
  unfold allocFromLevel3 at h
  obtain ⟨v₁, h₁, h⟩ := ExceptLib.bind_eq_ok.mp h
  obtain ⟨⟨k, y, v₂⟩, h₂, h⟩ := ExceptLib.bind_eq_ok.mp h
  cases h
  rw [hb, h2] at h₁
  rw [hb, h2, hp, show (b - 5169) / 1024 % 65536 = (b - 5169) / 1024 by omega] at h₂
  have ht₁ := allocLevel3_calls (m := 0) rfl (Nat.mod_lt _ (by decide)) (by omega) h₂ (.done rfl rfl)
  rw [show 5169 + 1024 * ((b - 5169) / 1024) + (b - 5169) % 1024 = b by omega] at ht₁
  rw [allocTakes_level3 hlo]
  split at h₁
  case isFalse h0 =>
    cases h₁
    rwa [if_neg h0, Nat.zero_add]
  case isTrue h0 =>
    obtain ⟨⟨a, v'⟩, ha, h₁⟩ := ExceptLib.bind_eq_ok.mp h₁
    cases h₁
    rw [if_pos h0, Nat.add_comm 1]
    exact Takes.cons ha trivial (ht₁.congr rfl rfl)

/-- From level 2 on. -/
theorem allocFromLevel2_calls (hb : (v.inode i).blocks = b) (hn : b + n ≤ level3Limit) (hlo : 49 ≤ b) (hhi : b < 5169)
    (h : allocFromLevel2 ofs i n v = .ok (r, w)) : Takes (fun _ => True) w.cached (refs b n).length v.cached := by
  have hlim : level3Limit = 1053745 := rfl
  have h1 : level1Limit = 49 := rfl
  have hp : pointerPerBlock = 1024 := rfl
  unfold allocFromLevel2 at h
  obtain ⟨⟨k, v₁⟩, h₁, h⟩ := ExceptLib.bind_eq_ok.mp h
  rw [hb, h1, hp] at h₁
  have hs : (b - 49) % 1024 < 1024 := Nat.mod_lt _ (by decide)
  obtain ⟨hk, hf⟩ := allocLevel2_frame hs h₁
  have hsplit : refs b n = refs b (min n (5169 - b)) ++ refs (b + min n (5169 - b)) (n - (5169 - b)) := by
    rw [← refs_add]
    congr 1
    omega
  have hstart : 49 + 1024 * ((b - 49) / 1024) + (b - 49) % 1024 = b := by omega
  rw [hsplit, List.length_append]
  dsimp only at h
  split at h
  case isTrue h0 =>
    cases h
    have ht := allocLevel2_calls (m := 0) rfl hs h₁ (.done rfl rfl)
    rw [hstart] at ht
    rwa [show n - (5169 - b) = 0 by omega, refs, List.length_nil]
  case isFalse h0 =>
    have hb₁ : (v₁.inode i).blocks = 5169 := by
      rw [hf.blocks (by omega), hb]
      omega
    have ht₂ := allocFromLevel3_calls hb₁ (by omega) (Nat.le_refl _) h
    have ht := allocLevel2_calls rfl hs h₁ ht₂
    rw [hstart] at ht
    unfold allocTakes at ht
    rw [if_neg (fun hz => h0 hz.2), Nat.add_zero] at ht
    rwa [show b + min n (5169 - b) = 5169 by omega, show n - (5169 - b) = k by omega]

/-- **The calls of an allocation that succeeds** are those that `allocTakes` counts. -/
theorem allocBlock_calls (hn : (v.inode i).blocks + n ≤ level3Limit) (h : allocBlock ofs i n v = .ok (r, w)) :
    Takes (fun _ => True) w.cached (allocTakes (v.inode i).blocks n) v.cached := by
  have hlim : level3Limit = 1053745 := rfl
  have h1 : level1Limit = 49 := rfl
  have h2 : level2Limit = 5169 := rfl
  obtain ⟨b, hb⟩ : ∃ b, (v.inode i).blocks = b := ⟨_, rfl⟩
  unfold allocBlock at h
  obtain ⟨y, hy, h⟩ := ExceptLib.bind_eq_ok.mp h
  obtain ⟨-, rfl⟩ := (inodeAt_eq_ok _ _).mp hy
  rw [hb] at h hn ⊢
  split at h
  case isTrue hlo => exact allocFromLevel3_calls hb hn hlo h
  case isFalse hlt =>
  have htakes : allocTakes b n = (refs b n).length := by
    unfold allocTakes
    rw [if_neg (by omega), Nat.add_zero]
  rw [htakes]
  split at h
  case isTrue hlo => exact allocFromLevel2_calls hb hn hlo (by omega) h
  case isFalse hlt1 =>
  obtain ⟨⟨k, v₁⟩, h₁, h⟩ := ExceptLib.bind_eq_ok.mp h
  obtain ⟨hk, hf⟩ := allocLevel1_frame h₁
  have hsplit : refs b n = refs b (min n (49 - b)) ++ refs (b + min n (49 - b)) (n - (49 - b)) := by
    rw [← refs_add]
    congr 1
    omega
  have hl1 : (refs b (min n (49 - b))).length = min n (49 - b) := refs_l1_length (by omega)
  rw [hsplit, List.length_append, hl1]
  dsimp only at h
  split at h
  case isTrue h0 =>
    cases h
    rw [show n - (49 - b) = 0 by omega, refs, List.length_nil]
    exact allocLevel1_calls h₁ (.done rfl rfl)
  case isFalse h0 =>
    have hb₁ : (v₁.inode i).blocks = 49 := by
      rw [hf.blocks (by omega), hb]
      omega
    have ht := allocLevel1_calls h₁ (allocFromLevel2_calls hb₁ (by omega) (Nat.le_refl _) (by decide) h)
    rwa [show b + min n (49 - b) = 49 by omega, show n - (49 - b) = k by omega]

end

end Vsfs
