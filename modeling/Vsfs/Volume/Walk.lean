import Vsfs.Model.ShmIO
import Vsfs.Volume.Refs

/-!
# The walk through the block map

`__write_dblock` and `__read_dblock` of `vsfsio.h` visit the blocks of a file level by level. As long as what is done at
a block leaves the map alone, the walk is one loop over the data blocks.

- `loopBlocks_eq`, `loopPointers_eq`: the loops of one level;
- `throughMap_preserves`, `throughMap_done`: the walk from any position: what every step keeps, and where it ends;
- `throughMap_eq`: the walk, from a block whose number in 16 bits is not taken for one of level 1.
-/

set_option autoImplicit false

namespace Vsfs.Shm

open Function ByteSeq

/-! ## References in the segments -/

/-- The number that a reference of inode `i` holds. -/
def Segments.ref (u : Segments) (i : Nat) : Ref → Nat
  | .l1 k => (u.inodes i).l1 k
  | .l2 j => (u.inodes i).l2 j
  | .l2e j k => pointer (u.data ((u.inodes i).l2 j)) k
  | .l3 => (u.inodes i).l3
  | .l3e q => pointer (u.data (u.inodes i).l3) q
  | .l3d q k => pointer (u.data (pointer (u.data (u.inodes i).l3) q)) k

/-! ## Cursors -/

variable {c : Cursor} {k fin n pos q : Nat}

/-- The cursor of a copy of `n` bytes up to `fin` stands in block `k` of the file, or at the end. -/
structure Cursor.At (c : Cursor) (k fin n : Nat) : Prop where
  done : c.done + c.left = n
  pos : c.pos + c.left = fin
  place : c.left ≠ 0 → c.offset < 4096 ∧ c.pos = 4096 * k + c.offset

theorem Cursor.start_at (pos n : Nat) : (Cursor.start pos n).At (pos / 4096) (pos + n) n := by
  refine ⟨Nat.zero_add n, rfl, fun _ => ?_⟩
  unfold Cursor.start blockSize
  dsimp only
  omega

/-- What a round moves is not more than what is left, and ends the block or the copy. -/
theorem Cursor.At.length_spec (h : c.At k fin n) (hl : c.left ≠ 0) : 0 < c.length ∧ c.length ≤ c.left ∧
    c.offset + c.length ≤ 4096 ∧ (c.length = c.left ∨ c.offset + c.length = 4096) := by
  obtain ⟨ho, _⟩ := h.place hl
  unfold Cursor.length roundLength blockSize
  split <;> omega

theorem Cursor.At.next (h : c.At k fin n) (hl : c.left ≠ 0) (hf : fin < 2 ^ 64) : c.next.At (k + 1) fin n := by
  obtain ⟨h0, hle, hend, hlast⟩ := h.length_spec hl
  obtain ⟨ho, hp⟩ := h.place hl
  have hdone := h.done
  have hpos := h.pos
  unfold Cursor.next
  refine ⟨?_, ?_, fun hl' => ?_⟩ <;> dsimp only at *
  · omega
  · rw [Nat.mod_eq_of_lt (by omega)]
    omega
  · rw [Nat.mod_eq_of_lt (by omega)]
    omega

/-- Before the end the block is one of those up to the end. -/
theorem Cursor.At.lt (h : c.At k fin n) (hl : c.left ≠ 0) : 4096 * k < fin := by
  have := (h.place hl).2
  have := h.pos
  omega

/-- `offset = target_op->offset % VSFS_BLOCK_SIZE` changes nothing. -/
theorem Cursor.At.offset (h : c.At k fin n) (hl : c.left ≠ 0) : { c with offset := c.pos % blockSize } = c := by
  obtain ⟨ho, hp⟩ := h.place hl
  have : c.pos % blockSize = c.offset := by
    unfold blockSize
    omega
  rw [this]

/-! ## One loop over the data blocks -/

variable {σ : Type} {view : σ → Segments} {act : Nat → Cursor → σ → σ} {s : σ} {m : Nat → Nat} {a b fuel : Nat}

/-- The loop over the blocks with the numbers `m q`, from `q` on. -/
def loopPages (act : Nat → Cursor → σ → σ) (m : Nat → Nat) (fuel q : Nat) (c : Cursor) (s : σ) : Cursor × σ :=
  loopBlocks act (fun _ => m) fuel q c s

theorem loopBlocks_end {block : σ → Nat → Nat} (hl : c.left = 0) : loopBlocks act block fuel q c s = (c, s) := by
  cases fuel with
  | zero => rfl
  | succ fuel =>
    unfold loopBlocks
    rw [if_pos hl]

theorem loopBlocks_succ {block : σ → Nat → Nat} (hl : c.left ≠ 0) :
    loopBlocks act block (fuel + 1) q c s = loopBlocks act block fuel (q + 1) c.next (act (block s q) c s) := by
  rw [loopBlocks, if_neg hl]

/-- Where the cursor stands after a loop over blocks, whatever is done at them. -/
theorem loopBlocks_at (act : Nat → Cursor → σ → σ) (block : σ → Nat → Nat) (fuel j : Nat) (s : σ) (hf : fin < 2 ^ 64)
    (h : c.At k fin n) :
    (loopBlocks act block fuel j c s).1.At (k + fuel) fin n := by
  induction fuel generalizing j k c s with
  | zero => exact h
  | succ fuel ih =>
    by_cases hl : c.left = 0
    · rw [loopBlocks_end hl]
      exact ⟨h.done, h.pos, fun h => absurd hl h⟩
    · rw [loopBlocks_succ hl, show k + (fuel + 1) = k + 1 + fuel by omega]
      exact ih _ _ (h.next hl hf)

theorem loopPages_add (a b : Nat) : loopPages act m (a + b) q c s =
    loopPages act m b (q + a) (loopPages act m a q c s).1 (loopPages act m a q c s).2 := by
  unfold loopPages
  induction a generalizing q c s with
  | zero => rw [Nat.zero_add, loopBlocks, Nat.add_zero]
  | succ a ih =>
    by_cases hl : c.left = 0
    · rw [loopBlocks_end hl, loopBlocks_end hl, loopBlocks_end hl]
    · rw [Nat.add_right_comm, loopBlocks_succ hl, loopBlocks_succ hl, ih, show q + 1 + a = q + (a + 1) by omega]

section

variable {P : σ → Prop} {lo : Nat} (hf : fin < 2 ^ 64)
  (hact : ∀ s c q, P s → lo ≤ q → 4096 * q < fin → P (act (m q) c s))

include hf hact in
/-- The loop from a block behind `lo` on keeps what an action keeps. -/
theorem loopPages_keeps (fuel : Nat) (h : c.At q fin n) (hlo : lo ≤ q) (hs : P s) :
    P (loopPages act m fuel q c s).2 := by
  unfold loopPages
  induction fuel generalizing q c s with
  | zero => exact hs
  | succ fuel ih =>
    by_cases hl : c.left = 0
    · rw [loopBlocks_end hl]
      exact hs
    · rw [loopBlocks_succ hl]
      exact ih (h.next hl hf) (by omega) (hact s c q hs hlo (h.lt hl))

include hf hact in
/-- **A loop over blocks** that are those of the file from block `b` on. -/
theorem loopBlocks_eq {block : σ → Nat → Nat} {j l : Nat}
    (hblock : ∀ s j, P s → j < l → 4096 * (b + j) < fin → block s j = m (b + j)) (hj : j + fuel ≤ l)
    (h : c.At (b + j) fin n) (hlo : lo ≤ b + j) (hs : P s) :
    loopBlocks act block fuel j c s = loopPages act m fuel (b + j) c s := by
  unfold loopPages
  induction fuel generalizing j c s with
  | zero => rfl
  | succ fuel ih =>
    by_cases hl : c.left = 0
    · rw [loopBlocks_end hl, loopBlocks_end hl]
    · rw [loopBlocks_succ hl, loopBlocks_succ hl, hblock s j hs (by omega) (h.lt hl)]
      exact ih (by omega) (h.next hl hf) (by omega) (hact s c _ hs hlo (h.lt hl))

include hf hact in
/-- **A loop over pointer blocks** `g i` that list the blocks of the file from block `b` on. -/
theorem loopPointers_eq {ptr : σ → Nat → Nat} {g : Nat → Nat} {i l start : Nat}
    (hptr : ∀ s i, P s → i < l → 4096 * (b + 1024 * i) < fin → ptr s i = g i)
    (hblock : ∀ s i j, P s → i < l → j < 1024 → 4096 * (b + 1024 * i + j) < fin →
      pointer ((view s).data (g i)) j = m (b + 1024 * i + j))
    (hi : i + fuel = l) (hstart : start < 1024) (h : c.At (b + 1024 * i + start) fin n)
    (hlo : lo ≤ b + 1024 * i + start) (hs : P s) :
    loopPointers view act ptr fuel i start c s =
      loopPages act m (1024 * l - (1024 * i + start)) (b + 1024 * i + start) c s := by
  have hp : pointerPerBlock = 1024 := rfl
  induction fuel generalizing i start c s with
  | zero =>
    rw [show 1024 * l - (1024 * i + start) = 0 by omega]
    rfl
  | succ fuel ih =>
    unfold loopPointers
    by_cases hl : c.left = 0
    · rw [if_pos hl]
      exact (loopBlocks_end hl).symm
    · have hlt := h.lt hl
      rw [if_neg hl, hptr s i hs (by omega) (by omega), hp]
      have hin := loopBlocks_eq hf hact (fun s j hs hj hlt => hblock s i j hs (by omega) hj hlt)
        (by omega : start + (1024 - start) ≤ 1024) h hlo hs
      have hat : (loopPages act m (1024 - start) (b + 1024 * i + start) c s).1.At
          (b + 1024 * i + start + (1024 - start)) fin n := loopBlocks_at act _ _ _ _ hf h
      have hkeep := loopPages_keeps hf hact (1024 - start) h hlo hs
      rw [show b + 1024 * i + start + (1024 - start) = b + 1024 * (i + 1) + 0 by omega] at hat
      dsimp only
      rw [hin, ih (by omega) (by decide) hat (by omega) hkeep,
        show 1024 * l - (1024 * i + start) = 1024 - start + (1024 * l - (1024 * (i + 1) + 0)) by omega,
        loopPages_add, show b + 1024 * i + start + (1024 - start) = b + 1024 * (i + 1) + 0 by omega]

end

/-- Where the cursor stands after a loop over pointer blocks. -/
theorem loopPointers_at (view : σ → Segments) (act : Nat → Cursor → σ → σ) (ptr : σ → Nat → Nat) (s : σ) {i l start : Nat}
    (hf : fin < 2 ^ 64) (hi : i + fuel = l) (hstart : start < 1024) (h : c.At (b + 1024 * i + start) fin n) :
    (loopPointers view act ptr fuel i start c s).1.At (b + 1024 * i + start + (1024 * l - (1024 * i + start))) fin n := by
  have hp : pointerPerBlock = 1024 := rfl
  induction fuel generalizing i start c s with
  | zero =>
    rw [show 1024 * l - (1024 * i + start) = 0 by omega]
    exact h
  | succ fuel ih =>
    unfold loopPointers
    by_cases hl : c.left = 0
    · rw [if_pos hl]
      exact ⟨h.done, h.pos, fun h => absurd hl h⟩
    · have hat := loopBlocks_at act (fun s' j => pointer ((view s').data (ptr s i)) j) (1024 - start) start s hf h
      rw [if_neg hl, hp]
      dsimp only
      rw [show b + 1024 * i + start + (1024 - start) = b + 1024 * (i + 1) + 0 by omega] at hat
      have hrest := ih (loopBlocks act (fun s' j => pointer ((view s').data (ptr s i)) j) (1024 - start) start c s).2
        (by omega) (by decide) hat
      rwa [show b + 1024 * (i + 1) + 0 + (1024 * l - (1024 * (i + 1) + 0)) =
        b + 1024 * i + start + (1024 * l - (1024 * i + start)) by omega] at hrest

/-! ## The whole walk -/

/-- The map of inode `i` up to byte `fin` is that of `u` in the states that meet `P`. -/
def MapStays (view : σ → Segments) (P : σ → Prop) (u : Segments) (i fin : Nat) : Prop :=
  ∀ s, P s → ∀ r : Ref, r.Valid → 4096 * r.first < fin → (view s).ref i r = u.ref i r

/-- The number of data block `q` of inode `i`. -/
def Segments.dblock (u : Segments) (i q : Nat) : Nat := u.ref i (dataRef q)

section

variable {P : σ → Prop} {u : Segments} {i lo : Nat} (hmap : MapStays view P u i fin)
  (hfin : fin ≤ level3LimitTimesBlockSize)
  (hact : ∀ s c q, P s → lo ≤ q → 4096 * q < fin → P (act (u.dblock i q) c s))

include hmap hfin hact in
theorem fromLevel3_eq {k : Nat} (hk : 5169 ≤ k) (h : c.At k fin n) (hl : c.left ≠ 0) (hlo : lo ≤ k) (hs : P s) :
    fromLevel3 view act i c s = loopPages act (u.dblock i) (level3Limit - k) k c s := by
  have h2 : level2Limit = 5169 := rfl
  have hlim : level3Limit = 1053745 := rfl
  have hp : pointerPerBlock = 1024 := rfl
  have hmax : level3LimitTimesBlockSize = 4294972465 := rfl
  have hlt := h.lt hl
  obtain ⟨ho, hpos⟩ := h.place hl
  have hdiv : c.pos / blockSize = k := by
    unfold blockSize
    omega
  obtain ⟨q, start, hst, hkq⟩ : ∃ q start, start < 1024 ∧ k = 5169 + 1024 * q + start :=
    ⟨(k - 5169) / 1024, (k - 5169) % 1024, by omega, by omega⟩
  have hreal : sub32 k level2Limit = k - 5169 := sub32_of_le hk (by omega)
  have hq : (k - 5169) / pointerPerBlock % 65536 = q := by
    rw [hp]
    omega
  have hr : (k - 5169) % pointerPerBlock = start := by
    rw [hp]
    omega
  -- the block of level 3 and the pointer blocks that it lists
  have hl3 : ∀ s, P s → ((view s).inodes i).l3 = u.ref i .l3 := fun s hs => hmap s hs .l3 trivial (by
    show 4096 * 5169 < fin
    omega)
  have hl3e : ∀ s i', P s → i' < 1024 → 4096 * (5169 + 1024 * i') < fin →
      pointer ((view s).data (u.ref i .l3)) i' = u.ref i (.l3e i') := by
    intro s i' hs hi' hlt
    rw [← hl3 s hs]
    exact hmap s hs (.l3e i') hi' hlt
  unfold fromLevel3
  rw [h.offset hl, hdiv, hreal]
  dsimp only
  rw [hq, hr]
  unfold loopLevel3
  dsimp only
  rw [hp, hl3 s hs]
  rw [loopPointers_eq (P := P) (m := u.dblock i) (g := fun j => u.ref i (.l3e j)) (b := 5169) (l := 1024)
    (by omega) hact hl3e (fun s i' j hs hi' hj hlt => ?_) (by omega) hst (by rw [← hkq]; exact h)
    (by omega) hs]
  · rw [← hkq, show 1024 * 1024 - (1024 * q + start) = level3Limit - k by omega]
  · have := hmap s hs (.l3d i' j) ⟨hi', hj⟩ hlt
    unfold Segments.dblock
    rw [dataRef_l3d hj, ← this, ← hl3e s i' hs hi' (by omega), ← hl3 s hs]
    rfl

include hmap hfin hact in
theorem fromLevel2_eq {k : Nat} (hk : 49 ≤ k) (h : c.At k fin n) (hl : c.left ≠ 0) (hlo : lo ≤ k) (hs : P s) :
    fromLevel2 view act i c s = loopPages act (u.dblock i) (level3Limit - k) k c s := by
  have h1 : level1Limit = 49 := rfl
  have hp : pointerPerBlock = 1024 := rfl
  have hmax : level3LimitTimesBlockSize = 4294972465 := rfl
  have hlt := h.lt hl
  obtain ⟨ho, hpos⟩ := h.place hl
  have hdiv : c.pos / blockSize = k := by
    unfold blockSize
    omega
  obtain ⟨q, start, hst, hkq⟩ : ∃ q start, start < 1024 ∧ k = 49 + 1024 * q + start :=
    ⟨(k - 49) / 1024, (k - 49) % 1024, by omega, by omega⟩
  have hreal : sub32 k level1Limit = k - 49 := sub32_of_le hk (by omega)
  have hq : (k - 49) / pointerPerBlock % 65536 = q := by
    rw [hp]
    omega
  have hr : (k - 49) % pointerPerBlock = start := by
    rw [hp]
    omega
  unfold fromLevel2
  rw [h.offset hl, hdiv, hreal]
  dsimp only
  rw [hq, hr]
  unfold loopLevel2
  by_cases hbeyond : 5169 ≤ k
  · -- the index of the pointer block is beyond level 2
    have hrun : loopPointers view act (fun s j => ((view s).inodes i).l2 j) (5 - q) q start c s = (c, s) := by
      rw [show 5 - q = 0 by omega]
      rfl
    rw [hrun]
    dsimp only
    rw [if_neg hl]
    exact fromLevel3_eq hmap hfin hact hbeyond h hl hlo hs
  have hlim : level3Limit = 1053745 := rfl
  have hl2 : ∀ s i', P s → i' < 5 → 4096 * (49 + 1024 * i') < fin → ((view s).inodes i).l2 i' = u.ref i (.l2 i') :=
    fun s i' hs hi' hlt => hmap s hs (.l2 i') hi' hlt
  have hl2e : ∀ s i' j, P s → i' < 5 → j < 1024 → 4096 * (49 + 1024 * i' + j) < fin →
      pointer ((view s).data (u.ref i (.l2 i'))) j = u.dblock i (49 + 1024 * i' + j) := by
    intro s i' j hs hi' hj hlt
    have := hmap s hs (.l2e i' j) ⟨hi', hj⟩ hlt
    unfold Segments.dblock
    rw [dataRef_l2e hi' hj, ← this, ← hl2 s i' hs hi' (by omega)]
    rfl
  have hrun := loopPointers_eq (m := u.dblock i) (g := fun j => u.ref i (.l2 j)) (by omega) hact hl2 hl2e
    (by omega : q + (5 - q) = 5) hst (by rw [← hkq]; exact h) (by omega) hs
  rw [← hkq] at hrun
  have hat : (loopPages act (u.dblock i) (1024 * 5 - (1024 * q + start)) k c s).1.At
      (k + (1024 * 5 - (1024 * q + start))) fin n := loopBlocks_at act _ _ _ _ (by omega) h
  have hkeep := loopPages_keeps (by omega : fin < 2 ^ 64) hact (1024 * 5 - (1024 * q + start)) h hlo hs
  rw [hrun, show level3Limit - k = 1024 * 5 - (1024 * q + start) + (level3Limit - 5169) by omega, loopPages_add]
  rw [show k + (1024 * 5 - (1024 * q + start)) = 5169 by omega] at hat ⊢
  dsimp only
  split
  case isTrue hz => exact (loopBlocks_end hz).symm
  case isFalse hz => exact fromLevel3_eq hmap hfin hact (Nat.le_refl _) hat hz (by omega) hkeep

end

/-! ## The end of the walk -/

section

variable {i : Nat}

/-- With nothing left no block is visited. -/
theorem loopPointers_end {ptr : σ → Nat → Nat} {j start : Nat} (hl : c.left = 0) :
    loopPointers view act ptr fuel j start c s = (c, s) := by
  cases fuel with
  | zero => rfl
  | succ fuel =>
    unfold loopPointers
    rw [if_pos hl]

theorem fromLevel3_end (hl : c.left = 0) (ho : c.pos % blockSize = c.offset) :
    fromLevel3 view act i c s = (c, s) := by
  unfold fromLevel3 loopLevel3
  rw [ho]
  exact loopPointers_end hl

theorem loopLevel2_end (a b : Nat) (hl : c.left = 0) : loopLevel2 view act i a b c s = (c, s) := by
  unfold loopLevel2
  rw [loopPointers_end hl]
  dsimp only
  rw [if_pos hl]

theorem loopLevel1_end (a : Nat) (hl : c.left = 0) : loopLevel1 view act i a c s = (c, s) := by
  unfold loopLevel1
  rw [loopBlocks_end hl]
  dsimp only
  rw [if_pos hl]

theorem throughMap_of_end (hl : c.left = 0) (ho : c.pos % blockSize = c.offset) :
    throughMap view act i c s = (c, s) := by
  have h2 : fromLevel2 view act i c s = (c, s) := by
    unfold fromLevel2
    rw [ho]
    exact loopLevel2_end _ _ hl
  unfold throughMap
  dsimp only
  rw [fromLevel3_end hl ho, h2, loopLevel1_end _ hl, ite_self, ite_self]

section

variable {P : σ → Prop} (hact : ∀ a c s, P s → P (act a c s))

include hact

theorem loopBlocks_preserves {block : σ → Nat → Nat} {j : Nat} (hs : P s) : P (loopBlocks act block fuel j c s).2 := by
  induction fuel generalizing j c s with
  | zero => exact hs
  | succ fuel ih =>
    unfold loopBlocks
    split
    case isTrue => exact hs
    case isFalse => exact ih (hact _ _ _ hs)

theorem loopPointers_preserves {ptr : σ → Nat → Nat} {j start : Nat} (hs : P s) :
    P (loopPointers view act ptr fuel j start c s).2 := by
  induction fuel generalizing j start c s with
  | zero => exact hs
  | succ fuel ih =>
    unfold loopPointers
    split
    case isTrue => exact hs
    case isFalse => exact ih (loopBlocks_preserves hact hs)

theorem loopLevel3_preserves (i a b : Nat) (hs : P s) : P (loopLevel3 view act i a b c s).2 := by
  unfold loopLevel3
  exact loopPointers_preserves hact hs

theorem loopLevel2_preserves (i a b : Nat) (hs : P s) : P (loopLevel2 view act i a b c s).2 := by
  unfold loopLevel2
  obtain ⟨r, hr⟩ : ∃ r, loopPointers view act (fun s j => ((view s).inodes i).l2 j) (5 - a) a b c s = r := ⟨_, rfl⟩
  have hP : P r.2 := hr ▸ loopPointers_preserves hact hs
  rw [hr]
  obtain ⟨c', s'⟩ := r
  dsimp only
  split
  case isTrue => exact hP
  case isFalse => exact loopLevel3_preserves hact i _ _ hP

theorem loopLevel1_preserves (i a : Nat) (hs : P s) : P (loopLevel1 view act i a c s).2 := by
  unfold loopLevel1
  obtain ⟨r, hr⟩ : ∃ r, loopBlocks act (fun s j => ((view s).inodes i).l1 j) (level1Limit - a) a c s = r := ⟨_, rfl⟩
  have hP : P r.2 := hr ▸ loopBlocks_preserves hact hs
  rw [hr]
  obtain ⟨c', s'⟩ := r
  dsimp only
  split
  case isTrue => exact hP
  case isFalse => exact loopLevel2_preserves hact i _ _ hP

/-- The walk keeps what is kept at every block, wherever it goes. -/
theorem throughMap_preserves (i : Nat) (hs : P s) : P (throughMap view act i c s).2 := by
  unfold throughMap
  obtain ⟨start, hstart⟩ : ∃ start, c.pos / blockSize % 65536 = start := ⟨_, rfl⟩
  rw [hstart]
  dsimp only
  split
  case isTrue => exact loopLevel3_preserves hact i _ _ hs
  case isFalse =>
  split
  case isTrue => exact loopLevel2_preserves hact i _ _ hs
  case isFalse => exact loopLevel1_preserves hact i _ hs

end

/-- The copy of `n` bytes up to `fin` is done. -/
def Cursor.Ended (c : Cursor) (fin n : Nat) : Prop := c.left = 0 ∧ c.done = n ∧ c.pos = fin

theorem Cursor.At.ended {k : Nat} (h : c.At k fin n) (hk : c.left = 0 ∨ fin ≤ 4096 * k) : c.Ended fin n := by
  have hz : c.left = 0 := by
    rcases hk with hz | hk
    · exact hz
    · by_contra hne
      have := h.lt hne
      omega
  have hdone := h.done
  have hend := h.pos
  exact ⟨hz, by omega, by omega⟩

/-- From level 3 on the copy is done. -/
theorem fromLevel3_ended {k : Nat} (hfin : fin ≤ level3LimitTimesBlockSize) (hk : 5169 ≤ k) (h : c.At k fin n)
    (hl : c.left ≠ 0) : (fromLevel3 view act i c s).1.Ended fin n := by
  have h2 : level2Limit = 5169 := rfl
  have hlim : level3Limit = 1053745 := rfl
  have hp : pointerPerBlock = 1024 := rfl
  have hmax : level3LimitTimesBlockSize = 4294972465 := rfl
  have hlt := h.lt hl
  obtain ⟨ho, hpos⟩ := h.place hl
  have hdiv : c.pos / blockSize = k := by
    unfold blockSize
    omega
  obtain ⟨q, start, hst, hkq⟩ : ∃ q start, start < 1024 ∧ k = 5169 + 1024 * q + start :=
    ⟨(k - 5169) / 1024, (k - 5169) % 1024, by omega, by omega⟩
  have hq : (k - 5169) / 1024 % 65536 = q := by omega
  have hr : (k - 5169) % 1024 = start := by omega
  obtain ⟨e, he⟩ : ∃ e, fromLevel3 view act i c s = e := ⟨_, rfl⟩
  rw [he]
  unfold fromLevel3 loopLevel3 at he
  rw [h.offset hl, hdiv, h2, sub32_of_le hk (by omega), hp] at he
  dsimp only at he
  rw [hq, hr] at he
  rw [hkq] at h
  have hat := loopPointers_at view act (fun s' j => pointer ((view s').data ((view s).inodes i).l3) j) s
    (by omega : fin < 2 ^ 64) (by omega : q + (1024 - q) = 1024) hst h
  rw [he] at hat
  exact hat.ended (Or.inr (by omega))

/-- From level 2 on. -/
theorem fromLevel2_ended {k : Nat} (hfin : fin ≤ level3LimitTimesBlockSize) (hk : 49 ≤ k) (h : c.At k fin n)
    (hl : c.left ≠ 0) : (fromLevel2 view act i c s).1.Ended fin n := by
  have h1 : level1Limit = 49 := rfl
  have hlim : level3Limit = 1053745 := rfl
  have hp : pointerPerBlock = 1024 := rfl
  have hmax : level3LimitTimesBlockSize = 4294972465 := rfl
  have hlt := h.lt hl
  obtain ⟨ho, hpos⟩ := h.place hl
  have hdiv : c.pos / blockSize = k := by
    unfold blockSize
    omega
  obtain ⟨q, start, hst, hkq⟩ : ∃ q start, start < 1024 ∧ k = 49 + 1024 * q + start :=
    ⟨(k - 49) / 1024, (k - 49) % 1024, by omega, by omega⟩
  have hq : (k - 49) / 1024 % 65536 = q := by omega
  have hr : (k - 49) % 1024 = start := by omega
  obtain ⟨e, he⟩ : ∃ e, fromLevel2 view act i c s = e := ⟨_, rfl⟩
  rw [he]
  unfold fromLevel2 at he
  rw [h.offset hl, hdiv, h1, sub32_of_le hk (by omega), hp] at he
  dsimp only at he
  rw [hq, hr] at he
  obtain ⟨⟨c', s'⟩, hrun⟩ : ∃ r, loopPointers view act (fun s j => ((view s).inodes i).l2 j) (5 - q) q start c s = r :=
    ⟨_, rfl⟩
  unfold loopLevel2 at he
  rw [hrun] at he
  dsimp only at he
  by_cases hbeyond : 5169 ≤ k
  · -- the index of the pointer block is beyond level 2
    rw [show 5 - q = 0 by omega] at hrun
    cases hrun
    rw [if_neg hl] at he
    rw [← he]
    exact fromLevel3_ended hfin hbeyond h hl
  rw [hkq] at h
  have hat := loopPointers_at view act (fun s j => ((view s).inodes i).l2 j) s (by omega : fin < 2 ^ 64)
    (by omega : q + (5 - q) = 5) hst h
  rw [show 49 + 1024 * q + start + (1024 * 5 - (1024 * q + start)) = 5169 by omega] at hat
  rw [hrun] at hat
  split at he
  case isTrue hz =>
    rw [← he]
    exact hat.ended (Or.inl hz)
  case isFalse hz =>
    rw [← he]
    exact fromLevel3_ended hfin (Nat.le_refl _) hat hz

/-- **The walk ends with the copy done**, whatever is done at the blocks and wherever it starts. -/
theorem throughMap_done (view : σ → Segments) (act : Nat → Cursor → σ → σ) (i : Nat) (s : σ)
    (hfin : fin ≤ level3LimitTimesBlockSize) (hpos : pos + n = fin) :
    (throughMap view act i (.start pos n) s).1.Ended fin n := by
  have h1 : level1Limit = 49 := rfl
  have h2 : level2Limit = 5169 := rfl
  have hlim : level3Limit = 1053745 := rfl
  have hmax : level3LimitTimesBlockSize = 4294972465 := rfl
  by_cases hn : n = 0
  · subst hn
    rw [throughMap_of_end rfl rfl]
    exact ⟨rfl, rfl, hpos⟩
  have hat : (Cursor.start pos n).At (pos / 4096) fin n := hpos ▸ Cursor.start_at pos n
  have hdiv : (Cursor.start pos n).pos / blockSize = pos / 4096 := rfl
  unfold throughMap
  rw [hdiv]
  dsimp only
  split
  case isTrue h => exact fromLevel3_ended hfin (by omega) hat hn
  case isFalse hlt2 =>
  split
  case isTrue h => exact fromLevel2_ended hfin (by omega) hat hn
  case isFalse hlt1 =>
    have hlevel1 := loopBlocks_at act (fun s j => ((view s).inodes i).l1 j) (49 - pos / 4096 % 65536)
      (pos / 4096 % 65536) s (by omega) hat
    unfold loopLevel1
    rw [h1]
    dsimp only
    split
    case isTrue hz => exact hlevel1.ended (Or.inl hz)
    case isFalse hz => exact fromLevel2_ended hfin (by omega) hlevel1 hz

end

section

variable {P : σ → Prop} {u : Segments} {i : Nat} (hmap : MapStays view P u i fin)
  (hfin : fin ≤ level3LimitTimesBlockSize) (hact : ∀ s c q, P s → 4096 * q < fin → P (act (u.dblock i q) c s))

include hmap hfin hact in
/-- **The walk** is one loop over the data blocks, unless the number of the first block is taken for one of level 1. -/
theorem throughMap_eq (hw : pos / 4096 < 65536 ∨ 49 ≤ pos / 4096 % 65536) (hpos : pos + n = fin)
    (hs : P s) : throughMap view act i (.start pos n) s =
      loopPages act (u.dblock i) (level3Limit - pos / 4096) (pos / 4096) (.start pos n) s := by
  have h1 : level1Limit = 49 := rfl
  have h2 : level2Limit = 5169 := rfl
  have hlim : level3Limit = 1053745 := rfl
  have hmax : level3LimitTimesBlockSize = 4294972465 := rfl
  have hact' : ∀ s c q, P s → 0 ≤ q → 4096 * q < fin → P (act (u.dblock i q) c s) := fun s c q hs _ => hact s c q hs
  by_cases hn : n = 0
  · subst hn
    rw [throughMap_of_end rfl rfl]
    exact (loopBlocks_end rfl).symm
  have hat : (Cursor.start pos n).At (pos / 4096) fin n := hpos ▸ Cursor.start_at pos n
  have hdiv : (Cursor.start pos n).pos / blockSize = pos / 4096 := rfl
  unfold throughMap
  rw [hdiv]
  dsimp only
  split
  case isTrue h => exact fromLevel3_eq hmap hfin hact' (by omega) hat hn (Nat.zero_le _) hs
  case isFalse hlt2 =>
  split
  case isTrue h => exact fromLevel2_eq hmap hfin hact' (by omega) hat hn (Nat.zero_le _) hs
  case isFalse hlt1 =>
    obtain ⟨k, hk⟩ : ∃ k, pos / 4096 = k := ⟨_, rfl⟩
    rw [hk] at hat hlt1 hw ⊢
    rw [show k % 65536 = k by omega] at hlt1 ⊢
    have hblock : ∀ s j, P s → j < 49 → 4096 * (0 + j) < fin → ((view s).inodes i).l1 j = u.dblock i (0 + j) := by
      intro s j hs hj hlt
      rw [Nat.zero_add] at hlt ⊢
      unfold Segments.dblock
      rw [dataRef_l1 hj]
      exact hmap s hs (.l1 j) hj hlt
    have hrun := loopBlocks_eq (n := n) (c := .start pos n) (by omega : fin < 2 ^ 64) hact' hblock
      (by omega : k + (49 - k) ≤ 49) (by rw [Nat.zero_add]; exact hat) (Nat.zero_le _) hs
    rw [Nat.zero_add] at hrun
    have hat' : (loopPages act (u.dblock i) (49 - k) k (.start pos n) s).1.At (k + (49 - k)) fin n :=
      loopBlocks_at act _ _ _ _ (by omega) hat
    have hkeep := loopPages_keeps (by omega : fin < 2 ^ 64) hact' (49 - k) hat (Nat.zero_le _) hs
    unfold loopLevel1
    rw [h1, hrun, show level3Limit - k = 49 - k + (level3Limit - 49) by omega, loopPages_add]
    rw [show k + (49 - k) = 49 by omega] at hat' ⊢
    dsimp only
    split
    case isTrue hz => exact (loopBlocks_end hz).symm
    case isFalse hz => exact fromLevel2_eq hmap hfin hact' (Nat.le_refl _) hat' hz (Nat.zero_le _) hkeep

include hmap hfin hact in
/-- The walk keeps what an action keeps. -/
theorem throughMap_keeps (hw : pos / 4096 < 65536 ∨ 49 ≤ pos / 4096 % 65536) (hpos : pos + n = fin)
    (hs : P s) : P (throughMap view act i (.start pos n) s).2 := by
  have hmax : level3LimitTimesBlockSize = 4294972465 := rfl
  rw [throughMap_eq hmap hfin hact hw hpos hs]
  exact loopPages_keeps (by omega : fin < 2 ^ 64) (fun s c q hs _ => hact s c q hs) _ (hpos ▸ Cursor.start_at pos n)
    (Nat.zero_le _) hs

end

end Vsfs.Shm
