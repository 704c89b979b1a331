import Vsfs.Model.ReturnBlock
import Vsfs.Volume.Leaks
import Vsfs.Volume.ShmTransfer

/-!
# What `__return_block` puts back

The blocks of a file come into use in the order of `refs`, and `__return_block` puts them back in the opposite order.
Level 1 is the exception: there the loop starts at the last entry of `l1`, whether or not the file has it.

- `returnPointers_eq`, `returnTable_eq`, `returnLevel1_eq`: the loops put the references of the last blocks back;
- `returnBlock_eq`: so does `__return_block`, from the references that `returnOrder` lists;
- `return_inverts_iff`: when these are those of the file.
-/

set_option autoImplicit false

namespace Vsfs

open Function ByteSeq PointerForest WordBits ExceptLib

variable {B i b m n k lo : Nat} {c c' : Cached}

/-! ## Blocks put back -/

@[simp] theorem putDblocks_nil (c : Cached) : putDblocks [] c = .ok c := rfl

theorem putDblocks_cons (b : Nat) (bs : List Nat) (c : Cached) :
    putDblocks (b :: bs) c = putDblock c b >>= putDblocks bs := rfl

theorem putDblocks_append (bs cs : List Nat) (c : Cached) :
    putDblocks (bs ++ cs) c = putDblocks bs c >>= putDblocks cs := by
  induction bs generalizing c with
  | nil => rfl
  | cons b bs ih =>
    rw [List.cons_append, putDblocks_cons, putDblocks_cons]
    cases putDblock c b with
    | error e => rfl
    | ok c' => exact ih c'

/-- What putting the blocks `bs` back does to the cached data. -/
structure PutBack (bs : List Nat) (c c' : Cached) : Prop where
  bits : ∀ a, bit c'.dbitmap a = true ↔ bit c.dbitmap a = true ∨ a ∈ bs
  counter : c.sbi.nrFreeDblock + bs.length < 2 ^ 32 → c'.sbi.nrFreeDblock = c.sbi.nrFreeDblock + bs.length

theorem putDblock_ok (h : b / 32 < 1024 * c.sbi.nrDbitmapBlocks) : putDblock c b = .ok { c with
    dbitmap := set c.dbitmap b
    sbi := { c.sbi with nrFreeDblock := succ32 c.sbi.nrFreeDblock } } := by
  unfold putDblock putFreeBit
  rw [if_pos h]
  rfl

/-- Blocks that are put back. -/
theorem putDblocks_putBack {bs : List Nat} (h : putDblocks bs c = .ok c') : PutBack bs c c' := by
  induction bs generalizing c with
  | nil =>
    cases h
    exact ⟨fun a => by simp, fun _ => rfl⟩
  | cons b bs ih =>
    obtain ⟨c₁, hc₁, h⟩ := bind_eq_ok.mp h
    obtain ⟨m, hm, hc₁⟩ := bind_eq_ok.mp hc₁
    cases hc₁
    have hset : m = set c.dbitmap b := by
      unfold putFreeBit at hm
      split at hm
      · exact (Except.ok.inj hm).symm
      · cases hm
    obtain ⟨hbits, hcount⟩ := ih h
    refine ⟨fun a => ?_, fun hlt => ?_⟩
    · rw [hbits, hset, List.mem_cons]
      simp [or_assoc]
    · rw [List.length_cons] at hlt ⊢
      dsimp only at hcount
      rw [succ32_of_lt (by omega)] at hcount
      rw [hcount (by omega)]
      omega

/-- **Blocks that the bitmap has** can be put back. -/
theorem putDblocks_ok {bs : List Nat} (h : ∀ a, a ∈ bs → a / 32 < 1024 * c.sbi.nrDbitmapBlocks) :
    ∃ c', putDblocks bs c = .ok c' := by
  induction bs generalizing c with
  | nil => exact ⟨c, rfl⟩
  | cons b bs ih =>
    obtain ⟨hb, hbs⟩ := List.forall_mem_cons.mp h
    rw [putDblocks_cons, putDblock_ok hb]
    exact ih hbs

namespace Shm

variable {u u' : Segments} {rs ss : List Ref}

/-! ## References put back -/

/-- The segments with `d` blocks of inode `i` less, and with `c` the cached data. -/
def Segments.less (u : Segments) (i d : Nat) (c : Cached) : Segments :=
  { u with inodes := update u.inodes i { u.inodes i with blocks := (u.inodes i).blocks - d }, cached := c }

/-- The blocks at the references `rs` are put back, from the last one on, and inode `i` has `d` blocks less. -/
def Segments.returned (u : Segments) (i : Nat) (rs : List Ref) (d : Nat) : M Segments := do
  let c ← Vsfs.putDblocks (rs.reverse.map (u.ref i)) u.cached
  .ok (u.less i d c)

@[simp] theorem less_ref (u : Segments) (i d : Nat) (c : Cached) (r : Ref) : (u.less i d c).ref i r = u.ref i r := by
  cases r <;> simp [Segments.ref, Segments.less]

@[simp] theorem less_blocks (u : Segments) (i d : Nat) (c : Cached) :
    ((u.less i d c).inodes i).blocks = (u.inodes i).blocks - d := by
  simp [Segments.less]

theorem less_less (u : Segments) (i d d' : Nat) (c c' : Cached) : (u.less i d c).less i d' c' = u.less i (d + d') c' := by
  unfold Segments.less
  simp only [update_self, update_idem, Nat.sub_sub]

theorem less_zero (u : Segments) (i : Nat) : u.less i 0 u.cached = u := by
  unfold Segments.less
  rw [Nat.sub_zero, show ({ u.inodes i with blocks := (u.inodes i).blocks } : Inode) = u.inodes i from rfl, update_eq_self]

theorem returned_nil (u : Segments) (i : Nat) : u.returned i [] 0 = .ok u :=
  congrArg Except.ok (less_zero u i)

theorem returned_append (u : Segments) (i : Nat) (rs ss : List Ref) (d d' : Nat) :
    u.returned i (rs ++ ss) (d + d') = (do
      let u ← u.returned i ss d'
      u.returned i rs d) := by
  unfold Segments.returned
  rw [List.reverse_append, List.map_append, putDblocks_append]
  cases Vsfs.putDblocks (ss.reverse.map (u.ref i)) u.cached with
  | error e => rfl
  | ok c =>
    simp only [ok_bind, funext (less_ref u i d' c), less_less, Nat.add_comm d' d]
    rfl

/-- A data block is put back, and then the pointer blocks `bs`. -/
theorem putDblocks_drop {x : Nat} {bs : List Nat} (h0 : 0 < (u.inodes i).blocks)
    (h : rs.reverse.map (u.ref i) = x :: bs) : (do
      let u ← u.putDblocks [x]
      (u.dropBlock i).putDblocks bs) = u.returned i rs 1 := by
  unfold Segments.returned Segments.putDblocks
  rw [h, putDblocks_cons, putDblocks_cons]
  cases putDblock u.cached x with
  | error e => rfl
  | ok c =>
    simp only [ok_bind, putDblocks_nil]
    show (Vsfs.putDblocks bs c >>= _) = Vsfs.putDblocks bs c >>= _
    congr 1
    funext c'
    simp only [Segments.dropBlock, Segments.modInode, Segments.less, pred32_of_pos h0]

theorem refs_last (b n : Nat) : refs b (n + 1) = refs b n ++ refsAt (b + n) := by
  rw [refs_add]
  simp [refs]

/-- What putting references back leaves alone. -/
theorem returned_frame {d : Nat} (h : u.returned i rs d = .ok u') :
    u'.ref i = u.ref i ∧ u'.data = u.data ∧ (u'.inodes i).blocks = (u.inodes i).blocks - d := by
  obtain ⟨c, -, h⟩ := bind_eq_ok.mp h
  cases h
  exact ⟨funext (less_ref u i d c), rfl, less_blocks ..⟩

/-! ## The loops -/

section

variable {g : Ref → Nat} (hg : u.ref i = g)

include hg in
/-- The entries of a pointer block, from the last one down. -/
theorem returnPointers_eq {a : Nat} {ptrs : List Nat} {x : Block} (hx : u.data a = x)
    (hrefs : ∀ j, j < 1024 → (refsAt (lo + j)).reverse.map g = pointer x j :: if j = 0 then ptrs else [])
    (hk : k ≤ 1024) (hb : min n k ≤ (u.inodes i).blocks) :
    returnPointers i a ptrs k n u = (do
      let u ← u.returned i (refs (lo + k - min n k) (min n k)) (min n k)
      .ok (n - min n k, u)) := by
  induction k generalizing n u with
  | zero =>
    rw [Nat.min_zero, refs, returned_nil]
    rfl
  | succ k ih =>
    unfold returnPointers
    by_cases hn : n = 0
    · subst hn
      rw [if_pos rfl, Nat.zero_min, refs, returned_nil]
      rfl
    obtain ⟨n, rfl⟩ := Nat.exists_eq_succ_of_ne_zero hn
    have hmin : min (n + 1) (k + 1) = min n k + 1 := by omega
    have hstep := putDblocks_drop (u := u) (i := i) (by omega : 0 < (u.inodes i).blocks)
      (by rw [hg]; exact hrefs k (by omega))
    rw [if_neg hn, hx]
    simp only [Nat.succ_eq_add_one]
    rw [hmin, refs_last, show lo + (k + 1) - (min n k + 1) + min n k = lo + k by omega, returned_append, ← bind_assoc,
      hstep, bind_assoc]
    cases hu : u.returned i (refsAt (lo + k)) 1 with
    | error e => rfl
    | ok u₁ =>
      obtain ⟨href, hdata, hblocks⟩ := returned_frame hu
      rw [ok_bind, ok_bind, ih (href.trans hg) (by rw [hdata]; exact hx) (by omega) (by omega),
        show lo + (k + 1) - (min n k + 1) = lo + k - min n k by omega, show n + 1 - (min n k + 1) = n - min n k by omega]
      rfl

end

/-- The entries of `l1`, from the last of the first `k` down. -/
theorem returnLevel1_eq (hk : k ≤ 49) (hb : min n k ≤ (u.inodes i).blocks) :
    returnLevel1 i k n u = (do
      let u ← u.returned i (refs (k - min n k) (min n k)) (min n k)
      .ok (n - min n k, u)) := by
  induction k generalizing n u with
  | zero =>
    rw [Nat.min_zero, refs, returned_nil]
    rfl
  | succ k ih =>
    unfold returnLevel1
    by_cases hn : n = 0
    · subst hn
      rw [if_pos rfl, Nat.zero_min, refs, returned_nil]
      rfl
    obtain ⟨n, rfl⟩ := Nat.exists_eq_succ_of_ne_zero hn
    have hmin : min (n + 1) (k + 1) = min n k + 1 := by omega
    have hrefs : (refsAt k).reverse.map (u.ref i) = [(u.inodes i).l1 k] := by
      rw [refsAt_l1 (by omega)]
      rfl
    have hstep := putDblocks_drop (by omega : 0 < (u.inodes i).blocks) hrefs
    rw [if_neg hn]
    simp only [Nat.succ_eq_add_one]
    rw [hmin, refs_last, show k + 1 - (min n k + 1) + min n k = k by omega, returned_append, ← hstep, bind_assoc, bind_assoc]
    cases hu : u.putDblocks [(u.inodes i).l1 k] with
    | error e => rfl
    | ok u₁ =>
      have hu₁ : u.returned i (refsAt k) 1 = .ok (u₁.dropBlock i) := by
        rw [← hstep, hu]
        rfl
      obtain ⟨-, -, hblocks⟩ := returned_frame hu₁
      rw [ok_bind, ok_bind, Nat.add_sub_cancel, ih (by omega) (by omega),
        show k + 1 - (min n k + 1) = k - min n k by omega, show n + 1 - (min n k + 1) = n - min n k by omega]
      rfl

/-- The entries of the pointer blocks of a table, from the last one down: `k` of them are in use. -/
theorem returnTable_eq {limit q start : Nat} {table : Segments → Nat → Nat} {roots : Segments → Nat → List Nat}
    (hrefs : ∀ u' : Segments, ∀ q j, q < limit → j < 1024 → (refsAt (lo + 1024 * q + j)).reverse.map (u'.ref i) =
      pointer (u'.data (table u' q)) j :: if j = 0 then table u' q :: roots u' q else [])
    (hq : q ≤ limit) (hs : start < 1024) (hk : k = if q = 0 then 0 else 1024 * (q - 1) + start + 1)
    (hb : min n k ≤ (u.inodes i).blocks) :
    returnTable i limit table roots q start n u = (do
      let u ← u.returned i (refs (lo + k - min n k) (min n k)) (min n k)
      .ok (n - min n k, u)) := by
  induction q generalizing start k n u with
  | zero =>
    rw [if_pos rfl] at hk
    subst hk
    rw [Nat.min_zero, refs, returned_nil]
    rfl
  | succ q ih =>
    rw [if_neg (Nat.succ_ne_zero q), Nat.add_sub_cancel] at hk
    unfold returnTable
    by_cases hn : n = 0
    · subst hn
      rw [if_pos rfl, Nat.zero_min, refs, returned_nil]
      rfl
    -- the last pointer block, and then those before it
    obtain ⟨d, hd, hd'⟩ : ∃ d, min n k = d + min n (start + 1) ∧ d = min (n - min n (start + 1)) (1024 * q) :=
      ⟨_, by omega, rfl⟩
    have hk' : 1024 * q = if q = 0 then 0 else 1024 * (q - 1) + 1023 + 1 := by
      split <;> omega
    rw [if_neg hn, if_neg (by omega), returnPointers_eq rfl rfl (fun j hj => hrefs u q j (by omega) hj) (by omega) (by omega),
      hd, refs_add, returned_append, bind_assoc, bind_assoc,
      show lo + k - (d + min n (start + 1)) + d = lo + 1024 * q + (start + 1) - min n (start + 1) by omega]
    cases hu : u.returned i (refs (lo + 1024 * q + (start + 1) - min n (start + 1)) (min n (start + 1)))
        (min n (start + 1)) with
    | error e => rfl
    | ok u₁ =>
      obtain ⟨-, -, hblocks⟩ := returned_frame hu
      rw [ok_bind, ok_bind, ok_bind]
      dsimp only
      have hlow : refs (lo + k - (d + min n (start + 1))) d = refs (lo + 1024 * q - d) d := by
        by_cases h0 : d = 0
        · rw [h0, refs, refs]
        · rw [show lo + k - (d + min n (start + 1)) = lo + 1024 * q - d by omega]
      rw [ih (by omega) (by omega) hk' (by omega), ← hd', hlow, Nat.sub_sub, Nat.add_comm d]

/-! ## `__return_block` -/

/-- The references that are put back when a file of `b` blocks gets shorter by `n`: those of its last blocks, but the
last ones of `l1` when it has no more than level 1. -/
def returnOrder (b n : Nat) : List Ref := if level1Limit ≤ b then refs (b - n) n else refs (level1Limit - n) n

theorem level2_refs (u : Segments) {q j : Nat} (hq : q < 5) (hj : j < 1024) :
    (refsAt (49 + 1024 * q + j)).reverse.map (u.ref i) =
      pointer (u.data ((u.inodes i).l2 q)) j :: if j = 0 then [(u.inodes i).l2 q] else [] := by
  rw [refsAt_l2e hq hj]
  split <;> rfl

theorem level3_refs (u : Segments) {q j : Nat} (hj : j < 1024) :
    (refsAt (5169 + 1024 * q + j)).reverse.map (u.ref i) =
      pointer (u.data (pointer (u.data (u.inodes i).l3) q)) j :: if j = 0 then
        pointer (u.data (u.inodes i).l3) q :: if q = 0 then [(u.inodes i).l3] else [] else [] := by
  rw [refsAt_l3d hj]
  by_cases h0 : j = 0
  · subst h0
    by_cases hq : q = 0
    · subst hq
      rfl
    · simp [hq, Segments.ref]
  · simp [h0, Segments.ref]

theorem returnFromLevel1_eq (hn : n ≤ 49) (hb : n ≤ (u.inodes i).blocks) :
    returnFromLevel1 i n u = (do
      let u ← u.returned i (refs (49 - n) n) n
      .ok (0, u)) := by
  unfold returnFromLevel1
  rw [show level1Limit = 49 from rfl, returnLevel1_eq (Nat.le_refl _) (by omega), Nat.min_eq_left hn, bind_assoc]
  simp

/-- The blocks of one level behind the first `top`, and then those of the levels below it. -/
theorem returned_then {top : Nat} {f : Nat → Segments → M (Nat × Segments)} (htop : top < (u.inodes i).blocks)
    (hn : n ≤ (u.inodes i).blocks) (hb : (u.inodes i).blocks = b)
    (hf : ∀ (u' : Segments) (n' : Nat), (u'.inodes i).blocks = top → n' ≤ top → f n' u' = (do
      let u ← u'.returned i (refs (top - n') n') n'
      .ok (0, u))) :
    ((do
      let u ← u.returned i (refs (b - min n (b - top)) (min n (b - top))) (min n (b - top))
      .ok (n - min n (b - top), u) : M (Nat × Segments)) >>= fun r => if r.1 = 0 then .ok (0, r.2) else f r.1 r.2) = (do
      let u ← u.returned i (refs (b - n) n) n
      .ok (0, u)) := by
  rw [bind_assoc]
  by_cases hle : n ≤ b - top
  · rw [Nat.min_eq_left hle]
    simp
  · obtain ⟨d, rfl⟩ : ∃ d, n = d + (b - top) := ⟨n - (b - top), by omega⟩
    rw [Nat.min_eq_right (by omega), Nat.add_sub_cancel, refs_add, returned_append, bind_assoc,
      show b - (d + (b - top)) + d = b - (b - top) by omega]
    cases hu : u.returned i (refs (b - (b - top)) (b - top)) (b - top) with
    | error e => rfl
    | ok u₁ =>
      obtain ⟨-, -, hblocks⟩ := returned_frame hu
      rw [ok_bind, ok_bind, ok_bind]
      dsimp only
      rw [if_neg (by omega), hf u₁ d (by omega) (by omega), show b - (d + (b - top)) = top - d by omega]

theorem returnFromLevel2_eq (hlo : 49 < (u.inodes i).blocks) (hhi : (u.inodes i).blocks ≤ 5169)
    (hn : n ≤ (u.inodes i).blocks) :
    returnFromLevel2 i n u = (do
      let u ← u.returned i (refs ((u.inodes i).blocks - n) n) n
      .ok (0, u)) := by
  unfold returnFromLevel2 returnLevel2
  have hq : ((u.inodes i).blocks - 1 - level1Limit) / pointerPerBlock % 65536 = ((u.inodes i).blocks - 50) / 1024 := by
    unfold level1Limit pointerPerBlock
    omega
  have hs : ((u.inodes i).blocks - 1 - level1Limit) % pointerPerBlock = ((u.inodes i).blocks - 50) % 1024 := by
    unfold level1Limit pointerPerBlock
    omega
  dsimp only
  have hk : (u.inodes i).blocks - 49 = if ((u.inodes i).blocks - 50) / 1024 + 1 = 0 then 0
      else 1024 * (((u.inodes i).blocks - 50) / 1024 + 1 - 1) + ((u.inodes i).blocks - 50) % 1024 + 1 := by
    rw [if_neg (Nat.succ_ne_zero _)]
    omega
  rw [hq, hs, returnTable_eq (fun u' q j hq hj => level2_refs u' hq hj) (by omega) (by omega) hk (by omega),
    show 49 + ((u.inodes i).blocks - 49) = (u.inodes i).blocks by omega]
  refine returned_then hlo hn rfl fun u' n' hb' hn' => ?_
  exact returnFromLevel1_eq hn' (by omega)

theorem returnFromLevel3_eq (hlo : 5169 < (u.inodes i).blocks) (hhi : (u.inodes i).blocks ≤ level3Limit)
    (hn : n ≤ (u.inodes i).blocks) :
    returnFromLevel3 i n u = (do
      let u ← u.returned i (refs ((u.inodes i).blocks - n) n) n
      .ok (0, u)) := by
  have hlim : level3Limit = 1053745 := rfl
  unfold returnFromLevel3 returnLevel3
  have hq : ((u.inodes i).blocks - 1 - level2Limit) / pointerPerBlock % 65536 = ((u.inodes i).blocks - 5170) / 1024 := by
    unfold level2Limit pointerPerBlock
    omega
  have hs : ((u.inodes i).blocks - 1 - level2Limit) % pointerPerBlock = ((u.inodes i).blocks - 5170) % 1024 := by
    unfold level2Limit pointerPerBlock
    omega
  have hlimit : ((u.inodes i).blocks - 5170) / 1024 + 1 ≤ pointerPerBlock := by
    unfold pointerPerBlock
    omega
  dsimp only
  have hk : (u.inodes i).blocks - 5169 = if ((u.inodes i).blocks - 5170) / 1024 + 1 = 0 then 0
      else 1024 * (((u.inodes i).blocks - 5170) / 1024 + 1 - 1) + ((u.inodes i).blocks - 5170) % 1024 + 1 := by
    rw [if_neg (Nat.succ_ne_zero _)]
    omega
  rw [hq, hs, returnTable_eq (fun u' q j _ hj => level3_refs u' hj) hlimit (by omega) hk (by omega),
    show 5169 + ((u.inodes i).blocks - 5169) = (u.inodes i).blocks by omega]
  refine returned_then hlo hn rfl fun u' n' hb' hn' => ?_
  rw [returnFromLevel2_eq (by omega) (by omega) (by omega), hb']

/-- **`__return_block`** for a file that keeps `m` of its blocks. -/
theorem returnBlock_eq {op : OpEntry} {nbyte : Nat} (hi : op.inodeNr = i) (hlt : i < nrInodes)
    (hm : (op.offset + nbyte + 4095) / 4096 = m) (hle : m ≤ (u.inodes i).blocks)
    (hlim : (u.inodes i).blocks ≤ level3Limit) :
    returnBlock op nbyte u = (do
      let u ← u.returned i (returnOrder (u.inodes i).blocks ((u.inodes i).blocks - m)) ((u.inodes i).blocks - m)
      .ok (0, u)) := by
  have h1 : level1Limit = 49 := rfl
  have h2 : level2Limit = 5169 := rfl
  have h3 : level3Limit = 1053745 := rfl
  have htotal : neededBlocks ((op.offset + nbyte) % 2 ^ 64) = m := by
    unfold neededBlocks blockSize
    split <;> omega
  have hneed : (if m < (u.inodes i).blocks then (u.inodes i).blocks - m else 0) = (u.inodes i).blocks - m := by
    split <;> omega
  unfold returnBlock returnOrder
  dsimp only
  rw [hi, if_neg (Nat.not_le.mpr hlt), htotal, hneed]
  by_cases hl1 : (u.inodes i).blocks ≤ level1Limit
  · rw [if_pos hl1, returnFromLevel1_eq (by omega) (by omega)]
    split
    · rw [show (u.inodes i).blocks = 49 by omega]
    · rw [h1]
  rw [if_neg hl1, if_pos (by omega : level1Limit ≤ (u.inodes i).blocks)]
  split
  · exact returnFromLevel2_eq (by omega) (by omega) (by omega)
  · exact returnFromLevel3_eq (by omega) hlim (by omega)

/-! ## Well-formed files -/

/-- The file of inode `i` is well formed: the blocks of its map are different, used, and in the data region, which the
bitmap covers; and the counter is the number of free blocks of the region. -/
structure Segments.WellFormed (u : Segments) (i : Nat) : Prop where
  inode : i < nrInodes
  limit : (u.inodes i).blocks ≤ level3Limit
  owns : u.toVolume.Owns u.cached.sbi.nrDregionBlocks (u.toVolume.usedBy i)
  region : u.cached.sbi.nrDregionBlocks < 2 ^ 32
  covered : u.cached.sbi.nrDregionBlocks ≤ 32 * (1024 * u.cached.sbi.nrDbitmapBlocks)
  counter : u.cached.sbi.nrFreeDblock = (freeBelow u.cached.dbitmap u.cached.sbi.nrDregionBlocks).card

/-- The blocks that are free in `u'` and were not in `u`. -/
def Segments.freed (u u' : Segments) : Set Nat :=
  {a | bit u'.cached.dbitmap a = true ∧ bit u.cached.dbitmap a = false}

/-- What is left of the file of inode `i` with `m` blocks: the blocks of the others are free, and counted. -/
structure Returned (i m : Nat) (u u' : Segments) : Prop where
  blocks : (u'.inodes i).blocks = m
  freed : ∀ a, bit u'.cached.dbitmap a = true ↔ bit u.cached.dbitmap a = true ∨
    ∃ r : Ref, r.Used (u.inodes i).blocks ∧ ¬r.Used m ∧ u.ref i r = a
  kept : ∀ k, k < m → u'.ref i (dataRef k) = u.ref i (dataRef k)
  counter : (u'.cached.sbi.nrFreeDblock : ENat) = u.cached.sbi.nrFreeDblock + (u.freed u').encard

/-- The last entries of `l1`, as many as blocks are to be returned, hold the last blocks of the file, unless the file has
all of level 1 or keeps all of its blocks. -/
def ReturnsLast (u : Segments) (i m : Nat) : Prop :=
  m = (u.inodes i).blocks ∨ level1Limit ≤ (u.inodes i).blocks ∨
    ∀ a, (∃ k, level1Limit - ((u.inodes i).blocks - m) ≤ k ∧ k < level1Limit ∧ (u.inodes i).l1 k = a) ↔
      ∃ k, m ≤ k ∧ k < (u.inodes i).blocks ∧ (u.inodes i).l1 k = a

/-- The blocks at the references that a file of `m` blocks does not need. -/
def Segments.lastBlocks (u : Segments) (i m : Nat) : List Nat :=
  (refs m ((u.inodes i).blocks - m)).map (u.ref i)

/-- The blocks that `__return_block` puts back. -/
def Segments.returnBlocks (u : Segments) (i m : Nat) : List Nat :=
  (returnOrder (u.inodes i).blocks ((u.inodes i).blocks - m)).reverse.map (u.ref i)

section

variable (hw : u.WellFormed i) (hm : m ≤ (u.inodes i).blocks)

theorem refs_nodup (h : b + n ≤ level3Limit) : (refs b n).Nodup :=
  (fresh_refs (i := 0) (R := {p | p.1 = 0 ∧ p.2.Used b}) h fun r => by simp).nodup

include hw hm in
theorem mem_lastBlocks {a : Nat} :
    a ∈ u.lastBlocks i m ↔ ∃ r : Ref, r.Used (u.inodes i).blocks ∧ ¬r.Used m ∧ u.ref i r = a := by
  have hlim := hw.limit
  unfold Segments.lastBlocks Ref.Used
  rw [List.mem_map]
  refine exists_congr fun r => ?_
  rw [mem_refs (by omega), Nat.add_sub_cancel' hm]
  constructor
  · rintro ⟨⟨hv, hlo, hlt⟩, he⟩
    exact ⟨⟨hv, hlt⟩, fun h => Nat.not_lt.mpr hlo h.2, he⟩
  · rintro ⟨⟨hv, hlt⟩, hno, he⟩
    exact ⟨⟨hv, Nat.not_lt.mp fun h => hno ⟨hv, h⟩, hlt⟩, he⟩

include hw in
/-- A used reference holds a used block of the data region. -/
theorem Segments.WellFormed.ref_used {r : Ref} (hr : r.Used (u.inodes i).blocks) :
    bit u.cached.dbitmap (u.ref i r) = false ∧ u.ref i r < u.cached.sbi.nrDregionBlocks := by
  have hmem : (i, r) ∈ u.toVolume.usedBy i := ⟨rfl, hr⟩
  rw [owned_ref_eq hw.owns hmem]
  exact ⟨Bool.eq_false_iff.mpr (hw.owns.owned.used _ hmem), hw.owns.owned.lt _ hmem⟩

include hw in
theorem Segments.WellFormed.ref_inj {r r' : Ref} (hr : r.Used (u.inodes i).blocks) (hr' : r'.Used (u.inodes i).blocks)
    (h : u.ref i r = u.ref i r') : r = r' := by
  have hmem : (i, r) ∈ u.toVolume.usedBy i := ⟨rfl, hr⟩
  have hmem' : (i, r') ∈ u.toVolume.usedBy i := ⟨rfl, hr'⟩
  rw [owned_ref_eq hw.owns hmem, owned_ref_eq hw.owns hmem'] at h
  exact (Prod.mk.inj (hw.owns.owned.inj _ _ hmem hmem' h)).2

include hw hm in
theorem lastBlocks_nodup : (u.lastBlocks i m).Nodup := by
  have hlim := hw.limit
  have hmem : ∀ r, r ∈ refs m ((u.inodes i).blocks - m) → r.Used (u.inodes i).blocks := fun r hr => by
    obtain ⟨hv, -, hlt⟩ := (mem_refs (by omega)).mp hr
    exact ⟨hv, by omega⟩
  exact List.Nodup.map_on (fun r hr r' hr' he => hw.ref_inj (hmem r hr) (hmem r' hr') he) (refs_nodup (by omega))

include hw hm in
/-- The last blocks are used, and they are in the data region. -/
theorem lastBlocks_used {a : Nat} (ha : a ∈ u.lastBlocks i m) :
    bit u.cached.dbitmap a = false ∧ a < u.cached.sbi.nrDregionBlocks := by
  obtain ⟨r, hr, -, rfl⟩ := (mem_lastBlocks hw hm).mp ha
  exact hw.ref_used hr

include hw hm in
/-- The free blocks and the last blocks of the file fit into the counter. -/
theorem counter_lt : u.cached.sbi.nrFreeDblock + (u.lastBlocks i m).length < 2 ^ 32 := by
  have hdisj : Disjoint (freeBelow u.cached.dbitmap u.cached.sbi.nrDregionBlocks) (u.lastBlocks i m).toFinset := by
    refine Finset.disjoint_left.mpr fun a ha hl => ?_
    have hused := (lastBlocks_used hw hm (List.mem_toFinset.mp hl)).1
    rw [(mem_freeBelow.mp ha).2] at hused
    cases hused
  have hsub : freeBelow u.cached.dbitmap u.cached.sbi.nrDregionBlocks ∪ (u.lastBlocks i m).toFinset ⊆
      Finset.range u.cached.sbi.nrDregionBlocks := by
    intro a ha
    rcases Finset.mem_union.mp ha with ha | ha
    · exact Finset.mem_range.mpr (mem_freeBelow.mp ha).1
    · exact Finset.mem_range.mpr (lastBlocks_used hw hm (List.mem_toFinset.mp ha)).2
  have hcard := Finset.card_le_card hsub
  rw [Finset.card_union_of_disjoint hdisj, List.toFinset_card_of_nodup (lastBlocks_nodup hw hm), Finset.card_range,
    ← hw.counter] at hcard
  have := hw.region
  omega

/-! ## What is put back -/

theorem refs_l1 (h : lo + n ≤ 49) : refs lo n = (List.range' lo n).map Ref.l1 := by
  induction n generalizing lo with
  | zero => rfl
  | succ n ih =>
    rw [refs, refsAt_l1 (by omega), ih (by omega)]
    rfl

theorem mem_map_refs_l1 (h : lo + n ≤ 49) {a : Nat} :
    a ∈ (refs lo n).map (u.ref i) ↔ ∃ k, lo ≤ k ∧ k < lo + n ∧ (u.inodes i).l1 k = a := by
  rw [refs_l1 h, List.map_map, List.mem_map]
  simp only [List.mem_range'_1, and_assoc]
  exact Iff.rfl

include hm in
/-- As many blocks are put back as the file has too many. -/
theorem returnBlocks_length : (u.returnBlocks i m).length = (u.lastBlocks i m).length := by
  unfold Segments.returnBlocks Segments.lastBlocks returnOrder level1Limit
  rw [List.length_map, List.length_reverse, List.length_map]
  split
  · rw [Nat.sub_sub_self hm]
  · rw [refs_l1 (by omega), refs_l1 (by omega), List.length_map, List.length_map, List.length_range', List.length_range']

include hm in
/-- They are the last blocks of the file exactly if the end of `l1` is that of the file. -/
theorem returnsLast_iff : ReturnsLast u i m ↔ ∀ a, a ∈ u.returnBlocks i m ↔ a ∈ u.lastBlocks i m := by
  have h1 : level1Limit = 49 := rfl
  unfold ReturnsLast Segments.returnBlocks Segments.lastBlocks returnOrder
  simp only [List.map_reverse, List.mem_reverse]
  by_cases hlo : level1Limit ≤ (u.inodes i).blocks
  · simp [hlo, Nat.sub_sub_self hm]
  by_cases hall : m = (u.inodes i).blocks
  · simp [hall, refs]
  simp only [hall, hlo, if_false, false_or]
  refine forall_congr' fun a => ?_
  rw [mem_map_refs_l1 (by omega), mem_map_refs_l1 (by omega), Nat.add_sub_cancel' hm, Nat.sub_add_cancel (by omega)]

end

section

variable {op : OpEntry} {nbyte : Nat} (hw : u.WellFormed i) (hop : op.inodeNr = i)
  (hend : (op.offset + nbyte + 4095) / 4096 = m) (hm : m ≤ (u.inodes i).blocks)

include hw hop hend hm in
/-- What a call leaves. -/
theorem returnBlock_putBack (h : returnBlock op nbyte u = .ok (0, u')) :
    ∃ c, PutBack (u.returnBlocks i m) u.cached c ∧ u' = u.less i ((u.inodes i).blocks - m) c := by
  rw [returnBlock_eq hop hw.inode hend hm hw.limit] at h
  obtain ⟨u₁, hu₁, h⟩ := bind_eq_ok.mp h
  cases h
  obtain ⟨c, hc, h⟩ := bind_eq_ok.mp hu₁
  cases h
  exact ⟨c, putDblocks_putBack hc, rfl⟩

include hw hop hend hm in
/-- **The last blocks of the file are freed** exactly if the call puts them back. -/
theorem returnBlock_bits_iff : (∃ u', returnBlock op nbyte u = .ok (0, u') ∧
    ∀ a, bit u'.cached.dbitmap a = true ↔ bit u.cached.dbitmap a = true ∨ a ∈ u.lastBlocks i m) ↔ ReturnsLast u i m := by
  rw [returnsLast_iff hm]
  constructor
  · rintro ⟨u', hu', hbits⟩
    obtain ⟨c, hback, rfl⟩ := returnBlock_putBack hw hop hend hm hu'
    have hsub : (u.lastBlocks i m).toFinset ⊆ (u.returnBlocks i m).toFinset := by
      intro a ha
      rw [List.mem_toFinset] at ha ⊢
      have hset := (hbits a).mpr (Or.inr ha)
      rcases (hback.bits a).mp hset with hfree | hput
      · rw [(lastBlocks_used hw hm ha).1] at hfree
        cases hfree
      · exact hput
    have hcard : (u.returnBlocks i m).toFinset.card ≤ (u.lastBlocks i m).toFinset.card := by
      rw [List.toFinset_card_of_nodup (lastBlocks_nodup hw hm), ← returnBlocks_length hm]
      exact List.toFinset_card_le _
    intro a
    have heq := Finset.eq_of_subset_of_card_le hsub hcard
    rw [← List.mem_toFinset, ← heq, List.mem_toFinset]
  · intro hsame
    have hrange : ∀ a, a ∈ u.returnBlocks i m → a / 32 < 1024 * u.cached.sbi.nrDbitmapBlocks := fun a ha => by
      have hlt := (lastBlocks_used hw hm ((hsame a).mp ha)).2
      have := hw.covered
      omega
    obtain ⟨c, hc⟩ := putDblocks_ok hrange
    refine ⟨u.less i ((u.inodes i).blocks - m) c, ?_, fun a => ?_⟩
    · rw [returnBlock_eq hop hw.inode hend hm hw.limit]
      unfold Segments.returned
      unfold Segments.returnBlocks at hc
      rw [hc]
      rfl
    · rw [← hsame]
      exact (putDblocks_putBack hc).bits a

include hw hop hend hm in
theorem returnBlock_counter (h : returnBlock op nbyte u = .ok (0, u')) :
    u'.cached.sbi.nrFreeDblock = u.cached.sbi.nrFreeDblock + (u.lastBlocks i m).length := by
  obtain ⟨c, hback, rfl⟩ := returnBlock_putBack hw hop hend hm h
  rw [← returnBlocks_length hm]
  exact hback.counter (by rw [returnBlocks_length hm]; exact counter_lt hw hm)

include hw hop hend hm in
/-- A call that frees the last blocks of the file leaves the others, and counts. -/
theorem returned_of_bits (h : returnBlock op nbyte u = .ok (0, u'))
    (hbits : ∀ a, bit u'.cached.dbitmap a = true ↔ bit u.cached.dbitmap a = true ∨ a ∈ u.lastBlocks i m) :
    Returned i m u u' := by
  have hcount := returnBlock_counter hw hop hend hm h
  have hfreed : u.freed u' = (u.lastBlocks i m).toFinset := by
    ext a
    rw [List.coe_toFinset]
    show bit u'.cached.dbitmap a = true ∧ bit u.cached.dbitmap a = false ↔ a ∈ u.lastBlocks i m
    rw [hbits]
    constructor
    · rintro ⟨hfree | ha, hused⟩
      · rw [hused] at hfree
        cases hfree
      · exact ha
    · exact fun ha => ⟨Or.inr ha, (lastBlocks_used hw hm ha).1⟩
  obtain ⟨c, -, rfl⟩ := returnBlock_putBack hw hop hend hm h
  refine ⟨?_, fun a => ?_, fun k _ => less_ref .., ?_⟩
  · rw [less_blocks]
    omega
  · rw [hbits, mem_lastBlocks hw hm]
  · rw [hfreed, Set.encard_coe_eq_coe_finsetCard, List.toFinset_card_of_nodup (lastBlocks_nodup hw hm), hcount]
    rfl

include hw hop hend hm in
/-- **`__return_block`** does what it is for exactly if it puts the last blocks of the file back. -/
theorem returned_iff : (∃ u', returnBlock op nbyte u = .ok (0, u') ∧ Returned i m u u') ↔ ReturnsLast u i m := by
  rw [← returnBlock_bits_iff hw hop hend hm]
  constructor
  · rintro ⟨u', hu', hret⟩
    exact ⟨u', hu', fun a => by rw [hret.freed, mem_lastBlocks hw hm]⟩
  · rintro ⟨u', hu', hbits⟩
    exact ⟨u', hu', returned_of_bits hw hop hend hm hu' hbits⟩

end

/-! ## Blocks given and returned -/

section

variable (hw : u.WellFormed i) (hn : (u.inodes i).blocks + n ≤ level3Limit)
  (hroom : allocTakes (u.inodes i).blocks n ≤ u.toVolume.room u.cached.sbi.nrDregionBlocks)

/-- What `__alloc_block` for `n` blocks of a well-formed file leaves. -/
structure Given (i n : Nat) (u u' : Segments) : Prop where
  wellFormed : u'.WellFormed i
  blocks : (u'.inodes i).blocks = (u.inodes i).blocks + n
  bits : ∀ a, bit u.cached.dbitmap a = true ↔
    bit u'.cached.dbitmap a = true ∨ a ∈ (newRefs (u.inodes i).blocks n).map (u'.ref i)
  counter : u.cached.sbi.nrFreeDblock = u'.cached.sbi.nrFreeDblock + (newRefs (u.inodes i).blocks n).length

/-- The bits that are cleared below a bound that is above all of them. -/
theorem card_cleared {v w : Volume} (hlt : ∀ a, a ∈ v.cleared w → a < B)
    (hkept : ∀ a, bit w.cached.dbitmap a = true → bit v.cached.dbitmap a = true) (hcard : (v.cleared w).encard = n) :
    (freeBelow v.cached.dbitmap B).card = (freeBelow w.cached.dbitmap B).card + n := by
  have hset : ((freeBelow v.cached.dbitmap B \ freeBelow w.cached.dbitmap B : Finset Nat) : Set Nat) = v.cleared w := by
    ext a
    simp only [Finset.coe_sdiff, Set.mem_sdiff, Finset.mem_coe, mem_freeBelow, Volume.cleared, Set.mem_ofPred_eq, not_and,
      Bool.not_eq_true]
    exact ⟨fun h => ⟨h.1.2, h.2 h.1.1⟩, fun h => ⟨⟨hlt a h, h.1⟩, fun _ => h.2⟩⟩
  rw [← hset, Set.encard_coe_eq_coe_finsetCard] at hcard
  have hsub : freeBelow w.cached.dbitmap B ⊆ freeBelow v.cached.dbitmap B := fun a ha => by
    obtain ⟨ha, hb⟩ := mem_freeBelow.mp ha
    exact mem_freeBelow.mpr ⟨ha, hkept a hb⟩
  have hsum := Finset.card_sdiff_add_card_eq_card hsub
  rw [show (freeBelow v.cached.dbitmap B \ freeBelow w.cached.dbitmap B).card = n by exact_mod_cast hcard] at hsum
  omega

include hw hn hroom in
/-- **`__alloc_block`** leaves a well-formed file. -/
theorem allocBlock_given : ∃ u', allocBlock i n u = .ok (0, u') ∧ Given i n u u' := by
  have hlim : level3Limit = 1053745 := rfl
  obtain ⟨u', hu', hp, hg⟩ := allocBlock_grown hw.inode hw.owns hn hroom
  have hR : ∀ r, (i, r) ∈ u.toVolume.usedBy i ↔ r.Used (u.inodes i).blocks := fun r => mem_usedBy
  have hf := fresh_newRefs hn hR
  have hlen : (newRefs (u.inodes i).blocks n).length ≤ u.toVolume.room u.cached.sbi.nrDregionBlocks := by
    rw [newRefs_length]
    exact hroom
  have hblocks : (u'.inodes i).blocks = (u.inodes i).blocks + n := hp.mapFrame.blocks (by
    show (u.inodes i).blocks + n < _
    omega)
  obtain ⟨k, hk⟩ := hp.mapFrame.sbi
  have hsbi : u'.cached.sbi = { u.cached.sbi with nrFreeDblock := k } := hk
  have hregion : u'.cached.sbi.nrDregionBlocks = u.cached.sbi.nrDregionBlocks := by rw [hsbi]
  have hused : ∀ r, (i, r) ∈ u'.toVolume.usedBy i →
      (i, r) ∈ addRefs (u.toVolume.usedBy i) i (newRefs (u.inodes i).blocks n) := by
    rintro r ⟨-, hr⟩
    have hr' : r.Used (u'.inodes i).blocks := hr
    rw [hblocks] at hr'
    rcases (used_addRefs hn hR r).mpr hr' with h | h
    · exact Or.inl h
    · exact Or.inr ⟨rfl, mem_newRefs h.2⟩
  have hcard := card_cleared (B := u.cached.sbi.nrDregionBlocks) (fun a ha => by
    obtain ⟨r, hr, rfl⟩ := hp.mem_cleared hw.owns hf hlen ha
    exact hg.owns.owned.lt _ (Or.inr ⟨rfl, hr⟩)) hg.free (hp.encard_cleared hw.owns hf hlen)
  have h32 : u.cached.sbi.nrFreeDblock < 2 ^ 32 := by
    have := counter_lt hw (Nat.le_refl _)
    omega
  obtain ⟨hcount, hcount32⟩ := hp.counter hw.owns hf hlen h32
  have hcount' : u.cached.sbi.nrFreeDblock =
    (u'.cached.sbi.nrFreeDblock + (newRefs (u.inodes i).blocks n).length) % 2 ^ 32 := hcount
  have hcount32' : u'.cached.sbi.nrFreeDblock < 2 ^ 32 := hcount32
  have hfree : u.cached.sbi.nrFreeDblock = (freeBelow u'.cached.dbitmap u.cached.sbi.nrDregionBlocks).card +
    (newRefs (u.inodes i).blocks n).length := hw.counter.trans hcard
  refine ⟨u', hu', ⟨hw.inode, by rw [hblocks]; exact hn, ⟨?_, hg.owns.zero, ?_, hg.owns.bits⟩, ?_, ?_, ?_⟩, hblocks,
    fun a => ?_, by omega⟩
  · rw [hregion]
    refine hg.owns.owned.mono (closed_usedBy _ i) ?_
    rintro ⟨j, r⟩ ⟨rfl, hr⟩
    exact hused r ⟨rfl, hr⟩
  · rw [hregion]
    exact hg.owns.addr
  · rw [hregion]
    exact hw.region
  · rw [hsbi]
    exact hw.covered
  · rw [hregion]
    omega
  · rw [List.mem_map]
    have hval : ∀ r, r ∈ newRefs (u.inodes i).blocks n → u'.ref i r = u'.toVolume.val (i, r) := fun r hr =>
      owned_ref_eq hg.owns (Or.inr ⟨rfl, hr⟩)
    constructor
    · intro ha
      by_cases hr : ∃ r, r ∈ newRefs (u.inodes i).blocks n ∧ u'.ref i r = a
      · exact Or.inr hr
      · refine Or.inl ((hp.cleared hw.owns hf hlen a).mpr ⟨ha, fun r hr' he => hr ⟨r, hr', ?_⟩⟩)
        rw [hval r hr', he]
    · rintro (ha | ⟨r, hr, rfl⟩)
      · exact hg.free a ha
      · rw [hval r hr]
        exact hg.fresh r hr

/-- The bitmap, the counter and the blocks of inode `i` are as they were. -/
structure Restored (i : Nat) (u u' : Segments) : Prop where
  dbitmap : u'.cached.dbitmap = u.cached.dbitmap
  counter : u'.cached.sbi.nrFreeDblock = u.cached.sbi.nrFreeDblock
  blocks : (u'.inodes i).blocks = (u.inodes i).blocks

variable {op : OpEntry} {nbyte : Nat} (hop : op.inodeNr = i)
  (hend : (op.offset + nbyte + 4095) / 4096 = (u.inodes i).blocks)

include hop hend in
/-- **`__return_block` behind `__alloc_block`** restores what there was exactly if it puts the last blocks of the file
back, and nothing has been allocated that the file does not need. -/
theorem restored_iff (hg : Given i n u u') : (∃ u₂, returnBlock op nbyte u' = .ok (0, u₂) ∧ Restored i u u₂) ↔
    ¬((u.inodes i).blocks = level2Limit ∧ n = 0) ∧ ReturnsLast u' i (u.inodes i).blocks := by
  have hle : (u.inodes i).blocks ≤ (u'.inodes i).blocks := by
    rw [hg.blocks]
    exact Nat.le_add_right _ n
  have hlast : u'.lastBlocks i (u.inodes i).blocks = (refs (u.inodes i).blocks n).map (u'.ref i) := by
    unfold Segments.lastBlocks
    rw [hg.blocks, Nat.add_sub_cancel_left]
  by_cases hspare : (u.inodes i).blocks = level2Limit ∧ n = 0
  · -- the block taken for `l3` is not put back
    simp only [hspare, not_true_eq_false, and_self, false_and, iff_false]
    rintro ⟨u₂, hu₂, hrest⟩
    have hcount := returnBlock_counter hg.wellFormed hop hend hle hu₂
    rw [hlast, hspare.2, refs, List.map_nil, List.length_nil, hrest.counter, hg.counter, hspare.1, hspare.2,
      newRefs_spare, List.length_singleton] at hcount
    omega
  rw [← returnBlock_bits_iff hg.wellFormed hop hend hle, hlast]
  have hnew := newRefs_of_ne (b := (u.inodes i).blocks) (n := n) (by omega)
  have hbits := hg.bits
  have hcounter := hg.counter
  rw [hnew] at hbits hcounter
  simp only [hspare, not_false_eq_true, true_and]
  refine exists_congr fun u₂ => and_congr_right fun hu₂ => ?_
  constructor
  · intro hrest a
    rw [hrest.dbitmap, hbits]
  · intro hsame
    refine ⟨eq_of_bit fun a => ?_, ?_, ?_⟩
    · rw [Bool.eq_iff_iff, hsame, hbits]
    · rw [returnBlock_counter hg.wellFormed hop hend hle hu₂, hlast, List.length_map, hcounter]
    · obtain ⟨c, -, rfl⟩ := returnBlock_putBack hg.wellFormed hop hend hle hu₂
      rw [less_blocks]
      omega

end

/-! ## The main theorem -/

/-- **Returning blocks is the inverse of allocating them** exactly where the end of `l1` is the end of the file, or the
file has all of level 1: only then a call of `__return_block` frees the blocks that the shorter file does not need. Behind
a call of `__alloc_block` it restores what there was exactly then, unless the call took a block for a file that ends with
level 2 and needed nothing. -/
theorem return_inverts_iff {i : Nat} :
    (∀ (u : Segments) (op : OpEntry) (nbyte m : Nat), u.WellFormed i → op.inodeNr = i →
      (op.offset + nbyte + 4095) / 4096 = m → m ≤ (u.inodes i).blocks →
      ((∃ u', returnBlock op nbyte u = .ok (0, u') ∧ Returned i m u u') ↔ ReturnsLast u i m)) ∧
    ∀ (u : Segments) (n : Nat) (op : OpEntry) (nbyte : Nat), u.WellFormed i → (u.inodes i).blocks + n ≤ level3Limit →
      allocTakes (u.inodes i).blocks n ≤ u.toVolume.room u.cached.sbi.nrDregionBlocks → op.inodeNr = i →
      (op.offset + nbyte + 4095) / 4096 = (u.inodes i).blocks →
      ∃ u₁, allocBlock i n u = .ok (0, u₁) ∧ u₁.WellFormed i ∧
        ((∃ u₂, returnBlock op nbyte u₁ = .ok (0, u₂) ∧ Restored i u u₂) ↔
          ¬((u.inodes i).blocks = level2Limit ∧ n = 0) ∧ ReturnsLast u₁ i (u.inodes i).blocks) := by
  refine ⟨fun u op nbyte m hw hop hend hm => returned_iff hw hop hend hm, fun u n op nbyte hw hn hroom hop hend => ?_⟩
  obtain ⟨u₁, hu₁, hg⟩ := allocBlock_given hw hn hroom
  exact ⟨u₁, hu₁, hg.wellFormed, restored_iff hop hend hg⟩

/-- The segments of a blank volume of 4096 blocks. -/
def blankSegments : Segments := (Process.start (blankVolume 4096).vol).seg

/-- Inode 1 has no blocks there. -/
theorem blankSegments_wellFormed : blankSegments.WellFormed 1 ∧ (blankSegments.inodes 1).blocks = 0 ∧
    blankSegments.toVolume.room blankSegments.cached.sbi.nrDregionBlocks = 2044 := by
  have hsound := (start_sane (n := 4096) (by decide) (by decide) (fun _ _ => 0) (fun _ => 0)).sound
  have hroom := fresh_room (B := 2045) (n := 4096) (by decide) (by decide) (fun _ _ => 0) (fun _ => 0)
  have hbits : dbitmapBits (superblockInfo 4096) = 32768 := by decide +kernel
  have hR : (superblockInfo 4096).nrDregionBlocks = 2045 := by decide +kernel
  have hnums : (blankVolume 4096).vol.cached.sbi.nrDregionBlocks = 2045 ∧
      (blankVolume 4096).vol.cached.sbi.nrDbitmapBlocks = 1 ∧ ((blankVolume 4096).vol.inode 1).blocks = 0 ∧
      (blankVolume 4096).vol.cached.sbi.nrFreeDblock = 2044 ∧
      dbitmapBits (blankVolume 4096).vol.cached.sbi = 32768 := by decide +kernel
  rw [hbits] at hroom
  rw [hR] at hsound
  unfold blankSegments blankVolume at *
  generalize State.fresh 4096 (fun _ _ => 0) (fun _ => 0) = s at hsound hroom hnums
  obtain ⟨hregion, hbitmap, hblocks, hfree, hreach⟩ := hnums
  have hcard : (freeBelow s.vol.cached.dbitmap 2045).card = 2044 := by
    unfold Volume.room at hroom
    rw [hreach] at hroom
    simpa using hroom
  have hregion' : (Process.start s.vol).seg.cached.sbi.nrDregionBlocks = 2045 := hregion
  refine ⟨⟨by decide, ?_, ?_, ?_, ?_, ?_⟩, hblocks, ?_⟩
  · show (s.vol.inode 1).blocks ≤ _
    rw [hblocks]
    decide
  · rw [hregion']
    exact hsound.ownsBy (by decide)
  · rw [hregion']
    decide
  · rw [hregion']
    show 2045 ≤ 32 * (1024 * s.vol.cached.sbi.nrDbitmapBlocks)
    rw [hbitmap]
    decide
  · rw [hregion']
    exact hfree.trans hcard.symm
  · rw [hregion']
    exact hroom

/-- A file gets 49 blocks and returns them, or all but 20. -/
theorem return_inverts_iff_level1 : ∃ u u₁ : Segments, u.WellFormed 1 ∧ allocBlock 1 49 u = .ok (0, u₁) ∧
    (∃ u₂, returnBlock (fileSlot 0) 0 u₁ = .ok (0, u₂) ∧ Restored 1 u u₂) ∧
    ∃ u₂, returnBlock (fileSlot 0) 81920 u₁ = .ok (0, u₂) ∧ Returned 1 20 u₁ u₂ := by
  obtain ⟨hw, hb, hroom⟩ := blankSegments_wellFormed
  have htakes : allocTakes 0 49 = 49 := by decide +kernel
  obtain ⟨hreturn, hinverse⟩ := return_inverts_iff (i := 1)
  obtain ⟨u₁, hu₁, hw₁, hiff⟩ := hinverse blankSegments 49 (fileSlot 0) 0 hw (by rw [hb]; decide)
    (by rw [hb, hroom, htakes]; decide) rfl (by rw [hb]; rfl)
  have hb₁ : (u₁.inodes 1).blocks = 49 := by
    obtain ⟨u', hu', hg⟩ := allocBlock_given (n := 49) hw (by rw [hb]; decide) (by rw [hb, hroom, htakes]; decide)
    rw [hu', Except.ok.injEq, Prod.mk.injEq] at hu₁
    rw [← hu₁.2, hg.blocks, hb]
  have hlevel : level1Limit ≤ (u₁.inodes 1).blocks := by
    rw [hb₁]
    decide
  refine ⟨blankSegments, u₁, hw, hu₁, hiff.mpr ⟨by rw [hb]; decide, Or.inr (Or.inl hlevel)⟩, ?_⟩
  exact (hreturn u₁ (fileSlot 0) 81920 20 hw₁ rfl (by simp [fileSlot]) (by rw [hb₁]; decide)).mpr (Or.inr (Or.inl hlevel))

/-- Of a file of one block not this one is returned, but block 0. -/
theorem return_frees_block_zero : ∃ u : Segments, u.WellFormed 1 ∧ (u.inodes 1).blocks = 1 ∧
    ¬∃ u', returnBlock (fileSlot 0) 0 u = .ok (0, u') ∧ Returned 1 0 u u' := by
  obtain ⟨hw, hb, hroom⟩ := blankSegments_wellFormed
  have htakes : allocTakes 0 1 = 1 := by decide +kernel
  obtain ⟨u, hu, hg⟩ := allocBlock_given (n := 1) hw (by rw [hb]; decide) (by rw [hb, hroom, htakes]; decide)
  have hb₁ : (u.inodes 1).blocks = 1 := by rw [hg.blocks, hb]
  have hrun : (allocBlock 1 1 blankSegments >>= fun r =>
      .ok (decide ((r.2.inodes 1).l1 0 = 1 ∧ (r.2.inodes 1).l1 48 = 0)) : M Bool) = .ok true := by decide +kernel
  rw [hu, ok_bind, Except.ok.injEq, decide_eq_true_eq] at hrun
  obtain ⟨hfirst, hlast⟩ := hrun
  refine ⟨u, hg.wellFormed, hb₁, fun hret => ?_⟩
  have hlasts := (returned_iff (m := 0) hg.wellFormed rfl rfl (Nat.zero_le _)).mp hret
  unfold ReturnsLast level1Limit at hlasts
  rw [hb₁] at hlasts
  rcases hlasts with h | h | h
  · cases h
  · exact absurd h (by decide)
  · obtain ⟨k, hlo, hlt, hk⟩ := (h 1).mpr ⟨0, Nat.le_refl 0, by decide, hfirst⟩
    obtain rfl : k = 48 := by omega
    rw [show (u.inodes 1).l1 48 = 0 from hlast] at hk
    cases hk

end Shm

end Vsfs
