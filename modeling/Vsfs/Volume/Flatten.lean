import Vsfs.Model.System
import Vsfs.Volume.Ownership

/-!
# `vsfs_get_inode_info` flattens the block map

The copy of an inode that an open file keeps lists its data blocks in order: entry `k` is the block at the reference
`dataRef k` (`vsfsGetInodeInfo_spec`). It lists the pointer blocks as well, and stays inside its arrays
(`vsfsGetInodeInfo_flattens`).
-/

set_option autoImplicit false

namespace Vsfs

open Function ByteSeq

variable {v : Volume} {i : Nat}

/-- The first `n` data blocks of inode `i`. -/
def Volume.dataBlocks (v : Volume) (i n : Nat) : List Nat := (List.range n).map fun k => v.val (i, dataRef k)

theorem dataBlocks_length (v : Volume) (i n : Nat) : (v.dataBlocks i n).length = n := by
  simp [Volume.dataBlocks]

theorem dataBlocks_succ (v : Volume) (i n : Nat) : v.dataBlocks i (n + 1) = v.dataBlocks i n ++ [v.val (i, dataRef n)] := by
  simp [Volume.dataBlocks, List.range_succ]

theorem dataBlocks_getElem {n k : Nat} (h : k < n) : (v.dataBlocks i n)[k]? = some (v.val (i, dataRef k)) := by
  simp [Volume.dataBlocks, h]

theorem mem_dataBlocks {n b : Nat} : b ∈ v.dataBlocks i n ↔ ∃ k, k < n ∧ v.val (i, dataRef k) = b := by
  simp [Volume.dataBlocks]

/-- Data block `k` of inode `i`: the entry of `l1`, of the pointer block of `l2`, or of the pointer block that the block
of `l3` lists. -/
def Volume.mapBlock (v : Volume) (i k : Nat) : Nat :=
  if k < level1Limit then (v.inode i).l1 k
  else if k < level2Limit then
    v.entry ((v.inode i).l2 ((k - level1Limit) / pointerPerBlock)) ((k - level1Limit) % pointerPerBlock)
  else
    v.entry (v.entry (v.inode i).l3 ((k - level2Limit) / pointerPerBlock)) ((k - level2Limit) % pointerPerBlock)

theorem mapBlock_eq (v : Volume) (i k : Nat) : v.mapBlock i k = v.val (i, dataRef k) := by
  unfold Volume.mapBlock dataRef level1Limit level2Limit pointerPerBlock
  split
  · rfl
  · split <;> rfl

/-- The loop over a pointer block whose entries are the data blocks from `k` on. -/
theorem copyPointers_spec {ptr : Block} {fuel j k : Nat} (blks : Nat)
    (h : ∀ t, t < fuel → pointer ptr (j + t) = v.val (i, dataRef (k + t))) :
    copyPointers ptr fuel j blks (v.dataBlocks i k) = (blks - min blks fuel, v.dataBlocks i (k + min blks fuel)) := by
  induction fuel generalizing j blks k with
  | zero => simp [copyPointers]
  | succ fuel ih =>
    unfold copyPointers
    by_cases hb : blks = 0
    · rw [if_pos hb, hb]
      simp
    · have h0 : pointer ptr j = v.val (i, dataRef k) := h 0 (by omega)
      rw [if_neg hb, h0, ← dataBlocks_succ, ih _ fun t ht => ?_]
      · rw [show blks - 1 - min (blks - 1) fuel = blks - min blks (fuel + 1) by omega,
          show k + 1 + min (blks - 1) fuel = k + min blks (fuel + 1) by omega]
      · have := h (t + 1) (by omega)
        rwa [show j + (t + 1) = j + 1 + t by omega, show k + (t + 1) = k + 1 + t by omega] at this

/-- The fields of the copy that do not come from the block map. -/
structure File.SameHead (f g : File) : Prop where
  size : g.size = f.size
  mode : g.mode = f.mode
  blocks : g.blocks = f.blocks
  inode : g.inode = f.inode
  atime : g.atime = f.atime
  ctime : g.ctime = f.ctime
  mtime : g.mtime = f.mtime

@[refl] theorem File.SameHead.refl (f : File) : f.SameHead f := ⟨rfl, rfl, rfl, rfl, rfl, rfl, rfl⟩

theorem File.SameHead.trans {f g k : File} (h : f.SameHead g) (h' : g.SameHead k) : f.SameHead k :=
  ⟨h'.size.trans h.size, h'.mode.trans h.mode, h'.blocks.trans h.blocks, h'.inode.trans h.inode, h'.atime.trans h.atime,
    h'.ctime.trans h.ctime, h'.mtime.trans h.mtime⟩

theorem infoLevel2_zero (v : Volume) (x : Inode) (fuel j : Nat) (f : File) : infoLevel2 v x fuel j 0 f = (0, f) := by
  cases fuel with
  | zero => rfl
  | succ fuel =>
    unfold infoLevel2
    rw [if_pos rfl]

theorem infoLevel3_zero (v : Volume) (l3 : Block) (fuel q : Nat) (f : File) : infoLevel3 v l3 fuel q 0 f = .ok f := by
  cases fuel with
  | zero => rfl
  | succ fuel =>
    unfold infoLevel3
    rw [if_pos rfl]

/-- The loop of level 2. -/
theorem infoLevel2_spec {fuel j blks m : Nat} {f g : File} (hfuel : fuel = 5 - j) (hj : j ≤ 5)
    (hf : f.block = v.dataBlocks i (49 + 1024 * j)) (h : infoLevel2 v (v.inode i) fuel j blks f = (m, g)) :
    m = blks - (5169 - (49 + 1024 * j)) ∧
      g.block = v.dataBlocks i (49 + 1024 * j + min blks (5169 - (49 + 1024 * j))) ∧ f.SameHead g := by
  induction fuel generalizing j blks f with
  | zero =>
    cases h
    have hj5 : j = 5 := by omega
    subst hj5
    rw [Nat.sub_self, Nat.min_zero]
    exact ⟨rfl, hf, .refl _⟩
  | succ fuel ih =>
    unfold infoLevel2 at h
    split at h
    case isTrue hb =>
      cases h
      rw [hb, Nat.zero_min]
      exact ⟨by omega, hf, .refl _⟩
    case isFalse hb =>
      have hentries : ∀ t, t < pointerPerBlock →
          pointer (v.disk (v.lba ((v.inode i).l2 j))) (0 + t) = v.val (i, dataRef (49 + 1024 * j + t)) := fun t ht => by
        rw [dataRef_l2e (by omega) ht, Nat.zero_add]
        rfl
      have hcopy := copyPointers_spec blks hentries
      rw [← hf] at hcopy
      rw [hcopy] at h
      dsimp only at h
      by_cases hle : blks ≤ 1024
      · rw [show blks - min blks pointerPerBlock = 0 by unfold pointerPerBlock; omega, infoLevel2_zero] at h
        cases h
        refine ⟨by omega, ?_, rfl, rfl, rfl, rfl, rfl, rfl, rfl⟩
        dsimp only
        congr 1
        unfold pointerPerBlock
        omega
      · rw [show min blks pointerPerBlock = 1024 by unfold pointerPerBlock; omega] at h
        obtain ⟨hm, hg, hh⟩ := ih (by omega) (by omega) (congrArg (v.dataBlocks i) (by omega)) h
        refine ⟨by omega, ?_, hh.size, hh.mode, hh.blocks, hh.inode, hh.atime, hh.ctime, hh.mtime⟩
        rw [hg]
        exact congrArg (v.dataBlocks i) (by omega)

/-- The loop of level 3; it ends well only if the pointer blocks fit the array. -/
theorem infoLevel3_spec {fuel q blks : Nat} {f g : File} (hfuel : fuel = 1024 - q) (hq : q ≤ 1019)
    (hf : f.block = v.dataBlocks i (5169 + 1024 * q))
    (h : infoLevel3 v (v.disk (v.lba (v.inode i).l3)) fuel q blks f = .ok g) :
    5169 + 1024 * q + blks ≤ 1048625 ∧ g.block = v.dataBlocks i (5169 + 1024 * q + blks) ∧ f.SameHead g := by
  induction fuel generalizing q blks f with
  | zero => omega
  | succ fuel ih =>
    unfold infoLevel3 at h
    split at h
    case isTrue hb =>
      cases h
      rw [hb]
      exact ⟨by omega, hf, .refl _⟩
    case isFalse hb =>
    split at h
    case isTrue => cases h
    case isFalse h5 =>
      have hentries : ∀ t, t < pointerPerBlock →
          pointer (v.disk (v.lba (pointer (v.disk (v.lba (v.inode i).l3)) q))) (0 + t) =
            v.val (i, dataRef (5169 + 1024 * q + t)) := fun t ht => by
        rw [dataRef_l3d ht, Nat.zero_add]
        rfl
      have hcopy := copyPointers_spec blks hentries
      rw [← hf] at hcopy
      rw [hcopy] at h
      dsimp only at h
      by_cases hle : blks ≤ 1024
      · rw [show blks - min blks pointerPerBlock = 0 by unfold pointerPerBlock; omega, infoLevel3_zero] at h
        cases h
        refine ⟨by omega, ?_, rfl, rfl, rfl, rfl, rfl, rfl, rfl⟩
        dsimp only
        congr 1
        unfold pointerPerBlock
        omega
      · rw [show min blks pointerPerBlock = 1024 by unfold pointerPerBlock; omega] at h
        obtain ⟨hlim, hg, hh⟩ := ih (by omega) (by omega) (congrArg (v.dataBlocks i) (by omega)) h
        refine ⟨by omega, ?_, hh.size, hh.mode, hh.blocks, hh.inode, hh.atime, hh.ctime, hh.mtime⟩
        rw [hg]
        exact congrArg (v.dataBlocks i) (by omega)

/-- The copy of inode `i`. The pointer blocks fit the array `l2_block` up to 1048625 data blocks. -/
structure InfoCopied (v : Volume) (i : Nat) (f : File) : Prop where
  lt : i < nrInodes
  limit : (v.inode i).blocks ≤ 1048625
  block : f.block = v.dataBlocks i (v.inode i).blocks
  size : f.size = (v.inode i).fileSize
  mode : f.mode = (v.inode i).mode
  blocks : f.blocks = (v.inode i).blocks
  inode : f.inode = i

/-- **`vsfs_get_inode_info`** lists the data blocks in order. -/
theorem vsfsGetInodeInfo_spec {f : File} (h : vsfsGetInodeInfo v i = .ok f) : InfoCopied v i f := by
  have h1 : level1Limit = 49 := rfl
  unfold vsfsGetInodeInfo at h
  obtain ⟨x, hx, h⟩ := ExceptLib.bind_eq_ok.mp h
  obtain ⟨hi, rfl⟩ := (inodeAt_eq_ok _ _).mp hx
  rw [h1] at h
  have hfirst : (List.range (min (v.inode i).blocks 49)).map (v.inode i).l1 =
      v.dataBlocks i (min (v.inode i).blocks 49) := by
    refine List.map_congr_left fun k hk => ?_
    rw [dataRef_l1 (by have := List.mem_range.mp hk; omega)]
    rfl
  dsimp only at h
  rw [hfirst] at h
  split at h
  case isTrue h0 =>
    cases h
    refine ⟨hi, by omega, ?_, rfl, rfl, rfl, rfl⟩
    dsimp only
    congr 1
    omega
  case isFalse h0 =>
  have hmin : min (v.inode i).blocks 49 = 49 := by omega
  rw [hmin] at h
  obtain ⟨⟨m, g⟩, hg⟩ : ∃ r, infoLevel2 v (v.inode i) 5 0 ((v.inode i).blocks - 49)
      { size := (v.inode i).fileSize, mode := (v.inode i).mode, blocks := (v.inode i).blocks
        block := v.dataBlocks i 49, l2Block := fun _ => 0, l3Block := 0, inode := i
        atime := (v.inode i).atime, ctime := (v.inode i).ctime, mtime := (v.inode i).mtime } = r := ⟨_, rfl⟩
  rw [hg] at h
  obtain ⟨hm, hgb, hh⟩ := infoLevel2_spec (j := 0) rfl (by omega) rfl hg
  dsimp only at h
  split at h
  case isTrue hm0 =>
    cases h
    refine ⟨hi, by omega, ?_, hh.size, hh.mode, hh.blocks, hh.inode⟩
    rw [hgb]
    congr 1
    omega
  case isFalse hm0 =>
    obtain ⟨hlim, hfb, hh'⟩ := infoLevel3_spec (q := 0) (i := i) rfl (by omega)
      (f := { g with l3Block := (v.inode i).l3 }) (by rw [show 5169 + 1024 * 0 = 49 + 1024 * 0 +
        min ((v.inode i).blocks - 49) (5169 - (49 + 1024 * 0)) by omega, ← hgb]) h
    refine ⟨hi, by omega, ?_, hh'.size.trans hh.size, hh'.mode.trans hh.mode, hh'.blocks.trans hh.blocks,
      hh'.inode.trans hh.inode⟩
    rw [hfb]
    congr 1
    omega

/-! ## Which inodes can be copied -/

theorem copyPointers_fst (ptr : Block) (fuel j blks : Nat) (block : List Nat) :
    (copyPointers ptr fuel j blks block).1 = blks - min blks fuel := by
  induction fuel generalizing j blks block with
  | zero => simp [copyPointers]
  | succ fuel ih =>
    unfold copyPointers
    split
    case isTrue hb => rw [hb, Nat.zero_sub]
    case isFalse hb =>
      rw [ih]
      omega

theorem infoLevel2_fst (v : Volume) (x : Inode) (fuel j blks : Nat) (f : File) :
    (infoLevel2 v x fuel j blks f).1 = blks - min blks (1024 * fuel) := by
  induction fuel generalizing j blks f with
  | zero => simp [infoLevel2]
  | succ fuel ih =>
    unfold infoLevel2
    split
    case isTrue hb => rw [hb, Nat.zero_sub]
    case isFalse hb =>
      have h := copyPointers_fst (v.disk (v.lba (x.l2 j))) pointerPerBlock 0 blks f.block
      dsimp only
      rw [ih, h]
      unfold pointerPerBlock
      omega

theorem infoLevel3_ok (v : Volume) (l3 : Block) {fuel q blks : Nat} (f : File) (hb : blks ≤ 1024 * (1019 - q)) :
    ∃ g, infoLevel3 v l3 fuel q blks f = .ok g := by
  induction fuel generalizing q blks f with
  | zero => exact ⟨f, rfl⟩
  | succ fuel ih =>
    unfold infoLevel3
    split
    case isTrue => exact ⟨f, rfl⟩
    case isFalse h0 =>
      have h := copyPointers_fst (v.disk (v.lba (pointer l3 q))) pointerPerBlock 0 blks f.block
      obtain ⟨⟨m, block⟩, hm⟩ : ∃ r, copyPointers (v.disk (v.lba (pointer l3 q))) pointerPerBlock 0 blks f.block = r :=
        ⟨_, rfl⟩
      rw [hm] at h ⊢
      rw [if_neg (by omega)]
      refine ih _ ?_
      unfold pointerPerBlock at h
      dsimp only at h
      omega

/-- An inode whose pointer blocks fit the array can be copied. -/
theorem vsfsGetInodeInfo_ok (hi : i < nrInodes) (hb : (v.inode i).blocks ≤ 1048625) :
    ∃ f, vsfsGetInodeInfo v i = .ok f := by
  have h1 : level1Limit = 49 := rfl
  unfold vsfsGetInodeInfo
  rw [(inodeAt_eq_ok _ _).mpr ⟨hi, rfl⟩, ExceptLib.ok_bind, h1]
  dsimp only
  split
  · exact ⟨_, rfl⟩
  · have h2 := infoLevel2_fst v (v.inode i) 5 0 ((v.inode i).blocks - min (v.inode i).blocks 49)
      { size := (v.inode i).fileSize, mode := (v.inode i).mode, blocks := (v.inode i).blocks
        block := (List.range (min (v.inode i).blocks 49)).map (v.inode i).l1, l2Block := fun _ => 0, l3Block := 0
        inode := i, atime := (v.inode i).atime, ctime := (v.inode i).ctime, mtime := (v.inode i).mtime }
    split
    · exact ⟨_, rfl⟩
    · refine infoLevel3_ok _ _ _ ?_
      rw [h2]
      omega

/-! ## The pointer blocks -/

/-- Pointer block `k` of inode `i`: one of `l2`, or of those that the block of `l3` lists. -/
def Volume.pointerBlock (v : Volume) (i k : Nat) : Nat :=
  if k < 5 then (v.inode i).l2 k else v.entry (v.inode i).l3 (k - 5)

/-- The loop of level 2 stores the pointer blocks of the data blocks that are left, and nothing else. -/
theorem infoLevel2_pointers {x : Inode} {fuel j blks m : Nat} {f g : File} (hfuel : fuel = 5 - j)
    (h : infoLevel2 v x fuel j blks f = (m, g)) (k : Nat) :
    g.l2Block k = (if j ≤ k ∧ k < 5 ∧ 1024 * (k - j) < blks then x.l2 k else f.l2Block k) ∧ g.l3Block = f.l3Block := by
  induction fuel generalizing j blks f with
  | zero =>
    cases h
    exact ⟨(if_neg (by omega)).symm, rfl⟩
  | succ fuel ih =>
    unfold infoLevel2 at h
    split at h
    case isTrue hb =>
      cases h
      exact ⟨(if_neg (by omega)).symm, rfl⟩
    case isFalse hb =>
      have hleft := copyPointers_fst (v.disk (v.lba (x.l2 j))) pointerPerBlock 0 blks f.block
      have h1024 : pointerPerBlock = 1024 := rfl
      obtain ⟨⟨left, block⟩, hcopy⟩ : ∃ r, copyPointers (v.disk (v.lba (x.l2 j))) pointerPerBlock 0 blks f.block = r :=
        ⟨_, rfl⟩
      rw [hcopy] at h hleft
      dsimp only at h hleft
      obtain ⟨hl2, hl3⟩ := ih (by omega) h
      refine ⟨?_, hl3⟩
      rw [hl2]
      dsimp only
      rw [update_apply]
      split_ifs with h1 h2 h3 h4 <;> first | rfl | omega | rw [h3]

/-- The loop of level 3 likewise, behind these five. -/
theorem infoLevel3_pointers {l3 : Block} {fuel q blks : Nat} {f g : File} (hfuel : fuel = 1024 - q) (hq : q ≤ 1019)
    (h : infoLevel3 v l3 fuel q blks f = .ok g) (k : Nat) :
    g.l2Block k = (if 5 + q ≤ k ∧ 1024 * (k - 5 - q) < blks then pointer l3 (k - 5) else f.l2Block k) ∧
      g.l3Block = f.l3Block := by
  induction fuel generalizing q blks f with
  | zero => omega
  | succ fuel ih =>
    unfold infoLevel3 at h
    split at h
    case isTrue hb =>
      cases h
      exact ⟨(if_neg (by omega)).symm, rfl⟩
    case isFalse hb =>
    split at h
    case isTrue => cases h
    case isFalse h5 =>
      have hleft := copyPointers_fst (v.disk (v.lba (pointer l3 q))) pointerPerBlock 0 blks f.block
      have h1024 : pointerPerBlock = 1024 := rfl
      obtain ⟨⟨left, block⟩, hcopy⟩ : ∃ r, copyPointers (v.disk (v.lba (pointer l3 q))) pointerPerBlock 0 blks
        f.block = r := ⟨_, rfl⟩
      rw [hcopy] at h hleft
      dsimp only at h hleft
      obtain ⟨hl2, hl3⟩ := ih (by omega) (by omega) h
      refine ⟨?_, hl3⟩
      rw [hl2]
      dsimp only
      rw [update_apply]
      split_ifs with h1 h2 h3 h4 <;> first | rfl | omega | skip
      rw [h3, Nat.add_sub_cancel]

/-- The copy `f` lists the block map of inode `i`: its data blocks, as many as the inode has, and its pointer blocks in
the elements that the array `l2_block` has; all other elements are 0. -/
structure Flattened (v : Volume) (i : Nat) (f : File) : Prop where
  length : f.block.length = (v.inode i).blocks
  block : ∀ k, k < (v.inode i).blocks → f.block[k]? = some (v.mapBlock i k)
  l2Block : ∀ k, f.l2Block k =
    if level1Limit + pointerPerBlock * k < (v.inode i).blocks then v.pointerBlock i k else 0
  inside : ∀ k, level1Limit + pointerPerBlock * k < (v.inode i).blocks → k < 1024
  l3Block : f.l3Block = if level2Limit < (v.inode i).blocks then (v.inode i).l3 else 0
  blocks : f.blocks = (v.inode i).blocks
  size : f.size = if (v.inode i).size = 0 ∧ (v.inode i).blocks = 1048576 then 2 ^ 32 else (v.inode i).size

/-- The pointer blocks of a copy. -/
theorem vsfsGetInodeInfo_pointers {f : File} (h : vsfsGetInodeInfo v i = .ok f) (k : Nat) :
    f.l2Block k = (if 49 + 1024 * k < (v.inode i).blocks then v.pointerBlock i k else 0) ∧
      f.l3Block = if 5169 < (v.inode i).blocks then (v.inode i).l3 else 0 := by
  have h1 : level1Limit = 49 := rfl
  unfold vsfsGetInodeInfo at h
  obtain ⟨x, hx, h⟩ := ExceptLib.bind_eq_ok.mp h
  obtain ⟨hi, rfl⟩ := (inodeAt_eq_ok _ _).mp hx
  rw [h1] at h
  dsimp only at h
  split at h
  case isTrue h0 =>
    cases h
    exact ⟨(if_neg (by omega)).symm, (if_neg (by omega)).symm⟩
  case isFalse h0 =>
  obtain ⟨⟨m, g⟩, hg⟩ : ∃ r, infoLevel2 v (v.inode i) 5 0 ((v.inode i).blocks - min (v.inode i).blocks 49)
      { size := (v.inode i).fileSize, mode := (v.inode i).mode, blocks := (v.inode i).blocks
        block := (List.range (min (v.inode i).blocks 49)).map (v.inode i).l1, l2Block := fun _ => 0, l3Block := 0
        inode := i, atime := (v.inode i).atime, ctime := (v.inode i).ctime, mtime := (v.inode i).mtime } = r := ⟨_, rfl⟩
  have hm := infoLevel2_fst v (v.inode i) 5 0 ((v.inode i).blocks - min (v.inode i).blocks 49)
    { size := (v.inode i).fileSize, mode := (v.inode i).mode, blocks := (v.inode i).blocks
      block := (List.range (min (v.inode i).blocks 49)).map (v.inode i).l1, l2Block := fun _ => 0, l3Block := 0
      inode := i, atime := (v.inode i).atime, ctime := (v.inode i).ctime, mtime := (v.inode i).mtime }
  rw [hg] at h hm
  dsimp only at h hm
  obtain ⟨hl2, hl3⟩ := infoLevel2_pointers (j := 0) rfl hg k
  dsimp only at hl2 hl3
  unfold Volume.pointerBlock
  split at h
  case isTrue hm0 =>
    cases h
    rw [hl2, hl3]
    refine ⟨?_, (if_neg (by omega)).symm⟩
    split_ifs <;> first | rfl | omega
  case isFalse hm0 =>
    obtain ⟨hl2', hl3'⟩ := infoLevel3_pointers (q := 0) rfl (by omega) h k
    dsimp only at hl2' hl3'
    rw [hl2', hl2, hl3']
    refine ⟨?_, (if_pos (by omega)).symm⟩
    split_ifs <;> first | rfl | omega

/-- **Flattening is exact and in bounds**, for every inode of up to 1048576 blocks (4 GiB) and whatever the device
holds. -/
theorem vsfsGetInodeInfo_flattens (hi : i < nrInodes) (hb : (v.inode i).blocks ≤ 1048576) :
    ∃ f, vsfsGetInodeInfo v i = .ok f ∧ Flattened v i f := by
  obtain ⟨f, hf⟩ := vsfsGetInodeInfo_ok (v := v) hi (by omega)
  have hc := vsfsGetInodeInfo_spec hf
  have h1 : level1Limit = 49 := rfl
  have h1024 : pointerPerBlock = 1024 := rfl
  refine ⟨f, hf, by rw [hc.block, dataBlocks_length], fun k hk => ?_, fun k => (vsfsGetInodeInfo_pointers hf k).1,
    fun k hk => by rw [h1, h1024] at hk; omega, (vsfsGetInodeInfo_pointers hf 0).2, hc.blocks, hc.size⟩
  rw [hc.block, dataBlocks_getElem hk, mapBlock_eq]

theorem vsfsGetInodeInfo_flattens_6000 : ∃ (v : Volume) (f : File), (v.inode 1).blocks = 6000 ∧
    vsfsGetInodeInfo v 1 = .ok f ∧ Flattened v 1 f := by
  obtain ⟨f, hf⟩ := vsfsGetInodeInfo_flattens
    (v := (blankVolume 4096).vol.modInode 1 fun x => { x with blocks := 6000 }) (i := 1) (by decide)
    (show 6000 ≤ 1048576 by decide)
  exact ⟨_, f, rfl, hf⟩

end Vsfs
