import Mathlib.Algebra.BigOperators.Group.List.Basic
import Vsfs.Volume.Ownership

/-!
# `__alloc_block` gives blocks to references

The loops of `__alloc_block` fill pointer blocks in buffers that they write back. Their result is the same as if every
block had been assigned to its reference at once.

- `fillPointers_puts`: the loop over the entries of one pointer block;
- `allocLevel1_puts`, `allocLevel2_puts`, `allocLevel3_puts`: the loops of the three levels;
- `newRefs`: the references that `__alloc_block` gives blocks to;
- `allocBlock_puts`: it does, for the data blocks it is asked for as far as the map reaches.
-/

set_option autoImplicit false

namespace Vsfs

open Function ByteSeq PointerForest WordBits

variable {v w : Volume} {B i b n m : Nat} {R : Set (Nat × Ref)}

/-! ## What assignments leave alone -/

/-- One for a data block. -/
def Ref.weight : Ref → Nat
  | l1 _ | l2e _ _ | l3d _ _ => 1
  | l2 _ | l3 | l3e _ => 0

/-- The inodes are the same but for the block map. -/
structure Inode.SameHead (x y : Inode) : Prop where
  mode : y.mode = x.mode
  size : y.size = x.size
  atime : y.atime = x.atime
  ctime : y.ctime = x.ctime
  mtime : y.mtime = x.mtime

/-- What giving `c` data blocks to inode `i` leaves alone. -/
structure MapFrame (i c : Nat) (v w : Volume) : Prop where
  other : ∀ j, j ≠ i → w.inode j = v.inode j
  head : (v.inode i).SameHead (w.inode i)
  blocks : (v.inode i).blocks + c < 2 ^ 32 → (w.inode i).blocks = (v.inode i).blocks + c
  ibitmap : w.cached.ibitmap = v.cached.ibitmap
  sbi : ∃ k, w.cached.sbi = { v.cached.sbi with nrFreeDblock := k }

theorem MapFrame.refl (i : Nat) (v : Volume) : MapFrame i 0 v v :=
  ⟨fun _ _ => rfl, ⟨rfl, rfl, rfl, rfl, rfl⟩, fun _ => rfl, rfl, _, rfl⟩

theorem MapFrame.trans {c d : Nat} {u : Volume} (h : MapFrame i c v u) (h' : MapFrame i d u w) :
    MapFrame i (c + d) v w := by
  refine ⟨fun j hj => (h'.other j hj).trans (h.other j hj), ?_, fun hlt => ?_, h'.ibitmap.trans h.ibitmap, ?_⟩
  · obtain ⟨h1, h2, h3, h4, h5⟩ := h.head
    obtain ⟨k1, k2, k3, k4, k5⟩ := h'.head
    exact ⟨k1.trans h1, k2.trans h2, k3.trans h3, k4.trans h4, k5.trans h5⟩
  · have h1 := h.blocks (by omega)
    rw [h'.blocks (by omega), h1]
    omega
  · obtain ⟨k, hk⟩ := h.sbi
    obtain ⟨k', hk'⟩ := h'.sbi
    exact ⟨k', by rw [hk', hk]⟩

theorem put_frame {r : Ref} {v' : Volume} (ht : v.getFreeDblock = .ok (b, v')) :
    MapFrame i r.weight v (v'.put i r b) := by
  obtain ⟨hin, hib, _, k, hk⟩ := getFreeDblock_frame ht
  have hself : (v'.put i r b).inode i = r.assign b (v.inode i) := by rw [put_inode_self, hin]
  refine ⟨fun j hj => by rw [put_inode_of_ne hj, hin], ?_, fun hlt => ?_, by rw [put_cached, ← hib]; rfl, k,
    by rw [put_cached, ← hk]; rfl⟩
  · rw [hself]
    cases r <;> exact ⟨rfl, rfl, rfl, rfl, rfl⟩
  · rw [hself]
    cases r with
    | l1 | l2e | l3d =>
      simp only [Ref.weight] at hlt ⊢
      exact succ32_of_lt (by omega)
    | l2 | l3 | l3e => rfl

theorem Puts.frame {rs : List Ref} (h : Puts i rs v w) : MapFrame i (rs.map Ref.weight).sum v w := by
  induction h with
  | nil v => exact .refl i v
  | cons hb _ ih =>
    rw [List.map_cons, List.sum_cons]
    exact (put_frame hb).trans ih

theorem refsAt_weight (k : Nat) : ((refsAt k).map Ref.weight).sum = 1 := by
  unfold refsAt pointerRefs dataRef
  split_ifs <;> rfl

theorem refs_weight (b c : Nat) : ((refs b c).map Ref.weight).sum = c := by
  induction c generalizing b with
  | zero => rfl
  | succ c ih => rw [refs, List.map_append, List.sum_append, refsAt_weight, ih, Nat.add_comm]

/-! ## One pointer block -/

theorem writeBlock_self (v : Volume) (l : Nat) : v.writeBlock l (v.disk l) = v := by
  unfold Volume.writeBlock
  rw [update_eq_self]

theorem writeBlock_writeBlock (v : Volume) (l : Nat) (x y : Block) : (v.writeBlock l x).writeBlock l y = v.writeBlock l y := by
  unfold Volume.writeBlock
  rw [update_idem]

theorem writeBlock_comm (v : Volume) {l k : Nat} (h : l ≠ k) (x y : Block) :
    (v.writeBlock l x).writeBlock k y = (v.writeBlock k y).writeBlock l x := by
  unfold Volume.writeBlock
  rw [update_comm h]

/-- The allocator does not look at the device. -/
theorem take_writeBlock (h : v.getFreeDblock = .ok (b, w)) (l : Nat) (x : Block) :
    (v.writeBlock l x).getFreeDblock = .ok (b, w.writeBlock l x) := by
  obtain ⟨⟨b', c⟩, hc, h⟩ := ExceptLib.bind_eq_ok.mp h
  cases h
  exact ExceptLib.bind_eq_ok.mpr ⟨_, hc, rfl⟩

/-- Filling a pointer block does not touch the device. -/
theorem fillPointers_writeBlock {j : Nat} {p q : Block} (h : fillPointers i n j p v = .ok (m, q, w)) (l : Nat)
    (x : Block) : fillPointers i n j p (v.writeBlock l x) = .ok (m, q, w.writeBlock l x) := by
  induction n generalizing j p v with
  | zero => cases h; rfl
  | succ n ih =>
    unfold fillPointers at h ⊢
    split at h
    case isFalse hj => cases h; rw [if_neg hj]
    case isTrue hj =>
      obtain ⟨⟨b, v'⟩, hb, h⟩ := ExceptLib.bind_eq_ok.mp h
      rw [if_pos hj, take_writeBlock hb l x]
      exact ih h

/-- The part of the volume that says which block the references of an inode are entries of, the block `L` apart. -/
structure SameRoots (i L : Nat) (u v : Volume) : Prop where
  l2 : (v.inode i).l2 = (u.inode i).l2
  l3 : (v.inode i).l3 = (u.inode i).l3
  ofsDregion : v.cached.sbi.ofsDregion = u.cached.sbi.ofsDregion
  disk : ∀ l, l ≠ L → v.disk l = u.disk l

/-- **The loop over a pointer block**: with the block `L` written after every entry it assigns blocks to the references
`e j`, `e (j + 1)`, …. The buffer `p` stands for the block. -/
theorem fillPointers_puts {e : Nat → Ref} {L j : Nat} {u : Volume} {p q : Block}
    (hput : ∀ x b k, SameRoots i L u x →
      x.put i (e k) b = (x.writeBlock L (setPointer (x.disk L) k b)).modInode i fun y => { y with blocks := succ32 y.blocks })
    (hu : SameRoots i L u v) (h : fillPointers i n j p v = .ok (m, q, w)) :
    m = n - (1024 - j) ∧
      Puts i ((List.range' j (min n (1024 - j))).map e) (v.writeBlock L p) (w.writeBlock L q) := by
  induction n generalizing j p v with
  | zero =>
    cases h
    exact ⟨by omega, by rw [Nat.zero_min]; exact .nil _⟩
  | succ n ih =>
    unfold fillPointers at h
    split at h
    case isFalse hj =>
      cases h
      unfold pointerPerBlock at hj
      rw [show 1024 - j = 0 by omega, Nat.min_zero]
      exact ⟨rfl, .nil _⟩
    case isTrue hj =>
      unfold pointerPerBlock at hj
      obtain ⟨⟨b, v'⟩, hb, h⟩ := ExceptLib.bind_eq_ok.mp h
      obtain ⟨hin, _, hd, k, hk⟩ := getFreeDblock_frame hb
      have hsame : SameRoots i L u v' := by
        refine ⟨?_, ?_, ?_, fun l hl => ?_⟩
        · rw [hin, hu.l2]
        · rw [hin, hu.l3]
        · rw [hk, ← hu.ofsDregion]
        · rw [hd, hu.disk l hl]
      have hwrite : SameRoots i L u (v'.writeBlock L p) :=
        ⟨hsame.l2, hsame.l3, hsame.ofsDregion, fun l hl => (writeBlock_disk_of_ne _ _ _ hl).trans (hsame.disk l hl)⟩
      have hnext : SameRoots i L u (v'.modInode i fun y => { y with blocks := succ32 y.blocks }) := by
        refine ⟨?_, ?_, hsame.ofsDregion, hsame.disk⟩
        · rw [modInode_inode_self]
          exact hsame.l2
        · rw [modInode_inode_self]
          exact hsame.l3
      obtain ⟨hm, hputs⟩ := ih hnext h
      refine ⟨by omega, ?_⟩
      rw [show min (n + 1) (1024 - j) = min n (1024 - (j + 1)) + 1 by omega, List.range'_succ, List.map_cons]
      refine .cons (take_writeBlock hb L p) ?_
      rw [hput _ _ _ hwrite, writeBlock_disk_self, writeBlock_writeBlock]
      exact hputs

/-! ## Lists of references -/

theorem refs_l2e {j k c : Nat} (hj : j < 5) (hk : 0 < k) (h : k + c ≤ 1024) :
    refs (49 + 1024 * j + k) c = (List.range' k c).map (Ref.l2e j) := by
  induction c generalizing k with
  | zero => rfl
  | succ c ih =>
    rw [refs, refsAt_l2e hj (by omega), if_neg (by omega), List.nil_append, List.range'_succ, List.map_cons,
      ← ih (by omega) (by omega)]
    rfl

theorem refs_l2 {j k c : Nat} (hj : j < 5) (hc : 0 < c) (h : k + c ≤ 1024) : refs (49 + 1024 * j + k) c =
    (if k = 0 then [.l2 j] else []) ++ (List.range' k c).map (Ref.l2e j) := by
  obtain ⟨c, rfl⟩ := Nat.exists_eq_succ_of_ne_zero (Nat.ne_of_gt hc)
  rw [refs, refsAt_l2e hj (by omega), List.append_assoc, Nat.add_assoc _ k 1, refs_l2e hj (by omega) (by omega),
    List.range'_succ, List.map_cons]
  rfl

theorem refs_l3d {q k c : Nat} (hk : 0 < k) (h : k + c ≤ 1024) :
    refs (5169 + 1024 * q + k) c = (List.range' k c).map (Ref.l3d q) := by
  induction c generalizing k with
  | zero => rfl
  | succ c ih =>
    rw [refs, refsAt_l3d (by omega), if_neg (by omega), if_neg (by omega), List.nil_append, List.nil_append,
      List.range'_succ, List.map_cons, ← ih (by omega) (by omega)]
    rfl

theorem refs_l3 {q k c : Nat} (hc : 0 < c) (h : k + c ≤ 1024) : refs (5169 + 1024 * q + k) c =
    (if q = 0 ∧ k = 0 then [.l3] else []) ++
      ((if k = 0 then [.l3e q] else []) ++ (List.range' k c).map (Ref.l3d q)) := by
  obtain ⟨c, rfl⟩ := Nat.exists_eq_succ_of_ne_zero (Nat.ne_of_gt hc)
  rw [refs, refsAt_l3d (by omega), Nat.add_assoc _ k 1, refs_l3d (by omega) (by omega), List.range'_succ, List.map_cons,
    List.append_assoc, List.append_assoc]
  rfl

theorem FreshRefs.left {rs ss : List Ref} (h : FreshRefs i R (rs ++ ss)) : FreshRefs i R rs := by
  induction rs generalizing R with
  | nil => exact .nil R
  | cons r rs ih =>
    obtain _ | ⟨h1, h2, h3⟩ := h
    exact .cons h1 h2 (ih h3)

theorem FreshRefs.right {rs ss : List Ref} (h : FreshRefs i R (rs ++ ss)) : FreshRefs i (addRefs R i rs) ss := by
  induction rs generalizing R with
  | nil => rwa [addRefs_nil]
  | cons r rs ih =>
    obtain _ | ⟨_, _, h3⟩ := h
    rw [← addRefs_cons]
    exact ih h3

/-! ## Level 1 -/

/-- The loop of level 1. -/
theorem allocLevel1_puts {k : Nat} (h : allocLevel1 i n k v = .ok (m, w)) :
    m = n - (49 - k) ∧ Puts i (refs k (min n (49 - k))) v w := by
  induction n generalizing k v with
  | zero =>
    cases h
    exact ⟨by omega, by rw [Nat.zero_min]; exact .nil _⟩
  | succ n ih =>
    unfold allocLevel1 at h
    split at h
    case isFalse hk =>
      cases h
      unfold level1Limit at hk
      rw [show 49 - k = 0 by omega, Nat.min_zero]
      exact ⟨rfl, .nil _⟩
    case isTrue hk =>
      unfold level1Limit at hk
      obtain ⟨⟨b, v'⟩, hb, h⟩ := ExceptLib.bind_eq_ok.mp h
      obtain ⟨hm, hputs⟩ := ih h
      refine ⟨by omega, ?_⟩
      rw [show min (n + 1) (49 - k) = min n (49 - (k + 1)) + 1 by omega, refs, refsAt_l1 hk]
      exact .cons hb hputs

/-! ## Level 2 -/

/-- Assigning to an entry of the pointer block of `l2[j]`. -/
theorem put_l2e {u x : Volume} {j : Nat} (h : SameRoots i (u.lba ((u.inode i).l2 j)) u x) (b k : Nat) :
    x.put i (.l2e j k) b = (x.writeBlock (u.lba ((u.inode i).l2 j))
      (setPointer (x.disk (u.lba ((u.inode i).l2 j))) k b)).modInode i fun y => { y with blocks := succ32 y.blocks } := by
  have hl : x.lba (x.val (i, .l2 j)) = u.lba ((u.inode i).l2 j) := by
    simp only [Volume.val, Volume.lba, h.l2, h.ofsDregion]
  unfold Volume.put Volume.putEntry Volume.setEntry
  simp only [Ref.parent, Ref.slot, hl]
  rfl

/-- The block taken for `l2[j]` at its start. -/
theorem level2_start {j start : Nat} {v₁ : Volume}
    (h : (if start = 0 then do
        let (b, v) ← v.getFreeDblock
        .ok (v.modInode i fun x => { x with l2 := update x.l2 j b })
      else .ok v : M Volume) = .ok v₁) : Puts i (if start = 0 then [.l2 j] else []) v v₁ := by
  split at h
  case isFalse hs =>
    cases h
    rw [if_neg hs]
    exact .nil _
  case isTrue hs =>
    obtain ⟨⟨b, v'⟩, hb, h⟩ := ExceptLib.bind_eq_ok.mp h
    cases h
    rw [if_pos hs]
    exact .cons hb (.nil _)

/-- The loop of level 2, from `l2[j]` on. -/
theorem allocLevel2_puts {fuel j start : Nat} (hfuel : fuel = 5 - j) (hs : start < 1024) (hj : j ≤ 5)
    (h : allocLevel2 v.cached.sbi.ofsDregion i fuel j start n v = .ok (m, w)) (ho : v.Owns B R)
    (hstart : start ≠ 0 → (i, .l2 j) ∈ R)
    (hf : FreshRefs i R (refs (49 + 1024 * j + start) (min n (5169 - (49 + 1024 * j + start)))))
    (hroom : (refs (49 + 1024 * j + start) (min n (5169 - (49 + 1024 * j + start)))).length ≤ v.room B) :
    m = n - (5169 - (49 + 1024 * j + start)) ∧
      Puts i (refs (49 + 1024 * j + start) (min n (5169 - (49 + 1024 * j + start)))) v w := by
  induction fuel generalizing j start n v R with
  | zero =>
    cases h
    rw [show 5169 - (49 + 1024 * j + start) = 0 by omega, Nat.min_zero]
    exact ⟨rfl, .nil _⟩
  | succ fuel ih =>
    unfold allocLevel2 at h
    split at h
    case isTrue hn =>
      cases h
      subst hn
      rw [Nat.zero_min]
      exact ⟨by omega, .nil _⟩
    case isFalse hn =>
      obtain ⟨v₁, h₁, h⟩ := ExceptLib.bind_eq_ok.mp h
      obtain ⟨⟨n', p, v₂⟩, h₂, h⟩ := ExceptLib.bind_eq_ok.mp h
      dsimp only at h h₂
      -- the references of this pointer block, then the others
      obtain ⟨c, hc, hc0, hc1⟩ : ∃ c, c = min n (1024 - start) ∧ 0 < c ∧ start + c ≤ 1024 := ⟨_, rfl, by omega, by omega⟩
      have hsplit : refs (49 + 1024 * j + start) (min n (5169 - (49 + 1024 * j + start))) =
          ((if start = 0 then [.l2 j] else []) ++ (List.range' start c).map (Ref.l2e j)) ++
            refs (49 + 1024 * j + (start + c)) (min (n - c) (5169 - (49 + 1024 * j + (start + c)))) := by
        rw [← refs_l2 (by omega) hc0 hc1, ← Nat.add_assoc _ start c, ← refs_add]
        congr 1
        omega
      rw [hsplit] at hf hroom ⊢
      rw [List.length_append, List.length_append] at hroom
      have hp₁ := level2_start h₁
      have hg₁ := hp₁.grown ho hf.left.left (by omega)
      have hin : (i, Ref.l2 j) ∈ addRefs R i (if start = 0 then [.l2 j] else []) := by
        by_cases h0 : start = 0
        · exact Or.inr ⟨rfl, by rw [if_pos h0]; exact List.mem_singleton_self _⟩
        · exact Or.inl (hstart h0)
      have hlt : (v₁.inode i).l2 j < B := hg₁.owns.owned.lt _ hin
      have hlba : v.cached.sbi.ofsDregion + (v₁.inode i).l2 j = v₁.lba ((v₁.inode i).l2 j) := by
        rw [lba_of_lt hg₁.owns.addr hlt, hg₁.ofsDregion]
      rw [hlba] at h h₂
      obtain ⟨hn', hp₂⟩ := fillPointers_puts (fun x b k hx => put_l2e hx b k) ⟨rfl, rfl, rfl, fun _ _ => rfl⟩ h₂
      rw [writeBlock_self, ← hc] at hp₂
      have hp := hp₁.append hp₂
      have hg := hp.grown ho hf.left (by rw [List.length_append]; omega)
      have hn'c : n' = n - c := by omega
      subst hn'c
      have hofs : v.cached.sbi.ofsDregion = (v₂.writeBlock (v₁.lba ((v₁.inode i).l2 j)) p).cached.sbi.ofsDregion :=
        hg.ofsDregion.symm
      rw [hofs] at h
      by_cases hrest : n = c
      · -- nothing is left for the next pointer block
        subst hrest
        rw [Nat.sub_self] at h ⊢
        rw [Nat.zero_min, refs, List.append_nil]
        have hend : m = 0 ∧ w = v₂.writeBlock (v₁.lba ((v₁.inode i).l2 j)) p := by
          cases fuel with
          | zero => cases h; exact ⟨rfl, rfl⟩
          | succ fuel =>
            unfold allocLevel2 at h
            rw [if_pos rfl] at h
            cases h
            exact ⟨rfl, rfl⟩
        obtain ⟨rfl, rfl⟩ := hend
        exact ⟨by omega, hp⟩
      · have hcs : start + c = 1024 := by omega
        have hnext : 49 + 1024 * j + (start + c) = 49 + 1024 * (j + 1) + 0 := by omega
        have hr := hg.room
        rw [hnext] at hf hroom ⊢
        rw [List.length_append] at hr
        obtain ⟨hm, hp₃⟩ := ih (by omega) (by omega) (by omega) h hg.owns (fun h0 => absurd rfl h0) hf.right (by omega)
        exact ⟨by omega, hp.append hp₃⟩

/-! ## Level 3 -/

/-- The references that come into use with the `c` data blocks from `b` on, the field `l3` apart. -/
def refs3 (b c : Nat) : List Ref := if b = 5169 then (refs b c).tail else refs b c

theorem refs3_zero (b : Nat) : refs3 b 0 = [] := by
  unfold refs3
  split <;> rfl

theorem refs3_split {q k c : Nat} (hc : 0 < c) (h : k + c ≤ 1024) (d : Nat) : refs3 (5169 + 1024 * q + k) (c + d) =
    ((if k = 0 then [.l3e q] else []) ++ (List.range' k c).map (Ref.l3d q)) ++
      refs3 (5169 + 1024 * q + (k + c)) d := by
  have hr : refs3 (5169 + 1024 * q + (k + c)) d = refs (5169 + 1024 * q + (k + c)) d := if_neg (by omega)
  rw [hr, refs3, refs_add, refs_l3 hc h, ← Nat.add_assoc _ k c]
  by_cases h0 : q = 0 ∧ k = 0
  · rw [if_pos (by omega), if_pos h0]
    rfl
  · rw [if_neg (by omega), if_neg h0]
    rfl

theorem lba_congr {a c : Nat} (h : w.cached.sbi.ofsDregion = v.cached.sbi.ofsDregion) (hc : c = a) :
    w.lba c = v.lba a := by
  unfold Volume.lba
  rw [h, hc]

theorem modInode_id (v : Volume) (i : Nat) : v.modInode i (fun x => x) = v := by
  unfold Volume.modInode
  rw [update_eq_self]

/-- Assigning to an entry of the block of `l3`. -/
theorem put_l3e {L : Nat} (h : v.lba (v.inode i).l3 = L) (b q : Nat) :
    v.put i (.l3e q) b = v.writeBlock L (setPointer (v.disk L) q b) := by
  subst h
  exact modInode_id ..

/-- Assigning to an entry of a pointer block that the block of `l3` lists. -/
theorem put_l3d {u x : Volume} {q : Nat} (h : SameRoots i (u.lba (u.val (i, .l3e q))) u x)
    (hne : u.lba (u.inode i).l3 ≠ u.lba (u.val (i, .l3e q))) (b k : Nat) :
    x.put i (.l3d q k) b = (x.writeBlock (u.lba (u.val (i, .l3e q)))
      (setPointer (x.disk (u.lba (u.val (i, .l3e q)))) k b)).modInode i fun y => { y with blocks := succ32 y.blocks } := by
  have hlba : ∀ a, x.lba a = u.lba a := fun a => by simp only [Volume.lba, h.ofsDregion]
  have hval : x.val (i, .l3e q) = u.val (i, .l3e q) := by
    simp only [Volume.val, Volume.entry, h.l3, hlba]
    rw [h.disk _ hne]
  unfold Volume.put Volume.putEntry Volume.setEntry
  simp only [Ref.parent, Ref.slot, hval, hlba]
  rfl

/-- The block taken for entry `q` of the block of `l3` at its start, in the buffer and on the device. -/
theorem level3_start {L q start : Nat} {buf buf₁ : Block} {v₁ : Volume} (hL : v.lba (v.inode i).l3 = L)
    (h : (if start = 0 then do
        let (b, v) ← v.getFreeDblock
        .ok (setPointer buf q b, v)
      else .ok (buf, v) : M (Block × Volume)) = .ok (buf₁, v₁)) :
    Puts i (if start = 0 then [.l3e q] else []) (v.writeBlock L buf) (v₁.writeBlock L buf₁) ∧
      v₁.inode = v.inode ∧ v₁.cached.sbi.ofsDregion = v.cached.sbi.ofsDregion := by
  split at h
  case isFalse hs =>
    cases h
    rw [if_neg hs]
    exact ⟨.nil _, rfl, rfl⟩
  case isTrue hs =>
    obtain ⟨⟨b, v'⟩, hb, h⟩ := ExceptLib.bind_eq_ok.mp h
    cases h
    obtain ⟨hin, _, _, k, hk⟩ := getFreeDblock_frame hb
    rw [if_pos hs]
    refine ⟨.cons (take_writeBlock hb L buf) ?_, hin, by rw [hk]⟩
    have hL' : (v₁.writeBlock L buf).lba ((v₁.writeBlock L buf).inode i).l3 = L := by
      have h1 : ((v₁.writeBlock L buf).inode i).l3 = (v.inode i).l3 := congrArg (fun f => (f i).l3) hin
      have h2 : (v₁.writeBlock L buf).cached.sbi.ofsDregion = v.cached.sbi.ofsDregion := by
        rw [writeBlock_cached, hk]
      exact (lba_congr h2 h1).trans hL
    rw [put_l3e hL', writeBlock_disk_self, writeBlock_writeBlock]
    exact .nil _

/-- The loop of level 3, from entry `q` of the block of `l3` on. The buffer `buf` stands for that block, at `L`. -/
theorem allocLevel3_puts {fuel q start L : Nat} {buf buf' : Block} (hfuel : fuel = 1024 - q) (hs : start < 1024)
    (hq : q ≤ 1024) (h : allocLevel3 v.cached.sbi.ofsDregion i fuel q start n buf v = .ok (m, buf', w))
    (hL : v.lba (v.inode i).l3 = L) (ho : (v.writeBlock L buf).Owns B R) (hl3 : (i, .l3) ∈ R)
    (hstart : start ≠ 0 → (i, .l3e q) ∈ R)
    (hf : FreshRefs i R (refs3 (5169 + 1024 * q + start) (min n (level3Limit - (5169 + 1024 * q + start)))))
    (hroom : (refs3 (5169 + 1024 * q + start) (min n (level3Limit - (5169 + 1024 * q + start)))).length ≤ v.room B) :
    m = n - (level3Limit - (5169 + 1024 * q + start)) ∧
      Puts i (refs3 (5169 + 1024 * q + start) (min n (level3Limit - (5169 + 1024 * q + start)))) (v.writeBlock L buf)
        (w.writeBlock L buf') := by
  have hlim : level3Limit = 1053745 := rfl
  induction fuel generalizing q start n v R buf with
  | zero =>
    cases h
    rw [show level3Limit - (5169 + 1024 * q + start) = 0 by omega, Nat.min_zero, refs3_zero]
    exact ⟨rfl, .nil _⟩
  | succ fuel ih =>
    unfold allocLevel3 at h
    split at h
    case isTrue hn =>
      cases h
      subst hn
      rw [Nat.zero_min, refs3_zero]
      exact ⟨by omega, .nil _⟩
    case isFalse hn =>
      obtain ⟨⟨buf₁, v₁⟩, h₁, h⟩ := ExceptLib.bind_eq_ok.mp h
      obtain ⟨⟨n', p, v₂⟩, h₂, h⟩ := ExceptLib.bind_eq_ok.mp h
      dsimp only at h h₂
      -- the references of this pointer block, then the others
      obtain ⟨c, hc, hc0, hc1⟩ : ∃ c, c = min n (1024 - start) ∧ 0 < c ∧ start + c ≤ 1024 := ⟨_, rfl, by omega, by omega⟩
      have hsplit : refs3 (5169 + 1024 * q + start) (min n (level3Limit - (5169 + 1024 * q + start))) =
          ((if start = 0 then [.l3e q] else []) ++ (List.range' start c).map (Ref.l3d q)) ++
            refs3 (5169 + 1024 * q + (start + c)) (min (n - c) (level3Limit - (5169 + 1024 * q + (start + c)))) := by
        rw [← refs3_split hc0 hc1]
        congr 1
        omega
      rw [hsplit] at hf hroom ⊢
      rw [List.length_append, List.length_append] at hroom
      have hroomL : (v.writeBlock L buf).room B = v.room B := rfl
      obtain ⟨hp₁, hin₁, hofs₁⟩ := level3_start hL h₁
      have hg₁ := hp₁.grown ho hf.left.left (by omega)
      have hin : (i, Ref.l3e q) ∈ addRefs R i (if start = 0 then [.l3e q] else []) := by
        by_cases h0 : start = 0
        · exact Or.inr ⟨rfl, by rw [if_pos h0]; exact List.mem_singleton_self _⟩
        · exact Or.inl (hstart h0)
      -- the block listed at entry `q` is not the block of `l3`
      have hL₁ : (v₁.writeBlock L buf₁).lba ((v₁.writeBlock L buf₁).inode i).l3 = L := by
        have h1 : ((v₁.writeBlock L buf₁).inode i).l3 = (v.inode i).l3 := congrArg (fun f => (f i).l3) hin₁
        exact (lba_congr hofs₁ h1).trans hL
      have hval : (v₁.writeBlock L buf₁).val (i, .l3e q) = pointer buf₁ q := by
        simp only [Volume.val, Volume.entry, hL₁, writeBlock_disk_self]
      have hlt : pointer buf₁ q < B := hval ▸ hg₁.owns.owned.lt _ hin
      have hlba : v.cached.sbi.ofsDregion + pointer buf₁ q = (v₁.writeBlock L buf₁).lba (pointer buf₁ q) := by
        rw [lba_of_lt hg₁.owns.addr hlt]
        exact congrArg (· + pointer buf₁ q) hofs₁.symm
      have hne : L ≠ (v₁.writeBlock L buf₁).lba (pointer buf₁ q) := by
        intro he
        rw [← hL₁, ← hval] at he
        have hl3lt : ((v₁.writeBlock L buf₁).inode i).l3 < B := hg₁.owns.owned.lt (i, .l3) (Or.inl hl3)
        have heq := lba_inj hg₁.owns.addr hl3lt (hval ▸ hlt) he
        have := hg₁.owns.owned.inj (i, .l3) (i, .l3e q) (Or.inl hl3) hin heq
        simp at this
      rw [hlba] at h h₂
      obtain ⟨P, hP⟩ : ∃ P, (v₁.writeBlock L buf₁).lba (pointer buf₁ q) = P := ⟨_, rfl⟩
      rw [hP] at h h₂ hne
      have hP' : (v₁.writeBlock L buf₁).lba ((v₁.writeBlock L buf₁).val (i, .l3e q)) = P := by rw [hval, hP]
      have hdisk : (v₁.writeBlock L buf₁).disk P = v₁.disk P := writeBlock_disk_of_ne _ _ _ hne.symm
      rw [← hdisk] at h₂
      obtain ⟨hn', hp₂⟩ := fillPointers_puts (e := Ref.l3d q) (L := P) (u := v₁.writeBlock L buf₁)
        (fun x b k hx => by subst hP'; exact put_l3d hx (by rw [hL₁]; exact hne) b k)
        ⟨rfl, rfl, rfl, fun _ _ => rfl⟩ (fillPointers_writeBlock h₂ L buf₁)
      rw [writeBlock_self, ← hc, writeBlock_comm _ hne] at hp₂
      have hp := hp₁.append hp₂
      have hg := hp.grown ho hf.left (by rw [List.length_append]; omega)
      have hn'c : n' = n - c := by omega
      subst hn'c
      have hofs : v.cached.sbi.ofsDregion = (v₂.writeBlock P p).cached.sbi.ofsDregion := hg.ofsDregion.symm
      rw [hofs] at h
      have hl3same : ((v₂.writeBlock P p).inode i).l3 = (v.inode i).l3 := hg.val _ hl3
      have hL₂ : (v₂.writeBlock P p).lba ((v₂.writeBlock P p).inode i).l3 = L :=
        (lba_congr hofs.symm hl3same).trans hL
      by_cases hrest : n = c
      · -- nothing is left for the next pointer block
        subst hrest
        rw [Nat.sub_self] at h ⊢
        rw [Nat.zero_min, refs3_zero, List.append_nil]
        have hend : m = 0 ∧ buf' = buf₁ ∧ w = v₂.writeBlock P p := by
          cases fuel with
          | zero => cases h; exact ⟨rfl, rfl, rfl⟩
          | succ fuel =>
            unfold allocLevel3 at h
            rw [if_pos rfl] at h
            cases h
            exact ⟨rfl, rfl, rfl⟩
        obtain ⟨rfl, rfl, rfl⟩ := hend
        exact ⟨by omega, hp⟩
      · have hcs : start + c = 1024 := by omega
        have hnext : 5169 + 1024 * q + (start + c) = 5169 + 1024 * (q + 1) + 0 := by omega
        have hr : (v₂.writeBlock P p).room B + _ = v.room B := hg.room
        rw [hnext] at hf hroom ⊢
        rw [List.length_append] at hr
        obtain ⟨hm, hp₃⟩ := ih (by omega) (by omega) (by omega) h hL₂ hg.owns (Or.inl hl3) (fun h0 => absurd rfl h0)
          hf.right (by omega)
        exact ⟨by omega, hp.append hp₃⟩

/-! ## `__alloc_block` -/

/-- The references that `__alloc_block` gives blocks to, for an inode with `b` blocks that needs `n`: those of the data
blocks, and `l3` when nothing is needed right behind level 2. -/
def newRefs (b n : Nat) : List Ref := if b = level2Limit ∧ n = 0 then [.l3] else refs b n

theorem newRefs_spare : newRefs level2Limit 0 = [.l3] := rfl

theorem newRefs_of_ne (h : b ≠ level2Limit ∨ n ≠ 0) : newRefs b n = refs b n := by
  unfold newRefs
  rw [if_neg fun h' => h.elim (fun hb => hb h'.1) fun hn => hn h'.2]

/-- They are as many data blocks as are needed. -/
theorem newRefs_weight (b n : Nat) : ((newRefs b n).map Ref.weight).sum = n := by
  unfold newRefs
  split
  case isTrue h =>
    rw [h.2]
    rfl
  case isFalse => exact refs_weight b n

theorem mem_newRefs {r : Ref} (h : r ∈ refs b n) : r ∈ newRefs b n := by
  rw [newRefs_of_ne]
  · exact h
  · refine Or.inr ?_
    rintro rfl
    cases h

/-- They are new to an inode with `b` blocks, parents first. -/
theorem fresh_newRefs (h : b + n ≤ level3Limit) (hR : ∀ r, (i, r) ∈ R ↔ r.Used b) : FreshRefs i R (newRefs b n) := by
  by_cases hs : b = level2Limit ∧ n = 0
  · obtain ⟨rfl, rfl⟩ := hs
    rw [newRefs_spare]
    refine .cons (fun hr => ?_) (fun s hs => by cases hs) (.nil _)
    exact Nat.lt_irrefl _ ((hR _).mp hr).2
  · rw [newRefs_of_ne (by omega)]
    exact fresh_refs h hR

/-- The blocks that an inode has after it has been given those from `b` on. -/
theorem Puts.blocks {c : Nat} (h : Puts i (refs b c) v w) (hb : (v.inode i).blocks = b) (hc : b + c ≤ level3Limit) :
    (w.inode i).blocks = b + c := by
  have hlim : level3Limit = 1053745 := rfl
  have hf := h.frame
  rw [refs_weight] at hf
  rw [hf.blocks (by omega), hb]

/-- An inode with `b` blocks uses the references of `c` more. -/
theorem used_addRefs {c : Nat} (hc : b + c ≤ level3Limit) (hR : ∀ r, (i, r) ∈ R ↔ r.Used b) (r : Ref) :
    (i, r) ∈ addRefs R i (refs b c) ↔ r.Used (b + c) := by
  simp only [addRefs, Set.mem_ofPred_eq, hR, true_and, mem_refs hc, Ref.Used]
  constructor
  · rintro (⟨hv, hlt⟩ | ⟨hv, _, hlt⟩)
    · exact ⟨hv, by omega⟩
    · exact ⟨hv, hlt⟩
  · rintro ⟨hv, hlt⟩
    by_cases hb : r.first < b
    · exact Or.inl ⟨hv, hb⟩
    · exact Or.inr ⟨hv, by omega, hlt⟩

/-- The block taken for `l3` at the start of level 3. -/
theorem fromLevel3_start {k : Nat} {v₁ : Volume} (h : (if k = 0 then do
        let (b, v) ← v.getFreeDblock
        .ok (v.modInode i fun x => { x with l3 := b })
      else .ok v : M Volume) = .ok v₁) :
    (k = 0 ∧ ∃ b v', v.getFreeDblock = .ok (b, v') ∧ v₁ = v'.put i .l3 b) ∨ (k ≠ 0 ∧ v₁ = v) := by
  split at h
  case isFalse hk =>
    cases h
    exact Or.inr ⟨hk, rfl⟩
  case isTrue hk =>
    obtain ⟨⟨b, v'⟩, hb, h⟩ := ExceptLib.bind_eq_ok.mp h
    cases h
    exact Or.inl ⟨hk, b, v', hb, rfl⟩

section

variable {r : Nat} (hb : (v.inode i).blocks = b) (ho : v.Owns B R) (hR : ∀ r, (i, r) ∈ R ↔ r.Used b)
  (hroom : (refs b (min n (level3Limit - b))).length ≤ v.room B)

include hb ho hR hroom in
/-- From level 3 on, with something to allocate. -/
theorem allocFromLevel3_puts (h : allocFromLevel3 v.cached.sbi.ofsDregion i n v = .ok (r, w)) (hlo : 5169 ≤ b)
    (hhi : b ≤ level3Limit) (hn : n ≠ 0) : Puts i (refs b (min n (level3Limit - b))) v w := by
  have hlim : level3Limit = 1053745 := rfl
  have h2 : level2Limit = 5169 := rfl
  have hp : pointerPerBlock = 1024 := rfl
  unfold allocFromLevel3 at h
  obtain ⟨v₁, h₁, h⟩ := ExceptLib.bind_eq_ok.mp h
  obtain ⟨⟨m, buf, v₂⟩, h₂, h⟩ := ExceptLib.bind_eq_ok.mp h
  cases h
  rw [hb, h2] at h₁
  rw [hb, h2, hp] at h₂
  obtain ⟨q, start, hs, rfl⟩ : ∃ q start, start < 1024 ∧ b = 5169 + 1024 * q + start :=
    ⟨(b - 5169) / 1024, (b - 5169) % 1024, by omega, by omega⟩
  rw [show (5169 + 1024 * q + start - 5169) / 1024 % 65536 = q by omega,
    show (5169 + 1024 * q + start - 5169) % 1024 = start by omega] at h₂
  have hlist : refs (5169 + 1024 * q + start) (min n (level3Limit - (5169 + 1024 * q + start))) =
      (if 5169 + 1024 * q + start - 5169 = 0 then [.l3] else []) ++
        refs3 (5169 + 1024 * q + start) (min n (level3Limit - (5169 + 1024 * q + start))) := by
    unfold refs3
    by_cases h0 : 5169 + 1024 * q + start = 5169
    · rw [if_pos (by omega), if_pos h0, h0]
      obtain ⟨c, hc⟩ : ∃ c, min n (level3Limit - 5169) = c + 1 := ⟨min n (level3Limit - 5169) - 1, by omega⟩
      rw [hc]
      rfl
    · rw [if_neg (by omega), if_neg h0]
      rfl
  have hf := fresh_refs (i := i) (R := R) (b := 5169 + 1024 * q + start)
    (c := min n (level3Limit - (5169 + 1024 * q + start))) (by omega) hR
  rw [hlist] at hf hroom ⊢
  rw [List.length_append] at hroom
  have hp₁ : Puts i (if 5169 + 1024 * q + start - 5169 = 0 then [.l3] else []) v v₁ := by
    rcases fromLevel3_start h₁ with ⟨h0, b, v', hb', rfl⟩ | ⟨h0, rfl⟩
    · rw [if_pos h0]
      exact .cons hb' (.nil _)
    · rw [if_neg h0]
      exact .nil _
  have hg₁ := hp₁.grown ho hf.left (by omega)
  have hl3 : (i, Ref.l3) ∈ addRefs R i (if 5169 + 1024 * q + start - 5169 = 0 then [.l3] else []) := by
    by_cases h0 : 5169 + 1024 * q + start - 5169 = 0
    · exact Or.inr ⟨rfl, by rw [if_pos h0]; exact List.mem_singleton_self _⟩
    · exact Or.inl ((hR _).mpr ⟨trivial, by simp only [Ref.first]; omega⟩)
  have hstart : start ≠ 0 →
      (i, Ref.l3e q) ∈ addRefs R i (if 5169 + 1024 * q + start - 5169 = 0 then [.l3] else []) := fun h0 =>
    Or.inl ((hR _).mpr ⟨by simp only [Ref.Valid]; omega, by simp only [Ref.first]; omega⟩)
  have hl3lt : (v₁.inode i).l3 < B := hg₁.owns.owned.lt _ hl3
  have hlba : v.cached.sbi.ofsDregion + (v₁.inode i).l3 = v₁.lba (v₁.inode i).l3 := by
    rw [lba_of_lt hg₁.owns.addr hl3lt, hg₁.ofsDregion]
  rw [hlba, ← hg₁.ofsDregion] at h₂
  rw [hlba]
  have hr := hg₁.room
  obtain ⟨_, hp₂⟩ := allocLevel3_puts rfl hs (by omega) h₂ rfl (by rw [writeBlock_self]; exact hg₁.owns) hl3 hstart
    hf.right (by omega)
  rw [writeBlock_self] at hp₂
  exact hp₁.append hp₂

/-- From level 3 on, with nothing to allocate: right behind level 2 a block is given to `l3` all the same. -/
theorem allocFromLevel3_zero {ofs : Nat} (h : allocFromLevel3 ofs i 0 v = .ok (r, w)) :
    (level2Limit < (v.inode i).blocks ∧ w = v) ∨
      (v.inode i).blocks ≤ level2Limit ∧ ∃ b v', v.getFreeDblock = .ok (b, v') ∧ w = v'.put i .l3 b := by
  unfold allocFromLevel3 at h
  obtain ⟨v₁, h₁, h⟩ := ExceptLib.bind_eq_ok.mp h
  obtain ⟨⟨m, buf, v₂⟩, h₂, h⟩ := ExceptLib.bind_eq_ok.mp h
  cases h
  have hnone : buf = v₁.disk (ofs + (v₁.inode i).l3) ∧ v₂ = v₁ := by
    generalize pointerPerBlock - _ = fuel at h₂
    cases fuel with
    | zero => cases h₂; exact ⟨rfl, rfl⟩
    | succ fuel =>
      unfold allocLevel3 at h₂
      rw [if_pos rfl] at h₂
      cases h₂
      exact ⟨rfl, rfl⟩
  obtain ⟨rfl, rfl⟩ := hnone
  rw [writeBlock_self]
  rcases fromLevel3_start h₁ with ⟨h0, ha⟩ | ⟨h0, he⟩
  · exact Or.inr ⟨by omega, ha⟩
  · exact Or.inl ⟨by omega, he⟩

/-- With nothing to be allocated, and not right behind level 2, nothing changes. -/
theorem allocBlock_none {ofs : Nat} (hb : (v.inode i).blocks ≠ level2Limit)
    (h : allocBlock ofs i 0 v = .ok (r, w)) : w = v := by
  have h2 : level2Limit = 5169 := rfl
  have h1 : level1Limit = 49 := rfl
  have hp : pointerPerBlock = 1024 := rfl
  unfold allocBlock at h
  obtain ⟨x, hx, h⟩ := ExceptLib.bind_eq_ok.mp h
  obtain ⟨_, rfl⟩ := (inodeAt_eq_ok _ _).mp hx
  split at h
  case isTrue hlo =>
    rcases allocFromLevel3_zero h with ⟨_, rfl⟩ | ⟨hle, _⟩
    · rfl
    · omega
  case isFalse hlt =>
  split at h
  case isTrue hlo =>
    rw [h1] at hlo
    obtain ⟨fuel, hfuel⟩ : ∃ fuel, 5 - ((v.inode i).blocks - 49) / 1024 = fuel + 1 :=
      ⟨4 - ((v.inode i).blocks - 49) / 1024, by omega⟩
    unfold allocFromLevel2 at h
    dsimp only at h
    rw [h1, hp, hfuel] at h
    unfold allocLevel2 at h
    cases h
    rfl
  case isFalse =>
    cases h
    rfl

include hb ho hR hroom in
/-- From level 2 on. -/
theorem allocFromLevel2_puts (h : allocFromLevel2 v.cached.sbi.ofsDregion i n v = .ok (r, w)) (hlo : 49 ≤ b)
    (hhi : b < 5169) : Puts i (refs b (min n (level3Limit - b))) v w := by
  have hlim : level3Limit = 1053745 := rfl
  have h1 : level1Limit = 49 := rfl
  have hp : pointerPerBlock = 1024 := rfl
  unfold allocFromLevel2 at h
  obtain ⟨⟨m, v₁⟩, h₁, h⟩ := ExceptLib.bind_eq_ok.mp h
  dsimp only at h h₁
  rw [hb, h1, hp] at h₁
  obtain ⟨j, start, hs, hbj⟩ : ∃ j start, start < 1024 ∧ b = 49 + 1024 * j + start :=
    ⟨(b - 49) / 1024, (b - 49) % 1024, by omega, by omega⟩
  rw [show (b - 49) / 1024 = j by omega, show (b - 49) % 1024 = start by omega] at h₁
  have hf := fresh_refs (i := i) (R := R) (b := b) (c := min n (level3Limit - b)) (by omega) hR
  have hsplit : refs b (min n (level3Limit - b)) =
      refs b (min n (5169 - b)) ++ refs (b + min n (5169 - b)) (min (n - (5169 - b)) (level3Limit - 5169)) := by
    rw [← refs_add]
    congr 1
    omega
  rw [hsplit] at hf hroom
  rw [List.length_append] at hroom
  have hstart : start ≠ 0 → (i, Ref.l2 j) ∈ R := fun h0 =>
    (hR _).mpr ⟨by simp only [Ref.Valid]; omega, by simp only [Ref.first]; omega⟩
  obtain ⟨hm, hp₁⟩ := allocLevel2_puts rfl hs (by omega) h₁ ho hstart (by rw [← hbj]; exact hf.left)
    (by rw [← hbj]; omega)
  rw [← hbj] at hm hp₁
  have hg₁ := hp₁.grown ho hf.left (by omega)
  split at h
  case isTrue h0 =>
    cases h
    rw [hsplit, show n - (5169 - b) = 0 by omega, Nat.zero_min, refs, List.append_nil]
    exact hp₁
  case isFalse h0 =>
    have hc : min n (5169 - b) = 5169 - b := by omega
    have hb₁ : (v₁.inode i).blocks = 5169 := by
      rw [hp₁.blocks hb (by omega)]
      omega
    have hr := hg₁.room
    rw [← hg₁.ofsDregion] at h
    rw [hsplit]
    rw [hc, show b + (5169 - b) = 5169 by omega] at hroom ⊢
    rw [hc] at hr hp₁ hg₁
    subst hm
    refine hp₁.append (allocFromLevel3_puts hb₁ hg₁.owns (fun s => ?_) (by omega) h (Nat.le_refl _) (by omega) h0)
    rw [used_addRefs (by omega) hR, show b + (5169 - b) = 5169 by omega]

include hb ho hR hroom in
/-- **`__alloc_block`** gives blocks to the references of the data blocks it is asked for, as far as the map reaches. -/
theorem allocBlock_puts (h : allocBlock v.cached.sbi.ofsDregion i n v = .ok (r, w)) (hhi : b ≤ level3Limit) :
    Puts i (newRefs b (min n (level3Limit - b))) v w := by
  have hlim : level3Limit = 1053745 := rfl
  have h2 : level2Limit = 5169 := rfl
  have h1 : level1Limit = 49 := rfl
  unfold allocBlock at h
  obtain ⟨x, hx, h⟩ := ExceptLib.bind_eq_ok.mp h
  obtain ⟨_, rfl⟩ := (inodeAt_eq_ok _ _).mp hx
  rw [hb] at h
  split at h
  case isTrue hlo =>
    by_cases hn : n = 0
    · subst hn
      rw [Nat.zero_min]
      rcases allocFromLevel3_zero h with ⟨hlt, rfl⟩ | ⟨hle, a, v', ht, rfl⟩
      · rw [newRefs_of_ne (Or.inl (by omega))]
        exact .nil _
      · rw [show b = level2Limit by omega, newRefs_spare]
        exact .cons ht (.nil _)
    · rw [newRefs_of_ne (by omega)]
      exact allocFromLevel3_puts hb ho hR hroom h (by omega) hhi hn
  case isFalse hlt =>
  split at h
  case isTrue hlo =>
    rw [newRefs_of_ne (Or.inl (by omega))]
    exact allocFromLevel2_puts hb ho hR hroom h (by omega) (by omega)
  case isFalse hlt1 =>
  obtain ⟨⟨m, v₁⟩, h₁, h⟩ := ExceptLib.bind_eq_ok.mp h
  dsimp only at h
  obtain ⟨hm, hp₁⟩ := allocLevel1_puts h₁
  rw [newRefs_of_ne (Or.inl (by omega))]
  have hf := fresh_refs (i := i) (R := R) (b := b) (c := min n (level3Limit - b)) (by omega) hR
  have hsplit : refs b (min n (level3Limit - b)) =
      refs b (min n (49 - b)) ++ refs (b + min n (49 - b)) (min (n - (49 - b)) (level3Limit - 49)) := by
    rw [← refs_add]
    congr 1
    omega
  rw [hsplit] at hf hroom
  rw [List.length_append] at hroom
  have hg₁ := hp₁.grown ho hf.left (by omega)
  split at h
  case isTrue h0 =>
    cases h
    rw [hsplit, show n - (49 - b) = 0 by omega, Nat.zero_min, refs, List.append_nil]
    exact hp₁
  case isFalse h0 =>
    have hc : min n (49 - b) = 49 - b := by omega
    have hb₁ : (v₁.inode i).blocks = 49 := by
      rw [hp₁.blocks hb (by omega)]
      omega
    have hr := hg₁.room
    rw [← hg₁.ofsDregion] at h
    rw [hsplit]
    rw [hc, show b + (49 - b) = 49 by omega] at hroom ⊢
    rw [hc] at hr hp₁ hg₁
    subst hm
    refine hp₁.append (allocFromLevel2_puts hb₁ hg₁.owns (fun s => ?_) (by omega) h (Nat.le_refl _) (by omega))
    rw [used_addRefs (by omega) hR, show b + (49 - b) = 49 by omega]

end

end Vsfs
