import Vsfs.Lib.GuardedRun
import Vsfs.Lib.NumberPool
import Vsfs.Model.Bitmap

/-!
# The bitmap primitives and the set that they stand for

A bitmap stands for the set of its free numbers. Number 0 is never free, and stands for "none". `get_first_free_bit`
takes the least number of the set within its reach, and `put_free_bit` puts one back; `get_free_inode` and `put_inode`
keep the counter of the superblock beside them.

- `getFirstFreeBit_spec`: the scan of an array that is as long as the call says;
- `InodeStep.pool`: `get_free_inode` and `put_inode` are steps of a pool of numbers;
- `Pooled`: the invariant of a run of the two, the counter included.
-/

set_option autoImplicit false

namespace Vsfs

open WordBits NumberPool GuardedRun

variable {c c' c₀ : Cached} {i : Nat} {held l : List Nat}

/-! ## One scan -/

/-- **The scan of `get_first_free_bit`**, inside the array. -/
theorem getFirstFreeBit_spec {len size : Nat} {m : Words} (hlen : len ≤ 2 ^ 27) (h0 : bit m 0 = false)
    (hsize : size / 4 ≤ len) :
    (∃ i, i ≠ 0 ∧ i < 2 ^ 32 ∧ Least m (32 * (size / 4)) i ∧ getFirstFreeBit len m size = .ok (i, clear m i)) ∨
      ((∀ i, i < 32 * (size / 4) → bit m i = false) ∧ getFirstFreeBit len m size = .ok (0, m)) := by
  have hmod : size / 4 % 2 ^ 32 = size / 4 := Nat.mod_eq_of_lt (by omega)
  unfold getFirstFreeBit
  rw [hmod]
  rcases scanWords_cases len m (size / 4) 0 (by simp) with ⟨i, hl, hr⟩ | ⟨hz, _, hr⟩ | ⟨_, hlt, _⟩
  · rw [Nat.zero_add, Nat.min_eq_left hsize] at hl
    have hlt : i < 2 ^ 32 := by
      have := hl.lt
      omega
    refine Or.inl ⟨i, ?_, hlt, hl, ?_⟩
    · rintro rfl
      have hb := hl.bit
      rw [h0] at hb
      contradiction
    · rw [hr, Nat.mod_eq_of_lt hlt]
  · rw [Nat.zero_add] at hz
    exact Or.inr ⟨fun i hi => bit_eq_false_of_words hz hi, hr⟩
  · omega

/-- The set that a bitmap stands for. -/
def freeSet (m : Words) : Set Nat := {i | bit m i = true}

@[simp] theorem mem_freeSet {m : Words} : i ∈ freeSet m ↔ bit m i = true := Iff.rfl

theorem freeSet_clear (m : Words) (i : Nat) : freeSet (clear m i) = freeSet m \ {i} := by
  ext j
  simp

theorem freeSet_set (m : Words) (i : Nat) : freeSet (set m i) = insert i (freeSet m) := by
  ext j
  simp [or_comm]

theorem isLeast_of_least {m : Words} {n : Nat} (h : Least m n i) : IsLeast (freeSet m) i := by
  refine ⟨h.bit, fun j hj => ?_⟩
  by_contra hlt
  have hlow := h.low j (Nat.not_le.mp hlt)
  rw [mem_freeSet.mp hj] at hlow
  contradiction

/-- `get_free_inode` takes the least free number in reach, or finds none there and changes nothing. -/
theorem getFreeInode_cases (h0 : bit c.ibitmap 0 = false)
    (hsize : blockSize * c.sbi.nrIbitmapBlocks % 2 ^ 32 / 4 ≤ nrInodes / 32) :
    (∃ i, i ≠ 0 ∧ Least c.ibitmap (ibitmapBits c.sbi) i ∧ getFreeInode c = .ok (i, c.takeInode i)) ∨
      ((∀ i, i < ibitmapBits c.sbi → bit c.ibitmap i = false) ∧ getFreeInode c = .ok (0, c)) := by
  have hn : nrInodes = 32768 := rfl
  have hbits : ibitmapBits c.sbi = 32 * (blockSize * c.sbi.nrIbitmapBlocks % 2 ^ 32 / 4) := by
    unfold ibitmapBits
    rw [Nat.min_eq_left]
    · rw [Nat.mod_eq_of_lt]
      omega
    · exact (Nat.mod_le _ _).trans hsize
  rw [hbits]
  unfold getFreeInode
  rcases getFirstFreeBit_spec (by omega) h0 hsize with ⟨i, hi, _, hl, hr⟩ | ⟨hz, hr⟩
  · refine Or.inl ⟨i, hi, hl, ?_⟩
    rw [hr, ExceptLib.ok_bind]
    simp [hi, Cached.takeInode]
  · refine Or.inr ⟨hz, ?_⟩
    rw [hr, ExceptLib.ok_bind]
    simp

/-! ## Runs of the two inode calls -/

/-- The bitmap of a process that holds the inode numbers of a list, as a pool. -/
def inodePool (s : Cached × List Nat) : Pool Nat := ⟨freeSet s.1.ibitmap, s.2⟩

/-- A call of `get_free_inode` or `put_inode`, with the list of the inode numbers that are held. -/
inductive InodeStep : NumberPool.Call Nat → Cached × List Nat → Cached × List Nat → Prop
  | get {c c' : Cached} {held : List Nat} {i : Nat} (h : getFreeInode c = .ok (i, c')) :
      InodeStep .take (c, held) (c', if i = 0 then held else i :: held)
  | put {c c' : Cached} {held : List Nat} {i : Nat} (h : putInode c i = .ok c') :
      InodeStep (.put i) (c, held) (c', held.erase i)

/-- The states of a run from `c₀` that puts only held numbers back. -/
def InodeRun (c₀ : Cached) : Cached × List Nat → Prop :=
  Run InodeStep (fun k s => ∀ i, k = .put i → i ∈ s.2) (c₀, [])

/-- The calls of `put_inode` for the numbers of a list. -/
def putInodes (l : List Nat) (c : Cached) : M Cached := l.foldlM putInode c

/-- What holds in every state of such a run. -/
structure Pooled (c₀ : Cached) (s : Cached × List Nat) : Prop where
  split : Split (freeSet c₀.ibitmap) (inodePool s)
  held : ∀ i, i ∈ s.2 → i ≠ 0 ∧ i < nrInodes
  rest : ∃ m n, s.1 = { c₀ with ibitmap := m, sbi := { c₀.sbi with nrFreeInodes := n } }
  count : s.1.sbi.nrFreeInodes = (freeBelow s.1.ibitmap nrInodes).card

/-- The bitmap before a run: number 0 is in use, the scan stays inside the array, and the free numbers are counted. -/
structure InodesCounted (c : Cached) : Prop where
  used : bit c.ibitmap 0 = false
  inside : blockSize * c.sbi.nrIbitmapBlocks % 2 ^ 32 / 4 ≤ nrInodes / 32
  count : c.sbi.nrFreeInodes = (freeBelow c.ibitmap nrInodes).card

theorem ibitmapBits_le (s : SbInfo) : ibitmapBits s ≤ nrInodes := by
  have hn : nrInodes = 32768 := rfl
  have hmin := Nat.min_le_right (blockSize * s.nrIbitmapBlocks % 2 ^ 32 / 4 % 2 ^ 32) (nrInodes / 32)
  unfold ibitmapBits
  omega

/-- **A call is a step of the pool.** -/
theorem InodeStep.pool {k : NumberPool.Call Nat} {t : Cached × List Nat} (hc : InodesCounted c)
    (hs : InodeStep k (c, held) t) :
    NumberPool.Step {i | i < ibitmapBits c.sbi} k (inodePool (c, held)) (inodePool t) := by
  cases hs with
  | get hget =>
    rcases getFreeInode_cases hc.used hc.inside with ⟨i, hi, hl, hget'⟩ | ⟨hz, hget'⟩
    · rw [hget'] at hget
      cases hget
      have hstep : NumberPool.Step {i | i < ibitmapBits c.sbi} .take (inodePool (c, held)) _ :=
        NumberPool.Step.take _ hl.lt (isLeast_of_least hl)
      rw [if_neg hi]
      rwa [show (inodePool (c, held)).free = freeSet c.ibitmap from rfl, ← freeSet_clear] at hstep
    · rw [hget'] at hget
      cases hget
      refine .empty fun i hi hlt => ?_
      have hb : bit c.ibitmap i = true := hi
      rw [hz i hlt] at hb
      contradiction
  | @put _ c' _ i hput =>
    obtain ⟨m, hm, hput⟩ := ExceptLib.bind_eq_ok.mp hput
    cases hput
    unfold putFreeBit at hm
    split at hm
    case isTrue =>
      cases hm
      have hstep : NumberPool.Step {i | i < ibitmapBits c.sbi} (.put i) (inodePool (c, held)) _ := NumberPool.Step.put i
      rwa [show (inodePool (c, held)).free = freeSet c.ibitmap from rfl, ← freeSet_set] at hstep
    case isFalse => cases hm

namespace Pooled

theorem start (h : InodesCounted c) : Pooled c (c, []) where
  split := split_start _
  held := by simp
  rest := ⟨c.ibitmap, c.sbi.nrFreeInodes, rfl⟩
  count := h.count

/-- A state of a run can be the start of one. -/
theorem counted (hc : InodesCounted c₀) (h : Pooled c₀ (c, held)) : InodesCounted c where
  used := by
    by_contra hb
    rw [Bool.not_eq_false] at hb
    have hfree := ((h.split.free 0).mp hb).1
    rw [mem_freeSet, hc.used] at hfree
    contradiction
  inside := by
    obtain ⟨m, n, hcn⟩ := h.rest
    dsimp only at hcn
    rw [hcn]
    exact hc.inside
  count := h.count

/-- **`get_free_inode`** is a step of the pool. -/
theorem get (hc : InodesCounted c₀) (h : Pooled c₀ (c, held)) :
    (∃ i, getFreeInode c = .ok (i, c.takeInode i) ∧ i ≠ 0 ∧ i ∉ held ∧
        (c.takeInode i).sbi.nrFreeInodes + 1 = c.sbi.nrFreeInodes ∧ Pooled c₀ (c.takeInode i, i :: held)) ∨
      getFreeInode c = .ok (0, c) := by
  have hcount := counted hc h
  rcases getFreeInode_cases hcount.used hcount.inside with ⟨i, hi, hl, hget⟩ | ⟨_, hget⟩
  swap
  · exact Or.inr hget
  have hlt : i < nrInodes := hl.lt.trans_le (ibitmapBits_le _)
  have hcard := card_freeBelow_clear hlt hl.bit
  have hn : c.sbi.nrFreeInodes = (freeBelow c.ibitmap nrInodes).card := h.count
  have hpred : pred32 c.sbi.nrFreeInodes = (freeBelow (clear c.ibitmap i) nrInodes).card := by
    rw [pred32_of_pos (by omega)]
    omega
  refine Or.inl ⟨i, hget, hi, ((h.split.free i).mp hl.bit).2, ?_, ?_⟩
  · show pred32 c.sbi.nrFreeInodes + 1 = _
    omega
  · refine ⟨?_, ?_, ?_, hpred⟩
    · have hgot : InodeStep .take (c, held) (_, if i = 0 then held else i :: held) := .get hget
      have hstep := hgot.pool hcount
      rw [if_neg hi] at hstep
      exact hstep.split trivial h.split
    · intro j hj
      rcases List.mem_cons.mp hj with rfl | hj
      · exact ⟨hi, hlt⟩
      · exact h.held j hj
    · obtain ⟨m, n, hcn⟩ := h.rest
      dsimp only at hcn
      subst hcn
      exact ⟨_, _, rfl⟩

/-- **`put_inode`** of a held number is a step of the pool. -/
theorem put (hc : InodesCounted c₀) (h : Pooled c₀ (c, held)) (hi : i ∈ held) :
    ∃ c', putInode c i = .ok c' ∧ c'.sbi.nrFreeInodes = c.sbi.nrFreeInodes + 1 ∧ Pooled c₀ (c', held.erase i) := by
  have hn : nrInodes = 32768 := rfl
  obtain ⟨h0, hlt⟩ := h.held i hi
  have hbit : bit c.ibitmap i = false := by
    by_contra hb
    rw [Bool.not_eq_false] at hb
    exact ((h.split.free i).mp hb).2 hi
  have hcard := card_freeBelow_set hlt hbit
  have hle := card_freeBelow_le (set c.ibitmap i) nrInodes
  have hcount : c.sbi.nrFreeInodes = (freeBelow c.ibitmap nrInodes).card := h.count
  have hsucc : succ32 c.sbi.nrFreeInodes = c.sbi.nrFreeInodes + 1 := succ32_of_lt (by omega)
  have hput : putInode c i = .ok { c with
      ibitmap := set c.ibitmap i, sbi := { c.sbi with nrFreeInodes := succ32 c.sbi.nrFreeInodes } } := by
    unfold putInode putFreeBit
    rw [if_pos (by omega), ExceptLib.ok_bind]
  refine ⟨_, hput, hsucc, ((InodeStep.put hput).pool (counted hc h)).split hi h.split, ?_, ?_, ?_⟩
  · intro j hj
    exact h.held j (List.mem_of_mem_erase hj)
  · obtain ⟨m, n, hcn⟩ := h.rest
    dsimp only at hcn
    subst hcn
    exact ⟨_, _, rfl⟩
  · show succ32 c.sbi.nrFreeInodes = (freeBelow (set c.ibitmap i) nrInodes).card
    omega

/-- **A step of the run** keeps the invariant. -/
theorem step {k : NumberPool.Call Nat} {s t : Cached × List Nat} (hc : InodesCounted c₀) (h : Pooled c₀ s)
    (hk : ∀ i, k = .put i → i ∈ s.2) (hs : InodeStep k s t) : Pooled c₀ t := by
  cases hs with
  | get hget =>
    rcases get hc h with ⟨i, hget', h0, _, _, hp⟩ | hget'
    · rw [hget'] at hget
      cases hget
      rwa [if_neg h0]
    · rw [hget'] at hget
      cases hget
      exact h
  | put hput =>
    obtain ⟨c', hput', _, hp⟩ := put hc h (hk _ rfl)
    rw [hput'] at hput
    cases hput
    exact hp

/-- Putting all the held numbers back, in any order, restores the bitmap and the counter. -/
theorem putInodes_eq (hc : InodesCounted c₀) (h : Pooled c₀ (c, held)) (hl : l.Perm held) : putInodes l c = .ok c₀ := by
  induction l generalizing c held with
  | nil =>
    obtain rfl : held = [] := hl.nil_eq.symm
    have hmap : c.ibitmap = c₀.ibitmap := by
      apply eq_of_bit
      intro i
      have hfree := h.split.free_eq rfl
      have hi : i ∈ freeSet c.ibitmap ↔ i ∈ freeSet c₀.ibitmap := by rw [← hfree]; rfl
      exact Bool.eq_iff_iff.mpr hi
    have hcount : c.sbi.nrFreeInodes = (freeBelow c.ibitmap nrInodes).card := h.count
    rw [hmap, ← hc.count] at hcount
    obtain ⟨m, n, hcn⟩ := h.rest
    dsimp only at hcn
    subst hcn
    obtain rfl : m = c₀.ibitmap := hmap
    obtain rfl : n = c₀.sbi.nrFreeInodes := hcount
    rfl
  | cons i l ih =>
    obtain ⟨hi, hl⟩ := List.cons_perm_iff_perm_erase.mp hl
    obtain ⟨c', hput, _, hp⟩ := put hc h hi
    unfold putInodes
    rw [List.foldlM_cons, hput]
    exact ih hp hl

end Pooled

/-- **The invariant of a run.** -/
theorem InodeRun.pooled {s : Cached × List Nat} (hc : InodesCounted c₀) (h : InodeRun c₀ s) : Pooled c₀ s :=
  Run.invariant h (Pooled.start hc) fun _ _ _ hu hk hs => Pooled.step hc hu hk hs

/-- **The bitmap primitives are a set with least-element extraction**, and a run of `get_free_inode` and `put_inode`
is a run of a pool of numbers with its counter. -/
theorem bitmap_primitives :
    (∀ (len size : Nat) (m : Words), len ≤ 2 ^ 27 → bit m 0 = false → size / 4 ≤ len →
      ∃ r m', getFirstFreeBit len m size = .ok (r, m') ∧
        (r = 0 ↔ ∀ i, i < 32 * (size / 4) → bit m i = false) ∧ (r = 0 → m' = m) ∧
        (r ≠ 0 → Least m (32 * (size / 4)) r ∧ (∀ i, bit m' i = (bit m i && decide (i ≠ r))) ∧
          putFreeBit len m' r = .ok m)) ∧
    (∀ (len i : Nat) (m : Words), i < 32 * len →
      ∃ m', putFreeBit len m i = .ok m' ∧ ∀ j, bit m' j = (bit m j || decide (j = i))) ∧
    ∀ (c₀ c : Cached) (held : List Nat), InodesCounted c₀ → InodeRun c₀ (c, held) →
      held.Nodup ∧ c.sbi.nrFreeInodes = (freeBelow c.ibitmap nrInodes).card ∧
      (∃ i c', getFreeInode c = .ok (i, c') ∧ (i = 0 → c' = c) ∧
        (i ≠ 0 → i ∉ held ∧ c'.sbi.nrFreeInodes + 1 = c.sbi.nrFreeInodes)) ∧
      (∀ i, i ∈ held → ∃ c', putInode c i = .ok c' ∧ c'.sbi.nrFreeInodes = c.sbi.nrFreeInodes + 1) ∧
      ∀ l, List.Perm l held → putInodes l c = .ok c₀ := by
  refine ⟨?_, ?_, ?_⟩
  · intro len size m hlen h0 hsize
    rcases getFirstFreeBit_spec hlen h0 hsize with ⟨i, hi, _, hl, hr⟩ | ⟨hz, hr⟩
    · refine ⟨i, clear m i, hr, ?_, fun h => absurd h hi, fun _ => ⟨hl, bit_clear m i, ?_⟩⟩
      · refine ⟨fun h => absurd h hi, fun hz => ?_⟩
        have hb := hl.bit
        rw [hz i hl.lt] at hb
        contradiction
      · have hlt := hl.lt
        unfold putFreeBit
        rw [if_pos (by omega), set_clear hl.bit]
    · exact ⟨0, m, hr, ⟨fun _ => hz, fun _ => rfl⟩, fun _ => rfl, fun h => absurd rfl h⟩
  · intro len i m hi
    refine ⟨set m i, ?_, bit_set m i⟩
    unfold putFreeBit
    rw [if_pos (by omega)]
  · intro c₀ c held hc hrun
    have hp : Pooled c₀ (c, held) := InodeRun.pooled hc hrun
    refine ⟨hp.split.nodup, hp.count, ?_, ?_, fun l hl => Pooled.putInodes_eq hc hp hl⟩
    · rcases Pooled.get hc hp with ⟨i, hget, hi, hfresh, hn, _⟩ | hget
      · exact ⟨i, _, hget, fun h => absurd h hi, fun _ => ⟨hfresh, hn⟩⟩
      · exact ⟨0, c, hget, fun _ => rfl, fun h => absurd rfl h⟩
    · intro i hi
      obtain ⟨c', hput, hn, _⟩ := Pooled.put hc hp hi
      exact ⟨c', hput, hn⟩

/-- A bitmap of one block in which number 1 alone is free. -/
def oneFree : Cached where
  sbi := ⟨0, 0, 0, 0, 0, 0, 1, 0, 0, 0, 1, 0⟩
  ibitmap := set (fun _ => 0#32) 1
  inodeReg := fun _ => ⟨0, 0, 0, fun _ => 0, fun _ => 0, 0, 0, 0, 0⟩
  dbitmap := fun _ => 0#32

theorem oneFree_counted : InodesCounted oneFree where
  used := rfl
  inside := by decide
  count := by
    have hnone : (freeBelow (fun _ => 0#32) nrInodes).card = 0 := by
      rw [Finset.card_eq_zero, Finset.eq_empty_iff_forall_notMem]
      intro i hi
      have hb := (mem_freeBelow.mp hi).2
      simp [WordBits.bit] at hb
    have hcard := card_freeBelow_set (m := fun _ => 0#32) (n := nrInodes) (i := 1) (by decide) rfl
    rw [hnone] at hcard
    exact hcard.symm

/-- The one free number is taken and put back. -/
theorem bitmap_primitives_oneFree : ∃ c, getFreeInode oneFree = .ok (1, c) ∧ InodeRun oneFree (c, [1]) ∧
    putInodes [1] c = .ok oneFree := by
  have hget : getFreeInode oneFree = .ok (1, oneFree.takeInode 1) :=
    getFreeInode_of_least ⟨by decide, rfl, by decide⟩ (by decide) (by decide)
  have hrun : InodeRun oneFree (oneFree.takeInode 1, [1]) :=
    (Run.refl (oneFree, [])).snoc (c := NumberPool.Call.take) (by simp) (.get hget)
  exact ⟨_, hget, hrun, (bitmap_primitives.2.2 _ _ _ oneFree_counted hrun).2.2.2.2 _ (List.Perm.refl _)⟩

end Vsfs
