import Mathlib.Data.Finset.Card
import Mathlib.Data.Finset.Max
import Mathlib.Logic.Function.Basic

/-!
# Bitmaps of 32-bit words

An array of 32-bit words is read as the set of the indices of its 1-bits, bit `i` being bit `i % 32` of word
`i / 32`.

- `bit_clear`, `bit_set`: clearing and setting one bit change that bit only;
- `ffs_spec`: find-first-set on a word;
- `freeBelow`: the set bits below a bound, and how clearing one changes their number (`card_freeBelow_clear`);
- `Least`: the lowest set bit below a bound, held by the first nonzero word (`least_of_first_word`).
-/

set_option autoImplicit false

namespace WordBits

open Function

/-- An array of 32-bit words. -/
abbrev Words := Nat → BitVec 32

/-- Bit `i` of the array. -/
def bit (m : Words) (i : Nat) : Bool := (m (i / 32)).getLsbD (i % 32)

/-- Word `i / 32` with bit `i % 32` cleared. -/
def clear (m : Words) (i : Nat) : Words := update m (i / 32) (m (i / 32) &&& ~~~(1#32 <<< (i % 32)))

/-- Word `i / 32` with bit `i % 32` set. -/
def set (m : Words) (i : Nat) : Words := update m (i / 32) (m (i / 32) ||| 1#32 <<< (i % 32))

/-- One plus the position of the least significant 1-bit, 0 for the word 0. -/
def ffs (w : BitVec 32) : Nat :=
  match (List.range 32).find? (fun i => w.getLsbD i) with
  | some i => i + 1
  | none => 0

theorem getLsbD_one_shift (i j : Nat) (hj : j < 32) : (1#32 <<< i).getLsbD j = decide (j = i) := by
  simp only [BitVec.getLsbD_shiftLeft, BitVec.getLsbD_one, hj, decide_true, Bool.true_and]
  by_cases h : j = i
  · simp [h]
  · have hne : ¬j - i = 0 ∨ j < i := by omega
    rcases hne with h' | h' <;> simp [h, h']

@[simp] theorem bit_clear (m : Words) (i j : Nat) : bit (clear m i) j = (bit m j && decide (j ≠ i)) := by
  unfold bit clear
  by_cases hw : j / 32 = i / 32
  · rw [hw, update_self, BitVec.getLsbD_and, BitVec.getLsbD_not, getLsbD_one_shift _ _ (Nat.mod_lt _ (by omega))]
    have hm : j % 32 = i % 32 ↔ j = i := by omega
    simp [Nat.mod_lt, hm]
  · have hne : j ≠ i := by rintro rfl; exact hw rfl
    simp [update_of_ne hw, hne]

@[simp] theorem bit_set (m : Words) (i j : Nat) : bit (set m i) j = (bit m j || decide (j = i)) := by
  unfold bit set
  by_cases hw : j / 32 = i / 32
  · rw [hw, update_self, BitVec.getLsbD_or, getLsbD_one_shift _ _ (Nat.mod_lt _ (by omega))]
    have hm : j % 32 = i % 32 ↔ j = i := by omega
    simp [hm]
  · have hne : j ≠ i := by rintro rfl; exact hw rfl
    simp [update_of_ne hw, hne]

/-- An array is its bits. -/
theorem eq_of_bit {m m' : Words} (h : ∀ i, bit m i = bit m' i) : m = m' := by
  funext w
  apply BitVec.eq_of_getLsbD_eq
  intro j hj
  have hw := h (32 * w + j)
  unfold bit at hw
  rwa [show (32 * w + j) / 32 = w by omega, show (32 * w + j) % 32 = j by omega] at hw

/-- Setting a bit that was set and has been cleared restores the array. -/
theorem set_clear {m : Words} {i : Nat} (h : bit m i = true) : set (clear m i) i = m := by
  apply eq_of_bit
  intro j
  by_cases hj : j = i
  · subst hj
    simp [h]
  · simp [hj]

theorem getLsbD_eq_false_of_zero {w : BitVec 32} (h : w = 0) (i : Nat) : w.getLsbD i = false := by
  subst h; simp

/-- A nonzero word has a lowest 1-bit, and `ffs` finds it. -/
theorem ffs_spec {w : BitVec 32} (h : w ≠ 0) :
    ∃ i, i < 32 ∧ ffs w = i + 1 ∧ w.getLsbD i = true ∧ ∀ j, j < i → w.getLsbD j = false := by
  unfold ffs
  cases hf : (List.range 32).find? (fun i => w.getLsbD i) with
  | some i =>
    obtain ⟨hi, hm, hlow⟩ := List.find?_range_eq_some.mp hf
    exact ⟨i, by simpa using hm, rfl, hi, fun j hj => by simpa using hlow j hj⟩
  | none =>
    refine absurd (BitVec.eq_of_getLsbD_eq fun i hi => ?_) h
    have := List.find?_eq_none.mp hf i (by simpa using hi)
    simpa using this

/-! ## The set bits below a bound -/

/-- The set bits below `n`. -/
def freeBelow (m : Words) (n : Nat) : Finset Nat := (Finset.range n).filter fun i => bit m i = true

@[simp] theorem mem_freeBelow {m : Words} {n i : Nat} : i ∈ freeBelow m n ↔ i < n ∧ bit m i = true := by
  simp [freeBelow]

theorem freeBelow_clear (m : Words) (n i : Nat) : freeBelow (clear m i) n = (freeBelow m n).erase i := by
  ext j
  simp only [mem_freeBelow, bit_clear, Finset.mem_erase, Bool.and_eq_true, decide_eq_true_eq]
  tauto

/-- Clearing a set bit below the bound takes one from their number. -/
theorem card_freeBelow_clear {m : Words} {n i : Nat} (hi : i < n) (hb : bit m i = true) :
    (freeBelow (clear m i) n).card + 1 = (freeBelow m n).card := by
  rw [freeBelow_clear, Finset.card_erase_add_one (mem_freeBelow.mpr ⟨hi, hb⟩)]

theorem freeBelow_set {m : Words} {n i : Nat} (hi : i < n) : freeBelow (set m i) n = insert i (freeBelow m n) := by
  ext j
  simp only [mem_freeBelow, bit_set, Finset.mem_insert, Bool.or_eq_true, decide_eq_true_eq]
  constructor
  · rintro ⟨hj, hb | rfl⟩
    · exact Or.inr ⟨hj, hb⟩
    · exact Or.inl rfl
  · rintro (rfl | ⟨hj, hb⟩)
    · exact ⟨hi, Or.inr rfl⟩
    · exact ⟨hj, Or.inl hb⟩

/-- Setting a clear bit below the bound adds one to their number. -/
theorem card_freeBelow_set {m : Words} {n i : Nat} (hi : i < n) (hb : bit m i = false) :
    (freeBelow (set m i) n).card = (freeBelow m n).card + 1 := by
  rw [freeBelow_set hi, Finset.card_insert_of_notMem (by simp [hb])]

theorem card_freeBelow_le (m : Words) (n : Nat) : (freeBelow m n).card ≤ n := by
  have hcard := Finset.card_filter_le (Finset.range n) fun i => bit m i = true
  rwa [Finset.card_range] at hcard

/-! ## The lowest set bit -/

/-- Bit `i` is the lowest set bit, and it is below `n`. -/
structure Least (m : Words) (n i : Nat) : Prop where
  lt : i < n
  bit : bit m i = true
  low : ∀ j, j < i → WordBits.bit m j = false

theorem Least.unique {m : Words} {n n' i j : Nat} (hi : Least m n i) (hj : Least m n' j) : i = j := by
  rcases Nat.lt_trichotomy i j with h | h | h
  · have := hj.low i h; rw [hi.bit] at this; contradiction
  · exact h
  · have := hi.low j h; rw [hj.bit] at this; contradiction

/-- A set bit below the bound makes a lowest one. -/
theorem exists_least {m : Words} {n : Nat} (h : (freeBelow m n).Nonempty) : ∃ i, Least m n i := by
  have hm := Finset.min'_mem _ h
  refine ⟨(freeBelow m n).min' h, (mem_freeBelow.mp hm).1, (mem_freeBelow.mp hm).2, fun j hj => ?_⟩
  by_contra hb
  have hmem : j ∈ freeBelow m n :=
    mem_freeBelow.mpr ⟨hj.trans (mem_freeBelow.mp hm).1, by simpa using hb⟩
  exact absurd (Finset.min'_le _ _ hmem) (by omega)

/-- The bits of the words below `c` are clear when these words are zero. -/
theorem bit_eq_false_of_words {m : Words} {c : Nat} (h : ∀ k, k < c → m k = 0) {j : Nat} (hj : j < 32 * c) :
    bit m j = false :=
  getLsbD_eq_false_of_zero (h (j / 32) (by omega)) _

/-- The first nonzero word holds the lowest set bit. -/
theorem least_of_first_word {m : Words} {c n : Nat} (hz : ∀ k, k < c → m k = 0) (hc : m c ≠ 0) (hn : 32 * (c + 1) ≤ n) :
    Least m n (32 * c + (ffs (m c) - 1)) := by
  obtain ⟨i, hi, hf, hb, hlow⟩ := ffs_spec hc
  rw [hf, Nat.add_sub_cancel]
  have hdiv : ∀ k, k < 32 → (32 * c + k) / 32 = c ∧ (32 * c + k) % 32 = k := fun k hk => by omega
  refine ⟨by omega, by unfold bit; rw [(hdiv i hi).1, (hdiv i hi).2]; exact hb, fun j hj => ?_⟩
  by_cases hjc : j < 32 * c
  · exact bit_eq_false_of_words hz hjc
  · obtain ⟨k, rfl⟩ := Nat.exists_eq_add_of_le (Nat.le_of_not_lt hjc)
    unfold bit
    rw [(hdiv k (by omega)).1, (hdiv k (by omega)).2]
    exact hlow k (by omega)

end WordBits
