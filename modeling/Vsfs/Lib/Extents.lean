import Mathlib.Data.List.Pairwise

/-!
# Extents laid out one after the other

An extent is a run of consecutive numbers: bytes of a segment, blocks of a device. `Tiles a rs b` says that the extents
of `rs` follow each other from `a` to `b` without gaps.

- `Tiles.covers`: such extents hold exactly the numbers from `a` to `b`;
- `Tiles.ordered`, `Tiles.disjoint`: they are in order, and no number is in two of them.
-/

set_option autoImplicit false

namespace Extents

/-- The numbers from `ofs` on, `len` of them. -/
structure Extent where
  ofs : Nat
  len : Nat
  deriving DecidableEq, Repr

/-- The number is in the extent. -/
def Extent.Has (r : Extent) (k : Nat) : Prop := r.ofs ≤ k ∧ k < r.ofs + r.len

/-- The extents follow each other from `a` to `b`. -/
def Tiles : Nat → List Extent → Nat → Prop
  | a, [], b => a = b
  | a, r :: rs, b => r.ofs = a ∧ Tiles (a + r.len) rs b

variable {a b k : Nat} {r s : Extent} {rs : List Extent}

theorem Tiles.le (h : Tiles a rs b) : a ≤ b := by
  induction rs generalizing a with
  | nil => exact Nat.le_of_eq h
  | cons r rs ih =>
    have := ih h.2
    omega

/-- Every extent lies between the ends. -/
theorem Tiles.bounds (h : Tiles a rs b) (hr : r ∈ rs) : a ≤ r.ofs ∧ r.ofs + r.len ≤ b := by
  induction rs generalizing a with
  | nil => cases hr
  | cons s rs ih =>
    obtain ⟨hs, ht⟩ := h
    have hle := ht.le
    rcases List.mem_cons.mp hr with rfl | hr
    · omega
    · have := ih ht hr
      omega

/-- **Extents without gaps** hold all numbers between the ends, and no others. -/
theorem Tiles.covers (h : Tiles a rs b) : (∃ r, r ∈ rs ∧ r.Has k) ↔ a ≤ k ∧ k < b := by
  induction rs generalizing a with
  | nil =>
    simp only [List.not_mem_nil, false_and, exists_false, false_iff]
    rw [show a = b from h]
    omega
  | cons s rs ih =>
    obtain ⟨hs, ht⟩ := h
    have hle := ht.le
    simp only [List.mem_cons, exists_eq_or_imp, ih ht]
    unfold Extent.Has
    omega

/-- Each extent ends where a later one starts, or before. -/
theorem Tiles.ordered (h : Tiles a rs b) : rs.Pairwise fun r s => r.ofs + r.len ≤ s.ofs := by
  induction rs generalizing a with
  | nil => exact .nil
  | cons s rs ih =>
    obtain ⟨hs, ht⟩ := h
    refine .cons (fun t hmem => ?_) (ih ht)
    have := (ht.bounds hmem).1
    omega

/-- No number is in two of the extents. -/
theorem Tiles.disjoint (h : Tiles a rs b) : rs.Pairwise fun r s => ∀ k, r.Has k → ¬s.Has k :=
  h.ordered.imp fun hle k hr hs => by
    unfold Extent.Has at hr hs
    omega

end Extents
