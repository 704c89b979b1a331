import Mathlib.Data.Set.Insert

/-!
# Forests of pointers to blocks

A reference is a root, or an entry of the block that its parent points at. What a reference points at is read from a
memory of blocks, so writing a block can change references that lie below it.

- `Reads.agree`: references are the same when the roots and the entries read on the way are;
- `Owned`: the references of a set point at different blocks, none of which is free;
- `Owned.assign`: assigning a free block to a reference outside the set changes no reference of the set, and the set
  with the reference is owned again.
-/

set_option autoImplicit false

namespace PointerForest

/-- References: the parent of each, if it has one, and the entry of the parent's block that it is. -/
structure Forest (ρ : Type) where
  parent : ρ → Option ρ
  slot : ρ → Nat
  rank : ρ → Nat
  rank_lt : ∀ {r p}, parent r = some p → rank p < rank r
  slot_inj : ∀ {r s p}, parent r = some p → parent s = some p → slot r = slot s → r = s

variable {ρ : Type} (F : Forest ρ)

/-- `val` reads the references that have a parent from the memory. -/
def Reads (mem : Nat → Nat → Nat) (val : ρ → Nat) : Prop :=
  ∀ r p, F.parent r = some p → val r = mem (val p) (F.slot r)

/-- The set has the parents of its members. -/
def Closed (R : Set ρ) : Prop := ∀ r p, r ∈ R → F.parent r = some p → p ∈ R

variable {F} {mem mem' : Nat → Nat → Nat} {val val' : ρ → Nat} {R R' : Set ρ}

/-- References of a closed set are the same when its roots and the entries read for it are. -/
theorem Reads.agree (h : Reads F mem val) (h' : Reads F mem' val') (hc : Closed F R)
    (hroot : ∀ r, r ∈ R → F.parent r = none → val' r = val r)
    (hmem : ∀ r p, r ∈ R → F.parent r = some p → mem' (val p) (F.slot r) = mem (val p) (F.slot r)) :
    ∀ r, r ∈ R → val' r = val r := by
  -- by induction on the rank: the parent of a reference has a smaller one
  have hall : ∀ n r, F.rank r = n → r ∈ R → val' r = val r := by
    intro n
    induction n using Nat.strong_induction_on with
    | h n ih =>
      intro r hn hr
      cases hp : F.parent r with
      | none => exact hroot r hr hp
      | some p =>
        have hpar := ih (F.rank p) (hn ▸ F.rank_lt hp) p rfl (hc r p hr hp)
        rw [h' r p hp, h r p hp, hpar]
        exact hmem r p hr hp
  exact fun r hr => hall _ r rfl hr

/-- The references of `R` point at different blocks below `bound`, none of them free. -/
structure Owned (F : Forest ρ) (val : ρ → Nat) (bound : Nat) (free : Nat → Prop) (R : Set ρ) : Prop where
  closed : Closed F R
  inj : ∀ r s, r ∈ R → s ∈ R → val r = val s → r = s
  lt : ∀ r, r ∈ R → val r < bound
  used : ∀ r, r ∈ R → ¬free (val r)

variable {bound : Nat} {free free' : Nat → Prop}

/-- A closed part of an owned set is owned. -/
theorem Owned.mono (h : Owned F val bound free R) (hc : Closed F R') (hs : ∀ r, r ∈ R' → r ∈ R) :
    Owned F val bound free R' :=
  ⟨hc, fun r s hr hs' => h.inj r s (hs r hr) (hs s hs'), fun r hr => h.lt r (hs r hr), fun r hr => h.used r (hs r hr)⟩

/-- Ownership depends on the references and on the blocks that are not free. -/
theorem Owned.congr (h : Owned F val bound free R) (hv : ∀ r, r ∈ R → val' r = val r) (hf : ∀ a, free' a → free a) :
    Owned F val' bound free' R :=
  ⟨h.closed, fun r s hr hs he => h.inj r s hr hs (by rw [← hv r hr, ← hv s hs, he]),
    fun r hr => by rw [hv r hr]; exact h.lt r hr,
    fun r hr hfr => h.used r hr (by rw [← hv r hr]; exact hf _ hfr)⟩

section

variable (h : Owned F val bound free R) (hv : Reads F mem val) (hv' : Reads F mem' val') {r : ρ}
  (hr : r ∉ R) (hroot : ∀ s, s ∈ R → F.parent s = none → val' s = val s)
  (hmem : ∀ a k, a < bound → (∀ p, F.parent r = some p → a = val p → k ≠ F.slot r) → mem' a k = mem a k)

include h hv hv' hr hroot hmem in
/-- **Assigning to a reference** outside the set changes no reference of the set. -/
theorem Owned.assign_val (hp : ∀ p, F.parent r = some p → p ∈ R) : ∀ s, s ∈ R → val' s = val s := by
  refine hv.agree hv' h.closed hroot fun s q hs hq => ?_
  have hqR := h.closed s q hs hq
  refine hmem _ _ (h.lt q hqR) fun p hrp he hslot => hr ?_
  -- the entry written is that of `s` only if `s` is the reference assigned to
  obtain rfl := h.inj q p hqR (hp p hrp) he
  rwa [← F.slot_inj hq hrp hslot]

include h hv hv' hr hroot hmem in
/-- The set with the reference that a free block has been assigned to is owned. -/
theorem Owned.assign (hp : ∀ p, F.parent r = some p → p ∈ R) {b : Nat} (hval : val' r = b) (hb : free b)
    (hlt : b < bound) : Owned F val' bound (fun a => free a ∧ a ≠ b) (insert r R) := by
  have hsame := h.assign_val hv hv' hr hroot hmem hp
  have hne : ∀ s, s ∈ R → val s ≠ b := by
    rintro s hs rfl
    exact h.used s hs hb
  refine ⟨?_, ?_, ?_, ?_⟩
  · rintro s p (rfl | hs) hsp
    · exact Or.inr (hp p hsp)
    · exact Or.inr (h.closed s p hs hsp)
  · rintro s t (rfl | hs) (rfl | ht) he
    · rfl
    · rw [hval, hsame t ht] at he
      exact absurd he.symm (hne t ht)
    · rw [hval, hsame s hs] at he
      exact absurd he (hne s hs)
    · rw [hsame s hs, hsame t ht] at he
      exact h.inj s t hs ht he
  · rintro s (rfl | hs)
    · rw [hval]
      exact hlt
    · rw [hsame s hs]
      exact h.lt s hs
  · rintro s (rfl | hs) ⟨hf, hn⟩
    · exact hn hval
    · rw [hsame s hs] at hf
      exact h.used s hs hf

end

end PointerForest
