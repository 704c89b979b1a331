import Mathlib.Algebra.Order.Group.Nat
import Mathlib.Tactic.Common
import Mathlib.Logic.Function.Basic

/-!
# Files that lie in pages

A store is a function from addresses to pages of `P` cells. A file is a map from page numbers to addresses, and cell
`k` of it is cell `k % P` of its page `k / P`. `Stored P m o n src d d'` says that `d'` is the store `d` with `n` cells
from cell `o` of the file on replaced by those of `src`.

- `Stored.page`, `Stored.trans`: one page, and one range after the other;
- `Stored.cell_in`, `Stored.cell_out`, `Stored.cell_other`: what a reader of the file, or of another one, finds.
-/

set_option autoImplicit false

namespace Paged

open Function

variable {A α : Type} {P o n l : Nat} {m m' : Nat → A} {src : Nat → α} {d d' d'' : A → Nat → α}

/-- Cell `k` of the file with the pages `m`. -/
def cell (P : Nat) (d : A → Nat → α) (m : Nat → A) (k : Nat) : α := d (m (k / P)) (k % P)

/-- The cells of the file from `o` on have been replaced by the first `n` of `src`. -/
structure Stored (P : Nat) (m : Nat → A) (o n : Nat) (src : Nat → α) (d d' : A → Nat → α) : Prop where
  cell_in : ∀ k, k < n → cell P d' m (o + k) = src k
  outside : ∀ a r, r < P → (∀ k, k < n → a = m ((o + k) / P) → r ≠ (o + k) % P) → d' a r = d a r
  frame : ∀ a, (∀ k, k < n → a ≠ m ((o + k) / P)) → d' a = d a

theorem Stored.nil (P : Nat) (m : Nat → A) (o : Nat) (src : Nat → α) (d : A → Nat → α) : Stored P m o 0 src d d :=
  ⟨fun _ hk => absurd hk (Nat.not_lt_zero _), fun _ _ _ _ => rfl, fun _ _ => rfl⟩

/-- The pages of the range are different. -/
def Separate (P : Nat) (m : Nat → A) (o n : Nat) : Prop :=
  ∀ j k, j < n → k < n → m ((o + j) / P) = m ((o + k) / P) → (o + j) / P = (o + k) / P

theorem Separate.mono (h : Separate P m o n) (hl : l ≤ n) : Separate P m o l :=
  fun j k hj hk he => h j k (by omega) (by omega) he

/-- Two numbers with the same page and the same place in it are the same. -/
theorem eq_of_div_mod {j k : Nat} (hd : j / P = k / P) (hm : j % P = k % P) : j = k := by
  rw [← Nat.div_add_mod j P, hd, hm, Nat.div_add_mod]

/-- **One range after the other.** -/
theorem Stored.trans (h : Stored P m o n src d d') (h' : Stored P m (o + n) l (fun k => src (n + k)) d' d'')
    (hP : 0 < P) (hs : Separate P m o (n + l)) : Stored P m o (n + l) src d d'' := by
  refine ⟨fun k hk => ?_, fun a r hr hno => ?_, fun a hno => ?_⟩
  · by_cases hkn : k < n
    · -- the second range does not reach the cell
      rw [← h.cell_in k hkn]
      refine h'.outside _ _ (Nat.mod_lt _ hP) fun j hj he hm => ?_
      rw [Nat.add_assoc] at he hm
      have := eq_of_div_mod (hs k (n + j) hk (by omega) he) hm
      omega
    · have := h'.cell_in (k - n) (by omega)
      rwa [show o + n + (k - n) = o + k by omega, show n + (k - n) = k by omega] at this
  · rw [h'.outside a r hr fun j hj he => ?_, h.outside a r hr fun j hj he => ?_]
    · exact hno j (by omega) he
    · rw [Nat.add_assoc] at he ⊢
      exact hno (n + j) (by omega) he
  · rw [h'.frame a fun j hj => ?_, h.frame a fun j hj => ?_]
    · exact hno j (by omega)
    · rw [Nat.add_assoc]
      exact hno (n + j) (by omega)

/-- **One page**: `b` is the page with the cells of the range replaced. -/
theorem Stored.page [DecidableEq A] {b : Nat → α} (hn : o % P + n ≤ P) (h0 : 0 < n)
    (hin : ∀ k, k < n → b (o % P + k) = src k)
    (hout : ∀ r, r < P → r < o % P ∨ o % P + n ≤ r → b r = d (m (o / P)) r) :
    Stored P m o n src d (update d (m (o / P)) b) := by
  have hP : 0 < P := by omega
  have hdiv : ∀ k, k < n → (o + k) / P = o / P := by
    intro k hk
    rw [show o + k = o % P + k + P * (o / P) by have := Nat.mod_add_div o P; omega, Nat.add_mul_div_left _ _ hP,
      Nat.div_eq_of_lt (by omega), Nat.zero_add]
  have hmod : ∀ k, k < n → (o + k) % P = o % P + k := by
    intro k hk
    rw [show o + k = o % P + k + P * (o / P) by have := Nat.mod_add_div o P; omega, Nat.add_mul_mod_self_left,
      Nat.mod_eq_of_lt (by omega)]
  refine ⟨fun k hk => ?_, fun a r hr hno => ?_, fun a hno => ?_⟩
  · unfold cell
    rw [hdiv k hk, hmod k hk, update_self]
    exact hin k hk
  · by_cases ha : a = m (o / P)
    · subst ha
      rw [update_self]
      apply hout r hr
      by_contra hin
      refine hno (r - o % P) (by omega) (by rw [hdiv _ (by omega)]) ?_
      rw [hmod _ (by omega)]
      omega
    · rw [update_of_ne ha]
  · have := hno 0 h0
    rw [hdiv 0 h0] at this
    rw [update_of_ne this]

/-- Only the pages of the range count. -/
theorem Stored.congr (h : Stored P m o n src d d') (hm : ∀ k, k < n → m' ((o + k) / P) = m ((o + k) / P)) :
    Stored P m' o n src d d' := by
  refine ⟨fun k hk => ?_, fun a r hr hno => ?_, fun a hno => ?_⟩
  · unfold cell
    rw [hm k hk]
    exact h.cell_in k hk
  · refine h.outside a r hr fun k hk he => hno k hk ?_
    rw [he, hm k hk]
  · refine h.frame a fun k hk he => hno k hk ?_
    rw [he, hm k hk]

/-- A cell outside the range, of the same file. -/
theorem Stored.cell_out {j : Nat} (h : Stored P m o n src d d') (hP : 0 < P) (hj : j < o ∨ o + n ≤ j)
    (hm : ∀ k, k < n → m (j / P) = m ((o + k) / P) → j / P = (o + k) / P) : cell P d' m j = cell P d m j := by
  refine h.outside _ _ (Nat.mod_lt _ hP) fun k hk he hr => ?_
  have := eq_of_div_mod (hm k hk he) hr
  omega

/-- A cell of a file on other pages. -/
theorem Stored.cell_other {j : Nat} (h : Stored P m o n src d d') (hm : ∀ k, k < n → m' (j / P) ≠ m ((o + k) / P)) :
    cell P d' m' j = cell P d m' j := by
  unfold cell
  rw [h.frame _ hm]

end Paged
