import Vsfs.Lib.Except
import Mathlib.Tactic.Common

/-!
# Calling a reader until it ends

A reader that stands at a position below `size` returns the same result at every call and moves `n` on, up to `size`.
`calls` makes the calls of a list; `drain` says where they lead and `rounds` how many of them there are.
-/

set_option autoImplicit false

namespace Drain

open ExceptLib

variable {κ σ ρ ε : Type} {f : κ → σ → Except ε (ρ × σ)} {P : Nat → σ → Prop} {size n : Nat} {r : ρ}

/-- The calls of a list one after the other, with their results. -/
def calls (f : κ → σ → Except ε (ρ × σ)) : List κ → σ → Except ε (List ρ × σ)
  | [], s => .ok ([], s)
  | k :: ks, s => do
    let (r, s) ← f k s
    let (rs, s) ← calls f ks s
    .ok (r :: rs, s)

/-- The calls of size `n` that it takes to get from `pos` to `size`: the quotient, rounded up. -/
def rounds (pos size n : Nat) : Nat := (size - pos + n - 1) / n

theorem rounds_pos {pos : Nat} (hn : 1 ≤ n) : 0 < rounds pos size n ↔ pos < size := by
  unfold rounds
  rw [Nat.div_pos_iff]
  omega

theorem rounds_step {pos : Nat} (hn : 1 ≤ n) (h : pos < size) :
    rounds (min (pos + n) size) size n + 1 = rounds pos size n := by
  unfold rounds
  by_cases hle : size ≤ pos + n
  · rw [Nat.min_eq_right hle, Nat.sub_self, Nat.zero_add, Nat.div_eq_of_lt (by omega),
      Nat.div_eq_of_lt_le (by omega : 1 * n ≤ _) (by omega)]
  · rw [Nat.min_eq_left (by omega), show size - pos + n - 1 = (size - (pos + n) + n - 1) + n by omega,
      Nat.add_div_right _ (by omega)]

/-- **The calls**, as long as there are no more of them than it takes. -/
theorem drain (hn : 1 ≤ n)
    (hcall : ∀ k pos s, P pos s → pos < size → ∃ t, f k s = .ok (r, t) ∧ P (min (pos + n) size) t)
    {ks : List κ} {pos : Nat} {s : σ} (hs : P pos s) (hpos : pos ≤ size) (hlen : ks.length ≤ rounds pos size n) :
    ∃ t, calls f ks s = .ok (List.replicate ks.length r, t) ∧ P (min (pos + ks.length * n) size) t := by
  induction ks generalizing pos s with
  | nil =>
    refine ⟨s, rfl, ?_⟩
    rwa [List.length_nil, Nat.zero_mul, Nat.add_zero, Nat.min_eq_left hpos]
  | cons k ks ih =>
    rw [List.length_cons] at hlen
    have hlt : pos < size := (rounds_pos hn).mp (by omega)
    have hstep := rounds_step hn hlt
    obtain ⟨t, ht, hat⟩ := hcall k pos s hs hlt
    obtain ⟨u, hu, hat'⟩ := ih hat (Nat.min_le_right _ _) (by omega)
    refine ⟨u, ?_, ?_⟩
    · unfold calls
      rw [ht, ok_bind]
      simp only [hu, ok_bind, List.length_cons, List.replicate_succ]
    · have hmul : (ks.length + 1) * n = ks.length * n + n := Nat.succ_mul _ _
      rwa [List.length_cons, show min (pos + (ks.length + 1) * n) size =
        min (min (pos + n) size + ks.length * n) size by omega]

/-- With as many calls as it takes, the end is reached. -/
theorem rounds_reach {pos : Nat} (hn : 1 ≤ n) : size ≤ pos + rounds pos size n * n := by
  unfold rounds
  have hdiv := Nat.div_add_mod (size - pos + n - 1) n
  have hmod := Nat.mod_lt (size - pos + n - 1) (by omega : n > 0)
  rw [Nat.mul_comm] at hdiv
  omega

end Drain
