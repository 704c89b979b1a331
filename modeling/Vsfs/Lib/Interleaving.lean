import Mathlib.Logic.Function.Basic
import Vsfs.Lib.GuardedRun

/-!
# Processes that share a part of their states

A state is split into a part that all processes share and one that each has for itself. A step of the system is a step
of one process on the shared part and its own; the other processes then see the new shared part.

- `view_put_self`, `view_put_of_ne`: what a step leaves to its process and to the others;
- `views`: what a process keeps for itself and for the others holds of all processes.
-/

set_option autoImplicit false

namespace Interleaving

open Function GuardedRun

variable {ι σ γ π κ : Type}

/-- A state is a shared part and a part of its own. -/
structure Split (σ γ π : Type) where
  join : γ → π → σ
  shared : σ → γ
  own : σ → π
  join_split : ∀ s, join (shared s) (own s) = s
  shared_join : ∀ g o, shared (join g o) = g
  own_join : ∀ g o, own (join g o) = o

/-- The shared part, and the own part of each process. -/
structure System (ι γ π : Type) where
  shared : γ
  own : ι → π

/-- The state as process `p` sees it. -/
def System.view (S : Split σ γ π) (m : System ι γ π) (p : ι) : σ := S.join m.shared (m.own p)

/-- The system after process `p` has come to the state `t`. -/
def System.put [DecidableEq ι] (S : Split σ γ π) (m : System ι γ π) (p : ι) (t : σ) : System ι γ π :=
  ⟨S.shared t, update m.own p (S.own t)⟩

/-- Process `l.1` takes the step `l.2`. -/
def Step [DecidableEq ι] (S : Split σ γ π) (step : κ → σ → σ → Prop) (l : ι × κ) (m m' : System ι γ π) : Prop :=
  ∃ t, step l.2 (m.view S l.1) t ∧ m' = m.put S l.1 t

/-- The process that takes the step meets the condition. -/
def Ok (S : Split σ γ π) (ok : κ → σ → Prop) (l : ι × κ) (m : System ι γ π) : Prop := ok l.2 (m.view S l.1)

/-- The state of another process after one has come to `t`. -/
def Split.seen (S : Split σ γ π) (t u : σ) : σ := S.join (S.shared t) (S.own u)

variable {S : Split σ γ π} {step : κ → σ → σ → Prop} {ok : κ → σ → Prop}

/-- All processes see the same shared part. -/
theorem shared_view (m : System ι γ π) (p : ι) : S.shared (m.view S p) = m.shared := S.shared_join ..

section

variable [DecidableEq ι] {m m' : System ι γ π} {p q : ι} {t : σ}

@[simp] theorem view_put_self : (m.put S p t).view S p = t := by
  simp [System.view, System.put, S.join_split]

theorem view_put_of_ne (h : q ≠ p) : (m.put S p t).view S q = S.seen t (m.view S q) := by
  simp [System.view, System.put, Split.seen, update_of_ne h, S.own_join]

/-- **The rule for properties of one process**: a step keeps the property for its process, and for another one that sees
the same shared part. -/
theorem views {P : σ → Prop} (h : Run (Step S step) (Ok S ok) m m') (h0 : ∀ p, P (m.view S p))
    (hself : ∀ c s t, P s → ok c s → step c s t → P t)
    (hother : ∀ c s t u, P s → P u → S.shared u = S.shared s → ok c s → step c s t → P (S.seen t u)) (p : ι) :
    P (m'.view S p) := by
  refine h.invariant (P := fun m => ∀ p, P (m.view S p)) h0 (fun l m m' hP hok hs q => ?_) p
  obtain ⟨t, ht, rfl⟩ := hs
  by_cases hq : q = l.1
  · subst hq
    rw [view_put_self]
    exact hself _ _ _ (hP _) hok ht
  · rw [view_put_of_ne hq]
    exact hother _ _ _ _ (hP _) (hP q) ((shared_view m q).trans (shared_view m l.1).symm) hok ht

end

end Interleaving
