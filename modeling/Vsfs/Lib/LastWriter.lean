import Vsfs.Lib.GuardedRun

/-!
# The last write to a cell

A step puts values into some cells and may spoil others; the rest it leaves alone. `LastWrite acc step ok s₀ s x a` says
that in a run from `s₀` to `s` the value `a` was put into the cell `x`, and that no later step of the run has put another
one there or spoiled the cell.

- `LastWrite.run`: there is such a run;
- `LastWrite.holds`: where each step leaves what it puts and keeps what it leaves alone, a cell holds the value that was
  put into it last.
-/

set_option autoImplicit false

namespace LastWriter

open GuardedRun

variable {σ κ χ α : Type}

/-- What a step puts into cells, and the cells that it spoils. -/
structure Accesses (κ σ χ α : Type) where
  puts : κ → σ → χ → α → Prop
  spoils : κ → σ → χ → Prop

/-- The step leaves the cell alone. -/
def Accesses.Spares (acc : Accesses κ σ χ α) (c : κ) (s : σ) (x : χ) : Prop :=
  (∀ a, ¬acc.puts c s x a) ∧ ¬acc.spoils c s x

/-- The last value that a run from `s₀` has put into a cell. -/
inductive LastWrite (acc : Accesses κ σ χ α) (step : κ → σ → σ → Prop) (ok : κ → σ → Prop) (s₀ : σ) : σ → χ → α → Prop
  | put {c : κ} {s t : σ} {x : χ} {a : α} (h : Run step ok s₀ s) (hc : ok c s) (hs : step c s t)
      (hp : acc.puts c s x a) : LastWrite acc step ok s₀ t x a
  | kept {c : κ} {s t : σ} {x : χ} {a : α} (h : LastWrite acc step ok s₀ s x a) (hc : ok c s) (hs : step c s t)
      (hn : acc.Spares c s x) : LastWrite acc step ok s₀ t x a

variable {acc : Accesses κ σ χ α} {step : κ → σ → σ → Prop} {ok : κ → σ → Prop} {s₀ s : σ} {x : χ} {a : α}

theorem LastWrite.run (h : LastWrite acc step ok s₀ s x a) : Run step ok s₀ s := by
  induction h with
  | put h hc hs => exact h.snoc hc hs
  | kept _ hc hs _ ih => exact ih.snoc hc hs

/-- **A cell holds what was put into it last**, where it holds a value after the step that puts it, and still holds it
after a step that leaves the cell alone. -/
theorem LastWrite.holds {P : σ → χ → α → Prop} (h : LastWrite acc step ok s₀ s x a)
    (hput : ∀ c u v y b, Run step ok s₀ u → ok c u → step c u v → acc.puts c u y b → P v y b)
    (hkeep : ∀ c u v y b, Run step ok s₀ u → ok c u → step c u v → acc.Spares c u y → P u y b → P v y b) : P s x a := by
  induction h with
  | put h hc hs hp => exact hput _ _ _ _ _ h hc hs hp
  | kept h hc hs hn ih => exact hkeep _ _ _ _ _ h.run hc hs hn ih

end LastWriter
