import Mathlib.Logic.Relation

/-!
# Runs whose steps meet a condition

`Run step ok s t`: `t` is reached from `s` by steps labelled by calls, each taken in a state where the call meets the
condition `ok`. A property that such a step preserves holds in every state of such a run (`Run.invariant`).
-/

set_option autoImplicit false

namespace GuardedRun

variable {σ κ : Type}

/-- The states reached from `s` by calls that all meet `ok`. -/
def Run (step : κ → σ → σ → Prop) (ok : κ → σ → Prop) : σ → σ → Prop :=
  Relation.ReflTransGen fun s t => ∃ c, ok c s ∧ step c s t

variable {step : κ → σ → σ → Prop} {ok : κ → σ → Prop} {s t : σ}

theorem Run.refl (s : σ) : Run step ok s s := Relation.ReflTransGen.refl

theorem Run.snoc {u : σ} (h : Run step ok s t) {c : κ} (hc : ok c t) (hs : step c t u) : Run step ok s u :=
  Relation.ReflTransGen.tail h ⟨c, hc, hs⟩

/-- **The invariant rule**: what holds at the start and is kept by every step that meets the condition holds at the
end. -/
theorem Run.invariant {P : σ → Prop} (h : Run step ok s t) (h0 : P s)
    (hstep : ∀ c u v, P u → ok c u → step c u v → P v) : P t := by
  induction h with
  | refl => exact h0
  | tail _ hs ih =>
    obtain ⟨c, hc, hcs⟩ := hs
    exact hstep c _ _ ih hc hcs

/-- A run under a condition is a run under a weaker one. -/
theorem Run.mono {ok' : κ → σ → Prop} (h : Run step ok s t) (hw : ∀ c u, ok c u → ok' c u) : Run step ok' s t := by
  induction h with
  | refl => exact Run.refl s
  | tail _ hs ih =>
    obtain ⟨c, hc, hcs⟩ := hs
    exact ih.snoc (hw c _ hc) hcs

end GuardedRun
