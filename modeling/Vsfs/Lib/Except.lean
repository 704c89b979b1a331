import Mathlib.Tactic.Common

/-!
# Computations that may fail

A sequence of steps in `Except ε` that ends well went well at every step (`bind_eq_ok`), so a run can be peeled
apart one step at a time without unfolding anything. Two runs that do the same step by step are compared step by step
(`Alike.bind`).
-/

set_option autoImplicit false

namespace ExceptLib

variable {ε α β : Type}

@[simp] theorem ok_bind (a : α) (f : α → Except ε β) : (Except.ok a >>= f) = f a := rfl

@[simp] theorem error_bind (e : ε) (f : α → Except ε β) : (Except.error e >>= f) = .error e := rfl

/-- A step followed by others ends well exactly when the step does and the others do from its result. -/
theorem bind_eq_ok {x : Except ε α} {f : α → Except ε β} {b : β} :
    (x >>= f) = .ok b ↔ ∃ a, x = .ok a ∧ f a = .ok b := by
  cases x with
  | error e => exact ⟨fun h => (by cases h), fun ⟨_, h, _⟩ => (by cases h)⟩
  | ok a => exact ⟨fun h => ⟨a, rfl, h⟩, fun ⟨_, h, hf⟩ => (by cases h; exact hf)⟩

/-- The computation ends in the error `e`. -/
def isError [DecidableEq ε] (x : Except ε α) (e : ε) : Bool :=
  match x with
  | .ok _ => false
  | .error e' => decide (e' = e)

theorem isError_iff [DecidableEq ε] {x : Except ε α} {e : ε} : isError x e = true ↔ x = .error e := by
  cases x <;> simp [isError]

/-- A computation whose first component is known has a result. -/
theorem exists_of_map_fst {x : Except ε (α × β)} {a : α} (h : x.map Prod.fst = .ok a) : ∃ b, x = .ok (a, b) := by
  cases x with
  | error e => cases h
  | ok p =>
    cases h
    exact ⟨p.2, rfl⟩

/-! ## Two computations side by side -/

section

variable {α' β' : Type} {Q : α → α' → Prop} {R : β → β' → Prop} {x : Except ε α} {y : Except ε α'}

/-- Both computations end well, with results that are related, or both end in the same error. -/
inductive Alike (Q : α → α' → Prop) : Except ε α → Except ε α' → Prop
  | ok {a : α} {a' : α'} (h : Q a a') : Alike Q (.ok a) (.ok a')
  | error (e : ε) : Alike Q (.error e) (.error e)

/-- Steps that go alike, from results that are related on. -/
theorem Alike.bind {f : α → Except ε β} {g : α' → Except ε β'} (h : Alike Q x y)
    (hf : ∀ a a', Q a a' → Alike R (f a) (g a')) : Alike R (x >>= f) (y >>= g) := by
  cases h with
  | ok hq => exact hf _ _ hq
  | error e => exact .error e

theorem Alike.of_left {a : α} (h : Alike Q x y) (hx : x = .ok a) : ∃ a', y = .ok a' ∧ Q a a' := by
  cases h with
  | ok hq =>
    cases hx
    exact ⟨_, rfl, hq⟩
  | error e => cases hx

theorem Alike.of_right {a' : α'} (h : Alike Q x y) (hy : y = .ok a') : ∃ a, x = .ok a ∧ Q a a' := by
  cases h with
  | ok hq =>
    cases hy
    exact ⟨_, rfl, hq⟩
  | error e => cases hy

end

end ExceptLib
