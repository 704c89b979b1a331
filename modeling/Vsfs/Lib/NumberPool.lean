import Mathlib.Data.List.Nodup
import Mathlib.Order.Bounds.Basic

/-!
# A pool of numbers with least-element extraction

A pool has a set of free numbers and a list of the ones that have been handed out. Taking hands out the least free
number, if it is within reach; only a number that is held is put back.

- `Split all p`: the free and the held numbers of `p` are the numbers of `all`, each once;
- `Step.split`: a step keeps the split;
- `Split.fresh`: a number that is free is not held;
- `Split.free_eq`: with no number held, the numbers of `all` are free.
-/

set_option autoImplicit false

namespace NumberPool

/-- The free numbers, and those handed out and not put back. -/
structure Pool (α : Type) where
  free : Set α
  held : List α

variable {α : Type} {reach all : Set α} {p q : Pool α} {a : α}

/-- A call. -/
inductive Call (α : Type)
  | take
  | put (a : α)

/-- Only a held number is put back. -/
def Allowed : Call α → Pool α → Prop
  | .take, _ => True
  | .put a, p => a ∈ p.held

/-- What a call does. -/
inductive Step [LE α] [DecidableEq α] (reach : Set α) : Call α → Pool α → Pool α → Prop
  | take {p : Pool α} (a : α) (ha : a ∈ reach) (h : IsLeast p.free a) : Step reach .take p ⟨p.free \ {a}, a :: p.held⟩
  | empty {p : Pool α} (h : ∀ a, a ∈ p.free → a ∉ reach) : Step reach .take p p
  | put {p : Pool α} (a : α) : Step reach (.put a) p ⟨insert a p.free, p.held.erase a⟩

/-- The free and the held numbers are the numbers of `all`, each once. -/
structure Split (all : Set α) (p : Pool α) : Prop where
  nodup : p.held.Nodup
  held : ∀ a, a ∈ p.held → a ∈ all
  free : ∀ a, a ∈ p.free ↔ a ∈ all ∧ a ∉ p.held

theorem split_start (all : Set α) : Split all ⟨all, []⟩ :=
  ⟨List.nodup_nil, by simp, by simp⟩

theorem Split.take (h : Split all p) (ha : a ∈ p.free) : Split all ⟨p.free \ {a}, a :: p.held⟩ := by
  obtain ⟨hall, hnot⟩ := (h.free a).mp ha
  refine ⟨List.nodup_cons.mpr ⟨hnot, h.nodup⟩, ?_, ?_⟩
  · intro b hb
    rcases List.mem_cons.mp hb with rfl | hb
    · exact hall
    · exact h.held b hb
  · intro b
    simp only [Set.mem_sdiff, Set.mem_singleton_iff, h.free b, List.mem_cons]
    tauto

theorem Split.put [DecidableEq α] (h : Split all p) (ha : a ∈ p.held) : Split all ⟨insert a p.free, p.held.erase a⟩ := by
  refine ⟨h.nodup.erase a, ?_, ?_⟩
  · intro b hb
    exact h.held b (List.mem_of_mem_erase hb)
  · intro b
    have hall := h.held a ha
    simp only [Set.mem_insert_iff, h.free b, h.nodup.mem_erase_iff]
    by_cases hb : b = a
    · subst hb
      simp [hall]
    · simp [hb]

/-- **A step keeps the split.** -/
theorem Step.split [LE α] [DecidableEq α] {c : Call α} (hs : Step reach c p q) (hc : Allowed c p)
    (h : Split all p) : Split all q := by
  cases hs with
  | take a _ hl => exact h.take hl.1
  | empty => exact h
  | put a => exact h.put hc

/-- A number that is free is not held. -/
theorem Split.fresh (h : Split all p) (ha : a ∈ p.free) : a ∉ p.held := ((h.free a).mp ha).2

/-- With no number held, the numbers of `all` are free. -/
theorem Split.free_eq (h : Split all p) (hp : p.held = []) : p.free = all := by
  ext a
  rw [h.free a, hp]
  simp

end NumberPool
