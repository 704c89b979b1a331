import Mathlib.Data.List.Nodup
import Mathlib.Data.List.Perm.Subperm
import Mathlib.Data.List.Range
import Mathlib.Logic.Function.Basic
import Vsfs.Lib.Except

/-!
# Singly linked lists in a heap

A heap maps addresses to cells, freed or never allocated addresses to `none`; `next` is the link field of a cell.
`Chain h p as` says that following the links from `p` visits exactly the addresses `as` and ends at a null link.

- a chain is determined by its first link and visits no address twice (`unique`, `nodup`);
- changing a cell outside a chain keeps it (`frame`), the last cell can be relinked (`snoc`), the first and the last
  cell can be unlinked (`tail`, `dropLast`);
- `walk` collects the cells of a chain, with fuel (`walk_chain`).
-/

set_option autoImplicit false

namespace HeapChain

open Function

variable {α ε : Type}

/-- Addresses to cells. -/
abbrev Heap (α : Type) := Nat → Option α

section

variable (next : α → Option Nat)

/-- The links from `p` visit exactly the addresses `as`. -/
inductive Chain (h : Heap α) : Option Nat → List Nat → Prop
  | nil : Chain h none []
  | cons {a : Nat} {c : α} {as : List Nat} (hc : h a = some c) (ht : Chain h (next c) as) : Chain h (some a) (a :: as)

/-- The cells visited from `p`, with `dead` for a link to no cell and `loop` when the fuel runs out. -/
def walk (dead loop : ε) (h : Heap α) : Nat → Option Nat → Except ε (List (Nat × α))
  | _, none => .ok []
  | 0, some _ => .error loop
  | n + 1, some a =>
    match h a with
    | none => .error dead
    | some c => do
      let cs ← walk dead loop h n (next c)
      .ok ((a, c) :: cs)

end

variable {next : α → Option Nat} {h : Heap α} {p : Option Nat} {as : List Nat}

theorem Chain.unique {bs : List Nat} (ha : Chain next h p as) (hb : Chain next h p bs) : as = bs := by
  induction ha generalizing bs with
  | nil => cases hb; rfl
  | cons hc _ ih =>
    cases hb with
    | cons hc' ht' =>
      rw [hc] at hc'
      cases hc'
      rw [ih ht']

/-- Every visited address holds a cell. -/
theorem Chain.live (ha : Chain next h p as) : ∀ a ∈ as, ∃ c, h a = some c := by
  induction ha with
  | nil => simp
  | cons hc _ ih =>
    intro b hb
    rcases List.mem_cons.mp hb with rfl | hb
    · exact ⟨_, hc⟩
    · exact ih b hb

/-- A visited address starts a shorter chain. -/
theorem Chain.suffix (ha : Chain next h p as) : ∀ a ∈ as, ∃ bs, Chain next h (some a) bs ∧ bs.length ≤ as.length := by
  induction ha with
  | nil => simp
  | cons hc ht ih =>
    intro b hb
    rcases List.mem_cons.mp hb with rfl | hb
    · exact ⟨_, .cons hc ht, le_refl _⟩
    · obtain ⟨bs, hbs, hl⟩ := ih b hb
      exact ⟨bs, hbs, by simp only [List.length_cons]; omega⟩

theorem Chain.nodup (ha : Chain next h p as) : as.Nodup := by
  induction ha with
  | nil => exact List.nodup_nil
  | @cons a c as hc ht ih =>
    refine List.nodup_cons.mpr ⟨fun hm => ?_, ih⟩
    -- the address would start both the whole chain and a chain no longer than its tail
    obtain ⟨bs, hbs, hl⟩ := ht.suffix a hm
    have := Chain.unique (.cons hc ht) hbs
    rw [← this] at hl
    simp only [List.length_cons] at hl
    omega

/-- A change outside the chain keeps it. -/
theorem Chain.frame (ha : Chain next h p as) {g : Heap α} (hg : ∀ a ∈ as, g a = h a) : Chain next g p as := by
  induction ha with
  | nil => exact .nil
  | cons hc _ ih =>
    exact .cons (by rw [hg _ List.mem_cons_self]; exact hc) (ih fun a hm => hg a (List.mem_cons_of_mem _ hm))

theorem Chain.update_of_notMem (ha : Chain next h p as) {b : Nat} (hb : b ∉ as) (v : Option α) :
    Chain next (update h b v) p as :=
  ha.frame fun a hm => update_of_ne (by rintro rfl; exact hb hm) _ _

/-- A change of a visited cell that keeps its link keeps the chain. -/
theorem Chain.update_data (ha : Chain next h p as) {b : Nat} {c c' : α} (hb : h b = some c) (hn : next c' = next c) :
    Chain next (update h b (some c')) p as := by
  induction ha with
  | nil => exact .nil
  | @cons a d as hc _ ih =>
    by_cases hab : a = b
    · subst hab
      rw [hb] at hc
      cases hc
      refine .cons (update_self ..) ?_
      rw [hn]; exact ih
    · exact .cons (by rw [update_of_ne hab]; exact hc) ih

theorem Chain.eq_nil_iff (ha : Chain next h p as) : as = [] ↔ p = none := by
  cases ha <;> simp

/-- Linking a fresh cell behind the last one extends the chain. -/
theorem Chain.snoc (ha : Chain next h p as) {t n : Nat} {c c' d : α} (hl : as.getLast? = some t) (ht : h t = some c)
    (hn : n ∉ as) (hc' : next c' = some n) (hd : next d = none) :
    Chain next (update (update h n (some d)) t (some c')) p (as ++ [n]) := by
  induction ha with
  | nil => simp at hl
  | @cons a e as hc hta ih =>
    have hna : n ≠ a ∧ n ∉ as := by simpa [List.mem_cons, not_or] using hn
    by_cases hat : a = t
    · -- the last address starts the chain: by `nodup` it is the whole chain
      subst hat
      have hnil : as = [] := by
        cases as with
        | nil => rfl
        | cons b bs =>
          have hm : a ∈ b :: bs := List.mem_of_getLast? (by simpa using hl)
          exact absurd hm (List.nodup_cons.mp (Chain.nodup (.cons hc hta))).1
      subst hnil
      refine .cons (update_self ..) ?_
      rw [hc']
      refine .cons (c := d) (by rw [update_of_ne hna.1, update_self]) ?_
      rw [hd]; exact .nil
    · have hl' : as.getLast? = some t := by
        cases as with
        | nil => simp at hl; exact absurd hl hat
        | cons b bs => simpa using hl
      exact .cons (by rw [update_of_ne hat, update_of_ne hna.1.symm]; exact hc) (ih hl' hna.2)

/-- Cutting the link into the last cell and dropping that cell leaves the chain before it. -/
theorem Chain.dropLast (ha : Chain next h p as) {a b : Nat} {bs : List Nat} {c' : α} (hs : as = bs ++ [a, b])
    (hc' : next c' = none) (v : Option α) :
    Chain next (update (update h a (some c')) b v) p (bs ++ [a]) := by
  induction bs generalizing p as with
  | nil =>
    subst hs
    cases ha with
    | cons hc₁ ht =>
      have hne : a ≠ b := by
        rintro rfl
        exact absurd (Chain.nodup (.cons hc₁ ht)) (by simp)
      refine .cons (c := c') (by rw [update_of_ne hne, update_self]) ?_
      rw [hc']; exact .nil
  | cons x bs ih =>
    subst hs
    cases ha with
    | cons hx ht =>
      have hnd := Chain.nodup (.cons hx ht)
      have hxa : x ≠ a ∧ x ≠ b := by
        have hx : x ∉ bs ++ [a, b] := (List.nodup_cons.mp hnd).1
        simp only [List.mem_append, List.mem_cons, not_or] at hx
        exact ⟨hx.2.1, hx.2.2.1⟩
      exact .cons (by rw [update_of_ne hxa.2, update_of_ne hxa.1]; exact hx) (ih ht rfl)

/-- With as much fuel as cells, the walk visits the chain. -/
theorem walk_chain (dead loop : ε) (ha : Chain next h p as) : ∀ n, as.length ≤ n →
    ∃ cs, walk next dead loop h n p = .ok cs ∧ cs.map Prod.fst = as ∧ ∀ x ∈ cs, h x.1 = some x.2 := by
  induction ha with
  | nil => intro n _; exact ⟨[], by cases n <;> rfl, rfl, by simp⟩
  | @cons a c as hc _ ih =>
    intro n hn
    cases n with
    | zero => simp at hn
    | succ n =>
      obtain ⟨cs, hw, hm, hx⟩ := ih n (by simpa using hn)
      refine ⟨(a, c) :: cs, by simp [walk, hc, hw], by simp [hm], ?_⟩
      intro x hmem
      rcases List.mem_cons.mp hmem with rfl | hmem
      · exact hc
      · exact hx x hmem

/-- A walk that ends well visited a chain. -/
theorem chain_of_walk {dead loop : ε} : ∀ {n : Nat} {p : Option Nat} {cs : List (Nat × α)},
    walk next dead loop h n p = .ok cs → Chain next h p (cs.map Prod.fst) ∧ ∀ x ∈ cs, h x.1 = some x.2
  | 0, none, cs, hw => by cases hw; exact ⟨.nil, by simp⟩
  | 0, some a, cs, hw => by cases hw
  | n + 1, none, cs, hw => by cases hw; exact ⟨.nil, by simp⟩
  | n + 1, some a, cs, hw => by
    simp only [walk] at hw
    cases hc : h a with
    | none => rw [hc] at hw; cases hw
    | some c =>
      rw [hc] at hw
      obtain ⟨ds, hd, he⟩ := ExceptLib.bind_eq_ok.mp hw
      cases he
      obtain ⟨hch, hx⟩ := chain_of_walk hd
      refine ⟨.cons hc hch, ?_⟩
      intro x hmem
      rcases List.mem_cons.mp hmem with rfl | hmem
      · exact hc
      · exact hx x hmem

/-- A chain of addresses below `b` has at most `b` cells. -/
theorem Chain.length_le (ha : Chain next h p as) {b : Nat} (hb : ∀ a ∈ as, a < b) : as.length ≤ b := by
  have hsub : as ⊆ List.range b := fun a hm => List.mem_range.mpr (hb a hm)
  simpa using (ha.nodup.subperm hsub).length_le

end HeapChain
