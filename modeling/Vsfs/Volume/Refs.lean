import Vsfs.Lib.PointerForest
import Vsfs.Model.AllocBlock

/-!
# The block map of an inode as references

The places that hold the number of a data-region block: the entries of `l1`, `l2` and `l3`, and the entries of the
pointer blocks that they point at. Data block `k` of a file is the reference `dataRef k`; `refsAt k` are the references
that come into use with it, the pointer blocks first.

- `used_succ`: what an inode with one more block uses;
- `fresh_refs`: the references of the blocks from `b` on are new to an inode with `b` blocks, parents first.
-/

set_option autoImplicit false

namespace Vsfs

open Function ByteSeq PointerForest WordBits

/-- A place in the block map of an inode: an entry of `l1`, of `l2`, of the pointer block of `l2[j]`, the field `l3`, an
entry of its block, an entry of the pointer block that this one lists. -/
inductive Ref
  | l1 (k : Nat)
  | l2 (j : Nat)
  | l2e (j k : Nat)
  | l3
  | l3e (q : Nat)
  | l3d (q k : Nat)
  deriving DecidableEq, Repr

/-- The reference whose block holds this one. -/
def Ref.parent : Ref → Option Ref
  | l2e j _ => some (l2 j)
  | l3e _ => some l3
  | l3d q _ => some (l3e q)
  | l1 _ | l2 _ | l3 => none

/-- The entry of the parent's block. -/
def Ref.slot : Ref → Nat
  | l2e _ k | l3d _ k => k
  | l3e q => q
  | l1 _ | l2 _ | l3 => 0

/-- The distance from the inode. -/
def Ref.rank : Ref → Nat
  | l3d _ _ => 2
  | l2e _ _ | l3e _ => 1
  | l1 _ | l2 _ | l3 => 0

/-- The references of all inodes. -/
def refForest : Forest (Nat × Ref) where
  parent p := p.2.parent.map fun r => (p.1, r)
  slot p := p.2.slot
  rank p := p.2.rank
  rank_lt := by
    rintro ⟨i, r⟩ p h
    cases r <;> simp only [Ref.parent, Option.map_some, Option.map_none, Option.some.injEq, reduceCtorEq] at h <;>
      subst h <;> simp [Ref.rank]
  slot_inj := by
    rintro ⟨i, r⟩ ⟨j, s⟩ p hr hs h
    simp only [Option.map_eq_some_iff] at hr hs
    obtain ⟨a, ha, rfl⟩ := hr
    obtain ⟨b, hb, he⟩ := hs
    obtain ⟨rfl, rfl⟩ := Prod.mk.inj he
    cases r <;> cases ha <;> cases s <;> cases hb <;> simp only [Ref.slot] at h <;> rw [h]

theorem parent_eq_some {i : Nat} {r : Ref} {p : Nat × Ref} :
    refForest.parent (i, r) = some p ↔ ∃ s, r.parent = some s ∧ p = (i, s) := by
  simp only [refForest, Option.map_eq_some_iff]
  exact ⟨fun ⟨s, h, e⟩ => ⟨s, h, e.symm⟩, fun ⟨s, h, e⟩ => ⟨s, h, e.symm⟩⟩

/-! ## Which references an inode uses -/

/-- The reference has a place in the map. -/
def Ref.Valid : Ref → Prop
  | l1 k => k < 49
  | l2 j => j < 5
  | l2e j k => j < 5 ∧ k < 1024
  | l3 => True
  | l3e q => q < 1024
  | l3d q k => q < 1024 ∧ k < 1024

/-- The first data block that needs the reference. -/
def Ref.first : Ref → Nat
  | l1 k => k
  | l2 j => 49 + 1024 * j
  | l2e j k => 49 + 1024 * j + k
  | l3 => 5169
  | l3e q => 5169 + 1024 * q
  | l3d q k => 5169 + 1024 * q + k

/-- The reference is to a data block, not to a pointer block. -/
def Ref.IsData : Ref → Prop
  | l1 _ | l2e _ _ | l3d _ _ => True
  | l2 _ | l3 | l3e _ => False

/-- An inode with `b` blocks uses the reference. -/
def Ref.Used (b : Nat) (r : Ref) : Prop := r.Valid ∧ r.first < b

/-- The reference to data block `k`. -/
def dataRef (k : Nat) : Ref :=
  if k < 49 then .l1 k
  else if k < 5169 then .l2e ((k - 49) / 1024) ((k - 49) % 1024)
  else .l3d ((k - 5169) / 1024) ((k - 5169) % 1024)

/-- The references to pointer blocks that data block `k` is the first to need. -/
def pointerRefs (k : Nat) : List Ref :=
  if k < 49 then []
  else if k < 5169 then if (k - 49) % 1024 = 0 then [.l2 ((k - 49) / 1024)] else []
  else (if k = 5169 then [.l3] else []) ++ if (k - 5169) % 1024 = 0 then [.l3e ((k - 5169) / 1024)] else []

/-- The references that come into use with data block `k`. -/
def refsAt (k : Nat) : List Ref := pointerRefs k ++ [dataRef k]

/-- The references that come into use with the `c` data blocks from `b` on. -/
def refs : Nat → Nat → List Ref
  | _, 0 => []
  | b, c + 1 => refsAt b ++ refs (b + 1) c

theorem dataRef_l1 {k : Nat} (h : k < 49) : dataRef k = .l1 k := by
  unfold dataRef
  rw [if_pos h]

theorem dataRef_l2e {j k : Nat} (hj : j < 5) (hk : k < 1024) : dataRef (49 + 1024 * j + k) = .l2e j k := by
  unfold dataRef
  rw [if_neg (by omega), if_pos (by omega), show (49 + 1024 * j + k - 49) / 1024 = j by omega,
    show (49 + 1024 * j + k - 49) % 1024 = k by omega]

theorem dataRef_l3d {q k : Nat} (hk : k < 1024) : dataRef (5169 + 1024 * q + k) = .l3d q k := by
  unfold dataRef
  rw [if_neg (by omega), if_neg (by omega), show (5169 + 1024 * q + k - 5169) / 1024 = q by omega,
    show (5169 + 1024 * q + k - 5169) % 1024 = k by omega]

/-- The reference to data block `k`, and when it is needed. -/
theorem dataRef_spec {k : Nat} (h : k < level3Limit) : (dataRef k).Valid ∧ (dataRef k).IsData ∧ (dataRef k).first = k := by
  unfold level3Limit at h
  unfold dataRef
  split
  · exact ⟨‹_›, trivial, rfl⟩
  · split
    · refine ⟨⟨by omega, by omega⟩, trivial, ?_⟩
      simp only [Ref.first]
      omega
    · refine ⟨⟨by omega, by omega⟩, trivial, ?_⟩
      simp only [Ref.first]
      omega

theorem dataRef_first {r : Ref} (h : r.Valid) (hd : r.IsData) : dataRef r.first = r := by
  cases r with
  | l1 k => exact dataRef_l1 h
  | l2e j k => exact dataRef_l2e h.1 h.2
  | l3d q k => exact dataRef_l3d h.2
  | l2 j => exact hd.elim
  | l3 => exact hd.elim
  | l3e q => exact hd.elim

theorem Ref.first_lt {r : Ref} (h : r.Valid) : r.first < level3Limit := by
  unfold level3Limit
  cases r <;> simp only [Ref.Valid] at h <;> simp only [Ref.first] <;> omega

/-- The references to pointer blocks at `k`. -/
theorem mem_pointerRefs {k : Nat} (h : k < level3Limit) {r : Ref} :
    r ∈ pointerRefs k ↔ r.Valid ∧ ¬r.IsData ∧ r.first = k := by
  unfold level3Limit at h
  unfold pointerRefs
  cases r with
  | l1 m => simp only [Ref.IsData, not_true_eq_false, false_and, and_false, iff_false]; split_ifs <;> simp
  | l2e j m => simp only [Ref.IsData, not_true_eq_false, false_and, and_false, iff_false]; split_ifs <;> simp
  | l3d q m => simp only [Ref.IsData, not_true_eq_false, false_and, and_false, iff_false]; split_ifs <;> simp
  | l2 j =>
    simp only [Ref.IsData, Ref.Valid, Ref.first, not_false_eq_true, true_and]
    split_ifs <;> simp <;> omega
  | l3 =>
    simp only [Ref.IsData, Ref.Valid, Ref.first, not_false_eq_true, true_and]
    split_ifs <;> simp <;> omega
  | l3e q =>
    simp only [Ref.IsData, Ref.Valid, Ref.first, not_false_eq_true, true_and]
    split_ifs <;> simp <;> omega

/-- **The references that come into use with data block `k`** are those first needed there. -/
theorem mem_refsAt {k : Nat} (h : k < level3Limit) {r : Ref} : r ∈ refsAt k ↔ r.Valid ∧ r.first = k := by
  unfold refsAt
  rw [List.mem_append, mem_pointerRefs h, List.mem_singleton]
  obtain ⟨hv, hd, hf⟩ := dataRef_spec h
  constructor
  · rintro (⟨h1, _, h2⟩ | rfl)
    · exact ⟨h1, h2⟩
    · exact ⟨hv, hf⟩
  · rintro ⟨h1, h2⟩
    by_cases hr : r.IsData
    · exact Or.inr (by rw [← h2, dataRef_first h1 hr])
    · exact Or.inl ⟨h1, hr, h2⟩

theorem refsAt_l1 {k : Nat} (h : k < 49) : refsAt k = [.l1 k] := by
  unfold refsAt pointerRefs
  rw [if_pos h, dataRef_l1 h, List.nil_append]

theorem refsAt_l2e {j k : Nat} (hj : j < 5) (hk : k < 1024) :
    refsAt (49 + 1024 * j + k) = (if k = 0 then [.l2 j] else []) ++ [.l2e j k] := by
  unfold refsAt pointerRefs
  rw [dataRef_l2e hj hk, if_neg (by omega), if_pos (by omega), show (49 + 1024 * j + k - 49) / 1024 = j by omega,
    show (49 + 1024 * j + k - 49) % 1024 = k by omega]

theorem refsAt_l3d {q k : Nat} (hk : k < 1024) : refsAt (5169 + 1024 * q + k) =
    (if q = 0 ∧ k = 0 then [.l3] else []) ++ (if k = 0 then [.l3e q] else []) ++ [.l3d q k] := by
  unfold refsAt pointerRefs
  rw [dataRef_l3d hk, if_neg (by omega), if_neg (by omega), show (5169 + 1024 * q + k - 5169) / 1024 = q by omega,
    show (5169 + 1024 * q + k - 5169) % 1024 = k by omega]
  by_cases h : q = 0 ∧ k = 0
  · rw [if_pos h, if_pos (by omega)]
  · rw [if_neg h, if_neg (by omega)]

theorem used_succ {b : Nat} (h : b < level3Limit) {r : Ref} : r.Used (b + 1) ↔ r.Used b ∨ r ∈ refsAt b := by
  unfold Ref.Used
  rw [mem_refsAt h]
  constructor
  · rintro ⟨hv, hlt⟩
    by_cases he : r.first = b
    · exact Or.inr ⟨hv, he⟩
    · exact Or.inl ⟨hv, by omega⟩
  · rintro (⟨hv, hlt⟩ | ⟨hv, he⟩)
    · exact ⟨hv, by omega⟩
    · exact ⟨hv, by omega⟩

theorem mem_refs {b c : Nat} (h : b + c ≤ level3Limit) {r : Ref} :
    r ∈ refs b c ↔ r.Valid ∧ b ≤ r.first ∧ r.first < b + c := by
  induction c generalizing b with
  | zero => simp only [refs, List.not_mem_nil, false_iff]; omega
  | succ c ih =>
    rw [refs, List.mem_append, mem_refsAt (by omega), ih (by omega)]
    constructor
    · rintro (⟨hv, he⟩ | ⟨hv, h1, h2⟩)
      · exact ⟨hv, by omega, by omega⟩
      · exact ⟨hv, by omega, by omega⟩
    · rintro ⟨hv, h1, h2⟩
      by_cases he : r.first = b
      · exact Or.inl ⟨hv, he⟩
      · exact Or.inr ⟨hv, by omega, by omega⟩

theorem refs_add (b c d : Nat) : refs b (c + d) = refs b c ++ refs (b + c) d := by
  induction c generalizing b with
  | zero => simp [refs]
  | succ c ih =>
    rw [Nat.succ_add, refs, refs, ih, List.append_assoc, show b + 1 + c = b + (c + 1) by omega]

/-- The parent of a used reference is used. -/
theorem Ref.Used.parent {b : Nat} {r s : Ref} (h : r.Used b) (hp : r.parent = some s) : s.Used b := by
  obtain ⟨hv, hlt⟩ := h
  cases r <;> simp only [Ref.parent, Option.some.injEq, reduceCtorEq] at hp <;> subst hp <;>
    simp only [Ref.Valid, Ref.first] at hv hlt
  · exact ⟨hv.1, by simp only [Ref.first]; omega⟩
  · exact ⟨trivial, by simp only [Ref.first]; omega⟩
  · exact ⟨hv.1, by simp only [Ref.first]; omega⟩

/-! ## New references -/

/-- The set with the references `rs` of inode `i`. -/
def addRefs (R : Set (Nat × Ref)) (i : Nat) (rs : List Ref) : Set (Nat × Ref) := {p | p ∈ R ∨ p.1 = i ∧ p.2 ∈ rs}

/-- The references `rs` of inode `i` are new to `R`, each comes after its parent. -/
inductive FreshRefs (i : Nat) : Set (Nat × Ref) → List Ref → Prop
  | nil (R : Set (Nat × Ref)) : FreshRefs i R []
  | cons {R : Set (Nat × Ref)} {r : Ref} {rs : List Ref} (hn : (i, r) ∉ R) (hp : ∀ s, r.parent = some s → (i, s) ∈ R)
      (h : FreshRefs i (insert (i, r) R) rs) : FreshRefs i R (r :: rs)

theorem addRefs_nil (R : Set (Nat × Ref)) (i : Nat) : addRefs R i [] = R := by
  simp [addRefs]

theorem addRefs_cons (R : Set (Nat × Ref)) (i : Nat) (r : Ref) (rs : List Ref) :
    addRefs (insert (i, r) R) i rs = addRefs R i (r :: rs) := by
  ext ⟨j, s⟩
  simp only [addRefs, Set.mem_ofPred_eq, Set.mem_insert_iff, Prod.mk.injEq, List.mem_cons]
  tauto

theorem addRefs_append (R : Set (Nat × Ref)) (i : Nat) (rs ss : List Ref) :
    addRefs (addRefs R i rs) i ss = addRefs R i (rs ++ ss) := by
  ext ⟨j, s⟩
  simp only [addRefs, Set.mem_ofPred_eq, List.mem_append]
  tauto

theorem FreshRefs.append {i : Nat} {R : Set (Nat × Ref)} {rs ss : List Ref} (h : FreshRefs i R rs)
    (h' : FreshRefs i (addRefs R i rs) ss) : FreshRefs i R (rs ++ ss) := by
  induction h with
  | nil R => rwa [addRefs_nil] at h'
  | cons hn hp _ ih => exact .cons hn hp (ih (by rwa [addRefs_cons]))

theorem FreshRefs.congr {i : Nat} {R R' : Set (Nat × Ref)} {rs : List Ref} (h : FreshRefs i R rs)
    (hR : ∀ r, (i, r) ∈ R' ↔ (i, r) ∈ R) : FreshRefs i R' rs := by
  induction h generalizing R' with
  | nil R => exact .nil R'
  | cons hn hp _ ih =>
    refine .cons (fun hr => hn ((hR _).mp hr)) (fun s hs => (hR s).mpr (hp s hs)) (ih fun s => ?_)
    simp only [Set.mem_insert_iff, hR]

/-- The references at `b`, for a set in which inode `i` has `b` blocks. -/
theorem fresh_refsAt {i b : Nat} {R : Set (Nat × Ref)} (hb : b < level3Limit)
    (hR : ∀ r, (i, r) ∈ R ↔ r.Used b) : FreshRefs i R (refsAt b) := by
  have hnew : ∀ r, r ∈ refsAt b → (i, r) ∉ R := by
    intro r hr hm
    have := ((mem_refsAt hb).mp hr).2
    have := ((hR r).mp hm).2
    omega
  have hlim : level3Limit = 1053745 := rfl
  by_cases h1 : b < 49
  · rw [refsAt_l1 h1] at hnew ⊢
    exact .cons (hnew _ (by simp)) (by simp [Ref.parent]) (.nil _)
  by_cases h2 : b < 5169
  · obtain ⟨j, k, hk, rfl⟩ : ∃ j k, k < 1024 ∧ b = 49 + 1024 * j + k := ⟨(b - 49) / 1024, (b - 49) % 1024, by omega⟩
    rw [refsAt_l2e (by omega) hk] at hnew ⊢
    by_cases h0 : k = 0
    · subst h0
      refine .cons (hnew _ (by simp)) (by simp [Ref.parent]) (.cons ?_ (by simp [Ref.parent]) (.nil _))
      simpa using hnew (.l2e j 0) (by simp)
    · rw [if_neg h0] at hnew ⊢
      refine .cons (hnew _ (by simp)) ?_ (.nil _)
      rintro s ⟨⟩
      exact (hR _).mpr ⟨by simp only [Ref.Valid]; omega, by simp only [Ref.first]; omega⟩
  · obtain ⟨q, k, hk, rfl⟩ : ∃ q k, k < 1024 ∧ b = 5169 + 1024 * q + k :=
      ⟨(b - 5169) / 1024, (b - 5169) % 1024, by omega⟩
    rw [refsAt_l3d hk] at hnew ⊢
    by_cases h0 : k = 0
    · subst h0
      by_cases hq : q = 0
      · subst hq
        refine .cons (hnew _ (by simp)) (by simp [Ref.parent])
          (.cons ?_ (by simp [Ref.parent]) (.cons ?_ (by simp [Ref.parent]) (.nil _)))
        · simpa using hnew (.l3e 0) (by simp)
        · simpa using hnew (.l3d 0 0) (by simp)
      · have hl3 : (i, Ref.l3) ∈ R := (hR _).mpr ⟨trivial, by simp only [Ref.first]; omega⟩
        rw [if_neg (by simp [hq])] at hnew ⊢
        refine .cons (hnew _ (by simp)) (by rintro s ⟨⟩; exact hl3) (.cons ?_ (by simp [Ref.parent]) (.nil _))
        simpa using hnew (.l3d q 0) (by simp)
    · rw [if_neg (by simp [h0]), if_neg h0] at hnew ⊢
      refine .cons (hnew _ (by simp)) ?_ (.nil _)
      rintro s ⟨⟩
      exact (hR _).mpr ⟨by simp only [Ref.Valid]; omega, by simp only [Ref.first]; omega⟩

/-- **The references of the blocks from `b` on** are new to an inode with `b` blocks, parents first. -/
theorem fresh_refs {i b c : Nat} {R : Set (Nat × Ref)} (h : b + c ≤ level3Limit)
    (hR : ∀ r, (i, r) ∈ R ↔ r.Used b) : FreshRefs i R (refs b c) := by
  induction c generalizing b R with
  | zero => exact .nil R
  | succ c ih =>
    refine (fresh_refsAt (by omega) hR).append (ih (by omega) fun r => ?_)
    simp only [addRefs, Set.mem_ofPred_eq, hR, true_and]
    exact (used_succ (by omega)).symm

end Vsfs
