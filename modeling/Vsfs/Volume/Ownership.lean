import Vsfs.Volume.Cases
import Vsfs.Volume.Refs

/-!
# Ownership of data-region blocks

`v.val (i, r)` is the block number at reference `r` of inode `i`. `v.Owns B R` says that the references of `R` hold
different numbers below `B` whose bits are cleared.

- `take_spec`: with room left, `get_free_dblock` returns a free block below the bound;
- `Volume.put`: assigning a block to a reference, as the loops of `__alloc_block` do it but without their buffers;
- `Puts.grown`: a sequence of such assignments to new references keeps all others and owns the new ones.
-/

set_option autoImplicit false

namespace Vsfs

open Function ByteSeq PointerForest WordBits

/-! ## References in a volume -/

/-- Entry `k` of the pointer block with number `a`. -/
def Volume.entry (v : Volume) (a k : Nat) : Nat := pointer (v.disk (v.lba a)) k

/-- The block number at a reference. -/
def Volume.val (v : Volume) : Nat × Ref → Nat
  | (i, .l1 k) => (v.inode i).l1 k
  | (i, .l2 j) => (v.inode i).l2 j
  | (i, .l2e j k) => v.entry ((v.inode i).l2 j) k
  | (i, .l3) => (v.inode i).l3
  | (i, .l3e q) => v.entry (v.inode i).l3 q
  | (i, .l3d q k) => v.entry (v.entry (v.inode i).l3 q) k

theorem reads_val (v : Volume) : Reads refForest v.entry v.val := by
  rintro ⟨i, r⟩ p h
  obtain ⟨s, hs, rfl⟩ := parent_eq_some.mp h
  cases r <;> cases hs <;> rfl

/-- The references of `R` hold different block numbers below `B`, none of them free; bit 0 is never free. -/
structure Volume.Owns (v : Volume) (B : Nat) (R : Set (Nat × Ref)) : Prop where
  owned : Owned refForest v.val B (fun a => bit v.cached.dbitmap a = true) R
  zero : bit v.cached.dbitmap 0 = false
  addr : v.cached.sbi.ofsDregion + B ≤ 2 ^ 32
  bits : dbitmapBits v.cached.sbi ≤ 2 ^ 32

/-- The free blocks below `B` that the allocator reaches. -/
def Volume.room (v : Volume) (B : Nat) : Nat := (freeBelow v.cached.dbitmap (min B (dbitmapBits v.cached.sbi))).card

variable {v w : Volume} {B i b : Nat} {R : Set (Nat × Ref)}

theorem lba_of_lt {a : Nat} (h : v.cached.sbi.ofsDregion + B ≤ 2 ^ 32) (ha : a < B) :
    v.lba a = v.cached.sbi.ofsDregion + a := by
  unfold Volume.lba
  exact Nat.mod_eq_of_lt (by omega)

theorem lba_inj {a c : Nat} (h : v.cached.sbi.ofsDregion + B ≤ 2 ^ 32) (ha : a < B) (hc : c < B)
    (he : v.lba a = v.lba c) : a = c := by
  rw [lba_of_lt h ha, lba_of_lt h hc] at he
  omega

/-- **With room left** the allocator takes a free block below the bound. -/
theorem take_spec (h0 : bit v.cached.dbitmap 0 = false) (h32 : dbitmapBits v.cached.sbi ≤ 2 ^ 32)
    (hroom : 0 < v.room B) (h : v.getFreeDblock = .ok (b, w)) :
    b < B ∧ b < 2 ^ 32 ∧ Least v.cached.dbitmap (dbitmapBits v.cached.sbi) b ∧
      w = { v with cached := v.cached.takeDblock b } ∧ w.room B + 1 = v.room B := by
  obtain ⟨⟨b', c⟩, hc, h⟩ := ExceptLib.bind_eq_ok.mp h
  cases h
  obtain ⟨x, hx⟩ := Finset.card_pos.mp hroom
  obtain ⟨hxm, hxb⟩ := mem_freeBelow.mp hx
  rcases getFreeDblock_cases hc h0 h32 with ⟨hb0, hl, rfl⟩ | ⟨_, he, _⟩
  · have hbx : b ≤ x := by
      by_contra hlt
      have := hl.low x (by omega)
      rw [hxb] at this
      contradiction
    refine ⟨by omega, lt_of_lt_of_le hl.lt h32, hl, rfl, ?_⟩
    exact card_freeBelow_clear (lt_of_le_of_lt hbx hxm) hl.bit
  · have hmem : x ∈ freeBelow v.cached.dbitmap (dbitmapBits v.cached.sbi) := mem_freeBelow.mpr ⟨by omega, hxb⟩
    rw [he] at hmem
    exact absurd hmem (Finset.notMem_empty x)

/-! ## Assigning a block to a reference -/

/-- What assigning `b` to a reference changes in the inode: with a data block it has one more. -/
def Ref.assign (r : Ref) (b : Nat) (x : Inode) : Inode :=
  match r with
  | .l1 k => { x with l1 := update x.l1 k b, blocks := succ32 x.blocks }
  | .l2 j => { x with l2 := update x.l2 j b }
  | .l3 => { x with l3 := b }
  | .l3e _ => x
  | .l2e _ _ | .l3d _ _ => { x with blocks := succ32 x.blocks }

/-- Assign `b` to entry `k` of the pointer block with number `a`. -/
def Volume.setEntry (v : Volume) (a k b : Nat) : Volume :=
  v.writeBlock (v.lba a) (setPointer (v.disk (v.lba a)) k b)

/-- What assigning `b` to a reference of inode `i` changes on the device. -/
def Volume.putEntry (v : Volume) (i : Nat) (r : Ref) (b : Nat) : Volume :=
  match r.parent with
  | none => v
  | some s => v.setEntry (v.val (i, s)) r.slot b

/-- Assign `b` to a reference of inode `i`. -/
def Volume.put (v : Volume) (i : Nat) (r : Ref) (b : Nat) : Volume := (v.putEntry i r b).modInode i (r.assign b)

/-- The block that a reference is an entry of. -/
theorem val_parent {r s : Ref} (h : r.parent = some s) : v.val (i, r) = v.entry (v.val (i, s)) r.slot := by
  cases r <;> cases h <;> rfl

theorem putEntry_cached {r : Ref} : (v.putEntry i r b).cached = v.cached := by
  unfold Volume.putEntry
  split <;> rfl

theorem put_cached {r : Ref} : (v.put i r b).cached = (v.modInode i (r.assign b)).cached := by
  unfold Volume.put Volume.modInode
  simp only [putEntry_cached]

theorem put_inode_self {r : Ref} : (v.put i r b).inode i = r.assign b (v.inode i) := by
  unfold Volume.inode
  rw [put_cached]
  exact modInode_inode_self ..

theorem put_inode_of_ne {r : Ref} {j : Nat} (h : j ≠ i) : (v.put i r b).inode j = v.inode j := by
  unfold Volume.inode
  rw [put_cached]
  exact modInode_inode_of_ne _ _ h

theorem put_lba {r : Ref} {a : Nat} : (v.put i r b).lba a = v.lba a := by
  unfold Volume.lba
  rw [put_cached]
  rfl

/-- Only the block that the reference is an entry of is written. -/
theorem put_disk {r : Ref} {l : Nat} (h : ∀ s, r.parent = some s → l ≠ v.lba (v.val (i, s))) :
    (v.put i r b).disk l = v.disk l := by
  unfold Volume.put Volume.putEntry
  rw [modInode_disk]
  split
  · rfl
  · exact writeBlock_disk_of_ne _ _ _ (h _ ‹_›)

/-- The block that the reference is an entry of, after the assignment. -/
theorem put_entry_parent {r s : Ref} (h : r.parent = some s) (k : Nat) : (v.put i r b).entry (v.val (i, s)) k =
    pointer (setPointer (v.disk (v.lba (v.val (i, s)))) r.slot b) k := by
  unfold Volume.entry
  rw [put_lba]
  unfold Volume.put Volume.putEntry
  rw [h, modInode_disk]
  exact congrArg (pointer · k) (writeBlock_disk_self ..)

/-- The entries of pointer blocks after an assignment. -/
theorem put_entry {r : Ref} {a k : Nat} (haddr : v.cached.sbi.ofsDregion + B ≤ 2 ^ 32) (ha : a < B)
    (hpar : ∀ s, r.parent = some s → v.val (i, s) < B)
    (h : ∀ s, r.parent = some s → a = v.val (i, s) → k ≠ r.slot) : (v.put i r b).entry a k = v.entry a k := by
  by_cases he : ∃ s, r.parent = some s ∧ v.lba a = v.lba (v.val (i, s))
  · obtain ⟨s, hs, hl⟩ := he
    obtain rfl := lba_inj haddr ha (hpar s hs) hl
    rw [put_entry_parent hs, pointer_setPointer_of_ne _ _ (h s hs rfl)]
    rfl
  · unfold Volume.entry
    rw [put_lba, put_disk fun s hs hl => he ⟨s, hs, hl⟩]

/-- The other roots of the inode. -/
theorem assign_root {r s : Ref} (hs : s.parent = none) (hne : s ≠ r) {x y : Volume} (h : y.inode i = r.assign b (x.inode i)) :
    y.val (i, s) = x.val (i, s) := by
  cases s with
  | l2e | l3e | l3d => cases hs
  | l1 k =>
    simp only [Volume.val, h]
    cases r <;> simp only [Ref.assign]
    exact update_of_ne (by rintro rfl; exact hne rfl) _ _
  | l2 j =>
    simp only [Volume.val, h]
    cases r <;> simp only [Ref.assign]
    exact update_of_ne (by rintro rfl; exact hne rfl) _ _
  | l3 =>
    simp only [Volume.val, h]
    cases r <;> simp only [Ref.assign]
    exact absurd rfl hne

/-- The roots after an assignment. -/
theorem put_root {r : Ref} {p : Nat × Ref} (hp : refForest.parent p = none) (hne : p ≠ (i, r)) :
    (v.put i r b).val p = v.val p := by
  obtain ⟨j, s⟩ := p
  have hs : s.parent = none := by simpa [refForest] using hp
  by_cases hj : j = i
  · subst hj
    exact assign_root hs (fun h => hne (by rw [h])) put_inode_self
  · cases s with
    | l2e | l3e | l3d => cases hs
    | l1 | l2 | l3 => simp only [Volume.val, put_inode_of_ne hj]

/-- A reference holds what has been assigned to it, provided that its parent holds what it held. -/
theorem put_val_self {r : Ref} (hb : b < 2 ^ 32)
    (hpar : ∀ s, r.parent = some s → (v.put i r b).val (i, s) = v.val (i, s)) : (v.put i r b).val (i, r) = b := by
  cases hp : r.parent with
  | none =>
    cases r with
    | l2e | l3e | l3d => cases hp
    | l1 | l2 | l3 => simp [Volume.val, put_inode_self, Ref.assign]
  | some s => rw [val_parent hp, hpar s hp, put_entry_parent hp, pointer_setPointer_self, Nat.mod_eq_of_lt hb]

/-! ## One block more -/

/-- What holds after the references `rs` of inode `i`, new to `R`, have been given free blocks. -/
structure Grown (B i : Nat) (R : Set (Nat × Ref)) (rs : List Ref) (v w : Volume) : Prop where
  owns : w.Owns B (addRefs R i rs)
  val : ∀ p, p ∈ R → w.val p = v.val p
  fresh : ∀ r, r ∈ rs → bit v.cached.dbitmap (w.val (i, r)) = true
  free : ∀ a, bit w.cached.dbitmap a = true → bit v.cached.dbitmap a = true
  room : w.room B + rs.length = v.room B
  disk : ∀ l, w.disk l ≠ v.disk l → ∃ r s, r ∈ rs ∧ r.parent = some s ∧ l = v.lba (w.val (i, s))
  ofsDregion : w.cached.sbi.ofsDregion = v.cached.sbi.ofsDregion

/-- A free block taken and assigned to a new reference. -/
theorem put_grown {r : Ref} {v' : Volume} (h : v.Owns B R) (hr : (i, r) ∉ R) (hp : ∀ s, r.parent = some s → (i, s) ∈ R)
    (hroom : 0 < v.room B) (ht : v.getFreeDblock = .ok (b, v')) : Grown B i R [r] v (v'.put i r b) := by
  obtain ⟨hbB, hb32, hleast, rfl, hrm⟩ := take_spec h.zero h.bits hroom ht
  have hbit := hleast.bit
  -- taking the block changes the bitmap and a counter only
  have hval : ∀ p, Volume.val { v with cached := v.cached.takeDblock b } p = v.val p := by
    rintro ⟨j, r⟩
    cases r <;> rfl
  have hent : Volume.entry { v with cached := v.cached.takeDblock b } = v.entry := rfl
  have hp' : ∀ p, refForest.parent (i, r) = some p → p ∈ R := by
    intro p hp'
    obtain ⟨s, hs, rfl⟩ := parent_eq_some.mp hp'
    exact hp s hs
  have hroot : ∀ p, p ∈ R → refForest.parent p = none →
      (Volume.put { v with cached := v.cached.takeDblock b } i r b).val p = v.val p := by
    intro p hpR hpar
    rw [put_root hpar (by rintro rfl; exact hr hpR), hval]
  have hmem : ∀ a k, a < B → (∀ p, refForest.parent (i, r) = some p → a = v.val p → k ≠ refForest.slot (i, r)) →
      (Volume.put { v with cached := v.cached.takeDblock b } i r b).entry a k = v.entry a k := by
    intro a k ha hk
    refine Eq.trans (put_entry (B := B) h.addr ha ?_ ?_) (congrFun (congrFun hent a) k)
    · intro s hs
      rw [hval]
      exact h.owned.lt _ (hp s hs)
    · intro s hs he
      rw [hval] at he
      exact hk (i, s) (parent_eq_some.mpr ⟨s, hs, rfl⟩) he
  have hsame := h.owned.assign_val (reads_val v) (reads_val _) hr hroot hmem hp'
  have hself : (Volume.put { v with cached := v.cached.takeDblock b } i r b).val (i, r) = b :=
    put_val_self hb32 fun s hs => by rw [hsame _ (hp s hs), hval]
  have hown := h.owned.assign (reads_val v) (reads_val _) hr hroot hmem hp' hself hbit hbB
  have hsbi : (Volume.put { v with cached := v.cached.takeDblock b } i r b).cached.sbi =
      (v.cached.takeDblock b).sbi := by rw [put_cached]; rfl
  have hmap : (Volume.put { v with cached := v.cached.takeDblock b } i r b).cached.dbitmap =
      clear v.cached.dbitmap b := by rw [put_cached]; rfl
  have hadd : addRefs R i [r] = insert (i, r) R := by rw [← addRefs_cons, addRefs_nil]
  refine ⟨⟨?_, ?_, ?_, ?_⟩, hsame, ?_, ?_, ?_, ?_, ?_⟩
  · rw [hadd, hmap]
    exact hown.congr (fun _ _ => rfl) fun a ha => by simpa using ha
  · rw [hmap]
    simp [h.zero]
  · rw [hsbi]
    exact h.addr
  · rw [hsbi]
    exact h.bits
  · intro s hs
    rw [List.mem_singleton] at hs
    rw [hs, hself]
    exact hbit
  · intro a ha
    rw [hmap] at ha
    simp only [bit_clear, Bool.and_eq_true] at ha
    exact ha.1
  · unfold Volume.room
    rw [hmap, hsbi]
    exact hrm
  · intro l hl
    by_contra hno
    refine hl (put_disk fun s hs he => hno ⟨r, s, List.mem_singleton_self r, hs, ?_⟩)
    rw [he, hsame _ (hp s hs), hval]
    rfl
  · rw [hsbi]
    rfl

/-! ## Many blocks more -/

/-- The references `rs` of inode `i` are given blocks one after the other. -/
inductive Puts (i : Nat) : List Ref → Volume → Volume → Prop
  | nil (v : Volume) : Puts i [] v v
  | cons {r : Ref} {rs : List Ref} {b : Nat} {v v' w : Volume} (hb : v.getFreeDblock = .ok (b, v'))
      (h : Puts i rs (v'.put i r b) w) : Puts i (r :: rs) v w

theorem Puts.append {rs ss : List Ref} {u : Volume} (h : Puts i rs v u) (h' : Puts i ss u w) : Puts i (rs ++ ss) v w := by
  induction h with
  | nil => exact h'
  | cons hb _ ih => exact .cons hb (ih h')

theorem Grown.refl (h : v.Owns B R) : Grown B i R [] v v :=
  ⟨by rwa [addRefs_nil], fun _ _ => rfl, by simp, fun _ h => h, rfl, fun l hl => absurd rfl hl, rfl⟩

theorem Grown.trans {rs ss : List Ref} {u : Volume} (h : Grown B i R rs v u) (h' : Grown B i (addRefs R i rs) ss u w) :
    Grown B i R (rs ++ ss) v w := by
  refine ⟨?_, fun p hp => ?_, fun r hr => ?_, fun a ha => h.free a (h'.free a ha), ?_, fun l hl => ?_,
    h'.ofsDregion.trans h.ofsDregion⟩
  · rw [← addRefs_append]
    exact h'.owns
  · rw [h'.val p (Or.inl hp), h.val p hp]
  · rcases List.mem_append.mp hr with hr | hr
    · rw [h'.val _ (Or.inr ⟨rfl, hr⟩)]
      exact h.fresh r hr
    · exact h.free _ (h'.fresh r hr)
  · have h1 := h.room
    have h2 := h'.room
    rw [List.length_append]
    omega
  · by_cases hu : w.disk l = u.disk l
    · rw [hu] at hl
      obtain ⟨r, s, hr, hs, rfl⟩ := h.disk l hl
      refine ⟨r, s, List.mem_append_left _ hr, hs, ?_⟩
      rw [h'.val]
      exact h.owns.owned.closed (i, r) (i, s) (Or.inr ⟨rfl, hr⟩) (parent_eq_some.mpr ⟨s, hs, rfl⟩)
    · obtain ⟨r, s, hr, hs, rfl⟩ := h'.disk l hu
      refine ⟨r, s, List.mem_append_right _ hr, hs, ?_⟩
      unfold Volume.lba
      rw [h.ofsDregion]

/-- **Giving blocks to new references**, parents first, with room for all. -/
theorem Puts.grown {rs : List Ref} (h : Puts i rs v w) (ho : v.Owns B R) (hf : FreshRefs i R rs)
    (hroom : rs.length ≤ v.room B) : Grown B i R rs v w := by
  induction h generalizing R with
  | nil v => exact .refl ho
  | @cons r rs b v v' w hb _ ih =>
    obtain _ | ⟨h1, h2, h3⟩ := hf
    rw [List.length_cons] at hroom
    have hg := put_grown ho h1 h2 (by omega) hb
    have hadd : addRefs R i [r] = insert (i, r) R := by rw [← addRefs_cons, addRefs_nil]
    have hr := hg.room
    rw [List.length_singleton] at hr
    exact hg.trans (ih hg.owns (by rwa [hadd]) (by omega))

end Vsfs
