import Vsfs.Volume.Alloc
import Vsfs.Volume.Flatten

/-!
# The references in use, and how calls change them

`v.used` are the references that the inodes use. `v.Sound B` says that they own their blocks and that the root
directory starts with block 0. `Evolves B E v w`: after a change the volume is sound, the references in use of the
inodes outside `E` are still in use and hold what they held, and every other reference in use holds a block that was
free.

- `alloc_evolves`: `__alloc_block` with room for what it needs;
- `write_evolves`: writing a block that is not a pointer block in use;
- `Writable`: a block that is in use and no pointer block stays so.
-/

set_option autoImplicit false

namespace Vsfs

open Function ByteSeq PointerForest WordBits

/-- The references that the inodes use. -/
def Volume.used (v : Volume) : Set (Nat × Ref) := {p | p.1 < nrInodes ∧ p.2.Used (v.inode p.1).blocks}

/-- The references in use own their blocks below `B`; the root directory starts with block 0. -/
structure Volume.Sound (v : Volume) (B : Nat) : Prop where
  owns : v.Owns B v.used
  rootBlocks : 0 < (v.inode 0).blocks
  rootFirst : (v.inode 0).l1 0 = 0

/-- The volume after a change to the inodes in `E` and to free blocks. -/
structure Evolves (B : Nat) (E : Set Nat) (v w : Volume) : Prop where
  sound : w.Sound B
  keep : ∀ p, p ∈ v.used → p.1 ∉ E → p ∈ w.used ∧ w.val p = v.val p
  refs : ∀ p, p ∈ w.used → (p ∈ v.used ∧ w.val p = v.val p) ∨ bit v.cached.dbitmap (w.val p) = true
  free : ∀ a, bit w.cached.dbitmap a = true → bit v.cached.dbitmap a = true
  inodes : ∀ a, bit w.cached.ibitmap a = true → bit v.cached.ibitmap a = true
  ofsDregion : w.cached.sbi.ofsDregion = v.cached.sbi.ofsDregion
  bits : dbitmapBits w.cached.sbi = dbitmapBits v.cached.sbi

variable {v w : Volume} {B i : Nat} {E : Set Nat}

theorem mem_used {r : Ref} : (i, r) ∈ v.used ↔ i < nrInodes ∧ r.Used (v.inode i).blocks := Iff.rfl

theorem closed_used (v : Volume) : Closed refForest v.used := by
  rintro ⟨i, r⟩ p ⟨hi, hr⟩ hp
  obtain ⟨s, hs, rfl⟩ := parent_eq_some.mp hp
  exact ⟨hi, hr.parent hs⟩

theorem Evolves.refl (h : v.Sound B) : Evolves B E v v :=
  ⟨h, fun _ hp _ => ⟨hp, rfl⟩, fun _ hp => Or.inl ⟨hp, rfl⟩, fun _ h => h, fun _ h => h, rfl, rfl⟩

theorem Evolves.trans {u : Volume} (h : Evolves B E v u) (h' : Evolves B E u w) : Evolves B E v w := by
  refine ⟨h'.sound, fun p hp hE => ?_, fun p hp => ?_, fun a ha => h.free a (h'.free a ha),
    fun a ha => h.inodes a (h'.inodes a ha), h'.ofsDregion.trans h.ofsDregion, h'.bits.trans h.bits⟩
  · obtain ⟨hu, hv⟩ := h.keep p hp hE
    obtain ⟨hw, hu'⟩ := h'.keep p hu hE
    exact ⟨hw, hu'.trans hv⟩
  · rcases h'.refs p hp with ⟨hu, he⟩ | hf
    · rcases h.refs p hu with ⟨hv, he'⟩ | hf
      · exact Or.inl ⟨hv, he.trans he'⟩
      · exact Or.inr (by rwa [he])
    · exact Or.inr (h.free _ hf)

theorem Evolves.mono {E' : Set Nat} (h : Evolves B E v w) (hE : ∀ j, j ∈ E → j ∈ E') : Evolves B E' v w :=
  { h with keep := fun p hp hn => h.keep p hp fun he => hn (hE _ he) }

/-! ## Changes that keep the maps -/

/-- The block maps of the inodes are the same. -/
def Inode.SameMap (x y : Inode) : Prop := y.l1 = x.l1 ∧ y.l2 = x.l2 ∧ y.l3 = x.l3

/-- References of a closed set are the same when the maps of the inodes and the pointer blocks in use are. -/
theorem val_same {R : Set (Nat × Ref)} (hc : Closed refForest R) (hmap : ∀ j, (v.inode j).SameMap (w.inode j))
    (hofs : w.cached.sbi.ofsDregion = v.cached.sbi.ofsDregion)
    (hdisk : ∀ p, p ∈ R → ¬p.2.IsData → w.disk (v.lba (v.val p)) = v.disk (v.lba (v.val p))) :
    ∀ p, p ∈ R → w.val p = v.val p := by
  refine (reads_val v).agree (reads_val w) hc ?_ ?_
  · rintro ⟨j, r⟩ _ hp
    obtain ⟨h1, h2, h3⟩ := hmap j
    have hr : r.parent = none := by simpa [refForest] using hp
    cases r with
    | l2e | l3e | l3d => cases hr
    | l1 | l2 | l3 => simp only [Volume.val, h1, h2, h3]
  · rintro ⟨j, r⟩ p hr hp
    obtain ⟨s, hs, rfl⟩ := parent_eq_some.mp hp
    have hdata : ¬s.IsData := by
      cases r <;> cases hs <;> exact fun h => h
    unfold Volume.entry
    rw [lba_congr hofs rfl, hdisk _ (hc _ _ hr hp) hdata]

/-- A change that keeps the block maps, the bitmap and the pointer blocks, and no inode but one in `E` gets fewer
blocks. -/
theorem keep_evolves (h : v.Sound B) (hmap : ∀ j, (v.inode j).SameMap (w.inode j))
    (hblocks : ∀ j, (w.inode j).blocks = (v.inode j).blocks ∨ j ∈ E ∧ j ≠ 0 ∧ ∀ r : Ref, r.Used (w.inode j).blocks →
      r.Used (v.inode j).blocks)
    (hbit : w.cached.dbitmap = v.cached.dbitmap)
    (hib : ∀ a, bit w.cached.ibitmap a = true → bit v.cached.ibitmap a = true)
    (hofs : w.cached.sbi.ofsDregion = v.cached.sbi.ofsDregion)
    (hbits : dbitmapBits w.cached.sbi = dbitmapBits v.cached.sbi)
    (hdisk : ∀ p, p ∈ v.used → ¬p.2.IsData → w.disk (v.lba (v.val p)) = v.disk (v.lba (v.val p))) :
    Evolves B E v w := by
  have hval := val_same (closed_used v) hmap hofs hdisk
  have hsub : ∀ p, p ∈ w.used → p ∈ v.used := by
    rintro ⟨j, r⟩ ⟨hj, hr⟩
    rcases hblocks j with he | ⟨_, _, he⟩
    · exact ⟨hj, by rwa [he] at hr⟩
    · exact ⟨hj, he r hr⟩
  have hroot : (w.inode 0).blocks = (v.inode 0).blocks := by
    rcases hblocks 0 with he | ⟨_, he, _⟩
    · exact he
    · exact absurd rfl he
  refine ⟨⟨⟨?_, ?_, ?_, ?_⟩, by rw [hroot]; exact h.rootBlocks, by rw [(hmap 0).1]; exact h.rootFirst⟩, ?_, ?_, ?_, hib,
    hofs, hbits⟩
  · refine (h.owns.owned.mono (closed_used w) hsub).congr (fun p hp => hval p (hsub p hp)) fun a ha => ?_
    rwa [hbit] at ha
  · rw [hbit]
    exact h.owns.zero
  · rw [hofs]
    exact h.owns.addr
  · rw [hbits]
    exact h.owns.bits
  · rintro ⟨j, r⟩ hp hE
    refine ⟨?_, hval _ hp⟩
    rcases hblocks j with he | ⟨he, _⟩
    · exact ⟨hp.1, by rw [he]; exact hp.2⟩
    · exact absurd he hE
  · exact fun p hp => Or.inl ⟨hsub p hp, hval p (hsub p hp)⟩
  · intro a ha
    rwa [hbit] at ha

/-- Changing an inode but for its block map. -/
theorem modInode_evolves (h : v.Sound B) {f : Inode → Inode} (hmap : (v.inode i).SameMap (f (v.inode i)))
    (hb : (f (v.inode i)).blocks = (v.inode i).blocks ∨ i ∈ E ∧ i ≠ 0 ∧ ∀ r : Ref, r.Used (f (v.inode i)).blocks →
      r.Used (v.inode i).blocks) : Evolves B E v (v.modInode i f) := by
  refine keep_evolves h (fun j => ?_) (fun j => ?_) rfl (fun _ h => h) rfl rfl fun _ _ _ => rfl
  · by_cases hj : j = i
    · subst hj
      rwa [modInode_inode_self]
    · rw [modInode_inode_of_ne _ _ hj]
      exact ⟨rfl, rfl, rfl⟩
  · by_cases hj : j = i
    · subst hj
      rwa [modInode_inode_self]
    · rw [modInode_inode_of_ne _ _ hj]
      exact Or.inl rfl

/-- A block that is in use and no pointer block: data may be written to it. -/
structure Volume.Writable (v : Volume) (B b : Nat) : Prop where
  lt : b < B
  used : bit v.cached.dbitmap b = false
  leaf : ∀ p, p ∈ v.used → ¬p.2.IsData → v.val p ≠ b

theorem Evolves.writable {b : Nat} (h : Evolves B E v w) (hb : v.Writable B b) : w.Writable B b := by
  refine ⟨hb.lt, ?_, fun p hp hd he => ?_⟩
  · cases hw : bit w.cached.dbitmap b with
    | false => rfl
    | true => rw [← hb.used, h.free b hw]
  · rcases h.refs p hp with ⟨hv, heq⟩ | hf
    · exact hb.leaf p hv hd (heq ▸ he)
    · rw [he, hb.used] at hf
      contradiction

/-- The data blocks of an inode are writable. -/
theorem Volume.Sound.writable (h : v.Sound B) {p : Nat × Ref} (hp : p ∈ v.used) (hd : p.2.IsData) :
    v.Writable B (v.val p) := by
  refine ⟨h.owns.owned.lt p hp, ?_, fun q hq hnd he => ?_⟩
  · have := h.owns.owned.used p hp
    simpa using this
  · rw [h.owns.owned.inj q p hq hp he] at hnd
    exact hnd hd

/-- **Writing a block that is no pointer block in use** keeps all references. -/
theorem write_evolves (h : v.Sound B) {l : Nat} (hl : ∀ p, p ∈ v.used → ¬p.2.IsData → v.lba (v.val p) ≠ l) (x : Block) :
    Evolves B E v (v.writeBlock l x) :=
  keep_evolves h (fun _ => ⟨rfl, rfl, rfl⟩) (fun _ => Or.inl rfl) rfl (fun _ h => h) rfl rfl fun p hp hd =>
    writeBlock_disk_of_ne _ _ _ (hl p hp hd)

/-- A writable block is at no address of a pointer block in use. -/
theorem Volume.Writable.lba {b : Nat} (hb : v.Writable B b) (h : v.Sound B) :
    ∀ p, p ∈ v.used → ¬p.2.IsData → v.lba (v.val p) ≠ v.lba b := fun p hp hd he =>
  hb.leaf p hp hd (lba_inj h.owns.addr (h.owns.owned.lt p hp) hb.lt he)

/-! ## Allocation -/

/-- The blocks that `n` more data blocks of inode `i` need, pointer blocks included. -/
def Volume.need (v : Volume) (i n : Nat) : Nat :=
  (refs (v.inode i).blocks (min n (level3Limit - (v.inode i).blocks))).length

/-- References given to an inode, as a change of the volume. -/
theorem grown_evolves {c : Nat} (h : v.Sound B) (hi : i < nrInodes) (hc : (v.inode i).blocks + c ≤ level3Limit)
    (hp : Puts i (refs (v.inode i).blocks c) v w) (hroom : (refs (v.inode i).blocks c).length ≤ v.room B) :
    Evolves B E v w ∧ MapFrame i c v w ∧ (∀ l, w.disk l ≠ v.disk l →
      ∃ r, (i, r) ∈ w.used ∧ ¬r.IsData ∧ l = v.lba (w.val (i, r))) := by
  have hR : ∀ r, (i, r) ∈ v.used ↔ r.Used (v.inode i).blocks := fun r => ⟨fun h => h.2, fun h => ⟨hi, h⟩⟩
  have hg := hp.grown h.owns (fresh_refs hc hR) hroom
  have hf := hp.frame
  rw [refs_weight] at hf
  have hblocks := hp.blocks rfl hc
  have hused : w.used = addRefs v.used i (refs (v.inode i).blocks c) := by
    ext ⟨j, r⟩
    by_cases hj : j = i
    · subst hj
      rw [used_addRefs hc hR, mem_used, hblocks]
      exact ⟨fun h => h.2, fun h => ⟨hi, h⟩⟩
    · simp only [addRefs, Set.mem_ofPred_eq, hj, false_and, or_false, mem_used, hf.other j hj]
  have hkeep : ∀ p, p ∈ v.used → p ∈ w.used ∧ w.val p = v.val p := fun p hp =>
    ⟨by rw [hused]; exact Or.inl hp, hg.val p hp⟩
  have hroot : (0, Ref.l1 0) ∈ v.used := ⟨by decide, by simp [Ref.Valid], h.rootBlocks⟩
  refine ⟨⟨⟨by rw [hused]; exact hg.owns, ?_, (hg.val _ hroot).trans h.rootFirst⟩, fun p hp _ => hkeep p hp, fun p hp => ?_,
    hg.free, fun a ha => by rwa [hf.ibitmap] at ha, hg.ofsDregion, ?_⟩, hf, fun l hl => ?_⟩
  · exact Nat.lt_of_le_of_lt (Nat.zero_le _) (hkeep _ hroot).1.2.2
  · rw [hused] at hp
    rcases hp with hp | ⟨rfl, hr⟩
    · exact Or.inl ⟨hp, hg.val p hp⟩
    · exact Or.inr (hg.fresh _ hr)
  · obtain ⟨k, hk⟩ := hf.sbi
    rw [hk]
    rfl
  · obtain ⟨r, s, hr, hs, rfl⟩ := hg.disk l hl
    have hs' : (i, s) ∈ w.used :=
      closed_used w (i, r) (i, s) (by rw [hused]; exact Or.inr ⟨rfl, hr⟩) (parent_eq_some.mpr ⟨s, hs, rfl⟩)
    refine ⟨s, hs', ?_, rfl⟩
    cases r <;> cases hs <;> exact fun h => h

/-- A block given to the field `l3` of an inode that does not use it. -/
theorem spare_evolves {b : Nat} {v' : Volume} (h : v.Sound B) (hi : (v.inode i).blocks = level2Limit)
    (ht : v.getFreeDblock = .ok (b, v')) : Evolves B E v (v'.put i .l3 b) ∧ MapFrame i 0 v (v'.put i .l3 b) ∧
      (v'.put i .l3 b).disk = v.disk := by
  have hf : MapFrame i 0 v (v'.put i .l3 b) := put_frame (r := .l3) ht
  obtain ⟨hin, _, hdisk, k, hk⟩ := getFreeDblock_frame ht
  have hd : (v'.put i .l3 b).disk = v.disk := hdisk
  have hblocks : ∀ j, ((v'.put i .l3 b).inode j).blocks = (v.inode j).blocks := by
    intro j
    by_cases hj : j = i
    · subst hj
      rw [put_inode_self, hin]
      rfl
    · rw [hf.other j hj]
  have hused : (v'.put i .l3 b).used = v.used := by
    ext ⟨j, r⟩
    rw [mem_used, mem_used, hblocks]
  have hofs : (v'.put i .l3 b).cached.sbi.ofsDregion = v.cached.sbi.ofsDregion := by
    obtain ⟨k, hk⟩ := hf.sbi
    rw [hk]
  have hbits : dbitmapBits (v'.put i .l3 b).cached.sbi = dbitmapBits v.cached.sbi := by
    obtain ⟨k, hk⟩ := hf.sbi
    rw [hk]
    rfl
  have hnot : (i, Ref.l3) ∉ v.used := by
    rintro ⟨_, _, hlt⟩
    rw [hi] at hlt
    exact Nat.lt_irrefl 5169 hlt
  have hval : ∀ p, p ∈ v.used → (v'.put i .l3 b).val p = v.val p := by
    refine (reads_val v).agree (reads_val _) (closed_used v) (fun p hp hpar => ?_) fun r p _ _ => ?_
    · have hsame : v'.val p = v.val p := by
        obtain ⟨j, r⟩ := p
        have hr : r.parent = none := by simpa [refForest] using hpar
        cases r with
        | l2e | l3e | l3d => cases hr
        | l1 | l2 | l3 => simp only [Volume.val, congrFun hin j]
      rw [put_root hpar (by rintro rfl; exact hnot hp), hsame]
    · unfold Volume.entry
      rw [hd, lba_congr hofs rfl]
  have hfree : ∀ a, bit (v'.put i .l3 b).cached.dbitmap a = true → bit v.cached.dbitmap a = true := by
    intro a ha
    have hmap : (v'.put i .l3 b).cached.dbitmap = v'.cached.dbitmap := by rw [put_cached]; rfl
    rw [hmap] at ha
    obtain ⟨⟨b', c⟩, hc, ht⟩ := ExceptLib.bind_eq_ok.mp ht
    cases ht
    rcases getFreeDblock_cases hc h.owns.zero h.owns.bits with ⟨_, _, rfl⟩ | ⟨_, _, rfl⟩
    · simp only [Cached.takeDblock, bit_clear, Bool.and_eq_true] at ha
      exact ha.1
    · exact ha
  have hroot : (0, Ref.l1 0) ∈ v.used := ⟨by decide, by simp [Ref.Valid], h.rootBlocks⟩
  refine ⟨⟨⟨⟨?_, ?_, ?_, ?_⟩, by rw [hblocks]; exact h.rootBlocks, (hval _ hroot).trans h.rootFirst⟩,
    fun p hp _ => ⟨by rwa [hused], hval p hp⟩, fun p hp => ?_, hfree, fun a ha => by rwa [hf.ibitmap] at ha, hofs,
    hbits⟩, hf, hd⟩
  · rw [hused]
    exact h.owns.owned.congr hval hfree
  · cases hz : bit (v'.put i .l3 b).cached.dbitmap 0 with
    | false => rfl
    | true => rw [← h.owns.zero, hfree 0 hz]
  · rw [hofs]
    exact h.owns.addr
  · rw [hbits]
    exact h.owns.bits
  · rw [hused] at hp
    exact Or.inl ⟨hp, hval p hp⟩

/-- **`__alloc_block`**, with room for the blocks that it needs. -/
theorem alloc_evolves {n r : Nat} (h : v.Sound B) (hi : i < nrInodes) (hb : (v.inode i).blocks ≤ level3Limit)
    (hroom : v.need i n ≤ v.room B) (ha : allocBlock v.cached.sbi.ofsDregion i n v = .ok (r, w)) :
    Evolves B E v w ∧ MapFrame i (min n (level3Limit - (v.inode i).blocks)) v w ∧ (∀ l, w.disk l ≠ v.disk l →
      ∃ r, (i, r) ∈ w.used ∧ ¬r.IsData ∧ l = v.lba (w.val (i, r))) := by
  have hR : ∀ r, (i, r) ∈ v.used ↔ r.Used (v.inode i).blocks := fun r => ⟨fun h => h.2, fun h => ⟨hi, h⟩⟩
  have hp := allocBlock_puts rfl h.owns hR hroom ha hb
  by_cases hs : (v.inode i).blocks = level2Limit ∧ min n (level3Limit - (v.inode i).blocks) = 0
  · obtain ⟨h2, h0⟩ := hs
    rw [h0, h2, newRefs_spare] at hp
    rw [h0]
    obtain _ | @⟨_, _, a, _, v', _, ht, hp⟩ := hp
    cases hp
    obtain ⟨he, hf, hd⟩ := spare_evolves (E := E) h h2 ht
    exact ⟨he, hf, fun l hl => absurd (by rw [hd]) hl⟩
  · rw [newRefs_of_ne (by omega)] at hp
    exact grown_evolves h hi (by omega) hp hroom

end Vsfs
