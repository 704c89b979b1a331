import Vsfs.Volume.Used

/-!
# How `vsfs_creat` changes the volume

- `addingEntry_added`: entering a file into the directory and giving it its blocks;
- `growRoot_evolves`: a block for the directory;
- `creat_done`: `vsfs_creat` of a new name.
-/

set_option autoImplicit false

namespace Vsfs

open Function ByteSeq WordBits

variable {v w : Volume} {B i : Nat} {E : Set Nat}

/-! ## `vsfs_creat` -/

/-- The blocks that a new file of `n` blocks needs, as far as the map reaches. -/
def fileNeed (n : Nat) : Nat := (refs 0 (min n level3Limit)).length

/-- The volume with a file entered: inode `i`, `n` blocks, in slot `e` of block `d`. -/
structure EntryAdded (B now : Nat) (name : CStr) (n i d e : Nat) (v w : Volume) : Prop where
  evolves : Evolves B {i} v w
  slot : e < filesPerBlock
  lt : i < nrInodes
  other : ∀ j, j ≠ i → j ≠ 0 → w.inode j = v.inode j
  root : w.inode 0 = { v.inode 0 with size := succ32 (v.inode 0).size, atime := now, mtime := now }
  blocks : (w.inode i).blocks = n
  size : (w.inode i).size = 0
  ibitmap : w.cached.ibitmap = v.cached.ibitmap
  sbi : ∃ k, w.cached.sbi = { v.cached.sbi with nrFreeDblock := k }
  disk : ∀ l, w.disk l ≠ (v.writeBlock (v.lba d) (setSlot (v.disk (v.lba d)) e i name)).disk l →
    ∃ a, a < B ∧ bit v.cached.dbitmap a = true ∧ l = v.lba a

/-- **From the label `adding_entry` on**, with room for the new file and a block for the slot that is no pointer block
in use. -/
theorem addingEntry_added {now n d e : Nat} {name : CStr} (h : v.Sound B) (hi : i ≠ 0)
    (hd : ∀ p, p ∈ v.used → ¬p.2.IsData → v.lba (v.val p) ≠ v.lba d) (hroom : fileNeed n ≤ v.room B)
    (ha : addingEntry now name n i d e v = .ok w) : EntryAdded B now name n i d e v w := by
  unfold addingEntry at ha
  split at ha
  case isTrue => cases ha
  case isFalse he =>
  obtain ⟨x, hx, ha⟩ := ExceptLib.bind_eq_ok.mp ha
  obtain ⟨hlt, _⟩ := (inodeAt_eq_ok _ _).mp hx
  obtain ⟨⟨r, v₂⟩, hal, ha⟩ := ExceptLib.bind_eq_ok.mp ha
  cases ha
  -- the slot, the root and the fields of the new inode
  obtain ⟨v₀, hv₀⟩ : ∃ u, v.writeBlock (v.lba d) (setSlot (v.disk (v.lba d)) e i name) = u := ⟨_, rfl⟩
  have h₀ : Evolves B {i} v v₀ := by
    subst hv₀
    exact write_evolves h hd _
  obtain ⟨v₁, hv₁⟩ : ∃ u, (v₀.modInode 0 fun x => { x with size := succ32 x.size, atime := now, mtime := now }) = u :=
    ⟨_, rfl⟩
  have h₁ : Evolves B {i} v₀ v₁ := by
    subst hv₁
    exact modInode_evolves h₀.sound ⟨rfl, rfl, rfl⟩ (Or.inl rfl)
  obtain ⟨u, hu⟩ : ∃ u, (v₁.modInode i fun x =>
    { x with mode := 7, blocks := 0, atime := now, ctime := now, mtime := now, size := 0 }) = u := ⟨_, rfl⟩
  have h₂ : Evolves B {i} v₁ u := by
    subst hu
    exact modInode_evolves h₁.sound ⟨rfl, rfl, rfl⟩ (Or.inr ⟨rfl, hi, fun r hr => absurd hr.2 (Nat.not_lt_zero _)⟩)
  have he₁ := (h₀.trans h₁).trans h₂
  rw [hv₀, hv₁, hu] at hal
  have hui : (u.inode i).blocks = 0 := by rw [← hu, modInode_inode_self]
  have hbit : u.cached.dbitmap = v.cached.dbitmap := by rw [← hu, ← hv₁, ← hv₀]; rfl
  have hsbi : u.cached.sbi = v.cached.sbi := by rw [← hu, ← hv₁, ← hv₀]; rfl
  have hroom' : u.need i n ≤ u.room B := by
    unfold Volume.need Volume.room
    rw [hui, hbit, hsbi]
    exact hroom
  obtain ⟨h₃, hf, hdisk⟩ := alloc_evolves (E := {i}) he₁.sound hlt (by rw [hui]; exact Nat.zero_le _) hroom' hal
  have hblocks : (v₂.inode i).blocks = min n level3Limit := by
    have hlim : level3Limit = 1053745 := rfl
    rw [hui, Nat.sub_zero] at hf
    rw [hf.blocks (by omega), hui, Nat.zero_add]
  obtain ⟨v₃, hv₃⟩ : ∃ u, (v₂.modInode i fun x => { x with blocks := n, size := 0 }) = u := ⟨_, rfl⟩
  have h₄ : Evolves B {i} v₂ v₃ := by
    subst hv₃
    refine modInode_evolves h₃.sound ⟨rfl, rfl, rfl⟩ (Or.inr ⟨rfl, hi, fun r hr => ⟨hr.1, ?_⟩⟩)
    rw [hblocks]
    have := Ref.first_lt hr.1
    have := hr.2
    dsimp only at this
    omega
  have hinode : ∀ j, j ≠ i → u.inode j = v₁.inode j := fun j hj => by rw [← hu, modInode_inode_of_ne _ _ hj]
  have hinode₃ : ∀ j, j ≠ i → v₃.inode j = v₁.inode j := fun j hj => by
    rw [← hv₃, modInode_inode_of_ne _ _ hj, hf.other j hj, hinode j hj]
  obtain ⟨k, hk⟩ := hf.sbi
  rw [hv₃]
  refine ⟨(he₁.trans h₃).trans h₄, by omega, hlt, fun j hj hj0 => ?_, ?_, ?_, ?_, ?_, ⟨k, ?_⟩, fun l hl => ?_⟩
  · rw [hinode₃ j hj, ← hv₁, modInode_inode_of_ne _ _ hj0, ← hv₀]
    rfl
  · rw [hinode₃ 0 hi.symm, ← hv₁, modInode_inode_self, ← hv₀]
    rfl
  · rw [← hv₃, modInode_inode_self]
  · rw [← hv₃, modInode_inode_self]
  · rw [← hv₃, modInode_ibitmap, hf.ibitmap, ← hu, ← hv₁, ← hv₀]
    rfl
  · rw [← hv₃, modInode_sbi, hk, hsbi]
  · have hl' : v₂.disk l ≠ u.disk l := by
      intro heq
      refine hl ?_
      rw [← hv₃, modInode_disk, heq, ← hu, ← hv₁, ← hv₀]
      rfl
    obtain ⟨r, hr, _, rfl⟩ := hdisk l hl'
    refine ⟨_, h₃.sound.owns.owned.lt _ hr, ?_, lba_congr (by rw [hsbi]) rfl⟩
    rcases h₃.refs _ hr with ⟨hold, _⟩ | hfree
    · exact absurd hold.2.2 (by rw [hui]; exact Nat.not_lt_zero _)
    · rwa [hbit] at hfree

/-- Taking an inode. -/
theorem takeInode_evolves (h : v.Sound B) (j : Nat) : Evolves B E v { v with cached := v.cached.takeInode j } := by
  refine keep_evolves h (fun _ => ⟨rfl, rfl, rfl⟩) (fun _ => Or.inl rfl) rfl (fun a ha => ?_) rfl rfl fun _ _ _ => rfl
  have ha' : bit (clear v.cached.ibitmap j) a = true := ha
  simp only [bit_clear, Bool.and_eq_true] at ha'
  exact ha'.1

/-- With a free inode `get_free_inode` takes the lowest one. -/
theorem takeInode_spec {c c' : Cached} (h : getFreeInode c = .ok (i, c')) (h0 : bit c.ibitmap 0 = false)
    (hbits : ibitmapBits c.sbi = nrInodes) (hfree : ∃ j, j < nrInodes ∧ bit c.ibitmap j = true) :
    i ≠ 0 ∧ Least c.ibitmap nrInodes i ∧ c' = c.takeInode i := by
  obtain ⟨j, hj, hbit⟩ := hfree
  obtain ⟨k, hk⟩ := exists_least (m := c.ibitmap) (n := nrInodes) ⟨j, mem_freeBelow.mpr ⟨hj, hbit⟩⟩
  have hk0 : k ≠ 0 := by
    rintro rfl
    have := hk.bit
    rw [h0] at this
    contradiction
  have hlt : k < 2 ^ 32 := Nat.lt_trans hk.lt (by decide)
  rw [getFreeInode_of_least (hbits ▸ hk) hk0 hlt] at h
  cases h
  exact ⟨hk0, hk, rfl⟩

/-- A block appended to the directory is a block given to a reference. -/
theorem growRoot_eq {b : Nat} (hb : (v.inode 0).blocks < 49) : v.growRoot b = v.put 0 (.l1 (v.inode 0).blocks) b := by
  have hsucc : succ32 (v.inode 0).blocks = (v.inode 0).blocks + 1 := succ32_of_lt (by omega)
  have hassign : Ref.assign (.l1 (v.inode 0).blocks) b (v.inode 0) =
      { v.inode 0 with l1 := update (v.inode 0).l1 (v.inode 0).blocks b, blocks := (v.inode 0).blocks + 1 } := by
    simp only [Ref.assign, hsucc]
  show v.growRoot b = v.modInode 0 (Ref.assign (.l1 (v.inode 0).blocks) b)
  unfold Volume.growRoot Volume.modInode
  rw [hassign]

/-- **A block appended to the directory**, with room for it. -/
theorem growRoot_evolves {b : Nat} {v' : Volume} (h : v.Sound B) (hb : (v.inode 0).blocks < 49) (hroom : 0 < v.room B)
    (ht : v.getFreeDblock = .ok (b, v')) : Evolves B E v (v'.growRoot b) ∧ (v'.growRoot b).Writable B b ∧
      Least v.cached.dbitmap (dbitmapBits v.cached.sbi) b ∧ v' = { v with cached := v.cached.takeDblock b } ∧
      v'.room B + 1 = v.room B := by
  have hlim : level3Limit = 1053745 := rfl
  have hin0 : v'.inode 0 = v.inode 0 := congrFun (getFreeDblock_frame ht).1 0
  have hp : Puts 0 (refs (v.inode 0).blocks 1) v (v'.growRoot b) := by
    rw [growRoot_eq (by rw [hin0]; exact hb), hin0]
    show Puts 0 (refsAt (v.inode 0).blocks ++ []) v _
    rw [refsAt_l1 hb]
    exact .cons ht (.nil _)
  have hlen : (refs (v.inode 0).blocks 1).length = 1 := by
    show (refsAt (v.inode 0).blocks ++ []).length = 1
    rw [refsAt_l1 hb]
    rfl
  obtain ⟨he, hf, _⟩ := grown_evolves (E := E) h (Nat.lt_of_sub_eq_succ rfl) (by omega) hp (by rw [hlen]; exact hroom)
  obtain ⟨_, hb32, hl, hv', hr⟩ := take_spec h.owns.zero h.owns.bits hroom ht
  refine ⟨he, ?_, hl, hv', hr⟩
  have hmem : (0, Ref.l1 (v.inode 0).blocks) ∈ (v'.growRoot b).used := by
    refine ⟨Nat.lt_of_sub_eq_succ rfl, by simpa [Ref.Valid] using hb, ?_⟩
    rw [hp.blocks rfl (by omega)]
    exact Nat.lt_succ_self _
  have hval : (v'.growRoot b).val (0, .l1 (v.inode 0).blocks) = b := by
    rw [growRoot_eq (by rw [hin0]; exact hb), hin0]
    exact put_val_self hb32 fun s hs => by cases hs
  have := he.sound.writable hmem trivial
  rwa [hval] at this

/-- The free blocks that `vsfs_creat` needs for a file of `n` blocks: its own, and one for the directory if it has to
grow. -/
structure CreatRoom (B n : Nat) (v : Volume) : Prop where
  slot : (v.inode 0).HasSlot → fileNeed n ≤ v.room B
  grow : ¬(v.inode 0).HasSlot → (v.inode 0).blocks < 49 → fileNeed n + 1 ≤ v.room B

/-- The block that takes the slot when the directory does not grow, data block number `entry / 16`, is no pointer block
in use. -/
def CreatClear (v : Volume) : Prop :=
  (v.inode 0).HasSlot → ∀ p, p ∈ v.used → ¬p.2.IsData → v.lba (v.val p) ≠ v.lba ((v.inode 0).entry / 16)

/-- The volume with inode `i` taken and the directory grown if it had to: the inodes but for the root, the device and
the inode bitmap. -/
structure Prepared (B i : Nat) (v u : Volume) : Prop where
  evolves : Evolves B {i} v u
  other : ∀ j, j ≠ 0 → u.inode j = v.inode j
  disk : u.disk = v.disk
  ibitmap : u.cached.ibitmap = clear v.cached.ibitmap i
  sbi : ∃ k l, u.cached.sbi = { v.cached.sbi with nrFreeInodes := k, nrFreeDblock := l }

/-- **`vsfs_creat` of a new name**, from the volume `v` to the volume `w`. -/
inductive CreatDone (B now : Nat) (name : CStr) (n i : Nat) (v w : Volume) : Int → Prop
  | slot {u : Volume} (h : (v.inode 0).HasSlot) (hp : Prepared B i v u) (hroot : u.inode 0 = v.inode 0)
      (hm : u.cached.dbitmap = v.cached.dbitmap)
      (ha : EntryAdded B now name n i ((v.inode 0).entry / 16) ((v.inode 0).entry - (v.inode 0).entry / 16 * 16) u w) :
      CreatDone B now name n i v w 0
  | grow {u : Volume} {b : Nat} (h : ¬(v.inode 0).HasSlot) (hb : (v.inode 0).blocks < 49) (hp : Prepared B i v u)
      (hroot : u.inode 0 = { v.inode 0 with
        l1 := update (v.inode 0).l1 (v.inode 0).blocks b, blocks := (v.inode 0).blocks + 1 })
      (hl : Least v.cached.dbitmap (dbitmapBits v.cached.sbi) b)
      (ha : EntryAdded B now name n i b (v.inode 0).newSlot u w) : CreatDone B now name n i v w 0
  | full (h : ¬(v.inode 0).HasSlot) (hb : 49 ≤ (v.inode 0).blocks) (hw : w = v) : CreatDone B now name n i v w (-1)

theorem creat_done {now n : Nat} {name : CStr} {c : Cached} {s t : State} {ret : Int} (h : s.vol.Sound B)
    (h0 : bit s.vol.cached.ibitmap 0 = false) (hbits : ibitmapBits s.vol.cached.sbi = nrInodes)
    (hfits : s.vol.cached.sbi.nrFreeInodes < 2 ^ 32)
    (hfree : ∃ j, j < nrInodes ∧ bit s.vol.cached.ibitmap j = true) (hroom : CreatRoom B n s.vol)
    (hclear : CreatClear s.vol) (hi : getFreeInode s.vol.cached = .ok (i, c)) (hc : CreatEntered now name n i c s t ret) :
    i ≠ 0 ∧ Least s.vol.cached.ibitmap nrInodes i ∧ t.desc = s.desc ∧ CreatDone B now name n i s.vol t.vol ret := by
  obtain ⟨hi0, hleast, rfl⟩ := takeInode_spec hi h0 hbits hfree
  refine ⟨hi0, hleast, ?_, ?_⟩
  · cases hc with
    | slot _ _ ht => subst ht; exact attach_desc s
    | grow _ _ _ _ ht => subst ht; exact attach_desc s
    | full _ _ _ ht => subst ht; exact attach_desc s
  have hev : Evolves B {i} s.vol { s.vol with cached := s.vol.cached.takeInode i } := takeInode_evolves h i
  have hprep : Prepared B i s.vol { s.vol with cached := s.vol.cached.takeInode i } :=
    ⟨hev, fun _ _ => rfl, rfl, rfl, _, _, rfl⟩
  cases hc with
  | slot hs ha ht =>
    subst ht
    refine .slot hs hprep rfl rfl (addingEntry_added hev.sound hi0 (fun p hp hd => ?_) (hroom.slot hs) ha)
    obtain ⟨hp', hval⟩ := (hev.refs p hp).resolve_right fun hb => by
      have := hev.sound.owns.owned.used p hp
      exact this hb
    rw [hval]
    exact hclear hs p hp' hd
  | @grow b v₁ v hs hb hg ha ht =>
    subst ht
    have hroom' := hroom.grow hs hb
    have hroomi : Volume.room { s.vol with cached := s.vol.cached.takeInode i } B = s.vol.room B := rfl
    obtain ⟨hge, hgw, hl, rfl, hr⟩ := growRoot_evolves (E := {i}) hev.sound hb (by omega) hg
    have hroomg : ∀ v' : Volume, (v'.growRoot b).room B = v'.room B := fun _ => rfl
    refine .grow hs hb ⟨hev.trans hge, fun j hj => ?_, rfl, rfl, _, _, rfl⟩ ?_ hl
      (addingEntry_added hge.sound hi0 (hgw.lba hge.sound) (by rw [hroomg]; omega) ha)
    · exact (modInode_inode_of_ne _ _ hj).trans rfl
    · exact (modInode_inode_self ..).trans rfl
  | full hs hb hp ht =>
    subst ht
    have hput := putInode_takeInode hleast.bit hleast.lt hfits
    rw [hput] at hp
    cases hp
    exact .full hs hb rfl

end Vsfs
