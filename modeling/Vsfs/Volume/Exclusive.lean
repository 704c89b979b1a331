import Vsfs.Model.System
import Vsfs.Volume.Fresh
import Vsfs.Volume.Steps

/-!
# Exclusive ownership of data-region blocks

`AllocOk B` is the condition under which the calls that allocate keep the volume sound: there is room below `B` for
what they need, and the block that takes a directory slot is no pointer block.

- `creat_steps`: `vsfs_creat` under the condition;
- `Steady.step`: under the condition every call keeps a sound volume sound;
- `blocks_are_exclusive`: in every run whose calls meet it, with the blocks that the device has as the bound, all block
  numbers in use are different, below `nr_dregion_blocks`, and have their bits cleared.
-/

set_option autoImplicit false

namespace Vsfs

open Function ByteSeq WordBits GuardedRun PointerForest

/-! ## The condition -/

/-- `vsfs_creat` gets as far as taking an inode for `name`. -/
def Enters (name : CStr) (s : State) : Prop :=
  name.strlen < filenameLen ∧ dupScan s.vol name (s.vol.inode 0).entry 0 (fun _ => 0) = .ok false

/-- An inode is free. -/
def InodeFree (s : State) : Prop := ∃ j, j < nrInodes ∧ bit s.vol.cached.ibitmap j = true

/-- The descriptor `fildes` is open on slot `p`. -/
def State.OpenOn (s : State) (fildes : Int) (e : FdTable) (p : Nat) : Prop :=
  ∃ b, s.desc.findTarget fildes = .ok (some (b, e)) ∧ e.ptr = some p

/-- A descriptor is open on one slot. -/
theorem State.OpenOn.slot {s : State} {fildes : Int} {e e' : FdTable} {p q : Nat} (h : s.OpenOn fildes e p)
    (h' : s.OpenOn fildes e' q) : q = p := by
  obtain ⟨b, hfind, hp⟩ := h
  obtain ⟨b', hfind', hq⟩ := h'
  rw [hfind] at hfind'
  cases hfind'
  rw [hp] at hq
  exact (Option.some.inj hq).symm

/-- A seek through slot `p` with the file object `f` grows the file. -/
def SeekGrows (f : File) (offset : UInt64) (whence : Int) : Prop :=
  whence = seekSet ∧ offset.toNat ≤ 0x100000000 ∧ f.size < offset.toNat

/-- A growing seek finds the blocks that it needs. -/
def SeekRoom (B : Nat) (s : State) (p : Nat) (f : File) (offset : UInt64) : Prop :=
  (s.vol.inode (s.desc.opFtable p).inodeNr).blocks ≤ level3Limit ∧
    s.vol.need (s.desc.opFtable p).inodeNr (sub32 (neededBlocks offset.toNat) f.blocks) ≤ s.vol.room B

/-- The calls that allocate find a free inode and enough free blocks below `B`, and `vsfs_creat` puts the slot into a
block that is no pointer block. -/
def AllocOk (B : Nat) : Call → State → Prop
  | .creat name blockNum, s =>
    Enters name s → InodeFree s ∧ CreatRoom B blockNum.toNat s.vol ∧ CreatClear s.vol
  | .write fildes _ nbyte, s =>
    ∀ b e p, s.desc.findTarget fildes = .ok (some (b, e)) → e.ptr = some p → WriteAllowed s e p nbyte →
      WriteRoom B s p nbyte
  | .lseek fildes offset whence, s =>
    ∀ b e p a f, s.desc.findTarget fildes = .ok (some (b, e)) → e.ptr = some p →
      (s.desc.opFtable p).filePtr = some a → s.desc.files a = some f → SeekGrows f offset whence →
      SeekRoom B s p f offset
  | _, _ => True

/-! ## The invariant -/

/-- The volume is sound, its superblock is that of `sb`, and the open files list data blocks. -/
structure Steady (B : Nat) (sb : SbInfo) (s : State) : Prop where
  fits : s.vol.cached.Fits sb
  sound : s.vol.Sound B
  root : bit s.vol.cached.ibitmap 0 = false
  files : s.FilesWritable B

variable {B n : Nat} {sb : SbInfo} {s t : State}

theorem ibitmapBits_eq {c : Cached} (h : c.Fits sb) (hsb : sb.nrIbitmapBlocks = 1) : ibitmapBits c.sbi = nrInodes := by
  unfold ibitmapBits
  rw [h.regions.nrIbitmapBlocks, hsb]
  rfl

/-- What all calls do to a sound volume: `E` are the inodes that are given to a new file. -/
theorem Steady.of_evolves {E : Set Nat} (h : Steady B sb s) (hf : t.vol.cached.Fits sb) (he : Evolves B E s.vol t.vol)
    (hw : t.FilesWritable B) : Steady B sb t := by
  refine ⟨hf, he.sound, ?_, hw⟩
  cases hb : bit t.vol.cached.ibitmap 0 with
  | false => rfl
  | true => rw [← h.root, he.inodes 0 hb]

/-- `vsfs_creat` under the condition. -/
theorem creat_steps {now : Nat} {name : CStr} {blockNum : UInt32} {ret : Int} (h : Steady B sb s)
    (hsb : sb.nrIbitmapBlocks = 1) (hok : AllocOk B (.creat name blockNum) s)
    (hc : vsfsCreat now name blockNum s = .ok (ret, t)) :
    (ret = -1 ∧ t.vol = s.vol ∧ t.desc = s.desc) ∨
    Enters name s ∧ ∃ i, i ≠ 0 ∧ Least s.vol.cached.ibitmap nrInodes i ∧ t.desc = s.desc ∧
      CreatDone B now name blockNum.toNat i s.vol t.vol ret := by
  obtain ⟨hr, hrej⟩ | ⟨hlen, hdup, i, c, hi, he⟩ := vsfsCreat_cases hc
  · refine Or.inl ⟨hr, ?_⟩
    cases hrej with
    | tooLong _ ht => exact ht ▸ ⟨rfl, rfl⟩
    | duplicate _ _ ht => exact ht ▸ ⟨attach_vol s, attach_desc s⟩
  · obtain ⟨hfree, hroom, hclear⟩ := hok ⟨hlen, hdup⟩
    exact Or.inr ⟨⟨hlen, hdup⟩, i, creat_done h.sound h.root (ibitmapBits_eq h.fits hsb) h.fits.nrFreeInodes hfree hroom
      hclear hi he⟩

theorem CreatDone.evolves {now m i : Nat} {name : CStr} {v w : Volume} {ret : Int} (h : v.Sound B)
    (hc : CreatDone B now name m i v w ret) : Evolves B {i} v w := by
  cases hc with
  | slot _ hp _ _ ha => exact hp.evolves.trans ha.evolves
  | grow _ _ hp _ _ ha => exact hp.evolves.trans ha.evolves
  | full _ _ hw =>
    subst hw
    exact .refl h

/-- Only the new inode and that of the root directory change. -/
theorem CreatDone.other {now m i j : Nat} {name : CStr} {v w : Volume} {ret : Int}
    (hc : CreatDone B now name m i v w ret) (hj : j ≠ i) (h0 : j ≠ 0) : w.inode j = v.inode j := by
  cases hc with
  | slot _ hp _ _ ha => rw [ha.other j hj h0, hp.other j h0]
  | grow _ _ hp _ _ ha => rw [ha.other j hj h0, hp.other j h0]
  | full _ _ hw => rw [hw]

/-- **Every call** that meets the condition keeps the invariant. -/
theorem Steady.step {c : Call} (h : Steady B sb s) (hsb : sb.nrIbitmapBlocks = 1) (hok : AllocOk B c s)
    (hs : Step c s t) : Steady B sb t := by
  have hf := hs.fits h.fits
  obtain ⟨now, ret, hn, hr⟩ := hs
  cases c with
  | creat name blockNum =>
    rcases creat_steps h hsb hok hr with ⟨_, hv, hd⟩ | ⟨_, i, _, _, hd, hdone⟩
    · refine h.of_evolves (E := ∅) hf (by rw [hv]; exact .refl h.sound) ?_
      intro a f ha b hb
      rw [hd] at ha
      rw [hv]
      exact h.files a f ha b hb
    · have he := hdone.evolves h.sound
      refine h.of_evolves hf he fun a f ha b hb => ?_
      rw [hd] at ha
      exact he.writable (h.files a f ha b hb)
  | «open» pathname flags =>
    obtain ⟨he, hw⟩ := open_steps (E := ∅) h.sound h.files hr
    exact h.of_evolves hf he hw
  | stat pathname =>
    obtain ⟨⟨r, fre, u⟩, hst, hr⟩ := ExceptLib.bind_eq_ok.mp hr
    cases hr
    have hv := vsfsStat_vol hst
    have hd := vsfsStat_desc hst
    refine h.of_evolves (E := ∅) hf (by rw [hv]; exact .refl h.sound) fun a f ha b hb => ?_
    rw [hd] at ha
    rw [hv]
    exact h.files a f ha b hb
  | close fildes =>
    have hv := vsfsClose_vol hr
    refine h.of_evolves (E := ∅) hf (by rw [hv]; exact .refl h.sound) fun a f ha b hb => ?_
    rw [hv]
    exact h.files a f (close_files hr a f ha) b hb
  | write fildes buf nbyte =>
    obtain ⟨b, e, p, hfind, hp, ⟨_, rfl⟩ | ⟨ha, _, a, f, v₁, v₂, hw⟩⟩ := vsfsWrite_cases hr
    · exact h
    · have hev := write_steps (E := ∅) h.sound h.files ha (hok b e p hfind hp ha) hw
      exact h.of_evolves hf (hev.before.trans hev.after) hev.files
  | read fildes buf nbyte =>
    obtain ⟨⟨r, b, u⟩, hrd, hr⟩ := ExceptLib.bind_eq_ok.mp hr
    cases hr
    obtain ⟨he, hw⟩ := read_steps (E := ∅) h.sound h.files hrd
    exact h.of_evolves hf he hw
  | lseek fildes offset whence =>
    obtain ⟨⟨r, u⟩, hl, hr⟩ := ExceptLib.bind_eq_ok.mp hr
    cases hr
    obtain ⟨_, ht, _⟩ | ⟨b, e, p, a, f, s', hs', hfind, hp, hfp, hfile, ⟨o, ht, _⟩ | ⟨hset, _, info, v, hg⟩⟩ :=
      vsfsLseek_cases hl
    · refine h.of_evolves (E := ∅) hf (by rw [ht]; exact .refl h.sound) fun a f ha b hb => ?_
      rw [ht] at ha ⊢
      exact h.files a f ha b hb
    · have hreg := (setInodeReg_eq_ok hs').1
      have hvol : s'.vol = s.vol := by rw [hreg]
      have htv : t.vol = s.vol := by rw [ht]; exact hvol
      refine h.of_evolves (E := ∅) hf (by rw [htv]; exact .refl h.sound) fun a f ha b hb => ?_
      rw [htv]
      rw [ht] at ha
      exact h.files a f ha b hb
    · have hreg := (setInodeReg_eq_ok hs').1
      have hvol : s'.vol = s.vol := by rw [hreg]
      have hdesc : s'.desc = s.desc := by rw [hreg]
      obtain ⟨hb, hroom⟩ := hok b e p a f hfind hp hfp hfile ⟨hset, hg.limit, hg.beyond⟩
      have hi : (s.desc.opFtable p).inodeNr < nrInodes := by
        obtain ⟨m, hm⟩ := hg.alloc
        obtain ⟨x, hx, _⟩ := ExceptLib.bind_eq_ok.mp hm
        rw [hdesc] at hx
        exact ((inodeAt_eq_ok _ _).mp hx).1
      obtain ⟨he, hw, _⟩ := seek_steps (E := ∅) (s := s') (by rw [hvol]; exact h.sound)
        (by intro a f ha; rw [hdesc] at ha; rw [hvol]; exact h.files a f ha)
        (by rw [hdesc]; exact hi) (by rw [hdesc, hvol]; exact hb) (by rw [hdesc, hvol]; exact hroom) hg
      exact h.of_evolves hf (hvol ▸ he) hw

/-- The first block of the root directory is the only block in use of a fresh volume. -/
theorem fresh_used (hl : 2052 ≤ n) (hu : n < 2 ^ 32) (disk : Nat → Block) (seg : Bytes) {p : Nat × Ref}
    (hp : p ∈ (State.fresh n disk seg).vol.used) : p = (0, .l1 0) := by
  obtain ⟨i, r⟩ := p
  obtain ⟨hi, hv, hlt⟩ := hp
  by_cases h0 : i = 0
  · subst h0
    rw [(fresh_root hl hu disk seg).1] at hlt
    have hr : r = .l1 0 := by
      cases r <;> simp only [Ref.first] at hlt <;> first | omega | skip
      · rw [Nat.lt_one_iff.mp hlt]
    rw [hr]
  · rw [(fresh_inode hl hu disk seg h0 hi).1] at hlt
    exact absurd hlt (Nat.not_lt_zero _)

/-- The bits of the data bitmap that the allocator reaches, on a fresh volume. -/
theorem fresh_dbitmapBits (hl : 2052 ≤ n) (hu : n < 2 ^ 32) :
    dbitmapBits (superblockInfo n) ≤ 32768 * dbitmapBlocks n := by
  unfold dbitmapBits
  rw [(superblockInfo_layout hl hu).nrDbitmapBlocks]
  omega

/-- All blocks of a fresh volume but the first are free. -/
theorem fresh_room (hl : 2052 ≤ n) (hu : n < 2 ^ 32) (disk : Nat → Block) (seg : Bytes) :
    (State.fresh n disk seg).vol.room B = min B (dbitmapBits (superblockInfo n)) - 1 := by
  have hbits := fresh_dbitmapBits hl hu
  unfold Volume.room
  rw [fresh_sbi hl hu]
  have heq : freeBelow (State.fresh n disk seg).vol.cached.dbitmap (min B (dbitmapBits (superblockInfo n))) =
      (Finset.range (min B (dbitmapBits (superblockInfo n)))).erase 0 := by
    ext i
    rw [mem_freeBelow, Finset.mem_erase, Finset.mem_range]
    constructor
    · rintro ⟨hi, hb⟩
      rw [fresh_dbitmap hl hu disk seg (by omega)] at hb
      exact ⟨of_decide_eq_true hb, hi⟩
    · rintro ⟨h0, hi⟩
      refine ⟨hi, ?_⟩
      rw [fresh_dbitmap hl hu disk seg (by omega)]
      exact decide_eq_true h0
  rw [heq]
  by_cases h0 : 0 < min B (dbitmapBits (superblockInfo n))
  · rw [Finset.card_erase_of_mem (Finset.mem_range.mpr h0), Finset.card_range]
  · rw [Nat.eq_zero_of_not_pos h0]
    rfl

/-- A fresh volume is sound. -/
theorem fresh_steady (hl : 2052 ≤ n) (hu : n < 2 ^ 32) (disk : Nat → Block) (seg : Bytes) (hB : 0 < B)
    (haddr : (superblockInfo n).ofsDregion + B ≤ 2 ^ 32) : Steady B (superblockInfo n) (State.fresh n disk seg) := by
  obtain ⟨hd1, hd2, hd3, _⟩ := dbitmapBlocks_bounds hl hu
  have hbits := fresh_dbitmapBits hl hu
  obtain ⟨hrb, hrs, hrf⟩ := fresh_root hl hu disk seg
  have hval : (State.fresh n disk seg).vol.val (0, .l1 0) = 0 := hrf
  have hbit0 : bit (State.fresh n disk seg).vol.cached.dbitmap 0 = false := by
    rw [fresh_dbitmap hl hu disk seg (by omega)]
    rfl
  refine ⟨fresh_fits hl hu disk seg, ⟨⟨⟨closed_used _, ?_, ?_, ?_⟩, hbit0, ?_, ?_⟩, by rw [hrb]; decide, hrf⟩, ?_, ?_⟩
  · intro p q hp hq _
    rw [fresh_used hl hu disk seg hp, fresh_used hl hu disk seg hq]
  · intro p hp
    rw [fresh_used hl hu disk seg hp, hval]
    exact hB
  · intro p hp
    rw [fresh_used hl hu disk seg hp, hval, hbit0]
    simp
  · rw [fresh_sbi hl hu]
    exact haddr
  · rw [fresh_sbi hl hu]
    omega
  · rw [fresh_ibitmap hl hu disk seg (by decide)]
    rfl
  · intro a f ha
    cases ha

/-- A fresh volume with the blocks that the device has as the bound. -/
theorem fresh_steady_device (hl : 2052 ≤ n) (hu : n < 2 ^ 32) (disk : Nat → Block) (seg : Bytes) :
    Steady (superblockInfo n).nrDregionBlocks (superblockInfo n) (State.fresh n disk seg) := by
  obtain ⟨hd1, hd2, hd3, _⟩ := dbitmapBlocks_bounds hl hu
  refine fresh_steady hl hu disk seg ?_ ?_
  · rw [superblockInfo_eq hl hu]
    show 0 < n - 2050 - dbitmapBlocks n
    omega
  · rw [superblockInfo_eq hl hu]
    show 2050 + dbitmapBlocks n + (n - 2050 - dbitmapBlocks n) ≤ 2 ^ 32
    omega

/-- In every run whose calls meet the condition. -/
theorem ReachedOn.steady (h : ReachedOn n (AllocOk B) s) (hB : 0 < B)
    (haddr : (superblockInfo n).ofsDregion + B ≤ 2 ^ 32) : Steady B (superblockInfo n) s := by
  obtain ⟨hl, hu, disk, seg, hr⟩ := h
  exact hr.invariant (fresh_steady hl hu disk seg hB haddr) fun c u v hP hok hs =>
    hP.step (superblockInfo_layout hl hu).nrIbitmapBlocks hok hs

/-! ## The number of blocks -/

/-- The calls that give a file blocks stay inside the map; `vsfs_creat` does unless the directory is full. -/
def InMap (c : Call) (s : State) : Prop :=
  ∀ name blockNum, c = .creat name blockNum → Enters name s →
    (s.vol.inode 0).HasSlot ∨ (s.vol.inode 0).blocks < 49 → blockNum.toNat ≤ level3Limit

theorem CreatDone.blocks {now m i : Nat} {name : CStr} {v w : Volume} {ret : Int}
    (hc : CreatDone B now name m i v w ret) {k : Nat} (hk : 49 ≤ k)
    (hm : (v.inode 0).HasSlot ∨ (v.inode 0).blocks < 49 → m ≤ k) (j : Nat) :
    (w.inode j).blocks = (v.inode j).blocks ∨ (w.inode j).blocks ≤ k := by
  -- entering the file sets the blocks of inode `i` and those of no other
  have hentry : ∀ {u : Volume} {d e : Nat}, m ≤ k → EntryAdded B now name m i d e u w →
      (w.inode j).blocks = (u.inode j).blocks ∨ (w.inode j).blocks ≤ k := by
    intro u d e hm ha
    by_cases hj : j = i
    · subst hj
      exact Or.inr (by rw [ha.blocks]; exact hm)
    · by_cases h0 : j = 0
      · subst h0
        exact Or.inl (by rw [ha.root])
      · exact Or.inl (by rw [ha.other j hj h0])
  cases hc with
  | @slot u hs hp hroot _ ha =>
    have hu : (u.inode j).blocks = (v.inode j).blocks := by
      by_cases h0 : j = 0
      · rw [h0, hroot]
      · rw [hp.other j h0]
    exact hu ▸ hentry (hm (Or.inl hs)) ha
  | @grow u b _ hb hp hroot _ ha =>
    by_cases h0 : j = 0
    · subst h0
      rcases hentry (hm (Or.inr hb)) ha with h | h
      · refine Or.inr ?_
        rw [h, hroot]
        dsimp only
        omega
      · exact Or.inr h
    · have hu : (u.inode j).blocks = (v.inode j).blocks := by rw [hp.other j h0]
      exact hu ▸ hentry (hm (Or.inr hb)) ha
  | full _ _ hw => exact Or.inl (by rw [hw])

/-- A call leaves the number of blocks of an inode as it is, or inside the map. -/
theorem Steady.step_blocks {c : Call} (h : Steady B sb s) (hsb : sb.nrIbitmapBlocks = 1) (hok : AllocOk B c s)
    (hm : InMap c s) (hs : Step c s t) (j : Nat) :
    (t.vol.inode j).blocks = (s.vol.inode j).blocks ∨ (t.vol.inode j).blocks ≤ max level3Limit (s.vol.inode j).blocks := by
  have hlim : level3Limit = 1053745 := rfl
  obtain ⟨now, ret, hn, hr⟩ := hs
  cases c with
  | creat name blockNum =>
    rcases creat_steps h hsb hok hr with ⟨_, hv, _⟩ | ⟨he, i, _, _, _, hdone⟩
    · exact Or.inl (by rw [hv])
    · rcases hdone.blocks (by decide) (hm name blockNum rfl he) j with hb | hb
      · exact Or.inl hb
      · exact Or.inr (by omega)
  | «open» pathname flags => exact Or.inl ((open_touched hr).blocks j)
  | stat pathname =>
    obtain ⟨⟨r, fre, u⟩, hst, hr⟩ := ExceptLib.bind_eq_ok.mp hr
    cases hr
    exact Or.inl (by rw [vsfsStat_vol hst])
  | close fildes => exact Or.inl (by rw [vsfsClose_vol hr])
  | write fildes buf nbyte =>
    obtain ⟨b, e, p, hfind, hp, ⟨_, rfl⟩ | ⟨ha, _, a, f, v₁, v₂, hw⟩⟩ := vsfsWrite_cases hr
    · exact Or.inl rfl
    · have hev := write_steps (E := ∅) h.sound h.files ha (hok b e p hfind hp ha) hw
      by_cases hj : j = (s.desc.opFtable p).inodeNr
      · have := neededBlocks_le ha.limit
        rw [hj, hev.newBlocks, hev.blocks]
        exact Or.inr (by omega)
      · exact Or.inl (by rw [hev.other j hj])
  | read fildes buf nbyte =>
    obtain ⟨⟨r, b, u⟩, hrd, hr⟩ := ExceptLib.bind_eq_ok.mp hr
    cases hr
    exact Or.inl ((read_touched hrd).blocks j)
  | lseek fildes offset whence =>
    obtain ⟨⟨r, u⟩, hl, hr⟩ := ExceptLib.bind_eq_ok.mp hr
    cases hr
    obtain ⟨_, ht, _⟩ | ⟨b, e, p, a, f, s', hs', hfind, hp, hfp, hfile, ⟨o, ht, _⟩ | ⟨hset, _, info, v, hg⟩⟩ :=
      vsfsLseek_cases hl
    · exact Or.inl (by rw [ht])
    · rw [ht, (setInodeReg_eq_ok hs').1]
      exact Or.inl rfl
    · have hreg := (setInodeReg_eq_ok hs').1
      have hvol : s'.vol = s.vol := by rw [hreg]
      have hdesc : s'.desc = s.desc := by rw [hreg]
      obtain ⟨hb, hroom⟩ := hok b e p a f hfind hp hfp hfile ⟨hset, hg.limit, hg.beyond⟩
      obtain ⟨m, hm⟩ := hg.alloc
      have hi : (s.desc.opFtable p).inodeNr < nrInodes := by
        obtain ⟨x, hx, _⟩ := ExceptLib.bind_eq_ok.mp hm
        rw [hdesc] at hx
        exact ((inodeAt_eq_ok _ _).mp hx).1
      rw [hvol, hdesc] at hm
      obtain ⟨_, hf, _⟩ := alloc_evolves (E := ∅) h.sound hi hb hroom hm
      have ht : t.vol = v := congrArg State.vol hg.result
      rw [ht]
      by_cases hj : j = (s.desc.opFtable p).inodeNr
      · rw [hj, hf.blocks (by omega)]
        exact Or.inr (by omega)
      · exact Or.inl (by rw [hf.other j hj])

/-! ## The main theorem -/

/-- The block numbers that the inode table refers to are different, only the first block of the root directory is block
0, all are below `nr_dregion_blocks` and have their bits cleared, and the maps reach all blocks of their inodes. -/
structure ExclusiveBlocks (v : Volume) : Prop where
  distinct : ∀ p q, p ∈ v.used → q ∈ v.used → v.val p = v.val q → p = q
  zero : ∀ p, p ∈ v.used → (v.val p = 0 ↔ p = (0, .l1 0))
  lt : ∀ p, p ∈ v.used → v.val p < v.cached.sbi.nrDregionBlocks
  taken : ∀ p, p ∈ v.used → bit v.cached.dbitmap (v.val p) = false
  inMap : ∀ i, i < nrInodes → (v.inode i).blocks ≤ level3Limit

/-- The condition with the blocks that the device has as the bound. -/
def OwnershipOk (c : Call) (s : State) : Prop := AllocOk s.vol.cached.sbi.nrDregionBlocks c s ∧ InMap c s

theorem ReachedOn.owned (h : ReachedOn n OwnershipOk s) :
    Steady (superblockInfo n).nrDregionBlocks (superblockInfo n) s ∧
      ∀ i, i < nrInodes → (s.vol.inode i).blocks ≤ level3Limit := by
  obtain ⟨hl, hu, disk, seg, hr⟩ := h
  have hlim : level3Limit = 1053745 := rfl
  refine hr.invariant (P := fun s => Steady (superblockInfo n).nrDregionBlocks (superblockInfo n) s ∧
    ∀ i, i < nrInodes → (s.vol.inode i).blocks ≤ level3Limit) ⟨fresh_steady_device hl hu disk seg, fun i hi => ?_⟩
    fun c u v hP hok hs => ?_
  · by_cases h0 : i = 0
    · rw [h0, (fresh_root hl hu disk seg).1]
      omega
    · rw [(fresh_inode hl hu disk seg h0 hi).1]
      omega
  · obtain ⟨ha, hm⟩ := hok
    rw [hP.1.fits.regions.nrDregionBlocks] at ha
    have hsb := (superblockInfo_layout hl hu).nrIbitmapBlocks
    refine ⟨hP.1.step hsb ha hs, fun i hi => ?_⟩
    have := hP.2 i hi
    rcases hP.1.step_blocks hsb ha hm hs i with hb | hb <;> omega

/-- **Exclusive ownership**: in every run whose calls meet the condition. -/
theorem blocks_are_exclusive (h : ReachedBy OwnershipOk s) : ExclusiveBlocks s.vol := by
  obtain ⟨n, h⟩ := h
  obtain ⟨hs, hm⟩ := h.owned
  have hroot : (0, Ref.l1 0) ∈ s.vol.used := ⟨by decide, by simp [Ref.Valid], hs.sound.rootBlocks⟩
  have hval : s.vol.val (0, .l1 0) = 0 := hs.sound.rootFirst
  have hown := hs.sound.owns.owned
  refine ⟨hown.inj, fun p hp => ⟨fun h0 => hown.inj p _ hp hroot (by rw [h0, hval]), ?_⟩, fun p hp => ?_,
    fun p hp => by simpa using hown.used p hp, hm⟩
  · rintro rfl
    exact hval
  · rw [hs.fits.regions.nrDregionBlocks]
    exact hown.lt p hp

/-- The root directory of a fresh volume has a slot left. -/
theorem fresh_hasSlot (hl : 2052 ≤ n) (hu : n < 2 ^ 32) (disk : Nat → Block) (seg : Bytes) :
    ((State.fresh n disk seg).vol.inode 0).HasSlot := by
  obtain ⟨hrb, hrs, _⟩ := fresh_root hl hu disk seg
  unfold Inode.HasSlot Inode.entry
  rw [hrb, hrs]
  decide

/-- An inode of a fresh volume is free, and so are the blocks that a file needs if they fit. -/
theorem fresh_creatRoom (hl : 2052 ≤ n) (hu : n < 2 ^ 32) (disk : Nat → Block) (seg : Bytes) {m : Nat}
    (hB : fileNeed m < B) (hbits : fileNeed m < dbitmapBits (superblockInfo n)) :
    InodeFree (State.fresh n disk seg) ∧ CreatRoom B m (State.fresh n disk seg).vol := by
  refine ⟨⟨1, by decide, ?_⟩, fun _ => ?_, fun h => absurd (fresh_hasSlot hl hu disk seg) h⟩
  · rw [fresh_ibitmap hl hu disk seg (by decide)]
    rfl
  · rw [fresh_room hl hu]
    omega

/-- A new file on a fresh volume meets the condition when its blocks fit. -/
theorem fresh_creat_ok (hl : 2052 ≤ n) (hu : n < 2 ^ 32) (disk : Nat → Block) (seg : Bytes) (name : CStr)
    {blockNum : UInt32} (hB : fileNeed blockNum.toNat < B)
    (hbits : fileNeed blockNum.toNat < dbitmapBits (superblockInfo n)) :
    AllocOk B (.creat name blockNum) (State.fresh n disk seg) := by
  obtain ⟨hi, hr⟩ := fresh_creatRoom hl hu disk seg hB hbits
  refine fun _ => ⟨hi, hr, fun _ p hp hd => ?_⟩
  rw [fresh_used hl hu disk seg hp] at hd
  exact absurd trivial hd

/-- The same with the blocks that the device has as the bound. -/
theorem fresh_creat_device (hl : 2052 ≤ n) (hu : n < 2 ^ 32) (disk : Nat → Block) (seg : Bytes) (name : CStr)
    {blockNum : UInt32} (hB : fileNeed blockNum.toNat < (superblockInfo n).nrDregionBlocks)
    (hbits : fileNeed blockNum.toNat < dbitmapBits (superblockInfo n)) :
    AllocOk (State.fresh n disk seg).vol.cached.sbi.nrDregionBlocks (.creat name blockNum) (State.fresh n disk seg) := by
  rw [fresh_sbi hl hu]
  exact fresh_creat_ok hl hu disk seg name hB hbits

/-- A volume with a free block has room for one. -/
theorem room_pos {v : Volume} {B b : Nat} (hb : bit v.cached.dbitmap b = true) (hB : b < B)
    (hbits : b < dbitmapBits v.cached.sbi) : 1 ≤ v.room B :=
  Finset.card_pos.mpr ⟨b, mem_freeBelow.mpr ⟨Nat.lt_min.mpr ⟨hB, hbits⟩, hb⟩⟩

/-- The first byte of a file without blocks needs one block. -/
theorem first_byte_room {p i : Nat} (hb : (s.vol.inode (s.desc.opFtable p).inodeNr).blocks = 0)
    (ho : (s.desc.opFtable p).offset = 0) (hbit : bit s.vol.cached.dbitmap i = true) (hB : i < B)
    (hbits : i < dbitmapBits s.vol.cached.sbi) : WriteRoom B s p 1 := by
  intro _
  have hend : s.desc.writeEnd p 1 = 1 := by
    unfold Desc.writeEnd
    rw [ho]
    rfl
  have hneed : s.vol.need (s.desc.opFtable p).inodeNr (sub32 (neededBlocks 1) 0) = 1 := by
    unfold Volume.need
    rw [hb]
    rfl
  rw [hend, hb, hneed]
  exact room_pos hbit hB hbits

theorem blocks_are_exclusive_creat : ∃ s, Step (.creat ⟨[97], by decide⟩ 3) (blankVolume 4096) s ∧
    ExclusiveBlocks s.vol := by
  have h : (do
      let (_, s) ← Call.run 0 (.creat ⟨[97], by decide⟩ 3) (blankVolume 4096)
      .ok (decide ((s.vol.inode 1).blocks = 3)) : M Bool) = .ok true := by decide +kernel
  obtain ⟨⟨r, s⟩, hrun, _⟩ := ExceptLib.bind_eq_ok.mp h
  have hs : Step (.creat ⟨[97], by decide⟩ 3) (blankVolume 4096) s := ⟨0, r, by decide, hrun⟩
  refine ⟨s, hs, blocks_are_exclusive ((reachedBy_blankVolume (by decide) (by decide)).step ⟨?_, ?_⟩ hs)⟩
  · exact fresh_creat_device (by decide) (by decide) _ _ _ (by decide) (by decide)
  · rintro _ _ ⟨⟩ _ _
    decide

/-- On a volume with one data block the new file is given a block that the device does not have. -/
theorem creat_leaves_device : ∃ s, Reached s ∧ ¬ExclusiveBlocks s.vol := by
  have h : (do
      let (_, s) ← runCalls [.creat ⟨[97], by decide⟩ 1] (0, blankVolume 2052)
      .ok (decide ((s.vol.inode 1).blocks = 1 ∧ s.vol.cached.sbi.nrDregionBlocks = 1 ∧ (s.vol.inode 1).l1 0 = 1)) :
        M Bool) = .ok true := by decide +kernel
  obtain ⟨⟨r, s⟩, hrun, hs⟩ := ExceptLib.bind_eq_ok.mp h
  obtain ⟨hb, hn, hl⟩ := of_decide_eq_true (Except.ok.inj hs)
  refine ⟨s, ReachedBy.runCalls (reachedBy_blankVolume (by decide) (by decide)) hrun, fun hex => ?_⟩
  have := hex.lt (1, .l1 0) ⟨by decide, by simp [Ref.Valid], by rw [hb]; decide⟩
  rw [hn] at this
  have hval : s.vol.val (1, .l1 0) = 1 := hl
  omega

end Vsfs
