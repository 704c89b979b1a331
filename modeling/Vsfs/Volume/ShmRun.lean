import Vsfs.Model.ShmSystem
import Vsfs.Volume.Remount
import Vsfs.Volume.ShmWrite

/-!
# Runs of the shared-memory variant keep the volume sound

- `addingEntry_kept`, `creat_sane`: `vsfs_creat`;
- `write_sane`, `lseek_sane`: `vsfs_write`, and a `vsfs_lseek` that grows the file;
- `Sane.step`: every call that finds what it needs;
- `ReachedBy.sane`: every run of such calls.
-/

set_option autoImplicit false

namespace Vsfs.Shm

open Function ByteSeq PointerForest WordBits GuardedRun

variable {B i j n m : Nat} {sb : SbInfo} {u u' : Segments} {s t : Process} {now : Nat} {ret : Int} {name : CStr}

/-! ## The condition -/

/-- `vsfs_creat` gets as far as taking an inode for `name`. -/
def Enters (name : CStr) (s : Process) : Prop :=
  name.strlen < filenameLen ∧ dupScan s.data name (s.inodes 0).entry 0 = false

/-- A file of `n` blocks finds a free inode, its blocks, and a block for its slot that is no pointer block. -/
structure CreatReady (B n : Nat) (s : Process) : Prop where
  inode : ∃ j, j < nrInodes ∧ bit s.cached.ibitmap j = true
  inMap : n ≤ level3Limit
  room : CreatRoom B n s.seg.toVolume
  clear : CreatClear s.seg.toVolume

/-- A seek to `o` through slot `p` grows the file, by the blocks that it finds. -/
structure SeekReady (B : Nat) (s : Process) (p o : Nat) : Prop where
  more : (s.inodes (s.desc.opFtable p).inodeNr).blocks ≤ neededBlocks o
  room : allocTakes (s.inodes (s.desc.opFtable p).inodeNr).blocks
    (neededBlocks o - (s.inodes (s.desc.opFtable p).inodeNr).blocks) ≤ s.seg.toVolume.room B

/-- The calls that allocate find what they need, and those that write do not take the number of the first block for one
of level 1. -/
def CallOk (B : Nat) : Call → Process → Prop
  | .creat name blockNum, s => Enters name s → CreatReady B blockNum.toNat s
  | .write fildes _ nbyte, s => ∀ e p, s.OpenOn fildes e p → WriteAllowed s e p nbyte → WriteReady B s p nbyte.toNat
  | .lseek fildes offset whence, s => ∀ e p, s.OpenOn fildes e p → whence = seekSet → offset.toNat ≤ 0x100000000 →
      (s.inodes (s.desc.opFtable p).inodeNr).fileSize < offset.toNat → SeekReady B s p offset.toNat
  | _, _ => True

/-! ## The invariant -/

/-- The volume is sound, its sizes are as its blocks allow, and its superblock is that of `sb`. -/
structure Sane (B : Nat) (sb : SbInfo) (s : Process) : Prop where
  sound : s.seg.toVolume.Sound B
  sized : s.seg.toVolume.Sized
  root : bit s.cached.ibitmap 0 = false
  sbi : ∃ k l, s.cached.sbi = { sb with nrFreeInodes := k, nrFreeDblock := l }

theorem Sane.of_evolves {E : Set Nat} (h : Sane B sb s) (he : Evolves B E s.seg.toVolume t.seg.toVolume)
    (hz : t.seg.toVolume.Sized)
    (hsb : ∃ k l, t.cached.sbi = { s.cached.sbi with nrFreeInodes := k, nrFreeDblock := l }) : Sane B sb t := by
  refine ⟨he.sound, hz, ?_, ?_⟩
  · cases hb : bit t.cached.ibitmap 0 with
    | false => rfl
    | true => exact ((he.inodes 0 hb).symm.trans h.root)
  · obtain ⟨k, l, hk⟩ := h.sbi
    obtain ⟨k', l', hk'⟩ := hsb
    exact ⟨k', l', by rw [hk', hk]⟩

/-- Other time stamps. -/
theorem Sane.of_touched (h : Sane B sb s) (ht : Touched s.seg.toVolume t.seg.toVolume) : Sane B sb t := by
  refine h.of_evolves (E := ∅) (ht.evolves h.sound) (fun j hj => ?_) ⟨_, _, ht.sbi⟩
  rw [ht.size, ht.blocks]
  exact h.sized j hj

/-! ## `vsfs_creat` -/

/-- The segments with a file entered: inode `i`, `n` blocks, and one entry more in the root directory. -/
structure EntryKept (B n i d : Nat) (u u' : Segments) : Prop where
  evolves : Evolves B {i} u.toVolume u'.toVolume
  other : ∀ j, j ≠ i → j ≠ 0 → u'.inodes j = u.inodes j
  rootBlocks : (u'.inodes 0).blocks = (u.inodes 0).blocks
  rootSize : (u'.inodes 0).size = succ32 (u.inodes 0).size
  blocks : (u'.inodes i).blocks = n
  size : (u'.inodes i).size = n * 4096 % 2 ^ 32
  sbi : ∃ k, u'.cached.sbi = { u.cached.sbi with nrFreeDblock := k }
  disk : ∀ l, u'.toVolume.disk l ≠ u.toVolume.disk l → l = u.cached.sbi.ofsDregion + d ∨
    ∃ a, a < B ∧ bit u.cached.dbitmap a = true ∧ l = u.toVolume.lba a

/-- **From the label `adding_entry` on**, with room for the new file and a block for the slot that is no pointer block
in use. -/
theorem addingEntry_kept {d e : Nat} (h : u.toVolume.Sound B) (hi : i ≠ 0) (hn : n ≤ level3Limit)
    (hd : ∀ p, p ∈ u.toVolume.used → ¬p.2.IsData → u.toVolume.val p ≠ d) (hroom : fileNeed n ≤ u.toVolume.room B)
    (ha : addingEntry now name n i d e u = .ok u') : EntryKept B n i d u u' := by
  have hlim : level3Limit = 1053745 := rfl
  unfold addingEntry at ha
  split at ha
  case isTrue => cases ha
  case isFalse =>
  split at ha
  case isTrue => cases ha
  case isFalse hlt =>
  obtain ⟨⟨r, u₃⟩, hal, ha⟩ := ExceptLib.bind_eq_ok.mp ha
  cases ha
  -- the slot, the root and the fields of the new inode
  obtain ⟨u₀, hu₀⟩ : ∃ x, ({ u with data := update u.data d (setSlot (u.data d) e i name) } : Segments) = x := ⟨_, rfl⟩
  have h₀ : Evolves B {i} u.toVolume u₀.toVolume := by
    rw [← hu₀, toVolume_setBlock]
    refine write_evolves h (fun p hp hnd he => hd p hp hnd ?_) _
    rw [lba_of_lt h.owns.addr (h.owns.owned.lt p hp)] at he
    exact Nat.add_left_cancel he
  obtain ⟨u₁, hu₁⟩ : ∃ x, (u₀.modInode 0 fun x => { x with size := succ32 x.size, atime := now, mtime := now }) = x :=
    ⟨_, rfl⟩
  have h₁ : Evolves B {i} u₀.toVolume u₁.toVolume := by
    rw [← hu₁, toVolume_modInode]
    exact modInode_evolves h₀.sound ⟨rfl, rfl, rfl⟩ (Or.inl rfl)
  obtain ⟨u₂, hu₂⟩ : ∃ x, (u₁.modInode i fun x =>
    { x with mode := 7, blocks := 0, atime := now, ctime := now, mtime := now, size := 0 }) = x := ⟨_, rfl⟩
  have h₂ : Evolves B {i} u₁.toVolume u₂.toVolume := by
    rw [← hu₂, toVolume_modInode]
    exact modInode_evolves h₁.sound ⟨rfl, rfl, rfl⟩ (Or.inr ⟨rfl, hi, fun r hr => absurd hr.2 (Nat.not_lt_zero _)⟩)
  have he₁ := (h₀.trans h₁).trans h₂
  rw [hu₀, hu₁, hu₂] at hal
  -- the blocks of the file
  have hb₂ : (u₂.inodes i).blocks = 0 := by rw [← hu₂, segments_modInode_self]
  have hcached : u₂.cached = u.cached := by rw [← hu₂, ← hu₁, ← hu₀]; rfl
  have htakes : allocTakes (u₂.inodes i).blocks n = fileNeed n := by
    unfold allocTakes fileNeed
    rw [hb₂, Nat.min_eq_left hn, if_neg (fun h => absurd h.1 (by decide)), Nat.add_zero]
  have hroom' : u₂.toVolume.room B = u.toVolume.room B := by
    show (freeBelow u₂.cached.dbitmap (min B (dbitmapBits u₂.cached.sbi))).card = _
    rw [hcached]
    rfl
  have hn' : (u₂.inodes i).blocks + n ≤ level3Limit := by rwa [hb₂, Nat.zero_add]
  have htaken : allocTakes (u₂.inodes i).blocks n ≤ u₂.toVolume.room B := by rwa [htakes, hroom']
  obtain ⟨u₃', hal', hkept⟩ := allocBlock_kept he₁.sound (Nat.not_le.mp hlt) hn' htaken
  rw [hal] at hal'
  cases hal'
  have hb₃ : (u₃.inodes i).blocks = n := by
    have := hkept.frame.blocks (by show (u₂.inodes i).blocks + n < _; rw [hb₂]; omega)
    have hzero : (u₂.toVolume.inode i).blocks = 0 := hb₂
    rw [hzero, Nat.zero_add] at this
    exact this
  obtain ⟨u₄, hu₄⟩ : ∃ x, (u₃.modInode i fun x => { x with blocks := n, size := n * 4096 % 2 ^ 32 }) = x := ⟨_, rfl⟩
  have h₄ : Evolves B {i} u₃.toVolume u₄.toVolume := by
    rw [← hu₄, toVolume_modInode]
    exact modInode_evolves hkept.evolves.sound ⟨rfl, rfl, rfl⟩ (Or.inl hb₃.symm)
  have hinode : ∀ j, j ≠ i → u₄.inodes j = u₁.inodes j := by
    intro j hj
    rw [← hu₄, segments_modInode_of_ne _ _ hj, show u₃.inodes j = u₂.inodes j from hkept.frame.other j hj, ← hu₂,
      segments_modInode_of_ne _ _ hj]
  obtain ⟨k, hk⟩ := hkept.frame.sbi
  rw [hu₄]
  refine ⟨(he₁.trans (hkept.evolves.mono fun _ hj => absurd hj (Set.notMem_empty _))).trans h₄, fun j hj hj0 => ?_, ?_,
    ?_, ?_, ?_, ⟨k, ?_⟩, fun l hl => ?_⟩
  · rw [hinode j hj, ← hu₁, segments_modInode_of_ne _ _ hj0, ← hu₀]
  · rw [hinode 0 hi.symm, ← hu₁, segments_modInode_self, ← hu₀]
  · rw [hinode 0 hi.symm, ← hu₁, segments_modInode_self, ← hu₀]
  · rw [← hu₄, segments_modInode_self]
  · rw [← hu₄, segments_modInode_self]
  · rw [← hu₄, ← hcached]
    exact hk
  · rw [← hu₄] at hl
    by_cases hl' : u₃.toVolume.disk l = u₂.toVolume.disk l
    · -- the slot
      refine Or.inl (by_contra fun hne => hl ?_)
      show u₃.toVolume.disk l = _
      rw [hl', ← hu₂, ← hu₁, ← hu₀]
      show ({ u with data := update u.data d (setSlot (u.data d) e i name) } : Segments).toVolume.disk l = _
      rw [toVolume_setBlock]
      exact writeBlock_disk_of_ne _ _ _ hne
    · -- a pointer block of the new file, which had none
      obtain ⟨r, hr, -, hl⟩ := hkept.disk l hl'
      refine Or.inr ⟨_, hkept.evolves.sound.owns.owned.lt _ hr, ?_, hl.trans (lba_congr ?_ rfl)⟩
      · rcases hkept.evolves.refs _ hr with ⟨hold, _⟩ | hfree
        · exact absurd hold.2.2 (by rw [show (u₂.toVolume.inode i).blocks = 0 from hb₂]; exact Nat.not_lt_zero _)
        · rwa [show u₂.toVolume.cached.dbitmap = u₂.cached.dbitmap from rfl, hcached] at hfree
      · show u₂.cached.sbi.ofsDregion = _
        rw [hcached]
        rfl

/-- The sizes with a file entered. -/
theorem EntryKept.sized {d : Nat} (he : EntryKept B n i d u u') (hz : ∀ j, j ≠ 0 → j < nrInodes →
      (u.inodes j).size ≤ 4096 * (u.inodes j).blocks ∧ (u.inodes j).size < 2 ^ 32)
    (h0 : (u.inodes 0).size + 1 ≤ 4096 * (u.inodes 0).blocks) (h32 : (u.inodes 0).size < 2 ^ 32) :
    u'.toVolume.Sized := by
  intro j hj
  show (u'.inodes j).size ≤ 4096 * (u'.inodes j).blocks ∧ (u'.inodes j).size < 2 ^ 32
  by_cases hji : j = i
  · rw [hji, he.size, he.blocks]
    have := Nat.mod_le (n * 4096) (2 ^ 32)
    omega
  · by_cases hj0 : j = 0
    · rw [hj0, he.rootSize, he.rootBlocks]
      unfold succ32
      split <;> omega
    · rw [he.other j hji hj0]
      exact hz j hj0 hj

/-- The allocator takes the same block from the volume. -/
theorem getFreeDblock_toVolume {b : Nat} (h : u.getFreeDblock = .ok (b, u')) :
    u.toVolume.getFreeDblock = .ok (b, u'.toVolume) := by
  obtain ⟨⟨b', c⟩, hc, h⟩ := ExceptLib.bind_eq_ok.mp h
  cases h
  obtain ⟨⟨b', m⟩, hbit, hc⟩ := ExceptLib.bind_eq_ok.mp hc
  cases hc
  have hvol : Vsfs.getFreeDblock u.toVolume.cached = .ok (b, { u.toVolume.cached with
      dbitmap := m
      sbi := if b ≠ 0 then { u.cached.sbi with nrFreeDblock := pred32 u.cached.sbi.nrFreeDblock } else u.cached.sbi }) := by
    unfold Vsfs.getFreeDblock
    show (getFirstFreeBit (1024 * u.cached.sbi.nrDbitmapBlocks) u.cached.dbitmap
      (blockSize * u.cached.sbi.nrDregionBlocks % 2 ^ 32) >>= _) = _
    rw [hbit]
    rfl
  unfold Volume.getFreeDblock
  rw [hvol, ExceptLib.ok_bind]
  unfold Segments.toVolume
  by_cases hb : b = 0
  · simp [hb]
  · simp [hb]

/-- The directory with a block appended. -/
theorem growRoot_toVolume (u : Segments) (b : Nat) :
    (u.modInode 0 fun x => { x with l1 := update x.l1 x.blocks b, blocks := x.blocks + 1 }).toVolume =
      u.toVolume.growRoot b := rfl

/-- What is left of a `vsfs_creat` that has taken inode `i`, with `u` in the segments. -/
inductive CreatEntered (now : Nat) (name : CStr) (n i : Nat) (u : Segments) (t : Process) : Prop
  | slot (h : (u.inodes 0).HasSlot) (ha : addingEntry now name n i ((u.inodes 0).entry / 16)
      ((u.inodes 0).entry - (u.inodes 0).entry / 16 * 16) u = .ok t.seg)
  | grow {b : Nat} {u₁ : Segments} (h : ¬(u.inodes 0).HasSlot) (hb : (u.inodes 0).blocks < 49)
      (hg : u.getFreeDblock = .ok (b, u₁)) (ha : addingEntry now name n i b (u.inodes 0).newSlot
        (u₁.modInode 0 fun x => { x with l1 := update x.l1 x.blocks b, blocks := x.blocks + 1 }) = .ok t.seg)
  | full {c : Cached} (hp : putInode u.cached i = .ok c) (ht : t.seg = { u with cached := c })

/-- All that `vsfs_creat` can do. -/
theorem vsfsCreat_cases {blockNum : UInt32} (h : vsfsCreat now name blockNum s = .ok (ret, t)) :
    t = s ∨ Enters name s ∧ ∃ i c, getFreeInode s.cached = .ok (i, c) ∧
      CreatEntered now name blockNum.toNat i { s.seg with cached := c } t := by
  unfold vsfsCreat at h
  split at h
  case isTrue => cases h; exact Or.inl rfl
  case isFalse hlen =>
  split at h
  case isTrue => cases h; exact Or.inl rfl
  case isFalse hdup =>
  obtain ⟨⟨i, c⟩, hgi, h⟩ := ExceptLib.bind_eq_ok.mp h
  refine Or.inr ⟨⟨Nat.not_le.mp hlen, by simpa using hdup⟩, i, c, hgi, ?_⟩
  dsimp only at h
  split at h
  case isTrue hslot =>
    obtain ⟨u, hu, h⟩ := ExceptLib.bind_eq_ok.mp h
    cases h
    exact .slot hslot hu
  case isFalse hslot =>
  split at h
  case isTrue hgrow =>
    obtain ⟨⟨b, u₁⟩, hg, h⟩ := ExceptLib.bind_eq_ok.mp h
    obtain ⟨u, hu, h⟩ := ExceptLib.bind_eq_ok.mp h
    cases h
    exact .grow hslot hgrow hg hu
  case isFalse hfull =>
    obtain ⟨c', hp, h⟩ := ExceptLib.bind_eq_ok.mp h
    cases h
    exact .full hp rfl

/-- An inode that is put back makes the inode bitmap what it was. -/
theorem putInode_taken {c c' : Cached} (hb : bit c.ibitmap i = true) (h : putInode (c.takeInode i) i = .ok c') :
    ∃ k, c' = { c with sbi := { c.sbi with nrFreeInodes := k } } := by
  obtain ⟨m, hm, h⟩ := ExceptLib.bind_eq_ok.mp h
  cases h
  unfold putFreeBit at hm
  split at hm
  case isFalse => cases hm
  case isTrue =>
  cases hm
  exact ⟨succ32 (pred32 c.sbi.nrFreeInodes), by simp [Cached.takeInode, set_clear hb]⟩

/-- What a `vsfs_creat` that takes inode `i` leaves: it writes to the block of the slot, which is block `entry / 16` if
the directory has a slot left, and to free blocks. -/
structure CreatKept (B i : Nat) (s t : Process) : Prop where
  evolves : Evolves B {i} s.seg.toVolume t.seg.toVolume
  sized : t.seg.toVolume.Sized
  sbi : ∃ k l, t.cached.sbi = { s.cached.sbi with nrFreeInodes := k, nrFreeDblock := l }
  disk : ∀ l, t.seg.toVolume.disk l ≠ s.seg.toVolume.disk l →
    (s.inodes 0).HasSlot ∧ l = s.cached.sbi.ofsDregion + (s.inodes 0).entry / 16 ∨
      ∃ a, a < B ∧ bit s.cached.dbitmap a = true ∧ l = s.seg.toVolume.lba a

/-- **`vsfs_creat`** under the condition: nothing, or it takes the least free inode. -/
theorem creat_kept {blockNum : UInt32} (h : Sane B sb s) (hsb : sb.nrIbitmapBlocks = 1)
    (hok : CallOk B (.creat name blockNum) s) (hc : vsfsCreat now name blockNum s = .ok (ret, t)) :
    t = s ∨ ∃ i, Enters name s ∧ Least s.cached.ibitmap nrInodes i ∧ CreatKept B i s t := by
  obtain rfl | ⟨hent, i, c, hgi, he⟩ := vsfsCreat_cases hc
  · exact Or.inl rfl
  obtain ⟨hfree, hmap, hroom, hclear⟩ := hok hent
  have hbits : ibitmapBits s.cached.sbi = nrInodes := by
    obtain ⟨k, l, hk⟩ := h.sbi
    unfold ibitmapBits
    rw [hk, hsb]
    rfl
  obtain ⟨hi0, hleast, rfl⟩ := takeInode_spec hgi h.root hbits hfree
  refine Or.inr ⟨i, hent, hleast, ?_⟩
  -- with the inode taken
  obtain ⟨u₀, hu₀⟩ : ∃ x, ({ s.seg with cached := s.cached.takeInode i } : Segments) = x := ⟨_, rfl⟩
  have hev₀ : Evolves B {i} s.seg.toVolume u₀.toVolume := by
    rw [← hu₀]
    exact takeInode_evolves h.sound i
  have hroom₀ : u₀.toVolume.room B = s.seg.toVolume.room B := by rw [← hu₀]; rfl
  have hin₀ : u₀.inodes = s.inodes := by rw [← hu₀]; rfl
  have hdisk₀ : u₀.toVolume.disk = s.seg.toVolume.disk := by rw [← hu₀]; rfl
  have hmap₀ : u₀.cached.dbitmap = s.cached.dbitmap := by rw [← hu₀]; rfl
  have hofs₀ : u₀.cached.sbi.ofsDregion = s.cached.sbi.ofsDregion := by rw [← hu₀]; rfl
  have hlba₀ : ∀ a, u₀.toVolume.lba a = s.seg.toVolume.lba a := fun a => lba_congr hofs₀ rfl
  have hsbi₀ : ∃ k, u₀.cached.sbi = { s.cached.sbi with nrFreeInodes := k } := by rw [← hu₀]; exact ⟨_, rfl⟩
  obtain ⟨hsize, h32⟩ : (s.inodes 0).size ≤ 4096 * (s.inodes 0).blocks ∧ (s.inodes 0).size < 2 ^ 32 :=
    h.sized 0 (by decide)
  have hz : ∀ j, j < nrInodes → (s.inodes j).size ≤ 4096 * (s.inodes j).blocks ∧ (s.inodes j).size < 2 ^ 32 := h.sized
  obtain ⟨k₀, hk₀⟩ := hsbi₀
  rw [hu₀] at he
  cases he with
  | slot hslot ha =>
    have hkept := addingEntry_kept hev₀.sound hi0 hmap (fun p hp hd heq => ?_)
      (hroom₀ ▸ hroom.slot (by rwa [hin₀] at hslot)) ha
    · obtain ⟨k, hk⟩ := hkept.sbi
      refine ⟨hev₀.trans hkept.evolves, hkept.sized (by rw [hin₀]; exact fun j _ => hz j) ?_ ?_, ⟨k₀, k, ?_⟩, fun l hl => ?_⟩
      · rw [hin₀] at hslot ⊢
        unfold Inode.HasSlot Inode.entry at hslot
        omega
      · rw [hin₀]
        exact h32
      · exact hk.trans (by rw [hk₀])
      · rw [hin₀] at hslot
        rcases hkept.disk l (by rw [hdisk₀]; exact hl) with hd | ⟨a, ha, hbit, hla⟩
        · rw [hin₀, hofs₀] at hd
          exact Or.inl ⟨hslot, hd⟩
        · exact Or.inr ⟨a, ha, hmap₀ ▸ hbit, hla.trans (hlba₀ a)⟩
    · rw [hin₀] at hslot heq
      subst hu₀
      exact hclear hslot p hp hd (congrArg s.seg.toVolume.lba heq)
  | @grow b u₁ hslot hb hg ha =>
    rw [hin₀] at hslot hb
    have hneed := hroom.grow hslot hb
    obtain ⟨hge, hgw, hleastB, hv₁, hr⟩ := growRoot_evolves (E := {i}) hev₀.sound (by rw [← hin₀] at hb; exact hb)
      (by omega) (getFreeDblock_toVolume hg)
    rw [← growRoot_toVolume] at hge hgw
    obtain ⟨u₂, hu₂⟩ : ∃ x, (u₁.modInode 0 fun x => { x with l1 := update x.l1 x.blocks b, blocks := x.blocks + 1 }) = x :=
      ⟨_, rfl⟩
    have hroom₂ : u₂.toVolume.room B = u₁.toVolume.room B := by rw [← hu₂]; rfl
    rw [hu₂] at ha hge hgw
    have hkept := addingEntry_kept hge.sound hi0 hmap (fun p hp hd heq => ?_) (by omega) ha
    · -- the inodes but for the number of blocks of the root are those from before
      have hin₁ : u₁.inodes = s.inodes := hin₀ ▸ congrArg (fun v : Volume => v.cached.inodeReg) hv₁
      have hother : ∀ j, j ≠ 0 → u₂.inodes j = s.inodes j := fun j hj => by
        rw [← hu₂, segments_modInode_of_ne _ _ hj, hin₁]
      have hroot : (u₂.inodes 0).size = (s.inodes 0).size ∧ (u₂.inodes 0).blocks = (s.inodes 0).blocks + 1 := by
        rw [← hu₂, segments_modInode_self, hin₁]
        exact ⟨rfl, rfl⟩
      have hsbi₁ : u₁.cached.sbi = (u₀.toVolume.cached.takeDblock b).sbi :=
        congrArg (fun v : Volume => v.cached.sbi) hv₁
      have hsbi₂ : u₂.cached.sbi = u₁.cached.sbi := by rw [← hu₂]; rfl
      have hdisk₂ : u₂.toVolume.disk = s.seg.toVolume.disk := by
        rw [← hu₂, growRoot_toVolume, hv₁, ← hdisk₀]
        rfl
      have hlba : ∀ a, u₂.toVolume.lba a = s.seg.toVolume.lba a := fun a => (lba_congr hge.ofsDregion rfl).trans (hlba₀ a)
      obtain ⟨k, hk⟩ := hkept.sbi
      refine ⟨(hev₀.trans hge).trans hkept.evolves, hkept.sized (fun j hj hlt => ?_) ?_ ?_, ⟨k₀, k, ?_⟩, fun l hl => ?_⟩
      · rw [hother j hj]
        exact hz j hlt
      · omega
      · omega
      · show t.seg.cached.sbi = _
        rw [hk, hsbi₂, hsbi₁]
        show ({ u₀.cached.sbi with nrFreeDblock := _ } : SbInfo) = _
        rw [hk₀]
      · refine Or.inr ?_
        rcases hkept.disk l (by rw [hdisk₂]; exact hl) with hd | ⟨a, ha, hbit, hla⟩
        · -- the block of the slot was free
          refine ⟨b, hgw.lt, hmap₀ ▸ hleastB.bit, ?_⟩
          rw [hd, ← hlba, lba_of_lt hge.sound.owns.addr hgw.lt]
          rfl
        · exact ⟨a, ha, hmap₀ ▸ hge.free a hbit, hla.trans (hlba a)⟩
    · exact hgw.lba hge.sound p hp hd (congrArg u₂.toVolume.lba heq)
  | full hp ht =>
    obtain ⟨k, hk⟩ := putInode_taken hleast.bit (show putInode (s.cached.takeInode i) i = _ by rw [← hu₀] at hp; exact hp)
    have heq : t.seg.toVolume = { s.seg.toVolume with cached := { s.seg.toVolume.cached with
        sbi := { s.cached.sbi with nrFreeInodes := k } } } := by
      rw [ht, ← hu₀, hk]
      rfl
    refine ⟨?_, ?_, ⟨k, s.cached.sbi.nrFreeDblock, ?_⟩, fun l hl => absurd ?_ hl⟩
    · rw [heq]
      exact keep_evolves h.sound (fun _ => ⟨rfl, rfl, rfl⟩) (fun _ => Or.inl rfl) rfl (fun _ ha => ha) rfl rfl
        fun _ _ _ => rfl
    · rw [heq]
      exact h.sized
    · show t.seg.cached.sbi = _
      rw [ht, hk]
    · rw [heq]

theorem creat_sane {blockNum : UInt32} (h : Sane B sb s) (hsb : sb.nrIbitmapBlocks = 1)
    (hok : CallOk B (.creat name blockNum) s) (hc : vsfsCreat now name blockNum s = .ok (ret, t)) : Sane B sb t := by
  obtain rfl | ⟨i, -, -, hk⟩ := creat_kept h hsb hok hc
  · exact h
  · exact h.of_evolves hk.evolves hk.sized hk.sbi

/-! ## `vsfs_open`, `vsfs_close` and `vsfs_read` -/

/-- `vsfs_open` sets time stamps only. -/
theorem open_inodes {s t : State} {pathname : CStr} {flags : Int} (h : vsfsOpen now pathname flags s = .ok (ret, t)) :
    t.data = s.data ∧ (t.inodes = s.inodes ∨ ∃ target, t.inodes = touchPath now flags target s.inodes) := by
  have hunwind : ∀ {u u' : State} {d : Desc} {r : Int}, (u.unwind d >>= fun s => Except.ok (-1, s)) = .ok (r, u') →
      u'.data = u.data ∧ u'.inodes = u.inodes := by
    intro u u' d r hu
    obtain ⟨w, hw, hu⟩ := ExceptLib.bind_eq_ok.mp hu
    obtain ⟨d', _, hw⟩ := ExceptLib.bind_eq_ok.mp hw
    cases hw
    cases hu
    exact ⟨rfl, rfl⟩
  unfold vsfsOpen at h
  split at h
  case isTrue => cases h; exact ⟨rfl, Or.inl rfl⟩
  case isFalse =>
  obtain ⟨⟨fd, a, d⟩, _, h⟩ := ExceptLib.bind_eq_ok.mp h
  obtain ⟨found, _, h⟩ := ExceptLib.bind_eq_ok.mp h
  cases found with
  | none => exact ⟨(hunwind h).1, Or.inl (hunwind h).2⟩
  | some target =>
    simp only at h
    split at h
    case isTrue => exact ⟨(hunwind h).1, Or.inl (hunwind h).2⟩
    case isFalse =>
      cases h
      exact ⟨rfl, Or.inr ⟨target, rfl⟩⟩

/-- The time stamps are no part of the map. -/
theorem touchPath_touched (u : Segments) (flags : Int) (target : Nat) :
    Touched u.toVolume ({ u with inodes := touchPath now flags target u.inodes } : Segments).toVolume := by
  have hstamp : ∀ j, ∃ a m, touchPath now flags target u.inodes j = { u.inodes j with atime := a, mtime := m } := by
    intro j
    unfold touchPath
    dsimp only
    split_ifs
    · exact ⟨_, _, rfl⟩
    · exact ⟨_, _, rfl⟩
    · exact ⟨_, _, rfl⟩
    · exact ⟨_, _, rfl⟩
  refine ⟨fun j => ?_, fun j => ?_, fun j => ?_, rfl, rfl, rfl, rfl⟩ <;> obtain ⟨a, m, hj⟩ := hstamp j
  · show (u.inodes j).SameMap (touchPath now flags target u.inodes j)
    rw [hj]
    exact ⟨rfl, rfl, rfl⟩
  · show (touchPath now flags target u.inodes j).blocks = _
    rw [hj]
    rfl
  · show (touchPath now flags target u.inodes j).size = _
    rw [hj]
    rfl

theorem open_touched {s : Process} {t : State} {pathname : CStr} {flags : Int}
    (h : vsfsOpen now pathname flags s.toState = .ok (ret, t)) :
    Touched s.seg.toVolume ({ s with toState := t } : Process).seg.toVolume := by
  obtain ⟨hdata, hin⟩ := open_inodes h
  have hseg : ({ s with toState := t } : Process).seg = { s.seg with inodes := t.inodes } := by
    unfold Process.seg
    rw [hdata]
  rw [hseg]
  rcases hin with hin | ⟨target, hin⟩
  · rw [hin]
    exact .refl _
  · rw [hin]
    exact touchPath_touched s.seg flags target

/-- `vsfs_close` leaves the segments alone. -/
theorem close_segments {s t : State} {fildes : Int} (h : vsfsClose fildes s = .ok (ret, t)) :
    t.inodes = s.inodes ∧ t.data = s.data := by
  have hlast : ∀ (u : State) (a : Nat), (u.closeLast a).inodes = u.inodes ∧ (u.closeLast a).data = u.data := by
    intro u a
    unfold State.closeLast
    dsimp only
    split
    · exact ⟨rfl, rfl⟩
    · exact ⟨rfl, rfl⟩
  unfold vsfsClose at h
  split at h
  · cases h; exact ⟨rfl, rfl⟩
  · cases h; exact ⟨rfl, rfl⟩
  · cases h
  · obtain ⟨head, _, h⟩ := ExceptLib.bind_eq_ok.mp h
    split at h
    · cases h; exact ⟨rfl, rfl⟩
    obtain ⟨⟨rm, d⟩, _, h⟩ := ExceptLib.bind_eq_ok.mp h
    cases rm with
    | none => cases h; exact ⟨rfl, rfl⟩
    | some a =>
      obtain ⟨fd, _, h⟩ := ExceptLib.bind_eq_ok.mp h
      obtain ⟨p, _, h⟩ := ExceptLib.bind_eq_ok.mp h
      split at h
      · cases h; exact ⟨rfl, rfl⟩
      · cases h; exact hlast _ a

/-- `vsfs_read` sets a time stamp. -/
theorem read_touched {fildes : Int} {buf b : Bytes} {nbyte : UInt64}
    (h : vsfsRead now fildes buf nbyte s = .ok (ret, b, t)) : Touched s.seg.toVolume t.seg.toVolume := by
  unfold vsfsRead at h
  split at h
  case isTrue => cases h; exact .refl _
  case isFalse =>
  obtain ⟨found, _, h⟩ := ExceptLib.bind_eq_ok.mp h
  cases found with
  | none => cases h; exact .refl _
  | some x =>
    obtain ⟨_, fd⟩ := x
    dsimp only at h
    obtain ⟨_, _, h⟩ := ExceptLib.bind_eq_ok.mp h
    split at h
    case isTrue => cases h; exact .refl _
    case isFalse =>
    split at h
    case isTrue => cases h; exact .refl _
    case isFalse =>
    obtain ⟨p, _, h⟩ := ExceptLib.bind_eq_ok.mp h
    split at h
    case isTrue => cases h
    case isFalse =>
      cases h
      exact modInode_touched (f := fun x => { x with atime := now }) s.seg.toVolume _ ⟨rfl, rfl, rfl⟩ rfl rfl

/-! ## `vsfs_write` -/

/-- `vsfs_write` leaves the process alone or has passed its checks. -/
theorem vsfsWrite_cases {fildes : Int} {buf : Bytes} {nbyte : UInt64}
    (h : vsfsWrite now fildes buf nbyte s = .ok (ret, t)) :
    ∃ e p, s.OpenOn fildes e p ∧ (t = s ∨ WriteAllowed s e p nbyte) := by
  unfold vsfsWrite at h
  obtain ⟨found, hfind, h⟩ := ExceptLib.bind_eq_ok.mp h
  cases found with
  | none => cases h
  | some x =>
    obtain ⟨b, e⟩ := x
    obtain ⟨p, hp, h⟩ := ExceptLib.bind_eq_ok.mp h
    refine ⟨e, p, ⟨b, hfind, slot_eq_ok.mp hp⟩, ?_⟩
    dsimp only at h
    split at h
    case isTrue => cases h
    case isFalse hsb =>
    split at h
    case isTrue => cases h; exact Or.inl rfl
    case isFalse hop =>
    obtain ⟨fl, hset, h⟩ := ExceptLib.bind_eq_ok.mp h
    split at h
    case isTrue => cases h; exact Or.inl rfl
    case isFalse hne =>
    split at h
    case isTrue => cases h; exact Or.inl rfl
    case isFalse hc =>
    split at h
    case isTrue => cases h; exact Or.inl rfl
    case isFalse hlim =>
    split at h
    case isTrue => cases h; exact Or.inl rfl
    case isFalse =>
    split at h
    case isTrue => cases h
    case isFalse hi =>
      exact Or.inr ⟨by simpa using hsb, by simpa using hop, ⟨fl, accessMode_eq_ok.mp hset, hne⟩, by simpa using hc,
        Nat.not_lt.mp hlim, Nat.not_le.mp hi⟩

/-- **`vsfs_write`** under the condition. -/
theorem write_sane {fildes : Int} {buf : Bytes} {nbyte : UInt64} (h : Sane B sb s)
    (hok : CallOk B (.write fildes buf nbyte) s) (hw : vsfsWrite now fildes buf nbyte s = .ok (ret, t)) :
    Sane B sb t := by
  obtain ⟨e, p, ho, rfl | ha⟩ := vsfsWrite_cases hw
  · exact h
  have hr := hok e p ho ha
  have hneed := le_neededBlocks (hr.limit ha)
  obtain ⟨t', v, hrun, ⟨m, hkept⟩, hev, -, hblocks, hother, hnewBlocks, hnewSize, k, hk⟩ :=
    vsfsWrite_done h.sound ha hr now buf ho
  rw [hw] at hrun
  cases hrun
  refine h.of_evolves (hkept.evolves.trans hev) (fun j hj => ?_) ?_
  · show (t.inodes j).size ≤ 4096 * (t.inodes j).blocks ∧ (t.inodes j).size < 2 ^ 32
    by_cases hji : j = (s.desc.opFtable p).inodeNr
    · subst hji
      rw [hnewSize, hnewBlocks, hblocks]
      have := Nat.mod_le ((s.desc.opFtable p).offset + nbyte.toNat) (2 ^ 32)
      omega
    · rw [hother j hji]
      exact h.sized j hj
  · exact ⟨_, k, hk⟩

/-! ## `vsfs_lseek` -/

/-- The process after a seek to `o` of inode `i` that grows the file, but for the offset. -/
structure Grown (i o : Nat) (s t : Process) : Prop where
  lt : i < nrInodes
  limit : o ≤ 0x100000000
  beyond : (s.inodes i).fileSize < o
  alloc : ∃ m u, allocBlock i (sub32 (neededBlocks o) (s.inodes i).blocks) s.seg = .ok (m, u) ∧
    t.seg = u.modInode i fun x => { x with size := o % 2 ^ 32 }

/-- All that `vsfs_lseek` does to the segments: nothing, or it grows the file. -/
theorem vsfsLseek_cases {fildes whence : Int} {offset : UInt64} {r : Nat}
    (h : vsfsLseek fildes offset whence s = .ok (r, t)) :
    t.seg = s.seg ∨ ∃ e p, s.OpenOn fildes e p ∧ whence = seekSet ∧
      Grown (s.desc.opFtable p).inodeNr offset.toNat s t := by
  unfold vsfsLseek at h
  split at h
  case isTrue => cases h; exact Or.inl rfl
  case isFalse =>
  split at h
  case isTrue => cases h
  case isFalse =>
  obtain ⟨found, hfind, h⟩ := ExceptLib.bind_eq_ok.mp h
  cases found with
  | none => cases h; exact Or.inl rfl
  | some x =>
    obtain ⟨b, e⟩ := x
    obtain ⟨p, hp, h⟩ := ExceptLib.bind_eq_ok.mp h
    dsimp only at h
    split at h
    case isTrue => cases h
    case isFalse hi =>
    split at h
    case isTrue hset =>
      split at h
      case isTrue => cases h; exact Or.inl rfl
      case isFalse hlim =>
      obtain ⟨s', hs', h⟩ := ExceptLib.bind_eq_ok.mp h
      split at hs'
      case isFalse => cases hs'; cases h; exact Or.inl rfl
      case isTrue hbey =>
      split at hs'
      case isTrue => cases hs'
      case isFalse =>
      obtain ⟨⟨m, u⟩, hu, hs'⟩ := ExceptLib.bind_eq_ok.mp hs'
      cases hs'
      cases h
      exact Or.inr ⟨e, p, ⟨b, hfind, slot_eq_ok.mp hp⟩, hset, Nat.not_le.mp hi, Nat.not_lt.mp hlim, hbey, m, u, hu, rfl⟩
    case isFalse =>
    split at h
    case isTrue =>
      split at h
      · cases h; exact Or.inl rfl
      · cases h; exact Or.inl rfl
    case isFalse =>
    split at h
    case isTrue =>
      split at h
      · cases h; exact Or.inl rfl
      · cases h; exact Or.inl rfl
    case isFalse => cases h; exact Or.inl rfl

/-- The allocation of a seek that finds the blocks it grows the file by. -/
theorem Grown.kept (hg : Grown i n s t) (h : Sane B sb s) (hmore : (s.inodes i).blocks ≤ neededBlocks n)
    (hroom : allocTakes (s.inodes i).blocks (neededBlocks n - (s.inodes i).blocks) ≤ s.seg.toVolume.room B) :
    ∃ u : Segments, AllocKept B i (neededBlocks n - (s.inodes i).blocks) s.seg.toVolume u.toVolume ∧
      (u.inodes i).blocks = neededBlocks n ∧ t.seg = u.modInode i fun x => { x with size := n % 2 ^ 32 } := by
  have hlim : level3Limit = 1053745 := rfl
  have hmax : level3LimitTimesBlockSize = 4294972465 := rfl
  obtain ⟨hi, hlimit, -, m, u, hu, ht⟩ := hg
  have hneed := neededBlocks_le (n := n) (by omega)
  have hn : (s.seg.inodes i).blocks + (neededBlocks n - (s.inodes i).blocks) ≤ level3Limit := by
    show (s.inodes i).blocks + _ ≤ _
    omega
  obtain ⟨u', hu', hkept⟩ := allocBlock_kept h.sound hi hn hroom
  rw [sub32_of_le hmore (by omega), hu'] at hu
  cases hu
  have hb : (u.inodes i).blocks = (s.inodes i).blocks + (neededBlocks n - (s.inodes i).blocks) :=
    hkept.frame.blocks (by show (s.inodes i).blocks + _ < _; omega)
  exact ⟨u, hkept, by omega, ht⟩

/-- Another size. -/
theorem size_evolves (h : u.toVolume.Sound B) (i z : Nat) :
    Evolves B ∅ u.toVolume (u.modInode i fun x => { x with size := z }).toVolume := by
  rw [toVolume_modInode]
  exact modInode_evolves h ⟨rfl, rfl, rfl⟩ (Or.inl rfl)

/-- **`vsfs_lseek`** under the condition. -/
theorem lseek_sane {fildes whence : Int} {offset : UInt64} {r : Nat} (h : Sane B sb s)
    (hok : CallOk B (.lseek fildes offset whence) s) (hl : vsfsLseek fildes offset whence s = .ok (r, t)) :
    Sane B sb t := by
  have hmax : level3LimitTimesBlockSize = 4294972465 := rfl
  obtain hseg | ⟨e, p, ho, hset, hg⟩ := vsfsLseek_cases hl
  · refine h.of_touched ?_
    rw [hseg]
    exact .refl _
  obtain ⟨hmore, hroom⟩ := hok e p ho hset hg.limit hg.beyond
  obtain ⟨u, hkept, hb, ht⟩ := hg.kept h hmore hroom
  obtain ⟨i, hino⟩ : ∃ i, (s.desc.opFtable p).inodeNr = i := ⟨_, rfl⟩
  obtain ⟨o, hofs⟩ : ∃ o, offset.toNat = o := ⟨_, rfl⟩
  have hlimit := hg.limit
  rw [hofs] at hlimit
  rw [hino, hofs] at hkept hb ht
  have hcover : o ≤ 4096 * neededBlocks o := le_neededBlocks (by omega)
  refine h.of_evolves (hkept.evolves.trans (ht ▸ size_evolves hkept.evolves.sound _ _)) ?_ ?_
  · have hin : t.inodes = update u.inodes i { u.inodes i with size := o % 2 ^ 32 } := congrArg Segments.inodes ht
    intro j hj
    show (t.inodes j).size ≤ 4096 * (t.inodes j).blocks ∧ (t.inodes j).size < 2 ^ 32
    rw [hin]
    by_cases hji : j = i
    · subst hji
      rw [update_self]
      have := Nat.mod_le o (2 ^ 32)
      dsimp only
      omega
    · rw [update_of_ne hji, show u.inodes j = s.inodes j from hkept.frame.other j hji]
      exact h.sized j hj
  · obtain ⟨k, hk⟩ := hkept.frame.sbi
    exact ⟨_, k, (congrArg (fun u : Segments => u.cached.sbi) ht).trans hk⟩

/-! ## Runs -/

/-- **Every call** that finds what it needs keeps the volume sound and its sizes as its blocks allow. -/
theorem Sane.step {c : Call} (h : Sane B sb s) (hsb : sb.nrIbitmapBlocks = 1) (hok : CallOk B c s) (hs : Step c s t) :
    Sane B sb t := by
  obtain ⟨now, ret, -, hr⟩ := hs
  cases c with
  | creat name blockNum => exact creat_sane h hsb hok hr
  | «open» pathname flags =>
    obtain ⟨⟨r, u⟩, ho, hr⟩ := ExceptLib.bind_eq_ok.mp hr
    cases hr
    exact h.of_touched (open_touched ho)
  | stat pathname =>
    obtain ⟨⟨r, fre⟩, _, hr⟩ := ExceptLib.bind_eq_ok.mp hr
    cases hr
    exact h
  | close fildes =>
    obtain ⟨⟨r, u⟩, hc, hr⟩ := ExceptLib.bind_eq_ok.mp hr
    cases hr
    obtain ⟨hin, hdata⟩ := close_segments hc
    refine h.of_touched ?_
    rw [show ({ s with toState := u } : Process).seg = s.seg by unfold Process.seg; rw [hin, hdata]]
    exact .refl _
  | write fildes buf nbyte => exact write_sane h hok hr
  | read fildes buf nbyte =>
    obtain ⟨⟨r, b, u⟩, hrd, hr⟩ := ExceptLib.bind_eq_ok.mp hr
    cases hr
    exact h.of_touched (read_touched hrd)
  | lseek fildes offset whence =>
    obtain ⟨⟨r, u⟩, hl, hr⟩ := ExceptLib.bind_eq_ok.mp hr
    cases hr
    exact lseek_sane h hok hl

/-- The segments of a process that starts hold the volume, but for the blocks in front of the data region. -/
theorem start_evolves {v : Volume} (h : v.Sound B) : Evolves B ∅ v (Process.start v).seg.toVolume := by
  refine keep_evolves h (fun _ => ⟨rfl, rfl, rfl⟩) (fun _ => Or.inl rfl) rfl (fun _ ha => ha) rfl rfl fun p hp _ => ?_
  rw [lba_of_lt h.owns.addr (h.owns.owned.lt p hp)]
  exact toVolume_disk (Process.start v).seg _

/-- The first `vsfs_creat` finds what it needs if the volume has it. -/
theorem start_creatReady {v : Volume} (hfree : ∃ j, j < nrInodes ∧ bit v.cached.ibitmap j = true)
    (hn : n ≤ level3Limit) (hroom : CreatRoom B n v) (hdata : ∀ p, p ∈ v.used → p.2.IsData) :
    CreatReady B n (.start v) :=
  ⟨hfree, hn, ⟨hroom.slot, hroom.grow⟩, fun _ p hp hd => absurd (hdata p hp) hd⟩

theorem start_sane (hl : 2052 ≤ n) (hu : n < 2 ^ 32) (disk : Nat → Block) (seg : Bytes) :
    Sane (superblockInfo n).nrDregionBlocks (superblockInfo n) (.start (Vsfs.State.fresh n disk seg).vol) := by
  have hst := fresh_steady_device hl hu disk seg
  have hholds : ∀ j, j < nrInodes → ((Vsfs.State.fresh n disk seg).vol.inode j).Holds := fun j hj => fresh_holds hl hu hj
  have hsbi := fresh_sbi hl hu disk seg
  obtain ⟨v, hv⟩ : ∃ v, (Vsfs.State.fresh n disk seg).vol = v := ⟨_, rfl⟩
  obtain ⟨hfits, hsound, hroot, -⟩ := hst
  rw [hv] at hholds hsbi hfits hsound hroot ⊢
  exact ⟨(start_evolves hsound).sound, fun j hj => ⟨hholds j hj, (hfits.inode j).size⟩, hroot, _, _, hsbi⟩

/-- **In every run** whose calls find what they need. -/
theorem ReachedBy.sane (h : ReachedBy (fun c s => CallOk s.cached.sbi.nrDregionBlocks c s) s) :
    Sane s.cached.sbi.nrDregionBlocks s.cached.sbi s := by
  obtain ⟨n, hl, hu, disk, seg, hr⟩ := h
  have hsane := hr.invariant (start_sane hl hu disk seg) fun c u v hP hok hs => by
    obtain ⟨k, l, hk⟩ := hP.sbi
    rw [hk] at hok
    exact hP.step (superblockInfo_layout hl hu).nrIbitmapBlocks hok hs
  obtain ⟨k, l, hk⟩ := hsane.sbi
  rw [hk]
  exact ⟨hsane.sound, hsane.sized, hsane.root, _, _, hk.trans rfl⟩

end Vsfs.Shm
