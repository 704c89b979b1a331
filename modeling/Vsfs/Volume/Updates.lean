import Mathlib.Logic.Relation
import Vsfs.Volume.Cases

/-!
# The updates a call makes to the volume

Every call changes the cached data and the device by a sequence of five kinds of updates: a change of an inode, a
block written, a data block taken, an inode taken or given back. `run_updates` says so for all calls, so that a property
of the volume that the five kinds keep holds in every state that calls lead to.
-/

set_option autoImplicit false

namespace Vsfs

open Function Relation ByteSeq

/-- Every member of an inode is in the range of its type. -/
structure Inode.Fits (x : Inode) : Prop where
  mode : x.mode < 2 ^ 32
  blocks : x.blocks < 2 ^ 32
  size : x.size < 2 ^ 32
  l1 : ∀ k, x.l1 k < 2 ^ 32
  l2 : ∀ k, x.l2 k < 2 ^ 32
  l3 : x.l3 < 2 ^ 32
  atime : x.atime < 2 ^ 64
  ctime : x.ctime < 2 ^ 64
  mtime : x.mtime < 2 ^ 64

/-- One update. -/
inductive Update : Volume → Volume → Prop
  | inode {v : Volume} (i : Nat) (f : Inode → Inode) (hf : (v.inode i).Fits → (f (v.inode i)).Fits) :
      Update v (v.modInode i f)
  | write {v : Volume} (lba : Nat) (b : Block) : Update v (v.writeBlock lba b)
  | takeDblock {v : Volume} {b : Nat} {c : Cached} (h : getFreeDblock v.cached = .ok (b, c)) :
      Update v { v with cached := c }
  | takeInode {v : Volume} {i : Nat} {c : Cached} (h : getFreeInode v.cached = .ok (i, c)) :
      Update v { v with cached := c }
  | putInode {v : Volume} {i : Nat} {c : Cached} (h : putInode v.cached i = .ok c) : Update v { v with cached := c }

/-- A sequence of updates. -/
abbrev Updates : Volume → Volume → Prop := ReflTransGen Update

/-- What every update keeps, a sequence of them keeps. -/
theorem Updates.keep {P : Volume → Prop} {v w : Volume} (h : Updates v w) (h0 : P v)
    (hstep : ∀ v w, Update v w → P v → P w) : P w := by
  induction h with
  | refl => exact h0
  | tail _ hs ih => exact hstep _ _ hs ih

/-! ## Block allocation -/

section

variable {v w : Volume} {ofs ino : Nat}

theorem getFirstFreeBit_lt {len size b : Nat} {m m' : WordBits.Words} (h : getFirstFreeBit len m size = .ok (b, m')) :
    b < 2 ^ 32 := by
  rcases getFirstFreeBit_cases len m size with ⟨i, _, hr⟩ | ⟨_, hr | hr⟩ <;> rw [hr] at h <;> cases h
  · exact Nat.mod_lt _ (by decide)
  · decide

/-- A block number that the allocator returns fits its type. -/
theorem getFreeDblock_update {b : Nat} (h : v.getFreeDblock = .ok (b, w)) : Update v w ∧ b < 2 ^ 32 := by
  obtain ⟨⟨b', c⟩, hc, h⟩ := ExceptLib.bind_eq_ok.mp h
  cases h
  refine ⟨.takeDblock hc, ?_⟩
  obtain ⟨⟨b', m⟩, hm, hc⟩ := ExceptLib.bind_eq_ok.mp hc
  cases hc
  exact getFirstFreeBit_lt hm

theorem succ32_lt (n : Nat) (h : n < 2 ^ 32) : succ32 n < 2 ^ 32 := by
  unfold succ32
  split <;> omega

theorem pred32_lt (n : Nat) (h : n < 2 ^ 32) : pred32 n < 2 ^ 32 := by
  unfold pred32
  split <;> omega

theorem Inode.Fits.setL1 {x : Inode} (h : x.Fits) {b : Nat} (hb : b < 2 ^ 32) (i n : Nat) (hn : n < 2 ^ 32) :
    { x with l1 := update x.l1 i b, blocks := n }.Fits := by
  refine { h with l1 := fun k => ?_, blocks := hn }
  simp only [update_apply]
  split
  · exact hb
  · exact h.l1 k

theorem Inode.Fits.setL2 {x : Inode} (h : x.Fits) {b : Nat} (hb : b < 2 ^ 32) (i : Nat) :
    { x with l2 := update x.l2 i b }.Fits := by
  refine { h with l2 := fun k => ?_ }
  simp only [update_apply]
  split
  · exact hb
  · exact h.l2 k

theorem allocLevel1_updates {n i m : Nat} (h : allocLevel1 ino n i v = .ok (m, w)) : Updates v w := by
  induction n generalizing i v with
  | zero => cases h; exact .refl
  | succ n ih =>
    unfold allocLevel1 at h
    split at h
    case isFalse => cases h; exact .refl
    case isTrue =>
      obtain ⟨⟨b, v'⟩, hb, h⟩ := ExceptLib.bind_eq_ok.mp h
      obtain ⟨hu, hlt⟩ := getFreeDblock_update hb
      exact ((ReflTransGen.single hu).tail (.inode ino _ fun hx => hx.setL1 hlt _ _ (succ32_lt _ hx.blocks))).trans
        (ih h)

theorem fillPointers_updates {n j m : Nat} {p q : Block} (h : fillPointers ino n j p v = .ok (m, q, w)) :
    Updates v w := by
  induction n generalizing j p v with
  | zero => cases h; exact .refl
  | succ n ih =>
    unfold fillPointers at h
    split at h
    case isFalse => cases h; exact .refl
    case isTrue =>
      obtain ⟨⟨b, v'⟩, hb, h⟩ := ExceptLib.bind_eq_ok.mp h
      obtain ⟨hu, _⟩ := getFreeDblock_update hb
      refine ((ReflTransGen.single hu).tail (.inode ino _ ?_)).trans (ih h)
      exact fun hx => { hx with blocks := succ32_lt _ hx.blocks }

theorem allocLevel2_updates {fuel i start n m : Nat} (h : allocLevel2 ofs ino fuel i start n v = .ok (m, w)) :
    Updates v w := by
  induction fuel generalizing i start n v with
  | zero => cases h; exact .refl
  | succ fuel ih =>
    unfold allocLevel2 at h
    split at h
    case isTrue => cases h; exact .refl
    case isFalse =>
      obtain ⟨v₁, h₁, h⟩ := ExceptLib.bind_eq_ok.mp h
      have hu₁ : Updates v v₁ := by
        split at h₁
        case isFalse => cases h₁; exact .refl
        case isTrue =>
          obtain ⟨⟨b, v'⟩, hb, h₁⟩ := ExceptLib.bind_eq_ok.mp h₁
          cases h₁
          obtain ⟨hu, hlt⟩ := getFreeDblock_update hb
          exact (ReflTransGen.single hu).tail (.inode ino _ fun hx => hx.setL2 hlt _)
      obtain ⟨⟨n', p, v₂⟩, h₂, h⟩ := ExceptLib.bind_eq_ok.mp h
      exact ((hu₁.trans (fillPointers_updates h₂)).tail (.write _ _)).trans (ih h)

theorem allocLevel3_updates {fuel i start n m : Nat} {p q : Block}
    (h : allocLevel3 ofs ino fuel i start n p v = .ok (m, q, w)) : Updates v w := by
  induction fuel generalizing i start n p v with
  | zero => cases h; exact .refl
  | succ fuel ih =>
    unfold allocLevel3 at h
    split at h
    case isTrue => cases h; exact .refl
    case isFalse =>
      obtain ⟨⟨p₁, v₁⟩, h₁, h⟩ := ExceptLib.bind_eq_ok.mp h
      have hu₁ : Updates v v₁ := by
        split at h₁
        case isFalse => cases h₁; exact .refl
        case isTrue =>
          obtain ⟨⟨b, v'⟩, hb, h₁⟩ := ExceptLib.bind_eq_ok.mp h₁
          cases h₁
          exact .single (getFreeDblock_update hb).1
      obtain ⟨⟨n', p', v₂⟩, h₂, h⟩ := ExceptLib.bind_eq_ok.mp h
      exact ((hu₁.trans (fillPointers_updates h₂)).tail (.write _ _)).trans (ih h)

theorem allocFromLevel3_updates {n m : Nat} (h : allocFromLevel3 ofs ino n v = .ok (m, w)) : Updates v w := by
  unfold allocFromLevel3 at h
  obtain ⟨v₁, h₁, h⟩ := ExceptLib.bind_eq_ok.mp h
  have hu₁ : Updates v v₁ := by
    split at h₁
    case isFalse => cases h₁; exact .refl
    case isTrue =>
      obtain ⟨⟨b, v'⟩, hb, h₁⟩ := ExceptLib.bind_eq_ok.mp h₁
      cases h₁
      obtain ⟨hu, hlt⟩ := getFreeDblock_update hb
      exact (ReflTransGen.single hu).tail (.inode ino _ fun hx => { hx with l3 := hlt })
  obtain ⟨⟨n', p, v₂⟩, h₂, h⟩ := ExceptLib.bind_eq_ok.mp h
  cases h
  exact (hu₁.trans (allocLevel3_updates h₂)).tail (.write _ _)

theorem allocFromLevel2_updates {n m : Nat} (h : allocFromLevel2 ofs ino n v = .ok (m, w)) : Updates v w := by
  unfold allocFromLevel2 at h
  obtain ⟨⟨n', v₁⟩, h₁, h⟩ := ExceptLib.bind_eq_ok.mp h
  have hu₁ := allocLevel2_updates h₁
  dsimp only at h
  split at h
  case isTrue => cases h; exact hu₁
  case isFalse => exact hu₁.trans (allocFromLevel3_updates h)

/-- `__alloc_block` is a sequence of updates. -/
theorem allocBlock_updates {n m : Nat} (h : allocBlock ofs ino n v = .ok (m, w)) : Updates v w := by
  unfold allocBlock at h
  obtain ⟨x, _, h⟩ := ExceptLib.bind_eq_ok.mp h
  split at h
  case isTrue => exact allocFromLevel3_updates h
  case isFalse =>
  split at h
  case isTrue => exact allocFromLevel2_updates h
  case isFalse =>
  obtain ⟨⟨n', v₁⟩, h₁, h⟩ := ExceptLib.bind_eq_ok.mp h
  have hu₁ := allocLevel1_updates h₁
  dsimp only at h
  split at h
  case isTrue => cases h; exact hu₁
  case isFalse => exact hu₁.trans (allocFromLevel2_updates h)

/-! ## The calls -/

variable {s t : State} {now : Nat} {ret : Int}

theorem addingEntry_updates {name : CStr} {blockNum fInode fDblock dEntry : Nat} (hn : now < 2 ^ 64)
    (hb : blockNum < 2 ^ 32) (h : addingEntry now name blockNum fInode fDblock dEntry v = .ok w) : Updates v w := by
  unfold addingEntry at h
  split at h
  case isTrue => cases h
  case isFalse =>
    obtain ⟨x, _, h⟩ := ExceptLib.bind_eq_ok.mp h
    obtain ⟨⟨m, v'⟩, ha, h⟩ := ExceptLib.bind_eq_ok.mp h
    cases h
    have hroot : ∀ x : Inode, x.Fits → { x with size := succ32 x.size, atime := now, mtime := now }.Fits :=
      fun x hx => { hx with size := succ32_lt _ hx.size, atime := hn, mtime := hn }
    have hnew : ∀ x : Inode, x.Fits →
        { x with mode := 7, blocks := 0, atime := now, ctime := now, mtime := now, size := 0 }.Fits := fun x hx =>
      ⟨Nat.lt_of_sub_eq_succ rfl, Nat.two_pow_pos 32, Nat.two_pow_pos 32, hx.l1, hx.l2, hx.l3, hn, hn, hn⟩
    have hend : ∀ x : Inode, x.Fits → { x with blocks := blockNum, size := 0 }.Fits := fun x hx =>
      { hx with blocks := hb, size := Nat.two_pow_pos 32 }
    exact ((((ReflTransGen.single (.write _ _)).tail (.inode 0 _ (hroot _))).tail (.inode fInode _ (hnew _))).trans
      (allocBlock_updates ha)).tail (.inode fInode _ (hend _))

theorem vsfsCreat_updates {name : CStr} {blockNum : UInt32} (hn : now < 2 ^ 64)
    (h : vsfsCreat now name blockNum s = .ok (ret, t)) : Updates s.vol t.vol := by
  obtain ⟨_, ⟨_, rfl⟩ | ⟨_, _, rfl⟩⟩ | ⟨_, _, i, c, hi, he⟩ := vsfsCreat_cases h
  · exact .refl
  · rw [show s.attach.initBasePtr.closeCached.vol = s.vol from attach_vol s]
  have hu := ReflTransGen.single (Update.takeInode hi)
  cases he with
  | slot hs ha ht =>
    subst ht
    exact hu.trans (addingEntry_updates hn blockNum.toNat_lt ha)
  | @grow b v₁ v hs hb hg ha ht =>
    subst ht
    obtain ⟨hub, hlb⟩ := getFreeDblock_update hg
    have hroot : v₁.inode 0 = s.vol.inode 0 := by
      rw [(getFreeDblock_frame hg).1]
      exact congrFun (getFreeInode_frame hi).1 0
    refine ((hu.tail hub).tail (.inode 0 _ fun hx => hx.setL1 hlb _ _ ?_)).trans
      (addingEntry_updates hn blockNum.toNat_lt ha)
    rw [hroot]
    omega
  | full hs hb hp ht =>
    subst ht
    exact hu.tail (.putInode hp)

theorem touchPath_updates {flags : Int} {i : Nat} (hn : now < 2 ^ 64) (v : Volume) :
    Updates v (touchPath now flags i v) := by
  have hread : ∀ x : Inode, x.Fits → { x with atime := now }.Fits := fun x hx => { hx with atime := hn }
  have hwrite : ∀ x : Inode, x.Fits → { x with atime := now, mtime := now }.Fits := fun x hx =>
    { hx with atime := hn, mtime := hn }
  unfold touchPath
  split
  · exact (ReflTransGen.single (.inode 0 _ (hread _))).tail (.inode i _ (hread _))
  · split
    · exact (ReflTransGen.single (.inode 0 _ (hwrite _))).tail (.inode i _ (hwrite _))
    · exact .refl

theorem vsfsOpen_updates {pathname : CStr} {flags : Int} (hn : now < 2 ^ 64)
    (h : vsfsOpen now pathname flags s = .ok (ret, t)) : Updates s.vol t.vol := by
  obtain ⟨_, _, rfl⟩ | ⟨_, _, _, _, _, ⟨_, hu⟩ | ⟨_, _, _, _, _, _, rfl⟩⟩ := vsfsOpen_cases h
  · exact .refl
  · rw [hu.vol]
  · exact touchPath_updates hn s.vol

theorem vsfsClose_vol {fildes : Int} (h : vsfsClose fildes s = .ok (ret, t)) : t.vol = s.vol := by
  have hlast : ∀ (u : State) (a : Nat), (u.closeLast a).vol = u.vol := by
    intro u a
    unfold State.closeLast
    dsimp only
    split <;> rfl
  obtain ⟨_, _, _, rfl⟩ | ⟨_, _, _, _, _, _, ⟨_, _, rfl⟩ | ⟨_, _, _, _, _, _, _, _, ⟨_, _, rfl⟩ | ⟨_, _, rfl⟩⟩⟩ :=
    vsfsClose_cases h
  · rfl
  · rfl
  · rfl
  · exact hlast _ _

theorem writeLoop_updates {block : List Nat} {buf : Bytes} {fuel i written offset left : Nat}
    (h : writeLoop block buf fuel i written offset left v = .ok w) : Updates v w := by
  induction fuel generalizing i written offset left v with
  | zero => cases h; exact .refl
  | succ fuel ih =>
    unfold writeLoop at h
    split at h
    case isTrue => cases h; exact .refl
    case isFalse =>
      split at h
      case h_1 => cases h
      case h_2 b hb => exact (ReflTransGen.single (.write _ _)).trans (ih h)

theorem vsfsWrite_updates {fildes : Int} {buf : Bytes} {nbyte : UInt64} (hn : now < 2 ^ 64)
    (h : vsfsWrite now fildes buf nbyte s = .ok (ret, t)) : Updates s.vol t.vol := by
  obtain ⟨_, _, p, _, _, ⟨_, rfl⟩ | ⟨_, _, a, f, v₁, v₂, hw⟩⟩ := vsfsWrite_cases h
  · exact .refl
  have hu₁ : Updates s.vol v₁ := by
    rcases hw.alloc with ⟨_, ⟨r, hr⟩, _⟩ | ⟨_, rfl, _⟩
    · exact allocBlock_updates hr
    · exact .refl
  have hstamp : ∀ x : Inode, x.Fits → { x with atime := now, mtime := now }.Fits := fun x hx =>
    { hx with atime := hn, mtime := hn }
  have hsize : ∀ x : Inode, x.Fits → { x with size := s.desc.writeEnd p nbyte % 2 ^ 32 }.Fits := fun x hx =>
    { hx with size := Nat.mod_lt _ (Nat.two_pow_pos 32) }
  have ht := congrArg State.vol hw.result
  dsimp only at ht
  rw [ht]
  exact ((hu₁.tail (.inode _ _ (hstamp _))).trans (writeLoop_updates hw.data)).tail (.inode _ _ (hsize _))

theorem vsfsRead_updates {fildes : Int} {buf buf' : Bytes} {nbyte : UInt64} (hn : now < 2 ^ 64)
    (h : vsfsRead now fildes buf nbyte s = .ok (ret, buf', t)) : Updates s.vol t.vol := by
  obtain ⟨_, rfl, _⟩ | ⟨_, _, p, a, f, readed, _, _, _, hr⟩ := vsfsRead_cases h
  · exact .refl
  have hstamp : ∀ x : Inode, x.Fits → { x with atime := now }.Fits := fun x hx => { hx with atime := hn }
  have ht := congrArg State.vol hr.result
  dsimp only at ht
  rw [ht]
  exact .single (.inode _ _ (hstamp _))

theorem vsfsLseek_updates {fildes whence : Int} {offset : UInt64} {r : Nat}
    (h : vsfsLseek fildes offset whence s = .ok (r, t)) : Updates s.vol t.vol := by
  obtain ⟨_, ht, _⟩ | ⟨_, _, p, a, f, s', hs', _, _, _, _, ⟨o, rfl, _⟩ | ⟨_, _, info, v, hg⟩⟩ := vsfsLseek_cases h
  · rw [ht]
  · rw [(setInodeReg_eq_ok hs').1]
  · obtain ⟨m, hm⟩ := hg.alloc
    rw [hg.result]
    rw [(setInodeReg_eq_ok hs').1] at hm
    exact allocBlock_updates hm

/-- **Every call** changes the volume by a sequence of updates. -/
theorem step_updates {c : Call} (h : Step c s t) : Updates s.vol t.vol := by
  obtain ⟨now, ret, hn, h⟩ := h
  cases c with
  | creat name blockNum => exact vsfsCreat_updates hn h
  | «open» pathname flags => exact vsfsOpen_updates hn h
  | stat pathname =>
    obtain ⟨⟨r, fre, u⟩, hs, h⟩ := ExceptLib.bind_eq_ok.mp h
    cases h
    rw [vsfsStat_vol hs]
  | close fildes => rw [vsfsClose_vol h]
  | write fildes buf nbyte => exact vsfsWrite_updates hn h
  | read fildes buf nbyte =>
    obtain ⟨⟨r, b, u⟩, hr, h⟩ := ExceptLib.bind_eq_ok.mp h
    cases h
    exact vsfsRead_updates hn hr
  | lseek fildes offset whence =>
    obtain ⟨⟨r, u⟩, hl, h⟩ := ExceptLib.bind_eq_ok.mp h
    cases h
    exact vsfsLseek_updates hl

end

/-! ## What all updates keep -/

/-- The two superblocks describe the same regions. -/
structure SbInfo.SameRegions (s s' : SbInfo) : Prop where
  magic : s'.magic = s.magic
  nrBlocks : s'.nrBlocks = s.nrBlocks
  ofsIbitmap : s'.ofsIbitmap = s.ofsIbitmap
  ofsIregion : s'.ofsIregion = s.ofsIregion
  ofsDbitmap : s'.ofsDbitmap = s.ofsDbitmap
  ofsDregion : s'.ofsDregion = s.ofsDregion
  nrIbitmapBlocks : s'.nrIbitmapBlocks = s.nrIbitmapBlocks
  nrIregionBlocks : s'.nrIregionBlocks = s.nrIregionBlocks
  nrDbitmapBlocks : s'.nrDbitmapBlocks = s.nrDbitmapBlocks
  nrDregionBlocks : s'.nrDregionBlocks = s.nrDregionBlocks

/-- The cached data is in the range of its types and describes the regions of `s`. -/
structure Cached.Fits (s : SbInfo) (c : Cached) : Prop where
  regions : s.SameRegions c.sbi
  nrFreeInodes : c.sbi.nrFreeInodes < 2 ^ 32
  nrFreeDblock : c.sbi.nrFreeDblock < 2 ^ 32
  inode : ∀ i, (c.inodeReg i).Fits

theorem Update.fits {s : SbInfo} {v w : Volume} (h : Update v w) (hv : v.cached.Fits s) : w.cached.Fits s := by
  cases h with
  | inode i f hf =>
    refine { hv with inode := fun j => ?_ }
    by_cases hj : j = i
    · subst hj
      have := hf (hv.inode j)
      rwa [← modInode_inode_self v j f] at this
    · rw [show (v.modInode i f).cached.inodeReg j = v.inode j from modInode_inode_of_ne v f hj]
      exact hv.inode j
  | write lba b => exact hv
  | takeDblock h =>
    obtain ⟨⟨b', m⟩, _, h⟩ := ExceptLib.bind_eq_ok.mp h
    cases h
    dsimp only
    split
    · exact ⟨{ hv.regions with }, hv.nrFreeInodes, pred32_lt _ hv.nrFreeDblock, hv.inode⟩
    · exact ⟨hv.regions, hv.nrFreeInodes, hv.nrFreeDblock, hv.inode⟩
  | takeInode h =>
    obtain ⟨⟨b', m⟩, _, h⟩ := ExceptLib.bind_eq_ok.mp h
    cases h
    dsimp only
    split
    · exact ⟨{ hv.regions with }, pred32_lt _ hv.nrFreeInodes, hv.nrFreeDblock, hv.inode⟩
    · exact ⟨hv.regions, hv.nrFreeInodes, hv.nrFreeDblock, hv.inode⟩
  | putInode h =>
    obtain ⟨m, _, h⟩ := ExceptLib.bind_eq_ok.mp h
    cases h
    exact ⟨{ hv.regions with }, succ32_lt _ hv.nrFreeInodes, hv.nrFreeDblock, hv.inode⟩

/-- Every call keeps the regions and the ranges. -/
theorem Step.fits {s : SbInfo} {c : Call} {u w : State} (h : Step c u w) (hu : u.vol.cached.Fits s) :
    w.vol.cached.Fits s :=
  (step_updates h).keep (P := fun v => v.cached.Fits s) hu fun _ _ hs hv => hs.fits hv

end Vsfs
