import Vsfs.Volume.RootKept

/-!
# What a call does to the volume and to the file objects

One case for each way in which a call can change the volume, and the same for the file objects of the process. What a
call keeps is read off from the two.

- `Steady.volumeEffect`: a call changes times only, or enters a file, or writes, or grows a file;
- `VolumeEffect.evolves`: what is in use stays in use, but for the inode that the call takes;
- `Steady.fileEffect`: a file object is an old one or a copy of an inode.
-/

set_option autoImplicit false

namespace Vsfs

open Function ByteSeq WordBits

variable {B : Nat} {sb : SbInfo} {s t : State} {c : Call}

/-! ## The volume -/

/-- A call takes inode `i` for a new file. -/
def TakesFor (c : Call) (s : State) (i : Nat) : Prop :=
  ∃ name blockNum, c = .creat name blockNum ∧ Enters name s ∧ Least s.vol.cached.ibitmap nrInodes i

/-- The inode of a file that a growing seek gives blocks. -/
structure GrownBy (B i : Nat) (v w : Volume) : Prop where
  inode : i < nrInodes
  limit : (v.inode i).blocks ≤ level3Limit
  alloc : ∃ n r, v.need i n ≤ v.room B ∧ allocBlock v.cached.sbi.ofsDregion i n v = .ok (r, w)

/-- What a call does to the volume. -/
inductive VolumeEffect (B : Nat) (c : Call) (s t : State) : Prop
  | touched (ht : Touched s.vol t.vol)
  | entered {now i : Nat} {name : CStr} {blockNum : UInt32} {ret : Int} (hc : c = .creat name blockNum)
      (he : Enters name s) (hi : Least s.vol.cached.ibitmap nrInodes i)
      (hd : CreatDone B now name blockNum.toNat i s.vol t.vol ret)
  | written {now p a : Nat} {fildes : Int} {buf : Bytes} {nbyte : UInt64} {e : FdTable} {f : File} {v₁ v₂ : Volume}
      (hc : c = .write fildes buf nbyte) (ho : s.OpenOn fildes e p) (ha : WriteAllowed s e p nbyte)
      (hr : WriteRoom B s p nbyte) (hw : Written now p buf nbyte s t a f v₁ v₂)
  | grown {p : Nat} {fildes whence : Int} {offset : UInt64} {e : FdTable} (hc : c = .lseek fildes offset whence)
      (ho : s.OpenOn fildes e p) (hg : GrownBy B (s.desc.opFtable p).inodeNr s.vol t.vol)

/-- **What a call can do to the volume.** -/
theorem Steady.volumeEffect (h : Steady B sb s) (hsb : sb.nrIbitmapBlocks = 1) (hok : AllocOk B c s)
    (hs : Step c s t) : VolumeEffect B c s t := by
  have hsame : t.vol = s.vol → VolumeEffect B c s t := fun hv => .touched (by rw [hv]; exact .refl _)
  obtain ⟨now, ret, hn, hr⟩ := hs
  cases c with
  | creat name blockNum =>
    rcases creat_steps h hsb hok hr with ⟨_, hv, _⟩ | ⟨he, i, _, hi, _, hd⟩
    · exact hsame hv
    · exact .entered rfl he hi hd
  | «open» pathname flags => exact .touched (open_touched hr)
  | stat pathname =>
    obtain ⟨⟨r, fre, u⟩, hst, hr⟩ := ExceptLib.bind_eq_ok.mp hr
    cases hr
    exact hsame (vsfsStat_vol hst)
  | close fildes => exact hsame (vsfsClose_vol hr)
  | write fildes buf nbyte =>
    obtain ⟨b, e, p, hfind, hp, ⟨_, rfl⟩ | ⟨ha, _, a, f, v₁, v₂, hw⟩⟩ := vsfsWrite_cases hr
    · exact hsame rfl
    · exact .written rfl ⟨b, hfind, hp⟩ ha (hok b e p hfind hp ha) hw
  | read fildes buf nbyte =>
    obtain ⟨⟨r, b, u⟩, hrd, hr⟩ := ExceptLib.bind_eq_ok.mp hr
    cases hr
    exact .touched (read_touched hrd)
  | lseek fildes offset whence =>
    obtain ⟨⟨r, u⟩, hl, hr⟩ := ExceptLib.bind_eq_ok.mp hr
    cases hr
    obtain ⟨_, ht, _⟩ | ⟨b, e, p, a, f, s', hs', hfind, hp, hfp, hfile, ⟨o, ht, _⟩ | ⟨hset, _, info, v, hg⟩⟩ :=
      vsfsLseek_cases hl
    · exact hsame (by rw [ht])
    · refine hsame ?_
      rw [ht, (setInodeReg_eq_ok hs').1]
    · obtain ⟨hb, hroom⟩ := hok b e p a f hfind hp hfp hfile ⟨hset, hg.limit, hg.beyond⟩
      obtain ⟨r, hm⟩ := hg.alloc
      rw [(setInodeReg_eq_ok hs').1] at hm
      have hv : t.vol = v := congrArg State.vol hg.result
      refine .grown rfl ⟨b, hfind, hp⟩ ⟨?_, hb, _, r, hroom, hv ▸ hm⟩
      obtain ⟨x, hx, _⟩ := ExceptLib.bind_eq_ok.mp hm
      exact ((inodeAt_eq_ok _ _).mp hx).1

/-- **What is in use** stays in use and holds what it held, but for the inode that the call takes. -/
theorem VolumeEffect.evolves (h : Steady B sb s) (he : VolumeEffect B c s t) :
    Evolves B {i | TakesFor c s i} s.vol t.vol := by
  cases he with
  | touched ht => exact ht.evolves h.sound
  | entered hc he hi hd =>
    refine (hd.evolves h.sound).mono fun j hj => ?_
    rw [Set.mem_singleton_iff.mp hj]
    exact ⟨_, _, hc, he, hi⟩
  | written hc ho ha hr hw =>
    have hev := write_steps (E := {i | TakesFor c s i}) h.sound h.files ha hr hw
    exact hev.before.trans hev.after
  | grown hc ho hg =>
    obtain ⟨n, r, hroom, hal⟩ := hg.alloc
    exact (alloc_evolves h.sound hg.inode hg.limit hroom hal).1

/-! ## The file objects -/

/-- What a call makes of a file object: the inode and the list of blocks are those of an old one, or those of an inode
of a volume whose blocks are still in use after the call. -/
inductive FileEffect (B : Nat) (s t : State) (a : Nat) (f : File) : Prop
  | old {g : File} (hg : s.desc.files a = some g) (hi : f.inode = g.inode) (hb : f.block = g.block)
  | copied {v : Volume} {g : File} (ha : (∃ g, s.desc.files a = some g) ∨ s.desc.brk ≤ a ∧ a < t.desc.brk)
      (hv : Evolves B ∅ v t.vol) (hg : vsfsGetInodeInfo v f.inode = .ok g) (hb : f.block = g.block)

theorem FileEffect.refl {a : Nat} {f : File} (h : s.desc.files a = some f) : FileEffect B s t a f := .old h rfl rfl

/-- A file object is replaced, and an offset. -/
theorem FileEffect.modFile {a p o b : Nat} {f g : File} (hg : FileEffect B s t a g)
    (h : ((s.desc.modFile a g).setOffset p o).files b = some f) : FileEffect B s t b f := by
  simp only [Desc.setOffset, Desc.modFile, update_apply] at h
  split at h
  case isTrue hb =>
    cases h
    exact hb ▸ hg
  case isFalse => exact .refl h

/-- **What a call can do to the file objects.** -/
theorem Steady.fileEffect (h : Steady B sb s) (hok : AllocOk B c s) (hs : Step c s t) {a : Nat} {f : File}
    (hf : t.desc.files a = some f) : FileEffect B s t a f := by
  have hsame : t.desc.files = s.desc.files → FileEffect B s t a f := fun hd => .refl (hd ▸ hf)
  obtain ⟨now, ret, hn, hr⟩ := hs
  cases c with
  | creat name blockNum => exact hsame (by rw [vsfsCreat_desc hr])
  | «open» pathname flags =>
    have hold := (vsfsOpen_files hr).2 a
    rcases open_files hr a f hf with hg | ⟨j, hj⟩
    · exact .refl hg
    by_cases ha : a < s.desc.brk ∨ t.desc.brk ≤ a
    · exact .refl (by rw [← hold ha]; exact hf)
    · have hi := (vsfsGetInodeInfo_spec hj).inode
      exact .copied (Or.inr (by omega)) ((open_touched hr).evolves h.sound) (by rw [hi]; exact hj) rfl
  | stat pathname =>
    obtain ⟨⟨r, fre, u⟩, hst, hr⟩ := ExceptLib.bind_eq_ok.mp hr
    cases hr
    exact hsame (by rw [vsfsStat_desc hst])
  | close fildes => exact .refl (close_files hr a f hf)
  | write fildes buf nbyte =>
    obtain ⟨b, e, p, hfind, hp, ⟨_, rfl⟩ | ⟨ha, _, a', f', v₁, v₂, hw⟩⟩ := vsfsWrite_cases hr
    · exact .refl hf
    have hev := write_steps (E := ∅) h.sound h.files ha (hok b e p hfind hp ha) hw
    have hdesc := congrArg State.desc hw.result
    rw [hdesc] at hf
    refine FileEffect.modFile ?_ hf
    rcases hw.alloc with ⟨_, _, hg, hinfo⟩ | ⟨_, _, hg⟩
    · have hi := (vsfsGetInodeInfo_spec hinfo).inode
      exact .copied (v := v₁) (g := f') (Or.inl hg) hev.after (by show vsfsGetInodeInfo v₁ f'.inode = _; rw [hi, hinfo]) rfl
    · exact .old hg rfl rfl
  | read fildes buf nbyte =>
    obtain ⟨⟨r, b, u⟩, hrd, hr⟩ := ExceptLib.bind_eq_ok.mp hr
    cases hr
    obtain ⟨_, rfl, _⟩ | ⟨_, _, p, a', f', readed, _, _, _, hd⟩ := vsfsRead_cases hrd
    · exact .refl hf
    have hdesc := congrArg State.desc hd.result
    rw [hdesc] at hf
    refine FileEffect.modFile ?_ hf
    exact .old hd.file rfl rfl
  | lseek fildes offset whence =>
    obtain ⟨⟨r, u⟩, hl, hr⟩ := ExceptLib.bind_eq_ok.mp hr
    cases hr
    obtain ⟨_, ht, _⟩ | ⟨b, e, p, a', f', s', hs', hfind, hp, hfp, hfile, ⟨o, ht, _⟩ | ⟨hset, _, info, v, hg⟩⟩ :=
      vsfsLseek_cases hl
    · exact hsame (by rw [ht])
    · exact hsame (by rw [ht]; rfl)
    · have hdesc := congrArg State.desc hg.result
      have hs₁ : s'.desc = s.desc := by rw [(setInodeReg_eq_ok hs').1]
      have hcopy := hg.copy
      rw [hs₁] at hdesc hcopy
      have hi := (vsfsGetInodeInfo_spec hcopy).inode
      have ht : t.vol = v := congrArg State.vol hg.result
      obtain ⟨hb, hroom⟩ := hok b e p a' f' hfind hp hfp hfile ⟨hset, hg.limit, hg.beyond⟩
      obtain ⟨m, hm⟩ := hg.alloc
      rw [(setInodeReg_eq_ok hs').1] at hm
      have hin : (s.desc.opFtable p).inodeNr < nrInodes := by
        obtain ⟨x, hx, _⟩ := ExceptLib.bind_eq_ok.mp hm
        exact ((inodeAt_eq_ok _ _).mp hx).1
      have hsound := (alloc_evolves (E := ∅) h.sound hin hb hroom hm).1.sound
      rw [hdesc] at hf
      refine FileEffect.modFile ?_ hf
      exact .copied (v := v) (g := info) (Or.inl ⟨f', hfile⟩) (by rw [ht]; exact .refl hsound)
        (by show vsfsGetInodeInfo v info.inode = _; rw [hi, hcopy]) rfl

end Vsfs
