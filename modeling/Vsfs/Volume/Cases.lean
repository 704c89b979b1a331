import Vsfs.Descriptors.Close
import Vsfs.Descriptors.Open

/-!
# What a call can do

One lemma for each of `vsfs_creat`, `vsfs_write`, `vsfs_read` and `vsfs_lseek` that says all that a call can do: the
ways it is rejected, and what it computes when it is not.
-/

set_option autoImplicit false

namespace Vsfs

open Function ByteSeq

section

variable {s t : State} {now : Nat} {ret : Int}

/-! ## Allocators -/

/-- Taking an inode leaves the inode table and the block bitmap alone. -/
theorem getFreeInode_frame {c c' : Cached} {i : Nat} (h : getFreeInode c = .ok (i, c')) :
    c'.inodeReg = c.inodeReg ∧ c'.dbitmap = c.dbitmap := by
  obtain ⟨⟨b, m⟩, _, h⟩ := ExceptLib.bind_eq_ok.mp h
  cases h
  exact ⟨rfl, rfl⟩

/-! ## `vsfs_creat` -/

/-- The root directory has a slot left in its blocks. -/
def Inode.HasSlot (root : Inode) : Prop := root.entry < root.blocks * 16 % 2 ^ 32

/-- The volume with block `b` appended to the root directory. -/
def Volume.growRoot (v : Volume) (b : Nat) : Volume :=
  v.modInode 0 fun x => { x with l1 := update x.l1 x.blocks b, blocks := x.blocks + 1 }

/-- The slot that `vsfs_creat` fills in a block that it has just appended. -/
def Inode.newSlot (root : Inode) : Nat := (root.entry + (2 ^ 32 - root.blocks * 16 % 2 ^ 32)) % 2 ^ 32

/-- The two rejections of `vsfs_creat` that look at the name. -/
inductive CreatRejected (name : CStr) (s t : State) : Prop
  | tooLong (h : filenameLen ≤ name.strlen) (ht : t = s.initBasePtr)
  | duplicate (h : name.strlen < filenameLen)
      (hd : dupScan s.vol name (s.vol.inode 0).entry 0 (fun _ => 0) = .ok true) (ht : t = s.attach.initBasePtr.closeCached)

/-- What `vsfs_creat` does with a new name, inode `i` having been taken. -/
inductive CreatEntered (now : Nat) (name : CStr) (blockNum i : Nat) (c : Cached) (s t : State) : Int → Prop
  | slot {v : Volume} (h : (s.vol.inode 0).HasSlot)
      (ha : addingEntry now name blockNum i ((s.vol.inode 0).entry / 16)
        ((s.vol.inode 0).entry - (s.vol.inode 0).entry / 16 * 16) { s.vol with cached := c } = .ok v)
      (ht : t = { s.attach.initBasePtr with vol := v }.closeCached) : CreatEntered now name blockNum i c s t 0
  | grow {b : Nat} {v₁ v : Volume} (h : ¬(s.vol.inode 0).HasSlot) (hb : (s.vol.inode 0).blocks < 49)
      (hg : Volume.getFreeDblock { s.vol with cached := c } = .ok (b, v₁))
      (ha : addingEntry now name blockNum i b (s.vol.inode 0).newSlot (v₁.growRoot b) = .ok v)
      (ht : t = { s.attach.initBasePtr with vol := v }.closeCached) : CreatEntered now name blockNum i c s t 0
  | full {c' : Cached} (h : ¬(s.vol.inode 0).HasSlot) (hb : 49 ≤ (s.vol.inode 0).blocks)
      (hp : putInode c i = .ok c') (ht : t = { s.attach.initBasePtr with vol := { s.vol with cached := c' } }.closeCached) :
      CreatEntered now name blockNum i c s t (-1)

/-- All that `vsfs_creat` can do. -/
theorem vsfsCreat_cases {name : CStr} {blockNum : UInt32} (h : vsfsCreat now name blockNum s = .ok (ret, t)) :
    (ret = -1 ∧ CreatRejected name s t) ∨
    name.strlen < filenameLen ∧ dupScan s.vol name (s.vol.inode 0).entry 0 (fun _ => 0) = .ok false ∧
      ∃ i c, getFreeInode s.vol.cached = .ok (i, c) ∧ CreatEntered now name blockNum.toNat i c s t ret := by
  unfold vsfsCreat at h
  dsimp only at h
  split at h
  case isTrue hlen => cases h; exact Or.inl ⟨rfl, .tooLong hlen rfl⟩
  case isFalse hlen =>
  rw [initBasePtr_attach] at h
  obtain ⟨dup, hdup, h⟩ := ExceptLib.bind_eq_ok.mp h
  rw [initBasePtr_vol, attach_vol] at hdup
  cases dup with
  | true => cases h; exact Or.inl ⟨rfl, .duplicate (by omega) hdup rfl⟩
  | false =>
  obtain ⟨⟨i, c⟩, hi, h⟩ := ExceptLib.bind_eq_ok.mp h
  rw [initBasePtr_vol, attach_vol] at hi
  simp only [initBasePtr_vol, attach_vol] at h
  have hroot : (Volume.mk c s.vol.disk).inode 0 = s.vol.inode 0 := congrFun (getFreeInode_frame hi).1 0
  rw [hroot] at h
  refine Or.inr ⟨by omega, hdup, i, c, hi, ?_⟩
  split at h
  case isTrue hs =>
    obtain ⟨v, ha, h⟩ := ExceptLib.bind_eq_ok.mp h
    cases h
    exact .slot hs ha rfl
  case isFalse hs =>
  split at h
  case isTrue hb =>
    obtain ⟨⟨b, v₁⟩, hg, h⟩ := ExceptLib.bind_eq_ok.mp h
    obtain ⟨v, ha, h⟩ := ExceptLib.bind_eq_ok.mp h
    cases h
    exact .grow hs hb hg ha rfl
  case isFalse hb =>
    obtain ⟨c', hp, h⟩ := ExceptLib.bind_eq_ok.mp h
    cases h
    exact .full hs (by omega) hp rfl

/-- `vsfs_creat` leaves the buffers behind, whatever it returns. -/
theorem vsfsCreat_tmpBasePtr {name : CStr} {blockNum : UInt32} (h : vsfsCreat now name blockNum s = .ok (ret, t)) :
    t.tmpBasePtr = true := by
  rcases vsfsCreat_cases h with ⟨_, hrej⟩ | ⟨_, _, _, _, _, hent⟩
  · cases hrej <;> subst_vars <;> rfl
  · cases hent <;> subst_vars <;> rfl

/-! ## `vsfs_stat` -/

/-- `vsfs_stat` once `init_base_ptr` has run. -/
theorem vsfsStat_eq (hb : s.tmpBasePtr = true) (pathname : CStr) : vsfsStat pathname s = (do
    match ← lookup s.vol pathname (s.vol.inode 0).entry 0 with
    | none => .ok (-1, none, s.attach.closeCached)
    | some target => do
      let x ← s.vol.inodeAt target
      .ok (0, some x.stat, s.attach)) := by
  unfold vsfsStat State.useBaseBuffers
  rcases hl : lookup s.vol pathname (s.vol.inode 0).entry 0 with e | _ | target <;>
    simp only [attach_tmpBasePtr, attach_vol, hb, hl, Bool.true_eq_false, if_false, ExceptLib.ok_bind, ExceptLib.error_bind]

/-- `vsfs_stat` before: the first block is read to a null pointer. -/
theorem vsfsStat_nullDeref (hb : s.tmpBasePtr = false) (pathname : CStr) : vsfsStat pathname s = .error .nullDeref := by
  unfold vsfsStat State.useBaseBuffers
  simp only [attach_tmpBasePtr, hb, if_true, ExceptLib.error_bind]

/-- All that `vsfs_stat` can do. -/
theorem vsfsStat_cases {pathname : CStr} {fre : Option FileStat} (h : vsfsStat pathname s = .ok (ret, fre, t)) :
    s.tmpBasePtr = true ∧
    ((lookup s.vol pathname (s.vol.inode 0).entry 0 = .ok none ∧ ret = -1 ∧ t = s.attach.closeCached) ∨
      ∃ i, lookup s.vol pathname (s.vol.inode 0).entry 0 = .ok (some i) ∧ ret = 0 ∧ t = s.attach) := by
  cases hb : s.tmpBasePtr with
  | false =>
    rw [vsfsStat_nullDeref hb] at h
    cases h
  | true =>
    rw [vsfsStat_eq hb] at h
    obtain ⟨found, hlook, h⟩ := ExceptLib.bind_eq_ok.mp h
    refine ⟨rfl, ?_⟩
    cases found with
    | none =>
      cases h
      exact Or.inl ⟨hlook, rfl, rfl⟩
    | some i =>
      obtain ⟨x, _, h⟩ := ExceptLib.bind_eq_ok.mp h
      cases h
      exact Or.inr ⟨i, hlook, rfl, rfl⟩

theorem vsfsStat_vol {pathname : CStr} {fre : Option FileStat} (h : vsfsStat pathname s = .ok (ret, fre, t)) :
    t.vol = s.vol := by
  obtain ⟨_, ⟨_, _, rfl⟩ | ⟨_, _, _, rfl⟩⟩ := vsfsStat_cases h <;> exact attach_vol s

theorem vsfsStat_desc {pathname : CStr} {fre : Option FileStat} (h : vsfsStat pathname s = .ok (ret, fre, t)) :
    t.desc = s.desc := by
  obtain ⟨_, ⟨_, _, rfl⟩ | ⟨_, _, _, rfl⟩⟩ := vsfsStat_cases h <;> exact attach_desc s

/-! ## `vsfs_write` -/

theorem fileOf_eq_ok {d : Desc} {p a : Nat} {f : File} :
    d.fileOf p = .ok (a, f) ↔ (d.opFtable p).filePtr = some a ∧ d.files a = some f := by
  unfold Desc.fileOf
  rw [ExceptLib.bind_eq_ok]
  constructor
  · rintro ⟨g, hg, h⟩
    obtain ⟨b, hb, hc⟩ := load_eq_ok.mp hg
    rw [hb] at h
    cases h
    exact ⟨hb, hc⟩
  · rintro ⟨ha, hf⟩
    exact ⟨f, load_eq_ok.mpr ⟨a, ha, hf⟩, by rw [ha]⟩

/-- The end of a write of `nbyte` bytes through slot `p`. -/
def Desc.writeEnd (d : Desc) (p : Nat) (nbyte : UInt64) : Nat := ((d.opFtable p).offset + nbyte.toNat) % 2 ^ 64

/-- The checks of `vsfs_write`. -/
structure WriteAllowed (s : State) (e : FdTable) (p : Nat) (nbyte : UInt64) : Prop where
  opCounter : s.desc.opCounter = true
  flags : e.CanWrite
  sbCached : s.sbCached ≠ none
  limit : s.desc.writeEnd p nbyte ≤ level3LimitTimesBlockSize
  inode : (s.desc.opFtable p).inodeNr < nrInodes

/-- What an allowed `vsfs_write` through slot `p` does: the file object at `a` has the contents `f` after the
allocation `v₁`, and the bytes are in `v₂`. -/
structure Written (now : Nat) (p : Nat) (buf : Bytes) (nbyte : UInt64) (s t : State) (a : Nat) (f : File)
    (v₁ v₂ : Volume) : Prop where
  filePtr : (s.desc.opFtable p).filePtr = some a
  alloc : ((s.vol.inode (s.desc.opFtable p).inodeNr).blocks ≤ neededBlocks (s.desc.writeEnd p nbyte) ∧
      (∃ r, allocBlock s.vol.cached.sbi.ofsDregion (s.desc.opFtable p).inodeNr
        (sub32 (neededBlocks (s.desc.writeEnd p nbyte)) (s.vol.inode (s.desc.opFtable p).inodeNr).blocks) s.vol =
          .ok (r, v₁)) ∧
      (∃ g, s.desc.files a = some g) ∧ vsfsGetInodeInfo v₁ (s.desc.opFtable p).inodeNr = .ok f) ∨
    (neededBlocks (s.desc.writeEnd p nbyte) < (s.vol.inode (s.desc.opFtable p).inodeNr).blocks ∧ v₁ = s.vol ∧
      s.desc.files a = some f)
  data : writeDblock { f with atime := now, mtime := now } (s.desc.opFtable p).offset nbyte.toNat buf
    (v₁.modInode (s.desc.opFtable p).inodeNr fun x => { x with atime := now, mtime := now }) = .ok v₂
  result : t = { s with
    inodeReg := s.sbCached
    vol := v₂.modInode (s.desc.opFtable p).inodeNr fun x => { x with size := s.desc.writeEnd p nbyte % 2 ^ 32 }
    desc := (s.desc.modFile a { f with atime := now, mtime := now }).setOffset p (s.desc.writeEnd p nbyte) }

/-- A `vsfs_write` that passes the checks before the inode is read. -/
theorem vsfsWrite_written {fildes : Int} {buf : Bytes} {nbyte : UInt64} {b p : Nat} {e : FdTable}
    (hfind : s.desc.findTarget fildes = .ok (some (b, e))) (hp : e.ptr = some p) (hoc : s.desc.opCounter = true)
    (hfl : e.CanWrite) (hsb : s.sbCached ≠ none)
    (hlim : s.desc.writeEnd p nbyte ≤ level3LimitTimesBlockSize)
    (h : vsfsWrite now fildes buf nbyte s = .ok (ret, t)) :
    WriteAllowed s e p nbyte ∧ ret = toInt32 nbyte.toNat ∧ ∃ a f v₁ v₂, Written now p buf nbyte s t a f v₁ v₂ := by
  have hquot : ¬0x100000000 < s.desc.writeEnd p nbyte / blockSize := by
    unfold level3LimitTimesBlockSize at hlim
    unfold blockSize
    omega
  have hfin : ((s.desc.opFtable p).offset + nbyte.toNat) % 2 ^ 64 = s.desc.writeEnd p nbyte := rfl
  unfold vsfsWrite at h
  rw [hfind, ExceptLib.ok_bind] at h
  dsimp only at h
  rw [slot_eq_ok.mpr hp, ExceptLib.ok_bind] at h
  simp only [hfin] at h
  obtain ⟨fl, hset, hne⟩ := hfl
  rw [if_neg (by simp [hoc]), accessMode_eq_ok.mpr hset, ExceptLib.ok_bind, if_neg hne, if_neg hsb,
    if_neg (by omega), if_neg hquot] at h
  obtain ⟨x, hx, h⟩ := ExceptLib.bind_eq_ok.mp h
  obtain ⟨hin, rfl⟩ := (inodeAt_eq_ok _ _).mp hx
  obtain ⟨s', hs', h⟩ := ExceptLib.bind_eq_ok.mp h
  obtain ⟨⟨a, f⟩, hf, h⟩ := ExceptLib.bind_eq_ok.mp h
  obtain ⟨v₂, hv₂, h⟩ := ExceptLib.bind_eq_ok.mp h
  cases h
  refine ⟨⟨hoc, ⟨fl, hset, hne⟩, hsb, hlim, hin⟩, rfl, ?_⟩
  split at hs'
  case isFalse hlt =>
    cases hs'
    obtain ⟨hfp, hfile⟩ := fileOf_eq_ok.mp hf
    exact ⟨a, f, s.vol, v₂, hfp, Or.inr ⟨Nat.not_le.mp hlt, rfl, hfile⟩, hv₂, rfl⟩
  case isTrue hle =>
    obtain ⟨⟨r, v₁⟩, hal, hs'⟩ := ExceptLib.bind_eq_ok.mp hs'
    obtain ⟨⟨a', g⟩, hg, hs'⟩ := ExceptLib.bind_eq_ok.mp hs'
    obtain ⟨info, hinfo, hs'⟩ := ExceptLib.bind_eq_ok.mp hs'
    cases hs'
    obtain ⟨hfp', hfile'⟩ := fileOf_eq_ok.mp hg
    obtain ⟨hfp, hfile⟩ := fileOf_eq_ok.mp hf
    have haa : a' = a := by
      have : (s.desc.opFtable p).filePtr = some a := hfp
      rw [show (s.desc.opFtable p).filePtr = some a' from hfp'] at this
      exact Option.some.inj this
    subst haa
    have hfi : info = f := by simpa [Desc.modFile] using hfile
    subst hfi
    refine ⟨a', info, v₁, v₂, hfp, Or.inl ⟨hle, ⟨r, hal⟩, ⟨g, hfile'⟩, hinfo⟩, hv₂, ?_⟩
    simp [Desc.modFile, Desc.setOffset]

/-- All that `vsfs_write` can do. -/
theorem vsfsWrite_cases {fildes : Int} {buf : Bytes} {nbyte : UInt64}
    (h : vsfsWrite now fildes buf nbyte s = .ok (ret, t)) :
    ∃ b e p, s.desc.findTarget fildes = .ok (some (b, e)) ∧ e.ptr = some p ∧
      ((ret = -1 ∧ t = s) ∨
      WriteAllowed s e p nbyte ∧ ret = toInt32 nbyte.toNat ∧ ∃ a f v₁ v₂, Written now p buf nbyte s t a f v₁ v₂) := by
  have hrun := h
  unfold vsfsWrite at h
  obtain ⟨found, hfound, h⟩ := ExceptLib.bind_eq_ok.mp h
  cases found with
  | none => cases h
  | some c =>
  obtain ⟨b, e⟩ := c
  obtain ⟨p, hp, h⟩ := ExceptLib.bind_eq_ok.mp h
  have hp := slot_eq_ok.mp hp
  refine ⟨b, e, p, hfound, hp, ?_⟩
  dsimp only at h
  split at h
  case isTrue => cases h; exact Or.inl ⟨rfl, rfl⟩
  case isFalse hoc =>
  obtain ⟨fl, hset, h⟩ := ExceptLib.bind_eq_ok.mp h
  split at h
  case isTrue => cases h; exact Or.inl ⟨rfl, rfl⟩
  case isFalse hne =>
  split at h
  case isTrue => cases h; exact Or.inl ⟨rfl, rfl⟩
  case isFalse hsb =>
  split at h
  case isTrue => cases h; exact Or.inl ⟨rfl, rfl⟩
  case isFalse hlim =>
  exact Or.inr (vsfsWrite_written hfound hp (by simpa using hoc) ⟨fl, accessMode_eq_ok.mp hset, hne⟩ hsb
    (by unfold Desc.writeEnd; omega) hrun)

/-! ## `vsfs_read` -/

/-- What a `vsfs_read` that is not rejected does. -/
structure ReadDone (now : Nat) (p : Nat) (buf buf' : Bytes) (nbyte : UInt64) (ret : Int) (s t : State) (a : Nat)
    (f : File) (readed : Nat) : Prop where
  filePtr : (s.desc.opFtable p).filePtr = some a
  file : s.desc.files a = some f
  inode : (s.desc.opFtable p).inodeNr < nrInodes
  data : readDblock { f with atime := now } (s.desc.opFtable p).offset nbyte.toNat buf
    (s.vol.modInode (s.desc.opFtable p).inodeNr fun x => { x with atime := now }) = .ok (ret, readed, buf')
  result : t = { s with
    vol := s.vol.modInode (s.desc.opFtable p).inodeNr fun x => { x with atime := now }
    desc := (s.desc.modFile a { f with atime := now }).setOffset p (((s.desc.opFtable p).offset + readed) % 2 ^ 64) }

/-- All that `vsfs_read` can do. -/
theorem vsfsRead_cases {fildes : Int} {buf buf' : Bytes} {nbyte : UInt64}
    (h : vsfsRead now fildes buf nbyte s = .ok (ret, buf', t)) :
    (ret = -1 ∧ t = s ∧ buf' = buf) ∨
    ∃ b e p a f readed, s.desc.findTarget fildes = .ok (some (b, e)) ∧ e.ptr = some p ∧ s.useInodeReg = .ok () ∧
      ReadDone now p buf buf' nbyte ret s t a f readed := by
  unfold vsfsRead at h
  split at h
  case isTrue => cases h; exact Or.inl ⟨rfl, rfl, rfl⟩
  case isFalse =>
  obtain ⟨found, hfound, h⟩ := ExceptLib.bind_eq_ok.mp h
  cases found with
  | none => cases h; exact Or.inl ⟨rfl, rfl, rfl⟩
  | some c =>
  obtain ⟨b, e⟩ := c
  obtain ⟨fl, _, h⟩ := ExceptLib.bind_eq_ok.mp h
  split at h
  case isTrue => cases h; exact Or.inl ⟨rfl, rfl, rfl⟩
  case isFalse =>
  obtain ⟨p, hp, h⟩ := ExceptLib.bind_eq_ok.mp h
  obtain ⟨⟨a, f⟩, hf, h⟩ := ExceptLib.bind_eq_ok.mp h
  obtain ⟨u, hu, h⟩ := ExceptLib.bind_eq_ok.mp h
  obtain ⟨x, hx, h⟩ := ExceptLib.bind_eq_ok.mp h
  obtain ⟨⟨r, readed, buf''⟩, hr, h⟩ := ExceptLib.bind_eq_ok.mp h
  cases h
  obtain ⟨hfp, hfile⟩ := fileOf_eq_ok.mp hf
  exact Or.inr ⟨b, e, p, a, f, readed, hfound, slot_eq_ok.mp hp, hu, hfp, hfile, ((inodeAt_eq_ok _ _).mp hx).1, hr,
    rfl⟩

/-! ## `vsfs_lseek` -/

/-- A seek that grows the file at slot `p` to `offset`: `f` is the file object at `a`, `info` the copy of the inode
after the allocation `v`. -/
structure SeekGrown (p : Nat) (offset : UInt64) (s t : State) (a : Nat) (f info : File) (v : Volume) : Prop where
  limit : offset.toNat ≤ 0x100000000
  beyond : f.size < offset.toNat
  sbCached : s.sbCached ≠ none
  alloc : ∃ r, allocBlock s.vol.cached.sbi.ofsDregion (s.desc.opFtable p).inodeNr
    (sub32 (neededBlocks offset.toNat) f.blocks) s.vol = .ok (r, v)
  copy : vsfsGetInodeInfo v (s.desc.opFtable p).inodeNr = .ok info
  result : t = { s with
    vol := v
    desc := (s.desc.modFile a { info with
      blocks := (info.blocks + neededBlocks offset.toNat) % 2 ^ 32, size := offset.toNat }).setOffset p offset.toNat }

theorem setInodeReg_eq_ok (h : s.setInodeReg = .ok t) :
    t = { s with inodeReg := t.inodeReg } ∧ t.inodeReg ≠ none := by
  unfold State.setInodeReg at h
  split at h
  case h_1 hn =>
    obtain ⟨u, hu, h⟩ := ExceptLib.bind_eq_ok.mp h
    cases h
    refine ⟨rfl, fun hno => ?_⟩
    unfold State.useSbCached at hu
    rw [show s.sbCached = none from hno] at hu
    cases hu
  case h_2 r hr =>
    cases h
    exact ⟨rfl, by rw [hr]; simp⟩

/-- All that `vsfs_lseek` can do: reject the call, move the offset, or grow the file to the offset. A rejected
`SEEK_END` has moved the offset to the end of the file. -/
theorem vsfsLseek_cases {fildes whence : Int} {offset : UInt64} {r : Nat}
    (h : vsfsLseek fildes offset whence s = .ok (r, t)) :
    (r = seekError ∧ t = { s with inodeReg := t.inodeReg } ∧ (t = s ∨ s.setInodeReg = .ok t)) ∨
    ∃ b e p a f s', s.setInodeReg = .ok s' ∧ s.desc.findTarget fildes = .ok (some (b, e)) ∧ e.ptr = some p ∧
      (s.desc.opFtable p).filePtr = some a ∧ s.desc.files a = some f ∧
      ((∃ o, t = { s' with desc := s.desc.setOffset p o } ∧
          ((whence = seekSet ∧ r = o ∧ o = offset.toNat ∧ o ≤ f.size ∧ o ≤ 0x100000000) ∨
            (whence = seekEnd ∧ o = (if f.size < (f.size + offset.toNat) % 2 ^ 64 then f.size
              else (f.size + offset.toNat) % 2 ^ 64) ∧
              r = if f.size < (f.size + offset.toNat) % 2 ^ 64 then seekError else o) ∨
            (whence = seekCur ∧ r = o ∧ o = ((s.desc.opFtable p).offset + offset.toNat) % 2 ^ 64 ∧ o ≤ f.size))) ∨
        (whence = seekSet ∧ r = offset.toNat ∧ ∃ info v, SeekGrown p offset s' t a f info v)) := by
  unfold vsfsLseek at h
  split at h
  case isTrue => cases h; exact Or.inl ⟨rfl, rfl, Or.inl rfl⟩
  case isFalse =>
  obtain ⟨s', hs', h⟩ := ExceptLib.bind_eq_ok.mp h
  obtain ⟨hs, hreg⟩ := setInodeReg_eq_ok hs'
  obtain ⟨reg, hr⟩ : ∃ reg, s' = { s with inodeReg := reg } := ⟨_, hs⟩
  subst hr
  obtain ⟨found, hfound, h⟩ := ExceptLib.bind_eq_ok.mp h
  cases found with
  | none => cases h; exact Or.inl ⟨rfl, rfl, Or.inr hs'⟩
  | some c =>
  obtain ⟨b, e⟩ := c
  obtain ⟨p, hp, h⟩ := ExceptLib.bind_eq_ok.mp h
  obtain ⟨⟨a, f⟩, hf, h⟩ := ExceptLib.bind_eq_ok.mp h
  obtain ⟨hfp, hfile⟩ := fileOf_eq_ok.mp hf
  dsimp only at h
  split at h
  case isTrue hset =>
    split at h
    case isTrue => cases h; exact Or.inl ⟨rfl, rfl, Or.inr hs'⟩
    case isFalse hlim =>
    obtain ⟨s'', hs'', h⟩ := ExceptLib.bind_eq_ok.mp h
    cases h
    refine Or.inr ⟨b, e, p, a, f, _, hs', hfound, slot_eq_ok.mp hp, hfp, hfile, ?_⟩
    split at hs''
    case isFalse hle =>
      cases hs''
      exact Or.inl ⟨_, rfl, Or.inl ⟨hset, rfl, rfl, by omega, by omega⟩⟩
    case isTrue hgt =>
      obtain ⟨u, hu, hs''⟩ := ExceptLib.bind_eq_ok.mp hs''
      obtain ⟨⟨m, v⟩, hal, hs''⟩ := ExceptLib.bind_eq_ok.mp hs''
      obtain ⟨info, hinfo, hs''⟩ := ExceptLib.bind_eq_ok.mp hs''
      cases hs''
      refine Or.inr ⟨hset, rfl, info, v, by omega, hgt, fun hno => ?_, ⟨m, hal⟩, hinfo, rfl⟩
      unfold State.useSbCached at hu
      rw [show s.sbCached = none from hno] at hu
      cases hu
  case isFalse hset =>
  split at h
  case isTrue hend =>
    split at h
    case isTrue hgt =>
      cases h
      exact Or.inr ⟨b, e, p, a, f, _, hs', hfound, slot_eq_ok.mp hp, hfp, hfile, Or.inl ⟨_, rfl,
        Or.inr (Or.inl ⟨hend, by rw [if_pos hgt], by rw [if_pos hgt]⟩)⟩⟩
    case isFalse hle =>
      cases h
      exact Or.inr ⟨b, e, p, a, f, _, hs', hfound, slot_eq_ok.mp hp, hfp, hfile, Or.inl ⟨_, rfl,
        Or.inr (Or.inl ⟨hend, by rw [if_neg hle], by rw [if_neg hle]⟩)⟩⟩
  case isFalse hend =>
  split at h
  case isTrue hcur =>
    split at h
    case isTrue => cases h; exact Or.inl ⟨rfl, rfl, Or.inr hs'⟩
    case isFalse hle =>
      cases h
      exact Or.inr ⟨b, e, p, a, f, _, hs', hfound, slot_eq_ok.mp hp, hfp, hfile, Or.inl ⟨_, rfl,
        Or.inr (Or.inr ⟨hcur, rfl, rfl, by omega⟩)⟩⟩
  case isFalse => cases h; exact Or.inl ⟨rfl, rfl, Or.inr hs'⟩

end

end Vsfs
