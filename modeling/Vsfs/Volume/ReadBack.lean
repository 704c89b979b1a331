import Vsfs.Volume.Listed
import Vsfs.Volume.Overwrite
import Vsfs.Volume.Rounds
import Vsfs.Volume.Supply

/-!
# Reading back what has been written

`vsfs_read` works on the file object of the descriptor, which `vsfs_write` refreshes before it sets the size, and it
copies every block to the start of the caller's buffer.

- `readBack_iff`: the four calls, as what each makes of the volume and of the file object;
- `readBack_inside`, `readsBack_of_page`: what is enough for one block;
- `aligned_of_readsBack`, `oneBlock_of_readsBack`, `file_of_readsBack`: what is needed;
- `reads_back_iff`: when a write is read back.
-/

set_option autoImplicit false

namespace Vsfs

open Function ByteSeq WordBits

variable {s t : State} {v w : Volume} {f g : File} {i o n p a b now : Nat} {e : FdTable} {fildes ret : Int}
  {offset nbyte : UInt64} {d buf buf' : Bytes}

/-! ## The calls -/

/-- `vsfs_lseek(fd, o, SEEK_SET)`, `vsfs_write(fd, d, n)`, `vsfs_lseek(fd, o, SEEK_SET)` and `vsfs_read(fd, buf, n)`: what
the read returns, and the caller's memory. -/
def readBack (now now' : Nat) (fildes : Int) (offset : UInt64) (d : Bytes) (nbyte : UInt64) (buf : Bytes) (s : State) :
    M (Int × Bytes) := do
  let (_, s) ← vsfsLseek fildes offset seekSet s
  let (_, s) ← vsfsWrite now fildes d nbyte s
  let (_, s) ← vsfsLseek fildes offset seekSet s
  let (ret, buf, _) ← vsfsRead now' fildes buf nbyte s
  .ok (ret, buf)

/-- What a seek to `o` makes of the volume `v` and of the file object `f` of inode `i`. -/
inductive Sought (i o : Nat) (f : File) (v : Volume) : Volume → File → Prop
  | inside (h : o ≤ f.size) : Sought i o f v v f
  | grown {m : Nat} {w : Volume} {info : File} (h : f.size < o)
      (ha : allocBlock v.cached.sbi.ofsDregion i (sub32 (neededBlocks o) f.blocks) v = .ok (m, w))
      (hi : vsfsGetInodeInfo w i = .ok info) :
      Sought i o f v w { info with blocks := (info.blocks + neededBlocks o) % 2 ^ 32, size := o }

/-- What a write to `fin` makes of them before the bytes are copied. -/
inductive Refreshed (i fin : Nat) (f : File) (v : Volume) : Volume → File → Prop
  | listed (h : neededBlocks fin < (v.inode i).blocks) : Refreshed i fin f v v f
  | grown {m : Nat} {w : Volume} {info : File} (h : (v.inode i).blocks ≤ neededBlocks fin)
      (ha : allocBlock v.cached.sbi.ofsDregion i (sub32 (neededBlocks fin) (v.inode i).blocks) v = .ok (m, w))
      (hi : vsfsGetInodeInfo w i = .ok info) : Refreshed i fin f v w info

theorem Sought.unique {w' : Volume} {g' : File} (h : Sought i o f v w g) (h' : Sought i o f v w' g') :
    w = w' ∧ g = g' := by
  cases h with
  | inside hle =>
    cases h' with
    | inside => exact ⟨rfl, rfl⟩
    | grown hlt => omega
  | grown hlt ha hi =>
    cases h' with
    | inside hle => omega
    | grown _ ha' hi' =>
      rw [ha] at ha'
      cases ha'
      rw [hi] at hi'
      cases hi'
      exact ⟨rfl, rfl⟩

theorem Refreshed.unique {fin : Nat} {w' : Volume} {g' : File} (h : Refreshed i fin f v w g)
    (h' : Refreshed i fin f v w' g') : w = w' ∧ g = g' := by
  cases h with
  | listed hlt =>
    cases h' with
    | listed => exact ⟨rfl, rfl⟩
    | grown hle => omega
  | grown hle ha hi =>
    cases h' with
    | listed hlt => omega
    | grown _ ha' hi' =>
      rw [ha] at ha'
      cases ha'
      rw [hi] at hi'
      cases hi'
      exact ⟨rfl, rfl⟩

/-- The state after a seek to `o` through slot `p`. -/
def State.sought (s : State) (p o : Nat) (v : Volume) (a : Nat) (f : File) : State :=
  { s with inodeReg := s.inodeReg.or s.sbCached, vol := v, desc := (s.desc.modFile a f).setOffset p o }

/-- The descriptor `fildes` is open for reading and writing, on slot `p` with the file object `f` at `a`, and the
cached data is mapped. -/
structure OpenRdwr (s : State) (fildes : Int) (p a : Nat) (f : File) : Prop where
  target : ∃ b e, s.desc.findTarget fildes = .ok (some (b, e)) ∧ e.ptr = some p ∧ e.flags = some oRdwr
  opCounter : s.desc.opCounter = true
  sbCached : s.sbCached ≠ none
  filePtr : (s.desc.opFtable p).filePtr = some a
  file : s.desc.files a = some f

/-- The calls leave the descriptor open. -/
theorem OpenRdwr.sought (h : OpenRdwr s fildes p a f) (o : Nat) (v : Volume) (g : File) :
    OpenRdwr (s.sought p o v a g) fildes p a g :=
  ⟨h.target, h.opCounter, h.sbCached, by simpa [State.sought, Desc.modFile, Desc.setOffset] using h.filePtr,
    update_self ..⟩

@[simp] theorem sought_offset (s : State) (p o : Nat) (v : Volume) (a : Nat) (f : File) :
    ((s.sought p o v a f).desc.opFtable p).offset = o := by
  simp [State.sought, Desc.setOffset]

@[simp] theorem sought_inodeNr (s : State) (p o : Nat) (v : Volume) (a : Nat) (f : File) :
    ((s.sought p o v a f).desc.opFtable p).inodeNr = (s.desc.opFtable p).inodeNr := by
  simp [State.sought, Desc.modFile, Desc.setOffset]

theorem modFile_self {d : Desc} (h : d.files a = some f) : d.modFile a f = d := by
  unfold Desc.modFile
  rw [← h, update_eq_self]

/-- **`vsfs_lseek` with `SEEK_SET`** on an open descriptor. -/
theorem vsfsLseek_set (h : OpenRdwr s fildes p a f) (hl : offset.toNat ≤ 0x100000000) {r : Nat} :
    vsfsLseek fildes offset seekSet s = .ok (r, t) ↔ r = offset.toNat ∧ ∃ w g,
      Sought (s.desc.opFtable p).inodeNr offset.toNat f s.vol w g ∧ t = s.sought p offset.toNat w a g := by
  obtain ⟨⟨b, e, hfind, hp, -⟩, hoc, hsb, hfp, hfile⟩ := h
  obtain ⟨c, hc⟩ := Option.ne_none_iff_exists'.mp hsb
  have hreg : s.setInodeReg = .ok { s with inodeReg := s.inodeReg.or s.sbCached } := by
    unfold State.setInodeReg State.useSbCached
    cases hr : s.inodeReg with
    | none => simp [hc, ExceptLib.ok_bind]
    | some r =>
      obtain ⟨vol, desc, sb, reg, maps, base⟩ := s
      dsimp only at hr
      subst hr
      rfl
  have hof : ({ s with inodeReg := s.inodeReg.or s.sbCached } : State).desc.fileOf p = .ok (a, f) :=
    fileOf_eq_ok.mpr ⟨hfp, hfile⟩
  unfold vsfsLseek
  rw [if_neg (by simp [hoc]), hreg, ExceptLib.ok_bind]
  dsimp only
  rw [hfind, ExceptLib.ok_bind]
  dsimp only
  rw [slot_eq_ok.mpr hp, ExceptLib.ok_bind, hof, ExceptLib.ok_bind, if_pos rfl, if_neg (by omega)]
  have huse : ({ s with inodeReg := s.inodeReg.or s.sbCached } : State).useSbCached = .ok () := by
    simp [State.useSbCached, hc]
  by_cases hlt : f.size < offset.toNat
  · rw [if_pos hlt, huse, ExceptLib.ok_bind]
    constructor
    · intro hr
      obtain ⟨s', hs', hr⟩ := ExceptLib.bind_eq_ok.mp hr
      obtain ⟨⟨m, w⟩, ha, hs'⟩ := ExceptLib.bind_eq_ok.mp hs'
      obtain ⟨info, hi, hs'⟩ := ExceptLib.bind_eq_ok.mp hs'
      cases hs'
      cases hr
      exact ⟨rfl, w, _, .grown hlt ha hi, rfl⟩
    · rintro ⟨rfl, w, g, hso, rfl⟩
      cases hso with
      | inside hle => omega
      | grown _ ha hi =>
        rw [ha, ExceptLib.ok_bind]
        dsimp only
        rw [hi]
        rfl
  · rw [if_neg hlt, ExceptLib.ok_bind]
    have hself : s.sought p offset.toNat s.vol a f =
        { s with inodeReg := s.inodeReg.or s.sbCached, desc := s.desc.setOffset p offset.toNat } := by
      unfold State.sought
      rw [modFile_self hfile]
    constructor
    · intro hr
      cases hr
      exact ⟨rfl, s.vol, f, .inside (by omega), hself.symm⟩
    · rintro ⟨rfl, w, g, hso, rfl⟩
      cases hso with
      | inside => rw [hself]
      | grown hlt' => exact absurd hlt' hlt

/-- The time stamps of a write. -/
def stamped (now : Nat) (x : Inode) : Inode := { x with atime := now, mtime := now }

/-- The state after a write to `fin` through slot `p`. -/
def State.written (s : State) (p fin : Nat) (v : Volume) (a : Nat) (f : File) : State :=
  { s with
    inodeReg := s.sbCached
    vol := v.modInode (s.desc.opFtable p).inodeNr fun x => { x with size := fin % 2 ^ 32 }
    desc := (s.desc.modFile a f).setOffset p fin }

/-- **`vsfs_write`** on an open descriptor. -/
theorem vsfsWrite_open (now : Nat) (h : OpenRdwr s fildes p a f) (hi : (s.desc.opFtable p).inodeNr < nrInodes)
    (hl : (s.desc.opFtable p).offset + nbyte.toNat ≤ 2 ^ 32) :
    vsfsWrite now fildes d nbyte s = .ok (ret, t) ↔ ret = toInt32 nbyte.toNat ∧ ∃ w g u,
      Refreshed (s.desc.opFtable p).inodeNr ((s.desc.opFtable p).offset + nbyte.toNat) f s.vol w g ∧
      writeDblock { g with atime := now, mtime := now } (s.desc.opFtable p).offset nbyte.toNat d
        (w.modInode (s.desc.opFtable p).inodeNr (stamped now)) = .ok u ∧
      t = s.written p ((s.desc.opFtable p).offset + nbyte.toNat) u a { g with atime := now, mtime := now } := by
  obtain ⟨⟨b, e, hfind, hp, hfl⟩, hoc, hsb, hfp, hfile⟩ := h
  have hend : s.desc.writeEnd p nbyte = (s.desc.opFtable p).offset + nbyte.toNat := Nat.mod_eq_of_lt (by omega)
  have hlim : s.desc.writeEnd p nbyte ≤ level3LimitTimesBlockSize := by
    unfold level3LimitTimesBlockSize
    omega
  have hflags := FdTable.canWrite_of_rdwr hfl
  constructor
  · intro hr
    obtain ⟨-, hret, a', g, w, u, hfp', halloc, hdata, hres⟩ := vsfsWrite_written hfind hp hoc hflags hsb hlim hr
    rw [hfp] at hfp'
    cases hfp'
    rw [hend] at halloc hres
    refine ⟨hret, w, g, u, ?_, hdata, hres⟩
    rcases halloc with ⟨hle, ⟨m, ha⟩, -, hinfo⟩ | ⟨hlt, rfl, hg⟩
    · exact .grown hle ha hinfo
    · rw [hfile] at hg
      cases hg
      exact .listed hlt
  · rintro ⟨rfl, w, g, u, href, hdata, rfl⟩
    have hw : Written now p d nbyte s (s.written p ((s.desc.opFtable p).offset + nbyte.toNat) u a
        { g with atime := now, mtime := now }) a g w u := by
      refine ⟨hfp, ?_, hdata, by rw [hend]; rfl⟩
      rw [hend]
      cases href with
      | listed hlt => exact Or.inr ⟨hlt, rfl, hfile⟩
      | grown hle ha hinfo => exact Or.inl ⟨hle, ⟨_, ha⟩, ⟨f, hfile⟩, hinfo⟩
    exact hw.run ⟨b, hfind, hp⟩ ⟨hoc, hflags, hsb, hlim, hi⟩

/-- **`vsfs_read`** on an open descriptor. -/
theorem vsfsRead_open (h : OpenRdwr s fildes p a f) (hreg : s.inodeReg ≠ none)
    (hi : (s.desc.opFtable p).inodeNr < nrInodes) :
    (∃ t, vsfsRead now fildes buf nbyte s = .ok (ret, buf', t)) ↔ ∃ readed,
      readDblock { f with atime := now } (s.desc.opFtable p).offset nbyte.toNat buf
        (s.vol.modInode (s.desc.opFtable p).inodeNr fun x => { x with atime := now }) = .ok (ret, readed, buf') := by
  obtain ⟨⟨b, e, hfind, hp, hfl⟩, hoc, hsb, hfp, hfile⟩ := h
  have huse : s.useInodeReg = .ok () := useInodeReg_eq_ok.mpr ⟨hreg, hsb⟩
  unfold vsfsRead
  rw [if_neg (by simp [hoc]), hfind, ExceptLib.ok_bind]
  dsimp only
  rw [accessMode_eq_ok.mpr hfl, ExceptLib.ok_bind, if_neg (by decide), slot_eq_ok.mpr hp, ExceptLib.ok_bind,
    fileOf_eq_ok.mpr ⟨hfp, hfile⟩, ExceptLib.ok_bind]
  dsimp only
  rw [huse, ExceptLib.ok_bind, (inodeAt_eq_ok _ _).mpr ⟨hi, rfl⟩, ExceptLib.ok_bind]
  constructor
  · rintro ⟨t, ht⟩
    obtain ⟨⟨r', readed, b'⟩, hd, ht⟩ := ExceptLib.bind_eq_ok.mp ht
    cases ht
    exact ⟨readed, hd⟩
  · rintro ⟨readed, hd⟩
    rw [hd]
    exact ⟨_, rfl⟩

theorem OpenRdwr.written (h : OpenRdwr s fildes p a f) (fin : Nat) (v : Volume) (g : File) :
    OpenRdwr (s.written p fin v a g) fildes p a g :=
  ⟨h.target, h.opCounter, h.sbCached, by simpa [State.written, Desc.modFile, Desc.setOffset] using h.filePtr,
    update_self ..⟩

@[simp] theorem sought_vol (s : State) (p o : Nat) (v : Volume) (a : Nat) (f : File) : (s.sought p o v a f).vol = v :=
  rfl

@[simp] theorem written_vol (s : State) (p fin : Nat) (v : Volume) (a : Nat) (f : File) :
    (s.written p fin v a f).vol =
      v.modInode (s.desc.opFtable p).inodeNr fun x => { x with size := fin % 2 ^ 32 } :=
  rfl

@[simp] theorem written_inodeNr (s : State) (p fin : Nat) (v : Volume) (a : Nat) (f : File) :
    ((s.written p fin v a f).desc.opFtable p).inodeNr = (s.desc.opFtable p).inodeNr := by
  simp [State.written, Desc.modFile, Desc.setOffset]

/-- **The four calls**, as what each makes of the volume and of the file object. -/
theorem readBack_iff {now' : Nat} (h : OpenRdwr s fildes p a f) (hi : (s.desc.opFtable p).inodeNr = i)
    (hlt : i < nrInodes) (ho : offset.toNat = o) (hn : nbyte.toNat = n) (hl : o + n ≤ 2 ^ 32) :
    readBack now now' fildes offset d nbyte buf s = .ok (ret, buf') ↔ ∃ w₁ g₁ w₂ g₂ w₃ w₄ g₄ readed,
      Sought i o f s.vol w₁ g₁ ∧ Refreshed i (o + n) g₁ w₁ w₂ g₂ ∧
      writeDblock { g₂ with atime := now, mtime := now } o n d (w₂.modInode i (stamped now)) = .ok w₃ ∧
      Sought i o { g₂ with atime := now, mtime := now } (w₃.modInode i fun x => { x with size := (o + n) % 2 ^ 32 })
        w₄ g₄ ∧
      readDblock { g₄ with atime := now' } o n buf (w₄.modInode i fun x => { x with atime := now' }) =
        .ok (ret, readed, buf') := by
  subst ho hn hi
  have hlim : offset.toNat ≤ 0x100000000 := by omega
  obtain ⟨o, ho⟩ : ∃ o, offset.toNat = o := ⟨_, rfl⟩
  obtain ⟨i, hi⟩ : ∃ i, (s.desc.opFtable p).inodeNr = i := ⟨_, rfl⟩
  -- the states between the calls
  have h₁ : ∀ w g, OpenRdwr (s.sought p o w a g) fildes p a g := fun w g => h.sought o w g
  have h₂ : ∀ w g fin w' g', OpenRdwr ((s.sought p o w a g).written p fin w' a g') fildes p a g' := fun w g fin w' g' =>
    (h₁ w g).written fin w' g'
  have h₃ : ∀ w g fin w' g' w'' g'',
      OpenRdwr (((s.sought p o w a g).written p fin w' a g').sought p o w'' a g'') fildes p a g'' :=
    fun w g fin w' g' w'' g'' => (h₂ w g fin w' g').sought o w'' g''
  have hreg : ∀ w g fin w' g' w'' g'',
      (((s.sought p o w a g).written p fin w' a g').sought p o w'' a g'').inodeReg ≠ none := by
    intro w g fin w' g' w'' g''
    obtain ⟨c, hc⟩ := Option.ne_none_iff_exists'.mp h.sbCached
    simp [State.sought, State.written, hc]
  unfold readBack
  constructor
  · intro hr
    obtain ⟨⟨r₁, s₁⟩, hc₁, hr⟩ := ExceptLib.bind_eq_ok.mp hr
    obtain ⟨⟨r₂, s₂⟩, hc₂, hr⟩ := ExceptLib.bind_eq_ok.mp hr
    obtain ⟨⟨r₃, s₃⟩, hc₃, hr⟩ := ExceptLib.bind_eq_ok.mp hr
    obtain ⟨⟨r₄, b', s₄⟩, hc₄, hr⟩ := ExceptLib.bind_eq_ok.mp hr
    cases hr
    obtain ⟨-, w₁, g₁, hso₁, rfl⟩ := (vsfsLseek_set h hlim).mp hc₁
    rw [ho] at hso₁ hc₂
    obtain ⟨-, w₂, g₂, w₃, href, hdata, rfl⟩ :=
      (vsfsWrite_open now (h₁ w₁ g₁) (by simpa using hlt) (by simpa [ho] using hl)).mp hc₂
    obtain ⟨-, w₄, g₄, hso₂, rfl⟩ := (vsfsLseek_set (h₂ _ _ _ _ _) hlim).mp hc₃
    rw [ho] at hso₂ hc₄
    obtain ⟨readed, hread⟩ :=
      (vsfsRead_open (h₃ _ _ _ _ _ _ _) (hreg _ _ _ _ _ _ _) (by simpa using hlt)).mp ⟨_, hc₄⟩
    simp only [sought_offset, sought_inodeNr, written_inodeNr, sought_vol, written_vol] at href hdata hso₂ hread
    rw [ho]
    exact ⟨w₁, g₁, w₂, g₂, w₃, w₄, g₄, readed, hso₁, href, hdata, hso₂, hread⟩
  · rw [ho]
    rintro ⟨w₁, g₁, w₂, g₂, w₃, w₄, g₄, readed, hso₁, href, hdata, hso₂, hread⟩
    have hc₁ := (vsfsLseek_set (t := s.sought p o w₁ a g₁) h hlim).mpr
      ⟨rfl, w₁, g₁, by rw [ho]; exact hso₁, by rw [ho]⟩
    have hc₂ := (vsfsWrite_open (d := d) now (h₁ w₁ g₁) (by simpa using hlt) (by simpa [ho] using hl)).mpr
      ⟨rfl, w₂, g₂, w₃, by simpa using href, by simpa using hdata, rfl⟩
    rw [sought_offset] at hc₂
    have hc₃ := (vsfsLseek_set (t := ((s.sought p o w₁ a g₁).written p (o + nbyte.toNat) w₃ a
      { g₂ with atime := now, mtime := now }).sought p o w₄ a g₄) (h₂ _ _ _ _ _) hlim).mpr
      ⟨rfl, w₄, g₄, by rw [ho]; simpa using hso₂, by rw [ho]⟩
    obtain ⟨u, hc₄⟩ := (vsfsRead_open (h₃ w₁ g₁ (o + nbyte.toNat) w₃ _ w₄ g₄) (hreg _ _ _ _ _ _ _)
      (by simpa using hlt)).mpr ⟨readed, by simpa using hread⟩
    rw [hc₁, ExceptLib.ok_bind]
    dsimp only
    rw [hc₂, ExceptLib.ok_bind]
    dsimp only
    rw [hc₃, ExceptLib.ok_bind]
    dsimp only
    rw [hc₄]
    rfl

/-- A read that is not rejected finds the seek before it inside the file. -/
theorem Sought.read (h : Sought i o f v w g) {u : Volume} {m : Nat}
    (hr : readDblock { g with atime := now } o n buf u = .ok (ret, m, buf')) (hret : ret ≠ -1) :
    o ≤ f.size ∧ w = v ∧ g = f := by
  cases h with
  | inside hle => exact ⟨hle, rfl, rfl⟩
  | grown hlt ha hi =>
    unfold readDblock at hr
    rw [if_pos rfl] at hr
    cases hr
    exact absurd rfl hret

/-- The four calls when the read is not rejected: the second seek finds the file object that the write has left. -/
theorem readBack_inside {now' : Nat} (h : OpenRdwr s fildes p a f) (hi : (s.desc.opFtable p).inodeNr = i)
    (hlt : i < nrInodes) (ho : offset.toNat = o) (hn : nbyte.toNat = n) (hl : o + n ≤ 2 ^ 32) (hret : ret ≠ -1) :
    readBack now now' fildes offset d nbyte buf s = .ok (ret, buf') ↔ ∃ w₁ g₁ w₂ g₂ w₃ readed,
      Sought i o f s.vol w₁ g₁ ∧ Refreshed i (o + n) g₁ w₁ w₂ g₂ ∧ o ≤ g₂.size ∧
      writeDblock { g₂ with atime := now, mtime := now } o n d (w₂.modInode i (stamped now)) = .ok w₃ ∧
      readDblock { g₂ with atime := now', mtime := now } o n buf
        ((w₃.modInode i fun x => { x with size := (o + n) % 2 ^ 32 }).modInode i fun x => { x with atime := now' }) =
        .ok (ret, readed, buf') := by
  rw [readBack_iff h hi hlt ho hn hl]
  constructor
  · rintro ⟨w₁, g₁, w₂, g₂, w₃, w₄, g₄, readed, hso, href, hdata, hso', hread⟩
    obtain ⟨hle, rfl, rfl⟩ := hso'.read hread hret
    exact ⟨w₁, g₁, w₂, g₂, w₃, readed, hso, href, hle, hdata, hread⟩
  · rintro ⟨w₁, g₁, w₂, g₂, w₃, readed, hso, href, hle, hdata, hread⟩
    exact ⟨w₁, g₁, w₂, g₂, w₃, _, _, readed, hso, href, hdata, .inside hle, hread⟩

/-! ## The file object and the blocks of the inode -/

/-- The blocks that a seek to `o` asks for. -/
def seekAsks (f : File) (o : Nat) : Nat := if f.size < o then sub32 (neededBlocks o) f.blocks else 0

/-- A seek gives the inode the blocks asked for, or more than a write can need. -/
theorem Sought.blocks (h : Sought i o f v w g) (hb : (v.inode i).blocks < 2 ^ 32) :
    (w.inode i).size = (v.inode i).size ∧ (w.inode i).blocks < 2 ^ 32 ∧
      ((w.inode i).blocks = (v.inode i).blocks + seekAsks f o ∨ 1048576 < (w.inode i).blocks) := by
  unfold seekAsks
  cases h with
  | inside hle =>
    rw [if_neg (by omega)]
    exact ⟨rfl, hb, Or.inl rfl⟩
  | grown hlt ha hi =>
    obtain ⟨c, hf, hc, -, hcase⟩ := allocBlock_frame hb ha
    have hw := hf.blocks hc
    rw [if_pos hlt, hw]
    refine ⟨hf.head.size, hc, ?_⟩
    rcases hcase with rfl | hbig
    · exact Or.inl rfl
    · exact Or.inr hbig

/-- A write to `fin` leaves the file object as it is, or makes a copy of the inode with the blocks for `fin`. -/
theorem Refreshed.copied {fin : Nat} (h : Refreshed i fin f v w g) (hb : (v.inode i).blocks < 2 ^ 32)
    (hn : neededBlocks fin ≤ 1048576) :
    (neededBlocks fin < (v.inode i).blocks ∧ w = v ∧ g = f) ∨
    ((v.inode i).blocks ≤ neededBlocks fin ∧ (w.inode i).size = (v.inode i).size ∧
      (w.inode i).blocks = neededBlocks fin ∧ InfoCopied w i g) := by
  cases h with
  | listed hlt => exact Or.inl ⟨hlt, rfl, rfl⟩
  | grown hle ha hi =>
    rw [sub32_of_le hle (by omega)] at ha
    obtain ⟨c, hf, hc, hcn, hcase⟩ := allocBlock_frame hb ha
    have hw := hf.blocks hc
    exact Or.inr ⟨hle, hf.head.size, by omega, vsfsGetInodeInfo_spec hi⟩

theorem neededBlocks_page (ho : o % 4096 = 0) (h0 : 1 ≤ n) (hn : n ≤ 4096) (hl : o + n ≤ 2 ^ 32) :
    neededBlocks (o + n) = o / 4096 + 1 := by
  unfold neededBlocks blockSize
  split <;> omega

/-- The size in the file object of an inode whose blocks have been counted up. -/
theorem InfoCopied.size_of {x : Inode} {m : Nat} (h : InfoCopied w i g) (hx : (w.inode i).size = x.size)
    (hm : (w.inode i).blocks = m) : g.size = ({ x with blocks := m } : Inode).fileSize := by
  rw [h.size]
  unfold Inode.fileSize
  rw [hx, hm]

/-! ## What is needed -/

/-- What is written at `o` through slot `p` is read back: it is one block from its start, and the file object that the
calls go through says so much. The write makes it a copy of the inode, which has its old size then, unless the inode
has the blocks already. -/
structure ReadBackOk (s : State) (p o n : Nat) : Prop where
  sbCached : s.sbCached ≠ none
  inode : (s.desc.opFtable p).inodeNr < nrInodes
  aligned : o % 4096 = 0
  oneBlock : n ≤ 4096
  file : ∃ a f, (s.desc.opFtable p).filePtr = some a ∧ s.desc.files a = some f ∧
    ((s.vol.inode (s.desc.opFtable p).inodeNr).blocks + seekAsks f o ≤ o / 4096 + 1 →
      o + n ≤ ({ s.vol.inode (s.desc.opFtable p).inodeNr with blocks := o / 4096 + 1 } : Inode).fileSize) ∧
    (o / 4096 + 1 < (s.vol.inode (s.desc.opFtable p).inodeNr).blocks + seekAsks f o →
      o + n ≤ f.size ∧ o / 4096 < f.blocks ∧ o / 4096 < f.block.length)

/-- The calls find the free blocks that they take. -/
def ReadBackRoom (s : State) (p o n : Nat) : Prop :=
  ∀ a f, (s.desc.opFtable p).filePtr = some a → s.desc.files a = some f →
    (s.vol.inode (s.desc.opFtable p).inodeNr).blocks + seekAsks f o ≤ neededBlocks (o + n) →
    (if f.size < o then allocTakes (s.vol.inode (s.desc.opFtable p).inodeNr).blocks (seekAsks f o) else 0) +
      allocTakes ((s.vol.inode (s.desc.opFtable p).inodeNr).blocks + seekAsks f o) (neededBlocks (o + n) -
        ((s.vol.inode (s.desc.opFtable p).inodeNr).blocks + seekAsks f o)) ≤
      (freeBelow s.vol.cached.dbitmap (dbitmapBits s.vol.cached.sbi)).card

/-- The bytes `d` are read back. -/
def ReadsBack (s : State) (fildes : Int) (offset nbyte : UInt64) (d buf : Bytes) : Prop :=
  ∀ now now', ∃ buf', readBack now now' fildes offset d nbyte buf s = .ok ((nbyte.toNat : Int), buf') ∧
    ∀ k, k < nbyte.toNat → buf' k = d k

section

variable (h : OpenRdwr s fildes p a f) (hi : (s.desc.opFtable p).inodeNr = i) (hlt : i < nrInodes)
  (ho : offset.toNat = o) (hn : nbyte.toNat = n) (h0 : 1 ≤ n) (hl : o + n ≤ 2 ^ 32)

include h hi hlt ho hn h0 hl

/-- Bytes that do not start a block are not read back. -/
theorem aligned_of_readsBack (hr : ∀ d, ReadsBack s fildes offset nbyte d fun _ => 0) : o % 4096 = 0 := by
  by_contra hne
  have hret : (nbyte.toNat : Int) ≠ -1 := by omega
  obtain ⟨b, hrun, hb⟩ := hr (fun _ => 0) 0 0
  obtain ⟨b', hrun', hb'⟩ := hr (fun k => if k = 0 then 1 else 0) 0 0
  obtain ⟨w₁, g₁, w₂, g₂, w₃, r, hso, href, -, hdata, hread⟩ :=
    (readBack_inside h hi hlt ho hn hl hret).mp hrun
  obtain ⟨w₁', g₁', w₂', g₂', w₃', r', hso', href', -, hdata', hread'⟩ :=
    (readBack_inside h hi hlt ho hn hl hret).mp hrun'
  obtain ⟨rfl, rfl⟩ := hso.unique hso'
  obtain ⟨rfl, rfl⟩ := href.unique href'
  -- the two writes differ in byte 0 only, which is not at the start of a block
  have hsame := writeDblock_first (fun k hk => by rw [if_neg (by omega)]) (.refl _) hne hdata hdata'
  have hzero := readDblock_first ((hsame.modInode i _).modInode i _) hread hread'
  rw [hb 0 (by omega), hb' 0 (by omega)] at hzero
  exact absurd hzero (by decide)

omit h0 in
/-- More than a block is not read back. -/
theorem oneBlock_of_readsBack (hr : ReadsBack s fildes offset nbyte (fun _ => 1) fun _ => 0) : n ≤ 4096 := by
  by_contra hgt
  obtain ⟨b, hrun, hb⟩ := hr 0 0
  obtain ⟨w₁, g₁, w₂, g₂, w₃, r, -, -, -, -, hread⟩ :=
    (readBack_inside h hi hlt ho hn hl (by omega)).mp hrun
  have hzero := readDblock_high hread (Nat.le_refl 4096) rfl
  rw [hb 4096 (by omega)] at hzero
  exact absurd hzero (by decide)

/-- What the file object must be like. -/
theorem file_of_readsBack (hb : (s.vol.inode i).blocks < 2 ^ 32) (hal : o % 4096 = 0) (hone : n ≤ 4096)
    (hr : ReadsBack s fildes offset nbyte (fun _ => 1) fun _ => 0) :
    ((s.vol.inode i).blocks + seekAsks f o ≤ o / 4096 + 1 →
      o + n ≤ ({ s.vol.inode i with blocks := o / 4096 + 1 } : Inode).fileSize) ∧
    (o / 4096 + 1 < (s.vol.inode i).blocks + seekAsks f o →
      o + n ≤ f.size ∧ o / 4096 < f.blocks ∧ o / 4096 < f.block.length) := by
  have hret : (nbyte.toNat : Int) ≠ -1 := by omega
  obtain ⟨b, hrun, hbuf⟩ := hr 0 0
  obtain ⟨w₁, g₁, w₂, g₂, w₃, r, hso, href, hle, -, hread⟩ := (readBack_inside h hi hlt ho hn hl hret).mp hrun
  have hneed : o + n ≤ g₂.size ∧ o / 4096 < g₂.blocks ∧ o / 4096 < g₂.block.length :=
    readDblock_needs (f := { g₂ with atime := 0, mtime := 0 }) hal h0 hone hl hle hread hret (fun _ => rfl)
      fun k hk => by
        rw [hbuf k (by omega)]
        exact (by decide : (1 : UInt8) ≠ 0)
  obtain ⟨hsize, hb₁, hcount⟩ := hso.blocks hb
  have hpage := neededBlocks_page hal h0 hone hl
  rcases href.copied hb₁ (by omega) with ⟨hlt', rfl, rfl⟩ | ⟨hle', hsize', hblocks, hcopy⟩
  · -- the object is the one that the first seek has left
    cases hso with
    | inside hin =>
      have hask : seekAsks f o = 0 := if_neg (by omega)
      rw [hask]
      exact ⟨fun hc => absurd hlt' (by omega), fun _ => hneed⟩
    | grown hlt ha hi =>
      have : o + n ≤ o := hneed.1
      omega
  · have hcur := hcopy.size_of (x := s.vol.inode i) (hsize'.trans hsize) (hblocks.trans hpage)
    rw [← hcur]
    exact ⟨fun _ => hneed.1, fun hc => absurd hc (by omega)⟩

omit h0 in
/-- One block is read back through a file object that lists it. -/
theorem readsBack_of_page {w₁ w₂ : Volume} {g₁ g₂ : File} {ret : Int} (now now' : Nat) (d buf : Bytes)
    (h0 : 1 ≤ n) (hret : ret = toInt32 n) (hpos : ret ≠ -1) (hal : o % 4096 = 0) (hone : n ≤ 4096)
    (hso : Sought i o f s.vol w₁ g₁) (href : Refreshed i (o + n) g₁ w₁ w₂ g₂)
    (hg : o + n ≤ g₂.size ∧ o / 4096 < g₂.blocks ∧ o / 4096 < g₂.block.length) :
    ∃ buf', readBack now now' fildes offset d nbyte buf s = .ok (ret, buf') ∧ ∀ k, k < n → buf' k = d k := by
  obtain ⟨hsize, hblocks, hlen⟩ := hg
  have hb : g₂.block[o / 4096]? = some (g₂.block.get ⟨o / 4096, hlen⟩) := List.getElem?_eq_getElem hlen
  obtain ⟨b, hb⟩ : ∃ b, g₂.block[o / 4096]? = some b := ⟨_, hb⟩
  obtain ⟨x, hw, hx⟩ := writeDblock_page (f := { g₂ with atime := now, mtime := now }) (d := d)
    (v := w₂.modInode i (stamped now)) hal h0 hone hl hb
  obtain ⟨buf', hrd, hbuf⟩ := readDblock_page (f := { g₂ with atime := now', mtime := now })
    (v := ((((w₂.modInode i (stamped now)).writeBlock ((w₂.modInode i (stamped now)).lba b) x).modInode i
      fun x => { x with size := (o + n) % 2 ^ 32 }).modInode i fun x => { x with atime := now' }))
    hal h0 hone hl buf hsize hblocks hb
  refine ⟨buf', (readBack_inside h hi hlt ho hn hl hpos).mpr
    ⟨w₁, g₁, w₂, g₂, _, n, hso, href, by omega, hw, by rw [hret]; exact hrd⟩, fun k hk => ?_⟩
  rw [hbuf k hk, ← hx k hk]
  exact congrFun (update_self ..) k

end

/-! ## What is enough -/

variable {q : Nat → Prop} {c : Cached} {k fin : Nat}

/-- A seek with the blocks that it takes. -/
theorem sought_of_takes (hlt : i < nrInodes) (hn : (v.inode i).blocks + seekAsks f o ≤ 1048576)
    (ht : Takes q c ((if f.size < o then allocTakes (v.inode i).blocks (seekAsks f o) else 0) + k) v.cached) :
    ∃ w g, Sought i o f v w g ∧ Takes q c k w.cached ∧ (w.inode i).size = (v.inode i).size ∧
      (w.inode i).blocks = (v.inode i).blocks + seekAsks f o := by
  have hlim : level3Limit = 1053745 := rfl
  unfold seekAsks at ht hn ⊢
  by_cases hgrow : f.size < o
  · simp only [if_pos hgrow] at ht hn ⊢
    obtain ⟨w, hw, hrest⟩ : ∃ w, allocBlock v.cached.sbi.ofsDregion i (sub32 (neededBlocks o) f.blocks) v =
        .ok (0, w) ∧ Takes q c k w.cached := allocBlock_takes_rest hlt (by omega) ht
    obtain ⟨m, hf, hm, hmn, hcase⟩ := allocBlock_frame (by omega) hw
    have hblocks := hf.blocks hm
    obtain ⟨info, hinfo⟩ := vsfsGetInodeInfo_ok (v := w) hlt (by omega)
    exact ⟨w, _, .grown hgrow hw hinfo, hrest, hf.head.size, by omega⟩
  · simp only [if_neg hgrow, Nat.zero_add] at ht ⊢
    exact ⟨v, f, .inside (by omega), ht, rfl, rfl⟩

/-- A write that gives the inode blocks. -/
theorem refreshed_of_takes (hlt : i < nrInodes) (hle : (v.inode i).blocks ≤ neededBlocks fin)
    (hn : neededBlocks fin ≤ 1048576)
    (ht : Takes q c (allocTakes (v.inode i).blocks (neededBlocks fin - (v.inode i).blocks)) v.cached) :
    ∃ w g, Refreshed i fin f v w g ∧ (w.inode i).size = (v.inode i).size ∧ (w.inode i).blocks = neededBlocks fin ∧
      InfoCopied w i g := by
  have hlim : level3Limit = 1053745 := rfl
  obtain ⟨w, hw, -⟩ : ∃ w, allocBlock v.cached.sbi.ofsDregion i (neededBlocks fin - (v.inode i).blocks) v =
      .ok (0, w) ∧ Takes q c 0 w.cached := allocBlock_takes hlt (by omega) ht
  rw [← sub32_of_le hle (by omega)] at hw
  obtain ⟨info, hinfo⟩ : ∃ info, vsfsGetInodeInfo w i = .ok info := by
    have hrun := hw
    rw [sub32_of_le hle (by omega)] at hrun
    obtain ⟨m, hf, hm, hmn, -⟩ := allocBlock_frame (by omega) hrun
    have hblocks := hf.blocks hm
    exact vsfsGetInodeInfo_ok hlt (by omega)
  have href : Refreshed i fin f v w info := .grown hle hw hinfo
  rcases href.copied (by omega) hn with ⟨hlt', -⟩ | ⟨-, hsize, hblocks, hcopy⟩
  · omega
  · exact ⟨w, info, href, hsize, hblocks, hcopy⟩

/-- The file object that the calls go through lists the block. -/
theorem ReadBackOk.reaches (hreach : Reached s) (h : OpenRdwr s fildes p a f) (hok : ReadBackOk s p o n)
    (hroom : ReadBackRoom s p o n) (h0 : 1 ≤ n) (hl : o + n ≤ 2 ^ 32) (hi : (s.desc.opFtable p).inodeNr = i) :
    ∃ w₁ g₁ w₂ g₂, Sought i o f s.vol w₁ g₁ ∧ Refreshed i (o + n) g₁ w₁ w₂ g₂ ∧
      o + n ≤ g₂.size ∧ o / 4096 < g₂.blocks ∧ o / 4096 < g₂.block.length := by
  obtain ⟨-, hlt, hal, hone, a', f', hfp, hfile, hnew, hold⟩ := hok
  rw [h.filePtr] at hfp
  cases hfp
  rw [h.file] at hfile
  cases hfile
  have hpage := neededBlocks_page hal h0 hone hl
  have hroom := hroom a f h.filePtr h.file
  rw [hi] at hlt hnew hold hroom
  by_cases hle : (s.vol.inode i).blocks + seekAsks f o ≤ o / 4096 + 1
  · obtain ⟨c, ht⟩ := hreach.takes (hroom (by omega))
    obtain ⟨w₁, g₁, hso, ht₁, hsize₁, hblocks₁⟩ := sought_of_takes hlt (by omega) ht
    rw [← hblocks₁] at ht₁
    obtain ⟨w₂, g₂, href, hsize₂, hblocks₂, hcopy⟩ :=
      refreshed_of_takes (f := g₁) hlt (by omega) (by omega) ht₁
    refine ⟨w₁, g₁, w₂, g₂, hso, href, ?_, ?_, ?_⟩
    · rw [hcopy.size_of (hsize₂.trans hsize₁) (hblocks₂.trans hpage)]
      exact hnew hle
    · rw [hcopy.blocks]
      omega
    · rw [hcopy.block, dataBlocks_length]
      omega
  · -- the inode has the blocks already
    obtain ⟨hsize, hlist⟩ := hold (by omega)
    have hask : seekAsks f o = 0 := if_neg (by omega)
    rw [hask] at hle
    exact ⟨s.vol, f, s.vol, f, .inside (by omega), .listed (by omega), hsize, hlist⟩

/-! ## The condition -/

/-- A seek looks at the file object, whatever it does then. -/
theorem file_of_vsfsLseek {e : FdTable} {whence : Int} {r : Nat} (hop : s.OpenOn fildes e p)
    (hoc : s.desc.opCounter = true) (h : vsfsLseek fildes offset whence s = .ok (r, t)) :
    ∃ a f, (s.desc.opFtable p).filePtr = some a ∧ s.desc.files a = some f := by
  obtain ⟨b, hfind, hp⟩ := hop
  unfold vsfsLseek at h
  rw [if_neg (by simp [hoc])] at h
  obtain ⟨s', hs', h⟩ := ExceptLib.bind_eq_ok.mp h
  have hdesc : s'.desc = s.desc := by rw [(setInodeReg_eq_ok hs').1]
  rw [hdesc, hfind, ExceptLib.ok_bind] at h
  dsimp only at h
  rw [slot_eq_ok.mpr hp, ExceptLib.ok_bind] at h
  obtain ⟨⟨a, f⟩, hfile, -⟩ := ExceptLib.bind_eq_ok.mp h
  exact ⟨a, f, fileOf_eq_ok.mp hfile⟩

theorem vsfsLseek_sbCached {whence : Int} {r : Nat} (h : vsfsLseek fildes offset whence s = .ok (r, t)) :
    t.sbCached = s.sbCached := by
  obtain ⟨-, ht, -⟩ | ⟨b, e, p, a, f, s', hs', -, -, -, -, hcase⟩ := vsfsLseek_cases h
  · rw [ht]
  · have hs : s'.sbCached = s.sbCached := by rw [(setInodeReg_eq_ok hs').1]
    obtain ⟨o, rfl, -⟩ | ⟨-, -, info, v, hg⟩ := hcase
    · exact hs
    · rw [hg.result]
      exact hs

theorem vsfsWrite_sbCached (h : vsfsWrite now fildes d nbyte s = .ok (ret, t)) : t.sbCached = s.sbCached := by
  obtain ⟨b, e, p, -, -, ⟨-, rfl⟩ | ⟨-, -, a, f, v₁, v₂, hw⟩⟩ := vsfsWrite_cases h
  · rfl
  · rw [hw.result]

/-- What is read back has been through an open descriptor. -/
theorem openRdwr_of_readBack {e : FdTable} {now' : Nat} (hop : s.OpenOn fildes e p) (hfl : e.flags = some oRdwr)
    (hoc : s.desc.opCounter = true) (hl : offset.toNat + nbyte.toNat ≤ 2 ^ 32) (hret : ret ≠ -1)
    (h : readBack now now' fildes offset d nbyte buf s = .ok (ret, buf')) :
    (∃ a f, OpenRdwr s fildes p a f) ∧ (s.desc.opFtable p).inodeNr < nrInodes := by
  obtain ⟨⟨r₁, s₁⟩, hc₁, h⟩ := ExceptLib.bind_eq_ok.mp h
  obtain ⟨⟨r₂, s₂⟩, hc₂, h⟩ := ExceptLib.bind_eq_ok.mp h
  obtain ⟨⟨r₃, s₃⟩, hc₃, h⟩ := ExceptLib.bind_eq_ok.mp h
  obtain ⟨⟨r₄, b', s₄⟩, hc₄, h⟩ := ExceptLib.bind_eq_ok.mp h
  cases h
  -- the read uses the mapping, which the calls before it keep
  have hsb : s.sbCached ≠ none := by
    obtain ⟨hno, -⟩ | ⟨_, _, _, _, _, _, -, -, huse, -⟩ := vsfsRead_cases hc₄
    · exact absurd hno hret
    · rw [← vsfsLseek_sbCached hc₁, ← vsfsWrite_sbCached hc₂, ← vsfsLseek_sbCached hc₃]
      exact (useInodeReg_eq_ok.mp huse).2
  obtain ⟨a, f, hfp, hfile⟩ := file_of_vsfsLseek hop hoc hc₁
  obtain ⟨b, hfind, hp⟩ := hop
  have hopen : OpenRdwr s fildes p a f := ⟨⟨b, e, hfind, hp, hfl⟩, hoc, hsb, hfp, hfile⟩
  refine ⟨⟨a, f, hopen⟩, ?_⟩
  obtain ⟨-, w₁, g₁, -, rfl⟩ := (vsfsLseek_set hopen (by omega)).mp hc₁
  have hlim : (s.sought p offset.toNat w₁ a g₁).desc.writeEnd p nbyte ≤ level3LimitTimesBlockSize := by
    unfold Desc.writeEnd level3LimitTimesBlockSize
    rw [sought_offset]
    omega
  have hallowed := (vsfsWrite_written (s := s.sought p offset.toNat w₁ a g₁) hfind hp hoc
    (FdTable.canWrite_of_rdwr hfl) hsb hlim hc₂).1
  simpa using hallowed.inode

/-- **What is written is read back** exactly if it is one block from its start and the file object says so much. -/
theorem reads_back_iff {e : FdTable} (hreach : Reached s) (hop : s.OpenOn fildes e p) (hfl : e.flags = some oRdwr)
    (h0 : 1 ≤ nbyte.toNat) (h31 : nbyte.toNat < 2 ^ 31) (hl : offset.toNat + nbyte.toNat ≤ 2 ^ 32)
    (hroom : ReadBackRoom s p offset.toNat nbyte.toNat) :
    (∀ d buf, ReadsBack s fildes offset nbyte d buf) ↔ ReadBackOk s p offset.toNat nbyte.toNat := by
  have hret : (nbyte.toNat : Int) ≠ -1 := by omega
  have hoc : s.desc.opCounter = true := by
    obtain ⟨b, hfind, hp⟩ := hop
    exact (ReachedBy.listed hreach).opCounter_of_isOpen ⟨_, p, opened_of_findTarget hfind hp, rfl⟩
  constructor
  · intro hall
    have hrun := hall (fun _ => 0) (fun _ => 0) 0 0
    obtain ⟨b, hrun, -⟩ := hrun
    obtain ⟨⟨a, f, hopen⟩, hlt⟩ := openRdwr_of_readBack hop hfl hoc hl hret hrun
    obtain ⟨m, -, -, hfits⟩ := hreach.fits
    have hone := oneBlock_of_readsBack hopen rfl hlt rfl rfl hl (hall _ _)
    have hal := aligned_of_readsBack hopen rfl hlt rfl rfl h0 hl fun d => hall d _
    exact ⟨hopen.sbCached, hlt, hal, hone, a, f, hopen.filePtr, hopen.file,
      file_of_readsBack hopen rfl hlt rfl rfl h0 hl (hfits.inode _).blocks hal hone (hall _ _)⟩
  · intro hok d buf now now'
    obtain ⟨b, hfind, hp⟩ := hop
    obtain ⟨a, f, hfp, hfile, -⟩ := hok.file
    have hopen : OpenRdwr s fildes p a f := ⟨⟨b, e, hfind, hp, hfl⟩, hoc, hok.sbCached, hfp, hfile⟩
    obtain ⟨w₁, g₁, w₂, g₂, hso, href, hg⟩ := hok.reaches hreach hopen hroom h0 hl rfl
    have hcast : (nbyte.toNat : Int) = toInt32 nbyte.toNat := by
      unfold toInt32
      rw [Nat.mod_eq_of_lt (by omega), if_pos h31]
    exact readsBack_of_page hopen rfl hok.inode rfl rfl hl now now' d buf h0 hcast hret hok.aligned hok.oneBlock hso
      href hg

/-- A byte is read back through a file object that has the size of the file. -/
theorem reads_back_iff_again : ∃ s, Reached s ∧ ∀ d buf, ReadsBack s 1 0 1 d buf := by
  have h : (do
      let r ← runCalls openAgain (0, blankVolume 4096)
      let found ← r.2.desc.findTarget 1
      let file ← r.2.desc.fileOf 0
      .ok (found.any fun x => x.2.ptr = some 0 ∧ x.2.flags = some oRdwr ∧ r.2.sbCached.isSome ∧
        (r.2.desc.opFtable 0).inodeNr = 1 ∧ (r.2.vol.inode 1).blocks = 2 ∧ file.2.size = 1 ∧ file.2.blocks = 2 ∧
        file.2.block.length = 2) : M Bool) = .ok true := by decide +kernel
  obtain ⟨⟨r, s⟩, hrun, h⟩ := ExceptLib.bind_eq_ok.mp h
  obtain ⟨found, hfind, h⟩ := ExceptLib.bind_eq_ok.mp h
  obtain ⟨⟨a, f⟩, hfile, h⟩ := ExceptLib.bind_eq_ok.mp h
  obtain ⟨⟨b, e⟩, rfl, hall⟩ := (Option.any_eq_true _ _).mp (Except.ok.inj h)
  obtain ⟨hp, hfl, hsc, hi, hb, hsize, hblocks, hlen⟩ := of_decide_eq_true hall
  dsimp only at hp hfl hsc hi hb hsize hblocks hlen
  obtain ⟨hfp, hfile⟩ := fileOf_eq_ok.mp hfile
  have hreach : Reached s := ReachedBy.runCalls (reachedBy_blankVolume (by decide) (by decide)) hrun
  have hask : seekAsks f 0 = 0 := rfl
  refine ⟨s, hreach, (reads_back_iff (p := 0) hreach ⟨b, hfind, hp⟩ hfl (by decide) (by decide) (by decide) ?_).mpr ?_⟩
  · intro a' f' hfp' hfile' hle
    rw [hi, hb] at hle
    exact absurd (Nat.le_trans (Nat.le_add_right 2 _) hle) (by decide)
  · refine ⟨Option.isSome_iff_ne_none.mp hsc, by rw [hi]; decide, by decide, by decide, a, f, hfp, hfile, ?_⟩
    show (_ + seekAsks f 0 ≤ _ → _) ∧ _
    rw [hi, hb, hask, hsize, hblocks, hlen]
    exact ⟨fun hle => absurd hle (by decide), fun _ => by decide⟩

/-- **The first byte written to a new file** is not read back: the read looks at the size before the write. The file
has two blocks, so that no call needs a free one. -/
theorem first_byte_not_read_back : ∃ s e, Reached s ∧ s.OpenOn 1 e 0 ∧ e.flags = some oRdwr ∧
    0 ≤ (s.vol.inode (s.desc.opFtable 0).inodeNr).fileSize ∧ ReadBackRoom s 0 0 1 ∧
    ¬ReadsBack s 1 0 1 (fun _ => 97) fun _ => 0 := by
  have h : (do
      let r ← runCalls openRoomy (0, blankVolume 4096)
      let found ← r.2.desc.findTarget 1
      let back ← readBack 0 0 1 0 (fun _ => 97) 1 (fun _ => 0) r.2
      .ok (found.any fun x => x.2.ptr = some 0 ∧ x.2.flags = some oRdwr ∧ (r.2.desc.opFtable 0).inodeNr = 1 ∧
        (r.2.vol.inode 1).blocks = 2 ∧ back.1 = -1) : M Bool) = .ok true := by decide +kernel
  obtain ⟨⟨r, s⟩, hrun, h⟩ := ExceptLib.bind_eq_ok.mp h
  obtain ⟨found, hfind, h⟩ := ExceptLib.bind_eq_ok.mp h
  obtain ⟨⟨ret, buf'⟩, hback, h⟩ := ExceptLib.bind_eq_ok.mp h
  obtain ⟨⟨b, e⟩, rfl, hall⟩ := (Option.any_eq_true _ _).mp (Except.ok.inj h)
  obtain ⟨hp, hfl, hi, hb, hret⟩ := of_decide_eq_true hall
  dsimp only at hp hfl hi hb hret
  refine ⟨s, e, ReachedBy.runCalls (reachedBy_blankVolume (by decide) (by decide)) hrun, ⟨b, hfind, hp⟩, hfl,
    Nat.zero_le _, ?_, fun hread => ?_⟩
  · intro a f hfp hfile hle
    rw [hi, hb] at hle
    exact absurd (Nat.le_trans (Nat.le_add_right 2 _) hle) (by decide)
  · obtain ⟨buf'', hrun', -⟩ := hread 0 0
    rw [hback] at hrun'
    cases hrun'
    exact absurd hret (by decide)

end Vsfs
