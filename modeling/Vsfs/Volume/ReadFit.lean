import Vsfs.Volume.ReadBack
import Vsfs.Volume.ReadToEnd
import Vsfs.Volume.RootKept
import Vsfs.Volume.SeekPosition

/-!
# Reads inside a file

`__read_dblock` of the SPDK variant takes the offset from the size in the file object, and what is left from the
request, in 64 bits. Neither wraps as long as the offset of every descriptor that can be read is inside the size.

- `File.Reaches.read`: the copy loop of a read from inside the size;
- `Desc.Fits`, `fits_modFile`: the offsets of the slots that can be read, and a call that changes one;
- `State.StaysInside`: the calls that leave every such offset inside;
- `Step.inside`, `ReachedBy.inside`: they do, in every state of a run of such calls;
- `readsWithin`: the reads in these states.
-/

set_option autoImplicit false

namespace Vsfs

open Function ByteSeq ExceptLib

/-! ## The copy loop -/

/-- `left` at the start of the copy loop of `__read_dblock`. -/
def readLeft (size offset nbyte : Nat) : Nat :=
  if size ≤ (offset + nbyte) % 2 ^ 64 then (size + (2 ^ 64 - offset % 2 ^ 64)) % 2 ^ 64 else nbyte

/-- `padded`. -/
def readPadded (size offset nbyte : Nat) : Nat :=
  if size ≤ (offset + nbyte) % 2 ^ 64 then (nbyte + (2 ^ 64 - readLeft size offset nbyte)) % 2 ^ 64 else 0

/-- The copy loop of `__read_dblock`: `readed`, `left` and the caller's memory at its end. -/
def readCopy (f : File) (offset nbyte : Nat) (buf : Bytes) (v : Volume) : M (Nat × Nat × Bytes) :=
  readLoop v f (readLeft f.size offset nbyte) (offset / blockSize % 2 ^ 32) 0 (offset % blockSize)
    (readLeft f.size offset nbyte) buf

variable {v : Volume} {f : File} {o n : Nat} {buf : Bytes}

/-- `__read_dblock` is this loop and the padding. -/
theorem readDblock_copy (hne : f.size ≠ o) : readDblock f o n buf v = (do
    let r ← readCopy f o n buf v
    .ok (toInt32 n, r.1, fill r.2.2 r.1 0 (readPadded f.size o n))) := by
  unfold readDblock readCopy readPadded readLeft
  rw [if_neg hne]
  by_cases h : f.size ≤ (o + n) % 2 ^ 64
  · simp only [if_pos h]
  · simp only [if_neg h]

/-- Position `o` is inside the size of a file object, and the size in its blocks. -/
structure File.Reaches (f : File) (o : Nat) : Prop where
  offset : o ≤ f.size
  blocks : f.size ≤ 4096 * f.blocks
  listed : f.size ≤ 4096 * f.block.length

/-- What is left of the file and of the request, with nothing wrapped. -/
theorem File.Reaches.left (h : f.Reaches o) (hs : f.size ≤ 2 ^ 32) (hn : o + n < 2 ^ 64) :
    readLeft f.size o n = min n (f.size - o) ∧ min n (f.size - o) + readPadded f.size o n = n := by
  have ho := h.offset
  have hleft : readLeft f.size o n = min n (f.size - o) := by
    unfold readLeft
    split <;> omega
  refine ⟨hleft, ?_⟩
  unfold readPadded
  rw [hleft]
  split <;> omega

/-- **The copy loop of a read from inside the size** copies what is left. -/
theorem File.Reaches.read (h : f.Reaches o) (hs : f.size ≤ 2 ^ 32) (hn : o + n < 2 ^ 64) (buf : Bytes) (v : Volume) :
    ∃ out, readCopy f o n buf v = .ok (min n (f.size - o), 0, out) := by
  have hbs : blockSize = 4096 := rfl
  obtain ⟨ho, hb, hl⟩ := h
  unfold readCopy
  rw [(File.Reaches.left ⟨ho, hb, hl⟩ hs hn).1, hbs]
  obtain ⟨out, hout, -⟩ := readLoop_inside v f (min n (f.size - o)) (o / 4096 % 2 ^ 32) 0 (o % 4096)
    (min n (f.size - o)) buf (Nat.le_refl _) (Nat.mod_lt _ (by decide)) (by omega) (by omega)
  rw [hout, Nat.zero_add]
  exact ⟨out, rfl⟩

/-! ## The offsets -/

variable {d d' : Desc} {s t : State} {a p q now : Nat} {fildes ret : Int} {e : FdTable}

/-- A node that was not opened with `O_WRONLY` points at slot `q`. -/
def Desc.Reads (d : Desc) (q : Nat) : Prop := ∃ b e, d.fds b = some e ∧ e.ptr = some q ∧ e.flags ≠ some oWronly

/-- The node that the search finds. -/
theorem findTarget_node {b : Nat} (h : d.findTarget fildes = .ok (some (b, e))) : d.fds b = some e := by
  obtain ⟨cs, hr, h⟩ := bind_eq_ok.mp h
  have hm := List.mem_of_find?_eq_some (Except.ok.inj h)
  unfold Desc.reachable at hr
  split at hr
  case h_1 =>
    cases hr
    cases hm
  case h_2 => cases hr
  case h_3 => exact (HeapChain.chain_of_walk hr).2 _ (List.mem_reverse.mp hm)

/-- `fildes` can be read: it is open on slot `p`, whose file object `f` is at `a`. -/
structure ReadOn (s : State) (fildes : Int) (p a : Nat) (f : File) : Prop where
  target : ∃ e, s.OpenOn fildes e p ∧ e.flags ≠ some oWronly
  filePtr : (s.desc.opFtable p).filePtr = some a
  file : s.desc.files a = some f

theorem ReadOn.reads (h : ReadOn s fildes p a f) : s.desc.Reads p := by
  obtain ⟨e, ⟨b, hfind, hp⟩, hfl⟩ := h.target
  exact ⟨b, e, findTarget_node hfind, hp, hfl⟩

/-- Nodes that have been linked in another way. -/
theorem Relinked.wasReads (h : Relinked d.fds d'.fds) (hq : d'.Reads q) : d.Reads q := by
  obtain ⟨b, e, hb, hp, hfl⟩ := hq
  obtain ⟨e₀, _, he₀, rfl⟩ := h b e hb
  exact ⟨b, e₀, he₀, hp, hfl⟩

/-- The offset of a slot is inside the size of its file object. -/
def Desc.Fits (d : Desc) (q : Nat) : Prop :=
  ∀ a f, (d.opFtable q).filePtr = some a → d.files a = some f → f.Reaches (d.opFtable q).offset

/-- The same slot, with no other file objects. -/
theorem Desc.Fits.of_same {r : Nat} (h : d.Fits r) (hs : (d.opFtable r).Same (d'.opFtable q))
    (hf : ∀ a f, d'.files a = some f → d.files a = some f) : d'.Fits q := by
  intro a f hfp hfile
  rw [hs.offset]
  rw [hs.filePtr] at hfp
  exact h a f hfp (hf a f hfile)

/-- **A call through slot `p`** leaves the offsets inside, if the new contents of the file object reach those of the
slots on it. -/
theorem fits_modFile {g : File} (hp : (d.opFtable p).filePtr = some a) (hfits : ∀ q, d.Reads q → d.Fits q)
    (hg : ∀ q, d.Reads q → (d.opFtable q).filePtr = some a → g.Reaches (if q = p then o else (d.opFtable q).offset))
    (hq : ((d.modFile a g).setOffset p o).Reads q) : ((d.modFile a g).setOffset p o).Fits q := by
  have hq' : d.Reads q := hq
  intro b f hfp hfile
  rw [setOffset_filePtr] at hfp
  have hoff : (((d.modFile a g).setOffset p o).opFtable q).offset = if q = p then o else (d.opFtable q).offset := by
    simp only [Desc.setOffset, Desc.modFile, update_apply]
    split <;> rfl
  rw [hoff]
  by_cases hb : b = a
  · subst hb
    obtain rfl : g = f := by simpa [Desc.setOffset, Desc.modFile] using hfile
    exact hg q hq' hfp
  · have hqp : q ≠ p := by
      rintro rfl
      exact hb (Option.some.inj (hfp.symm.trans hp))
    rw [if_neg hqp]
    have hold : d.files b = some f := by simpa [Desc.setOffset, Desc.modFile, hb] using hfile
    exact hfits q hq' b f hfp hold

/-! ## Slots and file objects in every state -/

theorem ReachedBy.paired {ok : Call → State → Prop} (h : ReachedBy ok s) : s.desc.Paired :=
  h.invariant (P := fun s => s.desc.Paired) (fun _ _ _ _ _ _ _ hp => by cases hp) fun _ _ _ hP _ hs => hP.step hs

/-! ## The condition -/

/-- The size in the file object `f` of slot `p` after a `vsfs_write`: with no more blocks in the inode than the end of
the write needs it is copied from the inode, which then has that many. -/
def State.sizeAfterWrite (s : State) (p : Nat) (nbyte : UInt64) (f : File) : Nat :=
  if (s.vol.inode (s.desc.opFtable p).inodeNr).blocks ≤ neededBlocks (s.desc.writeEnd p nbyte) then
    { s.vol.inode (s.desc.opFtable p).inodeNr with
      blocks := neededBlocks (s.desc.writeEnd p nbyte) : Inode }.fileSize
  else f.size

/-- The calls after which the slots that can be read have their offsets inside, if they had them before: a `vsfs_write`
leaves in the file object a size that reaches the offsets on it, its own end among them; a `vsfs_lseek` that grows the
file gives it the blocks of its new size; a `vsfs_close` moves no slot that does not fit under another descriptor; the
end of a `vsfs_read` is no wrapped sum. -/
def State.StaysInside : Call → State → Prop
  | .write fildes _ nbyte, s => ∀ e p a f q, s.OpenOn fildes e p → WriteAllowed s e p nbyte →
      (s.desc.opFtable p).filePtr = some a → s.desc.files a = some f → s.desc.Reads q →
      (s.desc.opFtable q).filePtr = some a →
      (if q = p then s.desc.writeEnd p nbyte else (s.desc.opFtable q).offset) ≤ s.sizeAfterWrite p nbyte f
  | .lseek fildes offset whence, s => ∀ e p a f q, s.OpenOn fildes e p → (s.desc.opFtable p).filePtr = some a →
      s.desc.files a = some f → SeekGrows f offset whence → s.desc.Reads q → (s.desc.opFtable q).filePtr = some a →
      neededBlocks offset.toNat ≤
        (s.vol.inode (s.desc.opFtable p).inodeNr).blocks + sub32 (neededBlocks offset.toNat) f.blocks
  | .close fildes, s => ∀ a e p b e', s.desc.fds a = some e → (e.index : Int) = fildes → e.ptr = some p → b ≠ a →
      s.desc.fds b = some e' → e'.ptr = some p → e'.flags ≠ some oWronly → s.desc.Fits (s.desc.count - 1)
  | .read fildes _ nbyte, s => ∀ p a f, ReadOn s fildes p a f → f.size ≠ (s.desc.opFtable p).offset →
      (s.desc.opFtable p).offset + nbyte.toNat < 2 ^ 64
  | _, _ => True

/-! ## Steps -/

/-- A file object that has just been filled, at a position inside the inode's size. -/
theorem info_reaches {i : Nat} (h : vsfsGetInodeInfo v i = .ok f) (ho : o ≤ (v.inode i).fileSize)
    (hin : (v.inode i).fileSize ≤ 4096 * (v.inode i).blocks) : f.Reaches o := by
  have hinfo := vsfsGetInodeInfo_spec h
  refine ⟨by rwa [hinfo.size], by rwa [hinfo.size, hinfo.blocks], ?_⟩
  rw [hinfo.block, hinfo.size]
  simpa [Volume.dataBlocks] using hin

theorem fits_open {pathname : CStr} {flags : Int} (hr : Reached s) (hfits : ∀ q, s.desc.Reads q → s.desc.Fits q)
    (ho : vsfsOpen now pathname flags s = .ok (ret, t)) (hq : t.desc.Reads q) : t.desc.Fits q := by
  obtain ⟨b, e, hb, hp, hfl⟩ := hq
  -- a slot of before keeps its file object
  have hkeep : (t.desc.opFtable q) = s.desc.opFtable q → WasNode s.desc.fds b e → t.desc.Fits q := by
    rintro hsame ⟨e₀, _, he₀, rfl⟩
    intro a f hfp hfile
    rw [hsame] at hfp ⊢
    rw [(vsfsOpen_files ho).2 a (Or.inl ((ReachedBy.paired hr) q a hfp).1)] at hfile
    exact hfits q ⟨b, e₀, he₀, hp, hfl⟩ a f hfp hfile
  have hnode := vsfsOpen_nodes ho hb
  obtain ⟨_, _, rfl⟩ | ⟨_, fd, _, d, hadd, ⟨hret, hu⟩ | ⟨target, info, _, hinfo, _, hret, hres⟩⟩ := vsfsOpen_cases ho
  · exact hfits q ⟨b, e, hb, hp, hfl⟩
  · rcases hnode with hwas | hnone | ⟨hne, -⟩
    · exact hkeep (by rw [hu.opFtable]) hwas
    · rw [hnone] at hp
      cases hp
    · exact absurd hret hne
  obtain ⟨hcount, hop, _⟩ := addFdTable_optab hadd
  dsimp only at hcount hop
  have hslot : t.desc.opFtable = update s.desc.opFtable s.desc.count ⟨0, target, 1, 0, some d.brk⟩ := by
    rw [hres]
    simp only [Desc.takeSlot, hop, hcount]
  by_cases hqc : q = s.desc.count
  · -- the slot that has been taken
    intro a f hfp hfile
    rw [hslot, hqc, update_self] at hfp ⊢
    cases hfp
    rw [hres] at hfile
    simp only [Desc.takeSlot, update_self, Option.some.injEq] at hfile
    rw [← hfile]
    exact info_reaches hinfo (Nat.zero_le _) ((ReachedBy.sized hr).fileSize (vsfsGetInodeInfo_spec hinfo).lt).1
  · rcases hnode with hwas | hnone | ⟨-, hnew⟩
    · exact hkeep (by rw [hslot, update_of_ne hqc]) hwas
    · rw [hnone] at hp
      cases hp
    · rw [hnew] at hp
      exact absurd (Option.some.inj hp).symm hqc

theorem fits_close (hfits : ∀ q, s.desc.Reads q → s.desc.Fits q) (hok : s.StaysInside (.close fildes))
    (hc : vsfsClose fildes s = .ok (ret, t)) (hq : t.desc.Reads q) : t.desc.Fits q := by
  have hfiles := close_files hc
  obtain ⟨hnodes, hslots⟩ := vsfsClose_nodes hc
  have hwas := hfits q (hnodes.wasReads hq)
  rcases hslots with hs | ⟨a, e, p, ha, hi, hp, hfree, hmoved, hs⟩
  · exact hwas.of_same (hs q) hfiles
  by_cases hqp : q = p
  · -- another node points at the slot that has been given up
    subst hqp
    obtain ⟨b, e', hb, hp', hfl⟩ := hq
    have hba : b ≠ a := by
      rintro rfl
      rw [hfree] at hb
      cases hb
    obtain ⟨e₀, _, he₀, rfl⟩ := hnodes b e' hb
    exact (hok a e q b e₀ ha hi hp hba he₀ hp' hfl).of_same hmoved hfiles
  · exact hwas.of_same (hs q hqp) hfiles

/-- The file object after a write, with the blocks that its size needs. -/
theorem Written.reaches {p : Nat} {nbyte : UInt64} {v₁ v₂ : Volume} {g : File} (hr : Reached s)
    (hw : Written now p buf nbyte s t a f v₁ v₂) (ha : WriteAllowed s e p nbyte) (hg : s.desc.files a = some g)
    (hold : g.size ≤ 4096 * g.blocks ∧ g.size ≤ 4096 * g.block.length) (ho : o ≤ s.sizeAfterWrite p nbyte g) :
    f.Reaches o := by
  obtain ⟨i, hi⟩ : ∃ i, (s.desc.opFtable p).inodeNr = i := ⟨_, rfl⟩
  unfold State.sizeAfterWrite at ho
  have halloc := hw.alloc
  rw [hi] at halloc ho
  rcases halloc with ⟨hle, ⟨r, hal⟩, -, hinfo⟩ | ⟨hlt, -, hf⟩
  · rw [if_pos hle] at ho
    have hframe := allocBlock_count hal
    have hb := hw.blocks ha.limit
    rw [hi, Nat.max_eq_right hle] at hb
    have hsize : (v₁.inode i).fileSize =
        { s.vol.inode i with blocks := neededBlocks (s.desc.writeEnd p nbyte) : Inode }.fileSize := by
      unfold Inode.fileSize
      rw [hframe.head.size, hb]
    refine info_reaches hinfo (ho.trans_eq hsize.symm) ?_
    have hx := ((ReachedBy.sized hr) i (hi ▸ ha.inode)).1
    unfold Inode.fileSize
    rw [hframe.head.size, hb]
    split <;> omega
  · rw [if_neg (Nat.not_le.mpr hlt)] at ho
    obtain rfl : g = f := Option.some.inj (hg.symm.trans hf)
    exact ⟨ho, hold.1, hold.2⟩

theorem fits_write {nbyte : UInt64} (hr : Reached s) (hfits : ∀ q, s.desc.Reads q → s.desc.Fits q)
    (hok : s.StaysInside (.write fildes buf nbyte)) (hw : vsfsWrite now fildes buf nbyte s = .ok (ret, t))
    (hq : t.desc.Reads q) : t.desc.Fits q := by
  obtain ⟨b, e, p, hfind, hp, ⟨_, rfl⟩ | ⟨ha, _, a, f, v₁, v₂, hw⟩⟩ := vsfsWrite_cases hw
  · exact hfits q hq
  obtain ⟨g, hg⟩ : ∃ g, s.desc.files a = some g := by
    rcases hw.alloc with ⟨_, _, hg, _⟩ | ⟨_, _, hf⟩
    · exact hg
    · exact ⟨f, hf⟩
  have hdesc : t.desc = (s.desc.modFile a { f with atime := now, mtime := now }).setOffset p
      (s.desc.writeEnd p nbyte) := congrArg State.desc hw.result
  rw [hdesc] at hq ⊢
  refine fits_modFile hw.filePtr hfits (fun r hread hfp => ?_) hq
  obtain ⟨_, hblocks, hlisted⟩ := hfits r hread a g hfp hg
  have hreach := hw.reaches hr ha hg ⟨hblocks, hlisted⟩ (hok e p a g r ⟨b, hfind, hp⟩ ha hw.filePtr hg hread hfp)
  exact ⟨hreach.offset, hreach.blocks, hreach.listed⟩

/-- What a read from inside the size leaves of the offset. -/
theorem ReadDone.offset {buf' : Bytes} {nbyte : UInt64} {readed : Nat} (hr : Reached s)
    (hd : ReadDone now p buf buf' nbyte ret s t a f readed) (hreach : f.Reaches (s.desc.opFtable p).offset)
    (hn : f.size ≠ (s.desc.opFtable p).offset → (s.desc.opFtable p).offset + nbyte.toNat < 2 ^ 64) :
    ((s.desc.opFtable p).offset + readed) % 2 ^ 64 ≤ f.size := by
  have hs := (ReachedBy.small hr).1.size a f hd.file
  have ho := hreach.offset
  have hdata := hd.data
  by_cases hend : f.size = (s.desc.opFtable p).offset
  · unfold readDblock at hdata
    rw [if_pos hend] at hdata
    cases hdata
    omega
  · have hreach' : File.Reaches { f with atime := now } (s.desc.opFtable p).offset :=
      ⟨ho, hreach.blocks, hreach.listed⟩
    obtain ⟨out, hout⟩ := hreach'.read hs (hn hend) buf
      (s.vol.modInode (s.desc.opFtable p).inodeNr fun x => { x with atime := now })
    have hend' : File.size { f with atime := now } ≠ (s.desc.opFtable p).offset := hend
    rw [readDblock_copy hend', hout] at hdata
    cases hdata
    dsimp only
    omega

/-- A descriptor that was opened with `O_WRONLY` is not read. -/
theorem vsfsRead_writeOnly {buf' : Bytes} {nbyte : UInt64} {b : Nat} (hfind : s.desc.findTarget fildes = .ok (some (b, e)))
    (hfl : e.flags = some oWronly) (h : vsfsRead now fildes buf nbyte s = .ok (ret, buf', t)) : t = s := by
  unfold vsfsRead at h
  split at h
  case isTrue =>
    cases h
    rfl
  case isFalse =>
    rw [hfind, ok_bind] at h
    dsimp only at h
    rw [accessMode_eq_ok.mpr hfl, ok_bind, if_pos rfl] at h
    cases h
    rfl

theorem fits_read {buf' : Bytes} {nbyte : UInt64} (hr : Reached s) (hfits : ∀ q, s.desc.Reads q → s.desc.Fits q)
    (hok : s.StaysInside (.read fildes buf nbyte)) (hrd : vsfsRead now fildes buf nbyte s = .ok (ret, buf', t))
    (hq : t.desc.Reads q) : t.desc.Fits q := by
  obtain ⟨_, rfl, _⟩ | ⟨b, e, p, a, f, readed, hfind, hp, -, hd⟩ := vsfsRead_cases hrd
  · exact hfits q hq
  by_cases hwo : e.flags = some oWronly
  · rw [vsfsRead_writeOnly hfind hwo hrd] at hq ⊢
    exact hfits q hq
  have hdesc : t.desc = (s.desc.modFile a { f with atime := now }).setOffset p
      (((s.desc.opFtable p).offset + readed) % 2 ^ 64) := congrArg State.desc hd.result
  rw [hdesc] at hq ⊢
  refine fits_modFile hd.filePtr hfits (fun r hread hfp => ?_) hq
  have hreach := hfits r hread a f hfp hd.file
  refine ⟨?_, hreach.blocks, hreach.listed⟩
  split
  case isTrue hrp =>
    subst hrp
    have hle := hd.offset hr hreach (hok r a f ⟨⟨e, ⟨b, hfind, hp⟩, hwo⟩, hfp, hd.file⟩)
    exact hle
  case isFalse => exact hreach.offset

theorem fits_seek {offset : UInt64} {whence : Int} {r : Nat} (hr : Reached s)
    (hfits : ∀ q, s.desc.Reads q → s.desc.Fits q) (hok : s.StaysInside (.lseek fildes offset whence))
    (hl : vsfsLseek fildes offset whence s = .ok (r, t)) (hq : t.desc.Reads q) : t.desc.Fits q := by
  have hlim : level3Limit = 1053745 := rfl
  obtain ⟨_, hres, _⟩ | ⟨b, e, p, a, f, s', hs', hfind, hp, hfp, hfile, hcase⟩ := vsfsLseek_cases hl
  · rw [hres] at hq ⊢
    exact hfits q hq
  rcases hcase with ⟨o, hres, ho⟩ | ⟨hset, _, info, v, hg⟩
  · -- the offset is moved to a position inside the size
    have hle : o ≤ f.size := by
      rcases ho with ⟨_, _, _, hle, _⟩ | ⟨_, ho, _⟩ | ⟨_, _, _, hle⟩
      · exact hle
      · rw [ho]
        split <;> omega
      · exact hle
    have hdesc : t.desc = (s.desc.modFile a f).setOffset p o := by
      rw [modFile_self hfile, hres]
    rw [hdesc] at hq ⊢
    refine fits_modFile hfp hfits (fun r hread hfp' => ?_) hq
    have hreach := hfits r hread a f hfp' hfile
    refine ⟨?_, hreach.blocks, hreach.listed⟩
    split
    case isTrue => exact hle
    case isFalse => exact hreach.offset
  · obtain ⟨reg, rfl⟩ : ∃ reg, s' = { s with inodeReg := reg } := ⟨_, (setInodeReg_eq_ok hs').1⟩
    have hdesc := congrArg State.desc hg.result
    dsimp only at hdesc
    rw [hdesc] at hq ⊢
    refine fits_modFile hfp hfits (fun r hread hfp' => ?_) hq
    have hgrows : SeekGrows f offset whence := ⟨hset, hg.limit, hg.beyond⟩
    have hneed := hok e p a f r ⟨b, hfind, hp⟩ hfp hfile hgrows hread hfp'
    have hreach := hfits r hread a f hfp' hfile
    have hinfo := vsfsGetInodeInfo_spec hg.copy
    have hb := ((ReachedBy.small hr).2 (s.desc.opFtable p).inodeNr).blocks
    obtain ⟨hblocks, hmax⟩ := SeekGrown.blocks (s := { s with inodeReg := reg }) hb hg
    have hn := neededBlocks_eq hg.limit
    have hlimit := hg.limit
    have hbeyond := hg.beyond
    dsimp only at hblocks hmax
    refine ⟨?_, ?_, ?_⟩
    · dsimp only
      split
      · exact Nat.le_refl _
      · exact hreach.offset.trans hg.beyond.le
    · dsimp only
      rw [hinfo.blocks, hblocks]
      omega
    · dsimp only
      rw [hinfo.block, hblocks]
      simp only [Volume.dataBlocks, List.length_map, List.length_range]
      omega

/-- **A call that meets the condition** leaves the offsets inside. -/
theorem Step.inside {c : Call} (hr : Reached s) (hfits : ∀ q, s.desc.Reads q → s.desc.Fits q) (hok : s.StaysInside c)
    (hs : Step c s t) (hq : t.desc.Reads q) : t.desc.Fits q := by
  obtain ⟨now, ret, -, hrun⟩ := hs
  cases c with
  | creat name blockNum =>
    rw [vsfsCreat_desc hrun] at hq ⊢
    exact hfits q hq
  | «open» pathname flags => exact fits_open hr hfits hrun hq
  | stat pathname =>
    obtain ⟨⟨r, fre, u⟩, hst, hrun⟩ := bind_eq_ok.mp hrun
    cases hrun
    rw [vsfsStat_desc hst] at hq ⊢
    exact hfits q hq
  | close fildes => exact fits_close hfits hok hrun hq
  | write fildes buf nbyte => exact fits_write hr hfits hok hrun hq
  | read fildes buf nbyte =>
    obtain ⟨⟨r, b, u⟩, hrd, hrun⟩ := bind_eq_ok.mp hrun
    cases hrun
    exact fits_read hr hfits hok hrd hq
  | lseek fildes offset whence =>
    obtain ⟨⟨r, u⟩, hl, hrun⟩ := bind_eq_ok.mp hrun
    cases hrun
    exact fits_seek hr hfits hok hl hq

/-- **The offsets in every state** of a run of such calls. -/
theorem ReachedBy.inside (h : ReachedBy State.StaysInside s) (hq : s.desc.Reads q) : s.desc.Fits q := by
  have hall : Reached s ∧ ∀ q, s.desc.Reads q → s.desc.Fits q :=
    h.invariant (P := fun s => Reached s ∧ ∀ q, s.desc.Reads q → s.desc.Fits q)
      (fun n disk seg hl hu => ⟨⟨n, hl, hu, disk, seg, GuardedRun.Run.refl _⟩, fun _ ⟨_, _, hb, _⟩ => by cases hb⟩)
      fun c u v hP hok hs => ⟨hP.1.step trivial hs, fun q hq => hs.inside hP.1 hP.2 hok hq⟩
  exact hall.2 q hq

/-! ## Reads -/

/-- The reads of `nbyte` bytes through `fildes`: one that is not at the end of the file starts its copy loop with no more
than the request and ends it, with the rest of the request padded; and a read leaves the offset inside the size. -/
structure ReadsWithin (s : State) (fildes : Int) (nbyte : UInt64) : Prop where
  left : ∀ p a f, ReadOn s fildes p a f → f.size ≠ (s.desc.opFtable p).offset →
    readLeft f.size (s.desc.opFtable p).offset nbyte.toNat ≤ nbyte.toNat
  copy : ∀ p a f now buf, ReadOn s fildes p a f → f.size ≠ (s.desc.opFtable p).offset → ∃ readed out,
    readCopy { f with atime := now } (s.desc.opFtable p).offset nbyte.toNat buf
      (s.vol.modInode (s.desc.opFtable p).inodeNr fun x => { x with atime := now }) = .ok (readed, 0, out) ∧
    readed + readPadded f.size (s.desc.opFtable p).offset nbyte.toNat = nbyte.toNat
  offset : ∀ p a f now buf ret out t, ReadOn s fildes p a f → vsfsRead now fildes buf nbyte s = .ok (ret, out, t) →
    (t.desc.opFtable p).offset ≤ f.size

/-- **The reads of the SPDK variant** in a state of such a run. -/
theorem readsWithin {nbyte : UInt64} (h : ReachedBy State.StaysInside s)
    (hok : s.StaysInside (.read fildes buf nbyte)) : ReadsWithin s fildes nbyte := by
  have hr : Reached s := h.mono fun _ _ _ => trivial
  have hsize := (ReachedBy.small hr).1.size
  refine ⟨fun p a f hon hne => ?_, fun p a f now buf hon hne => ?_, fun p a f now buf ret out t hon hrd => ?_⟩
  · have hreach := h.inside hon.reads a f hon.filePtr hon.file
    rw [(hreach.left (hsize a f hon.file) (hok p a f hon hne)).1]
    exact Nat.min_le_left ..
  · have hreach := h.inside hon.reads a f hon.filePtr hon.file
    have hreach' : File.Reaches { f with atime := now } (s.desc.opFtable p).offset :=
      ⟨hreach.offset, hreach.blocks, hreach.listed⟩
    obtain ⟨out, hout⟩ := hreach'.read (hsize a f hon.file) (hok p a f hon hne) buf
      (s.vol.modInode (s.desc.opFtable p).inodeNr fun x => { x with atime := now })
    exact ⟨_, out, hout, (hreach.left (hsize a f hon.file) (hok p a f hon hne)).2⟩
  · have hreach := h.inside hon.reads a f hon.filePtr hon.file
    obtain ⟨_, rfl, _⟩ | ⟨b, e, p', a', f', readed, hfind, hp, -, hd⟩ := vsfsRead_cases hrd
    · exact hreach.offset
    -- the search finds one descriptor
    obtain ⟨e', ⟨b', hfind', hp'⟩, hfl⟩ := hon.target
    rw [hfind', Except.ok.injEq, Option.some.injEq, Prod.mk.injEq] at hfind
    obtain ⟨rfl, rfl⟩ := hfind
    obtain rfl : p' = p := Option.some.inj (hp.symm.trans hp')
    obtain rfl : a' = a := Option.some.inj (hd.filePtr.symm.trans hon.filePtr)
    obtain rfl : f' = f := Option.some.inj (hd.file.symm.trans hon.file)
    rw [hd.result]
    dsimp only
    rw [setOffset_offset]
    exact hd.offset hr hreach (hok _ _ _ hon)

end Vsfs
