import Vsfs.Descriptors.Nodes
import Vsfs.Volume.CreatFrame
import Vsfs.Volume.Listed

/-!
# The root directory between two calls of `vsfs_creat`

`size` and `entry` are one field of the inode, and `.` and `..` are slots that resolve to inode 0, so the root directory
can be opened, written and grown like a file.

- `write_disk`: the blocks that an allowed `vsfs_write` changes;
- `RootInv.step`: no file object but those of the root lists a block of the directory;
- `RootInv.kept`: a call through a descriptor on another inode keeps the directory;
- `root_is_kept`: the same for every run between two calls of `vsfs_creat`.
-/

set_option autoImplicit false

namespace Vsfs

open Function ByteSeq GuardedRun WordBits

variable {B n : Nat} {sb : SbInfo} {s t u : State} {v w x : Volume} {c : Call}

/-! ## What is kept -/

/-- Byte `k` of slot `i` of the root directory. -/
def Volume.slotByte (v : Volume) (i k : Nat) : UInt8 :=
  v.disk (v.lba ((v.inode 0).l1 (i / 16))) (256 * (i % 16) + k)

/-- The root inode's entry count, its block count, its table `l1`, and the slots in use. -/
structure RootKept (v w : Volume) : Prop where
  entry : (w.inode 0).entry = (v.inode 0).entry
  blocks : (w.inode 0).blocks = (v.inode 0).blocks
  l1 : (w.inode 0).l1 = (v.inode 0).l1
  slots : ∀ i, i < (v.inode 0).entry → ∀ k, k < 256 → w.slotByte i k = v.slotByte i k

theorem RootKept.refl (v : Volume) : RootKept v v := ⟨rfl, rfl, rfl, fun _ _ _ _ => rfl⟩

theorem RootKept.trans (h : RootKept v x) (h' : RootKept x w) : RootKept v w :=
  ⟨h'.entry.trans h.entry, h'.blocks.trans h.blocks, h'.l1.trans h.l1, fun i hi k hk =>
    (h'.slots i (by rw [h.entry]; exact hi) k hk).trans (h.slots i hi k hk)⟩

/-- The names that `vsfs_open` finds, and the inodes it finds with them. -/
theorem RootKept.lookup_eq (h : RootKept v w) {pathname : CStr} (hp : pathname.strlen < filenameLen) :
    lookup w pathname (w.inode 0).entry 0 = lookup v pathname (v.inode 0).entry 0 := by
  rw [h.entry]
  suffices hs : ∀ m i, i + m ≤ (v.inode 0).entry → lookup w pathname m i = lookup v pathname m i by
    exact hs _ 0 (by omega)
  intro m
  induction m with
  | zero => exact fun _ _ => rfl
  | succ m ih =>
    intro i hi
    have hl1 : (w.inode 0).l1At (i / 16) = (v.inode 0).l1At (i / 16) := by
      unfold Inode.l1At
      rw [h.l1]
    unfold lookup
    rw [hl1]
    unfold Inode.l1At level1Limit
    split
    case isFalse => rfl
    case isTrue hlt =>
      simp only [ExceptLib.ok_bind]
      obtain ⟨j, hj⟩ : ∃ j, j = (i + (2 ^ 32 - 16 * (v.inode 0).l1 (i / 16) % 2 ^ 32)) % 2 ^ 32 := ⟨_, rfl⟩
      rw [← hj]
      split
      case isTrue => rfl
      case isFalse hj16 =>
        -- the slot that is looked at is slot `i % 16` of the block, so it has not changed
        unfold filesPerBlock at hj16
        have hj' : j = i % 16 := by omega
        have hbyte : ∀ k, k < 256 → w.disk (w.lba ((v.inode 0).l1 (i / 16))) (256 * j + k) =
            v.disk (v.lba ((v.inode 0).l1 (i / 16))) (256 * j + k) := fun k hk => by
          have hs := h.slots i (by omega) k hk
          unfold Volume.slotByte at hs
          rw [h.l1] at hs
          rw [hj']
          exact hs
        unfold filenameLen CStr.strlen at hp
        have hname : slotNamed (w.disk (w.lba ((v.inode 0).l1 (i / 16)))) j pathname =
            slotNamed (v.disk (v.lba ((v.inode 0).l1 (i / 16)))) j pathname :=
          strAt_congr fun k hk => by
            rw [Nat.add_assoc]
            exact hbyte (2 + k) (by omega)
        have hino : slotInode (w.disk (w.lba ((v.inode 0).l1 (i / 16)))) j =
            slotInode (v.disk (v.lba ((v.inode 0).l1 (i / 16)))) j :=
          u16_congr fun k hk => hbyte k (by omega)
        rw [hname, hino, ih (i + 1) (by omega)]

/-- A change that keeps the root inode and the blocks of its directory. -/
theorem RootKept.of_blocks (he : (v.inode 0).entry ≤ 16 * (v.inode 0).blocks) (hr : (w.inode 0).entry = (v.inode 0).entry)
    (hb : (w.inode 0).blocks = (v.inode 0).blocks) (hl : (w.inode 0).l1 = (v.inode 0).l1) (hlba : w.lba = v.lba)
    (hd : ∀ k, k < (v.inode 0).blocks → w.disk (v.lba ((v.inode 0).l1 k)) = v.disk (v.lba ((v.inode 0).l1 k))) :
    RootKept v w := by
  refine ⟨hr, hb, hl, fun i hi k _ => ?_⟩
  unfold Volume.slotByte
  rw [hl, hlba, hd (i / 16) (by omega)]

/-! ## The blocks that a write changes -/

/-- **An allowed `vsfs_write`** changes pointer blocks of its inode and blocks that the file object lists. -/
theorem write_disk {now p a : Nat} {buf : Bytes} {nbyte : UInt64} {e : FdTable} {f : File} {v₁ v₂ : Volume}
    (h : s.vol.Sound B) (hf : s.FilesWritable B) (ha : WriteAllowed s e p nbyte) (hroom : WriteRoom B s p nbyte)
    (hw : Written now p buf nbyte s t a f v₁ v₂) {l : Nat} (hl : t.vol.disk l ≠ s.vol.disk l) :
    (∃ r, ((s.desc.opFtable p).inodeNr, r) ∈ v₁.used ∧ ¬r.IsData ∧
      l = s.vol.lba (v₁.val ((s.desc.opFtable p).inodeNr, r))) ∨ ∃ b, b ∈ f.block ∧ l = s.vol.lba b := by
  have hlim : level3Limit = 1053745 := rfl
  have hneed := neededBlocks_le ha.limit
  have hev := write_steps (E := ∅) h hf ha hroom hw
  have hlba : ∀ b, v₁.lba b = s.vol.lba b := fun b => lba_congr hev.before.ofsDregion rfl
  have halloc : (∀ b, b ∈ f.block → v₁.Writable B b) ∧ (v₁.disk l ≠ s.vol.disk l →
      ∃ r, ((s.desc.opFtable p).inodeNr, r) ∈ v₁.used ∧ ¬r.IsData ∧
        l = s.vol.lba (v₁.val ((s.desc.opFtable p).inodeNr, r))) := by
    rcases hw.alloc with ⟨hle, ⟨r, hr⟩, _, hinfo⟩ | ⟨_, rfl, hfile⟩
    · refine ⟨fun b hb => ?_, (alloc_evolves (E := ∅) h ha.inode (by omega) (hroom hle) hr).2.2 l⟩
      have hc := vsfsGetInodeInfo_spec hinfo
      rw [hc.block] at hb
      obtain ⟨k, hk, rfl⟩ := mem_dataBlocks.mp hb
      obtain ⟨hvalid, hdata, hfirst⟩ := dataRef_spec (k := k) (by have := hc.limit; omega)
      exact hev.before.sound.writable ⟨hc.lt, hvalid, by rw [hfirst]; exact hk⟩ hdata
    · exact ⟨fun b hb => hf a f hfile b hb, fun hne => absurd rfl hne⟩
  have h₂ : Evolves B ∅ v₁ (v₁.modInode (s.desc.opFtable p).inodeNr fun x => { x with atime := now, mtime := now }) :=
    modInode_evolves hev.before.sound ⟨rfl, rfl, rfl⟩ (Or.inl rfl)
  obtain ⟨_, _, hd⟩ := writeLoop_evolves (E := ∅) h₂.sound (fun b hb => h₂.writable (halloc.1 b hb)) hw.data
  have hvol : t.vol.disk = v₂.disk := by rw [hw.result]; rfl
  by_cases hv : v₁.disk l = s.vol.disk l
  · obtain ⟨b, hb, he⟩ := hd l (by
      rw [modInode_disk, hv, ← hvol]
      exact hl)
    exact Or.inr ⟨b, hb, he.trans (hlba b)⟩
  · exact Or.inl (halloc.2 hv)

/-! ## File objects and slots -/

/-- The file object of a slot is that of the slot's inode. -/
def Desc.Paired (d : Desc) : Prop := ∀ p a, (d.opFtable p).filePtr = some a → a < d.brk ∧
  ∀ f, d.files a = some f → f.inode = (d.opFtable p).inodeNr

theorem Desc.Paired.modFile {d : Desc} {p a o : Nat} {f : File} (h : d.Paired) (hp : (d.opFtable p).filePtr = some a)
    {g : File} (hg : d.files a = some g) (hf : f.inode = (d.opFtable p).inodeNr) :
    ((d.modFile a f).setOffset p o).Paired := by
  intro q b hb
  have hslot : (((d.modFile a f).setOffset p o).opFtable q).filePtr = (d.opFtable q).filePtr ∧
      (((d.modFile a f).setOffset p o).opFtable q).inodeNr = (d.opFtable q).inodeNr := by
    simp only [Desc.setOffset, Desc.modFile, update_apply]
    split
    case isTrue hqp => rw [hqp]; exact ⟨rfl, rfl⟩
    case isFalse => exact ⟨rfl, rfl⟩
  rw [hslot.1] at hb
  rw [hslot.2]
  obtain ⟨hlt, hpair⟩ := h q b hb
  refine ⟨hlt, fun f' hf' => ?_⟩
  simp only [Desc.setOffset, Desc.modFile, update_apply] at hf'
  split at hf'
  case isTrue hba =>
    subst hba
    cases hf'
    rw [hf, ← (h p b hp).2 g hg, hpair g hg]
  case isFalse => exact hpair f' hf'

theorem Desc.Paired.setOffset {d : Desc} {p o : Nat} (h : d.Paired) : (d.setOffset p o).Paired := by
  intro q b hb
  have hslot : ((d.setOffset p o).opFtable q).filePtr = (d.opFtable q).filePtr ∧
      ((d.setOffset p o).opFtable q).inodeNr = (d.opFtable q).inodeNr := by
    simp only [Desc.setOffset, update_apply]
    split
    case isTrue hqp => rw [hqp]; exact ⟨rfl, rfl⟩
    case isFalse => exact ⟨rfl, rfl⟩
  rw [hslot.1] at hb
  rw [hslot.2]
  exact h q b hb

/-- Giving up a slot moves slots as a whole. -/
theorem dropSlot_pairs (d : Desc) (p q : Nat) : ∃ r, ((d.dropSlot p).2.opFtable q).filePtr = (d.opFtable r).filePtr ∧
    ((d.dropSlot p).2.opFtable q).inodeNr = (d.opFtable r).inodeNr := by
  rcases dropSlot_slot d p q with hs | ⟨-, -, hs⟩
  · exact ⟨q, hs.filePtr, hs.inodeNr⟩
  · exact ⟨d.count - 1, hs.filePtr, hs.inodeNr⟩

theorem Desc.Paired.open {now : Nat} {pathname : CStr} {flags ret : Int} (h : s.desc.Paired)
    (ho : vsfsOpen now pathname flags s = .ok (ret, t)) : t.desc.Paired := by
  obtain ⟨hbrk, hold⟩ := vsfsOpen_files ho
  have hkeep : ∀ p a, (s.desc.opFtable p).filePtr = some a → a < t.desc.brk ∧
      ∀ f, t.desc.files a = some f → f.inode = (s.desc.opFtable p).inodeNr := fun p a ha => by
    obtain ⟨hlt, hpair⟩ := h p a ha
    exact ⟨by omega, fun f hf => hpair f (by rw [← hold a (Or.inl hlt)]; exact hf)⟩
  obtain ⟨_, _, rfl⟩ | ⟨_, fd, a, d, hadd, ⟨_, hu⟩ | ⟨target, info, _, hinfo, _, _, hres⟩⟩ := vsfsOpen_cases ho
  · exact h
  · intro p a ha
    rw [hu.opFtable] at ha ⊢
    exact hkeep p a ha
  obtain ⟨hcount, hop, _⟩ := addFdTable_optab hadd
  dsimp only at hcount hop
  have hdesc : t.desc = Desc.takeSlot { d with brk := d.brk + 1, files := update d.files d.brk (some info) } a target
      (some d.brk) flags := by rw [hres]
  have hslot : t.desc.opFtable = update s.desc.opFtable s.desc.count ⟨0, target, 1, 0, some d.brk⟩ := by
    rw [hdesc]
    simp only [Desc.takeSlot, hop, hcount]
  intro p b hb
  rw [hslot, update_apply] at hb ⊢
  split at hb
  case isTrue hp =>
    rw [if_pos hp]
    cases hb
    refine ⟨by rw [hdesc]; exact Nat.lt_succ_self _, fun f hf => ?_⟩
    rw [hdesc] at hf
    simp only [Desc.takeSlot, update_self, Option.some.injEq] at hf
    rw [← hf]
    exact (vsfsGetInodeInfo_spec hinfo).inode
  case isFalse hp =>
    rw [if_neg hp]
    exact hkeep p b hb

/-- The slots after `vsfs_close` are those from before, and one may have been moved. -/
theorem vsfsClose_pairs {fildes ret : Int} (hc : vsfsClose fildes s = .ok (ret, t)) : t.desc.brk = s.desc.brk ∧
    ∀ q, ∃ r, (t.desc.opFtable q).filePtr = (s.desc.opFtable r).filePtr ∧
      (t.desc.opFtable q).inodeNr = (s.desc.opFtable r).inodeNr := by
  obtain ⟨_, _, _, rfl⟩ | ⟨hd, tl, rm, d, hsr, hu, hcase⟩ := vsfsClose_cases hc
  · exact ⟨rfl, fun q => ⟨q, rfl, rfl⟩⟩
  obtain ⟨-, hst, -⟩ := unlink_nodes hu
  have hdrop : ∀ p q, ∃ r, (((d.freeFile p).dropSlot p).2.opFtable q).filePtr = (s.desc.opFtable r).filePtr ∧
      (((d.freeFile p).dropSlot p).2.opFtable q).inodeNr = (s.desc.opFtable r).inodeNr := fun p q => by
    rw [← hst.opFtable, ← freeFile_opFtable d p]
    exact dropSlot_pairs (d.freeFile p) p q
  have hbrk : ∀ p, ((d.freeFile p).dropSlot p).2.brk = s.desc.brk := fun p => by
    rw [(dropSlot_sameList _ p).brk, (freeFile_sameList d p).brk, hst.brk]
  obtain ⟨_, _, rfl⟩ | ⟨a, e, p, f, rfl, _, _, _, ⟨_, _, rfl⟩ | ⟨_, _, rfl⟩⟩ := hcase
  · exact ⟨hst.brk, fun q => ⟨q, by rw [hst.opFtable], by rw [hst.opFtable]⟩⟩
  · exact ⟨hbrk p, hdrop p⟩
  · obtain ⟨next, htab⟩ := unlink_fdTable hu hsr.fdTable
    have htab' : ((d.freeFile p).dropSlot p).2.fdTable = .table next tl := by
      rw [(dropSlot_sameList _ p).fdTable, (freeFile_sameList d p).fdTable, htab]
    obtain ⟨_, hb, _, hop, _, _⟩ := closeLast_desc (s := { s with
      inodeReg := none, desc := ((d.freeFile p).dropSlot p).2 }) htab' a
    dsimp only at hb hop
    rw [hb, hop]
    exact ⟨hbrk p, hdrop p⟩

theorem Desc.Paired.close {fildes ret : Int} (h : s.desc.Paired) (hc : vsfsClose fildes s = .ok (ret, t)) :
    t.desc.Paired := by
  have hfiles := close_files hc
  obtain ⟨hbrk, hslots⟩ := vsfsClose_pairs hc
  intro q a ha
  obtain ⟨r, hr1, hr2⟩ := hslots q
  rw [hr1] at ha
  rw [hr2, hbrk]
  obtain ⟨hlt, hpair⟩ := h r a ha
  exact ⟨hlt, fun f hf => hpair f (hfiles a f hf)⟩

/-- **Every call** keeps the file object of a slot that of the slot's inode. -/
theorem Desc.Paired.step {c : Call} (h : s.desc.Paired) (hs : Step c s t) : t.desc.Paired := by
  obtain ⟨now, ret, -, hr⟩ := hs
  cases c with
  | creat name blockNum => exact (vsfsCreat_desc hr).symm ▸ h
  | «open» pathname flags => exact h.open hr
  | stat pathname =>
    obtain ⟨⟨r, fre, u⟩, hst, hr⟩ := ExceptLib.bind_eq_ok.mp hr
    cases hr
    exact (vsfsStat_desc hst).symm ▸ h
  | close fildes => exact h.close hr
  | write fildes buf nbyte =>
    obtain ⟨_, _, p, _, _, ⟨_, rfl⟩ | ⟨_, _, a, f, v₁, v₂, hw⟩⟩ := vsfsWrite_cases hr
    · exact h
    rw [hw.result]
    rcases hw.alloc with ⟨_, _, ⟨g, hg⟩, hinfo⟩ | ⟨_, _, hf⟩
    · exact h.modFile hw.filePtr hg (vsfsGetInodeInfo_spec hinfo).inode
    · exact h.modFile hw.filePtr hf ((h p a hw.filePtr).2 f hf)
  | read fildes buf nbyte =>
    obtain ⟨⟨r, b, u⟩, hrd, hr⟩ := ExceptLib.bind_eq_ok.mp hr
    cases hr
    obtain ⟨_, rfl, _⟩ | ⟨_, _, p, a, f, readed, _, _, _, hd⟩ := vsfsRead_cases hrd
    · exact h
    rw [hd.result]
    exact h.modFile hd.filePtr hd.file ((h p a hd.filePtr).2 f hd.file)
  | lseek fildes offset whence =>
    obtain ⟨⟨r, u⟩, hl, hr⟩ := ExceptLib.bind_eq_ok.mp hr
    cases hr
    obtain ⟨_, hres, _⟩ | ⟨b, e, p, a, f, s', hs', _, _, hfp, hfile, ⟨o, hres, _⟩ | ⟨_, _, info, v, hg⟩⟩ :=
      vsfsLseek_cases hl
    · rw [hres]
      exact h
    · rw [hres]
      exact h.setOffset
    · have hinfo := (vsfsGetInodeInfo_spec hg.copy).inode
      rw [hg.result, (setInodeReg_eq_ok hs').1]
      rw [(setInodeReg_eq_ok hs').1] at hinfo
      exact h.modFile hfp hfile hinfo

/-! ## The condition and the invariant -/

/-- The calls that allocate find what they need; no `vsfs_write` that passes its checks is made through a descriptor on
inode 0, and no seek that grows a file by a number of blocks other than 0. -/
def RootCallOk (B : Nat) (c : Call) (s : State) : Prop :=
  AllocOk B c s ∧
  (∀ fildes buf nbyte e p, c = .write fildes buf nbyte → s.OpenOn fildes e p → WriteAllowed s e p nbyte →
    (s.desc.opFtable p).inodeNr ≠ 0) ∧
  ∀ fildes offset whence e p a f, c = .lseek fildes offset whence → s.OpenOn fildes e p →
    (s.desc.opFtable p).filePtr = some a → s.desc.files a = some f → SeekGrows f offset whence →
      (s.desc.opFtable p).inodeNr = 0 → neededBlocks offset.toNat = f.blocks

/-- A list of blocks without blocks of the directory. -/
def Volume.OffRoot (v : Volume) (bs : List Nat) : Prop :=
  ∀ b, b ∈ bs → ∀ k, k < (v.inode 0).blocks → (v.inode 0).l1 k ≠ b

/-- The entries of the directory are in its blocks, and the file objects of other inodes do not list these. -/
structure RootInv (B : Nat) (sb : SbInfo) (s : State) : Prop where
  steady : Steady B sb s
  listed : s.desc.Listed
  paired : s.desc.Paired
  entry : (s.vol.inode 0).entry ≤ 16 * (s.vol.inode 0).blocks
  blocks : (s.vol.inode 0).blocks ≤ 49
  files : ∀ a f, s.desc.files a = some f → f.inode ≠ 0 → s.vol.OffRoot f.block

/-- The copy of another inode does not list the directory's blocks. -/
theorem info_offRoot {i : Nat} {f : File} (hs : v.Sound B) (hb : (v.inode 0).blocks ≤ 49)
    (hf : vsfsGetInodeInfo v i = .ok f) (hi : f.inode ≠ 0) : v.OffRoot f.block := by
  intro b hbm k hk he
  have hc := vsfsGetInodeInfo_spec hf
  rw [hc.block] at hbm
  obtain ⟨m, hm, rfl⟩ := mem_dataBlocks.mp hbm
  obtain ⟨hvalid, hdata, hfirst⟩ := dataRef_spec (k := m) (by have := hc.limit; unfold level3Limit; omega)
  have hmem : (i, dataRef m) ∈ v.used := ⟨hc.lt, hvalid, by rw [hfirst]; exact hm⟩
  have heq := hs.owns.owned.inj _ _ (directory_used hb hk) hmem he
  exact hi (by rw [hc.inode]; exact (congrArg Prod.fst heq).symm)

/-- A call that keeps the directory keeps the invariant. -/
theorem RootInv.of_kept (h : RootInv B sb s) (ht : Steady B sb t) (hl : t.desc.Listed) (hp : t.desc.Paired)
    (hk : RootKept s.vol t.vol)
    (hf : ∀ a f, t.desc.files a = some f → f.inode ≠ 0 → s.vol.OffRoot f.block) : RootInv B sb t := by
  refine ⟨ht, hl, hp, by rw [hk.entry, hk.blocks]; exact h.entry, by rw [hk.blocks]; exact h.blocks, fun a f ha hi => ?_⟩
  unfold Volume.OffRoot
  rw [hk.blocks, hk.l1]
  exact hf a f ha hi

/-- Time stamps. -/
theorem Touched.rootKept (h : Touched v w) : RootKept v w := by
  have hlba : w.lba = v.lba := funext fun _ => lba_congr (by rw [h.sbi]) rfl
  refine ⟨h.size 0, h.blocks 0, (h.map 0).1, fun i _ k _ => ?_⟩
  unfold Volume.slotByte
  rw [(h.map 0).1, hlba, h.disk]

/-! ## Steps -/

/-- A block of the directory is no pointer block of an inode. -/
theorem RootInv.not_pointer {k i : Nat} {r : Ref} (h : RootInv B sb s) (he : Evolves B ∅ s.vol w)
    (hk : k < (s.vol.inode 0).blocks) (hr : (i, r) ∈ w.used) (hd : ¬r.IsData) :
    s.vol.lba ((s.vol.inode 0).l1 k) ≠ s.vol.lba (w.val (i, r)) := by
  intro heq
  obtain ⟨hmem, hval⟩ := he.keep _ (directory_used h.blocks hk) (Set.notMem_empty _)
  have hown := he.sound.owns.owned
  have hval' : w.val (0, .l1 k) = (s.vol.inode 0).l1 k := hval
  have hlt := hown.lt _ hmem
  rw [hval'] at hlt
  have hb := lba_inj h.steady.sound.owns.addr hlt (hown.lt _ hr) heq
  have hp := hown.inj _ _ hmem hr (hval'.trans hb)
  obtain rfl : Ref.l1 k = r := congrArg Prod.snd hp
  exact hd trivial

/-- **An allowed `vsfs_write`** through a descriptor on another inode. -/
theorem RootInv.write {now p a : Nat} {buf : Bytes} {nbyte : UInt64} {e : FdTable} {f : File} {v₁ v₂ : Volume}
    (h : RootInv B sb s) (ha : WriteAllowed s e p nbyte) (hroom : WriteRoom B s p nbyte)
    (hw : Written now p buf nbyte s t a f v₁ v₂) (h0 : (s.desc.opFtable p).inodeNr ≠ 0) :
    RootKept s.vol t.vol ∧ s.vol.OffRoot f.block := by
  have hev := write_steps (E := ∅) h.steady.sound h.steady.files ha hroom hw
  have hroot : t.vol.inode 0 = s.vol.inode 0 := hev.other 0 h0.symm
  have hlba : t.vol.lba = s.vol.lba := funext fun _ =>
    lba_congr (hev.after.ofsDregion.trans hev.before.ofsDregion) rfl
  have hfile : s.vol.OffRoot f.block := by
    rcases hw.alloc with ⟨_, _, _, hinfo⟩ | ⟨_, _, hf⟩
    · -- the copy has been made after the allocation, which keeps the references of the root
      intro b hb k hk heq
      obtain ⟨hmem, hval⟩ := hev.before.keep _ (directory_used h.blocks hk) (Set.notMem_empty _)
      have hc := vsfsGetInodeInfo_spec hinfo
      rw [hc.block] at hb
      obtain ⟨m, hm, rfl⟩ := mem_dataBlocks.mp hb
      obtain ⟨hvalid, _, hfirst⟩ := dataRef_spec (k := m) (by have := hc.limit; unfold level3Limit; omega)
      have hmem' : ((s.desc.opFtable p).inodeNr, dataRef m) ∈ v₁.used := ⟨hc.lt, hvalid, by rw [hfirst]; exact hm⟩
      have hp := hev.before.sound.owns.owned.inj _ _ hmem hmem' (hval.trans heq)
      exact h0 (congrArg Prod.fst hp).symm
    · have hin := (h.paired p a hw.filePtr).2 f hf
      exact h.files a f hf (by rw [hin]; exact h0)
  refine ⟨.of_blocks h.entry (by rw [hroot]) (by rw [hroot]) (by rw [hroot]) hlba fun k hk => ?_, hfile⟩
  by_contra hne
  rcases write_disk h.steady.sound h.steady.files ha hroom hw hne with ⟨r, hr, hd, he⟩ | ⟨b, hb, he⟩
  · exact h.not_pointer hev.before hk hr hd he
  · have hfile' : t.desc.files a = some { f with atime := now, mtime := now } := by
      rw [hw.result]
      exact update_self ..
    have hb' : b < B := (hev.files a _ hfile' b hb).lt
    have hroot' : (s.vol.inode 0).l1 k < B := h.steady.sound.owns.owned.lt _ (directory_used h.blocks hk)
    exact hfile b hb k hk (lba_inj h.steady.sound.owns.addr hroot' hb' he)

/-- **A growing seek**, through a descriptor on another inode or to a position in the last block. -/
theorem RootInv.seek {p a : Nat} {offset : UInt64} {f info : File} (h : RootInv B sb s)
    (hb : (s.vol.inode (s.desc.opFtable p).inodeNr).blocks ≤ level3Limit)
    (hroom : s.vol.need (s.desc.opFtable p).inodeNr (sub32 (neededBlocks offset.toNat) f.blocks) ≤ s.vol.room B)
    (hg : SeekGrown p offset s t a f info v) (h0 : (s.desc.opFtable p).inodeNr = 0 → neededBlocks offset.toNat = f.blocks) :
    RootKept s.vol t.vol ∧ (info.inode ≠ 0 → s.vol.OffRoot info.block) := by
  obtain ⟨r, hr⟩ := hg.alloc
  have hi : (s.desc.opFtable p).inodeNr < nrInodes := by
    obtain ⟨x, hx, _⟩ := ExceptLib.bind_eq_ok.mp hr
    exact ((inodeAt_eq_ok _ _).mp hx).1
  have hinode := (vsfsGetInodeInfo_spec hg.copy).inode
  have hvol : t.vol = v := by rw [hg.result]
  by_cases hz : (s.desc.opFtable p).inodeNr = 0
  · -- nothing is allocated
    have hsame : v = s.vol := by
      have hnone : sub32 (neededBlocks offset.toNat) f.blocks = 0 := by
        rw [h0 hz]
        unfold sub32
        omega
      have hlow := h.blocks
      rw [hnone] at hr
      exact allocBlock_none (by rw [hz]; unfold level2Limit; omega) hr
    rw [hvol, hsame]
    exact ⟨.refl _, fun hne => absurd (hinode.trans hz) hne⟩
  obtain ⟨hev, hm, hd⟩ := alloc_evolves (E := ∅) h.steady.sound hi hb hroom hr
  have hroot : v.inode 0 = s.vol.inode 0 := hm.other 0 (Ne.symm hz)
  have hlba : v.lba = s.vol.lba := funext fun _ => lba_congr hev.ofsDregion rfl
  rw [hvol]
  refine ⟨.of_blocks h.entry (by rw [hroot]) (by rw [hroot]) (by rw [hroot]) hlba fun k hk => ?_, fun hne => ?_⟩
  · by_contra hch
    obtain ⟨r, hu, hnd, he⟩ := hd _ hch
    exact h.not_pointer hev hk hu hnd he
  · have hoff := info_offRoot hev.sound (by rw [hroot]; exact h.blocks) hg.copy hne
    unfold Volume.OffRoot at hoff ⊢
    rw [hroot] at hoff
    exact hoff

/-- Only the volume and the descriptors count. -/
theorem RootInv.congr (h : RootInv B sb s) (hv : t.vol = s.vol) (hd : t.desc = s.desc) : RootInv B sb t := by
  obtain ⟨vol, desc, sc, ir, maps, base⟩ := s
  obtain ⟨vol', desc', sc', ir', maps', base'⟩ := t
  obtain rfl : vol' = vol := hv
  obtain rfl : desc' = desc := hd
  exact ⟨⟨h.steady.fits, h.steady.sound, h.steady.root, h.steady.files⟩, h.listed, h.paired, h.entry, h.blocks, h.files⟩

/-- `vsfs_creat` enters a name, in a slot of the directory's blocks or of a block that was free. -/
theorem RootInv.creat {now : Nat} {name : CStr} {blockNum : UInt32} {ret : Int} (h : RootInv B sb s)
    (ht : Steady B sb t) (hsb : sb.nrIbitmapBlocks = 1) (hok : AllocOk B (.creat name blockNum) s)
    (hc : vsfsCreat now name blockNum s = .ok (ret, t)) : RootInv B sb t := by
  have hdesc := vsfsCreat_desc hc
  have hl : t.desc.Listed := by rw [hdesc]; exact h.listed
  have hp : t.desc.Paired := by rw [hdesc]; exact h.paired
  rcases creat_steps h.steady hsb hok hc with ⟨_, hv, hd⟩ | ⟨_, i, hi0, _, hd, hdone⟩
  · exact h.congr hv hd
  have hsucc : ∀ e, e < 2 ^ 32 - 1 → succ32 e = e + 1 := fun e he => succ32_of_lt he
  have hentry := h.entry
  have hblocks := h.blocks
  cases hdone with
  | slot hs hprep hroot _ ha =>
    have hw := ha.root
    rw [hroot] at hw
    have hlt := (hasSlot_iff hblocks).mp hs
    refine ⟨ht, hl, hp, ?_, ?_, ?_⟩
    · rw [hw]
      show succ32 (s.vol.inode 0).entry ≤ 16 * (s.vol.inode 0).blocks
      rw [hsucc _ (by omega)]
      exact hlt
    · rw [hw]
      exact hblocks
    · rw [hdesc]
      unfold Volume.OffRoot
      rw [hw]
      exact h.files
  | @grow u b hno hb hprep hroot hleast ha =>
    have hw := ha.root
    rw [hroot] at hw
    rw [hasSlot_iff hblocks] at hno
    refine ⟨ht, hl, hp, ?_, ?_, ?_⟩
    · rw [hw]
      show succ32 (s.vol.inode 0).entry ≤ 16 * ((s.vol.inode 0).blocks + 1)
      rw [hsucc _ (by omega)]
      omega
    · rw [hw]
      show (s.vol.inode 0).blocks + 1 ≤ 49
      omega
    · -- the block that is appended was free, so no file object lists it
      rw [hdesc]
      intro a f hf hne b' hb' k hk
      rw [hw] at hk ⊢
      dsimp only at hk ⊢
      rw [update_apply]
      split
      case isTrue =>
        rintro rfl
        have hused := (h.steady.files a f hf b hb').used
        rw [hleast.bit] at hused
        cases hused
      case isFalse hkb => exact h.files a f hf hne b' hb' k (by omega)
  | full _ _ hv => exact h.congr hv hd

/-- **Every call** that meets the condition keeps the invariant, and every call but `vsfs_creat` the directory. -/
theorem RootInv.step (h : RootInv B sb s) (hsb : sb.nrIbitmapBlocks = 1) (hok : RootCallOk B c s) (hs : Step c s t) :
    RootInv B sb t ∧ ((∀ name blockNum, c ≠ .creat name blockNum) → RootKept s.vol t.vol) := by
  have ht := h.steady.step hsb hok.1 hs
  have hl := h.listed.step hs
  have hp := h.paired.step hs
  obtain ⟨now, ret, _, hr⟩ := hs
  -- what is left to show of a call that keeps the directory
  have hdone : RootKept s.vol t.vol → (∀ a f, t.desc.files a = some f → f.inode ≠ 0 → s.vol.OffRoot f.block) →
      RootInv B sb t ∧ ((∀ name blockNum, c ≠ .creat name blockNum) → RootKept s.vol t.vol) :=
    fun hk hf => ⟨h.of_kept ht hl hp hk hf, fun _ => hk⟩
  cases c with
  | creat name blockNum => exact ⟨h.creat ht hsb hok.1 hr, fun hne => absurd rfl (hne name blockNum)⟩
  | «open» pathname flags =>
    refine hdone (open_touched hr).rootKept fun a f hf hi => ?_
    rcases open_files hr a f hf with ho | ⟨j, hj⟩
    · exact h.files a f ho hi
    · exact info_offRoot h.steady.sound h.blocks hj hi
  | stat pathname =>
    obtain ⟨⟨r, fre, u⟩, hst, hr⟩ := ExceptLib.bind_eq_ok.mp hr
    cases hr
    have hv := vsfsStat_vol hst
    have hd := vsfsStat_desc hst
    refine hdone (by rw [hv]; exact .refl _) ?_
    rw [hd]
    exact h.files
  | close fildes =>
    have hv := vsfsClose_vol hr
    exact hdone (by rw [hv]; exact .refl _) fun a f hf => h.files a f (close_files hr a f hf)
  | write fildes buf nbyte =>
    obtain ⟨b, e, p, hfind, hep, ⟨_, rfl⟩ | ⟨ha, _, a, f, v₁, v₂, hw⟩⟩ := vsfsWrite_cases hr
    · exact hdone (.refl _) h.files
    have h0 := hok.2.1 fildes buf nbyte e p rfl ⟨b, hfind, hep⟩ ha
    obtain ⟨hk, hoff⟩ := h.write ha (hok.1 b e p hfind hep ha) hw h0
    have hdesc : t.desc = (s.desc.modFile a { f with atime := now, mtime := now }).setOffset p
        (s.desc.writeEnd p nbyte) := by rw [hw.result]
    refine hdone hk fun a' f' hf' hi => ?_
    rw [hdesc] at hf'
    simp only [Desc.setOffset, Desc.modFile, update_apply] at hf'
    split at hf'
    · cases hf'
      exact hoff
    · exact h.files a' f' hf' hi
  | read fildes buf nbyte =>
    obtain ⟨⟨r, b, u⟩, hrd, hr⟩ := ExceptLib.bind_eq_ok.mp hr
    cases hr
    have htouch := read_touched hrd
    obtain ⟨_, rfl, _⟩ | ⟨_, _, p, a, f, readed, _, _, _, hd⟩ := vsfsRead_cases hrd
    · exact hdone (.refl _) h.files
    have hdesc := congrArg State.desc hd.result
    dsimp only at hdesc
    refine hdone htouch.rootKept fun a' f' hf' hi => ?_
    rw [hdesc] at hf'
    simp only [Desc.setOffset, Desc.modFile, update_apply] at hf'
    split at hf'
    · cases hf'
      exact h.files a f hd.file hi
    · exact h.files a' f' hf' hi
  | lseek fildes offset whence =>
    obtain ⟨⟨r, u⟩, hlk, hr⟩ := ExceptLib.bind_eq_ok.mp hr
    cases hr
    obtain ⟨_, hres, _⟩ | ⟨b, e, p, a, f, s', hs', hfind, hep, hfp, hfile, ⟨o, hres, _⟩ | ⟨hset, _, info, v, hg⟩⟩ :=
      vsfsLseek_cases hlk
    · exact hdone (by rw [hres]; exact .refl _) (by rw [hres]; exact h.files)
    · have hreg := (setInodeReg_eq_ok hs').1
      have hvol : t.vol = s.vol := by rw [hres, hreg]
      have hdesc : t.desc = s.desc.setOffset p o := by rw [hres]
      exact hdone (by rw [hvol]; exact .refl _) (by rw [hdesc]; exact h.files)
    · have hreg := (setInodeReg_eq_ok hs').1
      have hvol : s'.vol = s.vol := by rw [hreg]
      have hdesc : s'.desc = s.desc := by rw [hreg]
      have h' : RootInv B sb s' := h.congr hvol hdesc
      have hgrow : SeekGrows f offset whence := ⟨hset, hg.limit, hg.beyond⟩
      obtain ⟨hb, hroom⟩ := hok.1 b e p a f hfind hep hfp hfile hgrow
      have h0 := hok.2.2 fildes offset whence e p a f rfl ⟨b, hfind, hep⟩ hfp hfile hgrow
      obtain ⟨hk, hoff⟩ := h'.seek (by rw [hdesc, hvol]; exact hb) (by rw [hdesc, hvol]; exact hroom) hg
        (by rw [hdesc]; exact h0)
      rw [hvol] at hk hoff
      have htdesc := congrArg State.desc hg.result
      dsimp only at htdesc
      rw [hdesc] at htdesc
      refine hdone hk fun a' f' hf' hi => ?_
      rw [htdesc] at hf'
      simp only [Desc.setOffset, Desc.modFile, update_apply] at hf'
      split at hf'
      · cases hf'
        exact hoff hi
      · exact h.files a' f' hf' hi

/-! ## The main theorem -/

/-- The condition with the blocks that the device has as the bound. -/
def RootOk (c : Call) (s : State) : Prop := RootCallOk s.vol.cached.sbi.nrDregionBlocks c s

/-- The call meets the condition and is no `vsfs_creat`. -/
def RootOkBetween (c : Call) (s : State) : Prop := RootOk c s ∧ ∀ name blockNum, c ≠ .creat name blockNum

theorem ReachedOn.rootInv (h : ReachedOn n RootOk s) :
    RootInv (superblockInfo n).nrDregionBlocks (superblockInfo n) s := by
  obtain ⟨hl, hu, disk, seg, hr⟩ := h
  have hdir := fresh_slotInDirectory hl hu disk seg
  have hstart : RootInv (superblockInfo n).nrDregionBlocks (superblockInfo n) (State.fresh n disk seg) :=
    ⟨fresh_steady_device hl hu disk seg, Desc.Listed.initial, fun _ _ ha => (by cases ha), hdir.entry, hdir.blocks,
      fun _ _ ha => (by cases ha)⟩
  refine hr.invariant hstart fun c u v hP hok hs => ?_
  unfold RootOk at hok
  rw [hP.steady.fits.regions.nrDregionBlocks] at hok
  exact (hP.step (superblockInfo_layout hl hu).nrIbitmapBlocks hok hs).1

/-- **The root directory changes only through `vsfs_creat`**: a run of other calls keeps it, in every run whose calls
meet the condition, and the names that are found are the same before and after. -/
theorem root_is_kept (h : ReachedBy RootOk s) (hr : Run Step RootOkBetween s t) :
    RootKept s.vol t.vol ∧ ∀ pathname, pathname.strlen < filenameLen →
      lookup t.vol pathname (t.vol.inode 0).entry 0 = lookup s.vol pathname (s.vol.inode 0).entry 0 := by
  obtain ⟨n, hn⟩ := h
  have hsb := (superblockInfo_layout hn.1 hn.2.1).nrIbitmapBlocks
  have hkept : RootInv (superblockInfo n).nrDregionBlocks (superblockInfo n) t ∧ RootKept s.vol t.vol := by
    refine hr.invariant (P := fun u => RootInv (superblockInfo n).nrDregionBlocks (superblockInfo n) u ∧
      RootKept s.vol u.vol) ⟨hn.rootInv, .refl _⟩ fun c u w hP hok hs => ?_
    obtain ⟨hinv, hk⟩ := hP
    obtain ⟨hok, hne⟩ := hok
    unfold RootOk at hok
    rw [hinv.steady.fits.regions.nrDregionBlocks] at hok
    obtain ⟨hinv', hk'⟩ := hinv.step hsb hok hs
    exact ⟨hinv', hk.trans (hk' hne)⟩
  exact ⟨hkept.2, fun pathname hp => hkept.2.lookup_eq hp⟩

/-- A file is created, opened and written, and the root directory stays as the creation has left it. -/
theorem root_is_kept_write : ∃ s t, Step (.creat (letter 0) 0) (blankVolume 4096) s ∧ Run Step RootOkBetween s t ∧
    (t.vol.inode 1).size = 1 ∧ RootKept s.vol t.vol ∧ ∀ pathname, pathname.strlen < filenameLen →
      lookup t.vol pathname (t.vol.inode 0).entry 0 = lookup s.vol pathname (s.vol.inode 0).entry 0 := by
  have h : (do
      let c ← Call.run 0 (.creat (letter 0) 0) (blankVolume 4096)
      let r ← Call.run 0 (.open (letter 0) oRdwr) c.2
      let w ← Call.run 0 (.write 1 (fun _ => 97) 1) r.2
      let found ← r.2.desc.findTarget 1
      .ok (found.any fun x => x.2.ptr = some 0 ∧ (r.2.desc.opFtable 0).inodeNr = 1 ∧ (r.2.desc.opFtable 0).offset = 0 ∧
        (r.2.vol.inode 1).blocks = 0 ∧ bit r.2.vol.cached.dbitmap 1 = true ∧ 1 < r.2.vol.cached.sbi.nrDregionBlocks ∧
        1 < dbitmapBits r.2.vol.cached.sbi ∧ (w.2.vol.inode 1).size = 1) : M Bool) = .ok true := by decide +kernel
  obtain ⟨⟨rc, s⟩, hc, h⟩ := ExceptLib.bind_eq_ok.mp h
  obtain ⟨⟨ro, u⟩, ho, h⟩ := ExceptLib.bind_eq_ok.mp h
  obtain ⟨⟨rw', t⟩, hw, h⟩ := ExceptLib.bind_eq_ok.mp h
  obtain ⟨found, hfind, h⟩ := ExceptLib.bind_eq_ok.mp h
  obtain ⟨⟨b, e⟩, rfl, hall⟩ := (Option.any_eq_true _ _).mp (Except.ok.inj h)
  obtain ⟨hp, hi, hofs, hb, hbit, hB, hbits, hsize⟩ := of_decide_eq_true hall
  dsimp only at hp hi hofs hb hbit hB hbits hsize
  have hopen : u.OpenOn 1 e 0 := ⟨b, hfind, hp⟩
  have hcreat : RootOk (.creat (letter 0) 0) (blankVolume 4096) := by
    refine ⟨?_, fun _ _ _ _ _ hcall => (by cases hcall), fun _ _ _ _ _ _ _ hcall => (by cases hcall)⟩
    exact fresh_creat_device (by decide) (by decide) _ _ _ (by decide) (by decide)
  have hopenOk : RootOkBetween (.open (letter 0) oRdwr) s :=
    ⟨⟨trivial, fun _ _ _ _ _ hcall => (by cases hcall), fun _ _ _ _ _ _ _ hcall => (by cases hcall)⟩,
      fun _ _ hcall => (by cases hcall)⟩
  have hwriteOk : RootOkBetween (.write 1 (fun _ => 97) 1) u := by
    refine ⟨⟨fun c d q hf hq _ => ?_, fun _ _ _ d q hcall ho' _ => ?_, fun _ _ _ _ _ _ _ hcall => (by cases hcall)⟩,
      fun _ _ hcall => (by cases hcall)⟩
    · obtain rfl := hopen.slot ⟨c, hf, hq⟩
      exact first_byte_room (by rw [hi]; exact hb) hofs hbit hB hbits
    · cases hcall
      obtain rfl := hopen.slot ho'
      rw [hi]
      decide
  have hs : Step (.creat (letter 0) 0) (blankVolume 4096) s := ⟨0, rc, by decide, hc⟩
  have hrun : Run Step RootOkBetween s t :=
    ((Run.refl _).snoc hopenOk ⟨0, ro, by decide, ho⟩).snoc hwriteOk ⟨0, rw', by decide, hw⟩
  exact ⟨s, t, hs, hrun, hsize, root_is_kept ((reachedBy_blankVolume (by decide) (by decide)).step hcreat hs) hrun⟩

/-- A byte written to `.` makes the root directory one entry long. -/
theorem write_shortens_root : ∃ s t, Reached s ∧ Step (.write 1 (fun _ => 46) 1) s t ∧ ¬RootKept s.vol t.vol := by
  have h : (do
      let r ← Call.run 0 (.open dotName oRdwr) (blankVolume 4096)
      let u ← Call.run 0 (.write 1 (fun _ => 46) 1) r.2
      .ok (decide ((r.2.vol.inode 0).entry = 2 ∧ (u.2.vol.inode 0).entry = 1)) : M Bool) = .ok true := by decide +kernel
  obtain ⟨⟨r, s⟩, hopen, h⟩ := ExceptLib.bind_eq_ok.mp h
  obtain ⟨⟨r', t⟩, hwrite, h⟩ := ExceptLib.bind_eq_ok.mp h
  obtain ⟨h2, h1⟩ := of_decide_eq_true (Except.ok.inj h)
  refine ⟨s, t, (reachedBy_blankVolume (by decide) (by decide)).step trivial ⟨0, r, by decide, hopen⟩,
    ⟨0, r', by decide, hwrite⟩, fun hk => ?_⟩
  have he : 1 = 2 := h1.symm.trans (hk.entry.trans h2)
  cases he

end Vsfs
