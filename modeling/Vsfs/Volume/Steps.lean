import Vsfs.Volume.Growth
import Vsfs.Volume.Updates

/-!
# What each call does to a sound volume

`s.FilesWritable B`: every block that an open file lists may be written as data. Each call keeps the volume sound and
this of the files, provided that there is room for what it allocates.

- `open_steps`, `close_files`, `write_steps`, `read_steps`, `seek_steps`.
-/

set_option autoImplicit false

namespace Vsfs

open Function ByteSeq WordBits

variable {B i now : Nat} {E : Set Nat} {s t : State} {ret : Int}

/-- Every block that the object of an open file lists may be written as data. -/
def State.FilesWritable (s : State) (B : Nat) : Prop :=
  ∀ a f, s.desc.files a = some f → ∀ b, b ∈ f.block → s.vol.Writable B b

/-- A change of the volume and of the objects of open files. -/
theorem filesWritable_of {w : Volume} (hv : Evolves B E s.vol t.vol) (hf : s.FilesWritable B) (hs : w.Sound B)
    (hw : Evolves B E w t.vol)
    (h : ∀ a f, t.desc.files a = some f →
      (∃ g, s.desc.files a = some g ∧ f.block = g.block) ∨ ∃ j, vsfsGetInodeInfo w j = .ok f ∨
        ∃ g, vsfsGetInodeInfo w j = .ok g ∧ f.block = g.block) : t.FilesWritable B := by
  have hinfo : ∀ j g, vsfsGetInodeInfo w j = .ok g → ∀ b, b ∈ g.block → t.vol.Writable B b := by
    intro j g hg b hb
    have hc := vsfsGetInodeInfo_spec hg
    rw [hc.block] at hb
    obtain ⟨k, hk, rfl⟩ := mem_dataBlocks.mp hb
    obtain ⟨hvalid, hdata, hfirst⟩ := dataRef_spec (k := k)
      (by have := hc.limit; unfold level3Limit; omega)
    exact hw.writable (hs.writable ⟨hc.lt, hvalid, by rw [hfirst]; exact hk⟩ hdata)
  intro a f ha b hb
  rcases h a f ha with ⟨g, hg, he⟩ | ⟨j, hj | ⟨g, hg, he⟩⟩
  · exact hv.writable (hf a g hg b (he ▸ hb))
  · exact hinfo j f hj b hb
  · exact hinfo j g hg b (he ▸ hb)

/-! ## Time stamps -/

/-- The volume with other time stamps. -/
structure Touched (v w : Volume) : Prop where
  map : ∀ j, (v.inode j).SameMap (w.inode j)
  blocks : ∀ j, (w.inode j).blocks = (v.inode j).blocks
  size : ∀ j, (w.inode j).size = (v.inode j).size
  disk : w.disk = v.disk
  ibitmap : w.cached.ibitmap = v.cached.ibitmap
  dbitmap : w.cached.dbitmap = v.cached.dbitmap
  sbi : w.cached.sbi = v.cached.sbi

theorem Touched.refl (v : Volume) : Touched v v :=
  ⟨fun _ => ⟨rfl, rfl, rfl⟩, fun _ => rfl, fun _ => rfl, rfl, rfl, rfl, rfl⟩

theorem Touched.trans {u v w : Volume} (h : Touched v u) (h' : Touched u w) : Touched v w :=
  ⟨fun j => ⟨(h'.map j).1.trans (h.map j).1, (h'.map j).2.1.trans (h.map j).2.1, (h'.map j).2.2.trans (h.map j).2.2⟩,
    fun j => (h'.blocks j).trans (h.blocks j), fun j => (h'.size j).trans (h.size j), h'.disk.trans h.disk,
    h'.ibitmap.trans h.ibitmap, h'.dbitmap.trans h.dbitmap, h'.sbi.trans h.sbi⟩

theorem modInode_touched {f : Inode → Inode} (v : Volume) (i : Nat) (hm : (v.inode i).SameMap (f (v.inode i)))
    (hb : (f (v.inode i)).blocks = (v.inode i).blocks) (hs : (f (v.inode i)).size = (v.inode i).size) :
    Touched v (v.modInode i f) := by
  have hinode : ∀ j, (v.modInode i f).inode j = v.inode j ∨ j = i ∧ (v.modInode i f).inode j = f (v.inode i) := by
    intro j
    by_cases hj : j = i
    · exact Or.inr ⟨hj, by rw [hj, modInode_inode_self]⟩
    · exact Or.inl (modInode_inode_of_ne _ _ hj)
  refine ⟨fun j => ?_, fun j => ?_, fun j => ?_, rfl, rfl, rfl, rfl⟩ <;> rcases hinode j with he | ⟨rfl, he⟩ <;> rw [he]
  · exact ⟨rfl, rfl, rfl⟩
  · exact hm
  · exact hb
  · exact hs

theorem Touched.evolves {v w : Volume} (h : v.Sound B) (ht : Touched v w) : Evolves B E v w :=
  keep_evolves h ht.map (fun j => Or.inl (ht.blocks j)) ht.dbitmap (fun a ha => by rwa [ht.ibitmap] at ha)
    (by rw [ht.sbi]) (by rw [ht.sbi]) fun p _ _ => by rw [ht.disk]

theorem touchPath_touched (v : Volume) (flags : Int) (j : Nat) : Touched v (touchPath now flags j v) := by
  unfold touchPath
  split
  · exact (modInode_touched v 0 ⟨rfl, rfl, rfl⟩ rfl rfl).trans (modInode_touched _ j ⟨rfl, rfl, rfl⟩ rfl rfl)
  · split
    · exact (modInode_touched v 0 ⟨rfl, rfl, rfl⟩ rfl rfl).trans (modInode_touched _ j ⟨rfl, rfl, rfl⟩ rfl rfl)
    · exact .refl v

/-! ## `vsfs_open` -/

theorem open_touched {pathname : CStr} {flags : Int} (h : vsfsOpen now pathname flags s = .ok (ret, t)) :
    Touched s.vol t.vol := by
  obtain ⟨_, _, rfl⟩ | ⟨_, _, _, _, _, ⟨_, hu⟩ | ⟨_, _, _, _, _, _, rfl⟩⟩ := vsfsOpen_cases h
  · exact .refl _
  · rw [hu.vol]
    exact .refl _
  · exact touchPath_touched _ _ _

/-- The objects of open files after `vsfs_open`: those from before, and a copy of an inode. -/
theorem open_files {pathname : CStr} {flags : Int} (h : vsfsOpen now pathname flags s = .ok (ret, t)) :
    ∀ a f, t.desc.files a = some f → s.desc.files a = some f ∨ ∃ j, vsfsGetInodeInfo s.vol j = .ok f := by
  obtain ⟨_, _, rfl⟩ | ⟨_, _, _, d, hadd, ⟨_, hu⟩ | ⟨target, info, _, hinfo, _, _, rfl⟩⟩ := vsfsOpen_cases h
  · exact fun a f ha => Or.inl ha
  · exact hu.files
  · intro a f ha
    have hfiles : d.files = s.desc.files := (addFdTable_files hadd).trans rfl
    simp only [Desc.takeSlot, update_apply] at ha
    split at ha
    · cases ha
      exact Or.inr ⟨target, hinfo⟩
    · exact Or.inl (hfiles ▸ ha)

theorem open_steps {pathname : CStr} {flags : Int} (h : s.vol.Sound B) (hf : s.FilesWritable B)
    (ho : vsfsOpen now pathname flags s = .ok (ret, t)) : Evolves B E s.vol t.vol ∧ t.FilesWritable B := by
  have hev : Evolves B E s.vol t.vol := (open_touched ho).evolves h
  refine ⟨hev, filesWritable_of hev hf h hev fun a f ha => ?_⟩
  rcases open_files ho a f ha with ha | ⟨j, hj⟩
  · exact Or.inl ⟨f, ha, rfl⟩
  · exact Or.inr ⟨j, Or.inl hj⟩

/-! ## `vsfs_close` -/

theorem unlink_files {d d' : Desc} {fildes : Int} {hd : Nat} {tl rm : Option Nat}
    (h : d.unlink fildes hd tl = .ok (rm, d')) : d'.files = d.files ∧ d'.opFtable = d.opFtable := by
  unfold Desc.unlink at h
  obtain ⟨first, _, h⟩ := ExceptLib.bind_eq_ok.mp h
  split at h
  · cases h
    exact ⟨rfl, rfl⟩
  · obtain ⟨⟨rm', fds⟩, _, h⟩ := ExceptLib.bind_eq_ok.mp h
    cases h
    exact ⟨rfl, rfl⟩

theorem freeFile_files (d : Desc) (p : Nat) {a : Nat} {f : File} (h : (d.freeFile p).files a = some f) :
    d.files a = some f := by
  unfold Desc.freeFile at h
  split at h
  · simp only [update_apply] at h
    split at h
    · cases h
    · exact h
  · exact h

theorem closeLast_files (u : State) (a : Nat) : (u.closeLast a).desc.files = u.desc.files := by
  unfold State.closeLast
  dsimp only
  split <;> rfl

/-- Closing only takes objects away. -/
theorem close_files {fildes : Int} (h : vsfsClose fildes s = .ok (ret, t)) :
    ∀ a f, t.desc.files a = some f → s.desc.files a = some f := by
  obtain ⟨_, _, _, rfl⟩ | ⟨_, _, _, d, _, hu, ⟨_, _, rfl⟩ | ⟨_, _, p, _, _, _, _, _, ⟨_, _, rfl⟩ | ⟨_, _, rfl⟩⟩⟩ :=
    vsfsClose_cases h
  · exact fun _ _ ha => ha
  · intro a f ha
    rw [← (unlink_files hu).1]
    exact ha
  · intro a f ha
    rw [← (unlink_files hu).1]
    simp only [dropSlot_files] at ha
    exact freeFile_files d p ha
  · intro a f ha
    rw [← (unlink_files hu).1]
    rw [closeLast_files] at ha
    simp only [dropSlot_files] at ha
    exact freeFile_files d p ha

/-! ## `vsfs_write` -/

/-- The loop of `__write_dblock` writes data blocks only. -/
theorem writeLoop_evolves {block : List Nat} {buf : Bytes} {fuel k written offset left : Nat} {v w : Volume}
    (h : v.Sound B) (hb : ∀ b, b ∈ block → v.Writable B b)
    (hw : writeLoop block buf fuel k written offset left v = .ok w) :
    Evolves B E v w ∧ w.cached = v.cached ∧ ∀ l, w.disk l ≠ v.disk l → ∃ b, b ∈ block ∧ l = v.lba b := by
  induction fuel generalizing k written offset left v with
  | zero =>
    cases hw
    exact ⟨.refl h, rfl, fun l hl => absurd rfl hl⟩
  | succ fuel ih =>
    unfold writeLoop at hw
    split at hw
    case isTrue =>
      cases hw
      exact ⟨.refl h, rfl, fun l hl => absurd rfl hl⟩
    case isFalse =>
      split at hw
      case h_1 => cases hw
      case h_2 b hk =>
        have hbm : b ∈ block := List.mem_of_getElem? hk
        have h₁ : ∀ x, Evolves B E v (v.writeBlock (v.lba b) x) := write_evolves h ((hb b hbm).lba h)
        obtain ⟨h₂, hc, hd⟩ := ih (h₁ _).sound (fun b' hb' => (h₁ _).writable (hb b' hb')) hw
        refine ⟨(h₁ _).trans h₂, hc, fun l hl => ?_⟩
        by_cases hlb : l = v.lba b
        · exact ⟨b, hbm, hlb⟩
        · refine hd l fun he => hl ?_
          rw [he]
          exact writeBlock_disk_of_ne _ _ _ hlb

theorem neededBlocks_le {n : Nat} (h : n ≤ level3LimitTimesBlockSize) : neededBlocks n ≤ 1048578 := by
  unfold level3LimitTimesBlockSize at h
  unfold neededBlocks blockSize
  split <;> omega

/-- The blocks that a write of `nbyte` bytes through slot `p` needs are free. -/
def WriteRoom (B : Nat) (s : State) (p : Nat) (nbyte : UInt64) : Prop :=
  (s.vol.inode (s.desc.opFtable p).inodeNr).blocks ≤ neededBlocks (s.desc.writeEnd p nbyte) →
    s.vol.need (s.desc.opFtable p).inodeNr (sub32 (neededBlocks (s.desc.writeEnd p nbyte))
      (s.vol.inode (s.desc.opFtable p).inodeNr).blocks) ≤ s.vol.room B

/-- The volume after a write to `fin` through slot `p`: `v` is the volume after the allocation. The file has the blocks
that the end of the write needs, or those it had. -/
structure WriteEvolved (B : Nat) (E : Set Nat) (p fin : Nat) (s t : State) (v : Volume) : Prop where
  before : Evolves B E s.vol v
  after : Evolves B E v t.vol
  files : t.FilesWritable B
  other : ∀ j, j ≠ (s.desc.opFtable p).inodeNr → t.vol.inode j = s.vol.inode j
  blocks : (v.inode (s.desc.opFtable p).inodeNr).blocks =
    max (s.vol.inode (s.desc.opFtable p).inodeNr).blocks (neededBlocks fin)
  oldSize : (v.inode (s.desc.opFtable p).inodeNr).size = (s.vol.inode (s.desc.opFtable p).inodeNr).size
  newBlocks : (t.vol.inode (s.desc.opFtable p).inodeNr).blocks = (v.inode (s.desc.opFtable p).inodeNr).blocks
  newSize : (t.vol.inode (s.desc.opFtable p).inodeNr).size = fin % 2 ^ 32

/-- **An allowed `vsfs_write`** with room for what it allocates. -/
theorem write_steps {p : Nat} {buf : Bytes} {nbyte : UInt64} {e : FdTable} {a : Nat} {f : File} {v₁ v₂ : Volume}
    (h : s.vol.Sound B) (hf : s.FilesWritable B) (ha : WriteAllowed s e p nbyte) (hroom : WriteRoom B s p nbyte)
    (hw : Written now p buf nbyte s t a f v₁ v₂) : WriteEvolved B E p (s.desc.writeEnd p nbyte) s t v₁ := by
  have hlim : level3Limit = 1053745 := rfl
  have hneed := neededBlocks_le ha.limit
  obtain ⟨j, hj⟩ : ∃ j, (s.desc.opFtable p).inodeNr = j := ⟨_, rfl⟩
  -- the allocation, and the list of blocks that the data goes to
  have h₁ : Evolves B E s.vol v₁ ∧ (∀ b, b ∈ f.block → v₁.Writable B b) ∧ (∀ k, k ≠ j → v₁.inode k = s.vol.inode k) ∧
      (v₁.inode j).blocks = max (s.vol.inode j).blocks (neededBlocks (s.desc.writeEnd p nbyte)) ∧
      (v₁.inode j).size = (s.vol.inode j).size := by
    rcases hw.alloc with ⟨hle, ⟨r, hr⟩, _, hinfo⟩ | ⟨hlt, rfl, hfile⟩
    · have hroom' := hroom hle
      rw [hj] at hle hr hinfo hroom'
      obtain ⟨hev, hm, _⟩ := alloc_evolves (E := E) h (by rw [← hj]; exact ha.inode) (by omega) hroom' hr
      have hc := vsfsGetInodeInfo_spec hinfo
      refine ⟨hev, fun b hb => ?_, hm.other, ?_, hm.head.size⟩
      · rw [hc.block] at hb
        obtain ⟨k, hk, rfl⟩ := mem_dataBlocks.mp hb
        obtain ⟨hvalid, hdata, hfirst⟩ := dataRef_spec (k := k) (by have := hc.limit; omega)
        exact hev.sound.writable ⟨hc.lt, hvalid, by rw [hfirst]; exact hk⟩ hdata
      · rw [sub32_of_le hle (by omega)] at hm
        rw [hm.blocks (by omega)]
        omega
    · rw [hj] at hlt
      exact ⟨.refl h, fun b hb => hf a f hfile b hb, fun _ _ => rfl, by omega, rfl⟩
  obtain ⟨hev₁, hwr, hother, hblocks, hsize⟩ := h₁
  have h₂ : Evolves B E v₁ (v₁.modInode j fun x => { x with atime := now, mtime := now }) :=
    modInode_evolves hev₁.sound ⟨rfl, rfl, rfl⟩ (Or.inl rfl)
  have hdata := hw.data
  rw [hj] at hdata
  obtain ⟨h₃, hcached, _⟩ := writeLoop_evolves (E := E) h₂.sound (fun b hb => h₂.writable (hwr b hb)) hdata
  have h₄ : Evolves B E v₂ (v₂.modInode j fun x => { x with size := s.desc.writeEnd p nbyte % 2 ^ 32 }) :=
    modInode_evolves h₃.sound ⟨rfl, rfl, rfl⟩ (Or.inl rfl)
  have hvol := congrArg State.vol hw.result
  have hdesc := congrArg State.desc hw.result
  dsimp only at hvol hdesc
  rw [hj] at hvol
  have hin₂ : ∀ k, v₂.inode k = (v₁.modInode j fun x => { x with atime := now, mtime := now }).inode k := fun k =>
    congrArg (fun c : Cached => c.inodeReg k) hcached
  have hafter : Evolves B E v₁ t.vol := by
    rw [hvol]
    exact (h₂.trans h₃).trans h₄
  refine ⟨hev₁, hafter, fun a' g hg b hb => ?_, fun k hk => ?_, ?_, ?_, ?_, ?_⟩
  · rw [hdesc] at hg
    simp only [Desc.setOffset, Desc.modFile, update_apply] at hg
    split at hg
    · cases hg
      exact hafter.writable (hwr b hb)
    · exact (hev₁.trans hafter).writable (hf a' g hg b hb)
  · rw [hj] at hk
    rw [hvol, modInode_inode_of_ne _ _ hk, hin₂, modInode_inode_of_ne _ _ hk, hother k hk]
  · rw [hj]
    exact hblocks
  · rw [hj]
    exact hsize
  · rw [hj, hvol, modInode_inode_self]
    show (v₂.inode j).blocks = _
    rw [hin₂, modInode_inode_self]
  · rw [hj, hvol, modInode_inode_self]

/-! ## `vsfs_read` -/

theorem read_touched {fildes : Int} {buf buf' : Bytes} {nbyte : UInt64}
    (h : vsfsRead now fildes buf nbyte s = .ok (ret, buf', t)) : Touched s.vol t.vol := by
  obtain ⟨_, rfl, _⟩ | ⟨_, _, p, a, f, readed, _, _, _, hd⟩ := vsfsRead_cases h
  · exact .refl _
  · have hvol := congrArg State.vol hd.result
    dsimp only at hvol
    rw [hvol]
    exact modInode_touched s.vol _ ⟨rfl, rfl, rfl⟩ rfl rfl

theorem read_steps {fildes : Int} {buf buf' : Bytes} {nbyte : UInt64} (h : s.vol.Sound B) (hf : s.FilesWritable B)
    (hr : vsfsRead now fildes buf nbyte s = .ok (ret, buf', t)) : Evolves B E s.vol t.vol ∧ t.FilesWritable B := by
  have hev : Evolves B E s.vol t.vol := (read_touched hr).evolves h
  obtain ⟨_, rfl, _⟩ | ⟨_, _, p, a, f, readed, _, _, _, hd⟩ := vsfsRead_cases hr
  · exact ⟨hev, hf⟩
  have hdesc := congrArg State.desc hd.result
  dsimp only at hdesc
  refine ⟨hev, filesWritable_of hev hf h hev fun a' g hg => Or.inl ?_⟩
  rw [hdesc] at hg
  simp only [Desc.setOffset, Desc.modFile, update_apply] at hg
  split at hg
  case isTrue ha =>
    cases hg
    exact ⟨f, by rw [ha]; exact hd.file, rfl⟩
  case isFalse => exact ⟨g, hg, rfl⟩

/-! ## `vsfs_lseek` -/

/-- **A growing seek** with room for what it allocates. -/
theorem seek_steps {p a : Nat} {offset : UInt64} {f info : File} {v : Volume} (h : s.vol.Sound B)
    (hf : s.FilesWritable B) (hi : (s.desc.opFtable p).inodeNr < nrInodes)
    (hb : (s.vol.inode (s.desc.opFtable p).inodeNr).blocks ≤ level3Limit)
    (hroom : s.vol.need (s.desc.opFtable p).inodeNr (sub32 (neededBlocks offset.toNat) f.blocks) ≤ s.vol.room B)
    (hg : SeekGrown p offset s t a f info v) : Evolves B E s.vol t.vol ∧ t.FilesWritable B ∧
      MapFrame (s.desc.opFtable p).inodeNr (min (sub32 (neededBlocks offset.toNat) f.blocks)
        (level3Limit - (s.vol.inode (s.desc.opFtable p).inodeNr).blocks)) s.vol t.vol := by
  obtain ⟨r, hr⟩ := hg.alloc
  obtain ⟨hev, hm, _⟩ := alloc_evolves (E := E) h hi hb hroom hr
  have hvol := congrArg State.vol hg.result
  have hdesc := congrArg State.desc hg.result
  dsimp only at hvol hdesc
  rw [hvol]
  refine ⟨hev, ?_, hm⟩
  have hev' : Evolves B E s.vol t.vol := by rwa [hvol]
  refine filesWritable_of (w := v) hev' hf hev.sound (by rw [hvol]; exact .refl hev.sound) fun a' g hg' => ?_
  rw [hdesc] at hg'
  simp only [Desc.setOffset, Desc.modFile, update_apply] at hg'
  split at hg'
  · cases hg'
    exact Or.inr ⟨_, Or.inr ⟨info, hg.copy, rfl⟩⟩
  · exact Or.inl ⟨g, hg', rfl⟩

end Vsfs
