import Vsfs.Volume.Overwrite
import Vsfs.Volume.Walk

/-!
# `vsfs_write` of `vsfsio.h`

The segments are a volume: the data region is behind the first `ofs_dregion` blocks of a device. `vsfs_write` then does
to the files what `vsfs_write` of `vsfsio_spdk.h` does.

- `allocBlock_kept`: the allocation;
- `writeDblock_stored`: the copy;
- `vsfsWrite_kept`: the file is as it should be exactly if it ended at the end of the write or before.
-/

set_option autoImplicit false

namespace Vsfs.Shm

open Function ByteSeq PointerForest WordBits Paged

variable {B i m n o q pos fin : Nat} {u u' : Segments} {w : Volume} {s t : Process} {buf : Bytes} {now : Nat}
  {c : Cursor} {fildes : Int} {nbyte : UInt64} {e : FdTable} {p : Nat}

/-! ## The segments as a volume -/

/-- The cached data and the device that the segments stand for. -/
def Segments.toVolume (u : Segments) : Volume where
  cached := { u.cached with inodeReg := u.inodes }
  disk := fun l => if l < u.cached.sbi.ofsDregion then fun _ => 0 else u.data (l - u.cached.sbi.ofsDregion)

theorem toVolume_disk (u : Segments) (a : Nat) : u.toVolume.disk (u.cached.sbi.ofsDregion + a) = u.data a := by
  show (if _ then _ else _) = _
  rw [if_neg (by omega), Nat.add_sub_cancel_left]

theorem agrees_toVolume (u : Segments) : Agrees u.cached.sbi.ofsDregion noBuffer u.toVolume u :=
  ⟨rfl, rfl, rfl, rfl, fun k => (toVolume_disk u k).symm⟩

/-- A volume that agrees with the segments and has nothing in front of the data region. -/
theorem toVolume_eq (h : Agrees w.cached.sbi.ofsDregion noBuffer w u)
    (hlow : ∀ l, l < w.cached.sbi.ofsDregion → w.disk l = fun _ => 0) : u.toVolume = w := by
  obtain ⟨inodes, data, ⟨sbi, ibitmap, inodeReg, dbitmap⟩⟩ := u
  obtain ⟨⟨sbi', ibitmap', inodeReg', dbitmap'⟩, disk⟩ := w
  obtain ⟨hin, hs, hib, hd, hdata⟩ := h
  dsimp only at hin hs hib hd hdata hlow
  subst hin hs hib hd
  unfold Segments.toVolume
  congr 1
  funext l
  dsimp only
  split
  case isTrue hl => exact (hlow l hl).symm
  case isFalse hl =>
    rw [hdata]
    show disk _ = _
    rw [Nat.add_sub_cancel' (Nat.le_of_not_lt hl)]

theorem toVolume_modInode (u : Segments) (i : Nat) (f : Inode → Inode) :
    (u.modInode i f).toVolume = u.toVolume.modInode i f := rfl

@[simp] theorem segments_modInode_self (u : Segments) (i : Nat) (f : Inode → Inode) :
    (u.modInode i f).inodes i = f (u.inodes i) := by
  simp [Segments.modInode]

theorem segments_modInode_of_ne (u : Segments) {i j : Nat} (f : Inode → Inode) (h : j ≠ i) :
    (u.modInode i f).inodes j = u.inodes j := by
  simp [Segments.modInode, h]

/-- A block of the data region that is assigned is written to the device. -/
theorem toVolume_setBlock (u : Segments) (a : Nat) (x : Block) :
    ({ u with data := update u.data a x } : Segments).toVolume =
      u.toVolume.writeBlock (u.cached.sbi.ofsDregion + a) x := by
  unfold Segments.toVolume Volume.writeBlock
  congr 1
  funext l
  dsimp only
  by_cases hl : l = u.cached.sbi.ofsDregion + a
  · subst hl
    rw [if_neg (by omega), Nat.add_sub_cancel_left, update_self, update_self]
  · rw [update_of_ne hl]
    split
    · rfl
    · rw [update_of_ne (by omega)]

theorem toVolume_copyIn (a : Nat) : (copyIn buf a c u).toVolume = u.toVolume.writeBlock (u.cached.sbi.ofsDregion + a)
    (copy (u.data a) c.offset (fun k => buf (c.done + k)) c.length) :=
  toVolume_setBlock u a _

/-- A reference that is owned is read in the same way. -/
theorem owned_ref_eq {R : Set (Nat × Ref)} (h : u.toVolume.Owns B R) {r : Ref} (hr : (i, r) ∈ R) :
    u.ref i r = u.toVolume.val (i, r) := by
  have hentry : ∀ r', (i, r') ∈ R → ∀ j, pointer (u.data (u.toVolume.val (i, r'))) j =
      u.toVolume.entry (u.toVolume.val (i, r')) j := by
    intro r' hr' j
    show _ = pointer (u.toVolume.disk (u.toVolume.lba _)) j
    rw [lba_of_lt h.addr (h.owned.lt _ hr')]
    exact congrArg (pointer · j) (toVolume_disk u _).symm
  have hpar : ∀ {r r' : Ref}, r.parent = some r' → (i, r) ∈ R → (i, r') ∈ R :=
    fun hp hr => h.owned.closed _ _ hr (parent_eq_some.mpr ⟨_, hp, rfl⟩)
  cases r with
  | l1 k | l2 j | l3 => rfl
  | l2e j k => exact hentry (.l2 j) (hpar rfl hr) k
  | l3e q => exact hentry .l3 (hpar rfl hr) q
  | l3d q k =>
    have hq : (i, Ref.l3e q) ∈ R := hpar rfl hr
    have he : pointer (u.data (u.inodes i).l3) q = u.toVolume.val (i, .l3e q) := hentry .l3 (hpar rfl hq) q
    show pointer (u.data (pointer (u.data (u.inodes i).l3) q)) k = _
    rw [he]
    exact hentry (.l3e q) hq k

/-- A reference in use is read in the same way. -/
theorem ref_eq_val (h : u.toVolume.Sound B) {r : Ref} (hr : (i, r) ∈ u.toVolume.used) :
    u.ref i r = u.toVolume.val (i, r) :=
  owned_ref_eq h.owns hr

/-! ## The allocation -/

/-- Segments that agree with a volume in which only blocks of the data region have been written. -/
theorem toVolume_of_written (h : Agrees w.cached.sbi.ofsDregion noBuffer w u')
    (hofs : w.cached.sbi.ofsDregion = u.cached.sbi.ofsDregion) (haddr : u.cached.sbi.ofsDregion + B ≤ 2 ^ 32)
    (hd : ∀ l, w.disk l ≠ u.toVolume.disk l → ∃ a, a < B ∧ l = u.toVolume.lba a) : u'.toVolume = w := by
  refine toVolume_eq h fun l hl => ?_
  rw [hofs] at hl
  have hzero : u.toVolume.disk l = fun _ => 0 := if_pos hl
  by_contra hne
  obtain ⟨a, ha, he⟩ := hd l (by rw [hzero]; exact hne)
  rw [lba_of_lt (v := u.toVolume) haddr ha] at he
  exact absurd hl (by rw [he]; exact Nat.not_lt.mpr (Nat.le_add_right _ _))

/-- **With room for what it takes** `__alloc_block` ends well, and the bytes of all files stay. -/
theorem allocBlock_kept (h : u.toVolume.Sound B) (hi : i < nrInodes) (hn : (u.inodes i).blocks + n ≤ level3Limit)
    (hroom : allocTakes (u.inodes i).blocks n ≤ u.toVolume.room B) :
    ∃ u', allocBlock i n u = .ok (0, u') ∧ AllocKept B i n u.toVolume u'.toVolume := by
  obtain ⟨e, he⟩ := h.owns.takes hroom
  have hb : (u.toVolume.inode i).blocks ≤ level3Limit := (Nat.le_add_right _ n).trans hn
  obtain ⟨w, u', hw, hu, hagree, _⟩ := allocBlock_both (agrees_toVolume u) hi (h.level3 hi hb) hn h.owns.bits he
  have hkept := Vsfs.allocBlock_kept h hi hn hroom hw
  have hofs : w.cached.sbi.ofsDregion = u.cached.sbi.ofsDregion := hkept.evolves.ofsDregion
  have heq : u'.toVolume = w := by
    refine toVolume_of_written (by rw [hofs]; exact hagree) hofs h.owns.addr fun l hl => ?_
    obtain ⟨r, hr, -, he⟩ := hkept.disk l hl
    exact ⟨_, hkept.evolves.sound.owns.owned.lt _ hr, he⟩
  exact ⟨u', hu, heq ▸ hkept⟩

/-! ## The copy -/

/-- The segments after writes to data blocks of files. -/
def DataWritten (B : Nat) (u s : Segments) : Prop :=
  Evolves B ∅ u.toVolume s.toVolume ∧ s.inodes = u.inodes ∧ s.cached = u.cached

section

variable (h : u.toVolume.Sound B) (hi : i < nrInodes) (hb : fin ≤ 4096 * (u.inodes i).blocks)
  (hlim : fin ≤ level3LimitTimesBlockSize)

include hi hb hlim in
theorem dblock_used (hq : 4096 * q < fin) : (i, dataRef q) ∈ u.toVolume.used := by
  have hl3 : level3Limit = 1053745 := rfl
  have hmax : level3LimitTimesBlockSize = 4294972465 := rfl
  exact data_used hi (by show q < (u.inodes i).blocks; omega) (by omega)

include h hi hb hlim in
theorem dblock_eq (hq : 4096 * q < fin) : u.dblock i q = u.toVolume.val (i, dataRef q) :=
  ref_eq_val h (dblock_used hi hb hlim hq)

include h hi hb in
/-- Writes to data blocks leave the map alone. -/
theorem mapStays : MapStays id (DataWritten B u) u i fin := by
  rintro s ⟨hev, _⟩ r hr hlt
  have hused : (i, r) ∈ u.toVolume.used := ⟨hi, hr, by show r.first < (u.inodes i).blocks; omega⟩
  obtain ⟨hused', hval⟩ := hev.keep _ hused (Set.notMem_empty _)
  rw [ref_eq_val h hused, ← hval]
  exact ref_eq_val hev.sound hused'

include h hi hb hlim in
theorem copyIn_written {s : Segments} (hs : DataWritten B u s) (hq : 4096 * q < fin) :
    DataWritten B u (copyIn buf (u.dblock i q) c s) := by
  have hl3 : level3Limit = 1053745 := rfl
  have hmax : level3LimitTimesBlockSize = 4294972465 := rfl
  obtain ⟨hev, hin⟩ := hs
  have hwr : s.toVolume.Writable B (u.dblock i q) := by
    rw [dblock_eq h hi hb hlim hq]
    exact hev.writable (h.writable (dblock_used hi hb hlim hq) (dataRef_spec (by omega)).2.1)
  have hlba := hwr.lba hev.sound
  rw [lba_of_lt hev.sound.owns.addr hwr.lt] at hlba
  refine ⟨?_, hin⟩
  rw [toVolume_copyIn]
  exact hev.trans (write_evolves hev.sound hlba _)

/-- The loop over the data blocks stores the bytes. -/
theorem loopPages_stored (buf : Bytes) {m : Nat → Nat} {ofs fuel : Nat} {s : Segments} (hofs : s.cached.sbi.ofsDregion = ofs)
    (hc : c.At q fin n) (hfin : fin < 2 ^ 64) (hend : fin ≤ 4096 * (q + fuel))
    (hpg : PagesApart (fun q => ofs + m q) q fin) :
    Stored 4096 (fun q => ofs + m q) c.pos c.left (fun k => buf (c.done + k)) s.toVolume.disk
      (loopPages (copyIn buf) m fuel q c s).2.toVolume.disk := by
  unfold loopPages
  induction fuel generalizing q c s with
  | zero =>
    have hl : c.left = 0 := by
      by_contra hne
      have := hc.lt hne
      omega
    rw [hl, loopBlocks_end hl]
    exact .nil ..
  | succ fuel ih =>
    by_cases hl : c.left = 0
    · rw [hl, loopBlocks_end hl]
      exact .nil ..
    obtain ⟨h0, hle, hlen, hlast⟩ := hc.length_spec hl
    obtain ⟨hoff, hpos⟩ := hc.place hl
    have hfin' := hc.pos
    rw [loopBlocks_succ hl]
    have hround : Stored 4096 (fun q => ofs + m q) (4096 * q + c.offset) c.length (fun k => buf (c.done + k))
        s.toVolume.disk (update s.toVolume.disk (ofs + m q)
          (copy (s.data (m q)) c.offset (fun k => buf (c.done + k)) c.length)) := by
      refine part_stored h0 hlen (fun r hr => copy_in hr) fun r hr _ => ?_
      rw [copy_out hr, ← hofs, toVolume_disk]
    have hrest := ih (c := c.next) (s := copyIn buf (m q) c s) hofs (hc.next hl hfin) (by omega)
      fun q' r' hq hr hq' hr' he => hpg q' r' (by omega) (by omega) hq' hr' he
    have hnext : c.next.pos = c.pos + c.length := Nat.mod_eq_of_lt (by omega)
    have hsrc : (fun k => buf (c.next.done + k)) = fun k => buf (c.done + (c.length + k)) := by
      funext k
      rw [← Nat.add_assoc]
      rfl
    rw [hnext, hsrc, show c.next.left = c.left - c.length from rfl, toVolume_copyIn, hofs] at hrest
    rw [← hpos] at hround
    have hall := hround.trans hrest (by decide) (by
        rw [Nat.add_sub_cancel' hle]
        refine PagesApart.separate ?_
        rw [show c.pos / 4096 = q by omega, hfin']
        exact hpg)
    rwa [Nat.add_sub_cancel' hle] at hall

include h hi hb hlim in
/-- **The copy** stores the bytes in the file, unless the number of the first block is taken for one of level 1. -/
theorem writeDblock_stored (hw : pos / 4096 < 65536 ∨ 49 ≤ pos / 4096 % 65536) (hpos : pos + n = fin) :
    ∃ s, writeDblock i pos n buf u = (toInt32 n, fin, s) ∧ DataWritten B u s ∧
      Stored 4096 (u.toVolume.page i) pos n buf u.toVolume.disk s.toVolume.disk := by
  have hl3 : level3Limit = 1053745 := rfl
  have hmax : level3LimitTimesBlockSize = 4294972465 := rfl
  have hmap := mapStays h hi hb
  have hact : ∀ s c q, DataWritten B u s → 4096 * q < fin → DataWritten B u (copyIn buf (u.dblock i q) c s) :=
    fun s c q hs hq => copyIn_written h hi hb hlim hs hq
  have hstart : DataWritten B u u := ⟨.refl h, rfl, rfl⟩
  obtain ⟨hleft, hdone, hend⟩ := throughMap_done id (copyIn buf) i u hlim hpos
  have hkeep := throughMap_keeps hmap hlim hact hw hpos hstart
  have heq := throughMap_eq hmap hlim hact hw hpos hstart
  refine ⟨_, ?_, hkeep, ?_⟩
  · unfold writeDblock
    dsimp only
    rw [hleft, if_pos rfl, hdone, hend]
  · have hat : (Cursor.start pos n).At (pos / 4096) fin n := hpos ▸ Cursor.start_at pos n
    have hpage : ∀ q, 4096 * q < fin → u.cached.sbi.ofsDregion + u.dblock i q = u.toVolume.page i q := by
      intro q hq
      rw [dblock_eq h hi hb hlim hq]
      exact (lba_of_lt h.owns.addr (h.owns.owned.lt _ (dblock_used hi hb hlim hq))).symm
    have hpg : PagesApart (fun q => u.cached.sbi.ofsDregion + u.dblock i q) (pos / 4096) fin := by
      intro q r hq hr hlt hlt' he
      dsimp only at he
      rw [hpage q hlt, hpage r hlt'] at he
      have hapart := h.pagesApart (o := pos) (n := n) hi (by rw [hpos]; exact hb) (by omega)
      rw [hpos] at hapart
      exact hapart q r hq hr hlt hlt' he
    have hst := loopPages_stored buf (s := u) rfl hat (by omega)
      (by omega : fin ≤ 4096 * (pos / 4096 + (level3Limit - pos / 4096))) hpg
    rw [← heq] at hst
    have hsrc : (fun k => buf ((Cursor.start pos n).done + k)) = buf := funext fun k => congrArg buf (Nat.zero_add k)
    rw [hsrc] at hst
    refine hst.congr fun k hk => (hpage _ ?_).symm
    have : k < n := hk
    show 4096 * ((pos + k) / 4096) < fin
    omega

end

/-! ## The call -/

/-- The checks of `vsfs_write`. -/
structure WriteAllowed (s : Process) (e : FdTable) (p : Nat) (nbyte : UInt64) : Prop where
  sb : s.sb = true
  opCounter : s.desc.opCounter = true
  flags : e.CanWrite
  sbCached : s.sbCached = true
  limit : s.desc.writeEnd p nbyte ≤ level3LimitTimesBlockSize
  inode : (s.desc.opFtable p).inodeNr < nrInodes

/-- A write of `n` bytes through slot `p` finds what it needs: an end that is no wrapped sum, the free blocks, and a
first block whose number in 16 bits is not taken for one of level 1. -/
structure WriteReady (B : Nat) (s : Process) (p n : Nat) : Prop where
  noWrap : (s.desc.opFtable p).offset + n < 2 ^ 64
  room : (s.inodes (s.desc.opFtable p).inodeNr).blocks ≤ neededBlocks ((s.desc.opFtable p).offset + n) →
    allocTakes (s.inodes (s.desc.opFtable p).inodeNr).blocks (neededBlocks ((s.desc.opFtable p).offset + n) -
      (s.inodes (s.desc.opFtable p).inodeNr).blocks) ≤ s.seg.toVolume.room B
  first : (s.desc.opFtable p).offset / 4096 < 65536 ∨ 49 ≤ (s.desc.opFtable p).offset / 4096 % 65536

/-- The descriptor `fildes` is open on slot `p`. -/
def Process.OpenOn (s : Process) (fildes : Int) (e : FdTable) (p : Nat) : Prop :=
  ∃ b, s.desc.findTarget fildes = .ok (some (b, e)) ∧ e.ptr = some p

/-- What a write to `fin` that has been done leaves: the allocation `v`, and the bytes in the pages of the file. -/
structure WriteDone (B i o n : Nat) (buf : Bytes) (s t : Process) (v : Volume) : Prop where
  alloc : ∃ m, AllocKept B i m s.seg.toVolume v
  after : Evolves B ∅ v t.seg.toVolume
  stored : Stored 4096 (v.page i) o n buf v.disk t.seg.toVolume.disk
  blocks : (v.inode i).blocks = max (s.inodes i).blocks (neededBlocks (o + n))
  other : ∀ j, j ≠ i → t.inodes j = s.inodes j
  newBlocks : (t.inodes i).blocks = (v.inode i).blocks
  newSize : (t.inodes i).size = (o + n) % 2 ^ 32
  sbi : ∃ k, t.cached.sbi = { s.cached.sbi with nrFreeDblock := k }

section

variable (h : s.seg.toVolume.Sound B) (ha : WriteAllowed s e p nbyte) (hr : WriteReady B s p nbyte.toNat)

include ha hr in
theorem WriteReady.limit : (s.desc.opFtable p).offset + nbyte.toNat ≤ level3LimitTimesBlockSize := by
  have := ha.limit
  unfold Desc.writeEnd at this
  rwa [Nat.mod_eq_of_lt hr.noWrap] at this

include h ha hr in
/-- The allocation of a write that finds what it needs. -/
theorem WriteReady.alloc {i fin : Nat} (hi : (s.desc.opFtable p).inodeNr = i)
    (hfin : (s.desc.opFtable p).offset + nbyte.toNat = fin) :
    ∃ u m, (if (s.inodes i).blocks ≤ neededBlocks fin then do
        let (_, u) ← allocBlock i (sub32 (neededBlocks fin) (s.inodes i).blocks) s.seg
        .ok u
      else .ok s.seg : M Segments) = .ok u ∧ AllocKept B i m s.seg.toVolume u.toVolume ∧
      (u.inodes i).blocks = max (s.inodes i).blocks (neededBlocks fin) := by
  have hlim : level3Limit = 1053745 := rfl
  have hbound := hr.limit ha
  have hroom := hr.room
  have hlt := ha.inode
  rw [hi] at hroom hlt
  rw [hfin] at hroom hbound
  have hneed := neededBlocks_le hbound
  by_cases hle : (s.inodes i).blocks ≤ neededBlocks fin
  · rw [if_pos hle, sub32_of_le hle (by omega)]
    obtain ⟨u, hu, hkept⟩ := allocBlock_kept (n := neededBlocks fin - (s.inodes i).blocks) h hlt
      (by show (s.inodes i).blocks + _ ≤ _; omega) (hroom hle)
    have hb : (u.inodes i).blocks = (s.inodes i).blocks + (neededBlocks fin - (s.inodes i).blocks) :=
      hkept.frame.blocks (by show (s.inodes i).blocks + _ < _; omega)
    refine ⟨u, _, ?_, hkept, by omega⟩
    rw [hu]
    rfl
  · rw [if_neg hle]
    exact ⟨s.seg, 0, rfl, .refl i h, by show (s.inodes i).blocks = _; omega⟩

include h ha hr in
/-- **A write that finds what it needs** is done. -/
theorem vsfsWrite_done (now : Nat) (buf : Bytes) (ho : s.OpenOn fildes e p) :
    ∃ t v, vsfsWrite now fildes buf nbyte s = .ok (toInt32 nbyte.toNat, t) ∧
      WriteDone B (s.desc.opFtable p).inodeNr (s.desc.opFtable p).offset nbyte.toNat buf s t v := by
  have hmax : level3LimitTimesBlockSize = 4294972465 := rfl
  obtain ⟨b, hfind, hp⟩ := ho
  have hi := ha.inode
  have hfirst := hr.first
  have hbound := hr.limit ha
  obtain ⟨i, hino⟩ : ∃ i, (s.desc.opFtable p).inodeNr = i := ⟨_, rfl⟩
  obtain ⟨o, hofs⟩ : ∃ o, (s.desc.opFtable p).offset = o := ⟨_, rfl⟩
  obtain ⟨n, hnb⟩ : ∃ n, nbyte.toNat = n := ⟨_, rfl⟩
  obtain ⟨u₁, m, hu₁, hkept, hblocks⟩ := hr.alloc h ha hino (by rw [hofs, hnb])
  rw [hino] at hi
  rw [hofs] at hfirst
  rw [hofs, hnb] at hbound
  rw [hino, hofs, hnb]
  have hcover := le_neededBlocks hbound
  have hwrap : (o + n) % 2 ^ 64 = o + n := Nat.mod_eq_of_lt (by omega)
  have hquot : ¬0x100000000 < (o + n) / blockSize := by
    unfold blockSize
    omega
  -- the time stamps
  have h₂ : Evolves B ∅ u₁.toVolume (u₁.modInode i fun x => { x with atime := now, mtime := now }).toVolume := by
    rw [toVolume_modInode]
    exact modInode_evolves hkept.evolves.sound ⟨rfl, rfl, rfl⟩ (Or.inl rfl)
  obtain ⟨u₂, hu₂⟩ : ∃ u₂, (u₁.modInode i fun x => { x with atime := now, mtime := now }) = u₂ := ⟨_, rfl⟩
  have hb₂ : (u₂.inodes i).blocks = (u₁.inodes i).blocks := by rw [← hu₂, segments_modInode_self]
  have hdisk₂ : u₂.toVolume.disk = u₁.toVolume.disk := by rw [← hu₂]; rfl
  rw [hu₂] at h₂
  -- the copy
  have hcover₂ : o + n ≤ 4096 * (u₂.inodes i).blocks := by
    rw [hb₂, hblocks]
    omega
  obtain ⟨u₃, hu₃, ⟨h₃, hin₃, hca₃⟩, hst⟩ := writeDblock_stored h₂.sound hi hcover₂ hbound hfirst rfl
  have h₄ : Evolves B ∅ u₃.toVolume (u₃.modInode i fun x => { x with size := (o + n) % 2 ^ 32 }).toVolume := by
    rw [toVolume_modInode]
    exact modInode_evolves h₃.sound ⟨rfl, rfl, rfl⟩ (Or.inl rfl)
  obtain ⟨u₄, hu₄⟩ : ∃ u₄, (u₃.modInode i fun x => { x with size := (o + n) % 2 ^ 32 }) = u₄ := ⟨_, rfl⟩
  rw [hu₄] at h₄
  obtain ⟨t, ht⟩ : ∃ t : Process, t = { s.withSeg u₄ with desc := s.desc.setOffset p (o + n) } := ⟨_, rfl⟩
  have hseg : t.seg = u₄ := by rw [ht]; rfl
  have hrun : vsfsWrite now fildes buf nbyte s = .ok (toInt32 n, t) := by
    unfold vsfsWrite
    rw [hfind, ExceptLib.ok_bind]
    dsimp only
    rw [slot_eq_ok.mpr hp, ExceptLib.ok_bind]
    simp only [hino, hofs, hnb, hwrap]
    obtain ⟨fl, hset, hne⟩ := ha.flags
    rw [if_neg (by simp [ha.sb]), if_neg (by simp [ha.opCounter]), accessMode_eq_ok.mpr hset, ExceptLib.ok_bind,
      if_neg hne, if_neg (by simp [ha.sbCached]), if_neg (by omega), if_neg hquot, if_neg (by omega), hu₁, ExceptLib.ok_bind, hu₂, hu₃]
    dsimp only
    rw [hu₄, ht]
    rfl
  have hin₄ : t.inodes = u₄.inodes := congrArg Segments.inodes hseg
  have hca₄ : t.cached = u₁.cached := by
    rw [show t.cached = u₄.cached from congrArg Segments.cached hseg, ← hu₄, ← show u₂.cached = u₁.cached by rw [← hu₂]; rfl]
    exact hca₃
  refine ⟨t, u₁.toVolume, hrun, ⟨m, hkept⟩, ?_, ?_, hblocks, fun j hj => ?_, ?_, ?_, hca₄ ▸ hkept.frame.sbi⟩
  · rw [hseg]
    exact (h₂.trans h₃).trans h₄
  · rw [hseg, ← hu₄, toVolume_modInode]
    rw [hdisk₂] at hst
    refine hst.congr fun k hk => (h₂.page ?_ (Set.notMem_empty _)).symm
    exact dblock_used hi (hb₂ ▸ hcover₂) hbound (by omega)
  · rw [hin₄, ← hu₄, segments_modInode_of_ne _ _ hj, hin₃, ← hu₂, segments_modInode_of_ne _ _ hj]
    exact hkept.frame.other j hj
  · rw [hin₄, ← hu₄, segments_modInode_self, hin₃]
    exact hb₂
  · rw [hin₄, ← hu₄, segments_modInode_self]

include h ha hr in
/-- **A write keeps what it does not write** exactly if the file ended at its end or before. -/
theorem vsfsWrite_kept (now : Nat) (buf : Bytes) (hs : s.seg.toVolume.Sized) (ho : s.OpenOn fildes e p)
    (hn : 1 ≤ nbyte.toNat) (hl : (s.desc.opFtable p).offset + nbyte.toNat < 2 ^ 32) :
    (∃ t, vsfsWrite now fildes buf nbyte s = .ok (toInt32 nbyte.toNat, t) ∧
      WriteKept s.seg.toVolume t.seg.toVolume (s.desc.opFtable p).inodeNr (s.desc.opFtable p).offset nbyte.toNat buf) ↔
    (s.inodes (s.desc.opFtable p).inodeNr).fileSize ≤ (s.desc.opFtable p).offset + nbyte.toNat := by
  obtain ⟨t, v, hrun, ⟨m, hkept⟩, hev, hst, hblocks, hother, -, hsize, -⟩ := vsfsWrite_done h ha hr now buf ho
  have hbound := hr.limit ha
  have hcover : (s.desc.opFtable p).offset + nbyte.toNat ≤ 4096 * (v.inode (s.desc.opFtable p).inodeNr).blocks := by
    have := le_neededBlocks hbound
    rw [hblocks]
    omega
  have hfile : (t.inodes (s.desc.opFtable p).inodeNr).fileSize = (s.desc.opFtable p).offset + nbyte.toNat := by
    unfold Inode.fileSize
    rw [hsize, Nat.mod_eq_of_lt hl, if_neg (by omega)]
  have hiff := writeKept_iff hs ha.inode hkept hev hst hcover hbound hother hfile
  constructor
  · rintro ⟨t', hrun', hw⟩
    rw [hrun] at hrun'
    cases hrun'
    exact hiff.mp hw
  · intro hle
    exact ⟨t, hrun, hiff.mpr hle⟩

end

end Vsfs.Shm
