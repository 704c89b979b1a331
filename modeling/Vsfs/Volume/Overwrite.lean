import Vsfs.Volume.Content

/-!
# What `vsfs_write` does to the files

`vsfs_write` gives the file the blocks that the end of the write needs, copies the bytes to the blocks that the file
object lists, and sets the size to the end of the write.

- `Written.run`: what `Written` describes is computed;
- `vsfsWrite_done`: with a current list and enough free blocks the call succeeds and stores the bytes;
- `vsfsWrite_kept_iff`: then the file is as it should be exactly if it ended at the end of the write or before.
-/

set_option autoImplicit false

namespace Vsfs

open Function ByteSeq PointerForest WordBits Paged

variable {B i m o n q : Nat} {s t : State} {v v₁ v₂ : Volume} {f : File} {buf : Bytes} {now : Nat} {fildes : Int}
  {nbyte : UInt64} {e : FdTable} {p a : Nat}

/-! ## The call -/

/-- What `Written` describes is computed. -/
theorem Written.run (ho : s.OpenOn fildes e p) (ha : WriteAllowed s e p nbyte)
    (hw : Written now p buf nbyte s t a f v₁ v₂) :
    vsfsWrite now fildes buf nbyte s = .ok (toInt32 nbyte.toNat, t) := by
  obtain ⟨b, hfind, hp⟩ := ho
  have hlim := ha.limit
  have hquot : ¬0x100000000 < s.desc.writeEnd p nbyte / blockSize := by
    unfold level3LimitTimesBlockSize at hlim
    unfold blockSize
    omega
  have hdata := hw.data
  have hfin : ((s.desc.opFtable p).offset + nbyte.toNat) % 2 ^ 64 = s.desc.writeEnd p nbyte := rfl
  unfold vsfsWrite
  rw [hfind, ExceptLib.ok_bind]
  dsimp only
  rw [slot_eq_ok.mpr hp, ExceptLib.ok_bind]
  simp only [hfin]
  obtain ⟨fl, hset, hne⟩ := ha.flags
  rw [if_neg (by simp [ha.opCounter]), accessMode_eq_ok.mpr hset, ExceptLib.ok_bind, if_neg hne, if_neg ha.sbCached,
    if_neg (by omega), if_neg hquot, (inodeAt_eq_ok _ _).mpr ⟨ha.inode, rfl⟩, ExceptLib.ok_bind]
  rcases hw.alloc with ⟨hle, ⟨r, hr⟩, ⟨g, hg⟩, hinfo⟩ | ⟨hlt, rfl, hfile⟩
  · rw [if_pos hle, hr, ExceptLib.ok_bind, fileOf_eq_ok.mpr ⟨hw.filePtr, hg⟩, ExceptLib.ok_bind]
    dsimp only
    rw [hinfo, ExceptLib.ok_bind, ExceptLib.ok_bind]
    dsimp only
    have hcopy : (s.desc.modFile a f).fileOf p = .ok (a, f) := fileOf_eq_ok.mpr ⟨hw.filePtr, update_self ..⟩
    rw [hcopy, ExceptLib.ok_bind]
    dsimp only
    rw [hdata, ExceptLib.ok_bind, hw.result]
    simp [Desc.modFile, Desc.setOffset]
  · rw [if_neg (by omega), ExceptLib.ok_bind, fileOf_eq_ok.mpr ⟨hw.filePtr, hfile⟩, ExceptLib.ok_bind]
    dsimp only
    rw [hdata, ExceptLib.ok_bind, hw.result]

/-! ## What the call needs -/

/-- The file object lists the blocks of inode `i` that hold the bytes from `o` to `o + n`. -/
def Lists (v : Volume) (i : Nat) (f : File) (o n : Nat) : Prop :=
  ∀ q, o / 4096 ≤ q → 4096 * q < o + n → f.block[q]? = some (v.val (i, dataRef q))

theorem InfoCopied.lists (h : InfoCopied v i f) (hn : o + n ≤ 4096 * (v.inode i).blocks) : Lists v i f o n := by
  intro q _ hq
  rw [h.block]
  exact dataBlocks_getElem (by omega)

/-- A write of `n` bytes through slot `p` finds what it needs: the handles, a file object that lists the blocks unless
it is made anew, and the free blocks. -/
structure WriteReady (B : Nat) (s : State) (e : FdTable) (p n : Nat) : Prop where
  opCounter : s.desc.opCounter = true
  flags : e.CanWrite
  sbCached : s.sbCached ≠ none
  inode : (s.desc.opFtable p).inodeNr < nrInodes
  file : ∃ a f, (s.desc.opFtable p).filePtr = some a ∧ s.desc.files a = some f ∧
    (neededBlocks ((s.desc.opFtable p).offset + n) < (s.vol.inode (s.desc.opFtable p).inodeNr).blocks →
      Lists s.vol (s.desc.opFtable p).inodeNr f (s.desc.opFtable p).offset n)
  room : (s.vol.inode (s.desc.opFtable p).inodeNr).blocks ≤ neededBlocks ((s.desc.opFtable p).offset + n) →
    allocTakes (s.vol.inode (s.desc.opFtable p).inodeNr).blocks (neededBlocks ((s.desc.opFtable p).offset + n) -
      (s.vol.inode (s.desc.opFtable p).inodeNr).blocks) ≤ s.vol.room B

/-- The blocks of a file are at different places. -/
theorem Volume.Sound.pagesApart (h : v.Sound B) (hi : i < nrInodes) (hb : o + n ≤ 4096 * (v.inode i).blocks)
    (hl : o + n ≤ level3LimitTimesBlockSize) : PagesApart (v.page i) (o / 4096) (o + n) := by
  have hlim : level3Limit = 1053745 := rfl
  have hmax : level3LimitTimesBlockSize = 4294972465 := rfl
  intro q r _ _ hq hr he
  have hpair := h.page_inj (data_used hi (by omega) (by omega)) (data_used hi (by omega) (by omega)) he
  exact dataRef_inj (by omega) (by omega) hpair.2

/-- The data of the write, in the blocks that the file object lists. -/
theorem writeDblock_stored {w : Volume} (buf : Bytes) (h : v.Sound B) (hi : i < nrInodes) (hw : w.disk = v.disk)
    (hofs : w.cached.sbi = v.cached.sbi) (hb : o + n ≤ 4096 * (v.inode i).blocks)
    (hl : o + n ≤ level3LimitTimesBlockSize)
    (hf : Lists v i f o n) :
    ∃ u, writeDblock f o n buf w = .ok u ∧ Stored 4096 (v.page i) o n buf v.disk u.disk := by
  have hbs : blockSize = 4096 := rfl
  have hmax : level3LimitTimesBlockSize = 4294972465 := rfl
  obtain ⟨u, hu, hst⟩ := @writeLoop_stored w f.block buf n (o / 4096) 0 (o % 4096) n (v.page i) (Nat.le_refl n)
    (Nat.mod_lt _ (by decide)) (fun q hq hlt => ⟨_, hf q hq (by omega), by unfold Volume.page Volume.lba; rw [hofs]⟩)
    (by rw [Nat.div_add_mod]; exact h.pagesApart hi hb hl)
  rw [Nat.div_add_mod] at hst
  simp only [Nat.zero_add] at hst
  refine ⟨u, ?_, hw ▸ hst⟩
  unfold writeDblock
  rw [hbs, Nat.mod_eq_of_lt (by omega : o / 4096 < 2 ^ 32)]
  exact hu

/-- What a write that has been done leaves: the allocation, and the bytes in the pages of the file. -/
structure WriteDone (B p n : Nat) (buf : Bytes) (s t : State) (v : Volume) : Prop where
  alloc : ∃ m, AllocKept B (s.desc.opFtable p).inodeNr m s.vol v
  evolved : WriteEvolved B ∅ p ((s.desc.opFtable p).offset + n) s t v
  stored : Stored 4096 (v.page (s.desc.opFtable p).inodeNr) (s.desc.opFtable p).offset n buf v.disk t.vol.disk

section

variable (h : s.vol.Sound B) (hr : WriteReady B s e p nbyte.toNat)
  (hl : (s.desc.opFtable p).offset + nbyte.toNat < 2 ^ 32)

include hl in
/-- The end of the write is computed without wrap-around, and is inside the limit. -/
theorem writeEnd_eq : s.desc.writeEnd p nbyte = (s.desc.opFtable p).offset + nbyte.toNat ∧
    (s.desc.opFtable p).offset + nbyte.toNat ≤ level3LimitTimesBlockSize := by
  refine ⟨Nat.mod_eq_of_lt (by omega), ?_⟩
  unfold level3LimitTimesBlockSize
  omega

include hr hl in
theorem WriteReady.allowed : WriteAllowed s e p nbyte := by
  obtain ⟨hfin, hbound⟩ := writeEnd_eq hl
  exact ⟨hr.opCounter, hr.flags, hr.sbCached, by rwa [hfin], hr.inode⟩

include hr hl in
theorem WriteReady.writeRoom : WriteRoom B s p nbyte := by
  have hlim : level3Limit = 1053745 := rfl
  obtain ⟨hfin, hbound⟩ := writeEnd_eq hl
  have hneed := neededBlocks_le hbound
  intro hle
  rw [hfin] at hle ⊢
  rw [sub32_of_le hle (by omega)]
  exact (need_le_allocTakes (by omega)).trans (hr.room hle)

include h hr hl in
/-- The allocation of the write, and the file object that the data is written through. -/
theorem WriteReady.alloc :
    ∃ a f v m, (s.desc.opFtable p).filePtr = some a ∧ AllocKept B (s.desc.opFtable p).inodeNr m s.vol v ∧
      Lists v (s.desc.opFtable p).inodeNr f (s.desc.opFtable p).offset nbyte.toNat ∧
      neededBlocks (s.desc.writeEnd p nbyte) ≤ (v.inode (s.desc.opFtable p).inodeNr).blocks ∧
      (((s.vol.inode (s.desc.opFtable p).inodeNr).blocks ≤ neededBlocks (s.desc.writeEnd p nbyte) ∧
        (∃ r, allocBlock s.vol.cached.sbi.ofsDregion (s.desc.opFtable p).inodeNr
          (sub32 (neededBlocks (s.desc.writeEnd p nbyte)) (s.vol.inode (s.desc.opFtable p).inodeNr).blocks) s.vol =
            .ok (r, v)) ∧
        (∃ g, s.desc.files a = some g) ∧ vsfsGetInodeInfo v (s.desc.opFtable p).inodeNr = .ok f) ∨
      (neededBlocks (s.desc.writeEnd p nbyte) < (s.vol.inode (s.desc.opFtable p).inodeNr).blocks ∧ v = s.vol ∧
        s.desc.files a = some f)) := by
  have hlim : level3Limit = 1053745 := rfl
  have hi := hr.inode
  have hroom := hr.room
  obtain ⟨a, g, hfp, hfile, hlists⟩ := hr.file
  obtain ⟨hfin, hbound⟩ := writeEnd_eq hl
  have hneed := neededBlocks_le hbound
  have hcover := le_neededBlocks hbound
  rw [hfin]
  obtain ⟨fin, hfin⟩ : ∃ fin, (s.desc.opFtable p).offset + nbyte.toNat = fin := ⟨_, rfl⟩
  rw [hfin] at hlists hroom hneed hcover ⊢
  obtain ⟨i, hino⟩ : ∃ i, (s.desc.opFtable p).inodeNr = i := ⟨_, rfl⟩
  rw [hino] at hi hlists hroom ⊢
  by_cases hle : (s.vol.inode i).blocks ≤ neededBlocks fin
  · have hn : (s.vol.inode i).blocks + (neededBlocks fin - (s.vol.inode i).blocks) ≤ level3Limit := by omega
    rw [sub32_of_le hle (by omega)]
    obtain ⟨w, hw⟩ := allocBlock_ok h hi hn (hroom hle)
    have hkept := allocBlock_kept h hi hn (hroom hle) hw
    have hblocks := hkept.frame.blocks (by omega)
    obtain ⟨f, hf⟩ := vsfsGetInodeInfo_ok (v := w) hi (by omega)
    refine ⟨a, f, w, _, hfp, hkept, ?_, by omega, Or.inl ⟨hle, ⟨0, hw⟩, ⟨g, hfile⟩, hf⟩⟩
    exact (vsfsGetInodeInfo_spec hf).lists (by omega)
  · exact ⟨a, g, s.vol, 0, hfp, .refl i h, hlists (by omega), by omega, Or.inr ⟨by omega, rfl, hfile⟩⟩

include h hr hl in
/-- **A write that finds what it needs** is done. -/
theorem vsfsWrite_done (now : Nat) (buf : Bytes) (hf : s.FilesWritable B) (ho : s.OpenOn fildes e p) :
    ∃ t v, vsfsWrite now fildes buf nbyte s = .ok (toInt32 nbyte.toNat, t) ∧ WriteDone B p nbyte.toNat buf s t v := by
  obtain ⟨a, f, v, m, hfp, hkept, hlists, hblocks, halloc⟩ := hr.alloc h hl
  obtain ⟨hfin, hbound⟩ := writeEnd_eq hl
  have hcover : (s.desc.opFtable p).offset + nbyte.toNat ≤ 4096 * (v.inode (s.desc.opFtable p).inodeNr).blocks := by
    have := le_neededBlocks hbound
    rw [hfin] at hblocks
    omega
  obtain ⟨u, hu, hst⟩ := writeDblock_stored (f := { f with atime := now, mtime := now }) buf
    (w := v.modInode (s.desc.opFtable p).inodeNr fun x => { x with atime := now, mtime := now })
    hkept.evolves.sound hr.inode rfl rfl hcover hbound hlists
  have hw : Written now p buf nbyte s _ a f v u := ⟨hfp, halloc, hu, rfl⟩
  refine ⟨_, v, hw.run ho (hr.allowed hl), ⟨m, hkept⟩, ?_, hst⟩
  rw [← hfin]
  exact write_steps h hf (hr.allowed hl) (hr.writeRoom hl) hw

end

/-! ## What is kept -/

/-- **A write keeps what it does not write** exactly if the file ended at its end or before. -/
theorem vsfsWrite_kept_iff (h : ReachedBy OwnershipOk s) (ho : s.OpenOn fildes e p)
    (hr : WriteReady s.vol.cached.sbi.nrDregionBlocks s e p nbyte.toNat) (hn : 1 ≤ nbyte.toNat)
    (hl : (s.desc.opFtable p).offset + nbyte.toNat < 2 ^ 32) :
    (∃ t, vsfsWrite now fildes buf nbyte s = .ok (toInt32 nbyte.toNat, t) ∧ WriteKept s.vol t.vol
      (s.desc.opFtable p).inodeNr (s.desc.opFtable p).offset nbyte.toNat buf) ↔
    (s.vol.inode (s.desc.opFtable p).inodeNr).fileSize ≤ (s.desc.opFtable p).offset + nbyte.toNat := by
  obtain ⟨n, hreach⟩ := h
  have hsized := ReachedBy.sized ⟨n, hreach⟩
  obtain ⟨hst, _⟩ := hreach.owned
  rw [hst.fits.regions.nrDregionBlocks] at hr
  obtain ⟨t, v, hrun, ⟨m, hkept⟩, hev, hstored⟩ := vsfsWrite_done hst.sound hr hl now buf hst.files ho
  have hcover : (s.desc.opFtable p).offset + nbyte.toNat ≤ 4096 * (v.inode (s.desc.opFtable p).inodeNr).blocks := by
    have := le_neededBlocks (writeEnd_eq hl).2
    rw [hev.blocks]
    omega
  have hsize : (t.vol.inode (s.desc.opFtable p).inodeNr).fileSize = (s.desc.opFtable p).offset + nbyte.toNat := by
    unfold Inode.fileSize
    rw [hev.newSize, Nat.mod_eq_of_lt hl, if_neg (by omega)]
  have hiff := writeKept_iff hsized hr.inode hkept hev.after hstored hcover (writeEnd_eq hl).2 hev.other hsize
  constructor
  · rintro ⟨t', hrun', hw⟩
    rw [hrun] at hrun'
    cases hrun'
    exact hiff.mp hw
  · intro hle
    exact ⟨t, hrun, hiff.mpr hle⟩

end Vsfs
