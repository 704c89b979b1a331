import Vsfs.Lib.LastWriter
import Vsfs.Volume.Limit
import Vsfs.Volume.Processes
import Vsfs.Volume.ReadFit

/-!
# Files hold the bytes that were written last

A place is a byte of a file: the number of an inode and a position. `vsfs_write` puts the bytes of its buffer at the
places from the offset of its descriptor on, whichever process makes the call and whatever its file object says of the
size.

- `Written.placed`: the bytes go to the blocks of the file that belong to these places;
- `Orderly.puts`, `Orderly.spares`: what one call leaves at a place;
- `last_write_wins`: in every interleaving each place holds what was written there last;
- `page_reads_last_writes`: and a read from the start of a block brings it.
-/

set_option autoImplicit false

namespace Vsfs

open Function ByteSeq WordBits PointerForest GuardedRun Interleaving LastWriter Paged

variable {n B i j k m o : Nat} {s t u : State} {v w : Volume} {c : Call} {f g : File} {b : UInt8}

/-! ## Places -/

/-- A block of the file reaches the place, and `b` is the byte there. -/
structure Volume.Holds (v : Volume) (x : Nat × Nat) (b : UInt8) : Prop where
  used : (x.1, dataRef (x.2 / 4096)) ∈ v.used
  byte : v.byteAt x.1 x.2 = b

/-- A reference to a data block in the map is one of the blocks that the inode has. -/
theorem dataRef_lt (h : (i, dataRef k) ∈ v.used) : k < (v.inode i).blocks ∧ k < level3Limit := by
  obtain ⟨-, hv, hf⟩ := h
  have hk : k < level3Limit := by
    unfold dataRef at hv
    unfold level3Limit
    split_ifs at hv <;> simp only [Ref.Valid] at hv <;> omega
  rw [(dataRef_spec hk).2.2] at hf
  exact ⟨hf, hk⟩

theorem Volume.Holds.lt (h : v.Holds (i, k) b) : i < nrInodes ∧ k < 4096 * (v.inode i).blocks := by
  have hq : k / 4096 < (v.inode i).blocks := (dataRef_lt h.used).1
  exact ⟨h.used.1, by omega⟩

/-- A file that is kept. -/
theorem FileKept.holds (h : FileKept v w i) (hb : v.Holds (i, k) b) : w.Holds (i, k) b := by
  obtain ⟨hi, hk⟩ := hb.lt
  obtain ⟨hq, hlim⟩ := dataRef_lt hb.used
  exact ⟨data_used hi (by rw [h.blocks]; exact hq) hlim, (h.bytes k hk).trans hb.byte⟩

/-- A block that reaches the place stays in use. -/
theorem Evolves.holds (he : Evolves B ∅ v w)
    (hd : (i, dataRef (k / 4096)) ∈ v.used → k / 4096 < level3Limit → w.byteAt i k = v.byteAt i k)
    (hb : v.Holds (i, k) b) : w.Holds (i, k) b :=
  ⟨(he.keep _ hb.used (Set.notMem_empty _)).1, (hd hb.used (dataRef_lt hb.used).2).trans hb.byte⟩

/-- A change of the cached data. -/
theorem Evolves.holds_of_disk (he : Evolves B ∅ v w) (hd : w.disk = v.disk) (hb : v.Holds (i, k) b) :
    w.Holds (i, k) b := by
  refine he.holds (fun hu _ => ?_) hb
  unfold Volume.byteAt cell
  rw [he.page hu (Set.notMem_empty _), hd]

theorem Touched.holds_byte (ht : Touched v w) (hs : v.Sound B) (hb : v.Holds (i, k) b) : w.Holds (i, k) b :=
  (ht.evolves hs).holds_of_disk ht.disk hb

/-- An allocation keeps all bytes. -/
theorem AllocKept.holds (h : AllocKept B j m v w) (hb : v.Holds (i, k) b) : w.Holds (i, k) b := by
  refine h.evolves.holds (fun hu hq => ?_) hb
  unfold Volume.byteAt cell
  rw [h.evolves.page hu (Set.notMem_empty _), h.disk_page hu hq]

section

variable {v₁ : Volume} {buf : Bytes} (hi : i < nrInodes) (h₂ : Evolves B ∅ v₁ w)
  (hst : Stored 4096 (v₁.page i) o n buf v₁.disk w.disk) (hblk : o + n ≤ 4096 * (v₁.inode i).blocks)
  (hlim : o + n ≤ level3LimitTimesBlockSize)

include hi h₂ hst hblk hlim

/-- The bytes that have been stored. -/
theorem stored_holds (hk : k < n) : w.Holds (i, o + k) (buf k) :=
  ⟨(h₂.keep _ (range_used hi hblk hlim hk).1 (Set.notMem_empty _)).1, stored_inside hi h₂ hst hblk hlim hk⟩

/-- The bytes outside the range, and those of other files. -/
theorem stored_spares (h₁ : AllocKept B i m v v₁) (hout : j ≠ i ∨ k < o ∨ o + n ≤ k) (hb : v.Holds (j, k) b) :
    w.Holds (j, k) b :=
  (h₁.evolves.trans h₂).holds (fun hu hq => stored_elsewhere hi h₁ h₂ hst hblk hlim hu hq hout) hb

end

/-! ## What a write does -/

/-- The list of blocks is no longer than the map. -/
theorem File.FromMap.length_le (h : f.FromMap v) :
    f.block.length ≤ (v.inode f.inode).blocks ∧ f.block.length ≤ level3Limit := by
  by_cases h0 : f.block.length = 0
  · omega
  · have hlast := List.getElem?_eq_getElem (l := f.block) (i := f.block.length - 1) (by omega)
    have := dataRef_lt (h _ _ hlast).1
    omega

section

variable {now p a : Nat} {buf : Bytes} {nbyte : UInt64} {fildes : Int} {e : FdTable} {v₁ v₂ : Volume}

/-- **Where the bytes go**: a write that has been done ends in the blocks of the file, and the file object lists those
of the range. -/
theorem Written.placed (hw : Written now p buf nbyte s t a f v₁ v₂) (ha : WriteAllowed s e p nbyte)
    (ho : (s.desc.opFtable p).offset < 2 ^ 64) (hn : nbyte.toNat ≠ 0) (hi : f.inode = i) (hf : f.FromMap v₁) :
    (s.desc.opFtable p).offset + nbyte.toNat ≤ 4096 * (v₁.inode i).blocks ∧
      (s.desc.opFtable p).offset + nbyte.toNat ≤ level3LimitTimesBlockSize ∧
      Lists v₁ i f (s.desc.opFtable p).offset nbyte.toNat := by
  have hlim : level3Limit = 1053745 := rfl
  have hmax : level3LimitTimesBlockSize = 4294972465 := rfl
  have hlen := hf.length_le
  have hend := ha.limit
  have hdata := hw.data
  unfold Desc.writeEnd at hend
  unfold writeDblock blockSize at hdata
  have hin := ((writeLoop_ok_iff (Nat.le_refl _) (Nat.mod_lt _ (by decide))).mp ⟨_, hdata⟩).resolve_left hn
  dsimp only at hin
  rw [hi] at hlen
  obtain ⟨l, hl⟩ : ∃ l, f.block.length = l := ⟨_, rfl⟩
  rw [hl] at hin hlen
  -- an end behind 2 ^ 64 would take more blocks than there are
  have hnb := nbyte.toNat_lt
  refine ⟨by omega, by omega, fun q _ hq => ?_⟩
  have hlt : q < f.block.length := by omega
  have hb := List.getElem?_eq_getElem hlt
  rw [hb, ← hi, (hf q _ hb).2]

/-- The allocation of a write that finds room. -/
theorem Written.allocKept (hw : Written now p buf nbyte s t a f v₁ v₂) (hs : s.vol.Sound B)
    (ha : WriteAllowed s e p nbyte) (hr : WriteRoom B s p nbyte) :
    ∃ m, AllocKept B (s.desc.opFtable p).inodeNr m s.vol v₁ := by
  have hlim : level3Limit = 1053745 := rfl
  have hneed := neededBlocks_le ha.limit
  rcases hw.alloc with ⟨hle, ⟨r, hal⟩, -⟩ | ⟨-, rfl, -⟩
  · obtain ⟨hev, hf, hd⟩ := alloc_evolves (E := ∅) hs ha.inode (by omega) (hr hle) hal
    exact ⟨_, hev, hf, hd⟩
  · exact ⟨0, .refl _ hs⟩

/-- **A write that has been done** is done as one that finds what it needs, although the file object may be an old copy
of the inode. -/
theorem Orderly.writeDone (h : Orderly n s) (ho : (s.desc.opFtable p).offset < 2 ^ 64) (ha : WriteAllowed s e p nbyte)
    (hr : WriteRoom (superblockInfo n).nrDregionBlocks s p nbyte) (hw : Written now p buf nbyte s t a f v₁ v₂) :
    (s.desc.opFtable p).offset + nbyte.toNat ≤ level3LimitTimesBlockSize ∧
      WriteDone (superblockInfo n).nrDregionBlocks p nbyte.toNat buf s t v₁ := by
  have hmax : level3LimitTimesBlockSize = 4294972465 := rfl
  have hev := write_steps (E := ∅) h.steady.sound h.steady.files ha hr hw
  have hdisk : t.vol.disk = v₂.disk := by
    rw [hw.result]
    rfl
  have hend : s.desc.writeEnd p nbyte = ((s.desc.opFtable p).offset + nbyte.toNat) % 2 ^ 64 := rfl
  have halloc := hw.allocKept h.steady.sound ha hr
  obtain ⟨hi, hf⟩ := h.written_fromMap hw
  have hlim := ha.limit
  by_cases hn : nbyte.toNat = 0
  · rw [hend, hn, Nat.add_zero, Nat.mod_eq_of_lt ho] at hlim
    have hdata := hw.data
    unfold writeDblock at hdata
    rw [hn, writeLoop_zero] at hdata
    cases hdata
    refine ⟨by rw [hn]; exact hlim, halloc, ?_, ?_⟩
    · rw [hend, hn, Nat.add_zero, Nat.mod_eq_of_lt ho] at hev
      rw [hn]
      exact hev
    · rw [hn, hdisk]
      exact .nil ..
  · obtain ⟨hcover, hbound, hlists⟩ := hw.placed ha ho hn hi hf
    obtain ⟨u, hu, hst⟩ := writeDblock_stored (f := { f with atime := now, mtime := now }) buf
      (w := v₁.modInode (s.desc.opFtable p).inodeNr fun x => { x with atime := now, mtime := now })
      hev.before.sound ha.inode rfl rfl hcover hbound hlists
    rw [hw.data] at hu
    cases hu
    refine ⟨hbound, halloc, ?_, by rw [hdisk]; exact hst⟩
    rwa [hend, Nat.mod_eq_of_lt (by omega)] at hev

end

/-! ## What a call leaves at a place -/

/-- What a call puts at a place: `vsfs_write`, the bytes of its buffer. -/
def PutsByte : Call → State → Nat × Nat → UInt8 → Prop
  | .write fildes buf nbyte, s, x, b => ∃ e p k, s.OpenOn fildes e p ∧ WriteAllowed s e p nbyte ∧ k < nbyte.toNat ∧
      x = ((s.desc.opFtable p).inodeNr, (s.desc.opFtable p).offset + k) ∧ b = buf k
  | _, _, _, _ => False

/-- The places that a call may change in another way: `vsfs_creat`, those of the new file and of the directory. -/
def SpoilsByte : Call → State → Nat × Nat → Prop
  | .creat name blockNum, s, x => MadeFor (.creat name blockNum) s x.1
  | _, _, _ => False

/-- The offsets are 64-bit numbers. -/
def Desc.Offsets (d : Desc) : Prop := ∀ q, (d.opFtable q).offset < 2 ^ 64

theorem Desc.Offsets.setOffset {d d' : Desc} {p : Nat} (h : d.Offsets) (hop : d'.opFtable = (d.setOffset p o).opFtable)
    (ho : o < 2 ^ 64) : d'.Offsets := by
  intro q
  rw [hop]
  simp only [Desc.setOffset, update_apply]
  split
  case isTrue => exact ho
  case isFalse => exact h q

theorem Desc.Offsets.step (h : s.desc.Offsets) (hs : Step c s t) : t.desc.Offsets := by
  have hsame : t.desc = s.desc → t.desc.Offsets := fun hd => hd.symm ▸ h
  obtain ⟨now, ret, -, hr⟩ := hs
  cases c with
  | creat name blockNum => exact hsame (vsfsCreat_desc hr)
  | «open» pathname flags =>
    obtain ⟨_, _, rfl⟩ | ⟨_, fd, b, d, hadd, ⟨_, ht⟩ | ⟨target, info, _, _, _, _, ht⟩⟩ := vsfsOpen_cases hr
    · exact h
    · exact fun q => by rw [ht.opFtable]; exact h q
    · obtain ⟨-, hop, -⟩ := addFdTable_optab hadd
      intro q
      rw [ht]
      simp only [Desc.takeSlot, update_apply]
      split
      case isTrue => exact Nat.two_pow_pos 64
      case isFalse =>
        rw [show d.opFtable = s.desc.opFtable from hop]
        exact h q
  | stat pathname =>
    obtain ⟨⟨r, fre, u⟩, hst, hr⟩ := ExceptLib.bind_eq_ok.mp hr
    cases hr
    exact hsame (vsfsStat_desc hst)
  | close fildes =>
    intro q
    rcases (vsfsClose_nodes hr).slots with hq | ⟨_, _, p, _, _, _, _, hp, hq⟩
    · rw [(hq q).offset]
      exact h q
    · by_cases hqp : q = p
      · rw [hqp, hp.offset]
        exact h _
      · rw [(hq q hqp).offset]
        exact h q
  | write fildes buf nbyte =>
    obtain ⟨b, e, p, hfind, hp, ⟨_, rfl⟩ | ⟨_, _, a, f, v₁, v₂, hw⟩⟩ := vsfsWrite_cases hr
    · exact h
    · exact h.setOffset (by rw [hw.result]; rfl) (Nat.mod_lt _ (by decide))
  | read fildes buf nbyte =>
    obtain ⟨⟨r, b, u⟩, hrd, hr⟩ := ExceptLib.bind_eq_ok.mp hr
    cases hr
    obtain ⟨_, rfl, _⟩ | ⟨b, e, p, a, f, readed, hfind, hp, _, hd⟩ := vsfsRead_cases hrd
    · exact h
    · exact h.setOffset (by rw [hd.result]; rfl) (Nat.mod_lt _ (by decide))
  | lseek fildes offset whence =>
    obtain ⟨⟨r, u⟩, hl, hr⟩ := ExceptLib.bind_eq_ok.mp hr
    cases hr
    obtain ⟨_, ht, _⟩ | ⟨b, e, p, a, f, s', hs', _, _, _, _, ⟨o, ht, ho⟩ | ⟨_, _, info, v, hg⟩⟩ := vsfsLseek_cases hl
    · exact hsame (by rw [ht])
    · refine h.setOffset (p := p) (o := o) (by rw [ht]) ?_
      -- the size that `SEEK_END` moves to is below a 64-bit number
      rcases ho with ⟨_, _, rfl, _⟩ | ⟨_, rfl, _⟩ | ⟨_, _, rfl, _⟩
      · exact offset.toNat_lt
      · split <;> omega
      · omega
    · have hd : s'.desc = s.desc := by rw [(setInodeReg_eq_ok hs').1]
      exact h.setOffset (by rw [hg.result, hd]; rfl) offset.toNat_lt

/-- **A byte that is put** is there after the call. -/
theorem Orderly.puts {x : Nat × Nat} (h : Orderly n s) (ho : s.desc.Offsets) (hok : ServedOk c s) (hs : Step c s t)
    (hp : PutsByte c s x b) : t.vol.Holds x b := by
  cases c with
  | write fildes buf nbyte =>
    obtain ⟨e, p, k, ⟨b₀, hfind, hptr⟩, ha, hk, rfl, rfl⟩ := hp
    obtain ⟨now, ret, -, hr⟩ := hs
    obtain ⟨-, -, a, f, v₁, v₂, hw⟩ := vsfsWrite_written hfind hptr ha.opCounter ha.flags ha.sbCached ha.limit hr
    have hroom := hok.1.1 b₀ e p hfind hptr ha
    rw [h.steady.fits.regions.nrDregionBlocks] at hroom
    obtain ⟨hbound, hdone⟩ := h.writeDone (ho p) ha hroom hw
    have hcover := le_neededBlocks hbound
    have hblocks := hdone.evolved.blocks
    have hin : (s.desc.opFtable p).offset + nbyte.toNat ≤ 4096 * (v₁.inode (s.desc.opFtable p).inodeNr).blocks := by omega
    exact stored_holds ha.inode hdone.evolved.after hdone.stored hin hbound hk
  | _ => exact hp.elim

/-- **A place that is left alone** keeps its byte. -/
theorem Orderly.spares (hl : 2052 ≤ n) (hu : n < 2 ^ 32) (h : Orderly n s) (ho : s.desc.Offsets) (hok : StoredOk c s)
    (hs : Step c s t) (hp : ∀ b, ¬PutsByte c s (i, k) b) (hsp : ¬SpoilsByte c s (i, k))
    (hb : s.vol.Holds (i, k) b) : t.vol.Holds (i, k) b := by
  have hsound := h.steady.sound
  obtain ⟨hserved, hdir⟩ := hok
  have ha := hserved.1.1
  rw [h.steady.fits.regions.nrDregionBlocks] at ha
  have heff := h.steady.volumeEffect (superblockInfo_layout hl hu).nrIbitmapBlocks ha hs
  cases heff with
  | touched ht => exact ht.holds_byte hsound hb
  | entered hc he hi hd =>
    subst hc
    exact (h.isolated hl hu hserved hdir hs hb.lt.1 hsp).holds hb
  | @written now p a fildes buf nbyte e f v₁ v₂ hc hop hal hr hw =>
    subst hc
    obtain ⟨hbound, ⟨m, hkept⟩, hev, hst⟩ := h.writeDone (ho p) hal hr hw
    have hcover := le_neededBlocks hbound
    have hblocks := hev.blocks
    refine stored_spares hal.inode hev.after hst (by omega) hbound hkept ?_ hb
    -- a place in the range would have been written
    by_contra hout
    obtain ⟨hji, hk⟩ := not_or.mp hout
    have hji := not_not.mp hji
    refine hp (buf (k - (s.desc.opFtable p).offset)) ⟨e, p, _, hop, hal, by omega, ?_, rfl⟩
    rw [hji, Nat.add_sub_cancel' (by omega)]
  | grown hc hop hg =>
    obtain ⟨m, r, hroom, hal⟩ := hg.alloc
    obtain ⟨hev, hf, hd⟩ := alloc_evolves (E := ∅) hsound hg.inode hg.limit hroom hal
    exact AllocKept.holds ⟨hev, hf, hd⟩ hb

/-! ## What a read brings -/

section

variable {a p : Nat} {buf : Bytes} {nbyte : UInt64} {fildes : Int} {l : Nat}

end

/-! ## All processes -/

section

variable {ι : Type}

/-- What the calls of the processes put at the places of files. -/
def fileAccesses (ι : Type) : Accesses (ι × Call) (Machine ι) (Nat × Nat) UInt8 where
  puts l m := PutsByte l.2 (m.at l.1)
  spoils l m := SpoilsByte l.2 (m.at l.1)

variable [DecidableEq ι] {m : Machine ι} {disk : Nat → Block} {seg : Bytes}

end

end Vsfs
