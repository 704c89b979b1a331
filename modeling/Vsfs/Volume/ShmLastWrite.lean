import Vsfs.Volume.LastWrite
import Vsfs.Volume.ShmReadFit
import Vsfs.Volume.ShmTransfer

/-!
# The shared-memory variant reads the bytes that were written last

The same for `vsfsio.h`, where a read gathers the bytes of all blocks. The files are in a segment that all processes
share.

- `Sane.puts`, `Sane.spares`: what one call leaves at a place;
- `vsfsRead_bytes`: what a read brings;
- `last_write_read`: in every interleaving a read by any process brings the bytes that were written last, by whichever
  process.
-/

set_option autoImplicit false

namespace Vsfs.Shm

open Function ByteSeq WordBits GuardedRun Interleaving LastWriter Paged

variable {B i j k n o p q : Nat} {sb : SbInfo} {s t : Process} {u : Segments} {c : Call} {b : UInt8} {now : Nat}
  {fildes ret : Int} {buf : Bytes} {nbyte : UInt64} {e : FdTable}

/-! ## What a call leaves at a place -/

/-- What a call puts at a place: `vsfs_write`, the bytes of its buffer. -/
def PutsByte : Call → Process → Nat × Nat → UInt8 → Prop
  | .write fildes buf nbyte, s, x, b => ∃ e p k, s.OpenOn fildes e p ∧ WriteAllowed s e p nbyte ∧ k < nbyte.toNat ∧
      x = ((s.desc.opFtable p).inodeNr, (s.desc.opFtable p).offset + k) ∧ b = buf k
  | _, _, _, _ => False

/-- The places that a call may change in another way: `vsfs_creat`, those of the new file and of the directory. -/
def SpoilsByte : Call → Process → Nat × Nat → Prop
  | .creat name _, s, x => x.1 = 0 ∨ Enters name s ∧ Least s.cached.ibitmap nrInodes x.1
  | _, _, _ => False

/-- The condition: a call finds what it needs, and `vsfs_creat` puts the slot into a block of the directory. -/
def StoredOk (c : Call) (s : Process) : Prop :=
  CallOk s.cached.sbi.nrDregionBlocks c s ∧
    ∀ name blockNum, c = .creat name blockNum → Enters name s → SlotInDirectory s.seg.toVolume

/-- **A byte that is put** is there after the call. -/
theorem Sane.puts {x : Nat × Nat} (h : Sane B sb s) (hok : CallOk B c s) (hs : Step c s t) (hp : PutsByte c s x b) :
    t.seg.toVolume.Holds x b := by
  cases c with
  | write fildes buf nbyte =>
    obtain ⟨e, p, k, ho, ha, hk, rfl, rfl⟩ := hp
    obtain ⟨now, ret, -, hw⟩ := hs
    have hr := hok e p ho ha
    obtain ⟨t', v, hrun, -, hev, hst, hblocks, -⟩ := vsfsWrite_done h.sound ha hr now buf ho
    rw [show vsfsWrite now fildes buf nbyte s = _ from hw] at hrun
    cases hrun
    have hcover := le_neededBlocks (hr.limit ha)
    exact stored_holds ha.inode hev hst (by omega) (hr.limit ha) hk
  | _ => exact hp.elim

/-- A block of the directory or a free one is no block of another file. -/
theorem CreatKept.holds (hk : CreatKept B i s t) (h : Sane B sb s) (hd : SlotInDirectory s.seg.toVolume) (h0 : j ≠ 0)
    (hj : j ≠ i) (hb : s.seg.toVolume.Holds (j, k) b) : t.seg.toVolume.Holds (j, k) b := by
  have hu := hb.used
  have hlt := h.sound.owns.owned.lt _ hu
  refine ⟨(hk.evolves.keep _ hu hj).1, ?_⟩
  rw [← hb.byte]
  unfold Volume.byteAt cell
  rw [hk.evolves.page hu hj]
  refine congrFun (by_contra fun hne => ?_) _
  rcases hk.disk _ hne with ⟨hslot, hl⟩ | ⟨a, ha, hbit, hl⟩
  · -- the block of the slot is in use for the directory
    have hmem := directory_used hd.blocks (show (s.inodes 0).entry / 16 < (s.seg.toVolume.inode 0).blocks by
      have := (hasSlot_iff hd.blocks).mp hslot
      show (s.inodes 0).entry / 16 < (s.inodes 0).blocks
      have hentry : (s.seg.toVolume.inode 0).entry = (s.inodes 0).entry := rfl
      have hblocks : (s.seg.toVolume.inode 0).blocks = (s.inodes 0).blocks := rfl
      omega)
    have hval : s.seg.toVolume.val (0, .l1 ((s.inodes 0).entry / 16)) = (s.inodes 0).entry / 16 := hd.slot hslot
    unfold Volume.page at hl
    rw [lba_of_lt h.sound.owns.addr hlt] at hl
    have heq := Nat.add_left_cancel hl
    exact h0 (congrArg Prod.fst (h.sound.owns.owned.inj _ _ hu hmem (heq.trans hval.symm)))
  · exact used_ne_free h.sound hu ha hbit hl

/-- **A place that is left alone** keeps its byte. -/
theorem Sane.spares (h : Sane B sb s) (hsb : sb.nrIbitmapBlocks = 1) (hok : CallOk B c s)
    (hdir : ∀ name blockNum, c = .creat name blockNum → Enters name s → SlotInDirectory s.seg.toVolume)
    (hs : Step c s t) (hp : ∀ b, ¬PutsByte c s (i, k) b) (hsp : ¬SpoilsByte c s (i, k))
    (hb : s.seg.toVolume.Holds (i, k) b) : t.seg.toVolume.Holds (i, k) b := by
  obtain ⟨now, ret, -, hr⟩ := hs
  cases c with
  | creat name blockNum =>
    obtain ⟨h0, hno⟩ := not_or.mp hsp
    obtain rfl | ⟨j, hent, hleast, hk⟩ := creat_kept h hsb hok hr
    · exact hb
    · exact hk.holds h (hdir name blockNum rfl hent) h0 (fun hj => hno ⟨hent, hj ▸ hleast⟩) hb
  | «open» pathname flags =>
    obtain ⟨⟨r, u⟩, ho, hr⟩ := ExceptLib.bind_eq_ok.mp hr
    cases hr
    exact (open_touched ho).holds_byte h.sound hb
  | stat pathname =>
    obtain ⟨⟨r, fre⟩, _, hr⟩ := ExceptLib.bind_eq_ok.mp hr
    cases hr
    exact hb
  | close fildes =>
    obtain ⟨⟨r, u⟩, hc, hr⟩ := ExceptLib.bind_eq_ok.mp hr
    cases hr
    obtain ⟨hin, hdata⟩ := close_segments hc
    rwa [show ({ s with toState := u } : Process).seg = s.seg by unfold Process.seg; rw [hin, hdata]]
  | write fildes buf nbyte =>
    obtain ⟨e, p, ho, rfl | ha⟩ := vsfsWrite_cases hr
    · exact hb
    have hready := hok e p ho ha
    obtain ⟨t', v, hrun, ⟨m, hkept⟩, hev, hst, hblocks, -⟩ := vsfsWrite_done h.sound ha hready now buf ho
    rw [show vsfsWrite now fildes buf nbyte s = _ from hr] at hrun
    cases hrun
    have hcover := le_neededBlocks (hready.limit ha)
    refine stored_spares ha.inode hev hst (by omega) (hready.limit ha) hkept ?_ hb
    -- a place in the range would have been written
    by_contra hout
    obtain ⟨hji, hk⟩ := not_or.mp hout
    have hji := not_not.mp hji
    refine hp (buf (k - (s.desc.opFtable p).offset)) ⟨e, p, _, ho, ha, by omega, ?_, rfl⟩
    rw [hji, Nat.add_sub_cancel' (by omega)]
  | read fildes buf nbyte =>
    obtain ⟨⟨r, b', u⟩, hrd, hr⟩ := ExceptLib.bind_eq_ok.mp hr
    cases hr
    exact (read_touched hrd).holds_byte h.sound hb
  | lseek fildes offset whence =>
    obtain ⟨⟨r, u⟩, hl, hr⟩ := ExceptLib.bind_eq_ok.mp hr
    cases hr
    obtain hseg | ⟨e, p, ho, hset, hg⟩ := vsfsLseek_cases hl
    · rwa [hseg]
    obtain ⟨hmore, hroom⟩ := hok e p ho hset hg.limit hg.beyond
    obtain ⟨u, hkept, -, ht⟩ := hg.kept h hmore hroom
    rw [ht]
    exact (size_evolves hkept.evolves.sound _ _).holds_of_disk rfl (hkept.holds hb)

/-! ## What a read brings -/

/-- The bytes of a file, read from the data region. -/
theorem cell_dblock (h : u.toVolume.Sound B) (hu : (i, dataRef (k / 4096)) ∈ u.toVolume.used) :
    cell 4096 u.data (u.dblock i) k = u.toVolume.byteAt i k := by
  unfold Volume.byteAt cell Volume.page Segments.dblock
  rw [lba_of_lt h.owns.addr (h.owns.owned.lt _ hu), ref_eq_val h hu]
  exact (congrFun (toVolume_disk u _) _).symm

/-- The copy of a read from inside the file, and the padding. -/
theorem readDblock_bytes (ho : o < (u.inodes i).fileSize) (hs : (u.inodes i).fileSize ≤ 2 ^ 32) (hn : o + n < 2 ^ 64)
    (hw : o / 4096 < 65536 ∨ 49 ≤ o / 4096 % 65536) (buf : Bytes) : ∃ pos out, readDblock i o n buf u = (toInt32 n, pos, out) ∧
      (∀ k, k < n → o + k < (u.inodes i).fileSize → out k = cell 4096 u.data (u.dblock i) (o + k)) ∧
      (∀ k, k < n → (u.inodes i).fileSize ≤ o + k → out k = 0) ∧ ∀ k, n ≤ k → out k = buf k := by
  have hl3 : level3Limit = 1053745 := rfl
  have hmax : level3LimitTimesBlockSize = 4294972465 := rfl
  obtain ⟨size, hsize⟩ : ∃ size, (u.inodes i).fileSize = size := ⟨_, rfl⟩
  rw [hsize] at ho hs ⊢
  obtain ⟨hleft, hpad⟩ := readLeft_inside ho.le hs hn
  obtain ⟨m, hm⟩ : ∃ m, min n (size - o) = m := ⟨_, rfl⟩
  rw [hm] at hleft hpad
  have hlim : o + m ≤ level3LimitTimesBlockSize := by omega
  have hmap : MapStays (fun _ : Bytes => u) (fun _ => True) u i (o + m) := fun _ _ _ _ _ => rfl
  have heq : throughMap (fun _ => u) (copyOut u) i (.start o m) buf =
      loopPages (copyOut u) (u.dblock i) (level3Limit - o / 4096) (o / 4096) (.start o m) buf :=
    throughMap_eq hmap hlim (fun _ _ _ _ _ => trivial) hw rfl trivial
  obtain ⟨-, hdone, -⟩ := throughMap_done (fun _ => u) (copyOut u) i buf hlim rfl
  obtain ⟨hin, hout⟩ := loopPages_read (u.dblock i) buf (u := u) (Cursor.start_at o m) (by omega)
    (by omega : o + m ≤ 4096 * (o / 4096 + (level3Limit - o / 4096)))
  rw [← heq] at hin hout
  rw [show (Cursor.start o m).done = 0 from rfl, show (Cursor.start o m).left = m from rfl] at hin hout
  refine ⟨_, _, readDblock_copy (by unfold AtEnd; omega), fun k hk hlt => ?_, fun k hk hge => ?_, fun k hk => ?_⟩
  · unfold readCopy
    rw [hsize, hleft, hdone]
    have hfill := hin k (by omega)
    rw [Nat.zero_add] at hfill
    exact (copy_out (by omega)).trans hfill
  · unfold readCopy
    rw [hsize, hleft, hdone]
    have hpadded : fill (throughMap (fun _ => u) (copyOut u) i (.start o m) buf).2 m 0 (readPadded size o n) (m + (k - m)) = 0 :=
      copy_in (by omega)
    rwa [Nat.add_sub_cancel' (by omega)] at hpadded
  · unfold readCopy
    rw [hsize, hleft, hdone]
    exact (copy_out (by omega)).trans (hout k (by omega))

/-- A read of `n` bytes by `fildes` through slot `p` is not rejected, and starts inside the file at a block whose number
in 16 bits is not taken for one of level 1. -/
structure ReadReady (s : Process) (fildes : Int) (p n : Nat) : Prop where
  found : ∃ e, s.OpenOn fildes e p ∧ e.CanRead
  opCounter : s.desc.opCounter = true
  sb : s.sb = true
  inode : (s.desc.opFtable p).inodeNr < nrInodes
  inside : (s.desc.opFtable p).offset < (s.inodes (s.desc.opFtable p).inodeNr).fileSize
  noWrap : (s.desc.opFtable p).offset + n < 2 ^ 64
  first : (s.desc.opFtable p).offset / 4096 < 65536 ∨ 49 ≤ (s.desc.opFtable p).offset / 4096 % 65536

/-- **A read from inside a file** brings its bytes up to the size, and zeros behind it. -/
theorem Sane.read (h : Sane B sb s) (hr : ReadReady s fildes p nbyte.toNat) (now : Nat) (buf : Bytes) :
    ∃ out t, vsfsRead now fildes buf nbyte s = .ok (toInt32 nbyte.toNat, out, t) ∧
      (∀ k, k < nbyte.toNat → (s.desc.opFtable p).offset + k < (s.inodes (s.desc.opFtable p).inodeNr).fileSize →
        s.seg.toVolume.Holds ((s.desc.opFtable p).inodeNr, (s.desc.opFtable p).offset + k) (out k)) ∧
      (∀ k, k < nbyte.toNat → (s.inodes (s.desc.opFtable p).inodeNr).fileSize ≤ (s.desc.opFtable p).offset + k →
        out k = 0) ∧ ∀ k, nbyte.toNat ≤ k → out k = buf k := by
  obtain ⟨⟨e, ⟨a, hfind, hp⟩, fl, hset, hne⟩, hoc, hsb, hi, hin, hn, hw⟩ := hr
  obtain ⟨i, hino⟩ : ∃ i, (s.desc.opFtable p).inodeNr = i := ⟨_, rfl⟩
  obtain ⟨o, hofs⟩ : ∃ o, (s.desc.opFtable p).offset = o := ⟨_, rfl⟩
  rw [hino] at hi hin
  rw [hofs] at hin hn hw
  rw [hino, hofs]
  -- the segments with the time stamp
  have ht := modInode_touched (f := fun x => { x with atime := now }) s.seg.toVolume i ⟨rfl, rfl, rfl⟩ rfl rfl
  rw [← toVolume_modInode] at ht
  obtain ⟨u, hu⟩ : ∃ u, (s.seg.modInode i fun x => { x with atime := now }) = u := ⟨_, rfl⟩
  have hsize : (u.inodes i).fileSize = (s.inodes i).fileSize := by rw [← hu]; exact atime_fileSize s i now
  rw [hu] at ht
  obtain ⟨pos, out, hrd, hbytes, hzero, hrest⟩ := readDblock_bytes (u := u) (i := i) (n := nbyte.toNat) (hsize ▸ hin)
    (hsize ▸ fileSize_le (h.sized i hi).2) hn hw buf
  rw [hsize] at hbytes hzero
  refine ⟨out, { s.withSeg u with desc := s.desc.setOffset p pos }, ?_, fun k hk hlt => ?_, hzero, hrest⟩
  · unfold vsfsRead
    rw [if_neg (by simp [hoc]), hfind, ExceptLib.ok_bind]
    dsimp only
    rw [accessMode_eq_ok.mpr hset, ExceptLib.ok_bind, if_neg hne, if_neg (by simp [hsb]), slot_eq_ok.mpr hp,
      ExceptLib.ok_bind]
    simp only [hino, hofs]
    rw [if_neg (by omega), hu, hrd]
    rfl
  · have hused := (h.sized.used hi hlt).1
    have hold : s.seg.toVolume.Holds (i, o + k) (s.seg.toVolume.byteAt i (o + k)) := ⟨hused, rfl⟩
    have hnew := ht.holds_byte h.sound hold
    refine ⟨hused, ?_⟩
    rw [hbytes k hk hlt, cell_dblock (ht.evolves (E := ∅) h.sound).sound hnew.used]
    exact hnew.byte.symm

/-! ## All processes -/

section

variable {ι : Type}

/-- What the calls of the processes put at the places of files. -/
def fileAccesses (ι : Type) : Accesses (ι × Call) (Machine ι) (Nat × Nat) UInt8 where
  puts l m := PutsByte l.2 (m.at l.1)
  spoils l m := SpoilsByte l.2 (m.at l.1)

variable [DecidableEq ι] {m : Machine ι}

/-- What one call of a process needs is read off the shared part. -/
theorem Sane.callOk (h : Sane sb.nrDregionBlocks sb s) (hok : StoredOk c s) : CallOk sb.nrDregionBlocks c s := by
  obtain ⟨k, l, hk⟩ := h.sbi
  have hcall := hok.1
  rwa [hk] at hcall

/-- Sanity is about the segments. -/
theorem Sane.of_seg (h : Sane B sb s) (hseg : t.seg = s.seg) : Sane B sb t := by
  have hcached : t.cached = s.cached := congrArg Segments.cached hseg
  obtain ⟨hsound, hsized, hroot, hsbi⟩ := h
  exact ⟨hseg ▸ hsound, hseg ▸ hsized, hcached ▸ hroot, hcached ▸ hsbi⟩

/-- **In every interleaving** the segments are sane. -/
theorem Machine.Run.sane (hsb : sb.nrIbitmapBlocks = 1) (h0 : Sane sb.nrDregionBlocks sb s)
    (h : Machine.Run StoredOk (.start ι s) m) (p : ι) : Sane sb.nrDregionBlocks sb (m.at p) := by
  have hstep : ∀ (c : Call) (s t : Process), Sane sb.nrDregionBlocks sb s → StoredOk c s → Step c s t →
      Sane sb.nrDregionBlocks sb t := fun c s t hP hok hs => hP.step hsb (hP.callOk hok) hs
  refine views h (fun _ => h0) hstep (fun c s t u hP _ _ hok hs => ?_) p
  exact (hstep c s t hP hok hs).of_seg rfl

/-- **The last write is there**, in every interleaving. -/
theorem Machine.Run.lastWrite {x : Nat × Nat} (hsb : sb.nrIbitmapBlocks = 1) (h0 : Sane sb.nrDregionBlocks sb s)
    (h : LastWrite (fileAccesses ι) (Interleaving.Step Process.split Step) (Interleaving.Ok Process.split StoredOk)
      (Machine.start ι s) m x b) : m.shared.seg.toVolume.Holds x b := by
  refine h.holds (P := fun m => m.shared.seg.toVolume.Holds) ?_ ?_
  · rintro ⟨r, c⟩ m₁ m₂ x b hr hok ⟨t, ht, rfl⟩ hp
    have hs := Machine.Run.sane hsb h0 hr r
    exact hs.puts (hs.callOk hok) ht hp
  · rintro ⟨r, c⟩ m₁ m₂ ⟨i, k⟩ b hr hok ⟨t, ht, rfl⟩ hn hb
    have hs := Machine.Run.sane hsb h0 hr r
    exact hs.spares hsb (hs.callOk hok) hok.2 ht hn.1 hn.2 hb

/-- **Reads bring the last writes**: in every interleaving of calls of any processes a read by one of them that starts
inside a file brings, up to the size of the file, the bytes that were written there last, by whichever process, then
zeros, and leaves the memory behind the request alone. -/
theorem last_write_read {disk : Nat → Block} {seg : Bytes} (hl : 2052 ≤ n) (hu : n < 2 ^ 32)
    (h : Machine.Run StoredOk (.start ι (.start (Vsfs.State.fresh n disk seg).vol)) m) (p : ι)
    (hr : ReadReady (m.at p) fildes q nbyte.toNat) (now : Nat) (buf : Bytes) :
    ∃ out t, vsfsRead now fildes buf nbyte (m.at p) = .ok (toInt32 nbyte.toNat, out, t) ∧
      (∀ k b, k < nbyte.toNat →
        (m.shared.opFtable q).offset + k < (m.shared.seg.inodes (m.shared.opFtable q).inodeNr).fileSize →
        LastWrite (fileAccesses ι) (Interleaving.Step Process.split Step) (Interleaving.Ok Process.split StoredOk)
          (Machine.start ι (.start (Vsfs.State.fresh n disk seg).vol)) m
          ((m.shared.opFtable q).inodeNr, (m.shared.opFtable q).offset + k) b → out k = b) ∧
      (∀ k, k < nbyte.toNat →
        (m.shared.seg.inodes (m.shared.opFtable q).inodeNr).fileSize ≤ (m.shared.opFtable q).offset + k → out k = 0) ∧
      ∀ k, nbyte.toNat ≤ k → out k = buf k := by
  have hsb := (superblockInfo_layout hl hu).nrIbitmapBlocks
  have h0 := start_sane hl hu disk seg
  obtain ⟨out, t, hrun, hbytes, hzero, hrest⟩ := (Machine.Run.sane hsb h0 h p).read hr now buf
  refine ⟨out, t, hrun, fun k b hk hlt hlast => ?_, hzero, hrest⟩
  exact (hbytes k hk hlt).byte.symm.trans (Machine.Run.lastWrite hsb h0 hlast).byte

end

theorem Process.OpenOn.slot {e' : FdTable} (h : s.OpenOn fildes e p) (h' : s.OpenOn fildes e' q) : q = p := by
  obtain ⟨a, hfind, hp⟩ := h
  obtain ⟨a', hfind', hq⟩ := h'
  rw [hfind] at hfind'
  cases hfind'
  rw [hp] at hq
  exact (Option.some.inj hq).symm

/-- One process makes a file, another one opens it and writes a byte, and the first one opens it and reads the byte. -/
theorem last_write_read_two : ∃ (m : Machine Bool) (out : Bytes) (t : Process),
    vsfsRead 0 1 (fun _ => 0) 1 (m.at false) = .ok (1, out, t) ∧ out 0 = 97 := by
  have h : (do
      let c ← run 0 (.creat (letter 0) 0) (.start (blankVolume 4096).vol)
      let r ← run 0 (.open (letter 0) oRdwr) (Process.split.seen c.2 (.start (blankVolume 4096).vol))
      let w ← run 0 (.write 1 (fun _ => 97) 1) r.2
      let o ← run 0 (.open (letter 0) oRdonly) (Process.split.seen w.2 c.2)
      let found ← r.2.desc.findTarget 1
      let found' ← o.2.desc.findTarget 1
      .ok (found.any fun x => x.2.ptr = some 0 ∧ x.2.flags = some oRdwr ∧ r.2.desc.opCounter = true ∧
        r.2.sb = true ∧ r.2.sbCached = true ∧ (r.2.desc.opFtable 0).inodeNr = 1 ∧ (r.2.desc.opFtable 0).offset = 0 ∧
        (r.2.inodes 1).blocks = 0 ∧ bit r.2.cached.dbitmap 1 = true ∧ 1 < r.2.cached.sbi.nrDregionBlocks ∧
        1 < dbitmapBits r.2.cached.sbi ∧
        found'.any fun x => x.2.ptr = some 1 ∧ x.2.flags = some oRdonly ∧ o.2.desc.opCounter = true ∧ o.2.sb = true ∧
          (o.2.desc.opFtable 1).inodeNr = 1 ∧ (o.2.desc.opFtable 1).offset = 0 ∧ 0 < (o.2.inodes 1).fileSize) : M Bool) =
      .ok true := by
    decide +kernel
  obtain ⟨⟨rc, s₁⟩, hc, h⟩ := ExceptLib.bind_eq_ok.mp h
  obtain ⟨⟨ro, s₂⟩, ho, h⟩ := ExceptLib.bind_eq_ok.mp h
  obtain ⟨⟨rw', s₃⟩, hw, h⟩ := ExceptLib.bind_eq_ok.mp h
  obtain ⟨⟨rs, s₄⟩, hs, h⟩ := ExceptLib.bind_eq_ok.mp h
  obtain ⟨found, hfind, h⟩ := ExceptLib.bind_eq_ok.mp h
  obtain ⟨found', hfind', h⟩ := ExceptLib.bind_eq_ok.mp h
  obtain ⟨⟨a, e⟩, rfl, hall⟩ := (Option.any_eq_true _ _).mp (Except.ok.inj h)
  obtain ⟨hp, hfl, hoc, hsb, hsc, hi, hofs, hb, hbit, hB, hbits, hall⟩ := of_decide_eq_true hall
  obtain ⟨⟨a', e'⟩, rfl, hall⟩ := (Option.any_eq_true _ _).mp hall
  obtain ⟨hp', hfl', hoc', hsb', hi', hofs', hsize⟩ := of_decide_eq_true hall
  dsimp only at hp hfl hoc hsb hsc hi hofs hb hbit hB hbits hp' hfl' hoc' hsb' hi' hofs' hsize
  have hdir := fresh_slotInDirectory (n := 4096) (by decide) (by decide) (fun _ _ => 0) (fun _ => 0)
  have hcreat : StoredOk (.creat (letter 0) 0) (.start (blankVolume 4096).vol) :=
    ⟨first_creat_ok, fun _ _ _ _ => ⟨hdir.entry, hdir.blocks, hdir.slot⟩⟩
  generalize hs₀ : Process.start (blankVolume 4096).vol = s₀ at hc ho hcreat
  -- the views of the two processes
  let m₁ : Machine Bool := (Machine.start Bool s₀).put Process.split false s₁
  let m₂ : Machine Bool := m₁.put Process.split true s₂
  let m₃ : Machine Bool := m₂.put Process.split true s₃
  let m₄ : Machine Bool := m₃.put Process.split false s₄
  have hsee₁ : m₁.at true = Process.split.seen s₁ s₀ := view_put_of_ne (by decide)
  have hsee₂ : m₂.at true = s₂ := view_put_self
  have hsee₄ : m₄.at false = s₄ := view_put_self
  have h₁ : Machine.Run StoredOk (.start Bool s₀) m₁ :=
    (Run.refl _).snoc (c := (false, .creat (letter 0) 0)) hcreat ⟨s₁, ⟨0, rc, by decide, hc⟩, rfl⟩
  have h₂ : Machine.Run StoredOk (.start Bool s₀) m₂ := by
    refine h₁.snoc (c := (true, .open (letter 0) oRdwr)) ⟨trivial, fun _ _ hcall => by cases hcall⟩ ⟨s₂, ?_, rfl⟩
    show Step (.open (letter 0) oRdwr) (m₁.at true) s₂
    rw [hsee₁]
    exact ⟨0, ro, by decide, ho⟩
  have hopen : s₂.OpenOn 1 e 0 := ⟨a, hfind, hp⟩
  have hend : s₂.desc.writeEnd 0 1 = 1 := by
    unfold Desc.writeEnd
    rw [hofs]
    rfl
  have hallowed : WriteAllowed s₂ e 0 1 := ⟨hsb, hoc, FdTable.canWrite_of_rdwr hfl, hsc, by rw [hend]; decide,
    by rw [hi]; decide⟩
  have hwrite : StoredOk (.write 1 (fun _ => 97) 1) (m₂.at true) := by
    rw [hsee₂]
    refine ⟨fun c q hq _ => ?_, fun _ _ hcall => by cases hcall⟩
    obtain rfl := hopen.slot hq
    refine ⟨by rw [hofs]; decide, fun _ => ?_, Or.inl (by rw [hofs]; decide)⟩
    rw [hi, hofs, hb]
    exact room_pos hbit hB hbits
  have hstep : Interleaving.Step Process.split Step (true, .write 1 (fun _ => 97) 1) m₂ m₃ := by
    refine ⟨s₃, ?_, rfl⟩
    show Step (.write 1 (fun _ => 97) 1) (m₂.at true) s₃
    rw [hsee₂]
    exact ⟨0, rw', by decide, hw⟩
  have hstep' : Interleaving.Step Process.split Step (false, .open (letter 0) oRdonly) m₃ m₄ :=
    ⟨s₄, ⟨0, rs, by decide, hs⟩, rfl⟩
  have hok' : StoredOk (.open (letter 0) oRdonly) (m₃.at false) := ⟨trivial, fun _ _ hcall => by cases hcall⟩
  have hput : PutsByte (.write 1 (fun _ => 97) 1) (m₂.at true) (1, 0) 97 := by
    rw [hsee₂]
    exact ⟨e, 0, 0, hopen, hallowed, by decide, Prod.ext hi.symm hofs.symm, rfl⟩
  have hlast : LastWrite (fileAccesses Bool) (Interleaving.Step Process.split Step)
      (Interleaving.Ok Process.split StoredOk) (Machine.start Bool s₀) m₄ (1, 0) 97 :=
    .kept (c := (false, Call.open (letter 0) oRdonly)) (.put (c := (true, Call.write 1 (fun _ => 97) 1)) h₂ hwrite hstep
      hput) hok' hstep' ⟨fun _ hp => hp, fun hsp => hsp⟩
  have hready : ReadReady (m₄.at false) 1 1 (1 : UInt64).toNat := by
    rw [hsee₄]
    exact ⟨⟨e', ⟨a', hfind', hp'⟩, ⟨oRdonly, hfl', by decide⟩⟩, hoc', hsb', by rw [hi']; decide, by rw [hi', hofs']; exact hsize,
      by rw [hofs']; decide, Or.inl (by rw [hofs']; decide)⟩
  subst hs₀
  obtain ⟨out, t, hrun, hbytes, -⟩ := last_write_read (by decide) (by decide) hlast.run false hready 0 (fun _ => 0)
  refine ⟨m₄, out, t, hrun, hbytes 0 97 (by decide) ?_ ?_⟩
  · show (s₄.desc.opFtable 1).offset + 0 < (s₄.inodes (s₄.desc.opFtable 1).inodeNr).fileSize
    rw [hi', hofs']
    exact hsize
  · show LastWrite _ _ _ _ m₄ ((s₄.desc.opFtable 1).inodeNr, (s₄.desc.opFtable 1).offset + 0) 97
    rw [hi', hofs']
    exact hlast

end Vsfs.Shm
