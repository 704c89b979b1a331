import Vsfs.Lib.Drain
import Vsfs.Volume.OpenFiles
import Vsfs.Volume.Rounds

/-!
# Reading a file to its end

A read returns the size of the request as long as anything is left of the file, and moves the offset by what it has
read; at the end of the file it returns -1.

- `Readable.read`, `Shm.Readable.read`: a read that is not at the end;
- `Readable.ended`, `Shm.Readable.ended`: the read at the end;
- `reads_to_end`: how many reads it takes.
-/

set_option autoImplicit false

namespace Vsfs

open Function ByteSeq ExceptLib

theorem toInt32_of_lt {n : Nat} (h : n < 2 ^ 31) : toInt32 n = n := by
  unfold toInt32
  rw [Nat.mod_eq_of_lt (by omega), if_pos h]

/-- A reader `f` at `pos` that gets to `size`: as many calls as it takes return `n` each and move the offset, and the
call after them returns -1. -/
structure ReadsToEnd {σ : Type} (f : Nat × Bytes → σ → M (Int × σ)) (offset : σ → Nat) (pos size n : Nat) (s : σ) : Prop
    where
  moves : ∀ ks, ks.length ≤ Drain.rounds pos size n → ∃ t,
    Drain.calls f ks s = .ok (List.replicate ks.length (n : Int), t) ∧ offset t = min (pos + ks.length * n) size
  ends : ∀ ks k, ks.length = Drain.rounds pos size n → ∃ t u,
    Drain.calls f ks s = .ok (List.replicate ks.length (n : Int), t) ∧ f k t = .ok (-1, u)

theorem readsToEnd_of {σ : Type} {f : Nat × Bytes → σ → M (Int × σ)} {offset : σ → Nat} {P : Nat → σ → Prop}
    {pos size n : Nat} {s : σ} (hn : 1 ≤ n)
    (hcall : ∀ k pos s, P pos s → pos < size → ∃ t, f k s = .ok ((n : Int), t) ∧ P (min (pos + n) size) t)
    (hend : ∀ k s, P size s → ∃ u, f k s = .ok (-1, u)) (hoffset : ∀ pos s, P pos s → offset s = pos)
    (hs : P pos s) (hpos : pos ≤ size) : ReadsToEnd f offset pos size n s := by
  constructor
  · intro ks hlen
    obtain ⟨t, ht, hat⟩ := Drain.drain hn hcall hs hpos hlen
    exact ⟨t, ht, hoffset _ _ hat⟩
  · intro ks k hlen
    obtain ⟨t, ht, hat⟩ := Drain.drain hn hcall hs hpos hlen.le
    rw [hlen, Nat.min_eq_right (Drain.rounds_reach hn)] at hat
    obtain ⟨u, hu⟩ := hend k t hat
    exact ⟨t, u, ht, hu⟩

/-! ## The SPDK variant -/

section Spdk

variable {s t : State} {fildes : Int} {p pos size now : Nat} {buf : Bytes} {nbyte : UInt64}

/-- `fildes` is open for reading on slot `p`, at `pos` of a file of `size` bytes, as `vsfs_open` leaves it: the handles
are set, and the file object agrees with the inode. -/
structure Readable (fildes : Int) (p size pos : Nat) (s : State) : Prop where
  target : ∃ e, s.OpenOn fildes e p ∧ e.CanRead
  opCounter : s.desc.opCounter = true
  inodeReg : s.inodeReg ≠ none
  sbCached : s.sbCached ≠ none
  inode : (s.desc.opFtable p).inodeNr < nrInodes
  agrees : ∃ a f, (s.desc.opFtable p).filePtr = some a ∧ s.desc.files a = some f ∧
    f.size = (s.vol.inode (s.desc.opFtable p).inodeNr).fileSize ∧
    f.blocks = (s.vol.inode (s.desc.opFtable p).inodeNr).blocks ∧ f.block.length = f.blocks
  fileSize : (s.vol.inode (s.desc.opFtable p).inodeNr).fileSize = size
  inBlocks : size ≤ 4096 * (s.vol.inode (s.desc.opFtable p).inodeNr).blocks
  offset : (s.desc.opFtable p).offset = pos

/-- **What `vsfs_open` opens for reading is readable.** -/
theorem readable_of_open {pathname : CStr} {flags ret : Int} {e : FdTable}
    (h : vsfsOpen now pathname flags s = .ok (ret, t)) (hret : ret ≠ -1) (ho : t.OpenOn ret e s.desc.count)
    (hfl : e.CanRead) (hin : ∀ i, (s.vol.inode i).fileSize ≤ 4096 * (s.vol.inode i).blocks) :
    ∃ i, Readable ret s.desc.count (s.vol.inode i).fileSize 0 t := by
  obtain ⟨-, rfl, -⟩ | ⟨-, fd, a, d, hadd, ⟨rfl, -⟩ | ⟨target, info, -, hinfo, -, rfl, ht⟩⟩ := vsfsOpen_cases h
  · exact absurd rfl hret
  · exact absurd rfl hret
  obtain ⟨hcount, -, -⟩ := addFdTable_optab hadd
  have hoc : d.opCounter = true := by
    obtain ⟨_, _, ⟨_, _, rfl⟩ | ⟨_, _, _, _, _, _, rfl⟩⟩ := addFdTable_cases hadd <;> rfl
  have hcopied := vsfsGetInodeInfo_spec hinfo
  have hslot : t.desc.opFtable s.desc.count =
      { offset := 0, inodeNr := target, ptrCounter := 1, lock := 0, filePtr := some d.brk } := by
    rw [ht, show s.desc.count = d.count from hcount.symm]
    exact update_self ..
  have hfile : t.desc.files d.brk = some info := by
    rw [ht]
    exact update_self ..
  have htouch : Touched s.vol t.vol := open_touched h
  have hsize : (t.vol.inode target).fileSize = (s.vol.inode target).fileSize := by
    unfold Inode.fileSize
    rw [htouch.size, htouch.blocks]
  obtain ⟨hsb, hreg⟩ : s.attach.sbCached ≠ none ∧ s.attach.inodeReg ≠ none := by
    obtain ⟨vol, desc, _ | c, _ | m, maps, base⟩ := s <;> simp [State.attach]
  refine ⟨target, ⟨e, ho, hfl⟩, ?_, ?_, ?_, ?_, ⟨d.brk, info, ?_, hfile, ?_, ?_, ?_⟩, ?_, ?_, ?_⟩
  · rw [ht]
    exact hoc
  · rw [ht]
    exact hreg
  · rw [ht]
    exact hsb
  · rw [hslot]
    exact hcopied.lt
  · rw [hslot]
  · rw [hslot, hsize]
    exact hcopied.size
  · rw [hslot, htouch.blocks]
    exact hcopied.blocks
  · rw [hcopied.block, hcopied.blocks]
    simp [Volume.dataBlocks]
  · rw [hslot, hsize]
  · rw [hslot, htouch.blocks]
    exact hin target
  · rw [hslot]

/-- What `__read_dblock` does with a file object that lists all its blocks. -/
theorem readDblock_moves {f : File} {v : Volume} {n : Nat} (hs : f.size ≤ 2 ^ 32) (hb : f.size ≤ 4096 * f.blocks)
    (hl : f.block.length = f.blocks) (hpos : pos < f.size) (hn : n < 2 ^ 31) :
    ∃ out, readDblock f pos n buf v = .ok ((n : Int), min n (f.size - pos), out) := by
  have hbs : blockSize = 4096 := rfl
  unfold readDblock
  rw [if_neg (by omega), toInt32_of_lt hn, hbs, Nat.mod_eq_of_lt (by omega : pos / 4096 < 2 ^ 32)]
  obtain ⟨padded, hlen⟩ : ∃ padded, (if f.size ≤ (pos + n) % 2 ^ 64 then
      ((f.size + (2 ^ 64 - pos % 2 ^ 64)) % 2 ^ 64,
        (n + (2 ^ 64 - (f.size + (2 ^ 64 - pos % 2 ^ 64)) % 2 ^ 64)) % 2 ^ 64) else (n, 0)) =
      (min n (f.size - pos), padded) := by
    split
    · exact ⟨_, Prod.ext (by dsimp only; omega) rfl⟩
    · exact ⟨0, Prod.ext (by dsimp only; omega) rfl⟩
  dsimp only
  rw [hlen]
  dsimp only
  obtain ⟨out, hout, _⟩ := readLoop_inside v f (min n (f.size - pos)) (pos / 4096) 0 (pos % 4096)
    (min n (f.size - pos)) buf (Nat.le_refl _) (Nat.mod_lt _ (by decide)) (by omega) (by omega)
  rw [hout, Nat.zero_add]
  exact ⟨_, rfl⟩

/-- The process after a read: the access times and the offset. -/
def State.readOn (s : State) (now p a pos : Nat) (f : File) : State :=
  { s with
    vol := s.vol.modInode (s.desc.opFtable p).inodeNr fun x => { x with atime := now }
    desc := (s.desc.modFile a { f with atime := now }).setOffset p pos }

/-- A call of `vsfs_read` on a readable descriptor. -/
theorem Readable.run (now : Nat) (buf : Bytes) (nbyte : UInt64) (h : Readable fildes p size pos s) :
    ∃ a f, (s.desc.opFtable p).filePtr = some a ∧ s.desc.files a = some f ∧ ∀ ret readed out, readDblock { f with atime := now } pos nbyte.toNat buf
      (s.vol.modInode (s.desc.opFtable p).inodeNr fun x => { x with atime := now }) = .ok (ret, readed, out) →
      (Call.read fildes buf nbyte).run now s = .ok (ret, s.readOn now p a ((pos + readed) % 2 ^ 64) f) := by
  obtain ⟨e, ⟨b, hfind, hp⟩, fl, hset, hne⟩ := h.target
  obtain ⟨a, f, hfp, hfile, -⟩ := h.agrees
  refine ⟨a, f, hfp, hfile, fun ret readed out hd => ?_⟩
  have huse : s.useInodeReg = .ok () := useInodeReg_eq_ok.mpr ⟨h.inodeReg, h.sbCached⟩
  have hpos := h.offset
  subst hpos
  unfold Call.run vsfsRead
  dsimp only
  rw [if_neg (by simp [h.opCounter]), hfind, ok_bind]
  dsimp only
  rw [accessMode_eq_ok.mpr hset, ok_bind, if_neg hne, slot_eq_ok.mpr hp, ok_bind, fileOf_eq_ok.mpr ⟨hfp, hfile⟩, ok_bind]
  dsimp only
  rw [huse, ok_bind, (inodeAt_eq_ok _ _).mpr ⟨h.inode, rfl⟩, ok_bind, hd]
  rfl

/-- The descriptor is as readable after a read. -/
theorem Readable.readOn {a o : Nat} {f : File} (h : Readable fildes p size pos s)
    (hfp : (s.desc.opFtable p).filePtr = some a) (hfile : s.desc.files a = some f) :
    Readable fildes p size o (s.readOn now p a o f) := by
  obtain ⟨a', f', hfp', hfile', hsize, hblocks, hlen⟩ := h.agrees
  obtain rfl : a' = a := Option.some.inj (hfp'.symm.trans hfp)
  obtain rfl : f' = f := Option.some.inj (hfile'.symm.trans hfile)
  have hino : ((s.readOn now p a' o f').desc.opFtable p).inodeNr = (s.desc.opFtable p).inodeNr := by
    simp [State.readOn, Desc.modFile, Desc.setOffset]
  have hvol : (s.readOn now p a' o f').vol.inode (s.desc.opFtable p).inodeNr =
      { s.vol.inode (s.desc.opFtable p).inodeNr with atime := now } := modInode_inode_self ..
  have hfsize : (s.readOn now p a' o f').desc.files a' = some { f' with atime := now } := by
    simp [State.readOn, Desc.modFile, Desc.setOffset]
  refine ⟨h.target, h.opCounter, h.inodeReg, h.sbCached, ?_, ⟨a', _, ?_, hfsize, ?_, ?_, hlen⟩, ?_, ?_, ?_⟩
  · rw [hino]
    exact h.inode
  · simpa [State.readOn, Desc.modFile, Desc.setOffset] using hfp
  · rw [hino, hvol]
    exact hsize
  · rw [hino, hvol]
    exact hblocks
  · rw [hino, hvol]
    exact h.fileSize
  · rw [hino, hvol]
    exact h.inBlocks
  · simp [State.readOn, Desc.modFile, Desc.setOffset]

/-- **A read that is not at the end** returns the size of the request, and moves the offset. -/
theorem Readable.read (h : Readable fildes p size pos s) (hs : size ≤ 2 ^ 32) (hpos : pos < size)
    (hn : nbyte.toNat < 2 ^ 31) : ∃ t, (Call.read fildes buf nbyte).run now s = .ok ((nbyte.toNat : Int), t) ∧
      Readable fildes p size (min (pos + nbyte.toNat) size) t := by
  obtain ⟨a, f, hfp, hfile, hrun⟩ := h.run now buf nbyte
  obtain ⟨a', f', hfp', hfile', hsize, hblocks, hlen⟩ := h.agrees
  obtain rfl : a' = a := Option.some.inj (hfp'.symm.trans hfp)
  obtain rfl : f' = f := Option.some.inj (hfile'.symm.trans hfile)
  have hsz : f'.size = size := hsize.trans h.fileSize
  have hle : f'.size ≤ 2 ^ 32 := by omega
  have hin : f'.size ≤ 4096 * f'.blocks := by
    rw [hsz, hblocks]
    exact h.inBlocks
  have hlt : pos < f'.size := by omega
  obtain ⟨out, hd⟩ := readDblock_moves (f := { f' with atime := now }) hle hin hlen hlt hn
  refine ⟨_, hrun _ _ _ hd, ?_⟩
  have hmin : (pos + min nbyte.toNat (f'.size - pos)) % 2 ^ 64 = min (pos + nbyte.toNat) size := by omega
  dsimp only
  rw [hmin]
  exact h.readOn hfp hfile

/-- **The read at the end** returns -1. -/
theorem Readable.ended (h : Readable fildes p size size s) :
    ∃ t, (Call.read fildes buf nbyte).run now s = .ok (-1, t) := by
  obtain ⟨a, f, hfp, hfile, hrun⟩ := h.run now buf nbyte
  obtain ⟨a', f', hfp', hfile', hsize, -⟩ := h.agrees
  obtain rfl : a' = a := Option.some.inj (hfp'.symm.trans hfp)
  obtain rfl : f' = f := Option.some.inj (hfile'.symm.trans hfile)
  have hsz : f'.size = size := hsize.trans h.fileSize
  refine ⟨_, hrun (-1) 0 buf ?_⟩
  unfold readDblock
  rw [if_pos hsz]

end Spdk

/-! ## The shared-memory variant -/

namespace Shm

variable {s t : Process} {fildes : Int} {p pos size now ino n : Nat} {buf : Bytes} {nbyte : UInt64}

/-- `fildes` is open for reading on slot `p`, at `pos` of a file of `size` bytes. -/
structure Readable (fildes : Int) (p size pos : Nat) (s : Process) : Prop where
  target : ∃ e, s.OpenOn fildes e p ∧ e.CanRead
  opCounter : s.desc.opCounter = true
  sb : s.sb = true
  inode : (s.desc.opFtable p).inodeNr < nrInodes
  fileSize : (s.inodes (s.desc.opFtable p).inodeNr).fileSize = size
  offset : (s.desc.opFtable p).offset = pos

/-- What `__read_dblock` does below the size of the file, wherever its walk starts. -/
theorem readDblock_moves {u : Segments} (buf : Bytes) (hsize : (u.inodes ino).fileSize = size) (hs : size ≤ 2 ^ 32)
    (hpos : pos < size) (hn : n < 2 ^ 31) : ∃ out, readDblock ino pos n buf u = ((n : Int), min (pos + n) size, out) := by
  have hmax : level3LimitTimesBlockSize = 4294972465 := rfl
  have hleft : (if (pos + n) % 2 ^ 64 ≤ size then n else (size + (2 ^ 64 - pos % 2 ^ 64)) % 2 ^ 64) = min n (size - pos) := by
    split <;> omega
  have hend := throughMap_done (fun _ : Bytes => u) (copyOut u) ino buf
    (by omega : pos + min n (size - pos) ≤ level3LimitTimesBlockSize) rfl
  unfold readDblock
  rw [hsize]
  dsimp only
  rw [if_neg (by omega), hleft, toInt32_of_lt hn]
  obtain ⟨⟨c, out⟩, hr⟩ : ∃ r, throughMap (fun _ => u) (copyOut u) ino (.start pos (min n (size - pos))) buf = r := ⟨_, rfl⟩
  rw [hr] at hend ⊢
  obtain ⟨-, -, hcpos⟩ := hend
  dsimp only at hcpos ⊢
  rw [hcpos, show pos + min n (size - pos) = min (pos + n) size by omega]
  exact ⟨_, rfl⟩

/-- The process after a read. -/
def Process.readOn (s : Process) (now p pos : Nat) : Process :=
  { s.withSeg (s.seg.modInode (s.desc.opFtable p).inodeNr fun x => { x with atime := now }) with
    desc := s.desc.setOffset p pos }

/-- A call of `vsfs_read` on a readable descriptor. -/
theorem Readable.run (h : Readable fildes p size pos s) {ret : Int} {o : Nat} {out : Bytes}
    (hd : readDblock (s.desc.opFtable p).inodeNr pos nbyte.toNat buf
      (s.seg.modInode (s.desc.opFtable p).inodeNr fun x => { x with atime := now }) = (ret, o, out)) :
    Shm.run now (.read fildes buf nbyte) s = .ok (ret, s.readOn now p o) := by
  obtain ⟨e, ⟨b, hfind, hp⟩, fl, hset, hne⟩ := h.target
  have hpos := h.offset
  subst hpos
  unfold Shm.run vsfsRead
  dsimp only
  rw [if_neg (by simp [h.opCounter]), hfind, ok_bind]
  dsimp only
  rw [accessMode_eq_ok.mpr hset, ok_bind, if_neg hne, if_neg (by simp [h.sb]), slot_eq_ok.mpr hp, ok_bind]
  rw [if_neg (Nat.not_le.mpr h.inode), hd]
  rfl

/-- The descriptor is as readable after a read. -/
theorem Readable.readOn {o : Nat} (h : Readable fildes p size pos s) : Readable fildes p size o (s.readOn now p o) := by
  have hino : ((s.readOn now p o).desc.opFtable p).inodeNr = (s.desc.opFtable p).inodeNr := by
    simp [Process.readOn, Desc.setOffset]
  have hinode : (s.readOn now p o).inodes (s.desc.opFtable p).inodeNr =
      { s.inodes (s.desc.opFtable p).inodeNr with atime := now } := update_self ..
  refine ⟨h.target, h.opCounter, h.sb, ?_, ?_, ?_⟩
  · rw [hino]
    exact h.inode
  · rw [hino, hinode]
    exact h.fileSize
  · simp [Process.readOn, Desc.setOffset]

/-- **A read that is not at the end** returns the size of the request, and moves the offset. -/
theorem Readable.read (h : Readable fildes p size pos s) (hs : size ≤ 2 ^ 32) (hpos : pos < size)
    (hn : nbyte.toNat < 2 ^ 31) : ∃ t, Shm.run now (.read fildes buf nbyte) s = .ok ((nbyte.toNat : Int), t) ∧
      Readable fildes p size (min (pos + nbyte.toNat) size) t := by
  have hsize : ((s.seg.modInode (s.desc.opFtable p).inodeNr fun x => { x with atime := now }).inodes
      (s.desc.opFtable p).inodeNr).fileSize = size := by
    rw [show (s.seg.modInode (s.desc.opFtable p).inodeNr fun x => { x with atime := now }).inodes
      (s.desc.opFtable p).inodeNr = { s.inodes (s.desc.opFtable p).inodeNr with atime := now } from update_self ..]
    exact h.fileSize
  obtain ⟨out, hd⟩ := readDblock_moves buf hsize hs hpos hn
  exact ⟨_, h.run hd, h.readOn⟩

/-- **The read at the end** returns -1. -/
theorem Readable.ended (h : Readable fildes p size size s) (hs : size ≤ 2 ^ 32) (hn : 1 ≤ nbyte.toNat)
    (hn' : nbyte.toNat < 2 ^ 31) : ∃ t, Shm.run now (.read fildes buf nbyte) s = .ok (-1, t) := by
  refine ⟨s.readOn now p size, h.run (?_ : _ = (_, _, buf))⟩
  unfold readDblock
  rw [show ((s.seg.modInode (s.desc.opFtable p).inodeNr fun x => { x with atime := now }).inodes
    (s.desc.opFtable p).inodeNr) = { s.inodes (s.desc.opFtable p).inodeNr with atime := now } from update_self ..]
  have hsize : ({ s.inodes (s.desc.opFtable p).inodeNr with atime := now } : Inode).fileSize = size := h.fileSize
  rw [hsize]
  dsimp only
  rw [if_pos (by omega)]

end Shm

/-! ## Both -/

/-- **A file is read to its end** in as many reads as the rest of it takes, rounded up. -/
theorem reads_to_end :
    (∀ (s : State) (fildes : Int) (p size pos : Nat) (nbyte : UInt64), Readable fildes p size pos s → pos ≤ size →
      size ≤ 2 ^ 32 → 1 ≤ nbyte.toNat → nbyte.toNat < 2 ^ 31 →
      ReadsToEnd (fun k => (Call.read fildes k.2 nbyte).run k.1) (fun t => (t.desc.opFtable p).offset) pos size
        nbyte.toNat s) ∧
    ∀ (s : Shm.Process) (fildes : Int) (p size pos : Nat) (nbyte : UInt64), Shm.Readable fildes p size pos s →
      pos ≤ size → size ≤ 2 ^ 32 → 1 ≤ nbyte.toNat → nbyte.toNat < 2 ^ 31 →
      ReadsToEnd (fun k => Shm.run k.1 (.read fildes k.2 nbyte)) (fun t => (t.desc.opFtable p).offset) pos size
        nbyte.toNat s := by
  constructor
  · intro s fildes p size pos nbyte hs hpos hsize hn hn'
    exact readsToEnd_of (P := Readable fildes p size) hn (fun _ _ _ h hlt => h.read hsize hlt hn') (fun _ _ h => h.ended)
      (fun _ _ h => h.offset) hs hpos
  · intro s fildes p size pos nbyte hs hpos hsize hn hn'
    exact readsToEnd_of (P := Shm.Readable fildes p size) hn (fun _ _ _ h hlt => h.read hsize hlt hn')
      (fun _ _ h => h.ended hsize hn hn') (fun _ _ h => h.offset) hs hpos

/-- A file of 8193 bytes takes three reads of 4096. -/
theorem reads_to_end_rounds :
    (∃ s, Reached s ∧
      ReadsToEnd (fun k => (Call.read 1 k.2 4096).run k.1) (fun t => (t.desc.opFtable 0).offset) 0 8193 4096 s) ∧
      ∃ s, ReadsToEnd (fun k => Shm.run k.1 (.read 1 k.2 4096)) (fun t => (t.desc.opFtable 0).offset) 0 8193 4096 s := by
  constructor
  · have h : (do
        let r ← runCalls (openEmpty ++ [.write 1 (fun _ => 97) 8193, .close 1, .open (letter 0) oRdonly])
          (0, blankVolume 4096)
        let found ← r.2.desc.findTarget 1
        let file ← r.2.desc.fileOf 0
        .ok (found.any fun x => x.2.ptr = some 0 ∧ x.2.flags = some oRdonly ∧ r.2.desc.opCounter = true ∧
          r.2.sbCached.isSome ∧ r.2.inodeReg.isSome ∧ (r.2.desc.opFtable 0).inodeNr = 1 ∧
          (r.2.desc.opFtable 0).offset = 0 ∧ (r.2.vol.inode 1).fileSize = 8193 ∧ (r.2.vol.inode 1).blocks = 3 ∧
          file.2.size = 8193 ∧ file.2.blocks = 3 ∧ file.2.block.length = 3) : M Bool) = .ok true := by decide +kernel
    obtain ⟨⟨r, s⟩, hrun, h⟩ := bind_eq_ok.mp h
    obtain ⟨found, hfind, h⟩ := bind_eq_ok.mp h
    obtain ⟨⟨a, f⟩, hfile, h⟩ := bind_eq_ok.mp h
    obtain ⟨⟨b, e⟩, rfl, hall⟩ := (Option.any_eq_true _ _).mp (Except.ok.inj h)
    obtain ⟨hp, hfl, hoc, hsc, hreg, hi, hofs, hsize, hb, hfs, hfb, hlen⟩ := of_decide_eq_true hall
    dsimp only at hp hfl hoc hsc hreg hi hofs hsize hb hfs hfb hlen
    obtain ⟨hfp, hf⟩ := fileOf_eq_ok.mp hfile
    have hread : Readable 1 0 8193 0 s := by
      refine ⟨⟨e, ⟨b, hfind, hp⟩, oRdonly, hfl, by decide⟩, hoc, Option.isSome_iff_ne_none.mp hreg,
        Option.isSome_iff_ne_none.mp hsc, by rw [hi]; decide, ⟨a, f, hfp, hf, ?_, ?_, by rw [hlen, hfb]⟩, ?_, ?_, hofs⟩
      · rw [hi, hsize, hfs]
      · rw [hi, hb, hfb]
      · rw [hi, hsize]
      · rw [hi, hb]
        decide
    exact ⟨s, ReachedBy.runCalls (reachedBy_blankVolume (by decide) (by decide)) hrun,
      reads_to_end.1 s 1 0 8193 0 4096 hread (by decide) (by decide) (by decide) (by decide)⟩
  · have h : (do
        let r ← Shm.runCalls (openEmpty ++ [.write 1 (fun _ => 97) 8193, .lseek 1 0 seekSet])
          (0, .start (blankVolume 4096).vol)
        let found ← r.2.desc.findTarget 1
        .ok (found.any fun x => x.2.ptr = some 0 ∧ x.2.flags = some oRdwr ∧ r.2.desc.opCounter = true ∧
          r.2.sb = true ∧ (r.2.desc.opFtable 0).inodeNr = 1 ∧ (r.2.desc.opFtable 0).offset = 0 ∧
          (r.2.inodes 1).fileSize = 8193) : M Bool) = .ok true := by decide +kernel
    obtain ⟨⟨r, s⟩, hrun, h⟩ := bind_eq_ok.mp h
    obtain ⟨found, hfind, h⟩ := bind_eq_ok.mp h
    obtain ⟨⟨b, e⟩, rfl, hall⟩ := (Option.any_eq_true _ _).mp (Except.ok.inj h)
    obtain ⟨hp, hfl, hoc, hsb, hi, hofs, hsize⟩ := of_decide_eq_true hall
    dsimp only at hp hfl hoc hsb hi hofs hsize
    have hread : Shm.Readable 1 0 8193 0 s :=
      ⟨⟨e, ⟨b, hfind, hp⟩, FdTable.canRead_of_rdwr hfl⟩, hoc, hsb, by rw [hi]; decide, by rw [hi, hsize], hofs⟩
    exact ⟨s, reads_to_end.2 s 1 0 8193 0 4096 hread (by decide) (by decide) (by decide) (by decide)⟩

end Vsfs
