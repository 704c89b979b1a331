import Vsfs.Volume.Directory

/-!
# Looking up what has been created

A run of `vsfs_creat` calls keeps a log of the files that were created: their names and the inode numbers that
`get_free_inode` gave them.

- `Named.step`: one call keeps the directory and the log in step;
- `lookup_agrees`: in every run in which a new directory block gets the next block number, `vsfs_open` and `vsfs_stat`
  find exactly the names of the log, and resolve them to the inodes of the log;
- `grown_directory_breaks_lookup`: a file of one block created before the directory grows is enough to break this.
-/

set_option autoImplicit false

namespace Vsfs

open Function ByteSeq WordBits GuardedRun

/-! ## Runs of `vsfs_creat` -/

/-- The files created so far, with a state. -/
abbrev LoggedState := List (CStr × Nat) × State

/-- One `vsfs_creat`; a call that returns 0 is entered into the log with the inode number that it took. -/
def Logged (c : CStr × UInt32) (x y : LoggedState) : Prop :=
  ∃ now ret, now < 2 ^ 64 ∧ vsfsCreat now c.1 c.2 x.2 = .ok (ret, y.2) ∧
    ((ret = 0 ∧ ∃ i cached, getFreeInode x.2.vol.cached = .ok (i, cached) ∧ y.1 = x.1 ++ [(c.1, i)]) ∨
      (ret ≠ 0 ∧ y.1 = x.1))

/-- The states that `vsfs_creat` calls meeting `ok` lead to, with the log. -/
def CreatedBy (ok : CStr × UInt32 → LoggedState → Prop) (log : List (CStr × Nat)) (s : State) : Prop :=
  ∃ n disk seg, 2052 ≤ n ∧ n < 2 ^ 32 ∧ Run Logged ok ([], State.fresh n disk seg) (log, s)

/-- The entries of a directory in which the files of the log have been created. -/
def entries (log : List (CStr × Nat)) : List (CStr × Nat) := (dotName, 0) :: (dotDotName, 0) :: log

/-- Names are found exactly if they are in the directory, and resolve to the inode number there; no two files share
an inode. `vsfs_stat` can be asked once the process has called `vsfs_creat` or `vsfs_open`, which set up its buffer. -/
structure LookupAgrees (log : List (CStr × Nat)) (s : State) : Prop where
  opened : ∀ name i, (name, i) ∈ entries log → ∀ now flags, ∃ t, vsfsOpen now name flags s = .ok (1, t) ∧
    (t.desc.opFtable s.desc.count).inodeNr = i
  missing : ∀ name, name ∉ (entries log).map Prod.fst → ∀ now flags, ∃ t, vsfsOpen now name flags s = .ok (-1, t)
  stat : s.tmpBasePtr = true → ∀ name i, (name, i) ∈ entries log →
    ∃ t, vsfsStat name s = .ok (0, some (s.vol.inode i).stat, t)
  unknown : s.tmpBasePtr = true → ∀ name, name ∉ (entries log).map Prod.fst →
    ∃ t, vsfsStat name s = .ok (-1, none, t)
  buffers : log ≠ [] → s.tmpBasePtr = true
  names : ((entries log).map Prod.fst).Nodup
  inodes : (0 :: log.map Prod.snd).Nodup

/-! ## The condition -/

/-- The free blocks suffice for what a `vsfs_creat` takes. -/
def EnoughBlocks (c : CStr × UInt32) (x : LoggedState) : Prop :=
  CreatRoom (2 ^ 32 - x.2.vol.cached.sbi.ofsDregion) c.2.toNat x.2.vol

/-- A call that enters a name finds enough free blocks, gives the file no more blocks than an open file can list, and,
if it makes the directory grow, the block with the next number is free. -/
def LookupOk (c : CStr × UInt32) (x : LoggedState) : Prop :=
  Enters c.1 x.2 → EnoughBlocks c x ∧ c.2.toNat ≤ 1048625 ∧
    (¬(x.2.vol.inode 0).HasSlot → (x.2.vol.inode 0).blocks < 49 →
      bit x.2.vol.cached.dbitmap (x.2.vol.inode 0).blocks = true)

/-! ## The invariant -/

/-- The directory holds the log, and the inodes of the log are the ones in use. -/
structure Named (sb : SbInfo) (log : List (CStr × Nat)) (s : State) : Prop where
  steady : Steady (2 ^ 32 - sb.ofsDregion) sb s
  directory : Directory s.vol (entries log)
  names : ((entries log).map Prod.fst).Nodup
  inodes : (0 :: log.map Prod.snd).Nodup
  taken : ∀ i, i < nrInodes → (bit s.vol.cached.ibitmap i = true ↔ i ∉ 0 :: log.map Prod.snd)
  valid : ∀ e, e ∈ log → e.2 < nrInodes
  small : ∀ i, i < nrInodes → (s.vol.inode i).blocks ≤ 1048625
  desc : s.desc = Desc.initial
  buffers : log ≠ [] → s.tmpBasePtr = true

variable {sb : SbInfo} {log log' : List (CStr × Nat)} {s t : State} {n : Nat}

/-- A directory holds fewer files than there are inodes. -/
theorem Named.inodeFree (h : Named sb log s) : InodeFree s := by
  have hlen : (entries log).length ≤ 784 := by
    have := h.directory.fits
    have := h.directory.blocks
    omega
  have hcard : (0 :: log.map Prod.snd).toFinset.card < (Finset.range nrInodes).card := by
    refine Nat.lt_of_le_of_lt (List.toFinset_card_le _) ?_
    simp only [entries, List.length_cons] at hlen
    rw [Finset.card_range, List.length_cons, List.length_map]
    unfold nrInodes
    omega
  obtain ⟨i, hi, hn⟩ := Finset.exists_mem_notMem_of_card_lt_card hcard
  have hlt := Finset.mem_range.mp hi
  exact ⟨i, hlt, (h.taken i hlt).mpr fun hm => hn (List.mem_toFinset.mpr hm)⟩

/-- The bitmap of inodes after a file has been entered. -/
theorem CreatDone.ibitmap {B now m i : Nat} {name : CStr} {v w : Volume} (hc : CreatDone B now name m i v w 0) :
    w.cached.ibitmap = clear v.cached.ibitmap i := by
  cases hc with
  | slot _ hp _ _ ha => exact ha.ibitmap.trans hp.ibitmap
  | grow _ _ hp _ _ ha => exact ha.ibitmap.trans hp.ibitmap

/-- **One call** keeps the directory and the log in step. -/
theorem Named.step {c : CStr × UInt32} (h : Named sb log s) (hsb : sb.nrIbitmapBlocks = 1) (hok : LookupOk c (log, s))
    (hs : Logged c (log, s) (log', t)) : Named sb log' t := by
  obtain ⟨name, blockNum⟩ := c
  obtain ⟨now, ret, hn, hr, hlog⟩ := hs
  dsimp only at hr hlog
  have halloc : AllocOk (2 ^ 32 - sb.ofsDregion) (.creat name blockNum) s := by
    intro he
    obtain ⟨hroom, _⟩ := hok he
    unfold EnoughBlocks at hroom
    rw [h.steady.fits.regions.ofsDregion] at hroom
    exact ⟨h.inodeFree, hroom, h.directory.slotInDirectory.clear h.steady.sound⟩
  have hsteady := h.steady.step hsb halloc ⟨now, ret, hn, hr⟩
  have hbase := vsfsCreat_tmpBasePtr hr
  rcases creat_steps h.steady hsb halloc hr with ⟨hret, hv, hd⟩ | ⟨he, i, hi0, hleast, hd, hdone⟩
  · obtain rfl : log' = log := by
      rcases hlog with ⟨h0, _⟩ | ⟨_, hl⟩
      · omega
      · exact hl
    exact ⟨hsteady, by rw [hv]; exact h.directory, h.names, h.inodes, by rw [hv]; exact h.taken, h.valid,
      by rw [hv]; exact h.small, by rw [hd]; exact h.desc, fun _ => hbase⟩
  · obtain ⟨_, hsize, hnext⟩ := hok he
    rcases hdone.directory h.steady.sound h.directory he.1 hnext with ⟨rfl, hdir⟩ | ⟨rfl, hw⟩
    · -- the inode that was taken is the one in the log
      obtain rfl : log' = log ++ [(name, i)] := by
        rcases hlog with ⟨_, j, cached, hj, hl⟩ | ⟨h0, _⟩
        · have hbits := ibitmapBits_eq h.steady.fits hsb
          rw [getFreeInode_of_least (hbits ▸ hleast) hi0 (Nat.lt_trans hleast.lt (by decide))] at hj
          cases hj
          exact hl
        · exact absurd rfl h0
      have hfree := (h.taken i hleast.lt).mp hleast.bit
      have hname : name ∉ (entries log).map Prod.fst := by
        have hdup := he.2
        rw [dupScan_directory h.directory] at hdup
        intro hm
        obtain ⟨e, hmem, rfl⟩ := List.mem_map.mp hm
        have hnone : (entries log).lookup e.1 = none := by simpa using Except.ok.inj hdup
        exact absurd (List.lookup_eq_none_iff.mp hnone e hmem) (by simp)
      refine ⟨hsteady, hdir, ?_, ?_, fun j hj => ?_, fun e he => ?_, fun j hj => ?_, by rw [hd]; exact h.desc,
        fun _ => hbase⟩
      · rw [show entries (log ++ [(name, i)]) = entries log ++ [(name, i)] from rfl, List.map_append,
          List.nodup_append_comm]
        exact List.nodup_cons.mpr ⟨hname, h.names⟩
      · rw [List.map_append, ← List.cons_append, List.nodup_append_comm]
        exact List.nodup_cons.mpr ⟨hfree, h.inodes⟩
      · rw [hdone.ibitmap, bit_clear, Bool.and_eq_true, decide_eq_true_eq, h.taken j hj, List.map_append,
          ← List.cons_append, List.mem_append, List.map_singleton, List.mem_singleton, not_or]
      · rcases List.mem_append.mp he with he | he
        · exact h.valid e he
        · rw [List.mem_singleton.mp he]
          exact hleast.lt
      · have := h.small j hj
        dsimp only at hsize
        rcases hdone.blocks (k := 1048625) (by decide) (fun _ => hsize) j with hb | hb <;> omega
    · obtain rfl : log' = log := by
        rcases hlog with ⟨h0, _⟩ | ⟨_, hl⟩
        · omega
        · exact hl
      exact ⟨hsteady, by rw [hw]; exact h.directory, h.names, h.inodes, by rw [hw]; exact h.taken, h.valid,
        by rw [hw]; exact h.small, by rw [hd]; exact h.desc, fun _ => hbase⟩

/-- A fresh directory holds `.` and `..`. -/
theorem fresh_directory (hl : 2052 ≤ n) (hu : n < 2 ^ 32) (disk : Nat → Block) (seg : Bytes) :
    Directory (State.fresh n disk seg).vol (entries []) := by
  obtain ⟨hrb, hrs, hrf⟩ := fresh_root hl hu disk seg
  have hcases : ∀ k e, (entries [])[k]? = some e → (k = 0 ∧ e = (dotName, 0)) ∨ k = 1 ∧ e = (dotDotName, 0) := by
    intro k e he
    match k with
    | 0 => exact Or.inl ⟨rfl, (Option.some.inj he).symm⟩
    | 1 => exact Or.inr ⟨rfl, (Option.some.inj he).symm⟩
    | k + 2 => cases he
  refine ⟨hrs, by rw [hrb]; decide, by rw [hrb]; decide, fun k hk => ?_, by decide, fun k e he => ?_, fun k e he => ?_⟩
  · rw [hrb] at hk
    rw [Nat.lt_one_iff.mp hk, hrf]
  · rcases hcases k e he with ⟨rfl, rfl⟩ | ⟨rfl, rfl⟩
    · rw [show 0 / 16 = 0 from rfl, fresh_dir hl hu]
      exact (slotNamed_setSlot_of_ne _ (by decide) (by decide) (by decide)).trans (slotNamed_setSlot_self ..)
    · rw [show 1 / 16 = 0 from rfl, fresh_dir hl hu]
      exact slotNamed_setSlot_self ..
  · rcases hcases k e he with ⟨rfl, rfl⟩ | ⟨rfl, rfl⟩
    · rw [show 0 / 16 = 0 from rfl, fresh_dir hl hu]
      exact (slotInode_setSlot_of_ne _ (by decide) (by decide)).trans (slotInode_setSlot_self ..)
    · rw [show 1 / 16 = 0 from rfl, fresh_dir hl hu]
      exact slotInode_setSlot_self ..

theorem fresh_named (hl : 2052 ≤ n) (hu : n < 2 ^ 32) (disk : Nat → Block) (seg : Bytes) :
    Named (superblockInfo n) [] (State.fresh n disk seg) := by
  obtain ⟨hd1, hd2, hd3, _⟩ := dbitmapBlocks_bounds hl hu
  have hofs : (superblockInfo n).ofsDregion = 2050 + dbitmapBlocks n := by rw [superblockInfo_eq hl hu]
  refine ⟨fresh_steady hl hu disk seg ?_ ?_, fresh_directory hl hu disk seg, by decide, by decide, fun i hi => ?_,
    fun e he => (List.not_mem_nil he).elim, fun i hi => ?_, rfl, fun hne => absurd rfl hne⟩
  · rw [hofs]
    omega
  · rw [hofs]
    omega
  · rw [fresh_ibitmap hl hu disk seg hi]
    simp
  · by_cases h0 : i = 0
    · rw [h0, (fresh_root hl hu disk seg).1]
      omega
    · rw [(fresh_inode hl hu disk seg h0 hi).1]
      omega

/-! ## What is found -/

/-- A search in the directory. -/
theorem Named.lookup (h : Named sb log s) (name : CStr) :
    Vsfs.lookup s.vol name (s.vol.inode 0).entry 0 = .ok ((entries log).lookup name) :=
  lookup_directory h.directory name

/-- With distinct names, a lookup finds the entry. -/
theorem lookup_of_mem {es : List (CStr × Nat)} (hn : (es.map Prod.fst).Nodup) {name : CStr} {i : Nat}
    (hm : (name, i) ∈ es) : es.lookup name = some i := by
  induction es with
  | nil => cases hm
  | cons e es ih =>
    rw [List.map_cons, List.nodup_cons] at hn
    rw [List.lookup_cons]
    rcases List.mem_cons.mp hm with rfl | hm
    · simp
    · have hne : name ≠ e.1 := fun he => hn.1 (he ▸ List.mem_map_of_mem hm)
      rw [beq_eq_false_iff_ne.mpr hne]
      exact ih hn.2 hm

/-- The first open of a process, on a name that is found. -/
theorem open_found {name : CStr} {i now : Nat} {flags : Int} {f : File} (hd : s.desc = Desc.initial)
    (hlen : name.strlen < filenameLen) (hl : Vsfs.lookup s.vol name (s.vol.inode 0).entry 0 = .ok (some i))
    (hf : vsfsGetInodeInfo s.vol i = .ok f) :
    ∃ t, vsfsOpen now name flags s = .ok (1, t) ∧ (t.desc.opFtable s.desc.count).inodeNr = i := by
  unfold vsfsOpen
  dsimp only
  rw [if_neg (Nat.not_le.mpr hlen), attach_withDesc, initBasePtr_desc, hd]
  simp only [initBasePtr_attach, initBasePtr_vol, attach_vol, Desc.addFdTable, Desc.initial, ExceptLib.ok_bind, hl, hf]
  rw [if_neg (by decide)]
  exact ⟨_, rfl, by simp [Desc.takeSlot]⟩

/-- The first open of a process, on a name that is not found. -/
theorem open_missing {name : CStr} (now : Nat) (flags : Int) (hd : s.desc = Desc.initial)
    (hl : Vsfs.lookup s.vol name (s.vol.inode 0).entry 0 = .ok none) : ∃ t, vsfsOpen now name flags s = .ok (-1, t) := by
  unfold vsfsOpen
  dsimp only
  by_cases hlen : filenameLen ≤ name.strlen
  · exact ⟨s.initBasePtr, by rw [if_pos hlen]⟩
  · rw [if_neg hlen, attach_withDesc, initBasePtr_desc, hd]
    simp only [initBasePtr_attach, initBasePtr_vol, attach_vol, Desc.addFdTable, Desc.initial, ExceptLib.ok_bind, hl]
    exact ⟨_, rfl⟩

theorem Named.agrees (h : Named sb log s) : LookupAgrees log s := by
  have hvalid : ∀ name i, (name, i) ∈ entries log → i < nrInodes := by
    intro name i hm
    simp only [entries, List.mem_cons] at hm
    rcases hm with ⟨⟨⟩⟩ | ⟨⟨⟩⟩ | hm
    · decide
    · decide
    · exact h.valid _ hm
  have hfound : ∀ name i, (name, i) ∈ entries log →
      Vsfs.lookup s.vol name (s.vol.inode 0).entry 0 = .ok (some i) := by
    intro name i hm
    rw [h.lookup, lookup_of_mem h.names hm]
  have hnone : ∀ name, name ∉ (entries log).map Prod.fst →
      Vsfs.lookup s.vol name (s.vol.inode 0).entry 0 = .ok none := by
    intro name hm
    rw [h.lookup]
    refine congrArg Except.ok (List.lookup_eq_none_iff.mpr fun e he => ?_)
    rw [bne_iff_ne]
    rintro rfl
    exact hm (List.mem_map_of_mem he)
  refine ⟨fun name i hm now flags => ?_, fun name hm now flags => open_missing now flags h.desc (hnone name hm),
    fun hb name i hm => ?_, fun hb name hm => ?_, h.buffers, h.names, h.inodes⟩
  · obtain ⟨f, hf⟩ := vsfsGetInodeInfo_ok (hvalid name i hm) (h.small i (hvalid name i hm))
    exact open_found h.desc (h.directory.short _ hm) (hfound name i hm) hf
  · rw [vsfsStat_eq hb, hfound name i hm, ExceptLib.ok_bind]
    dsimp only
    rw [(inodeAt_eq_ok _ _).mpr ⟨hvalid name i hm, rfl⟩]
    exact ⟨_, rfl⟩
  · rw [vsfsStat_eq hb, hnone name hm]
    exact ⟨_, rfl⟩

/-- **Name lookup agrees with creation** in every run of `vsfs_creat` calls that meet the condition. -/
theorem lookup_agrees (h : CreatedBy LookupOk log s) : LookupAgrees log s := by
  obtain ⟨n, disk, seg, hl, hu, hr⟩ := h
  have hinv : Named (superblockInfo n) log s :=
    hr.invariant (P := fun x => Named (superblockInfo n) x.1 x.2) (fresh_named hl hu disk seg) fun c x y hP hok hs =>
      hP.step (superblockInfo_layout hl hu).nrIbitmapBlocks hok hs
  exact hinv.agrees

theorem lookup_agrees_one : ∃ s, vsfsCreat 0 (letter 0) 3 (blankVolume 4096) = .ok (0, s) ∧
    LookupAgrees [(letter 0, 1)] s := by
  have h : (do
      let r ← vsfsCreat 0 (letter 0) 3 (blankVolume 4096)
      let i ← getFreeInode (blankVolume 4096).vol.cached
      .ok (decide (r.1 = 0 ∧ i.1 = 1)) : M Bool) = .ok true := by decide +kernel
  obtain ⟨⟨r, s⟩, hrun, h⟩ := ExceptLib.bind_eq_ok.mp h
  obtain ⟨⟨i, c⟩, hget, h⟩ := ExceptLib.bind_eq_ok.mp h
  obtain ⟨rfl, rfl⟩ := of_decide_eq_true (Except.ok.inj h)
  have hofs : (blankVolume 4096).vol.cached.sbi.ofsDregion = 2051 := by decide +kernel
  have hok : LookupOk (letter 0, 3) ([], blankVolume 4096) := by
    obtain ⟨_, hroom⟩ := fresh_creatRoom (B := 2 ^ 32 - 2051) (n := 4096) (m := 3) (by decide) (by decide)
      (fun _ _ => 0) (fun _ => 0) (by decide) (by decide)
    refine fun _ => ⟨?_, by decide, fun hs => absurd (fresh_hasSlot (by decide) (by decide) _ _) hs⟩
    unfold EnoughBlocks
    rw [hofs]
    exact hroom
  refine ⟨s, hrun, lookup_agrees ⟨4096, fun _ _ => 0, fun _ => 0, by decide, by decide, (Run.refl _).snoc hok ?_⟩⟩
  exact ⟨0, 0, by decide, hrun, Or.inl ⟨rfl, 1, c, hget, rfl⟩⟩

/-! ## When the directory does not get the next block -/

/-- The calls of `cs` one after the other at time 0. -/
def createAll : List (CStr × UInt32) → LoggedState → M LoggedState
  | [], x => .ok x
  | c :: cs, (log, s) => do
    let (i, _) ← getFreeInode s.vol.cached
    let (ret, t) ← vsfsCreat 0 c.1 c.2 s
    createAll cs (if ret = 0 then log ++ [(c.1, i)] else log, t)

theorem run_createAll {cs : List (CStr × UInt32)} {x y : LoggedState} (h : createAll cs x = .ok y) :
    Run Logged (fun _ _ => True) x y := by
  induction cs generalizing x with
  | nil =>
    cases h
    exact .refl _
  | cons c cs ih =>
    obtain ⟨log, s⟩ := x
    obtain ⟨⟨i, cached⟩, hi, h⟩ := ExceptLib.bind_eq_ok.mp h
    obtain ⟨⟨ret, t⟩, hc, h⟩ := ExceptLib.bind_eq_ok.mp h
    refine Relation.ReflTransGen.trans ((Run.refl _).snoc trivial ⟨0, ret, by decide, hc, ?_⟩) (ih h)
    by_cases h0 : ret = 0
    · exact Or.inl ⟨h0, i, cached, hi, by rw [if_pos h0]⟩
    · exact Or.inr ⟨h0, by rw [if_neg h0]⟩

/-- The first file takes block 1, so the directory grows by block 2; the entry there cannot be looked at. At the end
blocks are still free, and no call gives blocks back: the allocator has never run dry. -/
theorem grown_directory_breaks_lookup : ∃ log s, CreatedBy (fun _ _ => True) log s ∧
    0 < s.vol.room (2 ^ 32 - s.vol.cached.sbi.ofsDregion) ∧ ¬LookupAgrees log s := by
  have h : (do
      let (log, s) ← createAll ((letter 0, 1) :: (List.range 14).map fun k => (letter (Fin.ofNat 26 (k + 1)), 0))
        ([], blankVolume 4096)
      .ok (decide ((letter 14, 15) ∈ log ∧ bit s.vol.cached.dbitmap 3 = true ∧
        3 < min (2 ^ 32 - s.vol.cached.sbi.ofsDregion) (dbitmapBits s.vol.cached.sbi) ∧
        ExceptLib.isError (vsfsOpen 0 (letter 14) 2 s) .outOfBounds = true)) : M Bool) = .ok true := by decide +kernel
  obtain ⟨⟨log, s⟩, hrun, h⟩ := ExceptLib.bind_eq_ok.mp h
  obtain ⟨hmem, hbit, hlt, hopen⟩ := of_decide_eq_true (Except.ok.inj h)
  refine ⟨log, s, ⟨4096, _, _, by decide, by decide, run_createAll hrun⟩,
    Finset.card_pos.mpr ⟨3, mem_freeBelow.mpr ⟨hlt, hbit⟩⟩, fun ha => ?_⟩
  obtain ⟨t, ht, _⟩ := ha.opened (letter 14) 15 (List.mem_cons_of_mem _ (List.mem_cons_of_mem _ hmem)) 0 2
  rw [ExceptLib.isError_iff, ht] at hopen
  cases hopen

end Vsfs
