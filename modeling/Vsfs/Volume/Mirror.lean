import Vsfs.Descriptors.Keys
import Vsfs.Volume.CreatFrame

/-!
# The copy of the inode that an open file keeps

`Coherent s`: the file object of every open descriptor has the blocks, the size and the block list of the inode that
the descriptor's slot names. `vsfs_write` refreshes the object of its own slot only, and before it sets the size; a
seek that grows the file changes the object after the refresh.

- `File.Mirrors.evolves`: a copy stays good while the blocks and the size of its inode do;
- `MirrorInv.step`: what each call preserves;
- `mirrors_are_coherent`: every run whose calls meet the condition;
- `write_leaves_mirror_behind`: the first byte written to a new file.
-/

set_option autoImplicit false

namespace Vsfs

open Function ByteSeq WordBits

variable {B n i : Nat} {E : Set Nat} {v w : Volume} {s t : State} {sb : SbInfo}

/-! ## Copies of an inode -/

/-- The object is a copy of inode `i` whose blocks the array `l2_block` can hold. -/
structure File.Mirrors (f : File) (v : Volume) (i : Nat) : Prop where
  lt : i < nrInodes
  limit : (v.inode i).blocks ≤ 1048625
  blocks : f.blocks = (v.inode i).blocks
  size : f.size = (v.inode i).fileSize
  block : f.block = v.dataBlocks i (v.inode i).blocks
  inode : f.inode = i

theorem InfoCopied.mirrors {f : File} (h : InfoCopied v i f) : f.Mirrors v i :=
  ⟨h.lt, h.limit, h.blocks, h.size, h.block, h.inode⟩

/-- A copy stays a copy while the blocks and the size of its inode stay. -/
theorem File.Mirrors.evolves {f : File} (h : f.Mirrors v i) (he : Evolves B E v w) (hi : i ∉ E)
    (hb : (w.inode i).blocks = (v.inode i).blocks) (hs : (w.inode i).size = (v.inode i).size) : f.Mirrors w i := by
  have hlim : level3Limit = 1053745 := rfl
  have hcap := h.limit
  refine ⟨h.lt, by rw [hb]; exact hcap, by rw [hb]; exact h.blocks, ?_, ?_, h.inode⟩
  · rw [h.size]
    unfold Inode.fileSize
    rw [hb, hs]
  · rw [h.block, hb]
    refine List.map_congr_left fun k hk => ?_
    have hk := List.mem_range.mp hk
    obtain ⟨hvalid, _, hfirst⟩ := dataRef_spec (k := k) (by omega)
    exact ((he.keep (i, dataRef k) ⟨h.lt, hvalid, by rw [hfirst]; exact hk⟩ hi).2).symm

/-- What is asked of one object: number of blocks, size, and the list of the blocks. -/
structure MirrorOf (v : Volume) (i : Nat) (f : File) : Prop where
  blocks : f.blocks = (v.inode i).blocks
  size : f.size = (v.inode i).fileSize
  length : f.blocks ≤ f.block.length
  block : ∀ k, k < f.blocks → f.block[k]? = some (v.val (i, dataRef k))

theorem File.Mirrors.mirrorOf {f : File} (h : f.Mirrors v i) : MirrorOf v i f := by
  refine ⟨h.blocks, h.size, ?_, fun k hk => ?_⟩
  · rw [h.block, dataBlocks_length, h.blocks]
  · rw [h.block]
    exact dataBlocks_getElem (by rw [← h.blocks]; exact hk)

/-! ## Open descriptors -/

/-- The descriptor with number `n` is open on slot `p`. -/
def Desc.Opened (d : Desc) (n p : Nat) : Prop :=
  ∃ cs c, d.reachable = .ok cs ∧ c ∈ cs ∧ c.2.index = n ∧ c.2.ptr = some p

theorem opened_iff_key {d : Desc} {cs : List (Nat × FdTable)} {p : Nat} (hr : d.reachable = .ok cs) :
    d.Opened n p ↔ (n, some p) ∈ cs.map fun c => c.2.key := by
  constructor
  · rintro ⟨cs', c, hr', hm, hi, hp⟩
    rw [hr, Except.ok.injEq] at hr'
    subst hr'
    exact List.mem_map.mpr ⟨c, hm, Prod.ext hi hp⟩
  · intro hm
    obtain ⟨c, hm, hk⟩ := List.mem_map.mp hm
    exact ⟨cs, c, hr, hm, congrArg Prod.fst hk, congrArg Prod.snd hk⟩

theorem Desc.Holds.opened_iff {d : Desc} {ks : List (Nat × Option Nat)} {p : Nat} (h : d.Holds ks)
    (hf : d.fdTable ≠ .freed) : d.Opened n p ↔ (n, some p) ∈ ks := by
  obtain ⟨cs, hr, hc⟩ := h.reachable hf
  rw [opened_iff_key hr, hc]

/-- A descriptor that the search finds is open. -/
theorem opened_of_findTarget {d : Desc} {fd : Int} {b p : Nat} {e : FdTable}
    (h : d.findTarget fd = .ok (some (b, e))) (hp : e.ptr = some p) : d.Opened e.index p := by
  obtain ⟨cs, hr, h⟩ := ExceptLib.bind_eq_ok.mp h
  have hm := List.mem_of_find?_eq_some (Except.ok.inj h)
  exact ⟨cs, (b, e), hr, List.mem_reverse.mp hm, rfl, hp⟩

/-- Every open descriptor has a slot whose file object is a copy of the inode that the slot names. -/
def Coherent (s : State) : Prop :=
  ∃ cs, s.desc.reachable = .ok cs ∧ ∀ c, c ∈ cs → ∃ p a f, c.2.ptr = some p ∧
    (s.desc.opFtable p).filePtr = some a ∧ s.desc.files a = some f ∧ MirrorOf s.vol (s.desc.opFtable p).inodeNr f

/-! ## The condition -/

/-- No open descriptor is on the root directory or on inode `i`. -/
def NotOpen (s : State) (i : Nat) : Prop :=
  ∀ m p, s.desc.Opened m p → (s.desc.opFtable p).inodeNr ≠ 0 ∧ (s.desc.opFtable p).inodeNr ≠ i

/-- `vsfs_creat` enters no name while a descriptor is open on the root directory or on the inode that it takes;
`vsfs_write` ends where the file ends, and if it gives the file blocks no other file object is open on it; `vsfs_lseek`
does not grow the file; `vsfs_close` frees no file object that another descriptor uses. The calls that allocate find
what they need. -/
def MirrorCallOk (B : Nat) : Call → State → Prop
  | .creat name blockNum, s => AllocOk B (.creat name blockNum) s ∧ (Enters name s →
      (s.vol.inode 0).HasSlot ∨ (s.vol.inode 0).blocks < 49 →
        ∀ i, Least s.vol.cached.ibitmap nrInodes i → NotOpen s i)
  | .close fildes, s => ∀ m n p q, s.desc.Opened m p → (m : Int) = fildes → s.desc.Opened n q → n ≠ m →
      (s.desc.opFtable q).filePtr ≠ (s.desc.opFtable p).filePtr
  | .write fildes buf nbyte, s => AllocOk B (.write fildes buf nbyte) s ∧
      ∀ e p, s.OpenOn fildes e p → WriteAllowed s e p nbyte →
        s.desc.writeEnd p nbyte % 2 ^ 32 = (s.vol.inode (s.desc.opFtable p).inodeNr).size ∧
        ((s.vol.inode (s.desc.opFtable p).inodeNr).blocks < neededBlocks (s.desc.writeEnd p nbyte) →
          ∀ m q, s.desc.Opened m q → (s.desc.opFtable q).inodeNr = (s.desc.opFtable p).inodeNr →
            (s.desc.opFtable q).filePtr = (s.desc.opFtable p).filePtr)
  | .lseek fildes offset whence, s => ∀ e p a f, s.OpenOn fildes e p → (s.desc.opFtable p).filePtr = some a →
      s.desc.files a = some f → ¬SeekGrows f offset whence
  | _, _ => True

theorem MirrorCallOk.alloc {c : Call} (h : MirrorCallOk B c s) : AllocOk B c s := by
  cases c with
  | creat name blockNum => exact h.1
  | write fildes buf nbyte => exact h.1
  | lseek fildes offset whence => exact fun b e p a f hf hp hfp hfile hg => absurd hg (h e p a f ⟨b, hf, hp⟩ hfp hfile)
  | _ => trivial

/-! ## The invariant -/

/-- Slot `p` is held once, and its file object is a copy of its inode. -/
def SlotMirrors (s : State) (p : Nat) : Prop :=
  (s.desc.opFtable p).ptrCounter = 1 ∧ ∃ a f, (s.desc.opFtable p).filePtr = some a ∧ a < s.desc.brk ∧
    s.desc.files a = some f ∧ f.Mirrors s.vol (s.desc.opFtable p).inodeNr

/-- The open descriptors have consecutive numbers, no more slots than are counted, and good copies. -/
structure MirrorInv (B : Nat) (sb : SbInfo) (s : State) : Prop where
  steady : Steady B sb s
  header : s.desc.fdTable ≠ .freed
  count : s.desc.count ≤ opLimit
  list : ∃ ks, s.desc.Holds ks ∧ Numbered ks ∧ ks.length ≤ s.desc.count ∧
    ∀ k, k ∈ ks → ∃ p, k.2 = some p ∧ SlotMirrors s p

theorem MirrorInv.slot {p : Nat} (h : MirrorInv B sb s) (ho : s.desc.Opened n p) : SlotMirrors s p := by
  obtain ⟨ks, hk, _, _, hm⟩ := h.list
  obtain ⟨q, hq, hs⟩ := hm _ ((hk.opened_iff h.header).mp ho)
  cases hq
  exact hs

/-- A change that keeps the list of descriptors. -/
theorem MirrorInv.of_sameList (h : MirrorInv B sb s) (ht : Steady B sb t) (hl : s.desc.SameList t.desc)
    (hc : t.desc.count = s.desc.count)
    (hm : ∀ n p, s.desc.Opened n p → SlotMirrors s p → SlotMirrors t p) : MirrorInv B sb t := by
  obtain ⟨ks, hk, hn, hlen, hks⟩ := h.list
  refine ⟨ht, by rw [hl.fdTable]; exact h.header, by rw [hc]; exact h.count, ks, hk.congr hl.fds hl.fdTable hl.brk, hn,
    by rw [hc]; exact hlen, fun k hkm => ?_⟩
  obtain ⟨p, hp, hs⟩ := hks k hkm
  refine ⟨p, hp, hm k.1 p ((hk.opened_iff h.header).mpr ?_) hs⟩
  rw [← hp]
  exact hkm

/-- The slots are good while the descriptors and the blocks and sizes of their inodes stay. -/
theorem MirrorInv.of_sameDesc (h : MirrorInv B sb s) (ht : Steady B sb t) (hd : t.desc = s.desc)
    (he : Evolves B E s.vol t.vol)
    (hi : ∀ n p, s.desc.Opened n p → (s.desc.opFtable p).inodeNr ∉ E ∧
      (t.vol.inode (s.desc.opFtable p).inodeNr).blocks = (s.vol.inode (s.desc.opFtable p).inodeNr).blocks ∧
      (t.vol.inode (s.desc.opFtable p).inodeNr).size = (s.vol.inode (s.desc.opFtable p).inodeNr).size) :
    MirrorInv B sb t := by
  refine h.of_sameList ht ⟨by rw [hd], by rw [hd], by rw [hd]⟩ (by rw [hd]) fun n p ho hs => ?_
  obtain ⟨hone, a, f, hfp, hab, hfile, hmir⟩ := hs
  obtain ⟨hE, hb, hsz⟩ := hi n p ho
  unfold SlotMirrors
  rw [hd]
  exact ⟨hone, a, f, hfp, hab, hfile, hmir.evolves he hE hb hsz⟩

/-- The slots are good after a change of the file object at `a` and of the offset of slot `p`. -/
theorem SlotMirrors.modFile {a p q o : Nat} {g : File} {d : Desc} (h : SlotMirrors s q)
    (hd : t.desc = (d.modFile a g).setOffset p o) (hop : d.opFtable = s.desc.opFtable) (hbrk : d.brk = s.desc.brk)
    (hfiles : d.files = s.desc.files)
    (hm : ∀ b f, (s.desc.opFtable q).filePtr = some b → s.desc.files b = some f →
      f.Mirrors s.vol (s.desc.opFtable q).inodeNr →
      (b = a → g.Mirrors t.vol (s.desc.opFtable q).inodeNr) ∧ (b ≠ a → f.Mirrors t.vol (s.desc.opFtable q).inodeNr)) :
    SlotMirrors t q := by
  obtain ⟨hone, b, f, hfp, hb, hfile, hmir⟩ := h
  have hslot : ((t.desc.opFtable q).ptrCounter = (s.desc.opFtable q).ptrCounter) ∧
      ((t.desc.opFtable q).filePtr = (s.desc.opFtable q).filePtr) ∧
      (t.desc.opFtable q).inodeNr = (s.desc.opFtable q).inodeNr := by
    rw [hd]
    simp only [Desc.setOffset, Desc.modFile, update_apply, hop]
    split
    case isTrue hq => rw [hq]; exact ⟨rfl, rfl, rfl⟩
    case isFalse => exact ⟨rfl, rfl, rfl⟩
  obtain ⟨heq, hne⟩ := hm b f hfp hfile hmir
  unfold SlotMirrors
  rw [hslot.1, hslot.2.1, hslot.2.2]
  refine ⟨hone, ?_⟩
  have hbt : t.desc.brk = s.desc.brk := by rw [hd]; exact hbrk
  by_cases hba : b = a
  · refine ⟨b, g, hfp, by rw [hbt]; exact hb, ?_, heq hba⟩
    rw [hd, hba]
    exact update_self ..
  · refine ⟨b, f, hfp, by rw [hbt]; exact hb, ?_, hne hba⟩
    rw [hd]
    simp only [Desc.setOffset, Desc.modFile, update_of_ne hba, hfiles]
    exact hfile

/-! ## Steps -/

/-- `vsfs_creat` under the condition. -/
theorem MirrorInv.creat {now : Nat} {name : CStr} {blockNum : UInt32} {ret : Int} (h : MirrorInv B sb s)
    (ht : Steady B sb t) (hsb : sb.nrIbitmapBlocks = 1) (hok : MirrorCallOk B (.creat name blockNum) s)
    (hc : vsfsCreat now name blockNum s = .ok (ret, t)) : MirrorInv B sb t := by
  rcases creat_steps h.steady hsb hok.1 hc with ⟨_, hv, hd⟩ | ⟨he, i, _, hleast, hd, hdone⟩
  · exact h.of_sameDesc ht hd (E := ∅) (by rw [hv]; exact .refl h.steady.sound)
      fun n p _ => ⟨Set.notMem_empty _, by rw [hv], by rw [hv]⟩
  · -- a full directory is left as it was, otherwise only the root and the new inode change
    have hsame : t.vol = s.vol ∨ NotOpen s i := by
      cases hdone with
      | slot hs => exact Or.inr (hok.2 he (Or.inl hs) i hleast)
      | grow _ hb => exact Or.inr (hok.2 he (Or.inr hb) i hleast)
      | full _ _ hw => exact Or.inl hw
    rcases hsame with hv | hno
    · exact h.of_sameDesc ht hd (E := ∅) (by rw [hv]; exact .refl h.steady.sound)
        fun n p _ => ⟨Set.notMem_empty _, by rw [hv], by rw [hv]⟩
    · refine h.of_sameDesc ht hd (hdone.evolves h.steady.sound) fun n p ho => ?_
      obtain ⟨h0, hi⟩ := hno n p ho
      have hj := hdone.other hi h0
      exact ⟨hi, by rw [hj], by rw [hj]⟩

/-- `vsfs_open` makes a copy, or loses all descriptors. -/
theorem MirrorInv.open {now : Nat} {pathname : CStr} {flags ret : Int} (h : MirrorInv B sb s) (ht : Steady B sb t)
    (ho : vsfsOpen now pathname flags s = .ok (ret, t)) : MirrorInv B sb t := by
  have htouch := open_touched ho
  obtain ⟨_, _, rfl⟩ | ⟨_, fd, a, d, hadd, ⟨_, hu⟩ | ⟨target, info, _, hinfo, hlim, _, hres⟩⟩ := vsfsOpen_cases ho
  · exact ⟨ht, h.header, h.count, h.list⟩
  · refine ⟨ht, by rw [hu.fdTable]; simp, by rw [hu.count]; exact h.count, [], ?_, numbered_nil, Nat.zero_le _, by simp⟩
    exact Desc.holds_nil (by rw [hu.fdTable]; rfl)
  obtain ⟨ks, hk, hn, hlen, hks⟩ := h.list
  obtain ⟨hcount, hop, hbrk⟩ := addFdTable_optab hadd
  have hfiles := addFdTable_files hadd
  dsimp only at hcount hop hbrk hfiles
  have hdesc : t.desc = Desc.takeSlot { d with brk := d.brk + 1, files := update d.files d.brk (some info) } a target
      (some d.brk) flags := by rw [hres]
  obtain ⟨hk', _⟩ := hk.opened { d with brk := d.brk + 1, files := update d.files d.brk (some info) } target
    (some d.brk) flags hadd rfl rfl (Nat.le_succ _) hcount
  have hcnt : t.desc.count = s.desc.count + 1 := by
    rw [hdesc]
    exact congrArg (· + 1) hcount
  -- the new slot holds a fresh copy
  have hnew : SlotMirrors t s.desc.count := by
    have hslot : t.desc.opFtable s.desc.count = ⟨0, target, 1, 0, some d.brk⟩ := by
      rw [hdesc, ← hcount]
      exact update_self ..
    unfold SlotMirrors
    rw [hslot]
    refine ⟨rfl, d.brk, info, rfl, by rw [hdesc]; exact Nat.lt_succ_self _, ?_, ?_⟩
    · rw [hdesc]
      exact update_self ..
    · exact (vsfsGetInodeInfo_spec hinfo).mirrors.evolves (htouch.evolves (E := ∅) h.steady.sound)
        (Set.notMem_empty _) (htouch.blocks _) (htouch.size _)
  refine ⟨ht, ?_, by rw [hcnt]; omega, _, hdesc ▸ hk', hn.opened _, by rw [hcnt]; simp; omega, fun k hkm => ?_⟩
  · rw [hdesc]
    obtain ⟨_, _, ⟨_, _, rfl⟩ | ⟨_, _, _, _, _, _, rfl⟩⟩ := addFdTable_cases hadd <;> simp [Desc.takeSlot]
  rcases List.mem_append.mp hkm with hkm | hkm
  · obtain ⟨p, hp, hs⟩ := hks k hkm
    refine ⟨p, hp, ?_⟩
    by_cases hpc : p = s.desc.count
    · rw [hpc]
      exact hnew
    · obtain ⟨hone, b, f, hfp, hb, hfile, hmir⟩ := hs
      have hslot : t.desc.opFtable p = s.desc.opFtable p := by
        rw [hdesc, ← hop]
        exact update_of_ne (by rw [← hcount] at hpc; exact hpc) ..
      unfold SlotMirrors
      rw [hslot]
      refine ⟨hone, b, f, hfp, ?_, ?_, hmir.evolves (htouch.evolves (E := ∅) h.steady.sound) (Set.notMem_empty _)
        (htouch.blocks _) (htouch.size _)⟩
      · rw [hdesc]
        show b < d.brk + 1
        omega
      · rw [hdesc]
        simp only [Desc.takeSlot, update_of_ne (show b ≠ d.brk by omega), hfiles]
        exact hfile
  · rw [List.mem_singleton] at hkm
    rw [hkm]
    exact ⟨_, rfl, hnew⟩

theorem freeFile_files_of_ne {d : Desc} {p a : Nat} (h : (d.opFtable p).filePtr ≠ some a) :
    (d.freeFile p).files a = d.files a := by
  unfold Desc.freeFile
  split
  case h_1 f hf => exact update_of_ne (by rintro rfl; exact h hf) ..
  case h_2 => rfl

/-- `vsfs_close` under the condition frees a file object that no other descriptor uses. -/
theorem MirrorInv.close {fildes ret : Int} (h : MirrorInv B sb s) (ht : Steady B sb t)
    (hok : MirrorCallOk B (.close fildes) s) (hc : vsfsClose fildes s = .ok (ret, t)) : MirrorInv B sb t := by
  have hvol := vsfsClose_vol hc
  obtain ⟨_, _, _, rfl⟩ | ⟨hd, tl, rm, d, hsr, hu, hcase⟩ := vsfsClose_cases hc
  · exact h.of_sameDesc ht rfl (E := ∅) (.refl h.steady.sound) fun _ _ _ => ⟨Set.notMem_empty _, rfl, rfl⟩
  obtain ⟨ks, hk, hn, hlen, hks⟩ := h.list
  have hcap : ks.length ≤ 65536 := by
    have := h.count
    unfold opLimit at this
    omega
  obtain ⟨b, k, ks', rfl, hkk, hfd, hst, ⟨next, htab⟩, hkey, hrest⟩ :=
    hk.unlinked (hn.nodup hcap) hsr.fdTable hu
  have hkm : k ∈ ks := by rcases hkk with rfl | rfl <;> simp
  have hks' : ∀ x, x ∈ ks' → x ∈ ks ∧ x.1 ≠ k.1 := by
    have hnd := hn.nodup hcap
    intro x hx
    rcases hkk with rfl | rfl
    · rw [List.map_cons, List.nodup_cons] at hnd
      exact ⟨List.mem_cons_of_mem _ hx, fun he => hnd.1 (he ▸ List.mem_map_of_mem hx)⟩
    · rw [List.map_append, List.nodup_append] at hnd
      exact ⟨List.mem_append_left _ hx, hnd.2.2 x.1 (List.mem_map_of_mem hx) k.1 (by simp)⟩
  have hlen' : ks'.length + 1 = ks.length := by rcases hkk with rfl | rfl <;> simp
  obtain ⟨p, hkp, hone, _⟩ := hks k hkm
  -- the slot is held once, so it is given up
  obtain ⟨hdrop, hcnt, hslots⟩ := dropSlot_once (d := d.freeFile p) (p := p)
    (by rw [freeFile_opFtable, hst.opFtable]; exact hone) (by rw [freeFile_count, hst.count]; omega)
  obtain ⟨hno, _⟩ | ⟨b', e, p', f, hb', he, hp', _, hout⟩ := hcase
  · cases hno
  cases hb'
  have hpp : p' = p := by
    rw [he, Option.map_some, Option.some.injEq] at hkey
    have := congrArg Prod.snd hkey
    rw [show e.key.2 = some p' from hp', hkp] at this
    exact Option.some.inj this
  subst hpp
  obtain ⟨hfail, _⟩ | ⟨_, _, rfl⟩ := hout
  · rw [hdrop] at hfail
    cases hfail
  obtain ⟨hcl, hheader⟩ := closedFrom_closeLast s htab b p'
  refine ⟨ht, hheader, ?_, ks', hrest _ _ _ hcl, hn.closed hkk, ?_, fun x hx => ?_⟩
  · rw [hcl.drop.2, hcnt, freeFile_count, hst.count]
    have := h.count
    omega
  · rw [hcl.drop.2, hcnt, freeFile_count, hst.count]
    omega
  obtain ⟨hxm, hxn⟩ := hks' x hx
  obtain ⟨q, hq, hqone, a, g, hfp, hab, hfile, hmir⟩ := hks x hxm
  have hopen : ∀ y z, y ∈ ks → y.2 = some z → s.desc.Opened y.1 z := fun y z hy hz =>
    (hk.opened_iff h.header).mpr (by rw [← hz]; exact hy)
  have hne := hok k.1 x.1 p' q (hopen k p' hkm hkp) hfd (hopen x q hxm hq) hxn
  have hqp : q ≠ p' := by
    rintro rfl
    exact hne rfl
  have hslot : (State.closeLast { s with inodeReg := none, desc := ((d.freeFile p').dropSlot p').2 } b).desc.opFtable q =
      s.desc.opFtable q := by
    rw [hcl.drop.1, hslots q hqp, freeFile_opFtable, hst.opFtable]
  refine ⟨q, hq, ?_⟩
  unfold SlotMirrors
  rw [hslot, hvol]
  refine ⟨hqone, a, g, hfp, by rw [hcl.brk, hst.brk]; exact hab, ?_, hmir⟩
  rw [closeLast_files]
  show ((d.freeFile p').dropSlot p').2.files a = some g
  rw [dropSlot_files, freeFile_files_of_ne, hst.files]
  · exact hfile
  · rw [hst.opFtable]
    exact fun he => hne (hfp.trans he.symm)

/-- `vsfs_write` under the condition. -/
theorem MirrorInv.write {now : Nat} {fildes ret : Int} {buf : Bytes} {nbyte : UInt64} (h : MirrorInv B sb s)
    (ht : Steady B sb t) (hok : MirrorCallOk B (.write fildes buf nbyte) s)
    (hw : vsfsWrite now fildes buf nbyte s = .ok (ret, t)) : MirrorInv B sb t := by
  obtain ⟨b, e, p, hfind, hp, ⟨_, rfl⟩ | ⟨ha, _, a, f, v₁, v₂, hw⟩⟩ := vsfsWrite_cases hw
  · exact h
  obtain ⟨hsize, hshare⟩ := hok.2 e p ⟨b, hfind, hp⟩ ha
  have hev := write_steps (E := ∅) h.steady.sound h.steady.files ha (hok.1 b e p hfind hp ha) hw
  have hall := hev.before.trans hev.after
  obtain ⟨_, a', old, hfp, _, hold, hmir⟩ := h.slot (opened_of_findTarget hfind hp)
  have haa : a' = a := by
    have := hw.filePtr
    rw [hfp] at this
    exact Option.some.inj this
  subst haa
  -- the object that the write leaves is a copy: it is refreshed, or the inode keeps its blocks
  have hcopy : f.Mirrors v₁ (s.desc.opFtable p).inodeNr := by
    rcases hw.alloc with ⟨_, _, _, hinfo⟩ | ⟨_, rfl, hfile⟩
    · exact (vsfsGetInodeInfo_spec hinfo).mirrors
    · rw [hold, Option.some.injEq] at hfile
      rw [← hfile]
      exact hmir
  have hsz : (t.vol.inode (s.desc.opFtable p).inodeNr).size = (s.vol.inode (s.desc.opFtable p).inodeNr).size := by
    rw [hev.newSize, hsize]
  have hnew : f.Mirrors t.vol (s.desc.opFtable p).inodeNr :=
    hcopy.evolves hev.after (Set.notMem_empty _) hev.newBlocks (by rw [hsz, hev.oldSize])
  have hdesc := congrArg State.desc hw.result
  refine h.of_sameList ht (by rw [hdesc]; exact ⟨rfl, rfl, rfl⟩) (by rw [hdesc]; rfl) fun n q ho hs =>
    hs.modFile hdesc rfl rfl rfl fun c g hgp hg hmg => ⟨fun hca => ?_, fun hca => ?_⟩
  · -- the same object, so the same inode
    subst hca
    have hsame : (s.desc.opFtable q).inodeNr = (s.desc.opFtable p).inodeNr := by
      rw [hold, Option.some.injEq] at hg
      rw [← hmg.inode, ← hmir.inode, hg]
    rw [hsame]
    exact ⟨hnew.lt, hnew.limit, hnew.blocks, hnew.size, hnew.block, hnew.inode⟩
  · by_cases hi : (s.desc.opFtable q).inodeNr = (s.desc.opFtable p).inodeNr
    · -- another object on the same inode, which has got no blocks
      have hfew : ¬(s.vol.inode (s.desc.opFtable p).inodeNr).blocks < neededBlocks (s.desc.writeEnd p nbyte) := by
        intro hlt
        have := hshare hlt n q ho hi
        rw [hgp, hfp] at this
        exact hca (Option.some.inj this)
      rw [hi] at hmg ⊢
      exact hmg.evolves hall (Set.notMem_empty _) (by rw [hev.newBlocks, hev.blocks]; omega) hsz
    · have hj := hev.other _ hi
      exact hmg.evolves hall (Set.notMem_empty _) (by rw [hj]) (by rw [hj])

/-- `vsfs_read` changes a time stamp and an offset. -/
theorem MirrorInv.read {now : Nat} {fildes ret : Int} {buf buf' : Bytes} {nbyte : UInt64} (h : MirrorInv B sb s)
    (ht : Steady B sb t) (hr : vsfsRead now fildes buf nbyte s = .ok (ret, buf', t)) : MirrorInv B sb t := by
  have htouch := read_touched hr
  obtain ⟨_, rfl, _⟩ | ⟨_, _, p, a, f, readed, _, _, _, hd⟩ := vsfsRead_cases hr
  · exact h
  have hdesc := congrArg State.desc hd.result
  have hkeep : ∀ {i : Nat} {g : File}, g.Mirrors s.vol i → g.Mirrors t.vol i := fun hg =>
    hg.evolves (htouch.evolves (E := ∅) h.steady.sound) (Set.notMem_empty _) (htouch.blocks _) (htouch.size _)
  refine h.of_sameList ht (by rw [hdesc]; exact ⟨rfl, rfl, rfl⟩) (by rw [hdesc]; rfl) fun n q ho hs =>
    hs.modFile hdesc rfl rfl rfl fun c g hgp hg hmg => ⟨fun hca => ?_, fun _ => hkeep hmg⟩
  subst hca
  rw [hd.file, Option.some.injEq] at hg
  subst hg
  have hnew := hkeep hmg
  exact ⟨hnew.lt, hnew.limit, hnew.blocks, hnew.size, hnew.block, hnew.inode⟩

/-- A seek under the condition moves an offset. -/
theorem MirrorInv.lseek {fildes whence : Int} {offset : UInt64} {r : Nat} (h : MirrorInv B sb s) (ht : Steady B sb t)
    (hok : MirrorCallOk B (.lseek fildes offset whence) s) (hl : vsfsLseek fildes offset whence s = .ok (r, t)) :
    MirrorInv B sb t := by
  obtain ⟨_, hres, _⟩ | ⟨b, e, p, a, f, s', hs', hfind, hp, hfp, hfile, ⟨o, hres, _⟩ | ⟨hset, _, info, v, hg⟩⟩ :=
    vsfsLseek_cases hl
  · have hvol : t.vol = s.vol := by rw [hres]
    exact h.of_sameDesc ht (by rw [hres]) (E := ∅) (by rw [hvol]; exact .refl h.steady.sound)
      fun n p _ => ⟨Set.notMem_empty _, by rw [hvol], by rw [hvol]⟩
  · have hvol : t.vol = s.vol := by rw [hres, (setInodeReg_eq_ok hs').1]
    have hdesc : t.desc = (s.desc.modFile a f).setOffset p o := by
      rw [hres]
      simp only [Desc.modFile, Desc.setOffset, ← hfile, update_eq_self]
    refine h.of_sameList ht (by rw [hdesc]; exact ⟨rfl, rfl, rfl⟩) (by rw [hdesc]; rfl) fun n q ho hs =>
      hs.modFile hdesc rfl rfl rfl fun c g hgp hg hmg => ?_
    rw [hvol]
    refine ⟨fun hca => ?_, fun _ => hmg⟩
    subst hca
    rw [hfile, Option.some.injEq] at hg
    rw [hg]
    exact hmg
  · exact absurd ⟨hset, hg.limit, hg.beyond⟩ (hok e p a f ⟨b, hfind, hp⟩ hfp hfile)

/-- **Every call** that meets the condition keeps the invariant. -/
theorem MirrorInv.step {c : Call} (h : MirrorInv B sb s) (hsb : sb.nrIbitmapBlocks = 1) (hok : MirrorCallOk B c s)
    (hs : Step c s t) : MirrorInv B sb t := by
  have ht := h.steady.step hsb hok.alloc hs
  obtain ⟨now, ret, _, hr⟩ := hs
  cases c with
  | creat name blockNum => exact h.creat ht hsb hok hr
  | «open» pathname flags => exact h.open ht hr
  | stat pathname =>
    obtain ⟨⟨r, fre, u⟩, hst, hr⟩ := ExceptLib.bind_eq_ok.mp hr
    cases hr
    have hv := vsfsStat_vol hst
    exact h.of_sameDesc ht (vsfsStat_desc hst) (E := ∅) (by rw [hv]; exact .refl h.steady.sound)
      fun _ _ _ => ⟨Set.notMem_empty _, by rw [hv], by rw [hv]⟩
  | close fildes => exact h.close ht hok hr
  | write fildes buf nbyte => exact h.write ht hok hr
  | read fildes buf nbyte =>
    obtain ⟨⟨r, b, u⟩, hrd, hr⟩ := ExceptLib.bind_eq_ok.mp hr
    cases hr
    exact h.read ht hrd
  | lseek fildes offset whence =>
    obtain ⟨⟨r, u⟩, hl, hr⟩ := ExceptLib.bind_eq_ok.mp hr
    cases hr
    exact h.lseek ht hok hl

/-! ## The main theorem -/

theorem MirrorInv.coherent (h : MirrorInv B sb s) : Coherent s := by
  obtain ⟨ks, hk, _, _, hks⟩ := h.list
  obtain ⟨cs, hr, hc⟩ := hk.reachable h.header
  refine ⟨cs, hr, fun c hm => ?_⟩
  obtain ⟨p, hp, _, a, f, hfp, _, hfile, hmir⟩ := hks c.2.key (hc ▸ List.mem_map_of_mem hm)
  exact ⟨p, a, f, hp, hfp, hfile, hmir.mirrorOf⟩

/-- The condition with the blocks that the device has as the bound. -/
def MirrorOk (c : Call) (s : State) : Prop := MirrorCallOk s.vol.cached.sbi.nrDregionBlocks c s

/-- **The copies are coherent** in every run whose calls meet the condition. -/
theorem mirrors_are_coherent (h : ReachedBy MirrorOk s) : Coherent s := by
  obtain ⟨n, hl, hu, disk, seg, hr⟩ := h
  have hstart : MirrorInv (superblockInfo n).nrDregionBlocks (superblockInfo n) (State.fresh n disk seg) :=
    ⟨fresh_steady_device hl hu disk seg, TablePtr.noConfusion, Nat.zero_le _, [], Desc.holds_nil rfl, numbered_nil,
      Nat.zero_le _, by simp⟩
  refine (hr.invariant hstart fun c u v hP hok hs => ?_).coherent
  unfold MirrorOk at hok
  rw [hP.steady.fits.regions.nrDregionBlocks] at hok
  exact hP.step (superblockInfo_layout hl hu).nrIbitmapBlocks hok hs

theorem blank_notOpen {n i : Nat} : NotOpen (blankVolume n) i := fun m p hop => by
  have hm := ((Desc.holds_nil rfl).opened_iff TablePtr.noConfusion).mp hop
  exact absurd hm List.not_mem_nil

/-- Descriptor 1 is open on slot 0, and descriptor 2 on slot 1. -/
theorem opened_two_iff {cs : List (Nat × FdTable)} {d : Desc} {p : Nat} (hr : d.reachable = .ok cs)
    (hk : cs.map (fun c => c.2.key) = [(1, some 0), (2, some 1)]) : d.Opened n p ↔ n = 1 ∧ p = 0 ∨ n = 2 ∧ p = 1 := by
  rw [opened_iff_key hr, hk]
  simp

/-- Closing the second of two descriptors whose slots have objects of their own. -/
theorem close_second_ok {cs : List (Nat × FdTable)} (hr : s.desc.reachable = .ok cs)
    (hk : cs.map (fun c => c.2.key) = [(1, some 0), (2, some 1)])
    (hne : (s.desc.opFtable 0).filePtr ≠ (s.desc.opFtable 1).filePtr) : MirrorOk (.close 2) s := by
  intro m n p q hm h2 hn hnm
  have hm := (opened_two_iff hr hk).mp hm
  have hn := (opened_two_iff hr hk).mp hn
  obtain ⟨rfl, rfl⟩ : m = 2 ∧ p = 1 := by omega
  obtain ⟨rfl, rfl⟩ : n = 1 ∧ q = 0 := by omega
  exact hne

/-- `vsfs_creat` of a second file of no blocks, with a slot left in the first block of the directory, when both
descriptors are on the first file. -/
theorem creat_second_ok {cs : List (Nat × FdTable)} {name : CStr} (hs : s.vol.Sound B) (hr : s.desc.reachable = .ok cs)
    (hk : cs.map (fun c => c.2.key) = [(1, some 0), (2, some 1)]) (h0 : (s.desc.opFtable 0).inodeNr = 1)
    (h1 : (s.desc.opFtable 1).inodeNr = 1) (hfree : Least s.vol.cached.ibitmap nrInodes 2)
    (he : (s.vol.inode 0).entry < 16) (hb : (s.vol.inode 0).blocks = 1) (hl : (s.vol.inode 0).l1 0 = 0) :
    MirrorOk (.creat name 0) s := by
  have hdir : SlotInDirectory s.vol := by
    refine ⟨by omega, by rw [hb]; decide, fun _ => ?_⟩
    rw [show (s.vol.inode 0).entry / 16 = 0 by omega]
    exact hl
  refine ⟨fun _ => ⟨⟨2, hfree.lt, hfree.bit⟩, ⟨fun _ => Nat.zero_le _, fun hno _ => absurd ?_ hno⟩, hdir.clear hs⟩,
    fun _ _ i hi m p hop => ?_⟩
  · rw [hasSlot_iff (by omega)]
    omega
  · have hp : (s.desc.opFtable p).inodeNr = 1 := by
      rcases (opened_two_iff hr hk).mp hop with ⟨_, rfl⟩ | ⟨_, rfl⟩
      · exact h0
      · exact h1
    rw [hp, hi.unique hfree]
    decide

/-- The three calls that create a file and open it twice, from a blank volume. -/
theorem reachedBy_opened_twice {s₁ s₂ s₃ : State} {rc ro rp : Int}
    (hc : Call.run 0 (.creat (letter 0) 3) (blankVolume 4096) = .ok (rc, s₁))
    (ho : Call.run 0 (.open (letter 0) oRdwr) s₁ = .ok (ro, s₂))
    (hp : Call.run 0 (.open (letter 0) oRdwr) s₂ = .ok (rp, s₃)) :
    ReachedBy MirrorOk s₃ ∧ ∃ B, s₃.vol.Sound B := by
  have halloc : AllocOk (blankVolume 4096).vol.cached.sbi.nrDregionBlocks (.creat (letter 0) 3) (blankVolume 4096) :=
    fresh_creat_device (by decide) (by decide) _ _ _ (by decide) (by decide)
  have hs₁ : Step (.creat (letter 0) 3) (blankVolume 4096) s₁ := ⟨0, rc, by decide, hc⟩
  have hs₂ : Step (.open (letter 0) oRdwr) s₁ s₂ := ⟨0, ro, by decide, ho⟩
  have hs₃ : Step (.open (letter 0) oRdwr) s₂ s₃ := ⟨0, rp, by decide, hp⟩
  constructor
  · have hcreat : MirrorOk (.creat (letter 0) 3) (blankVolume 4096) := ⟨halloc, fun _ _ _ _ => blank_notOpen⟩
    have hopen : ∀ {u : State}, MirrorOk (.open (letter 0) oRdwr) u := trivial
    exact (((reachedBy_blankVolume (by decide) (by decide)).step hcreat hs₁).step hopen hs₂).step hopen hs₃
  · have hcreat : OwnershipOk (.creat (letter 0) 3) (blankVolume 4096) := by
      refine ⟨halloc, ?_⟩
      rintro _ _ ⟨⟩ _ _
      decide
    have hopen : ∀ {u : State}, OwnershipOk (.open (letter 0) oRdwr) u := ⟨trivial, fun _ _ hcall => by cases hcall⟩
    obtain ⟨n, hn⟩ :=
      (((reachedBy_blankVolume (by decide) (by decide)).step hcreat hs₁).step hopen hs₂).step hopen hs₃
    exact ⟨_, hn.owned.1.sound⟩

/-- A file is opened twice, another one is created, and one of the two descriptors is closed. -/
theorem mirrors_are_coherent_closed : ∃ s, ReachedBy MirrorOk s ∧ s.desc.Opened 1 0 ∧
    (s.desc.opFtable 0).inodeNr = 1 ∧ (s.vol.inode 1).blocks = 3 ∧ Coherent s := by
  have h : (do
      let c ← Call.run 0 (.creat (letter 0) 3) (blankVolume 4096)
      let o ← Call.run 0 (.open (letter 0) oRdwr) c.2
      let p ← Call.run 0 (.open (letter 0) oRdwr) o.2
      let q ← Call.run 0 (.creat (letter 1) 0) p.2
      let t ← Call.run 0 (.close 2) q.2
      let ps ← p.2.desc.reachable
      let qs ← q.2.desc.reachable
      let ts ← t.2.desc.reachable
      .ok (decide ((ps.map (fun c => c.2.key) = [(1, some 0), (2, some 1)] ∧ (p.2.desc.opFtable 0).inodeNr = 1 ∧
          (p.2.desc.opFtable 1).inodeNr = 1 ∧ bit p.2.vol.cached.ibitmap 2 = true ∧
          bit p.2.vol.cached.ibitmap 0 = false ∧ bit p.2.vol.cached.ibitmap 1 = false ∧
          (p.2.vol.inode 0).entry < 16 ∧ (p.2.vol.inode 0).blocks = 1 ∧ (p.2.vol.inode 0).l1 0 = 0) ∧
        (qs.map (fun c => c.2.key) = [(1, some 0), (2, some 1)] ∧
          (q.2.desc.opFtable 0).filePtr ≠ (q.2.desc.opFtable 1).filePtr) ∧
        ts.map (fun c => c.2.key) = [(1, some 0)] ∧ (t.2.desc.opFtable 0).inodeNr = 1 ∧ (t.2.vol.inode 1).blocks = 3)) :
          M Bool) = .ok true := by decide +kernel
  obtain ⟨⟨rc, c⟩, hc, h⟩ := ExceptLib.bind_eq_ok.mp h
  obtain ⟨⟨ro, o⟩, ho, h⟩ := ExceptLib.bind_eq_ok.mp h
  obtain ⟨⟨rp, p⟩, hp, h⟩ := ExceptLib.bind_eq_ok.mp h
  obtain ⟨⟨rq, q⟩, hq, h⟩ := ExceptLib.bind_eq_ok.mp h
  obtain ⟨⟨rt, t⟩, ht, h⟩ := ExceptLib.bind_eq_ok.mp h
  obtain ⟨ps, hps, h⟩ := ExceptLib.bind_eq_ok.mp h
  obtain ⟨qs, hqs, h⟩ := ExceptLib.bind_eq_ok.mp h
  obtain ⟨ts, hts, h⟩ := ExceptLib.bind_eq_ok.mp h
  obtain ⟨⟨hpk, hi0, hi1, h2, h0, h1, hentry, hblocks, hfirst⟩, ⟨hqk, hne⟩, htk, hino, hb⟩ :=
    of_decide_eq_true (Except.ok.inj h)
  obtain ⟨hreach, B, hsound⟩ := reachedBy_opened_twice hc ho hp
  have hfree : Least p.vol.cached.ibitmap nrInodes 2 := ⟨by decide, h2, fun k hk => by
    obtain rfl | rfl : k = 0 ∨ k = 1 := by omega
    · exact h0
    · exact h1⟩
  have hcreat := @creat_second_ok B p ps (letter 1) hsound hps hpk hi0 hi1 hfree hentry hblocks hfirst
  have hr : ReachedBy MirrorOk t :=
    (hreach.step hcreat ⟨0, rq, by decide, hq⟩).step (close_second_ok hqs hqk hne) ⟨0, rt, by decide, ht⟩
  exact ⟨t, hr, (opened_iff_key hts).mpr (by rw [htk]; simp), hino, hb, mirrors_are_coherent hr⟩

/-- The first byte written to a new file leaves size 0 in the file object. -/
theorem write_leaves_mirror_behind : ∃ s, Reached s ∧ ¬Coherent s := by
  have h : (do
      let r ← runCalls [.creat (letter 0) 0, .open (letter 0) oRdwr, .write 1 (fun _ => 0) 1] (0, blankVolume 4096)
      let cs ← r.2.desc.reachable
      let f ← r.2.desc.fileOf 0
      .ok (decide (cs.map (fun c => c.2.ptr) = [some 0] ∧
        f.2.size ≠ (r.2.vol.inode (r.2.desc.opFtable 0).inodeNr).fileSize)) : M Bool) = .ok true := by decide +kernel
  obtain ⟨⟨r, s⟩, hrun, h⟩ := ExceptLib.bind_eq_ok.mp h
  obtain ⟨cs, hcs, h⟩ := ExceptLib.bind_eq_ok.mp h
  obtain ⟨⟨a, f⟩, hf, h⟩ := ExceptLib.bind_eq_ok.mp h
  obtain ⟨hptr, hne⟩ := of_decide_eq_true (Except.ok.inj h)
  obtain ⟨hfp, hfile⟩ := fileOf_eq_ok.mp hf
  obtain ⟨c, hm, hc⟩ := List.mem_map.mp (hptr ▸ List.mem_singleton_self (some 0))
  refine ⟨s, ReachedBy.runCalls (reachedBy_blankVolume (by decide) (by decide)) hrun, ?_⟩
  rintro ⟨cs', hcs', hall⟩
  rw [hcs, Except.ok.injEq] at hcs'
  subst hcs'
  obtain ⟨p, a', f', hp, hfp', hfile', hmir⟩ := hall c hm
  rw [hc, Option.some.injEq] at hp
  subst hp
  rw [hfp, Option.some.injEq] at hfp'
  subst hfp'
  rw [hfile, Option.some.injEq] at hfile'
  subst hfile'
  exact hne hmir.size

end Vsfs
