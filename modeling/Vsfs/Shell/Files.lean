import Vsfs.Shell.OneFile
import Vsfs.Volume.Messages

/-!
# The calls of the shell on a tree

`Serving n s₀ s`: calls that a session permits have led from the mount in `s₀` to `s`. Each of `vsfs_creat`, the calls
of `cmd_write` and those of `cmd_read` is taken here from a state that holds a tree to one that holds the tree that
the request asks for.

- `Serving.step`: one call;
- `Serving.creat`: a new file, or a name that is refused;
- `Serving.write`: a text for a file.
-/

set_option autoImplicit false

namespace Vsfs

open Function ByteSeq WordBits GuardedRun

variable {n B i : Nat} {v w : Volume} {s₀ s t : State} {tr : Tree} {ino : Word → Nat} {name text : Word} {now : Nat}

/-! ## Sessions -/

/-- A state of a session since the mount in `s₀`, with what the calls keep of the directory. -/
structure Serving (n : Nat) (s₀ s : State) : Prop where
  low : 2052 ≤ n
  high : n < 2 ^ 32
  since : SinceMount n s₀ s
  root : RootInv (superblockInfo n).nrDregionBlocks (superblockInfo n) s

theorem Serving.sound (h : Serving n s₀ s) : s.vol.Sound (superblockInfo n).nrDregionBlocks := h.root.steady.sound

theorem Serving.sized (h : Serving n s₀ s) : s.vol.Sized := h.since.session.proper.sized h.root.steady.fits

/-- **One call** that finds what it needs. -/
theorem Serving.step {c : Call} (h : Serving n s₀ s) (hok : RootCallOk (superblockInfo n).nrDregionBlocks c s)
    (hmap : InMap c s) (hempty : TakesEmpty c s) (hs : Step c s t) :
    Serving n s₀ t ∧ ((∀ name blockNum, c ≠ .creat name blockNum) → RootKept s.vol t.vol) := by
  have hB : s.vol.cached.sbi.nrDregionBlocks = (superblockInfo n).nrDregionBlocks :=
    h.root.steady.fits.regions.nrDregionBlocks
  have hcall : CallsOk (.call c) s := ⟨⟨by rw [hB]; exact hok.1, hmap⟩, hempty⟩
  obtain ⟨hroot, hkept⟩ := h.root.step (superblockInfo_layout h.low h.high).nrIbitmapBlocks hok hs
  exact ⟨⟨h.low, h.high, SinceMount.step (a := .call c) h.low h.high h.since hcall hs, hroot⟩, hkept⟩

/-- A call that allocates nothing. -/
theorem Serving.quiet {c : Call} (h : Serving n s₀ s) (hs : Step c s t) (hc : ∀ name blockNum, c ≠ .creat name blockNum)
    (hw : ∀ fildes buf nbyte, c ≠ .write fildes buf nbyte)
    (hl : ∀ fildes offset whence, c = .lseek fildes offset whence → offset = 0) : Serving n s₀ t := by
  have hgrow : ∀ fildes offset whence, c = .lseek fildes offset whence → ∀ f, ¬SeekGrows f offset whence := by
    intro fildes offset whence hcall f hg
    rw [hl fildes offset whence hcall] at hg
    exact absurd hg.2.2 (Nat.not_lt_zero _)
  refine (h.step ⟨?_, fun fildes buf nbyte _ _ hcall => absurd hcall (hw fildes buf nbyte),
    fun fildes offset whence _ _ _ f hcall _ _ _ hg => absurd hg (hgrow fildes offset whence hcall f)⟩
    (fun name blockNum hcall => absurd hcall (hc name blockNum))
    (fun name blockNum hcall => absurd hcall (hc name blockNum)) hs).1
  cases c with
  | creat name blockNum => exact absurd rfl (hc name blockNum)
  | write fildes buf nbyte => exact absurd rfl (hw fildes buf nbyte)
  | lseek fildes offset whence => exact fun _ _ _ _ f _ _ _ _ hg => absurd hg (hgrow fildes offset whence rfl f)
  | «open» | stat | close | read => trivial

/-! ## `vsfs_creat` -/

/-- **From the label `adding_entry` on**, for a file without blocks: the data bitmap stays. -/
theorem addingEntry_empty {cs : CStr} {d e : Nat} (he : e < filesPerBlock) (hi : i < nrInodes) :
    ∃ w, addingEntry now cs 0 i d e v = .ok w ∧ w.cached.dbitmap = v.cached.dbitmap ∧ w.cached.sbi = v.cached.sbi := by
  have hnone : ∀ (u : Volume) (ofs : Nat), (u.inode i).blocks = 0 → allocBlock ofs i 0 u = .ok (0, u) := by
    intro u ofs hb
    unfold allocBlock
    rw [(inodeAt_eq_ok _ _).mpr ⟨hi, rfl⟩, ExceptLib.ok_bind, hb, if_neg (by decide), if_neg (by decide)]
    simp [allocLevel1]
  unfold addingEntry
  rw [if_neg (by omega)]
  simp only [(inodeAt_eq_ok _ _).mpr ⟨hi, rfl⟩, ExceptLib.ok_bind]
  rw [hnone _ _ (by rw [modInode_inode_self]), ExceptLib.ok_bind]
  exact ⟨_, rfl, rfl, rfl⟩

/-- A new entry in the only block of the directory. -/
theorem vsfsCreat_empty {cs : CStr} {c : Cached} (hlen : cs.strlen < filenameLen)
    (hdup : dupScan s.vol cs (s.vol.inode 0).entry 0 (fun _ => 0) = .ok false)
    (hf : getFreeInode s.vol.cached = .ok (i, c)) (hi : i < nrInodes) (hb : (s.vol.inode 0).blocks = 1)
    (he : (s.vol.inode 0).entry < 16) : ∃ w,
      vsfsCreat now cs 0 s = .ok (0, { s.attach.initBasePtr with vol := w }.closeCached) ∧
      w.cached.dbitmap = s.vol.cached.dbitmap ∧ dbitmapBits w.cached.sbi = dbitmapBits s.vol.cached.sbi := by
  obtain ⟨hreg, hm⟩ := getFreeInode_frame hf
  have hroot : c.inodeReg 0 = s.vol.inode 0 := congrFun hreg 0
  obtain ⟨w, hw, hd, hsbi⟩ := @addingEntry_empty i { s.vol with cached := c } now cs ((s.vol.inode 0).entry / 16)
    ((s.vol.inode 0).entry - (s.vol.inode 0).entry / 16 * 16) (by unfold filesPerBlock; omega) hi
  refine ⟨w, ?_, hd.trans hm, ?_⟩
  · have h0 : (0 : UInt32).toNat = 0 := rfl
    have hslot : (s.vol.inode 0).entry < (s.vol.inode 0).blocks * 16 % 2 ^ 32 := by omega
    unfold vsfsCreat
    dsimp only
    rw [if_neg (by omega)]
    simp only [initBasePtr_attach, initBasePtr_vol, attach_vol, hdup, ExceptLib.ok_bind, Bool.false_eq_true, if_false, hf]
    simp only [Volume.inode] at hroot hslot hw ⊢
    simp only [hroot, if_pos hslot, h0, hw, ExceptLib.ok_bind]
  · obtain ⟨⟨j, m⟩, _, hf⟩ := ExceptLib.bind_eq_ok.mp hf
    cases hf
    rw [hsbi]
    dsimp only
    split <;> rfl

theorem Tree.create_names (h : name.IsName ∧ name ∉ tr.names) : (tr.create name).names = tr.names ++ [name] := by
  unfold Tree.names
  rw [Tree.create_files h, List.map_append]
  rfl

/-- The inode number of a new name does not change those of the others. -/
theorem update_ino (h : name ∉ tr.names) {a : Word} (ha : a ∈ tr.names) : update ino name i a = ino a :=
  update_of_ne (by rintro rfl; exact h ha) _ _

theorem log_create (h : name.IsName ∧ name ∉ tr.names) :
    (tr.create name).log (update ino name i) = tr.log ino ++ [(name.cstr, i)] := by
  unfold Tree.log
  rw [Tree.create_names h, List.map_append, List.map_congr_left fun a ha => by rw [update_ino h.2 ha]]
  simp

/-- The inode that is taken is that of no file. -/
theorem Contents.free_ne (h : Contents B v tr ino) (hi : i < nrInodes) (hb : bit v.cached.ibitmap i = true) :
    i ≠ 0 ∧ ∀ a, a ∈ tr.names → ino a ≠ i := by
  have hnot : ¬(i = 0 ∨ ∃ a, a ∈ tr.names ∧ ino a = i) := fun hor => by
    rw [(h.taken i hi).mpr hor] at hb
    contradiction
  exact ⟨fun h0 => hnot (Or.inl h0), fun a ha he => hnot (Or.inr ⟨a, ha, he⟩)⟩

/-- An inode is free. -/
theorem Contents.inodeFree (h : Contents B v tr ino) : ∃ j, j < nrInodes ∧ bit v.cached.ibitmap j = true := by
  have hcard : (0 :: tr.names.map ino).toFinset.card < (Finset.range nrInodes).card := by
    refine Nat.lt_of_le_of_lt (List.toFinset_card_le _) ?_
    have hlen := h.length
    simp only [List.length_cons, List.length_map, Tree.names, Finset.card_range, nrInodes]
    omega
  obtain ⟨j, hj, hn⟩ := Finset.exists_mem_notMem_of_card_lt_card hcard
  have hlt := Finset.mem_range.mp hj
  refine ⟨j, hlt, ?_⟩
  cases hb : bit v.cached.ibitmap j with
  | true => rfl
  | false =>
    rw [List.mem_toFinset, List.mem_cons, List.mem_map] at hn
    exact absurd ((h.taken j hlt).mp hb) hn

/-- **A file has been entered**: the volume holds the tree with the new file. -/
theorem Contents.creat (h : Contents B v tr ino) (hs : v.Sound B) (hname : name.IsName ∧ name ∉ tr.names)
    (hlen : tr.files.length < 14) (hi : Least v.cached.ibitmap nrInodes i) (hi0 : i ≠ 0)
    (hdone : CreatDone B now name.cstr 0 i v w 0) (hm : w.cached.dbitmap = v.cached.dbitmap) :
    Contents B w (tr.create name) (update ino name i) := by
  have hlog := @log_create i tr ino name hname
  have hentry := h.dir.entry
  simp only [entries, List.length_cons, log_length] at hentry
  have hslot : (v.inode 0).HasSlot := by
    rw [hasSlot_iff h.dir.blocks, h.root]
    omega
  have hev := hdone.evolves hs
  have hbits := hdone.ibitmap
  obtain ⟨_, hne⟩ := h.free_ne hi.lt hi.bit
  have hshort : name.cstr.strlen < filenameLen := hname.1.1
  have hframe := hdone.frame hs hshort h.dir.slotInDirectory
  have hdir := (hdone.directory hs h.dir hshort fun hno => absurd hslot hno).resolve_right fun hr => by
    have := hr.1
    omega
  have hother : ∀ a, a ∈ tr.names → w.inode (ino a) = v.inode (ino a) := fun a ha =>
    hdone.other (hne a ha) (h.inode a ha).1
  -- the new inode is empty, and the root keeps its block
  have hnew : (w.inode i).blocks = 0 ∧ (w.inode i).size = 0 ∧ (w.inode 0).blocks = 1 := by
    cases hdone with
    | slot _ _ hroot _ ha =>
      refine ⟨ha.blocks, ha.size, ?_⟩
      rw [ha.root, hroot]
      exact h.root
    | grow hno => exact absurd hslot hno
  have hmem : ∀ a, a ∈ (tr.create name).names ↔ a ∈ tr.names ∨ a = name := by
    intro a
    rw [Tree.create_names hname, List.mem_append, List.mem_singleton]
  refine ⟨by rw [hlog]; exact hdir.2, hnew.2.2, fun a b ha hb hab => ?_, fun a ha => ?_, fun j hj => ?_, fun f hf => ?_,
    fun j hj hb => ?_, ?_⟩
  · rcases (hmem a).mp ha with ha' | ha' <;> rcases (hmem b).mp hb with hb' | hb'
    · rw [update_ino hname.2 ha', update_ino hname.2 hb'] at hab
      exact h.inj a b ha' hb' hab
    · rw [update_ino hname.2 ha', hb', update_self] at hab
      exact absurd hab (hne a ha')
    · rw [update_ino hname.2 hb', ha', update_self] at hab
      exact absurd hab.symm (hne b hb')
    · rw [ha', hb']
  · rcases (hmem a).mp ha with ha | rfl
    · rw [update_ino hname.2 ha]
      exact h.inode a ha
    · rw [update_self]
      exact ⟨hi0, hi.lt⟩
  · rw [hbits, bit_clear, Bool.and_eq_false_iff, decide_eq_false_iff_not, not_not, h.taken j hj]
    constructor
    · rintro ((h0 | ⟨a, ha, he⟩) | rfl)
      · exact Or.inl h0
      · exact Or.inr ⟨a, (hmem a).mpr (Or.inl ha), by rw [update_ino hname.2 ha, he]⟩
      · exact Or.inr ⟨name, (hmem name).mpr (Or.inr rfl), update_self ..⟩
    · rintro (h0 | ⟨a, ha, he⟩)
      · exact Or.inl (Or.inl h0)
      · rcases (hmem a).mp ha with ha | rfl
        · rw [update_ino hname.2 ha] at he
          exact Or.inl (Or.inr ⟨a, ha, he⟩)
        · rw [update_self] at he
          exact Or.inr he.symm
  · rw [Tree.create_files hname] at hf
    rcases List.mem_append.mp hf with hf | hf
    · have ha := mem_names hf
      obtain ⟨h0, hlt⟩ := h.inode _ ha
      rw [update_ino hname.2 ha]
      refine (h.held f hf).congr (by rw [hother _ ha]) (by rw [hother _ ha]) fun k hk hb => ?_
      have hu : (ino f.1, dataRef (k / 4096)) ∈ v.used := data_used hlt (by omega) (by unfold level3Limit; omega)
      unfold Volume.byteAt Paged.cell
      rw [hev.page hu fun hE => hne _ ha (Set.mem_singleton_iff.mp hE)]
      exact congrFun (hframe.files _ hu h0) _
    · rw [List.mem_singleton.mp hf, update_self]
      exact ⟨hnew.1, hnew.2.1⟩
  · rw [hbits, bit_clear, Bool.and_eq_true, decide_eq_true_iff] at hb
    obtain ⟨hj0, _⟩ := h.free_ne hj hb.1
    rw [hdone.other hb.2 hj0]
    exact h.spare j hj hb.1
  · have hw : (tr.create name).written = tr.written := by
      unfold Tree.written
      rw [Tree.create_files hname, List.countP_append]
      rfl
    have hroom : w.room B = v.room B := by
      unfold Volume.room
      rw [hm, hev.bits]
    rw [hw, hroom]
    exact h.room

/-- **`vsfs_creat` of the shell**: the name is entered, or refused as the tree refuses it. -/
theorem Serving.creat (h : Serving n s₀ s) (hc : Contents (superblockInfo n).nrDregionBlocks s.vol tr ino)
    (hidle : Idle s) (hn : now < 2 ^ 64) (hlen : (tr.create name).files.length ≤ 14) :
    ∃ ret t ino', vsfsCreatPrints name.cstr s = .ok (tr.refusal name) ∧
      vsfsCreat now name.cstr 0 s = .ok (ret, t) ∧ Serving n s₀ t ∧ Idle t ∧
      Contents (superblockInfo n).nrDregionBlocks t.vol (tr.create name) ino' ∧ ∀ a, a ∈ tr.names → ino' a = ino a := by
  have hdup := dupScan_directory hc.dir name.cstr fun _ => 0
  have hsb := (superblockInfo_layout h.low h.high).nrIbitmapBlocks
  have hentry := hc.dir.entry
  simp only [entries, List.length_cons, log_length] at hentry
  -- a name that gets as far as taking an inode is new, and the directory has a slot for it
  have hnew : Enters name.cstr s → name.IsName ∧ name ∉ tr.names := by
    rintro ⟨hs, hd⟩
    rw [hdup] at hd
    exact (tr.lookup_isSome ino name hs).mp (Except.ok.inj hd)
  have hless : name.IsName ∧ name ∉ tr.names → tr.files.length < 14 := by
    intro hname
    rw [Tree.create_files hname, List.length_append, List.length_singleton] at hlen
    omega
  have halloc : AllocOk (superblockInfo n).nrDregionBlocks (.creat name.cstr 0) s := by
    intro hent
    refine ⟨hc.inodeFree, ⟨fun _ => Nat.zero_le _, fun hno _ => ?_⟩, hc.dir.slotInDirectory.clear h.sound⟩
    rw [hasSlot_iff hc.dir.blocks, hc.root] at hno
    have := hless (hnew hent)
    omega
  have hserve : ∀ {ret : Int} {t : State}, vsfsCreat now name.cstr 0 s = .ok (ret, t) → Serving n s₀ t := by
    intro ret t hr
    refine (h.step ⟨halloc, fun _ _ _ _ _ hcall => (by cases hcall), fun _ _ _ _ _ _ _ hcall => (by cases hcall)⟩
      (fun _ _ hcall _ _ => ?_) (fun _ _ hcall _ j hj => hc.spare j hj.lt hj.bit) ⟨now, ret, hn, hr⟩).1
    cases hcall
    exact Nat.zero_le _
  by_cases hname : name.IsName ∧ name ∉ tr.names
  · have hshort : name.cstr.strlen < filenameLen := hname.1.1
    rw [(tr.lookup_isSome ino name hshort).mpr hname] at hdup
    obtain ⟨j, hj, hbit⟩ := hc.inodeFree
    obtain ⟨i, hi⟩ := exists_least ⟨j, mem_freeBelow.mpr ⟨hj, hbit⟩⟩
    obtain ⟨hi0, _⟩ := hc.free_ne hi.lt hi.bit
    have hlt := hi.lt
    have hfree := getFreeInode_of_least (c := s.vol.cached) (by rw [ibitmapBits_eq h.root.steady.fits hsb]; exact hi) hi0
      (by unfold nrInodes at hlt; omega)
    have hfew := hless hname
    obtain ⟨w, hw, hm, hbits⟩ := @vsfsCreat_empty i s now _ _ hshort hdup hfree hi.lt hc.root (by omega)
    rcases creat_steps h.root.steady hsb halloc hw with ⟨h0, _⟩ | ⟨_, i', hi0', hleast, hdesc, hdone⟩
    · omega
    obtain rfl := hleast.unique hi
    have hprints : vsfsCreatPrints name.cstr s = .ok [] := prints_silent (c := .creat name.cstr 0) hw (by decide)
    rw [← Tree.refusal_eq_nil.mpr hname] at hprints
    refine ⟨0, _, update ino name i', hprints, hw, hserve hw, ⟨?_, ?_⟩, hc.creat h.sound hname hfew hleast hi0' hdone hm,
      fun a ha => update_ino hname.2 ha⟩
    · rw [hdesc]
      exact hidle.table
    · rw [hdesc]
      exact hidle.count
  · rw [Tree.create_of_not hname]
    by_cases hshort : name.cstr.strlen < filenameLen
    · have hsome : ((entries (tr.log ino)).lookup name.cstr).isSome = true :=
        Bool.eq_true_of_not_eq_false fun hf => hname ((tr.lookup_isSome ino name hshort).mp hf)
      rw [hsome] at hdup
      have hrun : vsfsCreat now name.cstr 0 s = .ok (-1, s.attach.initBasePtr.closeCached) := by
        unfold vsfsCreat
        dsimp only
        rw [if_neg (by omega)]
        simp only [initBasePtr_attach, initBasePtr_vol, attach_vol, hdup, ExceptLib.ok_bind, if_true]
      have hprints : vsfsCreatPrints name.cstr s = .ok (tr.refusal name) := by
        have hlen : ¬filenameLen ≤ name.chars.length := Nat.not_le.mpr hshort
        have hhas : name.cstr = dotName ∨ name.cstr = dotDotName ∨ name ∈ tr.names := by
          by_contra hno
          rw [not_or, not_or] at hno
          exact hname ⟨⟨hshort, hno.1, hno.2.1⟩, hno.2.2⟩
        unfold vsfsCreatPrints Tree.refusal
        rw [if_neg (Nat.not_le.mpr hshort), hdup, if_neg hlen, if_pos hhas]
        rfl
      exact ⟨-1, _, ino, hprints, hrun, hserve hrun, ⟨by rw [← hidle.table]; exact congrArg Desc.fdTable (attach_desc s),
        by rw [← hidle.count]; exact congrArg Desc.count (attach_desc s)⟩,
        by rw [show s.attach.initBasePtr.closeCached.vol = s.vol from attach_vol s]; exact hc, fun _ _ => rfl⟩
    · have hrun : vsfsCreat now name.cstr 0 s = .ok (-1, s.initBasePtr) := by
        unfold vsfsCreat
        dsimp only
        rw [if_pos (by omega)]
      have hprints : vsfsCreatPrints name.cstr s = .ok (tr.refusal name) := by
        have hlen : filenameLen ≤ name.chars.length := Nat.not_lt.mp hshort
        unfold vsfsCreatPrints Tree.refusal
        rw [if_pos (Nat.not_lt.mp hshort), if_pos hlen]
      exact ⟨-1, s.initBasePtr, ino, hprints, hrun, hserve hrun, ⟨hidle.table, hidle.count⟩, hc, fun _ _ => rfl⟩

/-! ## `vsfs_write` -/

/-- **The blocks that an allocation takes** are no longer free. -/
theorem allocBlock_room {m r : Nat} (h : v.Sound B) (hi : i < nrInodes) (hb : (v.inode i).blocks < 49)
    (hroom : v.need i m ≤ v.room B) (ha : allocBlock v.cached.sbi.ofsDregion i m v = .ok (r, w)) :
    w.room B + v.need i m = v.room B := by
  have hlim : level3Limit = 1053745 := rfl
  have h2 : level2Limit = 5169 := rfl
  have hR : ∀ r, (i, r) ∈ v.used ↔ r.Used (v.inode i).blocks := fun r => ⟨fun h => h.2, fun h => ⟨hi, h⟩⟩
  have hp := allocBlock_puts rfl h.owns hR hroom ha (by omega)
  rw [newRefs_of_ne (by omega)] at hp
  exact (hp.grown h.owns (fresh_refs (by omega) hR) hroom).room

/-- A file that is written for the first time is one more. -/
theorem countP_write {fs : List (Word × Option Word)} {old : Option Word} (hnodup : (fs.map Prod.fst).Nodup)
    (h : (name, old) ∈ fs) :
    (fs.map fun f => (f.1, if f.1 = name then some text else f.2)).countP (fun f => f.2.isSome) =
      fs.countP (fun f => f.2.isSome) + if old.isSome then 0 else 1 := by
  induction fs with
  | nil => cases h
  | cons f fs ih =>
    rw [List.map_cons, List.nodup_cons] at hnodup
    rw [List.map_cons, List.countP_cons, List.countP_cons]
    rcases List.mem_cons.mp h with rfl | h
    · -- the others have other names
      have hrest : (fs.map fun f => (f.1, if f.1 = name then some text else f.2)) = fs := by
        refine (List.map_congr_left fun f hf => ?_).trans (List.map_id fs)
        have hne : f.1 ≠ name := fun he => hnodup.1 (he ▸ List.mem_map.mpr ⟨f, hf, rfl⟩)
        rw [if_neg hne]
        rfl
      rw [hrest, if_pos rfl]
      cases old <;> rfl
    · have hne : f.1 ≠ name := fun he => hnodup.1 (he ▸ List.mem_map.mpr ⟨_, h, rfl⟩)
      rw [ih hnodup.2 h, if_neg hne]
      dsimp only
      omega

theorem written_write {old : Option Word} (h : (name, old) ∈ tr.files) :
    (tr.write name text).written = tr.written + if old.isSome then 0 else 1 := countP_write tr.nodup h

theorem mem_write {f : Word × Option Word} (h : f ∈ (tr.write name text).files) :
    f = (name, some text) ∨ f.1 ≠ name ∧ f ∈ tr.files := by
  obtain ⟨e, he, rfl⟩ := List.mem_map.mp h
  dsimp only
  by_cases hn : e.1 = name
  · rw [if_pos hn, hn]
    exact Or.inl rfl
  · rw [if_neg hn]
    exact Or.inr ⟨hn, he⟩

/-- The size of a file. -/
theorem Held.fileSize {text : Option Word} (h : Held v i text) :
    (v.inode i).fileSize = if text.isSome then 4096 else 0 := by
  unfold Inode.fileSize
  cases text with
  | none => rw [h.2, h.1]; rfl
  | some text => rw [h.2.1, if_neg (by omega)]; rfl

/-- **A file has been written**: the volume holds the tree with its text. -/
theorem Contents.write {old : Option Word} (h : Contents B v tr ino) (hmem : (name, old) ∈ tr.files)
    (hlen : text.chars.length < blockSize) (hk : RootKept v w)
    (hw : WriteKept v w (ino name) 0 4096 fun k => text.chars.getD k 0) (hb : (w.inode (ino name)).blocks = 1)
    (hs : (w.inode (ino name)).size = 4096) (hother : ∀ j, j ≠ ino name → w.inode j = v.inode j)
    (hi : w.cached.ibitmap = v.cached.ibitmap) (hr : w.room B + (if old.isSome then 0 else 1) = v.room B) :
    Contents B w (tr.write name text) ino := by
  have hnames : (tr.write name text).names = tr.names := Tree.mapText_names ..
  have hlog : (tr.write name text).log ino = tr.log ino := by unfold Tree.log; rw [hnames]
  have hname := mem_names hmem
  refine ⟨?_, hk.blocks.trans h.root, ?_, ?_, fun j hj => ?_, fun f hf => ?_, fun j hj hf => ?_, ?_⟩
  · rw [hlog]
    exact h.dir.kept hk
  · rw [hnames]
    exact h.inj
  · rw [hnames]
    exact h.inode
  · rw [hnames, hi]
    exact h.taken j hj
  · rcases mem_write hf with rfl | ⟨hne, hf⟩
    · refine ⟨hb, hs, hlen, fun k hk => ?_⟩
      have hin := hw.inside k hk
      rwa [Nat.zero_add] at hin
    · have hino : ino f.1 ≠ ino name := fun he => hne (h.inj _ _ (mem_names hf) hname he)
      have hheld := h.held f hf
      obtain ⟨f, ftext⟩ := f
      have hsize := hheld.fileSize
      cases ftext with
      | none => exact ⟨by rw [hother _ hino]; exact hheld.1, by rw [hother _ hino]; exact hheld.2⟩
      | some ftext =>
        refine hheld.congr (by rw [hother _ hino]) (by rw [hother _ hino]) fun k hk _ => ?_
        exact hw.otherBytes _ (h.inode _ (mem_names hf)).2 hino k (by rw [hsize]; exact hk)
  · rw [hi] at hf
    have hne : j ≠ ino name := fun he => (h.free_ne hj hf).2 name hname he.symm
    rw [hother j hne]
    exact h.spare j hj hf
  · rw [written_write hmem]
    have := h.room
    omega

/-- What the file object of an open file has of its inode. -/
structure Copied (v : Volume) (i : Nat) (f : File) : Prop where
  size : f.size = (v.inode i).fileSize
  blocks : f.blocks = (v.inode i).blocks
  first : 0 < (v.inode i).blocks → f.block[0]? = some ((v.inode i).l1 0)

theorem InfoCopied.copied {f : File} (h : InfoCopied v i f) : Copied v i f := by
  refine ⟨h.size, h.blocks, fun h0 => ?_⟩
  rw [h.block]
  exact dataBlocks_getElem h0

theorem Copied.touched {f : File} (h : Copied v i f) (ht : Touched v w) : Copied w i f := by
  refine ⟨h.size.trans ?_, h.blocks.trans (ht.blocks i).symm, fun h0 => ?_⟩
  · unfold Inode.fileSize
    rw [ht.size, ht.blocks]
  · rw [ht.blocks] at h0
    rw [(ht.map i).1, h.first h0]

theorem Contents.blocks {old : Option Word} (h : Contents B v tr ino) (hmem : (name, old) ∈ tr.files) :
    (v.inode (ino name)).blocks = if old.isSome then 1 else 0 := by
  have hheld := h.held _ hmem
  cases old with
  | none => exact hheld.1
  | some old => exact hheld.1

/-- **`vsfs_open` of a file of the tree**. -/
theorem Serving.open {old : Option Word} (h : Serving n s₀ s)
    (hc : Contents (superblockInfo n).nrDregionBlocks s.vol tr ino) (hidle : Idle s) (hn : now < 2 ^ 64)
    (hmem : (name, old) ∈ tr.files) : ∃ t f, vsfsOpen now name.cstr oRdwr s = .ok (1, t) ∧ Serving n s₀ t ∧
      OneOpen t (ino name) 0 f ∧ Contents (superblockInfo n).nrDregionBlocks t.vol tr ino ∧
      Copied t.vol (ino name) f := by
  obtain ⟨hshort, h1, h2⟩ : name.IsName := Tree.isName (mem_names hmem)
  obtain ⟨_, hlt⟩ := hc.inode name (mem_names hmem)
  obtain ⟨f, hf⟩ := vsfsGetInodeInfo_ok (v := s.vol) hlt (by rw [hc.blocks hmem]; split <;> omega)
  have hl : lookup s.vol name.cstr (s.vol.inode 0).entry 0 = .ok (some (ino name)) := by
    rw [lookup_directory hc.dir, tr.lookup_name ino h1 h2, if_pos (mem_names hmem)]
  obtain ⟨t, hrun, hopen, _⟩ := @Idle.open s now _ _ name.cstr hidle hshort hl hf
  have ht := open_touched hrun
  refine ⟨t, f, hrun, ?_, hopen, hc.touched ht, (vsfsGetInodeInfo_spec hf).copied.touched ht⟩
  exact h.quiet (c := .open name.cstr oRdwr) ⟨now, 1, hn, hrun⟩ (fun _ _ hcall => (by cases hcall))
    (fun _ _ _ hcall => (by cases hcall)) fun _ _ _ hcall => (by cases hcall)

/-- **`vsfs_open` of a name that no file has**. -/
theorem Serving.open_missing (h : Serving n s₀ s) (hc : Contents (superblockInfo n).nrDregionBlocks s.vol tr ino)
    (hidle : Idle s) (hn : now < 2 ^ 64) (hmem : name ∉ tr.names) (h1 : name.cstr ≠ dotName)
    (h2 : name.cstr ≠ dotDotName) : ∃ t, vsfsOpenPrints name.cstr s = .ok [name.missing] ∧
      vsfsOpen now name.cstr oRdwr s = .ok (-1, t) ∧ Serving n s₀ t ∧ Idle t ∧
      Contents (superblockInfo n).nrDregionBlocks t.vol tr ino := by
  have hl : lookup s.vol name.cstr (s.vol.inode 0).entry 0 = .ok none := by
    rw [lookup_directory hc.dir, tr.lookup_name ino h1 h2, if_neg hmem]
  obtain ⟨t, hrun, hidle', hvol⟩ := @Idle.open_missing s now name.cstr hidle hl
  have hprints : vsfsOpenPrints name.cstr s = .ok [name.missing] := by
    unfold vsfsOpenPrints Word.missing
    rw [hl]
    show _ = Except.ok [if filenameLen ≤ name.cstr.strlen then _ else _]
    split <;> rfl
  refine ⟨t, hprints, hrun, ?_, hidle', by rw [hvol]; exact hc⟩
  exact h.quiet (c := .open name.cstr oRdwr) ⟨now, -1, hn, hrun⟩ (fun _ _ hcall => (by cases hcall))
    (fun _ _ _ hcall => (by cases hcall)) fun _ _ _ hcall => (by cases hcall)

/-- **`vsfs_close`** of the only descriptor. -/
theorem Serving.close {f : File} {o : Nat} (h : Serving n s₀ s)
    (hc : Contents (superblockInfo n).nrDregionBlocks s.vol tr ino) (hopen : OneOpen s i o f) :
    ∃ t, vsfsClose 1 s = .ok (0, t) ∧ Serving n s₀ t ∧ Idle t ∧
      Contents (superblockInfo n).nrDregionBlocks t.vol tr ino := by
  obtain ⟨t, hrun, hidle, hvol⟩ := hopen.close
  refine ⟨t, hrun, ?_, hidle, by rw [hvol]; exact hc⟩
  exact h.quiet (c := .close 1) ⟨0, 0, by decide, hrun⟩ (fun _ _ hcall => (by cases hcall))
    (fun _ _ _ hcall => (by cases hcall)) fun _ _ _ hcall => (by cases hcall)

/-- One of at most 14 files has not been written, so there is a block for it. -/
theorem Contents.free_block (hc : Contents B v tr ino) (hmem : (name, none) ∈ tr.files) : 1 ≤ v.room B := by
  have hless : tr.written < tr.files.length := List.countP_lt_length_iff.mpr ⟨_, hmem, by simp⟩
  have hlen := hc.length
  have hroom := hc.room
  omega

/-- The write finds what it needs: the file has a block, or there is a free one. -/
theorem Contents.writeReady {old : Option Word} {f : File} (hc : Contents B s.vol tr ino) (hmem : (name, old) ∈ tr.files)
    (hopen : OneOpen s (ino name) 0 f) : WriteReady B s (oneNode (ino name)) 0 4096 := by
  obtain ⟨_, hlt⟩ := hc.inode name (mem_names hmem)
  obtain ⟨b, hslot, hfile, _⟩ := hopen.fileOf
  have hblocks := hc.blocks hmem
  have hneed : neededBlocks (0 + 4096) = 1 := by decide
  have hslot' : (s.desc.opFtable 0).offset = 0 ∧ (s.desc.opFtable 0).inodeNr = ino name := by rw [hslot]; exact ⟨rfl, rfl⟩
  refine ⟨hopen.opCounter, FdTable.canWrite_of_rdwr rfl, hopen.sbCached, by rw [hslot'.2]; exact hlt,
    ⟨b, f, by rw [hslot], hfile, ?_⟩, ?_⟩
  · rw [hslot'.1, hslot'.2, hneed, hblocks]
    intro hlt
    split at hlt <;> omega
  · rw [hslot'.1, hslot'.2, hneed, hblocks]
    intro _
    cases old with
    | some old => exact Nat.zero_le _
    | none => exact hc.free_block hmem

/-- An allowed write leaves the inode bitmap alone. -/
theorem Written.ibitmap {p a : Nat} {buf : Bytes} {nbyte : UInt64} {f : File} {v₁ v₂ : Volume}
    (hw : Written now p buf nbyte s t a f v₁ v₂) : t.vol.cached.ibitmap = s.vol.cached.ibitmap := by
  have hcached := writeLoop_cached hw.data
  obtain ⟨c, hframe⟩ := hw.frame
  rw [hw.result, modInode_ibitmap, hcached, modInode_ibitmap, hframe.ibitmap]

/-- The free blocks after an allowed write are those after its allocation. -/
theorem Written.room_eq {p a : Nat} {buf : Bytes} {nbyte : UInt64} {f : File} {v₁ v₂ : Volume} (B : Nat)
    (hw : Written now p buf nbyte s t a f v₁ v₂) : t.vol.room B = v₁.room B := by
  have hcached := writeLoop_cached hw.data
  unfold Volume.room
  rw [hw.result, modInode_dbitmap, modInode_sbi, hcached, modInode_dbitmap, modInode_sbi]

/-- The end of the write. -/
theorem OneOpen.writeEnd {f : File} (h : OneOpen s i 0 f) : s.desc.writeEnd 0 4096 = 4096 := by
  obtain ⟨b, hslot, _⟩ := h.fileOf
  have h4096 : (4096 : UInt64).toNat = 4096 := rfl
  unfold Desc.writeEnd
  rw [hslot, h4096]
  dsimp only
  omega

/-- The free blocks after the write. -/
theorem Written.room {a : Nat} {buf : Bytes} {f g : File} {v₁ v₂ : Volume} {old : Option Word}
    (hs : s.vol.Sound B) (hc : Contents B s.vol tr ino) (hmem : (name, old) ∈ tr.files)
    (hopen : OneOpen s (ino name) 0 g) (hw : Written now 0 buf 4096 s t a f v₁ v₂) :
    t.vol.room B + (if old.isSome then 0 else 1) = s.vol.room B := by
  obtain ⟨_, hlt⟩ := hc.inode name (mem_names hmem)
  obtain ⟨b, hslot, _, _⟩ := hopen.fileOf
  have hblocks := hc.blocks hmem
  have hino : (s.desc.opFtable 0).inodeNr = ino name := by rw [hslot]
  have hone : neededBlocks 4096 = 1 := by decide
  rw [hw.room_eq]
  have halloc := hw.alloc
  rw [hopen.writeEnd, hino, hone, hblocks] at halloc
  rcases halloc with ⟨_, ⟨r, hr⟩, _⟩ | ⟨hlt', _⟩
  · have hneed : s.vol.need (ino name) (sub32 1 (if old.isSome then 1 else 0)) = if old.isSome then 0 else 1 := by
      have h0 : sub32 1 0 = 1 := by decide
      have h1 : sub32 1 1 = 0 := by decide
      unfold Volume.need
      rw [hblocks]
      cases old with
      | none => rw [if_neg (by simp), h0]; rfl
      | some _ => rw [if_pos (by simp), h1, Nat.zero_min]; rfl
    have hroom := allocBlock_room hs hlt (by rw [hblocks]; split <;> omega) ?_ hr
    · rw [hneed] at hroom
      exact hroom
    · rw [hneed]
      cases old with
      | none => exact hc.free_block hmem
      | some _ => exact Nat.zero_le _
  · split at hlt' <;> omega

/-- **`vsfs_write`** of the shell: a whole block, the text and zeros. -/
theorem Serving.write {old : Option Word} {f : File} (h : Serving n s₀ s)
    (hc : Contents (superblockInfo n).nrDregionBlocks s.vol tr ino) (hn : now < 2 ^ 64) (hmem : (name, old) ∈ tr.files)
    (hopen : OneOpen s (ino name) 0 f) (hlen : text.chars.length < blockSize) :
    ∃ t g r, vsfsWrite now 1 (fun k => text.chars.getD k 0) 4096 s = .ok (r, t) ∧ r ≠ -1 ∧ Serving n s₀ t ∧
      OneOpen t (ino name) 4096 g ∧ Contents (superblockInfo n).nrDregionBlocks t.vol (tr.write name text) ino := by
  have hsized := h.sized
  obtain ⟨h0, hlt⟩ := hc.inode name (mem_names hmem)
  obtain ⟨a, hfind, hp⟩ := hopen.openOn
  obtain ⟨b, hslot, hfile, _⟩ := hopen.fileOf
  have hready : WriteReady _ s (oneNode (ino name)) 0 (4096 : UInt64).toNat := hc.writeReady hmem hopen
  have hoff : (s.desc.opFtable 0).offset = 0 ∧ (s.desc.opFtable 0).inodeNr = ino name := by rw [hslot]; exact ⟨rfl, rfl⟩
  have hsmall : (s.desc.opFtable 0).offset + (4096 : UInt64).toNat < 2 ^ 32 := by rw [hoff.1]; decide
  obtain ⟨t, v, hrun, ⟨m, hkept⟩, hev, hstored⟩ := vsfsWrite_done h.sound hready hsmall now
    (fun k => text.chars.getD k 0) h.root.steady.files hopen.openOn
  obtain ⟨_, hret, a', f', v₁, v₂, hw⟩ := vsfsWrite_written hfind hp hopen.opCounter (FdTable.canWrite_of_rdwr rfl)
    hopen.sbCached (by rw [hopen.writeEnd]; decide) hrun
  -- the call is one that a session permits
  have halloc : AllocOk (superblockInfo n).nrDregionBlocks (.write 1 (fun k => text.chars.getD k 0) 4096) s := by
    intro b' e p hfind' hp' _
    rw [hfind] at hfind'
    cases hfind'
    cases hp'
    exact hready.writeRoom hsmall
  obtain ⟨hserve, hroot⟩ := h.step ⟨halloc, fun _ _ _ e p hcall ho _ => (by
      cases hcall
      obtain ⟨b', hfind', hp'⟩ := ho
      rw [hfind] at hfind'
      cases hfind'
      cases hp'
      rw [hoff.2]
      exact h0), fun _ _ _ _ _ _ _ hcall => (by cases hcall)⟩ (fun _ _ hcall => (by cases hcall))
    (fun _ _ hcall => (by cases hcall)) ⟨now, _, hn, hrun⟩
  have hblocks : (v.inode (ino name)).blocks = 1 := by
    have hmax := hev.blocks
    rw [hoff.1, hoff.2] at hmax
    rw [hmax, hc.blocks hmem, show neededBlocks (0 + (4096 : UInt64).toNat) = 1 by decide]
    split <;> rfl
  have hnew : (t.vol.inode (ino name)).blocks = 1 ∧ (t.vol.inode (ino name)).size = 4096 := by
    have hb := hev.newBlocks
    have hs := hev.newSize
    rw [hoff.2] at hb
    rw [hoff.1, hoff.2] at hs
    exact ⟨hb.trans hblocks, hs⟩
  have hother : ∀ j, j ≠ ino name → t.vol.inode j = s.vol.inode j := by
    have := hev.other
    rwa [hoff.2] at this
  rw [hoff.1, hoff.2] at hstored
  rw [hoff.2] at hkept
  have hsize : (s.vol.inode (ino name)).fileSize ≤ 0 + (4096 : UInt64).toNat := by
    rw [(hc.held _ hmem).fileSize]
    split <;> decide
  have hkeep := (writeKept_iff hsized hlt hkept hev.after hstored (by rw [hblocks]; decide) (by decide) hother (by
    unfold Inode.fileSize
    rw [hnew.2, if_neg (by omega)]
    rfl)).mpr hsize
  refine ⟨t, { f' with atime := now, mtime := now }, _, hrun, by rw [hret]; decide, hserve, ?_, ?_⟩
  · have hreg : OneOpen { s with inodeReg := s.sbCached } (ino name) 0 f :=
      ⟨hopen.node, hopen.slot, hopen.count, hopen.opCounter, hopen.sbCached, hopen.sbCached⟩
    rw [hw.result, hopen.writeEnd]
    exact hreg.changed hw.filePtr _ _ _
  · exact hc.write hmem hlen (hroot fun _ _ hcall => by cases hcall) hkeep hnew.1 hnew.2 hother hw.ibitmap
      (hw.room h.sound hc hmem hopen)

end Vsfs
