import Vsfs.Volume.Listed

/-!
# The handles `sb_cached` and `inode_reg`

A mapping is created by `shm_oandm` and destroyed by `shm_close`, which also clears `sb_cached`; so the mapping in
place is the one that `sb_cached` names. `inode_reg` points into a mapping and is cleared by `vsfs_close` only.

- `attach_live`: what the calls that map the segment leave;
- `HandleInv.step`: one call;
- `handles_are_live`: every run whose calls meet the condition;
- `creat_unmaps_for_readers`: a file created while a descriptor is open.
-/

set_option autoImplicit false

namespace Vsfs

open Function ByteSeq

variable {s t : State} {fildes ret : Int} {now : Nat}

/-! ## Uses -/

/-- A use of a handle: a pointer that is dereferenced, with the mapping in place, or given to `shm_close`. -/
inductive HandleUse
  | deref (p live : Option Nat)
  | close (p live : Option Nat)

/-- The pointer is not null and refers to the mapping in place. -/
def HandleUse.Live : HandleUse → Prop
  | .deref p live | .close p live => p ≠ none ∧ p = live

/-- Dereferencing `sb_cached`. -/
def State.derefSb (s : State) : HandleUse := .deref s.sbCached s.sbCached

/-- Dereferencing `inode_reg`. -/
def State.derefInode (s : State) : HandleUse := .deref s.inodeReg s.sbCached

/-- `shm_close((void **)&sb_cached, fd_cached)`. -/
def State.closeSb (s : State) : HandleUse := .close s.sbCached s.sbCached

/-- The uses that a call can make of the two handles, by the place where it makes them. -/
inductive Call.Uses : Call → State → HandleUse → Prop
  -- `vsfs_creat` attaches, searches the directory and closes on every path
  | creatSb {s : State} {name : CStr} {blockNum : UInt32} (h : name.strlen < filenameLen) :
      Uses (.creat name blockNum) s s.attach.derefSb
  | creatInode {s : State} {name : CStr} {blockNum : UInt32} (h : name.strlen < filenameLen) :
      Uses (.creat name blockNum) s s.attach.derefInode
  | creatClose {s : State} {name : CStr} {blockNum : UInt32} (h : name.strlen < filenameLen) :
      Uses (.creat name blockNum) s s.attach.closeSb
  -- `vsfs_open` attaches and searches the directory
  | openSb {s : State} {pathname : CStr} {flags : Int} (h : pathname.strlen < filenameLen) :
      Uses (.open pathname flags) s s.attach.derefSb
  | openInode {s : State} {pathname : CStr} {flags : Int} (h : pathname.strlen < filenameLen) :
      Uses (.open pathname flags) s s.attach.derefInode
  -- `vsfs_stat` does so too, and closes if it does not find the name
  | statSb {s : State} {pathname : CStr} : Uses (.stat pathname) s s.attach.derefSb
  | statInode {s : State} {pathname : CStr} : Uses (.stat pathname) s s.attach.derefInode
  | statClose {s : State} {pathname : CStr} (h : lookup s.vol pathname (s.vol.inode 0).entry 0 = .ok none) :
      Uses (.stat pathname) s s.attach.closeSb
  -- `vsfs_close` closes with the last descriptor
  | closeClose {s : State} {fildes : Int} {c : Nat × FdTable} (h : s.desc.reachable = .ok [c])
      (hi : (c.2.index : Int) = fildes) : Uses (.close fildes) s s.closeSb
  -- `vsfs_write` sets `inode_reg` from `sb_cached`, after a test
  | writeSb {s : State} {fildes : Int} {buf : Bytes} {nbyte : UInt64} {e : FdTable} {p : Nat}
      (h : s.OpenOn fildes e p) (ha : WriteAllowed s e p nbyte) : Uses (.write fildes buf nbyte) s s.derefSb
  | writeInode {s : State} {fildes : Int} {buf : Bytes} {nbyte : UInt64} {e : FdTable} {p : Nat}
      (h : s.OpenOn fildes e p) (ha : WriteAllowed s e p nbyte) :
      Uses (.write fildes buf nbyte) s ({ s with inodeReg := s.sbCached } : State).derefInode
  -- `vsfs_read` stamps the inode and addresses the data region
  | readInode {s : State} {fildes : Int} {buf : Bytes} {nbyte : UInt64} {e : FdTable} {p : Nat}
      (h : s.OpenOn fildes e p) (hf : e.flags ≠ some oWronly) : Uses (.read fildes buf nbyte) s s.derefInode
  | readSb {s : State} {fildes : Int} {buf : Bytes} {nbyte : UInt64} {e : FdTable} {p : Nat}
      (h : s.OpenOn fildes e p) (hf : e.flags ≠ some oWronly) : Uses (.read fildes buf nbyte) s s.derefSb
  -- `vsfs_lseek` sets `inode_reg` if it is null, and uses both handles when the file grows
  | lseekSet {s : State} {fildes whence : Int} {offset : UInt64} (h : s.desc.opCounter = true)
      (hi : s.inodeReg = none) : Uses (.lseek fildes offset whence) s s.derefSb
  | lseekSb {s s' : State} {fildes whence : Int} {offset : UInt64} {e : FdTable} {p a : Nat} {f : File}
      (h : s.OpenOn fildes e p) (hs : s.setInodeReg = .ok s') (hp : (s.desc.opFtable p).filePtr = some a)
      (hf : s.desc.files a = some f) (hg : SeekGrows f offset whence) : Uses (.lseek fildes offset whence) s s'.derefSb
  | lseekInode {s s' : State} {fildes whence : Int} {offset : UInt64} {e : FdTable} {p a : Nat} {f : File}
      (h : s.OpenOn fildes e p) (hs : s.setInodeReg = .ok s') (hp : (s.desc.opFtable p).filePtr = some a)
      (hf : s.desc.files a = some f) (hg : SeekGrows f offset whence) : Uses (.lseek fildes offset whence) s s'.derefInode

/-! ## The condition -/

/-- `inode_reg` does not point into a mapping that is gone. -/
def State.NoStale (s : State) : Prop := s.inodeReg = none ∨ s.sbCached ≠ none

/-- The calls that map the segment find no `inode_reg` left over from an earlier mapping; those that unmap it are made
while no descriptor is open; and only a descriptor that is open alone is closed. -/
def HandleOk : Call → State → Prop
  | .creat name _, s => name.strlen < filenameLen → s.NoStale ∧ ∀ fd, ¬s.desc.IsOpen fd
  | .open pathname _, s => pathname.strlen < filenameLen → s.NoStale
  | .stat pathname, s => s.NoStale ∧
      (lookup s.vol pathname (s.vol.inode 0).entry 0 = .ok none → ∀ fd, ¬s.desc.IsOpen fd)
  | .close fildes, s => s.desc.IsOpen fildes ∧ ∀ fd, s.desc.IsOpen fd → fd = fildes
  | .write fildes _ _, s | .read fildes _ _, s | .lseek fildes _ _, s => s.desc.IsOpen fildes

/-! ## The invariant -/

/-- Both handles refer to the mapping in place. -/
def State.Live (s : State) : Prop := s.sbCached ≠ none ∧ s.inodeReg = s.sbCached

/-- With both handles set they agree, and with a descriptor open both are set. -/
structure HandleInv (s : State) : Prop where
  listed : s.desc.Listed
  same : s.inodeReg ≠ none → s.sbCached ≠ none → s.inodeReg = s.sbCached
  live : ∀ fd, s.desc.IsOpen fd → s.Live

/-- **Attaching** without a stale `inode_reg` leaves both handles live. -/
theorem attach_live (h : s.NoStale) (hs : s.inodeReg ≠ none → s.sbCached ≠ none → s.inodeReg = s.sbCached) :
    s.attach.Live := by
  obtain ⟨vol, desc, sb, reg, maps, base⟩ := s
  cases sb with
  | none =>
    obtain rfl : reg = none := h.resolve_right fun hn => hn rfl
    exact ⟨Option.some_ne_none _, rfl⟩
  | some m =>
    cases reg with
    | none => exact ⟨Option.some_ne_none _, rfl⟩
    | some r => exact ⟨Option.some_ne_none _, hs (Option.some_ne_none _) (Option.some_ne_none _)⟩

theorem State.Live.derefSb (h : s.Live) : s.derefSb.Live := ⟨h.1, rfl⟩

theorem State.Live.derefInode (h : s.Live) : s.derefInode.Live := ⟨fun hno => h.1 (h.2 ▸ hno), h.2⟩

theorem State.Live.closeSb (h : s.Live) : s.closeSb.Live := ⟨h.1, rfl⟩

/-- Which descriptors are open depends on the list only. -/
theorem Desc.SameList.isOpen_iff {d d' : Desc} (h : d.SameList d') (fd : Int) : d'.IsOpen fd ↔ d.IsOpen fd := by
  have hr : d'.reachable = d.reachable := by
    unfold Desc.reachable Desc.nodes
    rw [h.fdTable, h.fds, h.brk]
  unfold Desc.IsOpen Desc.Opened
  rw [hr]

/-- A state in which no descriptor is open. -/
theorem HandleInv.of_not_open (hl : t.desc.Listed) (hs : t.inodeReg = none ∨ t.sbCached = none ∨ t.Live)
    (hno : ∀ fd, ¬t.desc.IsOpen fd) : HandleInv t := by
  refine ⟨hl, fun hi hc => ?_, fun fd ho => absurd ho (hno fd)⟩
  rcases hs with hs | hs | hs
  · exact absurd hs hi
  · exact absurd hs hc
  · exact hs.2

/-- A state with live handles. -/
theorem HandleInv.of_live (hl : t.desc.Listed) (h : t.Live) : HandleInv t := ⟨hl, fun _ _ => h.2, fun _ _ => h⟩

/-- Setting a null `inode_reg` from `sb_cached`. -/
theorem setInodeReg_live (h : s.Live) (hs : s.setInodeReg = .ok t) : t.Live := by
  unfold State.setInodeReg at hs
  split at hs
  case h_1 hno => exact absurd (h.2 ▸ hno) h.1
  case h_2 =>
    cases hs
    exact h

theorem not_isOpen_of_holds {d : Desc} (hl : d.Listed) (hk : d.Holds []) (fd : Int) : ¬d.IsOpen fd := fun ho => by
  obtain ⟨k, hm, _⟩ := (hl.isOpen_iff hk).mp ho
  cases hm

/-- A call that has left the handles as they were. -/
theorem HandleInv.congr (h : HandleInv s) (hl : t.desc.Listed) (hc : t.sbCached = s.sbCached)
    (hi : t.inodeReg = s.inodeReg) (ho : ∀ fd, t.desc.IsOpen fd → ∃ fd', s.desc.IsOpen fd') : HandleInv t := by
  refine ⟨hl, by rw [hc, hi]; exact h.same, fun fd hfd => ?_⟩
  obtain ⟨fd', ho⟩ := ho fd hfd
  unfold State.Live
  rw [hc, hi]
  exact h.live fd' ho

/-! ## Steps -/

/-- What the calls that attach leave behind. -/
theorem attach_noStale_live (h : HandleInv s) (hn : s.NoStale) : s.attach.Live := attach_live hn h.same

/-- `vsfs_creat` under the condition. -/
theorem HandleInv.creat {name : CStr} {blockNum : UInt32} (h : HandleInv s) (hl : t.desc.Listed)
    (hok : HandleOk (.creat name blockNum) s) (hc : vsfsCreat now name blockNum s = .ok (ret, t)) : HandleInv t := by
  have hd := vsfsCreat_desc hc
  -- past the check of the name every path ends in `shm_close`
  have hclosed : t = s.initBasePtr ∨ name.strlen < filenameLen ∧ t.sbCached = none := by
    rcases vsfsCreat_cases hc with ⟨_, hrej⟩ | ⟨hlen, _, _, _, _, hent⟩
    · cases hrej with
      | tooLong _ ht => exact Or.inl ht
      | duplicate hlen _ ht => exact Or.inr ⟨hlen, by rw [ht]; rfl⟩
    · refine Or.inr ⟨hlen, ?_⟩
      cases hent <;> subst_vars <;> rfl
  rcases hclosed with rfl | ⟨hlen, hsb⟩
  · exact ⟨hl, h.same, h.live⟩
  · exact .of_not_open hl (Or.inr (Or.inl hsb)) (by rw [hd]; exact (hok hlen).2)

/-- `vsfs_open` under the condition. -/
theorem HandleInv.open {pathname : CStr} {flags : Int} (h : HandleInv s) (hl : t.desc.Listed)
    (hok : HandleOk (.open pathname flags) s) (ho : vsfsOpen now pathname flags s = .ok (ret, t)) : HandleInv t := by
  obtain ⟨_, _, rfl⟩ | ⟨hlen, fd, a, d, _, ⟨_, hu⟩ | ⟨_, _, _, _, _, _, rfl⟩⟩ := vsfsOpen_cases ho
  · exact ⟨hl, h.same, h.live⟩
  · have hlive := attach_noStale_live h (hok hlen)
    refine .of_live hl ?_
    unfold State.Live
    rw [hu.sbCached, hu.inodeReg]
    exact hlive
  · exact .of_live hl (attach_noStale_live h (hok hlen))

/-- `vsfs_stat` under the condition. -/
theorem HandleInv.stat {pathname : CStr} {fre : Option FileStat} (h : HandleInv s) (hl : t.desc.Listed)
    (hok : HandleOk (.stat pathname) s) (hs : vsfsStat pathname s = .ok (ret, fre, t)) : HandleInv t := by
  have hd := vsfsStat_desc hs
  obtain ⟨_, ⟨hlook, _, rfl⟩ | ⟨_, _, _, rfl⟩⟩ := vsfsStat_cases hs
  · refine .of_not_open hl (Or.inr (Or.inl rfl)) ?_
    rw [hd]
    exact hok.2 hlook
  · exact .of_live hl (attach_noStale_live h hok.1)

/-- `vsfs_close` under the condition leaves no descriptor open. -/
theorem HandleInv.close (h : HandleInv s) (hl : t.desc.Listed) (hok : HandleOk (.close fildes) s)
    (hc : vsfsClose fildes s = .ok (ret, t)) : HandleInv t := by
  obtain ⟨hk, _, _⟩ | ⟨hd, tl, b, d, p, k, ks', _, _, hks, _, _, _, _, _, hk', _, rfl⟩ := h.listed.closed hc
  · exact absurd hok.1 (not_isOpen_of_holds h.listed hk _)
  have hnil : ks' = [] := by
    obtain ⟨ks, hk, hn, hlen, _⟩ := h.listed.list
    have hnd : (ks.map Prod.fst).Nodup := hn.nodup (by
      have := h.listed.count
      unfold opLimit at this
      omega)
    -- every node has the number of the descriptor, and the numbers are different
    have hall : ∀ x, x ∈ ks → (x.1 : Int) = fildes := fun x hx =>
      hok.2 x.1 ((h.listed.isOpen_iff hk).mpr ⟨x, hx, rfl⟩)
    by_contra hne
    obtain ⟨x, hx⟩ := List.exists_mem_of_ne_nil ks' hne
    rcases hks with hks | hks
    · obtain rfl := hk.unique hks h.listed.header
      rw [List.map_cons, List.nodup_cons] at hnd
      have h1 := hall k (by simp)
      have h2 := hall x (List.mem_cons_of_mem _ hx)
      exact hnd.1 (List.mem_map.mpr ⟨x, hx, by omega⟩)
    · obtain rfl := hk.unique hks h.listed.header
      rw [List.map_append, List.nodup_append] at hnd
      have h1 := hall k (by simp)
      have h2 := hall x (List.mem_append_left _ hx)
      exact hnd.2.2 x.1 (List.mem_map_of_mem hx) k.1 (by simp) (by omega)
  subst hnil
  refine .of_not_open hl (Or.inl ?_) (not_isOpen_of_holds hl hk')
  unfold State.closeLast
  dsimp only
  split <;> rfl

/-- **Every call** that meets the condition keeps the invariant. -/
theorem HandleInv.step {c : Call} (h : HandleInv s) (hok : HandleOk c s) (hs : Step c s t) : HandleInv t := by
  have hl := h.listed.step hs
  obtain ⟨now, ret, _, hr⟩ := hs
  cases c with
  | creat name blockNum => exact h.creat hl hok hr
  | «open» pathname flags => exact h.open hl hok hr
  | stat pathname =>
    obtain ⟨⟨r, fre, u⟩, hst, hr⟩ := ExceptLib.bind_eq_ok.mp hr
    cases hr
    exact h.stat hl hok hst
  | close fildes => exact h.close hl hok hr
  | write fildes buf nbyte =>
    obtain ⟨_, _, p, _, _, ⟨_, rfl⟩ | ⟨ha, _, a, f, v₁, v₂, hw⟩⟩ := vsfsWrite_cases hr
    · exact h
    · refine .of_live hl ?_
      rw [hw.result]
      exact ⟨ha.sbCached, rfl⟩
  | read fildes buf nbyte =>
    obtain ⟨⟨r, b, u⟩, hrd, hr⟩ := ExceptLib.bind_eq_ok.mp hr
    cases hr
    obtain ⟨_, rfl, _⟩ | ⟨_, _, p, a, f, readed, _, _, _, hd⟩ := vsfsRead_cases hrd
    · exact h
    · exact h.congr hl (by rw [hd.result]) (by rw [hd.result]) fun fd ho => ⟨fildes, hok⟩
  | lseek fildes offset whence =>
    obtain ⟨⟨r, u⟩, hlk, hr⟩ := ExceptLib.bind_eq_ok.mp hr
    cases hr
    have hlive := h.live fildes hok
    obtain ⟨_, _, hres⟩ | ⟨b, e, p, a, f, s', hs', _, _, _, hfile, ⟨o, hres, _⟩ | ⟨_, _, info, v, hg⟩⟩ :=
      vsfsLseek_cases hlk
    · rcases hres with rfl | hs'
      · exact h
      · exact .of_live hl (setInodeReg_live hlive hs')
    · have hlive' : s'.Live := setInodeReg_live hlive hs'
      refine .of_live hl ?_
      rw [hres]
      exact hlive'
    · have hlive' : s'.Live := setInodeReg_live hlive hs'
      refine .of_live hl ?_
      rw [hg.result]
      exact hlive'

/-- **Every use** that a call under the condition makes is live. -/
theorem HandleInv.uses {c : Call} {u : HandleUse} (h : HandleInv s) (hok : HandleOk c s) (hu : c.Uses s u) :
    u.Live := by
  cases hu with
  | creatSb hlen => exact (attach_noStale_live h (hok hlen).1).derefSb
  | creatInode hlen => exact (attach_noStale_live h (hok hlen).1).derefInode
  | creatClose hlen => exact (attach_noStale_live h (hok hlen).1).closeSb
  | openSb hlen => exact (attach_noStale_live h (hok hlen)).derefSb
  | openInode hlen => exact (attach_noStale_live h (hok hlen)).derefInode
  | statSb => exact (attach_noStale_live h hok.1).derefSb
  | statInode => exact (attach_noStale_live h hok.1).derefInode
  | statClose => exact (attach_noStale_live h hok.1).closeSb
  | closeClose => exact (h.live _ hok.1).closeSb
  | writeSb => exact (h.live _ hok).derefSb
  | writeInode => exact ⟨(h.live _ hok).1, rfl⟩
  | readInode => exact (h.live _ hok).derefInode
  | readSb => exact (h.live _ hok).derefSb
  | lseekSet => exact (h.live _ hok).derefSb
  | lseekSb _ hs => exact (setInodeReg_live (h.live _ hok) hs).derefSb
  | lseekInode _ hs => exact (setInodeReg_live (h.live _ hok) hs).derefInode

/-! ## The main theorem -/

theorem State.Live.use (h : s.Live) : s.useSbCached = .ok () ∧ s.useInodeReg = .ok () := by
  obtain ⟨vol, desc, sb, reg, maps, base⟩ := s
  obtain ⟨hne, rfl⟩ : sb ≠ none ∧ reg = sb := h
  obtain ⟨m, rfl⟩ := Option.ne_none_iff_exists'.mp hne
  exact ⟨rfl, rfl⟩

/-- **The handles are live** in every run whose calls meet the condition: whenever a call uses one, and whenever a
descriptor is open. -/
theorem handles_are_live (h : ReachedBy HandleOk s) :
    (∀ c u, HandleOk c s → c.Uses s u → u.Live) ∧
    ∀ fd, s.desc.IsOpen fd → s.Live ∧ s.useSbCached = .ok () ∧ s.useInodeReg = .ok () := by
  have hinv : HandleInv s := by
    refine h.invariant (P := HandleInv) (fun n disk seg _ _ => ?_) fun _ _ _ hP hok hs => hP.step hok hs
    exact .of_not_open Desc.Listed.initial (Or.inl rfl)
      (not_isOpen_of_holds Desc.Listed.initial (Desc.holds_nil rfl))
  exact ⟨fun c u hok hu => hinv.uses hok hu, fun fd ho => ⟨hinv.live fd ho, (hinv.live fd ho).use⟩⟩

/-- The theorem with the root directory open. -/
theorem handles_are_live_open : ∃ s, s.desc.IsOpen 1 ∧ (∀ c u, HandleOk c s → c.Uses s u → u.Live) ∧
    ∀ fd, s.desc.IsOpen fd → s.Live ∧ s.useSbCached = .ok () ∧ s.useInodeReg = .ok () := by
  obtain ⟨s, _, hrun, ho⟩ := opened_dot
  have hok : HandleOk (.open dotName oRdwr) (blankVolume 4096) := fun _ => Or.inl rfl
  exact ⟨s, (ho 1).mpr rfl,
    handles_are_live ((reachedBy_blankVolume (by decide) (by decide)).step hok ⟨0, 1, by decide, hrun⟩)⟩

/-- A file is created while the root directory is open: the next read uses memory that is not mapped. -/
theorem creat_unmaps_for_readers : ∃ s, Reached s ∧ s.desc.IsOpen 1 ∧ ¬s.Live ∧
    Call.run 0 (.read 1 (fun _ => 0) 1) s = .error .unmapped := by
  have h : (do
      let r ← runCalls [.open dotName oRdwr, .creat (letter 0) 0] (0, blankVolume 4096)
      let cs ← r.2.desc.reachable
      .ok (decide (cs.map (fun c => c.2.key) = [(1, some 0)] ∧ r.2.sbCached = none ∧
        ExceptLib.isError (Call.run 0 (.read 1 (fun _ => 0) 1) r.2) .unmapped = true)) : M Bool) = .ok true := by
    decide +kernel
  obtain ⟨⟨r, s⟩, hrun, h⟩ := ExceptLib.bind_eq_ok.mp h
  obtain ⟨cs, hcs, h⟩ := ExceptLib.bind_eq_ok.mp h
  obtain ⟨hkey, hno, herr⟩ := of_decide_eq_true (Except.ok.inj h)
  have hs : Reached s := ReachedBy.runCalls (reachedBy_blankVolume (by decide) (by decide)) hrun
  obtain ⟨c, hm, hc⟩ := List.mem_map.mp (hkey ▸ List.mem_singleton_self (1, some 0))
  have hopen : s.desc.IsOpen 1 := ⟨1, 0, ⟨cs, c, hcs, hm, congrArg Prod.fst hc, congrArg Prod.snd hc⟩, rfl⟩
  exact ⟨s, hs, hopen, fun hlive => hlive.1 hno, ExceptLib.isError_iff.mp herr⟩

end Vsfs
