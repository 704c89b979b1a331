import Vsfs.Descriptors.Keys
import Vsfs.Descriptors.Open

/-!
# The slots of the open-file table

A descriptor points at its slot by address. `vsfs_open` appends a slot, `vsfs_close` moves the last slot over the one
it removes and leaves the descriptor of the moved slot as it was. So every descriptor keeps its slot as long as only
the descriptor of the last slot is closed: then descriptors and slots form a stack (`SlotInv`). `vsfs_close` also leaves
`fd_table->tail` at the node that it frees, so after a close that leaves descriptors the next `vsfs_open` would write to
that node (`vsfsOpen_returns_iff`).

- `SlotInv.open`, `SlotInv.seek`, `SlotInv.close`: what one step preserves;
- `slots_are_kept`: every run whose steps meet the condition, in both variants;
- `closing_first_moves_slot`: closing the first of two descriptors.
-/

set_option autoImplicit false

namespace Vsfs

open Function GuardedRun ByteSeq HeapChain

/-! ## Runs of both variants -/

/-- A variant of the two calls, on states that hold the descriptors. -/
structure Variant where
  State : Type
  desc : State → Desc
  withDesc : Desc → State → State
  vsfsOpen : Nat → CStr → Int → State → M (Int × State)
  vsfsClose : Int → State → M (Int × State)

/-- The calls of `vsfsio_spdk.h`. -/
def spdkVariant : Variant := ⟨State, State.desc, fun d s => { s with desc := d }, vsfsOpen, vsfsClose⟩

/-- The calls of `vsfsio.h`. -/
def shmVariant : Variant := ⟨Shm.State, Shm.State.desc, fun d s => { s with desc := d }, Shm.vsfsOpen, Shm.vsfsClose⟩

/-- An open descriptor: its number, what `vsfs_open` stored in its slot, and the offset last set through it. -/
structure Handle where
  fd : Int
  inodeNr : Nat
  filePtr : Option Nat
  offset : Nat
  deriving DecidableEq

/-- What is done with descriptors. -/
inductive SlotCall
  | open (pathname : CStr) (flags : Int)
  | close (fildes : Int)
  | setOffset (fildes : Int) (offset : Nat)

/-- The slot that the descriptor `fildes` points at. -/
def Desc.slotOf (d : Desc) (fildes : Int) : Option Nat :=
  match d.findTarget fildes with
  | .ok (some (_, e)) => e.ptr
  | _ => none

/-- The offset that a handle remembers. -/
def Handle.seek (fildes : Int) (offset : Nat) (h : Handle) : Handle :=
  if h.fd = fildes then { h with offset := offset } else h

/-- A successful call of `vsfs_open`, a successful call of `vsfs_close` on an open descriptor, or an offset set through
a descriptor; the list holds the open descriptors. -/
inductive SlotStep (V : Variant) : SlotCall → V.State × List Handle → V.State × List Handle → Prop
  | open {now : Nat} {pathname : CStr} {flags fd : Int} {s t : V.State} {hs : List Handle}
      (h : V.vsfsOpen now pathname flags s = .ok (fd, t)) (hfd : fd ≠ -1) :
      SlotStep V (.open pathname flags) (s, hs) (t, hs ++ [⟨fd, ((V.desc t).opFtable (V.desc s).count).inodeNr,
        ((V.desc t).opFtable (V.desc s).count).filePtr, 0⟩])
  | close {fd : Int} {s t : V.State} {hs : List Handle} (hm : fd ∈ hs.map Handle.fd)
      (h : V.vsfsClose fd s = .ok (0, t)) : SlotStep V (.close fd) (s, hs) (t, hs.eraseP fun h => h.fd = fd)
  | setOffset {fd : Int} {offset p : Nat} {s : V.State} {hs : List Handle} (h : (V.desc s).slotOf fd = some p) :
      SlotStep V (.setOffset fd offset) (s, hs)
        (V.withDesc ((V.desc s).setOffset p offset) s, hs.map (Handle.seek fd offset))

/-- Every open descriptor keeps its own slot. -/
structure SlotsKept (d : Desc) (hs : List Handle) : Prop where
  count : d.count = hs.length
  slots : ∀ h ∈ hs, ∃ p, d.slotOf h.fd = some p ∧ p < d.count ∧ (d.opFtable p).inodeNr = h.inodeNr ∧
    (d.opFtable p).filePtr = h.filePtr ∧ (d.opFtable p).offset = h.offset
  distinct : hs.Pairwise fun h h' => d.slotOf h.fd ≠ d.slotOf h'.fd

/-- The condition: the descriptor that is closed points at the last slot of the table, and `vsfs_open` finds no
descriptor or a live one at the tail of the list. -/
def LastSlot (V : Variant) : SlotCall → V.State × List Handle → Prop
  | .open _ _, p => (V.desc p.1).TailLive
  | .close fd, p => (V.desc p.1).slotOf fd = some ((V.desc p.1).count - 1)
  | .setOffset _ _, _ => True

/-! ## The invariant -/

/-- Descriptor `j + 1` at place `j` of the list, pointing at slot `j`. -/
def stackKeys (n : Nat) : List (Nat × Option Nat) := (List.range n).map fun j => (j + 1, some j)

theorem stackKeys_succ (n : Nat) : stackKeys (n + 1) = stackKeys n ++ [(n + 1, some n)] := by
  simp [stackKeys, List.range_succ]

theorem mem_stackKeys {n : Nat} {k : Nat × Option Nat} : k ∈ stackKeys n ↔ ∃ j, j < n ∧ k = (j + 1, some j) := by
  simp only [stackKeys, List.mem_map, List.mem_range]
  exact ⟨fun ⟨j, hj, he⟩ => ⟨j, hj, he.symm⟩, fun ⟨j, hj, he⟩ => ⟨j, hj, he.symm⟩⟩

theorem nextIndex_stackKeys {n : Nat} (h : n < 65535) : nextIndex ((stackKeys n).map Prod.fst) = n + 1 := by
  cases n with
  | zero => rfl
  | succ n =>
    rw [stackKeys_succ]
    simp only [nextIndex, List.map_append, List.map_cons, List.map_nil, List.getLast?_append, List.getLast?_singleton,
      Option.some_or, Option.map_some, Option.getD_some, succ16]
    rw [if_neg (by omega)]

/-- Slot `j` holds what the handle remembers, and is held once. -/
def SlotHolds (d : Desc) (j : Nat) (h : Handle) : Prop :=
  h.fd = (j : Int) + 1 ∧ (d.opFtable j).inodeNr = h.inodeNr ∧ (d.opFtable j).filePtr = h.filePtr ∧
    (d.opFtable j).offset = h.offset ∧ (d.opFtable j).ptrCounter = 1

/-- Descriptors and slots form a stack. -/
structure SlotInv (d : Desc) (hs : List Handle) : Prop where
  nodes : d.Holds (stackKeys hs.length)
  count : d.count = hs.length
  handles : ∀ j h, hs[j]? = some h → SlotHolds d j h

variable {d d' : Desc} {hs : List Handle} {fd : Int}

theorem slotInv_start (ht : d.fdTable = .null) (hc : d.count = 0) : SlotInv d [] := by
  exact ⟨Desc.holds_nil (by rw [ht]; rfl), hc, by simp⟩

/-- `_find_target_in_fdtable` in a stack of descriptors. -/
theorem findTarget_of_keys (fd : Int) {n : Nat} {as : List Nat} (hf : d.fdTable ≠ .freed) (hl : d.Lists as)
    (hk : d.column FdTable.key as = (stackKeys n).map some) :
    (∃ j c, j < n ∧ fd = (j : Int) + 1 ∧ d.findTarget fd = .ok (some c) ∧ c.2.ptr = some j) ∨
    ((∀ j, j < n → fd ≠ (j : Int) + 1) ∧ d.findTarget fd = .ok none) := by
  obtain ⟨cs, hr, _, hc⟩ := hl.reachable_column hf hk
  have hmem : ∀ c ∈ cs, ∃ j, j < n ∧ c.2.index = j + 1 ∧ c.2.ptr = some j := by
    intro c hcm
    have : c.2.key ∈ stackKeys n := hc ▸ List.mem_map_of_mem hcm
    obtain ⟨j, hj, he⟩ := mem_stackKeys.mp this
    exact ⟨j, hj, congrArg Prod.fst he, congrArg Prod.snd he⟩
  have hfind : d.findTarget fd = .ok (cs.reverse.find? fun c => (c.2.index : Int) = fd) := by
    simp [Desc.findTarget, hr]
  rw [hfind]
  cases hfd : cs.reverse.find? fun c => (c.2.index : Int) = fd with
  | some c =>
    obtain ⟨j, hj, hi, hp⟩ := hmem c (List.mem_reverse.mp (List.mem_of_find?_eq_some hfd))
    have hci := List.find?_some hfd
    simp only [decide_eq_true_eq] at hci
    exact Or.inl ⟨j, c, hj, by omega, rfl, hp⟩
  | none =>
    refine Or.inr ⟨fun j hj he => ?_, rfl⟩
    have : (j + 1, some j) ∈ stackKeys n := mem_stackKeys.mpr ⟨j, hj, rfl⟩
    rw [← hc, List.mem_map] at this
    obtain ⟨c, hcm, hck⟩ := this
    have hno := List.find?_eq_none.mp hfd c (List.mem_reverse.mpr hcm)
    have hci : c.2.index = j + 1 := congrArg Prod.fst hck
    simp only [hci, he, decide_eq_true_eq] at hno
    push_cast at hno
    exact hno rfl

/-- The descriptor at place `j` points at slot `j`. -/
theorem slotOf_of_keys {n : Nat} {as : List Nat} (hf : d.fdTable ≠ .freed) (hl : d.Lists as)
    (hk : d.column FdTable.key as = (stackKeys n).map some) {p : Nat} :
    d.slotOf fd = some p ↔ p < n ∧ fd = (p : Int) + 1 := by
  unfold Desc.slotOf
  rcases findTarget_of_keys fd hf hl hk with ⟨j, c, hj, hfd, hr, hp⟩ | ⟨hno, hr⟩ <;> rw [hr]
  · simp only [hp, Option.some.injEq]
    exact ⟨fun h => h ▸ ⟨hj, hfd⟩, fun h => by omega⟩
  · exact ⟨fun h => by simp at h, fun h => absurd h.2 (hno p h.1)⟩

/-- A list that is not empty has a header. -/
theorem Desc.Lists.fdTable_ne_freed {as : List Nat} (hl : d.Lists as) (hne : as ≠ []) : d.fdTable ≠ .freed := by
  intro h
  have hch := hl.chain
  rw [h] at hch
  exact hne (hch.eq_nil_iff.mpr rfl)

/-- The invariant says that the slots are kept. -/
theorem SlotInv.kept (h : SlotInv d hs) : SlotsKept d hs := by
  obtain ⟨as, hl, hk, _⟩ := h.nodes
  have hlen : as.length = hs.length := by
    have := congrArg List.length hk
    simpa [Desc.column, stackKeys] using this
  have hslot : ∀ j x, hs[j]? = some x → d.slotOf x.fd = some j := by
    intro j x hx
    have hj : j < hs.length := (List.getElem?_eq_some_iff.mp hx).1
    have hne : as ≠ [] := fun he => by rw [he] at hlen; simp at hlen; omega
    exact (slotOf_of_keys (hl.fdTable_ne_freed hne) hl hk).mpr ⟨hj, (h.handles j x hx).1⟩
  refine ⟨h.count, fun x hx => ?_, ?_⟩
  · obtain ⟨j, hj⟩ := List.mem_iff_getElem?.mp hx
    obtain ⟨_, hi, hfp, ho, _⟩ := h.handles j x hj
    exact ⟨j, hslot j x hj, h.count ▸ (List.getElem?_eq_some_iff.mp hj).1, hi, hfp, ho⟩
  · rw [List.pairwise_iff_getElem]
    intro i j hi hj hij
    rw [hslot i _ (List.getElem?_eq_getElem hi), hslot j _ (List.getElem?_eq_getElem hj)]
    simp only [ne_eq, Option.some.injEq]
    omega

/-! ## Steps -/

/-- A successful `vsfs_open` pushes a descriptor with its slot. -/
theorem SlotInv.open (h : SlotInv d hs) {oc : Bool} {d₁ d₂ : Desc} {a inode : Nat} {filePtr : Option Nat}
    {flags : Int} (hadd : { d with opCounter := oc }.addFdTable = .ok (fd, a, d₁)) (hlim : d.count < opLimit)
    (hf : d₂.fds = d₁.fds) (ht : d₂.fdTable = d₁.fdTable) (hb : d₁.brk ≤ d₂.brk) (hc : d₂.count = d.count)
    (ho : d₂.opFtable = d.opFtable) :
    SlotInv (d₂.takeSlot a inode filePtr flags) (hs ++ [⟨fd,
      ((d₂.takeSlot a inode filePtr flags).opFtable d.count).inodeNr,
      ((d₂.takeSlot a inode filePtr flags).opFtable d.count).filePtr, 0⟩]) := by
  have hlim' : hs.length < 341 := by
    have := h.count
    unfold opLimit at hlim
    omega
  obtain ⟨hk', hret⟩ := h.nodes.opened d₂ inode filePtr flags hadd hf ht hb hc
  have hfd : fd = (hs.length : Int) + 1 := by
    rcases hret with ⟨rfl, hnil⟩ | ⟨k, hkl, rfl⟩
    · have : hs.length = 0 := by simpa [stackKeys] using hnil
      omega
    · have hk2 := mem_stackKeys.mp (List.mem_of_getLast? hkl)
      rcases Nat.exists_eq_succ_of_ne_zero (n := hs.length) (by obtain ⟨j, hj, _⟩ := hk2; omega) with ⟨n, hn⟩
      rw [hn, stackKeys_succ] at hkl
      simp only [List.getLast?_append, List.getLast?_singleton, Option.some_or, Option.some.injEq] at hkl
      rw [hn, ← hkl]
  refine ⟨?_, ?_, ?_⟩
  · rw [nextIndex_stackKeys (by omega), h.count, ← stackKeys_succ] at hk'
    rw [List.length_append, List.length_singleton]
    exact hk'
  · rw [List.length_append, List.length_singleton, ← h.count, ← hc]
    rfl
  · intro j x hx
    rw [List.getElem?_append] at hx
    split at hx
    case isTrue hj =>
      obtain ⟨h1, h2, h3, h4, h5⟩ := h.handles j x hx
      have hop : (d₂.takeSlot a inode filePtr flags).opFtable j = d.opFtable j := by
        have hne : j ≠ d₂.count := by have := h.count; omega
        simp only [Desc.takeSlot, update_of_ne hne, ho]
      unfold SlotHolds
      rw [hop]
      exact ⟨h1, h2, h3, h4, h5⟩
    case isFalse hj =>
      have hj' : j = hs.length := by
        have := (List.getElem?_eq_some_iff.mp hx).1
        simp only [List.length_singleton] at this
        omega
      subst hj'
      simp only [Nat.sub_self, List.getElem?_cons_zero, Option.some.injEq] at hx
      subst hx
      have hop : (d₂.takeSlot a inode filePtr flags).opFtable hs.length =
          { offset := 0, inodeNr := inode, ptrCounter := 1, lock := 0, filePtr := filePtr } := by
        rw [← h.count, ← hc]
        simp only [Desc.takeSlot, update_self]
      unfold SlotHolds
      rw [h.count, hop]
      exact ⟨hfd, rfl, rfl, rfl, rfl⟩

/-- Setting the offset through a descriptor. -/
theorem SlotInv.setOffset (h : SlotInv d hs) {p offset : Nat} (hp : d.slotOf fd = some p) :
    SlotInv (d.setOffset p offset) (hs.map (Handle.seek fd offset)) := by
  obtain ⟨as, hl, hk, _⟩ := h.nodes
  have hlive : d.fdTable ≠ .freed := by
    intro hfr
    unfold Desc.slotOf Desc.findTarget Desc.reachable at hp
    rw [hfr] at hp
    cases hp
  obtain ⟨_, hfd⟩ := (slotOf_of_keys hlive hl hk).mp hp
  refine ⟨?_, ?_, ?_⟩
  · rw [List.length_map]
    exact h.nodes.congr rfl rfl rfl
  · rw [List.length_map]
    exact h.count
  · intro j x hx
    rw [List.getElem?_map, Option.map_eq_some_iff] at hx
    obtain ⟨y, hy, rfl⟩ := hx
    obtain ⟨h1, h2, h3, h4, h5⟩ := h.handles j y hy
    by_cases hj : j = p
    · subst hj
      have hseek : Handle.seek fd offset y = { y with offset := offset } := if_pos (by omega)
      have hop : (d.setOffset j offset).opFtable j = { d.opFtable j with offset := offset } := update_self ..
      unfold SlotHolds
      rw [hseek, hop]
      exact ⟨h1, h2, h3, rfl, h5⟩
    · have hseek : Handle.seek fd offset y = y := if_neg (by omega)
      have hop : (d.setOffset p offset).opFtable j = d.opFtable j := update_of_ne hj ..
      unfold SlotHolds
      rw [hseek, hop]
      exact ⟨h1, h2, h3, h4, h5⟩

/-- Removing the last handle by its number. -/
theorem eraseP_stack {hs : List Handle} {h : Handle}
    (hn : ∀ (j : Nat) (x : Handle), (hs ++ [h])[j]? = some x → x.fd = (j : Int) + 1) :
    (hs ++ [h]).eraseP (fun x => x.fd = h.fd) = hs := by
  have hlast : h.fd = (hs.length : Int) + 1 := hn hs.length h (by simp)
  have hno : ∀ x ∈ hs, ¬(decide (x.fd = h.fd) = true) := by
    intro x hx
    obtain ⟨j, hj⟩ := List.mem_iff_getElem?.mp hx
    have hlt := (List.getElem?_eq_some_iff.mp hj).1
    have := hn j x (by rw [List.getElem?_append_left hlt]; exact hj)
    simp only [decide_eq_true_eq]
    omega
  rw [List.eraseP_append_right _ hno]
  simp

/-- A successful `vsfs_close` on the descriptor of the last slot pops descriptor and slot. -/
theorem SlotInv.close (h : SlotInv d hs) (hslot : d.slotOf fd = some (d.count - 1)) {hd b p : Nat} {tl : Option Nat}
    {d₁ d₂ : Desc} {e : FdTable} (htab : d.fdTable = .table (some hd) tl)
    (hu : d.unlink fd hd tl = .ok (some b, d₁)) (he : d₁.fds b = some e) (hp : e.ptr = some p)
    (hcl : ClosedFrom d₁ d₂ d' b p) : SlotInv d' (hs.eraseP fun h => h.fd = fd) := by
  obtain ⟨as, hl, hk, _⟩ := h.nodes
  have hn := (slotOf_of_keys (by rw [htab]; simp) hl hk).mp hslot
  have hcount := h.count
  -- the keys and the handles end with what is closed
  rcases List.eq_nil_or_concat hs with rfl | ⟨hs', h', rfl⟩
  · exact absurd hn.1 (by simp)
  rw [List.concat_eq_append] at *
  have hlen : (hs' ++ [h']).length = hs'.length + 1 := by simp
  rw [hlen] at hcount
  have hfd : fd = (hs'.length : Int) + 1 := by have := hn.2; omega
  have hnodes := h.nodes
  rw [hlen, stackKeys_succ] at hnodes
  obtain ⟨b', d₁', hu', hst, _, hkey, hrest⟩ := hnodes.closed_last htab
    (show ((hs'.length + 1 : Nat) : Int) = fd by push_cast; omega) fun k hkm => by
    obtain ⟨j, hj, rfl⟩ := mem_stackKeys.mp hkm
    push_cast
    omega
  rw [hu] at hu'
  cases hu'
  have hpn : p = hs'.length := by
    rw [he, Option.map_some, Option.some.injEq] at hkey
    have := congrArg Prod.snd hkey
    rw [show e.key.2 = some p from hp] at this
    exact Option.some.inj this
  have hfd' : h'.fd = fd := by
    have := (h.handles hs'.length h' (by simp)).1
    omega
  have herase : (hs' ++ [h']).eraseP (fun h => h.fd = fd) = hs' := by
    rw [← hfd']
    exact eraseP_stack fun j x hx => (h.handles j x hx).1
  have hc₂ : d₂.count = hs'.length + 1 := by rw [hcl.count, hst.count, hcount]
  have ho₂ : d₂.opFtable = d.opFtable := hcl.opFtable.trans hst.opFtable
  have hone : (d₂.opFtable (d₂.count - 1)).ptrCounter = 1 := by
    rw [hc₂, Nat.add_sub_cancel, ho₂]
    exact (h.handles hs'.length h' (by simp)).2.2.2.2
  obtain ⟨_, hdc, hdo⟩ := dropSlot_once hone (by omega)
  rw [hc₂, Nat.add_sub_cancel, ← hpn] at hdc hdo
  rw [herase]
  refine ⟨hrest d₂ d' p hcl, by rw [hcl.drop.2, hdc, hpn], fun j x hx => ?_⟩
  have hj : j < hs'.length := (List.getElem?_eq_some_iff.mp hx).1
  have hold := h.handles j x (by rw [List.getElem?_append_left hj]; exact hx)
  unfold SlotHolds at hold ⊢
  rw [hcl.drop.1, hdo j (by omega), ho₂]
  exact hold

/-! ## Both variants -/

/-- A variant whose calls do to the descriptors what the steps of a stack are about. -/
structure Variant.Stacks (V : Variant) : Prop where
  withDesc : ∀ d s, V.desc (V.withDesc d s) = d
  «open» : ∀ now pathname flags s fd t, V.vsfsOpen now pathname flags s = .ok (fd, t) → fd ≠ -1 →
    ∃ oc a inode filePtr, ∃ d₁ d₂ : Desc, { V.desc s with opCounter := oc }.addFdTable = .ok (fd, a, d₁) ∧
      (V.desc s).count < opLimit ∧ d₂.fds = d₁.fds ∧ d₂.fdTable = d₁.fdTable ∧ d₁.brk ≤ d₂.brk ∧
      d₂.count = d₁.count ∧ d₂.opFtable = d₁.opFtable ∧ V.desc t = d₂.takeSlot a inode filePtr flags
  close : ∀ fd s t, V.vsfsClose fd s = .ok (0, t) →
    ∃ hd tl b p e, ∃ d₁ d₂ : Desc, (V.desc s).fdTable = .table (some hd) tl ∧
      (V.desc s).unlink fd hd tl = .ok (some b, d₁) ∧ d₁.fds b = some e ∧ e.ptr = some p ∧
      ClosedFrom d₁ d₂ (V.desc t) b p

theorem spdkVariant_stacks : spdkVariant.Stacks where
  withDesc _ _ := rfl
  «open» now pathname flags s fd t h hfd := by
    obtain ⟨_, rfl, _⟩ | ⟨_, fd', a, d, hadd, ⟨rfl, _⟩ | ⟨target, info, _, _, hlim, rfl, rfl⟩⟩ := vsfsOpen_cases h
    · exact absurd rfl hfd
    · exact absurd rfl hfd
    exact ⟨true, a, target, some d.brk, d, { d with brk := d.brk + 1, files := update d.files d.brk (some info) }, hadd,
      hlim, rfl, rfl, Nat.le_succ _, rfl, rfl, rfl⟩
  close fd s t h := by
    obtain ⟨_, _, hr, _⟩ | ⟨hd, tl, rm, d, hs, hu, ⟨_, hr, _⟩ | ⟨b, e, p, f, rfl, he, hp, _, hout⟩⟩ := vsfsClose_cases h
    · cases hr
    · cases hr
    obtain ⟨_, hr, _⟩ | ⟨_, _, rfl⟩ := hout
    · cases hr
    obtain ⟨next, hnext⟩ := unlink_fdTable hu hs.fdTable
    exact ⟨hd, tl, b, p, e, d, d.freeFile p, hs.fdTable, hu, he, hp, (closedFrom_closeLast s hnext b p).1⟩

theorem shmVariant_stacks : shmVariant.Stacks where
  withDesc _ _ := rfl
  «open» now pathname flags s fd t h hfd := by
    obtain ⟨_, rfl, _⟩ | ⟨_, fd', a, d, hadd, ⟨rfl, _⟩ | ⟨target, _, hlim, rfl, rfl⟩⟩ := Shm.vsfsOpen_cases h
    · exact absurd rfl hfd
    · exact absurd rfl hfd
    exact ⟨true, a, target, _, d, d, hadd, hlim, rfl, rfl, le_refl _, rfl, rfl, rfl⟩
  close fd s t h := by
    obtain ⟨hd, tl, b, d, e, p, hs, hu, he, hp, _, rfl⟩ := Shm.vsfsClose_zero h
    obtain ⟨next, hnext⟩ := unlink_fdTable hu hs.fdTable
    have h2 := dropSlot_sameList d p
    have htab := h2.fdTable.trans hnext
    obtain ⟨hf, hb, hc, ho, ht⟩ := Shm.closeLast_desc (s := { s with desc := (d.dropSlot p).2 }) htab b
    refine ⟨hd, tl, b, p, e, d, d, hs.fdTable, hu, he, hp, rfl, rfl, ⟨ho, hc⟩, ?_, hb.trans h2.brk,
      fun next' tl' htab' => ?_⟩
    · rw [show (shmVariant.desc _).fds = _ from hf]
      exact congrArg (fun f => update f b none) h2.fds
    · rw [hnext] at htab'
      cases htab'
      rcases ht with ⟨rfl, ht⟩ | ⟨_, ht⟩
      · exact Or.inl ⟨rfl, congrArg TablePtr.head ht⟩
      · exact Or.inr ht

/-- A successful `vsfs_open` has found such a list. -/
theorem Variant.Stacks.tailLive {V : Variant} (hV : V.Stacks) {pathname : CStr} {flags : Int}
    {x y : V.State × List Handle} (h : SlotStep V (.open pathname flags) x y) : (V.desc x.1).TailLive := by
  cases h with
  | @«open» _ _ _ _ s _ _ ho hfd =>
    obtain ⟨oc, _, _, _, _, _, hadd, -⟩ := hV.open _ _ _ _ _ _ ho hfd
    have hlive : Desc.TailLive { V.desc s with opCounter := oc } := addFdTable_ok_iff.mp ⟨_, hadd⟩
    exact hlive

/-- The invariant holds in every run whose steps meet the condition. -/
theorem Variant.Stacks.run {V : Variant} (hV : V.Stacks) {s₀ s : V.State} (ht : (V.desc s₀).fdTable = .null)
    (hc : (V.desc s₀).count = 0) (h : Run (SlotStep V) (LastSlot V) (s₀, []) (s, hs)) : SlotInv (V.desc s) hs := by
  refine h.invariant (P := fun p => SlotInv (V.desc p.1) p.2) (slotInv_start ht hc) fun c u v hu hok hstep => ?_
  cases hstep with
  | «open» ho hfd =>
    obtain ⟨oc, a, inode, filePtr, d₁, d₂, hadd, hlim, hf, htab, hb, hcnt, hop, hd⟩ := hV.open _ _ _ _ _ _ ho hfd
    obtain ⟨hcnt', hop', _⟩ := addFdTable_optab hadd
    simp only [hd]
    exact hu.open hadd hlim hf htab hb (hcnt.trans hcnt') (hop.trans hop')
  | close hm hcl =>
    obtain ⟨hd, tl, b, p, e, d₁, d₂, htab, hun, he, hp, hfrom⟩ := hV.close _ _ _ hcl
    exact hu.close hok htab hun he hp hfrom
  | setOffset hp =>
    simp only [hV.withDesc]
    exact hu.setOffset hp

/-- **Every open descriptor keeps its own slot** in every run of both variants that closes only the descriptor of the
last slot and opens only behind a live node. -/
theorem slots_are_kept (hs : List Handle) :
    (∀ s₀ s : State, s₀.desc.fdTable = .null → s₀.desc.count = 0 →
      Run (SlotStep spdkVariant) (LastSlot spdkVariant) (s₀, []) (s, hs) → SlotsKept s.desc hs) ∧
    (∀ s₀ s : Shm.State, s₀.desc.fdTable = .null → s₀.desc.count = 0 →
      Run (SlotStep shmVariant) (LastSlot shmVariant) (s₀, []) (s, hs) → SlotsKept s.desc hs) :=
  ⟨fun _ _ ht hc h => (spdkVariant_stacks.run ht hc h).kept,
    fun _ _ ht hc h => (shmVariant_stacks.run ht hc h).kept⟩

/-! ## Two descriptors -/

/-- Opening `.` and `..` and closing one of the two, with a test of the states before and after the last call. -/
def openTwoCloseOne (V : Variant) (s : V.State) (fd : Int) (test : Desc → Desc → Bool) : M Bool := do
  let (fd₁, s) ← V.vsfsOpen 0 dotName oRdwr s
  let (fd₂, s) ← V.vsfsOpen 0 dotDotName oRdwr s
  let (ret, t) ← V.vsfsClose fd s
  .ok (decide (fd₁ = 1 ∧ fd₂ = 2 ∧ ret = 0) && test (V.desc s) (V.desc t))

/-- The steps of such a run. -/
theorem steps_of_openTwoCloseOne (V : Variant) (s₀ : V.State) (test : Desc → Desc → Bool) {fd : Int}
    (hfd : fd = 1 ∨ fd = 2) (h : openTwoCloseOne V s₀ fd test = .ok true) :
    ∃ s s' t h₁ h₂, SlotStep V (.open dotName oRdwr) (s₀, []) (s, [h₁]) ∧
      SlotStep V (.open dotDotName oRdwr) (s, [h₁]) (s', [h₁, h₂]) ∧ h₁.fd = 1 ∧ h₂.fd = 2 ∧
      SlotStep V (.close fd) (s', [h₁, h₂]) (t, [h₁, h₂].eraseP fun x => x.fd = fd) ∧
      test (V.desc s') (V.desc t) = true := by
  obtain ⟨⟨fd₁, s⟩, ho, h⟩ := ExceptLib.bind_eq_ok.mp h
  obtain ⟨⟨fd₂, s'⟩, ho', h⟩ := ExceptLib.bind_eq_ok.mp h
  obtain ⟨⟨ret, t⟩, hcl, h⟩ := ExceptLib.bind_eq_ok.mp h
  obtain ⟨hnum, htest⟩ := Bool.and_eq_true_iff.mp (Except.ok.inj h)
  obtain ⟨rfl, rfl, rfl⟩ := of_decide_eq_true hnum
  refine ⟨s, s', t, _, _, .open ho (by decide), .open ho' (by decide), rfl, rfl, .close ?_ hcl, htest⟩
  rcases hfd with rfl | rfl <;> simp

/-- A process of the shared-memory variant whose root directory is that of a blank volume. -/
def blankShm : Shm.State := ⟨(blankVolume 4096).vol.inode, fun _ => rootDirBlock, Desc.initial, false, false⟩

/-- The theorem after two descriptors have been opened and the second one has been closed. -/
theorem slots_are_kept_two :
    (∃ s h, Run (SlotStep spdkVariant) (LastSlot spdkVariant) (blankVolume 4096, []) (s, [h]) ∧
      SlotsKept s.desc [h]) ∧
    ∃ s h, Run (SlotStep shmVariant) (LastSlot shmVariant) (blankShm, []) (s, [h]) ∧ SlotsKept s.desc [h] := by
  have hrun : ∀ (V : Variant) (hV : V.Stacks) (s₀ : V.State), openTwoCloseOne V s₀ 2 (fun d _ => d.slotOf 2 = some (d.count - 1)) =
      .ok true → ∃ s h, Run (SlotStep V) (LastSlot V) (s₀, []) (s, [h]) := by
    intro V hV s₀ h
    obtain ⟨s, s', t, h₁, h₂, hs₁, hs₂, hf₁, hf₂, hs₃, hlast⟩ := steps_of_openTwoCloseOne _ _ _ (Or.inr rfl) h
    have hok : LastSlot V (.close 2) (s', [h₁, h₂]) := by
      simp only [decide_eq_true_eq] at hlast
      exact hlast
    refine ⟨t, h₁, (((Run.refl _).snoc (c := .open dotName oRdwr) (hV.tailLive hs₁) hs₁).snoc
      (c := .open dotDotName oRdwr) (hV.tailLive hs₂) hs₂).snoc hok ?_⟩
    simpa [hf₁, hf₂] using hs₃
  constructor
  · obtain ⟨s, h, hr⟩ := hrun spdkVariant spdkVariant_stacks (blankVolume 4096) (by decide +kernel)
    exact ⟨s, h, hr, (slots_are_kept _).1 _ _ rfl rfl hr⟩
  · obtain ⟨s, h, hr⟩ := hrun shmVariant shmVariant_stacks blankShm (by decide +kernel)
    exact ⟨s, h, hr, (slots_are_kept _).2 _ _ rfl rfl hr⟩

/-- Closing the first of two descriptors moves the slot of the second, which still points at the old place. -/
theorem closing_first_moves_slot : ∃ s hs, Run (SlotStep spdkVariant) (fun _ _ => True) (blankVolume 4096, []) (s, hs) ∧
    ¬SlotsKept s.desc hs := by
  obtain ⟨s, s', t, h₁, h₂, hs₁, hs₂, hf₁, hf₂, hs₃, hmoved⟩ := steps_of_openTwoCloseOne spdkVariant
    (blankVolume 4096) (fun _ d => d.slotOf 2 = some 1 && d.count = 1) (Or.inl rfl) (by decide +kernel)
  refine ⟨t, [h₂], (((Run.refl _).snoc trivial hs₁).snoc trivial hs₂).snoc (c := .close 1) trivial ?_, fun hk => ?_⟩
  · simpa [hf₁, hf₂] using hs₃
  · simp only [Bool.and_eq_true, decide_eq_true_eq] at hmoved
    obtain ⟨p, hp, hlt, _⟩ := hk.slots h₂ (by simp)
    rw [hf₂] at hp
    rw [show t.desc.slotOf 2 = some 1 from hmoved.1] at hp
    cases hp
    rw [show t.desc.count = 1 from hmoved.2] at hlt
    exact absurd hlt (by decide)

end Vsfs
