import Vsfs.Model.Processes
import Vsfs.Volume.ReadFit

/-!
# Descriptors among processes

The open-file table is shared: `vsfs_open` takes the slot behind the last one for a descriptor of its process, and
`vsfs_close` gives a slot up by moving the last one over it, whichever process has that. A `Table` is the slots with
their holders, the nodes of one process or of all.

- `Table.Change.slotted`, `Table.Change.kept`: what a change keeps of the slots, and for whom;
- `Step.change`: every call of a process changes its table in this way;
- `descriptors_are_isolated`: in every interleaving that closes last slots only, no two descriptors share a slot and
  each is used by its own process only;
- `closing_moves_anothers_slot`: one process takes a slot away from another.
-/

set_option autoImplicit false

namespace Vsfs

open Function ByteSeq GuardedRun Interleaving

/-! ## Slots and their holders -/

/-- The table of open files, and which slot a node points at. -/
structure Table (κ : Type) where
  count : Nat
  slot : Nat → OpEntry
  holds : κ → Nat → Prop

namespace Table

variable {κ : Type} {T T' : Table κ} {named : κ → Prop}

/-- What a call does to the table: `named` are the nodes whose number it is given. -/
inductive Change (named : κ → Prop) (T T' : Table κ) : Prop
  | used (hc : T'.count = T.count) (hh : ∀ k q, T'.holds k q → T.holds k q)
      (ho : ∀ q, T'.slot q = T.slot q ∨
        (∃ k, T.holds k q ∧ named k) ∧ (T'.slot q).ptrCounter = (T.slot q).ptrCounter)
  | taken {k : κ} (hc : T'.count = T.count + 1)
      (hh : ∀ l q, T'.holds l q → T.holds l q ∨ l = k ∧ q = T.count)
      (hone : (T'.slot T.count).ptrCounter = 1) (ho : ∀ q, q ≠ T.count → T'.slot q = T.slot q)
  | given {k : κ} {p : Nat} (hk : T.holds k p) (hn : named k) (hp : p + 1 = T.count)
      (h : (T.slot p).ptrCounter = 1 → T'.count = T.count - 1 ∧ (∀ l q, T'.holds l q → T.holds l q ∧ l ≠ k) ∧
        ∀ q, q ≠ p → T'.slot q = T.slot q)

/-- Every holder has a slot of the table for itself, which counts it. -/
structure Slotted (T : Table κ) : Prop where
  inTable : ∀ k q, T.holds k q → q < T.count
  once : ∀ k q, T.holds k q → (T.slot q).ptrCounter = 1
  inj : ∀ k k' q, T.holds k q → T.holds k' q → k = k'

/-- **What a change keeps of the slots.** -/
theorem Change.slotted (h : Change named T T') (hs : T.Slotted) : T'.Slotted := by
  cases h with
  | used hc hh ho =>
    refine ⟨fun k q hk => ?_, fun k q hk => ?_, fun k k' q hk hk' => hs.inj k k' q (hh k q hk) (hh k' q hk')⟩
    · rw [hc]
      exact hs.inTable k q (hh k q hk)
    · rcases ho q with he | ⟨_, he⟩
      · rw [he]
        exact hs.once k q (hh k q hk)
      · rw [he]
        exact hs.once k q (hh k q hk)
  | @taken k₀ hc hh hone ho =>
    have hnew : ∀ k q, T.holds k q → q ≠ T.count := fun k q hk => (hs.inTable k q hk).ne
    refine ⟨fun k q hk => ?_, fun k q hk => ?_, fun k k' q hk hk' => ?_⟩
    · rcases hh k q hk with hk | ⟨_, rfl⟩
      · have := hs.inTable k q hk
        omega
      · omega
    · rcases hh k q hk with hk | ⟨_, rfl⟩
      · rw [ho q (hnew k q hk)]
        exact hs.once k q hk
      · exact hone
    · rcases hh k q hk with hk | ⟨rfl, hq⟩ <;> rcases hh k' q hk' with hk' | ⟨rfl, hq'⟩
      · exact hs.inj k k' q hk hk'
      · exact absurd hq' (hnew k q hk)
      · exact absurd hq (hnew k' q hk')
      · rfl
  | @given k₀ p hk₀ hn hp h =>
    obtain ⟨hc, hh, ho⟩ := h (hs.once k₀ p hk₀)
    -- the slot that is given up has no other holder
    have hne : ∀ k q, T'.holds k q → T.holds k q ∧ q ≠ p := fun k q hk => by
      obtain ⟨hk', hkk⟩ := hh k q hk
      refine ⟨hk', ?_⟩
      rintro rfl
      exact hkk (hs.inj k k₀ q hk' hk₀)
    refine ⟨fun k q hk => ?_, fun k q hk => ?_, fun k k' q hk hk' => hs.inj k k' q (hh k q hk).1 (hh k' q hk').1⟩
    · obtain ⟨hk', hqp⟩ := hne k q hk
      have := hs.inTable k q hk'
      omega
    · obtain ⟨hk', hqp⟩ := hne k q hk
      rw [ho q hqp]
      exact hs.once k q hk'

/-- **What a change keeps for those that it does not name**: the slot, with all that is in it. -/
theorem Change.kept (h : Change named T T') (hs : T.Slotted) {k : κ} {q : Nat} (hk : T.holds k q) (hn : ¬named k) :
    q < T'.count ∧ T'.slot q = T.slot q := by
  have hlt := hs.inTable k q hk
  cases h with
  | used hc hh ho =>
    refine ⟨by omega, (ho q).resolve_right ?_⟩
    rintro ⟨⟨k', hk', hn'⟩, -⟩
    exact hn (hs.inj k' k q hk' hk ▸ hn')
  | taken hc hh hone ho => exact ⟨by omega, ho q (by omega)⟩
  | @given k₀ p hk₀ hn₀ hp h =>
    obtain ⟨hc, -, ho⟩ := h (hs.once k₀ p hk₀)
    have hqp : q ≠ p := by
      rintro rfl
      exact hn (hs.inj k₀ k q hk₀ hk ▸ hn₀)
    exact ⟨by omega, ho q hqp⟩

end Table

/-! ## One process -/

/-- The slots and the nodes of a process. -/
def Desc.table (d : Desc) : Table Nat := ⟨d.count, d.opFtable, fun a q => ∃ e, d.fds a = some e ∧ e.ptr = some q⟩

/-- The node at `a` has the number that the call is given. -/
def Names (c : Call) (d : Desc) (a : Nat) : Prop := ∃ e, d.fds a = some e ∧ c.descriptor = some (e.index : Int)

/-- The condition: what is closed is on the last slot. -/
def ClosesLast (c : Call) (s : State) : Prop :=
  ∀ fildes a q, c = .close fildes → Names c s.desc a → s.desc.table.holds a q → q + 1 = s.desc.count

variable {s t : State} {c : Call} {now : Nat} {ret fildes : Int}

open Table

/-- Nodes that have been linked in another way hold what they held. -/
theorem Relinked.holds {d d' : Desc} (h : Relinked d.fds d'.fds) {a q : Nat} (hq : d'.table.holds a q) :
    d.table.holds a q := by
  obtain ⟨e, he, hp⟩ := hq
  obtain ⟨e₀, _, he₀, rfl⟩ := h a e he
  exact ⟨e₀, he₀, hp⟩

/-- A call that leaves the nodes and the table. -/
theorem change_same (c : Call) {d d' : Desc} (hr : Relinked d.fds d'.fds) (hc : d'.count = d.count)
    (ho : d'.opFtable = d.opFtable) : Change (Names c d) d.table d'.table :=
  .used hc (fun _ _ => hr.holds) fun q => Or.inl (congrFun ho q)

/-- A call that sets the offset of a slot that it has found. -/
theorem change_setOffset {d d' : Desc} {b p o : Nat} {e : FdTable} (hfd : c.descriptor = some fildes)
    (hfind : d.findTarget fildes = .ok (some (b, e))) (hp : e.ptr = some p) (hf : d'.fds = d.fds)
    (hc : d'.count = d.count) (ho : d'.opFtable = update d.opFtable p { d.opFtable p with offset := o }) :
    Change (Names c d) d.table d'.table := by
  have hnode := findTarget_node hfind
  have hindex : (e.index : Int) = fildes := by
    obtain ⟨cs, _, h⟩ := ExceptLib.bind_eq_ok.mp hfind
    exact of_decide_eq_true (@List.find?_some _ (fun c : Nat × FdTable => decide ((c.2.index : Int) = fildes)) _ _ (Except.ok.inj h))
  refine .used hc (fun a q => (hf ▸ Relinked.refl _ : Relinked d.fds d'.fds).holds) fun q => ?_
  show d'.opFtable q = _ ∨ _ ∧ (d'.opFtable q).ptrCounter = _
  rw [ho, update_apply]
  split
  case isTrue hq =>
    subst hq
    exact Or.inr ⟨⟨b, ⟨e, hnode, hp⟩, e, hnode, by rw [hfd, hindex]⟩, rfl⟩
  case isFalse => exact Or.inl rfl

/-- A node that was there holds what it held. -/
theorem WasNode.holds {d : Desc} {a q : Nat} {e : FdTable} (h : WasNode d.fds a e) (hq : e.ptr = some q) :
    d.table.holds a q := by
  obtain ⟨e₀, _, he₀, rfl⟩ := h
  exact ⟨e₀, he₀, hq⟩

/-- `vsfs_open` takes the slot behind the last one. -/
theorem vsfsOpen_change {pathname : CStr} {flags : Int} (h : vsfsOpen now pathname flags s = .ok (ret, t)) :
    Change (Names (.open pathname flags) s.desc) s.desc.table t.desc.table := by
  obtain ⟨_, _, rfl⟩ | ⟨_, fd, a, d, hadd, ⟨hret, hu⟩ | ⟨target, info, _, _, _, _, ht⟩⟩ := vsfsOpen_cases h
  · exact change_same _ (.refl _) rfl rfl
  · refine .used hu.count (fun b q hb => ?_) fun q => Or.inl (congrFun hu.opFtable q)
    obtain ⟨e, he, hq⟩ := hb
    obtain hold | hnone | ⟨hne, _⟩ := vsfsOpen_nodes h he
    · exact hold.holds hq
    · rw [hnone] at hq
      cases hq
    · exact absurd hret hne
  · obtain ⟨hcount, hop, -⟩ := addFdTable_optab hadd
    dsimp only at hcount hop
    have hdesc : t.desc = Desc.takeSlot { d with brk := d.brk + 1, files := update d.files d.brk (some info) } a target
        (some d.brk) flags := by rw [ht]
    have hslot : t.desc.opFtable = update s.desc.opFtable s.desc.count ⟨0, target, 1, 0, some d.brk⟩ := by
      rw [hdesc]
      simp only [Desc.takeSlot, hop, hcount]
    refine .taken (k := a) ?_ (fun b q hb => ?_) ?_ fun q hq => ?_
    · show t.desc.count = s.desc.count + 1
      rw [hdesc]
      exact congrArg (· + 1) hcount
    · obtain ⟨e, he, hq⟩ := hb
      rw [hdesc] at he
      simp only [Desc.takeSlot, update_apply] at he
      split at he
      case isTrue hba =>
        obtain ⟨e₀, _, rfl⟩ := Option.map_eq_some_iff.mp he
        cases hq
        exact Or.inr ⟨hba, hcount⟩
      case isFalse =>
        rcases addFdTable_nodes hadd he with hold | hnone
        · exact Or.inl (hold.holds hq)
        · rw [hnone] at hq
          cases hq
    · show (t.desc.opFtable s.desc.count).ptrCounter = 1
      rw [hslot, update_self]
    · show t.desc.opFtable q = s.desc.opFtable q
      rw [hslot]
      exact update_of_ne hq ..

/-- `vsfs_close` gives up the slot of the node that it frees. -/
theorem vsfsClose_change (hl : ClosesLast (.close fildes) s) (h : vsfsClose fildes s = .ok (ret, t)) :
    Change (Names (.close fildes) s.desc) s.desc.table t.desc.table := by
  obtain ⟨_, _, _, rfl⟩ | ⟨hd, tl, rm, d, hsr, hu, hcase⟩ := vsfsClose_cases h
  · exact change_same _ (.refl _) rfl rfl
  obtain ⟨hre, hst, hfound⟩ := unlink_nodes hu
  obtain ⟨rfl, _, rfl⟩ | ⟨a, e, p, f, rfl, he, hp, -, hout⟩ := hcase
  · exact change_same _ hre hst.count hst.opFtable
  obtain ⟨e₀, he₀, hi⟩ := hfound a rfl
  have hp₀ : s.desc.table.holds a p := hre.holds ⟨e, he, hp⟩
  have hnamed : Names (.close fildes) s.desc a := ⟨e₀, he₀, congrArg some hi.symm⟩
  have hlast := hl fildes a p rfl hnamed hp₀
  refine .given hp₀ hnamed hlast fun hone => ?_
  have hone' : ((d.freeFile p).opFtable p).ptrCounter = 1 := by
    rw [freeFile_opFtable, hst.opFtable]
    exact hone
  have hcount : (d.freeFile p).count = s.desc.count := (freeFile_count d p).trans hst.count
  obtain ⟨hdrop, hdc, hdo⟩ := dropSlot_once hone' (by omega)
  obtain ⟨hno, -, -⟩ | ⟨-, -, rfl⟩ := hout
  · rw [hdrop] at hno
    cases hno
  obtain ⟨next, htab⟩ := unlink_fdTable hu hsr.fdTable
  have htab' : ((d.freeFile p).dropSlot p).2.fdTable = .table next tl := by
    rw [(dropSlot_sameList _ p).fdTable, (freeFile_sameList d p).fdTable, htab]
  obtain ⟨hf, -, hc, ho, -, -⟩ := closeLast_desc (s := { s with
    inodeReg := none, desc := ((d.freeFile p).dropSlot p).2 }) htab' a
  dsimp only at hf hc ho
  rw [(dropSlot_sameList _ p).fds, (freeFile_sameList d p).fds] at hf
  refine ⟨?_, fun b q => ?_, fun q hq => ?_⟩
  · show (State.closeLast _ a).desc.count = _
    rw [hc, hdc, hcount]
    rfl
  · rintro ⟨e', he', hq⟩
    rw [hf] at he'
    obtain ⟨e₁, _, he₁, rfl⟩ := Relinked.free d.fds a b e' he'
    refine ⟨hre.holds ⟨e₁, he₁, hq⟩, ?_⟩
    rintro rfl
    rw [update_self] at he'
    cases he'
  · show (State.closeLast _ a).desc.opFtable q = _
    rw [ho, hdo q hq, freeFile_opFtable, hst.opFtable]
    rfl

/-- **What a call of a process does to its table.** -/
theorem Step.change (hl : ClosesLast c s) (hs : Step c s t) : Change (Names c s.desc) s.desc.table t.desc.table := by
  have hsame : t.desc = s.desc → Change (Names c s.desc) s.desc.table t.desc.table := fun hd => by
    rw [hd]
    exact change_same c (.refl _) rfl rfl
  obtain ⟨now, ret, -, hr⟩ := hs
  cases c with
  | creat name blockNum => exact hsame (vsfsCreat_desc hr)
  | «open» pathname flags => exact vsfsOpen_change hr
  | stat pathname =>
    obtain ⟨⟨r, fre, u⟩, hst, hr⟩ := ExceptLib.bind_eq_ok.mp hr
    cases hr
    exact hsame (vsfsStat_desc hst)
  | close fildes => exact vsfsClose_change hl hr
  | write fildes buf nbyte =>
    obtain ⟨b, e, p, hfind, hp, ⟨_, rfl⟩ | ⟨_, _, a, f, v₁, v₂, hw⟩⟩ := vsfsWrite_cases hr
    · exact hsame rfl
    · rw [hw.result]
      exact change_setOffset rfl hfind hp rfl rfl rfl
  | read fildes buf nbyte =>
    obtain ⟨⟨r, b, u⟩, hrd, hr⟩ := ExceptLib.bind_eq_ok.mp hr
    cases hr
    obtain ⟨_, rfl, _⟩ | ⟨b, e, p, a, f, readed, hfind, hp, _, hd⟩ := vsfsRead_cases hrd
    · exact hsame rfl
    · rw [hd.result]
      exact change_setOffset rfl hfind hp rfl rfl rfl
  | lseek fildes offset whence =>
    obtain ⟨⟨r, u⟩, hl, hr⟩ := ExceptLib.bind_eq_ok.mp hr
    cases hr
    obtain ⟨_, ht, _⟩ | ⟨b, e, p, a, f, s', hs', hfind, hp, _, _, ⟨o, ht, _⟩ | ⟨_, _, info, v, hg⟩⟩ := vsfsLseek_cases hl
    · exact hsame (by rw [ht])
    · rw [ht]
      exact change_setOffset rfl hfind hp rfl rfl rfl
    · have hd : s'.desc = s.desc := by rw [(setInodeReg_eq_ok hs').1]
      rw [hg.result, hd]
      exact change_setOffset rfl hfind hp rfl rfl rfl

/-! ## All processes -/

section

variable {ι : Type} {m m' : Machine ι} {p : ι}

/-- The slots and the nodes of all processes. -/
def Machine.table (m : Machine ι) : Table (ι × Nat) :=
  ⟨m.shared.count, m.shared.opFtable, fun k q => (m.at k.1).desc.table.holds k.2 q⟩

variable [DecidableEq ι]

/-- **What a call of a process does to the table of all**: it names nodes of that process only. -/
theorem Machine.change (hl : ClosesLast c (m.at p)) (hs : Interleaving.Step State.split Step (p, c) m m') :
    Change (fun k => k.1 = p ∧ Names c (m.at p).desc k.2) m.table m'.table := by
  obtain ⟨t, ht, hm⟩ := hs
  have hcount : m'.shared.count = t.desc.count := by rw [hm]; rfl
  have hslot : m'.shared.opFtable = t.desc.opFtable := by rw [hm]; rfl
  -- the nodes of another process are its own
  have hmine : ∀ a q, m'.table.holds (p, a) q ↔ t.desc.table.holds a q := by
    intro a q
    have hself : m'.at p = t := by rw [hm]; exact view_put_self
    show (m'.at p).desc.table.holds a q ↔ _
    rw [hself]
  have hother : ∀ r a q, r ≠ p → (m'.table.holds (r, a) q ↔ m.table.holds (r, a) q) := by
    intro r a q hr
    have hview : m'.at r = State.split.seen t (m.at r) := by rw [hm]; exact view_put_of_ne hr
    show (m'.at r).desc.table.holds a q ↔ _
    rw [hview]
    exact Iff.rfl
  cases ht.change hl with
  | used hc hh ho =>
    refine .used (hcount.trans hc) (fun k q hk => ?_) fun q => ?_
    · obtain ⟨r, a⟩ := k
      by_cases hr : r = p
      · subst hr
        exact hh a q ((hmine a q).mp hk)
      · exact (hother r a q hr).mp hk
    · show m'.shared.opFtable q = _ ∨ _ ∧ (m'.shared.opFtable q).ptrCounter = _
      rw [hslot]
      rcases ho q with he | ⟨⟨a, ha, hn⟩, he⟩
      · exact Or.inl he
      · exact Or.inr ⟨⟨(p, a), ha, rfl, hn⟩, he⟩
  | @taken a₀ hc hh hone ho =>
    refine .taken (k := (p, a₀)) (hcount.trans hc) (fun k q hk => ?_) ((congrArg _ (congrFun hslot _)).trans hone)
      fun q hq => (congrFun hslot q).trans (ho q hq)
    obtain ⟨r, a⟩ := k
    by_cases hr : r = p
    · subst hr
      exact (hh a q ((hmine a q).mp hk)).imp_right fun h => ⟨by rw [h.1], h.2⟩
    · exact Or.inl ((hother r a q hr).mp hk)
  | @given a₀ x hx₀ hn hx h =>
    refine .given (k := (p, a₀)) hx₀ ⟨rfl, hn⟩ hx fun hone => ?_
    obtain ⟨hc, hh, ho⟩ := h hone
    refine ⟨hcount.trans hc, fun k q hk => ?_, fun q hq => (congrFun hslot q).trans (ho q hq)⟩
    obtain ⟨r, a⟩ := k
    by_cases hr : r = p
    · subst hr
      obtain ⟨h1, h2⟩ := hh a q ((hmine a q).mp hk)
      exact ⟨h1, fun he => h2 (congrArg Prod.snd he)⟩
    · exact ⟨(hother r a q hr).mp hk, fun he => hr (congrArg Prod.fst he)⟩

/-- In every interleaving that closes last slots only, from processes without descriptors. -/
theorem Machine.Run.slotted (h0 : s.desc.fds = fun _ => none) (h : Machine.Run ClosesLast (.start ι s) m) : m.table.Slotted := by
  refine h.invariant (P := fun m => m.table.Slotted) ?_ fun l u v hu hok hs => (Machine.change hok hs).slotted hu
  have hno : ∀ k q, ¬(Machine.start ι s).table.holds k q := by
    rintro k q ⟨e, he, _⟩
    rw [Machine.start_at, h0] at he
    cases he
  exact ⟨fun k q hk => absurd hk (hno k q), fun k q hk => absurd hk (hno k q), fun k _ q hk => absurd hk (hno k q)⟩

/-- **Descriptors are isolated** in every interleaving of calls that closes last slots only: each descriptor of each
process has a slot of the table for itself, and a call leaves that of every descriptor as it is, but for the one of its
own process whose number it is given. -/
theorem descriptors_are_isolated (h0 : s.desc.fds = fun _ => none)
    (h : Machine.Run ClosesLast (.start ι s) m) :
    (∀ r a q, (m.at r).desc.table.holds a q → q < m.shared.count) ∧
    (∀ r a r' a' q, (m.at r).desc.table.holds a q → (m.at r').desc.table.holds a' q → r = r' ∧ a = a') ∧
    ∀ p c m', ClosesLast c (m.at p) → Interleaving.Step State.split Step (p, c) m m' →
      ∀ r a q, (m.at r).desc.table.holds a q → ¬(r = p ∧ Names c (m.at p).desc a) →
        q < m'.shared.count ∧ m'.shared.opFtable q = m.shared.opFtable q := by
  have hs := h.slotted h0
  refine ⟨fun r a q hq => hs.inTable (r, a) q hq, fun r a r' a' q hq hq' => ?_, fun p c m' hl hstep r a q hq hn => ?_⟩
  · exact Prod.mk.inj (hs.inj (r, a) (r', a') q hq hq')
  · exact (Machine.change hl hstep).kept hs (k := (r, a)) hq hn

end

/-! ## Two processes -/

/-- One process opens `.`, another one `..`, and one of the two makes a third call. -/
theorem two_open (p : Bool) (c : Call) {f : Desc → Bool}
    (h : (do
      let r ← Call.run 0 (.open dotName oRdwr) (blankVolume 4096)
      let r' ← Call.run 0 (.open dotDotName oRdwr) (State.split.seen r.2 (blankVolume 4096))
      let t ← Call.run 0 c (if p then r'.2 else State.split.seen r'.2 r.2)
      .ok (decide ((r.2.desc.fds 0).map FdTable.ptr = some (some 0) ∧
        (r'.2.desc.fds r.2.desc.brk).map FdTable.ptr = some (some 1)) && f t.2.desc) : M Bool) = .ok true) :
    ∃ (m m' : Machine Bool) (a : Nat), Machine.Run ClosesLast (.start Bool (blankVolume 4096)) m ∧
      Interleaving.Step State.split Step (p, c) m m' ∧ (m.at false).desc.table.holds 0 0 ∧
      (m.at true).desc.table.holds a 1 ∧ f (m'.at p).desc = true := by
  obtain ⟨⟨ro, s₁⟩, ho, h⟩ := ExceptLib.bind_eq_ok.mp h
  obtain ⟨⟨ro', s₂⟩, ho', h⟩ := ExceptLib.bind_eq_ok.mp h
  obtain ⟨⟨rc, s₃⟩, hc, h⟩ := ExceptLib.bind_eq_ok.mp h
  obtain ⟨hnode, htest⟩ := Bool.and_eq_true_iff.mp (Except.ok.inj h)
  obtain ⟨hn, hn'⟩ := of_decide_eq_true hnode
  have hopen : ∀ pathname flags s, ClosesLast (.open pathname flags) s := fun _ _ _ _ _ _ hc => by cases hc
  let m₁ : Machine Bool := (Machine.start Bool (blankVolume 4096)).put State.split false s₁
  let m₂ : Machine Bool := m₁.put State.split true s₂
  have hsee₁ : m₁.at true = State.split.seen s₁ (blankVolume 4096) := view_put_of_ne (by decide)
  have hsee₂ : m₂.at true = s₂ := view_put_self
  have hmine : m₁.at false = s₁ := view_put_self
  have hsee₃ : m₂.at false = State.split.seen s₂ s₁ := by
    rw [← hmine]
    exact view_put_of_ne (by decide)
  have hholds : ∀ {d : Desc} {a q : Nat}, (d.fds a).map FdTable.ptr = some (some q) → d.table.holds a q := fun h => by
    obtain ⟨e, he, hq⟩ := Option.map_eq_some_iff.mp h
    exact ⟨e, he, hq⟩
  have hview : m₂.at p = if p then s₂ else State.split.seen s₂ s₁ := by
    cases p with
    | true => exact hsee₂
    | false => exact hsee₃
  have hstep : Step (.open dotDotName oRdwr) (m₁.at true) s₂ := by
    rw [hsee₁]
    exact ⟨0, ro', by decide, ho'⟩
  have hlast : Step c (m₂.at p) s₃ := by
    rw [hview]
    exact ⟨0, rc, by decide, hc⟩
  refine ⟨m₂, m₂.put State.split p s₃, s₁.desc.brk, ((Run.refl _).snoc (c := (false, .open dotName oRdwr)) (hopen _ _ _)
    ⟨s₁, ⟨0, ro, by decide, ho⟩, rfl⟩).snoc (c := (true, .open dotDotName oRdwr)) (hopen _ _ _) ⟨s₂, hstep, rfl⟩,
    ⟨s₃, hlast, rfl⟩, ?_, ?_, ?_⟩
  · rw [hsee₃]
    exact hholds hn
  · rw [hsee₂]
    exact hholds hn'
  · have hend : Machine.at (m₂.put State.split p s₃) p = s₃ := view_put_self
    rw [hend]
    exact htest

/-- The second process moves its offset, and the slot of the first one stays. -/
theorem descriptors_are_isolated_seek : ∃ m m' : Machine Bool, ((m'.at true).desc.opFtable 1).offset = 1 ∧
    0 < m'.shared.count ∧ m'.shared.opFtable 0 = m.shared.opFtable 0 := by
  obtain ⟨m, m', a, h, hs, hf, -, htest⟩ := two_open true (.lseek 1 1 seekSet)
    (f := fun d => (d.opFtable 1).offset = 1) (by decide +kernel)
  exact ⟨m, m', of_decide_eq_true htest, (descriptors_are_isolated (s := blankVolume 4096) rfl h).2.2 true _ m'
    (fun _ _ _ hc => by cases hc) hs false 0 0 hf fun hn => by cases hn.1⟩

/-- **One process takes a slot away from another**: two processes have opened a file each, and the first one closes its
descriptor. The slot of the second one is then behind the end of the table. -/
theorem closing_moves_anothers_slot : ∃ (m m' : Machine Bool) (a : Nat),
    Machine.Run ClosesLast (.start Bool (blankVolume 4096)) m ∧
    Interleaving.Step State.split Step (false, .close 1) m m' ∧ (m.at true).desc.table.holds a 1 ∧
    ¬1 < m'.shared.count := by
  obtain ⟨m, m', a, h, hs, -, ht, htest⟩ := two_open false (.close 1) (f := fun d => ¬1 < d.count) (by decide +kernel)
  exact ⟨m, m', a, h, hs, ht, of_decide_eq_true htest⟩

end Vsfs
