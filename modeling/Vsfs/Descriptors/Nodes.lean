import Vsfs.Descriptors.Open
import Vsfs.Descriptors.Close

/-!
# The nodes on the heap and the slots they point at

What the calls do to the heap of descriptor nodes, whatever the list is like: a node keeps its slot as long as it is
allocated, and `vsfs_close` gives up one slot.

- `vsfsOpen_nodes`, `Shm.vsfsOpen_nodes`: the nodes that `vsfs_open` leaves;
- `dropSlot_slot`: what is in the slots when one has been given up;
- `vsfsClose_nodes`, `Shm.vsfsClose_nodes`: the nodes and the slots that `vsfs_close` leaves.
-/

set_option autoImplicit false

namespace Vsfs

open Function ByteSeq HeapChain

variable {d d' : Desc} {h h' : Heap FdTable} {a n p q : Nat} {e : FdTable} {fildes ret : Int}

/-! ## Nodes -/

/-- The node at `a` of the heap `h` is `e`, but for the link to the next one. -/
def WasNode (h : Heap FdTable) (a : Nat) (e : FdTable) : Prop := ∃ e₀ next, h a = some e₀ ∧ e = { e₀ with next := next }

theorem WasNode.of_eq (ha : h a = some e) : WasNode h a e := ⟨e, e.next, ha, rfl⟩

/-- The nodes of `h'` are nodes of `h`, linked in another way. -/
def Relinked (h h' : Heap FdTable) : Prop := ∀ a e, h' a = some e → WasNode h a e

theorem Relinked.refl (h : Heap FdTable) : Relinked h h := fun _ _ => .of_eq

theorem Relinked.trans {h'' : Heap FdTable} (h₁ : Relinked h h') (h₂ : Relinked h' h'') : Relinked h h'' := by
  intro a e he
  obtain ⟨e₁, next, he₁, rfl⟩ := h₂ a e he
  obtain ⟨e₀, _, he₀, rfl⟩ := h₁ a e₁ he₁
  exact ⟨e₀, next, he₀, rfl⟩

theorem Relinked.link (ha : h a = some e) (next : Option Nat) : Relinked h (update h a (some { e with next := next })) := by
  intro b e' he'
  rw [update_apply] at he'
  split at he'
  case isTrue hb =>
    cases he'
    exact ⟨e, next, hb ▸ ha, rfl⟩
  case isFalse => exact .of_eq he'

theorem Relinked.free (h : Heap FdTable) (a : Nat) : Relinked h (update h a none) := by
  intro b e he
  rw [update_apply] at he
  split at he
  case isTrue => cases he
  case isFalse => exact .of_eq he

/-! ## Opening -/

/-- The node that is added has no slot yet. -/
theorem addFdTable_nodes (hadd : d.addFdTable = .ok (ret, a, d')) {b : Nat} (hb : d'.fds b = some e) :
    WasNode d.fds b e ∨ e.ptr = none := by
  obtain ⟨rfl, _, ⟨_, _, rfl⟩ | ⟨_, t, tail, _, htail, _, rfl⟩⟩ := addFdTable_cases hadd
  · simp only [update_apply] at hb
    split at hb
    case isTrue => cases hb; exact Or.inr rfl
    case isFalse => exact Or.inl (.of_eq hb)
  · simp only [update_apply] at hb
    split at hb
    case isTrue ht =>
      cases hb
      exact Or.inl ⟨tail, _, ht ▸ htail, rfl⟩
    case isFalse =>
    split at hb
    case isTrue => cases hb; exact Or.inr rfl
    case isFalse => exact Or.inl (.of_eq hb)

theorem freeFdTable_nodes {t : TablePtr} (hf : d.freeFdTable t = .ok d') {b : Nat} (hb : d'.fds b = some e) :
    d.fds b = some e := by
  obtain ⟨cs, _, rfl⟩ := freeFdTable_eq_ok.mp hf
  dsimp only at hb
  split at hb
  case isTrue => cases hb
  case isFalse => exact hb

theorem takeSlot_nodes {inode : Nat} {filePtr : Option Nat} {flags : Int} {b : Nat}
    (hb : (d.takeSlot a inode filePtr flags).fds b = some e) : d.fds b = some e ∨ e.ptr = some d.count := by
  unfold Desc.takeSlot at hb
  simp only [update_apply] at hb
  split at hb
  case isTrue =>
    obtain ⟨_, _, rfl⟩ := Option.map_eq_some_iff.mp hb
    exact Or.inr rfl
  case isFalse => exact Or.inl hb

/-- A node after `vsfs_open` is an old one, or points at no slot, or at the slot that has been taken. -/
def OpenedNode (d : Desc) (ret : Int) (a : Nat) (e : FdTable) : Prop :=
  WasNode d.fds a e ∨ e.ptr = none ∨ ret ≠ -1 ∧ e.ptr = some d.count

theorem OpenedNode.of_added {d₁ : Desc} {fd : Int} {oc : Bool} {b : Nat}
    (hadd : { d with opCounter := oc }.addFdTable = .ok (fd, b, d₁)) (ha : d₁.fds a = some e) :
    OpenedNode d ret a e :=
  (addFdTable_nodes hadd ha).imp_right Or.inl

section

variable {now : Nat} {pathname : CStr} {flags : Int}

/-- **The nodes that `vsfs_open` leaves.** -/
theorem vsfsOpen_nodes {s t : State} (ho : vsfsOpen now pathname flags s = .ok (ret, t)) (ha : t.desc.fds a = some e) :
    OpenedNode s.desc ret a e := by
  unfold vsfsOpen at ho
  dsimp only at ho
  split at ho
  case isTrue =>
    cases ho
    exact Or.inl (.of_eq ha)
  case isFalse =>
  rw [attach_withDesc] at ho
  obtain ⟨⟨fd, b, d⟩, hadd, ho⟩ := ExceptLib.bind_eq_ok.mp ho
  have hcount := (addFdTable_optab hadd).1
  have hpos := addFdTable_pos hadd
  obtain ⟨found, _, ho⟩ := ExceptLib.bind_eq_ok.mp ho
  cases found with
  | none =>
    obtain ⟨d', hfree, ho⟩ := ExceptLib.bind_eq_ok.mp ho
    cases ho
    exact .of_added hadd (freeFdTable_nodes hfree ha)
  | some target =>
    obtain ⟨info, _, ho⟩ := ExceptLib.bind_eq_ok.mp ho
    dsimp only at ho
    split at ho
    case isTrue =>
      obtain ⟨d', hfree, ho⟩ := ExceptLib.bind_eq_ok.mp ho
      cases ho
      exact .of_added hadd (freeFdTable_nodes hfree ha)
    case isFalse =>
      cases ho
      rcases takeSlot_nodes ha with ha | ha
      · exact .of_added hadd ha
      · exact Or.inr (Or.inr ⟨by omega, ha.trans (congrArg some hcount)⟩)

/-- The same for the shared-memory variant. -/
theorem Shm.vsfsOpen_nodes {s t : Shm.State} (ho : Shm.vsfsOpen now pathname flags s = .ok (ret, t))
    (ha : t.desc.fds a = some e) : OpenedNode s.desc ret a e := by
  have hunwind : ∀ {u u' : Shm.State} {d₁ : Desc} {r : Int}, (u.unwind d₁ >>= fun s => Except.ok (-1, s)) = .ok (r, u') →
      u'.desc.fds a = some e → d₁.fds a = some e := by
    intro u u' d₁ r hu ha
    obtain ⟨w, hw, hu⟩ := ExceptLib.bind_eq_ok.mp hu
    obtain ⟨d', hfree, hw⟩ := ExceptLib.bind_eq_ok.mp hw
    cases hw
    cases hu
    exact freeFdTable_nodes hfree ha
  unfold Shm.vsfsOpen at ho
  split at ho
  case isTrue =>
    cases ho
    exact Or.inl (.of_eq ha)
  case isFalse =>
  obtain ⟨⟨fd, b, d⟩, hadd, ho⟩ := ExceptLib.bind_eq_ok.mp ho
  have hcount := (addFdTable_optab hadd).1
  have hpos := addFdTable_pos hadd
  obtain ⟨found, _, ho⟩ := ExceptLib.bind_eq_ok.mp ho
  cases found with
  | none => exact .of_added hadd (hunwind ho ha)
  | some target =>
    simp only at ho
    split at ho
    case isTrue => exact .of_added hadd (hunwind ho ha)
    case isFalse =>
      cases ho
      rcases takeSlot_nodes ha with ha | ha
      · exact .of_added hadd ha
      · exact Or.inr (Or.inr ⟨by omega, ha.trans (congrArg some hcount)⟩)

end

/-! ## Unlinking -/

/-- The loop of `vsfs_close` only sets links, and what it finds has the number looked for. -/
theorem unlinkLoop_nodes {p rm rm' : Option Nat} (hu : unlinkLoop fildes n p h rm = .ok (rm', h'))
    (hrm : ∀ a, rm = some a → ∃ e, h a = some e ∧ (e.index : Int) = fildes) :
    Relinked h h' ∧ ∀ a, rm' = some a → ∃ e, h a = some e ∧ (e.index : Int) = fildes := by
  induction n generalizing h p rm with
  | zero =>
    cases p with
    | none => cases hu; exact ⟨.refl _, hrm⟩
    | some => cases hu
  | succ n ih =>
    cases p with
    | none => cases hu; exact ⟨.refl _, hrm⟩
    | some b =>
      unfold unlinkLoop at hu
      obtain ⟨tmp, htmp, hu⟩ := ExceptLib.bind_eq_ok.mp hu
      obtain ⟨_, ⟨⟩, htmp⟩ := load_eq_ok.mp htmp
      obtain ⟨next, hnext, hu⟩ := ExceptLib.bind_eq_ok.mp hu
      obtain ⟨c, hc, hnext⟩ := load_eq_ok.mp hnext
      split at hu
      case isTrue hm =>
        have hlink := Relinked.link htmp next.next
        -- the node that has been found, in the heap with the new link
        obtain ⟨hre, hfound⟩ := ih hu fun a ha => by
          rw [hc] at ha
          cases ha
          by_cases hcb : c = b
          · subst hcb
            rw [htmp] at hnext
            cases hnext
            exact ⟨_, update_self .., hm⟩
          · exact ⟨next, by rw [update_of_ne hcb, hnext], hm⟩
        refine ⟨hlink.trans hre, fun a ha => ?_⟩
        obtain ⟨e, he, hi⟩ := hfound a ha
        obtain ⟨e₀, _, he₀, rfl⟩ := hlink a e he
        exact ⟨e₀, he₀, hi⟩
      case isFalse => exact ih hu hrm

theorem unlink_nodes {hd : Nat} {tl rm : Option Nat} (hu : d.unlink fildes hd tl = .ok (rm, d')) :
    Relinked d.fds d'.fds ∧ d.SameTable d' ∧ ∀ a, rm = some a → ∃ e, d.fds a = some e ∧ (e.index : Int) = fildes := by
  unfold Desc.unlink at hu
  obtain ⟨first, hf, hu⟩ := ExceptLib.bind_eq_ok.mp hu
  obtain ⟨_, ⟨⟩, hf⟩ := load_eq_ok.mp hf
  split at hu
  case isTrue hm =>
    cases hu
    refine ⟨.refl _, ⟨rfl, rfl, rfl, rfl, rfl⟩, fun a ha => ?_⟩
    cases ha
    exact ⟨first, hf, hm⟩
  case isFalse =>
    obtain ⟨⟨rm', fds⟩, hl, hu⟩ := ExceptLib.bind_eq_ok.mp hu
    cases hu
    obtain ⟨hre, hfound⟩ := unlinkLoop_nodes hl fun a ha => by cases ha
    exact ⟨hre, ⟨rfl, rfl, rfl, rfl, rfl⟩, hfound⟩

/-! ## Giving up a slot -/

/-- The parts of a slot that the calls on a descriptor use. -/
structure OpEntry.Same (x y : OpEntry) : Prop where
  offset : y.offset = x.offset
  inodeNr : y.inodeNr = x.inodeNr
  filePtr : y.filePtr = x.filePtr

theorem OpEntry.Same.refl (x : OpEntry) : x.Same x := ⟨rfl, rfl, rfl⟩

/-- **The slots after one has been given up**: each is what it was, or it is the one given up, and the last slot has
been moved there. -/
theorem dropSlot_slot (d : Desc) (p q : Nat) : (d.opFtable q).Same ((d.dropSlot p).2.opFtable q) ∨
    (d.dropSlot p).1 = true ∧ q = p ∧ (d.opFtable (d.count - 1)).Same ((d.dropSlot p).2.opFtable q) := by
  have hdown : ∀ q, (d.opFtable q).Same
      (update d.opFtable p { d.opFtable p with ptrCounter := (d.opFtable p).ptrCounter - 1 } q) := by
    intro q
    rw [update_apply]
    split
    case isTrue hq =>
      subst hq
      exact ⟨rfl, rfl, rfl⟩
    case isFalse => exact .refl _
  unfold Desc.dropSlot
  by_cases h0 : (d.opFtable p).ptrCounter = 0
  · rw [if_pos h0]
    exact Or.inl (.refl _)
  rw [if_neg h0]
  by_cases h1 : (d.opFtable p).ptrCounter - 1 = 0
  · rw [if_neg (not_not_intro h1)]
    by_cases hc : d.count = 0
    · rw [if_pos hc]
      exact Or.inl (hdown q)
    rw [if_neg hc]
    by_cases hc1 : 1 < d.count
    · rw [if_pos hc1]
      dsimp only
      by_cases hqp : q = p
      · rw [hqp, update_self]
        exact Or.inr ⟨rfl, rfl, hdown _⟩
      · rw [update_of_ne hqp]
        exact Or.inl (hdown q)
    · rw [if_neg hc1]
      exact Or.inl (hdown q)
  · rw [if_pos h1]
    exact Or.inl (hdown q)

/-! ## Closing -/

/-- What `vsfs_close` leaves of the nodes and the slots: all of them, or with the node at `a` freed the slot that it
pointed at may have been given up. -/
structure ClosedNodes (fildes : Int) (d d' : Desc) : Prop where
  nodes : Relinked d.fds d'.fds
  slots : (∀ q, (d.opFtable q).Same (d'.opFtable q)) ∨
    ∃ a e p, d.fds a = some e ∧ (e.index : Int) = fildes ∧ e.ptr = some p ∧ d'.fds a = none ∧
      (d.opFtable (d.count - 1)).Same (d'.opFtable p) ∧ ∀ q, q ≠ p → (d.opFtable q).Same (d'.opFtable q)

theorem ClosedNodes.refl (fildes : Int) (d : Desc) : ClosedNodes fildes d d := ⟨.refl _, Or.inl fun _ => .refl _⟩

/-- The slot of an unlinked node has been given up. -/
theorem ClosedNodes.of_dropped {d₁ d₂ : Desc} {hd : Nat} {tl : Option Nat} (hu : d.unlink fildes hd tl = .ok (some a, d₁))
    (he : d₁.fds a = some e) (hp : e.ptr = some p) (hs : d₂.opFtable = d₁.opFtable) (hc : d₂.count = d₁.count)
    (hd' : d'.opFtable = (d₂.dropSlot p).2.opFtable) (hf : Relinked d₁.fds d'.fds)
    (hfree : (d₂.dropSlot p).1 = true → d'.fds a = none) : ClosedNodes fildes d d' := by
  obtain ⟨hre, hst, hfound⟩ := unlink_nodes hu
  obtain ⟨e₀, he₀, hi⟩ := hfound a rfl
  have hp₀ : e₀.ptr = some p := by
    obtain ⟨e₁, _, he₁, rfl⟩ := hre a e he
    rw [he₀] at he₁
    cases he₁
    exact hp
  refine ⟨hre.trans hf, ?_⟩
  rw [hd']
  have hslot := dropSlot_slot d₂ p
  rw [hs, hc, hst.opFtable, hst.count] at hslot
  rcases hslot p with hsame | ⟨hdrop, -, hmoved⟩
  · refine Or.inl fun q => ?_
    rcases hslot q with hq | ⟨-, rfl, -⟩
    · exact hq
    · exact hsame
  · refine Or.inr ⟨a, e₀, p, he₀, hi, hp₀, hfree hdrop, hmoved, fun q hq => ?_⟩
    rcases hslot q with hq' | ⟨-, hqp, -⟩
    · exact hq'
    · exact absurd hqp hq

/-- **The nodes and the slots that `vsfs_close` leaves.** -/
theorem vsfsClose_nodes {s t : State} (hc : vsfsClose fildes s = .ok (ret, t)) :
    ClosedNodes fildes s.desc t.desc := by
  obtain ⟨_, _, _, rfl⟩ | ⟨hd, tl, rm, d, hsr, hu, hcase⟩ := vsfsClose_cases hc
  · exact .refl ..
  obtain ⟨hre, hst, -⟩ := unlink_nodes hu
  obtain ⟨rfl, -, rfl⟩ | ⟨a, e, p, f, rfl, he, hp, -, hout⟩ := hcase
  · exact ⟨hre, Or.inl fun q => by rw [hst.opFtable]; exact .refl _⟩
  have hfds : ((d.freeFile p).dropSlot p).2.fds = d.fds :=
    (dropSlot_sameList _ p).fds.trans (freeFile_sameList d p).fds
  obtain ⟨hdrop, -, rfl⟩ | ⟨-, -, rfl⟩ := hout
  · refine .of_dropped hu he hp (freeFile_opFtable d p) (freeFile_count d p) rfl ?_ fun h => ?_
    · rw [show ({ s with inodeReg := none, desc := ((d.freeFile p).dropSlot p).2 } : State).desc.fds = d.fds from hfds]
      exact .refl _
    · rw [hdrop] at h
      cases h
  · obtain ⟨next, htab⟩ := unlink_fdTable hu hsr.fdTable
    have htab' : ((d.freeFile p).dropSlot p).2.fdTable = .table next tl := by
      rw [(dropSlot_sameList _ p).fdTable, (freeFile_sameList d p).fdTable, htab]
    obtain ⟨hf, -, -, ho, -, -⟩ := closeLast_desc (s := { s with
      inodeReg := none, desc := ((d.freeFile p).dropSlot p).2 }) htab' a
    dsimp only at hf ho
    rw [hfds] at hf
    refine .of_dropped hu he hp (freeFile_opFtable d p) (freeFile_count d p) ho ?_ fun _ => ?_
    · rw [hf]
      exact .free _ _
    · rw [hf]
      exact update_self ..

/-- The same for the shared-memory variant. -/
theorem Shm.vsfsClose_nodes {s t : Shm.State} (hc : Shm.vsfsClose fildes s = .ok (ret, t)) :
    ClosedNodes fildes s.desc t.desc := by
  unfold Shm.vsfsClose at hc
  split at hc
  case h_1 => cases hc; exact .refl ..
  case h_2 => cases hc; exact .refl ..
  case h_3 => cases hc
  case h_4 hd tl ht =>
  obtain ⟨_, _, hc⟩ := ExceptLib.bind_eq_ok.mp hc
  split at hc
  case isTrue => cases hc; exact .refl ..
  case isFalse =>
  obtain ⟨⟨rm, d⟩, hu, hc⟩ := ExceptLib.bind_eq_ok.mp hc
  obtain ⟨hre, hst, -⟩ := unlink_nodes hu
  cases rm with
  | none =>
    cases hc
    exact ⟨hre, Or.inl fun q => by rw [hst.opFtable]; exact .refl _⟩
  | some a =>
    obtain ⟨e, he, hc⟩ := ExceptLib.bind_eq_ok.mp hc
    obtain ⟨_, ⟨⟩, he⟩ := load_eq_ok.mp he
    obtain ⟨p, hp, hc⟩ := ExceptLib.bind_eq_ok.mp hc
    have hp := slot_eq_ok.mp hp
    have hfds := (dropSlot_sameList d p).fds
    split at hc
    case h_1 d' hdrop =>
      cases hc
      refine .of_dropped hu he hp rfl rfl (by rw [hdrop]) ?_ fun h => ?_
      · rw [hdrop] at hfds
        rw [show ({ s with desc := d' } : Shm.State).desc.fds = d.fds from hfds]
        exact .refl _
      · rw [hdrop] at h
        cases h
    case h_2 d' hdrop =>
      cases hc
      obtain ⟨next, htab⟩ := unlink_fdTable hu ht
      have htab' : d'.fdTable = .table next tl := by
        have := (dropSlot_sameList d p).fdTable
        rw [hdrop] at this
        exact this.trans htab
      obtain ⟨hf, -, -, ho, -⟩ := Shm.closeLast_desc (s := { s with desc := d' }) htab' a
      rw [hdrop] at hfds
      dsimp only at hf ho hfds
      rw [hfds] at hf
      refine .of_dropped hu he hp rfl rfl (by rw [ho, hdrop]) ?_ fun _ => ?_
      · rw [hf]
        exact .free _ _
      · rw [hf]
        exact update_self ..

end Vsfs
