import Vsfs.Volume.Mirror

/-!
# The descriptor list in every state

Whatever calls a process makes, the nodes of its list have consecutive numbers, the list is no longer than the count of
open files, and the file object of a slot that has been given up is freed: so `vsfs_close` never stops half way.

- `dropSlot_spent`: giving up a slot whose counter is not zero;
- `Listed.step`, `Reached.listed`: every call keeps the list, in every state reached;
- `closed_descriptors_rejected_iff`: which of the calls on a descriptor that is not open are rejected cleanly.
-/

set_option autoImplicit false

namespace Vsfs

open Function ByteSeq HeapChain

variable {s t : State} {d d' : Desc} {now p : Nat} {fildes ret : Int}

/-! ## The invariant -/

/-- The descriptor list, the count of open files and the slots that have been given up. -/
structure Desc.Listed (d : Desc) : Prop where
  header : d.fdTable ≠ .freed
  count : d.count ≤ opLimit
  list : ∃ ks, d.Holds ks ∧ Numbered ks ∧ ks.length ≤ d.count ∧ (∀ k, k ∈ ks → k.2 ≠ none) ∧
    (ks ≠ [] → d.opCounter = true)
  spent : ∀ p, (d.opFtable p).ptrCounter = 0 → ∀ a, (d.opFtable p).filePtr = some a → a < d.brk ∧ d.files a = none
  fresh : ∀ a, d.brk ≤ a → d.files a = none

/-- Objects lie below the break. -/
theorem Desc.Listed.old {a : Nat} {f : File} (h : d.Listed) (hf : d.files a = some f) : a < d.brk := by
  by_contra hlt
  rw [h.fresh a (by omega)] at hf
  cases hf

/-- A file object that a slot in use points at is changed, and an offset. -/
theorem Desc.Listed.modFile {a o : Nat} {f g : File} (h : d.Listed) (hg : d.files a = some g) :
    ((d.modFile a f).setOffset p o).Listed := by
  obtain ⟨ks, hk, hn, hl, hp, ho⟩ := h.list
  have hfiles : ∀ b, b ≠ a → ((d.modFile a f).setOffset p o).files b = d.files b := fun b hb => update_of_ne hb ..
  refine ⟨h.header, h.count, ⟨ks, hk.congr rfl rfl rfl, hn, hl, hp, ho⟩, fun q hq b hb => ?_, fun b hb => ?_⟩
  rotate_left
  · have := h.old hg
    rw [hfiles b (by rintro rfl; exact absurd hb (by show ¬d.brk ≤ b; omega))]
    exact h.fresh b hb
  have hslot : ((d.modFile a f).setOffset p o).opFtable q =
      { d.opFtable q with offset := (((d.modFile a f).setOffset p o).opFtable q).offset } := by
    simp only [Desc.setOffset, Desc.modFile, update_apply]
    split
    case isTrue hqp => rw [hqp]
    case isFalse => rfl
  rw [hslot] at hq hb
  obtain ⟨hlt, hnone⟩ := h.spent q hq b hb
  have hba : b ≠ a := by
    rintro rfl
    rw [hg] at hnone
    cases hnone
  exact ⟨hlt, by rw [hfiles b hba, hnone]⟩

theorem Desc.Listed.setOffset {o : Nat} (h : d.Listed) {a : Nat} {g : File} (hg : d.files a = some g) :
    (d.setOffset p o).Listed := by
  have hd : (d.setOffset p o) = (d.modFile a g).setOffset p o := by
    simp only [Desc.modFile, Desc.setOffset, ← hg, update_eq_self]
  rw [hd]
  exact h.modFile hg

/-! ## Opening -/

/-- `vsfs_open` only adds to the heap. -/
theorem vsfsOpen_files {pathname : CStr} {flags : Int} (h : vsfsOpen now pathname flags s = .ok (ret, t)) :
    s.desc.brk ≤ t.desc.brk ∧ ∀ a, a < s.desc.brk ∨ t.desc.brk ≤ a → t.desc.files a = s.desc.files a := by
  unfold vsfsOpen at h
  dsimp only at h
  split at h
  case isTrue hlen =>
    cases h
    exact ⟨Nat.le_refl _, fun _ _ => rfl⟩
  case isFalse hlen =>
  rw [attach_withDesc] at h
  obtain ⟨⟨fd, a, d⟩, hadd, h⟩ := ExceptLib.bind_eq_ok.mp h
  obtain ⟨_, _, hbrk⟩ := addFdTable_optab hadd
  have hfiles := addFdTable_files hadd
  dsimp only [initBasePtr_desc] at hbrk hfiles h
  obtain ⟨found, _, h⟩ := ExceptLib.bind_eq_ok.mp h
  have hnew : ∀ {info : File} {x : Nat}, x < s.desc.brk ∨ d.brk + 1 ≤ x →
      update d.files d.brk (some info) x = s.desc.files x := fun hx => by
    rw [update_of_ne (by omega), hfiles]
  cases found with
  | none =>
    obtain ⟨d', hfree, h⟩ := ExceptLib.bind_eq_ok.mp h
    obtain ⟨cs, _, rfl⟩ := freeFdTable_eq_ok.mp hfree
    cases h
    exact ⟨by dsimp only; omega, fun x _ => congrFun hfiles x⟩
  | some target =>
    obtain ⟨info, _, h⟩ := ExceptLib.bind_eq_ok.mp h
    split at h
    case isTrue =>
      obtain ⟨d', hfree, h⟩ := ExceptLib.bind_eq_ok.mp h
      obtain ⟨cs, _, rfl⟩ := freeFdTable_eq_ok.mp hfree
      cases h
      exact ⟨by dsimp only; omega, fun x hx => hnew hx⟩
    case isFalse =>
      cases h
      exact ⟨by dsimp only [Desc.takeSlot]; omega, fun x hx => hnew hx⟩

/-- `vsfs_open` appends a node, or leaves no list. -/
theorem Desc.Listed.open {pathname : CStr} {flags : Int} (h : s.desc.Listed)
    (ho : vsfsOpen now pathname flags s = .ok (ret, t)) : t.desc.Listed := by
  obtain ⟨hbrk, hold⟩ := vsfsOpen_files ho
  have hspent : ∀ q, (s.desc.opFtable q).ptrCounter = 0 → ∀ a, (s.desc.opFtable q).filePtr = some a →
      a < t.desc.brk ∧ t.desc.files a = none := fun q hq a ha => by
    obtain ⟨hlt, hnone⟩ := h.spent q hq a ha
    exact ⟨by omega, by rw [hold a (Or.inl hlt), hnone]⟩
  have hfresh : ∀ a, t.desc.brk ≤ a → t.desc.files a = none := fun a ha => by
    rw [hold a (Or.inr ha), h.fresh a (by omega)]
  obtain ⟨_, _, rfl⟩ | ⟨_, fd, a, d, hadd, ⟨_, hu⟩ | ⟨target, info, _, _, hlim, _, hres⟩⟩ := vsfsOpen_cases ho
  · exact h
  · refine ⟨by rw [hu.fdTable]; simp, by rw [hu.count]; exact h.count, ⟨[], ?_, numbered_nil, Nat.zero_le _, by simp,
      fun hne => absurd rfl hne⟩, ?_, hfresh⟩
    · exact Desc.holds_nil (by rw [hu.fdTable]; rfl)
    · rw [hu.opFtable]
      exact hspent
  obtain ⟨ks, hk, hn, hl, hp, _⟩ := h.list
  obtain ⟨hcount, hop, _⟩ := addFdTable_optab hadd
  dsimp only at hcount hop
  have hdesc : t.desc = Desc.takeSlot { d with brk := d.brk + 1, files := update d.files d.brk (some info) } a target
      (some d.brk) flags := by rw [hres]
  obtain ⟨hk', _⟩ := hk.opened { d with brk := d.brk + 1, files := update d.files d.brk (some info) } target
    (some d.brk) flags hadd rfl rfl (Nat.le_succ _) hcount
  have hcnt : t.desc.count = s.desc.count + 1 := by
    rw [hdesc]
    exact congrArg (· + 1) hcount
  refine ⟨?_, by rw [hcnt]; omega, ⟨_, hdesc ▸ hk', hn.opened _, by rw [hcnt]; simp; omega, fun k hkm => ?_,
    fun _ => ?_⟩, fun q hq => ?_, hfresh⟩
  · rw [hdesc]
    obtain ⟨_, _, ⟨_, _, rfl⟩ | ⟨_, _, _, _, _, _, rfl⟩⟩ := addFdTable_cases hadd <;> simp [Desc.takeSlot]
  · rcases List.mem_append.mp hkm with hkm | hkm
    · exact hp k hkm
    · rw [List.mem_singleton.mp hkm]
      simp
  · rw [hdesc]
    obtain ⟨_, _, ⟨_, _, rfl⟩ | ⟨_, _, _, _, _, _, rfl⟩⟩ := addFdTable_cases hadd <;> rfl
  · -- the slot that has been taken is in use
    have hslot : t.desc.opFtable = update s.desc.opFtable s.desc.count ⟨0, target, 1, 0, some d.brk⟩ := by
      rw [hdesc]
      simp only [Desc.takeSlot, hop, hcount]
    rw [hslot, update_apply] at hq ⊢
    split at hq
    case isTrue => exact absurd hq Nat.one_ne_zero
    case isFalse hne =>
      rw [if_neg hne]
      exact hspent q hq

/-! ## Closing -/

/-- **Giving up a slot** whose counter is not zero: the slots whose counter is zero afterwards point at the file object
of that slot or at one that such a slot pointed at before. -/
theorem dropSlot_spent (hp : (d.opFtable p).ptrCounter ≠ 0) (hc : d.count ≠ 0) :
    (d.dropSlot p).1 = true ∧ d.count ≤ (d.dropSlot p).2.count + 1 ∧ (d.dropSlot p).2.count ≤ d.count ∧
    ∀ q, ((d.dropSlot p).2.opFtable q).ptrCounter = 0 →
      ((d.dropSlot p).2.opFtable q).filePtr = (d.opFtable p).filePtr ∨
      ∃ r, (d.opFtable r).ptrCounter = 0 ∧ ((d.dropSlot p).2.opFtable q).filePtr = (d.opFtable r).filePtr := by
  -- the slots after the counter has been taken down
  have hdown : ∀ q, (update d.opFtable p { d.opFtable p with ptrCounter := (d.opFtable p).ptrCounter - 1 } q).ptrCounter =
      0 → (update d.opFtable p { d.opFtable p with ptrCounter := (d.opFtable p).ptrCounter - 1 } q).filePtr =
        (d.opFtable p).filePtr ∨ ∃ r, (d.opFtable r).ptrCounter = 0 ∧
          (update d.opFtable p { d.opFtable p with ptrCounter := (d.opFtable p).ptrCounter - 1 } q).filePtr =
            (d.opFtable r).filePtr := by
    intro q hq
    rw [update_apply] at hq ⊢
    split at hq
    case isTrue hqp =>
      rw [if_pos hqp]
      exact Or.inl rfl
    case isFalse hqp =>
      rw [if_neg hqp]
      exact Or.inr ⟨q, hq, rfl⟩
  unfold Desc.dropSlot
  rw [if_neg hp]
  by_cases h0 : (d.opFtable p).ptrCounter - 1 = 0
  · rw [if_neg (not_not_intro h0), if_neg hc]
    by_cases h1 : 1 < d.count
    · rw [if_pos h1]
      refine ⟨rfl, by dsimp only; omega, Nat.sub_le _ _, fun q hq => ?_⟩
      dsimp only at hq ⊢
      by_cases hqp : q = p
      · rw [hqp, update_self] at hq ⊢
        exact hdown _ hq
      · rw [update_of_ne hqp] at hq ⊢
        exact hdown q hq
    · rw [if_neg h1]
      exact ⟨rfl, by dsimp only; omega, Nat.sub_le _ _, hdown⟩
  · rw [if_pos h0]
    exact ⟨rfl, Nat.le_succ _, Nat.le_refl _, hdown⟩

/-- Freeing a file object adds none. -/
theorem freeFile_freed {a : Nat} (h : d.files a = none ∨ (d.opFtable p).filePtr = some a) :
    (d.freeFile p).files a = none := by
  unfold Desc.freeFile
  cases hf : (d.opFtable p).filePtr with
  | none =>
    rw [hf] at h
    exact h.resolve_right (by simp)
  | some f =>
    dsimp only
    rw [update_apply]
    split
    · rfl
    case isFalse hne =>
      refine h.resolve_right fun he => hne ?_
      rw [hf, Option.some.injEq] at he
      exact he.symm

theorem Desc.Holds.nil_of_head {ks : List (Nat × Option Nat)} (h : d.Holds ks) (hh : d.fdTable.head = none) :
    ks = [] := by
  obtain ⟨as, hl, hk, _⟩ := h
  have hch := hl.chain
  rw [hh] at hch
  obtain rfl := hch.eq_nil_iff.mpr rfl
  simpa [Desc.column] using hk.symm

/-- What `vsfs_close` finds: a descriptor that is in the list, first or last, whose slot it gives up. -/
theorem Desc.Listed.closed (h : s.desc.Listed) (hc : vsfsClose fildes s = .ok (ret, t)) :
    (s.desc.Holds [] ∧ ret = -1 ∧ t = { s with inodeReg := none }) ∨
    ∃ hd tl b d p k ks', s.desc.Searched hd tl ∧ s.desc.unlink fildes hd tl = .ok (some b, d) ∧
      (s.desc.Holds (k :: ks') ∨ s.desc.Holds (ks' ++ [k])) ∧ (k.1 : Int) = fildes ∧ k.2 = some p ∧
      s.desc.SameTable d ∧ (s.desc.opFtable p).ptrCounter ≠ 0 ∧ (∃ f, load s.desc.files (s.desc.opFtable p).filePtr = .ok f) ∧
      t.desc.Holds ks' ∧ ret = 0 ∧
      t = { s with inodeReg := none, desc := ((d.freeFile p).dropSlot p).2 }.closeLast b := by
  obtain ⟨ks, hk, hn, hl, hp, hoc⟩ := h.list
  have hnd : (ks.map Prod.fst).Nodup := hn.nodup (by
    have := h.count
    unfold opLimit at this
    omega)
  obtain ⟨hno, _, hret, ht⟩ | ⟨hd, tl, rm, d, hsr, hu, hcase⟩ := vsfsClose_cases hc
  · -- a list that is not searched is empty
    refine Or.inl ⟨?_, hret, ht⟩
    by_cases hks : ks = []
    · exact hks ▸ hk
    exfalso
    obtain ⟨as, hlist, hcol, _⟩ := id hk
    have hch := hlist.chain
    have hne : as ≠ [] := by
      rintro rfl
      exact hks (by simpa [Desc.column] using hcol.symm)
    cases htab : s.desc.fdTable with
    | null => rw [htab] at hch; exact hne (hch.eq_nil_iff.mpr rfl)
    | freed => exact h.header htab
    | table head tl =>
      rw [htab] at hch
      have hch' : Chain FdTable.next s.desc.fds head as := hch
      cases hch' with
      | nil => exact hne rfl
      | @cons a e _ he _ => exact hno a tl ⟨htab, hoc hks, e, he, hlist.paths a (by simp) e he⟩
  obtain ⟨b, k, ks', rfl, hkk, hfd, hst, ⟨next, htab⟩, hkey, hrest⟩ := hk.unlinked hnd hsr.fdTable hu
  obtain ⟨hno, _⟩ | ⟨b', e, p, f, hb', he, hpt, hload, hout⟩ := hcase
  · cases hno
  cases hb'
  have hk2 : k.2 = some p := by
    rw [he, Option.map_some, Option.some.injEq] at hkey
    rw [← hpt]
    exact (congrArg Prod.snd hkey).symm
  -- the file object of the slot is live, so the counter of the slot is not zero
  rw [hst.opFtable, hst.files] at hload
  obtain ⟨a, hfp, hlive⟩ := load_eq_ok.mp hload
  have hcounter : (s.desc.opFtable p).ptrCounter ≠ 0 := fun h0 => by
    rw [(h.spent p h0 a hfp).2] at hlive
    cases hlive
  have hcount : (d.freeFile p).count ≠ 0 := by
    rw [freeFile_count, hst.count]
    rcases hkk with rfl | rfl <;> simp at hl <;> omega
  obtain ⟨hdrop, _, _, _⟩ := dropSlot_spent (p := p) (by rw [freeFile_opFtable, hst.opFtable]; exact hcounter) hcount
  obtain ⟨hfail, _⟩ | ⟨_, hret, rfl⟩ := hout
  · rw [hdrop] at hfail
    cases hfail
  obtain ⟨hcl, _⟩ := closedFrom_closeLast s htab b p
  exact Or.inr ⟨hd, tl, b, d, p, k, ks', hsr, hu, by rcases hkk with rfl | rfl <;> simp [hk], hfd, hk2, hst,
    hcounter, ⟨f, hload⟩, hrest _ _ _ hcl, hret, rfl⟩

theorem Desc.Holds.unique {ks ks' : List (Nat × Option Nat)} (h : d.Holds ks) (h' : d.Holds ks')
    (hf : d.fdTable ≠ .freed) : ks = ks' := by
  obtain ⟨cs, hr, hc⟩ := h.reachable hf
  obtain ⟨cs', hr', hc'⟩ := h'.reachable hf
  rw [hr, Except.ok.injEq] at hr'
  rw [← hc, ← hc', hr']

/-- `vsfs_close` takes a node and a slot away. -/
theorem Desc.Listed.close (h : s.desc.Listed) (hc : vsfsClose fildes s = .ok (ret, t)) : t.desc.Listed := by
  obtain ⟨_, _, rfl⟩ | ⟨hd, tl, b, d, p, k, ks', hsr, hu, hks, _, _, hst, hcounter, ⟨f, hload⟩, hk', _, rfl⟩ := h.closed hc
  · exact ⟨h.header, h.count, h.list, h.spent, h.fresh⟩
  obtain ⟨ks, hk, hn, hl, hp, hoc⟩ := h.list
  have hkk : ks = k :: ks' ∨ ks = ks' ++ [k] :=
    hks.imp (fun hk' => hk.unique hk' h.header) fun hk' => hk.unique hk' h.header
  have hlen : ks'.length + 1 = ks.length := by rcases hkk with rfl | rfl <;> simp
  have hsub : ∀ x, x ∈ ks' → x ∈ ks := fun x hx => by
    rcases hkk with rfl | rfl
    · exact List.mem_cons_of_mem _ hx
    · exact List.mem_append_left _ hx
  obtain ⟨next, htab⟩ := unlink_fdTable hu hsr.fdTable
  have htab' : ((d.freeFile p).dropSlot p).2.fdTable = .table next tl := by
    rw [(dropSlot_sameList _ p).fdTable, (freeFile_sameList d p).fdTable, htab]
  obtain ⟨_, hbrk, hcnt, hop, hfiles, hend⟩ := closeLast_desc (s := { s with
    inodeReg := none, desc := ((d.freeFile p).dropSlot p).2 }) htab' b
  dsimp only at hbrk hcnt hop hfiles
  obtain ⟨_, hlow, hhigh, hspent⟩ := dropSlot_spent (d := d.freeFile p) (p := p)
    (by rw [freeFile_opFtable, hst.opFtable]; exact hcounter) (by rw [freeFile_count, hst.count]; omega)
  rw [freeFile_count, hst.count] at hlow hhigh
  rw [freeFile_opFtable, hst.opFtable] at hspent
  rw [(dropSlot_sameList _ p).brk, (freeFile_sameList d p).brk, hst.brk] at hbrk
  rw [dropSlot_files] at hfiles
  have hcount := h.count
  -- what was freed or fresh still is, and the object of the slot has been freed
  have hfreed : ∀ a, s.desc.files a = none ∨ (s.desc.opFtable p).filePtr = some a → (d.freeFile p).files a = none :=
    fun a ha => freeFile_freed (by rw [hst.files, hst.opFtable]; exact ha)
  refine ⟨?_, by omega, ⟨ks', hk', hn.closed hkk, by omega, fun x hx => hp x (hsub x hx), fun hne => ?_⟩,
    fun q hq a ha => ?_, fun a ha => ?_⟩
  · rcases hend with ⟨_, hh⟩ | ⟨_, hh, _⟩ <;> rw [hh] <;> simp
  · rcases hend with ⟨_, hh⟩ | ⟨_, _, hh⟩
    · exact absurd (hk'.nil_of_head (by rw [hh]; rfl)) hne
    · rw [hh]
      dsimp only
      rw [dropSlot_opCounter, freeFile_opCounter, hst.opCounter]
      exact hsr.opCounter
  · rw [hop] at hq ha
    rw [hbrk, hfiles]
    rcases hspent q hq with hpq | ⟨r, hr, hpr⟩
    · rw [hpq] at ha
      obtain ⟨a', ha', hlive⟩ := load_eq_ok.mp hload
      rw [ha, Option.some.injEq] at ha'
      subst ha'
      exact ⟨h.old hlive, hfreed a (Or.inr ha)⟩
    · rw [hpr] at ha
      obtain ⟨hlt, hnone⟩ := h.spent r hr a ha
      exact ⟨hlt, hfreed a (Or.inl hnone)⟩
  · rw [hfiles]
    exact hfreed a (Or.inl (h.fresh a (by rw [hbrk] at ha; exact ha)))

/-! ## Runs -/

/-- `vsfs_creat` does not look at the descriptors. -/
theorem vsfsCreat_desc {name : CStr} {blockNum : UInt32} (h : vsfsCreat now name blockNum s = .ok (ret, t)) :
    t.desc = s.desc := by
  rcases vsfsCreat_cases h with ⟨_, hrej⟩ | ⟨_, _, _, _, _, hent⟩
  · cases hrej with
    | tooLong _ ht =>
      rw [ht]
      rfl
    | duplicate _ _ ht =>
      rw [ht]
      exact attach_desc s
  · cases hent <;> subst_vars <;> exact attach_desc s

/-- **Every call** keeps the list. -/
theorem Desc.Listed.step {c : Call} (h : s.desc.Listed) (hs : Step c s t) : t.desc.Listed := by
  obtain ⟨now, ret, _, hr⟩ := hs
  cases c with
  | creat name blockNum => exact (vsfsCreat_desc hr).symm ▸ h
  | «open» pathname flags => exact h.open hr
  | stat pathname =>
    obtain ⟨⟨r, fre, u⟩, hst, hr⟩ := ExceptLib.bind_eq_ok.mp hr
    cases hr
    exact (vsfsStat_desc hst).symm ▸ h
  | close fildes => exact h.close hr
  | write fildes buf nbyte =>
    obtain ⟨_, _, p, _, _, ⟨_, rfl⟩ | ⟨_, _, a, f, v₁, v₂, hw⟩⟩ := vsfsWrite_cases hr
    · exact h
    · rw [hw.result]
      rcases hw.alloc with ⟨_, _, ⟨g, hg⟩, _⟩ | ⟨_, _, hf⟩
      · exact h.modFile hg
      · exact h.modFile hf
  | read fildes buf nbyte =>
    obtain ⟨⟨r, b, u⟩, hrd, hr⟩ := ExceptLib.bind_eq_ok.mp hr
    cases hr
    obtain ⟨_, rfl, _⟩ | ⟨_, _, p, a, f, readed, _, _, _, hd⟩ := vsfsRead_cases hrd
    · exact h
    · rw [hd.result]
      exact h.modFile hd.file
  | lseek fildes offset whence =>
    obtain ⟨⟨r, u⟩, hl, hr⟩ := ExceptLib.bind_eq_ok.mp hr
    cases hr
    obtain ⟨_, hres, _⟩ | ⟨b, e, p, a, f, s', hs', _, _, _, hfile, ⟨o, hres, _⟩ | ⟨_, _, info, v, hg⟩⟩ :=
      vsfsLseek_cases hl
    · rw [hres]
      exact h
    · rw [hres]
      exact h.setOffset hfile
    · rw [hg.result, (setInodeReg_eq_ok hs').1]
      exact h.modFile hfile

theorem Desc.Listed.initial : Desc.initial.Listed :=
  ⟨TablePtr.noConfusion, Nat.zero_le _, ⟨[], Desc.holds_nil rfl, numbered_nil, Nat.zero_le _, by simp, fun h => absurd rfl h⟩,
    fun _ _ _ ha => (by cases ha), fun _ _ => rfl⟩

/-- **The list in every state** that calls lead to. -/
theorem ReachedBy.listed {ok : Call → State → Prop} (h : ReachedBy ok s) : s.desc.Listed :=
  h.invariant (P := fun u => u.desc.Listed) (fun _ _ _ _ _ => Desc.Listed.initial) fun _ _ _ hP _ hs => hP.step hs

/-! ## Descriptors that are not open -/

/-- The number `fd` is that of an open descriptor. -/
def Desc.IsOpen (d : Desc) (fd : Int) : Prop := ∃ n p, d.Opened n p ∧ (n : Int) = fd

theorem Desc.Listed.isOpen_iff {ks : List (Nat × Option Nat)} (h : d.Listed) (hk : d.Holds ks) {fd : Int} :
    d.IsOpen fd ↔ ∃ k, k ∈ ks ∧ (k.1 : Int) = fd := by
  obtain ⟨ks', hk', _, _, hp, _⟩ := h.list
  obtain rfl := hk.unique hk' h.header
  constructor
  · rintro ⟨n, p, ho, hn⟩
    exact ⟨(n, some p), (hk.opened_iff h.header).mp ho, hn⟩
  · rintro ⟨⟨n, q⟩, hm, hn⟩
    obtain ⟨p, rfl⟩ := Option.ne_none_iff_exists'.mp (hp _ hm)
    exact ⟨n, p, (hk.opened_iff h.header).mpr hm, hn⟩

/-- The counter is set while a descriptor is open. -/
theorem Desc.Listed.opCounter_of_isOpen {fd : Int} (h : d.Listed) (ho : d.IsOpen fd) : d.opCounter = true := by
  obtain ⟨ks, hk, _, _, _, hoc⟩ := h.list
  obtain ⟨k, hm, _⟩ := (h.isOpen_iff hk).mp ho
  exact hoc (List.ne_nil_of_mem hm)

/-- The search for a descriptor that is not open finds none. -/
theorem Desc.Listed.findTarget_none (h : d.Listed) {fd : Int} (hfd : ¬d.IsOpen fd) : d.findTarget fd = .ok none := by
  obtain ⟨ks, hk, _⟩ := h.list
  obtain ⟨cs, hr, hc⟩ := hk.reachable h.header
  unfold Desc.findTarget
  rw [hr]
  refine congrArg Except.ok (List.find?_eq_none.mpr fun c hm he => hfd ?_)
  exact (h.isOpen_iff hk).mpr ⟨c.2.key, hc ▸ List.mem_map_of_mem (List.mem_reverse.mp hm), of_decide_eq_true he⟩

/-- The descriptor that a call is made on. -/
def Call.descriptor : Call → Option Int
  | .close fildes | .write fildes _ _ | .read fildes _ _ | .lseek fildes _ _ => some fildes
  | _ => none

/-- The call returns -1 and leaves everything as it was. -/
def RejectedCleanly (c : Call) (s : State) : Prop := ∀ now, c.run now s = .ok (-1, s)

/-- With a descriptor open, closing one that is not runs past the end of the list. -/
theorem Desc.Listed.close_not_open {fd fd' : Int} (h : s.desc.Listed) (ho : s.desc.IsOpen fd')
    (hfd : ¬s.desc.IsOpen fd) : vsfsClose fd s ≠ .ok (ret, t) := by
  intro hc
  obtain ⟨hk, _⟩ | ⟨_, _, _, _, _, k, ks', _, _, hk, hkf, _⟩ := h.closed hc
  · obtain ⟨k, hm, _⟩ := (h.isOpen_iff hk).mp ho
    cases hm
  · rcases hk with hk | hk
    · exact hfd ((h.isOpen_iff hk).mpr ⟨k, by simp, hkf⟩)
    · exact hfd ((h.isOpen_iff hk).mpr ⟨k, by simp, hkf⟩)

/-- `vsfs_write` reads the slot of a descriptor that it has not found. -/
theorem Desc.Listed.write_not_open {fd : Int} (h : s.desc.Listed) (hfd : ¬s.desc.IsOpen fd) (now : Nat) (buf : Bytes)
    (nbyte : UInt64) : vsfsWrite now fd buf nbyte s = .error .nullDeref := by
  unfold vsfsWrite
  rw [h.findTarget_none hfd]
  rfl

/-- **Which calls on a descriptor that is not open are rejected cleanly**, some descriptor being open: `vsfs_read` is,
`vsfs_lseek` is unless it sets `inode_reg`, `vsfs_write` and `vsfs_close` are not. -/
theorem closed_descriptors_rejected_iff {c : Call} {fd fd' : Int} (h : Reached s) (ho : s.desc.IsOpen fd')
    (hfd : ¬s.desc.IsOpen fd) (hc : c.descriptor = some fd) :
    RejectedCleanly c s ↔
      (∃ buf nbyte, c = .read fd buf nbyte) ∨ (∃ offset whence, c = .lseek fd offset whence) ∧ s.inodeReg ≠ none := by
  have hl := ReachedBy.listed h
  have hfind := hl.findTarget_none hfd
  have hoc := hl.opCounter_of_isOpen ho
  cases c with
  | creat | «open» | stat => cases hc
  | close fildes =>
    cases hc
    refine ⟨fun hr => absurd (hr 0) (hl.close_not_open ho hfd), ?_⟩
    rintro (⟨_, _, h⟩ | ⟨⟨_, _, h⟩, _⟩) <;> cases h
  | write fildes buf nbyte =>
    cases hc
    refine ⟨fun hr => ?_, ?_⟩
    · have h0 := (hl.write_not_open hfd 0 buf nbyte).symm.trans (hr 0)
      cases h0
    · rintro (⟨_, _, h⟩ | ⟨⟨_, _, h⟩, _⟩) <;> cases h
  | read fildes buf nbyte =>
    cases hc
    refine ⟨fun _ => Or.inl ⟨buf, nbyte, rfl⟩, fun _ now => ?_⟩
    simp only [Call.run, vsfsRead, hoc, hfind, ExceptLib.ok_bind, Bool.true_eq_false, if_false]
  | lseek fildes offset whence =>
    cases hc
    constructor
    · intro hr
      refine Or.inr ⟨⟨offset, whence, rfl⟩, fun hno => ?_⟩
      obtain ⟨⟨r, u⟩, hlk, hr⟩ := ExceptLib.bind_eq_ok.mp (hr 0)
      obtain rfl := (Prod.mk.inj (Except.ok.inj hr)).2
      -- the call has set `inode_reg`
      unfold vsfsLseek at hlk
      rw [hoc, if_neg (by simp)] at hlk
      obtain ⟨s', hs', hlk⟩ := ExceptLib.bind_eq_ok.mp hlk
      obtain ⟨heq, hset⟩ := setInodeReg_eq_ok hs'
      rw [heq] at hlk
      simp only [hfind, ExceptLib.ok_bind] at hlk
      have hreg : s'.inodeReg = u.inodeReg := congrArg (fun r => r.2.inodeReg) (Except.ok.inj hlk)
      exact hset (hreg.trans hno)
    · rintro (⟨_, _, h⟩ | ⟨_, hset⟩)
      · cases h
      intro now
      obtain ⟨m, hm⟩ := Option.ne_none_iff_exists'.mp hset
      simp only [Call.run, vsfsLseek, State.setInodeReg, hoc, hm, hfind, ExceptLib.ok_bind, Bool.true_eq_false,
        if_false, if_true]

/-- The root directory opened on a blank volume. -/
theorem opened_dot : ∃ s, Reached s ∧ Call.run 0 (.open dotName oRdwr) (blankVolume 4096) = .ok (1, s) ∧
    ∀ fd, s.desc.IsOpen fd ↔ fd = 1 := by
  have h : (do
      let r ← Call.run 0 (.open dotName oRdwr) (blankVolume 4096)
      let cs ← r.2.desc.reachable
      .ok (decide (r.1 = 1 ∧ cs.map (fun c => c.2.key) = [(1, some 0)])) : M Bool) = .ok true := by decide +kernel
  obtain ⟨⟨r, s⟩, hrun, h⟩ := ExceptLib.bind_eq_ok.mp h
  obtain ⟨cs, hcs, h⟩ := ExceptLib.bind_eq_ok.mp h
  obtain ⟨rfl, hkey⟩ := of_decide_eq_true (Except.ok.inj h)
  have hs : Reached s := (reachedBy_blankVolume (by decide) (by decide)).step trivial ⟨0, 1, by decide, hrun⟩
  refine ⟨s, hs, hrun, fun fd => ?_⟩
  have hl := ReachedBy.listed hs
  obtain ⟨ks, hk, _⟩ := hl.list
  obtain ⟨cs', hcs', hc⟩ := hk.reachable hl.header
  rw [hcs, Except.ok.injEq] at hcs'
  rw [hl.isOpen_iff hk, ← hc, ← hcs', hkey]
  simp [eq_comm]

/-- The theorem for a read of descriptor 7 with descriptor 1 open. -/
theorem closed_descriptors_rejected_iff_read : ∃ s, Reached s ∧ s.desc.IsOpen 1 ∧
    (RejectedCleanly (.read 7 (fun _ => 0) 1) s ↔ (∃ buf nbyte, Call.read 7 (fun _ => 0) 1 = .read 7 buf nbyte) ∨
      (∃ offset whence, Call.read 7 (fun _ => 0) 1 = .lseek 7 offset whence) ∧ s.inodeReg ≠ none) := by
  obtain ⟨s, hs, _, ho⟩ := opened_dot
  have h1 : s.desc.IsOpen 1 := (ho 1).mpr rfl
  have h7 : ¬s.desc.IsOpen 7 := fun h => absurd ((ho 7).mp h) (by decide)
  exact ⟨s, hs, h1, closed_descriptors_rejected_iff hs h1 h7 rfl⟩

/-- With descriptor 1 open, a write through descriptor 7 dereferences a null pointer. -/
theorem write_not_open_derefs_null : ∃ s, Reached s ∧ s.desc.IsOpen 1 ∧ ¬s.desc.IsOpen 7 ∧
    Call.run 0 (.write 7 (fun _ => 0) 1) s = .error .nullDeref ∧ ¬RejectedCleanly (.write 7 (fun _ => 0) 1) s := by
  obtain ⟨s, hs, _, ho⟩ := opened_dot
  have h7 : ¬s.desc.IsOpen 7 := fun h => absurd ((ho 7).mp h) (by decide)
  have hw : Call.run 0 (.write 7 (fun _ => 0) 1) s = .error .nullDeref :=
    (ReachedBy.listed hs).write_not_open h7 0 _ 1
  refine ⟨s, hs, (ho 1).mpr rfl, h7, hw, fun hr => ?_⟩
  have h0 := hw.symm.trans (hr 0)
  cases h0

end Vsfs
