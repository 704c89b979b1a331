import Vsfs.Descriptors.Close
import Vsfs.Descriptors.Open

/-!
# The descriptor list as a set of numbers

Runs of successful calls of `vsfs_open` and of calls of `vsfs_close` on open descriptors, with the numbers that have
been returned and not closed. `vsfs_close` never moves `tail` and does not stop at a match, so the list is right as long
as every call closes its first node and the numbers fit their 16 bits:

- `SetInv`: the invariant, kept by opening (`SetInv.open`) and by closing the first node (`SetInv.close`);
- `descriptors_form_a_set`: in every such run the list is a set;
- `inner_close_derefs_null`: closing the second of three descriptors dereferences a null pointer.
-/

set_option autoImplicit false

namespace Vsfs

open Function GuardedRun ByteSeq

/-! ## Runs -/

/-- What is done with descriptors. -/
inductive DescCall
  | open (pathname : CStr) (flags : Int)
  | close (fildes : Int)

/-- A successful call of `vsfs_open`, or a call of `vsfs_close` on an open descriptor; the list holds the numbers
returned and not yet closed. -/
inductive SetStep : DescCall → State × List Int → State × List Int → Prop
  | open {now : Nat} {pathname : CStr} {flags fd : Int} {s t : State} {live : List Int}
      (h : vsfsOpen now pathname flags s = .ok (fd, t)) (hfd : fd ≠ -1) :
      SetStep (.open pathname flags) (s, live) (t, live ++ [fd])
  | close {fd ret : Int} {s t : State} {live : List Int} (hm : fd ∈ live) (h : vsfsClose fd s = .ok (ret, t)) :
      SetStep (.close fd) (s, live) (t, live.erase fd)

/-- The descriptor list is the set of the open descriptors, and the calls that `ok` allows next respect it. -/
structure DescriptorSet (ok : DescCall → State × List Int → Prop) (p : State × List Int) : Prop where
  members : ∃ cs, p.1.desc.reachable = .ok cs ∧ (cs.map fun c => (c.2.index : Int)).Perm p.2
  once : p.2.Nodup
  tail : ∀ cs c, p.1.desc.reachable = .ok cs → cs.getLast? = some c → ∃ h, p.1.desc.fdTable = .table h (some c.1)
  fresh : ∀ now pathname flags fd t, ok (.open pathname flags) p →
    vsfsOpen now pathname flags p.1 = .ok (fd, t) → fd ≠ -1 → fd ∉ p.2
  unlink : ∀ fd ∈ p.2, ok (.close fd) p → ∀ hd tl, p.1.desc.fdTable = .table (some hd) tl →
    p.1.desc.unlink fd hd tl ≠ .error .nullDeref

/-- The condition: the number after the last one fits 16 bits when a descriptor is opened, and the descriptor that is
closed is the first of the list. -/
def FirstInFirstOut : DescCall → State × List Int → Prop
  | .open _ _, p => ∀ cs c, p.1.desc.reachable = .ok cs → cs.getLast? = some c → c.2.index < 65535
  | .close fd, p => ∃ cs c, p.1.desc.reachable = .ok cs ∧ cs.head? = some c ∧ (c.2.index : Int) = fd

/-! ## The invariant -/

/-- The list is well formed, its numbers increase, and they are the open descriptors. -/
structure SetInv (d : Desc) (live : List Int) : Prop where
  header : d.fdTable ≠ .freed
  mapped : live ≠ [] → d.opCounter = true
  nodes : ∃ (as : List Nat) (ks : List (Nat × Option Nat)), d.Lists as ∧ d.TailOk as ∧ d.column FdTable.key as = ks.map some ∧
    live = ks.map (fun k => (k.1 : Int)) ∧ (ks.map Prod.fst).Pairwise (· < ·)

theorem setInv_start {d : Desc} (h : d.fdTable = .null) : SetInv d [] := by
  refine ⟨by rw [h]; simp, by simp, [], [], ⟨?_, by simp, by simp⟩, by simp [Desc.TailOk], rfl, rfl, by simp⟩
  rw [show d.fdTable.head = none by rw [h]; rfl]
  exact .nil

variable {s t : State} {live : List Int} {fd : Int}

/-- The nodes that the code's loops visit. -/
theorem SetInv.visit {d : Desc} (h : SetInv d live) :
    ∃ (cs : List (Nat × FdTable)) (as : List Nat) (ks : List (Nat × Option Nat)), d.reachable = .ok cs ∧
    cs.map Prod.fst = as ∧
    cs.map (fun c => c.2.key) = ks ∧ d.Lists as ∧ d.TailOk as ∧ d.column FdTable.key as = ks.map some ∧
    live = ks.map (fun k => (k.1 : Int)) ∧ (ks.map Prod.fst).Pairwise (· < ·) := by
  obtain ⟨as, ks, hl, ht, hk, hlive, hp⟩ := h.nodes
  obtain ⟨cs, hr, hm, hc⟩ := hl.reachable_column h.header hk
  exact ⟨cs, as, ks, hr, hm, hc, hl, ht, hk, hlive, hp⟩

/-- A number above the last one extends an increasing list. -/
theorem pairwise_concat {is : List Nat} (hp : is.Pairwise (· < ·)) {i : Nat}
    (h : ∀ j, is.getLast? = some j → j < i) : (is ++ [i]).Pairwise (· < ·) := by
  rw [List.pairwise_append]
  refine ⟨hp, by simp, fun x hx y hy => ?_⟩
  rw [List.mem_singleton] at hy
  subst hy
  rcases List.eq_nil_or_concat is with rfl | ⟨js, j, rfl⟩
  · simp at hx
  · have hj : j < y := h j (by simp)
    rw [List.concat_eq_append, List.pairwise_append] at hp
    rw [List.concat_eq_append, List.mem_append, List.mem_singleton] at hx
    rcases hx with hx | rfl
    · exact (hp.2.2 x hx j (by simp)).trans hj
    · exact hj

/-- A successful `vsfs_open` with room for the next number returns that number and keeps the invariant. -/
theorem SetInv.open {now : Nat} {pathname : CStr} {flags : Int} (h : SetInv s.desc live)
    (hok : FirstInFirstOut (.open pathname flags) (s, live))
    (ho : vsfsOpen now pathname flags s = .ok (fd, t)) (hfd : fd ≠ -1) :
    fd ∉ live ∧ SetInv t.desc (live ++ [fd]) := by
  obtain ⟨cs, as, ks, hr, hm, hc, hl, ht, hk, hlive, hp⟩ := h.visit
  obtain ⟨_, rfl, _⟩ | ⟨_, fd', a, d, hadd, ⟨rfl, _⟩ | ⟨target, info, _, _, _, rfl, rfl⟩⟩ := vsfsOpen_cases ho
  · exact absurd rfl hfd
  · exact absurd rfl hfd
  obtain ⟨hl', ht', hk', hret⟩ := Desc.Lists.opened (d := { s.desc with opCounter := true })
    { d with brk := d.brk + 1, files := update d.files d.brk (some info) } target (some d.brk) flags hadd rfl rfl (Nat.le_succ _) rfl
    (hl.congr rfl rfl (le_refl _)) ht hk
  -- the number fits, so the node carries the number that is returned
  have hlast : ∀ k, ks.getLast? = some k → k.1 < 65535 := by
    intro k hkl
    rw [← hc, List.getLast?_map, Option.map_eq_some_iff] at hkl
    obtain ⟨c, hcl, rfl⟩ := hkl
    exact hok cs c hr hcl
  have hnext : (nextIndex (ks.map Prod.fst) : Int) = fd := by
    unfold nextIndex
    rw [List.getLast?_map]
    rcases hret with ⟨rfl, rfl⟩ | ⟨k, hkl, rfl⟩
    · rfl
    · have := hlast k hkl
      simp only [hkl, Option.map_some, Option.getD_some, succ16]
      rw [if_neg (by omega)]
      push_cast
      rfl
  have hp' : (ks.map Prod.fst ++ [nextIndex (ks.map Prod.fst)]).Pairwise (· < ·) := by
    refine pairwise_concat hp fun j hj => ?_
    rw [List.getLast?_map, Option.map_eq_some_iff] at hj
    obtain ⟨k, hkl, rfl⟩ := hj
    rcases hret with ⟨_, rfl⟩ | ⟨k', hkl', rfl⟩
    · simp at hkl
    · rw [hkl] at hkl'
      cases hkl'
      omega
  have hlive' : live ++ [fd] = (ks ++ [(nextIndex (ks.map Prod.fst), some s.desc.count)]).map fun k => (k.1 : Int) := by
    rw [List.map_append, hlive, ← hnext]
    rfl
  constructor
  · intro hmem
    rw [hlive, List.mem_map] at hmem
    obtain ⟨k, hkm, hke⟩ := hmem
    rw [List.pairwise_append] at hp'
    have := hp'.2.2 k.1 (List.mem_map_of_mem hkm) _ (List.mem_singleton.mpr rfl)
    omega
  · refine ⟨?_, fun _ => ?_, _, _, hl', ht', hk', hlive', by simpa using hp'⟩
    · obtain ⟨x, hx⟩ := ht' a (by simp)
      rw [hx]
      simp
    · obtain ⟨_, _, ⟨_, _, rfl⟩ | ⟨_, _, _, _, _, _, rfl⟩⟩ := addFdTable_cases hadd <;> rfl

/-- Closing the first descriptor unlinks its node. -/
theorem SetInv.unlink (h : SetInv s.desc live) (hmem : fd ∈ live) (hok : FirstInFirstOut (.close fd) (s, live)) :
    ∃ hd tl e as, ∃ ks : List (Nat × Option Nat), s.desc.Searched hd tl ∧ s.desc.fds hd = some e ∧
      s.desc.unlink fd hd tl = .ok (some hd, { s.desc with fdTable := .table e.next tl }) ∧
      s.desc.Lists (hd :: as) ∧ s.desc.TailOk (hd :: as) ∧
      s.desc.column FdTable.key (hd :: as) = (e.key :: ks).map some ∧ live = fd :: ks.map (fun k => (k.1 : Int)) ∧
      (ks.map Prod.fst).Pairwise (· < ·) := by
  obtain ⟨cs, as, ks, hr, hm, hc, hl, ht, hk, hlive, hp⟩ := h.visit
  obtain ⟨cs', c, hr', hhead, hidx⟩ := hok
  rw [hr] at hr'
  cases hr'
  cases cs with
  | nil => cases hhead
  | cons c' cs =>
    cases hhead
    simp only [List.map_cons] at hm hc
    subst hm
    subst hc
    have hch := hl.chain
    generalize hhd : s.desc.fdTable.head = p at hch
    cases hch with
    | @cons _ e _ hcell hrest =>
      obtain ⟨tl, htab⟩ : ∃ tl, s.desc.fdTable = .table (some c.1) tl := by
        unfold TablePtr.head at hhd
        split at hhd
        case h_1 tl heq => cases hhd; exact ⟨tl, heq⟩
        case h_2 => cases hhd
      have hkey : c.2.key = e.key := by
        rw [Desc.column, List.map_cons, List.map_cons, hcell] at hk
        simpa using (List.cons.inj hk).1.symm
      have hei : (e.index : Int) = fd := by rw [← hidx, show e.index = c.2.index from (congrArg Prod.fst hkey).symm]
      refine ⟨c.1, tl, e, _, _, ⟨htab, h.mapped (List.ne_nil_of_mem hmem), e, hcell, hl.paths c.1 (by simp) e hcell⟩,
        hcell, unlink_head hcell hei, hl, ht, by rw [hk, hkey], ?_, ?_⟩
      · rw [hlive, List.map_cons, ← hidx]
        rfl
      · rw [List.map_cons] at hp
        exact hp.of_cons

/-- What is left when the first node has been unlinked. -/
theorem setInv_rest {d d' : Desc} {hd : Nat} {tl : Option Nat} {e : FdTable} {as : List Nat}
    {ks : List (Nat × Option Nat)} (htab : d.fdTable = .table (some hd) tl) (hcell : d.fds hd = some e)
    (hl : d.Lists (hd :: as)) (ht : d.TailOk (hd :: as)) (hk : d.column FdTable.key (hd :: as) = (e.key :: ks).map some)
    (hp : (ks.map Prod.fst).Pairwise (· < ·)) (hf : ∀ a ∈ as, d'.fds a = d.fds a) (hb : d'.brk = d.brk)
    (hrest : e.next = none ∧ d'.fdTable = .null ∨ d'.fdTable = .table e.next tl ∧ d'.opCounter = true) :
    SetInv d' (ks.map fun k => (k.1 : Int)) := by
  have hch : HeapChain.Chain FdTable.next d.fds e.next as := by
    have hch := hl.chain
    rw [htab] at hch
    cases hch with
    | cons hc hrest => rw [hcell] at hc; cases hc; exact hrest
  have hks : d.column FdTable.key as = ks.map some := by
    rw [Desc.column, List.map_cons, List.map_cons] at hk
    exact (List.cons.inj hk).2
  have hhead : d'.fdTable.head = e.next := by
    rcases hrest with ⟨hn, h⟩ | ⟨h, _⟩ <;> rw [h]
    · exact hn.symm
    · rfl
  refine ⟨?_, fun hne => ?_, as, ks, ⟨?_, ?_, ?_⟩, ?_, ?_, rfl, hp⟩
  · rcases hrest with ⟨_, h⟩ | ⟨h, _⟩ <;> rw [h] <;> simp
  · rcases hrest with ⟨hn, _⟩ | ⟨_, ho⟩
    · obtain rfl := hch.eq_nil_iff.mpr hn
      exact absurd (by simpa [Desc.column] using hks) hne
    · exact ho
  · rw [hhead]
    exact hch.frame hf
  · exact fun a ha => hb ▸ hl.old a (List.mem_cons_of_mem _ ha)
  · exact fun a ha x hx => hl.paths a (List.mem_cons_of_mem _ ha) x (hf a ha ▸ hx)
  · intro x hx
    have hne : as ≠ [] := by rintro rfl; cases hx
    obtain ⟨y, hy⟩ := ht x (by rw [List.getLast?_cons_of_ne_nil hne]; exact hx)
    rw [htab] at hy
    cases hy
    rcases hrest with ⟨hn, _⟩ | ⟨h, _⟩
    · exact absurd (hch.eq_nil_iff.mpr hn) hne
    · exact ⟨_, h⟩
  · rw [← hks]
    exact column_congr fun a ha => by rw [hf a ha]

/-- Closing the first descriptor keeps the invariant, also when its slot turns out to be given up already. -/
theorem SetInv.close {ret : Int} (h : SetInv s.desc live) (hmem : fd ∈ live)
    (hok : FirstInFirstOut (.close fd) (s, live)) (hcl : vsfsClose fd s = .ok (ret, t)) :
    SetInv t.desc (live.erase fd) := by
  obtain ⟨hd, tl, e, as, ks, hs, hcell, hun, hl, ht, hk, rfl, hp⟩ := h.unlink hmem hok
  rw [List.erase_cons_head]
  have hnot : ∀ a ∈ as, a ≠ hd := fun a ha he => (List.nodup_cons.mp hl.chain.nodup).1 (he ▸ ha)
  obtain ⟨hno, _⟩ | ⟨hd', tl', rm, d, hs', hu, hrest⟩ := vsfsClose_cases hcl
  · exact absurd hs (hno hd tl)
  have htab := hs.fdTable
  rw [hs'.fdTable] at htab
  cases htab
  rw [hun] at hu
  cases hu
  obtain ⟨hrm, _⟩ | ⟨a, en, p, f, ha, _, _, _, hout⟩ := hrest
  · cases hrm
  cases ha
  -- the rest of the call works on the slot, on the file object and on the unlinked node
  have h1 := freeFile_sameList { s.desc with fdTable := .table e.next tl } p
  have h2 := dropSlot_sameList (Desc.freeFile { s.desc with fdTable := .table e.next tl } p) p
  have ho := dropSlot_opCounter (Desc.freeFile { s.desc with fdTable := .table e.next tl } p) p
  rw [freeFile_opCounter] at ho
  have htab' := h2.fdTable.trans h1.fdTable
  have hfds := h2.fds.trans h1.fds
  have hbrk := h2.brk.trans h1.brk
  obtain ⟨_, _, rfl⟩ | ⟨_, _, rfl⟩ := hout
  · exact setInv_rest hs.fdTable hcell hl ht hk hp (fun a _ => congrFun hfds a) hbrk
      (Or.inr ⟨htab', ho.trans hs.opCounter⟩)
  · obtain ⟨hcf, hcb, _, _, _, hct⟩ := closeLast_desc (s := { s with
      inodeReg := none
      desc := ((Desc.freeFile { s.desc with fdTable := .table e.next tl } p).dropSlot p).2 }) htab' hd
    refine setInv_rest hs.fdTable hcell hl ht hk hp (fun a ha => ?_) (hcb.trans hbrk) ?_
    · rw [hcf, update_of_ne (hnot a ha)]
      exact congrFun hfds a
    · rcases hct with ⟨hn, htn⟩ | ⟨_, htn, hoc⟩
      · exact Or.inl ⟨hn, htn⟩
      · exact Or.inr ⟨htn, hoc.trans (ho.trans hs.opCounter)⟩

/-! ## The set -/

/-- **The descriptor list is a correct set** in every run of successful calls of `vsfs_open` and calls of `vsfs_close`
whose calls all meet the condition. -/
theorem descriptors_form_a_set {s₀ s : State} {live : List Int} (h0 : s₀.desc.fdTable = .null)
    (h : Run SetStep FirstInFirstOut (s₀, []) (s, live)) : DescriptorSet FirstInFirstOut (s, live) := by
  have hinv : SetInv (s, live).1.desc (s, live).2 :=
    h.invariant (P := fun p => SetInv p.1.desc p.2) (setInv_start h0) fun c u v hu hok hstep => by
      cases hstep with
      | «open» ho hfd => exact (SetInv.open hu hok ho hfd).2
      | close hm hcl => exact SetInv.close hu hm hok hcl
  obtain ⟨cs, as, ks, hr, hm, hc, hl, ht, hk, hlive, hp⟩ := hinv.visit
  have hidx : (cs.map fun c => (c.2.index : Int)) = ks.map fun k => (k.1 : Int) := by
    rw [← hc, List.map_map]
    rfl
  refine ⟨⟨cs, hr, ?_⟩, ?_, ?_, ?_, ?_⟩
  · rw [hidx, hlive]
  · rw [hlive]
    have : (ks.map Prod.fst).Nodup := hp.imp fun hlt => Nat.ne_of_lt hlt
    have hmap := this.map (f := fun i : Nat => (i : Int)) fun _ _ h => Int.ofNat.inj h
    rwa [List.map_map] at hmap
  · intro cs' c hr' hcl
    rw [hr] at hr'
    cases hr'
    exact ht c.1 (by rw [← hm, List.getLast?_map, hcl]; rfl)
  · intro now pathname flags fd t hok ho hfd
    exact (SetInv.open hinv hok ho hfd).1
  · intro fd hmem hok hd tl htab hnull
    obtain ⟨hd', tl', _, _, _, hs, _, hun, _⟩ := SetInv.unlink hinv hmem hok
    rw [hs.fdTable] at htab
    cases htab
    rw [hun] at hnull
    cases hnull

/-- The theorem after two files have been opened and the first descriptor has been closed. -/
theorem descriptors_form_a_set_two : ∃ s, Run SetStep FirstInFirstOut (blankVolume 4096, []) (s, [2]) ∧
    DescriptorSet FirstInFirstOut (s, [2]) := by
  have hrun : (do
      let (fd, s) ← vsfsOpen 0 dotName oRdwr (blankVolume 4096)
      let cs ← s.desc.reachable
      let (fd', s') ← vsfsOpen 0 dotDotName oRdonly s
      let cs' ← s'.desc.reachable
      let (_, _) ← vsfsClose 1 s'
      .ok (decide (fd = 1 ∧ fd' = 2 ∧ cs.map (fun c => c.2.index) = [1] ∧
        cs'.map (fun c => c.2.index) = [1, 2])) : M Bool) = .ok true := by decide +kernel
  obtain ⟨⟨fd, s⟩, ho, hrun⟩ := ExceptLib.bind_eq_ok.mp hrun
  obtain ⟨cs, hcs, hrun⟩ := ExceptLib.bind_eq_ok.mp hrun
  obtain ⟨⟨fd', s'⟩, ho', hrun⟩ := ExceptLib.bind_eq_ok.mp hrun
  obtain ⟨cs', hcs', hrun⟩ := ExceptLib.bind_eq_ok.mp hrun
  obtain ⟨⟨ret, t⟩, hcl, hrun⟩ := ExceptLib.bind_eq_ok.mp hrun
  obtain ⟨rfl, rfl, hidx, hidx'⟩ := of_decide_eq_true (Except.ok.inj hrun)
  have hok : FirstInFirstOut (.open dotDotName oRdonly) (s, [1]) := by
    intro ds c hds hc
    rw [hcs] at hds
    cases hds
    have := congrArg List.getLast? hidx
    rw [List.getLast?_map, hc] at this
    simp only [Option.map_some, List.getLast?_singleton, Option.some.injEq] at this
    omega
  have hok' : FirstInFirstOut (.close 1) (s', [1, 2]) := by
    cases cs' with
    | nil => cases hidx'
    | cons c cs' => exact ⟨_, c, hcs', rfl, congrArg Nat.cast (List.cons.inj hidx').1⟩
  have hrun : Run SetStep FirstInFirstOut (blankVolume 4096, []) (t, [2]) :=
    (((Run.refl _).snoc (c := .open dotName oRdwr) (by rintro _ _ ⟨⟩ ⟨⟩) (.open ho (by decide))).snoc hok
      (.open ho' (by decide))).snoc hok' (.close (by simp) hcl)
  exact ⟨t, hrun, descriptors_form_a_set rfl hrun⟩

/-- After three successful calls of `vsfs_open`, closing the second descriptor dereferences a null `next`. -/
theorem inner_close_derefs_null : ∃ s, Run SetStep (fun _ _ => True) (blankVolume 4096, []) (s, [1, 2, 3]) ∧
    ¬DescriptorSet (fun _ _ => True) (s, [1, 2, 3]) := by
  have hrun : (do
      let (fd, s) ← vsfsOpen 0 dotName oRdwr (blankVolume 4096)
      let (fd', s') ← vsfsOpen 0 dotName oRdwr s
      let (fd'', s'') ← vsfsOpen 0 dotName oRdwr s'
      .ok (decide (fd = 1 ∧ fd' = 2 ∧ fd'' = 3 ∧ s''.desc.fdTable = .table (some 0) (some 4) ∧
        ExceptLib.isError (s''.desc.unlink 2 0 (some 4)) .nullDeref = true)) : M Bool) = .ok true := by decide +kernel
  obtain ⟨⟨fd, s⟩, ho, hrun⟩ := ExceptLib.bind_eq_ok.mp hrun
  obtain ⟨⟨fd', s'⟩, ho', hrun⟩ := ExceptLib.bind_eq_ok.mp hrun
  obtain ⟨⟨fd'', s''⟩, ho'', hrun⟩ := ExceptLib.bind_eq_ok.mp hrun
  obtain ⟨rfl, rfl, rfl, htab, hnull⟩ := of_decide_eq_true (Except.ok.inj hrun)
  refine ⟨s'', (((Run.refl _).snoc trivial (.open ho (by decide))).snoc trivial (.open ho' (by decide))).snoc trivial
    (.open ho'' (by decide)), fun hset => ?_⟩
  exact hset.unlink 2 (by simp) trivial 0 (some 4) htab (ExceptLib.isError_iff.mp hnull)

end Vsfs
