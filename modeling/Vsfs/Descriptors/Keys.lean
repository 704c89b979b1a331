import Vsfs.Descriptors.Close

/-!
# The numbers and slots of the open descriptors

`d.Holds ks`: the nodes of the descriptor list have the numbers and slots `ks`, in the order of the list. The pointer
to the last node dangles once that node has been closed.

- `Holds.opened`: `vsfs_open` appends a key, with the number after that of the last node;
- `Holds.closed_first`, `Holds.closed_last`: closing the first and the last node;
- `Holds.unlinked`: with different numbers, the node that `vsfs_close` unlinks is one of the two;
- `Numbered.nodup`: the numbers of the nodes are consecutive, so they are different.
-/

set_option autoImplicit false

namespace Vsfs

open Function HeapChain

/-- The nodes of the list have the numbers and slots `ks`. -/
def Desc.Holds (d : Desc) (ks : List (Nat × Option Nat)) : Prop :=
  ∃ as, d.Lists as ∧ d.column FdTable.key as = ks.map some ∧
    (d.TailOk as ∨ as ≠ [] ∧ ∃ hd t, d.fdTable = .table (some hd) (some t) ∧ d.fds t = none)

variable {d d' : Desc} {ks : List (Nat × Option Nat)} {k : Nat × Option Nat} {fd : Int}

theorem Desc.holds_nil (h : d.fdTable.head = none) : d.Holds [] := by
  refine ⟨[], ⟨?_, by simp, by simp⟩, rfl, Or.inl (by simp [Desc.TailOk])⟩
  rw [h]
  exact .nil

theorem Desc.Holds.congr (h : d.Holds ks) (hf : d'.fds = d.fds) (ht : d'.fdTable = d.fdTable) (hb : d'.brk = d.brk) :
    d'.Holds ks := by
  obtain ⟨as, hl, hk, htail⟩ := h
  refine ⟨as, hl.congr hf ht (le_of_eq hb.symm), ?_, ?_⟩
  · rw [← hk]
    exact column_congr fun _ _ => by rw [hf]
  · unfold Desc.TailOk
    rw [ht, hf]
    exact htail

/-- The nodes that the code's loops visit. -/
theorem Desc.Holds.reachable (h : d.Holds ks) (hf : d.fdTable ≠ .freed) :
    ∃ cs, d.reachable = .ok cs ∧ cs.map (fun c => c.2.key) = ks := by
  obtain ⟨as, hl, hk, _⟩ := h
  obtain ⟨cs, hr, _, hc⟩ := hl.reachable_column hf hk
  exact ⟨cs, hr, hc⟩

/-! ## Opening -/

/-- **Opening** appends a key with the slot that is taken; a dangling pointer to the last node would have been used. -/
theorem Desc.Holds.opened (h : d.Holds ks) (d₂ : Desc) (inode : Nat) (filePtr : Option Nat) (flags : Int) {oc : Bool}
    {d₁ : Desc} {a : Nat} (hadd : { d with opCounter := oc }.addFdTable = .ok (fd, a, d₁)) (hf : d₂.fds = d₁.fds)
    (ht : d₂.fdTable = d₁.fdTable) (hb : d₁.brk ≤ d₂.brk) (hc : d₂.count = d.count) :
    (d₂.takeSlot a inode filePtr flags).Holds (ks ++ [(nextIndex (ks.map Prod.fst), some d.count)]) ∧
      (fd = 1 ∧ ks = [] ∨ ∃ k, ks.getLast? = some k ∧ fd = k.1 + 1) := by
  obtain ⟨as, hl, hk, htail⟩ := h
  have htail' : d.TailOk as := by
    rcases htail with htail | ⟨_, hd, t, htab, hdead⟩
    · exact htail
    · obtain ⟨_, _, ⟨hh, _⟩ | ⟨hd', t', tail, htab', hlive, _⟩⟩ := addFdTable_cases hadd
      · rw [show ({ d with opCounter := oc } : Desc).fdTable = _ from htab] at hh
        cases hh
      · rw [show ({ d with opCounter := oc } : Desc).fdTable = _ from htab] at htab'
        cases htab'
        rw [show d.fds t = some tail from hlive] at hdead
        cases hdead
  obtain ⟨hl', ht', hk', hret⟩ := Desc.Lists.opened (d := { d with opCounter := oc }) d₂ inode filePtr flags hadd hf ht
    hb (hc.trans (addFdTable_optab hadd).1.symm) (hl.congr rfl rfl (le_refl _)) htail' hk
  exact ⟨⟨_, hl', hk', Or.inl ht'⟩, hret⟩

/-! ## Closing -/

/-- What closing has left of the list and of the table, given the descriptors `d₁` after the node at `b` has been
unlinked and `d₂` when the file object has been freed. -/
structure ClosedFrom (d₁ d₂ d' : Desc) (b p : Nat) : Prop where
  opFtable : d₂.opFtable = d₁.opFtable
  count : d₂.count = d₁.count
  drop : d'.opFtable = (d₂.dropSlot p).2.opFtable ∧ d'.count = (d₂.dropSlot p).2.count
  fds : d'.fds = update d₁.fds b none
  brk : d'.brk = d₁.brk
  fdTable : ∀ next tl, d₁.fdTable = .table next tl →
    next = none ∧ d'.fdTable.head = none ∨ d'.fdTable = .table next tl

theorem ClosedFrom.head {d₁ d₂ : Desc} {b p : Nat} {next tl : Option Nat} (h : ClosedFrom d₁ d₂ d' b p)
    (ht : d₁.fdTable = .table next tl) : d'.fdTable.head = next := by
  rcases h.fdTable next tl ht with ⟨hn, hh⟩ | hh
  · rw [hh, hn]
  · rw [hh]
    rfl

/-- The end of a successful `vsfs_close`. -/
theorem closedFrom_closeLast (s : State) {next tl : Option Nat} (ht : d.fdTable = .table next tl) (b p : Nat) :
    ClosedFrom d (d.freeFile p)
        ({ s with inodeReg := none, desc := ((d.freeFile p).dropSlot p).2 }.closeLast b).desc b p ∧
      ({ s with inodeReg := none, desc := ((d.freeFile p).dropSlot p).2 }.closeLast b).desc.fdTable ≠ .freed := by
  have h1 := freeFile_sameList d p
  have h2 := dropSlot_sameList (d.freeFile p) p
  have htab := (h2.fdTable.trans h1.fdTable).trans ht
  obtain ⟨hf, hb, hc, ho, _, hend⟩ := closeLast_desc (s := { s with
    inodeReg := none, desc := ((d.freeFile p).dropSlot p).2 }) htab b
  refine ⟨⟨freeFile_opFtable d p, freeFile_count d p, ⟨ho, hc⟩, ?_, hb.trans (h2.brk.trans h1.brk),
    fun next' tl' ht' => ?_⟩, ?_⟩
  · rw [hf]
    exact congrArg (fun f => update f b none) (h2.fds.trans h1.fds)
  · rw [ht] at ht'
    cases ht'
    rcases hend with ⟨rfl, hh⟩ | ⟨_, hh, _⟩
    · exact Or.inl ⟨rfl, congrArg TablePtr.head hh⟩
    · exact Or.inr hh
  · rcases hend with ⟨_, hh⟩ | ⟨_, hh, _⟩ <;> rw [hh] <;> simp

/-- The pointer to the last node after closing: it is good if no node is left, or if it was good and its node is
still there, and dangles otherwise. -/
theorem ClosedFrom.tail {d₁ d₂ : Desc} {b p : Nat} {next tl : Option Nat} {as : List Nat}
    (h : ClosedFrom d₁ d₂ d' b p) (ht : d₁.fdTable = .table next tl) (hnext : next = none → as = [])
    (htail : ∀ n, next = some n → (∀ t, as.getLast? = some t → tl = some t) ∨ ∃ t, tl = some t ∧ d'.fds t = none) :
    d'.TailOk as ∨ as ≠ [] ∧ ∃ hd t, d'.fdTable = .table (some hd) (some t) ∧ d'.fds t = none := by
  by_cases has : as = []
  · subst has
    exact Or.inl (by simp [Desc.TailOk])
  obtain ⟨n, hn⟩ : ∃ n, next = some n := Option.ne_none_iff_exists'.mp fun hno => has (hnext hno)
  have htab : d'.fdTable = .table (some n) tl := by
    rcases h.fdTable next tl ht with ⟨hno, _⟩ | hh
    · rw [hno] at hn
      cases hn
    · rw [hh, hn]
  rcases htail n hn with hlive | ⟨t, rfl, hdead⟩
  · exact Or.inl fun t hl => ⟨some n, by rw [htab, hlive t hl]⟩
  · exact Or.inr ⟨has, n, t, htab, hdead⟩

/-- Closing the first node. -/
theorem Desc.Holds.closed_first {hd : Nat} {tl : Option Nat} (h : d.Holds (k :: ks))
    (htab : d.fdTable = .table (some hd) tl) (hi : (k.1 : Int) = fd) :
    ∃ d₁, d.unlink fd hd tl = .ok (some hd, d₁) ∧ d.SameTable d₁ ∧ (∃ next, d₁.fdTable = .table next tl) ∧
      (d₁.fds hd).map FdTable.key = some k ∧ ∀ d₂ d' p, ClosedFrom d₁ d₂ d' hd p → d'.Holds ks := by
  obtain ⟨as, hl, hk, htail⟩ := h
  cases as with
  | nil => simp [Desc.column] at hk
  | cons a as =>
  have hch := hl.chain
  rw [htab] at hch
  have hnd := hch.nodup
  obtain ⟨hka, hkas⟩ : (d.fds a).map FdTable.key = some k ∧ d.column FdTable.key as = ks.map some :=
    List.cons_eq_cons.mp hk
  cases hch with
  | @cons _ e _ hc ht =>
  have hek : e.key = k := by
    rw [hc] at hka
    exact Option.some.inj hka
  have hnot : hd ∉ as := (List.nodup_cons.mp hnd).1
  refine ⟨_, unlink_head hc (by rw [← hi, ← hek]; rfl), ⟨rfl, rfl, rfl, rfl, rfl⟩, ⟨_, rfl⟩, hka,
    fun d₂ d' p hcl => ?_⟩
  have hfds : ∀ x, x ∈ as → d'.fds x = d.fds x := fun x hx => by
    rw [hcl.fds]
    exact update_of_ne (by rintro rfl; exact hnot hx) ..
  refine ⟨as, ⟨?_, fun x hx => ?_, fun x hx e' he' => ?_⟩, ?_, ?_⟩
  · rw [hcl.head rfl]
    exact ht.frame hfds
  · rw [hcl.brk]
    exact hl.old x (List.mem_cons_of_mem _ hx)
  · rw [hfds x hx] at he'
    exact hl.paths x (List.mem_cons_of_mem _ hx) e' he'
  · rw [← hkas]
    exact column_congr fun x hx => by rw [hfds x hx]
  · refine hcl.tail rfl (fun hno => ?_) fun n hn => ?_
    · rw [hno] at ht
      exact ht.eq_nil_iff.mpr rfl
    · rcases htail with htail | ⟨_, hd', t, htab', hdead⟩
      · refine Or.inl fun t hlast => ?_
        obtain ⟨_, he⟩ := htail t (by
          cases as with
          | nil => simp at hlast
          | cons y ys => simpa using hlast)
        rw [htab] at he
        cases he
        rfl
      · rw [htab] at htab'
        cases htab'
        refine Or.inr ⟨t, rfl, ?_⟩
        rw [hcl.fds, update_apply]
        split
        · rfl
        · exact hdead

/-- Closing the last node. -/
theorem Desc.Holds.closed_last {hd : Nat} {tl : Option Nat} (h : d.Holds (ks ++ [k]))
    (htab : d.fdTable = .table (some hd) tl) (hi : (k.1 : Int) = fd) (hne : ∀ k' ∈ ks, (k'.1 : Int) ≠ fd) :
    ∃ b d₁, d.unlink fd hd tl = .ok (some b, d₁) ∧ d.SameTable d₁ ∧ (∃ next, d₁.fdTable = .table next tl) ∧
      (d₁.fds b).map FdTable.key = some k ∧ ∀ d₂ d' p, ClosedFrom d₁ d₂ d' b p → d'.Holds ks := by
  obtain ⟨as, hl, hk, htail⟩ := h
  rcases List.eq_nil_or_concat as with rfl | ⟨bs, b, rfl⟩
  · simp [Desc.column] at hk
  rw [List.concat_eq_append] at *
  obtain ⟨d₁, next, hu, hst, htab₁, hnext, hb, hkey, hdead₁, hrest⟩ := unlink_last fd hl htab hk hi hne
  refine ⟨b, d₁, hu, hst, ⟨next, htab₁⟩, by rw [hb, hkey], fun d₂ d' p hcl => ?_⟩
  obtain ⟨hl', hk'⟩ := hrest d' hcl.fds (hcl.brk.trans hst.brk) (hcl.head htab₁)
  refine ⟨bs, hl', hk', hcl.tail htab₁ hnext fun n hn => Or.inr ?_⟩
  -- the pointer is to the freed node, or to one freed before
  rcases htail with htail | ⟨_, hd', t, htabt, hdead⟩
  · obtain ⟨hd', htabt⟩ := htail b (by simp)
    rw [htab] at htabt
    cases htabt
    exact ⟨b, rfl, by rw [hcl.fds, update_self]⟩
  · rw [htab] at htabt
    cases htabt
    refine ⟨t, rfl, ?_⟩
    rw [hcl.fds, update_apply]
    split
    · rfl
    · exact hdead₁ t hdead

/-- The loop of `vsfs_close` runs past the end of the list unless the last node matches. -/
theorem unlinkLoop_ok {fildes : Int} {n : Nat} {h : Heap FdTable} {p rm : Option Nat} {as : List Nat}
    {r : Option Nat × Heap FdTable} (hch : Chain FdTable.next h p as) (hu : unlinkLoop fildes n p h rm = .ok r) :
    as = [] ∨ ∃ bs b e, as = bs ++ [b] ∧ bs ≠ [] ∧ h b = some e ∧ (e.index : Int) = fildes := by
  induction n generalizing h p rm as with
  | zero =>
    cases hch with
    | nil => exact Or.inl rfl
    | cons => cases hu
  | succ n ih =>
    cases hch with
    | nil => exact Or.inl rfl
    | @cons a c as hc ht =>
      right
      have hnot : a ∉ as := (List.nodup_cons.mp (Chain.nodup (.cons hc ht))).1
      unfold unlinkLoop at hu
      obtain ⟨tmp, htmp, hu⟩ := ExceptLib.bind_eq_ok.mp hu
      obtain ⟨_, ⟨⟩, htmp⟩ := load_eq_ok.mp htmp
      rw [hc] at htmp
      cases htmp
      obtain ⟨y, hy, hu⟩ := ExceptLib.bind_eq_ok.mp hu
      obtain ⟨q, hq, hy⟩ := load_eq_ok.mp hy
      rw [hq] at ht
      cases ht with
      | @cons _ _ ys hc' ht' =>
      rw [hc'] at hy
      cases hy
      split at hu
      case isTrue hm =>
        -- a match before the last node is stepped over: the loop goes on behind it
        have hframe : Chain FdTable.next (update h a (some { c with next := y.next })) y.next ys :=
          ht'.update_of_notMem (fun hm => hnot (List.mem_cons_of_mem _ hm)) _
        rcases ih hframe hu with rfl | ⟨bs, b, e, rfl, _, he, hi⟩
        · exact ⟨[a], q, y, rfl, by simp, hc', hm⟩
        · have hba : b ≠ a := by
            rintro rfl
            exact hnot (by simp)
          rw [update_of_ne hba] at he
          exact ⟨a :: q :: bs, b, e, rfl, by simp, he, hi⟩
      case isFalse =>
        rw [hq] at hu
        rcases ih (.cons hc' ht') hu with hno | ⟨bs, b, e, hys, _, he, hi⟩
        · cases hno
        · exact ⟨a :: bs, b, e, by rw [hys]; rfl, by simp, he, hi⟩

/-- **Closing** with different numbers unlinks the first or the last node. -/
theorem Desc.Holds.unlinked {hd : Nat} {tl rm : Option Nat} {d₁ : Desc} (h : d.Holds ks)
    (hn : (ks.map Prod.fst).Nodup) (htab : d.fdTable = .table (some hd) tl)
    (hu : d.unlink fd hd tl = .ok (rm, d₁)) :
    ∃ b k ks', rm = some b ∧ (ks = k :: ks' ∨ ks = ks' ++ [k]) ∧ (k.1 : Int) = fd ∧ d.SameTable d₁ ∧
      (∃ next, d₁.fdTable = .table next tl) ∧ (d₁.fds b).map FdTable.key = some k ∧
      ∀ d₂ d' p, ClosedFrom d₁ d₂ d' b p → d'.Holds ks' := by
  obtain ⟨as, hl, hk, _⟩ := id h
  have hch := hl.chain
  rw [htab] at hch
  have hch' : Chain FdTable.next d.fds (some hd) as := hch
  cases hch with
  | @cons _ c cs hc ht =>
  obtain ⟨k, ks', rfl⟩ : ∃ k ks', ks = k :: ks' := by
    cases ks with
    | nil => simp [Desc.column] at hk
    | cons k ks' => exact ⟨k, ks', rfl⟩
  have hkc : c.key = k := by
    have : (d.fds hd).map FdTable.key = some k := (List.cons_eq_cons.mp hk).1
    rw [hc] at this
    exact Option.some.inj this
  by_cases hi : (k.1 : Int) = fd
  · obtain ⟨d₁', hu', hst, htab₁, hkey, hrest⟩ := h.closed_first htab hi
    rw [hu'] at hu
    cases hu
    exact ⟨hd, k, ks', rfl, Or.inl rfl, hi, hst, htab₁, hkey, hrest⟩
  · -- the loop has run, so the last node matches
    have hloop : ∃ r, unlinkLoop fd d.brk (some hd) d.fds none = .ok r := by
      unfold Desc.unlink at hu
      obtain ⟨first, hf, hu⟩ := ExceptLib.bind_eq_ok.mp hu
      obtain ⟨_, ⟨⟩, hf⟩ := load_eq_ok.mp hf
      rw [hc] at hf
      cases hf
      rw [if_neg (by rw [← hkc] at hi; exact hi)] at hu
      obtain ⟨r, hr, _⟩ := ExceptLib.bind_eq_ok.mp hu
      exact ⟨r, hr⟩
    obtain ⟨r, hr⟩ := hloop
    obtain hno | ⟨bs, b, e, has, hbs, he, hei⟩ := unlinkLoop_ok hch' hr
    · cases hno
    obtain ⟨ls, l, hls⟩ : ∃ ls l, k :: ks' = ls ++ [l] := by
      rcases List.eq_nil_or_concat (k :: ks') with hno | ⟨ls, l, hls⟩
      · cases hno
      · exact ⟨ls, l, by rw [hls, List.concat_eq_append]⟩
    rw [hls] at h hn hk
    have hlk : (l.1 : Int) = fd := by
      rw [has, column_append, List.map_append] at hk
      have := (List.append_inj' hk rfl).2
      simp only [Desc.column, List.map_cons, List.map_nil, he, Option.map_some, List.cons.injEq, Option.some.injEq,
        and_true] at this
      rw [← this]
      exact hei
    have hne : ∀ k' ∈ ls, (k'.1 : Int) ≠ fd := by
      intro k' hm hk'
      rw [List.map_append, List.nodup_append] at hn
      exact hn.2.2 k'.1 (List.mem_map_of_mem hm) l.1 (by simp) (by omega)
    obtain ⟨b', d₁', hu', hst, htab₁, hkey, hrest⟩ := h.closed_last htab hlk hne
    rw [hu'] at hu
    cases hu
    exact ⟨b', l, ls, rfl, Or.inr hls, hlk, hst, htab₁, hkey, hrest⟩

/-! ## Numbers -/

/-- The numbers from `a` on, as the code counts in 16 bits. -/
def numbers (a n : Nat) : List Nat := (List.range n).map fun j => (a + j) % 65536

theorem numbers_succ (a n : Nat) : numbers a (n + 1) = numbers a n ++ [(a + n) % 65536] := by
  simp [numbers, List.range_succ]

theorem numbers_cons (a n : Nat) : numbers a (n + 1) = a % 65536 :: numbers (a + 1) n := by
  simp only [numbers, List.range_succ_eq_map, List.map_cons, List.map_map, Nat.add_zero, List.cons.injEq, true_and]
  exact List.map_congr_left fun j _ => congrArg (· % 65536) (by simp only [Nat.succ_eq_add_one]; omega)

/-- The numbers of the nodes are consecutive. -/
def Numbered (ks : List (Nat × Option Nat)) : Prop := ∃ a, ks.map Prod.fst = numbers a ks.length

theorem numbered_nil : Numbered [] := ⟨0, rfl⟩

theorem nextIndex_numbers (a n : Nat) : nextIndex (numbers a (n + 1)) = (a + (n + 1)) % 65536 := by
  rw [numbers_succ]
  simp only [nextIndex, List.getLast?_append, List.getLast?_singleton, Option.some_or, Option.map_some,
    Option.getD_some, succ16]
  split <;> omega

theorem Numbered.opened (h : Numbered ks) (p : Option Nat) : Numbered (ks ++ [(nextIndex (ks.map Prod.fst), p)]) := by
  obtain ⟨a, ha⟩ := h
  cases ks with
  | nil => exact ⟨1, rfl⟩
  | cons k ks =>
    refine ⟨a, ?_⟩
    rw [List.map_append, ha, List.length_cons, nextIndex_numbers, List.length_append, List.length_cons,
      List.length_singleton, numbers_succ a (ks.length + 1)]
    rfl

theorem Numbered.closed {ks' : List (Nat × Option Nat)} (h : Numbered ks) (hk : ks = k :: ks' ∨ ks = ks' ++ [k]) :
    Numbered ks' := by
  obtain ⟨a, ha⟩ := h
  rcases hk with rfl | rfl
  · refine ⟨a + 1, ?_⟩
    rw [List.length_cons, numbers_cons, List.map_cons] at ha
    exact (List.cons_eq_cons.mp ha).2
  · refine ⟨a, ?_⟩
    rw [List.length_append, List.length_singleton, numbers_succ, List.map_append] at ha
    exact (List.append_inj' ha rfl).1

/-- The nodes have different numbers. -/
theorem Numbered.nodup (h : Numbered ks) (hl : ks.length ≤ 65536) : (ks.map Prod.fst).Nodup := by
  obtain ⟨a, ha⟩ := h
  rw [ha]
  refine List.Nodup.map_on (fun i hi j hj he => ?_) List.nodup_range
  rw [List.mem_range] at hi hj
  omega

end Vsfs
