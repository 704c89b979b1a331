import Vsfs.Model.Descriptor

/-!
# The descriptor list as a list

`d.Lists as`: the nodes from `fd_table->head` on are at the addresses `as`. The lemmas say what opening and closing do
to it:

- `addFdTable_cases`: `vsfs_open` adds its node behind the one `tail` points to, and returns that node's number plus
  one, or starts a list with number 1;
- `Lists.opened`: the effect on the list and on the columns of its nodes;
- `unlink_head`, `unlink_last`: `vsfs_close` on the first and on the last node.
-/

set_option autoImplicit false

namespace Vsfs

open Function HeapChain

/-- The first node of the list. -/
def TablePtr.head : TablePtr → Option Nat
  | .table h _ => h
  | _ => none

/-- The nodes of the list are at the addresses `as`, below the break, and each of them has a path. -/
structure Desc.Lists (d : Desc) (as : List Nat) : Prop where
  chain : Chain FdTable.next d.fds d.fdTable.head as
  old : ∀ a ∈ as, a < d.brk
  paths : ∀ a ∈ as, ∀ e, d.fds a = some e → e.path ≠ []

/-- `fd_table->tail` points to the last node of a list that is not empty. -/
def Desc.TailOk (d : Desc) (as : List Nat) : Prop :=
  ∀ t, as.getLast? = some t → ∃ h, d.fdTable = .table h (some t)

/-- A node can be added: there is no list or an empty one, or the node that `fd_table->tail` points to has not been
freed. -/
def Desc.TailLive (d : Desc) : Prop :=
  d.fdTable ≠ .freed ∧ ∀ h t, d.fdTable = .table (some h) t → ∃ a e, t = some a ∧ d.fds a = some e

/-- A field of the nodes, node by node. -/
def Desc.column {β : Type} (d : Desc) (f : FdTable → β) (as : List Nat) : List (Option β) :=
  as.map fun a => (d.fds a).map f

section

variable {d d' : Desc} {as : List Nat} {β : Type}

theorem Desc.Lists.congr (h : d.Lists as) (hf : d'.fds = d.fds) (ht : d'.fdTable = d.fdTable) (hb : d.brk ≤ d'.brk) :
    d'.Lists as :=
  ⟨by rw [hf, ht]; exact h.chain, fun a ha => lt_of_lt_of_le (h.old a ha) hb, by rw [hf]; exact h.paths⟩

theorem column_congr {f : FdTable → β} (h : ∀ a ∈ as, (d'.fds a).map f = (d.fds a).map f) :
    d'.column f as = d.column f as :=
  List.map_congr_left h

theorem column_append (f : FdTable → β) (as bs : List Nat) :
    d.column f (as ++ bs) = d.column f as ++ d.column f bs := List.map_append

/-- The nodes that the code's loops visit. -/
theorem Desc.Lists.reachable (h : d.Lists as) (hf : d.fdTable ≠ .freed) :
    ∃ cs, d.reachable = .ok cs ∧ cs.map Prod.fst = as ∧ ∀ x ∈ cs, d.fds x.1 = some x.2 := by
  have hw := walk_chain Fault.useAfterFree .diverges h.chain d.brk (h.chain.length_le h.old)
  unfold Desc.reachable
  cases ht : d.fdTable with
  | freed => exact absurd ht hf
  | null =>
    rw [ht] at hw
    obtain ⟨cs, hr, hm, hx⟩ := hw
    have : cs = [] := by cases hb : d.brk <;> rw [hb] at hr <;> cases hr <;> rfl
    subst this
    exact ⟨[], rfl, hm, hx⟩
  | table hd tl =>
    rw [ht] at hw
    exact hw

/-- The same with a field of every node. -/
theorem Desc.Lists.reachable_column (h : d.Lists as) (hf : d.fdTable ≠ .freed) {f : FdTable → β} {xs : List β}
    (hx : d.column f as = xs.map some) :
    ∃ cs, d.reachable = .ok cs ∧ cs.map Prod.fst = as ∧ cs.map (fun c => f c.2) = xs := by
  obtain ⟨cs, hr, hm, hc⟩ := h.reachable hf
  refine ⟨cs, hr, hm, ?_⟩
  have hcol : (cs.map fun c => f c.2).map some = xs.map some := by
    rw [← hx, ← hm, Desc.column, List.map_map, List.map_map]
    exact List.map_congr_left fun c hcm => by simp [hc c hcm]
  exact List.map_injective_iff.mpr (Option.some_injective β) hcol

/-! ## `vsfs_open` -/

/-- All that adding a node can do. -/
theorem addFdTable_cases {ret : Int} {a : Nat} (h : d.addFdTable = .ok (ret, a, d')) :
    a = d.brk ∧ d.fdTable ≠ .freed ∧
    ((d.fdTable.head = none ∧ ret = 1 ∧
      d' = { d with
        fds := update d.fds d.brk (some ⟨1, none, [0], none, none⟩)
        fdTable := .table (some d.brk) (some d.brk), brk := d.brk + 1 }) ∨
    ∃ hd t tail, d.fdTable = .table (some hd) (some t) ∧ d.fds t = some tail ∧ ret = tail.index + 1 ∧
      d' = { d with
        fds := update (update d.fds d.brk (some ⟨succ16 tail.index, none, [0], none, none⟩)) t
          (some { tail with next := some d.brk })
        fdTable := .table (some hd) (some d.brk), brk := d.brk + 1 }) := by
  unfold Desc.addFdTable at h
  split at h
  case h_1 => cases h
  case h_2 ht => cases h; exact ⟨rfl, by rw [ht]; simp, Or.inl ⟨by rw [ht]; rfl, rfl, rfl⟩⟩
  case h_3 ht => cases h; exact ⟨rfl, by rw [ht]; simp, Or.inl ⟨by rw [ht]; rfl, rfl, rfl⟩⟩
  case h_4 => cases h
  case h_5 hd t ht =>
    obtain ⟨tail, hl, hr⟩ := ExceptLib.bind_eq_ok.mp h
    cases hr
    have hc : d.fds t = some tail := by
      unfold load at hl
      simp only at hl
      split at hl <;> cases hl
      assumption
    exact ⟨rfl, by rw [ht]; simp, Or.inr ⟨hd, t, tail, ht, hc, rfl, rfl⟩⟩

/-- Adding a node works exactly if the list can be used: behind a node that has been freed, or in a header that has been,
it does not. -/
theorem addFdTable_ok_iff : (∃ r, d.addFdTable = .ok r) ↔ d.TailLive := by
  constructor
  · rintro ⟨⟨ret, a, d'⟩, h⟩
    obtain ⟨-, hlive, ⟨hnil, -⟩ | ⟨hd, t, tail, ht, htail, -⟩⟩ := addFdTable_cases h
    · refine ⟨hlive, fun h t ht => ?_⟩
      rw [ht] at hnil
      cases hnil
    · refine ⟨hlive, fun h t' ht' => ?_⟩
      rw [ht] at ht'
      cases ht'
      exact ⟨t, tail, rfl, htail⟩
  · rintro ⟨hlive, htail⟩
    unfold Desc.addFdTable
    split
    case h_1 ht => exact absurd ht hlive
    case h_2 => exact ⟨_, rfl⟩
    case h_3 => exact ⟨_, rfl⟩
    case h_4 h ht =>
      obtain ⟨a, e, hno, -⟩ := htail h none ht
      cases hno
    case h_5 h t ht =>
      obtain ⟨a, e, hta, he⟩ := htail h (some t) ht
      cases hta
      unfold load
      simp only [he, ExceptLib.ok_bind]
      exact ⟨_, rfl⟩

/-- Adding a node keeps the table of open files. -/
theorem addFdTable_optab {ret : Int} {a : Nat} (h : d.addFdTable = .ok (ret, a, d')) :
    d'.count = d.count ∧ d'.opFtable = d.opFtable ∧ d'.brk = d.brk + 1 := by
  obtain ⟨_, _, ⟨_, _, rfl⟩ | ⟨_, _, _, _, _, _, rfl⟩⟩ := addFdTable_cases h <;> exact ⟨rfl, rfl, rfl⟩

theorem addFdTable_files {ret : Int} {a : Nat} (h : d.addFdTable = .ok (ret, a, d')) : d'.files = d.files := by
  obtain ⟨_, _, ⟨_, _, rfl⟩ | ⟨_, _, _, _, _, _, rfl⟩⟩ := addFdTable_cases h <;> rfl

/-- The number of the node that is added behind a list with the numbers `is`. -/
def nextIndex (is : List Nat) : Nat := (is.getLast?.map succ16).getD 1

/-- The number and the slot of a node. -/
def FdTable.key (e : FdTable) : Nat × Option Nat := (e.index, e.ptr)

/-- Adding a node behind the list. -/
theorem Desc.Lists.added {ret : Int} {a : Nat} (h : d.addFdTable = .ok (ret, a, d')) (hl : d.Lists as)
    (ht : d.TailOk as) {ks : List (Nat × Option Nat)} (hk : d.column FdTable.key as = ks.map some) :
    d'.Lists (as ++ [a]) ∧ d'.TailOk (as ++ [a]) ∧
    d'.column FdTable.key (as ++ [a]) = (ks ++ [(nextIndex (ks.map Prod.fst), none)]).map some ∧
    (ret = 1 ∧ ks = [] ∨ ∃ k, ks.getLast? = some k ∧ ret = k.1 + 1) := by
  obtain ⟨rfl, _, ⟨hh, rfl, rfl⟩ | ⟨hd, t, tail, htab, hc, rfl, rfl⟩⟩ := addFdTable_cases h
  · -- the list was empty
    have hnil : as = [] := by
      have hch := hl.chain
      rw [hh] at hch
      exact hch.eq_nil_iff.mpr rfl
    subst hnil
    have hks : ks = [] := by simpa [Desc.column] using hk
    subst hks
    refine ⟨⟨.cons (update_self ..) .nil, by simp, by simp⟩, ?_, ?_, Or.inl ⟨rfl, rfl⟩⟩
    · intro x hx
      simp only [List.nil_append, List.getLast?_singleton, Option.some.injEq] at hx
      subst hx
      exact ⟨_, rfl⟩
    · simp [Desc.column, FdTable.key, nextIndex]
  · -- the node goes behind the last one, which `tail` points to
    have hch := hl.chain
    rw [htab] at hch
    have hne : as ≠ [] := fun he => by
      rw [he] at hch
      cases hch
    obtain ⟨t', ht'⟩ : ∃ t', as.getLast? = some t' := ⟨_, List.getLast?_eq_some_getLast hne⟩
    obtain ⟨_, he⟩ := ht t' ht'
    rw [htab] at he
    cases he
    have hbrk : d.brk ∉ as := fun hm => absurd (hl.old _ hm) (by omega)
    have htm : t ∈ as := List.mem_of_getLast? ht'
    have htb : t ≠ d.brk := by rintro rfl; exact hbrk htm
    have hkl : ∃ k, ks.getLast? = some k ∧ k = tail.key := by
      have := congrArg List.getLast? hk
      rw [Desc.column, List.getLast?_map, ht', List.getLast?_map] at this
      simp only [Option.map_some, hc] at this
      obtain ⟨k, hk', hke⟩ := Option.map_eq_some_iff.mp this.symm
      exact ⟨k, hk', by simpa using hke⟩
    obtain ⟨k, hkl, rfl⟩ := hkl
    refine ⟨⟨hch.snoc ht' hc hbrk rfl rfl, ?_, ?_⟩, ?_, ?_, Or.inr ⟨_, hkl, rfl⟩⟩
    · intro x hx
      rcases List.mem_append.mp hx with hx | hx
      · exact Nat.lt_succ_of_lt (hl.old x hx)
      · simp only [List.mem_singleton] at hx
        subst hx
        exact Nat.lt_succ_self _
    · intro x hx e he
      dsimp only at he
      by_cases hxt : x = t
      · subst hxt
        rw [update_self, Option.some.injEq] at he
        subst he
        exact hl.paths x htm tail hc
      · rcases List.mem_append.mp hx with hx | hx
        · have hxb : x ≠ d.brk := by rintro rfl; exact hbrk hx
          rw [update_of_ne hxt, update_of_ne hxb] at he
          exact hl.paths x hx e he
        · simp only [List.mem_singleton] at hx
          subst hx
          simp only [update_of_ne hxt, update_self, Option.some.injEq] at he
          subst he
          simp
    · intro x hx
      simp only [List.getLast?_append, List.getLast?_singleton, Option.some_or, Option.some.injEq] at hx
      subst hx
      exact ⟨_, rfl⟩
    · rw [column_append, List.map_append, ← hk]
      congr 1
      · apply column_congr
        intro x hx
        by_cases hxt : x = t
        · subst hxt
          simp [hc, FdTable.key]
        · have hxb : x ≠ d.brk := by rintro rfl; exact hbrk hx
          simp [update_of_ne hxt, update_of_ne hxb]
      · simp [Desc.column, update_of_ne htb.symm, FdTable.key, nextIndex, hkl]

/-- Taking a slot for the last node: the node then points at the slot. -/
theorem Desc.Lists.took {a : Nat} (inode : Nat) (filePtr : Option Nat) (flags : Int) (hl : d.Lists (as ++ [a]))
    {ks : List (Nat × Option Nat)} {i : Nat} {x : Option Nat}
    (hk : d.column FdTable.key (as ++ [a]) = (ks ++ [(i, x)]).map some) :
    (d.takeSlot a inode filePtr flags).Lists (as ++ [a]) ∧
    (d.takeSlot a inode filePtr flags).column FdTable.key (as ++ [a]) = (ks ++ [(i, some d.count)]).map some := by
  have ha : a ∉ as := fun hm => by
    have hnd := hl.chain.nodup
    rw [List.nodup_append] at hnd
    exact hnd.2.2 a hm a (List.mem_singleton.mpr rfl) rfl
  obtain ⟨e, hc⟩ := hl.chain.live a (List.mem_append_right _ (List.mem_singleton.mpr rfl))
  have hfds : (d.takeSlot a inode filePtr flags).fds =
      update d.fds a (some { e with ptr := some d.count, path := [0, inode], flags := openFlags flags }) := by
    simp [Desc.takeSlot, hc]
  rw [column_append, List.map_append] at hk
  obtain ⟨hka, hke⟩ := List.append_inj' hk rfl
  refine ⟨⟨?_, hl.old, ?_⟩, ?_⟩
  · rw [hfds]
    exact hl.chain.update_data hc rfl
  · intro y hy e' he'
    rw [hfds] at he'
    by_cases hya : y = a
    · subst hya
      rw [update_self, Option.some.injEq] at he'
      subst he'
      simp
    · rw [update_of_ne hya] at he'
      exact hl.paths y hy e' he'
  · rw [column_append, List.map_append]
    congr 1
    · rw [← hka]
      apply column_congr
      intro y hy
      rw [hfds, update_of_ne (by rintro rfl; exact ha hy)]
    · have hidx : e.index = i := by
        simp only [Desc.column, List.map_cons, List.map_nil, hc, Option.map_some, FdTable.key, List.cons.injEq,
          Option.some.injEq, Prod.mk.injEq] at hke
        exact hke.1.1
      simp [Desc.column, hfds, FdTable.key, hidx]

/-- **Opening**: the node that `vsfs_open` has added and given the next slot is the last one of the list. -/
theorem Desc.Lists.opened (d₂ : Desc) (inode : Nat) (filePtr : Option Nat) (flags : Int) {d₁ : Desc} {ret : Int}
    {a : Nat} (h : d.addFdTable = .ok (ret, a, d₁)) (hf : d₂.fds = d₁.fds) (ht : d₂.fdTable = d₁.fdTable)
    (hb : d₁.brk ≤ d₂.brk) (hc : d₂.count = d₁.count) (hl : d.Lists as) (htail : d.TailOk as)
    {ks : List (Nat × Option Nat)} (hk : d.column FdTable.key as = ks.map some) :
    (d₂.takeSlot a inode filePtr flags).Lists (as ++ [a]) ∧ (d₂.takeSlot a inode filePtr flags).TailOk (as ++ [a]) ∧
    (d₂.takeSlot a inode filePtr flags).column FdTable.key (as ++ [a]) =
      (ks ++ [(nextIndex (ks.map Prod.fst), some d.count)]).map some ∧
    (ret = 1 ∧ ks = [] ∨ ∃ k, ks.getLast? = some k ∧ ret = k.1 + 1) := by
  obtain ⟨hl₁, ht₁, hk₁, hret⟩ := hl.added h htail hk
  have hk₂ : d₂.column FdTable.key (as ++ [a]) = (ks ++ [(nextIndex (ks.map Prod.fst), none)]).map some := by
    rw [← hk₁]
    exact column_congr fun _ _ => by rw [hf]
  obtain ⟨hl₃, hk₃⟩ := (hl₁.congr hf ht hb).took inode filePtr flags hk₂
  refine ⟨hl₃, fun t hta => ?_, ?_, hret⟩
  · obtain ⟨hd, htab⟩ := ht₁ t hta
    exact ⟨hd, ht.trans htab⟩
  · rw [hk₃, hc, (addFdTable_optab h).1]

/-! ## `vsfs_close` -/

/-- Closing the first node. -/
theorem unlink_head {fildes : Int} {hd : Nat} {tl : Option Nat} {e : FdTable} (hc : d.fds hd = some e)
    (hi : (e.index : Int) = fildes) :
    d.unlink fildes hd tl = .ok (some hd, { d with fdTable := .table e.next tl }) := by
  simp [Desc.unlink, load, hc, hi]

/-- The loop of `vsfs_close` when only the last node matches: it is unlinked. -/
theorem unlinkLoop_last {fildes : Int} {a b : Nat} {ea eb : FdTable} {bs : List Nat} {h : Heap FdTable} {p : Option Nat}
    {rm : Option Nat} {n : Nat} (hch : Chain FdTable.next h p (bs ++ [a, b])) (ha : h a = some ea) (hb : h b = some eb)
    (hi : (eb.index : Int) = fildes) (hne : ∀ x ∈ (bs ++ [a]).tail, ∀ e, h x = some e → (e.index : Int) ≠ fildes)
    (hn : bs.length + 2 ≤ n) :
    unlinkLoop fildes n p h rm = .ok (some b, update h a (some { ea with next := none })) := by
  induction bs generalizing p n rm with
  | nil =>
    cases hch with
    | cons hc ht =>
      rw [ha] at hc
      cases hc
      generalize hnx : ea.next = nx at ht
      cases ht with
      | cons hc' ht' =>
        rw [hb] at hc'
        cases hc'
        have hnil : eb.next = none := ht'.eq_nil_iff.mp rfl
        obtain ⟨n, rfl⟩ := Nat.exists_eq_succ_of_ne_zero (by omega : n ≠ 0)
        simp only [unlinkLoop, load, ha, hnx, hb, hi, ExceptLib.ok_bind, if_true, hnil]
  | cons x bs ih =>
    cases hch with
    | cons hc ht =>
      rename_i c
      obtain ⟨n, rfl⟩ := Nat.exists_eq_succ_of_ne_zero (by omega : n ≠ 0)
      -- the next node exists and is not the one looked for
      obtain ⟨y, ys, hys⟩ : ∃ y ys, bs ++ [a] = y :: ys := by cases bs <;> exact ⟨_, _, rfl⟩
      have hys' : bs ++ [a, b] = y :: (ys ++ [b]) := by
        rw [show [a, b] = [a] ++ [b] from rfl, ← List.append_assoc, hys, List.cons_append]
      have ht' : Chain FdTable.next h c.next (bs ++ [a, b]) := ht
      rw [hys'] at ht'
      generalize hnx : c.next = nx at ht'
      cases ht' with
      | cons hcy hty =>
        rename_i cy
        have hny := hne y (by simp [hys]) cy hcy
        have hrec : unlinkLoop fildes n c.next h rm = _ := ih ht (fun z hz e he => hne z (by
          rw [List.cons_append, List.tail_cons]
          exact List.mem_of_mem_tail hz) e he) (by simp only [List.length_cons] at hn; omega)
        rw [hnx] at hrec
        simp only [unlinkLoop, load, hc, hnx, hcy, ExceptLib.ok_bind, if_neg hny]
        exact hrec

/-- Only the nodes of the list have changed. -/
structure Desc.SameTable (d d' : Desc) : Prop where
  opFtable : d'.opFtable = d.opFtable
  count : d'.count = d.count
  files : d'.files = d.files
  brk : d'.brk = d.brk
  opCounter : d'.opCounter = d.opCounter

/-- Closing the last node when no other one has its number: the nodes before it are left. -/
theorem unlink_last (fildes : Int) {hd b : Nat} {tl : Option Nat} {bs : List Nat} {ks : List (Nat × Option Nat)}
    {k : Nat × Option Nat} (hl : d.Lists (bs ++ [b])) (htab : d.fdTable = .table (some hd) tl)
    (hk : d.column FdTable.key (bs ++ [b]) = (ks ++ [k]).map some) (hfd : (k.1 : Int) = fildes)
    (hne : ∀ k' ∈ ks, (k'.1 : Int) ≠ fildes) :
    ∃ d' next, d.unlink fildes hd tl = .ok (some b, d') ∧ d.SameTable d' ∧ d'.fdTable = .table next tl ∧
      (next = none → bs = []) ∧ d'.fds b = d.fds b ∧ (d.fds b).map FdTable.key = some k ∧
      (∀ x, d.fds x = none → d'.fds x = none) ∧
      ∀ d'' : Desc, d''.fds = update d'.fds b none → d''.brk = d.brk → d''.fdTable.head = next →
        d''.Lists bs ∧ d''.column FdTable.key bs = ks.map some := by
  have hch := hl.chain
  rw [htab] at hch
  rw [column_append, List.map_append] at hk
  obtain ⟨hkb, hkk⟩ := List.append_inj' hk rfl
  have hkb' : (d.fds b).map FdTable.key = some k := by simpa [Desc.column] using hkk
  have hbnot : b ∉ bs := fun hm => by
    have hnd := hch.nodup
    rw [List.nodup_append] at hnd
    exact hnd.2.2 b hm b (List.mem_singleton.mpr rfl) rfl
  obtain ⟨eb, heb⟩ := hch.live b (by simp)
  have hbi : (eb.index : Int) = fildes := by
    rw [heb, Option.map_some, Option.some.injEq] at hkb'
    rw [← hfd, ← hkb']
    rfl
  rcases List.eq_nil_or_concat bs with rfl | ⟨cs, a, rfl⟩
  · -- the only node
    have hhd : hd = b ∧ eb.next = none := by
      cases hch with
      | cons hc ht =>
        rw [heb] at hc
        cases hc
        cases hn : eb.next with
        | none => exact ⟨rfl, rfl⟩
        | some n => rw [hn] at ht; cases ht
    obtain ⟨rfl, hnext⟩ := hhd
    refine ⟨_, _, unlink_head heb hbi, ⟨rfl, rfl, rfl, rfl, rfl⟩, rfl, fun _ => rfl, rfl, hkb',
      fun _ h => h, ?_⟩
    intro d'' _ _ hh
    refine ⟨⟨?_, by simp, by simp⟩, ?_⟩
    · rw [hh, hnext]
      exact .nil
    · have : ks = [] := by simpa [Desc.column] using hkb
      subst this
      rfl
  · -- the node before it is relinked
    rw [List.concat_eq_append] at *
    have hother : ∀ x ∈ cs ++ [a], ∀ e, d.fds x = some e → (e.index : Int) ≠ fildes := by
      intro x hx e he
      have : (d.fds x).map FdTable.key ∈ ks.map some := hkb ▸ List.mem_map_of_mem hx
      obtain ⟨k', hk', hke⟩ := List.mem_map.mp this
      rw [he, Option.map_some, Option.some.injEq] at hke
      have := hne k' hk'
      rwa [hke] at this
    obtain ⟨ea, hea⟩ := hch.live a (by simp)
    have hab : a ≠ b := fun h => hbnot (by simp [h])
    have hsplit : cs ++ [a] ++ [b] = cs ++ [a, b] := by simp
    have hloop : unlinkLoop fildes d.brk (some hd) d.fds none = _ := unlinkLoop_last (hsplit ▸ hch) hea heb hbi
      (fun x hx e he => hother x (List.mem_of_mem_tail hx) e he)
      (by have := hl.chain.length_le hl.old; simp only [List.length_append, List.length_singleton] at this; omega)
    obtain ⟨ehd, hehd⟩ := hch.live hd (by
      cases cs with
      | nil => cases hch; simp
      | cons x cs => cases hch; simp)
    have hfirst : (ehd.index : Int) ≠ fildes := by
      refine hother hd ?_ ehd hehd
      cases cs with
      | nil => cases hch; simp
      | cons x cs => cases hch; simp
    refine ⟨{ d with fds := update d.fds a (some { ea with next := none }) }, some hd, ?_, ⟨rfl, rfl, rfl, rfl, rfl⟩,
      htab, by simp, by simp [update_of_ne hab.symm], hkb', fun x hx => ?_, ?_⟩
    · simp only [Desc.unlink, load, hehd, ExceptLib.ok_bind, if_neg hfirst, hloop]
    · have hxa : x ≠ a := by rintro rfl; rw [hea] at hx; cases hx
      simp only [update_of_ne hxa]
      exact hx
    · intro d'' hf hb hh
      have hsame : ∀ x ∈ cs ++ [a], ∀ e, d''.fds x = some e → ∃ e', d.fds x = some e' ∧ e'.key = e.key ∧
          e'.path = e.path := by
        intro x hx e he
        have hxb : x ≠ b := fun h => hbnot (h ▸ hx)
        rw [hf, update_of_ne hxb] at he
        by_cases hxa : x = a
        · subst hxa
          simp only [update_self, Option.some.injEq] at he
          subst he
          exact ⟨ea, hea, rfl, rfl⟩
        · simp only [update_of_ne hxa] at he
          exact ⟨e, he, rfl, rfl⟩
      have hch'' : Chain FdTable.next d''.fds d''.fdTable.head (cs ++ [a]) := by
        rw [hf, hh]
        exact hch.dropLast hsplit rfl none
      refine ⟨⟨hch'', fun x hx => hb ▸ hl.old x (List.mem_append_left _ hx), ?_⟩, ?_⟩
      · intro x hx e he
        obtain ⟨e', he', _, hp⟩ := hsame x hx e he
        rw [← hp]
        exact hl.paths x (List.mem_append_left _ hx) e' he'
      · rw [← hkb]
        apply column_congr
        intro x hx
        obtain ⟨e, he⟩ := hch''.live x hx
        obtain ⟨e', he', hkey, _⟩ := hsame x hx e he
        rw [he, he', Option.map_some, Option.map_some, hkey]

end

end Vsfs
