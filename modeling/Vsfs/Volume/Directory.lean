import Vsfs.Volume.CreatFrame

/-!
# The directory as an association list

`Directory v es`: the slots of the root directory hold the names and inode numbers of `es`, in order, and directory
block `k` is data block `k`.

- `lookup_eq`: the search of `vsfs_open` and `vsfs_stat` is a lookup in the list;
- `dupScan_eq`: the duplicate check of `vsfs_creat` looks for the name in the list;
- `CreatDone.directory`: `vsfs_creat` appends the name, as long as a new directory block gets the next number.
-/

set_option autoImplicit false

namespace Vsfs

open Function ByteSeq WordBits

/-- The root directory holds `es`. -/
structure Directory (v : Volume) (es : List (CStr × Nat)) : Prop where
  entry : (v.inode 0).entry = es.length
  fits : es.length ≤ 16 * (v.inode 0).blocks
  blocks : (v.inode 0).blocks ≤ 49
  map : ∀ k, k < (v.inode 0).blocks → (v.inode 0).l1 k = k
  short : ∀ e, e ∈ es → e.1.strlen < filenameLen
  named : ∀ k e, es[k]? = some e → slotNamed (v.disk (v.lba (k / 16))) (k % 16) e.1 = true
  inode : ∀ k e, es[k]? = some e → slotInode (v.disk (v.lba (k / 16))) (k % 16) = e.2

variable {v w : Volume} {B : Nat} {es : List (CStr × Nat)}

theorem Directory.slotInDirectory (h : Directory v es) : SlotInDirectory v := by
  have he := h.entry
  have hf := h.fits
  refine ⟨by omega, h.blocks, fun hs => ?_⟩
  have hlt := (hasSlot_iff h.blocks).mp hs
  exact h.map _ (by omega)

/-! ## Searching -/

/-- The slot of entry `i` holds its name and no other. -/
theorem Directory.slotNamed_iff (h : Directory v es) {i : Nat} (hi : i < es.length) (name : CStr) :
    slotNamed (v.disk (v.lba (i / 16))) (i % 16) name = (name == es[i].1) := by
  have hn := h.named i es[i] (List.getElem?_eq_getElem hi)
  cases hs : slotNamed (v.disk (v.lba (i / 16))) (i % 16) name with
  | true => rw [slotNamed_unique _ hs hn, beq_self_eq_true]
  | false =>
    symm
    rw [beq_eq_false_iff_ne]
    rintro rfl
    rw [hn] at hs
    contradiction

theorem Directory.l1At_eq (h : Directory v es) {i : Nat} (hi : i < es.length) :
    (v.inode 0).l1At (i / 16) = .ok (i / 16) := by
  have hf := h.fits
  have hb := h.blocks
  have hlt : i / 16 < (v.inode 0).blocks := by omega
  unfold Inode.l1At level1Limit
  rw [if_pos (by omega), h.map _ hlt]

/-- **The search of `vsfs_open` and `vsfs_stat`** is a lookup in the list. -/
theorem lookup_eq (h : Directory v es) (name : CStr) {n i : Nat} (hn : i + n = es.length) :
    lookup v name n i = .ok ((es.drop i).lookup name) := by
  induction n generalizing i with
  | zero =>
    rw [List.drop_of_length_le (by omega)]
    rfl
  | succ n ih =>
    have hi : i < es.length := by omega
    have hlen : es.length ≤ 784 := by have := h.fits; have := h.blocks; omega
    have hj : (i + (2 ^ 32 - 16 * (i / 16) % 2 ^ 32)) % 2 ^ 32 = i % 16 := by omega
    unfold lookup
    rw [h.l1At_eq hi]
    simp only [ExceptLib.ok_bind, hj]
    rw [if_neg (by unfold filesPerBlock; omega), h.slotNamed_iff hi, List.drop_eq_getElem_cons hi, List.lookup_cons]
    cases name == es[i].1 with
    | true => rw [if_pos rfl, h.inode i es[i] (List.getElem?_eq_getElem hi)]
    | false => exact ih (by omega)

theorem lookup_directory (h : Directory v es) (name : CStr) : lookup v name (v.inode 0).entry 0 = .ok (es.lookup name) := by
  rw [h.entry]
  exact lookup_eq h name (Nat.zero_add _)

/-- **The duplicate check of `vsfs_creat`**; `buf` is the block of the entry before. -/
theorem dupScan_eq (h : Directory v es) (name : CStr) {n i : Nat} {buf : Block} (hn : i + n = es.length)
    (hbuf : i % 16 ≠ 0 → buf = v.disk (v.lba (i / 16))) :
    dupScan v name n i buf = .ok ((es.drop i).lookup name).isSome := by
  induction n generalizing i buf with
  | zero =>
    rw [List.drop_of_length_le (by omega)]
    rfl
  | succ n ih =>
    have hi : i < es.length := by omega
    have hf := h.fits
    have hb := h.blocks
    have hmap : (v.inode 0).l1 (i / 16) = i / 16 := h.map _ (by omega)
    have hread := entryBlock_eq (i := i) (q := i / 16) (by unfold level1Limit; omega) (fun _ => rfl) (by rwa [hmap])
    rw [hmap] at hread
    unfold dupScan
    rw [hread]
    simp only [ExceptLib.ok_bind]
    rw [h.slotNamed_iff hi, List.drop_eq_getElem_cons hi, List.lookup_cons]
    cases name == es[i].1 with
    | true => rfl
    | false => exact ih (by omega) fun h0 => by rw [show (i + 1) / 16 = i / 16 by omega]

theorem dupScan_directory (h : Directory v es) (name : CStr) (buf : Block) :
    dupScan v name (v.inode 0).entry 0 buf = .ok (es.lookup name).isSome := by
  rw [h.entry]
  exact dupScan_eq h name (Nat.zero_add _) fun h0 => absurd rfl h0

/-! ## Creating a file -/

/-- A slot with the same bytes holds the same name and inode number. -/
theorem slot_congr {b c : Block} {j : Nat} (h : ∀ k, k < 256 → b (256 * j + k) = c (256 * j + k)) :
    slotInode b j = slotInode c j ∧ ∀ name : CStr, name.strlen < filenameLen → slotNamed b j name = slotNamed c j name := by
  refine ⟨u16_congr fun k hk => h k (by omega), fun name hn => strAt_congr fun k hk => ?_⟩
  unfold CStr.strlen filenameLen at hn
  rw [Nat.add_assoc]
  exact h (2 + k) (by omega)

/-- The directory with one entry more: the old slots are as they were, the new one is filled. -/
theorem Directory.snoc {name : CStr} {i : Nat} (h : Directory v es) (hi : i < nrInodes)
    (hname : name.strlen < filenameLen) (hentry : (w.inode 0).entry = es.length + 1)
    (hfits : es.length + 1 ≤ 16 * (w.inode 0).blocks) (hblocks : (w.inode 0).blocks ≤ 49)
    (hmap : ∀ k, k < (w.inode 0).blocks → (w.inode 0).l1 k = k) (hlba : ∀ b, w.lba b = v.lba b)
    (hold : ∀ k, k < es.length → ∀ j, j < 256 →
      w.disk (v.lba (k / 16)) (256 * (k % 16) + j) = v.disk (v.lba (k / 16)) (256 * (k % 16) + j))
    (hnew : ∃ x, w.disk (v.lba (es.length / 16)) = setSlot x (es.length % 16) i name) :
    Directory w (es ++ [(name, i)]) := by
  -- an entry of the new list is an old one or the last
  have hcases : ∀ k e, (es ++ [(name, i)])[k]? = some e →
      (k < es.length ∧ es[k]? = some e) ∨ k = es.length ∧ e = (name, i) := by
    intro k e he
    rcases Nat.lt_trichotomy k es.length with hk | hk | hk
    · rw [List.getElem?_append_left hk] at he
      exact Or.inl ⟨hk, he⟩
    · subst hk
      rw [List.getElem?_append_right (Nat.le_refl _)] at he
      simp only [Nat.sub_self, List.getElem?_cons_zero, Option.some.injEq] at he
      exact Or.inr ⟨rfl, he.symm⟩
    · rw [List.getElem?_eq_none (by simp only [List.length_append, List.length_singleton]; omega)] at he
      cases he
  refine ⟨by rw [hentry]; simp, by simpa using hfits, hblocks, hmap, fun e he => ?_, fun k e he => ?_, fun k e he => ?_⟩
  · rcases List.mem_append.mp he with he | he
    · exact h.short e he
    · rw [List.mem_singleton.mp he]
      exact hname
  · rw [hlba]
    rcases hcases k e he with ⟨hk, he⟩ | ⟨rfl, rfl⟩
    · rw [(slot_congr (hold k hk)).2 _ (h.short e (List.mem_of_getElem? he))]
      exact h.named k e he
    · obtain ⟨x, hx⟩ := hnew
      rw [hx]
      exact slotNamed_setSlot_self x _ i name
  · rw [hlba]
    rcases hcases k e he with ⟨hk, he⟩ | ⟨rfl, rfl⟩
    · rw [(slot_congr (hold k hk)).1]
      exact h.inode k e he
    · obtain ⟨x, hx⟩ := hnew
      unfold nrInodes at hi
      rw [hx, slotInode_setSlot_self, Nat.mod_eq_of_lt (by omega)]

/-- **`vsfs_creat` of a new name** appends it, provided that a new directory block gets the next number. -/
theorem CreatDone.directory {now m i : Nat} {name : CStr} {ret : Int} (hs : v.Sound B) (h : Directory v es)
    (hname : name.strlen < filenameLen)
    (hnext : ¬(v.inode 0).HasSlot → (v.inode 0).blocks < 49 → bit v.cached.dbitmap (v.inode 0).blocks = true)
    (hc : CreatDone B now name m i v w ret) :
    (ret = 0 ∧ Directory w (es ++ [(name, i)])) ∨ (ret = -1 ∧ w = v) := by
  have hframe := hc.frame hs hname h.slotInDirectory
  have hentry := h.entry
  have hfits := h.fits
  have hblocks := h.blocks
  have hold : ∀ k, k < es.length → ∀ j, j < 256 →
      w.disk (v.lba (k / 16)) (256 * (k % 16) + j) = v.disk (v.lba (k / 16)) (256 * (k % 16) + j) := by
    intro k hk j hj
    have := hframe.slots k (by omega) j hj
    rwa [h.map _ (by omega)] at this
  cases hc with
  | @slot u hslot hp hroot hm ha =>
    have hlt := (hasSlot_iff hblocks).mp hslot
    refine Or.inl ⟨rfl, ?_⟩
    have hwroot := ha.root
    rw [hroot] at hwroot
    have hu : (0, Ref.l1 ((v.inode 0).entry / 16)) ∈ u.used :=
      directory_used (by rw [hroot]; exact hblocks) (by rw [hroot]; omega)
    have hval : u.val (0, .l1 ((v.inode 0).entry / 16)) = (v.inode 0).entry / 16 := by
      simp only [Volume.val, hroot]
      exact h.map _ (by omega)
    have hwritten := ha.slot_written hp hu hval
    refine h.snoc ha.lt hname ?_ ?_ ?_ ?_ (fun b => lba_congr (hp.evolves.trans ha.evolves).ofsDregion rfl) hold
      ⟨v.disk (v.lba (es.length / 16)), ?_⟩
    · rw [hwroot]
      show succ32 (v.inode 0).entry = _
      rw [succ32_of_lt (by omega), hentry]
    · rw [hwroot]
      show es.length + 1 ≤ 16 * (v.inode 0).blocks
      omega
    · rw [hwroot]
      exact hblocks
    · rw [hwroot]
      exact h.map
    · rw [hentry] at hwritten
      rw [hwritten, show es.length - es.length / 16 * 16 = es.length % 16 by omega]
  | @grow u b hslot hb hp hroot hl ha =>
    have hfull : es.length = 16 * (v.inode 0).blocks := by
      have := mt (hasSlot_iff hblocks).mpr hslot
      omega
    -- the lowest free block is the number of blocks of the directory
    obtain rfl : b = (v.inode 0).blocks := by
      have hfree := hnext hslot hb
      rcases Nat.lt_trichotomy b (v.inode 0).blocks with hlt | he | hlt
      · have hval : v.val (0, .l1 b) = b := h.map b hlt
        exact absurd hl.bit (hval ▸ hs.owns.owned.used _ (directory_used hblocks hlt))
      · exact he
      · rw [hl.low _ hlt] at hfree
        contradiction
    refine Or.inl ⟨rfl, ?_⟩
    have hwroot := ha.root
    rw [hroot] at hwroot
    have hu : (0, Ref.l1 (v.inode 0).blocks) ∈ u.used :=
      directory_used (by rw [hroot]; exact hb) (by rw [hroot]; exact Nat.lt_succ_self _)
    have hval : u.val (0, .l1 (v.inode 0).blocks) = (v.inode 0).blocks := by
      simp only [Volume.val, hroot, update_self]
    have hwritten := ha.slot_written hp hu hval
    have hslot0 : (v.inode 0).newSlot = 0 := by
      unfold Inode.newSlot
      omega
    refine h.snoc ha.lt hname ?_ ?_ ?_ (fun k hk => ?_) (fun b => lba_congr (hp.evolves.trans ha.evolves).ofsDregion rfl)
      hold ⟨v.disk (v.lba (es.length / 16)), ?_⟩
    · rw [hwroot]
      show succ32 (v.inode 0).entry = _
      rw [succ32_of_lt (by omega), hentry]
    · rw [hwroot]
      show es.length + 1 ≤ 16 * ((v.inode 0).blocks + 1)
      omega
    · rw [hwroot]
      exact hb
    · rw [hwroot] at hk ⊢
      have hk' : k < (v.inode 0).blocks + 1 := hk
      show update (v.inode 0).l1 (v.inode 0).blocks (v.inode 0).blocks k = k
      by_cases he : k = (v.inode 0).blocks
      · rw [he, update_self]
      · rw [update_of_ne he]
        exact h.map k (by omega)
    · rw [show es.length / 16 = (v.inode 0).blocks by omega, hwritten, hslot0, show es.length % 16 = 0 by omega]
  | full _ _ hw => exact Or.inr ⟨rfl, hw⟩

end Vsfs
