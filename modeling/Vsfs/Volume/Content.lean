import Vsfs.Lib.Paged
import Vsfs.Volume.InPlace

/-!
# What a file holds

Byte `k` of a file is found through the block map of its inode: `v.byteAt i k`. `vsfs_write` allocates, copies, and
sets the size.

- `allocBlock_ok`: with room for what it takes `__alloc_block` ends well, and the bytes of all files stay;
- `writeLoop_stored`: the loop of `__write_dblock` stores the bytes;
- `Written.blocks`: the blocks of a file after a write;
- `Step.holds`, `ReachedBy.sized`: a file has the blocks that its size needs.
-/

set_option autoImplicit false

namespace Vsfs

open Function ByteSeq PointerForest WordBits Paged

variable {v w : Volume} {B b i j n m k q r : Nat} {c : Cached} {s t : State} {sb : SbInfo}

/-! ## The bytes of a file -/

/-- The block of the device where data block `q` of inode `i` is. -/
def Volume.page (v : Volume) (i q : Nat) : Nat := v.lba (v.val (i, dataRef q))

/-- Byte `k` of the file of inode `i`. -/
def Volume.byteAt (v : Volume) (i k : Nat) : UInt8 := cell 4096 v.disk (v.page i) k

/-- The reference to a data block that an inode has is in use. -/
theorem data_used (hi : i < nrInodes) (hq : q < (v.inode i).blocks) (hl : q < level3Limit) :
    (i, dataRef q) ∈ v.used := by
  obtain ⟨hv, _, hf⟩ := dataRef_spec hl
  exact ⟨hi, hv, by rw [hf]; exact hq⟩

theorem dataRef_inj (hq : q < level3Limit) (hr : r < level3Limit) (h : dataRef q = dataRef r) : q = r := by
  rw [← (dataRef_spec hq).2.2, h, (dataRef_spec hr).2.2]

/-- Different data blocks are at different places. -/
theorem Volume.Sound.page_inj (h : v.Sound B) (hp : (i, dataRef q) ∈ v.used) (hr : (j, dataRef r) ∈ v.used)
    (he : v.page i q = v.page j r) : i = j ∧ dataRef q = dataRef r := by
  have hval := lba_inj h.owns.addr (h.owns.owned.lt _ hp) (h.owns.owned.lt _ hr) he
  exact Prod.mk.inj (h.owns.owned.inj _ _ hp hr hval)

theorem Evolves.page {E : Set Nat} (he : Evolves B E v w) (hp : (i, dataRef q) ∈ v.used) (hi : i ∉ E) :
    w.page i q = v.page i q :=
  lba_congr he.ofsDregion (he.keep _ hp hi).2

/-! ## Allocation -/

/-- With enough free blocks the calls of the allocator succeed. -/
theorem takes_of_room (h0 : bit c.dbitmap 0 = false) (h32 : dbitmapBits c.sbi ≤ 2 ^ 32)
    (hk : k ≤ (freeBelow c.dbitmap (dbitmapBits c.sbi)).card) : ∃ e, Takes (· ≠ 0) e k c := by
  induction k generalizing c with
  | zero => exact ⟨c, .done rfl rfl⟩
  | succ k ih =>
    obtain ⟨i, hi⟩ := exists_least (Finset.card_pos.mp (by omega : 0 < (freeBelow c.dbitmap (dbitmapBits c.sbi)).card))
    have hi0 : i ≠ 0 := by
      rintro rfl
      have := hi.bit
      rw [h0] at this
      contradiction
    have hcard := card_freeBelow_clear hi.lt hi.bit
    obtain ⟨e, he⟩ := ih (c := c.takeDblock i) (by simp [Cached.takeDblock, h0]) h32
      (by show k ≤ (freeBelow (clear c.dbitmap i) (dbitmapBits c.sbi)).card; omega)
    exact ⟨e, .next (getFreeDblock_of_least (Nat.le_refl _) hi hi0 (lt_of_lt_of_le hi.lt h32)) hi0 he⟩

theorem Volume.Owns.takes {R : Set (Nat × Ref)} (h : v.Owns B R) (hk : k ≤ v.room B) :
    ∃ e, Takes (· ≠ 0) e k v.cached := by
  refine takes_of_room h.zero h.bits (hk.trans (Finset.card_le_card fun a ha => ?_))
  obtain ⟨hlt, hb⟩ := mem_freeBelow.mp ha
  exact mem_freeBelow.mpr ⟨by omega, hb⟩

/-- What the map of an inode behind level 2 has in level 3, when the inode owns its blocks. -/
theorem Volume.Owns.level3 {R : Set (Nat × Ref)} (h : v.Owns B R)
    (hR : ∀ r : Ref, r.Used (v.inode i).blocks → (i, r) ∈ R) (hb : (v.inode i).blocks ≤ level3Limit)
    (hlo : 5169 < (v.inode i).blocks) : bit v.cached.dbitmap (v.inode i).l3 = false ∧
      (((v.inode i).blocks - 5169) % 1024 ≠ 0 → pointer (v.disk (v.cached.sbi.ofsDregion + (v.inode i).l3))
        (((v.inode i).blocks - 5169) / 1024) ≠ (v.inode i).l3) := by
  have hlim : level3Limit = 1053745 := rfl
  have hl3 : (i, Ref.l3) ∈ R := hR _ ⟨trivial, hlo⟩
  have hlt : (v.inode i).l3 < B := h.owned.lt _ hl3
  constructor
  · have : ¬bit v.cached.dbitmap (v.inode i).l3 = true := h.owned.used _ hl3
    simpa using this
  · intro hs he
    have hl3e : (i, Ref.l3e (((v.inode i).blocks - 5169) / 1024)) ∈ R :=
      hR _ ⟨by simp only [Ref.Valid]; omega, by simp only [Ref.first]; omega⟩
    have hval : v.val (i, .l3e (((v.inode i).blocks - 5169) / 1024)) = v.val (i, .l3) := by
      show pointer (v.disk (v.lba (v.inode i).l3)) _ = _
      rw [lba_of_lt h.addr hlt]
      exact he
    have := h.owned.inj _ _ hl3e hl3 hval
    simp at this

theorem Volume.Sound.level3 (h : v.Sound B) (hi : i < nrInodes) (hb : (v.inode i).blocks ≤ level3Limit)
    (hlo : 5169 < (v.inode i).blocks) : bit v.cached.dbitmap (v.inode i).l3 = false ∧
      (((v.inode i).blocks - 5169) % 1024 ≠ 0 → pointer (v.disk (v.cached.sbi.ofsDregion + (v.inode i).l3))
        (((v.inode i).blocks - 5169) / 1024) ≠ (v.inode i).l3) :=
  h.owns.level3 (fun _ hr => ⟨hi, hr⟩) hb hlo

/-- **With room for what it takes** `__alloc_block` ends well. -/
theorem allocBlock_ok (h : v.Sound B) (hi : i < nrInodes) (hn : (v.inode i).blocks + n ≤ level3Limit)
    (hroom : allocTakes (v.inode i).blocks n ≤ v.room B) :
    ∃ w, allocBlock v.cached.sbi.ofsDregion i n v = .ok (0, w) := by
  obtain ⟨e, he⟩ := h.owns.takes hroom
  obtain ⟨w, _, hw, _⟩ := allocBlock_both (agrees_toSegments v.cached.sbi.ofsDregion v) hi
    (h.level3 hi (by omega)) hn h.owns.bits he
  exact ⟨w, hw⟩

/-- What it takes is not less than what the blocks need. -/
theorem need_le_allocTakes (hn : (v.inode i).blocks + n ≤ level3Limit) :
    v.need i n ≤ allocTakes (v.inode i).blocks n := by
  unfold Volume.need allocTakes
  rw [Nat.min_eq_left (by omega)]
  exact Nat.le_add_right _ _

/-- The volume after an allocation for inode `i`: the maps of all files are kept, and only pointer blocks of the inode
have been written. -/
structure AllocKept (B i n : Nat) (v w : Volume) : Prop where
  evolves : Evolves B ∅ v w
  frame : MapFrame i n v w
  disk : ∀ l, w.disk l ≠ v.disk l → ∃ r, (i, r) ∈ w.used ∧ ¬r.IsData ∧ l = v.lba (w.val (i, r))

theorem AllocKept.refl (i : Nat) (h : v.Sound B) : AllocKept B i 0 v v :=
  ⟨.refl h, .refl i v, fun _ hl => absurd rfl hl⟩

theorem allocBlock_kept (h : v.Sound B) (hi : i < nrInodes) (hn : (v.inode i).blocks + n ≤ level3Limit)
    (hroom : allocTakes (v.inode i).blocks n ≤ v.room B)
    (ha : allocBlock v.cached.sbi.ofsDregion i n v = .ok (m, w)) : AllocKept B i n v w := by
  obtain ⟨he, hf, hd⟩ := alloc_evolves (E := ∅) h hi (by omega) ((need_le_allocTakes hn).trans hroom) ha
  rw [Nat.min_eq_left (by omega)] at hf
  exact ⟨he, hf, hd⟩

/-- An allocation does not write to the data blocks that files have. -/
theorem AllocKept.disk_page (h : AllocKept B i n v w) (hp : (j, dataRef q) ∈ v.used) (hq : q < level3Limit) :
    w.disk (v.page j q) = v.disk (v.page j q) := by
  by_contra hne
  obtain ⟨r, hr, hd, hl⟩ := h.disk _ hne
  obtain ⟨hw, hval⟩ := h.evolves.keep _ hp (Set.notMem_empty _)
  unfold Volume.page at hl
  rw [← hval, ← lba_congr h.evolves.ofsDregion rfl, ← lba_congr h.evolves.ofsDregion rfl] at hl
  have := h.evolves.sound.owns
  have heq := this.owned.inj _ _ hw hr (lba_inj this.addr (this.owned.lt _ hw) (this.owned.lt _ hr) hl)
  rw [← (Prod.mk.inj heq).2] at hd
  exact hd (dataRef_spec hq).2.1

/-! ## The loop of `__write_dblock` -/

/-- What a round moves: to the end of the block or of the request. -/
theorem roundLength_spec {offset left : Nat} (ho : offset < 4096) (hl : left ≠ 0) :
    0 < roundLength offset left ∧ roundLength offset left ≤ left ∧ offset + roundLength offset left ≤ 4096 ∧
      (roundLength offset left = left ∨ offset + roundLength offset left = 4096) := by
  unfold roundLength blockSize
  split <;> omega

theorem writeLoop_zero (block : List Nat) (buf : Bytes) (fuel k written offset : Nat) (v : Volume) :
    writeLoop block buf fuel k written offset 0 v = .ok v := by
  cases fuel with
  | zero => rfl
  | succ fuel =>
    unfold writeLoop
    rw [if_pos rfl]

/-- The loop of `__write_dblock` does not touch the cached data. -/
theorem writeLoop_cached {block : List Nat} {buf : Bytes} {fuel j written offset left : Nat}
    (h : writeLoop block buf fuel j written offset left v = .ok w) : w.cached = v.cached := by
  induction fuel generalizing j written offset left v with
  | zero =>
    cases h
    rfl
  | succ fuel ih =>
    unfold writeLoop at h
    split at h
    · cases h
      rfl
    · split at h
      · cases h
      · exact Eq.trans (ih h) rfl

/-- The pages from page `k` up to the end `fin` are different. -/
def PagesApart (pg : Nat → Nat) (k fin : Nat) : Prop :=
  ∀ q r, k ≤ q → k ≤ r → 4096 * q < fin → 4096 * r < fin → pg q = pg r → q = r

theorem PagesApart.separate {pg : Nat → Nat} {o : Nat} (h : PagesApart pg (o / 4096) (o + n)) :
    Separate 4096 pg o n := fun j k hj hk he => h _ _ (by omega) (by omega) (by omega) (by omega) he

/-- A block with a part of it replaced. -/
theorem part_stored {pg : Nat → Nat} {d : Nat → Block} {data : Bytes} {out : Block} {offset len : Nat} (h0 : 0 < len)
    (ho : offset + len ≤ 4096) (hin : ∀ r, r < len → out (offset + r) = data r)
    (hout : ∀ r, r < offset ∨ offset + len ≤ r → r < 4096 → out r = d (pg k) r) :
    Stored 4096 pg (4096 * k + offset) len data d (update d (pg k) out) := by
  have hdiv : (4096 * k + offset) / 4096 = k := by omega
  have hmod : (4096 * k + offset) % 4096 = offset := by omega
  have hpage : Stored 4096 pg (4096 * k + offset) len data d (update d (pg ((4096 * k + offset) / 4096)) out) := by
    refine Stored.page (by omega) h0 (fun r hr => ?_) fun r hr hr' => ?_
    · rw [hmod]
      exact hin r hr
    · rw [hmod] at hr'
      rw [hdiv]
      exact hout r hr' hr
  rwa [hdiv] at hpage

/-- One round: a part of a block is changed, a whole one replaced. -/
theorem round_stored {pg : Nat → Nat} {d : Nat → Block} {data : Bytes} {offset len : Nat} (h0 : 0 < len)
    (ho : offset + len ≤ 4096) : Stored 4096 pg (4096 * k + offset) len data d (update d (pg k)
      (if len ≠ blockSize then copy (d (pg k)) offset data len else copy (fun _ => 0) 0 data blockSize)) := by
  have hb : blockSize = 4096 := rfl
  refine part_stored h0 ho (fun r hr => ?_) fun r hr hr' => ?_
  · split
    · exact copy_in hr
    · obtain rfl : offset = 0 := by omega
      exact copy_in (by omega)
  · split
    · exact copy_out hr
    · omega

/-- **The loop of `__write_dblock`** stores the bytes in the file whose pages are those of the block list. -/
theorem writeLoop_stored {block : List Nat} {buf : Bytes} {fuel k written offset left : Nat} {pg : Nat → Nat}
    (hfuel : left ≤ fuel) (ho : offset < 4096)
    (hlist : ∀ q, k ≤ q → 4096 * q < 4096 * k + offset + left → ∃ b, block[q]? = some b ∧ v.lba b = pg q)
    (hpg : PagesApart pg k (4096 * k + offset + left)) :
    ∃ w, writeLoop block buf fuel k written offset left v = .ok w ∧
      Stored 4096 pg (4096 * k + offset) left (fun x => buf (written + x)) v.disk w.disk := by
  induction fuel generalizing k written offset left v with
  | zero =>
    obtain rfl : left = 0 := by omega
    exact ⟨v, rfl, .nil ..⟩
  | succ fuel ih =>
    by_cases hl : left = 0
    · subst hl
      exact ⟨v, writeLoop_zero .., .nil ..⟩
    obtain ⟨h0, hle, hend, hlast⟩ := roundLength_spec ho hl
    obtain ⟨b, hb, hlba⟩ := hlist k (Nat.le_refl k) (by omega)
    have hround := @round_stored k pg v.disk (fun x => buf (written + x)) _ _ h0 hend
    rw [← hlba] at hround
    obtain ⟨out, hout⟩ : ∃ out, (if roundLength offset left ≠ blockSize then
        copy (v.disk (v.lba b)) offset (fun x => buf (written + x)) (roundLength offset left)
      else copy (fun _ => 0) 0 (fun x => buf (written + x)) blockSize) = out := ⟨_, rfl⟩
    rw [hout] at hround
    unfold writeLoop
    rw [if_neg hl, hb]
    dsimp only
    rw [hout]
    rcases hlast with hlast | hlast
    · -- the last round
      rw [hlast] at hround ⊢
      rw [Nat.sub_self, writeLoop_zero]
      exact ⟨_, rfl, hround⟩
    · obtain ⟨w, hw, hst⟩ := @ih (v.writeBlock (v.lba b) out) (k + 1)
        (written + roundLength offset left) 0 (left - roundLength offset left) (by omega) (by decide)
        (fun q hq hlt => hlist q (by omega) (by omega))
        fun q r hq hr hq' hr' he => hpg q r (by omega) (by omega) (by omega) (by omega) he
      refine ⟨w, hw, ?_⟩
      have hst' : Stored 4096 pg (4096 * k + offset + roundLength offset left) (left - roundLength offset left)
          (fun x => buf (written + (roundLength offset left + x))) (update v.disk (v.lba b) out) w.disk := by
        rw [show 4096 * k + offset + roundLength offset left = 4096 * (k + 1) + 0 by omega]
        simp only [← Nat.add_assoc]
        exact hst
      have hall := hround.trans hst' (by decide) (by
        rw [Nat.add_sub_cancel' hle]
        refine PagesApart.separate ?_
        rw [show (4096 * k + offset) / 4096 = k by omega]
        exact hpg)
      rwa [Nat.add_sub_cancel' hle] at hall

/-! ## Sizes -/

/-- The size of every inode is in range, and the inode has the blocks for it. -/
def Volume.Sized (v : Volume) : Prop :=
  ∀ j, j < nrInodes → (v.inode j).size ≤ 4096 * (v.inode j).blocks ∧ (v.inode j).size < 2 ^ 32

theorem Volume.Sized.fileSize (h : v.Sized) (hj : j < nrInodes) :
    (v.inode j).fileSize ≤ 4096 * (v.inode j).blocks ∧ (v.inode j).fileSize ≤ 2 ^ 32 := by
  obtain ⟨hb, hl⟩ := h j hj
  unfold Inode.fileSize
  split <;> omega

/-- The block of a byte of a file is in use. -/
theorem Volume.Sized.used (h : v.Sized) (hj : j < nrInodes) (hk : k < (v.inode j).fileSize) :
    (j, dataRef (k / 4096)) ∈ v.used ∧ k / 4096 < level3Limit := by
  have hlim : level3Limit = 1053745 := rfl
  obtain ⟨hb, hl⟩ := h.fileSize hj
  exact ⟨data_used hj (by omega) (by omega), by omega⟩

/-! ## What a write changes -/

/-- The file of inode `i` has got the `n` bytes of `buf` at `o`, its other bytes and all other files are as before. -/
structure WriteKept (v w : Volume) (i o n : Nat) (buf : Bytes) : Prop where
  size : (w.inode i).fileSize = max (v.inode i).fileSize (o + n)
  inside : ∀ k, k < n → w.byteAt i (o + k) = buf k
  outside : ∀ k, k < (v.inode i).fileSize → k < o ∨ o + n ≤ k → w.byteAt i k = v.byteAt i k
  otherSize : ∀ j, j < nrInodes → j ≠ i → (w.inode j).fileSize = (v.inode j).fileSize
  otherBytes : ∀ j, j < nrInodes → j ≠ i → ∀ k, k < (v.inode j).fileSize → w.byteAt j k = v.byteAt j k

section

variable {v₁ : Volume} {o : Nat} {buf : Bytes} (h : v.Sound B) (hs : v.Sized) (hi : i < nrInodes)
  (h₁ : AllocKept B i m v v₁) (h₂ : Evolves B ∅ v₁ w) (hst : Stored 4096 (v₁.page i) o n buf v₁.disk w.disk)
  (hblk : o + n ≤ 4096 * (v₁.inode i).blocks) (hlim : o + n ≤ level3LimitTimesBlockSize)

include hi hblk hlim in
/-- The pages of the range are in use after the allocation. -/
theorem range_used (hk : k < n) : (i, dataRef ((o + k) / 4096)) ∈ v₁.used ∧ (o + k) / 4096 < level3Limit := by
  have hl3 : level3Limit = 1053745 := rfl
  have hmax : level3LimitTimesBlockSize = 4294972465 := rfl
  exact ⟨data_used hi (by omega) (by omega), by omega⟩

include hi h₂ hst hblk hlim in
/-- The bytes that have been stored are read back. -/
theorem stored_inside (hk : k < n) : w.byteAt i (o + k) = buf k := by
  have hu := (range_used hi hblk hlim hk).1
  rw [← hst.cell_in k hk]
  unfold Volume.byteAt cell
  rw [h₂.page hu (Set.notMem_empty _)]

include hi h₁ h₂ hst hblk hlim in
/-- The bytes of the blocks in use that have not been stored are those from before. -/
theorem stored_elsewhere (hu : (j, dataRef (k / 4096)) ∈ v.used) (hq : k / 4096 < level3Limit)
    (hout : j ≠ i ∨ k < o ∨ o + n ≤ k) : w.byteAt j k = v.byteAt j k := by
  have hu₁ := (h₁.evolves.keep _ hu (Set.notMem_empty _)).1
  have hkeep : cell 4096 w.disk (v₁.page j) k = cell 4096 v₁.disk (v₁.page j) k := by
    by_cases hji : j = i
    · subst hji
      refine hst.cell_out (by decide) (hout.resolve_left fun h => h rfl) fun x hx he => ?_
      obtain ⟨hux, hqx⟩ := range_used hi hblk hlim hx
      exact dataRef_inj hq hqx (h₁.evolves.sound.page_inj hu₁ hux he).2
    · refine hst.cell_other fun x hx he => hji ?_
      exact (h₁.evolves.sound.page_inj hu₁ (range_used hi hblk hlim hx).1 he).1
  have hp₁ := h₁.evolves.page hu (Set.notMem_empty _)
  unfold Volume.byteAt cell at *
  rw [h₂.page hu₁ (Set.notMem_empty _), hkeep, hp₁, h₁.disk_page hu hq]

include hs hi h₁ h₂ hst hblk hlim in
/-- The bytes of a file that have not been stored are those from before. -/
theorem stored_outside (hj : j < nrInodes) (hk : k < (v.inode j).fileSize) (hout : j ≠ i ∨ k < o ∨ o + n ≤ k) :
    w.byteAt j k = v.byteAt j k := by
  obtain ⟨hu, hq⟩ := hs.used hj hk
  exact stored_elsewhere hi h₁ h₂ hst hblk hlim hu hq hout

include hs hi h₁ h₂ hst hblk hlim in
/-- **An allocation and a copy** change the bytes of the range only. With the end of the range for its size the file is
not shortened exactly if it ended there or before. -/
theorem writeKept_iff (hother : ∀ j, j ≠ i → w.inode j = v.inode j) (hsize : (w.inode i).fileSize = o + n) :
    WriteKept v w i o n buf ↔ (v.inode i).fileSize ≤ o + n := by
  constructor
  · intro hw
    have := hw.size
    omega
  · intro hle
    refine ⟨by omega, fun k hk => stored_inside hi h₂ hst hblk hlim hk, fun k hk hout => ?_, fun j hj hji => ?_,
      fun j hj hji k hk => ?_⟩
    · exact stored_outside hs hi h₁ h₂ hst hblk hlim hi hk (Or.inr hout)
    · rw [hother j hji]
    · exact stored_outside hs hi h₁ h₂ hst hblk hlim hj hk (Or.inl hji)

end

/-! ## Sizes along a run -/

theorem succ32_le (n : Nat) : succ32 n ≤ n + 1 := by
  unfold succ32
  split <;> omega

/-- The end of an allowed write is inside the blocks that it needs. -/
theorem le_neededBlocks {fin : Nat} (h : fin ≤ level3LimitTimesBlockSize) : fin ≤ 4096 * neededBlocks fin := by
  unfold level3LimitTimesBlockSize at h
  unfold neededBlocks blockSize
  split <;> omega

/-- The blocks hold the size. -/
def Inode.Holds (x : Inode) : Prop := x.size ≤ 4096 * x.blocks

/-- **From the label `adding_entry` on**, with a slot in the blocks of the directory. -/
theorem addingEntry_holds {now m i d e : Nat} {name : CStr} (h : addingEntry now name m i d e v = .ok w)
    (h0 : (v.inode 0).size + 1 ≤ 4096 * (v.inode 0).blocks) (hj : j ≠ 0 → (v.inode j).Holds) : (w.inode j).Holds := by
  unfold addingEntry at h
  split at h
  case isTrue => cases h
  case isFalse =>
  obtain ⟨x, -, h⟩ := ExceptLib.bind_eq_ok.mp h
  obtain ⟨⟨r, u⟩, ha, h⟩ := ExceptLib.bind_eq_ok.mp h
  cases h
  have hf := allocBlock_count ha
  unfold Inode.Holds at hj ⊢
  by_cases hji : j = i
  · rw [hji, modInode_inode_self]
    exact Nat.zero_le _
  · rw [modInode_inode_of_ne _ _ hji, hf.other j hji, modInode_inode_of_ne _ _ hji]
    by_cases hj0 : j = 0
    · have := succ32_le (v.inode 0).size
      subst hj0
      rw [modInode_inode_self]
      show succ32 (v.inode 0).size ≤ 4096 * (v.inode 0).blocks
      omega
    · rw [modInode_inode_of_ne _ _ hj0]
      exact hj hj0

/-- `vsfs_creat` enters a file in a slot that the directory has, or in a block that it is given. -/
theorem creat_holds {now : Nat} {name : CStr} {blockNum : UInt32} {ret : Int}
    (hr : vsfsCreat now name blockNum s = .ok (ret, t)) (h0 : (s.vol.inode 0).Holds) (h : (s.vol.inode j).Holds) :
    (t.vol.inode j).Holds := by
  unfold Inode.Holds at h0
  rcases vsfsCreat_cases hr with ⟨-, hrej⟩ | ⟨-, -, i, c, hi, hent⟩
  · cases hrej with
    | tooLong _ ht =>
      rw [ht]
      exact h
    | duplicate _ _ ht =>
      rw [ht]
      show (s.attach.vol.inode j).Holds
      rwa [attach_vol]
  obtain ⟨hreg, -⟩ := getFreeInode_frame hi
  have hin : ∀ k, Volume.inode { s.vol with cached := c } k = s.vol.inode k := fun k => congrFun hreg k
  cases hent with
  | slot hs ha ht =>
    rw [ht]
    refine addingEntry_holds ha ?_ fun _ => by rwa [hin]
    unfold Inode.HasSlot Inode.entry at hs
    rw [hin]
    omega
  | @grow b v₁ v hs hb hg ha ht =>
    rw [ht]
    have hv₁ : ∀ k, v₁.inode k = s.vol.inode k := fun k => by rw [(getFreeDblock_frame hg).1, hin]
    refine addingEntry_holds ha ?_ fun hj0 => ?_
    · unfold Volume.growRoot
      rw [modInode_inode_self, hv₁]
      dsimp only
      omega
    · unfold Volume.growRoot
      rwa [modInode_inode_of_ne _ _ hj0, hv₁]
  | full _ _ hp ht =>
    obtain ⟨m, -, hp⟩ := ExceptLib.bind_eq_ok.mp hp
    cases hp
    rw [ht]
    show (c.inodeReg j).Holds
    rwa [hreg]

theorem Touched.holds (ht : Touched v w) (h : (v.inode j).Holds) : (w.inode j).Holds := by
  unfold Inode.Holds
  rw [ht.size, ht.blocks]
  exact h

theorem MapFrame.holds (hf : MapFrame i n v w) (hn : (v.inode i).blocks + n < 2 ^ 32) (h : (v.inode j).Holds) :
    (w.inode j).Holds := by
  unfold Inode.Holds at h ⊢
  by_cases hj : j = i
  · subst hj
    rw [hf.blocks hn, hf.head.size]
    omega
  · rwa [hf.other j hj]

section

variable {now p a : Nat} {buf : Bytes} {nbyte : UInt64} {f : File} {v₁ v₂ : Volume}
  (hw : Written now p buf nbyte s t a f v₁ v₂)

include hw

/-- The size and the blocks that a write stores. -/
theorem Written.stored :
    (t.vol.inode (s.desc.opFtable p).inodeNr).size = s.desc.writeEnd p nbyte % 2 ^ 32 ∧
      (t.vol.inode (s.desc.opFtable p).inodeNr).blocks = (v₁.inode (s.desc.opFtable p).inodeNr).blocks := by
  have hcached := writeLoop_cached hw.data
  have hinode : v₂.inode (s.desc.opFtable p).inodeNr = (v₁.modInode (s.desc.opFtable p).inodeNr fun x =>
      { x with atime := now, mtime := now }).inode (s.desc.opFtable p).inodeNr := by
    unfold Volume.inode
    rw [hcached]
  rw [modInode_inode_self] at hinode
  rw [hw.result]
  dsimp only
  rw [modInode_inode_self, hinode]
  exact ⟨rfl, rfl⟩

/-- The other inodes are those after the allocation. -/
theorem Written.other (hj : j ≠ (s.desc.opFtable p).inodeNr) : t.vol.inode j = v₁.inode j := by
  have hcached := writeLoop_cached hw.data
  have hinode : v₂.inode j = (v₁.modInode (s.desc.opFtable p).inodeNr fun x =>
      { x with atime := now, mtime := now }).inode j := by
    unfold Volume.inode
    rw [hcached]
  rw [hw.result]
  dsimp only
  rw [modInode_inode_of_ne _ _ hj, hinode, modInode_inode_of_ne _ _ hj]

/-- The allocation of a write changes the inode of the file only, which keeps its size. -/
theorem Written.frame : ∃ c, MapFrame (s.desc.opFtable p).inodeNr c s.vol v₁ := by
  rcases hw.alloc with ⟨-, ⟨r, hal⟩, -⟩ | ⟨-, rfl, -⟩
  · exact ⟨_, allocBlock_count hal⟩
  · exact ⟨0, .refl _ _⟩

variable (hlim : s.desc.writeEnd p nbyte ≤ level3LimitTimesBlockSize)

include hlim

/-- **The blocks of the file after a write**: those that its end needs, or more that were there. -/
theorem Written.blocks : (v₁.inode (s.desc.opFtable p).inodeNr).blocks =
    max (s.vol.inode (s.desc.opFtable p).inodeNr).blocks (neededBlocks (s.desc.writeEnd p nbyte)) := by
  have hmax : level3Limit = 1053745 := rfl
  have hneed := neededBlocks_le hlim
  rcases hw.alloc with ⟨hle, ⟨r, hal⟩, -⟩ | ⟨hlt, rfl, -⟩
  · have hcount := allocBlock_count hal
    rw [sub32_of_le hle (by omega), allocLeft_of_le (by omega), Nat.min_eq_left (by omega)] at hcount
    rw [hcount.blocks (by omega)]
    omega
  · exact (Nat.max_eq_left hlt.le).symm

/-- The end of a write is inside the blocks that the file has then. -/
theorem Written.holds (h : (s.vol.inode j).Holds) : (t.vol.inode j).Holds := by
  obtain ⟨c, hframe⟩ := hw.frame
  unfold Inode.Holds at h ⊢
  by_cases hj : j = (s.desc.opFtable p).inodeNr
  · subst hj
    obtain ⟨hsize, hblocks⟩ := hw.stored
    have hmod := Nat.mod_le (s.desc.writeEnd p nbyte) (2 ^ 32)
    have hneed := le_neededBlocks hlim
    rw [hsize, hblocks, hw.blocks hlim]
    omega
  · rwa [hw.other hj, hframe.other j hj]

end

/-- **Every call** keeps the blocks that sizes need. -/
theorem Step.holds {c : Call} (hs : Step c s t) (hb : ∀ i, (s.vol.inode i).blocks < 2 ^ 32)
    (h0 : (s.vol.inode 0).Holds) (h : (s.vol.inode j).Holds) : (t.vol.inode j).Holds := by
  obtain ⟨now, ret, hn, hr⟩ := hs
  cases c with
  | creat name blockNum => exact creat_holds hr h0 h
  | «open» pathname flags => exact (open_touched hr).holds h
  | stat pathname =>
    obtain ⟨⟨r, fre, u⟩, hst, hr⟩ := ExceptLib.bind_eq_ok.mp hr
    cases hr
    rwa [vsfsStat_vol hst]
  | close fildes => rwa [vsfsClose_vol hr]
  | write fildes buf nbyte =>
    obtain ⟨b, e, p, hfind, hp, ⟨_, rfl⟩ | ⟨ha, _, a, f, v₁, v₂, hw⟩⟩ := vsfsWrite_cases hr
    · exact h
    · exact hw.holds ha.limit h
  | read fildes buf nbyte =>
    obtain ⟨⟨r, b, u⟩, hrd, hr⟩ := ExceptLib.bind_eq_ok.mp hr
    cases hr
    exact (read_touched hrd).holds h
  | lseek fildes offset whence =>
    obtain ⟨⟨r, u⟩, hl, hr⟩ := ExceptLib.bind_eq_ok.mp hr
    cases hr
    obtain ⟨_, ht, _⟩ | ⟨b, e, p, a, f, s', hs', hfind, hp, hfp, hfile, ⟨o, ht, _⟩ | ⟨hset, _, info, v, hg⟩⟩ :=
      vsfsLseek_cases hl
    · rwa [ht]
    · rwa [ht, (setInodeReg_eq_ok hs').1]
    · obtain ⟨m, hm⟩ := hg.alloc
      rw [(setInodeReg_eq_ok hs').1] at hm
      obtain ⟨c, hf, hc, -⟩ := allocBlock_frame (hb _) hm
      rw [show t.vol = v from congrArg State.vol hg.result]
      exact hf.holds hc h

theorem fresh_holds {disk : Nat → Block} {seg : Bytes} (hl : 2052 ≤ n) (hu : n < 2 ^ 32) (hj : j < nrInodes) :
    ((State.fresh n disk seg).vol.inode j).Holds := by
  unfold Inode.Holds
  by_cases h0 : j = 0
  · obtain ⟨hb, hs, _⟩ := fresh_root hl hu disk seg
    rw [h0, hb, hs]
    omega
  · rw [(fresh_inode hl hu disk seg h0 hj).2]
    exact Nat.zero_le _

/-- In every state reached the sizes are as the blocks allow. -/
theorem ReachedBy.sized {ok : Call → State → Prop} (h : ReachedBy ok s) : s.vol.Sized := by
  obtain ⟨n, hl, hu, disk, seg, hr⟩ := h
  have hinv := hr.invariant (P := fun s => s.vol.cached.Fits (superblockInfo n) ∧
      ∀ j, j < nrInodes → (s.vol.inode j).Holds)
    ⟨fresh_fits hl hu disk seg, fun j hj => fresh_holds hl hu hj⟩ fun c u v hP _ hs =>
      ⟨hs.fits hP.1, fun j hj => hs.holds (fun i => (hP.1.inode i).blocks) (hP.2 0 (by decide)) (hP.2 j hj)⟩
  exact fun j hj => ⟨hinv.2 j hj, (hinv.1.inode j).size⟩

end Vsfs
