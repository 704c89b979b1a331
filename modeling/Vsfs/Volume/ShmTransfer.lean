import Vsfs.Model.Dblock
import Vsfs.Volume.ShmWrite

/-!
# Which blocks a copy of `vsfsio.h` goes to

`__write_dblock` and `__read_dblock` address the blocks of a file through its map. The number of the first block is
kept in 16 bits, so a copy that starts in block 65536 or behind it may be taken for one that starts in level 1.

- `Keeps.ref`: writes to data blocks of a file leave its map alone;
- `writeDblock_exact`, `readDblock_exact`: a copy moves the bytes of the file;
- `writeDblock_aliased`: a copy that is taken for one of level 1 misses its first block;
- `dblocks_addressed_iff`: which copies are exact.
-/

set_option autoImplicit false

namespace Vsfs.Shm

open Function ByteSeq Paged

variable {u s : Segments} {op : OpEntry} {i k n o q fin fuel : Nat} {K : Nat → Prop} {c : Cursor} {buf mem : Bytes}
  {m : Nat → Nat}

/-! ## Writes to data blocks -/

/-- The blocks that inode `i` refers to, pointer blocks included, are different. -/
def Segments.Apart (u : Segments) (i : Nat) : Prop :=
  ∀ r r' : Ref, r.Used (u.inodes i).blocks → r'.Used (u.inodes i).blocks → u.ref i r = u.ref i r' → r = r'

/-- Only the data blocks of inode `i` with the numbers in `K` may have changed. -/
structure Keeps (u : Segments) (i : Nat) (K : Nat → Prop) (s : Segments) : Prop where
  inodes : s.inodes = u.inodes
  cached : s.cached = u.cached
  data : ∀ a, (∀ k, K k → a ≠ u.dblock i k) → s.data a = u.data a

theorem Keeps.refl (u : Segments) (i : Nat) (K : Nat → Prop) : Keeps u i K u := ⟨rfl, rfl, fun _ _ => rfl⟩

theorem Keeps.copyIn (h : Keeps u i K s) (hk : K k) : Keeps u i K (copyIn buf (u.dblock i k) c s) := by
  refine ⟨h.inodes, h.cached, fun a ha => ?_⟩
  show update s.data (u.dblock i k) _ a = _
  rw [update_of_ne (ha k hk)]
  exact h.data a ha

section

variable (hd : u.Apart i) (hb : (u.inodes i).blocks ≤ level3Limit)

include hd hb in
/-- A reference in use is not that of another data block. -/
theorem dblock_ne {r : Ref} (hr : r.Used (u.inodes i).blocks) (hk : k < (u.inodes i).blocks) (hne : r ≠ dataRef k) :
    u.ref i r ≠ u.dblock i k := by
  obtain ⟨hv, -, hfirst⟩ := dataRef_spec (k := k) (by omega)
  exact fun he => hne (hd r (dataRef k) hr ⟨hv, by rwa [hfirst]⟩ he)

include hd hb in
/-- **The map stays.** -/
theorem Keeps.ref (h : Keeps u i K s) (hK : ∀ k, K k → k < (u.inodes i).blocks) {r : Ref}
    (hr : r.Used (u.inodes i).blocks) : s.ref i r = u.ref i r := by
  -- pointer blocks are no data blocks
  have hptr : ∀ r' : Ref, r'.Used (u.inodes i).blocks → ¬r'.IsData → s.data (u.ref i r') = u.data (u.ref i r') :=
    fun r' hu hn => h.data _ fun k hk => by
      have hlt := hK k hk
      refine dblock_ne hd hb hu hlt fun he => hn ?_
      rw [he]
      exact (dataRef_spec (by omega)).2.1
  have hin : s.inodes i = u.inodes i := by rw [h.inodes]
  have hl3e : ∀ q, Ref.Used (u.inodes i).blocks (.l3e q) → s.ref i (.l3e q) = u.ref i (.l3e q) := fun q hu => by
    show pointer (s.data (s.inodes i).l3) q = _
    rw [hin]
    exact congrArg (pointer · q) (hptr .l3 (hu.parent rfl) id)
  cases r with
  | l1 k | l2 j | l3 => simp only [Segments.ref, hin]
  | l2e j k =>
    show pointer (s.data ((s.inodes i).l2 j)) k = _
    rw [hin]
    exact congrArg (pointer · k) (hptr (.l2 j) (hr.parent rfl) id)
  | l3e q => exact hl3e q hr
  | l3d q k =>
    have hq : Ref.Used (u.inodes i).blocks (.l3e q) := hr.parent rfl
    show pointer (s.data (s.ref i (.l3e q))) k = _
    rw [hl3e q hq]
    exact congrArg (pointer · k) (hptr (.l3e q) hq id)

include hd hb in
theorem keeps_mapStays (hK : ∀ k, K k → k < (u.inodes i).blocks) (hfin : fin ≤ 4096 * (u.inodes i).blocks) :
    MapStays id (Keeps u i K) u i fin :=
  fun _ hs _ hv hlt => hs.ref hd hb hK ⟨hv, by omega⟩

/-! ## Writes -/

/-- What is stored on the device that the segments stand for is stored in the data region. -/
theorem stored_data {ofs : Nat} (h : Stored 4096 (fun q => ofs + m q) o n buf u.toVolume.disk s.toVolume.disk)
    (hu : u.cached.sbi.ofsDregion = ofs) (hs : s.cached.sbi.ofsDregion = ofs) : Stored 4096 m o n buf u.data s.data := by
  have hdisk : ∀ a, u.toVolume.disk (ofs + a) = u.data a := fun a => hu ▸ toVolume_disk u a
  have hdisk' : ∀ a, s.toVolume.disk (ofs + a) = s.data a := fun a => hs ▸ toVolume_disk s a
  refine ⟨fun k hk => ?_, fun a r hr hno => ?_, fun a hno => ?_⟩
  · rw [← h.cell_in k hk]
    unfold cell
    rw [hdisk']
  · rw [← hdisk, ← hdisk']
    exact h.outside _ r hr fun k hk he => hno k hk (by omega)
  · rw [← hdisk, ← hdisk']
    exact h.frame _ fun k hk he => hno k hk (by omega)

/-- The call returns `n` and advances the offset by `n`; byte `k` of the buffer is byte `o + k` of the file, all other
bytes of the data region are what they were, and so are the map, the inodes and the cached data. -/
def WritesExactly (op : OpEntry) (n : Nat) (u : Segments) : Prop :=
  ∀ buf, ∃ u', u.writeDblock op n buf = (n, { op with offset := op.offset + n }, u') ∧
    Stored 4096 (u.dblock op.inodeNr) op.offset n buf u.data u'.data ∧ u'.inodes = u.inodes ∧ u'.cached = u.cached ∧
    ∀ k, k < (u.inodes op.inodeNr).blocks → u'.dblock op.inodeNr k = u.dblock op.inodeNr k

include hd hb in
/-- **A copy to the file**, unless the number of the first block is taken for one of level 1. -/
theorem writeDblock_exact (hi : op.inodeNr = i) (hend : op.offset + n ≤ 4096 * (u.inodes i).blocks)
    (h32 : op.offset + n ≤ 2 ^ 32)
    (hw : op.offset / 4096 < 65536 ∨ 49 ≤ op.offset / 4096 % 65536) : WritesExactly op n u := by
  have hl3 : level3Limit = 1053745 := rfl
  have hmax : level3LimitTimesBlockSize = 4294972465 := rfl
  subst hi
  intro buf
  have hlim : op.offset + n ≤ level3LimitTimesBlockSize := by omega
  have hmap := keeps_mapStays hd hb (K := (· < (u.inodes op.inodeNr).blocks)) (fun k hk => hk) hend
  have hact : ∀ s c q, Keeps u op.inodeNr (· < (u.inodes op.inodeNr).blocks) s → 4096 * q < op.offset + n →
      Keeps u op.inodeNr (· < (u.inodes op.inodeNr).blocks) (copyIn buf (u.dblock op.inodeNr q) c s) :=
    fun s c q hs hq => hs.copyIn (by omega)
  obtain ⟨hleft, hdone, hpos⟩ := throughMap_done id (copyIn buf) op.inodeNr u hlim rfl
  have hkeep := throughMap_keeps hmap hlim hact hw rfl (.refl ..)
  have heq := throughMap_eq hmap hlim hact hw rfl (.refl ..)
  have hpg : PagesApart (fun q => u.cached.sbi.ofsDregion + u.dblock op.inodeNr q) (op.offset / 4096)
      (op.offset + n) := by
    intro q r _ _ hq hr he
    obtain ⟨hv, -, hfirst⟩ := dataRef_spec (k := q) (by omega)
    have hsame : u.ref op.inodeNr (dataRef q) = u.dblock op.inodeNr r := Nat.add_left_cancel he
    have hrefs : dataRef q = dataRef r := by
      by_contra hne
      exact dblock_ne hd hb ⟨hv, by omega⟩ (by omega) hne hsame
    rw [← hfirst, hrefs, (dataRef_spec (by omega)).2.2]
  have hst := loopPages_stored buf (s := u) rfl (Cursor.start_at op.offset n) (by omega)
    (by omega : op.offset + n ≤ 4096 * (op.offset / 4096 + (level3Limit - op.offset / 4096))) hpg
  rw [← heq] at hst
  have hsrc : (fun k => buf ((Cursor.start op.offset n).done + k)) = buf := funext fun k => congrArg buf (Nat.zero_add k)
  rw [hsrc] at hst
  refine ⟨_, ?_, stored_data hst rfl (by rw [hkeep.cached]), hkeep.inodes, hkeep.cached, fun k hk => ?_⟩
  · unfold Segments.writeDblock
    dsimp only
    rw [hleft, if_pos rfl, hdone, hpos]
  · obtain ⟨hv, -, hfirst⟩ := dataRef_spec (k := k) (by omega)
    exact hkeep.ref hd hb (fun k hk => hk) ⟨hv, by rwa [hfirst]⟩

/-- A loop over blocks keeps what is kept at each of them. -/
theorem loopBlocks_keeps {σ : Type} {act : Nat → Cursor → σ → σ} {P : σ → Prop} {block : σ → Nat → Nat} {j l : Nat}
    {x : σ} (hact : ∀ s c j, P s → j < l → P (act (block s j) c s)) (hj : j + fuel ≤ l) (hx : P x) :
    P (loopBlocks act block fuel j c x).2 := by
  induction fuel generalizing j c x with
  | zero => exact hx
  | succ fuel ih =>
    by_cases hl : c.left = 0
    · rw [loopBlocks_end hl]
      exact hx
    · rw [loopBlocks_succ hl]
      exact ih (by omega) (hact x c j hx (by omega))

include hd hb in
/-- **A copy that is taken for one of level 1** does not write to its first block. -/
theorem writeDblock_aliased (hi : op.inodeNr = i) (hend : op.offset + n ≤ 4096 * (u.inodes i).blocks)
    (h32 : op.offset + n ≤ 2 ^ 32) (hn : n ≠ 0) (hlo : 65536 ≤ op.offset / 4096)
    (hw : op.offset / 4096 % 65536 < 49) (buf : Bytes) :
    (u.writeDblock op n buf).2.2.data (u.dblock i (op.offset / 4096)) = u.data (u.dblock i (op.offset / 4096)) := by
  have h1 : level1Limit = 49 := rfl
  have h2 : level2Limit = 5169 := rfl
  have hl3 : level3Limit = 1053745 := rfl
  have hmax : level3LimitTimesBlockSize = 4294972465 := rfl
  obtain ⟨q, hq⟩ : ∃ q, op.offset / 4096 = q := ⟨_, rfl⟩
  have hqb : q < (u.inodes i).blocks := by omega
  -- all data blocks but the first may change
  have hkeep : Keeps u i (fun k => k < (u.inodes i).blocks ∧ k ≠ q) (u.writeDblock op n buf).2.2 := by
    obtain ⟨P, hP⟩ : ∃ P, Keeps u i (fun k => k < (u.inodes i).blocks ∧ k ≠ q) = P := ⟨_, rfl⟩
    have hmap : MapStays id P u i (op.offset + n) := hP ▸ keeps_mapStays hd hb (fun k hk => hk.1) hend
    have hact : ∀ s c k, P s → q + 1 ≤ k → 4096 * k < op.offset + n → P (copyIn buf (u.dblock i k) c s) := by
      rw [← hP]
      exact fun s c k hs hk hlt => hs.copyIn ⟨by omega, by omega⟩
    have hact₁ : ∀ s c j, P s → j < 49 → P (copyIn buf ((s.inodes i).l1 j) c s) := by
      rw [← hP]
      intro s c j hs hj
      have hl1 : (s.inodes i).l1 j = u.dblock i j := by
        rw [hs.inodes, Segments.dblock, dataRef_l1 hj]
        rfl
      rw [hl1]
      exact hs.copyIn ⟨by omega, by omega⟩
    have hat : (Cursor.start op.offset n).At q (op.offset + n) n := hq ▸ Cursor.start_at op.offset n
    obtain ⟨⟨c', s'⟩, hrun⟩ : ∃ r, loopBlocks (copyIn buf) (fun s j => (s.inodes i).l1 j) (49 - q % 65536) (q % 65536)
      (.start op.offset n) u = r := ⟨_, rfl⟩
    have hat' := loopBlocks_at (copyIn buf) (fun s j => (s.inodes i).l1 j) (49 - q % 65536) (q % 65536) u
      (by omega : op.offset + n < 2 ^ 64) hat
    have hs' : P (loopBlocks (copyIn buf) (fun s j => (s.inodes i).l1 j) (49 - q % 65536) (q % 65536)
      (.start op.offset n) u).2 := loopBlocks_keeps (l := 49) hact₁ (by omega) (hP ▸ .refl ..)
    rw [hrun] at hat' hs'
    have hwalk : throughMap id (copyIn buf) i (.start op.offset n) u =
        if c'.left = 0 then (c', s') else fromLevel2 id (copyIn buf) i c' s' := by
      unfold throughMap
      rw [show (Cursor.start op.offset n).pos / blockSize = q from hq]
      dsimp only
      rw [if_neg (by omega), if_neg (by omega), loopLevel1, h1]
      exact congrArg (fun r : Cursor × Segments => if r.1.left = 0 then r else fromLevel2 id (copyIn buf) i r.1 r.2) hrun
    rw [hP]
    show P (throughMap id (copyIn buf) op.inodeNr (.start op.offset n) u).2
    rw [hi, hwalk]
    split
    case isTrue => exact hs'
    case isFalse hl =>
      rw [fromLevel2_eq hmap (by omega) hact (by omega) hat' hl (by omega) hs']
      exact loopPages_keeps (by omega) hact _ hat' (by omega) hs'
  rw [hq]
  refine hkeep.data _ fun k hk he => ?_
  obtain ⟨hv, -, hfirst⟩ := dataRef_spec (k := q) (by omega)
  refine dblock_ne hd hb ⟨hv, by rwa [hfirst]⟩ hk.1 (fun hr => hk.2 ?_) he
  rw [← (dataRef_spec (k := k) (by omega)).2.2, ← hr, hfirst]

end

/-! ## Reads -/

/-- The loop over the data blocks brings their bytes, and changes no others. -/
theorem loopPages_read (m : Nat → Nat) (mem : Bytes) (hc : c.At q fin n) (hfin : fin < 2 ^ 64)
    (hend : fin ≤ 4096 * (q + fuel)) :
    (∀ k, k < c.left → (loopPages (copyOut u) m fuel q c mem).2 (c.done + k) = cell 4096 u.data m (c.pos + k)) ∧
      ∀ k, k < c.done ∨ c.done + c.left ≤ k → (loopPages (copyOut u) m fuel q c mem).2 k = mem k := by
  unfold loopPages
  induction fuel generalizing q c mem with
  | zero =>
    have hl : c.left = 0 := by
      by_contra hne
      have := hc.lt hne
      omega
    rw [hl, loopBlocks_end hl]
    exact ⟨fun _ hk => absurd hk (Nat.not_lt_zero _), fun _ _ => rfl⟩
  | succ fuel ih =>
    by_cases hl : c.left = 0
    · rw [hl, loopBlocks_end hl]
      exact ⟨fun _ hk => absurd hk (Nat.not_lt_zero _), fun _ _ => rfl⟩
    obtain ⟨h0, hle, hlen, hlast⟩ := hc.length_spec hl
    obtain ⟨hoff, hpos⟩ := hc.place hl
    have hfin' := hc.pos
    have hleft : c.next.left = c.left - c.length := rfl
    have hdone : c.next.done = c.done + c.length := rfl
    have hnext : c.next.pos = c.pos + c.length := Nat.mod_eq_of_lt (by omega)
    rw [loopBlocks_succ hl]
    obtain ⟨hin, hout⟩ := ih (copyOut u (m q) c mem) (hc.next hl hfin) (by omega)
    refine ⟨fun k hk => ?_, fun k hk => ?_⟩
    · by_cases hfirst : k < c.length
      · -- brought in this round
        rw [hout _ (Or.inl (by omega)), copyOut, copy_in hfirst]
        unfold cell
        rw [show (c.pos + k) / 4096 = q by omega, show (c.pos + k) % 4096 = c.offset + k by omega]
      · have := hin (k - c.length) (by omega)
        rwa [hdone, hnext, show c.done + c.length + (k - c.length) = c.done + k by omega,
          show c.pos + c.length + (k - c.length) = c.pos + k by omega] at this
    · rw [hout _ (by omega), copyOut, copy_out (by omega)]

/-- The call returns `n` and advances the offset by `n`; byte `k` of the caller's memory is byte `o + k` of the file for
`k` below `n`, and what it was behind. -/
def ReadsExactly (op : OpEntry) (n : Nat) (u : Segments) : Prop :=
  ∀ mem, ∃ out, u.readDblock op n mem = ((n : Int), { op with offset := op.offset + n }, out) ∧
    (∀ k, k < n → out k = cell 4096 u.data (u.dblock op.inodeNr) (op.offset + k)) ∧ ∀ k, n ≤ k → out k = mem k

/-- **A copy from the file**, unless the number of the first block is taken for one of level 1. -/
theorem readDblock_exact (hsize : op.offset + n ≤ (u.inodes op.inodeNr).fileSize) (h32 : op.offset + n ≤ 2 ^ 32)
    (hw : op.offset / 4096 < 65536 ∨ 49 ≤ op.offset / 4096 % 65536) : ReadsExactly op n u := by
  have hl3 : level3Limit = 1053745 := rfl
  have hmax : level3LimitTimesBlockSize = 4294972465 := rfl
  intro mem
  have hlim : op.offset + n ≤ level3LimitTimesBlockSize := by omega
  have hmap : MapStays (fun _ : Bytes => u) (fun _ => True) u op.inodeNr (op.offset + n) := fun _ _ _ _ _ => rfl
  have heq : throughMap (fun _ => u) (copyOut u) op.inodeNr (.start op.offset n) mem =
      loopPages (copyOut u) (u.dblock op.inodeNr) (level3Limit - op.offset / 4096) (op.offset / 4096)
        (.start op.offset n) mem := throughMap_eq hmap hlim (fun _ _ _ _ _ => trivial) hw rfl trivial
  obtain ⟨hleft, hdone, hpos⟩ := throughMap_done (fun _ => u) (copyOut u) op.inodeNr mem hlim rfl
  obtain ⟨hin, hout⟩ := loopPages_read (u.dblock op.inodeNr) mem (u := u) (Cursor.start_at op.offset n) (by omega)
    (by omega : op.offset + n ≤ 4096 * (op.offset / 4096 + (level3Limit - op.offset / 4096)))
  rw [← heq] at hin hout
  have hstart : (Cursor.start op.offset n).done = 0 := rfl
  have hlen : (Cursor.start op.offset n).left = n := rfl
  rw [hstart, hlen] at hin hout
  have hfill : ∀ (b : Bytes) d, fill b d 0 0 = b := fun b d => funext fun k => copy_out (by omega)
  refine ⟨_, ?_, fun k hk => ?_, fun k hk => hout k (by omega)⟩
  · unfold Segments.readDblock
    dsimp only
    rw [Nat.mod_eq_of_lt (by omega), if_pos hsize, hpos, hfill, toInt64, if_pos (by omega), Nat.mod_eq_of_lt (by omega)]
  · have := hin k hk
    rwa [Nat.zero_add] at this

/-! ## The main theorem -/

theorem writesExactly_zero (op : OpEntry) (u : Segments) : WritesExactly op 0 u := fun buf =>
  ⟨u, by unfold Segments.writeDblock; rw [throughMap_of_end rfl rfl]; rfl, .nil .., rfl, rfl, fun _ _ => rfl⟩

theorem readsExactly_zero (hsize : op.offset ≤ (u.inodes op.inodeNr).fileSize) (h32 : op.offset ≤ 2 ^ 32) :
    ReadsExactly op 0 u := fun mem => by
  refine ⟨mem, ?_, fun k hk => absurd hk (Nat.not_lt_zero k), fun _ _ => rfl⟩
  unfold Segments.readDblock
  dsimp only
  rw [Nat.add_zero, Nat.mod_eq_of_lt (by omega), if_pos hsize, throughMap_of_end rfl rfl]
  exact congrArg (fun x => ((0 : Int), op, x)) (funext fun k => copy_out (by omega))

/-- **Reads and writes address the right blocks** of every file whose blocks are different, at every offset and for every
length, if and only if nothing is moved or the number of the first block is not taken for one of level 1. -/
theorem dblocks_addressed_iff (hd : u.Apart op.inodeNr)
    (hend : op.offset + n ≤ 4096 * (u.inodes op.inodeNr).blocks) (h32 : 4096 * (u.inodes op.inodeNr).blocks ≤ 2 ^ 32) :
    (WritesExactly op n u ∧ (op.offset + n ≤ (u.inodes op.inodeNr).fileSize → ReadsExactly op n u)) ↔
      n = 0 ∨ op.offset / 4096 < 65536 ∨ 49 ≤ op.offset / 4096 % 65536 := by
  have hb : (u.inodes op.inodeNr).blocks ≤ level3Limit := by
    unfold level3Limit
    omega
  constructor
  · rintro ⟨hwrite, -⟩
    by_contra hno
    -- the byte at the offset does not become the first of the buffer
    obtain ⟨x, hx⟩ : ∃ x, u.data (u.dblock op.inodeNr (op.offset / 4096)) (op.offset % 4096) = x := ⟨_, rfl⟩
    obtain ⟨u', hu', hst, -⟩ := hwrite fun _ => x + 1
    have hmiss := writeDblock_aliased hd hb rfl hend (by omega) (by omega) (by omega) (by omega) fun _ => x + 1
    rw [hu'] at hmiss
    have hbyte : u'.data (u.dblock op.inodeNr (op.offset / 4096)) (op.offset % 4096) = x + 1 := hst.cell_in 0 (by omega)
    rw [hmiss, hx] at hbyte
    exact absurd hbyte (by simp)
  · rintro (rfl | hw)
    · exact ⟨writesExactly_zero op u, fun hsize => readsExactly_zero hsize (by omega)⟩
    · exact ⟨writeDblock_exact hd hb rfl hend (by omega) hw, fun hsize => readDblock_exact hsize (by omega) hw⟩

/-- The number that `fileSegments` gives to a reference. -/
def refNumber : Ref → Nat
  | .l1 k => k
  | .l2 j => 2 ^ 20 + j
  | .l2e j k => 49 + 1024 * j + k
  | .l3 => 2 ^ 20 + 5
  | .l3e q => 2 ^ 20 + 6 + q
  | .l3d q k => 5169 + 1024 * q + k

/-- A block whose entry `k` is the number `g k`. -/
def entries (g : Nat → Nat) : Block := fun r => byteOf (g (r / 4)) (r % 4)

theorem pointer_entries (g : Nat → Nat) {k : Nat} (h : g k < 2 ^ 32) : pointer (entries g) k = g k := by
  unfold pointer
  rw [u32_of_bytes (v := g k) fun j hj => ?_]
  · exact Nat.mod_eq_of_lt h
  · unfold entries
    rw [show (4 * k + j) / 4 = k by omega, show (4 * k + j) % 4 = j by omega]

/-- The segments of a formatted volume with a file of `blocks` blocks and `size` bytes; block `k` of the file is block
`k` of the data region, and the pointer blocks are behind the first 1048576. -/
def fileSegments (blocks size : Nat) : Segments where
  inodes := update (blankVolume 4096).vol.inode 1
    { mode := 7, blocks := blocks, size := size, l1 := id, l2 := fun j => 2 ^ 20 + j, l3 := 2 ^ 20 + 5, atime := 0
      ctime := 0, mtime := 0 }
  data := fun a =>
    if a < 2 ^ 20 then fun _ => 0
    else if a < 2 ^ 20 + 5 then entries fun k => 49 + 1024 * (a - 2 ^ 20) + k
    else if a = 2 ^ 20 + 5 then entries fun q => 2 ^ 20 + 6 + q
    else entries fun k => 5169 + 1024 * (a - (2 ^ 20 + 6)) + k
  cached := (blankVolume 4096).vol.cached

theorem fileSegments_ref (blocks size : Nat) {r : Ref} (hr : r.Valid) :
    (fileSegments blocks size).ref 1 r = refNumber r := by
  have hl1 : ((fileSegments blocks size).inodes 1).l1 = id := by simp [fileSegments]
  have hl2 : ((fileSegments blocks size).inodes 1).l2 = fun j => 2 ^ 20 + j := by simp [fileSegments]
  have hl3 : ((fileSegments blocks size).inodes 1).l3 = 2 ^ 20 + 5 := by simp [fileSegments]
  have hl3e : ∀ q, q < 1024 → (fileSegments blocks size).ref 1 (.l3e q) = 2 ^ 20 + 6 + q := fun q hq => by
    show pointer ((fileSegments blocks size).data ((fileSegments blocks size).inodes 1).l3) q = _
    rw [hl3]
    exact pointer_entries (fun q => 2 ^ 20 + 6 + q) (by omega)
  cases r with
  | l1 k | l2 j | l3 => simp only [Segments.ref, hl1, hl2, hl3, refNumber, id]
  | l2e j k =>
    obtain ⟨hj, hk⟩ := hr
    show pointer ((fileSegments blocks size).data (((fileSegments blocks size).inodes 1).l2 j)) k = 49 + 1024 * j + k
    rw [hl2]
    unfold fileSegments
    dsimp only
    rw [if_neg (by omega), if_pos (by omega), Nat.add_sub_cancel_left]
    exact pointer_entries (fun k => 49 + 1024 * j + k) (by omega)
  | l3e q => exact hl3e q hr
  | l3d q k =>
    obtain ⟨hq, hk⟩ := hr
    show pointer ((fileSegments blocks size).data ((fileSegments blocks size).ref 1 (.l3e q))) k = 5169 + 1024 * q + k
    rw [hl3e q hq]
    unfold fileSegments
    dsimp only
    rw [if_neg (by omega), if_neg (by omega), if_neg (by omega), Nat.add_sub_cancel_left]
    exact pointer_entries (fun k => 5169 + 1024 * q + k) (by omega)

theorem fileSegments_apart {blocks : Nat} (hb : blocks ≤ 2 ^ 20) (size : Nat) : (fileSegments blocks size).Apart 1 := by
  rintro r r' ⟨hv, hlt⟩ ⟨hv', hlt'⟩ he
  have hblocks : ((fileSegments blocks size).inodes 1).blocks = blocks := by simp [fileSegments]
  rw [hblocks] at hlt hlt'
  rw [fileSegments_ref _ _ hv, fileSegments_ref _ _ hv'] at he
  cases r <;> cases r' <;> simp only [refNumber, Ref.first, Ref.Valid] at * <;> first | omega | (congr 1 <;> omega)

/-- The descriptor table's slot of the file, at `offset`. -/
def fileSlot (offset : Nat) : OpEntry := { Desc.initial.opFtable 0 with offset := offset, inodeNr := 1 }

theorem dblocks_addressed_iff_two : WritesExactly (fileSlot 4090) 10 (fileSegments 2 8192) ∧
    ReadsExactly (fileSlot 4090) 10 (fileSegments 2 8192) := by
  have hd : (fileSegments 2 8192).Apart (fileSlot 4090).inodeNr := fileSegments_apart (by decide) 8192
  obtain ⟨hw, hr⟩ := (dblocks_addressed_iff hd (show (fileSlot 4090).offset + 10 ≤ 4096 * 2 by decide)
    (show 4096 * 2 ≤ 2 ^ 32 by decide)).mpr (Or.inr (Or.inl (by decide)))
  exact ⟨hw, hr (show 4090 + 10 ≤ 8192 by decide)⟩

/-- The byte written at the start of block 65536 of a file is not there. -/
theorem write_aliases_block : (fileSegments 65537 0).Apart 1 ∧
    ¬WritesExactly (fileSlot (4096 * 65536)) 1 (fileSegments 65537 0) := by
  have hd : (fileSegments 65537 0).Apart 1 := fileSegments_apart (by decide) 0
  have hblocks : ((fileSegments 65537 0).inodes 1).blocks = 65537 := by simp [fileSegments]
  have hblock : (fileSegments 65537 0).dblock 1 65536 = 65536 := fileSegments_ref _ _ (r := .l3d 58 975) ⟨by decide, by decide⟩
  refine ⟨hd, fun hwrite => ?_⟩
  obtain ⟨u', hu', hst, -⟩ := hwrite fun _ => 1
  have hslot : (fileSlot (4096 * 65536)).inodeNr = 1 := rfl
  have hmiss := writeDblock_aliased hd (by rw [hblocks]; decide) hslot (n := 1) (by rw [hblocks]; decide) (by decide)
    (by decide) (by decide) (by decide) fun _ => 1
  rw [hu'] at hmiss
  have hbyte : u'.data ((fileSegments 65537 0).dblock 1 65536) 0 = 1 := hst.cell_in 0 (by decide)
  have hzero : (fileSegments 65537 0).data ((fileSegments 65537 0).dblock 1 65536) 0 = 0 := by
    rw [hblock]
    rfl
  exact absurd (hbyte.symm.trans ((congrFun hmiss 0).trans hzero)) (by decide)

end Vsfs.Shm
