import Mathlib.Data.List.GetD
import Vsfs.Model.Dblock
import Vsfs.Volume.Cases
import Vsfs.Volume.Rounds

/-!
# Scattering a write and gathering a read

What `__write_dblock` and `__read_dblock` of `vsfsio_spdk.h` do to the concatenation of the blocks that a file object
lists, byte by byte.

- `writeRounds_of_loop`, `readRounds_of_loop`: the rounds are those of the loops in `vsfs_write` and `vsfs_read`;
- `writeDblock_scatters`: a write is exact;
- `readDblock_gathers_iff`: a read is exact if and only if it is one of whole blocks into the first of them.
-/

set_option autoImplicit false

namespace Vsfs

open Function ByteSeq Paged Shm

variable {v w : Volume} {d : Desc} {p a i n o m fuel : Nat} {f : File} {c : Cursor} {buf : Buffer} {mem out : Bytes}

/-! ## Writes -/

theorem Buffer.read_of_le {k l : Nat} (h : k + l ≤ buf.size) : buf.read k l = .ok fun j => buf.bytes (k + j) := if_pos h

theorem writeRounds_end (hl : c.left = 0) : writeRounds d p buf fuel i c v = .ok (c, v) := by
  cases fuel with
  | zero => exact if_pos hl
  | succ fuel =>
    unfold writeRounds
    rw [if_pos hl]

/-- **The rounds of a write** are those of its loop, when the buffer is long enough. -/
theorem writeRounds_of_loop (hf : d.fileOf p = .ok (a, f)) (hsize : c.done + c.left ≤ buf.size) (hfuel : c.left ≤ fuel)
    (ho : c.offset < 4096) (hlen : f.block.length ≤ 2 ^ 32) (hpos : c.pos + c.left < 2 ^ 64)
    (h : writeLoop f.block buf.bytes fuel i c.done c.offset c.left v = .ok w) :
    ∃ c', writeRounds d p buf fuel i c v = .ok (c', w) ∧ c'.done = c.done + c.left ∧ c'.pos = c.pos + c.left := by
  have hbs : blockSize = 4096 := rfl
  induction fuel generalizing i c v with
  | zero =>
    cases h
    have hl : c.left = 0 := Nat.le_zero.mp hfuel
    exact ⟨c, writeRounds_end hl, by omega, by omega⟩
  | succ fuel ih =>
    by_cases hl : c.left = 0
    · rw [hl, writeLoop_zero] at h
      cases h
      exact ⟨c, writeRounds_end hl, by omega, by omega⟩
    obtain ⟨h0, hle, hend, -⟩ := roundLength_spec ho hl
    unfold writeLoop at h
    rw [if_neg hl] at h
    unfold writeRounds
    rw [if_neg hl, hf, ExceptLib.ok_bind]
    cases hb : f.block[i]? with
    | none =>
      rw [hb] at h
      cases h
    | some b =>
      rw [hb] at h
      have hi := (List.getElem?_eq_some_iff.mp hb).1
      have hd' : c.next.done = c.done + roundLength c.offset c.left := rfl
      have hl' : c.next.left = c.left - roundLength c.offset c.left := rfl
      have hp' : c.next.pos = c.pos + roundLength c.offset c.left :=
        Nat.mod_eq_of_lt (by show c.pos + roundLength _ _ < _; omega)
      -- both branches read what the round takes from the buffer
      have hout : (if c.length ≠ blockSize then do
            let data ← buf.read c.done c.length
            .ok (copy (v.disk (v.lba b)) c.offset data c.length)
          else do
            let data ← buf.read c.done blockSize
            .ok (copy (fun _ => 0) 0 data blockSize) : M Block) =
          .ok (if roundLength c.offset c.left ≠ blockSize then
            copy (v.disk (v.lba b)) c.offset (fun k => buf.bytes (c.done + k)) (roundLength c.offset c.left)
          else copy (fun _ => 0) 0 (fun k => buf.bytes (c.done + k)) blockSize) := by
        unfold Cursor.length
        split
        · rw [Buffer.read_of_le (by omega), ExceptLib.ok_bind]
        · rw [Buffer.read_of_le (by omega), ExceptLib.ok_bind]
      dsimp only at h ⊢
      rw [hb]
      dsimp only
      rw [hout, ExceptLib.ok_bind]
      obtain ⟨x, hx⟩ : ∃ x, (if roundLength c.offset c.left ≠ blockSize then
            copy (v.disk (v.lba b)) c.offset (fun k => buf.bytes (c.done + k)) (roundLength c.offset c.left)
          else copy (fun _ => 0) 0 (fun k => buf.bytes (c.done + k)) blockSize) = x := ⟨_, rfl⟩
      rw [hx] at h ⊢
      by_cases hz : c.next.left = 0
      · rw [← hl', hz, writeLoop_zero] at h
        cases h
        exact ⟨c.next, writeRounds_end hz, by omega, by omega⟩
      · rw [← hd', ← hl'] at h
        -- the next block is listed as well, so its number does not wrap
        have hi' : i + 1 < f.block.length := by
          by_contra hge
          obtain ⟨l, hl₁⟩ : ∃ l, fuel = l + 1 := ⟨fuel - 1, by omega⟩
          rw [hl₁] at h
          unfold writeLoop at h
          rw [if_neg hz, List.getElem?_eq_none (Nat.not_lt.mp hge)] at h
          cases h
        rw [Nat.mod_eq_of_lt (by omega)]
        obtain ⟨c', hc', hd₁, hp₁⟩ := ih (c := c.next) (by omega) (by omega) (by show 0 < 4096; decide) (by omega) h
        exact ⟨c', hc', by omega, by omega⟩

/-- The concatenation of the blocks that a file object lists. -/
def File.pages (f : File) (v : Volume) (k : Nat) : Nat := v.lba (f.block.getD k 0)

theorem pages_inj (hd : f.block.Nodup) (h32 : ∀ b, b ∈ f.block → b < 2 ^ 32) {j k : Nat} (hj : j < f.block.length)
    (hk : k < f.block.length) (he : f.pages v j = f.pages v k) : j = k := by
  unfold File.pages Volume.lba at he
  rw [List.getD_eq_getElem _ _ hj, List.getD_eq_getElem _ _ hk] at he
  have hlt := h32 _ (List.getElem_mem hj)
  have hlt' := h32 _ (List.getElem_mem hk)
  exact (List.Nodup.getElem_inj_iff hd).mp (by omega)

/-- Numbers of 32 bits, all different. -/
theorem length_le_of_nodup {l : List Nat} (hd : l.Nodup) (h32 : ∀ b, b ∈ l → b < 2 ^ 32) : l.length ≤ 2 ^ 32 := by
  have hsub : l.Subperm (List.range (2 ^ 32)) := hd.subperm fun b hb => List.mem_range.mpr (h32 b hb)
  have := hsub.length_le
  rwa [List.length_range] at this

/-- **Scattering a write is exact.** For every slot whose file object lists different blocks, every offset and every
buffer whose bytes end inside them: the call ends, returns `n` and advances the offset by `n`, byte `k` of the buffer is
byte `o + k` of the blocks, and all other bytes of the device are what they were. -/
theorem writeDblock_scatters (hf : d.fileOf p = .ok (a, f)) (hd : f.block.Nodup) (h32 : ∀ b, b ∈ f.block → b < 2 ^ 32)
    (hn : (d.opFtable p).offset + n ≤ 4096 * f.block.length) (mem : Bytes) (v : Volume) :
    ∃ w, d.writeDblock p n ⟨mem, n⟩ v = .ok (n, d.setOffset p ((d.opFtable p).offset + n), w) ∧
      Stored 4096 (f.pages v) (d.opFtable p).offset n mem v.disk w.disk ∧ w.cached = v.cached := by
  have hlen := length_le_of_nodup hd h32
  obtain ⟨o, ho⟩ : ∃ o, (d.opFtable p).offset = o := ⟨_, rfl⟩
  rw [ho] at hn ⊢
  have hsplit : 4096 * (o / 4096) + o % 4096 = o := Nat.div_add_mod o 4096
  have hlist : ∀ q, o / 4096 ≤ q → 4096 * q < 4096 * (o / 4096) + o % 4096 + n →
      ∃ b, f.block[q]? = some b ∧ v.lba b = f.pages v q := by
    intro q _ hlt
    have hq : q < f.block.length := by omega
    refine ⟨f.block.getD q 0, ?_, rfl⟩
    rw [List.getD_eq_getElem _ _ hq]
    exact List.getElem?_eq_getElem hq
  have hapart : PagesApart (f.pages v) (o / 4096) (4096 * (o / 4096) + o % 4096 + n) :=
    fun q r _ _ hq hr he => pages_inj hd h32 (by omega) (by omega) he
  obtain ⟨w, hw, hst⟩ : ∃ w, writeLoop f.block mem n (o / 4096) 0 (o % 4096) n v = .ok w ∧
      Stored 4096 (f.pages v) (4096 * (o / 4096) + o % 4096) n (fun x => mem (0 + x)) v.disk w.disk :=
    writeLoop_stored (Nat.le_refl n) (Nat.mod_lt _ (by decide)) hlist hapart
  simp only [hsplit, Nat.zero_add] at hst
  refine ⟨w, ?_, hst, writeLoop_cached hw⟩
  unfold Desc.writeDblock
  dsimp only
  rw [ho, show blockSize = 4096 from rfl]
  by_cases hn0 : n = 0
  · subst hn0
    rw [writeLoop_zero] at hw
    cases hw
    rw [writeRounds_end rfl]
    rfl
  rw [Nat.mod_eq_of_lt (by omega)]
  obtain ⟨c', hc', hd', hp'⟩ := writeRounds_of_loop (c := .start o n) hf
    (show 0 + n ≤ (Buffer.mk mem n).size by rw [Nat.zero_add]) (Nat.le_refl n) (Nat.mod_lt _ (by decide)) hlen
    (by show o + n < 2 ^ 64; omega) hw
  rw [hc']
  show Except.ok (c'.done, d.setOffset p c'.pos, w) = _
  rw [hd', hp']
  show Except.ok (0 + n, d.setOffset p (o + n), w) = _
  rw [Nat.zero_add]

/-- A file object of `size` bytes that lists `block`. -/
def File.listing (size : Nat) (block : List Nat) : File where
  size := size
  mode := 7
  blocks := block.length
  block := block
  l2Block := fun _ => 0
  l3Block := 0
  inode := 1
  atime := 0
  ctime := 0
  mtime := 0

/-- The descriptors with that file object behind slot 0, at `offset`. -/
def Desc.listing (offset size : Nat) (block : List Nat) : Desc :=
  { Desc.initial with
    files := update Desc.initial.files 0 (some (File.listing size block))
    opFtable := update Desc.initial.opFtable 0
      { Desc.initial.opFtable 0 with offset := offset, inodeNr := 1, filePtr := some 0 } }

theorem listing_fileOf (offset size : Nat) (block : List Nat) :
    (Desc.listing offset size block).fileOf 0 = .ok (0, File.listing size block) := rfl

theorem writeDblock_scatters_two : ∃ w : Volume,
    (Desc.listing 4000 0 [3, 1]).writeDblock 0 200 ⟨fun _ => 97, 200⟩ (blankVolume 4096).vol =
      .ok (200, (Desc.listing 4000 0 [3, 1]).setOffset 0 4200, w) ∧
    Stored 4096 ((File.listing 0 [3, 1]).pages (blankVolume 4096).vol) 4000 200 (fun _ => 97)
      (blankVolume 4096).vol.disk w.disk ∧ w.cached = (blankVolume 4096).vol.cached :=
  writeDblock_scatters (listing_fileOf 4000 0 [3, 1]) (by decide)
    (by intro b hb; rcases List.mem_pair.mp hb with rfl | rfl <;> decide) (by decide) _ _

/-! ## Reads -/

theorem readRounds_end (h : ¬(i < f.blocks ∧ 0 < c.left)) : readRounds v f fuel i c mem = .ok (c, mem) := by
  cases fuel with
  | zero => exact if_neg h
  | succ fuel =>
    unfold readRounds
    rw [if_neg h]

/-- **The rounds of a read** are those of its loop. -/
theorem readRounds_of_loop {r l : Nat} (hfuel : c.left ≤ fuel) (ho : c.offset < 4096) (hb : f.blocks < 2 ^ 32)
    (hpos : c.pos + c.left < 2 ^ 64)
    (h : readLoop v f fuel i c.done c.offset c.left mem = .ok (r, l, out)) :
    ∃ c', readRounds v f fuel i c mem = .ok (c', out) ∧ c'.done = r ∧ c'.pos + c.done = c.pos + r := by
  induction fuel generalizing i c mem with
  | zero =>
    cases h
    exact ⟨c, readRounds_end (by omega), rfl, rfl⟩
  | succ fuel ih =>
    unfold readLoop at h
    split at h
    case isFalse h0 =>
      cases h
      exact ⟨c, readRounds_end h0, rfl, rfl⟩
    case isTrue h0 =>
    obtain ⟨hp, hle, -, -⟩ := roundLength_spec ho (show c.left ≠ 0 by omega)
    unfold readRounds
    rw [if_pos h0]
    cases hbk : f.block[i]? with
    | none =>
      rw [hbk] at h
      cases h
    | some b =>
      rw [hbk] at h
      have hl' : c.next.left = c.left - roundLength c.offset c.left := rfl
      have hd' : c.next.done = c.done + roundLength c.offset c.left := rfl
      have hp' : c.next.pos = c.pos + roundLength c.offset c.left :=
        Nat.mod_eq_of_lt (by show c.pos + roundLength _ _ < _; omega)
      dsimp only at h ⊢
      rw [Nat.mod_eq_of_lt (by omega : i + 1 < 2 ^ 32)]
      rw [← hl', ← hd'] at h
      obtain ⟨c', hc', hr, hpos'⟩ := ih (c := c.next) (by omega) (by show 0 < 4096; decide) (by omega) h
      exact ⟨c', hc', hr, by omega⟩

/-- The call returns `n`, puts bytes `o` to `o + m - 1` of the blocks into the buffer and zeros behind them, changes no
byte behind the buffer, and advances the offset by `m`: as many bytes as are asked for and there are up to the size. -/
def Gathered (d : Desc) (p : Nat) (f : File) (n : Nat) (mem : Bytes) (v : Volume) : Prop :=
  ∃ out m, m = min n (f.size - (d.opFtable p).offset) ∧
    d.readDblock p n mem v = .ok ((n : Int), d.setOffset p ((d.opFtable p).offset + m), out) ∧
    (∀ k, k < m → out k = cell 4096 v.disk (f.pages v) ((d.opFtable p).offset + k)) ∧
    (∀ k, m ≤ k → k < n → out k = 0) ∧ ∀ k, n ≤ k → out k = mem k

section

variable (hf : d.fileOf p = .ok (a, f)) (hlen : f.block.length = f.blocks) (hb : f.blocks < 2 ^ 32)
  (hS : f.size ≤ 4096 * f.blocks) (ho : (d.opFtable p).offset < f.size)

include hf hlen hb hS ho in
/-- What the call does, up to the length of the request. -/
theorem readDblock_run (hn : n < 2 ^ 63) (hm : min n (f.size - (d.opFtable p).offset) = m) (mem : Bytes) (v : Volume) :
    ∃ out, readLoop v f m ((d.opFtable p).offset / 4096) 0 ((d.opFtable p).offset % 4096) m mem = .ok (m, 0, out) ∧
      d.readDblock p n mem v =
        .ok ((n : Int), d.setOffset p ((d.opFtable p).offset + m), fill out m 0 (n - m)) ∧
      (m ≠ 0 → ∀ b, f.block[((d.opFtable p).offset + m - 1) / 4096]? = some b → out 0 = v.disk (v.lba b) 0) := by
  obtain ⟨o, hoff⟩ : ∃ o, (d.opFtable p).offset = o := ⟨_, rfl⟩
  rw [hoff] at ho hm ⊢
  have hbs : blockSize = 4096 := rfl
  have hsplit : 4096 * (o / 4096) + o % 4096 = o := Nat.div_add_mod o 4096
  obtain ⟨out, hout, hfirst⟩ := readLoop_inside v f m (o / 4096) 0 (o % 4096) m mem (Nat.le_refl m)
    (Nat.mod_lt _ (by decide)) (by omega) (by omega)
  rw [Nat.zero_add] at hout
  rw [hsplit] at hfirst
  refine ⟨out, hout, ?_, hfirst⟩
  obtain ⟨c', hc', hd', hp'⟩ := readRounds_of_loop (c := .start o m) (Nat.le_refl m) (Nat.mod_lt _ (by decide)) hb
    (by show o + m < 2 ^ 64; omega) hout
  have hp₁ : c'.pos = o + m := hp'
  -- the three ways to compute the length
  have hleft : (if f.size ≤ (o + n) % 2 ^ 64 then (f.size + (2 ^ 64 - o % 2 ^ 64)) % 2 ^ 64 else n) = m := by
    split <;> omega
  have hpad : (if f.size ≤ (o + n) % 2 ^ 64 then (n + (2 ^ 64 - m)) % 2 ^ 64 else 0) = n - m := by
    split <;> omega
  unfold Desc.readDblock
  rw [hf, ExceptLib.ok_bind]
  dsimp only
  rw [hoff, if_neg (by omega), hleft, hpad, hbs, Nat.mod_eq_of_lt (by omega), hc']
  show Except.ok (toInt64 n, d.setOffset p c'.pos, fill out c'.done 0 (n - m)) = _
  rw [hd', hp₁, toInt64, if_pos (by omega), Nat.mod_eq_of_lt (by omega)]

include hf hlen hb hS ho in
/-- A read of whole blocks into the first of them. -/
theorem gathered_of_page (hn : n < 2 ^ 63) (hal : (d.opFtable p).offset % 4096 = 0) (hbuf : 4096 ≤ n)
    (hmin : min n (f.size - (d.opFtable p).offset) ≤ 4096) (mem : Bytes) (v : Volume) : Gathered d p f n mem v := by
  obtain ⟨m, hm⟩ : ∃ m, min n (f.size - (d.opFtable p).offset) = m := ⟨_, rfl⟩
  obtain ⟨out, hout, hr, -⟩ := readDblock_run hf hlen hb hS ho hn hm mem v
  refine ⟨_, m, hm.symm, hr, ?_⟩
  obtain ⟨o, hoff⟩ : ∃ o, (d.opFtable p).offset = o := ⟨_, rfl⟩
  rw [hoff] at hal ho hm hmin hout ⊢
  rw [hal, readLoop_one (by omega) (by omega) (by omega),
    List.getElem?_eq_getElem (by omega : o / 4096 < f.block.length)] at hout
  obtain rfl : copy mem 0 (v.disk (v.lba f.block[o / 4096])) blockSize = out :=
    congrArg (fun r : Nat × Nat × Bytes => r.2.2) (Except.ok.inj hout)
  refine ⟨fun k hk => ?_, fun k hk hk' => ?_, fun k hk => ?_⟩
  · unfold fill cell File.pages
    rw [copy_out (by omega), List.getD_eq_getElem _ _ (by omega : (o + k) / 4096 < f.block.length)]
    simp only [show (o + k) / 4096 = o / 4096 by omega, show (o + k) % 4096 = k by omega]
    have hk4 : k < blockSize := by
      unfold blockSize
      omega
    have hin : copy mem 0 (v.disk (v.lba f.block[o / 4096])) blockSize (0 + k) = v.disk (v.lba f.block[o / 4096]) k :=
      copy_in hk4
    simpa using hin
  · have hpad : fill (copy mem 0 (v.disk (v.lba f.block[o / 4096])) blockSize) m 0 (n - m) (m + (k - m)) = 0 :=
      copy_in (by omega)
    rwa [Nat.add_sub_cancel' hk] at hpad
  · unfold fill
    rw [copy_out (by omega), copy_out (by unfold blockSize; omega)]

include hf in
/-- The result is -1 or the length of the request, as an `int64_t`. -/
theorem readDblock_result {ret : Int} {d' : Desc} (h : d.readDblock p n mem v = .ok (ret, d', out)) :
    ret = -1 ∨ ret = toInt64 n := by
  unfold Desc.readDblock at h
  rw [hf, ExceptLib.ok_bind] at h
  dsimp only at h
  split at h
  · cases h
    exact Or.inl rfl
  · obtain ⟨r, -, h⟩ := ExceptLib.bind_eq_ok.mp h
    cases h
    exact Or.inr rfl

include hf in
theorem Gathered.lt (h : Gathered d p f n mem v) (hn : n < 2 ^ 64) : n < 2 ^ 63 := by
  obtain ⟨out, m, -, hr, -⟩ := h
  by_contra hge
  rcases readDblock_result hf hr with h1 | h1
  · omega
  · rw [toInt64, Nat.mod_eq_of_lt hn, if_neg hge] at h1
    omega

/-- The volume with a byte 1 at byte `r` of block `l` of the device, and zeros elsewhere. -/
def Volume.marked (v : Volume) (l r : Nat) : Volume := { v with disk := fun a k => if a = l ∧ k = r then 1 else 0 }

variable (hd : f.block.Nodup) (h32 : ∀ b, b ∈ f.block → b < 2 ^ 32)

include hf hlen hb hS ho hd h32 in
/-- A read that finds a byte 1 where it stands on the device, and nowhere else, is one into the first block. -/
theorem Gathered.page (hn : n < 2 ^ 63) (h1 : 1 ≤ n)
    (h : Gathered d p f n (fun _ => 0)
      (v.marked (f.pages v ((d.opFtable p).offset / 4096)) ((d.opFtable p).offset % 4096))) :
    (d.opFtable p).offset % 4096 = 0 ∧ min n (f.size - (d.opFtable p).offset) ≤ 4096 := by
  obtain ⟨out, m, hm, hr, hin, -⟩ := h
  obtain ⟨out₀, -, hr₀, hfirst⟩ := readDblock_run hf hlen hb hS ho hn hm.symm (fun _ => 0)
    (v.marked (f.pages v ((d.opFtable p).offset / 4096)) ((d.opFtable p).offset % 4096))
  obtain ⟨o, hoff⟩ : ∃ o, (d.opFtable p).offset = o := ⟨_, rfl⟩
  rw [hoff] at ho hm hr hr₀ hin hfirst ⊢
  have hout : out = fill out₀ m 0 (n - m) := congrArg (fun r : Int × Desc × Bytes => r.2.2) (Except.ok.inj (hr.symm.trans hr₀))
  have hlast : (o + m - 1) / 4096 < f.block.length := by omega
  have hbyte := hin 0 (by omega)
  rw [hout, fill, copy_out (by omega), hfirst (by omega) _ (List.getElem?_eq_getElem hlast)] at hbyte
  have hone : cell 4096 (v.marked (f.pages v (o / 4096)) (o % 4096)).disk
      (f.pages (v.marked (f.pages v (o / 4096)) (o % 4096))) (o + 0) = 1 := if_pos ⟨rfl, rfl⟩
  rw [hone] at hbyte
  -- byte 0 of the last block is the byte sought
  obtain ⟨hpage, hzero⟩ : v.lba f.block[(o + m - 1) / 4096] = f.pages v (o / 4096) ∧ 0 = o % 4096 := by
    by_contra hno
    have : (v.marked (f.pages v (o / 4096)) (o % 4096)).disk (v.lba f.block[(o + m - 1) / 4096]) 0 = 0 := if_neg hno
    exact absurd (this.symm.trans hbyte) (by decide)
  have hsame : (o + m - 1) / 4096 = o / 4096 := by
    refine pages_inj (v := v) hd h32 hlast (by omega) ?_
    rw [← hpage]
    unfold File.pages
    rw [List.getD_eq_getElem _ _ hlast]
  omega

include hf hlen hb hS ho in
/-- A read of a part of a block brings more bytes than asked for. -/
theorem Gathered.long (hn : n < 2 ^ 63) (h1 : 1 ≤ n) (hal : (d.opFtable p).offset % 4096 = 0)
    (h : Gathered d p f n (fun _ => 0) { v with disk := fun _ _ => 1 }) : 4096 ≤ n := by
  obtain ⟨out, m, hm, hr, -, -, hbeyond⟩ := h
  obtain ⟨out₀, hloop, hr₀, -⟩ := readDblock_run hf hlen hb hS ho hn hm.symm (fun _ => 0) { v with disk := fun _ _ => 1 }
  obtain ⟨o, hoff⟩ : ∃ o, (d.opFtable p).offset = o := ⟨_, rfl⟩
  rw [hoff] at ho hm hal hr hr₀ hloop
  have hout : out = fill out₀ m 0 (n - m) := congrArg (fun r : Int × Desc × Bytes => r.2.2) (Except.ok.inj (hr.symm.trans hr₀))
  by_contra hlt
  rw [hal, readLoop_one (by omega) (by omega) (by omega),
    List.getElem?_eq_getElem (by omega : o / 4096 < f.block.length)] at hloop
  obtain rfl : copy (fun _ => 0) 0 (fun _ => 1) blockSize = out₀ :=
    congrArg (fun r : Nat × Nat × Bytes => r.2.2) (Except.ok.inj hloop)
  have hbyte := hbeyond 4095 (by omega)
  rw [hout, fill, copy_out (by omega)] at hbyte
  exact absurd hbyte (by decide)

include hf hlen hb hS ho hd h32 in
/-- **Gathering a read is exact** on every device and for every memory if and only if the offset is that of a block, the
buffer has the length of a block at least, not more than a block is read, and the length fits an `int64_t`. -/
theorem readDblock_gathers_iff {nbyte : UInt64} (hn : 1 ≤ nbyte.toNat) :
    (∀ disk mem, Gathered d p f nbyte.toNat mem { v with disk := disk }) ↔
      (d.opFtable p).offset % 4096 = 0 ∧ 4096 ≤ nbyte.toNat ∧
        min nbyte.toNat (f.size - (d.opFtable p).offset) ≤ 4096 ∧ nbyte.toNat < 2 ^ 63 := by
  constructor
  · intro h
    have h63 := (h (fun _ _ => 0) (fun _ => 0)).lt hf nbyte.toNat_lt
    obtain ⟨hal, hmin⟩ := Gathered.page (v := v) hf hlen hb hS ho hd h32 h63 hn (h _ _)
    exact ⟨hal, Gathered.long (v := v) hf hlen hb hS ho h63 hn hal (h _ _), hmin, h63⟩
  · rintro ⟨hal, hbuf, hmin, h63⟩ disk mem
    exact gathered_of_page hf hlen hb hS ho h63 hal hbuf hmin mem _

end

theorem readDblock_gathers_iff_page : ∃ v : Volume,
    Gathered (Desc.listing 4096 8192 [3, 1]) 0 (File.listing 8192 [3, 1]) 4096 (fun _ => 7) v := by
  have hn : 1 ≤ (4096 : UInt64).toNat := by decide
  have hall := (readDblock_gathers_iff (v := (blankVolume 4096).vol) (listing_fileOf 4096 8192 [3, 1]) rfl (by decide)
    (by decide) (by decide) (by decide) (by decide) hn).mpr (by decide)
  exact ⟨_, hall (fun _ _ => 0) (fun _ => 7)⟩

/-- A read of the byte at offset 1 brings the byte at offset 0. -/
theorem read_ignores_offset : ∃ v : Volume, v.disk (v.lba 3) 0 = 0 ∧ v.disk (v.lba 3) 1 = 1 ∧
    ((Desc.listing 1 2 [3]).readDblock 0 1 (fun _ => 7) v).map (fun r => (r.1, r.2.2 0)) = .ok (1, 0) ∧
      ¬Gathered (Desc.listing 1 2 [3]) 0 (File.listing 2 [3]) 1 (fun _ => 7) v := by
  have hrun : ∀ c : Cached, ((Desc.listing 1 2 [3]).readDblock 0 1 (fun _ => 7)
      ⟨c, fun _ k => if k = 1 then 1 else 0⟩).map (fun r => (r.1, r.2.2 0)) = .ok (1, 0) := fun _ => rfl
  refine ⟨⟨(blankVolume 4096).vol.cached, fun _ k => if k = 1 then 1 else 0⟩, rfl, rfl, hrun _, ?_⟩
  rintro ⟨out, m, hm, hr, hin, -⟩
  have hbyte : out 0 = 1 := hin 0 (by rw [hm]; decide)
  have hzero := hrun (blankVolume 4096).vol.cached
  rw [hr] at hzero
  have : out 0 = 0 := congrArg Prod.snd (Except.ok.inj hzero)
  exact absurd (this.symm.trans hbyte) (by decide)

end Vsfs
