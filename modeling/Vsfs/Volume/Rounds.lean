import Vsfs.Volume.Content

/-!
# The rounds of `__write_dblock` and `__read_dblock`

`__write_dblock` takes the place in the first block into account, `__read_dblock` does not: it copies every block as a
whole to the start of the caller's buffer.

- `writeDblock_page`, `readDblock_page`: one block, from its start;
- `readDblock_needs`: what the file object must say for one block to be read;
- `writeLoop_first`, `readDblock_first`: cell 0 of the blocks, and byte 0 of the buffer;
- `readDblock_high`: no byte from the 4096th on is read.
-/

set_option autoImplicit false

namespace Vsfs

open Function ByteSeq

variable {v v' w w' : Volume} {f : File} {b i o n k readed written offset left fuel l : Nat} {ret ret' : Int}
  {d d' buf buf' out out' : Bytes} {block : List Nat}

/-! ## One block -/

/-- Byte 0 of what is copied to the start. -/
theorem copy_at_zero {dst src : Bytes} (h : 0 < n) : copy dst 0 src n 0 = src 0 := copy_in (o := 0) h

theorem roundLength_zero (hn : n ≤ 4096) : roundLength 0 n = n := by
  unfold roundLength blockSize
  split <;> omega

/-- The rounds of a read end when nothing is left. -/
theorem readLoop_zero (v : Volume) (f : File) (fuel i readed offset : Nat) (buf : Bytes) :
    readLoop v f fuel i readed offset 0 buf = .ok (readed, 0, buf) := by
  cases fuel with
  | zero => rfl
  | succ fuel =>
    unfold readLoop
    rw [if_neg (by omega)]

/-- **The rounds of a read** inside the blocks that the file object lists; the last block is left at the start of the
buffer. -/
theorem readLoop_inside (v : Volume) (f : File) (fuel i readed offset left : Nat) (buf : Bytes) (hfuel : left ≤ fuel)
    (ho : offset < 4096) (hb : 4096 * i + offset + left ≤ 4096 * f.blocks)
    (hl : 4096 * i + offset + left ≤ 4096 * f.block.length) :
    ∃ out, readLoop v f fuel i readed offset left buf = .ok (readed + left, 0, out) ∧
      (left ≠ 0 → ∀ b, f.block[(4096 * i + offset + left - 1) / 4096]? = some b → out 0 = v.disk (v.lba b) 0) := by
  induction fuel generalizing i readed offset left buf with
  | zero =>
    obtain rfl : left = 0 := Nat.le_zero.mp hfuel
    exact ⟨buf, rfl, fun h => absurd rfl h⟩
  | succ fuel ih =>
    by_cases h0 : left = 0
    · subst h0
      exact ⟨buf, readLoop_zero .., fun h => absurd rfl h⟩
    obtain ⟨hpos, hle, hend, hlast⟩ := roundLength_spec ho h0
    unfold readLoop
    rw [if_pos ⟨by omega, by omega⟩, List.getElem?_eq_getElem (by omega : i < f.block.length)]
    dsimp only
    by_cases hz : left - roundLength offset left = 0
    · -- the last round
      rw [hz, readLoop_zero, show readed + roundLength offset left = readed + left by omega]
      refine ⟨_, rfl, fun _ b hb' => ?_⟩
      rw [show (4096 * i + offset + left - 1) / 4096 = i by omega,
        List.getElem?_eq_getElem (by omega : i < f.block.length)] at hb'
      rw [copy_at_zero (by decide), Option.some.inj hb']
    · obtain ⟨out, hout, hfirst⟩ := ih (i + 1) (readed + roundLength offset left) 0 (left - roundLength offset left)
        (copy buf 0 (v.disk (v.lba f.block[i])) blockSize) (by omega) (by decide) (by omega) (by omega)
      rw [show readed + roundLength offset left + (left - roundLength offset left) = readed + left by omega] at hout
      refine ⟨out, hout, fun _ b hb' => hfirst hz b ?_⟩
      rwa [show 4096 * (i + 1) + 0 + (left - roundLength offset left) - 1 = 4096 * i + offset + left - 1 by omega]

/-- The one round of a read of at most one block. -/
theorem readLoop_one (h0 : 1 ≤ n) (hn : n ≤ 4096) (hi : i < f.blocks) :
    readLoop v f n i 0 0 n buf =
      (f.block[i]?).elim (.error .outOfBounds) fun b => .ok (n, 0, copy buf 0 (v.disk (v.lba b)) blockSize) := by
  obtain ⟨m, rfl⟩ : ∃ m, n = m + 1 := ⟨n - 1, by omega⟩
  unfold readLoop
  rw [if_pos ⟨hi, by omega⟩]
  simp only [roundLength_zero hn, Nat.zero_add, Nat.sub_self, readLoop_zero]
  cases f.block[i]? <;> rfl

section

variable (ho : o % 4096 = 0) (h0 : 1 ≤ n) (hn : n ≤ 4096) (hl : o + n ≤ 2 ^ 32)

include ho h0 hn hl in
/-- A write into one block, from its start. -/
theorem writeDblock_page (hb : f.block[o / 4096]? = some b) :
    ∃ x, writeDblock f o n d v = .ok (v.writeBlock (v.lba b) x) ∧ ∀ k, k < n → x k = d k := by
  obtain ⟨m, rfl⟩ : ∃ m, n = m + 1 := ⟨n - 1, by omega⟩
  have hbs : blockSize = 4096 := rfl
  unfold writeDblock
  rw [hbs, ho, Nat.mod_eq_of_lt (by omega : o / 4096 < 2 ^ 32)]
  unfold writeLoop
  rw [if_neg (by omega), hb]
  simp only [roundLength_zero hn, Nat.zero_add, Nat.sub_self, writeLoop_zero]
  refine ⟨_, rfl, fun k hk => ?_⟩
  split
  · simpa using copy_in (o := 0) hk
  · simpa using copy_in (o := 0) (show k < blockSize by omega)

include ho h0 hn hl in
/-- A read from one block, from its start. -/
theorem readDblock_page (buf : Bytes) (hs : o + n ≤ f.size) (hi : o / 4096 < f.blocks) (hb : f.block[o / 4096]? = some b) :
    ∃ buf', readDblock f o n buf v = .ok (toInt32 n, n, buf') ∧ ∀ k, k < n → buf' k = v.disk (v.lba b) k := by
  have hbs : blockSize = 4096 := rfl
  have hq : o / blockSize % 2 ^ 32 = o / 4096 := by
    rw [hbs]
    exact Nat.mod_eq_of_lt (by omega)
  unfold readDblock
  rw [if_neg (by omega), hq, hbs, ho]
  -- nothing is padded
  have hlen : (if f.size ≤ (o + n) % 2 ^ 64 then ((f.size + (2 ^ 64 - o % 2 ^ 64)) % 2 ^ 64,
      (n + (2 ^ 64 - (f.size + (2 ^ 64 - o % 2 ^ 64)) % 2 ^ 64)) % 2 ^ 64) else (n, 0)) = (n, 0) := by
    split
    · exact Prod.ext (by dsimp only; omega) (by dsimp only; omega)
    · rfl
  dsimp only
  rw [hlen]
  dsimp only
  rw [readLoop_one h0 hn hi, hb]
  refine ⟨_, rfl, fun k hk => ?_⟩
  unfold fill
  rw [copy_out (by omega)]
  simpa using copy_in (o := 0) (show k < blockSize by omega)

include ho h0 hn hl in
/-- What the file object must say for `n` bytes other than 0 to come into a buffer of zeros. -/
theorem readDblock_needs (hs : o ≤ f.size) (h : readDblock f o n buf v = .ok (ret, readed, buf')) (hret : ret ≠ -1)
    (hz : ∀ k, buf k = 0) (hd : ∀ k, k < n → buf' k ≠ 0) :
    o + n ≤ f.size ∧ o / 4096 < f.blocks ∧ o / 4096 < f.block.length := by
  have hbs : blockSize = 4096 := rfl
  have hq : o / blockSize % 2 ^ 32 = o / 4096 := by
    rw [hbs]
    exact Nat.mod_eq_of_lt (by omega)
  unfold readDblock at h
  split at h
  case isTrue =>
    cases h
    exact absurd rfl hret
  case isFalse hne =>
  rw [hq, hbs, ho] at h
  obtain ⟨len, pad, hlen, hl1, hl2, hpad⟩ : ∃ len pad, (if f.size ≤ (o + n) % 2 ^ 64 then
      ((f.size + (2 ^ 64 - o % 2 ^ 64)) % 2 ^ 64,
        (n + (2 ^ 64 - (f.size + (2 ^ 64 - o % 2 ^ 64)) % 2 ^ 64)) % 2 ^ 64) else (n, 0)) = (len, pad) ∧
      1 ≤ len ∧ len ≤ n ∧ pad = n - len ∧ (len = n → o + n ≤ f.size) := by
    split
    case isTrue hle => exact ⟨_, _, rfl, by omega, by omega, by omega, by omega⟩
    case isFalse hgt => exact ⟨_, _, rfl, h0, Nat.le_refl _, by omega, by omega⟩
  dsimp only at h
  rw [hlen] at h
  dsimp only at h
  obtain ⟨⟨r, lft, buf₁⟩, hloop, h⟩ := ExceptLib.bind_eq_ok.mp h
  cases h
  by_cases hi : o / 4096 < f.blocks
  · rw [readLoop_one hl1 (by omega) hi] at hloop
    cases hb : f.block[o / 4096]? with
    | none =>
      rw [hb] at hloop
      cases hloop
    | some b =>
      rw [hb] at hloop
      cases hloop
      refine ⟨hpad.2 ?_, hi, (List.getElem?_eq_some_iff.mp hb).1⟩
      -- a shorter read pads with zeros
      by_contra hlt
      refine hd len (by omega) ?_
      have hpadded : fill (copy buf 0 (v.disk (v.lba b)) 4096) len 0 pad (len + 0) = 0 := copy_in (by omega)
      rwa [Nat.add_zero] at hpadded
  · -- no round is made
    exfalso
    obtain ⟨m, rfl⟩ : ∃ m, len = m + 1 := ⟨len - 1, by omega⟩
    unfold readLoop at hloop
    rw [if_neg (by omega)] at hloop
    cases hloop
    refine hd 0 (by omega) ?_
    unfold fill copy
    split
    · rfl
    · exact hz 0

end

/-! ## Cell 0 of the blocks -/

/-- Two volumes with the same cached data whose blocks start with the same byte. -/
structure SameFirst (v v' : Volume) : Prop where
  cached : v'.cached = v.cached
  first : ∀ l, v'.disk l 0 = v.disk l 0

theorem SameFirst.refl (v : Volume) : SameFirst v v := ⟨rfl, fun _ => rfl⟩

theorem SameFirst.lba (h : SameFirst v v') (b : Nat) : v'.lba b = v.lba b := by
  unfold Volume.lba
  rw [h.cached]

theorem SameFirst.modInode (h : SameFirst v v') (i : Nat) (g : Inode → Inode) :
    SameFirst (v.modInode i g) (v'.modInode i g) := by
  refine ⟨?_, h.first⟩
  unfold Volume.modInode
  rw [h.cached]

theorem SameFirst.writeBlock (h : SameFirst v v') (l : Nat) (hx : out' 0 = out 0) :
    SameFirst (v.writeBlock l out) (v'.writeBlock l out') := by
  refine ⟨h.cached, fun a => ?_⟩
  by_cases ha : a = l
  · simpa [Volume.writeBlock, ha] using hx
  · simpa [Volume.writeBlock, ha] using h.first a

/-- **A write that does not start a block** does not depend on its first byte at the starts of the blocks. -/
theorem writeLoop_first (hd : ∀ k, 1 ≤ k → d' k = d k) (hv : SameFirst v v') (ho : offset < 4096)
    (hin : offset ≠ 0 ∨ 1 ≤ written) (h : writeLoop block d fuel i written offset left v = .ok w)
    (h' : writeLoop block d' fuel i written offset left v' = .ok w') : SameFirst w w' := by
  induction fuel generalizing i written offset left v v' with
  | zero =>
    cases h
    cases h'
    exact hv
  | succ fuel ih =>
    unfold writeLoop at h h'
    split at h
    case isTrue h0 =>
      rw [if_pos h0] at h'
      cases h
      cases h'
      exact hv
    case isFalse h0 =>
    rw [if_neg h0] at h'
    obtain ⟨hpos, -, hle, -⟩ := roundLength_spec ho h0
    cases hb : block[i]? with
    | none =>
      rw [hb] at h
      cases h
    | some b =>
      rw [hb] at h h'
      dsimp only at h h'
      refine ih ?_ (by decide) (Or.inr (by omega)) h h'
      rw [hv.lba]
      refine hv.writeBlock _ ?_
      -- byte 0 of the block is as it was, or comes from a later byte of the data
      by_cases hz : offset = 0
      · subst hz
        have hdata := hd (written + 0) (by omega)
        split
        · rw [copy_at_zero hpos, copy_at_zero hpos, hdata]
        · rw [copy_at_zero (by decide), copy_at_zero (by decide), hdata]
      · rw [if_pos (by unfold blockSize; omega), if_pos (by unfold blockSize; omega), copy_out (by omega),
          copy_out (by omega)]
        exact hv.first _

theorem writeDblock_first (hd : ∀ k, 1 ≤ k → d' k = d k) (hv : SameFirst v v') (ho : o % 4096 ≠ 0)
    (h : writeDblock f o n d v = .ok w) (h' : writeDblock f o n d' v' = .ok w') : SameFirst w w' :=
  writeLoop_first hd hv (Nat.mod_lt _ (by decide)) (Or.inl ho) h h'

/-- The rounds of a read bring only the starts of blocks to byte 0. -/
theorem readLoop_first {r r' l l' : Nat} (hv : SameFirst v v') (hbuf : buf' 0 = buf 0)
    (h : readLoop v f fuel i readed offset left buf = .ok (r, l, out))
    (h' : readLoop v' f fuel i readed offset left buf' = .ok (r', l', out')) : r' = r ∧ out' 0 = out 0 := by
  induction fuel generalizing i readed offset left buf buf' with
  | zero =>
    cases h
    cases h'
    exact ⟨rfl, hbuf⟩
  | succ fuel ih =>
    unfold readLoop at h h'
    split at h
    case isFalse h0 =>
      rw [if_neg h0] at h'
      cases h
      cases h'
      exact ⟨rfl, hbuf⟩
    case isTrue h0 =>
    rw [if_pos h0] at h'
    cases hb : f.block[i]? with
    | none =>
      rw [hb] at h
      cases h
    | some b =>
      rw [hb] at h h'
      refine ih ?_ h h'
      rw [copy_at_zero (by decide), copy_at_zero (by decide), hv.lba]
      exact hv.first _

/-- **Byte 0 of the buffer** comes from the start of a block, wherever the read starts. -/
theorem readDblock_first {r r' : Nat} (hv : SameFirst v v') (h : readDblock f o n buf v = .ok (ret, r, out))
    (h' : readDblock f o n buf v' = .ok (ret', r', out')) : out' 0 = out 0 := by
  unfold readDblock at h h'
  split at h
  case isTrue h0 =>
    rw [if_pos h0] at h'
    cases h
    cases h'
    rfl
  case isFalse h0 =>
  rw [if_neg h0] at h'
  dsimp only at h h'
  obtain ⟨⟨r₁, l₁, buf₁⟩, hloop, h⟩ := ExceptLib.bind_eq_ok.mp h
  obtain ⟨⟨r₂, l₂, buf₂⟩, hloop', h'⟩ := ExceptLib.bind_eq_ok.mp h'
  obtain ⟨rfl, hfirst⟩ := readLoop_first hv rfl hloop hloop'
  cases h
  cases h'
  unfold fill copy
  dsimp only
  rw [hfirst]

/-! ## The bytes from the 4096th on -/

theorem readLoop_high {r l : Nat} (h : readLoop v f fuel i readed offset left buf = .ok (r, l, out))
    (hk : 4096 ≤ k) : out k = buf k := by
  induction fuel generalizing i readed offset left buf with
  | zero =>
    cases h
    rfl
  | succ fuel ih =>
    unfold readLoop at h
    split at h
    case isFalse =>
      cases h
      rfl
    case isTrue =>
    cases hb : f.block[i]? with
    | none =>
      rw [hb] at h
      cases h
    | some b =>
      rw [hb] at h
      rw [ih h, copy_out (by unfold blockSize; omega)]

/-- **A read brings nothing** to the bytes from the 4096th on. -/
theorem readDblock_high (h : readDblock f o n buf v = .ok (ret, readed, out)) (hk : 4096 ≤ k) (hz : buf k = 0) :
    out k = 0 := by
  unfold readDblock at h
  split at h
  case isTrue =>
    cases h
    exact hz
  case isFalse =>
  dsimp only at h
  obtain ⟨⟨r, l, buf₁⟩, hloop, h⟩ := ExceptLib.bind_eq_ok.mp h
  cases h
  unfold fill copy
  dsimp only
  rw [readLoop_high hloop hk, hz, ite_self]

end Vsfs
