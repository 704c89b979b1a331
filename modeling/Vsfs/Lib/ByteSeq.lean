import Mathlib.Algebra.Ring.Nat
import Mathlib.Tactic.Common
import Mathlib.Logic.Function.Basic

/-!
# Byte sequences

Memory is a function from addresses to bytes.

- `copy` is `memcpy` into a sequence, `fill` is `memset`;
- `u16`, `u32`, `u64` read little-endian numbers, `putU16`, `putU32`, `putU64` write them, and reading back gives
  the number written (`u16_putU16`, `u32_putU32`, `u64_putU64`);
- `CStr` is a C string: its characters, none of them the terminator; `strAt` is the test `!strcmp` of a buffer with
  a string, and at most one string passes it (`strAt_unique`).
-/

set_option autoImplicit false

namespace ByteSeq

/-- A memory region addressed from its start. -/
abbrev Bytes := Nat → UInt8

/-- `memcpy(dst + o, src, n)`. -/
def copy (dst : Bytes) (o : Nat) (src : Bytes) (n : Nat) : Bytes :=
  fun k => if o ≤ k ∧ k < o + n then src (k - o) else dst k

/-- `memset(dst + o, c, n)`. -/
def fill (dst : Bytes) (o : Nat) (c : UInt8) (n : Nat) : Bytes := copy dst o (fun _ => c) n

theorem copy_in {dst src : Bytes} {o n k : Nat} (h : k < n) : copy dst o src n (o + k) = src k := by
  simp [copy, h]

theorem copy_out {dst src : Bytes} {o n k : Nat} (h : k < o ∨ o + n ≤ k) : copy dst o src n k = dst k := by
  unfold copy
  rw [if_neg (by omega)]

/-! ## Little-endian numbers -/

/-- The 16-bit number at `o`. -/
def u16 (b : Bytes) (o : Nat) : Nat := (b o).toNat + 256 * (b (o + 1)).toNat

/-- The 32-bit number at `o`. -/
def u32 (b : Bytes) (o : Nat) : Nat := u16 b o + 65536 * u16 b (o + 2)

/-- The 64-bit number at `o`. -/
def u64 (b : Bytes) (o : Nat) : Nat := u32 b o + 4294967296 * u32 b (o + 4)

/-- Byte `k` of a number, the least significant first. -/
def byteOf (v k : Nat) : UInt8 := UInt8.ofNat (v / 256 ^ k)

/-- Store a 16-bit number at `o`. -/
def putU16 (b : Bytes) (o v : Nat) : Bytes := copy b o (byteOf v) 2

/-- Store a 32-bit number at `o`. -/
def putU32 (b : Bytes) (o v : Nat) : Bytes := copy b o (byteOf v) 4

/-- Store a 64-bit number at `o`. -/
def putU64 (b : Bytes) (o v : Nat) : Bytes := copy b o (byteOf v) 8

theorem toNat_byteOf (v k : Nat) : (byteOf v k).toNat = v / 256 ^ k % 256 := by simp [byteOf]

theorem u16_lt (b : Bytes) (o : Nat) : u16 b o < 65536 := by
  have h0 := (b o).toNat_lt
  have h1 := (b (o + 1)).toNat_lt
  unfold u16; omega

theorem u32_lt (b : Bytes) (o : Nat) : u32 b o < 4294967296 := by
  have h0 := u16_lt b o
  have h1 := u16_lt b (o + 2)
  unfold u32; omega

theorem u64_lt (b : Bytes) (o : Nat) : u64 b o < 18446744073709551616 := by
  have h0 := u32_lt b o
  have h1 := u32_lt b (o + 4)
  unfold u64; omega

theorem u16_congr {b c : Bytes} {o p : Nat} (h : ∀ k, k < 2 → b (o + k) = c (p + k)) : u16 b o = u16 c p := by
  have h0 := h 0 (by omega)
  simp only [Nat.add_zero] at h0
  unfold u16
  rw [h0, h 1 (by omega)]

theorem u32_congr {b c : Bytes} {o p : Nat} (h : ∀ k, k < 4 → b (o + k) = c (p + k)) : u32 b o = u32 c p := by
  unfold u32
  rw [u16_congr fun k hk => h k (by omega), u16_congr (o := o + 2) (p := p + 2) fun k hk => by
    simpa [Nat.add_assoc] using h (2 + k) (by omega)]

theorem u64_congr {b c : Bytes} {o p : Nat} (h : ∀ k, k < 8 → b (o + k) = c (p + k)) : u64 b o = u64 c p := by
  unfold u64
  rw [u32_congr fun k hk => h k (by omega), u32_congr (o := o + 4) (p := p + 4) fun k hk => by
    simpa [Nat.add_assoc] using h (4 + k) (by omega)]

theorem u16_of_bytes {b : Bytes} {o v : Nat} (h : ∀ k, k < 2 → b (o + k) = byteOf v k) : u16 b o = v % 65536 := by
  have h0 := h 0 (by omega)
  have h1 := h 1 (by omega)
  simp only [Nat.add_zero] at h0
  unfold u16
  rw [h0, h1, toNat_byteOf, toNat_byteOf]
  omega

theorem byteOf_shift (v i k : Nat) : byteOf v (i + k) = byteOf (v / 256 ^ i) k := by
  unfold byteOf; rw [Nat.pow_add, Nat.div_div_eq_div_mul]

theorem u32_of_bytes {b : Bytes} {o v : Nat} (h : ∀ k, k < 4 → b (o + k) = byteOf v k) :
    u32 b o = v % 4294967296 := by
  unfold u32
  rw [u16_of_bytes fun k hk => h k (by omega), u16_of_bytes (v := v / 256 ^ 2) fun k hk => by
    rw [Nat.add_assoc, h (2 + k) (by omega), byteOf_shift]]
  omega

theorem u64_of_bytes {b : Bytes} {o v : Nat} (h : ∀ k, k < 8 → b (o + k) = byteOf v k) :
    u64 b o = v % 18446744073709551616 := by
  unfold u64
  rw [u32_of_bytes fun k hk => h k (by omega), u32_of_bytes (v := v / 256 ^ 4) fun k hk => by
    rw [Nat.add_assoc, h (4 + k) (by omega), byteOf_shift]]
  omega

@[simp] theorem u16_putU16 (b : Bytes) (o v : Nat) : u16 (putU16 b o v) o = v % 65536 :=
  u16_of_bytes fun _ hk => copy_in hk

@[simp] theorem u32_putU32 (b : Bytes) (o v : Nat) : u32 (putU32 b o v) o = v % 4294967296 :=
  u32_of_bytes fun _ hk => copy_in hk

@[simp] theorem u64_putU64 (b : Bytes) (o v : Nat) : u64 (putU64 b o v) o = v % 18446744073709551616 :=
  u64_of_bytes fun _ hk => copy_in hk

/-- A copy leaves a 16-bit number outside it. -/
theorem u16_copy_out {b src : Bytes} {o n p : Nat} (h : p + 2 ≤ o ∨ o + n ≤ p) : u16 (copy b o src n) p = u16 b p :=
  u16_congr fun k hk => copy_out (by omega)

/-- A copy leaves a 32-bit number outside it. -/
theorem u32_copy_out {b src : Bytes} {o n p : Nat} (h : p + 4 ≤ o ∨ o + n ≤ p) : u32 (copy b o src n) p = u32 b p :=
  u32_congr fun k hk => copy_out (by omega)

/-! ## C strings -/

/-- A C string: its characters, none of which is the terminator. -/
structure CStr where
  chars : List UInt8
  noNul : (0 : UInt8) ∉ chars

/-- `strlen`. -/
def CStr.strlen (s : CStr) : Nat := s.chars.length

/-- The string as memory: its characters, then the terminator. -/
def CStr.mem (s : CStr) : Bytes := fun k => s.chars.getD k 0

theorem CStr.ext_chars {s t : CStr} (h : s.chars = t.chars) : s = t := by
  cases s; cases t; cases h; rfl

instance : DecidableEq CStr := fun s t =>
  decidable_of_iff (s.chars = t.chars) ⟨CStr.ext_chars, fun h => by rw [h]⟩

/-- `!strcmp(b + o, l)`: the buffer holds the characters `l` and then the terminator. -/
def strAt (b : Bytes) (o : Nat) : List UInt8 → Bool
  | [] => b o == 0
  | c :: cs => b o == c && strAt b (o + 1) cs

theorem strAt_congr {b c : Bytes} : ∀ {o : Nat} {l : List UInt8},
    (∀ k, k ≤ l.length → b (o + k) = c (o + k)) → strAt b o l = strAt c o l
  | o, [], h => by
    have h0 : b o = c o := by simpa using h 0 (by simp)
    simp [strAt, h0]
  | o, x :: l, h => by
    have h0 := h 0 (by simp)
    simp only [Nat.add_zero] at h0
    have ht : strAt b (o + 1) l = strAt c (o + 1) l := strAt_congr fun k hk => by
      simpa [Nat.add_assoc, Nat.add_comm 1] using h (k + 1) (by simpa using hk)
    simp only [strAt, h0, ht]

/-- A buffer holds the string whose memory it agrees with up to the terminator. -/
theorem strAt_of_mem {b : Bytes} : ∀ {o : Nat} {l : List UInt8},
    (∀ k, k ≤ l.length → b (o + k) = l.getD k 0) → strAt b o l = true
  | o, [], h => by simpa [strAt] using h 0 (by simp)
  | o, x :: l, h => by
    have h0 := h 0 (by simp)
    have ht : strAt b (o + 1) l = true := strAt_of_mem fun k hk => by
      simpa [Nat.add_assoc, Nat.add_comm 1] using h (k + 1) (by simpa using hk)
    simp only [Nat.add_zero, List.getD_cons_zero] at h0
    simp [strAt, h0, ht]

/-- A buffer holds at most one string at an address. -/
theorem strAt_unique {b : Bytes} : ∀ {o : Nat} {l r : List UInt8}, (0 : UInt8) ∉ l → (0 : UInt8) ∉ r →
    strAt b o l = true → strAt b o r = true → l = r
  | _, [], [], _, _, _, _ => rfl
  | o, [], y :: r, _, hr, hl', hr' => by
    simp only [strAt, beq_iff_eq, Bool.and_eq_true] at hl' hr'
    rw [hl'] at hr'
    exact absurd (by rw [hr'.1]; exact List.mem_cons_self) hr
  | o, x :: l, [], hl, _, hl', hr' => by
    simp only [strAt, beq_iff_eq, Bool.and_eq_true] at hl' hr'
    rw [hr'] at hl'
    exact absurd (by rw [hl'.1]; exact List.mem_cons_self) hl
  | o, x :: l, y :: r, hl, hr, hl', hr' => by
    simp only [strAt, beq_iff_eq, Bool.and_eq_true] at hl' hr'
    have hxy : x = y := hl'.1.symm.trans hr'.1
    have ht := strAt_unique (fun h => hl (List.mem_cons_of_mem _ h)) (fun h => hr (List.mem_cons_of_mem _ h)) hl'.2 hr'.2
    rw [hxy, ht]

/-- The text at an address: the characters up to a terminator, at most `n` of them. -/
def textAt (b : Bytes) : Nat → Nat → List UInt8
  | 0, _ => []
  | n + 1, o => if b o = 0 then [] else b o :: textAt b n (o + 1)

/-- A string that fits is held exactly if it is the text. -/
theorem strAt_iff_textAt {b : Bytes} {n o : Nat} {l : List UInt8} (hl : l.length < n) (h0 : (0 : UInt8) ∉ l) :
    strAt b o l = true ↔ textAt b n o = l := by
  induction l generalizing n o with
  | nil =>
    obtain ⟨n, rfl⟩ := Nat.exists_eq_add_of_lt hl
    simp [strAt, textAt]
  | cons c l ih =>
    obtain ⟨n, rfl⟩ : ∃ m, n = m + 1 := ⟨n - 1, by simp only [List.length_cons] at hl; omega⟩
    simp only [List.mem_cons, not_or] at h0
    have hrest := ih (n := n) (o := o + 1) (by simpa using hl) h0.2
    simp only [strAt, textAt, Bool.and_eq_true, beq_iff_eq]
    by_cases hb : b o = 0
    · rw [if_pos hb, hb]
      simp [h0.1]
    · rw [if_neg hb, hrest]
      simp

end ByteSeq
