import Vsfs.Model.Ufs
import Vsfs.Model.System

/-!
# The three scans of the root directory

Entry `i` of the directory is slot `i % 16` of the block `l1[i / 16]`. `p_root_info` and the duplicate check of
`vsfs_creat` visit the entries so; `cmd_ls` takes the entry's number for both indices, which comes to the same for the
first 16 entries only.

- `listRoot_spec`: a listing whose indices are the right ones;
- `dupCompared_spec`: the names that the duplicate check compares, up to the first that is equal;
- `scans_agree_iff`: the three agree exactly on a directory of at most 16 entries.
-/

set_option autoImplicit false

namespace Vsfs

open ByteSeq

variable {v : Volume} {α : Type} {n i : Nat} {buf : Block} {name : CStr}

/-- The block of the directory that has entry `i`. -/
def Volume.dirBlock (v : Volume) (i : Nat) : Block := v.disk (v.lba ((v.inode 0).l1 (i / 16)))

/-- Entries of one block. -/
theorem Volume.dirBlock_succ (v : Volume) (h : (i + 1) % 16 ≠ 0) : v.dirBlock i = v.dirBlock (i + 1) := by
  unfold Volume.dirBlock
  rw [show (i + 1) / 16 = i / 16 by omega]

/-- The names stored in `n` entries from entry `i` on. -/
def storedNames (v : Volume) (i n : Nat) : List (List UInt8) :=
  (List.range' i n).map fun k => slotText (v.dirBlock k) (k % 16)

/-- The names stored in the root directory. -/
def rootNames (v : Volume) : List (List UInt8) := storedNames v 0 (v.inode 0).entry

theorem storedNames_succ (v : Volume) (i n : Nat) :
    storedNames v i (n + 1) = slotText (v.dirBlock i) (i % 16) :: storedNames v (i + 1) n := by
  simp [storedNames, List.range'_succ]

/-! ## The listings -/

/-- **A listing whose indices are right** visits the entries in order. -/
theorem listRoot_spec {ptr slot : Nat → Nat} {out : Block → Nat → α} (hn : i + n ≤ 784)
    (hptr : ∀ k, k < i + n → k % 16 = 0 → ptr k = k / 16) (hslot : ∀ k, k < i + n → slot k = k % 16)
    (hbuf : i % 16 ≠ 0 → buf = v.dirBlock i) :
    listRoot v ptr slot out n i buf = .ok ((List.range' i n).map fun k => out (v.dirBlock k) (k % 16)) := by
  induction n generalizing i buf with
  | zero => rfl
  | succ n ih =>
    have hread := entryBlock_eq (i := i) (p := ptr i) (q := i / 16) (by unfold level1Limit; omega) (hptr i (by omega)) hbuf
    change _ = Except.ok (v.dirBlock i) at hread
    have hat : slotAt out (v.dirBlock i) (slot i) = .ok (out (v.dirBlock i) (i % 16)) := by
      unfold slotAt filesPerBlock
      rw [hslot i (by omega), if_pos (Nat.mod_lt _ (by omega))]
    have hrest := ih (i := i + 1) (by omega) (fun k hk => hptr k (by omega)) (fun k hk => hslot k (by omega)) v.dirBlock_succ
    unfold listRoot
    rw [hread]
    simp only [ExceptLib.ok_bind, hat, hrest]
    simp [List.range'_succ]

/-- A listing that takes the number of the entry for the slot leaves the block at entry 16, if not before. -/
theorem listRoot_overrun {ptr : Nat → Nat} {out : Block → Nat → α} (hi : i ≤ 16) (hn : 16 < i + n) :
    listRoot v ptr (fun k => k) out n i buf = .error .outOfBounds := by
  induction n generalizing i buf with
  | zero => omega
  | succ n ih =>
    unfold listRoot
    by_cases h0 : i % 16 = 0 ∧ ¬ptr i < level1Limit
    · rw [if_pos h0.1]
      unfold Inode.l1At
      rw [if_neg h0.2]
      rfl
    · obtain ⟨b, hb⟩ : ∃ b, ((if i % 16 = 0 then do
            let b ← (v.inode 0).l1At (ptr i)
            .ok (v.disk (v.lba b))
          else .ok buf) : M Block) = .ok b := by
        split
        case isTrue h =>
          unfold Inode.l1At
          rw [if_pos (not_not.mp fun hp => h0 ⟨h, hp⟩)]
          exact ⟨_, rfl⟩
        case isFalse => exact ⟨buf, rfl⟩
      rw [hb, ExceptLib.ok_bind]
      unfold slotAt filesPerBlock
      by_cases hlt : i < 16
      · rw [if_pos hlt, ExceptLib.ok_bind, ih (i := i + 1) (by omega) (by omega)]
        rfl
      · rw [if_neg hlt]
        rfl

/-! ## The duplicate check -/

/-- The elements of a list up to the first that is `x`, which is the last one. -/
def upToFirst (x : List UInt8) (l : List (List UInt8)) : List (List UInt8) :=
  l.takeWhile (fun y => y != x) ++ (l.dropWhile fun y => y != x).take 1

theorem upToFirst_self (x : List UInt8) (l : List (List UInt8)) : upToFirst x (x :: l) = [x] := by
  simp [upToFirst]

theorem upToFirst_of_ne {x y : List UInt8} (l : List (List UInt8)) (h : y ≠ x) :
    upToFirst x (y :: l) = y :: upToFirst x l := by
  simp [upToFirst, h]

/-- The loop of `dupScan` with the names that it compares, in order. -/
def dupCompared (v : Volume) (name : CStr) : Nat → Nat → Block → M (Bool × List (List UInt8))
  | 0, _, _ => .ok (false, [])
  | n + 1, i, buf => do
    let buf ← (if i % 16 = 0 then do
        let b ← (v.inode 0).l1At (i / 16)
        .ok (v.disk (v.lba b))
      else .ok buf : M Block)
    if slotNamed buf (i % 16) name then .ok (true, [slotText buf (i % 16)])
    else do
      let r ← dupCompared v name n (i + 1) buf
      .ok (r.1, slotText buf (i % 16) :: r.2)

/-- `strcmp` with the name in a slot compares with the text that is printed of it. -/
theorem slotNamed_iff_text (b : Block) (hname : name.strlen < filenameLen) :
    slotNamed b (i % 16) name = true ↔ slotText b (i % 16) = name.chars := by
  have hmod : i % 16 < 16 := Nat.mod_lt _ (by omega)
  unfold CStr.strlen filenameLen at hname
  unfold slotNamed slotText blockSize
  exact strAt_iff_textAt (by omega) name.noNul

/-- **The names that the duplicate check compares**, and what it finds. -/
theorem dupCompared_spec (hname : name.strlen < filenameLen) (hn : i + n ≤ 784) (hbuf : i % 16 ≠ 0 → buf = v.dirBlock i) :
    dupCompared v name n i buf =
        .ok (decide (name.chars ∈ storedNames v i n), upToFirst name.chars (storedNames v i n)) ∧
      dupScan v name n i buf = .ok (decide (name.chars ∈ storedNames v i n)) := by
  induction n generalizing i buf with
  | zero => exact ⟨rfl, rfl⟩
  | succ n ih =>
    have hread := entryBlock_eq (i := i) (q := i / 16) (by unfold level1Limit; omega) (fun _ => rfl) hbuf
    change _ = Except.ok (v.dirBlock i) at hread
    have htext := slotNamed_iff_text (i := i) (v.dirBlock i) hname
    obtain ⟨hcompared, hscan⟩ := ih (i := i + 1) (by omega) v.dirBlock_succ
    unfold dupCompared dupScan
    rw [hread, storedNames_succ]
    simp only [ExceptLib.ok_bind]
    by_cases hs : slotNamed (v.dirBlock i) (i % 16) name = true
    · rw [if_pos hs, if_pos hs, htext.mp hs, upToFirst_self]
      simp
    · have hne : slotText (v.dirBlock i) (i % 16) ≠ name.chars := fun h => hs (htext.mpr h)
      rw [if_neg hs, if_neg hs, hcompared, hscan, upToFirst_of_ne _ hne]
      simp [ExceptLib.ok_bind, Ne.symm hne]

/-! ## The three scans -/

/-- The three scans visit the names stored in the root directory, in their order, and stay inside the blocks. -/
structure SameScans (v : Volume) : Prop where
  ls : cmdLs v = .ok (rootNames v)
  root : ∃ info, pRootInfo v = .ok info ∧ info.files.map Prod.fst = rootNames v
  dup : ∀ name : CStr, name.strlen < filenameLen → ∃ found,
    dupScan v name (v.inode 0).entry 0 (fun _ => 0) = .ok found ∧
      dupCompared v name (v.inode 0).entry 0 (fun _ => 0) = .ok (found, upToFirst name.chars (rootNames v))

theorem pRootInfo_spec (hn : (v.inode 0).entry ≤ 784) :
    ∃ info, pRootInfo v = .ok info ∧ info.files.map Prod.fst = rootNames v := by
  have hlist : listRoot v (fun k => k / 16) (fun k => k % 16) (fun b j => (slotText b j, slotInode b j))
      (v.inode 0).entry 0 (v.disk (v.lba ((v.inode 0).l1 0))) = .ok _ :=
    listRoot_spec (by omega) (fun _ _ _ => rfl) (fun _ _ => rfl) fun h0 => absurd rfl h0
  have hptr : (v.inode 0).l1At 0 = .ok ((v.inode 0).l1 0) := rfl
  unfold pRootInfo
  simp only [hptr, ExceptLib.ok_bind, hlist]
  refine ⟨_, rfl, ?_⟩
  simp [rootNames, storedNames, Function.comp_def]

theorem cmdLs_spec (hn : (v.inode 0).entry ≤ 16) : cmdLs v = .ok (rootNames v) :=
  listRoot_spec (by omega) (fun k hk h0 => by omega) (fun k hk => by omega) (fun h0 => absurd rfl h0)

theorem cmdLs_overruns (hn : 16 < (v.inode 0).entry) : cmdLs v = .error .outOfBounds :=
  listRoot_overrun (by omega) (by omega)

/-- **The three scans of the root directory agree** exactly if it has at most 16 entries. -/
theorem scans_agree_iff (v : Volume) : SameScans v ↔ (v.inode 0).entry ≤ 16 := by
  constructor
  · intro h
    by_contra hlt
    have hls := h.ls
    rw [cmdLs_overruns (by omega)] at hls
    cases hls
  · intro h16
    refine ⟨cmdLs_spec h16, pRootInfo_spec (by omega), fun name hname => ?_⟩
    have h0 : 0 % 16 ≠ 0 → (fun _ => 0 : Block) = v.dirBlock 0 := fun h0 => absurd rfl h0
    obtain ⟨hcompared, hscan⟩ := dupCompared_spec (n := (v.inode 0).entry) hname (by omega) h0
    exact ⟨_, hscan, hcompared⟩

/-- After 15 files `cmd_ls` leaves the block at the 17th entry. -/
theorem ls_overruns_block : ∃ r s, runCalls growDirectory (0, blankVolume 4096) = .ok (r, s) ∧
    (s.vol.inode 0).entry = 17 ∧ (s.vol.inode 0).blocks = 2 ∧ cmdLs s.vol = .error .outOfBounds ∧ ¬SameScans s.vol := by
  have h : (do
      let x ← runCalls growDirectory (0, blankVolume 4096)
      .ok (decide ((x.2.vol.inode 0).entry = 17 ∧ (x.2.vol.inode 0).blocks = 2)) : M Bool) = .ok true := by
    decide +kernel
  obtain ⟨⟨r, s⟩, hrun, h⟩ := ExceptLib.bind_eq_ok.mp h
  obtain ⟨hentry, hblocks⟩ := of_decide_eq_true (Except.ok.inj h)
  have hls : cmdLs s.vol = .error .outOfBounds := cmdLs_overruns (by rw [hentry]; decide)
  refine ⟨r, s, hrun, hentry, hblocks, hls, fun hsame => ?_⟩
  have hnames := hsame.ls
  rw [hls] at hnames
  cases hnames

end Vsfs
