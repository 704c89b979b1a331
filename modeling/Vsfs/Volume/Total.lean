import Vsfs.Volume.Alloc

/-!
# `__alloc_block` counted

What `__alloc_block` does to the number of blocks of an inode, whatever blocks it is given.

- `allocLevel1_frame`, `fillPointers_frame`, `allocLevel2_frame`, `allocLevel3_frame`: the loops;
- `allocBlock_count`: the inode gets the blocks asked for, as far as its map reaches;
- `allocBlock_frame`: that is all of them, or it has more than 1048576.
-/

set_option autoImplicit false

namespace Vsfs

open Function WordBits

variable {v w : Volume} {B i n m ofs : Nat}

/-! ## Blocks given to an inode -/

theorem MapFrame.take {b : Nat} (h : v.getFreeDblock = .ok (b, w)) : MapFrame i 0 v w := by
  obtain ⟨hin, hib, _, hsbi⟩ := getFreeDblock_frame h
  exact ⟨fun j _ => by rw [hin], by rw [hin]; exact ⟨rfl, rfl, rfl, rfl, rfl⟩, fun _ => by rw [hin, Nat.add_zero], hib,
    hsbi⟩

theorem MapFrame.modInode {c : Nat} {f : Inode → Inode} (v : Volume) (hh : (v.inode i).SameHead (f (v.inode i)))
    (hb : (v.inode i).blocks + c < 2 ^ 32 → (f (v.inode i)).blocks = (v.inode i).blocks + c) :
    MapFrame i c v (v.modInode i f) :=
  ⟨fun _ hj => modInode_inode_of_ne _ _ hj, by rw [modInode_inode_self]; exact hh,
    by rw [modInode_inode_self]; exact hb, rfl, _, rfl⟩

theorem MapFrame.writeBlock (v : Volume) (lba : Nat) (x : Block) : MapFrame i 0 v (v.writeBlock lba x) :=
  ⟨fun _ _ => rfl, ⟨rfl, rfl, rfl, rfl, rfl⟩, fun _ => rfl, rfl, _, rfl⟩

/-- One more data block. -/
theorem MapFrame.count {b : Nat} {f : Inode → Inode} (h : v.getFreeDblock = .ok (b, w))
    (hh : (w.inode i).SameHead (f (w.inode i))) (hb : (f (w.inode i)).blocks = succ32 (w.inode i).blocks) :
    MapFrame i 1 v (w.modInode i f) := by
  refine (MapFrame.take h).trans (d := 1) (.modInode w hh fun hlt => ?_)
  rw [hb, succ32_of_lt (by omega)]

theorem allocLevel1_frame {k : Nat} (h : allocLevel1 i n k v = .ok (m, w)) :
    m = n - (49 - k) ∧ MapFrame i (n - m) v w := by
  have h1 : level1Limit = 49 := rfl
  induction n generalizing k v with
  | zero =>
    cases h
    exact ⟨by omega, .refl i _⟩
  | succ n ih =>
    unfold allocLevel1 at h
    split at h
    case isFalse =>
      cases h
      rw [Nat.sub_self]
      exact ⟨by omega, .refl i _⟩
    case isTrue =>
      obtain ⟨⟨b, v'⟩, hb, h⟩ := ExceptLib.bind_eq_ok.mp h
      obtain ⟨hm, hf⟩ := ih h
      refine ⟨by omega, ?_⟩
      rw [show n + 1 - m = 1 + (n - m) by omega]
      exact (MapFrame.count hb ⟨rfl, rfl, rfl, rfl, rfl⟩ rfl).trans hf

theorem fillPointers_frame {j : Nat} {p q : Block} (h : fillPointers i n j p v = .ok (m, q, w)) :
    m = n - (1024 - j) ∧ MapFrame i (n - m) v w := by
  have h1 : pointerPerBlock = 1024 := rfl
  induction n generalizing j p v with
  | zero =>
    cases h
    exact ⟨by omega, .refl i _⟩
  | succ n ih =>
    unfold fillPointers at h
    split at h
    case isFalse =>
      cases h
      rw [Nat.sub_self]
      exact ⟨by omega, .refl i _⟩
    case isTrue =>
      obtain ⟨⟨b, v'⟩, hb, h⟩ := ExceptLib.bind_eq_ok.mp h
      obtain ⟨hm, hf⟩ := ih h
      refine ⟨by omega, ?_⟩
      rw [show n + 1 - m = 1 + (n - m) by omega]
      exact (MapFrame.count hb ⟨rfl, rfl, rfl, rfl, rfl⟩ rfl).trans hf

theorem allocLevel2_frame {fuel j start : Nat} (hs : start < 1024)
    (h : allocLevel2 ofs i fuel j start n v = .ok (m, w)) :
    m = n - (1024 * fuel - start) ∧ MapFrame i (n - m) v w := by
  induction fuel generalizing j start n v with
  | zero =>
    cases h
    rw [Nat.sub_self]
    exact ⟨by omega, .refl i _⟩
  | succ fuel ih =>
    unfold allocLevel2 at h
    split at h
    case isTrue hn =>
      cases h
      subst hn
      exact ⟨by omega, .refl i _⟩
    case isFalse =>
      obtain ⟨v₁, h₁, h⟩ := ExceptLib.bind_eq_ok.mp h
      have hf₁ : MapFrame i 0 v v₁ := by
        split at h₁
        case isFalse => cases h₁; exact .refl i v
        case isTrue =>
          obtain ⟨⟨b, v'⟩, hb, h₁⟩ := ExceptLib.bind_eq_ok.mp h₁
          cases h₁
          exact (MapFrame.take hb).trans (d := 0) (.modInode v' ⟨rfl, rfl, rfl, rfl, rfl⟩ fun _ => rfl)
      obtain ⟨⟨k, p, v₂⟩, h₂, h⟩ := ExceptLib.bind_eq_ok.mp h
      obtain ⟨hk, hf₂⟩ := fillPointers_frame h₂
      obtain ⟨hm, hf₃⟩ := ih (by omega) h
      refine ⟨by omega, ?_⟩
      rw [show n - m = 0 + (n - k) + 0 + (k - m) by omega]
      exact ((hf₁.trans hf₂).trans (.writeBlock v₂ _ p)).trans hf₃

theorem allocLevel3_frame {fuel q start : Nat} {x y : Block} (hs : start < 1024)
    (h : allocLevel3 ofs i fuel q start n x v = .ok (m, y, w)) :
    m = n - (1024 * fuel - start) ∧ MapFrame i (n - m) v w := by
  induction fuel generalizing q start n x v with
  | zero =>
    cases h
    rw [Nat.sub_self]
    exact ⟨by omega, .refl i _⟩
  | succ fuel ih =>
    unfold allocLevel3 at h
    split at h
    case isTrue hn =>
      cases h
      subst hn
      exact ⟨by omega, .refl i _⟩
    case isFalse =>
      obtain ⟨⟨x₁, v₁⟩, h₁, h⟩ := ExceptLib.bind_eq_ok.mp h
      have hf₁ : MapFrame i 0 v v₁ := by
        split at h₁
        case isFalse => cases h₁; exact .refl i v
        case isTrue =>
          obtain ⟨⟨b, v'⟩, hb, h₁⟩ := ExceptLib.bind_eq_ok.mp h₁
          cases h₁
          exact .take hb
      obtain ⟨⟨k, p, v₂⟩, h₂, h⟩ := ExceptLib.bind_eq_ok.mp h
      obtain ⟨hk, hf₂⟩ := fillPointers_frame h₂
      obtain ⟨hm, hf₃⟩ := ih (by omega) h
      refine ⟨by omega, ?_⟩
      rw [show n - m = 0 + (n - k) + 0 + (k - m) by omega]
      exact ((hf₁.trans hf₂).trans (.writeBlock v₂ _ p)).trans hf₃

/-- The blocks that level 3 has left for an inode with `b` blocks; the index of the pointer block has 16 bits. -/
def level3Left (b : Nat) : Nat := 1024 * (1024 - (b - 5169) / 1024 % 65536) - (b - 5169) % 1024

theorem allocFromLevel3_frame {r : Nat} (h : allocFromLevel3 ofs i n v = .ok (r, w)) :
    MapFrame i (min n (level3Left (v.inode i).blocks)) v w := by
  have h2 : level2Limit = 5169 := rfl
  have h1 : pointerPerBlock = 1024 := rfl
  unfold allocFromLevel3 at h
  obtain ⟨v₁, h₁, h⟩ := ExceptLib.bind_eq_ok.mp h
  have hf₁ : MapFrame i 0 v v₁ := by
    split at h₁
    case isFalse => cases h₁; exact .refl i v
    case isTrue =>
      obtain ⟨⟨b, v'⟩, hb, h₁⟩ := ExceptLib.bind_eq_ok.mp h₁
      cases h₁
      exact (MapFrame.take hb).trans (d := 0) (.modInode v' ⟨rfl, rfl, rfl, rfl, rfl⟩ fun _ => rfl)
  obtain ⟨⟨k, x, v₂⟩, h₂, h⟩ := ExceptLib.bind_eq_ok.mp h
  rw [h1, h2] at h₂
  obtain ⟨hk, hf₂⟩ := allocLevel3_frame (Nat.mod_lt _ (by decide)) h₂
  cases h
  rw [show min n (level3Left (v.inode i).blocks) = 0 + (n - k) + 0 by unfold level3Left; omega]
  exact (hf₁.trans hf₂).trans (.writeBlock v₂ _ x)

/-- From level 3 on an inode gets what is asked for, or the map ends, which it does behind 1048576 blocks. -/
theorem level3Left_spec {b : Nat} (h : 5169 ≤ b) (hb : b < 2 ^ 32) :
    b + min n (level3Left b) < 2 ^ 32 ∧ (min n (level3Left b) = n ∨ 1048576 < b + min n (level3Left b)) := by
  unfold level3Left
  omega

theorem allocFromLevel2_frame {r : Nat} (hlo : 49 ≤ (v.inode i).blocks) (hhi : (v.inode i).blocks < 5169)
    (h : allocFromLevel2 ofs i n v = .ok (r, w)) :
    MapFrame i (min n (5169 - (v.inode i).blocks + level3Left 5169)) v w := by
  have h1 : level1Limit = 49 := rfl
  have hp : pointerPerBlock = 1024 := rfl
  unfold allocFromLevel2 at h
  obtain ⟨⟨k, v₁⟩, h₁, h⟩ := ExceptLib.bind_eq_ok.mp h
  rw [h1, hp] at h₁
  obtain ⟨hk, hf₁⟩ := allocLevel2_frame (Nat.mod_lt _ (by decide)) h₁
  have hk' : k = n - (5169 - (v.inode i).blocks) := by omega
  dsimp only at h
  split at h
  case isTrue h0 =>
    cases h
    rw [show min n (5169 - (v.inode i).blocks + level3Left 5169) = n - k by omega]
    exact hf₁
  case isFalse h0 =>
    have hb₁ : (v₁.inode i).blocks = 5169 := by
      rw [hf₁.blocks (by omega)]
      omega
    have hf₂ := allocFromLevel3_frame h
    rw [hb₁] at hf₂
    rw [show min n (5169 - (v.inode i).blocks + level3Left 5169) = (n - k) + min k (level3Left 5169) by omega]
    exact hf₁.trans hf₂

/-- The data blocks that `__alloc_block` can still give to an inode with `b` blocks. -/
def allocLeft (b : Nat) : Nat := if b < 5169 then level3Limit - b else level3Left b

/-- **The blocks that `__alloc_block` gives** to an inode: those asked for, as far as the map reaches. -/
theorem allocBlock_count {r : Nat} (h : allocBlock ofs i n v = .ok (r, w)) :
    MapFrame i (min n (allocLeft (v.inode i).blocks)) v w := by
  have h2 : level2Limit = 5169 := rfl
  have h1 : level1Limit = 49 := rfl
  have h3 : level3Left 5169 = 1048576 := rfl
  have hlim : level3Limit = 1053745 := rfl
  unfold allocBlock at h
  obtain ⟨x, hx, h⟩ := ExceptLib.bind_eq_ok.mp h
  obtain ⟨_, rfl⟩ := (inodeAt_eq_ok _ _).mp hx
  unfold allocLeft
  split at h
  case isTrue hlo =>
    rw [if_neg (by omega)]
    exact allocFromLevel3_frame h
  case isFalse hlt =>
  rw [if_pos (by omega)]
  split at h
  case isTrue hlo =>
    have hf := allocFromLevel2_frame (by omega) (by omega) h
    rwa [show 5169 - (v.inode i).blocks + level3Left 5169 = level3Limit - (v.inode i).blocks by omega] at hf
  case isFalse hlt1 =>
  obtain ⟨⟨k, v₁⟩, h₁, h⟩ := ExceptLib.bind_eq_ok.mp h
  obtain ⟨hk, hf₁⟩ := allocLevel1_frame h₁
  dsimp only at h
  split at h
  case isTrue h0 =>
    cases h
    rwa [show min n (level3Limit - (v.inode i).blocks) = n - k by omega]
  case isFalse h0 =>
    have hb₁ : (v₁.inode i).blocks = 49 := by
      rw [hf₁.blocks (by omega)]
      omega
    have hf₂ := allocFromLevel2_frame (by omega) (by omega) h
    rw [hb₁] at hf₂
    rw [show min n (level3Limit - (v.inode i).blocks) = n - k + min k (5169 - 49 + level3Left 5169) by omega]
    exact hf₁.trans hf₂

/-- A map that ends does so behind 1048576 blocks, and the number of blocks does not overflow. -/
theorem allocLeft_spec {b : Nat} (hb : b < 2 ^ 32) :
    b + min n (allocLeft b) < 2 ^ 32 ∧ (min n (allocLeft b) = n ∨ 1048576 < b + min n (allocLeft b)) := by
  have hlim : level3Limit = 1053745 := rfl
  unfold allocLeft
  split
  case isTrue => omega
  case isFalse h => exact level3Left_spec (by omega) hb

/-- Up to 1048625 blocks there is something left. -/
theorem allocLeft_of_le {b : Nat} (hb : b ≤ 1048625) : allocLeft b = level3Limit - b := by
  have hlim : level3Limit = 1053745 := rfl
  unfold allocLeft level3Left
  split <;> omega

/-- The inode gets the blocks asked for, or so many that it has more than 1048576. -/
theorem allocBlock_frame {r : Nat} (hb : (v.inode i).blocks < 2 ^ 32) (h : allocBlock ofs i n v = .ok (r, w)) :
    ∃ c, MapFrame i c v w ∧ (v.inode i).blocks + c < 2 ^ 32 ∧ c ≤ n ∧
      (c = n ∨ 1048576 < (v.inode i).blocks + c) := by
  obtain ⟨hlt, hc⟩ := allocLeft_spec (n := n) hb
  exact ⟨_, allocBlock_count h, hlt, Nat.min_le_left .., hc⟩

end Vsfs
