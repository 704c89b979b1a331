import Mathlib.Data.Set.Card
import Vsfs.Volume.Append
import Vsfs.Volume.ShmRun
import Vsfs.Volume.WriteFrame

/-!
# Does allocation leak blocks?

`pointerBlocks m` is the number of pointer blocks that a file of `m` blocks needs. `__alloc_block` should clear exactly
the bits of the data blocks asked for and of the pointer blocks that come with them, and every block taken should be
reachable from the inode.

- `refs_count`: the new references of a file that grows are as many as the formula says;
- `Puts.cleared`, `Puts.counter`: giving blocks to references clears their bits, and counts them off;
- `alloc_exact_iff`, `Shm.alloc_exact_iff`: a call leaks nothing unless the file ends with level 2 and needs nothing.
-/

set_option autoImplicit false

namespace Vsfs

open Function ByteSeq PointerForest WordBits GuardedRun

variable {v w : Volume} {c e : Cached} {B i b n k : Nat} {R : Set (Nat × Ref)} {bs : List Nat}

/-! ## Pointer blocks -/

/-- The pointer blocks that a file of `m` blocks needs: one for every 1024 data blocks of level 2; behind it these five,
the block of `l3`, and one for every 1024 data blocks of level 3. -/
def pointerBlocks (m : Nat) : Nat :=
  if m ≤ 49 then 0 else if m ≤ 5169 then (m - 49 + 1023) / 1024 else 6 + (m - 5169 + 1023) / 1024

theorem refsAt_count (b : Nat) : (refsAt b).length + pointerBlocks b = 1 + pointerBlocks (b + 1) := by
  unfold refsAt
  rw [List.length_append, List.length_singleton]
  have hp : (pointerRefs b).length + pointerBlocks b = pointerBlocks (b + 1) := by
    unfold pointerRefs
    by_cases h1 : b < 49
    · rw [if_pos h1, List.length_nil]
      unfold pointerBlocks
      rw [if_pos (by omega), if_pos (by omega)]
    rw [if_neg h1]
    by_cases h2 : b < 5169
    · rw [if_pos h2]
      have hlen : (if (b - 49) % 1024 = 0 then [Ref.l2 ((b - 49) / 1024)] else []).length =
          if (b - 49) % 1024 = 0 then 1 else 0 := by split <;> rfl
      rw [hlen]
      unfold pointerBlocks
      split_ifs <;> omega
    · rw [if_neg h2, List.length_append]
      have hlen : (if (b - 5169) % 1024 = 0 then [Ref.l3e ((b - 5169) / 1024)] else []).length =
          if (b - 5169) % 1024 = 0 then 1 else 0 := by split <;> rfl
      have hlen3 : (if b = 5169 then [Ref.l3] else []).length = if b = 5169 then 1 else 0 := by split <;> rfl
      rw [hlen, hlen3]
      unfold pointerBlocks
      split_ifs <;> omega
  omega

/-- **The new references of a file that grows**: its data blocks, and the pointer blocks that it needs more. -/
theorem refs_count (b n : Nat) : (refs b n).length + pointerBlocks b = n + pointerBlocks (b + n) := by
  induction n generalizing b with
  | zero => simp [refs]
  | succ n ih =>
    have hfirst := refsAt_count b
    have hrest := ih (b + 1)
    rw [show b + 1 + n = b + (n + 1) by omega] at hrest
    rw [refs, List.length_append]
    omega

/-! ## Bits and counters -/

/-- The blocks whose bits a change clears. -/
def Volume.cleared (v w : Volume) : Set Nat := {a | bit v.cached.dbitmap a = true ∧ bit w.cached.dbitmap a = false}

theorem FreshRefs.notMem {rs : List Ref} {r : Ref} (h : FreshRefs i R rs) (hr : r ∈ rs) : (i, r) ∉ R := by
  induction h with
  | nil R => cases hr
  | cons hn _ _ ih =>
    rcases List.mem_cons.mp hr with rfl | hr
    · exact hn
    · exact fun hm => ih hr (Or.inr hm)

theorem FreshRefs.nodup {rs : List Ref} (h : FreshRefs i R rs) : rs.Nodup := by
  induction h with
  | nil R => exact List.nodup_nil
  | cons _ _ hrest ih => exact List.nodup_cons.mpr ⟨fun hm => hrest.notMem hm (Or.inl rfl), ih⟩

section

variable {rs : List Ref} (h : Puts i rs v w) (ho : v.Owns B R) (hf : FreshRefs i R rs) (hroom : rs.length ≤ v.room B)

include h ho hf hroom in
/-- Giving blocks to references clears the bits of these blocks and no others. -/
theorem Puts.cleared (a : Nat) :
    bit w.cached.dbitmap a = true ↔ bit v.cached.dbitmap a = true ∧ ∀ r, r ∈ rs → w.val (i, r) ≠ a := by
  induction h generalizing R with
  | nil v => simp
  | @cons r rs b v v' w hb hput ih =>
    obtain _ | ⟨h1, h2, h3⟩ := hf
    rw [List.length_cons] at hroom
    obtain ⟨-, -, -, rfl, -⟩ := take_spec (B := B) ho.zero ho.bits (by omega) hb
    have hg := put_grown ho h1 h2 (by omega) hb
    have hadd : addRefs R i [r] = insert (i, r) R := by rw [← addRefs_cons, addRefs_nil]
    have hr := hg.room
    rw [List.length_singleton] at hr
    have hrest := hput.grown hg.owns (by rwa [hadd]) (by omega)
    have hbit : ∀ a, bit (Volume.put { v with cached := v.cached.takeDblock b } i r b).cached.dbitmap a =
        (bit v.cached.dbitmap a && decide (a ≠ b)) := fun a => by
      rw [put_cached]
      exact bit_clear ..
    -- the first reference holds the block that was free before and is not now
    have hself : w.val (i, r) = b := by
      have hmem : (i, r) ∈ addRefs R i [r] := Or.inr ⟨rfl, List.mem_singleton_self r⟩
      rw [hrest.val _ hmem]
      have hfresh := hg.fresh r (List.mem_singleton_self r)
      have hused := hg.owns.owned.used _ hmem
      rw [hbit, hfresh] at hused
      simpa using hused
    rw [ih hg.owns (by rwa [hadd]) (by omega), hbit]
    simp only [List.mem_cons, forall_eq_or_imp, hself, Bool.and_eq_true, decide_eq_true_eq]
    constructor
    · rintro ⟨⟨h₁, h₂⟩, h₃⟩
      exact ⟨h₁, h₂.symm, h₃⟩
    · rintro ⟨h₁, h₂, h₃⟩
      exact ⟨⟨h₁, h₂.symm⟩, h₃⟩

include h ho hf hroom in
/-- They are counted off, in 32 bits. -/
theorem Puts.counter (h32 : v.cached.sbi.nrFreeDblock < 2 ^ 32) :
    v.cached.sbi.nrFreeDblock = (w.cached.sbi.nrFreeDblock + rs.length) % 2 ^ 32 ∧ w.cached.sbi.nrFreeDblock < 2 ^ 32 := by
  induction h generalizing R with
  | nil v => exact ⟨by rw [List.length_nil]; omega, h32⟩
  | @cons r rs b v v' w hb hput ih =>
    obtain _ | ⟨h1, h2, h3⟩ := hf
    rw [List.length_cons] at hroom ⊢
    obtain ⟨-, -, -, rfl, -⟩ := take_spec (B := B) ho.zero ho.bits (by omega) hb
    have hg := put_grown ho h1 h2 (by omega) hb
    have hadd : addRefs R i [r] = insert (i, r) R := by rw [← addRefs_cons, addRefs_nil]
    have hr := hg.room
    rw [List.length_singleton] at hr
    have hcount : (Volume.put { v with cached := v.cached.takeDblock b } i r b).cached.sbi.nrFreeDblock =
        pred32 v.cached.sbi.nrFreeDblock := by rw [put_cached]; rfl
    have hpred : pred32 v.cached.sbi.nrFreeDblock < 2 ^ 32 ∧
        (pred32 v.cached.sbi.nrFreeDblock + 1) % 2 ^ 32 = v.cached.sbi.nrFreeDblock := by
      unfold pred32
      split <;> omega
    have hrest := ih hg.owns (by rwa [hadd]) (by omega) (by rw [hcount]; exact hpred.1)
    rw [hcount] at hrest
    omega

include h ho hf hroom in
/-- As many bits as there are references. -/
theorem Puts.encard_cleared : (v.cleared w).encard = rs.length := by
  have hg := h.grown ho hf hroom
  have hset : v.cleared w = (rs.map fun r => w.val (i, r)).toFinset := by
    ext a
    simp only [Volume.cleared, Set.mem_ofPred_eq, List.coe_toFinset, List.mem_map]
    constructor
    · rintro ⟨hv, hw⟩
      by_contra hno
      rw [(h.cleared ho hf hroom a).mpr ⟨hv, fun r hr he => hno ⟨r, hr, he⟩⟩] at hw
      contradiction
    · rintro ⟨r, hr, rfl⟩
      exact ⟨hg.fresh r hr, by simpa using hg.owns.owned.used (i, r) (Or.inr ⟨rfl, hr⟩)⟩
  have hnodup : (rs.map fun r => w.val (i, r)).Nodup := by
    refine List.Nodup.map_on (fun r hr s hs he => ?_) hf.nodup
    exact (Prod.mk.inj (hg.owns.owned.inj (i, r) (i, s) (Or.inr ⟨rfl, hr⟩) (Or.inr ⟨rfl, hs⟩) he)).2
  rw [hset, Set.encard_coe_eq_coe_finsetCard, List.toFinset_card_of_nodup hnodup, List.length_map]

include h ho hf hroom in
/-- Every bit that is cleared is that of a reference. -/
theorem Puts.mem_cleared {a : Nat} (ha : a ∈ v.cleared w) : ∃ r, r ∈ rs ∧ w.val (i, r) = a := by
  obtain ⟨hv, hw⟩ := ha
  by_contra hno
  rw [(h.cleared ho hf hroom a).mpr ⟨hv, fun r hr he => hno ⟨r, hr, he⟩⟩] at hw
  contradiction

end

/-! ## One call -/

/-- The references that inode `i` uses. -/
def Volume.usedBy (v : Volume) (i : Nat) : Set (Nat × Ref) := {p | p.1 = i ∧ p.2.Used (v.inode i).blocks}

theorem closed_usedBy (v : Volume) (i : Nat) : Closed refForest (v.usedBy i) := by
  rintro ⟨j, r⟩ p ⟨hj, hr⟩ hp
  obtain ⟨s, hs, rfl⟩ := parent_eq_some.mp hp
  exact ⟨hj, hr.parent hs⟩

theorem Volume.Sound.ownsBy (h : v.Sound B) (hi : i < nrInodes) : v.Owns B (v.usedBy i) := by
  refine ⟨h.owns.owned.mono (closed_usedBy v i) ?_, h.owns.zero, h.owns.addr, h.owns.bits⟩
  rintro ⟨j, r⟩ ⟨rfl, hr⟩
  exact ⟨hi, hr⟩

/-- The blocks that `n` more data blocks of a file of `b` blocks take. -/
def blocksTaken (b n : Nat) : Nat := n + pointerBlocks (b + n) - pointerBlocks b

theorem allocTakes_eq (b n : Nat) : allocTakes b n = blocksTaken b n + if b = level2Limit ∧ n = 0 then 1 else 0 := by
  have := refs_count b n
  unfold allocTakes blocksTaken
  omega

/-- A call of `__alloc_block` for `n` blocks clears exactly the bits that these need, no bit is set, the counter of free
blocks goes down by as many, and every block taken is reachable from the inode. -/
structure AllocExact (i n : Nat) (v w : Volume) : Prop where
  cleared : (v.cleared w).encard = blocksTaken (v.inode i).blocks n
  kept : ∀ a, bit w.cached.dbitmap a = true → bit v.cached.dbitmap a = true
  counter : w.cached.sbi.nrFreeDblock = sub32 v.cached.sbi.nrFreeDblock (blocksTaken (v.inode i).blocks n)
  reachable : ∀ a, a ∈ v.cleared w → ∃ r : Ref, r.Used (w.inode i).blocks ∧ w.val (i, r) = a

section

variable (hi : i < nrInodes) (ho : v.Owns B (v.usedBy i)) (hn : (v.inode i).blocks + n ≤ level3Limit)
  (hroom : allocTakes (v.inode i).blocks n ≤ v.room B) (h32 : v.cached.sbi.nrFreeDblock < 2 ^ 32)

theorem mem_usedBy {r : Ref} : (i, r) ∈ v.usedBy i ↔ r.Used (v.inode i).blocks := ⟨fun h => h.2, fun h => ⟨rfl, h⟩⟩

include ho hn hroom h32 in
/-- A call that has given blocks to the new references. -/
theorem Puts.exact_iff (hp : Puts i (newRefs (v.inode i).blocks n) v w) :
    AllocExact i n v w ↔ ¬((v.inode i).blocks = level2Limit ∧ n = 0) := by
  have hlim : level3Limit = 1053745 := rfl
  have hf := fresh_newRefs hn fun r => mem_usedBy (v := v) (i := i) (r := r)
  have hlen := newRefs_length (v.inode i).blocks n
  have hroom' : (newRefs (v.inode i).blocks n).length ≤ v.room B := hlen.trans_le hroom
  have hcard := hp.encard_cleared ho hf hroom'
  rw [hlen, allocTakes_eq] at hcard
  constructor
  · intro hx hs
    have := hx.cleared
    rw [hcard, if_pos hs] at this
    have hnat : blocksTaken (v.inode i).blocks n + 1 = blocksTaken (v.inode i).blocks n := by exact_mod_cast this
    omega
  · intro hs
    rw [if_neg hs, Nat.add_zero] at hcard
    refine ⟨hcard, fun a ha => ((hp.cleared ho hf hroom' a).mp ha).1, ?_, fun a ha => ?_⟩
    · obtain ⟨hcount, hlt⟩ := hp.counter ho hf hroom' h32
      rw [hlen, allocTakes_eq, if_neg hs, Nat.add_zero] at hcount
      unfold sub32
      omega
    · obtain ⟨r, hr, hval⟩ := hp.mem_cleared ho hf hroom' ha
      rw [newRefs_of_ne (by omega)] at hr
      obtain ⟨hv, -, hlt⟩ := (mem_refs hn).mp hr
      exact ⟨r, ⟨hv, by rwa [hp.mapFrame.blocks (by omega)]⟩, hval⟩

include hi ho hn hroom in
/-- The call, with room for what it takes. -/
theorem allocBlock_grown : ∃ w, allocBlock v.cached.sbi.ofsDregion i n v = .ok (0, w) ∧
    Puts i (newRefs (v.inode i).blocks n) v w ∧ Grown B i (v.usedBy i) (newRefs (v.inode i).blocks n) v w := by
  obtain ⟨e, ht⟩ := ho.takes hroom
  obtain ⟨w, hw, -⟩ := allocBlock_takes hi hn ht
  exact ⟨w, hw, allocBlock_newRefs rfl ho (fun r => mem_usedBy) hn hroom hw⟩

include hi ho hn hroom h32 in
/-- **A call of `__alloc_block` of `vsfsio_spdk.h`** leaks nothing, unless the file ends with level 2 and needs
nothing. -/
theorem alloc_exact_iff : (∃ r w, allocBlock v.cached.sbi.ofsDregion i n v = .ok (r, w) ∧ AllocExact i n v w) ↔
    ¬((v.inode i).blocks = level2Limit ∧ n = 0) := by
  obtain ⟨w, hw, hp, -⟩ := allocBlock_grown hi ho hn hroom
  rw [← hp.exact_iff ho hn hroom h32]
  constructor
  · rintro ⟨r, w', hw', hx⟩
    rw [hw] at hw'
    cases hw'
    exact hx
  · exact fun hx => ⟨0, w, hw, hx⟩

end

/-- Blocks are written only at addresses of the data region. -/
theorem Grown.disk_region {rs : List Ref} (hg : Grown B i R rs v w) {l : Nat} (hl : w.disk l ≠ v.disk l) :
    ∃ a, a < B ∧ l = v.lba a := by
  obtain ⟨r, s, hr, hs, he⟩ := hg.disk l hl
  have hmem : (i, s) ∈ addRefs R i rs :=
    hg.owns.owned.closed (i, r) (i, s) (Or.inr ⟨rfl, hr⟩) (parent_eq_some.mpr ⟨s, hs, rfl⟩)
  exact ⟨_, hg.owns.owned.lt _ hmem, he⟩

/-- The call of `vsfsio.h`, with room for what it takes. -/
theorem Shm.allocBlock_grown {u : Segments} (hi : i < nrInodes) (ho : u.toVolume.Owns B (u.toVolume.usedBy i))
    (hn : (u.inodes i).blocks + n ≤ level3Limit) (hroom : allocTakes (u.inodes i).blocks n ≤ u.toVolume.room B) :
    ∃ u', Shm.allocBlock i n u = .ok (0, u') ∧
      Puts i (newRefs (u.toVolume.inode i).blocks n) u.toVolume u'.toVolume ∧
      Vsfs.Grown B i (u.toVolume.usedBy i) (newRefs (u.toVolume.inode i).blocks n) u.toVolume u'.toVolume := by
  obtain ⟨w, hw, hp, hg⟩ := Vsfs.allocBlock_grown hi ho hn hroom
  obtain ⟨e, ht⟩ := ho.takes hroom
  have hblocks : (u.toVolume.inode i).blocks ≤ level3Limit := (Nat.le_add_right _ n).trans hn
  obtain ⟨w', u', hw', hu', hagree, -⟩ := allocBlock_both (Shm.agrees_toVolume u) hi
    (ho.level3 (fun _ hr => mem_usedBy.mpr hr) hblocks) hn ho.bits ht
  obtain rfl : w' = w := congrArg Prod.snd (Except.ok.inj (hw'.symm.trans hw))
  have hvol : u'.toVolume = w' :=
    Shm.toVolume_of_written (by rw [hg.ofsDregion]; exact hagree) hg.ofsDregion ho.addr fun l hl => hg.disk_region hl
  rw [← hvol] at hp hg
  exact ⟨u', hu', hp, hg⟩

/-- **A call of `__alloc_block` of `vsfsio.h`** does the same. -/
theorem Shm.alloc_exact_iff {u : Segments} (hi : i < nrInodes) (ho : u.toVolume.Owns B (u.toVolume.usedBy i))
    (hn : (u.inodes i).blocks + n ≤ level3Limit) (hroom : allocTakes (u.inodes i).blocks n ≤ u.toVolume.room B)
    (h32 : u.cached.sbi.nrFreeDblock < 2 ^ 32) :
    (∃ r u', Shm.allocBlock i n u = .ok (r, u') ∧ AllocExact i n u.toVolume u'.toVolume) ↔
      ¬((u.inodes i).blocks = level2Limit ∧ n = 0) := by
  obtain ⟨u', hu', hp, -⟩ := Shm.allocBlock_grown hi ho hn hroom
  show _ ↔ ¬((u.toVolume.inode i).blocks = level2Limit ∧ n = 0)
  rw [← hp.exact_iff ho hn hroom h32]
  constructor
  · rintro ⟨r, u₁, hu₁, hx⟩
    rw [hu'] at hu₁
    cases hu₁
    exact hx
  · exact fun hx => ⟨0, u', hu', hx⟩

/-! ## Runs of writes -/

/-- Exactly the reachable blocks of the data region are used. -/
def Volume.Exact (v : Volume) : Prop :=
  ∀ a, a < v.cached.sbi.nrDregionBlocks → (bit v.cached.dbitmap a = false ↔ ∃ p, p ∈ v.used ∧ v.val p = a)

/-- A change after which the blocks that it takes are reachable. -/
theorem Volume.Exact.evolves (h : v.Exact) (he : Evolves B ∅ v w)
    (hR : w.cached.sbi.nrDregionBlocks = v.cached.sbi.nrDregionBlocks)
    (hnew : ∀ a, a ∈ v.cleared w → ∃ p, p ∈ w.used ∧ w.val p = a) : w.Exact := by
  intro a ha
  rw [hR] at ha
  constructor
  · intro hw
    cases hv : bit v.cached.dbitmap a with
    | true => exact hnew a ⟨hv, hw⟩
    | false =>
      obtain ⟨p, hp, hval⟩ := (h a ha).mp hv
      obtain ⟨hp', hval'⟩ := he.keep p hp (Set.notMem_empty _)
      exact ⟨p, hp', hval'.trans hval⟩
  · rintro ⟨p, hp, rfl⟩
    simpa using he.sound.owns.owned.used p hp

/-- The bitmap after a write is that after its allocation. -/
theorem Written.dbitmap {now p a : Nat} {buf : Bytes} {nbyte : UInt64} {s t : State} {f : File} {v₁ v₂ : Volume}
    (hw : Written now p buf nbyte s t a f v₁ v₂) : t.vol.cached.dbitmap = v₁.cached.dbitmap := by
  rw [hw.result]
  show v₂.cached.dbitmap = _
  rw [writeLoop_cached hw.data]
  rfl

/-- The call is a `vsfs_write`, which finds the blocks that it needs, and does not allocate for a file that ends with
level 2 and needs nothing. -/
def WriteOk : Call → State → Prop
  | .write fildes buf nbyte, s => OwnershipOk (.write fildes buf nbyte) s ∧
    ∀ b e p, s.desc.findTarget fildes = .ok (some (b, e)) → e.ptr = some p → WriteAllowed s e p nbyte →
      ¬((s.vol.inode (s.desc.opFtable p).inodeNr).blocks = level2Limit ∧
        neededBlocks (s.desc.writeEnd p nbyte) = level2Limit)
  | _, _ => False

theorem WriteOk.ownership {call : Call} {s : State} (h : WriteOk call s) : OwnershipOk call s := by
  cases call with
  | write fildes buf nbyte => exact h.1
  | creat | «open» | stat | close | read | lseek => exact absurd h id

/-- The blocks that the allocation of a write takes are reachable after it. -/
theorem Written.reachable {now p a : Nat} {buf : Bytes} {nbyte : UInt64} {s t : State} {f : File} {v₁ v₂ : Volume}
    {fd : FdTable} (hs : s.vol.Sound B) (ha : WriteAllowed s fd p nbyte) (hroom : WriteRoom B s p nbyte)
    (hspare : ¬((s.vol.inode (s.desc.opFtable p).inodeNr).blocks = level2Limit ∧
      neededBlocks (s.desc.writeEnd p nbyte) = level2Limit))
    (hw : Written now p buf nbyte s t a f v₁ v₂) {l : Nat} (hl : l ∈ s.vol.cleared v₁) :
    ∃ q, q ∈ v₁.used ∧ v₁.val q = l := by
  have hlim : level3Limit = 1053745 := rfl
  have hneed := neededBlocks_le ha.limit
  rcases hw.alloc with ⟨hle, ⟨r, hr⟩, -, -⟩ | ⟨-, rfl, -⟩
  · obtain ⟨j, hj⟩ : ∃ j, (s.desc.opFtable p).inodeNr = j := ⟨_, rfl⟩
    have hroom' := hroom hle
    have hi := ha.inode
    rw [hj] at hle hr hroom' hspare hi
    rw [sub32_of_le hle (by omega)] at hr hroom'
    obtain ⟨n, hn⟩ : ∃ n, neededBlocks (s.desc.writeEnd p nbyte) - (s.vol.inode j).blocks = n := ⟨_, rfl⟩
    rw [hn] at hr hroom'
    have hnew := newRefs_of_ne (b := (s.vol.inode j).blocks) (n := n) (by omega)
    have hmap : (s.vol.inode j).blocks + n ≤ level3Limit := by omega
    have hR : ∀ r, (j, r) ∈ s.vol.used ↔ r.Used (s.vol.inode j).blocks := fun r => ⟨fun h => h.2, fun h => ⟨hi, h⟩⟩
    have htakes : (newRefs (s.vol.inode j).blocks n).length ≤ s.vol.room B := by
      unfold Volume.need at hroom'
      rwa [hnew, ← Nat.min_eq_left (show n ≤ level3Limit - (s.vol.inode j).blocks by omega)]
    obtain ⟨hp, -⟩ := allocBlock_newRefs rfl hs.owns hR hmap (by rwa [← newRefs_length]) hr
    obtain ⟨r', hr', hval⟩ := hp.mem_cleared hs.owns (fresh_newRefs hmap hR) htakes hl
    rw [hnew] at hr'
    obtain ⟨hv, -, hlt⟩ := (mem_refs hmap).mp hr'
    exact ⟨(j, r'), ⟨hi, hv, by rwa [hp.mapFrame.blocks (by omega)]⟩, hval⟩
  · exact absurd (hl.1.symm.trans hl.2) (by decide)

/-- One write under the condition. -/
theorem Steady.write_exact {sb : SbInfo} {s t : State} {call : Call} (h : Steady s.vol.cached.sbi.nrDregionBlocks sb s)
    (hx : s.vol.Exact) (hok : WriteOk call s) (hs : Step call s t) : t.vol.Exact := by
  have hR : t.vol.cached.sbi.nrDregionBlocks = s.vol.cached.sbi.nrDregionBlocks :=
    (hs.fits h.fits).regions.nrDregionBlocks.trans h.fits.regions.nrDregionBlocks.symm
  obtain ⟨now, ret, hn, hr⟩ := hs
  cases call with
  | write fildes buf nbyte =>
    obtain ⟨⟨halloc, -⟩, hspare⟩ := hok
    obtain ⟨b, fd, p, hfind, hp, ⟨_, rfl⟩ | ⟨ha, _, a, f, v₁, v₂, hw⟩⟩ := vsfsWrite_cases hr
    · exact hx
    have hroom := halloc b fd p hfind hp ha
    have hev := write_steps (E := ∅) h.sound h.files ha hroom hw
    refine hx.evolves (hev.before.trans hev.after) hR fun l hl => ?_
    obtain ⟨hl₀, hl₁⟩ := hl
    rw [hw.dbitmap] at hl₁
    obtain ⟨q, hq, hval⟩ := hw.reachable h.sound ha hroom (hspare b fd p hfind hp ha) ⟨hl₀, hl₁⟩
    obtain ⟨hq', hval'⟩ := hev.after.keep q hq (Set.notMem_empty _)
    exact ⟨q, hq', hval'.trans hval⟩
  | creat | «open» | stat | close | read | lseek => exact absurd hok id

/-- **Any sequence of writes** under the condition. -/
theorem writes_exact {s t : State} (h : ReachedBy OwnershipOk s) (hx : s.vol.Exact) (hr : Run Step WriteOk s t) :
    t.vol.Exact := by
  have hall : ReachedBy OwnershipOk t ∧ t.vol.Exact := by
    refine hr.invariant (P := fun u => ReachedBy OwnershipOk u ∧ u.vol.Exact) ⟨h, hx⟩ fun call u u' hu hok hs => ?_
    obtain ⟨m, hm⟩ := hu.1
    have hsteady := hm.owned.1
    rw [← hsteady.fits.regions.nrDregionBlocks] at hsteady
    exact ⟨hu.1.step hok.ownership hs, hsteady.write_exact hu.2 hok hs⟩
  exact hall.2

/-! ## The claim of the design -/

/-- **Allocation leaks no block**, in both versions of `__alloc_block` and for every inode that owns its blocks and finds
what it needs, unless the file ends with level 2 and needs nothing; then a block is taken that nothing refers to. In a
run of writes that are not of this kind exactly the reachable blocks are used. -/
theorem allocation_leaks_nothing (hi : i < nrInodes) :
    (∀ v : Volume, v.Owns B (v.usedBy i) → (v.inode i).blocks + n ≤ level3Limit →
      allocTakes (v.inode i).blocks n ≤ v.room B → v.cached.sbi.nrFreeDblock < 2 ^ 32 →
      ((∃ r w, allocBlock v.cached.sbi.ofsDregion i n v = .ok (r, w) ∧ AllocExact i n v w) ↔
        ¬((v.inode i).blocks = level2Limit ∧ n = 0))) ∧
    (∀ u : Shm.Segments, u.toVolume.Owns B (u.toVolume.usedBy i) → (u.inodes i).blocks + n ≤ level3Limit →
      allocTakes (u.inodes i).blocks n ≤ u.toVolume.room B → u.cached.sbi.nrFreeDblock < 2 ^ 32 →
      ((∃ r u', Shm.allocBlock i n u = .ok (r, u') ∧ AllocExact i n u.toVolume u'.toVolume) ↔
        ¬((u.inodes i).blocks = level2Limit ∧ n = 0))) ∧
    ∀ s t : State, ReachedBy OwnershipOk s → s.vol.Exact → Run Step WriteOk s t → t.vol.Exact :=
  ⟨fun _ ho hn hroom h32 => alloc_exact_iff hi ho hn hroom h32,
    fun _ ho hn hroom h32 => Shm.alloc_exact_iff hi ho hn hroom h32, fun _ _ h hx hr => writes_exact h hx hr⟩

/-- After `openEmpty` exactly the reachable blocks are used, and a write of one byte finds what it needs. -/
theorem exact_openEmpty : ∃ s t, ReachedBy OwnershipOk s ∧ s.vol.Exact ∧ Step (.write 1 (fun _ => 97) 1) s t ∧
    WriteOk (.write 1 (fun _ => 97) 1) s := by
  have h : (do
      let c ← Call.run 0 (.creat (letter 0) 0) (blankVolume 4096)
      let r ← Call.run 0 (.open (letter 0) oRdwr) c.2
      let w ← Call.run 0 (.write 1 (fun _ => 97) 1) r.2
      let found ← r.2.desc.findTarget 1
      .ok (found.any fun x => x.2.ptr = some 0 ∧ (r.2.desc.opFtable 0).inodeNr = 1 ∧ (r.2.desc.opFtable 0).offset = 0 ∧
        (r.2.vol.inode 1).blocks = 0 ∧ r.2.vol.cached.sbi.nrDregionBlocks = 2045 ∧ 1 < dbitmapBits r.2.vol.cached.sbi ∧
        (List.range 64).all (fun k => r.2.vol.cached.dbitmap k == (blankVolume 4096).vol.cached.dbitmap k) ∧
        w.2.desc.opCounter = true) : M Bool) = .ok true := by
    decide +kernel
  obtain ⟨⟨rc, s₁⟩, hc, h⟩ := ExceptLib.bind_eq_ok.mp h
  obtain ⟨⟨ro, s⟩, ho, h⟩ := ExceptLib.bind_eq_ok.mp h
  obtain ⟨⟨rw, t⟩, hw, h⟩ := ExceptLib.bind_eq_ok.mp h
  obtain ⟨found, hfind, h⟩ := ExceptLib.bind_eq_ok.mp h
  obtain ⟨⟨b, fd⟩, rfl, hall⟩ := (Option.any_eq_true _ _).mp (Except.ok.inj h)
  obtain ⟨hp, hi, hofs, hb, hR, hbits, hset, -⟩ := of_decide_eq_true hall
  dsimp only at hp hi hofs hb hR hbits hset
  -- no block has been taken
  have hfree : ∀ a, a < 2045 → a ≠ 0 → bit s.vol.cached.dbitmap a = true := fun a ha h0 => by
    have hword := eq_of_beq (List.all_eq_true.mp hset (a / 32) (List.mem_range.mpr (by omega)))
    have hfresh := fresh_dbitmap (n := 4096) (by decide) (by decide) (fun _ _ => 0) (fun _ => 0) (i := a)
      (by unfold dbitmapBlocks; omega)
    unfold bit at hfresh ⊢
    rw [hword]
    exact hfresh.trans (decide_eq_true h0)
  have hreach := reachedBy_opened hc ho
  obtain ⟨m, hm⟩ := hreach
  have hsound := hm.owned.1.sound
  have hroot : (0, Ref.l1 0) ∈ s.vol.used := ⟨by decide, by simp [Ref.Valid], hsound.rootBlocks⟩
  refine ⟨s, t, ⟨m, hm⟩, fun a ha => ⟨fun hclear => ⟨(0, .l1 0), hroot, ?_⟩, ?_⟩, ⟨0, rw, by decide, hw⟩, ⟨⟨?_, ?_⟩, ?_⟩⟩
  · rw [hR] at ha
    by_contra h0
    have hset' := hfree a ha fun hz => h0 (by rw [hz]; exact hsound.rootFirst)
    exact Bool.false_ne_true (hclear.symm.trans hset')
  · rintro ⟨q, hq, rfl⟩
    simpa using hsound.owns.owned.used q hq
  · intro b' e' p' hf' hp' _ _
    rw [hfind] at hf'
    cases hf'
    obtain rfl : 0 = p' := Option.some.inj (hp.symm.trans hp')
    unfold Volume.need Desc.writeEnd
    rw [hi, hofs, hb, hR]
    exact room_pos (hfree 1 (by decide) (by decide)) (by decide) hbits
  · exact fun _ _ hcall => by cases hcall
  · rintro b' e' p' hf' hp' _ ⟨hlevel, -⟩
    rw [hfind] at hf'
    cases hf'
    obtain rfl : 0 = p' := Option.some.inj (hp.symm.trans hp')
    rw [hi, hb] at hlevel
    exact absurd hlevel (by decide)

theorem allocation_leaks_nothing_three :
    (∃ r w, allocBlock (blankVolume 4096).vol.cached.sbi.ofsDregion 1 3 (blankVolume 4096).vol = .ok (r, w) ∧
      AllocExact 1 3 (blankVolume 4096).vol w) ∧
    (∃ u r u', Shm.allocBlock 1 3 u = .ok (r, u') ∧ AllocExact 1 3 u.toVolume u'.toVolume) ∧
    ∃ s t, Step (.write 1 (fun _ => 97) 1) s t ∧ t.vol.Exact := by
  have hR : (superblockInfo 4096).nrDregionBlocks = 2045 := by decide +kernel
  have hsound := (fresh_steady_device (n := 4096) (by decide) (by decide) (fun _ _ => 0) (fun _ => 0)).sound
  have hshm : (Shm.Process.start (blankVolume 4096).vol).seg.toVolume.Sound (superblockInfo 4096).nrDregionBlocks :=
    (Shm.start_sane (n := 4096) (by decide) (by decide) (fun _ _ => 0) (fun _ => 0)).sound
  rw [hR] at hsound hshm
  have hb : ((blankVolume 4096).vol.inode 1).blocks = 0 := by decide +kernel
  have hfree : (blankVolume 4096).vol.cached.sbi.nrFreeDblock < 2 ^ 32 := by decide +kernel
  have hmap : ((blankVolume 4096).vol.inode 1).blocks + 3 ≤ level3Limit := by
    rw [hb]
    decide
  have hroom : allocTakes ((blankVolume 4096).vol.inode 1).blocks 3 ≤ (blankVolume 4096).vol.room 2045 := by
    have hbits : dbitmapBits (superblockInfo 4096) = 32768 := by decide +kernel
    rw [hb, blankVolume, fresh_room (by decide) (by decide), hbits]
    decide
  have hneed : ¬(((blankVolume 4096).vol.inode 1).blocks = level2Limit ∧ 3 = 0) := fun h => absurd h.2 (by decide)
  obtain ⟨s, t, hs, hx, hst, hok⟩ := exact_openEmpty
  obtain ⟨hspdk, hseg, hrun⟩ := allocation_leaks_nothing (B := 2045) (i := 1) (n := 3) (by decide)
  refine ⟨(hspdk _ (hsound.ownsBy (by decide)) hmap hroom hfree).mpr hneed, ?_,
    ⟨s, t, hst, hrun s t hs hx ((Run.refl s).snoc hok hst)⟩⟩
  generalize (blankVolume 4096).vol = v at hshm hmap hroom hfree hneed
  exact ⟨_, (hseg _ (hshm.ownsBy (by decide)) hmap hroom hfree).mpr hneed⟩

/-- A file of 5169 blocks is given a block that nothing refers to. -/
theorem level2_end_leaks : ∃ v w : Volume, v.Owns 6141 (v.usedBy 1) ∧ (v.inode 1).blocks = 5169 ∧
    (∃ r, allocBlock v.cached.sbi.ofsDregion 1 0 v = .ok (r, w)) ∧ blocksTaken (v.inode 1).blocks 0 = 0 ∧
      (v.cleared w).encard = 1 := by
  obtain ⟨u, hu⟩ : ∃ u, (blankVolume 8192).vol = u := ⟨_, rfl⟩
  have hR : (superblockInfo 8192).nrDregionBlocks = 6141 := by decide +kernel
  have hbits : dbitmapBits (superblockInfo 8192) = 32768 := by decide +kernel
  have hsound := (fresh_steady_device (n := 8192) (by decide) (by decide) (fun _ _ => 0) (fun _ => 0)).sound
  have hroom := fresh_room (B := 6141) (n := 8192) (by decide) (by decide) (fun _ _ => 0) (fun _ => 0)
  have hb : ((blankVolume 8192).vol.inode 1).blocks = 0 := by decide +kernel
  unfold blankVolume at hu hb
  rw [hR, hu] at hsound
  rw [hbits, hu, show min 6141 32768 - 1 = 6140 from rfl] at hroom
  rw [hu] at hb
  have htakes : allocTakes 0 5169 = 5174 := by decide +kernel
  -- the file is given its 5169 blocks
  obtain ⟨v, hv, hp, hg⟩ := allocBlock_grown (i := 1) (n := 5169) (by decide) (hsound.ownsBy (by decide)) (by rw [hb]; decide)
    (by rw [hb, hroom, htakes]; decide)
  have hkept := allocBlock_kept hsound (by decide) (by rw [hb]; decide) (by rw [hb, hroom, htakes]; decide) hv
  have hvb : (v.inode 1).blocks = 5169 := by rw [hkept.frame.blocks (by rw [hb]; decide), hb]
  have hleft : 1 ≤ v.room 6141 := by
    have := hg.room
    rw [newRefs_length, hb, htakes, hroom] at this
    omega
  -- and then none
  have ho := hkept.evolves.sound.ownsBy (i := 1) (by decide)
  obtain ⟨w, hw, hp', -⟩ := allocBlock_grown (n := 0) (by decide) ho (by rw [hvb]; decide) (by rw [hvb]; exact hleft)
  refine ⟨v, w, ho, hvb, ⟨0, hw⟩, by rw [hvb]; decide, ?_⟩
  rw [hp'.encard_cleared ho (fresh_newRefs (by rw [hvb]; decide) fun r => mem_usedBy)
    (by rw [newRefs_length, hvb]; exact hleft), newRefs_length, hvb]
  rfl

end Vsfs
