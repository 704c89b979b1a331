import Vsfs.Volume.Alike
import Vsfs.Volume.Effects

/-!
# Sessions

A volume is mounted, used, unmounted and mounted again; or the segment is lost with the machine, and the volume is
mounted as the last unmount has left it on the device. `Action` is one of the three, and `s.onDevice` is the volume that
a mount would find in the state `s`.

- `mountVsfs_alike`, `remounted_alike`: what a mount finds, after an unmount and without one;
- `Steady.step_evolves`: a call writes the data region only, and no block that it does not own;
- `InSession.step`: one action;
- `sessions_are_exclusive`: in every run of calls, remounts and crashes no block is shared.
-/

set_option autoImplicit false

namespace Vsfs

open Function ByteSeq WordBits PointerForest GuardedRun

/-! ## Actions -/

/-- `mount_vsfs` succeeds on the device, and a process starts. -/
def MountedOn (disk : Nat → Block) (t : State) : Prop :=
  ∃ old, (mountVsfs disk old).1 = 0 ∧ t = State.start (mountVsfs disk old).2 disk

/-- A call, an unmount and a mount, or a mount after the segment has been lost. -/
inductive Action
  | call (c : Call)
  | remount
  | crash

/-- What an action does. An unmount sees the bytes of the segment, `seg`. -/
def Action.Step : Action → State → State → Prop
  | .call c, s, t => Vsfs.Step c s t
  | .remount, s, t => ∃ seg, (Cached.load seg).Same s.vol.cached ∧ MountedOn (unmountVsfs seg s.vol.disk) t
  | .crash, s, t => MountedOn s.vol.disk t

/-- The volume that a mount would find. -/
def State.onDevice (s : State) : Volume := (State.start (mountVsfs s.vol.disk dmaBuffer).2 s.vol.disk).vol

variable {n B : Nat} {s t : State} {disk disk' : Nat → Block} {seg seg' old : Bytes} {sb : SbInfo}

/-! ## What a mount finds -/

/-- Another superblock info at the start of the segment. -/
theorem load_copy_sb (seg sb : Bytes) : Cached.load (copy seg 0 sb 48) =
    { Cached.load seg with sbi := SbInfo.load sb } := by
  have hword : ∀ o, 48 ≤ o → u32 (copy seg 0 sb 48) o = u32 seg o := fun o ho => u32_copy_out (by omega)
  have htime : ∀ o, 48 ≤ o → u64 (copy seg 0 sb 48) o = u64 seg o := fun o ho =>
    u64_congr fun k _ => copy_out (by omega)
  have hsb : SbInfo.load (copy seg 0 sb 48) = SbInfo.load sb := load_congr fun k hk => by
    rw [copy_at (by omega), Nat.sub_zero]
  obtain ⟨hib, hin, hdb⟩ := load_offsets (copy seg 0 sb 48)
  obtain ⟨hib', hin', hdb'⟩ := load_offsets seg
  have h1 : (Cached.load (copy seg 0 sb 48)).ibitmap = (Cached.load seg).ibitmap := by
    rw [hib, hib']
    exact funext fun w => by rw [hword _ (by omega)]
  have h2 : (Cached.load (copy seg 0 sb 48)).inodeReg = (Cached.load seg).inodeReg := by
    rw [hin, hin']
    funext i
    unfold Inode.load
    simp only [Inode.mk.injEq]
    exact ⟨hword _ (by omega), hword _ (by omega), hword _ (by omega), funext fun k => hword _ (by omega),
      funext fun k => hword _ (by omega), hword _ (by omega), htime _ (by omega), htime _ (by omega),
      htime _ (by omega)⟩
  have h3 : (Cached.load (copy seg 0 sb 48)).dbitmap = (Cached.load seg).dbitmap := by
    rw [hdb, hdb']
    exact funext fun w => by rw [hword _ (by omega)]
  calc Cached.load (copy seg 0 sb 48)
      = ⟨(Cached.load (copy seg 0 sb 48)).sbi, (Cached.load (copy seg 0 sb 48)).ibitmap,
          (Cached.load (copy seg 0 sb 48)).inodeReg, (Cached.load (copy seg 0 sb 48)).dbitmap⟩ := rfl
    _ = { Cached.load seg with sbi := SbInfo.load sb } := by
        rw [h1, h2, h3]
        exact congrArg (fun i => { Cached.load seg with sbi := i }) hsb

/-- Two segments with the same bytes behind the superblock info, on devices with the same data region. -/
theorem load_alike {d : Nat} (hr : (SbInfo.load seg).SameRegions (SbInfo.load seg'))
    (hd : (SbInfo.load seg).nrDbitmapBlocks = d) (h : ∀ k, 48 ≤ k → k < 8392752 + 4096 * d → seg' k = seg k)
    (hdisk : ∀ l, (SbInfo.load seg).ofsDregion ≤ l → disk' l = disk l) :
    (State.start seg disk).vol.Alike (State.start seg' disk').vol := by
  have hload := load_copy_sb seg' seg
  have hsb : SbInfo.load (copy seg' 0 seg 48) = SbInfo.load seg := congrArg Cached.sbi hload
  have hsame : (Cached.load (copy seg' 0 seg 48)).Same (Cached.load seg) :=
    load_same hsb hd fun k hk hlt => by rw [copy_out (by omega), h k hk hlt]
  rw [hload] at hsame
  exact ⟨hr, hsame.ibitmap, hsame.inodeReg, hsame.dbitmap, hdisk⟩

section

variable (hl : 2052 ≤ n) (hu : n < 2 ^ 32)

include hl hu

theorem superblockInfo_ofsDregion : (superblockInfo n).ofsDregion = 2050 + dbitmapBlocks n := by
  rw [superblockInfo_eq hl hu]

theorem superblockInfo_addr :
    (superblockInfo n).ofsDregion + (superblockInfo n).nrDregionBlocks ≤ 2 ^ 32 ∧
      (superblockInfo n).nrDregionBlocks ≤ 32768 * (superblockInfo n).nrDbitmapBlocks ∧
      (superblockInfo n).ofsDregion ≤ 133122 := by
  obtain ⟨hd1, hd2, hd3, hd4⟩ := dbitmapBlocks_bounds hl hu
  rw [superblockInfo_eq hl hu]
  dsimp only
  omega

/-- A mount of a device with the superblock of `n` succeeds and copies the regions. -/
theorem mountVsfs_device (h0 : SbInfo.load (disk 0) = superblockInfo n) (old : Bytes) :
    mountVsfs disk old = (0, makeShmCached disk (readSpdk disk 0 1 dmaBuffer) old) ∧
      (SbInfo.load (readSpdk disk 0 1 dmaBuffer)).Layout (dbitmapBlocks n) ∧
      SbInfo.load (mountVsfs disk old).2 = superblockInfo n := by
  have hread : SbInfo.load (readSpdk disk 0 1 dmaBuffer) = superblockInfo n := by rw [load_readSpdk, h0]
  have hmagic : (superblockInfo n).magic = vsfsMagic := by rw [superblockInfo_eq hl hu]
  have hm : mountVsfs disk old = (0, makeShmCached disk (readSpdk disk 0 1 dmaBuffer) old) := by
    unfold mountVsfs
    simp only [hread, hmagic, ne_eq, not_true, if_false]
  refine ⟨hm, by rw [hread]; exact superblockInfo_layout hl hu, ?_⟩
  rw [hm, ← hread]
  exact load_congr fun k hk => makeShmCached_sb hk

/-- The bytes that a mount finds are those in front of the data region. -/
theorem mountVsfs_bytes (h0 : SbInfo.load (disk 0) = superblockInfo n)
    (h : ∀ l, l < 2050 + dbitmapBlocks n → disk' l = disk l) {k : Nat} (hk : 48 ≤ k)
    (hlt : k < 8392752 + 4096 * dbitmapBlocks n) : (mountVsfs disk' old).2 k = (mountVsfs disk seg).2 k := by
  have h0' : SbInfo.load (disk' 0) = superblockInfo n := by rw [h 0 (by omega), h0]
  obtain ⟨hm, hlay, _⟩ := mountVsfs_device hl hu h0 seg
  obtain ⟨hm', hlay', _⟩ := mountVsfs_device hl hu h0' old
  rw [hm, hm']
  dsimp only
  by_cases h1 : k < 4144
  · obtain ⟨j, rfl⟩ := Nat.exists_eq_add_of_le hk
    rw [makeShmCached_ibitmap hlay (by omega), makeShmCached_ibitmap hlay' (by omega), h 1 (by omega)]
  · by_cases h2 : k < 8392752
    · obtain ⟨j, rfl⟩ := Nat.exists_eq_add_of_le (Nat.le_of_not_lt h1)
      rw [makeShmCached_iregion hlay (by omega), makeShmCached_iregion hlay' (by omega), h _ (by omega)]
    · obtain ⟨j, rfl⟩ := Nat.exists_eq_add_of_le (Nat.le_of_not_lt h2)
      rw [makeShmCached_dbitmap hlay (by omega), makeShmCached_dbitmap hlay' (by omega), h _ (by omega)]

/-- **Two mounts of one device** find the same volume. -/
theorem mountVsfs_alike (h0 : SbInfo.load (disk 0) = superblockInfo n) (seg old : Bytes) :
    (State.start (mountVsfs disk seg).2 disk).vol.Alike (State.start (mountVsfs disk old).2 disk).vol := by
  obtain ⟨_, _, hs⟩ := mountVsfs_device hl hu h0 seg
  obtain ⟨_, _, ho⟩ := mountVsfs_device hl hu h0 old
  refine load_alike (d := dbitmapBlocks n) ?_ ?_ (fun k hk hlt => mountVsfs_bytes hl hu h0 (fun _ _ => rfl) hk hlt)
    fun _ _ => rfl
  · rw [hs, ho]
    exact ⟨rfl, rfl, rfl, rfl, rfl, rfl, rfl, rfl, rfl, rfl⟩
  · rw [hs, (superblockInfo_layout hl hu).nrDbitmapBlocks]

/-- **An unmount and a mount** bring the volume back, but for the free counters. -/
theorem remounted_alike (hf : s.vol.cached.Fits (superblockInfo n)) (h0 : SbInfo.load (s.vol.disk 0) = superblockInfo n)
    (h : Action.remount.Step s t) : s.vol.Alike t.vol ∧ SbInfo.load (t.vol.disk 0) = superblockInfo n := by
  obtain ⟨seg, hseg, old, _, rfl⟩ := h
  have hsb : SbInfo.load seg = s.vol.cached.sbi := hseg.sbi
  have hlay : (SbInfo.load seg).Layout (dbitmapBlocks n) := by
    rw [hsb]
    exact hf.layout hl hu
  have h0' : SbInfo.load (unmountVsfs seg s.vol.disk 0) = superblockInfo n := by rw [unmountVsfs_zero hlay, h0]
  obtain ⟨hm, hlay', hload⟩ := mountVsfs_device hl hu h0' old
  have hdata : ∀ l, (SbInfo.load seg).ofsDregion ≤ l → unmountVsfs seg s.vol.disk l = s.vol.disk l := by
    intro l hll
    rw [hsb, hf.regions.ofsDregion, superblockInfo_ofsDregion hl hu] at hll
    rw [unmountVsfs_eq hlay, writeSpdk_out (by omega), writeSpdk_out (by omega), writeSpdk_out (by omega)]
  -- the segment before the unmount represents the volume
  have hseg' : s.vol.Alike (State.start seg s.vol.disk).vol := by
    have hsame := hseg
    refine ⟨?_, hsame.ibitmap, hsame.inodeReg, hsame.dbitmap, fun _ _ => rfl⟩
    show s.vol.cached.sbi.SameRegions (SbInfo.load seg)
    rw [hsb]
    exact ⟨rfl, rfl, rfl, rfl, rfl, rfl, rfl, rfl, rfl, rfl⟩
  refine ⟨hseg'.trans (load_alike (d := dbitmapBlocks n) ?_ ?_ (fun k hk hlt => ?_) hdata), h0'⟩
  · rw [hload, hsb]
    exact hf.regions.symm
  · rw [hlay.nrDbitmapBlocks]
  · rw [hm]
    exact remount_bytes hlay hlay' hk hlt

end

/-! ## What a call writes -/

/-- `vsfs_creat` takes an inode that has no blocks. -/
def TakesEmpty (c : Call) (s : State) : Prop :=
  ∀ name blockNum, c = .creat name blockNum → Enters name s →
    ∀ i, Least s.vol.cached.ibitmap nrInodes i → (s.vol.inode i).blocks = 0

/-- The blocks in front of the data region are as they were. -/
def SameLow (v w : Volume) : Prop := ∀ l, l < v.cached.sbi.ofsDregion → w.disk l = v.disk l

theorem sameLow_of {v w : Volume} (haddr : v.cached.sbi.ofsDregion + B ≤ 2 ^ 32)
    (h : ∀ l, w.disk l ≠ v.disk l → ∃ b, b < B ∧ l = v.lba b) : SameLow v w := by
  intro l hl
  by_contra hne
  obtain ⟨b, hb, rfl⟩ := h l hne
  rw [lba_of_lt haddr hb] at hl
  omega

/-- Entering a file writes the data region only. -/
theorem CreatDone.sameLow {now m i : Nat} {name : CStr} {v w : Volume} {ret : Int} (h : v.Sound B)
    (hofs : v.cached.sbi.ofsDregion ≤ 133122) (hc : CreatDone B now name m i v w ret) : SameLow v w := by
  have hadded : ∀ {u : Volume} {d e : Nat}, Prepared B i v u → v.cached.sbi.ofsDregion + d < 2 ^ 32 →
      EntryAdded B now name m i d e u w → SameLow v w := by
    intro u d e hp hd ha l hl
    have hofs' := hp.evolves.ofsDregion
    have hlba : u.lba d = v.cached.sbi.ofsDregion + d := by
      unfold Volume.lba
      rw [hofs', Nat.mod_eq_of_lt hd]
    rw [← hp.disk]
    have hne : l ≠ u.lba d := by omega
    by_contra hw
    rw [← writeBlock_disk_of_ne u _ (setSlot (u.disk (u.lba d)) e i name) hne] at hw
    obtain ⟨a, hab, _, rfl⟩ := ha.disk l hw
    rw [lba_of_lt (by rw [hofs']; exact h.owns.addr) hab] at hl
    omega
  cases hc with
  | slot hs hp _ _ ha =>
    unfold Inode.HasSlot at hs
    exact hadded hp (by omega) ha
  | @grow u b _ _ hp hroot _ ha =>
    have hb : (0, Ref.l1 (v.inode 0).blocks) ∈ u.used :=
      directory_used (by rw [hroot]; assumption) (by rw [hroot]; exact Nat.lt_succ_self _)
    have hval : u.val (0, .l1 (v.inode 0).blocks) = b := by
      simp only [Volume.val, hroot, update_self]
    have hlt := hp.evolves.sound.owns.owned.lt _ hb
    have haddr := h.owns.addr
    rw [hval] at hlt
    exact hadded hp (by omega) ha
  | full _ _ hw =>
    rw [hw]
    exact fun _ _ => rfl

/-- A call writes the data region only. -/
theorem VolumeEffect.sameLow {c : Call} (h : Steady B sb s) (hofs : sb.ofsDregion ≤ 133122)
    (he : VolumeEffect B c s t) : SameLow s.vol t.vol := by
  cases he with
  | touched ht => exact fun l _ => by rw [ht.disk]
  | entered hc he hi hd =>
    refine hd.sameLow h.sound ?_
    rw [h.fits.regions.ofsDregion]
    exact hofs
  | @written now p a fildes buf nbyte e f v₁ v₂ hc ho ha hr hw =>
    have hev := write_steps (E := ∅) h.sound h.files ha hr hw
    refine sameLow_of h.sound.owns.addr fun l hl => ?_
    rcases write_disk h.sound h.files ha hr hw hl with ⟨r, hr', _, hlr⟩ | ⟨b, hb, hlb⟩
    · exact ⟨_, hev.before.sound.owns.owned.lt _ hr', hlr⟩
    · -- the list of the file object is that of the object after the write
      have hfile : t.desc.files a = some { f with atime := now, mtime := now } := by
        rw [hw.result]
        simp [Desc.setOffset, Desc.modFile]
      exact ⟨b, (hev.files a _ hfile b hb).lt, hlb⟩
  | grown hc ho hg =>
    obtain ⟨n, r, hroom, hal⟩ := hg.alloc
    obtain ⟨hev, _, hd⟩ := alloc_evolves (E := ∅) h.sound hg.inode hg.limit hroom hal
    refine sameLow_of h.sound.owns.addr fun l hl => ?_
    obtain ⟨r, hr, _, hlr⟩ := hd l hl
    exact ⟨_, hev.sound.owns.owned.lt _ hr, hlr⟩

/-- The blocks of a sound volume that a change keeps in use: a call gives blocks to the inodes in `E` only. -/
structure StepEvolved (B : Nat) (v w : Volume) : Prop where
  evolves : ∃ E, Evolves B E v w ∧ ∀ i, i ∈ E → (v.inode i).blocks = 0
  low : SameLow v w

/-- What is in use stays in use and holds what it held. -/
theorem StepEvolved.keep {v w : Volume} (h : StepEvolved B v w) {p : Nat × Ref} (hp : p ∈ v.used) :
    p ∈ w.used ∧ w.val p = v.val p := by
  obtain ⟨E, he, h0⟩ := h.evolves
  refine he.keep p hp fun hE => ?_
  have := hp.2.2
  rw [h0 _ hE] at this
  exact Nat.not_lt_zero _ this

/-- A call that takes an inode without blocks keeps all that is in use. -/
theorem Steady.step_evolves {c : Call} (h : Steady B sb s) (hsb : sb.nrIbitmapBlocks = 1)
    (hofs : sb.ofsDregion ≤ 133122) (hok : AllocOk B c s)
    (he : TakesEmpty c s) (hs : Step c s t) : StepEvolved B s.vol t.vol := by
  have hv := h.volumeEffect hsb hok hs
  refine ⟨⟨_, hv.evolves h, ?_⟩, hv.sameLow h hofs⟩
  rintro i ⟨name, blockNum, hc, hent, hi⟩
  exact he name blockNum hc hent i hi

/-- With the blocks of the device as the bound no block is shared. -/
theorem Steady.exclusive (h : Steady (superblockInfo n).nrDregionBlocks (superblockInfo n) s)
    (hm : ∀ i, i < nrInodes → (s.vol.inode i).blocks ≤ level3Limit) : ExclusiveBlocks s.vol := by
  have hown := h.sound.owns.owned
  have hroot : (0, Ref.l1 0) ∈ s.vol.used := ⟨by decide, by simp [Ref.Valid], h.sound.rootBlocks⟩
  have hval : s.vol.val (0, .l1 0) = 0 := h.sound.rootFirst
  refine ⟨hown.inj, fun p hp => ⟨fun h0 => hown.inj p _ hp hroot (by rw [h0, hval]), ?_⟩, fun p hp => ?_,
    fun p hp => by simpa using hown.used p hp, hm⟩
  · rintro rfl
    exact hval
  · rw [h.fits.regions.nrDregionBlocks]
    exact hown.lt p hp

/-! ## The invariant -/

/-- The inode table and the bitmaps of a volume: no block is shared, inode 0 is taken, the maps reach all blocks, and
the files have the blocks that their sizes need. -/
structure Volume.Proper (v : Volume) (B : Nat) : Prop where
  sound : v.Sound B
  root : bit v.cached.ibitmap 0 = false
  inMap : ∀ i, i < nrInodes → (v.inode i).blocks ≤ level3Limit
  holds : ∀ i, i < nrInodes → (v.inode i).Holds

theorem Volume.Alike.proper {v w : Volume} (h : v.Alike w) (hp : v.Proper B)
    (hB : B ≤ 32768 * v.cached.sbi.nrDbitmapBlocks) : w.Proper B := by
  refine ⟨h.sound hp.sound hB, ?_, fun i hi => ?_, fun i hi => ?_⟩
  · rw [h.ibit (by decide)]
    exact hp.root
  · rw [(h.inode i hi).blocks]
    exact hp.inMap i hi
  · unfold Inode.Holds
    rw [(h.inode i hi).size, (h.inode i hi).blocks]
    exact hp.holds i hi

/-- What `u` uses is in use in `v` and holds the same blocks. -/
def Volume.Within (u v : Volume) : Prop := ∀ p, p ∈ u.used → p ∈ v.used ∧ v.val p = u.val p

/-- A state in a session on a device of `n` blocks: the volume is proper, and so is the one that a mount would find,
whose blocks are still in use. -/
structure InSession (n : Nat) (s : State) : Prop where
  steady : Steady (superblockInfo n).nrDregionBlocks (superblockInfo n) s
  proper : s.vol.Proper (superblockInfo n).nrDregionBlocks
  super : SbInfo.load (s.vol.disk 0) = superblockInfo n
  device : s.onDevice.Proper (superblockInfo n).nrDregionBlocks
  within : s.onDevice.Within s.vol

/-- The condition: a call finds enough free blocks, stays inside the map, and takes an inode without blocks. -/
def SessionOk : Action → State → Prop
  | .call c, s => OwnershipOk c s ∧ TakesEmpty c s
  | .remount, _ => True
  | .crash, _ => True

/-- The references of the volume on the device hold what they held when the device is written and the blocks of the
volume stay in use. -/
theorem Volume.Within.step {u v w : Volume} {c : Cached} (hu : u.cached = c)
    (hofs : c.sbi.ofsDregion = v.cached.sbi.ofsDregion) (h : u.Within v) (hs : StepEvolved B v w) :
    (∀ p, p ∈ u.used → Volume.val ⟨c, w.disk⟩ p = u.val p) ∧ Volume.Within ⟨c, w.disk⟩ w := by
  obtain ⟨E, hev, _⟩ := hs.evolves
  have hval : ∀ p, p ∈ u.used → w.val p = u.val p := fun p hp =>
    (hs.keep (h p hp).1).2.trans (h p hp).2
  have hsame : ∀ p, p ∈ u.used → Volume.val ⟨c, w.disk⟩ p = u.val p := by
    refine (reads_val u).agree (reads_val _) (closed_used u) ?_ ?_
    · rintro ⟨i, r⟩ _ hp
      have hr : r.parent = none := by simpa [refForest] using hp
      subst hu
      cases r with
      | l2e | l3e | l3d => cases hr
      | l1 | l2 | l3 => rfl
    · intro p q hp hq
      -- the entry is that of the reference in `w`, whose parent is the same
      have hent : w.val p = w.entry (u.val q) (refForest.slot p) := by
        rw [reads_val w p q hq, hval q (closed_used u p q hp hq)]
      have hent' : u.val p = u.entry (u.val q) (refForest.slot p) := reads_val u p q hq
      rw [← hent', ← hval p hp, hent]
      unfold Volume.entry
      exact congrArg (fun l => pointer (w.disk l) (refForest.slot p)) (lba_congr (hofs.trans hev.ofsDregion.symm) rfl)
  refine ⟨hsame, fun p hp => ?_⟩
  have hp' : p ∈ u.used := by
    subst hu
    exact hp
  exact ⟨(hs.keep (h p hp').1).1, by rw [hval p hp', hsame p hp']⟩

/-- The same cached data on another device is as proper when its references are the same. -/
theorem Volume.Proper.congr {u : Volume} {c : Cached} {d : Nat → Block} (h : u.Proper B) (hu : u.cached = c)
    (hval : ∀ p, p ∈ u.used → Volume.val ⟨c, d⟩ p = u.val p) : Volume.Proper ⟨c, d⟩ B := by
  subst hu
  have ho := h.sound.owns
  exact ⟨⟨⟨ho.owned.congr hval fun _ ha => ha, ho.zero, ho.addr, ho.bits⟩, h.sound.rootBlocks, h.sound.rootFirst⟩,
    h.root, h.inMap, h.holds⟩

section

variable (hl : 2052 ≤ n) (hu : n < 2 ^ 32)

include hl hu

/-- A process just started on a device whose volume is proper is in a session. -/
theorem MountedOn.inSession (h0 : SbInfo.load (disk 0) = superblockInfo n) (h : MountedOn disk t)
    (hp : (State.start (mountVsfs disk dmaBuffer).2 disk).vol.Proper (superblockInfo n).nrDregionBlocks) :
    InSession n t := by
  obtain ⟨old, _, rfl⟩ := h
  obtain ⟨haddr, hB, _⟩ := superblockInfo_addr hl hu
  have halike := mountVsfs_alike hl hu h0 dmaBuffer old
  obtain ⟨_, _, hload⟩ := mountVsfs_device hl hu h0 old
  obtain ⟨_, _, hload'⟩ := mountVsfs_device hl hu h0 dmaBuffer
  have hbits : (State.start (mountVsfs disk dmaBuffer).2 disk).vol.cached.sbi = superblockInfo n := hload'
  have hproper := halike.proper hp (by rw [hbits]; exact hB)
  have hfields := superblockInfo_fields_lt hl hu
  refine ⟨⟨⟨?_, ?_, ?_, fun i => load_fits ..⟩, hproper.sound, hproper.root, fun a f hf => ?_⟩, hproper, h0, hp,
    fun p hpu => ⟨by rw [halike.used]; exact hpu, halike.val hp.sound p hpu⟩⟩
  · show (superblockInfo n).SameRegions (SbInfo.load (mountVsfs disk old).2)
    rw [hload]
    exact ⟨rfl, rfl, rfl, rfl, rfl, rfl, rfl, rfl, rfl, rfl⟩
  · show (SbInfo.load (mountVsfs disk old).2).nrFreeInodes < 2 ^ 32
    rw [hload]
    exact hfields _ (by simp [SbInfo.fields])
  · show (SbInfo.load (mountVsfs disk old).2).nrFreeDblock < 2 ^ 32
    rw [hload]
    exact hfields _ (by simp [SbInfo.fields])
  · cases hf

/-- A volume that has just been formatted is mounted. -/
theorem fresh_mountedOn (disk : Nat → Block) (seg : Bytes) :
    MountedOn (formatDevice blockSize n disk) (State.fresh n disk seg) :=
  ⟨seg, congrArg Prod.fst (mountVsfs_device hl hu (load_formatDevice hl hu disk) seg).1, rfl⟩

theorem fresh_inSession (disk : Nat → Block) (seg : Bytes) : InSession n (State.fresh n disk seg) := by
  have hd := fresh_steady_device hl hu disk dmaBuffer
  refine MountedOn.inSession hl hu (load_formatDevice hl hu disk) (fresh_mountedOn hl hu disk seg)
    ⟨hd.sound, hd.root, fun i hi => ?_, fun i hi => fresh_holds hl hu hi⟩
  have hlim : level3Limit = 1053745 := rfl
  by_cases hi0 : i = 0
  · subst hi0
    exact ((fresh_root hl hu disk dmaBuffer).1).le.trans (by omega)
  · exact ((fresh_inode hl hu disk dmaBuffer hi0 hi).1).le.trans (by omega)

/-- **One action** keeps the volume proper, and what a mount would find. -/
theorem InSession.step {a : Action} (h : InSession n s) (hok : SessionOk a s) (hs : a.Step s t) : InSession n t := by
  obtain ⟨haddr, hB, hofs⟩ := superblockInfo_addr hl hu
  have hsb := (superblockInfo_layout hl hu).nrIbitmapBlocks
  have hlim : level3Limit = 1053745 := rfl
  cases a with
  | call c =>
    obtain ⟨⟨hok, hmap⟩, hempty⟩ := hok
    rw [h.steady.fits.regions.nrDregionBlocks] at hok
    have hst := h.steady.step hsb hok hs
    have hev := h.steady.step_evolves hsb hofs hok hempty hs
    have hsuper : SbInfo.load (t.vol.disk 0) = superblockInfo n := by
      rw [hev.low 0 (by rw [h.steady.fits.regions.ofsDregion, superblockInfo_ofsDregion hl hu]; omega), h.super]
    obtain ⟨_, _, hload⟩ := mountVsfs_device hl hu h.super dmaBuffer
    obtain ⟨_, _, hload'⟩ := mountVsfs_device hl hu hsuper dmaBuffer
    have hcached : s.onDevice.cached.sbi = superblockInfo n := hload
    obtain ⟨hval, hwithin⟩ := h.within.step rfl
      (by rw [hcached, h.steady.fits.regions.ofsDregion]) hev
    have hdev := h.device.congr rfl hval
    -- a mount reads the blocks in front of the data region only
    have halike : Volume.Alike ⟨s.onDevice.cached, t.vol.disk⟩ t.onDevice := by
      refine load_alike (d := dbitmapBlocks n) ?_ ?_ (fun k hk hlt => mountVsfs_bytes hl hu h.super (fun l hlow => ?_) hk hlt)
        fun _ _ => rfl
      · rw [hload, hload']
        exact ⟨rfl, rfl, rfl, rfl, rfl, rfl, rfl, rfl, rfl, rfl⟩
      · rw [hload, (superblockInfo_layout hl hu).nrDbitmapBlocks]
      · exact hev.low l (by rw [h.steady.fits.regions.ofsDregion, superblockInfo_ofsDregion hl hu]; exact hlow)
    refine ⟨hst, ⟨hst.sound, hst.root, fun i hi => ?_, fun i hi => ?_⟩, hsuper,
      halike.proper hdev (by show _ ≤ 32768 * s.onDevice.cached.sbi.nrDbitmapBlocks; rw [hcached]; exact hB),
      fun p hp => ?_⟩
    · have := h.proper.inMap i hi
      rcases h.steady.step_blocks hsb hok hmap hs i with hb | hb <;> omega
    · exact Step.holds hs (fun i => (h.steady.fits.inode i).blocks) (h.proper.holds 0 (by decide)) (h.proper.holds i hi)
    · rw [halike.used] at hp
      rw [halike.val hdev.sound p hp]
      exact hwithin p hp
  | remount =>
    obtain ⟨halike, hsuper⟩ := remounted_alike hl hu h.steady.fits h.super hs
    obtain ⟨seg, _, old, hret, rfl⟩ := hs
    refine MountedOn.inSession hl hu hsuper ⟨old, hret, rfl⟩ ?_
    refine (halike.trans (mountVsfs_alike hl hu hsuper old dmaBuffer)).proper h.proper ?_
    rw [h.steady.fits.regions.nrDbitmapBlocks]
    exact hB
  | crash => exact MountedOn.inSession hl hu h.super hs h.device

end

/-- **A mount succeeds** in every state of a session, after an unmount and without one. -/
theorem InSession.mounts (hl : 2052 ≤ n) (hu : n < 2 ^ 32) (h : InSession n s) :
    (∃ t, Action.remount.Step s t) ∧ ∃ t, Action.crash.Step s t := by
  have hf := h.steady.fits
  refine ⟨⟨_, s.vol.cached.store, load_store (hf.fields_lt hl hu) hf.inode, dmaBuffer, ?_, rfl⟩,
    ⟨_, dmaBuffer, congrArg Prod.fst (mountVsfs_device hl hu h.super dmaBuffer).1, rfl⟩⟩
  have hlay : (SbInfo.load s.vol.cached.store).Layout (dbitmapBlocks n) := by
    rw [load_store_sbi _ (hf.fields_lt hl hu)]
    exact hf.layout hl hu
  exact congrArg Prod.fst (mountVsfs_device hl hu (by rw [unmountVsfs_zero hlay, h.super]) dmaBuffer).1

/-! ## Runs -/

/-- The states that sessions on a device of `n` blocks lead to, from a freshly formatted and mounted volume. -/
def SessionsOn (n : Nat) (ok : Action → State → Prop) (s : State) : Prop :=
  2052 ≤ n ∧ n < 2 ^ 32 ∧ ∃ disk seg, Run Action.Step ok (State.fresh n disk seg) s

theorem SessionsOn.inSession (h : SessionsOn n SessionOk s) : InSession n s := by
  obtain ⟨hl, hu, disk, seg, hr⟩ := h
  exact hr.invariant (fresh_inSession hl hu disk seg) fun a u v hi hok hs => hi.step hl hu hok hs

theorem InSession.exclusive (h : InSession n s) : ExclusiveBlocks s.vol := h.steady.exclusive h.proper.inMap

/-- **Exclusive ownership across sessions**: however calls, remounts and crashes follow each other, no two files share a
block, neither in the volume nor in what a mount would find. -/
theorem sessions_are_exclusive (h : SessionsOn n SessionOk s) : ExclusiveBlocks s.vol ∧
    (∀ t, Action.crash.Step s t → ExclusiveBlocks t.vol) ∧ ∀ t, Action.remount.Step s t → ExclusiveBlocks t.vol := by
  have hi := h.inSession
  obtain ⟨hl, hu, _⟩ := h
  exact ⟨hi.exclusive, fun t ht => (hi.step (a := .crash) hl hu trivial ht).exclusive,
    fun t ht => (hi.step (a := .remount) hl hu trivial ht).exclusive⟩

/-- A new file on a fresh volume takes an inode without blocks. -/
theorem fresh_takesEmpty (hl : 2052 ≤ n) (hu : n < 2 ^ 32) (disk : Nat → Block) (seg : Bytes) (c : Call) :
    TakesEmpty c (State.fresh n disk seg) := by
  intro name blockNum _ _ i hi
  refine (fresh_inode hl hu disk seg ?_ hi.lt).1
  rintro rfl
  have hbit := hi.bit
  rw [fresh_ibitmap hl hu disk seg (by decide)] at hbit
  contradiction

/-- A file of three blocks fits on an example volume. -/
theorem blank_creat_ok : SessionOk (.call (.creat (letter 0) 3)) (blankVolume 4096) := by
  refine ⟨⟨?_, ?_⟩, fresh_takesEmpty (by decide) (by decide) _ _ _⟩
  · exact fresh_creat_device (by decide) (by decide) _ _ _ (by decide) (by decide)
  · rintro _ _ ⟨⟩ _ _
    decide

/-- A file of three blocks is created, and the segment is lost. -/
theorem sessions_are_exclusive_crash : ∃ s t, Action.Step (.call (.creat (letter 0) 3)) (blankVolume 4096) s ∧
    Action.crash.Step s t ∧ ExclusiveBlocks t.vol := by
  have h : (do
      let r ← Call.run 0 (.creat (letter 0) 3) (blankVolume 4096)
      .ok (decide ((r.2.vol.inode 1).blocks = 3)) : M Bool) = .ok true := by decide +kernel
  obtain ⟨⟨r, s⟩, hrun, _⟩ := ExceptLib.bind_eq_ok.mp h
  have hs : Action.Step (.call (.creat (letter 0) 3)) (blankVolume 4096) s := ⟨0, r, by decide, hrun⟩
  have hsess : SessionsOn 4096 SessionOk s := ⟨by decide, by decide, _, _, (Run.refl _).snoc blank_creat_ok hs⟩
  obtain ⟨_, t, ht⟩ := hsess.inSession.mounts (by decide) (by decide)
  exact ⟨s, t, hs, ht, (sessions_are_exclusive hsess).2.1 t ht⟩

end Vsfs
