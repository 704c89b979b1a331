import Vsfs.Volume.Sessions

/-!
# What a mount brings back

An unmount writes the bitmaps and the inode table, the calls write the blocks of the files at once. So after an unmount
and a mount all names lead to the files that they led to, which hold what they held; and when the segment is lost, the
files that the last mount has found hold what was last written to the blocks that they had then.

- `lookup_alike`: the search of the root directory;
- `remount_keeps_files`: an unmount and a mount, in every run;
- `crash_keeps_files`: any calls between a mount and the loss of the segment.
-/

set_option autoImplicit false

namespace Vsfs

open Function ByteSeq WordBits PointerForest GuardedRun

variable {n B : Nat} {s t u : State} {v w : Volume}

/-! ## Names -/

/-- The entries of the root directory are in its blocks, and level 1 of its map reaches these. -/
structure Volume.EntriesFit (v : Volume) : Prop where
  entry : (v.inode 0).entry ≤ 16 * (v.inode 0).blocks
  blocks : (v.inode 0).blocks ≤ level1Limit

/-- The search of the root directory is the same, fault or not. -/
theorem lookup_alike (h : v.Alike w) (hs : v.Sound B) (hb : (v.inode 0).blocks ≤ level1Limit) (name : CStr) {m i : Nat}
    (hm : i + m ≤ 16 * (v.inode 0).blocks) : lookup w name m i = lookup v name m i := by
  induction m generalizing i with
  | zero => rfl
  | succ m ih =>
    have hlim : level1Limit = 49 := rfl
    have hq : i / 16 < (v.inode 0).blocks := by omega
    have hl1 : (w.inode 0).l1At (i / 16) = (v.inode 0).l1At (i / 16) := by
      unfold Inode.l1At
      rw [(h.inode 0 (by decide)).l1 _ (by omega)]
    have hat : (v.inode 0).l1At (i / 16) = .ok ((v.inode 0).l1 (i / 16)) := by
      unfold Inode.l1At
      rw [if_pos (by omega)]
    have hlt : (v.inode 0).l1 (i / 16) < B := hs.owns.owned.lt (0, .l1 (i / 16)) (directory_used (by omega) hq)
    unfold lookup
    rw [hl1, hat]
    simp only [ExceptLib.ok_bind, h.disk_lba hs.owns.addr hlt, ih (show i + 1 + m ≤ _ by omega)]

/-- What `vsfs_stat` reports of a name. -/
def Volume.report (v : Volume) (pathname : CStr) : M (Int × Option FileStat) := do
  match ← lookup v pathname (v.inode 0).entry 0 with
  | none => .ok (-1, none)
  | some target => do
    let x ← v.inodeAt target
    .ok (0, some x.stat)

/-- `vsfs_stat` reports that, once `init_base_ptr` has run. -/
theorem vsfsStat_report (hb : s.tmpBasePtr = true) (pathname : CStr) :
    (do let (ret, fre, _) ← vsfsStat pathname s; .ok (ret, fre) : M _) = s.vol.report pathname := by
  rw [vsfsStat_eq hb]
  unfold Volume.report
  cases lookup s.vol pathname (s.vol.inode 0).entry 0 with
  | error e => rfl
  | ok r =>
    cases r with
    | none => rfl
    | some target =>
      simp only [ExceptLib.ok_bind]
      cases s.vol.inodeAt target <;> rfl

/-- A process that has called `vsfs_open` can ask for it. -/
theorem vsfsStat_report_of_open {now : Nat} {pathname : CStr} {flags ret : Int}
    (ho : vsfsOpen now pathname flags s = .ok (ret, t)) (name : CStr) :
    (do let (ret, fre, _) ← vsfsStat name t; .ok (ret, fre) : M _) = t.vol.report name :=
  vsfsStat_report (vsfsOpen_tmpBasePtr ho) name

theorem inodeAt_stat (h : v.Alike w) (i : Nat) : (do let x ← w.inodeAt i; .ok ((0 : Int), some x.stat) : M _) = (do
    let x ← v.inodeAt i
    .ok (0, some x.stat)) := by
  unfold Volume.inodeAt
  by_cases hi : i < nrInodes
  · rw [if_pos hi, if_pos hi]
    simp only [ExceptLib.ok_bind, h.stat hi]
  · rw [if_neg hi, if_neg hi]

/-- The files of `s` are those of `t`: names lead to the same inodes, which are reported alike, and the bytes are the
same. -/
structure FilesKept (s t : State) : Prop where
  names : ∀ name, lookup t.vol name (t.vol.inode 0).entry 0 = lookup s.vol name (s.vol.inode 0).entry 0
  report : ∀ name, t.vol.report name = s.vol.report name
  bytes : ∀ i, i < nrInodes → ∀ k, k < (s.vol.inode i).fileSize → t.vol.byteAt i k = s.vol.byteAt i k

/-- The sizes are as the blocks allow. -/
theorem Volume.Proper.sized (h : v.Proper B) {sb : SbInfo} (hf : v.cached.Fits sb) : v.Sized :=
  fun j hj => ⟨h.holds j hj, (hf.inode j).size⟩

theorem Volume.Alike.filesKept (h : s.vol.Alike t.vol) (hp : s.vol.Sound B) (hs : s.vol.Sized) (hd : s.vol.EntriesFit) :
    FilesKept s t := by
  have hnames : ∀ name, lookup t.vol name (t.vol.inode 0).entry 0 = lookup s.vol name (s.vol.inode 0).entry 0 := by
    intro name
    rw [show (t.vol.inode 0).entry = (s.vol.inode 0).entry from (h.inode 0 (by decide)).size]
    exact lookup_alike h hp hd.blocks name (by rw [Nat.zero_add]; exact hd.entry)
  refine ⟨hnames, fun name => ?_, fun i hi k hk => h.byteAt hp (hs.used hi hk).1⟩
  unfold Volume.report
  rw [hnames]
  cases lookup s.vol name (s.vol.inode 0).entry 0 with
  | error e => rfl
  | ok r =>
    cases r with
    | none => rfl
    | some target => exact inodeAt_stat h target

/-- **An unmount and a mount** keep all files, in every run of calls, remounts and crashes. -/
theorem remount_keeps_files (h : SessionsOn n SessionOk s) (hd : s.vol.EntriesFit) (hs : Action.remount.Step s t) :
    FilesKept s t := by
  have hi := h.inSession
  obtain ⟨hl, hu, _⟩ := h
  obtain ⟨halike, _⟩ := remounted_alike hl hu hi.steady.fits hi.super hs
  exact halike.filesKept hi.proper.sound (hi.proper.sized hi.steady.fits) hd

/-- A file of three blocks is created on an example volume. -/
theorem blank_created : ∃ s, Action.Step (.call (.creat (letter 0) 3)) (blankVolume 4096) s ∧ s.vol.EntriesFit := by
  have h : (do
      let r ← Call.run 0 (.creat (letter 0) 3) (blankVolume 4096)
      .ok (decide ((r.2.vol.inode 0).entry ≤ 16 * (r.2.vol.inode 0).blocks ∧ (r.2.vol.inode 0).blocks ≤ level1Limit)) :
        M Bool) = .ok true := by decide +kernel
  obtain ⟨⟨r, s⟩, hrun, hs⟩ := ExceptLib.bind_eq_ok.mp h
  obtain ⟨he, hb⟩ := of_decide_eq_true (Except.ok.inj hs)
  exact ⟨s, ⟨0, r, by decide, hrun⟩, he, hb⟩

theorem blank_sessions (hs : Action.Step (.call (.creat (letter 0) 3)) (blankVolume 4096) s) :
    SessionsOn 4096 SessionOk s :=
  ⟨by decide, by decide, _, _, (Run.refl _).snoc blank_creat_ok hs⟩

/-- A file that has been created is kept. -/
theorem remount_keeps_files_creat : ∃ s t, Action.Step (.call (.creat (letter 0) 3)) (blankVolume 4096) s ∧
    Action.remount.Step s t ∧ FilesKept s t := by
  obtain ⟨s, hs, hfit⟩ := blank_created
  have hsess := blank_sessions hs
  obtain ⟨⟨t, ht⟩, _⟩ := hsess.inSession.mounts (by decide) (by decide)
  exact ⟨s, t, hs, ht, remount_keeps_files hsess hfit ht⟩

/-! ## The loss of the segment -/

/-- Calls only, under the condition of a session. -/
def CallsOk : Action → State → Prop
  | .call c, s => SessionOk (.call c) s
  | .remount, _ => False
  | .crash, _ => False

/-- The state `u` was reached from a mount that has found the volume `v`: the blocks in front of the data region are as
they were. -/
structure SinceMount (n : Nat) (s u : State) : Prop where
  session : InSession n u
  low : ∀ l, l < 2050 + dbitmapBlocks n → u.vol.disk l = s.vol.disk l

theorem SinceMount.step {a : Action} (hl : 2052 ≤ n) (hu : n < 2 ^ 32) (h : SinceMount n s u) (hok : CallsOk a u)
    (hs : a.Step u t) : SinceMount n s t := by
  obtain ⟨_, _, hofs⟩ := superblockInfo_addr hl hu
  cases a with
  | call c =>
    refine ⟨InSession.step (a := .call c) hl hu h.session hok hs, fun l hlow => ?_⟩
    obtain ⟨⟨hroom, _⟩, hempty⟩ := hok
    have hst := h.session.steady
    rw [hst.fits.regions.nrDregionBlocks] at hroom
    have hev := hst.step_evolves (superblockInfo_layout hl hu).nrIbitmapBlocks hofs
      hroom hempty hs
    rw [hev.low l (by rw [hst.fits.regions.ofsDregion, superblockInfo_ofsDregion hl hu]; exact hlow), h.low l hlow]
  | remount => exact hok.elim
  | crash => exact hok.elim

/-- The files that a mount has found in `s`, in the state `t` after the segment has been lost in the state `u`: inodes
with their maps are those of `s`, reported and taken as there, and the bytes are those of `u`. -/
structure Recovered (s u t : State) : Prop where
  inode : ∀ i, i < nrInodes → (t.vol.inode i).Same (s.vol.inode i)
  stat : ∀ i, i < nrInodes → (t.vol.inode i).stat = (s.vol.inode i).stat
  taken : ∀ i, i < nrInodes → bit t.vol.cached.ibitmap i = bit s.vol.cached.ibitmap i
  bytes : ∀ i, i < nrInodes → ∀ k, k < (s.vol.inode i).fileSize → t.vol.byteAt i k = u.vol.byteAt i k

/-- Two mounts find the same inode tables when the blocks in front of the data region are the same. -/
theorem tables_alike {disk disk' : Nat → Block} (hl : 2052 ≤ n) (hu : n < 2 ^ 32)
    (h0 : SbInfo.load (disk 0) = superblockInfo n) (h : ∀ l, l < 2050 + dbitmapBlocks n → disk' l = disk l)
    (seg old : Bytes) :
    (State.start (mountVsfs disk seg).2 disk').vol.Alike (State.start (mountVsfs disk' old).2 disk').vol := by
  obtain ⟨_, _, hs⟩ := mountVsfs_device hl hu h0 seg
  have h0' : SbInfo.load (disk' 0) = superblockInfo n := by rw [h 0 (by omega), h0]
  obtain ⟨_, _, ho⟩ := mountVsfs_device hl hu h0' old
  refine load_alike (d := dbitmapBlocks n) ?_ ?_ (fun k hk hlt => mountVsfs_bytes hl hu h0 h hk hlt) fun _ _ => rfl
  · rw [hs, ho]
    exact ⟨rfl, rfl, rfl, rfl, rfl, rfl, rfl, rfl, rfl, rfl⟩
  · rw [hs, (superblockInfo_layout hl hu).nrDbitmapBlocks]

/-- The inodes and bitmaps that the mount in `s` has found, on the device of `u`. -/
def foundOn (s u : State) : Volume := ⟨s.vol.cached, u.vol.disk⟩

/-- **What the last mount has found** is sound on the device as it is now, its blocks are still in use, and this is what
the mount after a crash finds. -/
theorem SinceMount.found {disk : Nat → Block} (hl : 2052 ≤ n) (hu : n < 2 ^ 32) (h : SinceMount n s u)
    (hm : MountedOn disk s) : (foundOn s u).Sound (superblockInfo n).nrDregionBlocks ∧
      (foundOn s u).Within u.vol ∧ ∀ t, Action.crash.Step u t → (foundOn s u).Alike t.vol := by
  obtain ⟨seg, _, rfl⟩ := hm
  have hsess := h.session
  obtain ⟨_, hB, _⟩ := superblockInfo_addr hl hu
  have h0 : SbInfo.load (disk 0) = superblockInfo n := by
    rw [← hsess.super, h.low 0 (by omega)]
    rfl
  have halike : (foundOn (State.start (mountVsfs disk seg).2 disk) u).Alike u.onDevice :=
    tables_alike hl hu h0 h.low seg dmaBuffer
  have hdev : u.onDevice.cached.sbi = superblockInfo n := (mountVsfs_device hl hu hsess.super dmaBuffer).2.2
  have hsound := halike.symm.sound hsess.device.sound (by rw [hdev]; exact hB)
  refine ⟨hsound, fun p hp => ?_, ?_⟩
  · obtain ⟨hin, hval⟩ := hsess.within p (by rw [halike.used]; exact hp)
    exact ⟨hin, hval.trans (halike.val hsound p hp)⟩
  · rintro t ⟨old, _, rfl⟩
    exact tables_alike hl hu h0 h.low seg old

/-- The bytes of the files that the last mount has found are those that the calls have written since. -/
theorem found_byteAt {i k : Nat} (hofs : s.vol.cached.sbi.ofsDregion = u.vol.cached.sbi.ofsDregion)
    (hw : (foundOn s u).Within u.vol) (hp : (i, dataRef (k / 4096)) ∈ (foundOn s u).used) :
    (foundOn s u).byteAt i k = u.vol.byteAt i k := by
  have hofs' : (foundOn s u).cached.sbi.ofsDregion = u.vol.cached.sbi.ofsDregion := hofs
  unfold Volume.byteAt Paged.cell Volume.page
  rw [lba_congr hofs' (hw _ hp).2.symm]
  rfl

/-- **The loss of the segment**: after a mount and any calls, the next mount finds the inodes of the last mount, and the
files have the bytes that were last written to them. -/
theorem crash_keeps_files {disk : Nat → Block} (h : SessionsOn n SessionOk s) (hm : MountedOn disk s)
    (hr : Run Action.Step CallsOk s u) (hc : Action.crash.Step u t) : Recovered s u t := by
  have hi := h.inSession
  obtain ⟨hl, hu, _⟩ := h
  have hsince : SinceMount n s u := hr.invariant (P := SinceMount n s) ⟨hi, fun _ _ => rfl⟩
    fun a v w hv hok hs => hv.step hl hu hok hs
  obtain ⟨hsound, hwithin, hcrash⟩ := hsince.found hl hu hm
  have halike := hcrash t hc
  refine ⟨fun i hin => halike.inode i hin, fun i hin => halike.stat hin, fun i hin => halike.ibit hin,
    fun i hin k hk => ?_⟩
  have hused : (i, dataRef (k / 4096)) ∈ (foundOn s u).used :=
    ((hi.proper.sized hi.steady.fits).used hin hk).1
  rw [halike.byteAt hsound hused]
  exact found_byteAt (hi.steady.fits.regions.ofsDregion.trans hsince.session.steady.fits.regions.ofsDregion.symm) hwithin
    hused

/-- A file that has been created is lost with the segment. -/
theorem crash_keeps_files_creat : ∃ s t, Action.Step (.call (.creat (letter 0) 3)) (blankVolume 4096) s ∧
    Action.crash.Step s t ∧ Recovered (blankVolume 4096) s t := by
  obtain ⟨s, hs, _⟩ := blank_created
  have h0 : SessionsOn 4096 SessionOk (blankVolume 4096) := ⟨by decide, by decide, _, _, Run.refl _⟩
  have hm := fresh_mountedOn (n := 4096) (by decide) (by decide) (fun _ _ => 0) fun _ => 0
  have hok : CallsOk (.call (.creat (letter 0) 3)) (blankVolume 4096) := blank_creat_ok
  obtain ⟨_, t, ht⟩ := (blank_sessions hs).inSession.mounts (by decide) (by decide)
  exact ⟨s, t, hs, ht, crash_keeps_files h0 hm ((Run.refl _).snoc hok hs) ht⟩

end Vsfs
