import Vsfs.Model.ShmIO
import Vsfs.Model.System

/-!
# Runs of the shared-memory variant

`Shm.Step c s t` is one call of `vsfsio.h`. A run starts from the segments of a freshly formatted volume whose cached
data are laid out as `struct vsfs_cached_data` says; the mount of `shm_mount.c` lays them out in another way.
`Shm.ReachedBy ok s` says that a run whose calls all meet a condition ends in `s`.
-/

set_option autoImplicit false

namespace Vsfs.Shm

open ByteSeq GuardedRun

/-- One call at the time `now`: its return value and the process after it. -/
def run (now : Nat) : Call → Process → M (Int × Process)
  | .creat name blockNum, s => vsfsCreat now name blockNum s
  | .open pathname flags, s => do
    let (ret, t) ← vsfsOpen now pathname flags s.toState
    .ok (ret, { s with toState := t })
  | .stat pathname, s => do
    let (ret, _) ← vsfsStat pathname s
    .ok (ret, s)
  | .close fildes, s => do
    let (ret, t) ← vsfsClose fildes s.toState
    .ok (ret, { s with toState := t })
  | .write fildes buf nbyte, s => vsfsWrite now fildes buf nbyte s
  | .read fildes buf nbyte, s => do
    let (ret, _, s) ← vsfsRead now fildes buf nbyte s
    .ok (ret, s)
  | .lseek fildes offset whence, s => do
    let (ret, s) ← vsfsLseek fildes offset whence s
    .ok (if ret = seekError then -1 else ret, s)

/-- A call takes the process from one state to another. -/
def Step (c : Call) (s t : Process) : Prop := ∃ now ret, now < 2 ^ 64 ∧ run now c s = .ok (ret, t)

/-- The process before its first call, on the volume of `v`. -/
def Process.start (v : Volume) : Process where
  inodes := v.cached.inodeReg
  data := fun k => v.disk (v.cached.sbi.ofsDregion + k)
  cached := v.cached
  desc := Desc.initial
  sb := false
  sbCached := false

/-- The states that calls meeting `ok` lead to, on a device of `nrBlocks` blocks. -/
def ReachedOn (nrBlocks : Nat) (ok : Call → Process → Prop) (s : Process) : Prop :=
  2052 ≤ nrBlocks ∧ nrBlocks < 2 ^ 32 ∧
    ∃ disk seg, Run Step ok (.start (Vsfs.State.fresh nrBlocks disk seg).vol) s

/-- The states that calls meeting `ok` lead to. -/
def ReachedBy (ok : Call → Process → Prop) (s : Process) : Prop := ∃ nrBlocks, ReachedOn nrBlocks ok s

/-- The calls of `cs` one after the other at time 0, with the last return value. -/
def runCalls : List Call → Int × Process → M (Int × Process)
  | [], r => .ok r
  | c :: cs, (_, s) => do
    let r ← run 0 c s
    runCalls cs r

variable {ok : Call → Process → Prop} {s t : Process}

theorem ReachedBy.step {c : Call} (h : ReachedBy ok s) (hc : ok c s) (hs : Step c s t) : ReachedBy ok t := by
  obtain ⟨n, hl, hu, disk, seg, hr⟩ := h
  exact ⟨n, hl, hu, disk, seg, hr.snoc hc hs⟩

theorem ReachedBy.mono {ok' : Call → Process → Prop} (h : ReachedBy ok s) (hw : ∀ c u, ok c u → ok' c u) :
    ReachedBy ok' s := by
  obtain ⟨n, hl, hu, disk, seg, hr⟩ := h
  exact ⟨n, hl, hu, disk, seg, hr.mono hw⟩

theorem reachedBy_start {n : Nat} (hl : 2052 ≤ n) (hu : n < 2 ^ 32) : ReachedBy ok (.start (blankVolume n).vol) :=
  ⟨n, hl, hu, _, _, Run.refl _⟩

/-- What a list of calls leads to is reached. -/
theorem ReachedBy.runCalls {cs : List Call} {ret r : Int} (h : ReachedBy (fun _ _ => True) s)
    (hr : Shm.runCalls cs (ret, s) = .ok (r, t)) : ReachedBy (fun _ _ => True) t := by
  induction cs generalizing s ret with
  | nil => cases hr; exact h
  | cons c cs ih =>
    obtain ⟨⟨r', s'⟩, hc, hr⟩ := ExceptLib.bind_eq_ok.mp hr
    exact ih (h.step trivial ⟨0, r', by decide, hc⟩) hr

end Vsfs.Shm
