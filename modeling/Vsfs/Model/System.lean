import Vsfs.Lib.GuardedRun
import Vsfs.Model.Mount
import Vsfs.Model.SpdkIO

/-!
# Runs of the file system

`Step c s t` is one call; a run is a sequence of calls from a freshly formatted and mounted volume. `Reached s` says
that some run ends in `s`, `ReachedBy ok s` that one does whose calls all meet a condition.
-/

set_option autoImplicit false

namespace Vsfs

open ByteSeq GuardedRun

/-- The states that calls meeting `ok` lead to, on a device of `nrBlocks` blocks. -/
def ReachedOn (nrBlocks : Nat) (ok : Call → State → Prop) (s : State) : Prop :=
  2052 ≤ nrBlocks ∧ nrBlocks < 2 ^ 32 ∧ ∃ disk seg, Run Step ok (State.fresh nrBlocks disk seg) s

/-- The states that calls meeting `ok` lead to. -/
def ReachedBy (ok : Call → State → Prop) (s : State) : Prop := ∃ nrBlocks, ReachedOn nrBlocks ok s

/-- The states that calls lead to. -/
def Reached (s : State) : Prop := ReachedBy (fun _ _ => True) s

variable {ok : Call → State → Prop} {s t : State} {c : Call} {n : Nat}

theorem ReachedOn.step (h : ReachedOn n ok s) (hc : ok c s) (hs : Step c s t) : ReachedOn n ok t := by
  obtain ⟨hl, hu, disk, seg, hr⟩ := h
  exact ⟨hl, hu, disk, seg, hr.snoc hc hs⟩

theorem ReachedBy.step (h : ReachedBy ok s) (hc : ok c s) (hs : Step c s t) : ReachedBy ok t := by
  obtain ⟨n, h⟩ := h
  exact ⟨n, h.step hc hs⟩

/-- The invariant rule for runs on a volume. -/
theorem ReachedBy.invariant {P : State → Prop} (h : ReachedBy ok s)
    (h0 : ∀ n disk seg, 2052 ≤ n → n < 2 ^ 32 → P (State.fresh n disk seg))
    (hstep : ∀ c u v, P u → ok c u → Step c u v → P v) : P s := by
  obtain ⟨n, hl, hu, disk, seg, hr⟩ := h
  exact hr.invariant (h0 n disk seg hl hu) hstep

theorem ReachedBy.mono {ok' : Call → State → Prop} (h : ReachedBy ok s) (hw : ∀ c u, ok c u → ok' c u) :
    ReachedBy ok' s := by
  obtain ⟨n, hl, hu, disk, seg, hr⟩ := h
  exact ⟨n, hl, hu, disk, seg, hr.mono hw⟩

/-! ## An example volume -/

/-- A freshly formatted and mounted volume of `n` blocks on a device that held zeros. -/
def blankVolume (n : Nat) : State := State.fresh n (fun _ _ => 0) (fun _ => 0)

theorem reachedOn_blankVolume (hl : 2052 ≤ n) (hu : n < 2 ^ 32) : ReachedOn n ok (blankVolume n) :=
  ⟨hl, hu, _, _, Run.refl _⟩

theorem reachedBy_blankVolume (hl : 2052 ≤ n) (hu : n < 2 ^ 32) : ReachedBy ok (blankVolume n) :=
  ⟨n, reachedOn_blankVolume hl hu⟩

/-- A name of one letter. -/
def letter (k : Fin 26) : CStr := ⟨[UInt8.ofNat (97 + k.val)], by revert k; decide⟩

/-- A file of one block, which is block 1, and 14 empty files; the last one makes the directory grow by block 2. -/
def growDirectory : List Call :=
  .creat (letter 0) 1 :: (List.range 14).map fun k => .creat (letter (Fin.ofNat 26 (k + 1))) 0

/-- An empty file, opened. -/
def openEmpty : List Call := [.creat (letter 0) 0, .open (letter 0) oRdwr]

/-- A file with two blocks, opened. -/
def openRoomy : List Call := [.creat (letter 0) 2, .open (letter 0) oRdwr]

/-- The same, opened again after a byte has been written. -/
def openAgain : List Call := openRoomy ++ [.write 1 (fun _ => 97) 1, .close 1, .open (letter 0) oRdwr]

/-- The calls of `cs` one after the other at time 0, with the last return value. -/
def runCalls : List Call → Int × State → M (Int × State)
  | [], r => .ok r
  | c :: cs, (_, s) => do
    let r ← c.run 0 s
    runCalls cs r

/-- What a list of calls leads to is reached. -/
theorem ReachedBy.runCalls {cs : List Call} {ret r : Int} (h : ReachedBy (fun _ _ => True) s)
    (hr : Vsfs.runCalls cs (ret, s) = .ok (r, t)) : ReachedBy (fun _ _ => True) t := by
  induction cs generalizing s ret with
  | nil => cases hr; exact h
  | cons c cs ih =>
    obtain ⟨⟨r', s'⟩, hc, hr⟩ := ExceptLib.bind_eq_ok.mp hr
    exact ih (h.step trivial ⟨0, r', by decide, hc⟩) hr

end Vsfs
