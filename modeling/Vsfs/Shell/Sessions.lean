import Vsfs.Shell.Refines

/-!
# Sessions of the shell

The shell is started, used and left, again and again; between two runs the volume stays mounted, is unmounted and mounted
again, or is mounted as the last unmount has left it, since the segment has been lost.

- `Contents.found`: what is left of the files when the segment is lost;
- `Kept.runs`: one session;
- `sessions_refine`: all sessions print what the files demand, and the next one can be run.
-/

set_option autoImplicit false

namespace Vsfs

open Function ByteSeq WordBits

variable {n B : Nat} {v : Volume} {s₀ s t u : State} {tr now saved : Tree} {ino ino' : Word → Nat} {st : Store}
  {x : Session} {xs : List Session} {out : List Out} {outs : List (List Out)}

/-! ## Sessions -/

/-- The next process on the mounted volume. Its heap starts where that of the last one has ended, so a pointer that is
left in the table of open files points at nothing. -/
def State.nextProcess (s : State) : State :=
  { s with
    desc := { s.desc with opCounter := false, fdTable := .null, fds := fun _ => none, files := fun _ => none }
    sbCached := none
    inodeReg := none
    maps := 0, tmpBasePtr := false }

/-- What happens between two runs of the shell. -/
def Between.Step : Between → State → State → Prop
  | .stay, s, t => t = s.nextProcess
  | .remount, s, t => Action.remount.Step s t
  | .crash, s, t => Action.crash.Step s t

/-- A run of the shell with the output `out`, and what happens behind it. -/
def Session.Runs (x : Session) (s : State) (out : List Out) (t : State) : Prop :=
  ∃ clock fuel rest u, (∀ k, clock k < 2 ^ 64) ∧
    startUfs clock fuel (typed x.requests x.leave ++ rest) s = .ok (u, out) ∧ x.between.Step u t

/-- Sessions, one after the other. -/
inductive Sessions : List Session → State → List (List Out) → State → Prop
  | nil (s : State) : Sessions [] s [] s
  | cons {x : Session} {xs : List Session} {s t u : State} {out : List Out} {outs : List (List Out)} :
      x.Runs s out t → Sessions xs t outs u → Sessions (x :: xs) s (out :: outs) u

/-! ## The fuel -/

/-- More rounds do not change a run that has ended. -/
theorem shellLoop_more {clock : Nat → Nat} {fuel : Nat} {cmd : Option CStr} {sh sh' : Shell}
    (h : shellLoop clock fuel cmd sh = .ok sh') (m : Nat) : shellLoop clock (fuel + m) cmd sh = .ok sh' := by
  induction fuel generalizing cmd sh with
  | zero => cases h
  | succ fuel ih =>
    rw [Nat.succ_add]
    unfold shellLoop at h ⊢
    obtain ⟨⟨ends, cmd', sh₁⟩, hround, h⟩ := ExceptLib.bind_eq_ok.mp h
    rw [hround, ExceptLib.ok_bind]
    cases ends with
    | true => exact h
    | false => exact ih h

theorem startUfs_more {clock : Nat → Nat} {fuel : Nat} {stdin : List UInt8} {r : State × List Out}
    (h : startUfs clock fuel stdin s = .ok r) (m : Nat) : startUfs clock (fuel + m) stdin s = .ok r := by
  obtain ⟨sh, hrun, h⟩ := ExceptLib.bind_eq_ok.mp h
  unfold startUfs
  rw [shellLoop_more hrun m]
  exact h

/-! ## The loss of the segment -/

theorem Contents.congr_ino (h : Contents B v tr ino) (hsame : ∀ a, a ∈ tr.names → ino' a = ino a) :
    Contents B v tr ino' := by
  have hlog : tr.log ino' = tr.log ino := List.map_congr_left fun a ha => by rw [hsame a ha]
  refine ⟨by rw [hlog]; exact h.dir, h.root, fun a b ha hb hab => ?_, fun a ha => ?_, fun i hi => ?_, fun f hf => ?_,
    h.spare, h.room⟩
  · rw [hsame a ha, hsame b hb] at hab
    exact h.inj a b ha hb hab
  · rw [hsame a ha]
    exact h.inode a ha
  · rw [h.taken i hi]
    exact or_congr_right (exists_congr fun a => and_congr_right fun ha => by rw [hsame a ha])
  · rw [hsame _ (mem_names hf)]
    exact h.held f hf

/-- A file that the last mount has found with a text has one now. -/
theorem Contents.still_written {a old : Word} (hs : Contents B s₀.vol saved ino) (hn : Contents B u.vol now ino)
    (hpre : saved.names <+: now.names) (hw : (foundOn s₀ u).Within u.vol) (hf : (a, some old) ∈ saved.files) :
    ∃ text, (a, some text) ∈ now.files ∧ (ino a, Ref.l1 0) ∈ (foundOn s₀ u).used := by
  have hmem := mem_names hf
  obtain ⟨_, hlt⟩ := hs.inode a hmem
  have hblocks : (s₀.vol.inode (ino a)).blocks = 1 := (hs.held _ hf).1
  have hused : (ino a, Ref.l1 0) ∈ (foundOn s₀ u).used := by
    refine ⟨hlt, by simp [Ref.Valid], ?_⟩
    show 0 < (s₀.vol.inode (ino a)).blocks
    omega
  obtain ⟨text, hnow⟩ := exists_file (hpre.subset hmem)
  cases text with
  | some text => exact ⟨text, hnow, hused⟩
  | none =>
    have h0 : (u.vol.inode (ino a)).blocks = 0 := (hn.held _ hnow).1
    have hlt' : 0 < (u.vol.inode (ino a)).blocks := (hw _ hused).1.2.2
    omega

/-- **The loss of the segment**: the volume that the last mount has found holds what is left of the files. -/
theorem Contents.found (hs : Contents B s₀.vol saved ino) (hn : Contents B u.vol now ino)
    (hpre : saved.names <+: now.names) (hofs : s₀.vol.cached.sbi.ofsDregion = u.vol.cached.sbi.ofsDregion)
    (hw : (foundOn s₀ u).Within u.vol) : Contents B (foundOn s₀ u) (now.recover saved) ino := by
  have hnames : (now.recover saved).names = saved.names := Tree.recover_names ..
  have hlog : (now.recover saved).log ino = saved.log ino := by unfold Tree.log; rw [hnames]
  -- the entries of the directory are the first ones of the directory as it is now
  have hents : entries (saved.log ino) <+: entries (now.log ino) := by
    unfold entries Tree.log
    exact List.prefix_cons_inj _ |>.mpr (List.prefix_cons_inj _ |>.mpr (hpre.map _))
  have hent : ∀ (k : Nat) e, (entries (saved.log ino))[k]? = some e → (entries (now.log ino))[k]? = some e := by
    obtain ⟨new, hnew⟩ := hents
    intro k e he
    rw [← hnew, List.getElem?_append_left (List.getElem?_eq_some_iff.mp he).1, he]
  have hlba : ∀ k, (foundOn s₀ u).disk ((foundOn s₀ u).lba k) = u.vol.disk (u.vol.lba k) := fun k =>
    congrArg u.vol.disk (lba_congr hofs rfl)
  refine ⟨?_, hs.root, ?_, ?_, ?_, fun f hf => ?_, hs.spare, ?_⟩
  · rw [hlog]
    refine ⟨hs.dir.entry, hs.dir.fits, hs.dir.blocks, hs.dir.map, hs.dir.short, fun k e he => ?_, fun k e he => ?_⟩
    · rw [hlba]
      exact hn.dir.named k e (hent k e he)
    · rw [hlba]
      exact hn.dir.inode k e (hent k e he)
  · rw [hnames]
    exact hs.inj
  · rw [hnames]
    exact hs.inode
  · rw [hnames]
    exact hs.taken
  · obtain ⟨⟨a, old⟩, hfound, rfl⟩ := List.mem_map.mp hf
    cases old with
    | none => exact hs.held _ hfound
    | some old =>
      obtain ⟨text, hnow, hused⟩ := hs.still_written hn hpre hw hfound
      obtain ⟨hb, hsize, _, _⟩ := hs.held _ hfound
      obtain ⟨_, _, hlen, hbytes⟩ := hn.held _ hnow
      simp only [Option.bind_some, Tree.read_of_mem hnow, Option.join_some]
      refine ⟨hb, hsize, hlen, fun k hk => ?_⟩
      have hdata : dataRef (k / 4096) = .l1 0 := by rw [show k / 4096 = 0 by omega]; rfl
      rw [found_byteAt hofs hw (by rw [hdata]; exact hused), hbytes k hk]
  · have hwritten : (now.recover saved).written = saved.written := by
      unfold Tree.written Tree.recover Tree.mapText
      rw [List.countP_map]
      refine List.countP_congr fun f hf => ?_
      obtain ⟨a, old⟩ := f
      cases old with
      | none => simp
      | some old =>
        obtain ⟨text, hnow, _⟩ := hs.still_written hn hpre hw hf
        simp [Tree.read_of_mem hnow]
    rw [hwritten]
    exact hs.room

/-! ## The invariant -/

/-- A state between two sessions: it holds the files, and the last mount, in `s₀`, has found those of `st.saved`. -/
structure Kept (n : Nat) (st : Store) (s₀ s : State) (ino : Word → Nat) : Prop where
  holding : Holding n s₀ st.now ino s
  mounted : ∃ disk, MountedOn disk s₀
  found : Contents (superblockInfo n).nrDregionBlocks s₀.vol st.saved ino
  regions : s₀.vol.cached.sbi.ofsDregion = (superblockInfo n).ofsDregion
  older : st.saved.names <+: st.now.names

/-- A volume that has just been mounted. -/
theorem Kept.mounted_at {disk : Nat → Block} (hl : 2052 ≤ n) (hu : n < 2 ^ 32) (hm : MountedOn disk t)
    (hi : InSession n t) (hc : Contents (superblockInfo n).nrDregionBlocks t.vol tr ino) : Kept n ⟨tr, tr⟩ t t ino := by
  have hdesc : t.desc = Desc.initial := by
    obtain ⟨old, _, rfl⟩ := hm
    rfl
  have hdir := hc.dir
  have hfits := hdir.fits
  refine ⟨⟨⟨hl, hu, ⟨hi, fun _ _ => rfl⟩, ?_⟩, hc, by rw [hdesc]; rfl, by rw [hdesc]; rfl⟩, ⟨disk, hm⟩, hc,
    hi.steady.fits.regions.ofsDregion, List.prefix_rfl⟩
  refine ⟨hi.steady, by rw [hdesc]; exact Desc.Listed.initial, ?_, by rw [hdir.entry]; exact hfits, hdir.blocks, ?_⟩
  · rw [hdesc]
    intro p a ha
    cases ha
  · rw [hdesc]
    intro a f hf
    cases hf

/-- **The next process** finds the volume as it is. -/
theorem Serving.nextProcess (h : Serving n s₀ s) : Serving n s₀ s.nextProcess := by
  obtain ⟨hl, hu, ⟨hsess, hlow⟩, hroot⟩ := h
  have hst : Steady (superblockInfo n).nrDregionBlocks (superblockInfo n) s.nextProcess :=
    ⟨hsess.steady.fits, hsess.steady.sound, hsess.steady.root, fun a f hf => (by cases hf)⟩
  have hlist := hroot.listed
  refine ⟨hl, hu, ⟨⟨hst, hsess.proper, hsess.super, hsess.device, hsess.within⟩, hlow⟩, hst, ?_, ?_, hroot.entry,
    hroot.blocks, fun a f hf => (by cases hf)⟩
  · exact ⟨TablePtr.noConfusion, hlist.count, ⟨[], Desc.holds_nil rfl, numbered_nil, Nat.zero_le _, by simp,
      fun hne => absurd rfl hne⟩, fun p hp a ha => ⟨(hlist.spent p hp a ha).1, rfl⟩, fun _ _ => rfl⟩
  · intro p a ha
    exact ⟨(hroot.paired p a ha).1, fun f hf => (by cases hf)⟩

/-- **What happens between two runs** of the shell. -/
theorem Kept.between {b : Between} (h : Kept n st s₀ s ino) (hb : b.Step s t) :
    ∃ t₀, Kept n (st.between b) t₀ t ino := by
  obtain ⟨hhold, ⟨disk, hm⟩, hfound, hregions, holder⟩ := h
  have hl := hhold.serving.low
  have hu := hhold.serving.high
  have hsince := hhold.serving.since
  have hsess := hsince.session
  cases b with
  | stay =>
    rw [show t = s.nextProcess from hb]
    exact ⟨s₀, ⟨hhold.serving.nextProcess, hhold.contents, rfl, hhold.idle.count⟩, ⟨disk, hm⟩, hfound, hregions, holder⟩
  | remount =>
    have hstep : Action.remount.Step s t := hb
    obtain ⟨halike, _⟩ := remounted_alike hl hu hsess.steady.fits hsess.super hstep
    have hnext := InSession.step (a := .remount) hl hu hsess trivial hstep
    obtain ⟨seg, _, hmt⟩ := hstep
    exact ⟨t, .mounted_at hl hu hmt hnext (hhold.contents.alike halike hsess.proper.sound)⟩
  | crash =>
    have hstep : Action.crash.Step s t := hb
    obtain ⟨hsound, hwithin, hcrash⟩ := hsince.found hl hu hm
    have hnext := InSession.step (a := .crash) hl hu hsess trivial hstep
    have hleft := hfound.found hhold.contents holder (hregions.trans hsess.steady.fits.regions.ofsDregion.symm) hwithin
    exact ⟨t, .mounted_at hl hu hstep hnext (hleft.alike (hcrash t hstep) hsound)⟩

/-- A run of the shell leaves the last mount as it was. -/
theorem Kept.ran {rs : List Request} (h : Kept n st s₀ s ino) (hhold : Holding n s₀ (st.now.run rs) ino' u)
    (hsame : ∀ a, a ∈ st.now.names → ino' a = ino a) : Kept n ⟨st.now.run rs, st.saved⟩ s₀ u ino' :=
  ⟨hhold, h.mounted, h.found.congr_ino fun a ha => hsame a (h.older.subset ha), h.regions,
    h.older.trans (st.now.names_run rs)⟩

/-- **One session**. -/
theorem Kept.runs (h : Kept n st s₀ s ino) (hacc : st.now.AcceptsAll x.requests) (hrun : x.Runs s out t) :
    out = st.now.transcript x.requests x.leave ∧ ∃ t₀ ino', Kept n (st.after x) t₀ t ino' := by
  obtain ⟨clock, fuel, rest, u, hclock, hrun, hb⟩ := hrun
  obtain ⟨u', ino', hrun', hhold, hsame⟩ := startUfs_spec hclock x.leave h.holding hacc rest
    (show x.requests.length < fuel + (x.requests.length + 1) by omega)
  rw [startUfs_more hrun, Except.ok.injEq, Prod.mk.injEq] at hrun'
  obtain ⟨rfl, rfl⟩ := hrun'
  obtain ⟨t₀, hkept⟩ := (h.ran hhold hsame).between hb
  exact ⟨rfl, t₀, ino', hkept⟩

/-- **All sessions**, by induction on them. -/
theorem Kept.sessions (hrun : Sessions xs s outs t) (h : Kept n st s₀ s ino) (hacc : st.AcceptsAll xs) :
    outs = st.transcripts xs ∧ ∃ t₀ ino', Kept n (st.run xs) t₀ t ino' := by
  induction hrun generalizing st s₀ ino with
  | nil s => exact ⟨rfl, s₀, ino, h⟩
  | cons hx _ ih =>
    obtain ⟨rfl, t₀, ino', hkept⟩ := h.runs hacc.1 hx
    obtain ⟨rfl, hrest⟩ := ih hkept hacc.2
    exact ⟨rfl, hrest⟩

/-- **Every session can be run**: the shell ends, and the volume can be mounted again. -/
theorem Kept.continues {clock : Nat → Nat} {fuel : Nat} {rs : List Request} (h : Kept n st s₀ s ino)
    (hacc : st.now.AcceptsAll rs) (hclock : ∀ k, clock k < 2 ^ 64) (hfuel : rs.length < fuel) (leave : Leave)
    (rest : List UInt8) : ∃ u, startUfs clock fuel (typed rs leave ++ rest) s = .ok (u, st.now.transcript rs leave) ∧
      ∀ b : Between, ∃ t, b.Step u t := by
  obtain ⟨u, ino', hrun, hhold, _⟩ := startUfs_spec hclock leave h.holding hacc rest hfuel
  obtain ⟨hremount, hcrash⟩ := hhold.serving.since.session.mounts h.holding.serving.low h.holding.serving.high
  refine ⟨u, hrun, fun b => ?_⟩
  cases b with
  | stay => exact ⟨_, rfl⟩
  | remount => exact hremount
  | crash => exact hcrash

/-- **The shell keeps its files**: on a volume that has just been formatted and mounted, sessions print what the files
demand, the volume holds these files after every one, also when the segment has been lost, and each next session that
the files accept can be run. -/
theorem sessions_refine (h : Roomy n) {disk : Nat → Block} {seg : Bytes} (hacc : Store.empty.AcceptsAll xs)
    (hrun : Sessions xs (State.fresh n disk seg) outs s) : outs = Store.empty.transcripts xs ∧
      (∃ ino, Contents (superblockInfo n).nrDregionBlocks s.vol (Store.empty.run xs).now ino) ∧
      ∀ rs leave, (Store.empty.run xs).now.AcceptsAll rs → ∀ clock : Nat → Nat, (∀ k, clock k < 2 ^ 64) →
        ∀ fuel, rs.length < fuel → ∀ rest, ∃ u, startUfs clock fuel (typed rs leave ++ rest) s =
          .ok (u, (Store.empty.run xs).now.transcript rs leave) ∧ ∀ b : Between, ∃ t, b.Step u t := by
  have hfresh : Kept n Store.empty (State.fresh n disk seg) (State.fresh n disk seg) fun _ => 0 :=
    .mounted_at h.low h.high (fresh_mountedOn h.low h.high disk seg) (fresh_inSession h.low h.high disk seg)
      (fresh_contents h disk seg _)
  obtain ⟨houts, s₀, ino, hkept⟩ := hfresh.sessions hrun hacc
  exact ⟨houts, ⟨ino, hkept.holding.contents⟩, fun rs leave hrs clock hclock fuel hfuel rest =>
    hkept.continues hrs hclock hfuel leave rest⟩

/-- A file is created and written, and the volume is mounted again. -/
def writeOld : Session where
  requests := [.create [(asciiWord "a" (by decide) (by decide))],
    .write (asciiWord "a" (by decide) (by decide)) (asciiWord "old" (by decide) (by decide))]
  leave := .quit
  between := .remount

/-- The file is written again, and the segment is lost. -/
def writeNew : Session where
  requests := [.write (asciiWord "a" (by decide) (by decide)) (asciiWord "new" (by decide) (by decide))]
  leave := .q
  between := .crash

/-- A session that can be run is run. -/
theorem Session.exists_runs {x : Session} {s : State} {out : List Out} {fuel : Nat}
    (h : ∃ u, startUfs (fun _ => 0) fuel (typed x.requests x.leave ++ []) s = .ok (u, out) ∧
      ∀ b : Between, ∃ t, b.Step u t) : ∃ t, x.Runs s out t := by
  obtain ⟨u, hrun, hb⟩ := h
  obtain ⟨t, ht⟩ := hb x.between
  exact ⟨t, fun _ => 0, fuel, [], u, fun _ => Nat.pow_pos (by decide), hrun, ht⟩

/-- The file has its last text. -/
theorem sessions_refine_rewritten : ∃ outs s, Sessions [writeOld, writeNew] (blankVolume 4096) outs s ∧
    outs = Store.empty.transcripts [writeOld, writeNew] ∧
    ∃ t ino, t.read (asciiWord "a" (by decide) (by decide)) = some (some (asciiWord "new" (by decide) (by decide))) ∧
      Contents (superblockInfo 4096).nrDregionBlocks s.vol t ino := by
  have h4096 : Roomy 4096 := ⟨by decide, by decide, by decide, by decide⟩
  have hold : Store.empty.now.AcceptsAll writeOld.requests := by
    refine ⟨⟨?_, ?_, ?_⟩, ⟨?_, ?_⟩, trivial⟩ <;> decide
  have hnew : (Store.empty.after writeOld).now.AcceptsAll writeNew.requests := by
    refine ⟨⟨?_, ?_⟩, trivial⟩ <;> decide
  obtain ⟨_, _, hnext⟩ := @sessions_refine 4096 _ [] _ h4096 (fun _ _ => 0) (fun _ => 0) trivial (.nil _)
  obtain ⟨s, hs⟩ := Session.exists_runs (hnext _ writeOld.leave hold _ (fun _ => Nat.pow_pos (by decide)) _
    (Nat.lt_succ_self _) [])
  obtain ⟨_, _, hnext⟩ := @sessions_refine 4096 _ [writeOld] _ h4096 _ _ ⟨hold, trivial⟩ (.cons hs (.nil _))
  obtain ⟨t, ht⟩ := Session.exists_runs (hnext _ writeNew.leave hnew _ (fun _ => Nat.pow_pos (by decide)) _
    (Nat.lt_succ_self _) [])
  obtain ⟨houts, ⟨ino, hc⟩, _⟩ := @sessions_refine 4096 _ [writeOld, writeNew] _ h4096 _ _ ⟨hold, hnew, trivial⟩
    (.cons hs (.cons ht (.nil _)))
  exact ⟨_, t, .cons hs (.cons ht (.nil _)), houts, _, ino, by decide, hc⟩

end Vsfs
