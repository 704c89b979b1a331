import Vsfs.Shell.Commands

/-!
# The shell refines its purpose

- `round_spec`: one request, from the prompt to the next one;
- `leave_spec`: the last line;
- `shellLoop_spec`, `startUfs_spec`: a whole run of the shell prints the transcript of the tree and leaves the files that
  it asks for.
-/

set_option autoImplicit false

namespace Vsfs

open Function ByteSeq

variable {n : Nat} {s₀ s : State} {tr : Tree} {ino : Word → Nat} {clock : Nat → Nat} {sh : Shell}
  {gap behind rest : List UInt8} {r : Request} {cmd : Option CStr}

/-! ## Reading a command -/

/-- The text of a command; `unknown` has none of its own. -/
def Cmd.word : Cmd → Word
  | .create => asciiWord "create" (by decide) (by decide)
  | .help => asciiWord "help" (by decide) (by decide)
  | .ls => asciiWord "ls" (by decide) (by decide)
  | .pwd => asciiWord "pwd" (by decide) (by decide)
  | .print => asciiWord "p" (by decide) (by decide)
  | .quit => asciiWord "quit" (by decide) (by decide)
  | .rm => asciiWord "rm" (by decide) (by decide)
  | .read => asciiWord "read" (by decide) (by decide)
  | .stat => asciiWord "stat" (by decide) (by decide)
  | .write => asciiWord "write" (by decide) (by decide)
  | .unknown => asciiWord "?" (by decide) (by decide)

theorem switchCmd_word (c : Cmd) : switchCmd c.word.cstr = c := by cases c <;> decide

theorem Cmd.word_short (c : Cmd) : c.word.chars.length < 10 := by cases c <;> decide

theorem switchCmd_unknown {w : CStr} (h : ∀ e, e ∈ commands → w.chars ≠ ascii e.1) : switchCmd w = .unknown := by
  rw [switchCmd_eq, List.find?_eq_none.mpr fun e he => by simpa [CStr.is] using h e he]
  rfl

/-- A round whose command is `w`. -/
theorem shellRound_word {w : Word} (cmd : Option CStr) (hg : Blank gap) (hs : Stops behind)
    (hin : sh.stdin = gap ++ (w.chars ++ behind)) (hl : w.chars.length < 10) : shellRound clock cmd sh = (do
      let (ends, sh) ← runCmd clock w.cstr ⟨sh.fs, behind, sh.out ++ promptOut, sh.calls⟩
      .ok (ends, some w.cstr, sh)) := by
  unfold shellRound
  simp only [Shell.print, hin, scanWord_word w hg hs, storeStr_word w hl, ExceptLib.ok_bind]

/-! ## Requests -/

/-- What a round comes to: the input up to the next request is read, the reply is printed, and the state holds the
tree that the request asks for. -/
def RoundDone (n : Nat) (s₀ : State) (tr : Tree) (ino : Word → Nat) (clock : Nat → Nat) (cmd : Option CStr) (sh : Shell)
    (r : Request) (rest : List UInt8) : Prop :=
  ∃ fs k ino' gap' cmd', shellRound clock cmd sh =
      .ok (false, cmd', ⟨fs, gap' ++ rest, sh.out ++ (promptOut ++ tr.reply r), k⟩) ∧
    Blank gap' ∧ Holding n s₀ (tr.after r) ino' fs ∧ ∀ a, a ∈ tr.names → ino' a = ino a

/-- From the command to the round. -/
theorem RoundDone.of_run (w : Word) (gap' : List UInt8) (k : Nat) {fs : State} {ino' : Word → Nat} (hg : Blank gap)
    (hs : Stops behind) (hin : sh.stdin = gap ++ (w.chars ++ behind)) (hl : w.chars.length < 10)
    (hrun : runCmd clock w.cstr ⟨sh.fs, behind, sh.out ++ promptOut, sh.calls⟩ =
      .ok (false, ⟨fs, gap' ++ rest, sh.out ++ promptOut ++ tr.reply r, k⟩))
    (hg' : Blank gap') (h : Holding n s₀ (tr.after r) ino' fs) (hsame : ∀ a, a ∈ tr.names → ino' a = ino a) :
    RoundDone n s₀ tr ino clock cmd sh r rest := by
  refine ⟨fs, k, ino', gap', some w.cstr, ?_, hg', h, hsame⟩
  rw [shellRound_word cmd hg hs hin hl, hrun, ExceptLib.ok_bind, List.append_assoc]

/-- **An unknown command**: the rest of its line is dropped. -/
theorem unknownCmd_spec {w : Word} {args : List UInt8} (hl : args.length < 256) (hnl : (10 : UInt8) ∉ args)
    (hin : sh.stdin = args ++ 10 :: rest) : unknownCmd w.cstr sh =
      .ok ⟨sh.fs, rest, sh.out ++ tr.reply (.unknown w args), sh.calls⟩ := by
  unfold unknownCmd
  simp only [Shell.print, hin]
  by_cases h : args = []
  · subst h
    rw [List.nil_append, scanLine_empty]
    rfl
  · rw [scanLine_chars h hnl]
    simp only [storeStr, if_pos hl, ExceptLib.ok_bind]
    rfl

/-- **One round** of the shell. -/
theorem round_spec (hclock : ∀ k, clock k < 2 ^ 64) (h : Holding n s₀ tr ino sh.fs) (hacc : tr.Accepts r)
    (hg : Blank gap) (hin : sh.stdin = gap ++ (r.line ++ rest)) : RoundDone n s₀ tr ino clock cmd sh r rest := by
  have hnl : Stops (10 :: rest) := stops_cons rfl rest
  have hsp : ∀ l, Stops (32 :: l) := fun l => stops_cons rfl l
  cases r with
  | create names =>
    simp only [Request.line, List.append_assoc, List.singleton_append] at hin
    obtain ⟨fs, k, ino', hrun, hhold, hsame⟩ := @cmdCreate_spec n s₀ tr ino clock
      ⟨sh.fs, nameArgs names ++ 10 :: rest, sh.out ++ promptOut, sh.calls⟩ rest hclock names h hacc rfl
    have hstops : Stops (nameArgs names ++ 10 :: rest) := by
      cases names with
      | nil => exact absurd rfl hacc.1
      | cons w names => exact hsp _
    refine .of_run Cmd.create.word [] k hg hstops hin (Cmd.word_short _) ?_ blank_nil hhold hsame
    unfold runCmd
    rw [switchCmd_word]
    dsimp only
    rw [hrun]
    simp
  | write name text =>
    simp only [Request.line, List.append_assoc, List.cons_append, List.nil_append] at hin
    obtain ⟨fs, k, hrun, hhold⟩ := @cmdWrite_spec n s₀ tr ino name text clock
      ⟨sh.fs, 32 :: (name.chars ++ 32 :: (text.chars ++ 10 :: rest)), sh.out ++ promptOut, sh.calls⟩ (10 :: rest) hclock
      (32 :: (text.chars ++ 10 :: rest)) h hacc ⟨hsp _, [32], blank_space, rfl⟩ ⟨hnl, [32], blank_space, rfl⟩
    refine .of_run Cmd.write.word [10] k hg (hsp _) hin (Cmd.word_short _) ?_ blank_newline hhold
      fun _ _ => rfl
    unfold runCmd
    rw [switchCmd_word]
    dsimp only
    rw [hrun]
    simp
  | writeTo name =>
    simp only [Request.line, List.append_assoc, List.cons_append, List.nil_append] at hin
    obtain ⟨fs, k, hrun, hhold⟩ := @cmdWrite_missing n s₀ tr ino name clock
      ⟨sh.fs, 32 :: (name.chars ++ 10 :: rest), sh.out ++ promptOut, sh.calls⟩ (10 :: rest) hclock h hacc
      ⟨hnl, [32], blank_space, rfl⟩
    refine .of_run Cmd.write.word [10] k hg (hsp _) hin (Cmd.word_short _) ?_ blank_newline hhold
      fun _ _ => rfl
    unfold runCmd
    rw [switchCmd_word]
    dsimp only
    rw [hrun]
    simp
  | read name =>
    simp only [Request.line, List.append_assoc, List.cons_append, List.nil_append] at hin
    obtain ⟨fs, k, hrun, hhold⟩ := @cmdRead_spec n s₀ tr ino name clock
      ⟨sh.fs, 32 :: (name.chars ++ 10 :: rest), sh.out ++ promptOut, sh.calls⟩ (10 :: rest) hclock h hacc
      ⟨hnl, [32], blank_space, rfl⟩
    refine .of_run Cmd.read.word [10] k hg (hsp _) hin (Cmd.word_short _) ?_ blank_newline hhold
      fun _ _ => rfl
    unfold runCmd
    rw [switchCmd_word]
    dsimp only
    rw [hrun]
    simp
  | ls =>
    simp only [Request.line, List.append_assoc, List.singleton_append] at hin
    refine .of_run Cmd.ls.word [10] sh.calls hg hnl hin (Cmd.word_short _) ?_ blank_newline h fun _ _ => rfl
    unfold runCmd
    rw [switchCmd_word]
    dsimp only
    rw [cmdLs_tree h]
    rfl
  | pwd =>
    simp only [Request.line, List.append_assoc, List.singleton_append] at hin
    refine .of_run Cmd.pwd.word [10] sh.calls hg hnl hin (Cmd.word_short _) ?_ blank_newline h fun _ _ => rfl
    unfold runCmd
    rw [switchCmd_word]
    rfl
  | help =>
    simp only [Request.line, List.append_assoc, List.singleton_append] at hin
    refine .of_run Cmd.help.word [10] sh.calls hg hnl hin (Cmd.word_short _) ?_ blank_newline h fun _ _ => rfl
    unfold runCmd
    rw [switchCmd_word]
    rfl
  | rm =>
    simp only [Request.line, List.append_assoc, List.singleton_append] at hin
    refine .of_run Cmd.rm.word [32] sh.calls hg (hsp _) hin (Cmd.word_short _) ?_ blank_space h fun _ _ => rfl
    unfold runCmd
    rw [switchCmd_word]
    simp [Tree.reply]
  | stat =>
    simp only [Request.line, List.append_assoc, List.singleton_append] at hin
    refine .of_run Cmd.stat.word [32] sh.calls hg (hsp _) hin (Cmd.word_short _) ?_ blank_space h fun _ _ => rfl
    unfold runCmd
    rw [switchCmd_word]
    simp [Tree.reply]
  | unknown w args =>
    obtain ⟨hshort, hnot, hl, hno, hstops⟩ := hacc
    simp only [Request.line, List.append_assoc, List.singleton_append] at hin
    have hbehind : Stops (args ++ 10 :: rest) := by
      cases args with
      | nil => exact hnl
      | cons c args => exact hstops
    refine .of_run w [] sh.calls hg hbehind hin hshort ?_ blank_nil h fun _ _ => rfl
    unfold runCmd
    rw [switchCmd_unknown hnot]
    dsimp only
    rw [@unknownCmd_spec tr ⟨sh.fs, args ++ 10 :: rest, sh.out ++ promptOut, sh.calls⟩ rest w args hl hno rfl]
    rfl

/-! ## Runs -/

/-- **The last line** ends the shell. -/
theorem leave_spec (leave : Leave) (hg : Blank gap) (hin : sh.stdin = gap ++ (leave.line ++ rest)) :
    ∃ stdin cmd', shellRound clock cmd sh =
      .ok (true, cmd', ⟨sh.fs, stdin, sh.out ++ (promptOut ++ leave.reply), sh.calls⟩) := by
  have hnl : Stops (10 :: rest) := stops_cons rfl rest
  cases leave with
  | quit =>
    simp only [Leave.line, List.append_assoc, List.singleton_append] at hin
    refine ⟨10 :: rest, some Cmd.quit.word.cstr, ?_⟩
    rw [@shellRound_word clock sh gap _ Cmd.quit.word cmd hg hnl hin (Cmd.word_short _)]
    unfold runCmd
    rw [switchCmd_word]
    simp [Leave.reply]
  | q =>
    simp only [Leave.line, List.append_assoc, List.singleton_append] at hin
    have hq : switchCmd (Word.cstr (asciiWord "q" (by decide) (by decide))) = .quit := by decide
    refine ⟨10 :: rest, some (Word.cstr (asciiWord "q" (by decide) (by decide))), ?_⟩
    rw [@shellRound_word clock sh gap _ (asciiWord "q" (by decide) (by decide)) cmd hg hnl hin (by decide)]
    unfold runCmd
    rw [hq]
    simp [Leave.reply]
  | create =>
    simp only [Leave.line, List.append_assoc, List.singleton_append] at hin
    refine ⟨rest, some Cmd.create.word.cstr, ?_⟩
    rw [@shellRound_word clock sh gap _ Cmd.create.word cmd hg hnl hin (Cmd.word_short _)]
    unfold runCmd
    rw [switchCmd_word]
    dsimp only
    unfold cmdCreate
    simp [scanLine_empty, Leave.reply, Shell.print]

/-- **The loop of the shell**, by induction on the requests. -/
theorem shellLoop_spec (hclock : ∀ k, clock k < 2 ^ 64) (rs : List Request) (leave : Leave) {fuel : Nat}
    {cmd : Option CStr} {sh : Shell} (h : Holding n s₀ tr ino sh.fs) (hacc : tr.AcceptsAll rs) (hg : Blank gap)
    (hin : sh.stdin = gap ++ (typed rs leave ++ rest)) (hfuel : rs.length < fuel) :
    ∃ fs k ino' stdin, shellLoop clock fuel cmd sh = .ok ⟨fs, stdin, sh.out ++ tr.transcript rs leave, k⟩ ∧
      Holding n s₀ (tr.run rs) ino' fs ∧ ∀ a, a ∈ tr.names → ino' a = ino a := by
  induction rs generalizing fuel cmd sh tr ino gap with
  | nil =>
    obtain ⟨fuel, rfl⟩ := Nat.exists_eq_add_of_lt hfuel
    obtain ⟨stdin, cmd', hrun⟩ := @leave_spec clock sh gap rest cmd leave hg hin
    refine ⟨sh.fs, sh.calls, ino, stdin, ?_, h, fun _ _ => rfl⟩
    unfold shellLoop
    rw [hrun]
    rfl
  | cons r rs ih =>
    obtain ⟨m, rfl⟩ : ∃ m, fuel = m + 1 := ⟨fuel - 1, by omega⟩
    rw [List.length_cons] at hfuel
    simp only [typed, List.flatMap_cons, List.append_assoc] at hin
    obtain ⟨fs, k, ino₁, gap', cmd', hrun, hg', hhold, hsame⟩ := @round_spec n s₀ tr ino clock sh gap
      (typed rs leave ++ rest) r cmd hclock h hacc.1 hg (by rw [hin, typed, List.append_assoc])
    obtain ⟨fs', k', ino₂, stdin, hloop, hhold', hsame'⟩ := @ih (tr.after r) ino₁ gap' m cmd'
      ⟨fs, gap' ++ (typed rs leave ++ rest), sh.out ++ (promptOut ++ tr.reply r), k⟩ hhold hacc.2 hg' rfl (by omega)
    refine ⟨fs', k', ino₂, stdin, ?_, hhold', fun a ha => ?_⟩
    · unfold shellLoop
      rw [hrun, ExceptLib.ok_bind]
      dsimp only
      rw [if_neg Bool.false_ne_true, hloop]
      simp [Tree.transcript]
    · rw [hsame' a ((tr.names_after r).subset ha), hsame a ha]

/-- **A run of the shell** refines the run of the tree. -/
theorem startUfs_spec (hclock : ∀ k, clock k < 2 ^ 64) {rs : List Request} (leave : Leave) {fuel : Nat}
    (h : Holding n s₀ tr ino s) (hacc : tr.AcceptsAll rs) (rest : List UInt8) (hfuel : rs.length < fuel) :
    ∃ t ino', startUfs clock fuel (typed rs leave ++ rest) s = .ok (t, tr.transcript rs leave) ∧
      Holding n s₀ (tr.run rs) ino' t ∧ ∀ a, a ∈ tr.names → ino' a = ino a := by
  obtain ⟨t, k, ino', stdin, hrun, hhold, hsame⟩ := @shellLoop_spec n s₀ tr ino clock [] rest hclock rs leave fuel none
    ⟨s, typed rs leave ++ rest, [], 0⟩ h hacc blank_nil rfl hfuel
  refine ⟨t, ino', ?_, hhold, hsame⟩
  unfold startUfs
  rw [hrun, ExceptLib.ok_bind, List.nil_append]

end Vsfs
