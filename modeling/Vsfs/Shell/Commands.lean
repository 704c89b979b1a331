import Vsfs.Shell.Files
import Vsfs.Volume.Listing
import Vsfs.Volume.Rounds

/-!
# The commands

Each command of the shell, on a state that holds a tree: what it prints, what it leaves of the input, and that the
state after it holds the tree that the request asks for.

- `createEach_spec`, `cmdCreate_spec`: the loop over the names;
- `cmdWrite_spec`, `cmdRead_spec`: a file, and a name that no file has;
- `cmdLs_tree`: the listing.
-/

set_option autoImplicit false

namespace Vsfs

open Function ByteSeq

variable {n : Nat} {s₀ s : State} {tr : Tree} {ino : Word → Nat} {name text : Word} {clock : Nat → Nat}
  {sh : Shell} {gap rest : List UInt8}

/-- A state between two commands that holds a tree. -/
structure Holding (n : Nat) (s₀ : State) (tr : Tree) (ino : Word → Nat) (s : State) : Prop where
  serving : Serving n s₀ s
  contents : Contents (superblockInfo n).nrDregionBlocks s.vol tr ino
  idle : Idle s

/-- The next word of the input is `w`, and `rest` is behind it. -/
structure Shell.Reads (sh : Shell) (w : Word) (rest : List UInt8) : Prop where
  stops : Stops rest
  input : ∃ gap, Blank gap ∧ sh.stdin = gap ++ (w.chars ++ rest)

theorem Shell.Reads.scan {size : Nat} {w : Word} (h : sh.Reads w rest) (hl : w.chars.length < size) :
    sh.scan size = .ok (w.cstr, { sh with stdin := rest }) := by
  obtain ⟨hs, gap, hg, hin⟩ := h
  unfold Shell.scan
  rw [hin, scanWord_word w hg hs]
  simp only [storeStr_word w hl, ExceptLib.ok_bind]

theorem Shell.Reads.scanBlock {w : Word} (h : sh.Reads w rest) (hl : w.chars.length < blockSize) :
    sh.scanBlock = .ok (fun k => w.chars.getD k 0, { sh with stdin := rest }) := by
  obtain ⟨hs, gap, hg, hin⟩ := h
  unfold Shell.scanBlock
  rw [hin, scanWord_word w hg hs]
  simp only [if_pos hl]

/-- A buffer that holds a word and zeros behind it is printed as the word. -/
theorem bufferText_word {b : Bytes} (w : Word) (hl : w.chars.length < blockSize)
    (hb : ∀ k, k < blockSize → b k = w.chars.getD k 0) : bufferText b = .ok w.chars := by
  have htext : textAt b blockSize 0 = w.chars := (strAt_iff_textAt hl w.noNul).mp
    (strAt_of_mem fun k hk => by rw [Nat.zero_add]; exact hb k (by omega))
  unfold bufferText
  simp only [htext, if_pos hl]

/-! ## `create` -/

/-- **The loop of `cmd_create`** over the names. -/
theorem createEach_spec (hclock : ∀ k, clock k < 2 ^ 64) (names : List Word) {sh : Shell}
    (h : Holding n s₀ tr ino sh.fs) (hlen : (names.foldl Tree.create tr).files.length ≤ 14) :
    ∃ fs k ino', createEach clock (names.map Word.chars) sh =
        .ok ⟨fs, sh.stdin, sh.out ++ tr.reply (.create names), k⟩ ∧
      Holding n s₀ (names.foldl Tree.create tr) ino' fs ∧ ∀ a, a ∈ tr.names → ino' a = ino a := by
  induction names generalizing tr ino sh with
  | nil => exact ⟨sh.fs, sh.calls, ino, by simp [createEach, Tree.reply, Tree.createReply], h, fun _ _ => rfl⟩
  | cons w names ih =>
    rw [List.foldl_cons] at hlen ⊢
    have hstep : (tr.create w).files.length ≤ 14 := (Tree.length_le_foldl _ names).trans hlen
    obtain ⟨ret, fs, ino₁, htexts, hrun, hserve, hidle, hc, hsame⟩ := h.serving.creat h.contents h.idle
      (hclock sh.calls) hstep
    obtain ⟨fs', k, ino₂, hrest, hhold, hsame'⟩ := @ih (tr.create w) ino₁
      (Shell.called (sh.print [.text "creating ", .str w.chars, .text "\n"]) (tr.refusal w) fs) ⟨hserve, hc, hidle⟩ hlen
    refine ⟨fs', k, ino₂, ?_, hhold, fun a ha => ?_⟩
    · rw [List.map_cons]
      unfold createEach
      simp only [cstr_word, Shell.print, htexts, hrun, ExceptLib.ok_bind]
      simp only [Shell.print] at hrest
      rw [hrest]
      simp [Shell.called, Shell.say, Shell.print, Tree.reply, Tree.createReply]
    · rw [hsame' a ((tr.names_create w).subset ha), hsame a ha]

/-- **`cmd_create`**. -/
theorem cmdCreate_spec (hclock : ∀ k, clock k < 2 ^ 64) {names : List Word} (h : Holding n s₀ tr ino sh.fs)
    (hacc : tr.Accepts (.create names)) (hin : sh.stdin = nameArgs names ++ 10 :: rest) :
    ∃ fs k ino', cmdCreate clock sh = .ok (0, ⟨fs, rest, sh.out ++ tr.reply (.create names), k⟩) ∧
      Holding n s₀ (tr.after (.create names)) ino' fs ∧ ∀ a, a ∈ tr.names → ino' a = ino a := by
  obtain ⟨hne, hfit, hlen⟩ := hacc
  have hargs : nameArgs names ≠ [] := by
    cases names with
    | nil => contradiction
    | cons w names => simp [nameArgs]
  have hnl : (10 : UInt8) ∉ nameArgs names := nameArgs_not_mem names (Or.inr rfl) fun w _ => w.not_mem rfl
  have h0 : (0 : UInt8) ∉ nameArgs names := nameArgs_not_mem names (Or.inl rfl) fun w _ => w.noNul
  obtain ⟨fs, k, ino', hrun, hhold⟩ := @createEach_spec n s₀ tr ino clock hclock names { sh with stdin := rest } h hlen
  refine ⟨fs, k, ino', ?_, hhold⟩
  unfold cmdCreate
  rw [hin, scanLine_chars hargs hnl]
  simp only [storeStr_noNul h0 hfit, ExceptLib.ok_bind, strtok_words, List.drop_one, List.tail_cons, hrun]

/-! ## `write` -/

/-- **`cmd_write`** of a text to a file. -/
theorem cmdWrite_spec (hclock : ∀ k, clock k < 2 ^ 64) {rest' : List UInt8} (h : Holding n s₀ tr ino sh.fs)
    (hacc : tr.Accepts (.write name text)) (hname : sh.Reads name rest')
    (htext : Shell.Reads { sh with stdin := rest' } text rest) :
    ∃ fs k, cmdWrite clock sh = .ok ⟨fs, rest, sh.out ++ tr.reply (.write name text), k⟩ ∧
      Holding n s₀ (tr.after (.write name text)) ino fs := by
  obtain ⟨hmem, hlen⟩ := hacc
  obtain ⟨old, hfile⟩ := exists_file hmem
  have hshort : name.chars.length < 1000 := Nat.lt_of_lt_of_le (Tree.isName hmem).1 (by decide)
  obtain ⟨s₁, f, hopen, hserve₁, hone₁, hc₁, _⟩ := h.serving.open h.contents h.idle (hclock sh.calls) hfile
  obtain ⟨s₂, g, r, hwrite, hr, hserve₂, hone₂, hc₂⟩ := hserve₁.write hc₁ (hclock (sh.calls + 1)) hfile hone₁ hlen
  obtain ⟨s₃, hclose, hserve₃, hidle, hc₃⟩ := hserve₂.close hc₂ hone₂
  refine ⟨s₃, sh.calls + 1 + 1, ?_, ⟨hserve₃, hc₃, hidle⟩⟩
  have hblock : Shell.scanBlock (Shell.print (Shell.called { sh with stdin := rest' } [] s₁) [.text "writing:\n"]) =
      .ok (fun k => text.chars.getD k 0,
        Shell.print (Shell.called { sh with stdin := rest } [] s₁) [.text "writing:\n"]) :=
    Shell.Reads.scanBlock ⟨htext.stops, htext.input⟩ hlen
  -- none of the calls fails, so none prints
  have hopenPrints : vsfsOpenPrints name.cstr sh.fs = .ok [] :=
    prints_silent (c := .open name.cstr oRdwr) hopen (by decide)
  have hwritePrints : vsfsWritePrints 1 4096 s₁ = .ok [] :=
    prints_silent (c := .write 1 (fun k => text.chars.getD k 0) 4096) hwrite hr
  have hclosePrints : vsfsClosePrints 1 s₂ = .ok [] :=
    prints_silent (show Call.run 0 (.close 1) s₂ = .ok (0, s₃) from hclose) (by decide)
  unfold cmdWrite
  rw [hname.scan hshort, ExceptLib.ok_bind]
  dsimp only
  rw [hopenPrints, ExceptLib.ok_bind, hopen, ExceptLib.ok_bind]
  dsimp only
  rw [if_neg (by decide), hblock, ExceptLib.ok_bind]
  dsimp only
  rw [bufferText_word text hlen fun k _ => rfl, ExceptLib.ok_bind]
  simp only [Shell.print, Shell.called, Shell.say, hwritePrints, hwrite, ExceptLib.ok_bind, hclosePrints, hclose]
  simp [Tree.reply]

/-- What the commands do with a name that no file has. -/
theorem Holding.missing (hclock : ∀ k, clock k < 2 ^ 64) (h : Holding n s₀ tr ino s) (hmem : name ∉ tr.names)
    (h1 : name.cstr ≠ dotName) (h2 : name.cstr ≠ dotDotName) (k : Nat) :
    ∃ t, vsfsOpenPrints name.cstr s = .ok [name.missing] ∧ vsfsOpen (clock k) name.cstr oRdwr s = .ok (-1, t) ∧
      Holding n s₀ tr ino t := by
  obtain ⟨t, htexts, hrun, hserve, hidle, hc⟩ := h.serving.open_missing h.contents h.idle (hclock k) hmem h1 h2
  exact ⟨t, htexts, hrun, hserve, hc, hidle⟩

/-- **`cmd_write`** to a name that no file has. -/
theorem cmdWrite_missing (hclock : ∀ k, clock k < 2 ^ 64) (h : Holding n s₀ tr ino sh.fs)
    (hacc : tr.Accepts (.writeTo name)) (hname : sh.Reads name rest) :
    ∃ fs k, cmdWrite clock sh = .ok ⟨fs, rest, sh.out ++ tr.reply (.writeTo name), k⟩ ∧ Holding n s₀ tr ino fs := by
  obtain ⟨hmem, hlen, h1, h2⟩ := hacc
  obtain ⟨t, htexts, hopen, hhold⟩ := h.missing hclock hmem h1 h2 sh.calls
  refine ⟨t, sh.calls + 1, ?_, hhold⟩
  unfold cmdWrite
  rw [hname.scan hlen, ExceptLib.ok_bind]
  dsimp only
  rw [htexts, ExceptLib.ok_bind, hopen, ExceptLib.ok_bind]
  simp [Tree.reply, Shell.called, Shell.say, Shell.print]

/-! ## `read` -/

/-- At the end of the file `vsfs_read` returns `EOF`. -/
theorem OneOpen.read_end {i o now : Nat} {f : File} {buf : Bytes} (h : OneOpen s i o f) (hi : i < nrInodes)
    (hf : f.size = o) (ho : o < 2 ^ 64) : ∃ t, vsfsRead now 1 buf 4096 s = .ok (-1, buf, t) ∧
      OneOpen t i o { f with atime := now } ∧ Touched s.vol t.vol := by
  have hr : readDblock { f with atime := now } o 4096 buf (s.vol.modInode i fun x => { x with atime := now }) =
      .ok (-1, 0, buf) := by
    unfold readDblock
    rw [if_pos hf]
  obtain ⟨t, hrun, hopen, ht⟩ := h.read hi hr
  rw [Nat.add_zero, Nat.mod_eq_of_lt ho] at hopen
  exact ⟨t, hrun, hopen, ht⟩

/-- A file of one block is read in one call. -/
theorem OneOpen.read_block {i now : Nat} {f : File} {buf : Bytes} (h : OneOpen s i 0 f) (hi : i < nrInodes)
    (hf : Copied s.vol i f) (hb : (s.vol.inode i).blocks = 1) (hs : (s.vol.inode i).size = 4096) :
    ∃ buf' t, vsfsRead now 1 buf 4096 s = .ok (4096, buf', t) ∧ OneOpen t i 4096 { f with atime := now } ∧
      Touched s.vol t.vol ∧ ∀ k, k < 4096 → buf' k = s.vol.byteAt i k := by
  have hsize : f.size = 4096 := by
    rw [hf.size]
    unfold Inode.fileSize
    rw [hs, if_neg (by omega)]
  have hfirst : f.block[0]? = some ((s.vol.inode i).l1 0) := hf.first (by omega)
  obtain ⟨buf', hr, hbuf⟩ := @readDblock_page (s.vol.modInode i fun x => { x with atime := now })
    { f with atime := now } ((s.vol.inode i).l1 0) 0 4096 (by decide) (by decide) (by decide) (by decide) buf
    (by show 0 + 4096 ≤ f.size; omega) (by show 0 / 4096 < f.blocks; rw [hf.blocks, hb]; decide) hfirst
  obtain ⟨t, hrun, hopen, ht⟩ := h.read hi hr
  refine ⟨buf', t, hrun, hopen, ht, fun k hk => (hbuf k hk).trans ?_⟩
  unfold Volume.byteAt Paged.cell Volume.page
  rw [show k / 4096 = 0 by omega, Nat.mod_eq_of_lt hk]
  rfl

/-- `vsfs_read` prints nothing of an open file, also at its end. -/
theorem OneOpen.read_prints {i o : Nat} {f : File} (h : OneOpen s i o f) : vsfsReadPrints 1 s = .ok [] := by
  obtain ⟨a, hfind, -⟩ := h.openOn
  have hmode : (oneNode i).accessMode = .ok oRdwr := rfl
  unfold vsfsReadPrints
  rw [if_neg (by simp [h.opCounter]), hfind, ExceptLib.ok_bind]
  dsimp only
  rw [hmode, ExceptLib.ok_bind]
  rfl

/-- **`vsfs_read`** of the shell: it changes time stamps and the offset only. -/
theorem Serving.read {now : Nat} {buf buf' : Bytes} {r : Int} {t : State} (h : Serving n s₀ s)
    (hc : Contents (superblockInfo n).nrDregionBlocks s.vol tr ino) (hn : now < 2 ^ 64)
    (hrun : vsfsRead now 1 buf 4096 s = .ok (r, buf', t)) :
    Serving n s₀ t ∧ Contents (superblockInfo n).nrDregionBlocks t.vol tr ino := by
  have hstep : Step (.read 1 buf 4096) s t := by
    refine ⟨now, r, hn, ?_⟩
    unfold Call.run
    dsimp only
    rw [hrun]
    rfl
  exact ⟨h.quiet hstep (fun _ _ hcall => (by cases hcall)) (fun _ _ _ hcall => (by cases hcall))
    fun _ _ _ hcall => (by cases hcall), hc.touched (read_touched hrun)⟩

/-- **The loop of `cmd_read`**: one block, if the file has been written, and the end of the file. -/
theorem readAll_spec (hclock : ∀ k, clock k < 2 ^ 64) {old : Option Word} {f : File} {src : Bytes} (m : Nat)
    (hserve : Serving n s₀ sh.fs) (hc : Contents (superblockInfo n).nrDregionBlocks sh.fs.vol tr ino)
    (hmem : (name, old) ∈ tr.files) (hopen : OneOpen sh.fs (ino name) 0 f) (hf : Copied sh.fs.vol (ino name) f) :
    ∃ fs k g o, readAll clock 1 (m + 2) src sh =
        .ok ⟨fs, sh.stdin, sh.out ++ old.toList.map (fun w => .str w.chars), k⟩ ∧
      Serving n s₀ fs ∧ Contents (superblockInfo n).nrDregionBlocks fs.vol tr ino ∧ OneOpen fs (ino name) o g := by
  obtain ⟨_, hlt⟩ := hc.inode name (mem_names hmem)
  have hheld := hc.held _ hmem
  cases old with
  | none =>
    have hsize : f.size = 0 := hf.size.trans hheld.fileSize
    obtain ⟨t, hrun, hone, _⟩ := @OneOpen.read_end sh.fs _ _ (clock sh.calls) _ src hopen hlt hsize (by decide)
    obtain ⟨hserve', hc'⟩ := hserve.read hc (hclock sh.calls) hrun
    refine ⟨t, sh.calls + 1, _, _, ?_, hserve', hc', hone⟩
    unfold readAll
    rw [hopen.read_prints, ExceptLib.ok_bind, hrun, ExceptLib.ok_bind]
    simp [Shell.called, Shell.say, Shell.print]
  | some text =>
    obtain ⟨hb, hs, hlen, hbytes⟩ := hheld
    obtain ⟨buf', s₁, hrun₁, hone₁, ht₁, hbuf⟩ := @OneOpen.read_block sh.fs _ (clock sh.calls) _ src hopen hlt hf hb hs
    obtain ⟨hserve₁, hc₁⟩ := hserve.read hc (hclock sh.calls) hrun₁
    have hsize : f.size = 4096 := by
      rw [hf.size]
      unfold Inode.fileSize
      rw [hs, if_neg (by omega)]
    obtain ⟨s₂, hrun₂, hone₂, _⟩ := @OneOpen.read_end s₁ _ _ (clock (sh.calls + 1)) _ buf' hone₁ hlt hsize (by decide)
    obtain ⟨hserve₂, hc₂⟩ := hserve₁.read hc₁ (hclock (sh.calls + 1)) hrun₂
    have htext : bufferText buf' = .ok text.chars :=
      bufferText_word text hlen fun k hk => (hbuf k hk).trans (hbytes k hk)
    refine ⟨s₂, sh.calls + 1 + 1, _, _, ?_, hserve₂, hc₂, hone₂⟩
    unfold readAll
    rw [hopen.read_prints, ExceptLib.ok_bind, hrun₁, ExceptLib.ok_bind]
    dsimp only
    rw [if_neg (by decide), htext, ExceptLib.ok_bind]
    unfold readAll
    simp only [Shell.print, Shell.called, Shell.say, hone₁.read_prints, hrun₂, ExceptLib.ok_bind]
    simp

/-- **`cmd_read`**. -/
theorem cmdRead_spec (hclock : ∀ k, clock k < 2 ^ 64) (h : Holding n s₀ tr ino sh.fs)
    (hacc : tr.Accepts (.read name)) (hname : sh.Reads name rest) :
    ∃ fs k, cmdRead clock sh = .ok ⟨fs, rest, sh.out ++ tr.reply (.read name), k⟩ ∧ Holding n s₀ tr ino fs := by
  obtain ⟨hlen, h1, h2⟩ := hacc
  by_cases hmem : name ∈ tr.names
  · obtain ⟨old, hfile⟩ := exists_file hmem
    obtain ⟨s₁, f, hopen, hserve₁, hone₁, hc₁, hcopy₁⟩ := h.serving.open h.contents h.idle (hclock sh.calls) hfile
    obtain ⟨s₂, hseek, hone₂, hvol₂⟩ := hone₁.rewind
    have hserve₂ : Serving n s₀ s₂ := by
      refine hserve₁.quiet (c := .lseek 1 0 seekSet) ⟨0, 0, by decide, ?_⟩ (fun _ _ hcall => (by cases hcall))
        (fun _ _ _ hcall => (by cases hcall)) fun _ _ _ hcall => (by cases hcall; rfl)
      unfold Call.run
      dsimp only
      rw [hseek]
      rfl
    obtain ⟨m, hm⟩ : ∃ m, 2 ^ 64 = m + 2 := ⟨2 ^ 64 - 2, by omega⟩
    have hopenPrints : vsfsOpenPrints name.cstr sh.fs = .ok [] :=
      prints_silent (c := .open name.cstr oRdwr) hopen (by decide)
    have hseekPrints : vsfsLseekPrints 1 0 seekSet s₁ = .ok [] := by
      have hrun : Call.run 0 (.lseek 1 0 seekSet) s₁ = .ok (0, s₂) := by
        unfold Call.run
        dsimp only
        rw [hseek]
        rfl
      exact prints_silent hrun (by decide)
    obtain ⟨s₃, k, g, o, hall, hserve₃, hc₃, hone₃⟩ := @readAll_spec n s₀ tr ino name clock
      ⟨s₂, rest, sh.out ++ [.text "reading:\n"], sh.calls + 1⟩ hclock old f (fun _ => 0) m hserve₂
      (by rw [hvol₂]; exact hc₁) hfile hone₂ (by rw [hvol₂]; exact hcopy₁)
    obtain ⟨s₄, hclose, hserve₄, hidle, hc₄⟩ := hserve₃.close hc₃ hone₃
    have hclosePrints : vsfsClosePrints 1 s₃ = .ok [] :=
      prints_silent (show Call.run 0 (.close 1) s₃ = .ok (0, s₄) from hclose) (by decide)
    refine ⟨s₄, k, ?_, ⟨hserve₄, hc₄, hidle⟩⟩
    unfold cmdRead
    rw [hname.scan hlen, ExceptLib.ok_bind]
    dsimp only
    rw [hopenPrints, ExceptLib.ok_bind, hopen, ExceptLib.ok_bind]
    dsimp only
    rw [if_neg (by decide)]
    simp only [Shell.called, Shell.say, Shell.print, List.map_nil, List.append_nil]
    rw [hseekPrints, ExceptLib.ok_bind, hseek, ExceptLib.ok_bind]
    simp only [List.map_nil, List.append_nil]
    rw [hm, hall, ExceptLib.ok_bind]
    dsimp only
    rw [hclosePrints, ExceptLib.ok_bind, hclose, ExceptLib.ok_bind]
    simp [Tree.reply, Tree.read_of_mem hfile]
  · obtain ⟨t, htexts, hopen, hhold⟩ := h.missing hclock hmem h1 h2 sh.calls
    refine ⟨t, sh.calls + 1, ?_, hhold⟩
    unfold cmdRead
    rw [hname.scan hlen, ExceptLib.ok_bind]
    dsimp only
    rw [htexts, ExceptLib.ok_bind, hopen, ExceptLib.ok_bind]
    simp [Tree.reply, Tree.read_eq_none.mpr hmem, Shell.print, Shell.say, Shell.called]

/-! ## `ls` -/

/-- The names that a listing prints are those of the directory. -/
theorem rootNames_eq {v : Volume} {es : List (CStr × Nat)} (h : Directory v es) :
    rootNames v = es.map fun e => e.1.chars := by
  have hf := h.fits
  unfold rootNames storedNames
  rw [h.entry]
  refine List.ext_getElem (by simp) fun k hk _ => ?_
  simp only [List.length_map, List.length_range'] at hk
  simp only [List.getElem_map, List.getElem_range', Nat.zero_add, Nat.one_mul]
  have he := List.getElem?_eq_getElem hk
  have hnamed := h.named k es[k] he
  unfold Volume.dirBlock
  rw [h.map _ (by omega)]
  exact (slotNamed_iff_text _ (h.short _ (List.getElem_mem hk))).mp hnamed

/-- **`cmd_ls`** prints the names of the tree. -/
theorem cmdLs_tree (h : Holding n s₀ tr ino s) :
    cmdLs s.vol = .ok (dotName.chars :: dotDotName.chars :: tr.names.map Word.chars) := by
  have hlen := h.contents.length
  have hentry := h.contents.dir.entry
  simp only [entries, List.length_cons, log_length] at hentry
  rw [cmdLs_spec (by omega), rootNames_eq h.contents.dir]
  simp [entries, Tree.log, List.map_map, Function.comp_def, Word.cstr]

end Vsfs
