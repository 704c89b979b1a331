import Vsfs.Model.Shell

/-!
# What the shell reads

- `scanWord_word`, `scanLine_chars`, `strtok_words`: the readers on words with white space between them;
- `switchCmd_eq`: the switch is a search in a table, although its cases fall through.
-/

set_option autoImplicit false

namespace Vsfs

open ByteSeq

/-- A word: at least one character, none of them white space or the terminator. -/
structure Word where
  chars : List UInt8
  nonempty : chars ≠ []
  plain : ∀ c, c ∈ chars → isSpace c = false ∧ c ≠ 0
  deriving DecidableEq

theorem Word.ext_chars {w x : Word} (h : w.chars = x.chars) : w = x := by
  cases w; cases x; cases h; rfl

theorem Word.noNul (w : Word) : (0 : UInt8) ∉ w.chars := fun h => (w.plain 0 h).2 rfl

/-- The word of a text of the source. -/
def asciiWord (s : String) (h0 : ascii s ≠ []) (h : (ascii s).all (fun c => !isSpace c && c != 0) = true) : Word :=
  ⟨ascii s, h0, fun c hc => by simpa using List.all_eq_true.mp h c hc⟩

/-- A word as a C string. -/
def Word.cstr (w : Word) : CStr := ⟨w.chars, w.noNul⟩

theorem Word.cstr_inj {w x : Word} (h : w.cstr = x.cstr) : w = x := Word.ext_chars (congrArg CStr.chars h)

/-- The delimiter of the arguments of `create`, and the end of a line, are no characters of a word. -/
theorem Word.not_mem (w : Word) {c : UInt8} (hc : isSpace c = true) : c ∉ w.chars := by
  intro h
  rw [(w.plain c h).1] at hc
  contradiction

/-! ## Words and lines -/

/-- White space only. -/
def Blank (cs : List UInt8) : Prop := ∀ c, c ∈ cs → isSpace c = true

/-- The end of the input, or white space. -/
def Stops (cs : List UInt8) : Prop := ∀ c, cs.head? = some c → isSpace c = true

variable {cs gap rest : List UInt8}

theorem blank_nil : Blank [] := fun _ h => absurd h List.not_mem_nil

theorem blank_newline : Blank [10] := by
  intro c h
  rw [List.mem_singleton.mp h]
  rfl

theorem blank_space : Blank [32] := by
  intro c h
  rw [List.mem_singleton.mp h]
  rfl

theorem stops_cons {c : UInt8} (h : isSpace c = true) (rest : List UInt8) : Stops (c :: rest) := by
  intro d hd
  cases hd
  exact h

/-- **`scanf("%s", ...)`** skips white space and reads a word. -/
theorem scanWord_word (w : Word) (hg : Blank gap) (hr : Stops rest) :
    scanWord (gap ++ (w.chars ++ rest)) = (some w.chars, rest) := by
  have hw : ∀ c, c ∈ w.chars → (!isSpace c) = true := fun c hc => by rw [(w.plain c hc).1]; rfl
  have hskip : (w.chars ++ rest).dropWhile isSpace = w.chars ++ rest := by
    cases h : w.chars with
    | nil => exact absurd h w.nonempty
    | cons c l =>
      have hc := (w.plain c (by rw [h]; exact List.mem_cons_self)).1
      rw [List.cons_append, List.dropWhile_cons_of_neg (by simp [hc])]
  have hstop : rest.takeWhile (fun c => !isSpace c) = [] ∧ rest.dropWhile (fun c => !isSpace c) = rest := by
    cases rest with
    | nil => exact ⟨rfl, rfl⟩
    | cons c l =>
      have hc := hr c rfl
      exact ⟨List.takeWhile_cons_of_neg (by simp [hc]), List.dropWhile_cons_of_neg (by simp [hc])⟩
  unfold scanWord
  simp only [List.dropWhile_append_of_pos hg, hskip, List.takeWhile_append_of_pos hw, List.dropWhile_append_of_pos hw,
    hstop, List.append_nil]
  rw [if_neg fun h => w.nonempty (List.append_eq_nil_iff.mp h).1]

/-- **`scanf("%[^\n]", ...)`** reads the rest of the line. -/
theorem scanLine_chars (hne : cs ≠ []) (hnl : (10 : UInt8) ∉ cs) :
    scanLine (cs ++ 10 :: rest) = (.chars cs, 10 :: rest) := by
  have hcs : ∀ c, c ∈ cs → decide (c ≠ 10) = true := fun c hc => decide_eq_true fun h => hnl (h ▸ hc)
  have htake : (cs ++ 10 :: rest).takeWhile (fun c => decide (c ≠ 10)) = cs := by
    rw [List.takeWhile_append_of_pos hcs, List.takeWhile_cons_of_neg (by simp), List.append_nil]
  have hdrop : (cs ++ 10 :: rest).dropWhile (fun c => decide (c ≠ 10)) = 10 :: rest := by
    rw [List.dropWhile_append_of_pos hcs, List.dropWhile_cons_of_neg (by simp)]
  cases cs with
  | nil => contradiction
  | cons c l =>
    have hc : c ≠ 10 := fun h => hnl (h ▸ List.mem_cons_self)
    rw [List.cons_append] at htake hdrop ⊢
    simp only [scanLine, if_neg hc, htake, hdrop]

theorem scanLine_empty (rest : List UInt8) : scanLine (10 :: rest) = (.empty, 10 :: rest) := by simp [scanLine]

/-! ## Buffers -/

theorem cstr_noNul (h : (0 : UInt8) ∉ cs) : cstr cs = ⟨cs, h⟩ := by
  refine CStr.ext_chars ?_
  show cs.takeWhile (· ≠ 0) = cs
  rw [List.takeWhile_eq_self_iff]
  exact fun c hc => decide_eq_true fun h0 => h (h0 ▸ hc)

theorem cstr_word (w : Word) : cstr w.chars = w.cstr := cstr_noNul w.noNul

theorem storeStr_noNul {size : Nat} (h : (0 : UInt8) ∉ cs) (hl : cs.length < size) : storeStr size cs = .ok ⟨cs, h⟩ := by
  unfold storeStr
  rw [if_pos hl, cstr_noNul h]

theorem storeStr_word {size : Nat} (w : Word) (hl : w.chars.length < size) : storeStr size w.chars = .ok w.cstr :=
  storeStr_noNul w.noNul hl

/-! ## `strtok` -/

/-- Characters that are no delimiters belong to the token that has been begun. -/
theorem strtok_append {d : UInt8} {token : List UInt8} (h : d ∉ cs) :
    strtok d token (cs ++ rest) = strtok d (token ++ cs) rest := by
  induction cs generalizing token with
  | nil => simp
  | cons c cs ih =>
    have hc : c ≠ d := fun he => h (he ▸ List.mem_cons_self)
    have hstep : strtok d token (c :: cs ++ rest) = strtok d (token ++ [c]) (cs ++ rest) := by simp [strtok, hc]
    rw [hstep, ih fun hm => h (List.mem_cons_of_mem c hm), List.append_assoc, List.singleton_append]

/-- The names of a `create` command, each behind a blank. -/
def nameArgs (names : List Word) : List UInt8 := names.flatMap fun w => 32 :: w.chars

/-- **The tokens** of the names are the names. -/
theorem strtok_words (names : List Word) : strtok 32 [] (nameArgs names) = names.map Word.chars := by
  -- with a token begun, the names that follow are those behind it
  have key : ∀ (names : List Word) (token : List UInt8), token ≠ [] →
      strtok 32 token (nameArgs names) = token :: names.map Word.chars := by
    intro names
    induction names with
    | nil =>
      intro token ht
      simp [nameArgs, strtok, ht]
    | cons w names ih =>
      intro token ht
      have hw : (32 : UInt8) ∉ w.chars := w.not_mem rfl
      have hstep : strtok 32 token (nameArgs (w :: names)) = token :: strtok 32 [] (w.chars ++ nameArgs names) := by
        simp [nameArgs, strtok, ht]
      rw [hstep, strtok_append hw, List.nil_append, ih w.chars w.nonempty, List.map_cons]
  cases names with
  | nil => rfl
  | cons w names =>
    have hw : (32 : UInt8) ∉ w.chars := w.not_mem rfl
    have hstep : strtok 32 [] (nameArgs (w :: names)) = strtok 32 [] (w.chars ++ nameArgs names) := by
      simp [nameArgs, strtok]
    rw [hstep, strtok_append hw, List.nil_append, key names w.chars w.nonempty, List.map_cons]

theorem nameArgs_not_mem (names : List Word) {c : UInt8} (hc : isSpace c = false ∨ c = 10)
    (h : ∀ w, w ∈ names → c ∉ w.chars) : c ∉ nameArgs names := by
  intro hm
  obtain ⟨w, hw, hcw⟩ := List.mem_flatMap.mp hm
  rcases List.mem_cons.mp hcw with rfl | hcw
  · rcases hc with hc | hc <;> contradiction
  · exact h w hw hcw

/-! ## The switch -/

/-- The commands, each under the texts that it is called by. -/
def commands : List (String × Cmd) :=
  [("create", .create), ("help", .help), ("h", .help), ("ls", .ls), ("pwd", .pwd), ("p", .print), ("quit", .quit),
    ("q", .quit), ("rm", .rm), ("read", .read), ("stat", .stat), ("write", .write)]

/-- **The switch** looks the command up: the case of its first letter is the only one that can have it. -/
theorem switchCmd_eq (cmd : CStr) :
    switchCmd cmd = ((commands.find? fun e => CStr.is cmd e.1).map Prod.snd).getD .unknown := by
  obtain ⟨cs, h0⟩ := cmd
  by_cases h : ∃ e, e ∈ commands ∧ CStr.is ⟨cs, h0⟩ e.1 = true
  · obtain ⟨e, he, his⟩ := h
    have hcs : cs = ascii e.1 := of_decide_eq_true his
    subst hcs
    simp only [commands, List.mem_cons, List.not_mem_nil, or_false] at he
    clear his
    rcases he with rfl | rfl | rfl | rfl | rfl | rfl | rfl | rfl | rfl | rfl | rfl | rfl <;> (revert h0; decide)
  · have hnot : ∀ e, e ∈ commands → CStr.is ⟨cs, h0⟩ e.1 = false := fun e he =>
      Bool.eq_false_iff.mpr fun his => h ⟨e, he, his⟩
    rw [List.find?_eq_none.mpr fun e he => by rw [hnot e he]; exact Bool.false_ne_true]
    simp only [commands, List.forall_mem_cons] at hnot
    simp [switchCmd, caseC, caseH, caseL, caseP, caseQ, caseR, caseS, caseW, hnot]

end Vsfs
