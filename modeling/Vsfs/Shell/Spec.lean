import Vsfs.Model.Format
import Vsfs.Shell.Input

/-!
# What the shell is for

A `Tree` is the list of the files, in the order in which they have been created, each with the word that was written to
it last. `Request` is a line that a user types, `Tree.after` what it does to the files and `Tree.reply` what the shell
prints. A `Store` is the tree together with the one that the last mount has found; a `Session` is a run of the shell and
what happens to the volume behind it.

Nothing here mentions inodes, blocks or descriptors: this is the purpose that the code below is compared with.
-/

set_option autoImplicit false

namespace Vsfs

open ByteSeq

/-! ## Files -/

/-- The name of a file: short enough, and none of the two entries of the directory itself. -/
def Word.IsName (w : Word) : Prop := w.chars.length < filenameLen ∧ w.cstr ≠ dotName ∧ w.cstr ≠ dotDotName

instance (w : Word) : Decidable w.IsName := inferInstanceAs (Decidable (_ ∧ _))

/-- The files: their names, and what was written last. -/
structure Tree where
  files : List (Word × Option Word)
  nodup : (files.map Prod.fst).Nodup
  named : ∀ f, f ∈ files → f.1.IsName

def Tree.names (t : Tree) : List Word := t.files.map Prod.fst

/-- No files. -/
def Tree.empty : Tree := ⟨[], List.nodup_nil, fun _ h => absurd h List.not_mem_nil⟩

/-- The text of a file, if there is a file of the name. -/
def Tree.read (t : Tree) (name : Word) : Option (Option Word) := t.files.lookup name

/-- A new empty file. -/
def Tree.create (t : Tree) (name : Word) : Tree :=
  if h : name.IsName ∧ name ∉ t.names then
    { files := t.files ++ [(name, none)]
      nodup := by
        rw [List.map_append, List.nodup_append]
        refine ⟨t.nodup, List.nodup_singleton name, ?_⟩
        rintro a ha b hb rfl
        rw [List.mem_singleton.mp hb] at ha
        exact h.2 ha
      named := fun f hf => (List.mem_append.mp hf).elim (t.named f) fun hf => by
        rw [List.mem_singleton.mp hf]
        exact h.1 }
  else t

/-- The files with another text for each. -/
def Tree.mapText (t : Tree) (g : Word → Option Word → Option Word) : Tree :=
  { files := t.files.map fun f => (f.1, g f.1 f.2)
    nodup := by rw [List.map_map]; exact t.nodup
    named := fun f hf => by
      obtain ⟨e, he, rfl⟩ := List.mem_map.mp hf
      exact t.named e he }

/-- A text for a file. -/
def Tree.write (t : Tree) (name text : Word) : Tree :=
  t.mapText fun name' old => if name' = name then some text else old

/-- What is left of the files `now` when the segment is lost, if the last mount has found `saved`: a file that was empty
then is empty again, the others have their last text. -/
def Tree.recover (now saved : Tree) : Tree := saved.mapText fun name old => old.bind fun _ => (now.read name).join

/-! ## Requests -/

/-- A line for the shell. `writeTo` is `write` for a name that no file has: the shell then does not read a text. -/
inductive Request
  | create (names : List Word)
  | write (name text : Word)
  | writeTo (name : Word)
  | read (name : Word)
  | ls
  | pwd
  | help
  | rm
  | stat
  | unknown (cmd : Word) (args : List UInt8)

/-- What the user types. `rm` and `stat` do not read their argument: what follows is the next command. -/
def Request.line : Request → List UInt8
  | .create names => ascii "create" ++ (nameArgs names ++ [10])
  | .write name text => ascii "write" ++ (32 :: name.chars ++ (32 :: text.chars ++ [10]))
  | .writeTo name => ascii "write" ++ (32 :: name.chars ++ [10])
  | .read name => ascii "read" ++ (32 :: name.chars ++ [10])
  | .ls => ascii "ls" ++ [10]
  | .pwd => ascii "pwd" ++ [10]
  | .help => ascii "help" ++ [10]
  | .rm => ascii "rm" ++ [32]
  | .stat => ascii "stat" ++ [32]
  | .unknown cmd args => cmd.chars ++ (args ++ [10])

/-- What a request does to the files. -/
def Tree.after (t : Tree) : Request → Tree
  | .create names => names.foldl Tree.create t
  | .write name text => t.write name text
  | _ => t

/-- What `create` is told of a name that is too long, of one of the directory itself and of one that a file has. -/
def Tree.refusal (t : Tree) (name : Word) : List String :=
  if filenameLen ≤ name.chars.length then ["the file_name's lens over the limit!\n"]
  else if name.cstr = dotName ∨ name.cstr = dotDotName ∨ name ∈ t.names then
    ["ERR: in vsfs_creat(): you have the same file_name in FS\n"]
  else []

/-- The output of `create`, name by name. -/
def Tree.createReply : Tree → List Word → List Out
  | _, [] => []
  | t, w :: names =>
    [.text "creating ", .str w.chars, .text "\n"] ++ (t.refusal w).map .text ++ (t.create w).createReply names

/-- What is said of a name that no file has. -/
def Word.missing (name : Word) : String :=
  if filenameLen ≤ name.chars.length then "ERR: the pathname's lens over the limit!\n"
  else "ERR: in vsfs_open(): file or dir not find!\n"

/-- What the shell prints. -/
def Tree.reply (t : Tree) : Request → List Out
  | .create names => t.createReply names
  | .write _ text => [.text "writing:\n", .str text.chars, .text "\n"]
  | .writeTo name => [.text name.missing, .perror "vsfs_open():"]
  | .read name =>
    match t.read name with
    | none => [.text name.missing, .perror "vsfs_open():"]
    | some text => [.text "reading:\n"] ++ text.toList.map (fun w => .str w.chars) ++ [.text "\n"]
  | .ls => lsOut (dotName.chars :: dotDotName.chars :: t.names.map Word.chars)
  | .pwd => [.str [47], .text "\n"]
  | .help => [.text helpText]
  | .rm => []
  | .stat => []
  | .unknown cmd _ => [.text "Error: Unknown command '", .str cmd.chars, .text "'\n"]

/-- What the shell must be asked for: the words fit their buffers, there are never more files than one block of the
directory holds, and neither of the directory's own entries is read or written. -/
def Tree.Accepts (t : Tree) : Request → Prop
  | .create names => names ≠ [] ∧ (nameArgs names).length < 256 ∧ (names.foldl Tree.create t).files.length ≤ 14
  | .write name text => name ∈ t.names ∧ text.chars.length < blockSize
  | .writeTo name => name ∉ t.names ∧ name.chars.length < 1000 ∧ name.cstr ≠ dotName ∧ name.cstr ≠ dotDotName
  | .read name => name.chars.length < 256 ∧ name.cstr ≠ dotName ∧ name.cstr ≠ dotDotName
  | .unknown cmd args =>
    cmd.chars.length < 10 ∧ (∀ e, e ∈ commands → cmd.chars ≠ ascii e.1) ∧ args.length < 256 ∧ (10 : UInt8) ∉ args ∧
      Stops args
  | _ => True

/-! ## Runs of the shell -/

/-- The two ways to leave the shell, and `create` without names, which ends it too. -/
inductive Leave
  | quit
  | q
  | create

def Leave.line : Leave → List UInt8
  | .quit => ascii "quit" ++ [10]
  | .q => ascii "q" ++ [10]
  | .create => ascii "create" ++ [10]

def Leave.reply : Leave → List Out
  | .quit => []
  | .q => []
  | .create => [.perror "create: scanf", .perror "cmd_create"]

/-- What is typed in a run of the shell. -/
def typed (rs : List Request) (leave : Leave) : List UInt8 := rs.flatMap Request.line ++ leave.line

/-- The files after the requests, one after the other. -/
def Tree.run (t : Tree) (rs : List Request) : Tree := rs.foldl Tree.after t

/-- The output of a run, each request behind a prompt. -/
def Tree.transcript : Tree → List Request → Leave → List Out
  | _, [], leave => promptOut ++ leave.reply
  | t, r :: rs, leave => promptOut ++ t.reply r ++ (t.after r).transcript rs leave

/-- Every request is accepted when its turn comes. -/
def Tree.AcceptsAll : Tree → List Request → Prop
  | _, [] => True
  | t, r :: rs => t.Accepts r ∧ (t.after r).AcceptsAll rs

/-! ## Sessions -/

/-- What happens to the volume after a run of the shell: it stays mounted, it is unmounted and mounted again, or the
segment is lost and the volume is mounted again. -/
inductive Between
  | stay
  | remount
  | crash

/-- A run of the shell, and what happens to the volume behind it. -/
structure Session where
  requests : List Request
  leave : Leave
  between : Between

/-- The files, and those that the last mount has found. -/
structure Store where
  now : Tree
  saved : Tree

/-- A volume that has just been formatted and mounted. -/
def Store.empty : Store := ⟨Tree.empty, Tree.empty⟩

def Store.between (st : Store) : Between → Store
  | .stay => st
  | .remount => ⟨st.now, st.now⟩
  | .crash => ⟨st.now.recover st.saved, st.now.recover st.saved⟩

/-- The files after a session. -/
def Store.after (st : Store) (x : Session) : Store := Store.between ⟨st.now.run x.requests, st.saved⟩ x.between

/-- The files after sessions. -/
def Store.run (st : Store) (xs : List Session) : Store := xs.foldl Store.after st

/-- The output of sessions, one after the other. -/
def Store.transcripts : Store → List Session → List (List Out)
  | _, [] => []
  | st, x :: xs => st.now.transcript x.requests x.leave :: (st.after x).transcripts xs

/-- Every request of the sessions is accepted when its turn comes. -/
def Store.AcceptsAll : Store → List Session → Prop
  | _, [] => True
  | st, x :: xs => st.now.AcceptsAll x.requests ∧ (st.after x).AcceptsAll xs

/-! ## Facts about files -/

variable {t : Tree} {name name' text : Word}

theorem Tree.read_eq_none : t.read name = none ↔ name ∉ t.names := by
  unfold Tree.read Tree.names
  rw [List.lookup_eq_none_iff]
  simp only [List.mem_map, not_exists, not_and, bne_iff_ne, ne_eq]
  exact ⟨fun h f hf he => h f hf he.symm, fun h f hf he => h f hf he.symm⟩

@[simp] theorem Tree.mapText_names (t : Tree) (g : Word → Option Word → Option Word) : (t.mapText g).names = t.names := by
  simp [Tree.mapText, Tree.names, List.map_map, Function.comp_def]

/-- **A name is refused** exactly if no file is created. -/
theorem Tree.refusal_eq_nil : t.refusal name = [] ↔ name.IsName ∧ name ∉ t.names := by
  unfold Tree.refusal Word.IsName
  by_cases hlen : filenameLen ≤ name.chars.length
  · rw [if_pos hlen]
    simp only [List.cons_ne_self, false_iff]
    exact fun h => absurd h.1.1 (Nat.not_lt.mpr hlen)
  · rw [if_neg hlen]
    split
    case isTrue h => simp; tauto
    case isFalse h =>
      rw [not_or, not_or] at h
      exact ⟨fun _ => ⟨⟨Nat.not_le.mp hlen, h.1, h.2.1⟩, h.2.2⟩, fun _ => rfl⟩

theorem Tree.create_of_not (h : ¬(name.IsName ∧ name ∉ t.names)) : t.create name = t := dif_neg h

theorem Tree.create_files (h : name.IsName ∧ name ∉ t.names) : (t.create name).files = t.files ++ [(name, none)] := by
  unfold Tree.create
  rw [dif_pos h]

theorem Tree.names_create (t : Tree) (name : Word) : t.names <+: (t.create name).names := by
  by_cases h : name.IsName ∧ name ∉ t.names
  · unfold Tree.names
    rw [Tree.create_files h, List.map_append]
    exact List.prefix_append ..
  · rw [Tree.create_of_not h]

/-- **No request takes a file away**: new files are behind the others. -/
theorem Tree.names_after (t : Tree) (r : Request) : t.names <+: (t.after r).names := by
  cases r with
  | create names =>
    show t.names <+: (names.foldl Tree.create t).names
    induction names generalizing t with
    | nil => exact List.prefix_rfl
    | cons w names ih => exact (t.names_create w).trans (ih _)
  | write name text =>
    unfold Tree.after Tree.write
    rw [Tree.mapText_names]
  | writeTo | read | ls | pwd | help | rm | stat | unknown => exact List.prefix_rfl

theorem Tree.names_run (t : Tree) (rs : List Request) : t.names <+: (t.run rs).names := by
  induction rs generalizing t with
  | nil => exact List.prefix_rfl
  | cons r rs ih => exact (t.names_after r).trans (ih _)

@[simp] theorem Tree.recover_names (now saved : Tree) : (now.recover saved).names = saved.names := Tree.mapText_names ..

theorem Tree.length_le_create (t : Tree) (name : Word) : t.files.length ≤ (t.create name).files.length := by
  by_cases h : name.IsName ∧ name ∉ t.names
  · rw [Tree.create_files h]
    simp
  · rw [Tree.create_of_not h]

theorem Tree.length_le_foldl (t : Tree) (names : List Word) :
    t.files.length ≤ (names.foldl Tree.create t).files.length := by
  induction names generalizing t with
  | nil => exact Nat.le_refl _
  | cons w names ih => exact (t.length_le_create w).trans (ih _)

end Vsfs
