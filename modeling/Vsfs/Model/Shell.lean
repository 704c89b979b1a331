import Mathlib.Data.List.TakeWhile
import Vsfs.Model.Messages
import Vsfs.Model.Ufs

/-!
# The shell: `ufs_sh.c`

`start_ufs` reads a word, and a switch on its first letter chooses what to do; the cases fall through to the next ones
when the word is not what they stand for. A command reads its arguments from the same input. The output is a list of
pieces, in order: what the commands print and, from `Messages`, what their calls print, with the texts of `perror` at
their places. `clock k` is what `time` returns in the `k`-th call, and the calls of the session so far are counted.

A word that does not fit its buffer, and a buffer that is used before anything has been stored in it, are undefined
behaviour. At the end of the input `scanf` leaves the buffer as it is, so the shell repeats its last command.
-/

set_option autoImplicit false

namespace Vsfs

open ByteSeq

/-! ## Standard input -/

/-- `isspace` in the C locale. -/
def isSpace (c : UInt8) : Bool := c == 32 || (9 ≤ c && c ≤ 13)

/-- `scanf("%s", ...)`: the word, if there is one, and the input behind it. -/
def scanWord (stdin : List UInt8) : Option (List UInt8) × List UInt8 :=
  let stdin := stdin.dropWhile isSpace
  if stdin = [] then (none, []) else (some (stdin.takeWhile fun c => !isSpace c), stdin.dropWhile fun c => !isSpace c)

/-- What `scanf("%[^\n]", ...)` finds: the end of the input, the end of the line, or characters before it. -/
inductive Line
  | eof
  | empty
  | chars (cs : List UInt8)

/-- `scanf("%[^\n]", ...)`, and the input behind what it has read. -/
def scanLine : List UInt8 → Line × List UInt8
  | [] => (.eof, [])
  | c :: stdin =>
    if c = 10 then (.empty, c :: stdin)
    else (.chars ((c :: stdin).takeWhile (· ≠ 10)), (c :: stdin).dropWhile (· ≠ 10))

/-- The C string at the start of the characters `cs`. -/
def cstr (cs : List UInt8) : CStr :=
  ⟨cs.takeWhile (· ≠ 0), fun h => by simpa using List.mem_takeWhile_imp h⟩

/-- Storing `cs` and a terminator into a buffer of `size` bytes. -/
def storeStr (size : Nat) (cs : List UInt8) : M CStr := if cs.length < size then .ok (cstr cs) else .error .outOfBounds

/-- The tokens that `strtok` returns for the delimiter `d`, one after the other; `token` is what has been found of the
first one. -/
def strtok (d : UInt8) : List UInt8 → List UInt8 → List (List UInt8)
  | token, [] => if token = [] then [] else [token]
  | token, c :: cs =>
    if c = d then if token = [] then strtok d [] cs else token :: strtok d [] cs
    else strtok d (token ++ [c]) cs

/-- The characters of a text of the source. -/
def ascii (s : String) : List UInt8 := s.toList.map fun c => UInt8.ofNat c.toNat

/-! ## The state of the shell -/

/-- A piece of output: a text of the source, a string argument, a message for `perror`, or the values of `p`. -/
inductive Out
  | text (s : String)
  | str (cs : List UInt8)
  | perror (msg : String)
  | sys (sbi : SbInfo)
  deriving DecidableEq

/-- The calls' state, the rest of the input, the output so far, and the number of calls that have read the time. -/
structure Shell where
  fs : State
  stdin : List UInt8
  out : List Out
  calls : Nat

def Shell.print (sh : Shell) (out : List Out) : Shell := { sh with out := sh.out ++ out }

/-- A call has printed `texts`. -/
def Shell.say (sh : Shell) (texts : List String) : Shell := sh.print (texts.map .text)

/-- The state after a call that reads the time. -/
def Shell.called (sh : Shell) (texts : List String) (fs : State) : Shell :=
  { sh.say texts with fs := fs, calls := sh.calls + 1 }

/-- `scanf("%s", buf)` for a buffer of `size` bytes, which the code uses afterwards whether it has been filled or not. -/
def Shell.scan (sh : Shell) (size : Nat) : M (CStr × Shell) :=
  match scanWord sh.stdin with
  | (none, _) => .error .uninitialised
  | (some cs, stdin) => do
    let s ← storeStr size cs
    .ok (s, { sh with stdin := stdin })

/-! ## The commands -/

/-- The loop of `cmd_create` over the names. -/
def createEach (clock : Nat → Nat) : List (List UInt8) → Shell → M Shell
  | [], sh => .ok sh
  | name :: names, sh => do
    let sh := sh.print [.text "creating ", .str name, .text "\n"]
    let texts ← vsfsCreatPrints (cstr name) sh.fs
    let r ← vsfsCreat (clock sh.calls) (cstr name) 0 sh.fs
    createEach clock names (sh.called texts r.2)

/-- `cmd_create`. The rest of the line is read without the blanks in front being skipped. -/
def cmdCreate (clock : Nat → Nat) (sh : Shell) : M (Int × Shell) :=
  match scanLine sh.stdin with
  | (.eof, _) => .error .uninitialised
  | (.empty, stdin) => .ok (-1, { sh with stdin := stdin.drop 1 }.print [.perror "create: scanf"])
  | (.chars cs, stdin) => do
    let input ← storeStr 256 cs
    let sh ← createEach clock (strtok 32 [] input.chars) { sh with stdin := stdin.drop 1 }
    .ok (0, sh)

/-- `printf("%s", src)` of a buffer of one block. -/
def bufferText (src : Bytes) : M (List UInt8) :=
  let cs := textAt src blockSize 0
  if cs.length < blockSize then .ok cs else .error .outOfBounds

/-- The loop of `cmd_read`, which ends when `vsfs_read` returns `EOF`. -/
def readAll (clock : Nat → Nat) (fd : Int) : Nat → Bytes → Shell → M Shell
  | 0, _, _ => .error .diverges
  | fuel + 1, src, sh => do
    let texts ← vsfsReadPrints fd sh.fs
    let (ret, src, fs) ← vsfsRead (clock sh.calls) fd src 4096 sh.fs
    let sh := sh.called texts fs
    if ret = -1 then .ok sh
    else do
      let cs ← bufferText src
      readAll clock fd fuel src (sh.print [.str cs])

/-- `cmd_read`. An offset has 64 bits, so the loop has no more rounds than that. -/
def cmdRead (clock : Nat → Nat) (sh : Shell) : M Shell := do
  let (input, sh) ← sh.scan 256
  let texts ← vsfsOpenPrints input sh.fs
  let r ← vsfsOpen (clock sh.calls) input oRdwr sh.fs
  let fd := r.1
  let sh := sh.called texts r.2
  if fd = -1 then .ok (sh.print [.perror "vsfs_open():"])
  else do
    let sh := sh.print [.text "reading:\n"]
    let texts ← vsfsLseekPrints fd 0 seekSet sh.fs
    let r ← vsfsLseek fd 0 seekSet sh.fs
    let sh ← readAll clock fd (2 ^ 64) (fun _ => 0) { sh.say texts with fs := r.2 }
    let sh := sh.print [.text "\n"]
    let texts ← vsfsClosePrints fd sh.fs
    let r ← vsfsClose fd sh.fs
    .ok { sh.say texts with fs := r.2 }

/-- `scanf("%s", src)` into the zeroed buffer of `cmd_write`. -/
def Shell.scanBlock (sh : Shell) : M (Bytes × Shell) :=
  match scanWord sh.stdin with
  | (none, stdin) => .ok (fun _ => 0, { sh with stdin := stdin })
  | (some cs, stdin) =>
    if cs.length < blockSize then .ok (fun k => cs.getD k 0, { sh with stdin := stdin }) else .error .outOfBounds

/-- `cmd_write`. -/
def cmdWrite (clock : Nat → Nat) (sh : Shell) : M Shell := do
  let (input, sh) ← sh.scan 1000
  let texts ← vsfsOpenPrints input sh.fs
  let r ← vsfsOpen (clock sh.calls) input oRdwr sh.fs
  let fd := r.1
  let sh := sh.called texts r.2
  if fd = -1 then .ok (sh.print [.perror "vsfs_open():"])
  else do
    let (src, sh) ← (sh.print [.text "writing:\n"]).scanBlock
    let cs ← bufferText src
    let sh := sh.print [.str cs, .text "\n"]
    let texts ← vsfsWritePrints fd 4096 sh.fs
    let r ← vsfsWrite (clock sh.calls) fd src 4096 sh.fs
    let sh := sh.called texts r.2
    let texts ← vsfsClosePrints fd sh.fs
    let r ← vsfsClose fd sh.fs
    .ok { sh.say texts with fs := r.2 }

/-- What `cmd_ls` prints. -/
def lsOut (names : List (List UInt8)) : List Out := names.flatMap (fun cs => [.str cs, .text " "]) ++ [.text "\n"]

/-- `cmd_print`. `p_root_info` ends in `free_dma_buffer` of the inode region, which is no buffer: the header that it
looks for is in front of the array. -/
def cmdPrint (sh : Shell) : M Shell := do
  let (cmd, sh) ← sh.scan 10
  if cmd.chars = ascii "sys" then .ok (sh.print [.sys sh.fs.vol.cached.sbi])
  else if cmd.chars = ascii "root" then .error .outOfBounds
  else .ok sh

/-- What `cmd_help` prints. -/
def helpText : String :=
  "Command:\n" ++ "create\t<file> \tcreate <file> inside UFS\n" ++ "help         \tprint this helpful page\n" ++
    "ls           \tlist all the containt under cwd\n" ++ "pwd          \tprint the working directory\n" ++
    "quit, q      \tleave UFS\n" ++ "read  \t<file> \tread data inside <file>\n" ++
    "rm    \t<file> \tremove the <file> from UFS\n" ++ "stat  \t<file> \tlist the info about <file>\n" ++
    "write \t<file> \twrite data into <file>\n"

/-! ## The loop of `start_ufs` -/

/-- What the switch comes to. -/
inductive Cmd
  | create
  | help
  | ls
  | pwd
  | print
  | quit
  | rm
  | read
  | stat
  | write
  | unknown
  deriving DecidableEq, Repr

/-- `!strcmp(cmd, s)`. -/
def CStr.is (cmd : CStr) (s : String) : Bool := cmd.chars = ascii s

/-- From `case 'w'` on. -/
def caseW (cmd : CStr) : Cmd := if CStr.is cmd "write" then .write else .unknown

/-- From `case 's'` on. -/
def caseS (cmd : CStr) : Cmd := if CStr.is cmd "stat" then .stat else caseW cmd

/-- From `case 'r'` on. -/
def caseR (cmd : CStr) : Cmd := if CStr.is cmd "rm" then .rm else if CStr.is cmd "read" then .read else caseS cmd

/-- From `case 'q'` on. -/
def caseQ (cmd : CStr) : Cmd := if CStr.is cmd "quit" ∨ CStr.is cmd "q" then .quit else caseR cmd

/-- From `case 'p'` on. -/
def caseP (cmd : CStr) : Cmd := if CStr.is cmd "pwd" then .pwd else if CStr.is cmd "p" then .print else caseQ cmd

/-- From `case 'l'` on. -/
def caseL (cmd : CStr) : Cmd := if CStr.is cmd "ls" then .ls else caseP cmd

/-- From `case 'h'` on. -/
def caseH (cmd : CStr) : Cmd := if CStr.is cmd "help" ∨ CStr.is cmd "h" then .help else caseL cmd

/-- From `case 'c'` on. -/
def caseC (cmd : CStr) : Cmd := if CStr.is cmd "create" then .create else caseH cmd

/-- `switch (cmd[0])`. -/
def switchCmd (cmd : CStr) : Cmd :=
  let c := cmd.chars.headD 0
  if c = 99 then caseC cmd
  else if c = 104 then caseH cmd
  else if c = 108 then caseL cmd
  else if c = 112 then caseP cmd
  else if c = 113 then caseQ cmd
  else if c = 114 then caseR cmd
  else if c = 115 then caseS cmd
  else if c = 119 then caseW cmd
  else .unknown

/-- The `default` of the switch: the rest of the line goes to a buffer of 256 bytes. -/
def unknownCmd (cmd : CStr) (sh : Shell) : M Shell := do
  let sh := sh.print [.text "Error: Unknown command '", .str cmd.chars, .text "'\n"]
  match scanLine sh.stdin with
  | (.eof, stdin) => .ok { sh with stdin := stdin }
  | (.empty, stdin) => .ok { sh with stdin := stdin.drop 1 }
  | (.chars cs, stdin) => do
    let _ ← storeStr 256 cs
    .ok { sh with stdin := stdin.drop 1 }

/-- The body of the switch: `true` when the shell ends. -/
def runCmd (clock : Nat → Nat) (cmd : CStr) (sh : Shell) : M (Bool × Shell) :=
  match switchCmd cmd with
  | .create => do
    let (ret, sh) ← cmdCreate clock sh
    .ok (if ret ≠ 0 then (true, sh.print [.perror "cmd_create"]) else (false, sh))
  | .help => .ok (false, sh.print [.text helpText])
  | .ls => do
    let names ← cmdLs sh.fs.vol
    .ok (false, sh.print (lsOut names))
  | .pwd => .ok (false, sh.print [.str [47], .text "\n"])
  | .print => do
    let sh ← cmdPrint sh
    .ok (false, sh)
  | .quit => .ok (true, sh)
  | .rm => .ok (false, sh)
  | .read => do
    let sh ← cmdRead clock sh
    .ok (false, sh)
  | .stat => .ok (false, sh)
  | .write => do
    let sh ← cmdWrite clock sh
    .ok (false, sh)
  | .unknown => do
    let sh ← unknownCmd cmd sh
    .ok (false, sh)

/-- `prompt(st)`. -/
def promptOut : List Out := [.text "UFS@~", .str [47], .text " >"]

/-- One round of the loop; `cmd` is what the buffer holds, if anything has been stored in it. -/
def shellRound (clock : Nat → Nat) (cmd : Option CStr) (sh : Shell) : M (Bool × Option CStr × Shell) := do
  let sh := sh.print promptOut
  let (cmd, sh) ← (match scanWord sh.stdin with
    | (none, stdin) =>
      match cmd with
      | none => .error .uninitialised
      | some cmd => .ok (cmd, { sh with stdin := stdin })
    | (some cs, stdin) => do
      let s ← storeStr 10 cs
      .ok (s, { sh with stdin := stdin }) : M (CStr × Shell))
  let (ends, sh) ← runCmd clock cmd sh
  .ok (ends, some cmd, sh)

/-- The loop of `start_ufs`, at most `fuel` rounds of it. -/
def shellLoop (clock : Nat → Nat) : Nat → Option CStr → Shell → M Shell
  | 0, _, _ => .error .diverges
  | fuel + 1, cmd, sh => do
    let (ends, cmd, sh) ← shellRound clock cmd sh
    if ends then .ok sh else shellLoop clock fuel cmd sh

/-- `start_ufs` on the state `fs` that `env_init` leaves: the state at its end, and the output from the first prompt
on. -/
def startUfs (clock : Nat → Nat) (fuel : Nat) (stdin : List UInt8) (fs : State) : M (State × List Out) := do
  let sh ← shellLoop clock fuel none { fs := fs, stdin := stdin, out := [], calls := 0 }
  .ok (sh.fs, sh.out)

end Vsfs
