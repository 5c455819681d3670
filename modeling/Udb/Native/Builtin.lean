import Udb.Native.Server

/-!
# Built-in commands (`udb_debug.c`)

Before a command line is handed to the shell, `uvc_runcmd_input_handle` splits it
into a pipeline and takes `cd` and `exit` itself. A string is the list of its
bytes without the terminator; `strtok` and `strtok_r` work on what is left of it.
-/

namespace Udb.Native

open CMem

/-- `ARG_MAX_COUNT` -/
def argMaxCount : Nat := 256

/-- `struct command`. A null `name` is `none`. -/
structure Command where
  argc : Nat
  name : Option Bytes
  argv : List Bytes
  deriving DecidableEq, Repr

/-- `struct commands`. A slot that was never filled is null. -/
structure Commands where
  cmdCount : Nat
  cmds : List (Option Command)
  deriving DecidableEq, Repr

/-- `isspace` in the C locale. -/
def isspace (c : UInt8) : Bool := c = 32 || (9 ≤ c && c ≤ 13)

/-- `is_blank` -/
def isBlank (input : Bytes) : Bool := input.all isspace

/-- `is_multi_cmd` -/
def isMultiCmd (input : Bytes) : Bool := input.any (· = 59)

/-- One call of `strtok_r` on what is left of the string: the next token and what is left
    after the separator that ends it. -/
def strtokR (delim : UInt8) (rest : Bytes) : Option (Bytes × Bytes) :=
  let r := rest.dropWhile (· = delim)
  if r = [] then none
  else some (r.takeWhile (· ≠ delim), (r.dropWhile (· ≠ delim)).tail)

/-- The tokens that at most `fuel` calls return. -/
def strtokLoop (delim : UInt8) : Nat → Bytes → List Bytes
  | 0, _ => []
  | fuel + 1, rest =>
    match strtokR delim rest with
    | none => []
    | some (token, rest') => token :: strtokLoop delim fuel rest'

/-- `parse_command` -/
def parseCommand (input : Bytes) : Command :=
  let argv := strtokLoop 32 argMaxCount input
  ⟨argv.length, argv.head?, argv⟩

/-- `parse_commands_with_pipes`: as many zeroed slots as there are bars plus one, filled from
    the first on. -/
def parseCommandsWithPipes (input : Bytes) : Commands :=
  let commandCount := input.count 124 + 1
  let tokens := strtokLoop 124 commandCount input
  ⟨commandCount, tokens.map (some ∘ parseCommand) ++
    List.replicate (commandCount - tokens.length) none⟩

/-- `strcmp(cmd->name, word) == 0` -/
def nameIs (cmd : Command) (word : String) : Except Fault Bool :=
  match cmd.name with
  | none => .error .nullDeref
  | some name => .ok (name == ascii word)

/-- `check_built_in` -/
def checkBuiltIn (cmd : Command) : Except Fault Bool := do
  let isExit ← nameIs cmd "exit"
  if isExit then pure true else nameIs cmd "cd"

/-- The path that `cd` changes to: a newline at its end is cut off. -/
def cdPath (arg : Bytes) : Bytes := if arg.getLast? = some 10 then arg.dropLast else arg

/-- The branch of `uvc_runcmd_input_handle` that runs a built-in command. -/
def runBuiltIn (os : Os) (cmd : Command) (s : Server) : Except Fault (Int × Server) := do
  let isExit ← nameIs cmd "exit"
  if isExit then
    pure (1, s.printf (ascii "exit?\n"))
  else if cmd.argc < 2 then
    pure (-1, s)
  else
    match cmd.argv[1]? with
    | none => .error .nullDeref
    | some arg =>
      let path := cdPath arg
      let s := s.call (.chdir path)
      if os.chdir path then pure (1, s) else pure (-1, s)

/-- Every slot below `cmd_count` is dereferenced before anything is decided. -/
def derefSlots (commands : Commands) : Except Fault (List Command) :=
  commands.cmds.mapM fun c => match c with
    | none => .error .nullDeref
    | some cmd => .ok cmd

/-- `uvc_runcmd_input_handle`: 0 for not a built-in, 1 for done, -1 for a built-in that failed.
    The copy of the string loses its last character; for the empty string that store is
    in front of the block. -/
def uvcRuncmdInputHandle (os : Os) (cmd : Bytes) (s : Server) : Except Fault (Int × Server) :=
  if cmd = [] then .error .outOfBounds
  else
    let input := cmd.dropLast
    if 0 < input.length ∧ ¬ isBlank input ∧ ¬ isMultiCmd input ∧ input.head? ≠ some 124 then do
      let commands := parseCommandsWithPipes input
      let cmds ← derefSlots commands
      -- A pipeline is for the shell.
      if 1 < commands.cmdCount then pure (0, s)
      else
        match cmds with
        | [] => .error .nullDeref
        | first :: _ => do
          let builtIn ← checkBuiltIn first
          if builtIn then runBuiltIn os first s else pure (0, s)
    else pure (0, s)

/-- The program that `uvc_popen` executes. With `force_timeout` a leading dash asks for no
    timeout and is cut off. -/
def popenExec (cmdstring : Bytes) (forceTimeout : Bool) : Exec :=
  if forceTimeout then
    if cmdstring.head? = some 45 then .sh cmdstring.tail else .timeoutSh 3 cmdstring
  else .sh cmdstring

/-- `uvc_popen(cmdstring, "r", force_timeout)`: the output and the server, or `none`. -/
def uvcPopen (os : Os) (cmdstring : Bytes) (forceTimeout : Bool) (s : Server) :
    Option (Bytes × Server) :=
  let e := popenExec cmdstring forceTimeout
  match os.spawn e with
  | none => none
  | some out => some (out, s.call (.spawn e))

end Udb.Native
