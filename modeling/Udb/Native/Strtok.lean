import Udb.Native.Builtin

/-!
# The tokenizers in place (`udb_debug.c`)

`parse_commands_with_pipes` and `parse_command` share one string. `strtok_r` and
`strtok` overwrite the separator behind a token with a terminator, and what they
return points into the string, so the inner tokenizer works between two pieces that
the outer one still needs.

Here the string lies in a memory, a pointer is an offset into it, and an access
outside it is a fault. `load` reads back what a parsed command points to.
-/

namespace Udb.Native

open CMem

/-! ## `strtok_r` -/

/-- The byte that `p` points to. -/
def byteAt (mem : Bytes) (p : Nat) : Except Fault UInt8 :=
  match mem[p]? with
  | none => .error .outOfBounds
  | some c => .ok c

/-- `strspn` for one separator. -/
def strspn (mem : Bytes) (s : Nat) (delim : UInt8) : Nat :=
  ((mem.drop s).takeWhile (· = delim)).length

/-- `strcspn` for one separator. -/
def strcspn (mem : Bytes) (s : Nat) (delim : UInt8) : Nat :=
  ((mem.drop s).takeWhile fun c => c ≠ delim ∧ c ≠ 0).length

/-- `strtok_r(s, delim, &saveptr)`, or `strtok` with the `saveptr` of its own: the token or null,
    the new `saveptr`, and the memory. -/
def strtokRAt (delim : UInt8) (mem : Bytes) (s : Nat) :
    Except Fault (Option Nat × Nat × Bytes) := do
  let token := s + strspn mem s delim
  let c ← byteAt mem token
  if c = 0 then pure (none, token, mem)
  else do
    let stop := token + strcspn mem token delim
    let c ← byteAt mem stop
    if c = 0 then pure (some token, stop, mem)
    else pure (some token, stop + 1, mem.set stop 0)

/-! ## `parse_command` -/

/-- `struct command`, with its pointers. -/
structure CommandPtr where
  argc : Nat
  name : Option Nat
  argv : List Nat
  deriving DecidableEq, Repr

/-- What a parsed command points to. -/
def CommandPtr.load (mem : Bytes) (c : CommandPtr) : Except Fault Command := do
  let argv ← c.argv.mapM (cstrAt mem)
  match c.name with
  | none => pure ⟨c.argc, none, argv⟩
  | some p => do
    let name ← cstrAt mem p
    pure ⟨c.argc, some name, argv⟩

/-- The loop of `parse_command`, with room for `left` more arguments. -/
def argvLoop : Nat → Option Nat → Nat → Bytes → Except Fault (List Nat × Bytes)
  -- `tokenCount` is `ARG_MAX_COUNT`: the token is dropped.
  | 0, _, _, mem => pure ([], mem)
  | _ + 1, none, _, mem => pure ([], mem)
  | left + 1, some token, save, mem => do
    let (next, save, mem) ← strtokRAt 32 mem save
    let (argv, mem) ← argvLoop left next save mem
    pure (token :: argv, mem)

/-- `strtok(input, " ")` and the loop behind it. -/
def argvFrom (left : Nat) (mem : Bytes) (input : Nat) : Except Fault (List Nat × Bytes) := do
  let (token, save, mem) ← strtokRAt 32 mem input
  argvLoop left token save mem

/-- `parse_command` -/
def parseCommandAt (mem : Bytes) (input : Nat) : Except Fault (CommandPtr × Bytes) := do
  let (argv, mem) ← argvFrom argMaxCount mem input
  -- `argv[0]` is null in the cleared block if there was no token.
  pure (⟨argv.length, argv.head?, argv⟩, mem)

/-! ## `parse_commands_with_pipes` -/

/-- `struct commands`, with its pointers. -/
structure CommandsPtr where
  cmdCount : Nat
  cmds : List (Option CommandPtr)
  deriving DecidableEq, Repr

/-- What a slot points to, if it is not null. -/
def loadSlot (mem : Bytes) : Option CommandPtr → Except Fault (Option Command)
  | none => pure none
  | some c => (c.load mem).map some

/-- What the slots point to. -/
def CommandsPtr.load (mem : Bytes) (c : CommandsPtr) : Except Fault Commands := do
  let cmds ← c.cmds.mapM (loadSlot mem)
  pure ⟨c.cmdCount, cmds⟩

/-- `cmds->cmds[i] = cmd` -/
def storeSlot (slots : List (Option CommandPtr)) (i : Nat) (cmd : CommandPtr) :
    Except Fault (List (Option CommandPtr)) :=
  if i < slots.length then .ok (slots.set i (some cmd)) else .error .outOfBounds

/-- The loop of `parse_commands_with_pipes`; `left` is `commandCount - i`. -/
def pipeLoop : Nat → Nat → List (Option CommandPtr) → Option Nat → Nat → Bytes →
    Except Fault (List (Option CommandPtr) × Bytes)
  | 0, _, slots, _, _, mem => pure (slots, mem)
  | _ + 1, _, slots, none, _, mem => pure (slots, mem)
  | left + 1, i, slots, some token, save, mem => do
    let (cmd, mem) ← parseCommandAt mem token
    let slots ← storeSlot slots i cmd
    let (next, save, mem) ← strtokRAt 124 mem save
    pipeLoop left (i + 1) slots next save mem

/-- `strtok_r(input, "|", &saveptr)` and the loop behind it. -/
def pipesFrom (left i : Nat) (slots : List (Option CommandPtr)) (mem : Bytes) (input : Nat) :
    Except Fault (List (Option CommandPtr) × Bytes) := do
  let (token, save, mem) ← strtokRAt 124 mem input
  pipeLoop left i slots token save mem

/-- `parse_commands_with_pipes` -/
def parseCommandsWithPipesAt (mem : Bytes) (input : Nat) : Except Fault (CommandsPtr × Bytes) := do
  let c ← cstrAt mem input
  let commandCount := c.count 124 + 1
  let (cmds, mem) ← pipesFrom commandCount 0 (List.replicate commandCount none) mem input
  pure (⟨commandCount, cmds⟩, mem)

/-! ## `uvc_runcmd_input_handle` -/

/-- A slot is dereferenced. -/
def derefSlot : Option CommandPtr → Except Fault CommandPtr
  | none => .error .nullDeref
  | some c => .ok c

/-- `uvc_runcmd_input_handle` on its copy of the string, which is as long as the string without
    its terminator: the last byte is overwritten with one. -/
def uvcRuncmdInputHandleAt (os : Os) (cmd : Bytes) (s : Server) : Except Fault (Int × Server) :=
  -- `input[strlen(cmd) - 1]`
  if cmd = [] then .error .outOfBounds
  else do
    let mem := cmd.dropLast ++ [0]
    let input ← cstrAt mem 0
    if 0 < input.length ∧ ¬ isBlank input ∧ ¬ isMultiCmd input ∧ input.head? ≠ some 124 then do
      let (commands, mem) ← parseCommandsWithPipesAt mem 0
      let cmds ← commands.cmds.mapM derefSlot
      if 1 < commands.cmdCount then pure (0, s)
      else
        match cmds with
        | [] => .error .nullDeref
        | first :: _ => do
          let first ← first.load mem
          let builtIn ← checkBuiltIn first
          if builtIn then runBuiltIn os first s else pure (0, s)
    else pure (0, s)

end Udb.Native
