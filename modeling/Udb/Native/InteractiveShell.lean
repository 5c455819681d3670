import Udb.Native.Client

/-!
# The interactive shell (`shell.cpp`)

`interactive_shell` shows the directory of the device, and then takes lines from
`stdin` until one of them starts with `exit`, or there are no more. Each line is run
and its output pulled, and behind it the directory is asked for again.

It is one client whose three loops are the pull loop of `exec_cmd`, with the read
buffer cleared whole. The loop behind the prompt looks at the last character of
what it has read, and does not ask whether there is one.
-/

namespace Udb.Native

open CMem StopAndWait

/-! ## Lines -/

/-- `fgets(buf, size, stdin)`: what is stored in front of the terminator and what is left of
    `stdin`, or nothing at its end. -/
def fgets (size : Nat) (stdin : Bytes) : Option (Bytes × Bytes) :=
  if stdin = [] then none
  else
    let room := stdin.take (size - 1)
    let body := room.takeWhile (· ≠ 10)
    let len := if body.length < room.length then body.length + 1 else body.length
    some (stdin.take len, stdin.drop len)

/-- `strncmp((char *)write_buf + 4, "exit", 4) == 0` -/
def startsExit (line : Bytes) : Bool := strncmpEq line (ascii "exit") 4

/-! ## Packets -/

/-- `"pwd\n"` -/
def pwdLine : Bytes := ascii "pwd\n"

/-- The packet that asks for the directory. -/
def pwdPacket (protSize : Nat) : Except Fault (Buf protSize) := do
  let writeBuf ← setUdbChannelHeader (Buf.zero protSize) .runCmd
  writeBuf.memcpy 4 pwdLine

/-- The packet of a line: `fgets` has stored it, with its terminator, in front of the header. -/
def linePacket (protSize : Nat) (line : Bytes) : Except Fault (Buf protSize) := do
  let writeBuf ← (Buf.zero protSize).memcpy 4 (line ++ [0])
  setUdbChannelHeader writeBuf .runCmd

/-! ## The client -/

/-- The three loops: the first directory, the output of a line, the directory behind it. -/
inductive ShellLoop where
  | cwd
  | line
  | prompt
  deriving DecidableEq, Repr

/-- What the loop behind the prompt prints of a string that is not empty. -/
def printPrompt (readBuf : Bytes) (_cpSize : Nat) : Bytes :=
  let str := cstr readBuf
  if str.getLast? = some 10 then str.dropLast else str

/-- What is printed of a reply. -/
def ShellLoop.sink : ShellLoop → Bytes → Nat → Bytes
  | cwd => printReply
  | line => printReply
  | prompt => printPrompt

/-- Each loop, with the request in front of it. -/
def shellCmd {protSize : Nat} (loop : ShellLoop) (packet : Buf protSize) : PullCmd protSize where
  initPacket := packet
  chan := .runCmdPullout
  clearLen := protSize + 1
  clearLen_le := le_rfl
  sink := loop.sink

/-- Where `interactive_shell` stands. -/
inductive ShellPhase where
  | running (loop : ShellLoop)
  | exited
  | crashed
  deriving DecidableEq, Repr

/-- The variables of `interactive_shell`; `pull.out` is all that was printed. -/
structure ShellState (protSize : Nat) where
  phase : ShellPhase
  writeBuf : Buf protSize
  pull : PullState protSize
  stdin : Bytes

namespace Shell

variable {protSize : Nat}

/-- A request is built, with the read buffer cleared, and a loop begins. -/
def enter (loop : ShellLoop) (packet : Except Fault (Buf protSize)) (out : Bytes)
    (st : ShellState protSize) : ShellState protSize :=
  match packet with
  | .error _ => { st with phase := .crashed }
  | .ok writeBuf => { st with
    phase := .running loop
    writeBuf := writeBuf
    pull := { PullCmd.init protSize with out := out } }

/-- The prompt, and the next line. -/
def readLine (st : ShellState protSize) : ShellState protSize :=
  let out := st.pull.out ++ ascii ">"
  match fgets (protSize - 4) st.stdin with
  | none => { st with phase := .exited, pull := { st.pull with out := out } }
  | some (line, stdin) =>
    if startsExit line then
      { st with
        phase := .exited
        pull := { st.pull with out := out ++ ascii "exit\n" }
        stdin := stdin }
    else enter .line (linePacket protSize line) out { st with stdin := stdin }

/-- What comes behind a loop. -/
def behind (loop : ShellLoop) (st : ShellState protSize) : ShellState protSize :=
  match loop with
  | .line => enter .prompt (pwdPacket protSize) st.pull.out st
  | .cwd | .prompt => readLine st

/-- The first request is built. -/
def init (protSize : Nat) (stdin : Bytes) : ShellState protSize :=
  enter .cwd (pwdPacket protSize) [] ⟨.crashed, Buf.zero protSize, PullCmd.init protSize, stdin⟩

def next (st : ShellState protSize) : Action Bytes :=
  match st.phase with
  | .running loop => (shellCmd loop st.writeBuf).next st.pull
  | .exited => .finished
  | .crashed => .crashed

/-- Goes on behind a loop that is done. -/
def settle (loop : ShellLoop) (st : ShellState protSize) : ShellState protSize :=
  if st.pull.phase = .finished then behind loop st else st

def recv (st : ShellState protSize) (reply : Option Bytes) : ShellState protSize :=
  match st.phase with
  | .running loop =>
    let pull := (shellCmd loop st.writeBuf).recv st.pull reply
    -- `read_buf[idx]`, with `idx` in front of the buffer.
    if loop = .prompt ∧ st.pull.phase = .pullout ∧ cstr pull.readBuf.bytes = [] then
      { st with phase := .crashed }
    else settle loop { st with pull := pull }
  | .exited | .crashed => st

/-- `interactive_shell` as a stop-and-wait client. -/
def client : Client (ShellState protSize) Bytes Bytes := ⟨next, recv⟩

end Shell

end Udb.Native
