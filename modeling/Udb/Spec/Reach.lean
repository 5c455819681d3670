import Udb.Spec.Pullout
import Udb.Spec.Rlog

/-!
# What holds in every reachable state

`Inv` collects the facts about the server's variables that every step keeps: each
pullout cursor is inside its content, the one stream that can be open is the push
stream, the log is what messages have left in it, and there is no worker without
`single_instance`. It also names the value of `udb_auth_ok`, so that a lemma from
`Inv ok` to `Inv ok` says that a handler leaves the flag alone.

Each handler has one lemma; the induction over the steps is at the end.

## Key results

- `inv_of_reachable`: the invariant holds in every reachable state
- `fresh_of_reachable`: before the key was sent, the state is that of a fresh server
- `closed_of_reachable`: so no channel holds anything and no worker runs
-/

namespace Udb.Spec

open CMem Udb.Native

variable {n : Nat}

/-- A request that `udb_debug_auth` accepts. -/
def presentsKey (cmd : Bytes) : Bool :=
  cmd[3]? == some UdbChanId.auth.toByte && strncmpEq (cmd.drop 4) authKey 16

/-- The invariant of the server. -/
structure Inv (ok : Bool) (s : Server) : Prop where
  auth : s.udbAuthOk = ok
  runcmd : s.udbRuncmdCtrl.cpOffset ≤ s.udbRuncmdCtrl.usedSize
  msh : s.udbMshcmdCtrl.cpOffset ≤ s.udbMshcmdCtrl.usedSize
  pull : s.udbPullfileCtrl.cpOffset ≤ s.udbPullfileCtrl.usedSize
  streams : s.dev.streams = s.udbPushfileCtrl.fp.toList
  log : ∃ msgs, s.rlog = rlogRun msgs
  workers : s.workers.length ≤ s.udbRuncmdWaitCtrl.singleInstance.toNat

/-- The key sets the flag, and nothing clears it. -/
theorem udbDebugAuth_state {buf : Bytes} {resp resp' : Resp n} {s s' : Server}
    (hok : udbDebugAuth buf resp s = .ok (s', resp')) :
    s' = { s with udbAuthOk := s.udbAuthOk || strncmpEq (buf.drop 4) authKey 16 } := by
  unfold udbDebugAuth at hok
  split at hok
  · rename_i hkey
    obtain ⟨r, -, hok⟩ := bind_eq_ok.mp hok
    obtain ⟨rfl, -⟩ := pure_pair_eq_ok.mp hok
    rw [hkey, Bool.or_true]
  · rename_i hkey
    obtain ⟨r, -, hok⟩ := bind_eq_ok.mp hok
    obtain ⟨rfl, -⟩ := pure_pair_eq_ok.mp hok
    rw [Bool.eq_false_iff.mpr hkey, Bool.or_false]

namespace Inv

variable {ok : Bool} {s s' : Server}

/-- No channel has handed out more than it stores. -/
theorem cursor (h : Inv ok s) (ch : Channel) : ch.cpOffset s ≤ ch.usedSize s := by
  cases ch with
  | runcmd => exact h.runcmd
  | msh => exact h.msh
  | pullFile => exact h.pull

/-! ## Small steps -/

/-- What is logged is one more message. -/
private theorem rlogPrintf_run {r : Rlog} (h : ∃ msgs, r = rlogRun msgs) (text : Bytes) :
    ∃ msgs, rlogPrintf r text = rlogRun msgs := by
  obtain ⟨msgs, rfl⟩ := h
  exact ⟨msgs ++ [rlogTag, text], by simp [rlogPrintf, rlogRun]⟩

/-- A message in the log changes nothing else. -/
theorem printf (h : Inv ok s) (text : Bytes) : Inv ok (s.printf text) :=
  { h with log := rlogPrintf_run h.log text }

theorem call (h : Inv ok s) (c : SysCall) : Inv ok (s.call c) := { h with }

/-- The protocol size is not spoken of. -/
theorem setProtSize (h : Inv ok s) (layer : UInt8) : Inv ok (s.setProtSize layer) := { h with }

/-! ## Handlers -/

/-- The last answer of a command for the shell. -/
theorem execFinish {nr : Nat} {resp resp' : Resp n} (h : Inv ok s)
    (hok : execFinish nr s resp = .ok (s', resp')) : Inv ok s' := by
  obtain ⟨r, -, heq⟩ := bind_eq_ok.mp hok
  obtain ⟨rfl, -⟩ := pure_pair_eq_ok.mp heq
  exact { h with runcmd := UInt32.zero_le }

/-- A command that is started is a call into the system. -/
theorem uvcPopen {os : Os} {cmd out : Bytes} {force : Bool} (h : Inv ok s)
    (hok : uvcPopen os cmd force s = some (out, s')) : Inv ok s' := by
  unfold Native.uvcPopen at hok
  dsimp only at hok
  split at hok
  · simp at hok
  · simp only [Option.some.injEq, Prod.mk.injEq] at hok
    obtain ⟨-, rfl⟩ := hok
    exact h.call _

/-- A built-in command goes to another directory, or logs. -/
theorem runBuiltIn {os : Os} {cmd : Command} {ret : Int} (h : Inv ok s)
    (hok : runBuiltIn os cmd s = .ok (ret, s')) : Inv ok s' := by
  obtain ⟨isExit, -, hok⟩ := bind_eq_ok.mp hok
  split at hok
  · -- `exit` logs.
    obtain ⟨-, rfl⟩ := pure_pair_eq_ok.mp hok
    exact h.printf _
  · split at hok
    · -- `cd` without a path does nothing.
      obtain ⟨-, rfl⟩ := pure_pair_eq_ok.mp hok
      exact h
    · split at hok
      · simp at hok
      · -- With a path it calls `chdir`.
        dsimp only at hok
        split at hok <;> obtain ⟨-, rfl⟩ := pure_pair_eq_ok.mp hok <;> exact h.call _

/-- So does a line that may be one. -/
theorem uvcRuncmdInputHandle {os : Os} {cmd : Bytes} {ret : Int} (h : Inv ok s)
    (hok : uvcRuncmdInputHandle os cmd s = .ok (ret, s')) : Inv ok s' := by
  unfold Native.uvcRuncmdInputHandle at hok
  split at hok
  · -- The empty line has no last byte.
    simp at hok
  · dsimp only at hok
    split at hok
    · obtain ⟨cmds, -, hok⟩ := bind_eq_ok.mp hok
      split at hok
      · -- A pipeline is left to the shell.
        obtain ⟨-, rfl⟩ := pure_pair_eq_ok.mp hok
        exact h
      · split at hok
        · -- A piece without a name crashes.
          simp at hok
        · obtain ⟨builtIn, -, hok⟩ := bind_eq_ok.mp hok
          split at hok
          · exact h.runBuiltIn hok
          · -- One command that is no built-in.
            obtain ⟨-, rfl⟩ := pure_pair_eq_ok.mp hok
            exact h
    · -- A line that is not looked at.
      obtain ⟨-, rfl⟩ := pure_pair_eq_ok.mp hok
      exact h

/-- The output of the shell is stored as a whole. -/
theorem runcmdShell {os : Os} {cmd : Bytes} {resp resp' : Resp n} (h : Inv ok s)
    (hok : runcmdShell os cmd resp s = .ok (s', resp')) : Inv ok s' := by
  unfold Native.runcmdShell at hok
  split at hok
  · obtain ⟨rfl, -⟩ := pure_pair_eq_ok.mp hok
    exact { h.printf _ with }
  · rename_i out s₁ hpopen
    obtain ⟨buf, -, hok⟩ := bind_eq_ok.mp hok
    have h₂ : Inv ok { s₁ with runcmdBuf := buf } := { h.uvcPopen hpopen with }
    exact h₂.execFinish hok

/-- `RUN_CMD` stores what it answers. -/
theorem udbDebugRuncmd {os : Os} {buf : Bytes} {resp resp' : Resp n} (h : Inv ok s)
    (hok : udbDebugRuncmd os buf resp s = .ok (s', resp')) : Inv ok s' := by
  obtain ⟨cmd, -, hok⟩ := bind_eq_ok.mp hok
  obtain ⟨⟨ret, s₁⟩, hhandle, hok⟩ := bind_eq_ok.mp hok
  -- The pointer is set first, which nothing depends on.
  have h₁ : Inv ok s₁ := by
    apply Inv.uvcRuncmdInputHandle _ hhandle
    exact { h with }
  dsimp only at hok
  split at hok
  · -- A built-in that was done has one byte to hand out.
    obtain ⟨b, -, hok⟩ := bind_eq_ok.mp hok
    apply Inv.execFinish _ hok
    exact { h₁.printf _ with }
  · split at hok
    · -- Everything else goes to the shell.
      exact runcmdShell (h₁.printf _) hok
    · exact runcmdShell h₁ hok

/-- The three pullout handlers move the cursor up to the end at most. -/
theorem handler (ch : Channel) {buf : Bytes} {resp resp' : Resp n} (h : Inv ok s)
    (hok : ch.handler buf resp s = .ok (s', resp')) : Inv ok s' := by
  rw [Channel.handler_eq] at hok
  obtain ⟨⟨moved, r⟩, hcopy, hok⟩ := bind_eq_ok.mp hok
  obtain ⟨c, -, hcopy⟩ := bind_eq_ok.mp hcopy
  obtain ⟨r₁, -, hcopy⟩ := bind_eq_ok.mp hcopy
  cases hrange : pulloutRange (ch.usedSize s) (ch.cpOffset s) c with
  | none =>
    simp only [hrange, pure_eq_ok, Except.ok.injEq, Prod.mk.injEq] at hcopy
    obtain ⟨rfl, rfl⟩ := hcopy
    obtain ⟨rfl, -⟩ := pure_pair_eq_ok.mp hok
    exact h
  | some range =>
    -- The guard compares the very sum that becomes the new cursor.
    have hle : ch.cpOffset s + c ≤ ch.usedSize s := by
      unfold pulloutRange at hrange
      split at hrange
      · simp at hrange
      · rename_i hgt
        exact UInt32.not_lt.mp hgt
    simp only [hrange] at hcopy
    obtain ⟨data, -, hcopy⟩ := bind_eq_ok.mp hcopy
    obtain ⟨r₂, -, hcopy⟩ := bind_eq_ok.mp hcopy
    obtain ⟨rfl, rfl⟩ := pure_pair_eq_ok.mp hcopy
    dsimp only at hok
    split at hok <;> obtain ⟨rfl, -⟩ := pure_pair_eq_ok.mp hok
    · cases ch with
      | runcmd => exact { h with runcmd := UInt32.zero_le }
      | msh => exact { h with msh := UInt32.zero_le }
      | pullFile => exact { h with pull := UInt32.zero_le }
    · cases ch with
      | runcmd => exact { h with runcmd := hle }
      | msh => exact { h with msh := hle }
      | pullFile => exact { h with pull := hle }

/-- `RUN_CMD_WAIT` creates its thread when there is none. -/
theorem udbDebugRuncmdWait {os : Os} {buf : Bytes} {resp resp' : Resp n} (h : Inv ok s)
    (hok : udbDebugRuncmdWait os buf resp s = .ok (s', resp')) : Inv ok s' := by
  unfold Native.udbDebugRuncmdWait at hok
  dsimp only at hok
  split at hok
  · -- Refused: only the log changes.
    obtain ⟨r, -, hok⟩ := bind_eq_ok.mp hok
    obtain ⟨cmd, -, hok⟩ := bind_eq_ok.mp hok
    obtain ⟨rfl, -⟩ := pure_pair_eq_ok.mp hok
    exact (h.printf _).printf _
  · rename_i hsingle
    obtain ⟨r, -, hok⟩ := bind_eq_ok.mp hok
    obtain ⟨rfl, -⟩ := pure_pair_eq_ok.mp hok
    -- Accepted: there was no worker, and there is one now, if it could be created.
    have hnil : s.workers.length = 0 := by
      have := h.workers
      simp [hsingle] at this
      simp [this]
    refine { h with workers := ?_ }
    dsimp only
    split
    · simp [hnil]
    · omega

/-- Its pullout stays in the buffer, and ends with a cleared one. -/
theorem udbDebugRuncmdWaitPullout {os : Os} {resp resp' : Resp n} (h : Inv ok s)
    (hok : udbDebugRuncmdWaitPullout os resp s = .ok (s', resp')) : Inv ok s' := by
  obtain ⟨r₁, -, hok⟩ := bind_eq_ok.mp hok
  obtain ⟨r₂, -, hok⟩ := bind_eq_ok.mp hok
  obtain ⟨len, -, hok⟩ := bind_eq_ok.mp hok
  obtain ⟨data, -, hok⟩ := bind_eq_ok.mp hok
  obtain ⟨b, -, hok⟩ := bind_eq_ok.mp hok
  dsimp only at hok
  split at hok <;> obtain ⟨rfl, -⟩ := pure_pair_eq_ok.mp hok <;> exact { h with }

/-- A file is read into a block of its size. -/
theorem pullfileRead {os : Os} {path : Bytes} (h : Inv ok s)
    (hok : pullfileRead os path s = .ok s') : Inv ok s' := by
  unfold Native.pullfileRead at hok
  split at hok
  · -- The file could not be opened: the controller is reset.
    simp only [pure_eq_ok, Except.ok.injEq] at hok
    subst hok
    exact { h.printf _ with pull := UInt32.zero_le }
  · -- It was: the cursor is at the start of its content.
    obtain ⟨block, -, hok⟩ := bind_eq_ok.mp hok
    simp only [pure_eq_ok, Except.ok.injEq] at hok
    subst hok
    exact { h.printf _ with pull := UInt32.zero_le }

/-- `PULL_FILE_INIT` frees the block of an earlier pull. -/
theorem udbDebugPullfileInit {os : Os} {buf : Bytes} {resp resp' : Resp n} (h : Inv ok s)
    (hok : udbDebugPullfileInit os buf resp s = .ok (s', resp')) : Inv ok s' := by
  obtain ⟨path, -, hok⟩ := bind_eq_ok.mp hok
  obtain ⟨s₁, hread, hok⟩ := bind_eq_ok.mp hok
  obtain ⟨r, -, hok⟩ := bind_eq_ok.mp hok
  obtain ⟨rfl, -⟩ := pure_pair_eq_ok.mp hok
  exact (h.call _).pullfileRead hread

/-- After `udb_debug_pushfile_init` has closed an old stream no stream is open. -/
theorem pushfileClose (h : Inv ok s) :
    ∃ dev, pushfileClose s = { s with dev := dev } ∧ dev.streams = [] ∧
      dev.files = s.dev.files := by
  have hstreams := h.streams
  unfold Native.pushfileClose
  split
  · rename_i hfp
    exact ⟨s.dev, rfl, by rw [hstreams, hfp]; rfl, rfl⟩
  · rename_i old hfp
    exact ⟨s.dev.close old, rfl, by simp [Device.close, Device.call, hstreams, hfp], rfl⟩

/-- `PUSH_FILE_INIT` has one file open, or none. -/
theorem udbDebugPushfileInit {os : Os} {buf : Bytes} {resp resp' : Resp n} (h : Inv ok s)
    (hok : udbDebugPushfileInit os buf resp s = .ok (s', resp')) : Inv ok s' := by
  obtain ⟨dev, hclose, hclosed, -⟩ := h.pushfileClose
  unfold Native.udbDebugPushfileInit at hok
  rw [hclose] at hok
  obtain ⟨path, -, hok⟩ := bind_eq_ok.mp hok
  split at hok
  · -- Behind the close of the old stream the new one is the only one.
    obtain ⟨fileLen, -, hok⟩ := bind_eq_ok.mp hok
    obtain ⟨r, -, hok⟩ := bind_eq_ok.mp hok
    obtain ⟨rfl, -⟩ := pure_pair_eq_ok.mp hok
    apply Inv.printf
    exact { h with streams := by simp [Device.openWrite, Device.call, hclosed] }
  · -- Or there is none.
    obtain ⟨r, -, hok⟩ := bind_eq_ok.mp hok
    obtain ⟨rfl, -⟩ := pure_pair_eq_ok.mp hok
    apply Inv.printf
    exact { h with streams := by simp [Device.call, hclosed] }

/-- A chunk is written to the device. -/
theorem udbDebugPushfileProc {os : Os} {buf : Bytes} {resp resp' : Resp n} (h : Inv ok s)
    (hok : udbDebugPushfileProc os buf resp s = .ok (s', resp')) : Inv ok s' := by
  obtain ⟨data, -, hok⟩ := bind_eq_ok.mp hok
  obtain ⟨s₁, hs₁, hok⟩ := bind_eq_ok.mp hok
  obtain ⟨r, -, hok⟩ := bind_eq_ok.mp hok
  obtain ⟨rfl, -⟩ := pure_pair_eq_ok.mp hok
  unfold fwriteFp at hs₁
  split at hs₁
  · -- A null stream.
    simp at hs₁
  · -- The data goes to the stream that is open.
    simp only [Except.ok.injEq] at hs₁
    subst hs₁
    exact { h with streams := h.streams }

/-- `PUSH_FILE_FINI` closes the file. -/
theorem udbDebugPushfileFini {resp resp' : Resp n} (h : Inv ok s)
    (hok : udbDebugPushfileFini resp s = .ok (s', resp')) : Inv ok s' := by
  unfold Native.udbDebugPushfileFini at hok
  split at hok
  · simp at hok
  · rename_i path hfp
    obtain ⟨r, -, hok⟩ := bind_eq_ok.mp hok
    obtain ⟨rfl, -⟩ := pure_pair_eq_ok.mp hok
    exact { h with streams := by simp [Device.close, Device.call, h.streams, hfp] }

/-- A message fits its buffer. -/
theorem mshStore {msg : Bytes} {resp resp' : Resp n} (h : Inv ok s)
    (hok : mshStore msg resp s = .ok (s', resp')) : Inv ok s' := by
  obtain ⟨b, -, hok⟩ := bind_eq_ok.mp hok
  obtain ⟨r, -, hok⟩ := bind_eq_ok.mp hok
  obtain ⟨rfl, -⟩ := pure_pair_eq_ok.mp hok
  exact { h with msh := UInt32.zero_le }

theorem mshCommand {cmd : Bytes} {resp resp' : Resp n} (h : Inv ok s)
    (hok : mshCommand cmd resp s = .ok (s', resp')) : Inv ok s' := by
  unfold Native.mshCommand at hok
  split at hok
  · exact h.mshStore hok
  · split at hok
    · obtain ⟨msg, -, hok⟩ := bind_eq_ok.mp hok
      exact h.mshStore hok
    · obtain ⟨rfl, -⟩ := pure_pair_eq_ok.mp hok
      exact h

/-- So does every `msh` command. -/
theorem udbDebugMsh {buf : Bytes} {resp resp' : Resp n} (h : Inv ok s)
    (hok : udbDebugMsh buf resp s = .ok (s', resp')) : Inv ok s' := by
  obtain ⟨⟨s₁, r⟩, hcmd, hok⟩ := bind_eq_ok.mp hok
  obtain ⟨rfl, -⟩ := pure_pair_eq_ok.mp hok
  apply Inv.mshCommand _ hcmd
  exact { h with }

/-- Only the key sets the flag. -/
theorem udbDebugAuth {buf : Bytes} {resp resp' : Resp n} (h : Inv ok s)
    (hok : udbDebugAuth buf resp s = .ok (s', resp')) :
    Inv (ok || strncmpEq (buf.drop 4) authKey 16) s' := by
  rw [udbDebugAuth_state hok]
  exact { h with auth := by rw [← h.auth] }

/-- No channel does. -/
theorem dispatch {os : Os} {chanId : UInt8} {cmd : Bytes} {resp resp' : Resp n} (h : Inv ok s)
    (hok : dispatch os chanId cmd resp s = .ok (s', resp')) : Inv ok s' := by
  unfold Native.dispatch at hok
  split at hok
  · exact h.udbDebugRuncmd hok
  · exact h.handler .runcmd hok
  · exact h.udbDebugRuncmdWait hok
  · exact h.udbDebugRuncmdWaitPullout hok
  · exact h.udbDebugPullfileInit hok
  · exact h.handler .pullFile hok
  · exact h.udbDebugPushfileInit hok
  · exact h.udbDebugPushfileProc hok
  · exact h.udbDebugPushfileFini hok
  · exact h.udbDebugMsh hok
  · exact h.handler .msh hok
  · obtain ⟨r, -, hok⟩ := bind_eq_ok.mp hok
    obtain ⟨rfl, -⟩ := pure_pair_eq_ok.mp hok
    exact h.printf _

/-- A request sets the flag exactly when it presents the key, and never clears it. -/
theorem udbDebugBridge {os : Os} {layer : UInt8} {cmd : Bytes} {resp resp' : Resp n} (h : Inv ok s)
    (hok : udbDebugBridge os layer cmd resp s = .ok (s', resp')) :
    Inv (ok || presentsKey cmd) s' := by
  have h₁ := h.setProtSize layer
  unfold Native.udbDebugBridge at hok
  dsimp only at hok
  unfold presentsKey
  split at hok
  · simp at hok
  · rename_i chanId hchan
    rw [udbCmdChannelIdOffset] at hchan
    split at hok
    · -- The channel of the key, which is looked at in every state.
      rename_i hauth
      rw [hchan, hauth, beq_self_eq_true, Bool.true_and]
      exact h₁.udbDebugAuth hok
    · rename_i hauth
      have hne : (cmd[3]? == some UdbChanId.auth.toByte) = false := by
        rw [hchan]
        simpa using hauth
      rw [hne, Bool.false_and, Bool.or_false]
      split at hok
      · exact h₁.dispatch hok
      · -- Without the flag nothing but the protocol size changes.
        obtain ⟨rfl, -⟩ := pure_pair_eq_ok.mp hok
        exact h₁

/-! ## Steps -/

/-- A thread starts with an empty buffer. -/
theorem threadStart {os : Os} {cmd : Bytes} {w : Worker} (h : Inv ok s)
    (hok : threadStart os cmd s = .ok (s', w)) : Inv ok s' := by
  unfold Native.threadStart at hok
  dsimp only at hok
  split at hok
  · split at hok
    · -- The shell could not be started.
      obtain ⟨rfl, -⟩ := pure_pair_eq_ok.mp hok
      apply Inv.printf
      exact { h with }
    · -- It was started.
      rename_i out s₁ hpopen
      obtain ⟨rfl, -⟩ := pure_pair_eq_ok.mp hok
      apply Inv.uvcPopen _ hpopen
      exact { h with }
  · -- The command does not fit the array.
    simp at hok

/-- A line is put behind the others, or the thread gives up. -/
theorem threadLine {os : Os} {threadCmd buffer : Bytes} {w : Worker} (h : Inv ok s)
    (hok : threadLine os threadCmd buffer s = .ok (s', w)) : Inv ok s' := by
  unfold Native.threadLine at hok
  dsimp only at hok
  split at hok
  · -- Nobody has polled for too long.
    obtain ⟨rfl, -⟩ := pure_pair_eq_ok.mp hok
    exact (h.printf _).printf _
  · split at hok
    · -- There is no buffer to store in.
      simp at hok
    · -- The line is stored behind the others.
      obtain ⟨b, -, hok⟩ := bind_eq_ok.mp hok
      obtain ⟨rfl, -⟩ := pure_pair_eq_ok.mp hok
      exact { h with }

/-- Where a thread stands is not spoken of. -/
private theorem setWorker (h : Inv ok s) (i : Nat) (w : Worker) :
    Inv ok { s with workers := s.workers.set i w } :=
  { h with workers := by simpa using h.workers }

/-- Every step of a thread keeps the invariant. -/
theorem workerStep {i : Nat} {e : WorkerEvent} (h : Inv ok s) (hst : WorkerStep i e s s') :
    Inv ok s' := by
  cases hst with
  | start hw hok => exact (h.threadStart hok).setWorker i _
  | line hw hb hok => exact (h.threadLine hok).setWorker i _
  | eof hw =>
    have heof : Inv ok (threadEof s).1 := { h with }
    exact heof.setWorker i _
  | exit hw =>
    -- The only worker leaves as it resets the flag.
    obtain ⟨hi, -⟩ := List.getElem?_eq_some_iff.mp hw
    have hone : s.udbRuncmdWaitCtrl.singleInstance.toNat ≤ 1 := Bool.toNat_le _
    have hlen := h.workers
    refine { h with workers := ?_ }
    rw [List.length_eraseIdx_of_lt hi]
    show s.workers.length - 1 ≤ 0
    omega

/-- Every step of the system does, with the flag if it was the key. -/
theorem step (h : Inv ok s) (hst : Step s s') : ∃ key : Bool, Inv (ok || key) s' := by
  cases hst with
  | @request _ os layer cmd reply _ hok =>
    obtain ⟨⟨s₁, resp⟩, hbridge, hok⟩ := bind_eq_ok.mp hok
    obtain ⟨rfl, -⟩ := pure_pair_eq_ok.mp hok
    exact ⟨presentsKey cmd, h.udbDebugBridge hbridge⟩
  | worker hw => exact ⟨false, by simpa using h.workerStep hw⟩
  | printf text => exact ⟨false, by simpa using h.printf text⟩
  | files files => exact ⟨false, by rw [Bool.or_false]; exact { h with }⟩

/-- It holds at the start. -/
theorem init (banner : List Bytes) (files : Bytes → Option Bytes) :
    Inv false (Server.init banner files) := by
  refine ⟨rfl, UInt32.zero_le, UInt32.zero_le, UInt32.zero_le, rfl, ?_, Nat.zero_le _⟩
  suffices hb : ∀ r : Rlog, (∃ msgs, r = rlogRun msgs) →
      ∃ msgs, banner.foldl rlogPrintf r = rlogRun msgs from hb rlogInit ⟨[], rfl⟩
  induction banner with
  | nil => exact fun r h => h
  | cons text banner ih => exact fun r h => ih _ (rlogPrintf_run h text)

end Inv

/-- Without the flag a request changes nothing but the protocol size and the flag. -/
theorem bridge_of_closed {os : Os} {layer : UInt8} {cmd : Bytes} {resp resp' : Resp n}
    {s s' : Server} (hno : s.udbAuthOk = false)
    (hok : udbDebugBridge os layer cmd resp s = .ok (s', resp')) :
    s' = { s.setProtSize layer with udbAuthOk := presentsKey cmd } := by
  unfold udbDebugBridge at hok
  simp only [Server.udbAuthOk_setProtSize, hno, udbCmdChannelIdOffset] at hok
  split at hok
  · cases hok
  · rename_i chanId hchan
    unfold presentsKey
    rw [hchan]
    split at hok
    · -- The packet is on the channel of the key: the flag is what the comparison says.
      rename_i hauth
      rw [udbDebugAuth_state hok, hauth, beq_self_eq_true, Server.udbAuthOk_setProtSize, hno,
        Bool.false_or, Bool.true_and]
    · -- On any other channel nothing is handled.
      rename_i hauth
      obtain ⟨rfl, -⟩ := pure_pair_eq_ok.mp hok
      have hne : (some chanId == some UdbChanId.auth.toByte) = false := by simpa using hauth
      rw [hne, Bool.false_and, ← hno]
      rfl

/-- The invariant holds in every reachable state. -/
theorem inv_of_reachable {s : Server} (h : Reachable s) : Inv s.udbAuthOk s := by
  induction h with
  | init banner files => exact Inv.init banner files
  | step _ hst ih =>
    obtain ⟨key, h'⟩ := ih.step hst
    rw [← h'.auth] at h'
    exact h'

/-- Before the key was sent, the state is a fresh one, but for the protocol size, the log and
    the files. -/
theorem fresh_of_reachable {s : Server} (h : Reachable s) (hno : s.udbAuthOk = false) :
    ∃ protSize rlog files,
      s = { Server.init [] files with udbProtSize := protSize, rlog := rlog } := by
  induction h with
  | init banner files => exact ⟨_, _, files, rfl⟩
  | @step s s' hs hst ih =>
    have hno₀ : s.udbAuthOk = false := by
      obtain ⟨key, h'⟩ := (inv_of_reachable hs).step hst
      rw [h'.auth, Bool.or_eq_false_iff] at hno
      exact hno.1
    obtain ⟨protSize, rlog, files, rfl⟩ := ih hno₀
    cases hst with
    | @request _ os layer cmd reply _ hok =>
      obtain ⟨⟨s₁, resp⟩, hbridge, hok⟩ := bind_eq_ok.mp hok
      obtain ⟨rfl, -⟩ := pure_pair_eq_ok.mp hok
      obtain rfl := bridge_of_closed hno₀ hbridge
      -- The key was not in this request either.
      have hkey : presentsKey cmd = false := hno
      exact ⟨layerProtSize layer, rlog, files, by rw [hkey]; rfl⟩
    | worker hstep =>
      cases hstep with
      | start hw | line hw | eof hw | exit hw => cases hw
    | printf text => exact ⟨protSize, rlogPrintf rlog text, files, rfl⟩
    | files files' => exact ⟨protSize, rlog, files', rfl⟩

/-- Before the key was sent, no channel holds anything and no worker runs. -/
theorem closed_of_reachable {s : Server} (h : Reachable s) (hno : s.udbAuthOk = false) :
    s.workers = [] ∧ ∀ ch : Channel, ch.usedSize s = 0 ∧ ch.cpOffset s = 0 := by
  obtain ⟨protSize, rlog, files, rfl⟩ := fresh_of_reachable h hno
  exact ⟨rfl, fun ch => by cases ch <;> exact ⟨rfl, rfl⟩⟩

/-- A file is only open for a client that has sent the key. -/
theorem auth_of_open {s : Server} (h : Reachable s) {path : Bytes}
    (hfp : s.udbPushfileCtrl.fp = some path) : s.udbAuthOk = true := by
  cases hauth : s.udbAuthOk with
  | true => rfl
  | false =>
    obtain ⟨protSize, rlog, files, rfl⟩ := fresh_of_reachable h hauth
    cases hfp

/-! ## Authenticated states -/

/-- The key is accepted in every state, and nothing but the flag and the protocol size
    changes. -/
theorem request_auth (os : Os) (layer : UInt8) {cmd : Bytes} (s : Server)
    (hcmd : cmd[3]? = some UdbChanId.auth.toByte)
    (hkey : strncmpEq (cmd.drop 4) authKey 16 = true) :
    request os layer cmd s = .ok ({ s.setProtSize layer with udbAuthOk := true },
      padTo (layerProtSize layer) (ascii "AUTHOK")) := by
  have hp := layerProtSize_bounds layer
  have hlen : (ascii "AUTHOK").length ≤ layerProtSize layer := by
    show 6 ≤ _
    omega
  simp only [request, Native.udbDebugBridge, udbCmdChannelIdOffset, hcmd, if_true,
    Native.udbDebugAuth, hkey, Server.udbProtSize_setProtSize, answer_zero hlen, ok_bind,
    pure_eq_ok, sent_fill]

/-- A device on which everything succeeds: every file holds `content` and every command
    prints `out`. -/
def willing (content out : Bytes) : Os where
  fopenRead _ := some ⟨content.length, content⟩
  malloc _ := some fun _ => 0
  fopenWrite _ := true
  fwrite data := data.length
  chdir _ := true
  spawn _ := some out
  pthreadCreate := true
  strerror := []
  bootMs := 0

/-- A server that has just been authenticated, with `files` on the device. -/
def authed (files : Bytes → Option Bytes) : Server :=
  { (Server.init [] files).setProtSize udbLayerDef with udbAuthOk := true }

/-- The server behind its first key. -/
theorem reachable_authed (files : Bytes → Option Bytes) : Reachable (authed files) := by
  have hreq := request_auth (willing [] []) udbLayerDef (Server.init [] files)
    (rfl : (padTo 64 (channelHeader .auth ++ authKey))[3]? = some UdbChanId.auth.toByte)
    (by decide)
  exact .step (.init [] files) (.request rfl hreq)

end Udb.Spec
