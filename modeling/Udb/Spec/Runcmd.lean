import Udb.Spec.Args
import Udb.Spec.Reach

/-!
# Running a command

`udb_debug_runcmd` clears the static buffer, reads the output of the shell into it
up to the last byte, and announces its length; `exec_cmd` then prints exactly
that. The byte behind the client's packet is never written, so each reply is a
terminated string.
-/

namespace Udb.Spec

open CMem StopAndWait Udb.Native

variable {os : Os} {s s' : Server}

/-! ## In front of the shell -/

/-- Handling a built-in command logs, and calls the operating system. -/
private theorem runBuiltIn_frame {cmd : Command} {ret : Int}
    (h : runBuiltIn os cmd s = .ok (ret, s')) :
    ∃ rlog calls, s' = { s with rlog := rlog, dev := { s.dev with calls := calls } } := by
  obtain ⟨isExit, -, h⟩ := bind_eq_ok.mp h
  split at h
  · -- `exit` logs, `cd` calls `chdir`, and nothing else is touched.
    exact ⟨_, _, (pure_pair_eq_ok.mp h).2.symm⟩
  · split at h
    · exact ⟨_, _, (pure_pair_eq_ok.mp h).2.symm⟩
    · split at h
      · simp at h
      · dsimp only at h
        split at h <;> exact ⟨_, _, (pure_pair_eq_ok.mp h).2.symm⟩

/-- The handler logs and calls the system, and changes nothing else. -/
private theorem uvcRuncmdInputHandle_frame {cmd : Bytes} {ret : Int}
    (h : uvcRuncmdInputHandle os cmd s = .ok (ret, s')) :
    ∃ rlog calls, s' = { s with rlog := rlog, dev := { s.dev with calls := calls } } := by
  unfold uvcRuncmdInputHandle at h
  split at h
  · simp at h
  · dsimp only at h
    split at h
    · -- What is looked at may end in a built-in.
      obtain ⟨cmds, -, h⟩ := bind_eq_ok.mp h
      split at h
      · exact ⟨_, _, (pure_pair_eq_ok.mp h).2.symm⟩
      · split at h
        · simp at h
        · obtain ⟨builtIn, -, h⟩ := bind_eq_ok.mp h
          split at h
          · exact runBuiltIn_frame h
          · exact ⟨_, _, (pure_pair_eq_ok.mp h).2.symm⟩
    · -- What is not is left alone.
      exact ⟨_, _, (pure_pair_eq_ok.mp h).2.symm⟩

/-- What a built-in command returns does not depend on the state. -/
private theorem runBuiltIn_fst (os : Os) (cmd : Command) (s s₁ : Server) :
    (runBuiltIn os cmd s).map Prod.fst = (runBuiltIn os cmd s₁).map Prod.fst := by
  unfold runBuiltIn
  cases nameIs cmd "exit" with
  | error e => rfl
  | ok isExit =>
    -- The value depends on the words and on `chdir`, not on the server.
    rw [ok_bind, ok_bind]
    split
    · rfl
    · split
      · rfl
      · split
        · rfl
        · dsimp only
          split <;> rfl

/-- What becomes of a command line does not depend on the state. -/
private theorem uvcRuncmdInputHandle_fst (os : Os) (cmd : Bytes) (s s₁ : Server) :
    (uvcRuncmdInputHandle os cmd s).map Prod.fst =
      (uvcRuncmdInputHandle os cmd s₁).map Prod.fst := by
  -- Neither the tests nor the parser look at the state, and a built-in only adds to it.
  unfold uvcRuncmdInputHandle
  split
  · rfl
  · dsimp only
    split
    · cases derefSlots (parseCommandsWithPipes cmd.dropLast) with
      | error e => rfl
      | ok cmds =>
        rw [ok_bind, ok_bind]
        split
        · rfl
        · cases cmds with
          | nil => rfl
          | cons first cmds =>
            dsimp only
            cases checkBuiltIn first with
            | error e => rfl
            | ok builtIn =>
              rw [ok_bind, ok_bind]
              split
              · exact runBuiltIn_fst os first s s₁
              · rfl
    · rfl

/-- The command line goes to the shell: it is not a built-in command, or one that fails. -/
def HandedToShell (os : Os) (cmd : Bytes) (s : Server) : Prop :=
  ∃ ret s', uvcRuncmdInputHandle os cmd s = .ok (ret, s') ∧ ret ≤ 0

/-- Nor does what the handler returns. -/
theorem uvcRuncmdInputHandle_of_state {cmd : Bytes} {ret : Int}
    (h : uvcRuncmdInputHandle os cmd s = .ok (ret, s')) (s₁ : Server) :
    ∃ s₁', uvcRuncmdInputHandle os cmd s₁ = .ok (ret, s₁') := by
  have hsame := uvcRuncmdInputHandle_fst os cmd s₁ s
  rw [h] at hsame
  cases h₁ : uvcRuncmdInputHandle os cmd s₁ with
  | error e => rw [h₁] at hsame; cases hsame
  | ok res =>
    rw [h₁] at hsame
    obtain rfl : res.1 = ret := Except.ok.inj hsame
    exact ⟨res.2, rfl⟩

/-- What goes to the shell in one state does so in every other. -/
theorem HandedToShell.of_state {cmd : Bytes} (h : HandedToShell os cmd s) (s₁ : Server) :
    HandedToShell os cmd s₁ := by
  obtain ⟨ret, s', hok, hret⟩ := h
  obtain ⟨s₁', h₁⟩ := uvcRuncmdInputHandle_of_state hok s₁
  exact ⟨ret, s₁', h₁, hret⟩

/-! ## What a request leaves -/

/-- What the buffer has room for. -/
def keptOutput (out : Bytes) : Bytes := out.take (udbBufSize - 1)

/-- The output that is kept has room for its end. -/
theorem length_keptOutput_lt (out : Bytes) : (keptOutput out).length < udbBufSize := by
  have : 0 < udbBufSize := by decide
  rw [keptOutput, List.length_take]
  omega

/-- What becomes of a command line: a built-in command that is done, one for the shell that cannot
    be spawned, or the output of the shell. -/
inductive RuncmdResult where
  | builtIn
  | failed
  | output (out : Bytes)

/-- The server takes the command line so, in whatever state it is. -/
inductive Taken (os : Os) (cmd : Bytes) : RuncmdResult → Prop where
  | builtIn {ret : Int} {s s' : Server} (h : uvcRuncmdInputHandle os cmd s = .ok (ret, s'))
      (hret : 0 < ret) : Taken os cmd .builtIn
  | failed {s : Server} (h : HandedToShell os cmd s)
      (hspawn : os.spawn (popenExec cmd true) = none) : Taken os cmd .failed
  | output {s : Server} {out : Bytes} (h : HandedToShell os cmd s)
      (hspawn : os.spawn (popenExec cmd true) = some out) : Taken os cmd (.output out)

namespace RuncmdResult

/-- The buffer behind it. A built-in command stores one byte; the shell's output is stored in the
    cleared buffer. -/
def store (b : Buf udbBufSize) : RuncmdResult → Buf udbBufSize
  | builtIn => b.write 0 (ascii "\n") (by decide)
  | failed => Buf.zero udbBufSize
  | output out => Buf.fill udbBufSize (keptOutput out) (length_keptOutput_lt out).le

/-- The controller behind it. When nothing was spawned, nothing is announced. -/
def control (ctrl : PulloutUnit) : RuncmdResult → PulloutUnit
  | builtIn => ⟨.buf, UInt32.ofNat udbBufSize, UInt32.ofNat 1, 0⟩
  | failed => ⟨.buf, UInt32.ofNat udbBufSize, ctrl.usedSize, ctrl.cpOffset⟩
  | output out =>
    ⟨.buf, UInt32.ofNat udbBufSize, UInt32.ofNat (keptOutput out).length, 0⟩

/-- The reply. -/
def answer {n : Nat} (resp : Resp n) (protSize : Nat) : RuncmdResult → Except Fault (Resp n)
  | builtIn => resp.answer (le32 (UInt32.ofNat 1)) protSize
  | failed => .ok resp
  | output out => resp.answer (le32 (UInt32.ofNat (keptOutput out).length)) protSize

/-- The server behind it. The log and the calls are left open. -/
def done (s : Server) (rlog : Rlog) (calls : List SysCall) (res : RuncmdResult) : Server :=
  { s with
    runcmdBuf := res.store s.runcmdBuf
    udbRuncmdCtrl := res.control s.udbRuncmdCtrl
    rlog := rlog
    dev := { s.dev with calls := calls } }

end RuncmdResult

section Taken

variable {n : Nat} {buf cmd : Bytes} {resp resp' : Resp n} {res : RuncmdResult}

/-- The answer to a built-in command. -/
theorem memcpy_newline (b : Buf udbBufSize) :
    b.memcpy 0 (ascii "\n") = .ok (RuncmdResult.store b .builtIn) := dif_pos (by decide)

/-- The answer to one for the shell. -/
private theorem memcpy_keptOutput (out : Bytes) :
    (Buf.zero udbBufSize).memcpy 0 (out.take (udbBufSize - 1)) =
      .ok (RuncmdResult.store (Buf.zero udbBufSize) (.output out)) :=
  Buf.memcpy_zero (length_keptOutput_lt out).le

/-- The server in front of the shell: the pointer is set, and something may have been logged. -/
def pointed (s : Server) (rlog : Rlog) (calls : List SysCall) : Server :=
  { runcmdPoint s with rlog := rlog, dev := { s.dev with calls := calls } }

/-- Whatever becomes of a command, the last byte of the buffer stays a terminator. -/
theorem RuncmdResult.getLast?_store {b : Buf udbBufSize} (h : b.bytes.getLast? = some 0)
    (res : RuncmdResult) : (res.store b).bytes.getLast? = some 0 := by
  have hsize : udbBufSize = 655360 := rfl
  cases res with
  | builtIn => exact Buf.getLast?_memcpy (memcpy_newline b) h (.inl (by decide))
  | failed =>
    -- The buffer is cleared.
    show (List.replicate udbBufSize (0 : UInt8)).getLast? = some 0
    rw [List.getLast?_replicate, if_neg (by omega)]
  | output out =>
    -- The output is cut in front of the last byte.
    have hlt := length_keptOutput_lt out
    show (keptOutput out ++ List.replicate _ (0 : UInt8)).getLast? = some 0
    rw [List.getLast?_append, List.getLast?_replicate, if_neg (by omega), Option.some_or]

/-- What becomes of a line for the shell. -/
private theorem runcmdShell_cases {rlog : Rlog} {calls : List SysCall}
    (hshell : HandedToShell os cmd s)
    (h : runcmdShell os cmd resp (pointed s rlog calls) = .ok (s', resp')) :
    ∃ res rlog' calls', Taken os cmd res ∧ res.answer resp s.udbProtSize = .ok resp' ∧
      s' = res.done s rlog' calls' := by
  unfold runcmdShell uvcPopen at h
  dsimp only at h
  cases hspawn : os.spawn (popenExec cmd true) with
  | none =>
    -- The shell could not be started.
    simp only [hspawn] at h
    obtain ⟨hs', rfl⟩ := pure_pair_eq_ok.mp h
    exact ⟨.failed, s'.rlog, s'.dev.calls, .failed hshell hspawn, rfl, by rw [← hs']; rfl⟩
  | some out =>
    -- Its output is copied into the buffer.
    simp only [hspawn, memcpy_keptOutput, ok_bind] at h
    obtain ⟨r, hans, h⟩ := bind_eq_ok.mp h
    obtain ⟨hs', rfl⟩ := pure_pair_eq_ok.mp h
    exact ⟨.output out, s'.rlog, s'.dev.calls, .output hshell hspawn, hans, by rw [← hs']; rfl⟩

/-- What `RUN_CMD` has done when it returns. -/
theorem udbDebugRuncmd_cases (h : udbDebugRuncmd os buf resp s = .ok (s', resp')) :
    ∃ cmd res rlog calls, cstrAt buf udbCmdPkgContentOffset = .ok cmd ∧ Taken os cmd res ∧
      res.answer resp s.udbProtSize = .ok resp' ∧ s' = res.done s rlog calls := by
  obtain ⟨cmd, hcmd, h⟩ := bind_eq_ok.mp h
  obtain ⟨⟨ret, s₁⟩, hhandle, h⟩ := bind_eq_ok.mp h
  obtain ⟨rlog, calls, rfl⟩ := uvcRuncmdInputHandle_frame hhandle
  dsimp only at h
  by_cases hret : 0 < ret
  · rw [if_pos hret] at h
    obtain ⟨b, hb, h⟩ := bind_eq_ok.mp h
    obtain ⟨r, hans, h⟩ := bind_eq_ok.mp h
    obtain ⟨hs', rfl⟩ := pure_pair_eq_ok.mp h
    obtain rfl := Except.ok.inj ((memcpy_newline s.runcmdBuf).symm.trans hb)
    exact ⟨cmd, .builtIn, s'.rlog, s'.dev.calls, hcmd, .builtIn hhandle hret, hans,
      by rw [← hs']; rfl⟩
  · rw [if_neg hret] at h
    have hshell : HandedToShell os cmd s :=
      HandedToShell.of_state ⟨ret, _, hhandle, Int.not_lt.mp hret⟩ s
    -- A failed built-in command is logged first.
    split at h
    · obtain ⟨res, rlog', calls', htaken, hans, hs'⟩ := runcmdShell_cases (s := s) hshell h
      exact ⟨cmd, res, rlog', calls', hcmd, htaken, hans, hs'⟩
    · obtain ⟨res, rlog', calls', htaken, hans, hs'⟩ := runcmdShell_cases (s := s) hshell h
      exact ⟨cmd, res, rlog', calls', hcmd, htaken, hans, hs'⟩

/-- Each of these can happen. -/
private theorem runcmdShell_taken {rlog : Rlog} {calls : List SysCall} (hno : res ≠ .builtIn)
    (htaken : Taken os cmd res) (hans : res.answer resp s.udbProtSize = .ok resp') :
    ∃ rlog' calls', runcmdShell os cmd resp (pointed s rlog calls) =
      .ok (res.done s rlog' calls', resp') := by
  unfold runcmdShell uvcPopen
  dsimp only
  cases htaken with
  | builtIn => exact absurd rfl hno
  | failed _ hspawn =>
    -- Nothing is answered.
    obtain rfl := Except.ok.inj hans
    simp only [hspawn]
    exact ⟨_, _, rfl⟩
  | output _ hspawn =>
    simp only [hspawn, memcpy_keptOutput, ok_bind]
    exact ⟨_, _, bind_eq_ok.mpr ⟨resp', hans, rfl⟩⟩

/-- A command line that can be taken is taken in every state, if the reply can be stored. -/
theorem udbDebugRuncmd_taken (hcmd : cstrAt buf udbCmdPkgContentOffset = .ok cmd)
    (htaken : Taken os cmd res) (hans : res.answer resp s.udbProtSize = .ok resp') :
    ∃ rlog calls, udbDebugRuncmd os buf resp s = .ok (res.done s rlog calls, resp') := by
  unfold udbDebugRuncmd
  rw [hcmd, ok_bind]
  by_cases hbuiltIn : res = .builtIn
  · subst hbuiltIn
    cases htaken with
    | builtIn h hret =>
      -- The check has done the command, and no shell is started.
      obtain ⟨s₁, hhandle⟩ := uvcRuncmdInputHandle_of_state h (runcmdPoint s)
      obtain ⟨rlog, calls, rfl⟩ := uvcRuncmdInputHandle_frame hhandle
      rw [hhandle, ok_bind]
      dsimp only
      rw [if_pos hret]
      exact ⟨_, _, bind_eq_ok.mpr ⟨_, memcpy_newline _, bind_eq_ok.mpr ⟨resp', hans, rfl⟩⟩⟩
  · have hshell : HandedToShell os cmd (runcmdPoint s) := by
      cases htaken with
      | builtIn => exact absurd rfl hbuiltIn
      | failed h => exact h.of_state _
      | output h => exact h.of_state _
    -- Otherwise the line goes to the shell, whether the check failed or not.
    obtain ⟨ret, s₁, hhandle, hret⟩ := hshell
    obtain ⟨rlog, calls, rfl⟩ := uvcRuncmdInputHandle_frame hhandle
    rw [hhandle, ok_bind]
    dsimp only
    rw [if_neg (Int.not_lt.mpr hret)]
    split
    · exact runcmdShell_taken hbuiltIn htaken hans
    · exact runcmdShell_taken hbuiltIn htaken hans

end Taken

/-! ## The first request -/

section Request

variable {cmd out : Bytes}

/-- `RUN_CMD` with a command line that goes to the shell and is spawned: the output is stored and
    announced. -/
theorem request_runcmd (layer : UInt8) {packet : Bytes} (hauth : s.udbAuthOk = true)
    (hchan : packet[3]? = some UdbChanId.runCmd.toByte) (hcmd : cstrAt packet 4 = .ok cmd)
    (hshell : HandedToShell os cmd s) (hspawn : os.spawn (popenExec cmd true) = some out) :
    ∃ s₁, request os layer packet s = .ok (s₁, padTo (layerProtSize layer)
        (le32 (UInt32.ofNat (keptOutput out).length))) ∧
      Stored .runcmd s₁ (keptOutput out) := by
  have hsize : udbBufSize < 2 ^ 32 := by decide
  have hans : Resp.answer ⟨Buf.zero (layerProtSize layer), 0⟩
      (le32 (UInt32.ofNat (keptOutput out).length)) (s.setProtSize layer).udbProtSize =
        .ok ⟨Buf.fill _ _ _, layerProtSize layer⟩ := answer_short layer (length_le32_short _) rfl
  -- The handler stores the output and answers with its size.
  obtain ⟨rlog, calls, hrun⟩ := udbDebugRuncmd_taken (s := s.setProtSize layer) hcmd
    (.output hshell hspawn) hans
  refine ⟨(RuncmdResult.output out).done (s.setProtSize layer) rlog calls, ?_,
    Stored.intro hauth rfl rfl ((length_keptOutput_lt out).trans hsize) fun _ =>
      ⟨List.replicate (udbBufSize - (keptOutput out).length) 0, rfl⟩⟩
  rw [request_of_auth hauth (by decide) hchan]
  simp only [dispatch, UdbChanId.ofByte_toByte, hrun, ok_bind, pure_eq_ok, sent_fill]

end Request

/-! ## The whole command -/

/-- `exec_cmd` prints the output of the shell, up to what the server's buffer has room for: from
    every authenticated state, whatever earlier commands left in it, for every layer, every
    command line that goes to the shell and is spawned, and every NUL-free output. -/
theorem execCmd_round_trip (layer : UInt8) (os : Os) (s : Server) (hauth : s.udbAuthOk = true)
    (argv : List CString) (packet : Buf (layerProtSize layer))
    (hpacket : execCmdPacket (layerProtSize layer) argv = .ok packet)
    (cmd : Bytes) (hcmd : cstrAt packet.bytes udbCmdPkgContentOffset = .ok cmd)
    (hshell : HandedToShell os cmd s) (out : Bytes)
    (hspawn : os.spawn (popenExec cmd true) = some out) (hnul : (0 : UInt8) ∉ out) :
    ∃ st' s', Completes (execCmd packet).client (serveLayer os layer)
        (PullCmd.init (layerProtSize layer)) s st' s' ∧
      st'.out = out.take (min out.length (udbBufSize - 1)) := by
  have hkept : (0 : UInt8) ∉ keptOutput out := fun h => hnul (List.mem_of_mem_take h)
  have hlen : (keptOutput out).length < 2 ^ 32 :=
    (length_keptOutput_lt out).trans (by decide)
  -- The server stores what it keeps of the output, and the loop prints all of that.
  obtain ⟨s₁, hinit, hstored⟩ := request_runcmd layer hauth (cmdPacket_chan hpacket) hcmd hshell
    hspawn
  obtain ⟨st', s', hrun, hout, -⟩ := pullCmd_completes .runcmd (p := execCmd packet) rfl (.inl rfl)
    (sinkOf_printReply rfl hkept) hlen hinit hstored
  refine ⟨st', s', hrun, ?_⟩
  rw [hout, keptOutput, Nat.min_comm]
  exact List.take_eq_take_min

/-- `udb shell ls` with two files. -/
theorem execCmd_round_trip_ls :
    ∃ packet, execCmdPacket (layerProtSize udbLayerNet) lsArgs = .ok packet ∧
      ∃ st' s', Completes (execCmd packet).client
          (serveLayer (willing [] (ascii "a\nb\n")) udbLayerNet)
          (PullCmd.init (layerProtSize udbLayerNet)) (authed fun _ => none) st' s' ∧
        st'.out = ascii "a\nb\n" := by
  have hfit : 4 + (packed 4 lsArgs).length < layerProtSize udbLayerNet := by decide
  have hshell : HandedToShell (willing [] (ascii "a\nb\n")) (packed 4 lsArgs)
      (authed fun _ => none) := ⟨0, _, rfl, Int.le_refl 0⟩
  exact ⟨_, cmdPacket_eq .runCmd hfit.le, execCmd_round_trip udbLayerNet
    (willing [] (ascii "a\nb\n")) (authed fun _ => none) rfl lsArgs _
    (cmdPacket_eq .runCmd hfit.le) _ (cstrAt_packed .runCmd hfit) hshell _ rfl (by decide)⟩

end Udb.Spec
