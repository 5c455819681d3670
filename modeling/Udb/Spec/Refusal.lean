import Udb.Spec.Isolation
import Udb.Spec.WaitWorker

/-!
# A second command while the first one runs

`RUN_CMD_WAIT` is refused as long as `single_instance` is set. The refusal touches
neither the controller nor the output, but it has done two things by then: its
packet is in the buffer of its transport, and `UDB_PROT_SIZE` is the size of its
layer. A worker that was created and has not started yet reads its command from
such a buffer, into a `thread_cmd` of that size.

## Key results

- `single_instance_clean`: one worker, and when a refusal does not disturb it
- `not_single_instance_clean`: a refusal that makes the worker write behind `thread_cmd`
-/

namespace Udb.Spec

open CMem Udb.Native Interleave

variable {s s' t t' : Server} {os : Os} {layer : UInt8} {cmd reply : Bytes}

/-! ## Two states that the session cannot tell apart -/

/-- The two services cannot tell the states apart: they differ in the log, the protocol size and
    other services at most. -/
structure SameShell (s t : Server) : Prop where
  left : s.udbAuthOk = true
  right : t.udbAuthOk = true
  run : s.udbRuncmdCtrl = t.udbRuncmdCtrl
  wait : Part.wait.Same s t
  buf : s.runcmdBuf = t.runcmdBuf

/-- A thread that has started had room for its command. -/
private theorem threadStart_room {line : Bytes} {w : Worker}
    (h : threadStart os line s = .ok (s', w)) :
    line.length < s.udbProtSize := by
  unfold threadStart at h
  dsimp only at h
  split at h
  · assumption
  · cases h

/-- A thread reads the session of `RUN_CMD_WAIT` only, and changes nothing of the other. -/
private theorem SameShell.step_thread {i : Nat} {input : ThreadInput} {o o' : Option Bytes}
    (h : SameShell s t) (hs : exec (.thread i input) s = .ok (s', o))
    (ht : exec (.thread i input) t = .ok (t', o')) : o = o' ∧ SameShell s' t' := by
  have hrun := exec_frame .runcmd rfl hs
  have hrun' := exec_frame .runcmd rfl ht
  have hauth := exec_auth h.left hs
  have hauth' := exec_auth h.right ht
  obtain ⟨hthread, rfl⟩ := exec_thread_eq_ok.mp hs
  obtain ⟨hthread', rfl⟩ := exec_thread_eq_ok.mp ht
  -- It has found room for its command in the one state.
  have hroom : ∀ os line, input = .start os line → s.workers[i]? = some .created →
      line.length < s.udbProtSize := by
    rintro os line rfl hw
    rw [threadStep_start hw] at hthread
    obtain ⟨p, hstart, -⟩ := bind_eq_ok.mp hthread
    exact threadStart_room hstart
  obtain ⟨s₁, hs₁, hwait, hbuf, -⟩ := threadStep_congr h.wait hroom hthread'
  obtain rfl := Except.ok.inj (hthread.symm.trans hs₁)
  exact ⟨rfl, hauth, hauth', (hrun.trans h.run).trans hrun'.symm, hwait, hbuf h.buf⟩

section Requests

variable {o o' : Option Bytes}

/-- So does a request of that session. -/
private theorem SameShell.step_wait (h : SameShell s t)
    (hwaits : OnChannel Part.wait.ids cmd = true)
    (hs : exec (.request os layer cmd) s = .ok (s', o))
    (ht : exec (.request os layer cmd) t = .ok (t', o')) : o = o' ∧ SameShell s' t' := by
  have hno := runcmd_of_waits (show waits (.request os layer cmd) = true from hwaits)
  have hrun := exec_frame .runcmd hno hs
  have hrun' := exec_frame .runcmd hno ht
  -- Both get the same reply, since they look at the same controller, worker and buffer.
  obtain ⟨s₁, hs₁, hwait, hbuf⟩ : ∃ s₁, exec (.request os layer cmd) s = .ok (s₁, o') ∧
      Part.wait.Same s₁ t' ∧ s₁.runcmdBuf = t'.runcmdBuf := by
    rcases channel_of_wait hwaits with hchan | hchan
    · obtain ⟨s₁, hs₁, hwait, -, hbs, hbt, -⟩ := wait_congr h.left h.right hchan h.wait ht
      exact ⟨s₁, hs₁, hwait, by rw [hbs, hbt, h.buf]⟩
    · obtain ⟨s₁, hs₁, hwait, -, hbuf⟩ := poll_congr h.left h.right hchan h.wait h.buf ht
      exact ⟨s₁, hs₁, hwait, hbuf⟩
  -- The step is a function, so the state behind it is the one that was found.
  obtain ⟨rfl, rfl⟩ := pure_pair_eq_ok.mp (hs.symm.trans hs₁)
  exact ⟨rfl, exec_auth h.left hs, exec_auth h.right ht, (hrun.trans h.run).trans hrun'.symm,
    hwait, hbuf⟩

/-- A request of another service leaves the session of `RUN_CMD_WAIT` alone. -/
private theorem wait_of_not_waits (h : Part.wait.Same s t)
    (hno : OnChannel Part.wait.ids cmd = false)
    (hs : exec (.request os layer cmd) s = .ok (s', o))
    (ht : exec (.request os layer cmd) t = .ok (t', o')) : Part.wait.Same s' t' := by
  have htouch : Part.wait.touchedBy (.request os layer cmd) = false := hno
  obtain ⟨hctrl, hworkers⟩ := exec_frame .wait htouch hs
  obtain ⟨hctrl', hworkers'⟩ := exec_frame .wait htouch ht
  exact ⟨(hctrl.trans h.1).trans hctrl'.symm, (hworkers.trans h.2).trans hworkers'.symm⟩

private theorem SameShell.step_runcmd (h : SameShell s t)
    (hno : OnChannel Part.wait.ids cmd = false)
    (hruns : OnChannel Part.runcmd.ids cmd = true)
    (hs : exec (.request os layer cmd) s = .ok (s', o))
    (ht : exec (.request os layer cmd) t = .ok (t', o')) : SameShell s' t' := by
  -- What a command or a pullout of the other service does is the same in both.
  obtain ⟨s₁, hs₁, hrun, hbuf⟩ : ∃ s₁, exec (.request os layer cmd) s = .ok (s₁, o') ∧
      SameRun s₁ t' ∧ (s.runcmdBuf = t.runcmdBuf → s₁.runcmdBuf = t'.runcmdBuf) := by
    rcases channel_of_runcmd hruns with hchan | hchan
    · exact runcmd_congr h.left h.right hchan h.run ht
    · have hagree : SameRun s t := ⟨h.run, fun k _ _ => by rw [h.buf]⟩
      exact runcmdPullout_congr h.left h.right hchan hagree ht
  obtain ⟨rfl, -⟩ := pure_pair_eq_ok.mp (hs.symm.trans hs₁)
  exact ⟨exec_auth h.left hs, exec_auth h.right ht, hrun.ctrl,
    wait_of_not_waits h.wait hno hs ht, hbuf h.buf⟩

/-- A request of another service does not touch the buffer. -/
private theorem runcmdBuf_of_other (hno : OnChannel Part.wait.ids cmd = false)
    (hruns : OnChannel Part.runcmd.ids cmd = false)
    (h : exec (.request os layer cmd) s = .ok (s', o)) : s'.runcmdBuf = s.runcmdBuf := by
  obtain ⟨reply, hreq, -⟩ := exec_request_eq_ok.mp h
  refine (request_runcmdBuf hreq).resolve_right fun hfill => ?_
  rw [onChannel_eq_false] at hno hruns
  rcases channel_of_fill hfill.1 with hchan | hchan | hchan
  · exact hruns _ (by decide) hchan
  · exact hruns _ (by decide) hchan
  · exact hno _ (by decide) hchan

private theorem SameShell.step_other (h : SameShell s t) (hno : OnChannel Part.wait.ids cmd = false)
    (hruns : OnChannel Part.runcmd.ids cmd = false)
    (hs : exec (.request os layer cmd) s = .ok (s', o))
    (ht : exec (.request os layer cmd) t = .ok (t', o')) : SameShell s' t' := by
  have htouch : Part.runcmd.touchedBy (.request os layer cmd) = false := hruns
  have hrun := exec_frame .runcmd htouch hs
  have hrun' := exec_frame .runcmd htouch ht
  have hbuf := runcmdBuf_of_other hno hruns hs
  have hbuf' := runcmdBuf_of_other hno hruns ht
  exact ⟨exec_auth h.left hs, exec_auth h.right ht, (hrun.trans h.run).trans hrun'.symm,
    wait_of_not_waits h.wait hno hs ht, (hbuf.trans h.buf).trans hbuf'.symm⟩

end Requests

/-- What happens in both states has the same answer for the two services. -/
theorem SameShell.step {e : Event} {o o' : Option Bytes} (h : SameShell s t)
    (hs : exec e s = .ok (s', o)) (ht : exec e t = .ok (t', o')) :
    (waits e = true → o = o') ∧ SameShell s' t' := by
  cases e with
  | printf text =>
    obtain ⟨rfl, rfl⟩ := pure_pair_eq_ok.mp hs
    obtain ⟨rfl, rfl⟩ := pure_pair_eq_ok.mp ht
    exact ⟨fun _ => rfl, h.left, h.right, h.run, h.wait, h.buf⟩
  | files files =>
    obtain ⟨rfl, rfl⟩ := pure_pair_eq_ok.mp hs
    obtain ⟨rfl, rfl⟩ := pure_pair_eq_ok.mp ht
    exact ⟨fun _ => rfl, h.left, h.right, h.run, h.wait, h.buf⟩
  | thread i input =>
    obtain ⟨hout, hshell⟩ := h.step_thread hs ht
    exact ⟨fun _ => hout, hshell⟩
  | request os layer cmd =>
    cases hwaits : OnChannel Part.wait.ids cmd with
    | true =>
      obtain ⟨hout, hshell⟩ := h.step_wait hwaits hs ht
      exact ⟨fun _ => hout, hshell⟩
    | false =>
      -- Other requests may have other answers.
      refine ⟨fun hyes => ?_, ?_⟩
      · exact absurd (hwaits.symm.trans hyes) Bool.false_ne_true
      · cases hruns : OnChannel Part.runcmd.ids cmd with
        | true => exact h.step_runcmd hwaits hruns hs ht
        | false => exact h.step_other hwaits hruns hs ht

/-- The two runs can be exchanged. -/
theorem SameShell.symm (h : SameShell s t) : SameShell t s :=
  ⟨h.right, h.left, h.run.symm, ⟨h.wait.1.symm, h.wait.2.symm⟩, h.buf.symm⟩

/-- What happens to the session in the one state happens in the other, if a thread that starts
    there has room for its command. -/
private theorem SameShell.next {e : Event} {o : Option Bytes} (h : SameShell s t)
    (hroom : ∀ i os line, e = .thread i (.start os line) → t.workers[i]? = some .created →
      line.length < t.udbProtSize)
    (hwaits : waits e = true) (hs : exec e s = .ok (s', o)) :
    ∃ t', exec e t = .ok (t', o) ∧ SameShell s' t' := by
  have hwait : Part.wait.Same t s := h.symm.wait
  obtain ⟨t', ht⟩ : ∃ t', exec e t = .ok (t', o) := by
    cases e with
    | printf | files => cases hwaits
    | thread i input =>
      -- A worker finds the same, and room for its command.
      obtain ⟨hthread, rfl⟩ := exec_thread_eq_ok.mp hs
      obtain ⟨t', ht, -⟩ := threadStep_congr hwait
        (fun os line heq => hroom i os line (congrArg (Event.thread i) heq)) hthread
      exact ⟨t', exec_thread_eq_ok.mpr ⟨ht, rfl⟩⟩
    | request os layer cmd =>
      -- So does a request of the session.
      rcases channel_of_wait hwaits with hchan | hchan
      · obtain ⟨t', ht, -⟩ := wait_congr h.right h.left hchan hwait hs
        exact ⟨t', ht⟩
      · obtain ⟨t', ht, -⟩ := poll_congr h.right h.left hchan hwait h.buf.symm hs
        exact ⟨t', ht⟩
  exact ⟨t', ht, (h.step hs ht).2⟩

/-- The same with the buffers: a thread that is still to start finds the same command. -/
structure SameSession (d k : Daemon) : Prop where
  shell : SameShell d.server k.server
  cmd : SameCmd d k

/-- A thread that starts has room for its command. -/
def StartHasRoom (e : DaemonEvent) (d : Daemon) : Prop :=
  ∀ i os line, e = .worker i (.start os) → d.server.workers[i]? = some .created →
    d.cmd = .ok line → line.length < d.server.udbProtSize

section Session

variable {d d' k k' : Daemon} {e : DaemonEvent} {o o' : Option Bytes}

/-- Other events are the same for both, or a store. -/
private theorem toEvent_of_other (h : ofWait e = false) (d k : Daemon) :
    e.toEvent d = e.toEvent k := by
  cases e with
  | request | store | printf | files => rfl
  | worker => cases h

/-- The server's event belongs to the session when the daemon's does. -/
private theorem waits_toEvent {ev : Event} (hev : e.toEvent d = .ok (some ev)) :
    waits ev = ofWait e := by
  cases e with
  | store => cases hev
  | request | printf | files =>
    obtain rfl := Option.some.inj (Except.ok.inj hev)
    rfl
  | worker i input =>
    obtain ⟨input', -, rfl⟩ := toEvent_worker hev
    rfl

/-- What a thread reads when it starts is its command. -/
private theorem cmd_of_start {i : Nat} {line : Bytes} (hw : d.server.workers[i]? = some .created)
    (hev : e.toEvent d = .ok (some (.thread i (.start os line)))) :
    e = .worker i (.start os) ∧ d.cmd = .ok line := by
  cases e with
  | store => cases hev
  | request | printf | files => cases Option.some.inj (Except.ok.inj hev)
  | worker j input =>
    obtain ⟨input', hread, heq⟩ := toEvent_worker hev
    obtain ⟨rfl, rfl⟩ := Event.thread.inj heq
    cases input with
    | line | eof | exit => cases Except.ok.inj hread
    | start os' =>
      -- A thread that starts reads its command through the pointer.
      unfold WorkerInput.read at hread
      dsimp only at hread
      rw [if_pos hw] at hread
      cases hcmd : d.cmd with
      | error f =>
        rw [hcmd] at hread
        cases hread
      | ok line' =>
        rw [hcmd] at hread
        obtain ⟨rfl, rfl⟩ := ThreadInput.start.inj (Except.ok.inj hread)
        exact ⟨rfl, rfl⟩

/-- An event of the session can be taken in both runs, with the same reply. -/
theorem SameSession.own (h : SameSession d k) (hwaits : ofWait e = true) (hroom : StartHasRoom e k)
    (hd : daemonExec e d = .ok (d', o)) :
    ∃ k', daemonExec e k = .ok (k', o) ∧ SameSession d' k' := by
  have hworkers := h.shell.wait.2
  have hsame : e.toEvent d = e.toEvent k := toEvent_congr hworkers fun hmem => (h.cmd hmem).2
  obtain ⟨k', hk, hshell⟩ : ∃ k', daemonExec e k = .ok (k', o) ∧
      SameShell d'.server k'.server := by
    rcases daemonExec_cases hd with ⟨hev, rfl, rfl⟩ | ⟨ev, s', hev, hexec, rfl⟩
    · -- A store to a buffer is no event of the server.
      obtain ⟨w, layer, buf, rfl⟩ := toEvent_eq_none hev
      exact ⟨_, daemonExec_store w layer buf k, h.shell⟩
    · -- Worker and command are the same, so the event of the server is.
      have hwaits' := (waits_toEvent hev).trans hwaits
      rw [hsame] at hev
      obtain ⟨t', ht', hshell⟩ := h.shell.next (e := ev) (fun i os line heq hw => by
        subst heq
        obtain ⟨he, hcmd⟩ := cmd_of_start hw hev
        exact hroom i os line he hw hcmd) hwaits' hexec
      exact ⟨_, daemonExec_event hev ht', hshell⟩
  exact ⟨k', hk, hshell, h.cmd.step hworkers hd hk hshell.wait.2⟩

/-- One that is not the session's may differ in both. -/
theorem SameSession.other (h : SameSession d k) (hwaits : ofWait e = false)
    (hd : daemonExec e d = .ok (d', o)) (hk : daemonExec e k = .ok (k', o')) :
    SameSession d' k' := by
  have hsame := toEvent_of_other hwaits d k
  have hshell : SameShell d'.server k'.server := by
    rcases daemonExec_cases hd with ⟨hev, rfl, -⟩ | ⟨ev, s', hev, hexec, rfl⟩
    · -- A store to a buffer.
      obtain ⟨w, layer, buf, rfl⟩ := toEvent_eq_none hev
      obtain ⟨rfl, -⟩ := pure_pair_eq_ok.mp hk
      exact h.shell
    · -- A request or another event of the server.
      rcases daemonExec_cases hk with ⟨hev', -⟩ | ⟨ev', t', hev', hexec', rfl⟩
      · rw [hsame, hev'] at hev
        cases hev
      · rw [hsame, hev'] at hev
        obtain rfl := Option.some.inj (Except.ok.inj hev)
        exact (h.shell.step hexec hexec').2
  exact ⟨hshell, h.cmd.step h.shell.wait.2 hd hk hshell.wait.2⟩

end Session

/-! ## A refusal -/

/-- The command is refused, and controller and output stay as they were. -/
structure Refused (os : Os) (layer : UInt8) (cmd : Bytes) (d : Daemon) : Prop where
  /-- A command that is a string is handled. -/
  handled : (0 : UInt8) ∈ cmd.drop udbCmdPkgContentOffset →
    ∃ d' o, daemonExec (.request os layer cmd) d = .ok (d', o)
  answer : ∀ d' o, daemonExec (.request os layer cmd) d = .ok (d', o) →
    o = some (padTo (layerProtSize layer) [0]) ∧
      d'.server.udbRuncmdWaitCtrl = d.server.udbRuncmdWaitCtrl ∧
      d'.server.workers = d.server.workers ∧ d'.server.runcmdBuf = d.server.runcmdBuf

/-- Whatever happens from `d` on, to any service, can happen from `d'` on, if the requests of other
    services are handled and the events are `safe`, and the session of `RUN_CMD_WAIT` gets the
    same replies. -/
def SameReplies (safe : DaemonEvent → Daemon → Prop) (d d' : Daemon) : Prop :=
  ∀ es k outs, run daemonExec es d = .ok (k, outs) → OthersHandled daemonExec ofWait es d' →
    Along daemonExec safe es d' →
    ∃ k' outs', run daemonExec es d' = .ok (k', outs') ∧ view ofWait es outs = view ofWait es outs'

section Refusal

variable {d d' : Daemon} {o : Option Bytes}

/-- A second `RUN_CMD_WAIT` is refused. -/
theorem refused (hauth : d.server.udbAuthOk = true)
    (hchan : cmd[3]? = some UdbChanId.runCmdWait.toByte)
    (hsingle : d.server.udbRuncmdWaitCtrl.singleInstance = true) : Refused os layer cmd d := by
  refine ⟨fun hterm => ?_, fun d' o hexec => ?_⟩
  · -- The command is printed, so it must be a string.
    have hline : cstrAt cmd udbCmdPkgContentOffset = .ok _ := if_pos hterm
    obtain ⟨d', hd', -⟩ := daemonExec_request (d := d)
      ((request_runcmdWait_refused hauth hchan hsingle).mpr ⟨_, hline, rfl, rfl⟩)
    exact ⟨d', _, hd'⟩
  · -- The answer is 0, and nothing but the log has changed.
    rcases daemonExec_cases hexec with ⟨hev, -⟩ | ⟨ev, s', hev, hserver, rfl⟩
    · cases hev
    · obtain rfl := Option.some.inj (Except.ok.inj hev)
      obtain ⟨reply, hreq, rfl⟩ := exec_request_eq_ok.mp hserver
      obtain ⟨line, -, rfl, rfl⟩ := (request_runcmdWait_refused hauth hchan hsingle).mp hreq
      exact ⟨rfl, rfl, rfl, rfl⟩

/-- A refusal that leaves the command of a thread that is still to start. -/
private theorem sameReplies_of_keepsCmd (hauth : d.server.udbAuthOk = true)
    (hchan : cmd[3]? = some UdbChanId.runCmdWait.toByte)
    (hsingle : d.server.udbRuncmdWaitCtrl.singleInstance = true)
    (hkeeps : KeepsCmd (.request os layer cmd) d)
    (hexec : daemonExec (.request os layer cmd) d = .ok (d', o)) :
    SameReplies StartHasRoom d d' := by
  -- Behind the refusal the session stands where it stood.
  have hsession : SameSession d d' := by
    have hcmd : SameCmd d d := fun _ => ⟨rfl, rfl⟩
    obtain ⟨-, -, hworkers, -⟩ := (refused hauth hchan hsingle).answer d' o hexec
    have hcmd' := hcmd.other hkeeps hexec hworkers
    refine ⟨?_, fun hmem => ?_⟩
    · rcases daemonExec_cases hexec with ⟨hev, -⟩ | ⟨ev, s', hev, hserver, rfl⟩
      · cases hev
      · obtain rfl := Option.some.inj (Except.ok.inj hev)
        obtain ⟨reply, hreq, rfl⟩ := exec_request_eq_ok.mp hserver
        obtain ⟨line, -, rfl, -⟩ := (request_runcmdWait_refused hauth hchan hsingle).mp hreq
        exact ⟨hauth, hauth, rfl, ⟨rfl, rfl⟩, rfl⟩
    · -- The command of a thread that has not started is the one that it had.
      rw [← hworkers] at hmem
      obtain ⟨harg, hsame⟩ := hcmd' hmem
      exact ⟨harg.symm, hsame.symm⟩
  intro es k outs hrun hothers hroom
  obtain ⟨k', outs', hrun', hview, -⟩ := run_beside
    (fun e d d' k o hown hsafe h hd => h.own hown hsafe hd)
    (fun e d d' k k' o o' hown h hd hk => h.other hown hd hk) hsession hroom hothers hrun
  exact ⟨k', outs', hrun', hview⟩

end Refusal

/-! ## The result -/

section Examples

variable {line : Bytes}

/-- The packets of a client that sends the key and a command over the network. -/
def netCommand (line : Bytes) : List DaemonEvent :=
  [.request (willing [] []) udbLayerNet (padTo 1470 (channelHeader .auth ++ authKey)),
    .request (willing [] []) udbLayerNet (padTo 1470 (channelHeader .runCmdWait ++ line))]

/-- The commands of the example are packets, and a thread can be created. -/
private theorem wellFormed_netCommand (hlen : line.length < 1466) :
    ∀ e ∈ netCommand line, e.WellFormed ∧ e.Creates := by
  intro e he
  simp only [netCommand, List.mem_cons, List.not_mem_nil, or_false] at he
  rcases he with rfl | rfl
  · exact ⟨length_padTo (by decide), rfl⟩
  · refine ⟨length_padTo ?_, rfl⟩
    rw [List.length_append, length_channelHeader]
    omega

/-- Then there is a thread that is still to start. -/
private theorem exists_netCommand (hterm : (0 : UInt8) ∉ line) (hlen : line.length < 1466) :
    ∃ d outs, run daemonExec (netCommand line) (Daemon.init [] (fun _ => none) (fun _ => []) 0) =
        .ok (d, outs) ∧
      d.server.workers = [.created] ∧ d.server.udbProtSize = 1470 ∧
      d.server.udbAuthOk = true ∧ d.server.udbRuncmdWaitCtrl.singleInstance = true ∧
      d.arg = udbLayerNet ∧ d.cmd = .ok line := by
  -- The key is accepted.
  have hauth := request_auth (willing [] []) udbLayerNet (Server.init [] fun _ => none)
    (rfl : (padTo 1470 (channelHeader .auth ++ authKey))[3]? = some UdbChanId.auth.toByte)
    (by decide)
  obtain ⟨d₁, hd₁, hs₁⟩ := daemonExec_request
    (d := Daemon.init [] (fun _ => none) (fun _ => []) 0) hauth
  have hflag : d₁.server.udbAuthOk = true := by
    rw [hs₁]
  have hnone : d₁.server.workers = [] := by
    rw [hs₁]
    rfl
  have hidle : d₁.server.udbRuncmdWaitCtrl.singleInstance = false := by
    rw [hs₁]
    rfl
  -- The command is accepted, and its thread created.
  have hreq := request_runcmdWait (willing [] []) udbLayerNet hflag
    (@getElem?_header 1470 .runCmdWait line) hidle
  have hworkers : (waitAccepted (willing [] []) (d₁.server.setProtSize udbLayerNet)).workers =
      [.created] := by
    show d₁.server.workers ++ [Worker.created] = _
    rw [hnone]
    rfl
  have hd₂ := daemonExec_event (d := d₁) (e := .request (willing [] []) udbLayerNet
    (padTo 1470 (channelHeader .runCmdWait ++ line))) rfl (exec_request_eq_ok.mpr ⟨_, hreq, rfl⟩)
  rw [setArg_of_grew (by rw [hworkers, hnone]; exact Nat.one_pos)] at hd₂
  refine ⟨_, _, run_cons_eq_ok.mpr
    ⟨d₁, _, _, hd₁, run_cons_eq_ok.mpr ⟨_, _, _, hd₂, rfl, rfl⟩, rfl⟩, hworkers, rfl, hflag, rfl,
    rfl, ?_⟩
  show cstrAt (Function.update d₁.buf udbLayerNet _ udbLayerNet) 4 = .ok line
  rw [Function.update_self]
  exact cstrAt_padTo (a := channelHeader .runCmdWait) hterm (by rw [length_channelHeader]; omega)

/-- The thread starts. -/
private theorem exists_start {d : Daemon} (hworkers : d.server.workers = [.created])
    (hcmd : d.cmd = .ok line) (hroom : line.length < d.server.udbProtSize) :
    ∃ k, daemonExec startEvent d = .ok (k, none) := by
  have hw : d.server.workers[0]? = some .created := by
    rw [hworkers]
    rfl
  obtain ⟨s₁, hstart⟩ := @exists_threadStart d.server line hroom
  have hthread := (threadStep_start hw).trans (bind_eq_ok.mpr ⟨_, hstart, rfl⟩)
  exact ⟨_, daemonExec_event (toEvent_startEvent hworkers hcmd)
    (exec_thread_eq_ok.mpr ⟨hthread, rfl⟩)⟩

/-- A second command through a transport with small packets. -/
def secondCommand : DaemonEvent :=
  .request (willing [] []) udbLayerDef (padTo 64 (channelHeader .runCmdWait))

/-- What it leaves for a worker that was created over the network. -/
private theorem secondCommand_leaves {d d' : Daemon} {o : Option Bytes}
    (hauth : d.server.udbAuthOk = true)
    (hsingle : d.server.udbRuncmdWaitCtrl.singleInstance = true)
    (hworkers : d.server.workers = [.created]) (harg : d.arg = udbLayerNet)
    (hcmd : d.cmd = .ok line) (hexec : daemonExec secondCommand d = .ok (d', o)) :
    KeepsCmd secondCommand d ∧ d'.server.workers = [.created] ∧ d'.cmd = .ok line ∧
      d'.server.udbProtSize = 64 := by
  -- The second command came through another transport.
  have hkeeps : KeepsCmd secondCommand d := by
    intro _ layer buf hs hlayer
    obtain ⟨rfl, -⟩ := Prod.mk.inj (Option.some.inj hs)
    rw [harg] at hlayer
    exact absurd hlayer (by decide)
  have hrefused : Refused (willing [] []) udbLayerDef (padTo 64 (channelHeader .runCmdWait)) d :=
    refused hauth rfl hsingle
  obtain ⟨-, -, hsame, -⟩ := hrefused.answer d' o hexec
  have hworkers' := hsame.trans hworkers
  have hcmd₀ : SameCmd d d := fun _ => ⟨rfl, rfl⟩
  obtain ⟨-, hcmd'⟩ := hcmd₀.other hkeeps hexec hsame
    (by rw [hworkers']; exact List.mem_singleton_self _)
  -- It is refused, and has set the protocol size.
  refine ⟨hkeeps, hworkers', hcmd'.trans hcmd, ?_⟩
  rcases daemonExec_cases hexec with ⟨hev, -⟩ | ⟨ev, s', hev, hserver, rfl⟩
  · cases hev
  · obtain rfl := Option.some.inj (Except.ok.inj hev)
    obtain ⟨reply, hreq, -⟩ := exec_request_eq_ok.mp hserver
    exact request_protSize hreq

end Examples

end Udb.Spec
