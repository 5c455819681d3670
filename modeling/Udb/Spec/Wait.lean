import Udb.Spec.Args
import Udb.Spec.Reach
import Udb.Spec.WaitRun

/-!
# Running a command and waiting for its output

From an accepted `RUN_CMD_WAIT` on, no output is lost if all polls are safe. A
worker that is ahead of all polls shows that this is needed: of a short output only
the first line is delivered.

## Key results

- `execCmdWait_prints_all`: safe polls lose nothing
- `Ahead.poll`: the first poll after the worker has ended delivers one line
-/

namespace Udb.Spec

open CMem StopAndWait Udb.Native

/-! ## Accepted commands -/

section Accept

variable {os : Os} {layer : UInt8} {s s' : Server} {cmd reply : Bytes}

/-- The state behind an accepted `RUN_CMD_WAIT`. -/
def waitAccepted (os : Os) (s : Server) : Server :=
  { s with
    udbRuncmdWaitCtrl :=
      { s.udbRuncmdWaitCtrl with
        pullout := .buf
        totalSize := UInt32.ofNat udbBufSize
        singleInstance := true
        tmLastUpdate := osTimeGetBootMs os
        cpOffset := 0 }
    workers := if os.pthreadCreate then s.workers ++ [.created] else s.workers }

/-- Without an instance the command is accepted. -/
theorem request_runcmdWait (os : Os) (layer : UInt8) (hauth : s.udbAuthOk = true)
    (hchan : cmd[3]? = some UdbChanId.runCmdWait.toByte)
    (hidle : s.udbRuncmdWaitCtrl.singleInstance = false) :
    request os layer cmd s =
      .ok (waitAccepted os (s.setProtSize layer), padTo (layerProtSize layer) [1]) := by
  have hans := answer_short layer (b := [1]) (by decide) (s.udbProtSize_setProtSize layer)
  have hidle' : (s.setProtSize layer).udbRuncmdWaitCtrl.singleInstance = false := hidle
  rw [request_of_auth hauth (by decide) hchan]
  simp only [dispatch, UdbChanId.ofByte_toByte, udbDebugRuncmdWait, hidle', Bool.false_eq_true,
    if_false, hans, ok_bind, pure_eq_ok, sent_fill]
  rfl

/-- With an instance the command is refused. It is logged, so it has to be a string. -/
theorem request_runcmdWait_refused (hauth : s.udbAuthOk = true)
    (hchan : cmd[3]? = some UdbChanId.runCmdWait.toByte)
    (hsingle : s.udbRuncmdWaitCtrl.singleInstance = true) :
    request os layer cmd s = .ok (s', reply) ↔
      ∃ line, cstrAt cmd udbCmdPkgContentOffset = .ok line ∧
        s' = ((s.setProtSize layer).printf (ascii "runcmd: [" ++ line ++ ascii "] error\n")).printf
          (ascii "runcmd: only support single instance\n") ∧
        reply = padTo (layerProtSize layer) [0] := by
  have hans := answer_short layer (b := [0]) (by decide) (s.udbProtSize_setProtSize layer)
  have hsingle' : (s.setProtSize layer).udbRuncmdWaitCtrl.singleInstance = true := hsingle
  rw [request_of_auth hauth (by decide) hchan]
  -- The flag is set, so the answer is 0, and the command is printed.
  simp only [dispatch, UdbChanId.ofByte_toByte, udbDebugRuncmdWait, hsingle', if_true, hans,
    ok_bind, bind_eq_ok]
  constructor
  · rintro ⟨⟨s₁, r⟩, ⟨line, hline, h₁⟩, h⟩
    obtain ⟨rfl, rfl⟩ := pure_pair_eq_ok.mp h₁
    obtain ⟨rfl, rfl⟩ := pure_pair_eq_ok.mp h
    exact ⟨line, hline, rfl, sent_fill _⟩
  · rintro ⟨line, hline, rfl, rfl⟩
    exact ⟨(_, _), ⟨line, hline, rfl⟩, congrArg (fun b => Except.ok (_, b)) (sent_fill _)⟩

/-- A reply that accepts comes from an authenticated server without an instance. -/
theorem accepted_of_reply (hchan : cmd[3]? = some UdbChanId.runCmdWait.toByte)
    (hreq : request os layer cmd s = .ok (s', reply)) (hone : reply.head? = some 1) :
    s.udbAuthOk = true ∧ s.udbRuncmdWaitCtrl.singleInstance = false := by
  cases hauth : s.udbAuthOk with
  | false =>
    -- The bridge returns without an answer.
    have hne : UdbChanId.runCmdWait.toByte ≠ UdbChanId.auth.toByte := by decide
    simp only [request, udbDebugBridge, udbCmdChannelIdOffset, hchan, if_neg hne,
      Server.udbAuthOk_setProtSize, hauth, Bool.false_eq_true, if_false, pure_eq_ok, ok_bind,
      Except.ok.injEq, Prod.mk.injEq] at hreq
    rw [← hreq.2, Resp.sent, List.take_zero] at hone
    cases hone
  | true =>
    refine ⟨rfl, ?_⟩
    cases hsingle : s.udbRuncmdWaitCtrl.singleInstance with
    | false => rfl
    | true =>
      obtain ⟨line, -, -, rfl⟩ := (request_runcmdWait_refused hauth hchan hsingle).mp hreq
      exact absurd (Option.some.inj hone) (by decide)

/-- `RUN_CMD_WAIT` was accepted and the thread was created; `lines` is what `fgets` will return
    of the command's output. -/
inductive Accepted {layer : UInt8} (lines : List Bytes) :
    WaitCmd (layerProtSize layer) → WaitConf layer → Prop where
  | intro {os : Os} {s s' : Server} {argv : List CString} {packet : Buf (layerProtSize layer)}
      {reply : Bytes} (hreach : Reachable s) (hcreate : os.pthreadCreate = true)
      (hpacket : execCmdWaitPacket (layerProtSize layer) argv = .ok packet)
      (hreq : request os layer packet.bytes s = .ok (s', reply)) (hone : reply.head? = some 1) :
      Accepted lines ⟨packet⟩
        ⟨s', WaitCmd.recv ⟨packet⟩ (WaitCmd.init (layerProtSize layer)) (some reply), lines⟩

/-- A reply that accepts starts the polling. -/
private theorem WaitCmd.recv_accepted (p : WaitCmd (layerProtSize layer)) :
    ∃ b, p.recv (WaitCmd.init (layerProtSize layer)) (some (padTo (layerProtSize layer) [1])) =
        ⟨.poll, b, []⟩ ∧ b.bytes.drop (layerProtSize layer) = [0] := by
  have hp := layerProtSize_bounds layer
  have hlen : (padTo (layerProtSize layer) [1]).length = layerProtSize layer :=
    length_padTo (by rw [List.length_singleton]; omega)
  have hzero : (Buf.zero (layerProtSize layer + 1)).bytes.drop (layerProtSize layer) = [0] := by
    simp
  -- The buffer holds the reply and, behind it, the NUL that it ends with.
  have hread := bytes_udbCtrlRead hzero hlen
  refine ⟨_, ?_, by rw [hread]; exact List.drop_left' hlen⟩
  simp only [WaitCmd.recv, WaitCmd.init, hread]
  rfl

/-- An accepted command starts with the invariant. -/
private theorem Accepted.waitInv {lines : List Bytes} {p : WaitCmd (layerProtSize layer)}
    {c : WaitConf layer} (h : Accepted lines p c) : WaitInv lines c ∧ c.todo = lines := by
  cases h with
  | @intro os s s' argv packet reply hreach hcreate hpacket hreq hone =>
    have hchan := cmdPacket_chan hpacket
    obtain ⟨hauth, hidle⟩ := accepted_of_reply hchan hreq hone
    -- The flag was not set, so there was no worker.
    have hnone : s.workers = [] := by
      have hlen := (inv_of_reachable hreach).workers
      rw [hidle] at hlen
      exact List.eq_nil_of_length_eq_zero (Nat.le_zero.mp hlen)
    rw [request_runcmdWait os layer hauth hchan hidle] at hreq
    simp only [Except.ok.injEq, Prod.mk.injEq] at hreq
    obtain ⟨rfl, rfl⟩ := hreq
    obtain ⟨b, hrecv, hb⟩ := WaitCmd.recv_accepted ⟨packet⟩
    -- Behind the request there is the one that it has made.
    have hw : (waitAccepted os (s.setProtSize layer)).workers = [.created] := by
      show (if os.pthreadCreate then s.workers ++ [.created] else s.workers) = _
      rw [hcreate, hnone]
      rfl
    rw [hrecv]
    exact ⟨.created ⟨hauth, rfl, rfl, hb⟩ hw rfl rfl, rfl⟩

end Accept

/-! ## The result -/

/-- What one call of `fgets` can return of an output without NULs. -/
def IsLine (line : Bytes) : Prop := line ≠ [] ∧ line.length < 1024 ∧ (0 : UInt8) ∉ line

instance (line : Bytes) : Decidable (IsLine line) :=
  inferInstanceAs (Decidable (_ ∧ _))

/-- No output is lost in any run whose polls are all safe: for every layer, every accepted
    command, every output that fits the buffer and every interleaving of the worker with the
    polls, the client has printed every line when it stops. -/
theorem execCmdWait_prints_all (layer : UInt8) (p : WaitCmd (layerProtSize layer))
    (lines : List Bytes) (c₀ c : WaitConf layer) (hlines : ∀ l ∈ lines, IsLine l)
    (_hfit : (stream lines).length ≤ udbBufSize) (hacc : Accepted lines p c₀)
    (hrun : Relation.ReflTransGen (WaitStep p (PollSafe layer)) c₀ c)
    (hphase : c.client.phase = .finished) : c.client.out = lines.flatten := by
  obtain ⟨h₀, htodo⟩ := hacc.waitInv
  have hinv := waitInv_run (fun l hl => (hlines l hl).2.2) htodo h₀ hrun
  cases hinv with
  | created base | running base | dead base => rw [base.phase] at hphase; cases hphase
  | done _ hout => exact hout

/-! ## A worker that is ahead of all polls -/

/-- A thread can start if it has room for its command, whatever the state. -/
theorem exists_threadStart (s : Server) {line : Bytes} (h : line.length < s.udbProtSize) :
    ∃ s', threadStart (willing [] []) line s = .ok (s', .reading line) := by
  unfold threadStart
  dsimp only
  rw [if_pos h]
  exact ⟨_, rfl⟩

/-- The worker has stored `app` in a cleared buffer. -/
structure Wrote {layer : UInt8} (app : List Bytes) (w : Worker) (s : Server)
    (st : WaitState (layerProtSize layer)) : Prop where
  base : Polling s st
  worker : s.workers = [w]
  stored : s.runcmdBuf.bytes = padTo udbBufSize (stream app)
  used : s.udbRuncmdWaitCtrl.usedSize.toNat = (stream app).length
  updated : s.udbRuncmdWaitCtrl.tmLastUpdate = 0

/-- Nothing of it has been delivered. -/
structure Ahead {layer : UInt8} (app : List Bytes) (w : Worker) (s : Server)
    (st : WaitState (layerProtSize layer)) : Prop extends Wrote app w s st where
  cursor : s.udbRuncmdWaitCtrl.cpOffset = 0
  quiet : st.out = []

section Ahead

variable {layer : UInt8} {app todo : List Bytes} {s : Server} {st : WaitState (layerProtSize layer)}
  {p : WaitCmd (layerProtSize layer)} {safe : Server → Prop} {cmd : Bytes}

/-- The worker stores one more line; the cursor and the flag stay. -/
theorem Wrote.line {line : Bytes} (h : Wrote app (.reading cmd) s st) (hline : IsLine line)
    (hfit : (stream (app ++ [line])).length ≤ udbBufSize) :
    ∃ s', WorkerStep 0 (.line line) s s' ∧ Wrote (app ++ [line]) (.reading cmd) s' st ∧
      s'.udbRuncmdWaitCtrl.cpOffset = s.udbRuncmdWaitCtrl.cpOffset ∧
      s'.udbRuncmdWaitCtrl.cmdFinish = s.udbRuncmdWaitCtrl.cmdFinish := by
  obtain ⟨hne, hlt, hnul⟩ := hline
  rw [stream_append] at hfit
  have hsize : udbBufSize = 655360 := rfl
  have hlen : (stream app ++ (line ++ [0])).length = (stream app).length + (line ++ [0]).length :=
    List.length_append
  have happ : (stream app).length ≤ udbBufSize := by omega
  have hbuf : s.runcmdBuf = Buf.fill udbBufSize (stream app) happ := Buf.ext h.stored
  -- The line goes behind the lines before it.
  have hcpy : s.runcmdBuf.memcpy s.udbRuncmdWaitCtrl.usedSize.toNat (cstr line ++ [0]) =
      .ok (Buf.fill udbBufSize _ hfit) := by
    rw [hbuf, h.used, cstr_of_not_mem hnul]
    exact Buf.memcpy_fill rfl happ hfit
  have hclock : ¬ tmDiff (osTimeGetBootMs (willing [] [])) s.udbRuncmdWaitCtrl.tmLastUpdate >
      300 := by
    rw [h.updated]
    decide
  have hstep := @threadLine_stored s (willing [] []) cmd line _ hclock h.base.ptr hcpy
  have hw : s.workers[0]? = some (.reading cmd) := by rw [h.worker]; rfl
  refine ⟨_, .line hw ⟨hne, hlt⟩ hstep, ⟨⟨h.base.auth, h.base.ptr, h.base.phase, h.base.readBuf⟩,
    ?_, ?_, ?_, h.updated⟩, rfl, rfl⟩
  · dsimp only
    rw [h.worker]
    rfl
  · dsimp only
    rw [stream_append]
    rfl
  · dsimp only
    rw [cstr_of_not_mem hnul, stream_append, hlen, UInt32.toNat_add,
      UInt32.toNat_ofNat_of_lt' (by show _ < 4294967296; omega), h.used]
    omega

/-- The thread can append all lines in front of the client. -/
theorem Ahead.run (h : Ahead app (.reading cmd) s st) (p : WaitCmd (layerProtSize layer))
    (safe : Server → Prop) (hlines : ∀ l ∈ todo, IsLine l)
    (hfit : (stream (app ++ todo)).length ≤ udbBufSize) :
    ∃ s', Relation.ReflTransGen (WaitStep p safe) ⟨s, st, todo⟩ ⟨s', st, []⟩ ∧
      Ahead (app ++ todo) (.reading cmd) s' st := by
  induction todo generalizing app s with
  | nil => exact ⟨s, .refl, by rwa [List.append_nil]⟩
  | cons line todo ih =>
    have heq : app ++ line :: todo = app ++ [line] ++ todo := by simp
    rw [heq] at hfit ⊢
    -- Each line fits where the whole stream does.
    have hline : (stream (app ++ [line])).length ≤ udbBufSize := by
      rw [stream, List.flatMap_append, List.length_append] at hfit
      rw [stream]
      omega
    obtain ⟨s₁, hstep, h₁, hcp, -⟩ := h.line (hlines line List.mem_cons_self) hline
    obtain ⟨s₂, hrun, h₂⟩ :=
      ih ⟨h₁, hcp.trans h.cursor, h.quiet⟩ (fun l hl => hlines l (List.mem_cons_of_mem _ hl)) hfit
    exact ⟨s₂, .head (.append hstep) hrun, h₂⟩

/-- The start of the thread on a device where everything succeeds. -/
theorem Ahead.start {b : Buf (layerProtSize layer + 1)}
    (hb : b.bytes.drop (layerProtSize layer) = [0]) :
    ∃ s, WorkerStep 0 .start
        (waitAccepted (willing [] []) ((authed fun _ => none).setProtSize layer)) s ∧
      Ahead [] (.reading []) s ⟨.poll, b, []⟩ ∧ s.udbRuncmdWaitCtrl.cmdFinish = false := by
  have hp := layerProtSize_bounds layer
  have hroom : ([] : Bytes).length < layerProtSize layer := by
    rw [List.length_nil]
    omega
  have hstart : threadStart (willing [] []) []
      (waitAccepted (willing [] []) ((authed fun _ => none).setProtSize layer)) = _ := if_pos hroom
  exact ⟨_, .start rfl hstart, ⟨⟨⟨rfl, rfl, rfl, hb⟩, rfl, congrArg Buf.bytes Buf.zero_eq_fill, rfl,
    rfl⟩, rfl, rfl⟩, rfl⟩

/-- A command is accepted, and its worker starts. -/
private theorem exists_workerStarted (layer : UInt8) (lines : List Bytes) (safe : Server → Prop) :
    ∃ (p : WaitCmd (layerProtSize layer)) (c₀ : WaitConf layer) (s : Server)
        (st : WaitState (layerProtSize layer)),
      execCmdWaitPacket (layerProtSize layer) lsArgs = .ok p.initPacket ∧
      WaitStep p (fun _ => True)
        ⟨authed fun _ => none, WaitCmd.init (layerProtSize layer), lines⟩ c₀ ∧
      Accepted lines p c₀ ∧ WaitStep p safe c₀ ⟨s, st, lines⟩ ∧
      Ahead [] (.reading []) s st ∧ s.udbRuncmdWaitCtrl.cmdFinish = false := by
  have hp := layerProtSize_bounds layer
  have hlen : (channelHeader .runCmdWait ++ packed 4 lsArgs).length ≤ layerProtSize layer := by
    have : (channelHeader .runCmdWait ++ packed 4 lsArgs).length = 10 := rfl
    omega
  have hpacket : execCmdWaitPacket _ lsArgs = _ := cmdPacket_eq .runCmdWait hlen
  -- The command is accepted, and its worker starts.
  have hreq := request_runcmdWait (willing [] []) layer (s := authed fun _ => none) rfl
    (cmdPacket_chan hpacket) rfl
  have hacc : Accepted lines _ _ := .intro (reachable_authed _) rfl hpacket hreq rfl
  have hfirst : WaitStep ⟨Buf.fill _ _ hlen⟩ (fun _ => True)
      ⟨authed fun _ => none, WaitCmd.init (layerProtSize layer), lines⟩ _ :=
    .poll trivial rfl (congrArg Except.toOption hreq)
  obtain ⟨b, hrecv, hb⟩ := WaitCmd.recv_accepted ⟨Buf.fill _ _ hlen⟩
  rw [hrecv] at hacc
  obtain ⟨s, hstart, h, hfin⟩ := Ahead.start hb
  exact ⟨_, _, _, _, hpacket, hrecv ▸ hfirst, hacc, .start hstart, h, hfin⟩

/-- From an accepted command the worker can store all lines before the first poll, whatever polls
    are taken to be safe. -/
theorem exists_reading (layer : UInt8) {lines : List Bytes} (hlines : ∀ l ∈ lines, IsLine l)
    (hfit : (stream lines).length ≤ udbBufSize) (safe : Server → Prop) :
    ∃ (p : WaitCmd (layerProtSize layer)) (c₀ : WaitConf layer) (s : Server)
        (st : WaitState (layerProtSize layer)),
      execCmdWaitPacket (layerProtSize layer) lsArgs = .ok p.initPacket ∧
      WaitStep p (fun _ => True)
        ⟨authed fun _ => none, WaitCmd.init (layerProtSize layer), lines⟩ c₀ ∧
      Accepted lines p c₀ ∧
      Relation.ReflTransGen (WaitStep p safe) c₀ ⟨s, st, []⟩ ∧
      Ahead lines (.reading []) s st := by
  obtain ⟨p, c₀, s, st, hpacket, hfirst, hacc, hstart, h, -⟩ :=
    exists_workerStarted layer lines safe
  -- The worker runs ahead of the client.
  obtain ⟨s', hrun, h'⟩ := h.run p safe hlines hfit
  exact ⟨p, c₀, s', st, hpacket, hfirst, hacc, .head hstart hrun, h'⟩

/-- The worker that has stored all lines sets the flag. -/
theorem Wrote.eof (h : Wrote app (.reading cmd) s st) :
    ∃ s', WorkerStep 0 .eof s s' ∧ Wrote app .exiting s' st ∧
      s'.udbRuncmdWaitCtrl.cpOffset = s.udbRuncmdWaitCtrl.cpOffset ∧
      s'.udbRuncmdWaitCtrl.cmdFinish = true := by
  have hw : s.workers[0]? = some (.reading cmd) := by rw [h.worker]; rfl
  refine ⟨_, .eof hw, ⟨⟨h.base.auth, h.base.ptr, h.base.phase, h.base.readBuf⟩, ?_, h.stored,
    h.used, h.updated⟩, rfl, rfl⟩
  dsimp only
  rw [h.worker]
  rfl

/-- From an accepted command the worker can store all lines and set the flag before the first
    poll. -/
theorem exists_ahead (layer : UInt8) {lines : List Bytes} (hlines : ∀ l ∈ lines, IsLine l)
    (hfit : (stream lines).length ≤ udbBufSize) (safe : Server → Prop) :
    ∃ (p : WaitCmd (layerProtSize layer)) (c₀ : WaitConf layer) (s : Server)
        (st : WaitState (layerProtSize layer)),
      execCmdWaitPacket (layerProtSize layer) lsArgs = .ok p.initPacket ∧
      WaitStep p (fun _ => True)
        ⟨authed fun _ => none, WaitCmd.init (layerProtSize layer), lines⟩ c₀ ∧
      Accepted lines p c₀ ∧
      Relation.ReflTransGen (WaitStep p safe) c₀ ⟨s, st, []⟩ ∧
      Ahead lines .exiting s st ∧ s.udbRuncmdWaitCtrl.cmdFinish = true := by
  obtain ⟨p, c₀, s, st, hpacket, hfirst, hacc, hrun, h⟩ := exists_reading layer hlines hfit safe
  obtain ⟨s', heof, h', hcp, hfin⟩ := h.eof
  exact ⟨p, c₀, s', st, hpacket, hfirst, hacc, hrun.tail (.finish heof),
    ⟨h', hcp.trans h.cursor, h.quiet⟩, hfin⟩

/-- The first line and its terminator are at the start of the buffer. -/
theorem Ahead.bytes {line : Bytes} {rest : List Bytes} {w : Worker}
    (h : Ahead (line :: rest) w s st) : ∃ tail, s.runcmdBuf.bytes = line ++ [0] ++ tail := by
  refine ⟨stream rest ++ List.replicate (udbBufSize - (stream (line :: rest)).length) 0, ?_⟩
  rw [h.stored, padTo, ← List.append_assoc]
  rfl

/-- The next line can then be polled. -/
theorem Ahead.pollable {line : Bytes} {rest : List Bytes} {w : Worker}
    (h : Ahead (line :: rest) w s st) (hnul : (0 : UInt8) ∉ line)
    (hfit : (stream (line :: rest)).length ≤ udbBufSize) : Pollable s line.length := by
  obtain ⟨tail, hbuf⟩ := h.bytes
  refine ⟨h.base.ptr, by rw [h.cursor]; exact UInt32.zero_le, by rw [h.used]; exact hfit, ?_⟩
  have hmem : (0 : UInt8) ∈ line ++ [0] ++ tail := by simp
  have hcstr : cstr (line ++ [0] ++ tail) = line := by
    rw [List.append_assoc, cstr_append_of_not_mem hnul]
    exact List.append_nil line
  rw [h.cursor, hbuf, strlenAt, cstrAt, UInt32.toNat_zero, List.drop_zero, if_pos hmem, hcstr]
  rfl

/-- If all lines together are shorter than a packet, the first poll announces the end and
    delivers the first line only. -/
theorem Ahead.poll {line : Bytes} {rest : List Bytes} {w : Worker}
    (h : Ahead (line :: rest) w s st) (hfin : s.udbRuncmdWaitCtrl.cmdFinish = true)
    (hnul : (0 : UInt8) ∉ line) (hshort : (stream (line :: rest)).length < layerProtSize layer - 1)
    (hsafe : safe s) :
    ∃ s' b, WaitStep p safe ⟨s, st, []⟩ ⟨s', ⟨.finished, b, line⟩, []⟩ := by
  have hp := layerProtSize_bounds layer
  have hsize : udbBufSize = 655360 := rfl
  have hpollable := h.pollable hnul (by omega)
  -- All lines together would fit, so this poll is taken for the last.
  have hends : endsAt layer s = true := by
    rw [endsAt, waitPullFinish_iff hp.2 hpollable.cursor hpollable.used_le, h.used, h.cursor]
    refine ⟨hfin, ?_⟩
    show _ < 0 + _
    omega
  -- But what it hands out ends at the first terminator.
  have hpiece : (pieceOf layer s line.length).filter (· ≠ 0) = line := by
    obtain ⟨tail, hbuf⟩ := h.bytes
    have hlen : (stream (line :: rest)).length = line.length + 1 + (stream rest).length := by
      simp [stream]
      omega
    have hcut : waitPiece (layerProtSize layer) s.udbRuncmdWaitCtrl.usedSize 0 line.length =
        (line ++ [0]).length := by
      rw [waitPiece, h.used, UInt32.toNat_zero, List.length_append, List.length_singleton]
      omega
    have honly : (stream [line]).filter (· ≠ 0) = [line].flatten :=
      filter_stream fun l hl => by rwa [List.mem_singleton.mp hl]
    rw [pieceOf, h.cursor, hcut, hbuf, UInt32.toNat_zero, List.drop_zero, List.take_left]
    simpa [stream] using honly
  have hnext := WaitCmd.next_poll p (by omega) h.base.phase
  have hchan : (padTo (layerProtSize layer) (channelHeader .runCmdWaitPullout))[3]? =
      some UdbChanId.runCmdWaitPullout.toByte := rfl
  obtain ⟨s', hreq, -⟩ := request_pollable (willing [] []) layer h.base.auth hchan hpollable
  have hserve := congrArg Except.toOption hreq
  obtain ⟨len, b, hpollable', -, -, hrecv, -⟩ :=
    poll_exchange h.base hpollable.cursor hpollable.used_le hnext hserve
  obtain rfl : len = line.length := Except.ok.inj (hpollable'.term.symm.trans hpollable.term)
  have hstep := @WaitStep.poll _ p safe _ _ _ [] _ _ _ hsafe hnext hserve
  rw [hrecv, hends, hpiece, h.quiet] at hstep
  exact ⟨s', b, hstep⟩

end Ahead

/-! ## Polls that keep up -/

/-- The worker reads, and all that it has stored is printed. -/
structure CaughtUp {layer : UInt8} (app : List Bytes) (s : Server)
    (st : WaitState (layerProtSize layer)) : Prop extends Wrote app (.reading []) s st where
  cursor : s.udbRuncmdWaitCtrl.cpOffset = s.udbRuncmdWaitCtrl.usedSize
  going : s.udbRuncmdWaitCtrl.cmdFinish = false
  out : st.out = app.flatten

section CaughtUp

variable {layer : UInt8} {app todo : List Bytes} {s : Server} {st : WaitState (layerProtSize layer)}
  {p : WaitCmd (layerProtSize layer)}

/-- What lies behind the lines that were printed, if one more has been stored. -/
private theorem Wrote.drop_bytes {line : Bytes} {w : Worker} (h : Wrote (app ++ [line]) w s st) :
    s.runcmdBuf.bytes.drop (stream app).length =
      line ++ ([0] ++ List.replicate (udbBufSize - (stream (app ++ [line])).length) 0) := by
  rw [h.stored, padTo, stream_append, List.append_assoc, List.drop_left, List.append_assoc]

/-- A line that is shorter than a packet is stored and polled. -/
private theorem CaughtUp.line {line : Bytes} (h : CaughtUp app s st) (hline : IsLine line)
    (hfit : (stream (app ++ [line])).length ≤ udbBufSize)
    (hshort : line.length + 1 < layerProtSize layer) :
    ∃ s' st', Relation.ReflTransGen (WaitStep p (PollSafe layer)) ⟨s, st, line :: todo⟩
      ⟨s', st', todo⟩ ∧ CaughtUp (app ++ [line]) s' st' := by
  have hp := layerProtSize_bounds layer
  obtain ⟨s₁, hstep, h₁, hcp, hfin⟩ := h.toWrote.line hline hfit
  have hbehind := h₁.drop_bytes
  have hcp₁ : s₁.udbRuncmdWaitCtrl.cpOffset.toNat = (stream app).length := by
    rw [hcp, h.cursor, h.used]
  have hused₁ : s₁.udbRuncmdWaitCtrl.usedSize.toNat = (stream app).length + (line.length + 1) := by
    rw [h₁.used, stream_append]
    simp
  -- The terminator of the line is the next one behind the cursor.
  have hpollable : Pollable s₁ line.length := by
    refine ⟨h₁.base.ptr, UInt32.le_iff_toNat_le.mpr (by omega), by rw [h₁.used]; exact hfit, ?_⟩
    rw [strlenAt_eq_ok, hcp₁, hbehind, cstr_append_of_not_mem hline.2.2]
    exact ⟨by simp, by simp [cstr]⟩
  have hends : endsAt layer s₁ = false := by
    rw [Bool.eq_false_iff, endsAt, ne_eq, waitPullFinish_iff hp.2
      hpollable.cursor hpollable.used_le, hfin, h.going]
    exact fun hboth => absurd hboth.1 (by decide)
  have hpiece : pieceOf layer s₁ line.length = line ++ [0] := by
    have hcut : waitPiece (layerProtSize layer) s₁.udbRuncmdWaitCtrl.usedSize
        s₁.udbRuncmdWaitCtrl.cpOffset line.length = (line ++ [0]).length := by
      rw [waitPiece, hcp₁, hused₁, List.length_append, List.length_singleton]
      omega
    rw [pieceOf, hcut, hcp₁, hbehind, ← List.append_assoc, List.take_left]
  -- A poll while the worker reads is safe.
  have hsafe : PollSafe layer s₁ := by
    refine ⟨fun hw => ?_, fun hset => ?_⟩
    · rw [h₁.worker] at hw
      cases hw
    · rw [hfin, h.going] at hset
      cases hset
  have hnext := WaitCmd.next_poll p (by omega) h₁.base.phase
  have hserve := congrArg Except.toOption (request_afterPoll (willing [] []) layer h₁.base.auth
    (rfl : (padTo (layerProtSize layer) (channelHeader .runCmdWaitPullout))[3]? =
      some UdbChanId.runCmdWaitPullout.toByte) hpollable)
  obtain ⟨len, b, hpollable', -, hpolled, hrecv, hb⟩ :=
    poll_exchange h₁.base hpollable.cursor hpollable.used_le hnext hserve
  obtain rfl : len = line.length := Except.ok.inj (hpollable'.term.symm.trans hpollable.term)
  obtain ⟨hbuf, hptr, hfin', hused', hmoved⟩ := hpolled.going hends
  have hpoll := @WaitStep.poll _ p (PollSafe layer) _ _ _ todo _ _ _ hsafe hnext hserve
  have hout : st.out ++ (line ++ [0]).filter (· ≠ 0) = (app ++ [line]).flatten := by
    have honly : (stream [line]).filter (· ≠ 0) = [line].flatten :=
      filter_stream fun l hl => by rw [List.mem_singleton.mp hl]; exact hline.2.2
    have hstream : stream [line] = line ++ [0] := by simp [stream]
    rw [h.out, List.flatten_append, ← honly, hstream]
  rw [hrecv, hends, hpiece, hout] at hpoll
  refine ⟨_, _, .head (.append hstep) (.single hpoll), ⟨⟨⟨?_, ?_, rfl, hb⟩, ?_, ?_, ?_, ?_⟩, ?_, ?_,
    rfl⟩⟩
  · exact hpolled.auth.trans h₁.base.auth
  · exact hptr.trans h₁.base.ptr
  · exact hpolled.workers.trans h₁.worker
  · rw [hbuf]
    exact h₁.stored
  · rw [hused']
    exact h₁.used
  · rw [tmLastUpdate_afterPoll]
    rfl
  · apply UInt32.toNat_inj.mp
    rw [hmoved, hused', hpiece, hcp₁, hused₁, List.length_append, List.length_singleton]
  · rw [hfin', hfin]
    exact h.going

/-- All lines are stored and polled one by one. -/
private theorem CaughtUp.run (h : CaughtUp app s st) (hlines : ∀ l ∈ todo, IsLine l)
    (hfit : (stream (app ++ todo)).length ≤ udbBufSize)
    (hshort : ∀ l ∈ todo, l.length + 1 < layerProtSize layer) :
    ∃ s' st', Relation.ReflTransGen (WaitStep p (PollSafe layer)) ⟨s, st, todo⟩ ⟨s', st', []⟩ ∧
      CaughtUp (app ++ todo) s' st' := by
  induction todo generalizing app s st with
  | nil => exact ⟨s, st, .refl, by rwa [List.append_nil]⟩
  | cons line todo ih =>
    have heq : app ++ line :: todo = app ++ [line] ++ todo := by simp
    rw [heq] at hfit ⊢
    -- Each line fits where the whole stream does.
    have hline : (stream (app ++ [line])).length ≤ udbBufSize := by
      rw [stream, List.flatMap_append, List.length_append] at hfit
      rw [stream]
      omega
    obtain ⟨s₁, st₁, hstep, h₁⟩ := h.line (hlines line List.mem_cons_self) hline
      (hshort line List.mem_cons_self)
    obtain ⟨s₂, st₂, hrun, h₂⟩ := ih h₁ (fun l hl => hlines l (List.mem_cons_of_mem _ hl)) hfit
      fun l hl => hshort l (List.mem_cons_of_mem _ hl)
    exact ⟨s₂, st₂, hstep.trans hrun, h₂⟩

/-- A run whose polls keep up with the worker. -/
theorem exists_caughtUp (layer : UInt8) {lines : List Bytes} (hlines : ∀ l ∈ lines, IsLine l)
    (hfit : (stream lines).length ≤ udbBufSize)
    (hshort : ∀ l ∈ lines, l.length + 1 < layerProtSize layer) :
    ∃ (p : WaitCmd (layerProtSize layer)) (c₀ : WaitConf layer) (s : Server)
        (st : WaitState (layerProtSize layer)),
      WaitStep p (fun _ => True)
        ⟨authed fun _ => none, WaitCmd.init (layerProtSize layer), lines⟩ c₀ ∧
      Accepted lines p c₀ ∧
      Relation.ReflTransGen (WaitStep p (PollSafe layer)) c₀ ⟨s, st, []⟩ ∧
      CaughtUp lines s st := by
  obtain ⟨p, c₀, s, st, -, hfirst, hacc, hstart, h, hfin⟩ :=
    exists_workerStarted layer lines (PollSafe layer)
  have hcp : s.udbRuncmdWaitCtrl.cpOffset = s.udbRuncmdWaitCtrl.usedSize := by
    apply UInt32.toNat_inj.mp
    rw [h.cursor, h.used]
    rfl
  obtain ⟨s', st', hrun, h'⟩ := CaughtUp.run ⟨h.toWrote, hcp, hfin, h.quiet⟩ hlines hfit hshort
  exact ⟨p, c₀, s', st', hfirst, hacc, .head hstart hrun, h'⟩

/-- Behind the end of the output one more poll ends the client. -/
private theorem CaughtUp.finish (h : CaughtUp app s st)
    (hroom : (stream app).length < udbBufSize) :
    ∃ c, Relation.ReflTransGen (WaitStep p (PollSafe layer)) ⟨s, st, []⟩ c ∧
      c.client.phase = .finished := by
  have hp := layerProtSize_bounds layer
  obtain ⟨s₁, heof, h₁, hcp, hfin⟩ := h.toWrote.eof
  have hcp₁ : s₁.udbRuncmdWaitCtrl.cpOffset.toNat = (stream app).length := by
    rw [hcp, h.cursor, h.used]
  -- The rest of the buffer is cleared.
  have hzeros : s₁.runcmdBuf.bytes.drop (stream app).length =
      0 :: List.replicate (udbBufSize - (stream app).length - 1) 0 := by
    rw [h₁.stored, padTo, List.drop_left, ← List.replicate_succ]
    congr 1
    omega
  have hpollable : Pollable s₁ 0 := by
    have hused := h₁.used
    refine ⟨h₁.base.ptr, UInt32.le_iff_toNat_le.mpr (by omega), by omega, ?_⟩
    rw [strlenAt_eq_ok, hcp₁, hzeros]
    exact ⟨List.mem_cons_self, rfl⟩
  have hends : endsAt layer s₁ = true := by
    rw [endsAt, waitPullFinish_iff hp.2 hpollable.cursor hpollable.used_le]
    have hused := h₁.used
    exact ⟨hfin, by omega⟩
  have hsafe : PollSafe layer s₁ := by
    refine ⟨fun hw => ?_, fun _ _ len _ => ?_⟩
    · rw [h₁.worker] at hw
      cases hw
    · have hused := h₁.used
      omega
  have hnext := WaitCmd.next_poll p (by omega) h₁.base.phase
  have hserve := congrArg Except.toOption (request_afterPoll (willing [] []) layer h₁.base.auth
    (rfl : (padTo (layerProtSize layer) (channelHeader .runCmdWaitPullout))[3]? =
      some UdbChanId.runCmdWaitPullout.toByte) hpollable)
  obtain ⟨len, b, -, -, -, hrecv, -⟩ :=
    poll_exchange h₁.base hpollable.cursor hpollable.used_le hnext hserve
  have hpoll := @WaitStep.poll _ p (PollSafe layer) _ _ _ [] _ _ _ hsafe hnext hserve
  rw [hrecv, hends] at hpoll
  exact ⟨_, .head (.finish heof) (.single hpoll), rfl⟩

end CaughtUp

/-- Three lines that are polled one by one. -/
theorem execCmdWait_prints_all_polled :
    ∃ (p : WaitCmd (layerProtSize udbLayerDef)) (c₀ c : WaitConf udbLayerDef),
      Accepted [ascii "a\n", ascii "bc\n", ascii "a\n"] p c₀ ∧ c.client.phase = .finished ∧
      Relation.ReflTransGen (WaitStep p (PollSafe udbLayerDef)) c₀ c ∧
      c.client.out = ascii "a\nbc\na\n" := by
  have hline : ∀ l ∈ [ascii "a\n", ascii "bc\n", ascii "a\n"], IsLine l := by decide
  obtain ⟨p, c₀, s, st, -, hacc, hrun, h⟩ :=
    exists_caughtUp udbLayerDef hline (by decide) (by decide)
  obtain ⟨c, hend, hphase⟩ := h.finish (by decide)
  have hall := hrun.trans hend
  exact ⟨p, c₀, c, hacc, hphase, hall,
    execCmdWait_prints_all udbLayerDef p _ c₀ _ hline (by decide) hacc hall hphase⟩

/-- Two short lines that are both stored, with the flag set, before the first poll: the second
    is lost. -/
theorem not_execCmdWait_prints_all :
    ¬ ∀ (layer : UInt8) (p : WaitCmd (layerProtSize layer)) (lines : List Bytes)
      (c₀ c : WaitConf layer), (∀ l ∈ lines, IsLine l) → (stream lines).length ≤ udbBufSize →
      Accepted lines p c₀ → Relation.ReflTransGen (WaitStep p fun _ => True) c₀ c →
      c.client.phase = .finished → c.client.out = lines.flatten := by
  intro hall
  -- Two lines are stored and the output ends before the client has polled.
  have hline : ∀ l ∈ [ascii "a\n", ascii "b\n"], IsLine l := by decide
  obtain ⟨p, c₀, s, st, -, -, hacc, hrun, h, hfin⟩ :=
    exists_ahead udbLayerDef hline (by decide) fun _ => True
  obtain ⟨s', b, hpoll⟩ :=
    @Ahead.poll _ s st p (fun _ => True) _ _ _ h hfin (by decide) (by decide) trivial
  -- The first poll hands out one line, and announces the end.
  have hout : ascii "a\n" = [ascii "a\n", ascii "b\n"].flatten :=
    hall udbLayerDef p _ c₀ _ hline (by decide) hacc (hrun.tail hpoll) rfl
  exact absurd hout (by decide)

end Udb.Spec
