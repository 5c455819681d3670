import Udb.Spec.WaitPoll

/-!
# The worker and the polls

The worker appends each line with its terminator, at any time between two polls.
`WaitInv` says that what was printed is what lies in front of the cursor, without
the terminators. Every worker step keeps it, and so does a poll that is `PollSafe`.

Two things break it otherwise: a poll that announces the end while more than one
line is left, and a poll in front of the worker's start, which sees `used_size` and
`cmd_finish` of the command before.

## Key results

- `waitInv_run`: the invariant of every run whose polls are safe
-/

namespace Udb.Spec

open CMem StopAndWait Udb.Native

/-! ## Runs -/

/-- The server, the client that waits for its output, and the lines that `fgets` has still to
    return. -/
structure WaitConf (layer : UInt8) where
  server : Server
  client : WaitState (layerProtSize layer)
  todo : List Bytes

/-- One step of the worker, or one exchange of the client in a state that is `safe` to poll. -/
inductive WaitStep {layer : UInt8} (p : WaitCmd (layerProtSize layer)) (safe : Server → Prop) :
    WaitConf layer → WaitConf layer → Prop where
  | start {s s' : Server} {st : WaitState (layerProtSize layer)} {todo : List Bytes}
      (h : WorkerStep 0 .start s s') : WaitStep p safe ⟨s, st, todo⟩ ⟨s', st, todo⟩
  | append {s s' : Server} {st : WaitState (layerProtSize layer)} {line : Bytes}
      {todo : List Bytes} (h : WorkerStep 0 (.line line) s s') :
      WaitStep p safe ⟨s, st, line :: todo⟩ ⟨s', st, todo⟩
  | finish {s s' : Server} {st : WaitState (layerProtSize layer)} (h : WorkerStep 0 .eof s s') :
      WaitStep p safe ⟨s, st, []⟩ ⟨s', st, []⟩
  | exit {s s' : Server} {st : WaitState (layerProtSize layer)} {todo : List Bytes}
      (h : WorkerStep 0 .exit s s') : WaitStep p safe ⟨s, st, todo⟩ ⟨s', st, todo⟩
  | poll {s s' : Server} {st : WaitState (layerProtSize layer)} {todo : List Bytes} {os : Os}
      {q r : Bytes} (hsafe : safe s) (hn : p.client.next st = .call q)
      (hs : serveLayer os layer s q = some (s', r)) :
      WaitStep p safe ⟨s, st, todo⟩ ⟨s', p.client.recv st (some r), todo⟩

/-- What the worker has put into the buffer. -/
def stream (app : List Bytes) : Bytes := app.flatMap (· ++ [0])

/-- One line more in the buffer. -/
theorem stream_append (app : List Bytes) (line : Bytes) :
    stream (app ++ [line]) = stream app ++ (line ++ [0]) := by
  simp [stream]

/-- Without the terminators the stream is the lines. -/
theorem filter_stream {app : List Bytes} (h : ∀ l ∈ app, (0 : UInt8) ∉ l) :
    (stream app).filter (· ≠ 0) = app.flatten := by
  induction app with
  | nil => rfl
  | cons l app ih =>
    -- The line has no NUL, so the filter keeps it.
    have hl : l.filter (· ≠ 0) = l := by
      rw [List.filter_eq_self]
      intro x hx
      have hne : x ≠ 0 := fun h0 => h l List.mem_cons_self (h0 ▸ hx)
      simpa using hne
    have htail := ih fun l' hl' => h l' (List.mem_cons_of_mem _ hl')
    rw [stream, List.flatMap_cons, List.filter_append, List.filter_append, hl, List.flatten_cons]
    -- The NUL behind the line is the one byte that goes.
    rw [show app.flatMap (· ++ [0]) = stream app from rfl, htail]
    simp

/-- The client polls a server that has accepted it. -/
structure Polling {layer : UInt8} (s : Server) (st : WaitState (layerProtSize layer)) : Prop where
  auth : s.udbAuthOk = true
  ptr : s.udbRuncmdWaitCtrl.pullout = .buf
  phase : st.phase = .poll
  readBuf : st.readBuf.bytes.drop (layerProtSize layer) = [0]

/-- The lines `app` are in the buffer up to `used_size`, each with its terminator, and what was
    printed is what lies in front of the cursor, without the terminators. -/
structure Streaming {layer : UInt8} (app : List Bytes) (s : Server)
    (st : WaitState (layerProtSize layer)) : Prop where
  stored : s.runcmdBuf.bytes.take s.udbRuncmdWaitCtrl.usedSize.toNat = stream app
  used : (stream app).length = s.udbRuncmdWaitCtrl.usedSize.toNat
  cursor : s.udbRuncmdWaitCtrl.cpOffset ≤ s.udbRuncmdWaitCtrl.usedSize
  out : st.out = ((stream app).take s.udbRuncmdWaitCtrl.cpOffset.toNat).filter (· ≠ 0)

/-- What holds in every run whose polls are safe. -/
inductive WaitInv (lines : List Bytes) {layer : UInt8} : WaitConf layer → Prop where
  /-- The thread has not run yet. -/
  | created {s : Server} {st : WaitState (layerProtSize layer)} (base : Polling s st)
      (hw : s.workers = [.created]) (hcp : s.udbRuncmdWaitCtrl.cpOffset = 0)
      (hout : st.out = []) : WaitInv lines ⟨s, st, lines⟩
  /-- The lines `app` are in the buffer, and what was printed is what lies in front of the
      cursor. -/
  | running {s : Server} {st : WaitState (layerProtSize layer)} {w : Option Worker}
      {app todo : List Bytes} (base : Polling s st) (hw : s.workers = w.toList)
      (hstarted : w ≠ some .created) (hlines : lines = app ++ todo)
      (hstream : s.runcmdBuf.bytes.take s.udbRuncmdWaitCtrl.usedSize.toNat = stream app)
      (hlen : (stream app).length = s.udbRuncmdWaitCtrl.usedSize.toNat)
      (hle : s.udbRuncmdWaitCtrl.cpOffset ≤ s.udbRuncmdWaitCtrl.usedSize)
      (hout : st.out =
        ((stream app).take s.udbRuncmdWaitCtrl.cpOffset.toNat).filter (· ≠ 0))
      (hfin : s.udbRuncmdWaitCtrl.cmdFinish = true → todo = []) : WaitInv lines ⟨s, st, todo⟩
  /-- The thread could not spawn the command, or has given up: the end is never announced. -/
  | dead {s : Server} {st : WaitState (layerProtSize layer)} {todo : List Bytes}
      (base : Polling s st) (hw : s.workers = [] ∨ s.workers = [.exiting])
      (hle : s.udbRuncmdWaitCtrl.cpOffset ≤ s.udbRuncmdWaitCtrl.usedSize)
      (hused : s.udbRuncmdWaitCtrl.usedSize.toNat ≤ udbBufSize)
      (hfin : s.udbRuncmdWaitCtrl.cmdFinish = false) : WaitInv lines ⟨s, st, todo⟩
  /-- The client has seen the end. -/
  | done {s : Server} {st : WaitState (layerProtSize layer)} {todo : List Bytes}
      (hphase : st.phase = .finished) (hout : st.out = lines.flatten) :
      WaitInv lines ⟨s, st, todo⟩

/-- A poll is safe if the thread has run, or what it will clear is clear, and if the end is not
    announced while a terminator lies in front of the last byte that is left: at most one line
    remains. -/
def PollSafe (layer : UInt8) (s : Server) : Prop :=
  (s.workers[0]? = some .created →
    s.udbRuncmdWaitCtrl.usedSize = 0 ∧ s.udbRuncmdWaitCtrl.cmdFinish = false) ∧
  (s.udbRuncmdWaitCtrl.cmdFinish = true →
    s.udbRuncmdWaitCtrl.usedSize.toNat <
      s.udbRuncmdWaitCtrl.cpOffset.toNat + (layerProtSize layer - 1) →
    ∀ len, strlenAt (some s.runcmdBuf.bytes) s.udbRuncmdWaitCtrl.cpOffset.toNat = .ok len →
      s.udbRuncmdWaitCtrl.usedSize.toNat ≤ s.udbRuncmdWaitCtrl.cpOffset.toNat + (len + 1))

/-! ## Worker steps -/

section Worker

variable {layer : UInt8} {lines todo : List Bytes} {s s' : Server}
  {st : WaitState (layerProtSize layer)} {os : Os} {w : Worker}

/-- The start of the thread clears the size and the flag. -/
theorem threadStart_eq {cmd : Bytes} (h : threadStart os cmd s = .ok (s', w)) :
    (w = .reading cmd ∨ w = .exiting) ∧ ∃ rlog calls, s' = { s with
      udbRuncmdWaitCtrl := { s.udbRuncmdWaitCtrl with usedSize := 0, cmdFinish := false }
      rlog := rlog
      dev := { s.dev with calls := calls } } := by
  unfold threadStart at h
  dsimp only at h
  split at h
  · split at h
    · obtain ⟨hs', hw⟩ := pure_pair_eq_ok.mp h
      exact ⟨.inr hw.symm, _, _, hs'.symm⟩
    · rename_i out s₁ hpopen
      obtain ⟨hs', hw⟩ := pure_pair_eq_ok.mp h
      unfold uvcPopen at hpopen
      dsimp only at hpopen
      split at hpopen
      · cases hpopen
      · simp only [Option.some.injEq, Prod.mk.injEq] at hpopen
        exact ⟨.inl hw.symm, _, _, by rw [← hs', ← hpopen.2]; rfl⟩
  · cases h

/-- One turn of the loop gives up, or stores the line behind what is used. -/
theorem threadLine_eq {threadCmd buffer : Bytes}
    (h : threadLine os threadCmd buffer s = .ok (s', w)) :
    (w = .exiting ∧ ∃ rlog, s' = { s with rlog := rlog }) ∨
      w = .reading threadCmd ∧ ∃ b,
        s.runcmdBuf.memcpy s.udbRuncmdWaitCtrl.usedSize.toNat (cstr buffer ++ [0]) = .ok b ∧
        s' = { s with
          runcmdBuf := b
          udbRuncmdWaitCtrl := { s.udbRuncmdWaitCtrl with
            usedSize := s.udbRuncmdWaitCtrl.usedSize +
              UInt32.ofNat (cstr buffer ++ [0]).length } } := by
  unfold threadLine at h
  dsimp only at h
  split at h
  · obtain ⟨hs', hw⟩ := pure_pair_eq_ok.mp h
    exact .inl ⟨hw.symm, _, hs'.symm⟩
  · split at h
    · cases h
    · obtain ⟨b, hb, h⟩ := bind_eq_ok.mp h
      obtain ⟨hs', hw⟩ := pure_pair_eq_ok.mp h
      exact .inr ⟨hw.symm, b, hb, hs'.symm⟩

/-- A line is stored if the clock is not too far and the buffer has room. -/
theorem threadLine_stored {threadCmd buffer : Bytes} {b : Buf udbBufSize}
    (hclock : ¬ tmDiff (osTimeGetBootMs os) s.udbRuncmdWaitCtrl.tmLastUpdate > 300)
    (hptr : s.udbRuncmdWaitCtrl.pullout = .buf)
    (hcpy : s.runcmdBuf.memcpy s.udbRuncmdWaitCtrl.usedSize.toNat (cstr buffer ++ [0]) = .ok b) :
    threadLine os threadCmd buffer s = .ok ({ s with
      runcmdBuf := b
      udbRuncmdWaitCtrl := { s.udbRuncmdWaitCtrl with
        usedSize := s.udbRuncmdWaitCtrl.usedSize + UInt32.ofNat (cstr buffer ++ [0]).length } },
      .reading threadCmd) := by
  simp only [threadLine, if_neg hclock, hptr, hcpy, ok_bind, pure_eq_ok]

/-- All lines fit the buffer. -/
theorem Streaming.used_le {app : List Bytes} (h : Streaming app s st) :
    s.udbRuncmdWaitCtrl.usedSize.toNat ≤ udbBufSize := by
  have hlen := congrArg List.length h.stored
  rw [List.length_take, Buf.length_bytes, h.used] at hlen
  omega

/-- A line is stored behind the stream, and the part in front of the cursor stays. -/
theorem Streaming.append {app : List Bytes} {line : Bytes} {b : Buf udbBufSize}
    (h : Streaming app s st) (hnul : (0 : UInt8) ∉ line)
    (hcpy : s.runcmdBuf.memcpy s.udbRuncmdWaitCtrl.usedSize.toNat (cstr line ++ [0]) = .ok b) :
    Streaming (app ++ [line]) { s with
      runcmdBuf := b
      udbRuncmdWaitCtrl := { s.udbRuncmdWaitCtrl with
        usedSize :=
          s.udbRuncmdWaitCtrl.usedSize + UInt32.ofNat (cstr line ++ [0]).length } } st := by
  obtain ⟨hfit, hbytes⟩ := Buf.memcpy_eq_ok_iff.mp hcpy
  rw [cstr_of_not_mem hnul] at hfit hbytes ⊢
  have hsize : udbBufSize = 655360 := rfl
  -- The sum does not wrap, because the line is in the buffer.
  have hadd : (s.udbRuncmdWaitCtrl.usedSize + UInt32.ofNat (line ++ [0]).length).toNat =
      s.udbRuncmdWaitCtrl.usedSize.toNat + (line ++ [0]).length := by
    rw [UInt32.toNat_add, UInt32.toNat_ofNat_of_lt' (by show _ < 4294967296; omega)]
    omega
  have hcp := UInt32.le_iff_toNat_le.mp h.cursor
  have hlen : (stream (app ++ [line])).length =
      s.udbRuncmdWaitCtrl.usedSize.toNat + (line ++ [0]).length := by
    rw [stream_append, List.length_append, h.used]
  refine ⟨?_, ?_, ?_, ?_⟩
  · dsimp only
    rw [hadd, hbytes, h.stored, stream_append, ← h.used, ← List.length_append, List.take_left]
  · dsimp only
    rw [hadd, hlen]
  · dsimp only
    rw [UInt32.le_iff_toNat_le, hadd]
    omega
  · have hused := h.used
    dsimp only
    rw [h.out, stream_append, List.take_append_of_le_length (by omega)]

/-- The thread starts. -/
theorem WaitInv.start (h : WaitInv lines ⟨s, st, todo⟩) (hst : WorkerStep 0 .start s s') :
    WaitInv lines ⟨s', st, todo⟩ := by
  cases hst with
  | @start _ s₁ os cmd w hw hok =>
    obtain ⟨hcase, rlog, calls, rfl⟩ := threadStart_eq hok
    cases h with
    | created base hone hcp hout =>
      have hzero : s.udbRuncmdWaitCtrl.cpOffset ≤ 0 := by
        rw [hcp]
        exact UInt32.le_refl _
      have hset : s.workers.set 0 w = [w] := by rw [hone]; rfl
      -- The shell has been started, or the worker gives up at once.
      rcases hcase with rfl | rfl
      · refine .running ⟨base.auth, base.ptr, base.phase, base.readBuf⟩
          (hset.trans rfl : _ = (some _).toList) (by simp) (List.nil_append _).symm rfl rfl hzero ?_
          (fun hfin => by cases hfin)
        rw [hout, stream]
        simp
      · exact .dead ⟨base.auth, base.ptr, base.phase, base.readBuf⟩ (.inr hset) hzero
          (Nat.zero_le _) rfl
    | @running _ _ w₀ _ _ base hone hno =>
      cases w₀ <;> rw [hone] at hw <;> cases hw
      exact absurd rfl hno
    | dead base hno => rcases hno with hno | hno <;> rw [hno] at hw <;> cases hw
    | done hphase hout => exact .done hphase hout

/-- It appends a line. -/
theorem WaitInv.append {line : Bytes} (hnul : (0 : UInt8) ∉ line)
    (h : WaitInv lines ⟨s, st, line :: todo⟩) (hst : WorkerStep 0 (.line line) s s') :
    WaitInv lines ⟨s', st, todo⟩ := by
  cases hst with
  | @line _ s₁ os threadCmd _ w hw hb hok =>
    cases h with
    | created base hone => rw [hone] at hw; cases hw
    | @running _ _ w₀ app _ base hone hno hlines hstream hlen hle hout hfin =>
      have hset : s.workers.set 0 w = [w] := by
        rw [hone] at hw ⊢
        cases w₀ with
        | none => cases hw
        | some w₀ => rfl
      -- The worker still reads, so the end has not been announced.
      have hgoing : s.udbRuncmdWaitCtrl.cmdFinish = false := by
        cases hf : s.udbRuncmdWaitCtrl.cmdFinish with
        | false => rfl
        | true => cases hfin hf
      have hstreaming : Streaming app s st := ⟨hstream, hlen, hle, hout⟩
      rcases threadLine_eq hok with ⟨rfl, rlog, rfl⟩ | ⟨rfl, b, hcpy, rfl⟩
      · exact .dead ⟨base.auth, base.ptr, base.phase, base.readBuf⟩ (.inr hset) hle
          hstreaming.used_le hgoing
      · obtain ⟨hstream', hlen', hle', hout'⟩ := hstreaming.append hnul hcpy
        exact .running ⟨base.auth, base.ptr, base.phase, base.readBuf⟩
          (hset.trans rfl : _ = (some _).toList) (by simp)
          (by rw [hlines, List.append_assoc]; rfl : lines = (app ++ [line]) ++ todo)
          hstream' hlen' hle' hout' fun hf => by cases hfin hf
    | dead base hno => rcases hno with hno | hno <;> rw [hno] at hw <;> cases hw
    | done hphase hout => exact .done hphase hout

/-- It comes to the end of the lines. -/
theorem WaitInv.finish (h : WaitInv lines ⟨s, st, []⟩) (hst : WorkerStep 0 .eof s s') :
    WaitInv lines ⟨s', st, []⟩ := by
  cases hst with
  | @eof _ threadCmd hw =>
    cases h with
    | created base hone => rw [hone] at hw; cases hw
    | @running _ _ w₀ _ _ base hone hno hlines hstream hlen hle hout hfin =>
      -- The worker that reads becomes one that exits.
      have hset : s.workers.set 0 (threadEof s).2 = (some Worker.exiting).toList := by
        rw [hone] at hw ⊢
        cases w₀ with
        | none => cases hw
        | some w₀ => rfl
      exact .running ⟨base.auth, base.ptr, base.phase, base.readBuf⟩ hset (by simp) hlines
        hstream hlen hle hout fun _ => rfl
    | dead base hno => rcases hno with hno | hno <;> rw [hno] at hw <;> cases hw
    | done hphase hout => exact .done hphase hout

/-- The worker is gone, and nothing else has changed. -/
theorem WaitInv.exit (h : WaitInv lines ⟨s, st, todo⟩) (hst : WorkerStep 0 .exit s s') :
    WaitInv lines ⟨s', st, todo⟩ := by
  cases hst with
  | exit hw =>
    cases h with
    | created base hone => rw [hone] at hw; cases hw
    | @running _ _ w₀ _ _ base hone hno hlines hstream hlen hle hout hfin =>
      -- It leaves the list of workers.
      have hgone : s.workers.eraseIdx 0 = (none : Option Worker).toList := by
        rw [hone]
        cases w₀ <;> rfl
      exact .running ⟨base.auth, base.ptr, base.phase, base.readBuf⟩ hgone (by simp) hlines
        hstream hlen hle hout hfin
    | dead base hno hle hused hfin =>
      -- The worker of a command that did not start leaves as well.
      have hgone : s.workers.eraseIdx 0 = [] := by rcases hno with hno | hno <;> rw [hno] <;> rfl
      exact .dead ⟨base.auth, base.ptr, base.phase, base.readBuf⟩ (.inl hgone) hle hused hfin
    | done hphase hout => exact .done hphase hout

end Worker

/-! ## Polls -/

section Polls

variable {layer : UInt8} {lines todo : List Bytes} {s s' : Server}
  {st : WaitState (layerProtSize layer)} {os : Os} {p : WaitCmd (layerProtSize layer)} {q r : Bytes}

/-- One exchange: what was delivered is printed, and the client stops if the end was
    announced. -/
theorem poll_exchange (base : Polling s st)
    (hle : s.udbRuncmdWaitCtrl.cpOffset ≤ s.udbRuncmdWaitCtrl.usedSize)
    (hused : s.udbRuncmdWaitCtrl.usedSize.toNat ≤ udbBufSize) (hn : p.client.next st = .call q)
    (hs : serveLayer os layer s q = some (s', r)) :
    ∃ len b, Pollable s len ∧
      r = padTo (layerProtSize layer) ([(endsAt layer s).toUInt8] ++ pieceOf layer s len) ∧
      Polled s s' (endsAt layer s) (pieceOf layer s len).length ∧
      p.client.recv st (some r) = ⟨if endsAt layer s then .finished else .poll, b,
        st.out ++ (pieceOf layer s len).filter (· ≠ 0)⟩ ∧
      b.bytes.drop (layerProtSize layer) = [0] := by
  have hp := layerProtSize_bounds layer
  rw [WaitCmd.next_poll p (by omega) base.phase, Action.call.injEq] at hn
  subst hn
  have hreq := serveLayer_eq_some.mp hs
  have hchan : (padTo (layerProtSize layer) (channelHeader .runCmdWaitPullout))[3]? =
      some UdbChanId.runCmdWaitPullout.toByte := rfl
  obtain ⟨len, hpollable, -, rfl, hpolled⟩ :=
    request_waitPullout base.auth hchan hle hused hreq
  -- The piece is shorter than a packet, so the reply holds all of it.
  have hfit : ([(endsAt layer s).toUInt8] ++ pieceOf layer s len).length ≤ layerProtSize layer := by
    have := length_pieceOf_lt layer s len
    rw [List.length_append, List.length_singleton]
    omega
  obtain ⟨b, hrecv, hb⟩ := WaitCmd.recv_poll p base.phase base.readBuf (length_padTo hfit)
  refine ⟨len, b, hpollable, rfl, hpolled, ?_, hb⟩
  rw [hrecv, cstr_piece layer hpollable]
  have hhead : (padTo (layerProtSize layer) ([(endsAt layer s).toUInt8] ++ pieceOf layer s len) ++
      [0]).head? = some (endsAt layer s).toUInt8 := rfl
  rw [hhead]
  cases endsAt layer s <;> rfl

/-- A safe poll that announces the end delivers all that is left. -/
private theorem length_piece_of_ends {len : Nat} (h : Pollable s len) (hsafe : PollSafe layer s)
    (hend : endsAt layer s = true) :
    s.udbRuncmdWaitCtrl.cpOffset.toNat + (pieceOf layer s len).length =
      s.udbRuncmdWaitCtrl.usedSize.toNat := by
  have hp := layerProtSize_bounds layer
  have hcp := UInt32.le_iff_toNat_le.mp h.cursor
  obtain ⟨hfin, hlt⟩ := (waitPullFinish_iff hp.2 h.cursor h.used_le _).mp hend
  have hlast := hsafe.2 hfin hlt len h.term
  rw [length_pieceOf layer h, toNat_cutSize layer h, waitPiece]
  omega

/-- What has been delivered grows by the piece. -/
private theorem take_piece {app : List Bytes} {len : Nat} (h : Pollable s len)
    (hstream : s.runcmdBuf.bytes.take s.udbRuncmdWaitCtrl.usedSize.toNat = stream app) :
    (stream app).take s.udbRuncmdWaitCtrl.cpOffset.toNat ++ pieceOf layer s len =
      (stream app).take (s.udbRuncmdWaitCtrl.cpOffset.toNat + (pieceOf layer s len).length) := by
  have hpiece : ((stream app).drop s.udbRuncmdWaitCtrl.cpOffset.toNat).take
      (pieceOf layer s len).length = pieceOf layer s len := by
    have hwait := length_pieceOf_le layer h
    rw [← hstream, List.drop_take, List.take_take, Nat.min_eq_left (by omega),
      length_pieceOf layer h, toNat_cutSize layer h]
    rfl
  rw [List.take_add, hpiece]

/-- One exchange while the lines `app` are stored. -/
theorem Streaming.poll {app : List Bytes} (h : Streaming app s st) (base : Polling s st)
    (hn : p.client.next st = .call q) (hs : serveLayer os layer s q = some (s', r)) :
    ∃ len b, Pollable s len ∧ Polled s s' (endsAt layer s) (pieceOf layer s len).length ∧
      p.client.recv st (some r) = ⟨if endsAt layer s then .finished else .poll, b,
        ((stream app).take (s.udbRuncmdWaitCtrl.cpOffset.toNat +
          (pieceOf layer s len).length)).filter (· ≠ 0)⟩ ∧
      b.bytes.drop (layerProtSize layer) = [0] ∧
      (endsAt layer s = false → Streaming app s' (p.client.recv st (some r))) := by
  obtain ⟨len, b, hpollable, -, hpolled, hrecv, hb⟩ :=
    poll_exchange base h.cursor h.used_le hn hs
  -- What is printed is a prefix of the stream, one piece longer than before.
  have hdelivered : st.out ++ (pieceOf layer s len).filter (· ≠ 0) =
      ((stream app).take (s.udbRuncmdWaitCtrl.cpOffset.toNat +
        (pieceOf layer s len).length)).filter (· ≠ 0) := by
    rw [h.out, ← List.filter_append, take_piece hpollable h.stored]
  rw [hrecv, hdelivered]
  refine ⟨len, b, hpollable, hpolled, rfl, hb, fun hends => ?_⟩
  -- The end is not reached: buffer and size stay, the cursor moves by the piece.
  obtain ⟨hbuf, -, -, hsize, hmoved⟩ := hpolled.going hends
  have hwait := length_pieceOf_le layer hpollable
  refine ⟨by rw [hbuf, hsize, h.stored], by rw [hsize, h.used], ?_, by rw [hmoved]⟩
  rw [UInt32.le_iff_toNat_le, hmoved, hsize]
  omega

/-- No poll ends a command that is not finished. -/
theorem endsAt_eq_false (layer : UInt8) (h : s.udbRuncmdWaitCtrl.cmdFinish = false) :
    endsAt layer s = false := by
  rw [endsAt, waitPullFinish, h, Bool.false_and]

/-- The client polls. -/
theorem WaitInv.poll (hnul : ∀ l ∈ lines, (0 : UInt8) ∉ l) (h : WaitInv lines ⟨s, st, todo⟩)
    (hsafe : PollSafe layer s) (hn : p.client.next st = .call q)
    (hs : serveLayer os layer s q = some (s', r)) :
    WaitInv lines ⟨s', p.client.recv st (some r), todo⟩ := by
  cases h with
  | created base hone hcp hout =>
    -- Between the command and its worker a safe poll finds nothing and hands out nothing.
    obtain ⟨hempty, hfin⟩ := hsafe.1 (by rw [hone]; rfl)
    have hle : s.udbRuncmdWaitCtrl.cpOffset ≤ s.udbRuncmdWaitCtrl.usedSize := by
      rw [hcp]
      exact UInt32.zero_le
    obtain ⟨len, b, hpollable, -, hpolled, hrecv, hb⟩ :=
      poll_exchange base hle (by rw [hempty]; exact Nat.zero_le _) hn hs
    have hends := endsAt_eq_false layer hfin
    have hnone : pieceOf layer s len = [] := by
      rw [← List.length_eq_zero_iff, length_pieceOf layer hpollable, toNat_cutSize layer hpollable,
        waitPiece, hempty]
      simp
    obtain ⟨-, hptr, -, -, hmoved⟩ := hpolled.going hends
    rw [hrecv, hends, hnone, hout]
    refine .created ⟨hpolled.auth.trans base.auth, hptr.trans base.ptr, rfl, hb⟩
      (hpolled.workers.trans hone) ?_ rfl
    rw [← UInt32.toNat_inj, hmoved, hnone, hcp]
    rfl
  | @running _ _ w app _ base hone hno hlines hstream hlen hle hout hfin =>
    have hstreaming : Streaming app s st := ⟨hstream, hlen, hle, hout⟩
    obtain ⟨len, b, hpollable, hpolled, hrecv, hb, hgoes⟩ := hstreaming.poll base hn hs
    rw [hrecv] at hgoes ⊢
    cases hends : endsAt layer s with
    | true =>
      -- The end is announced behind the last line only, and this piece is what was left of it.
      obtain ⟨hcmd, -⟩ := (waitPullFinish_iff (layerProtSize_bounds layer).2 hle
        hstreaming.used_le _).mp hends
      obtain rfl := hfin hcmd
      rw [List.append_nil] at hlines
      refine .done rfl ?_
      dsimp only
      rw [length_piece_of_ends hpollable hsafe hends, ← hlen, List.take_length, hlines,
        filter_stream (hlines ▸ hnul)]
    | false =>
      obtain ⟨-, hptr, hcmd, -, -⟩ := hpolled.going hends
      obtain ⟨hstream', hlen', hle', hout'⟩ := hgoes hends
      exact .running ⟨hpolled.auth.trans base.auth, hptr.trans base.ptr, rfl, hb⟩
        (hpolled.workers.trans hone) hno hlines hstream' hlen' hle' hout' fun h => hfin (hcmd ▸ h)
  | dead base hw hle hused hfin =>
    -- The worker has given up, so the end is never announced.
    obtain ⟨len, b, hpollable, -, hpolled, hrecv, hb⟩ := poll_exchange base hle hused hn hs
    have hends := endsAt_eq_false layer hfin
    obtain ⟨hbuf, hptr, hcmd, hsize, hmoved⟩ := hpolled.going hends
    have hwait := length_pieceOf_le layer hpollable
    rw [hrecv, hends]
    refine .dead ⟨hpolled.auth.trans base.auth, hptr.trans base.ptr, rfl, hb⟩
      (by rw [hpolled.workers]; exact hw) ?_ (hsize ▸ hused) (hcmd.trans hfin)
    rw [UInt32.le_iff_toNat_le, hmoved, hsize]
    omega
  | done hphase hout =>
    simp only [WaitCmd.client, WaitCmd.next, hphase] at hn
    cases hn

/-- A step with a safe poll keeps the invariant. -/
theorem WaitInv.step {c c' : WaitConf layer} (hnul : ∀ l ∈ lines, (0 : UInt8) ∉ l)
    (htodo : ∀ l ∈ c.todo, (0 : UInt8) ∉ l) (h : WaitInv lines c)
    (hst : WaitStep p (PollSafe layer) c c') : WaitInv lines c' := by
  cases hst with
  | start hw => exact h.start hw
  | append hw => exact h.append (htodo _ List.mem_cons_self) hw
  | finish hw => exact h.finish hw
  | exit hw => exact h.exit hw
  | poll hsafe hn hs => exact h.poll hnul hsafe hn hs

/-- The lines still to come are a suffix of those at the start. -/
theorem todo_isSuffix {safe : Server → Prop} {c₀ c : WaitConf layer}
    (h : Relation.ReflTransGen (WaitStep p safe) c₀ c) : c.todo <:+ c₀.todo := by
  induction h with
  | refl => exact List.suffix_rfl
  | tail _ hst ih =>
    cases hst with
    | start | finish | exit | poll => exact ih
    | append => exact (List.suffix_cons _ _).trans ih

/-- The invariant of every run whose polls are safe. -/
theorem waitInv_run {c₀ c : WaitConf layer} (hnul : ∀ l ∈ lines, (0 : UInt8) ∉ l)
    (htodo : c₀.todo = lines) (h₀ : WaitInv lines c₀)
    (hrun : Relation.ReflTransGen (WaitStep p (PollSafe layer)) c₀ c) : WaitInv lines c := by
  induction hrun with
  | refl => exact h₀
  | tail hrun hst ih =>
    have hsuffix := todo_isSuffix hrun
    rw [htodo] at hsuffix
    exact ih.step hnul (fun l hl => hnul l (hsuffix.subset hl)) hst

end Polls

end Udb.Spec
