import Udb.Spec.History

/-!
# The cursor of `RUN_CMD_WAIT`

`cp_offset` is set back by the request that accepts a command, and `used_size` by
the thread when it starts, some time later. A poll between the two hands out what
the session before has left, and moves the cursor; when the thread then starts, the
cursor is behind the data.

## Key results

- `WaitEffect.cursor`: every other step keeps the cursor inside the data
- `cursor_safe_iff`: the runs whose cursor stays inside are those whose threads
  start with the cursor at the front
-/

namespace Udb.Spec

open CMem Udb.Native

variable {ls : List Label} {l : Label} {s s' : Server}

/-- The cursor is inside the data behind the step, and a poll has handed out nothing from
    outside. -/
structure CursorSafe (l : Label) (s s' : Server) : Prop where
  cursor : s'.udbRuncmdWaitCtrl.cpOffset ≤ s'.udbRuncmdWaitCtrl.usedSize
  reply : ∀ os layer cmd reply, l = .request os layer cmd reply → s.udbAuthOk = true →
    cmd[3]? = some UdbChanId.runCmdWaitPullout.toByte →
    ∃ flag k, s.udbRuncmdWaitCtrl.cpOffset.toNat + k ≤ s.udbRuncmdWaitCtrl.usedSize.toNat ∧
      reply = padTo (layerProtSize layer)
        ([flag] ++ (s.runcmdBuf.bytes.drop s.udbRuncmdWaitCtrl.cpOffset.toNat).take k)

/-- A thread finds the cursor at the front when it starts: no poll since the command was accepted
    has moved it. -/
def StartsAtFront (l : Label) (s _s' : Server) : Prop :=
  ∀ i, l = .worker i .start → s.udbRuncmdWaitCtrl.cpOffset = 0

/-! ## One step -/

/-- A step keeps the cursor inside the data, unless it is the start of a thread that finds it
    further on. -/
theorem WaitEffect.cursor {ctrl : RuncmdWaitUnit} {ws : List Worker} (h : WaitEffect s l ctrl ws)
    (hbase : WaitBase s.udbRuncmdWaitCtrl s.workers)
    (hle : s.udbRuncmdWaitCtrl.cpOffset ≤ s.udbRuncmdWaitCtrl.usedSize)
    (hfront : StartsAtFront l s s') : ctrl.cpOffset ≤ ctrl.usedSize := by
  cases h with
  | idle | gaveUp | eof | exit => exact hle
  | accepted => exact UInt32.zero_le
  | @poll os layer _ _ len hauth hchan hptr hlen =>
    have hpollable : Pollable s len := ⟨hptr, hle, hbase.used_le, hlen⟩
    cases hends : endsAt layer s with
    | true =>
      rw [cpOffset_afterPoll, if_pos hends]
      exact UInt32.zero_le
    | false =>
      -- The cursor moves by the piece, which ends at the end of the data at most.
      obtain ⟨-, -, -, hsize, hmoved⟩ := (polled_afterPoll os layer hpollable).going hends
      have hpiece := length_pieceOf_le layer hpollable
      rw [UInt32.le_iff_toNat_le, hmoved, hsize]
      omega
  | start =>
    have hzero := hfront _ rfl
    show s.udbRuncmdWaitCtrl.cpOffset ≤ 0
    rw [hzero]
    exact UInt32.le_refl 0
  | stored hw hcpy =>
    obtain ⟨hadd, -⟩ := toNat_usedSize_add hcpy
    have hcp := UInt32.le_iff_toNat_le.mp hle
    rw [UInt32.le_iff_toNat_le]
    dsimp only
    omega

/-- A thread that starts empties the buffer, and leaves the cursor where it was. -/
private theorem WaitEffect.of_start {ctrl : RuncmdWaitUnit} {ws : List Worker} {i : Nat}
    (h : WaitEffect s (.worker i .start) ctrl ws) :
    ctrl = { s.udbRuncmdWaitCtrl with usedSize := 0, cmdFinish := false } := by
  cases h with
  | idle hl => exact absurd rfl (hl i .start)
  | start => rfl

/-! ## Runs -/

/-- If every thread starts with the cursor at the front, the cursor is always inside. -/
private theorem cursor_of_history (h : History StartsAtFront ls s) :
    s.udbRuncmdWaitCtrl.cpOffset ≤ s.udbRuncmdWaitCtrl.usedSize := by
  induction h with
  | init banner files => exact UInt32.zero_le
  | step hist hst hfront ih =>
    exact (waitEffect hst).cursor (waitBase_of_reachable hist.reachable) ih hfront

/-- The cursor stays inside the data, and no reply carries anything from outside, in exactly the
    runs whose threads all start with the cursor at the front. -/
theorem cursor_safe_iff (ls : List Label) (s : Server) :
    History CursorSafe ls s ↔ History StartsAtFront ls s := by
  constructor
  · intro h
    refine h.refine fun ls l s s' _ hst hsafe i hl => ?_
    subst hl
    have hctrl := (waitEffect hst).of_start
    -- The start leaves the cursor where it was, and nothing behind it.
    have hle : s.udbRuncmdWaitCtrl.cpOffset ≤ 0 := by
      have hcursor := hsafe.cursor
      rw [hctrl] at hcursor
      exact hcursor
    exact UInt32.le_antisymm hle UInt32.zero_le
  · intro h
    refine h.refine fun ls l s s' hist hst hfront => ⟨cursor_of_history (.step hist hst hfront), ?_⟩
    rintro os layer cmd reply rfl hauth hchan
    have hcursor := cursor_of_history hist
    cases hst with
    | request hcmd hreq =>
      obtain ⟨len, -, -, rfl, -⟩ := request_waitPullout hauth hchan hcursor
        (waitBase_of_reachable hist.reachable).used_le hreq
      refine ⟨(endsAt layer s).toUInt8, waitPiece (layerProtSize layer)
        s.udbRuncmdWaitCtrl.usedSize s.udbRuncmdWaitCtrl.cpOffset len, ?_, rfl⟩
      have hle := UInt32.le_iff_toNat_le.mp hcursor
      rw [waitPiece]
      omega

/-! ## A poll between a command and its thread -/

/-- A session of one line is given up when the line is stored, a second command is accepted, and
    the poll that comes before its thread hands out the line. -/
private theorem exists_behind : ∃ s, Reachable s ∧
    ¬ s.udbRuncmdWaitCtrl.cpOffset ≤ s.udbRuncmdWaitCtrl.usedSize := by
  have hline : ∀ l ∈ [List.replicate 62 (97 : UInt8)], IsLine l := by decide
  obtain ⟨p, c₀, s, st, hpacket, hfirst, -, hrun, h, hfin⟩ :=
    exists_ahead udbLayerDef hline (by decide) fun _ => True
  have hreach : Reachable s :=
    reachable_of_waitSteps (reachable_of_waitSteps (reachable_authed _) (.single hfirst)) hrun
  have hw : s.workers[0]? = some .exiting := by rw [h.worker]; rfl
  have hold := h.pollable (by decide) (by decide)
  -- The thread leaves, and the second command is accepted.
  obtain ⟨s₂, hreach₂, hauth₂, hpollable, hcp, hused, hw₂⟩ : ∃ s₂, Reachable s₂ ∧
      s₂.udbAuthOk = true ∧ Pollable s₂ 62 ∧ s₂.udbRuncmdWaitCtrl.cpOffset = 0 ∧
      s₂.udbRuncmdWaitCtrl.usedSize.toNat = 63 ∧ s₂.workers[0]? = some .created := by
    have hreach₁ := Reachable.step hreach (.worker (.exit hw))
    have hreq := request_runcmdWait (willing [] []) udbLayerDef
      (s := { threadExit s with workers := s.workers.eraseIdx 0 }) h.base.auth
      (cmdPacket_chan hpacket) rfl
    have hterm := hold.term
    rw [h.cursor] at hterm
    refine ⟨_, .step hreach₁ (.request p.initPacket.length_bytes hreq), h.base.auth,
      ⟨rfl, UInt32.zero_le, hold.used_le, hterm⟩, rfl, h.used, ?_⟩
    show (s.workers.eraseIdx 0 ++ [.created])[0]? = _
    rw [h.worker]
    rfl
  -- The poll hands out the line: a full packet, so the end is not announced.
  have hends : endsAt udbLayerDef s₂ = false := by
    rw [Bool.eq_false_iff, endsAt, ne_eq, waitPullFinish_iff (by decide) hpollable.cursor
      hpollable.used_le, hused, hcp]
    exact fun hboth => absurd hboth.2 (by decide)
  have hpiece : (pieceOf udbLayerDef s₂ 62).length = 63 := by
    rw [length_pieceOf udbLayerDef hpollable, toNat_cutSize udbLayerDef hpollable, waitPiece, hused,
      hcp]
    decide
  have hchan : (padTo (layerProtSize udbLayerDef) (channelHeader .runCmdWaitPullout))[3]? =
      some UdbChanId.runCmdWaitPullout.toByte := rfl
  have hpoll := request_afterPoll (willing [] []) udbLayerDef hauth₂ hchan hpollable
  rw [afterPoll_setProtSize] at hpoll
  obtain ⟨-, -, -, -, hmoved⟩ :=
    (polled_afterPoll (willing [] []) udbLayerDef hpollable).going hends
  have hreach₃ := Reachable.step hreach₂ (.request (by decide) hpoll)
  -- Then the thread starts.
  have hw₃ : (afterPoll (willing [] []) udbLayerDef s₂ 62).workers[0]? = some .created := by
    rw [workers_afterPoll, hw₂]
  obtain ⟨s₄, hstart⟩ := @exists_threadStart
    ((afterPoll (willing [] []) udbLayerDef s₂ 62).setProtSize udbLayerDef) []
    (by decide : 0 < layerProtSize udbLayerDef)
  obtain ⟨-, rlog, calls, rfl⟩ := threadStart_eq hstart
  refine ⟨_, .step hreach₃ (.worker (.start hw₃ hstart)), fun hle => ?_⟩
  have hzero : (afterPoll (willing [] []) udbLayerDef s₂ 62).udbRuncmdWaitCtrl.cpOffset.toNat ≤ 0 :=
    UInt32.le_iff_toNat_le.mp hle
  omega

/-- So the cursor does not stay inside the data in all runs. -/
theorem not_cursor_safe :
    ¬ ∀ (ls : List Label) (s : Server), History (fun _ _ _ => True) ls s →
      History CursorSafe ls s := by
  intro hall
  obtain ⟨s, hreach, hbehind⟩ := exists_behind
  obtain ⟨ls, hist⟩ := exists_history hreach
  have hsafe := hall ls s hist
  cases hsafe with
  | init => exact hbehind UInt32.zero_le
  | step _ _ hcursor => exact hbehind hcursor.cursor

end Udb.Spec
