import Udb.Spec.WaitWorker

/-!
# The last poll

When the worker has gone, `exec_cmd_wait` stops at the first poll with state byte 1.
The byte needs `cmd_finish`, which only the end of the output sets: a command that
could not be started, or that was given up after 300 ms, leaves the flag down, and
the client polls forever.

With the flag up the cursor catches up piece by piece, and the byte is set as soon as
less than a packet is left. If what is left is a multiple of a packet, it is set by a
poll that finds nothing, which looks for a terminator behind the data and needs one
there.

## Key results

- `Ended.poll`: with the flag up each poll announces the end or hands out something
- `exit_reported_iff`: the exits that are reported, and the client that stops
-/

namespace Udb.Spec

open CMem Udb.Native Interleave
open StopAndWait (Completes)

variable {ls : List Label} {l : Label} {s s' : Server} {os : Os} {layer : UInt8}
  {cmd reply : Bytes} {o : Option Bytes} {e : Event}

/-! ## The last stretch -/

/-- The length of the last line of a stream, with its terminator. -/
def lastStretch : Bytes → Nat
  | [] => 0
  | x :: rest => if 0 ∈ (x :: rest).dropLast then lastStretch rest else rest.length + 1

section Stretch

variable {a b d : Bytes} {c : Nat}

/-- Without a 0 in it the data is one stretch. -/
private theorem lastStretch_of_not_mem (h : (0 : UInt8) ∉ d.dropLast)
    : lastStretch d = d.length := by
  cases d with
  | nil => rfl
  | cons x rest => rw [lastStretch, if_neg h, List.length_cons]

/-- A stretch is part of the data. -/
private theorem lastStretch_le (d : Bytes) : lastStretch d ≤ d.length := by
  induction d with
  | nil => simp [lastStretch]
  | cons x rest ih =>
    rw [lastStretch, List.length_cons]
    split <;> omega

/-- Data has a last stretch. -/
private theorem lastStretch_pos (h : d ≠ []) : 0 < lastStretch d := by
  induction d with
  | nil => exact absurd rfl h
  | cons x rest ih =>
    rw [lastStretch]
    split
    · -- A NUL lies before the last place, so the rest is not empty.
      rename_i hmem
      apply ih
      rintro rfl
      simp at hmem
    · omega

/-- What lies in front of the last line does not matter. -/
private theorem lastStretch_append (h : (0 : UInt8) ∈ b.dropLast) :
    lastStretch (a ++ b) = lastStretch b := by
  have hb : b ≠ [] := by
    rintro rfl
    simp at h
  induction a with
  | nil => rfl
  | cons x a ih =>
    -- The NUL of `b` is one of the whole, so `x` is skipped.
    have hmem : (0 : UInt8) ∈ (x :: (a ++ b)).dropLast := by
      rw [← List.cons_append, List.dropLast_append_of_ne_nil hb]
      exact List.mem_append_right _ h
    rw [List.cons_append, lastStretch, if_pos hmem, ih]

/-- The last stretch is behind the last 0. -/
private theorem lastStretch_append_nul (hb : b ≠ []) : lastStretch
    (a ++ [0] ++ b) = lastStretch b := by
  have hmem : (0 : UInt8) ∈ (0 :: b).dropLast := by
    rw [List.dropLast_cons_of_ne_nil hb]
    exact List.mem_cons_self
  rw [List.append_assoc, List.singleton_append, lastStretch_append hmem, lastStretch, if_pos hmem]

/-- A piece is a line, or as much of one as fits a packet: the last line loses whole packets
    only. -/
private theorem lastStretch_append_mod
    (h : (∃ x, a = x ++ [0] ∧ (0 : UInt8) ∉ x ∧ a.length ≤ c) ∨ (0 : UInt8) ∉ a ∧ a.length = c)
    (hle : c ≤ (a ++ b).length) : lastStretch (a ++ b) % c = lastStretch b % c := by
  rw [List.length_append] at hle
  by_cases hb : b = []
  · -- The piece is all there is, so it is as long as a packet.
    subst hb
    rw [List.length_nil] at hle
    have hnot : (0 : UInt8) ∉ a.dropLast := by
      rcases h with ⟨x, rfl, hx, -⟩ | ⟨ha, -⟩
      · rwa [List.dropLast_concat]
      · exact fun hmem => ha (List.mem_of_mem_dropLast hmem)
    have hlen : a.length = c := by
      rcases h with ⟨x, -, -, hshort⟩ | ⟨-, hlen⟩
      · omega
      · exact hlen
    rw [List.append_nil, lastStretch_of_not_mem hnot, hlen, Nat.mod_self, lastStretch, Nat.zero_mod]
  · rcases h with ⟨x, rfl, -, -⟩ | ⟨ha, hlen⟩
    · rw [lastStretch_append_nul hb]
    · -- A piece without a terminator takes a whole packet off the line that goes on behind it.
      by_cases hmem : (0 : UInt8) ∈ b.dropLast
      · rw [lastStretch_append hmem]
      · have hnot : (0 : UInt8) ∉ (a ++ b).dropLast := by
          rw [List.dropLast_append_of_ne_nil hb, List.mem_append]
          exact fun hor => hor.elim ha hmem
        rw [lastStretch_of_not_mem hnot, lastStretch_of_not_mem hmem, List.length_append, hlen,
          Nat.add_mod_left]

end Stretch

/-! ## The cursor -/

/-- A piece is no longer than its stretch. -/
private theorem toNat_cutSize_le (layer : UInt8) (s : Server) (len : Nat) :
    (cutSize layer s len).toNat ≤ len + 1 := by
  unfold cutSize
  dsimp only
  split
  · rw [UInt32.toNat_ofNat']
    exact Nat.mod_le _ _
  · omega

/-- A step keeps the cursor in the buffer, inside the data or not. -/
private theorem WaitEffect.cursor_le {ctrl : RuncmdWaitUnit} {ws : List Worker}
    (h : WaitEffect s l ctrl ws)
    (hle : s.udbRuncmdWaitCtrl.cpOffset.toNat ≤ udbBufSize) : ctrl.cpOffset.toNat ≤ udbBufSize := by
  cases h with
  | idle | start | gaveUp | stored | eof | exit => exact hle
  | accepted => exact Nat.zero_le _
  | @poll os layer cmd reply len hauth hchan hptr hlen =>
    rw [cpOffset_afterPoll]
    split
    · exact Nat.zero_le _
    · -- The piece ends behind the terminator that the poll has found in the buffer.
      obtain ⟨hmem, rfl⟩ := strlenAt_eq_ok.mp hlen
      have hlt := length_cstr_lt hmem
      rw [List.length_drop, Buf.length_bytes] at hlt
      have hcut := toNat_cutSize_le layer s
        (cstr (s.runcmdBuf.bytes.drop s.udbRuncmdWaitCtrl.cpOffset.toNat)).length
      rw [UInt32.toNat_add]
      exact (Nat.mod_le _ _).trans (by omega)

/-- The cursor stays in the buffer. -/
private theorem cpOffset_le_of_reachable (h : Reachable s) :
    s.udbRuncmdWaitCtrl.cpOffset.toNat ≤ udbBufSize := by
  induction h with
  | init banner files => exact Nat.zero_le _
  | step hs hst ih =>
    obtain ⟨l, hl⟩ := step_iff_labelled.mp hst
    exact (waitEffect hl).cursor_le ih

/-! ## Polls -/

/-- A request for the next piece. -/
def IsPoll (layer : UInt8) (e : Event) : Prop :=
  ∃ os cmd, e = .request os layer cmd ∧ cmd.length = layerProtSize layer ∧
    cmd[3]? = some UdbChanId.runCmdWaitPullout.toByte

/-- The reply that stops the client. -/
def Announces (o : Option Bytes) : Prop := o.bind List.head? = some 1

/-- However the next `n` polls are made, one of them is answered with state byte 1. -/
def Reported (layer : UInt8) (s : Server) : Prop :=
  ∃ n, ∀ es, es.length = n → (∀ e ∈ es, IsPoll layer e) →
    ∃ s' outs, run exec es s = .ok (s', outs) ∧ ∃ o ∈ outs, Announces o

/-- A worker has been at work, and `cmd_finish` is `fin`. -/
structure Worked (fin : Bool) (s : Server) : Prop where
  reach : Reachable s
  auth : s.udbAuthOk = true
  ptr : s.udbRuncmdWaitCtrl.pullout = .buf
  fin : s.udbRuncmdWaitCtrl.cmdFinish = fin

section Polls

variable {fin : Bool}

/-- A poll keeps what the thread has left, and announces the end when it is there. -/
theorem Worked.step (h : Worked fin s) (he : IsPoll layer e) (hs : exec e s = .ok (s', o)) :
    Worked fin s' ∧ (Announces o ↔ endsAt layer s = true) ∧ ∃ os len,
      strlenAt (some s.runcmdBuf.bytes) s.udbRuncmdWaitCtrl.cpOffset.toNat = .ok len ∧
      (cutSize layer s len).toNat < layerProtSize layer ∧
      s' = (afterPoll os layer s len).setProtSize layer := by
  obtain ⟨os, cmd, rfl, hcmd, hchan⟩ := he
  obtain ⟨reply, hreq, rfl⟩ := exec_request_eq_ok.mp hs
  have hreach := h.reach.step (.request hcmd hreq)
  -- The poll returns, so the line and the piece behind the cursor could be read.
  obtain ⟨len, data, -, hlen, hdata, rfl, hlt, rfl⟩ :=
    (request_waitPullout_eq_ok h.auth hchan).mp hreq
  rw [length_of_loadPtr hdata] at hlt
  refine ⟨⟨hreach, ?_, ?_, ?_⟩, ?_, os, len, hlen, hlt, afterPoll_setProtSize os layer s len⟩
  · rw [udbAuthOk_afterPoll]
    exact h.auth
  · rw [pullout_afterPoll]
    exact h.ptr
  · rw [cmdFinish_afterPoll]
    exact h.fin
  · -- The flag is the reply's first byte.
    have hhead : Announces (some (padTo (layerProtSize layer)
        ([(endsAt layer s).toUInt8] ++ data))) ↔ some (endsAt layer s).toUInt8 = some 1 := Iff.rfl
    rw [hhead]
    cases endsAt layer s <;> decide

/-- The packet of the client is a poll. -/
private theorem isPoll_packet (os : Os) (layer : UInt8) :
    IsPoll layer (.request os layer (padTo (layerProtSize layer)
      (channelHeader .runCmdWaitPullout))) := by
  have hp := layerProtSize_bounds layer
  refine ⟨os, _, rfl, length_padTo ?_, rfl⟩
  rw [length_channelHeader]
  omega

/-- If no poll that is answered announces the end, the exit is not reported. -/
private theorem not_reported {I : Server → Prop} (h : I s)
    (hstep : ∀ e s s' o, IsPoll layer e → I s → exec e s = .ok (s', o) → I s' ∧ ¬ Announces o) :
    ¬ Reported layer s := by
  rintro ⟨n, hall⟩
  -- One and the same poll, `n` times: no reply of the run announces the end.
  let e : Event := .request (willing [] []) layer
    (padTo (layerProtSize layer) (channelHeader .runCmdWaitPullout))
  have hes : ∀ e' ∈ List.replicate n e, IsPoll layer e' := by
    intro e' hmem
    rw [List.eq_of_mem_replicate hmem]
    exact isPoll_packet _ layer
  obtain ⟨s', outs, hrun, o, hmem, hannounces⟩ := hall _ List.length_replicate hes
  exact run_silent hstep h hes hrun o hmem hannounces

/-- With the flag down the polls go on forever. -/
private theorem Worked.not_reported (h : Worked false s) : ¬ Reported layer s := by
  apply Spec.not_reported h
  intro e s s' o he h hs
  obtain ⟨h', hiff, -⟩ := h.step he hs
  refine ⟨h', fun hannounces => ?_⟩
  rw [hiff, endsAt_eq_false layer h.fin] at hannounces
  cases hannounces

end Polls

/-! ## Catching up -/

/-- What polls have still to hand out. -/
def unread (s : Server) : Bytes :=
  (s.runcmdBuf.bytes.take s.udbRuncmdWaitCtrl.usedSize.toNat).drop
    s.udbRuncmdWaitCtrl.cpOffset.toNat

/-- The polls come to their end: the cursor is inside the data, which leave room for a terminator
    behind them or do not end with a full packet, or it is behind the data and the string it
    stands at fits a reply. -/
def CanEnd (layer : UInt8) (s : Server) : Prop :=
  if s.udbRuncmdWaitCtrl.cpOffset ≤ s.udbRuncmdWaitCtrl.usedSize then
    s.udbRuncmdWaitCtrl.usedSize.toNat < udbBufSize ∨
      lastStretch (unread s) % (layerProtSize layer - 1) ≠ 0
  else ∃ len, strlenAt (some s.runcmdBuf.bytes) s.udbRuncmdWaitCtrl.cpOffset.toNat = .ok len ∧
    len + 2 ≤ layerProtSize layer

section Catching

variable {len : Nat}

/-- The command can end unless the buffer is full and its last stretch fills its packets. -/
private theorem canEnd_of_le (h : s.udbRuncmdWaitCtrl.cpOffset ≤ s.udbRuncmdWaitCtrl.usedSize) :
    CanEnd layer s ↔ s.udbRuncmdWaitCtrl.usedSize.toNat < udbBufSize ∨
      lastStretch (unread s) % (layerProtSize layer - 1) ≠ 0 := by
  rw [CanEnd, if_pos h]

/-- With the cursor behind the data, the stretch at the cursor decides. -/
private theorem canEnd_of_behind (h : ¬ s.udbRuncmdWaitCtrl.cpOffset ≤ s.udbRuncmdWaitCtrl.usedSize)
    :
    CanEnd layer s ↔ ∃ len,
      strlenAt (some s.runcmdBuf.bytes) s.udbRuncmdWaitCtrl.cpOffset.toNat = .ok len ∧
      len + 2 ≤ layerProtSize layer := by
  rw [CanEnd, if_neg h]

/-- The unread data is between cursor and end. -/
private theorem length_unread (hused : s.udbRuncmdWaitCtrl.usedSize.toNat ≤ udbBufSize) :
    (unread s).length =
      s.udbRuncmdWaitCtrl.usedSize.toNat - s.udbRuncmdWaitCtrl.cpOffset.toNat := by
  rw [unread, List.length_drop, List.length_take, Buf.length_bytes, Nat.min_eq_left hused]

/-- After the announcement there is nothing left. -/
private theorem canEnd_afterPoll (hends : endsAt layer s = true) :
    CanEnd layer ((afterPoll os layer s len).setProtSize layer) := by
  rw [afterPoll_of_ends os hends]
  refine (canEnd_of_le UInt32.zero_le).mpr (.inl ?_)
  have hsize : udbBufSize = 655360 := rfl
  show 0 < udbBufSize
  omega

/-- The data in front of the end of the buffer, and the terminator behind them, are there. -/
theorem Worked.pollable {fin : Bool} (h : Worked fin s)
    (hle : s.udbRuncmdWaitCtrl.cpOffset ≤ s.udbRuncmdWaitCtrl.usedSize)
    (hcan : CanEnd layer s) : ∃ len, Pollable s len := by
  have hused := (waitBase_of_reachable h.reach).used_le
  have hcp := UInt32.le_iff_toNat_le.mp hle
  have hlt : s.udbRuncmdWaitCtrl.cpOffset.toNat < udbBufSize := by
    rcases (canEnd_of_le hle).mp hcan with hroom | hstretch
    · omega
    · -- There is a last line, so the cursor has not caught up.
      by_contra hno
      have hnil : unread s = [] := by
        apply List.eq_nil_of_length_eq_zero
        rw [length_unread hused]
        omega
      rw [hnil] at hstretch
      exact hstretch (Nat.zero_mod _)
  obtain ⟨len, hlen, -⟩ := strlenAt_of_nul (nul_of_reachable h.reach) hlt
  exact ⟨len, h.ptr, hle, hused, hlen⟩

/-- A piece is a line, or a packet of one. -/
private theorem pieceOf_cases (h : Pollable s len)
    (hfull : s.udbRuncmdWaitCtrl.cpOffset.toNat + (layerProtSize layer - 1) ≤
      s.udbRuncmdWaitCtrl.usedSize.toNat) :
    (∃ x, pieceOf layer s len = x ++ [0] ∧ (0 : UInt8) ∉ x ∧
        (pieceOf layer s len).length ≤ layerProtSize layer - 1) ∨
      (0 : UInt8) ∉ pieceOf layer s len ∧
        (pieceOf layer s len).length = layerProtSize layer - 1 := by
  obtain ⟨hmem, rfl⟩ := strlenAt_eq_ok.mp h.term
  have hlen := length_pieceOf layer h
  rw [toNat_cutSize layer h] at hlen
  rw [hlen, pieceOf, waitPiece]
  by_cases hline : (cstr (s.runcmdBuf.bytes.drop s.udbRuncmdWaitCtrl.cpOffset.toNat)).length + 1 ≤
      layerProtSize layer - 1
  · -- The line fits the packet, so the piece is the line with its NUL.
    left
    rw [Nat.min_eq_right (by omega)]
    exact ⟨_, take_length_cstr_succ hmem, not_mem_cstr _, hline⟩
  · -- The line is longer: the packet is full before its NUL.
    right
    rw [Nat.min_eq_left (by omega), Nat.min_eq_left (by omega)]
    exact ⟨not_mem_take_cstr (by omega), rfl⟩

/-- A poll that does not announce the end hands out a piece of what is left, which is longer than
    a packet. -/
private theorem unread_afterPoll (os : Os) (h : Pollable s len) (hgoing : endsAt layer s = false) :
    unread s = pieceOf layer s len ++
      unread ((afterPoll os layer s len).setProtSize layer) := by
  obtain ⟨hbuf, -, -, hused, hcp⟩ := (polled_afterPoll os layer h).going hgoing
  have hle := length_pieceOf_le layer h
  -- The piece is what stands at the front of the unread bytes.
  have hpiece : ((s.runcmdBuf.bytes.take s.udbRuncmdWaitCtrl.usedSize.toNat).drop
      s.udbRuncmdWaitCtrl.cpOffset.toNat).take (pieceOf layer s len).length =
        pieceOf layer s len := by
    rw [List.drop_take, List.take_take, Nat.min_eq_left (by omega), length_pieceOf layer h,
      toNat_cutSize layer h]
    rfl
  show unread s = _ ++ ((afterPoll os layer s len).runcmdBuf.bytes.take
    (afterPoll os layer s len).udbRuncmdWaitCtrl.usedSize.toNat).drop
      (afterPoll os layer s len).udbRuncmdWaitCtrl.cpOffset.toNat
  rw [hbuf, hused, hcp, ← List.drop_drop]
  conv_lhs => rw [← List.take_append_drop (pieceOf layer s len).length (unread s)]
  rw [unread, hpiece]

/-- Behind the data every poll announces the end: there is less than nothing left. -/
private theorem endsAt_behind (layer : UInt8) (hfin : s.udbRuncmdWaitCtrl.cmdFinish = true)
    (hlt : s.udbRuncmdWaitCtrl.usedSize.toNat < s.udbRuncmdWaitCtrl.cpOffset.toNat)
    (hcp : s.udbRuncmdWaitCtrl.cpOffset.toNat ≤ udbBufSize) : endsAt layer s = true := by
  have hp := layerProtSize_bounds layer
  have hsize : udbBufSize = 655360 := rfl
  have hfull : (UInt32.ofNat (layerProtSize layer - 1)).toNat = layerProtSize layer - 1 :=
    UInt32.toNat_ofNat_of_lt' (by show _ < 4294967296; omega)
  -- The cursor is bounded, so its sum with a full packet does not wrap.
  have hsum : (s.udbRuncmdWaitCtrl.cpOffset + UInt32.ofNat (layerProtSize layer - 1)).toNat =
      s.udbRuncmdWaitCtrl.cpOffset.toNat + (layerProtSize layer - 1) := by
    rw [UInt32.toNat_add, hfull]
    omega
  rw [endsAt, waitPullFinish, hfin, Bool.true_and, decide_eq_true_eq, gt_iff_lt,
    UInt32.lt_iff_toNat_lt, hsum]
  omega

/-- Behind the data what is left wraps around, and only the terminator limits the piece. -/
private theorem toNat_cutSize_behind (layer : UInt8)
    (hlt : s.udbRuncmdWaitCtrl.usedSize.toNat < s.udbRuncmdWaitCtrl.cpOffset.toNat)
    (hcp : s.udbRuncmdWaitCtrl.cpOffset.toNat ≤ udbBufSize) (hlen : len < udbBufSize) :
    (cutSize layer s len).toNat = len + 1 := by
  have hends := endsAt_behind (s := { s with
    udbRuncmdWaitCtrl := { s.udbRuncmdWaitCtrl with cmdFinish := true } }) layer rfl hlt hcp
  rw [endsAt, waitPullFinish, Bool.true_and, decide_eq_true_eq] at hends
  have hsize : udbBufSize = 655360 := rfl
  have hsub : (s.udbRuncmdWaitCtrl.usedSize - s.udbRuncmdWaitCtrl.cpOffset).toNat =
      4294967296 - s.udbRuncmdWaitCtrl.cpOffset.toNat + s.udbRuncmdWaitCtrl.usedSize.toNat := by
    rw [UInt32.toNat_sub]
    show (4294967296 - _ + _) % 4294967296 = _
    omega
  -- `cp_size` is what is left, whether it is cut or not.
  have hpull : waitPulloutSize (layerProtSize layer) s.udbRuncmdWaitCtrl.usedSize
      s.udbRuncmdWaitCtrl.cpOffset =
        s.udbRuncmdWaitCtrl.usedSize - s.udbRuncmdWaitCtrl.cpOffset := by
    unfold waitPulloutSize
    dsimp only
    rw [if_pos hends, ite_self]
  unfold cutSize
  dsimp only
  rw [hpull, if_pos (by omega), UInt32.toNat_ofNat_of_lt' (by show _ < 4294967296; omega)]

/-- A poll from behind the data that has room for its string is answered. -/
private theorem Worked.exec_behind {fin : Bool} (h : Worked fin s) (he : IsPoll layer e)
    (hlt : s.udbRuncmdWaitCtrl.usedSize.toNat < s.udbRuncmdWaitCtrl.cpOffset.toNat)
    (hlen : strlenAt (some s.runcmdBuf.bytes) s.udbRuncmdWaitCtrl.cpOffset.toNat = .ok len)
    (hfit : len + 2 ≤ layerProtSize layer) : ∃ s' o, exec e s = .ok (s', o) := by
  obtain ⟨os, cmd, rfl, -, hchan⟩ := he
  obtain ⟨hmem, hcstr⟩ := strlenAt_eq_ok.mp hlen
  have hin := length_cstr_lt hmem
  rw [← hcstr, List.length_drop, Buf.length_bytes] at hin
  -- With the cursor behind `used_size` the cut is at the line alone.
  have hcut := toNat_cutSize_behind layer hlt (cpOffset_le_of_reachable h.reach)
    (by omega : len < udbBufSize)
  -- The piece lies in the buffer, so it can be read.
  have hload : loadPtr (some s.runcmdBuf.bytes) s.udbRuncmdWaitCtrl.cpOffset.toNat
      (cutSize layer s len).toNat = .ok _ :=
    loadPtr_eq_ok (by rw [Buf.length_bytes]; omega)
  refine ⟨_, _, exec_request_eq_ok.mpr ⟨_, (request_waitPullout_eq_ok h.auth hchan).mpr
    ⟨len, _, h.ptr, hlen, hload, rfl, ?_, rfl⟩, rfl⟩⟩
  rw [List.length_take]
  omega

/-- A poll that does not announce the end, though the flag is up, brings the cursor closer, and
    does not change whether the polls come to their end. -/
private theorem canEnd_going (os : Os) (h : Pollable s len)
    (hfin : s.udbRuncmdWaitCtrl.cmdFinish = true)
    (hgoing : endsAt layer s = false) :
    (CanEnd layer ((afterPoll os layer s len).setProtSize layer) ↔ CanEnd layer s) ∧
      (unread ((afterPoll os layer s len).setProtSize layer)).length < (unread s).length := by
  have hp := layerProtSize_bounds layer
  -- At least a packet is left, so the piece is a line or a packet of one.
  have hfull : s.udbRuncmdWaitCtrl.cpOffset.toNat + (layerProtSize layer - 1) ≤
      s.udbRuncmdWaitCtrl.usedSize.toNat := by
    by_contra hno
    rw [endsAt, (waitPullFinish_iff hp.2 h.cursor h.used_le _).mpr ⟨hfin, by omega⟩] at hgoing
    cases hgoing
  have hcases := pieceOf_cases h hfull
  have hsplit := unread_afterPoll os h hgoing
  have hpos : 0 < (pieceOf layer s len).length := by
    rcases hcases with ⟨x, heq, -, -⟩ | ⟨-, hlen⟩
    · rw [heq, List.length_append, List.length_singleton]
      omega
    · omega
  have hlong : layerProtSize layer - 1 ≤ (unread s).length := by
    rw [length_unread h.used_le]
    omega
  rw [hsplit] at hlong
  have hmod := lastStretch_append_mod hcases hlong
  rw [← hsplit] at hmod
  obtain ⟨-, -, -, hused, hcp⟩ := (polled_afterPoll os layer h).going hgoing
  have hin := length_pieceOf_le layer h
  have hle : ((afterPoll os layer s len).setProtSize layer).udbRuncmdWaitCtrl.cpOffset ≤
      ((afterPoll os layer s len).setProtSize layer).udbRuncmdWaitCtrl.usedSize := by
    rw [UInt32.le_iff_toNat_le]
    show (afterPoll os layer s len).udbRuncmdWaitCtrl.cpOffset.toNat ≤
      (afterPoll os layer s len).udbRuncmdWaitCtrl.usedSize.toNat
    rw [hcp, hused]
    omega
  constructor
  · rw [canEnd_of_le hle, canEnd_of_le h.cursor, hmod]
    show (afterPoll os layer s len).udbRuncmdWaitCtrl.usedSize.toNat < udbBufSize ∨ _ ↔ _
    rw [hused]
  · rw [hsplit, List.length_append]
    omega

/-- With the flag up, each poll of an output that can end announces the end or hands something
    out. -/
theorem Worked.poll (h : Worked true s) (hcan : CanEnd layer s) (he : IsPoll layer e) :
    ∃ s' o, exec e s = .ok (s', o) ∧ (Worked true s' ∧ CanEnd layer s') ∧
      (Announces o ∨ (unread s').length < (unread s).length) := by
  by_cases hle : s.udbRuncmdWaitCtrl.cpOffset ≤ s.udbRuncmdWaitCtrl.usedSize
  · -- The cursor is inside the data.
    obtain ⟨len, hpollable⟩ := h.pollable hle hcan
    obtain ⟨os, cmd, rfl, hcmd, hchan⟩ := he
    have hexec := exec_request_eq_ok.mpr
      ⟨_, request_afterPoll os layer h.auth hchan hpollable, rfl⟩
    obtain ⟨h', hiff, -⟩ := h.step ⟨os, cmd, rfl, hcmd, hchan⟩ hexec
    rw [afterPoll_setProtSize] at hexec h'
    refine ⟨_, _, hexec, ?_⟩
    by_cases hends : endsAt layer s = true
    · exact ⟨⟨h', canEnd_afterPoll hends⟩, .inl (hiff.mpr hends)⟩
    · rw [Bool.not_eq_true] at hends
      obtain ⟨hsame, hcloser⟩ := canEnd_going os hpollable h.fin hends
      exact ⟨⟨h', hsame.mpr hcan⟩, .inr hcloser⟩
  · -- The cursor is behind the data, where the comparison takes the poll for the last.
    obtain ⟨len, hlen, hfit⟩ := (canEnd_of_behind hle).mp hcan
    have hlt : s.udbRuncmdWaitCtrl.usedSize.toNat < s.udbRuncmdWaitCtrl.cpOffset.toNat := by
      rw [UInt32.le_iff_toNat_le] at hle
      omega
    have hends := endsAt_behind layer h.fin hlt (cpOffset_le_of_reachable h.reach)
    obtain ⟨s', o, hexec⟩ := h.exec_behind he hlt hlen hfit
    obtain ⟨h', hiff, os, len', -, -, rfl⟩ := h.step he hexec
    exact ⟨_, o, hexec, ⟨h', canEnd_afterPoll hends⟩, .inl (hiff.mpr hends)⟩

/-- Polls that can come to the end report it. -/
private theorem Worked.reported (h : Worked true s) (hcan : CanEnd layer s) : Reported layer s := by
  have hstep : ∀ e s, IsPoll layer e → Worked true s ∧ CanEnd layer s →
      ∃ s' o, exec e s = .ok (s', o) ∧ (Worked true s' ∧ CanEnd layer s') ∧
        (Announces o ∨ (unread s').length < (unread s).length) :=
    fun e s he hs => hs.1.poll hs.2 he
  refine ⟨(unread s).length + 1, fun es hlen hes => ?_⟩
  obtain ⟨s', outs, hrun, hgood⟩ := run_progress hstep ⟨h, hcan⟩ hes
  exact ⟨s', outs, hrun, hgood (by omega)⟩

/-- What is left ends with the buffer and with a full packet: a poll that is answered finds at
    least a packet. -/
private theorem endsAt_of_stuck (h : Pollable s len) (hcan : ¬ CanEnd layer s) :
    endsAt layer s = false := by
  have hp := layerProtSize_bounds layer
  have hunread := length_unread h.used_le
  have hcp := h.cursor_lt
  rw [canEnd_of_le h.cursor, not_or, not_not] at hcan
  obtain ⟨hend, hstretch⟩ := hcan
  -- A last stretch that the packet divides is a packet at least.
  have hpos : 0 < lastStretch (unread s) := by
    apply lastStretch_pos
    apply List.ne_nil_of_length_pos
    omega
  have hpacket := Nat.le_of_dvd hpos (Nat.dvd_of_mod_eq_zero hstretch)
  have hlong := lastStretch_le (unread s)
  rw [Bool.eq_false_iff, endsAt, ne_eq, waitPullFinish_iff hp.2 h.cursor h.used_le]
  omega

/-- If the output cannot end, no poll that is answered announces the end. -/
private theorem Worked.stuck (h : Worked true s) (hcan : ¬ CanEnd layer s)
    : ¬ Reported layer s := by
  apply Spec.not_reported (I := fun s => Worked true s ∧ ¬ CanEnd layer s) ⟨h, hcan⟩
  rintro e s s' o he ⟨h, hcan⟩ hs
  obtain ⟨h', hiff, os, len, hlen, hcut, rfl⟩ := h.step he hs
  by_cases hle : s.udbRuncmdWaitCtrl.cpOffset ≤ s.udbRuncmdWaitCtrl.usedSize
  · have hpollable : Pollable s len :=
      ⟨h.ptr, hle, (waitBase_of_reachable h.reach).used_le, hlen⟩
    have hends := endsAt_of_stuck hpollable hcan
    refine ⟨⟨h', ?_⟩, ?_⟩
    · rwa [(canEnd_going os hpollable h.fin hends).1]
    · rw [hiff, hends]
      decide
  · -- The string has been stored behind the state byte, so it fits.
    exfalso
    have hlt : s.udbRuncmdWaitCtrl.usedSize.toNat < s.udbRuncmdWaitCtrl.cpOffset.toNat := by
      rw [UInt32.le_iff_toNat_le] at hle
      omega
    obtain ⟨hmem, hcstr⟩ := strlenAt_eq_ok.mp hlen
    have hin := length_cstr_lt hmem
    rw [← hcstr, List.length_drop, Buf.length_bytes] at hin
    rw [toNat_cutSize_behind layer hlt (cpOffset_le_of_reachable h.reach) (by omega)] at hcut
    exact hcan ((canEnd_of_behind hle).mpr ⟨len, hlen, by omega⟩)

end Catching

/-! ## The client -/

/-- A client that polls stops if the exit is reported. -/
private theorem completes_of_run {fin : Bool} {os : Os} {p : WaitCmd (layerProtSize layer)}
    {n : Nat}
    {st : WaitState (layerProtSize layer)} {outs : List (Option Bytes)} (h : Worked fin s)
    (hphase : st.phase = .poll) (hbuf : st.readBuf.bytes.drop (layerProtSize layer) = [0])
    (hrun : run exec (List.replicate n (.request os layer
      (padTo (layerProtSize layer) (channelHeader .runCmdWaitPullout)))) s = .ok (s', outs))
    (hgood : ∃ o ∈ outs, Announces o) :
    ∃ st' t, Completes p.client (serveLayer os layer) st s st' t := by
  have hp := layerProtSize_bounds layer
  induction n generalizing s st outs with
  | zero =>
    obtain ⟨-, rfl⟩ := pure_pair_eq_ok.mp hrun
    obtain ⟨o, hmem, -⟩ := hgood
    cases hmem
  | succ n ih =>
    obtain ⟨s₁, o, outs, hexec, hrest, rfl⟩ := run_cons_eq_ok.mp hrun
    obtain ⟨h₁, hiff, -⟩ := h.step (isPoll_packet os layer) hexec
    obtain ⟨reply, hreq, rfl⟩ := exec_request_eq_ok.mp hexec
    have hlen : reply.length = layerProtSize layer := by
      obtain ⟨len, data, -, -, -, -, hlt, rfl⟩ := (request_waitPullout_eq_ok h.auth rfl).mp hreq
      apply length_padTo
      rw [List.length_append, List.length_singleton]
      omega
    have hnext := WaitCmd.next_poll p (by omega) hphase
    obtain ⟨b, hrecv, hb⟩ := WaitCmd.recv_poll p hphase hbuf hlen
    have hhead : (reply ++ [0]).head? = reply.head? := by
      rw [List.head?_append_of_ne_nil]
      apply List.ne_nil_of_length_pos
      omega
    rw [hhead] at hrecv
    by_cases hannounces : Announces (some reply)
    · -- The state byte of this reply ends the polling.
      have hone : reply.head? = some 1 := hannounces
      rw [if_pos hone] at hrecv
      refine ⟨_, s₁, .call hnext (serveLayer_eq_some.mpr hreq) (.finished ?_)⟩
      rw [hrecv]
      rfl
    · -- The client polls again, and a later reply announces the end.
      have hnot : ¬ reply.head? = some 1 := hannounces
      rw [if_neg hnot] at hrecv
      have hlater : ∃ o ∈ outs, Announces o := by
        obtain ⟨o, hmem, ho⟩ := hgood
        rcases List.mem_cons.mp hmem with rfl | hmem
        · exact absurd ho hannounces
        · exact ⟨o, hmem, ho⟩
      have hphase' : (p.client.recv st (some reply)).phase = .poll := by rw [hrecv]
      obtain ⟨st', t, hcompletes⟩ := ih h₁ hphase' (by rw [hrecv]; exact hb) hrest hlater
      exact ⟨st', t, .call hnext (serveLayer_eq_some.mpr hreq) hcompletes⟩

/-! ## The last step of a worker -/

/-- What the last worker did before it left, with the latest event first. -/
def lastTask : List Label → Option WorkerEvent
  | [] => none
  | .worker _ .exit :: ls => lastTask ls
  | .worker _ e :: _ => some e
  | _ :: ls => lastTask ls

/-- Other steps are not the thread's. -/
private theorem lastTask_cons (hl : ∀ i e, l ≠ .worker i e) : lastTask (l :: ls) = lastTask ls := by
  cases l with
  | worker i e => exact absurd rfl (hl i e)
  | request | printf | files => rfl

section Task

variable {ctrl : RuncmdWaitUnit} {ws : List Worker}

/-- A step keeps the flag and the last task together. -/
theorem WaitEffect.finish (h : WaitEffect s l ctrl ws)
    (hbase : WaitBase s.udbRuncmdWaitCtrl s.workers)
    (hiff : s.udbRuncmdWaitCtrl.cmdFinish = true ↔ lastTask ls = some .eof) :
    ctrl.cmdFinish = true ↔ lastTask (l :: ls) = some .eof := by
  cases h with
  | idle hl =>
    rw [lastTask_cons hl]
    exact hiff
  | accepted =>
    rw [lastTask_cons (by simp)]
    exact hiff
  | poll =>
    rw [cmdFinish_afterPoll, lastTask_cons (by simp)]
    exact hiff
  | start => simp [lastTask]
  | gaveUp hw | stored hw =>
    -- The worker has been reading, so the flag is down.
    simp [lastTask, hbase.reading _ (List.mem_of_getElem? hw)]
  | eof => simp [lastTask]
  | exit => exact hiff

/-- The pointer stays at the buffer. -/
theorem WaitEffect.ptr (h : WaitEffect s l ctrl ws)
    (hptr : s.udbRuncmdWaitCtrl.pullout = .buf) : ctrl.pullout = .buf := by
  cases h with
  | idle | start | gaveUp | stored | eof | exit => exact hptr
  | accepted => rfl
  | poll =>
    rw [pullout_afterPoll]
    exact hptr

/-- A worker runs only where the key was sent, and with the buffer set. -/
private theorem attached_of_worker (h : Reachable s) (hne : s.workers ≠ []) :
    s.udbAuthOk = true ∧ s.udbRuncmdWaitCtrl.pullout = .buf := by
  constructor
  · by_contra hno
    exact hne (closed_of_reachable h (Bool.eq_false_iff.mpr hno)).1
  · cases hptr : s.udbRuncmdWaitCtrl.pullout with
    | buf => rfl
    | null => exact absurd ((waitBase_of_reachable h).ptr hptr).2.2 hne

/-- And stays so. -/
private theorem attached_of_history {allowed : Label → Server → Server → Prop}
    (h : History allowed ls s)
    (hlast : lastTask ls ≠ none) :
    s.udbAuthOk = true ∧ s.udbRuncmdWaitCtrl.pullout = .buf := by
  induction h with
  | init banner files => exact absurd rfl hlast
  | @step ls l s s' hist hst _ ih =>
    have hbefore : s.udbAuthOk = true ∧ s.udbRuncmdWaitCtrl.pullout = .buf := by
      cases hst with
      | worker hw =>
        -- A step of a worker needs a worker, so one had been started before.
        apply attached_of_worker hist.reachable
        rintro hnil
        cases hw with
        | start hw | line hw | eof hw | exit hw =>
          rw [hnil] at hw
          cases hw
      | request | printf | files => exact ih hlast
    -- No step takes the key or the pointer back.
    obtain ⟨key, hinv⟩ := (inv_of_reachable hist.reachable).step (step_iff_labelled.mpr ⟨l, hst⟩)
    refine ⟨?_, (waitEffect hst).ptr hbefore.2⟩
    rw [hinv.auth, hbefore.1, Bool.true_or]

/-- The flag is up exactly if the last task was the end of the output. -/
private theorem finish_of_history {allowed : Label → Server → Server → Prop}
    (h : History allowed ls s) :
    s.udbRuncmdWaitCtrl.cmdFinish = true ↔ lastTask ls = some .eof := by
  induction h with
  | init banner files => simp [lastTask, Server.init]
  | step hist hst _ ih =>
    exact (waitEffect hst).finish (waitBase_of_reachable hist.reachable) ih

/-- The last task of the thread decides whether the command is finished. -/
private theorem worked_of_history {allowed : Label → Server → Server → Prop}
    (h : History allowed ls s)
    {task : WorkerEvent} (hlast : lastTask ls = some task) :
    Worked (decide (task = .eof)) s := by
  obtain ⟨hauth, hptr⟩ := attached_of_history h (by rw [hlast]; exact Option.some_ne_none task)
  refine ⟨h.reachable, hauth, hptr, ?_⟩
  rw [Bool.eq_iff_iff, finish_of_history h, hlast, decide_eq_true_eq, Option.some.injEq]

end Task

/-- An exit is reported if and only if the worker came to the end of the output and the polls come
    to theirs; and then the client stops. `task` is what the last worker has done last: `.start`
    if the command could not be run, a line if it was given up after it. -/
theorem exit_reported_iff (ls : List Label) (s : Server) (h : History (fun _ _ _ => True) ls s)
    (task : WorkerEvent) (hlast : lastTask ls = some task) (layer : UInt8) :
    (Reported layer s ↔ task = .eof ∧ CanEnd layer s) ∧
      (Reported layer s → ∀ (os : Os) (p : WaitCmd (layerProtSize layer))
        (st : WaitState (layerProtSize layer)), st.phase = .poll →
        st.readBuf.bytes.drop (layerProtSize layer) = [0] →
        ∃ st' t, Completes p.client (serveLayer os layer) st s st' t) := by
  have hworked := worked_of_history h hlast
  refine ⟨?_, fun hreported os p st hphase hbuf => ?_⟩
  · by_cases htask : task = .eof
    · rw [decide_eq_true htask] at hworked
      constructor
      · intro hreported
        refine ⟨htask, ?_⟩
        by_contra hcan
        exact hworked.stuck hcan hreported
      · rintro ⟨-, hcan⟩
        exact hworked.reported hcan
    · rw [decide_eq_false htask] at hworked
      exact ⟨fun hreported => absurd hreported hworked.not_reported,
        fun hboth => absurd hboth.1 htask⟩
  · -- The client's own packet is a poll like any other.
    obtain ⟨n, hall⟩ := hreported
    have hes : ∀ e ∈ List.replicate n (Event.request os layer
        (padTo (layerProtSize layer) (channelHeader .runCmdWaitPullout))), IsPoll layer e := by
      intro e hmem
      rw [List.eq_of_mem_replicate hmem]
      exact isPoll_packet os layer
    obtain ⟨s', outs, hrun, hgood⟩ := hall _ List.length_replicate hes
    exact completes_of_run hworked hphase hbuf hrun hgood

/-- A command whose three lines were polled one by one is reported. -/
theorem exit_reported_iff_polled : ∃ ls s, History (fun _ _ _ => True) ls s ∧ s.workers = [] ∧
    s.udbRuncmdWaitCtrl.usedSize.toNat =
      (stream [ascii "a\n", ascii "bc\n", ascii "a\n"]).length ∧
    lastTask ls = some .eof ∧ Reported udbLayerDef s := by
  obtain ⟨ls, s, hist, hw, hused, hcp⟩ := exists_history_polled
  have hreading : s.workers[0]? = some (.reading []) := by
    rw [hw]
    rfl
  -- The output ends, and the worker leaves.
  have heof := History.step hist (.worker (.eof hreading)) trivial
  have hexiting : ((threadEof s).1.workers.set 0 (threadEof s).2)[0]? = some .exiting := by
    show (s.workers.set 0 .exiting)[0]? = _
    rw [hw]
    rfl
  have hexit := History.step heof (.worker (.exit hexiting)) trivial
  refine ⟨_, _, hexit, ?_, hused, rfl,
    ((exit_reported_iff _ _ hexit .eof rfl udbLayerDef).1).mpr ⟨rfl, ?_⟩⟩
  · show (s.workers.set 0 .exiting).eraseIdx 0 = []
    rw [hw]
    rfl
  · have hlt : s.udbRuncmdWaitCtrl.usedSize.toNat < udbBufSize := by
      rw [hused]
      decide
    refine (canEnd_of_le ?_).mpr (.inl hlt)
    show s.udbRuncmdWaitCtrl.cpOffset ≤ _
    rw [hcp]
    exact UInt32.le_refl _

/-- A server with a worker that has not started. -/
private theorem exists_created : ∃ ls s, History (fun _ _ _ => True) ls s ∧
    s.workers = [.created] ∧ s.udbProtSize = layerProtSize udbLayerDef := by
  have hreq := @request_runcmdWait (authed fun _ => none) (padTo 64 (channelHeader .runCmdWait))
    (willing [] []) udbLayerDef rfl rfl rfl
  obtain ⟨ls, hist⟩ := exists_history (.step (reachable_authed fun _ => none) (.request rfl hreq))
  exact ⟨ls, _, hist, rfl, rfl⟩

/-- `uvc_popen` may fail. -/
private theorem exists_popen_failed (s : Server) (h : 0 < s.udbProtSize) :
    ∃ os s', threadStart os [] s = .ok (s', .exiting) ∧ s'.workers = s.workers := by
  refine ⟨{ willing [] [] with spawn := fun _ => none }, ?_⟩
  unfold threadStart
  dsimp only
  rw [List.length_nil, if_pos h]
  exact ⟨_, rfl, rfl⟩

/-- A command that could not be run is not reported. -/
theorem not_exit_reported : ¬ ∀ (ls : List Label) (s : Server),
    History (fun _ _ _ => True) ls s → ∀ i, .worker i .exit ∈ ls → s.workers = [] →
    ∀ layer, Reported layer s := by
  intro hall
  obtain ⟨ls, s, hist, hw, hprot⟩ := exists_created
  -- The created worker starts, its `uvc_popen` fails, and it exits.
  have hcreated : s.workers[0]? = some .created := by
    rw [hw]
    rfl
  obtain ⟨os, s₁, hstart, hw₁⟩ := exists_popen_failed s (by rw [hprot]; decide)
  have hstarted := History.step hist (.worker (.start hcreated hstart)) trivial
  have hexiting : (s₁.workers.set 0 .exiting)[0]? = some .exiting := by
    rw [hw₁, hw]
    rfl
  have hexit := History.step hstarted (.worker (.exit hexiting)) trivial
  have hgone : (s₁.workers.set 0 .exiting).eraseIdx 0 = [] := by
    rw [hw₁, hw]
    rfl
  -- The end of the command is not set, so no poll announces it.
  have hworked : Worked (decide (WorkerEvent.start = .eof)) _ := worked_of_history hexit rfl
  exact hworked.not_reported (hall _ _ hexit 0 List.mem_cons_self hgone udbLayerDef)

end Udb.Spec
