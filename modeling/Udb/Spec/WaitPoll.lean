import Udb.Spec.PullLoop

/-!
# Polling for output

What one `RUN_CMD_WAIT_PULLOUT` delivers: a state byte, and the bytes up to the next
terminator, as far as a packet holds them. The state byte is decided before the
piece is cut at the terminator, so a poll can announce the end and leave lines
behind.

## Key results

- `request_waitPullout`: what a poll that returns has delivered
-/

namespace Udb.Spec

open CMem StopAndWait Udb.Native

/-! ## One poll -/

section Poll

variable {protSize : Nat} {used cp : UInt32}

/-- The cursor and a packet are added without a wrap. -/
private theorem toNat_pollSum (hp : protSize ≤ 1470) (hcp : cp ≤ used)
    (hused : used.toNat ≤ udbBufSize) :
    (cp + UInt32.ofNat (protSize - 1)).toNat = cp.toNat + (protSize - 1) := by
  have hle := UInt32.le_iff_toNat_le.mp hcp
  have hsize : udbBufSize = 655360 := rfl
  rw [UInt32.toNat_add, UInt32.toNat_ofNat_of_lt' (by show _ < 4294967296; omega)]
  omega

/-- A packet less its state byte, or what is left. -/
private theorem toNat_waitPulloutSize (hp : protSize ≤ 1470) (hcp : cp ≤ used)
    (hused : used.toNat ≤ udbBufSize) :
    (waitPulloutSize protSize used cp).toNat = min (protSize - 1) (used.toNat - cp.toNat) := by
  -- Neither the sum nor the difference of the two counters wraps.
  have hsum := toNat_pollSum hp hcp hused
  have hsub := UInt32.toNat_sub_of_le _ _ hcp
  have hfull : (UInt32.ofNat (protSize - 1)).toNat = protSize - 1 :=
    UInt32.toNat_ofNat_of_lt' (by show _ < 4294967296; omega)
  unfold waitPulloutSize
  dsimp only
  by_cases hover : cp + UInt32.ofNat (protSize - 1) > used
  · -- A full packet would pass `used_size`: what is left of it goes out.
    have hlt := UInt32.lt_iff_toNat_lt.mp hover
    simp only [if_pos hover, ge_iff_le, UInt32.le_refl, if_true]
    omega
  · -- There is a packet's worth left.
    have hle := UInt32.le_iff_toNat_le.mp (UInt32.not_lt.mp hover)
    simp only [if_neg hover]
    split
    · rename_i hge
      have := UInt32.le_iff_toNat_le.mp hge
      omega
    · omega

/-- A poll ends the command when the rest is shorter than a packet. -/
theorem waitPullFinish_iff (hp : protSize ≤ 1470) (hcp : cp ≤ used)
    (hused : used.toNat ≤ udbBufSize) (cmdFinish : Bool) :
    waitPullFinish protSize cmdFinish used cp = true ↔
      cmdFinish = true ∧ used.toNat < cp.toNat + (protSize - 1) := by
  rw [waitPullFinish, Bool.and_eq_true, decide_eq_true_eq, gt_iff_lt, UInt32.lt_iff_toNat_lt,
    toNat_pollSum hp hcp hused]

end Poll

/-- `strlen` finds the next 0. -/
theorem strlenAt_eq_ok {mem : Bytes} {off len : Nat} : strlenAt (some mem) off = .ok len ↔
    (0 : UInt8) ∈ mem.drop off ∧ len = (cstr (mem.drop off)).length := by
  simp only [strlenAt, cstrAt]
  by_cases hmem : (0 : UInt8) ∈ mem.drop off
  · rw [if_pos hmem]
    exact ⟨fun h => ⟨hmem, (Except.ok.inj h).symm⟩, fun h => congrArg Except.ok h.2.symm⟩
  · rw [if_neg hmem]
    constructor
    · intro h
      cases h
    · intro h
      exact absurd h.1 hmem

/-- The size of the piece that a poll delivers, if the next terminator is `len` bytes behind the
    cursor. -/
def waitPiece (protSize : Nat) (used cp : UInt32) (len : Nat) : Nat :=
  min (min (protSize - 1) (used.toNat - cp.toNat)) (len + 1)

/-- The poll has the buffer to read from: the pointer is set, the cursor is inside what is
    used, and `len` bytes behind the cursor there is a terminator. -/
structure Pollable (s : Server) (len : Nat) : Prop where
  ptr : s.udbRuncmdWaitCtrl.pullout = .buf
  cursor : s.udbRuncmdWaitCtrl.cpOffset ≤ s.udbRuncmdWaitCtrl.usedSize
  used_le : s.udbRuncmdWaitCtrl.usedSize.toNat ≤ udbBufSize
  term : strlenAt (some s.runcmdBuf.bytes) s.udbRuncmdWaitCtrl.cpOffset.toNat = .ok len

/-- The cursor is then inside the buffer. -/
theorem Pollable.cursor_lt {s : Server} {len : Nat} (h : Pollable s len) :
    s.udbRuncmdWaitCtrl.cpOffset.toNat < udbBufSize := by
  obtain ⟨hmem, -⟩ := strlenAt_eq_ok.mp h.term
  have hlen := List.length_pos_of_mem hmem
  rw [List.length_drop, Buf.length_bytes] at hlen
  omega

/-- The bytes that the next poll delivers. -/
def pieceOf (layer : UInt8) (s : Server) (len : Nat) : Bytes :=
  (s.runcmdBuf.bytes.drop s.udbRuncmdWaitCtrl.cpOffset.toNat).take
    (waitPiece (layerProtSize layer) s.udbRuncmdWaitCtrl.usedSize s.udbRuncmdWaitCtrl.cpOffset len)

/-- The next poll announces the end. -/
def endsAt (layer : UInt8) (s : Server) : Bool :=
  waitPullFinish (layerProtSize layer) s.udbRuncmdWaitCtrl.cmdFinish
    s.udbRuncmdWaitCtrl.usedSize s.udbRuncmdWaitCtrl.cpOffset

/-- What a poll leaves: the worker is not touched, and unless the end was announced only the
    cursor has moved on, by `k`. -/
structure Polled (s s' : Server) (ended : Bool) (k : Nat) : Prop where
  auth : s'.udbAuthOk = s.udbAuthOk
  workers : s'.workers = s.workers
  going : ended = false → s'.runcmdBuf = s.runcmdBuf ∧
    s'.udbRuncmdWaitCtrl.pullout = s.udbRuncmdWaitCtrl.pullout ∧
    s'.udbRuncmdWaitCtrl.cmdFinish = s.udbRuncmdWaitCtrl.cmdFinish ∧
    s'.udbRuncmdWaitCtrl.usedSize = s.udbRuncmdWaitCtrl.usedSize ∧
    s'.udbRuncmdWaitCtrl.cpOffset.toNat = s.udbRuncmdWaitCtrl.cpOffset.toNat + k

section Request

variable {os : Os} {layer : UInt8} {s : Server} {len : Nat}

/-- A piece fits its packet. -/
theorem length_pieceOf_lt (layer : UInt8) (s : Server) (len : Nat) :
    (pieceOf layer s len).length < layerProtSize layer := by
  have hp := layerProtSize_bounds layer
  rw [pieceOf, List.length_take, waitPiece]
  omega

/-- `cp_size` after the piece has been cut at the terminator. -/
def cutSize (layer : UInt8) (s : Server) (len : Nat) : UInt32 :=
  let cpSize := waitPulloutSize (layerProtSize layer) s.udbRuncmdWaitCtrl.usedSize
    s.udbRuncmdWaitCtrl.cpOffset
  if cpSize.toNat > len + 1 then UInt32.ofNat (len + 1) else cpSize

/-- The size of a piece. -/
theorem toNat_cutSize (layer : UInt8) (h : Pollable s len) :
    (cutSize layer s len).toNat = waitPiece (layerProtSize layer)
      s.udbRuncmdWaitCtrl.usedSize s.udbRuncmdWaitCtrl.cpOffset len := by
  have hp := layerProtSize_bounds layer
  have hwait := toNat_waitPulloutSize hp.2 h.cursor h.used_le
  unfold cutSize waitPiece
  dsimp only
  split
  · rw [UInt32.toNat_ofNat_of_lt' (by show _ < 4294967296; omega)]
    omega
  · omega

/-- The piece has that size. -/
theorem length_pieceOf (layer : UInt8) (h : Pollable s len) :
    (pieceOf layer s len).length = (cutSize layer s len).toNat := by
  have hused := h.used_le
  have hcp := UInt32.le_iff_toNat_le.mp h.cursor
  rw [toNat_cutSize layer h, pieceOf, List.length_take, List.length_drop, Buf.length_bytes,
    waitPiece]
  omega

/-- A piece lies inside what is used. -/
theorem length_pieceOf_le (layer : UInt8) (h : Pollable s len) :
    s.udbRuncmdWaitCtrl.cpOffset.toNat + (pieceOf layer s len).length ≤
      s.udbRuncmdWaitCtrl.usedSize.toNat := by
  have hcp := UInt32.le_iff_toNat_le.mp h.cursor
  rw [length_pieceOf layer h, toNat_cutSize layer h, waitPiece]
  omega

/-- It is read at the cursor. -/
private theorem loadPtr_pieceOf (layer : UInt8) (h : Pollable s len) :
    loadPtr (some s.runcmdBuf.bytes) s.udbRuncmdWaitCtrl.cpOffset.toNat
      (cutSize layer s len).toNat = .ok (pieceOf layer s len) := by
  have hused := h.used_le
  have hcp := UInt32.le_iff_toNat_le.mp h.cursor
  have hcut := toNat_cutSize layer h
  rw [loadPtr_eq_ok (by rw [Buf.length_bytes, hcut, waitPiece]; omega), hcut]
  rfl

/-- The state behind a poll. -/
def afterPoll (os : Os) (layer : UInt8) (s : Server) (len : Nat) : Server :=
  let pctrl := { s.udbRuncmdWaitCtrl with
    pullFinish := endsAt layer s
    cpOffset := s.udbRuncmdWaitCtrl.cpOffset + cutSize layer s len
    tmLastUpdate := osTimeGetBootMs os }
  if endsAt layer s then
    { s with
      udbRuncmdWaitCtrl := { pctrl with usedSize := 0, cpOffset := 0, totalSize := 0 }
      runcmdBuf := Buf.zero udbBufSize }
  else { s with udbRuncmdWaitCtrl := pctrl }

/-- A poll at the end clears everything. -/
theorem afterPoll_of_ends (os : Os) (h : endsAt layer s = true) (len : Nat) :
    afterPoll os layer s len = { s with
      udbRuncmdWaitCtrl := { s.udbRuncmdWaitCtrl with
        pullFinish := true
        cpOffset := 0
        tmLastUpdate := osTimeGetBootMs os
        usedSize := 0
        totalSize := 0 }
      runcmdBuf := Buf.zero udbBufSize } := by
  unfold afterPoll
  rw [h]
  rfl

/-- Any other moves the cursor on. -/
theorem afterPoll_of_going (os : Os) (h : endsAt layer s = false) (len : Nat) :
    afterPoll os layer s len = { s with
      udbRuncmdWaitCtrl := { s.udbRuncmdWaitCtrl with
        pullFinish := false
        cpOffset := s.udbRuncmdWaitCtrl.cpOffset + cutSize layer s len
        tmLastUpdate := osTimeGetBootMs os } } := by
  unfold afterPoll
  rw [h]
  rfl

/-- The request sets the protocol size first; the poll does not read it from the state. -/
theorem afterPoll_setProtSize (os : Os) (layer : UInt8) (s : Server) (len : Nat) :
    afterPoll os layer (s.setProtSize layer) len =
      (afterPoll os layer s len).setProtSize layer := by
  have hend : endsAt layer (s.setProtSize layer) = endsAt layer s := rfl
  cases h : endsAt layer s with
  | true => rw [afterPoll_of_ends os (hend.trans h), afterPoll_of_ends os h]; rfl
  | false => rw [afterPoll_of_going os (hend.trans h), afterPoll_of_going os h]; rfl

section Fields

variable (os : Os) (layer : UInt8) (s : Server) (len : Nat)

@[simp] theorem workers_afterPoll : (afterPoll os layer s len).workers = s.workers := by
  unfold afterPoll
  cases endsAt layer s <;> rfl

@[simp] theorem udbAuthOk_afterPoll : (afterPoll os layer s len).udbAuthOk = s.udbAuthOk := by
  unfold afterPoll
  cases endsAt layer s <;> rfl

@[simp] theorem pullout_afterPoll : (afterPoll os layer s len).udbRuncmdWaitCtrl.pullout =
    s.udbRuncmdWaitCtrl.pullout := by
  unfold afterPoll
  cases endsAt layer s <;> rfl

@[simp] theorem cmdFinish_afterPoll : (afterPoll os layer s len).udbRuncmdWaitCtrl.cmdFinish =
    s.udbRuncmdWaitCtrl.cmdFinish := by
  unfold afterPoll
  cases endsAt layer s <;> rfl

@[simp] theorem singleInstance_afterPoll :
    (afterPoll os layer s len).udbRuncmdWaitCtrl.singleInstance =
      s.udbRuncmdWaitCtrl.singleInstance := by
  unfold afterPoll
  cases endsAt layer s <;> rfl

theorem usedSize_afterPoll : (afterPoll os layer s len).udbRuncmdWaitCtrl.usedSize =
    if endsAt layer s then 0 else s.udbRuncmdWaitCtrl.usedSize := by
  unfold afterPoll
  cases endsAt layer s <;> rfl

theorem cpOffset_afterPoll : (afterPoll os layer s len).udbRuncmdWaitCtrl.cpOffset =
    if endsAt layer s then 0 else s.udbRuncmdWaitCtrl.cpOffset + cutSize layer s len := by
  unfold afterPoll
  cases endsAt layer s <;> rfl

theorem tmLastUpdate_afterPoll :
    (afterPoll os layer s len).udbRuncmdWaitCtrl.tmLastUpdate = osTimeGetBootMs os := by
  unfold afterPoll
  cases endsAt layer s <;> rfl

end Fields

/-- What the poll has done. -/
theorem polled_afterPoll (os : Os) (layer : UInt8) (h : Pollable s len) :
    Polled s (afterPoll os layer s len) (endsAt layer s) (pieceOf layer s len).length := by
  refine ⟨by simp, by simp, fun hgoing => ?_⟩
  rw [afterPoll_of_going os hgoing]
  refine ⟨rfl, rfl, rfl, rfl, ?_⟩
  have hused := h.used_le
  have hcp := UInt32.le_iff_toNat_le.mp h.cursor
  have hcut := toNat_cutSize layer h
  have hsize : udbBufSize = 655360 := rfl
  -- The cursor moves by the piece, which ends before `used_size`.
  rw [length_pieceOf layer h]
  show (s.udbRuncmdWaitCtrl.cpOffset + cutSize layer s len).toNat = _
  rw [UInt32.toNat_add, hcut, waitPiece]
  omega

/-- The poll handler on a reply buffer of the packet's size: it looks for a terminator, reads the
    piece, and stores it behind the state byte. -/
private theorem udbDebugRuncmdWaitPullout_eq (os : Os) (layer : UInt8)
    (hprot : s.udbProtSize = layerProtSize layer)
    (hone : [(endsAt layer s).toUInt8].length ≤ layerProtSize layer) :
    udbDebugRuncmdWaitPullout os ⟨Buf.zero (layerProtSize layer), 0⟩ s =
      strlenAt (s.udbRuncmdWaitCtrl.pullout.deref s.runcmdBuf)
        s.udbRuncmdWaitCtrl.cpOffset.toNat >>= fun len =>
      loadPtr (s.udbRuncmdWaitCtrl.pullout.deref s.runcmdBuf) s.udbRuncmdWaitCtrl.cpOffset.toNat
        (cutSize layer s len).toNat >>= fun data =>
      (Buf.fill (layerProtSize layer) _ hone).memcpy 1 data >>= fun b =>
      .ok (afterPoll os layer s len, ⟨b, layerProtSize layer⟩) := by
  obtain ⟨protSize⟩ := s
  dsimp only at hprot
  subst hprot
  have hans : Resp.answer ⟨Buf.zero (layerProtSize layer), 0⟩ _ (layerProtSize layer) =
      .ok ⟨Buf.fill _ _ hone, layerProtSize layer⟩ := answer_zero hone 0
  unfold udbDebugRuncmdWaitPullout
  dsimp only
  rw [clear_zero, ok_bind]
  -- Both sides take the same steps behind the state byte.
  refine (congrArg (· >>= _) hans).trans ?_
  refine congrArg (strlenAt _ _ >>= ·) (funext fun len => ?_)
  refine congrArg (loadPtr _ _ _ >>= ·) (funext fun data => ?_)
  refine congrArg (Buf.memcpy _ _ _ >>= ·) (funext fun b => ?_)
  unfold afterPoll endsAt
  dsimp only
  split
  · rfl
  · rfl

/-- Storing a piece behind the state byte. -/
private theorem memcpy_piece {protSize : Nat} {flag : UInt8} (hone : [flag].length ≤ protSize)
    {data : Bytes} {b : Buf protSize} :
    (Buf.fill protSize [flag] hone).memcpy 1 data = .ok b ↔
      ∃ hle : ([flag] ++ data).length ≤ protSize, b = Buf.fill protSize ([flag] ++ data) hle := by
  constructor
  · -- It went through, so the flag and the data fit.
    intro h
    obtain ⟨hle, -⟩ := Buf.memcpy_eq_ok_iff.mp h
    have hle' : ([flag] ++ data).length ≤ protSize := by
      rw [List.length_append, List.length_singleton]
      exact hle
    have hfill : (Buf.fill protSize [flag] hone).memcpy 1 data = .ok (Buf.fill protSize _ hle') :=
      Buf.memcpy_fill rfl hone hle'
    exact ⟨hle', Except.ok.inj (h.symm.trans hfill)⟩
  · rintro ⟨hle, rfl⟩
    exact Buf.memcpy_fill rfl hone hle

/-- What the poll handler needs to return, and what it does then: a set pointer, a terminator
    behind the cursor, and a piece that lies in the buffer and fits the reply. -/
private theorem udbDebugRuncmdWaitPullout_eq_ok {s' : Server} {r : Resp (layerProtSize layer)}
    (hprot : s.udbProtSize = layerProtSize layer) :
    udbDebugRuncmdWaitPullout os ⟨Buf.zero (layerProtSize layer), 0⟩ s = .ok (s', r) ↔
      ∃ len data, s.udbRuncmdWaitCtrl.pullout = .buf ∧
        strlenAt (some s.runcmdBuf.bytes) s.udbRuncmdWaitCtrl.cpOffset.toNat = .ok len ∧
        loadPtr (some s.runcmdBuf.bytes) s.udbRuncmdWaitCtrl.cpOffset.toNat
          (cutSize layer s len).toNat = .ok data ∧
        s' = afterPoll os layer s len ∧
        ∃ hle : ([(endsAt layer s).toUInt8] ++ data).length ≤ layerProtSize layer,
          r = ⟨Buf.fill (layerProtSize layer) ([(endsAt layer s).toUInt8] ++ data) hle,
            layerProtSize layer⟩ := by
  have hp := layerProtSize_bounds layer
  have hone : [(endsAt layer s).toUInt8].length ≤ layerProtSize layer := by
    rw [List.length_singleton]
    omega
  rw [udbDebugRuncmdWaitPullout_eq os layer hprot hone]
  -- A pointer that is not set cannot be read through.
  cases s.udbRuncmdWaitCtrl.pullout with
  | null => simp [StaticPtr.deref, strlenAt]
  | buf =>
    simp only [StaticPtr.deref, bind_eq_ok, memcpy_piece]
    constructor
    · rintro ⟨len, hlen, data, hdata, b, ⟨hle, rfl⟩, h⟩
      obtain ⟨rfl, rfl⟩ := pure_pair_eq_ok.mp h
      exact ⟨len, data, trivial, hlen, hdata, rfl, hle, rfl⟩
    · rintro ⟨len, data, -, hlen, hdata, rfl, hle, rfl⟩
      exact ⟨len, hlen, data, hdata, _, ⟨hle, rfl⟩, rfl⟩

/-- What a poll needs to be answered, and the answer. -/
theorem request_waitPullout_eq_ok {cmd reply : Bytes} {s' : Server} (hauth : s.udbAuthOk = true)
    (hchan : cmd[3]? = some UdbChanId.runCmdWaitPullout.toByte) :
    request os layer cmd s = .ok (s', reply) ↔
      ∃ len data, s.udbRuncmdWaitCtrl.pullout = .buf ∧
        strlenAt (some s.runcmdBuf.bytes) s.udbRuncmdWaitCtrl.cpOffset.toNat = .ok len ∧
        loadPtr (some s.runcmdBuf.bytes) s.udbRuncmdWaitCtrl.cpOffset.toNat
          (cutSize layer s len).toNat = .ok data ∧
        s' = afterPoll os layer (s.setProtSize layer) len ∧ data.length < layerProtSize layer ∧
        reply = padTo (layerProtSize layer) ([(endsAt layer s).toUInt8] ++ data) := by
  rw [request_of_auth hauth (by decide) hchan, bind_eq_ok]
  simp only [dispatch, UdbChanId.ofByte_toByte]
  constructor
  · rintro ⟨⟨s₁, r⟩, hpoll, h⟩
    obtain ⟨rfl, rfl⟩ := pure_pair_eq_ok.mp h
    obtain ⟨len, data, hptr, hlen, hdata, rfl, hle, rfl⟩ :=
      (udbDebugRuncmdWaitPullout_eq_ok rfl).mp hpoll
    refine ⟨len, data, hptr, hlen, hdata, rfl, ?_, sent_fill hle⟩
    rw [List.length_append, List.length_singleton] at hle
    omega
  · rintro ⟨len, data, hptr, hlen, hdata, rfl, hlt, rfl⟩
    -- The piece and the byte in front of it fit the reply.
    have hle : ([(endsAt layer s).toUInt8] ++ data).length ≤ layerProtSize layer := by
      rw [List.length_append, List.length_singleton]
      omega
    refine ⟨(_, _), (udbDebugRuncmdWaitPullout_eq_ok rfl).mpr
      ⟨len, data, hptr, hlen, hdata, rfl, hle, rfl⟩, ?_⟩
    exact congrArg (fun b => Except.ok (_, b)) (sent_fill hle)

/-- A poll that finds a terminator. -/
theorem request_afterPoll (os : Os) (layer : UInt8) {cmd : Bytes} (hauth : s.udbAuthOk = true)
    (hchan : cmd[3]? = some UdbChanId.runCmdWaitPullout.toByte) (h : Pollable s len) :
    request os layer cmd s = .ok (afterPoll os layer (s.setProtSize layer) len,
      padTo (layerProtSize layer) ([(endsAt layer s).toUInt8] ++ pieceOf layer s len)) :=
  (request_waitPullout_eq_ok hauth hchan).mpr ⟨len, pieceOf layer s len, h.ptr, h.term,
    loadPtr_pieceOf layer h, rfl, length_pieceOf_lt layer s len, rfl⟩

/-- The request is such a poll, answered with the flag and the piece. -/
theorem request_pollable (os : Os) (layer : UInt8) {cmd : Bytes} (hauth : s.udbAuthOk = true)
    (hchan : cmd[3]? = some UdbChanId.runCmdWaitPullout.toByte) (h : Pollable s len) :
    ∃ s', request os layer cmd s = .ok (s',
        padTo (layerProtSize layer) ([(endsAt layer s).toUInt8] ++ pieceOf layer s len)) ∧
      Polled s s' (endsAt layer s) (pieceOf layer s len).length := by
  have hpolled := polled_afterPoll os layer (s := s.setProtSize layer)
    ⟨h.ptr, h.cursor, h.used_le, h.term⟩
  exact ⟨_, request_afterPoll os layer hauth hchan h, hpolled.auth, hpolled.workers, hpolled.going⟩

/-- What a poll that returns has delivered. -/
theorem request_waitPullout {cmd reply : Bytes} {s' : Server} (hauth : s.udbAuthOk = true)
    (hchan : cmd[3]? = some UdbChanId.runCmdWaitPullout.toByte)
    (hcursor : s.udbRuncmdWaitCtrl.cpOffset ≤ s.udbRuncmdWaitCtrl.usedSize)
    (hused : s.udbRuncmdWaitCtrl.usedSize.toNat ≤ udbBufSize)
    (hreq : request os layer cmd s = .ok (s', reply)) :
    ∃ len, Pollable s len ∧ s' = afterPoll os layer (s.setProtSize layer) len ∧
      reply = padTo (layerProtSize layer) ([(endsAt layer s).toUInt8] ++ pieceOf layer s len) ∧
      Polled s s' (endsAt layer s) (pieceOf layer s len).length := by
  obtain ⟨len, data, hptr, hlen, hdata, rfl, -, rfl⟩ :=
    (request_waitPullout_eq_ok hauth hchan).mp hreq
  have hpollable : Pollable s len := ⟨hptr, hcursor, hused, hlen⟩
  have hpolled := polled_afterPoll os layer (s := s.setProtSize layer)
    ⟨hptr, hcursor, hused, hlen⟩
  obtain rfl := Except.ok.inj ((loadPtr_pieceOf layer hpollable).symm.trans hdata)
  exact ⟨len, hpollable, rfl, rfl, hpolled.auth, hpolled.workers, hpolled.going⟩

/-- What the client prints of a poll: the piece without its terminator. -/
theorem cstr_piece (layer : UInt8) (h : Pollable s len) (flag : UInt8) :
    cstr ((padTo (layerProtSize layer) ([flag] ++ pieceOf layer s len) ++ [0]).drop 1) =
      (pieceOf layer s len).filter (· ≠ 0) := by
  -- Behind the flag: the piece, then the zeros of the packet and the client's own.
  have hbehind : (padTo (layerProtSize layer) ([flag] ++ pieceOf layer s len) ++ [0]).drop 1 =
      pieceOf layer s len ++ List.replicate
        (layerProtSize layer - ([flag] ++ pieceOf layer s len).length + 1) 0 := by
    rw [padTo, List.append_assoc, List.append_assoc, List.replicate_succ']
    rfl
  obtain ⟨-, hlen⟩ := strlenAt_eq_ok.mp h.term
  rw [hbehind]
  apply cstr_take_zeros
  rw [← hlen, waitPiece]
  omega

end Request

/-! ## The client -/

section Client

variable {protSize : Nat} {st : WaitState protSize}

/-- A full reply to a poll: its text is printed, and its first byte decides. -/
theorem WaitCmd.recv_poll (p : WaitCmd protSize) (hphase : st.phase = .poll)
    (hbuf : st.readBuf.bytes.drop protSize = [0]) {reply : Bytes} (hlen : reply.length = protSize) :
    ∃ b, p.client.recv st (some reply) =
        ⟨if (reply ++ [0]).head? = some 1 then .finished else .poll, b,
          st.out ++ cstr ((reply ++ [0]).drop 1)⟩ ∧
      b.bytes.drop protSize = [0] := by
  have hread := bytes_udbCtrlRead (drop_cleared hbuf (.inl rfl) (by simp)) hlen
  refine ⟨_, ?_, by rw [hread]; exact List.drop_left' hlen⟩
  simp only [WaitCmd.client, WaitCmd.recv, hphase, hread]

/-- The client polls. -/
theorem WaitCmd.next_poll (p : WaitCmd protSize) (hprot : 4 ≤ protSize)
    (hphase : st.phase = .poll) :
    p.client.next st = .call (padTo protSize (channelHeader .runCmdWaitPullout)) := by
  simp only [WaitCmd.client, WaitCmd.next, hphase, waitPulloutPacket,
    setUdbChannelHeader_zero hprot]
  rfl

end Client

end Udb.Spec
