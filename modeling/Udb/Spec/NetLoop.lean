import Udb.Native.NetLoop
import Udb.Spec.Net

/-!
# What the receive loop starts from

Every iteration ends with both buffers cleared and `result_len` 0, so the next one
starts from nothing. The first one starts from what the stack held: a datagram of
at most one byte is then judged by what lies in `buf`, and the answer to a key is
sent with what lies behind it in `result`.

## Key results

- `dispatch_exact`: after the first iteration, what is dispatched and with what
- `replies_determined_iff`: which first datagrams show what the stack held
-/

namespace Udb.Spec

open CMem Udb.Native Interleave

/-! ## Cleared buffers -/

/-- Both buffers are cleared, and so is the length. -/
structure NetCleared (t : NetState) : Prop where
  buf : t.buf = Buf.zero maxMsgLength
  result : t.result = Buf.zero maxMsgLength
  resultLen : t.resultLen = 0

section Turn

variable {os : Os} {r : Recv} {sendOk : Bool} {t t' : NetState} {e : NetEvent}
  {es : List NetEvent} {o : Option Bytes} {outs : List (Option Bytes)}

/-- Each of the four exits restores the state that the next iteration relies on. -/
private theorem netDebugdTurn_cleared (h0 : t.resultLen = 0)
    (h : netDebugdTurn os r sendOk t = .ok (t', o)) : NetCleared t' := by
  unfold netDebugdTurn at h
  cases r with
  | error =>
    obtain ⟨rfl, -⟩ := pure_pair_eq_ok.mp h
    exact ⟨rfl, rfl, h0⟩
  | datagram data =>
    dsimp only at h
    split at h
    · -- Too short for a packet.
      obtain ⟨rfl, -⟩ := pure_pair_eq_ok.mp h
      exact ⟨rfl, rfl, h0⟩
    · -- The buffers are cleared whether the reply could be sent or not.
      obtain ⟨t₁, -, h⟩ := bind_eq_ok.mp h
      cases sendOk with
      | true =>
        obtain ⟨rfl, -⟩ := pure_pair_eq_ok.mp h
        exact ⟨rfl, rfl, rfl⟩
      | false =>
        obtain ⟨rfl, -⟩ := pure_pair_eq_ok.mp h
        exact ⟨rfl, rfl, rfl⟩

/-- Other events leave the buffers alone. -/
private theorem netExec_buffers (hno : e.isTurn = false) (h : netExec e t = .ok (t', o)) :
    t'.buf = t.buf ∧ t'.result = t.result ∧ t'.resultLen = t.resultLen := by
  cases e with
  | turn os r sendOk => cases hno
  | thread i input =>
    -- Neither a thread nor another program has the buffers of the loop.
    obtain ⟨server, -, h⟩ := bind_eq_ok.mp h
    obtain ⟨rfl, -⟩ := pure_pair_eq_ok.mp h
    exact ⟨rfl, rfl, rfl⟩
  | files files =>
    obtain ⟨rfl, -⟩ := pure_pair_eq_ok.mp h
    exact ⟨rfl, rfl, rfl⟩

/-- After a run with at least one iteration everything is cleared. -/
private theorem netCleared_of_run (h0 : t.resultLen = 0)
    (hturn : NetCleared t ∨ ∃ e ∈ es, e.isTurn = true)
    (hrun : run netExec es t = .ok (t', outs)) : NetCleared t' := by
  -- Induction on the run. An iteration clears everything, and the other events touch no buffer.
  induction es generalizing t outs with
  | nil =>
    simp only [run, Except.ok.injEq, Prod.mk.injEq] at hrun
    obtain ⟨rfl, -⟩ := hrun
    exact hturn.resolve_right (by simp)
  | cons e es ih =>
    obtain ⟨t₁, o, os, he, hrest, -⟩ := run_cons_eq_ok.mp hrun
    cases hte : e.isTurn with
    | true =>
      cases e with
      | turn os' r sendOk =>
        have hclear := netDebugdTurn_cleared h0 he
        exact ih hclear.resultLen (.inl hclear) hrest
      | thread | files => cases hte
    | false =>
      obtain ⟨hbuf, hresult, hlen⟩ := netExec_buffers hte he
      refine ih (hlen.trans h0) ?_ hrest
      rcases hturn with hclear | ⟨e', he', ht'⟩
      · exact .inl ⟨hbuf.trans hclear.buf, hresult.trans hclear.result, hlen.trans h0⟩
      · right
        rcases List.mem_cons.mp he' with rfl | hmem
        · rw [ht'] at hte
          cases hte
        · exact ⟨e', hmem, ht'⟩

/-- A datagram is stored in front of what the buffer held. -/
private theorem bytes_recvInto (buf : Buf maxMsgLength) (data : Bytes) :
    (recvInto buf data).bytes =
      data.take maxMsgLength ++ buf.bytes.drop (data.take maxMsgLength).length := by
  have hoff : 0 + (data.take maxMsgLength).length ≤ maxMsgLength := by
    rw [Nat.zero_add, List.length_take]
    exact Nat.min_le_left _ _
  have h := Buf.bytes_write buf 0 (data.take maxMsgLength) hoff
  rw [List.take_zero, List.nil_append] at h
  exact h.trans (by rw [Nat.zero_add])

/-- In a cleared buffer, zeros are behind it. -/
private theorem bytes_recvInto_zero (data : Bytes) :
    (recvInto (Buf.zero maxMsgLength) data).bytes =
      padTo maxMsgLength (data.take maxMsgLength) := by
  rw [bytes_recvInto, padTo, Buf.bytes_zero, List.drop_replicate]

/-- Three bytes in front decide the prefix test. -/
private theorem take_recvInto (buf : Buf maxMsgLength) {data : Bytes} {k : Nat}
    (hk : k ≤ data.length)
    (hmax : k ≤ maxMsgLength) : (recvInto buf data).bytes.take k = data.take k := by
  have hlen : k ≤ (data.take maxMsgLength).length := by
    rw [List.length_take]
    omega
  rw [bytes_recvInto, List.take_append_of_le_length hlen, List.take_take, Nat.min_eq_left hmax]

/-- Prefix and channel of a packet are those that were received. -/
private theorem recvInto_header (buf : Buf maxMsgLength) {data : Bytes} (hlen : 64 ≤ data.length) :
    (recvInto buf data).bytes.take 3 = data.take 3 ∧ (recvInto buf data).bytes[3]? = data[3]? := by
  refine ⟨take_recvInto buf (by omega) (by decide), ?_⟩
  rw [← List.getElem?_take_of_lt (by decide : 3 < 4), take_recvInto buf (by omega) (by decide),
    List.getElem?_take_of_lt (by decide : 3 < 4)]

/-- Nothing that is shorter passes the prefix test in a cleared buffer. -/
private theorem take_recvInto_zero_ne {data : Bytes} (hshort : data.length < 3) :
    (recvInto (Buf.zero maxMsgLength) data).bytes.take 3 ≠ ascii "udb" := by
  rw [bytes_recvInto_zero]
  match data, hshort with
  | [], _ => exact by decide
  -- What is missing is zeros, and `udb` has none.
  | [x], _ =>
    have h3 : (padTo maxMsgLength [x]).take 3 = [x, 0, 0] := rfl
    intro h
    cases (h3.symm.trans h)
  | [x, y], _ =>
    have h3 : (padTo maxMsgLength [x, y]).take 3 = [x, y, 0] := rfl
    intro h
    cases (h3.symm.trans h)

/-- The turn that finds no prefix answers `unknow cmd`. -/
private theorem turn_unknown {s : Server} {data : Bytes} {buf result : Buf maxMsgLength}
    (hlong : ¬ (1 < (data.take maxMsgLength).length ∧
      (data.take maxMsgLength).length < 64))
    (hno : (recvInto buf data).bytes.take 3 ≠ ascii "udb") :
    netDebugdTurn os (.datagram data) sendOk ⟨buf, result, 0, s⟩ =
      .ok (⟨Buf.zero _, Buf.zero _, 0, s.printf (ascii "net debugd unknow cmd\n")⟩,
        some (ascii "unknow cmd")) := by
  have hle : 0 + (ascii "unknow cmd").length ≤ maxMsgLength := by decide
  have hcpy : result.memcpy 0 (ascii "unknow cmd") = .ok (result.write 0 _ hle) := dif_pos hle
  -- The text is sent as it is.
  have hsent : Resp.sent ⟨result.write 0 (ascii "unknow cmd") hle, (ascii "unknow cmd").length⟩ =
      ascii "unknow cmd" := by
    rw [Resp.sent, Buf.bytes_write, List.take_zero, List.nil_append, List.take_left]
  simp only [netDebugdTurn, netDebugdCall, if_neg hlong, if_neg hno, netDebugdAnswer]
  rw [hcpy, ok_bind, pure_eq_ok, ok_bind]
  dsimp only
  rw [hsent]
  cases sendOk <;> rfl

end Turn

/-! ## Dispatch -/

section Dispatch

variable {buf result : Buf maxMsgLength} {banner : List Bytes} {files : Bytes → Option Bytes}
  {es : List NetEvent} {t : NetState} {outs : List (Option Bytes)} {r : Recv} {call : BridgeCall}

/-- A run of the events is a run of the loop. -/
private theorem netRun_of_run {t₀ t₁ : NetState} {hist : List (Buf maxMsgLength × Recv)}
    (hstart : NetRun t₀ hist t₁) (hwf : ∀ e ∈ es, e.WellFormed)
    (hrun : run netExec es t₁ = .ok (t, outs)) : ∃ hist', NetRun t₀ hist' t := by
  -- Induction on the events: each of them is a step of the loop, or nothing happens.
  induction es generalizing t₁ hist outs with
  | nil =>
    simp only [run, Except.ok.injEq, Prod.mk.injEq] at hrun
    obtain ⟨rfl, -⟩ := hrun
    exact ⟨hist, hstart⟩
  | cons e es ih =>
    obtain ⟨t₂, o, os, he, hrest, -⟩ := run_cons_eq_ok.mp hrun
    have htail : ∀ e ∈ es, e.WellFormed := fun e he => hwf e (List.mem_cons_of_mem _ he)
    cases e with
    | turn os r sendOk =>
      have hiter : netDebugdIter os r t₁ = .ok (t₂, o) := by
        rw [← netDebugdTurn_eq os r sendOk]
        exact he
      exact ih (.iter hstart hiter) htail hrest
    | thread i input =>
      obtain ⟨server, hthread, h⟩ := bind_eq_ok.mp he
      obtain ⟨rfl, -⟩ := pure_pair_eq_ok.mp h
      obtain rfl | ⟨event, hstep⟩ := threadStep_cases (hwf _ List.mem_cons_self) hthread
      · exact ih hstart htail hrest
      · exact ih (.worker hstart hstep) htail hrest
    | files files =>
      obtain ⟨rfl, -⟩ := pure_pair_eq_ok.mp he
      exact ih (.files hstart files) htail hrest

/-- In cleared buffers `udb_debug_bridge` is called exactly for a packet, with its bytes. -/
private theorem netDebugdCall_eq_some (hclear : NetCleared t) :
    netDebugdCall r t = some call ↔
      ∃ data, r = .datagram data ∧ 64 ≤ (data.take maxMsgLength).length ∧
        data.take 3 = ascii "udb" ∧
        call.cmd.bytes = padTo maxMsgLength (data.take maxMsgLength) ∧
        call.result = Buf.zero maxMsgLength ∧ call.resultLen = 0 := by
  obtain ⟨hbuf, hresult, hlen⟩ := hclear
  cases r with
  | error => simp [netDebugdCall]
  | datagram data =>
    have hbytes := bytes_recvInto_zero data
    have hmin : (data.take maxMsgLength).length = min maxMsgLength data.length := List.length_take
    have hmax : maxMsgLength = 1470 := rfl
    simp only [netDebugdCall, hbuf, hresult, hlen]
    constructor
    · intro h
      split at h
      · cases h
      · rename_i hlong
        split at h
        · rename_i hudb
          obtain rfl := Option.some.inj h
          -- The hole of the length check: 0 or 1 byte in a cleared buffer is not `udb`.
          have hthree : 3 ≤ data.length := by
            by_contra hshort
            exact take_recvInto_zero_ne (by omega) hudb
          refine ⟨data, rfl, by omega, ?_, hbytes, rfl, rfl⟩
          rw [← hudb]
          exact (take_recvInto _ hthree (by decide)).symm
        · cases h
    · rintro ⟨data', hdata, hlong, hudb, hcmd, hres, hrlen⟩
      obtain rfl := Recv.datagram.inj hdata
      have hinit : (recvInto (Buf.zero maxMsgLength) data).bytes.take 3 = ascii "udb" := by
        rw [← hudb]
        exact take_recvInto _ (by omega) (by decide)
      rw [if_neg (by omega), if_pos hinit]
      obtain ⟨cmd, result', resultLen'⟩ := call
      dsimp only at hcmd hres hrlen
      rw [Option.some.injEq, BridgeCall.mk.injEq, hres, hrlen]
      exact ⟨Buf.ext (hbytes.trans hcmd.symm), rfl, rfl⟩

/-- The iteration makes this call, and it is one request of the server. -/
private theorem netDebugdTurn_call (hclear : NetCleared t) (h : netDebugdCall r t = some call)
    (os : Os)
    (sendOk : Bool) :
    netDebugdTurn os r sendOk t = (request os udbLayerNet call.cmd.bytes t.server).map fun p =>
      (⟨Buf.zero _, Buf.zero _, 0, p.1⟩, some p.2) := by
  obtain ⟨data, rfl, hlong, -, -, hres, hlen⟩ := (netDebugdCall_eq_some hclear).mp h
  -- With a cleared `result` the call is a request.
  have hreq : request os udbLayerNet call.cmd.bytes t.server =
      udbDebugBridge os udbLayerNet call.cmd.bytes ⟨call.result, call.resultLen⟩ t.server >>=
        fun p => pure (p.1, p.2.sent) := by
    rw [hres, hlen]
    rfl
  simp only [netDebugdTurn]
  rw [if_neg (by omega), h, hreq]
  simp only [netDebugdAnswer]
  cases udbDebugBridge os udbLayerNet call.cmd.bytes ⟨call.result, call.resultLen⟩ t.server with
  | error fault => rfl
  | ok p => cases sendOk <;> rfl

/-- Without a call the server only logs, if at all. -/
private theorem netDebugdTurn_idle (hclear : NetCleared t) (h : netDebugdCall r t = none) (os : Os)
    (sendOk : Bool) : ∃ server reply,
    netDebugdTurn os r sendOk t = .ok (⟨Buf.zero _, Buf.zero _, 0, server⟩, reply) ∧
      (server = t.server ∨ server = t.server.printf (ascii "net debugd unknow cmd\n")) := by
  obtain ⟨buf, result, resultLen, server⟩ := t
  obtain ⟨rfl, rfl, rfl⟩ := hclear
  cases r with
  | error => exact ⟨server, none, rfl, .inl rfl⟩
  | datagram data =>
    simp only [netDebugdCall] at h
    by_cases hshort : 1 < (data.take maxMsgLength).length ∧ (data.take maxMsgLength).length < 64
    · -- Nothing, or too little for a packet.
      refine ⟨server, none, ?_, .inl rfl⟩
      simp only [netDebugdTurn, if_pos hshort, pure_eq_ok]
    · rw [if_neg hshort] at h
      -- It is long enough, so it does not start with `udb`.
      have hno : (recvInto (Buf.zero maxMsgLength) data).bytes.take 3 ≠ ascii "udb" := by
        intro hudb
        rw [if_pos hudb] at h
        cases h
      exact ⟨_, _, turn_unknown hshort hno, .inr rfl⟩

end Dispatch

/-- The dispatch of the receive loop is exact. After any run with at least one iteration, whatever
    was received and whether it could be answered, the next `recvfrom` leads to a call of
    `udb_debug_bridge` exactly when it stores at least 64 bytes that start with `udb`. The call is
    made with those bytes, with zeros behind them up to 1470, and with nothing in `result` and
    `result_len`. The iteration is then one request with this buffer, and without a call the
    server at most logs. Its state is a reachable one. -/
theorem dispatch_exact (buf result : Buf maxMsgLength) (banner : List Bytes)
    (files : Bytes → Option Bytes) (es : List NetEvent) (t : NetState)
    (outs : List (Option Bytes)) (hturn : ∃ e ∈ es, e.isTurn = true)
    (hrun : run netExec es (NetState.init buf result banner files) = .ok (t, outs)) (r : Recv) :
    (∀ call, netDebugdCall r t = some call ↔
      ∃ data, r = .datagram data ∧ 64 ≤ (data.take maxMsgLength).length ∧
        data.take 3 = ascii "udb" ∧
        call.cmd.bytes = padTo maxMsgLength (data.take maxMsgLength) ∧
        call.result = Buf.zero maxMsgLength ∧ call.resultLen = 0) ∧
    (∀ call os sendOk, netDebugdCall r t = some call →
      netDebugdTurn os r sendOk t = (request os udbLayerNet call.cmd.bytes t.server).map fun p =>
        (⟨Buf.zero _, Buf.zero _, 0, p.1⟩, some p.2)) ∧
    (∀ os sendOk, netDebugdCall r t = none → ∃ server reply,
      netDebugdTurn os r sendOk t = .ok (⟨Buf.zero _, Buf.zero _, 0, server⟩, reply) ∧
        (server = t.server ∨ server = t.server.printf (ascii "net debugd unknow cmd\n"))) ∧
    ((∀ e ∈ es, e.WellFormed) → Reachable t.server) := by
  have hclear := netCleared_of_run rfl (.inr hturn) hrun
  refine ⟨fun call => netDebugdCall_eq_some hclear,
    fun call os sendOk h => netDebugdTurn_call hclear h os sendOk,
    fun os sendOk h => netDebugdTurn_idle hclear h os sendOk, fun hwf => ?_⟩
  obtain ⟨hist, hnet⟩ := netRun_of_run .start hwf hrun
  exact reachable_of_netRun hnet

/-- After a failed `recvfrom` a datagram of one byte goes nowhere, and a key is a request. -/
theorem dispatch_exact_key :
    ∃ t, run netExec [.turn (willing [] []) .error true]
        (NetState.init (Buf.zero _) (Buf.zero _) [] fun _ => none) = .ok (t, [none]) ∧
      (∀ call, netDebugdCall (.datagram (ascii "u")) t ≠ some call) ∧
      ∃ call, netDebugdCall (.datagram (padTo 64 (channelHeader .auth))) t = some call ∧
        netDebugdTurn (willing [] []) (.datagram (padTo 64 (channelHeader .auth))) true t =
          (request (willing [] []) udbLayerNet call.cmd.bytes t.server).map fun p =>
            (⟨Buf.zero _, Buf.zero _, 0, p.1⟩, some p.2) := by
  have hexact (r : Recv) := dispatch_exact (Buf.zero _) (Buf.zero _) [] (fun _ => none)
    [.turn (willing [] []) .error true] _ _ ⟨_, List.mem_singleton_self _, rfl⟩ rfl r
  refine ⟨_, rfl, fun call h => ?_, ?_⟩
  · -- One byte is no packet.
    obtain ⟨data, hdata, hlong, -⟩ := ((hexact (.datagram (ascii "u"))).1 call).mp h
    obtain rfl := Recv.datagram.inj hdata
    exact absurd hlong (by decide)
  · obtain ⟨hcall, hturn, -⟩ := hexact (.datagram (padTo 64 (channelHeader .auth)))
    -- The key is one.
    let key : Bytes := padTo 64 (channelHeader .auth)
    have hdispatch := (hcall ⟨Buf.fill _ (key.take maxMsgLength) (by decide),
      Buf.zero _, 0⟩).mpr ⟨key, rfl, by decide, by decide, rfl, rfl, rfl⟩
    exact ⟨_, hdispatch, hturn _ _ _ hdispatch⟩

/-! ## What the stack held -/

/-- The first `recvfrom` of a run. -/
def firstRecv : List NetEvent → Option Recv
  | [] => none
  | .turn _ r _ :: _ => some r
  | .thread _ _ :: es => firstRecv es
  | .files _ :: es => firstRecv es

/-- The answer to such a datagram shows what the buffers held before it: the prefix test reads
    `buf` behind the one byte that was stored, or the answer to a key goes out as a full packet of
    which six bytes were set. -/
def ShowsStack : Recv → Prop
  | .error => False
  | .datagram data =>
    data = [] ∨ data = ascii "u" ∨ 64 ≤ data.length ∧ data.take 4 = channelHeader .auth

section Stack

variable {os : Os} {sendOk : Bool} {s : Server} {data : Bytes}
  {buf buf₁ buf₂ result result₁ result₂ : Buf maxMsgLength}

/-- Without the flag a request on any channel but `AUTH` is answered with nothing. -/
private theorem turn_closed (hlong : ¬ (1 < (data.take maxMsgLength).length ∧
      (data.take maxMsgLength).length < 64))
    (hudb : (recvInto buf data).bytes.take 3 = ascii "udb") {c : UInt8}
    (hchan : (recvInto buf data).bytes[3]? = some c) (hc : c ≠ UdbChanId.auth.toByte)
    (hauth : s.udbAuthOk = false) :
    netDebugdTurn os (.datagram data) sendOk ⟨buf, result, 0, s⟩ =
      .ok (⟨Buf.zero _, Buf.zero _, 0, s.setProtSize udbLayerNet⟩, some []) := by
  have hbridge : udbDebugBridge os udbLayerNet (recvInto buf data).bytes ⟨result, 0⟩ s =
      .ok (s.setProtSize udbLayerNet, ⟨result, 0⟩) := by
    simp only [udbDebugBridge, udbCmdChannelIdOffset, hchan, if_neg hc,
      Server.udbAuthOk_setProtSize, hauth, Bool.false_eq_true, if_false, pure_eq_ok]
  simp only [netDebugdTurn, netDebugdCall, if_neg hlong, if_pos hudb, netDebugdAnswer, hbridge,
    ok_bind, pure_eq_ok, Resp.sent, List.take_zero]
  cases sendOk <;> rfl

/-- A key is answered with six bytes, and with what `result` held behind them. -/
private theorem turn_auth (hlong : ¬ (1 < (data.take maxMsgLength).length ∧
      (data.take maxMsgLength).length < 64))
    (hudb : (recvInto buf data).bytes.take 3 = ascii "udb")
    (hchan : (recvInto buf data).bytes[3]? = some UdbChanId.auth.toByte) :
    ∃ t' word, word.length = 6 ∧
      netDebugdTurn os (.datagram data) sendOk ⟨buf, result, 0, s⟩ =
        .ok (t', some (word ++ result.bytes.drop 6)) := by
  have hbridge : ∃ s' word, ∃ hle : 0 + word.length ≤ maxMsgLength, word.length = 6 ∧
      udbDebugBridge os udbLayerNet (recvInto buf data).bytes ⟨result, 0⟩ s =
        .ok (s', ⟨result.write 0 word hle, maxMsgLength⟩) := by
    simp only [udbDebugBridge, udbCmdChannelIdOffset, hchan, if_true, udbDebugAuth]
    split
    · rw [answer_ok _ (by decide)]
      exact ⟨_, ascii "AUTHOK", by decide, rfl, rfl⟩
    · rw [answer_ok _ (by decide)]
      exact ⟨_, ascii "AUTHNO", by decide, rfl, rfl⟩
  obtain ⟨s', word, hle, hword, hbridge⟩ := hbridge
  -- The whole buffer is sent, and the word covers its first six bytes only.
  have hsent : Resp.sent ⟨result.write 0 word hle, maxMsgLength⟩ = word ++ result.bytes.drop 6 := by
    have hfull := (result.write 0 word hle).length_bytes
    rw [Resp.sent, List.take_of_length_le hfull.le, Buf.bytes_write, List.take_zero,
      List.nil_append, Nat.zero_add, hword]
  refine ⟨⟨Buf.zero _, Buf.zero _, 0, s'⟩, word, hword, ?_⟩
  simp only [netDebugdTurn, netDebugdCall, if_neg hlong, if_pos hudb, netDebugdAnswer, hbridge,
    ok_bind, pure_eq_ok, hsent]
  cases sendOk <;> rfl

/-- Any other first datagram is handled in the same way whatever the buffers held. -/
private theorem turn_of_not_showsStack {r : Recv} (h : ¬ ShowsStack r) (hauth : s.udbAuthOk = false)
    :
    netDebugdTurn os r sendOk ⟨buf₁, result₁, 0, s⟩ =
      netDebugdTurn os r sendOk ⟨buf₂, result₂, 0, s⟩ := by
  cases r with
  | error => rfl
  | datagram data =>
    simp only [ShowsStack, not_or, not_and] at h
    obtain ⟨hnil, hu, hkey⟩ := h
    have hmin : (data.take maxMsgLength).length = min maxMsgLength data.length := List.length_take
    have hmax : maxMsgLength = 1470 := rfl
    by_cases hshort : 1 < (data.take maxMsgLength).length ∧ (data.take maxMsgLength).length < 64
    · -- Too short: nothing is read from the buffers.
      simp only [netDebugdTurn, if_pos hshort, pure_eq_ok]
    · by_cases hlen : 64 ≤ data.length
      · -- The prefix and the channel are in what was received.
        obtain ⟨hthree₁, hchan₁⟩ := recvInto_header buf₁ hlen
        obtain ⟨hthree₂, hchan₂⟩ := recvInto_header buf₂ hlen
        by_cases hudb : data.take 3 = ascii "udb"
        · obtain ⟨c, hc⟩ : ∃ c, data[3]? = some c := ⟨_, List.getElem?_eq_getElem (by omega)⟩
          have hne : c ≠ UdbChanId.auth.toByte := by
            rintro rfl
            apply hkey hlen
            rw [List.take_add_one, hudb, hc]
            rfl
          rw [turn_closed hshort (hthree₁.trans hudb) (hchan₁.trans hc) hne hauth,
            turn_closed hshort (hthree₂.trans hudb) (hchan₂.trans hc) hne hauth]
        · rw [turn_unknown hshort (by rwa [hthree₁]), turn_unknown hshort (by rwa [hthree₂])]
      · -- One byte, which is not the first of the prefix.
        obtain ⟨x, rfl⟩ : ∃ x, data = [x] := by
          apply List.length_eq_one_iff.mp
          have hpos : data.length ≠ 0 := by simpa using hnil
          omega
        have hfirst : ∀ b : Buf maxMsgLength, (recvInto b [x]).bytes.take 3 ≠ ascii "udb" := by
          intro b hb
          have hone : (recvInto b [x]).bytes.take 1 = [x] :=
            take_recvInto b (Nat.le_refl 1) (by decide)
          have hx := congrArg (List.take 1) hb
          rw [List.take_take, Nat.min_eq_left (by decide), hone] at hx
          exact hu hx
        rw [turn_unknown hshort (hfirst buf₁), turn_unknown hshort (hfirst buf₂)]

/-- A buffer that starts with the prefix and a channel other than `AUTH`. -/
def stackUdb : Buf maxMsgLength := Buf.fill maxMsgLength (channelHeader .runCmd) (by decide)

/-- The buffers can be such that the answer to such a datagram differs. -/
private theorem turn_of_showsStack (os : Os) (sendOk : Bool) {r : Recv} (h : ShowsStack r)
    (hauth : s.udbAuthOk = false) :
    ∃ buf₁ result₁ buf₂ result₂ t₁ t₂ o₁ o₂,
      netDebugdTurn os r sendOk ⟨buf₁, result₁, 0, s⟩ = .ok (t₁, o₁) ∧
      netDebugdTurn os r sendOk ⟨buf₂, result₂, 0, s⟩ = .ok (t₂, o₂) ∧ o₁ ≠ o₂ := by
  cases r with
  | error => cases h
  | datagram data =>
    have hword : some (ascii "unknow cmd") ≠ some [] := by decide
    rcases h with rfl | rfl | ⟨hlen, hkey⟩
    · exact ⟨Buf.zero _, Buf.zero _, stackUdb, Buf.zero _, _, _, _, _,
        turn_unknown (by decide) (take_recvInto_zero_ne (by decide)),
        turn_closed (by decide) rfl rfl (by decide) hauth, hword⟩
    · exact ⟨Buf.zero _, Buf.zero _, stackUdb, Buf.zero _, _, _, _, _,
        turn_unknown (by decide) (take_recvInto_zero_ne (by decide)),
        turn_closed (by decide) rfl rfl (by decide) hauth, hword⟩
    · have hmin : (data.take maxMsgLength).length = min maxMsgLength data.length := List.length_take
      have hmax : maxMsgLength = 1470 := rfl
      have hudb : data.take 3 = ascii "udb" := by
        have h3 := congrArg (List.take 3) hkey
        rw [List.take_take, Nat.min_eq_left (by decide)] at h3
        exact h3
      have hchan : data[3]? = some UdbChanId.auth.toByte := by
        rw [← List.getElem?_take_of_lt (by decide : 3 < 4), hkey]
        rfl
      obtain ⟨hthree, hfour⟩ := recvInto_header (Buf.zero maxMsgLength) hlen
      let ones : Buf maxMsgLength := ⟨List.replicate maxMsgLength 1, List.length_replicate⟩
      have hturn : ∀ result : Buf maxMsgLength, ∃ t' word, word.length = 6 ∧
          netDebugdTurn os (.datagram data) sendOk ⟨Buf.zero maxMsgLength, result, 0, s⟩ =
            .ok (t', some (word ++ result.bytes.drop 6)) :=
        fun result => turn_auth (by omega) (hthree.trans hudb) (hfour.trans hchan)
      obtain ⟨t₁, word₁, hlen₁, hturn₁⟩ := hturn (Buf.zero maxMsgLength)
      obtain ⟨t₂, word₂, hlen₂, hturn₂⟩ := hturn ones
      refine ⟨_, _, _, _, t₁, t₂, _, _, hturn₁, hturn₂, fun heq => ?_⟩
      -- The byte behind the six that were set.
      have hbyte := congrArg (fun b : Bytes => b[6]?) (Option.some.inj heq)
      rw [List.getElem?_append_right hlen₁.le, List.getElem?_append_right hlen₂.le, hlen₁,
        hlen₂] at hbyte
      exact absurd hbyte (by decide)

/-! ## The result -/

/-- Before the first iteration nobody can do anything. -/
private theorem trace_before {es : List NetEvent} (hw : s.workers = [])
    (hauth : s.udbAuthOk = false) :
    (∀ buf₁ result₁ buf₂ result₂, trace netExec es ⟨buf₁, result₁, 0, s⟩ =
        trace netExec es ⟨buf₂, result₂, 0, s⟩) ↔
      ∀ r, firstRecv es = some r → ¬ ShowsStack r := by
  induction es generalizing s with
  | nil => simp [trace, firstRecv]
  | cons e es ih =>
    cases e with
    | turn os r sendOk =>
      simp only [firstRecv, Option.some.injEq, forall_eq']
      constructor
      · intro h hshows
        obtain ⟨buf₁, result₁, buf₂, result₂, t₁, t₂, o₁, o₂, h₁, h₂, hne⟩ :=
          turn_of_showsStack os sendOk hshows hauth
        have heq := h buf₁ result₁ buf₂ result₂
        have hstep₁ : netExec (.turn os r sendOk) ⟨buf₁, result₁, 0, s⟩ = .ok (t₁, o₁) := h₁
        have hstep₂ : netExec (.turn os r sendOk) ⟨buf₂, result₂, 0, s⟩ = .ok (t₂, o₂) := h₂
        rw [trace_cons hstep₁, trace_cons hstep₂, List.cons.injEq] at heq
        exact hne heq.1
      · intro hno buf₁ result₁ buf₂ result₂
        have hsame : netExec (.turn os r sendOk) ⟨buf₁, result₁, 0, s⟩ =
            netExec (.turn os r sendOk) ⟨buf₂, result₂, 0, s⟩ := turn_of_not_showsStack hno hauth
        rw [trace, trace, hsame]
    | thread i input =>
      -- There is no thread to run.
      have hidle : threadStep i input s = .ok s := by
        unfold threadStep
        rw [hw]
        rfl
      have hstep : ∀ buf result, netExec (.thread i input) ⟨buf, result, 0, s⟩ =
          .ok (⟨buf, result, 0, s⟩, none) := by
        intro buf result
        simp only [netExec, hidle, ok_bind, pure_eq_ok]
      rw [firstRecv, ← ih hw hauth]
      simp only [trace_cons (hstep _ _), List.cons.injEq, true_and]
    | files files =>
      have hstep : ∀ buf result, netExec (.files files) ⟨buf, result, 0, s⟩ =
          .ok (⟨buf, result, 0, { s with dev := { s.dev with files := files } }⟩, none) :=
        fun buf result => rfl
      rw [firstRecv, ← ih (s := { s with dev := { s.dev with files := files } }) hw hauth]
      simp only [trace_cons (hstep _ _), List.cons.injEq, true_and]

end Stack

/-- Replies carry nothing but the answer exactly in the runs whose first datagram does not show
    what the stack held: it is not empty, not the single byte `u`, and not a packet for `AUTH`.
    In all others, whatever follows, two runs of the same events that start from the initial
    server with different contents of `buf` and `result` send the same replies. -/
theorem replies_determined_iff (banner : List Bytes) (files : Bytes → Option Bytes)
    (es : List NetEvent) :
    (∀ buf₁ result₁ buf₂ result₂,
      trace netExec es (NetState.init buf₁ result₁ banner files) =
        trace netExec es (NetState.init buf₂ result₂ banner files)) ↔
      ∀ r, firstRecv es = some r → ¬ ShowsStack r :=
  trace_before rfl rfl

/-- A key from anybody, as the first datagram, gets an answer that shows what `result` held. -/
theorem not_replies_determined :
    ¬ ∀ banner files es buf₁ result₁ buf₂ result₂,
      trace netExec es (NetState.init buf₁ result₁ banner files) =
        trace netExec es (NetState.init buf₂ result₂ banner files) := by
  intro h
  let wrongKey : Recv := .datagram (padTo 64 (channelHeader .auth))
  have hno := (trace_before (s := Server.init [] fun _ => none) rfl rfl).mp
    (h [] (fun _ => none) [.turn (willing [] []) wrongKey true]) wrongKey rfl
  exact hno (.inr (.inr ⟨by decide, by decide⟩))

end Udb.Spec
