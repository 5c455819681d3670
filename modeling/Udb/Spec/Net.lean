import Udb.Spec.Auth

/-!
# The receive loop serves requests

`Reachable` and `request` describe the server without a transport. Here the loop of
`net_debugd.c` is tied to them: its server is always in a reachable state.

## Key results

- `reachable_of_netRun`: the loop leads to reachable states only
-/

namespace Udb.Spec

open CMem Udb.Native

variable {os : Os} {r : Recv} {t t' : NetState} {reply : Option Bytes}

/-- Without the flag the state after a request does not depend on the reply buffer. -/
private theorem request_of_bridge_closed {cmd : Buf maxMsgLength} {resp resp' : Resp maxMsgLength}
    {s s' : Server} (hno : s.udbAuthOk = false)
    (h : udbDebugBridge os udbLayerNet cmd.bytes resp s = .ok (s', resp')) :
    ∃ reply, request os udbLayerNet cmd.bytes s = .ok (s', reply) := by
  obtain ⟨s₁, resp₁, hbridge, -⟩ := bridge_closed os cmd (Buf.zero maxMsgLength) hno
  have hsame : s₁ = s' := (bridge_of_closed hno hbridge).trans (bridge_of_closed hno h).symm
  rw [hsame] at hbridge
  exact ⟨resp₁.sent, bind_eq_ok.mpr ⟨_, hbridge, rfl⟩⟩

/-- The first datagram may find anything in the reply buffer, later ones find it cleared. -/
def Fresh (t : NetState) : Prop :=
  t.resultLen = 0 ∧ (t.result = Buf.zero maxMsgLength ∨ t.server.udbAuthOk = false)

/-- One iteration is a request, a message in the log, or nothing. -/
private theorem netDebugdIter_reachable (hs : Reachable t.server) (hfresh : Fresh t)
    (hit : netDebugdIter os r t = .ok (t', reply)) : Reachable t'.server := by
  obtain ⟨hlen, hresult⟩ := hfresh
  obtain ⟨-, ⟨hsame, -⟩ | ⟨hprint, -⟩ | ⟨data, resp, -, -, -, hbridge⟩⟩ := netDebugdIter_cases hit
  · exact hsame ▸ hs
  · exact hprint ▸ hs.step (.printf _)
  · have hfull := (recvInto t.buf data).length_bytes
    -- Nothing is left in `result`, so the call is a request.
    rcases hresult with hzero | hno
    · rw [hzero, hlen] at hbridge
      have hreq : request os udbLayerNet (recvInto t.buf data).bytes t.server =
          .ok (t'.server, resp.sent) := bind_eq_ok.mpr ⟨_, hbridge, rfl⟩
      exact hs.step (.request hfull hreq)
    · -- Or something is, but without the key it is not sent, and the server does the same.
      obtain ⟨reply', hreq⟩ := request_of_bridge_closed hno hbridge
      exact hs.step (.request hfull hreq)

section Run

variable {buf result : Buf maxMsgLength} {banner : List Bytes} {files : Bytes → Option Bytes}
  {hist : List (Buf maxMsgLength × Recv)}

/-- Every iteration of the loop starts fresh, in a reachable state. -/
private theorem netRun_fresh (hrun : NetRun (NetState.init buf result banner files) hist t) :
    Reachable t.server ∧ Fresh t := by
  induction hrun with
  | start => exact ⟨.init banner files, rfl, .inr rfl⟩
  | iter _ hit ih =>
    obtain ⟨hs, hfresh⟩ := ih
    exact ⟨netDebugdIter_reachable hs hfresh hit, netDebugdIter_resultLen hfresh.1 hit,
      .inl (netDebugdIter_cases hit).1⟩
  | worker _ hw ih =>
    obtain ⟨hs, hlen, hresult⟩ := ih
    -- No worker sets the flag.
    have hflag := ((inv_of_reachable hs).workerStep hw).auth
    exact ⟨hs.step (.worker hw), hlen, hresult.imp_right fun hno => hflag.trans hno⟩
  | files _ files ih => exact ⟨ih.1.step (.files files), ih.2⟩

/-- The loop leads to reachable states only. -/
theorem reachable_of_netRun (hrun : NetRun (NetState.init buf result banner files) hist t) :
    Reachable t.server :=
  (netRun_fresh hrun).1

end Run

end Udb.Spec
