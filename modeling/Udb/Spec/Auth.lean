import Udb.Native.NetDebugd
import Udb.Spec.Reach

/-!
# The authentication gate

Over the runs of the receive loop, `udb_auth_ok` is set by the first datagram that
presents the key and stays set. Until then a datagram changes neither the device
nor any controller, and what it gets back says nothing.

## Key results

- `netDebugdIter_auth`: what one iteration does to the flag
- `netDebugdIter_closed`: one iteration without the flag
-/

namespace Udb.Spec

open CMem Udb.Native

/-! ## The key -/

/-- The datagram is dispatched to `udb_debug_bridge` with the channel byte of `AUTH` and the
    16 bytes of the key at offset 4 of `buf`. -/
def KeySent (buf : Buf maxMsgLength) : Recv → Prop
  | .error => False
  | .datagram data =>
    dispatched buf data = true ∧
      (recvInto buf data).bytes[3]? = some UdbChanId.auth.toByte ∧
      ((recvInto buf data).bytes.drop 4).take 16 = authKey

/-- A packet presents the key on the channel `AUTH` only. -/
private theorem presentsKey_iff {cmd : Bytes} :
    presentsKey cmd = true ↔
      cmd[3]? = some UdbChanId.auth.toByte ∧ (cmd.drop 4).take 16 = authKey := by
  have hkey := strncmpEq_iff (a := cmd.drop 4) (b := authKey) (by decide)
  rw [presentsKey, Bool.and_eq_true, beq_iff_eq]
  exact and_congr_right fun _ => hkey

/-- The two tests in front of the call of `udb_debug_bridge`. -/
private theorem dispatched_iff (buf : Buf maxMsgLength) (data : Bytes) :
    dispatched buf data = true ↔
      ¬ (1 < (data.take maxMsgLength).length ∧ (data.take maxMsgLength).length < 64) ∧
        (recvInto buf data).bytes.take 3 = ascii "udb" := by
  simp only [dispatched, Bool.and_eq_true, Bool.not_eq_true', Bool.and_eq_false_iff,
    decide_eq_false_iff_not, beq_iff_eq, not_and_or]

/-! ## One iteration -/

section Iter

variable {os : Os} {r : Recv} {t t' : NetState} {reply : Option Bytes} {ok : Bool}

/-- Nothing, or not a datagram for the bridge. -/
def Undispatched (buf : Buf maxMsgLength) (r : Recv) : Prop :=
  ∀ data, r = .datagram data → dispatched buf data = false

/-- What one iteration can do: nothing, answer that the datagram is not for the server, or let
    the bridge answer it. The reply buffer is cleared in each case. -/
theorem netDebugdIter_cases (hit : netDebugdIter os r t = .ok (t', reply)) :
    t'.result = Buf.zero maxMsgLength ∧
      (t'.server = t.server ∧ t'.resultLen = t.resultLen ∧ Undispatched t.buf r ∨
        t'.server = t.server.printf (ascii "net debugd unknow cmd\n") ∧ t'.resultLen = 0 ∧
          Undispatched t.buf r ∨
        ∃ data resp, r = .datagram data ∧ dispatched t.buf data = true ∧ t'.resultLen = 0 ∧
          udbDebugBridge os udbLayerNet (recvInto t.buf data).bytes ⟨t.result, t.resultLen⟩
            t.server = .ok (t'.server, resp)) := by
  unfold netDebugdIter at hit
  cases r with
  | error =>
    obtain ⟨rfl, -⟩ := pure_pair_eq_ok.mp hit
    exact ⟨rfl, .inl ⟨rfl, rfl, fun data h => by cases h⟩⟩
  | datagram data =>
    have hdisp := dispatched_iff t.buf data
    dsimp only at hit
    split at hit
    · -- Too short: it is dropped without an answer.
      rename_i hshort
      obtain ⟨rfl, -⟩ := pure_pair_eq_ok.mp hit
      refine ⟨rfl, .inl ⟨rfl, rfl, ?_⟩⟩
      rintro _ ⟨⟩
      exact Bool.eq_false_iff.mpr fun hd => (hdisp.mp hd).1 hshort
    · rename_i hlen
      split at hit
      · -- The prefix is there: the bridge decides.
        rename_i hudb
        obtain ⟨⟨server, resp⟩, hbridge, hit⟩ := bind_eq_ok.mp hit
        obtain ⟨rfl, -⟩ := pure_pair_eq_ok.mp hit
        exact ⟨rfl, .inr (.inr ⟨data, resp, rfl, hdisp.mpr ⟨hlen, hudb⟩, rfl, hbridge⟩)⟩
      · -- No prefix: the answer is a text of its own.
        rename_i hudb
        obtain ⟨result, -, hit⟩ := bind_eq_ok.mp hit
        obtain ⟨rfl, -⟩ := pure_pair_eq_ok.mp hit
        refine ⟨rfl, .inr (.inl ⟨rfl, rfl, ?_⟩)⟩
        rintro _ ⟨⟩
        exact Bool.eq_false_iff.mpr fun hd => hudb (hdisp.mp hd).2

/-- What is not dispatched sends no key. -/
private theorem not_keySent {buf : Buf maxMsgLength} (h : Undispatched buf r)
    : ¬ KeySent buf r := by
  cases r with
  | error => exact id
  | datagram data =>
    intro hk
    have hdisp := hk.1
    rw [h data rfl] at hdisp
    cases hdisp

/-- One iteration sets the flag exactly when the key was sent, and keeps the server's
    invariant. -/
theorem netDebugdIter_auth (h : Inv ok t.server) (hit : netDebugdIter os r t = .ok (t', reply)) :
    ∃ ok', Inv ok' t'.server ∧ (ok' = true ↔ ok = true ∨ KeySent t.buf r) := by
  obtain ⟨-, ⟨hsame, -, hno⟩ | ⟨hprint, -, hno⟩ | ⟨data, resp, rfl, hd, -, hbridge⟩⟩ :=
    netDebugdIter_cases hit
  · exact ⟨ok, hsame ▸ h, (or_iff_left (not_keySent hno)).symm⟩
  · exact ⟨ok, hprint ▸ h.printf _, (or_iff_left (not_keySent hno)).symm⟩
  · refine ⟨_, h.udbDebugBridge hbridge, ?_⟩
    rw [Bool.or_eq_true, presentsKey_iff]
    exact or_congr_right ⟨fun hk => ⟨hd, hk⟩, fun hk => hk.2⟩

/-- The length of the reply is 0 again at the end of every iteration. -/
theorem netDebugdIter_resultLen (h0 : t.resultLen = 0)
    (hit : netDebugdIter os r t = .ok (t', reply)) : t'.resultLen = 0 := by
  obtain ⟨-, ⟨-, hlen, -⟩ | ⟨-, hlen, -⟩ | ⟨data, resp, -, -, hlen, -⟩⟩ := netDebugdIter_cases hit
  · exact hlen.trans h0
  · exact hlen
  · exact hlen

/-- Nothing outside the server and no controller has changed. -/
structure Untouched (s s' : Server) : Prop where
  dev : s'.dev = s.dev
  runcmd : s'.udbRuncmdCtrl = s.udbRuncmdCtrl
  runcmdWait : s'.udbRuncmdWaitCtrl = s.udbRuncmdWaitCtrl
  msh : s'.udbMshcmdCtrl = s.udbMshcmdCtrl
  pullfile : s'.udbPullfileCtrl = s.udbPullfileCtrl
  pushfile : s'.udbPushfileCtrl = s.udbPushfileCtrl

theorem Untouched.refl (s : Server) : Untouched s s := ⟨rfl, rfl, rfl, rfl, rfl, rfl⟩

/-- A reply that says nothing: none at all, one without bytes, a refusal of the key, or the
    answer to a datagram that is not for the server. -/
def Quiet : Option Bytes → Prop
  | none => True
  | some reply => reply = [] ∨ ascii "AUTHNO" <+: reply ∨ reply = ascii "unknow cmd"

/-- An answer that fits is stored at the start of the reply buffer. -/
theorem answer_ok (resp : Resp maxMsgLength) {b : Bytes} (hb : b.length ≤ maxMsgLength)
    (len : Nat) :
    resp.answer b len = .ok ⟨resp.buf.write 0 b (by omega), len⟩ := by
  have hle : 0 + b.length ≤ maxMsgLength := by omega
  rw [Resp.answer, Buf.memcpy, dif_pos hle]
  rfl

/-- What was stored at the start is the start of what is sent. -/
private theorem isPrefix_sent (b : Buf maxMsgLength) {a : Bytes} {len : Nat}
    (h : 0 + a.length ≤ maxMsgLength) (hlen : a.length ≤ len) :
    a <+: Resp.sent ⟨b.write 0 a h, len⟩ := by
  rw [Resp.sent, Buf.bytes_write, List.take_zero, List.nil_append, List.take_append]
  rw [List.take_of_length_le hlen]
  exact List.prefix_append _ _

/-- The bridge without the flag: it answers, touches nothing, and stays quiet unless the flag
    gets set. -/
theorem bridge_closed (os : Os) (cmd : Buf maxMsgLength) (result : Buf maxMsgLength) {s : Server}
    (hno : s.udbAuthOk = false) :
    ∃ s' resp, udbDebugBridge os udbLayerNet cmd.bytes ⟨result, 0⟩ s = .ok (s', resp) ∧
      Untouched s s' ∧ (s'.udbAuthOk = false → Quiet (some resp.sent)) := by
  have hlt : 3 < cmd.bytes.length := by rw [cmd.length_bytes]; decide
  have hprot : (s.setProtSize udbLayerNet).udbProtSize = 1470 := rfl
  unfold udbDebugBridge
  rw [udbCmdChannelIdOffset, List.getElem?_eq_getElem hlt]
  dsimp only
  rw [Server.udbAuthOk_setProtSize, hno]
  split
  · -- The one channel that is open: the key is right or not, and both answers are fixed.
    unfold udbDebugAuth
    split
    · rw [answer_ok _ (by decide)]
      exact ⟨_, _, rfl, ⟨rfl, rfl, rfl, rfl, rfl, rfl⟩, fun h => by cases h⟩
    · rw [answer_ok _ (by decide)]
      refine ⟨_, _, rfl, ⟨rfl, rfl, rfl, rfl, rfl, rfl⟩, fun _ => .inr (.inl ?_)⟩
      exact isPrefix_sent _ _ (by rw [hprot]; decide)
  · -- Every other channel: nothing is stored in the reply.
    refine ⟨_, _, rfl, ⟨rfl, rfl, rfl, rfl, rfl, rfl⟩, fun _ => .inl ?_⟩
    exact List.take_zero

/-- One iteration without the flag: it cannot fault, touches nothing, and stays quiet unless
    the flag gets set. -/
theorem netDebugdIter_closed (os : Os) (r : Recv) (hno : t.server.udbAuthOk = false)
    (h0 : t.resultLen = 0) :
    ∃ t' reply, netDebugdIter os r t = .ok (t', reply) ∧ Untouched t.server t'.server ∧
      (t'.server.udbAuthOk = false → Quiet reply) := by
  cases r with
  | error => exact ⟨_, _, rfl, .refl _, fun _ => trivial⟩
  | datagram data =>
    unfold netDebugdIter
    dsimp only
    split
    · -- Too short for a packet, so nothing is answered.
      exact ⟨_, _, rfl, .refl _, fun _ => trivial⟩
    · split
      · obtain ⟨s', resp, hbridge, hsame, hquiet⟩ :=
          bridge_closed os (recvInto t.buf data) t.result hno
        rw [h0, hbridge, ok_bind]
        exact ⟨_, _, rfl, hsame, hquiet⟩
      · -- Not a packet of udb: the answer is a fixed text, and the server is as it was.
        have hle : 0 + (ascii "unknow cmd").length ≤ maxMsgLength := by decide
        rw [Buf.memcpy, dif_pos hle, ok_bind]
        refine ⟨_, _, rfl, ⟨rfl, rfl, rfl, rfl, rfl, rfl⟩, fun _ => .inr (.inr ?_)⟩
        rw [Resp.sent, Buf.bytes_write, List.take_zero, List.nil_append, List.take_left]

end Iter

/-! ## Runs -/

/-- What holds after every run: the flag says whether the key was sent. -/
private theorem netRun_inv {t₀ t : NetState} {hist : List (Buf maxMsgLength × Recv)}
    (h₀ : Inv false t₀.server) (hlen : t₀.resultLen = 0) (hrun : NetRun t₀ hist t) :
    t.resultLen = 0 ∧
      ∃ ok, Inv ok t.server ∧ (ok = true ↔ ∃ e ∈ hist, KeySent e.1 e.2) := by
  induction hrun with
  | start => exact ⟨hlen, false, h₀, by simp⟩
  | iter _ hit ih =>
    obtain ⟨hl, ok, hinv, hiff⟩ := ih
    obtain ⟨ok', hinv', hiff'⟩ := netDebugdIter_auth hinv hit
    -- The iteration sets the flag or leaves it, as the packet says.
    refine ⟨netDebugdIter_resultLen hl hit, ok', hinv', ?_⟩
    rw [hiff', hiff]
    simp [or_and_right, exists_or]
  | worker _ hw ih =>
    obtain ⟨hl, ok, hinv, hiff⟩ := ih
    -- No worker and no other program touches the flag.
    exact ⟨hl, ok, hinv.workerStep hw, hiff⟩
  | files _ files ih =>
    obtain ⟨hl, ok, hinv, hiff⟩ := ih
    exact ⟨hl, ok, { hinv with }, hiff⟩

/-- The authentication gate over whole runs of the receive loop, whatever its buffers held at
    first. The flag is set exactly when some datagram so far was dispatched with the key, and no
    iteration clears it. While it is not set, every iteration returns and changes neither the
    device nor any controller, and unless it sets the flag its reply is empty, starts with
    `AUTHNO`, or is `unknow cmd`. -/
theorem auth_gate (buf result : Buf maxMsgLength) (banner : List Bytes)
    (files : Bytes → Option Bytes) (hist : List (Buf maxMsgLength × Recv)) (t : NetState)
    (hrun : NetRun (NetState.init buf result banner files) hist t) :
    (t.server.udbAuthOk = true ↔ ∃ e ∈ hist, KeySent e.1 e.2) ∧
      (∀ os r t' reply, netDebugdIter os r t = .ok (t', reply) →
        t.server.udbAuthOk = true → t'.server.udbAuthOk = true) ∧
      (t.server.udbAuthOk = false → ∀ os r, ∃ t' reply,
        netDebugdIter os r t = .ok (t', reply) ∧ Untouched t.server t'.server ∧
          (t'.server.udbAuthOk = false → Quiet reply)) := by
  obtain ⟨hlen, ok, hinv, hiff⟩ := netRun_inv (Inv.init banner files) rfl hrun
  refine ⟨by rw [hinv.auth, hiff], ?_, fun hno os r => netDebugdIter_closed os r hno hlen⟩
  intro os r t' reply hit hauth
  obtain ⟨ok', hinv', hiff'⟩ := netDebugdIter_auth hinv hit
  rw [hinv'.auth, hiff', ← hinv.auth]
  exact .inl hauth

/-- The datagram of the client's `auth`, received first. -/
theorem auth_gate_key :
    ∃ t, NetRun (NetState.init (Buf.zero _) (Buf.zero _) [] fun _ => none)
        [(Buf.zero _, .datagram (padTo 64 (channelHeader .auth ++ authKey)))] t ∧
      t.server.udbAuthOk = true := by
  let t₀ := NetState.init (Buf.zero _) (Buf.zero _) [] fun _ => none
  obtain ⟨t, reply, hit, -⟩ := netDebugdIter_closed (t := t₀) (willing [] [])
    (.datagram (padTo 64 (channelHeader .auth ++ authKey))) rfl rfl
  have hrun := NetRun.iter (.start : NetRun t₀ [] t₀) hit
  refine ⟨t, hrun, (auth_gate _ _ _ _ _ t hrun).1.mpr ⟨_, List.mem_singleton_self _, ?_⟩⟩
  exact ⟨by decide, rfl, rfl⟩

end Udb.Spec
