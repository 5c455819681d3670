import Udb.Spec.Args
import Udb.Spec.Reach

/-!
# Reading the log

`msh log` copies the whole ring into `mshcmd_buf`, which has exactly its size, and
the client prints it. In every reachable state that is the newest part of
everything the server has printed.
-/

namespace Udb.Spec

open CMem StopAndWait Udb.Native

/-! ## The log -/

/-- No 0 is put into the log. -/
private theorem not_mem_logged (msgs : List Bytes) : (0 : UInt8) ∉ logged msgs := by
  intro h
  obtain ⟨msg, -, hmem⟩ := List.mem_flatMap.mp h
  exact not_mem_cstr _ hmem

/-- The newest bytes of the log. -/
def newest (msgs : List Bytes) : Bytes := (logged msgs).rtake rlogMaxLogBufSize

/-- The newest part is as long as the ring, or all there is. -/
theorem length_newest (msgs : List Bytes) :
    (newest msgs).length = min (logged msgs).length rlogMaxLogBufSize := by
  rw [newest, List.rtake, List.length_drop]
  omega

/-- It has no 0 in it. -/
theorem not_mem_newest (msgs : List Bytes) : (0 : UInt8) ∉ newest msgs :=
  fun h => not_mem_logged msgs (List.mem_of_mem_drop h)

/-! ## The first request -/

section Request

variable {s : Server} {msgs : List Bytes}

/-- Storing a message that fits announces it. -/
private theorem mshStore_eq (layer : UInt8) {msg : Bytes} (hmsg : msg.length ≤ mshcmdBufSize)
    (hauth : s.udbAuthOk = true) :
    ∃ s₁, mshStore msg ⟨Buf.zero (layerProtSize layer), 0⟩ (mshPoint (s.setProtSize layer)) =
        .ok (s₁, ⟨Buf.fill (layerProtSize layer) (le32 (UInt32.ofNat msg.length))
          (short_le layer (length_le32_short _)), layerProtSize layer⟩) ∧
      Stored .msh s₁ msg ∧ s₁.udbProtSize = layerProtSize layer := by
  let pointed := mshPoint (s.setProtSize layer)
  have hans := answer_short layer (length_le32_short (UInt32.ofNat msg.length))
    (rfl : pointed.udbProtSize = _)
  -- The message fills the buffer from its start, and the cursor is at 0 again.
  let s₁ : Server := { pointed with
    mshcmdBuf := Buf.fill mshcmdBufSize msg hmsg
    udbMshcmdCtrl :=
      { pointed.udbMshcmdCtrl with usedSize := UInt32.ofNat msg.length, cpOffset := 0 } }
  have hbuf : (mshPoint (s.setProtSize layer)).mshcmdBuf.memcpy 0 msg =
      .ok (Buf.fill mshcmdBufSize msg hmsg) := Buf.memcpy_zero hmsg
  refine ⟨s₁, ?_, ?_, rfl⟩
  · simp only [mshStore, hbuf, ok_bind]
    rw [hans]
    rfl
  · exact Stored.intro hauth rfl rfl (hmsg.trans_lt (by decide)) fun _ => ⟨_, rfl⟩

/-- `MSH_CMD` with `log` stores the newest bytes of the log. -/
theorem request_mshLog (os : Os) (layer : UInt8) {packet : Bytes} (hauth : s.udbAuthOk = true)
    (hchan : packet[3]? = some UdbChanId.mshCmd.toByte)
    (hcmd : (packet.drop 4).take 3 = ascii "log") (hlog : s.rlog = rlogRun msgs) :
    ∃ s₁, request os layer packet s = .ok (s₁, padTo (layerProtSize layer)
        (le32 (UInt32.ofNat (newest msgs).length))) ∧
      Stored .msh s₁ (newest msgs) := by
  have hlen : (newest msgs).length ≤ mshcmdBufSize := by
    rw [length_newest]
    exact Nat.min_le_right _ _
  obtain ⟨s₁, hstore, hstored, hprot⟩ := mshStore_eq layer hlen hauth
  have hdump : rlogDump (mshPoint (s.setProtSize layer)).rlog
      (rlogSize (mshPoint (s.setProtSize layer)).rlog) 0 = .ok (newest msgs) := by
    show rlogDump s.rlog (rlogSize s.rlog) 0 = _
    rw [hlog]
    exact rlogDump_size (ringInv_rlogRun msgs)
  -- The first three bytes decide: they are not empty, and they are `log`.
  have hhead : (packet.drop 4).headD 0 ≠ 0 := by
    cases hp : packet.drop 4 with
    | nil => simp [hp, ascii] at hcmd
    | cons x xs =>
      rw [hp] at hcmd
      have hx : x = 108 := (List.cons.inj hcmd).1
      simp [hx]
  have hthree : strncmpEq (packet.drop 4) (ascii "log") 3 = true :=
    (strncmpEq_iff (b := ascii "log") (by decide)).mpr hcmd
  refine ⟨s₁, ?_, hstored⟩
  rw [request_of_auth hauth (by decide) hchan]
  simp only [dispatch, UdbChanId.ofByte_toByte, udbDebugMsh, udbCmdPkgContentOffset, mshCommand,
    if_neg hhead, hthree, if_true, udbDebugMshCmdLog]
  rw [hdump, ok_bind, hstore, ok_bind, pure_eq_ok, ok_bind]
  dsimp only
  rw [hprot, sent_fill]
  rfl

end Request

/-! ## The whole command -/

def logArgs : List CString := [⟨ascii "log", by decide⟩]

/-- The packet of `msh log`. -/
theorem mshExecCmdPacket_log {protSize : Nat} (h : 64 ≤ protSize) :
    ∃ packet, mshExecCmdPacket protSize logArgs = .ok packet ∧
      packet.bytes[3]? = some UdbChanId.mshCmd.toByte ∧
      (packet.bytes.drop 4).take 3 = ascii "log" := by
  have hlen : (channelHeader .mshCmd ++ packed 4 logArgs).length ≤ protSize := by
    show 8 ≤ protSize
    omega
  exact ⟨_, cmdPacket_eq .mshCmd hlen, rfl, rfl⟩

/-- The log shows the newest part of everything that was logged, whatever the messages were, and
    it fits the buffer that it is copied to. In every reachable authenticated state the log is
    such a log, and `msh log` prints exactly that part, in every layer. -/
theorem mshLog_prints_newest :
    (∀ msgs : List Bytes,
      rlogSize (rlogRun msgs) = min (logged msgs).length 512 ∧
        rlogDump (rlogRun msgs) (rlogSize (rlogRun msgs)) 0 = .ok ((logged msgs).rtake 512) ∧
        ((logged msgs).rtake 512).length ≤ mshcmdBufSize) ∧
      ∀ (layer : UInt8) (os : Os) (s : Server), Reachable s → s.udbAuthOk = true →
        (∃ msgs, s.rlog = rlogRun msgs) ∧
          ∀ msgs, s.rlog = rlogRun msgs →
            ∃ packet, mshExecCmdPacket (layerProtSize layer) logArgs = .ok packet ∧
              ∃ st' s', Completes (mshExecCmd packet).client (serveLayer os layer)
                (PullCmd.init (layerProtSize layer)) s st' s' ∧
                st'.out = (logged msgs).rtake 512 := by
  constructor
  · -- The ring keeps the newest bytes, and the buffer is as large as the ring.
    intro msgs
    have hring := ringInv_rlogRun msgs
    refine ⟨hring.used, rlogDump_size hring, ?_⟩
    have hlen := length_newest msgs
    rw [newest] at hlen
    exact hlen.trans_le (Nat.min_le_right _ _)
  · intro layer os s hs hauth
    refine ⟨(inv_of_reachable hs).log, fun msgs hlog => ?_⟩
    obtain ⟨packet, hpacket, hchan, hcmd⟩ :=
      mshExecCmdPacket_log (layerProtSize_bounds layer).1
    obtain ⟨s₁, hinit, hstored⟩ := request_mshLog os layer hauth hchan hcmd hlog
    -- The size that is announced is not cut to 32 bits.
    have hlt : (newest msgs).length < 2 ^ 32 := by
      have hlen := length_newest msgs
      have hmax : rlogMaxLogBufSize = 512 := rfl
      omega
    obtain ⟨st', s', hrun, hout, -⟩ := pullCmd_completes .msh (p := mshExecCmd packet) rfl
      (.inl rfl) (sinkOf_printReply rfl (not_mem_newest msgs)) hlt hinit hstored
    exact ⟨packet, hpacket, st', s', hrun, hout⟩

/-- Ten lines of a hundred bytes, which overrun the ring. -/
def tenLines : List Bytes :=
  (List.range 10).map fun i => List.replicate 99 (UInt8.ofNat (48 + i)) ++ ascii "\n"

/-- An authenticated server that has printed them. -/
def talkative : Server := tenLines.foldl Server.printf (authed fun _ => none)

/-- Each message is put into the ring behind its tag, which is empty. -/
private theorem rlog_foldl_printf (msgs : List Bytes) (s : Server) :
    (msgs.foldl Server.printf s).rlog =
      (msgs.flatMap fun msg => [rlogTag, msg]).foldl rlogPrintf2buf s.rlog := by
  induction msgs generalizing s with
  | nil => rfl
  | cons msg msgs ih =>
    rw [List.foldl_cons, ih]
    rfl

/-- Printing leads to reachable states. -/
private theorem reachable_foldl_printf (msgs : List Bytes) {s : Server} (hs : Reachable s) :
    Reachable (msgs.foldl Server.printf s) := by
  induction msgs generalizing s with
  | nil => exact hs
  | cons msg msgs ih => exact ih (hs.step (.printf msg))

/-- Of the thousand bytes `msh log` prints the newest 512. -/
theorem mshLog_prints_newest_wrapped :
    tenLines.flatten.length = 1000 ∧
    ∃ packet, mshExecCmdPacket (layerProtSize udbLayerDef) logArgs = .ok packet ∧
      ∃ st' s', Completes (mshExecCmd packet).client (serveLayer (willing [] []) udbLayerDef)
        (PullCmd.init (layerProtSize udbLayerDef)) talkative st' s' ∧
        st'.out = tenLines.flatten.rtake 512 := by
  let msgs : List Bytes := tenLines.flatMap fun line => [rlogTag, line]
  have hlogged : logged msgs = tenLines.flatten := by decide +kernel
  have hlog : talkative.rlog = rlogRun msgs := rlog_foldl_printf tenLines _
  have hauth : talkative.udbAuthOk = true := rfl
  have hprints := (mshLog_prints_newest.2 udbLayerDef (willing [] []) talkative
    (reachable_foldl_printf tenLines (reachable_authed _)) hauth).2 msgs hlog
  rw [hlogged] at hprints
  exact ⟨by decide +kernel, hprints⟩

end Udb.Spec
