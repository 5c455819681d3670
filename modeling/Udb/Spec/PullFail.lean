import Udb.Spec.PullFile

/-!
# A pull that fails

When the server cannot open the path, it announces the size 0, the same as for an
empty file, and `pull_file` has emptied the local file before it asked. So the pull
runs to its end as for an empty file, and the local file is empty after it. The same
happens with a server that was not given the key: it answers nothing, and the read
buffer keeps the zeros it was cleared to.

## Key results

- `emptyPull_of_auth`, `emptyPull_of_closed`: a failed pull ends with no output
- `failed_pull_keeps_iff`: when the local file has its previous content after it
-/

namespace Udb.Spec

open CMem StopAndWait Udb.Native

section Failed

variable {os : Os} {layer : UInt8} {devPath : CString} {s : Server}

/-! ## Before the key was sent -/

/-- Without the key a request on any other channel gets no answer. -/
theorem request_of_closed {cmd : Bytes} {ch : UdbChanId} (hno : s.udbAuthOk = false)
    (hch : ch ≠ .auth) (hcmd : cmd[3]? = some ch.toByte) :
    request os layer cmd s = .ok (s.setProtSize layer, []) := by
  have hne : ch.toByte ≠ UdbChanId.auth.toByte := fun h => hch (toByte_injective h)
  simp only [request, udbDebugBridge, udbCmdChannelIdOffset, hcmd, if_neg hne,
    Server.udbAuthOk_setProtSize, hno]
  rfl

/-- The packet of a pull that is not too long. -/
theorem pullFilePacket_chan (h : (channelHeader .pullFileInit ++ devPath.bytes).length ≤
    layerProtSize layer) :
    (Buf.fill (layerProtSize layer) _ h).bytes[3]? = some UdbChanId.pullFileInit.toByte :=
  getElem?_header _

/-- Reading an answer without bytes leaves the read buffer as it was. -/
theorem udbCtrlRead_nil {protSize : Nat} (b : Buf (protSize + 1)) :
    udbCtrlRead b (some []) = b := by
  rw [Buf.ext_iff, udbCtrlRead, Buf.bytes_write]
  simp

/-- Without the key the pull takes the zeros of its own buffer for the size of an empty file. -/
theorem emptyPull_of_closed (os : Os) (layer : UInt8) (hno : s.udbAuthOk = false)
    (h : (channelHeader .pullFileInit ++ devPath.bytes).length ≤ layerProtSize layer) :
    ∃ st' s', Completes (pullFile (Buf.fill (layerProtSize layer) _ h)).client
      (serveLayer os layer) (PullCmd.init (layerProtSize layer)) s st' s' ∧ st'.out = [] := by
  have hp := layerProtSize_bounds layer
  let p := pullFile (Buf.fill (layerProtSize layer) _ h)
  have hfirst : serveLayer os layer s p.initPacket.bytes = some (s.setProtSize layer, []) :=
    serveLayer_eq_some.mpr (request_of_closed hno (by decide) (pullFilePacket_chan h))
  let st : PullState (layerProtSize layer) :=
    ⟨.pullout, 0, Buf.zero (layerProtSize layer + 1), []⟩
  have hrecv : p.client.recv (PullCmd.init (layerProtSize layer)) (some []) = st := by
    have hsize : getSizeOf (Buf.zero (layerProtSize layer + 1)) = 0 := by
      rw [getSizeOf, Buf.bytes_zero, List.take_replicate, Nat.min_eq_left (by omega)]
      rfl
    show PullState.mk .pullout (getSizeOf (udbCtrlRead _ (some [])))
      (udbCtrlRead _ (some [])) [] = _
    rw [udbCtrlRead_nil]
    show PullState.mk _ (getSizeOf (Buf.zero (layerProtSize layer + 1))) _ _ = _
    rw [hsize]
    rfl
  -- The turn of the loop for nothing is the last one, whatever it reads.
  have hchunk : chunkSize (layerProtSize layer) 0 = 0 := by
    unfold chunkSize
    rw [if_pos (by rw [UInt32.toNat_zero]; omega)]
  have hnext : p.client.next st = .call (padTo (layerProtSize layer)
      (channelHeader .pullFilePullout ++ le32 0)) := by
    rw [next_pullout rfl, hchunk]
    rfl
  have hchan : (padTo (layerProtSize layer) (channelHeader .pullFilePullout ++ le32 0))[3]? =
      some UdbChanId.pullFilePullout.toByte := getElem?_header _
  have hsecond : serveLayer os layer (s.setProtSize layer) (padTo (layerProtSize layer)
      (channelHeader .pullFilePullout ++ le32 0)) = some ((s.setProtSize layer).setProtSize layer,
        []) :=
    serveLayer_eq_some.mpr (request_of_closed hno (by decide) hchan)
  have hlast : (p.client.recv st (some [])).phase = .finished ∧
      (p.client.recv st (some [])).out = [] := by
    simp only [PullCmd.client, PullCmd.recv, st, hchunk]
    exact ⟨rfl, rfl⟩
  have hend : p.client.next (p.client.recv st (some [])) = .finished := by
    simp only [PullCmd.client, PullCmd.next] at hlast ⊢
    rw [hlast.1]
  have hrun := Completes.call hnext hsecond (.finished hend)
  rw [← hrecv] at hrun
  exact ⟨_, _, .call rfl hfirst hrun, by rw [hrecv]; exact hlast.2⟩

/-! ## A path that cannot be opened -/

/-- The state that `PULL_FILE_INIT` leaves for a file it cannot open. -/
def notPulled (layer : UInt8) (path : Bytes) (s : Server) : Server :=
  { ((s.setProtSize layer).call (.fopenRead path)).printf
      (ascii "Error opening input file " ++ path ++ ascii "\n") with
    udbPullfileCtrl := ⟨none, 0, 0⟩ }

/-- A path that cannot be opened is answered with the size 0. -/
theorem request_pullfileInit_failed (layer : UInt8) {cmd path : Bytes} (hauth : s.udbAuthOk = true)
    (hcmd : cmd[3]? = some UdbChanId.pullFileInit.toByte) (hpath : cstrAt cmd 4 = .ok path)
    (hfail : os.fopenRead path = none) :
    request os layer cmd s =
      .ok (notPulled layer path s, padTo (layerProtSize layer) (le32 0)) := by
  have hread : pullfileRead os path ((s.setProtSize layer).call (.fopenRead path)) =
      .ok (notPulled layer path s) := by
    rw [pullfileRead, hfail]
    rfl
  -- The size 0 is announced, as for a file that is empty.
  have hans := answer_short layer (length_le32_short 0)
    (rfl : (notPulled layer path s).udbProtSize = _)
  rw [request_of_auth hauth (by decide) hcmd]
  simp only [dispatch, UdbChanId.ofByte_toByte, udbDebugPullfileInit, hpath, ok_bind, hread]
  show (Resp.answer _ (le32 0) _ >>= _) >>= _ = _
  rw [hans, ok_bind, pure_eq_ok, ok_bind, sent_fill]
  rfl

/-- The path of the first packet, when its terminator fits too. -/
theorem cstrAt_pullFilePacket (hfit : 4 + devPath.bytes.length < layerProtSize layer) :
    cstrAt (padTo (layerProtSize layer) (channelHeader .pullFileInit ++ devPath.bytes)) 4 =
      .ok devPath.bytes :=
  cstrAt_padTo (a := channelHeader .pullFileInit) devPath.nulFree hfit

/-- An authenticated pull of such a path ends as that of an empty file does. -/
theorem emptyPull_of_auth (hauth : s.udbAuthOk = true)
    (hfit : 4 + devPath.bytes.length < layerProtSize layer)
    (hfail : os.fopenRead devPath.bytes = none)
    (h : (channelHeader .pullFileInit ++ devPath.bytes).length ≤ layerProtSize layer) :
    ∃ st' s', Completes (pullFile (Buf.fill (layerProtSize layer) _ h)).client
      (serveLayer os layer) (PullCmd.init (layerProtSize layer)) s st' s' ∧ st'.out = [] := by
  have hreq := request_pullfileInit_failed layer hauth (pullFilePacket_chan h)
    (cstrAt_pullFilePacket hfit) hfail
  have hstored : Stored .pullFile (notPulled layer devPath.bytes s) [] :=
    Stored.intro hauth rfl rfl (by decide) fun hne => absurd rfl hne
  obtain ⟨st', s', hrun, hout, -⟩ := pullCmd_completes .pullFile
    (p := pullFile (Buf.fill (layerProtSize layer) _ h)) rfl (.inr rfl) (sinkOf_pullFile _ [])
    (by decide) hreq hstored
  exact ⟨st', s', hrun, hout⟩

/-- A path that fills its packet has no terminator there, and an authenticated server does not
    return from reading it. -/
private theorem not_completes_of_full (hauth : s.udbAuthOk = true)
    (hfull : 4 + devPath.bytes.length = layerProtSize layer)
    (h : (channelHeader .pullFileInit ++ devPath.bytes).length ≤ layerProtSize layer)
    (st' : PullState (layerProtSize layer)) (s' : Server) :
    ¬ Completes (pullFile (Buf.fill (layerProtSize layer) _ h)).client
      (serveLayer os layer) (PullCmd.init (layerProtSize layer)) s st' s' := by
  have hbytes : (Buf.fill (layerProtSize layer) _ h).bytes =
      channelHeader .pullFileInit ++ devPath.bytes := by
    rw [Buf.bytes_fill, padTo, List.length_append, length_channelHeader, hfull, Nat.sub_self,
      List.replicate_zero, List.append_nil]
  have hpath : cstrAt (Buf.fill (layerProtSize layer) _ h).bytes 4 = .error .outOfBounds := by
    rw [cstrAt, hbytes]
    exact if_neg devPath.nulFree
  have hreq : serveLayer os layer s (Buf.fill (layerProtSize layer) _ h).bytes = none := by
    rw [serveLayer, request_of_auth hauth (by decide) (pullFilePacket_chan h)]
    simp only [dispatch, UdbChanId.ofByte_toByte, udbDebugPullfileInit, hpath]
    rfl
  -- The first request is never answered, so no number of turns is enough.
  intro hrun
  obtain ⟨n, hrun⟩ := hrun
  have hnext : (pullFile (Buf.fill (layerProtSize layer) _ h)).client.next
      (PullCmd.init (layerProtSize layer)) = .call (Buf.fill (layerProtSize layer) _ h).bytes := rfl
  unfold run at hrun
  cases n with
  | zero => simp only [hnext] at hrun; cases hrun
  | succ n => simp only [hnext, hreq] at hrun; cases hrun

end Failed

/-! ## The local file -/

/-- The first request of a pull is answered in the same way for a path that cannot be opened and
    for an empty file. -/
private theorem failed_reply_eq_empty {os os' : Os} (layer : UInt8) (s : Server) {devPath : CString}
    (hfit : 4 + devPath.bytes.length < layerProtSize layer)
    (hfail : os.fopenRead devPath.bytes = none) (hempty : ReadsInFull os' devPath.bytes []) :
    ∃ s₁ s₂ reply,
      request os layer
        (padTo (layerProtSize layer) (channelHeader .pullFileInit ++ devPath.bytes)) s =
          .ok (s₁, reply) ∧
      request os' layer
        (padTo (layerProtSize layer) (channelHeader .pullFileInit ++ devPath.bytes)) s =
          .ok (s₂, reply) := by
  have hcmd : (padTo (layerProtSize layer) (channelHeader .pullFileInit ++ devPath.bytes))[3]? =
      some UdbChanId.pullFileInit.toByte := getElem?_header _
  cases hauth : s.udbAuthOk with
  | false =>
    -- Without the key both are answered with nothing.
    exact ⟨_, _, _, request_of_closed hauth (by decide) hcmd,
      request_of_closed hauth (by decide) hcmd⟩
  | true =>
    have hpath := cstrAt_pullFilePacket hfit
    -- With it both announce the size 0.
    obtain ⟨s₂, hreq, -⟩ := request_pullfileInit layer hauth hcmd hpath (by decide) hempty
    exact ⟨_, s₂, _, request_pullfileInit_failed layer hauth hcmd hpath hfail, hreq⟩

section Keeps

variable {os : Os} {layer : UInt8} {devPath : CString} {s : Server} {before : Option Bytes}

/-- A pull that ends with no output leaves an empty file. -/
private theorem keeps_iff_of_completes
    {h : (channelHeader .pullFileInit ++ devPath.bytes).length ≤ layerProtSize layer}
    {st : PullState (layerProtSize layer)} {s₁ : Server}
    (hrun : Completes (pullFile (Buf.fill (layerProtSize layer) _ h)).client
      (serveLayer os layer) (PullCmd.init (layerProtSize layer)) s st s₁) (hout : st.out = []) :
    (∃ s', PullFileReturns layer os true devPath before before s s') ↔ before = some [] := by
  have hpacket := pullFilePacket_eq h
  unfold PullFileReturns
  constructor
  · intro hkeeps
    obtain ⟨s', packet, hp, st', hrun', hbefore⟩ := hkeeps
    obtain rfl := Except.ok.inj (hpacket.symm.trans hp)
    -- There is only one way in which it ends.
    rw [hbefore, ← (hrun.unique hrun').1, hout]
  · intro hbefore
    exact ⟨s₁, _, hpacket, st, hrun, by rw [hbefore, hout]⟩

/-- A path that fills the packet has no end there. -/
private theorem not_keeps_of_full (hauth : s.udbAuthOk = true)
    (hfull : 4 + devPath.bytes.length = layerProtSize layer) :
    ¬ ∃ s', PullFileReturns layer os true devPath before before s s' := by
  have hbuf : (channelHeader .pullFileInit ++ devPath.bytes).length ≤ layerProtSize layer := by
    rw [List.length_append, length_channelHeader]
    omega
  intro hkeeps
  obtain ⟨s', packet, hp, st', hrun, -⟩ := hkeeps
  obtain rfl := Except.ok.inj ((pullFilePacket_eq hbuf).symm.trans hp)
  exact not_completes_of_full hauth hfull hbuf st' s' hrun

/-- A path that does not fit the packet is stored past its end. -/
private theorem not_keeps_of_long (hlong : layerProtSize layer < 4 + devPath.bytes.length) :
    ¬ ∃ s', PullFileReturns layer os true devPath before before s s' := by
  intro hkeeps
  obtain ⟨s', packet, hp, -⟩ := hkeeps
  obtain ⟨b, -, hstore⟩ := bind_eq_ok.mp hp
  have hle := (Buf.memcpy_eq_ok_iff.mp hstore).1
  omega

end Keeps

/-- After a pull of a path that the server cannot open the local file has its previous content
    exactly when it could not be opened for writing, or was empty before and the pull returns; and
    the answer to the first request is the one for an empty file. For every layer, every state of
    the server, authenticated or not, every path, every previous content and every outcome of
    opening the local file. -/
theorem failed_pull_keeps_iff (layer : UInt8) (os : Os) (s : Server) (devPath : CString)
    (hfail : os.fopenRead devPath.bytes = none) (localOpens : Bool) (before : Option Bytes) :
    ((∃ s', PullFileReturns layer os localOpens devPath before before s s') ↔
      localOpens = false ∨ before = some [] ∧
        (4 + devPath.bytes.length < layerProtSize layer ∨
          4 + devPath.bytes.length = layerProtSize layer ∧ s.udbAuthOk = false)) ∧
    (4 + devPath.bytes.length < layerProtSize layer →
      ∀ os' : Os, ReadsInFull os' devPath.bytes [] → ∃ s₁ s₂ reply,
        request os layer
          (padTo (layerProtSize layer) (channelHeader .pullFileInit ++ devPath.bytes)) s =
            .ok (s₁, reply) ∧
        request os' layer
          (padTo (layerProtSize layer) (channelHeader .pullFileInit ++ devPath.bytes)) s =
            .ok (s₂, reply)) := by
  refine ⟨?_, fun hfit os' hempty => failed_reply_eq_empty layer s hfit hfail hempty⟩
  cases localOpens with
  | false =>
    -- The pull returns before it asks.
    exact iff_of_true ⟨s, rfl, rfl⟩ (.inl rfl)
  | true =>
    have hlen : (channelHeader .pullFileInit ++ devPath.bytes).length =
        4 + devPath.bytes.length := by
      rw [List.length_append, length_channelHeader]
    rw [or_iff_right (by decide)]
    rcases Nat.lt_trichotomy (4 + devPath.bytes.length) (layerProtSize layer) with
      hfit | hfull | hlong
    · -- The path and its terminator fit.
      have hbuf : (channelHeader .pullFileInit ++ devPath.bytes).length ≤ layerProtSize layer := by
        omega
      obtain ⟨st, s₁, hrun, hout⟩ : ∃ st' s', Completes
          (pullFile (Buf.fill (layerProtSize layer) _ hbuf)).client (serveLayer os layer)
          (PullCmd.init (layerProtSize layer)) s st' s' ∧ st'.out = [] := by
        cases hauth : s.udbAuthOk with
        | false => exact emptyPull_of_closed os layer hauth hbuf
        | true => exact emptyPull_of_auth hauth hfit hfail hbuf
      rw [keeps_iff_of_completes hrun hout]
      exact ⟨fun hbefore => ⟨hbefore, .inl hfit⟩, And.left⟩
    · -- The path fits, but not its terminator: it is only read behind the key.
      have hbuf : (channelHeader .pullFileInit ++ devPath.bytes).length ≤ layerProtSize layer := by
        omega
      cases hauth : s.udbAuthOk with
      | false =>
        obtain ⟨st, s₁, hrun, hout⟩ := emptyPull_of_closed os layer hauth hbuf
        rw [keeps_iff_of_completes hrun hout]
        exact ⟨fun hbefore => ⟨hbefore, .inr ⟨hfull, rfl⟩⟩, And.left⟩
      | true =>
        refine iff_of_false (not_keeps_of_full hauth hfull) fun h => ?_
        rcases h.2 with hfit | ⟨-, hno⟩
        · omega
        · cases hno
    · -- The path does not fit.
      refine iff_of_false (not_keeps_of_long hlong) fun h => ?_
      have hcase := h.2
      omega

/-- A device on which no path can be opened. -/
def nothingOpens : Os := { willing [] [] with fopenRead := fun _ => none }

/-- A file that was empty before. -/
theorem failed_pull_keeps_empty :
    ∃ s', PullFileReturns udbLayerNet nothingOpens true ⟨ascii "f", by decide⟩ (some []) (some [])
      (authed fun _ => none) s' :=
  (failed_pull_keeps_iff udbLayerNet nothingOpens (authed fun _ => none) ⟨ascii "f", by decide⟩ rfl
    true (some [])).1.mpr (.inr ⟨rfl, .inl (by decide)⟩)

/-- The local file holds one byte, and none after the pull has failed. -/
theorem not_failed_pull_keeps :
    ¬ ∀ (layer : UInt8) (os : Os) (s : Server), Reachable s → ∀ devPath : CString,
      os.fopenRead devPath.bytes = none → ∀ (localOpens : Bool) (before : Option Bytes),
        ∃ s', PullFileReturns layer os localOpens devPath before before s s' := by
  intro h
  have hauth : (authed fun _ => none).udbAuthOk = true := rfl
  obtain ⟨s', packet, hp, st', hrun', hbefore⟩ := h udbLayerNet nothingOpens (authed fun _ => none)
    (reachable_authed _) ⟨ascii "f", by decide⟩ rfl true (some [7])
  have hbuf : (channelHeader .pullFileInit ++ ascii "f").length ≤ layerProtSize udbLayerNet := by
    decide
  -- The local file is opened before the device has answered, and stays empty.
  obtain ⟨st, s₁, hrun, hout⟩ := @emptyPull_of_auth nothingOpens udbLayerNet
    ⟨ascii "f", by decide⟩ _ hauth (by decide) rfl hbuf
  obtain rfl := Except.ok.inj ((pullFilePacket_eq hbuf).symm.trans hp)
  rw [← (hrun.unique hrun').1, hout] at hbefore
  cases hbefore

end Udb.Spec
