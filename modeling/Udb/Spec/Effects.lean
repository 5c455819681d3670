import Udb.Native.ClientAuth
import Udb.Spec.Frame
import Udb.Spec.Msh
import Udb.Spec.PullFail
import Udb.Spec.PushFile

/-!
# What a whole command leaves behind

The round trips say what a client gets. Here is what its command leaves on the
device: which files have changed, and what was logged. Each command ends with
requests that nobody else sees, a pull loop or the chunks of a push, and one
induction over the exchanges of a run says what these leave alone.

A server without the key answers nothing. Then the commands still end, with no
output, since each takes the zeros of its own read buffer for the answer.

## Key results

- `pullCmd_unseen`: the loop that three commands share leaves files and log alone
- `pushFile_effect`: a push changes its own file and logs one line
- `closedPull_completes`, `closedPush_completes`: the commands without the key
-/

namespace Udb.Spec

open CMem StopAndWait Udb.Native

variable {os : Os} {layer : UInt8} {s s' : Server}

/-! ## Requests -/

/-- A request keeps the invariant of the server. -/
theorem Inv.request {ok : Bool} {cmd reply : Bytes} (h : Inv ok s)
    (hreq : Native.request os layer cmd s = .ok (s', reply)) : Inv (ok || presentsKey cmd) s' := by
  obtain ⟨⟨s₁, resp⟩, hbridge, hreq⟩ := bind_eq_ok.mp hreq
  obtain ⟨rfl, -⟩ := pure_pair_eq_ok.mp hreq
  exact h.udbDebugBridge hbridge

/-- An authenticated server stays so, with its invariant, over every run that ends. -/
theorem Inv.completes {σ : Type} {cl : Client σ Bytes Bytes} {c c' : σ} (h : Inv true s)
    (hrun : Completes cl (serveLayer os layer) c s c' s') : Inv true s' := by
  refine hrun.invariant (I := fun _ s => Inv true s) ?_ h
  intro c s q s₁ r hs _ hserve
  have h₁ := hs.request (serveLayer_eq_some.mp hserve)
  rwa [Bool.true_or] at h₁

/-- The files and the log are as they were. -/
structure Unseen (s s' : Server) : Prop where
  files : s'.dev.files = s.dev.files
  rlog : s'.rlog = s.rlog

/-- One step after the other. -/
theorem Unseen.trans {s₁ : Server} (h : Unseen s s₁) (h₁ : Unseen s₁ s') : Unseen s s' :=
  ⟨h₁.files.trans h.files, h₁.rlog.trans h.rlog⟩

/-- An answered request, other than that of the key, was dispatched. -/
theorem dispatch_of_request {cmd reply : Bytes} {c : UdbChanId} (hauth : s.udbAuthOk = true)
    (hc : c ≠ .auth) (hchan : cmd[3]? = some c.toByte)
    (h : request os layer cmd s = .ok (s', reply)) :
    ∃ resp, dispatch os c.toByte cmd ⟨Buf.zero (layerProtSize layer), 0⟩ (s.setProtSize layer) =
      .ok (s', resp) := by
  rw [request_of_auth hauth hc hchan] at h
  obtain ⟨⟨s₁, resp⟩, hdisp, h⟩ := bind_eq_ok.mp h
  obtain ⟨rfl, -⟩ := pure_pair_eq_ok.mp h
  exact ⟨resp, hdisp⟩

/-- A pullout is not seen on the device. -/
private theorem request_pullout_unseen (ch : Channel) {cmd reply : Bytes}
    (hauth : s.udbAuthOk = true)
    (hchan : cmd[3]? = some ch.pulloutId.toByte)
    (h : request os layer cmd s = .ok (s', reply)) : Unseen s s' := by
  obtain ⟨resp, hdisp⟩ := dispatch_of_request hauth (by cases ch <;> decide) hchan h
  rw [Channel.dispatch_pulloutId] at hdisp
  rcases handler_frame ch hdisp with rfl | ⟨o, rfl⟩ | rfl
  · exact ⟨rfl, rfl⟩
  · cases ch <;> exact ⟨rfl, rfl⟩
  · cases ch <;> exact ⟨rfl, rfl⟩

/-! ## The pull loop -/

section Pull

variable {p : PullCmd (layerProtSize layer)} {st st' : PullState (layerProtSize layer)}

/-- Behind its first request, a command with the loop sends pullouts only. -/
private theorem chan_of_next {q : Bytes} (hphase : st.phase ≠ .init)
    (h : p.client.next st = .call q) :
    q[3]? = some p.chan.toByte := by
  cases hst : st.phase with
  | init => exact absurd hst hphase
  | pullout =>
    -- Behind its first packet the loop asks for pieces only.
    rw [next_pullout hst] at h
    injection h with hq
    rw [← hq]
    exact getElem?_header _
  | finished =>
    simp only [PullCmd.client, PullCmd.next, hst] at h
    cases h

/-- A reply leads out of the first phase. -/
private theorem phase_recv (p : PullCmd (layerProtSize layer))
    (st : PullState (layerProtSize layer))
    (reply : Option Bytes) : (p.client.recv st reply).phase ≠ .init := by
  cases hst : st.phase with
  | init => simp [PullCmd.client, PullCmd.recv, hst]
  | pullout =>
    simp only [PullCmd.client, PullCmd.recv, hst]
    split <;> simp
  | finished => simp [PullCmd.client, PullCmd.recv, hst]

/-- From behind the first request on, the command is not seen on the device. -/
private theorem pullLoop_unseen (ch : Channel) (hchan : p.chan = ch.pulloutId)
    (hs : s.udbAuthOk = true)
    (hphase : st.phase ≠ .init)
    (hrun : Completes p.client (serveLayer os layer) st s st' s') : Unseen s s' := by
  have hinv := hrun.invariant
    (I := fun c t => c.phase ≠ .init ∧ t.udbAuthOk = true ∧ Unseen s t) ?_
    ⟨hphase, hs, rfl, rfl⟩
  · exact hinv.2.2
  · -- Every pullout keeps files and log, and the loop sends nothing else.
    rintro c t q t₁ r ⟨hc, ht, hsame⟩ hnext hserve
    have hreq := serveLayer_eq_some.mp hserve
    have hq := chan_of_next hc hnext
    rw [hchan] at hq
    have ht₁ : t₁.udbAuthOk = true := exec_auth ht (exec_request_eq_ok.mpr ⟨r, hreq, rfl⟩)
    exact ⟨phase_recv p c _, ht₁, hsame.trans (request_pullout_unseen ch ht hq hreq)⟩

/-- So a whole command leaves what its first request has left. -/
theorem pullCmd_unseen (ch : Channel) (hchan : p.chan = ch.pulloutId) (hs : s.udbAuthOk = true)
    (hrun : Completes p.client (serveLayer os layer) (PullCmd.init (layerProtSize layer)) s
      st' s') :
    ∃ s₁ reply, request os layer p.initPacket.bytes s = .ok (s₁, reply) ∧ Unseen s₁ s' := by
  obtain ⟨s₁, reply, hserve, hrest⟩ := (completes_call_iff (q := p.initPacket.bytes) rfl).mp hrun
  have hreq := serveLayer_eq_some.mp hserve
  have hs₁ : s₁.udbAuthOk = true := exec_auth hs (exec_request_eq_ok.mpr ⟨reply, hreq, rfl⟩)
  exact ⟨s₁, reply, hreq, pullLoop_unseen ch hchan hs₁ (phase_recv p _ _) hrest⟩

end Pull

/-! ## The first requests -/

/-- The line is not a built-in command: it goes to the shell as it is, and nothing is logged. -/
def LeftToShell (line : Bytes) : Prop :=
  ∀ (os : Os) (s : Server), uvcRuncmdInputHandle os line s = .ok (0, s)

/-- What a command for the shell does on the device is up to the shell. -/
theorem request_runcmd_unseen {cmd line out reply : Bytes} (hauth : s.udbAuthOk = true)
    (hchan : cmd[3]? = some UdbChanId.runCmd.toByte) (hcmd : cstrAt cmd 4 = .ok line)
    (hleft : LeftToShell line) (hspawn : os.spawn (popenExec line true) = some out)
    (h : request os layer cmd s = .ok (s', reply)) : Unseen s s' := by
  obtain ⟨resp, hdisp⟩ := dispatch_of_request hauth (by decide) hchan h
  have hhandle : ∀ t, uvcRuncmdInputHandle os line t = .ok (0, t) := hleft os
  simp only [dispatch, UdbChanId.ofByte_toByte, udbDebugRuncmd, udbCmdPkgContentOffset, hcmd,
    ok_bind, hhandle, Int.lt_irrefl, if_false, runcmdShell, uvcPopen, hspawn] at hdisp
  obtain ⟨b, -, hdisp⟩ := bind_eq_ok.mp hdisp
  obtain ⟨r, -, hdisp⟩ := bind_eq_ok.mp hdisp
  obtain ⟨rfl, -⟩ := pure_pair_eq_ok.mp hdisp
  exact ⟨rfl, rfl⟩

/-- Reading the log is not logged. -/
theorem request_msh_unseen {cmd reply : Bytes} (hauth : s.udbAuthOk = true)
    (hchan : cmd[3]? = some UdbChanId.mshCmd.toByte)
    (h : request os layer cmd s = .ok (s', reply)) : Unseen s s' := by
  obtain ⟨resp, hdisp⟩ := dispatch_of_request hauth (by decide) hchan h
  simp only [dispatch, UdbChanId.ofByte_toByte] at hdisp
  obtain ⟨b, ctrl, rfl⟩ := udbDebugMsh_frame hdisp
  exact ⟨rfl, rfl⟩

/-! ## Pushing -/

/-- The line that the server logs for a push. -/
def pushText (path : Bytes) (fileLen : UInt32) : Bytes :=
  path ++ ascii " size is " ++ fmtD fileLen ++ ascii ", 0x" ++ fmtX fileLen ++ ascii "\n"

section Push

variable {path : Bytes} {p : PushCmd (layerProtSize layer)} {st st' : PushState}

/-- The first request truncates the file and logs a line. -/
private theorem request_pushfileInit_effect {ok : Bool} {cmd reply : Bytes} {fileLen : UInt32}
    (hinv : Inv ok s) (hauth : s.udbAuthOk = true)
    (hchan : cmd[3]? = some UdbChanId.pushFileInit.toByte) (hsize : load32 cmd 4 = .ok fileLen)
    (hpath : cstrAt cmd 8 = .ok path) (hopen : os.fopenWrite path = true)
    (h : request os layer cmd s = .ok (s', reply)) :
    s'.dev.files = Function.update s.dev.files path (some []) ∧
      s'.rlog = rlogPrintf s.rlog (pushText path fileLen) ∧
      s'.udbPushfileCtrl.fp = some path := by
  obtain ⟨dev, hclose, -, hfiles⟩ := (hinv.setProtSize layer).pushfileClose
  obtain ⟨resp, hdisp⟩ := dispatch_of_request hauth (by decide) hchan h
  simp only [dispatch, UdbChanId.ofByte_toByte, udbDebugPushfileInit, hclose, hpath, ok_bind,
    hopen, if_true, udbCmdPkgContentOffset, hsize] at hdisp
  obtain ⟨r, -, hdisp⟩ := bind_eq_ok.mp hdisp
  obtain ⟨rfl, -⟩ := pure_pair_eq_ok.mp hdisp
  -- A push that was left open is closed first, which changes no file.
  refine ⟨?_, rfl, rfl⟩
  show Function.update dev.files path (some []) = _
  rw [hfiles]
  rfl

/-- Behind its first request, a push sends chunks and the end of the transfer. -/
private theorem PushCmd.chan_of_next {q : Bytes} (hphase : st.phase ≠ .init)
    (h : p.client.next st = .call q) :
    q[3]? = some UdbChanId.pushFileProc.toByte ∨ q[3]? = some UdbChanId.pushFileFini.toByte := by
  have hp := layerProtSize_bounds layer
  have hhead : ∀ chan, setUdbChannelHeader (Buf.zero (layerProtSize layer)) chan =
      .ok (Buf.fill (layerProtSize layer) (channelHeader chan) (by simp; omega)) :=
    fun chan => setUdbChannelHeader_zero (by omega)
  cases hst : st.phase with
  | init => exact absurd hst hphase
  | proc =>
    simp only [PushCmd.client, PushCmd.next, hst, pushProcPacket_stores, hhead, ok_bind] at h
    -- Both stores are behind the header.
    cases hlen : Buf.memcpy (Buf.fill (layerProtSize layer) (channelHeader .pushFileProc) _) 4
        (procLength (layerProtSize layer) (pushChunkSize (layerProtSize layer) st.leftSize)) with
    | error e =>
      rw [hlen] at h
      cases h
    | ok b =>
      rw [hlen, ok_bind] at h
      cases hdata : b.memcpy (procOffset (layerProtSize layer))
          (pushData (layerProtSize layer) st) with
      | error e =>
        rw [hdata] at h
        cases h
      | ok b' =>
        rw [hdata] at h
        injection h with hq
        have hoff := procOffset_bounds (layerProtSize layer)
        left
        rw [← hq, Buf.getElem?_memcpy hdata (.inl (by omega)),
          Buf.getElem?_memcpy hlen (.inl (by omega)), Buf.bytes_fill]
        rfl
  | fini =>
    simp only [PushCmd.client, PushCmd.next, hst, pushFiniPacket, hhead, callPacket] at h
    injection h with hq
    right
    rw [← hq, Buf.bytes_fill]
    rfl
  | finished =>
    simp only [PushCmd.client, PushCmd.next, hst] at h
    cases h

/-- So it does in a push. -/
private theorem PushCmd.phase_recv (p : PushCmd (layerProtSize layer)) (st : PushState)
    (reply : Option Bytes) : (p.client.recv st reply).phase ≠ .init := by
  cases hst : st.phase with
  | proc =>
    simp only [PushCmd.client, PushCmd.recv, hst]
    split <;> simp
  | init | fini | finished => simp [PushCmd.client, PushCmd.recv, hst]

/-- While a push to `path` is under way, or over: other files and the log are as in `s`. -/
structure PushingTo (path : Bytes) (s t : Server) : Prop where
  auth : t.udbAuthOk = true
  fp : t.udbPushfileCtrl.fp = some path ∨ t.udbPushfileCtrl.fp = none
  files : ∀ other, other ≠ path → t.dev.files other = s.dev.files other
  rlog : t.rlog = s.rlog

/-- A chunk goes to the file, and the end of the transfer closes it. -/
theorem PushingTo.request {t t' : Server} {cmd reply : Bytes} (h : PushingTo path s t)
    (hchan : cmd[3]? = some UdbChanId.pushFileProc.toByte ∨
      cmd[3]? = some UdbChanId.pushFileFini.toByte)
    (hreq : Native.request os layer cmd t = .ok (t', reply)) : PushingTo path s t' := by
  have hauth' : t'.udbAuthOk = true := exec_auth h.auth (exec_request_eq_ok.mpr ⟨reply, hreq, rfl⟩)
  rcases hchan with hchan | hchan
  · obtain ⟨resp, hdisp⟩ := dispatch_of_request h.auth (by decide) hchan hreq
    simp only [dispatch, UdbChanId.ofByte_toByte] at hdisp
    obtain ⟨file, data, hfile, -, -, rfl⟩ := udbDebugPushfileProc_eq_ok.mp hdisp
    -- The data goes into the file that is pushed, and nowhere else.
    obtain rfl : file = path := by
      rcases h.fp with hfp | hfp
      · exact Option.some.inj (hfile.symm.trans hfp)
      · cases hfile.symm.trans hfp
    refine ⟨hauth', h.fp, fun other hne => ?_, h.rlog⟩
    show Function.update t.dev.files file _ other = _
    rw [Function.update_of_ne hne]
    exact h.files other hne
  · obtain ⟨resp, hdisp⟩ := dispatch_of_request h.auth (by decide) hchan hreq
    -- The end of the push closes it.
    simp only [dispatch, UdbChanId.ofByte_toByte] at hdisp
    obtain ⟨file, -, -, rfl⟩ := udbDebugPushfileFini_eq_ok.mp hdisp
    exact ⟨hauth', .inr rfl, h.files, h.rlog⟩

/-- A whole push changes its own file and logs one line. -/
theorem pushFile_effect {ok : Bool} {devPath : CString} {content : Bytes}
    {packet : Buf (layerProtSize layer)} (hinv : Inv ok s) (hauth : s.udbAuthOk = true)
    (hfit : 8 + devPath.bytes.length < layerProtSize layer) (hlen : content.length < 2 ^ 32)
    (hopen : os.fopenWrite devPath.bytes = true) (hwrite : WritesInFull os)
    (hpacket : pushFilePacket (layerProtSize layer) (UInt32.ofNat content.length) devPath =
      .ok packet)
    (hrun : Completes (PushCmd.mk packet).client (serveLayer os layer) (PushCmd.init content) s
      st' s') :
    s'.dev.files = Function.update s.dev.files devPath.bytes (some content) ∧
      s'.rlog = rlogPrintf s.rlog (pushText devPath.bytes (UInt32.ofNat content.length)) := by
  let size := UInt32.ofNat content.length
  have hle : (channelHeader .pushFileInit ++ le32 size ++ devPath.bytes).length ≤
      layerProtSize layer := by
    simp
    omega
  -- The one run that ends has the content in its file.
  obtain ⟨packet', hpacket', st₂, s₂, hrun₂, hfile, -⟩ :=
    pushFile_completes hinv hauth hfit hlen hopen hwrite
  obtain rfl := Except.ok.inj (hpacket.symm.trans hpacket')
  obtain ⟨-, rfl⟩ := hrun.unique hrun₂
  obtain rfl := Except.ok.inj (hpacket.symm.trans (pushFilePacket_eq hle))
  obtain ⟨s₁, reply, hserve, hrest⟩ := (completes_call_iff rfl).mp hrun
  have hreq := serveLayer_eq_some.mp hserve
  have hsize : load32 (padTo (layerProtSize layer)
      (channelHeader .pushFileInit ++ le32 size ++ devPath.bytes)) 4 = .ok size := by
    show load32 (_ ++ _ ++ _ ++ _) 4 = _
    rw [List.append_assoc _ devPath.bytes]
    exact load32_append (channelHeader .pushFileInit) size _
  have hpath : cstrAt (padTo (layerProtSize layer)
      (channelHeader .pushFileInit ++ le32 size ++ devPath.bytes)) 8 = .ok devPath.bytes :=
    cstrAt_padTo (a := channelHeader .pushFileInit ++ le32 size) devPath.nulFree hfit
  have hchan : (padTo (layerProtSize layer)
      (channelHeader .pushFileInit ++ le32 size ++ devPath.bytes))[3]? =
        some UdbChanId.pushFileInit.toByte := by
    rw [List.append_assoc]
    exact getElem?_header _
  obtain ⟨hfiles₁, hrlog₁, hfp₁⟩ :=
    request_pushfileInit_effect hinv hauth hchan hsize hpath hopen hreq
  have hauth₁ : s₁.udbAuthOk = true := exec_auth hauth (exec_request_eq_ok.mpr ⟨reply, hreq, rfl⟩)
  -- Nothing else changes any other file, or is logged.
  obtain ⟨-, hpush⟩ := hrest.invariant
    (I := fun c t => c.phase ≠ .init ∧ PushingTo devPath.bytes s₁ t)
    (fun c t q t₁ r hI hnext hserve => ⟨PushCmd.phase_recv _ c _, hI.2.request
      (PushCmd.chan_of_next hI.1 hnext) (serveLayer_eq_some.mp hserve)⟩)
    ⟨PushCmd.phase_recv _ _ _, hauth₁, .inl hfp₁, fun _ _ => rfl, rfl⟩
  refine ⟨funext fun other => ?_, hpush.rlog.trans hrlog₁⟩
  by_cases hother : other = devPath.bytes
  · rw [hother, hfile, Function.update_self]
  · rw [hpush.files other hother, hfiles₁, Function.update_of_ne hother,
      Function.update_of_ne hother]

end Push

/-! ## Pulling -/

/-- The line that the server logs for a pull of what is at `path`. -/
def pullText (path : Bytes) : Option Bytes → Bytes
  | none => ascii "Error opening input file " ++ path ++ ascii "\n"
  | some content =>
    path ++ ascii " size is " ++ fmtD (UInt32.ofNat content.length) ++ ascii "\n"

/-- A whole pull gets the content of the file, or nothing if there is none. It changes no file and
    logs one line. -/
theorem pullFile_effect {devPath : CString} {file : Option Bytes}
    {packet : Buf (layerProtSize layer)} {st' : PullState (layerProtSize layer)}
    (hauth : s.udbAuthOk = true) (hfit : 4 + devPath.bytes.length < layerProtSize layer)
    (hlen : ∀ content, file = some content → content.length < 2 ^ 32)
    (hopen : os.fopenRead devPath.bytes = file.map fun content => ⟨content.length, content⟩)
    (hmalloc : ∀ n, os.malloc n ≠ none)
    (hpacket : pullFilePacket (layerProtSize layer) devPath = .ok packet)
    (hrun : Completes (pullFile packet).client (serveLayer os layer)
      (PullCmd.init (layerProtSize layer)) s st' s') :
    st'.out = file.getD [] ∧ s'.dev.files = s.dev.files ∧
      s'.rlog = rlogPrintf s.rlog (pullText devPath.bytes file) := by
  have hle : (channelHeader .pullFileInit ++ devPath.bytes).length ≤ layerProtSize layer := by
    simp
    omega
  obtain rfl := Except.ok.inj (hpacket.symm.trans (pullFilePacket_eq hle))
  obtain ⟨s₁, reply, hreq, hunseen⟩ := pullCmd_unseen .pullFile rfl hauth hrun
  have hpath : cstrAt (padTo (layerProtSize layer) (channelHeader .pullFileInit ++ devPath.bytes))
      4 = .ok devPath.bytes := cstrAt_pullFilePacket hfit
  cases file with
  | none =>
    -- The server answers as for an empty file.
    obtain ⟨st₂, s₂, hrun₂, hout⟩ := emptyPull_of_auth hauth hfit hopen hle
    obtain ⟨rfl, rfl⟩ := hrun.unique hrun₂
    have hfailed := request_pullfileInit_failed layer hauth (pullFilePacket_chan hle) hpath hopen
    obtain ⟨rfl, -⟩ := Prod.mk.inj (Except.ok.inj (hreq.symm.trans hfailed))
    exact ⟨hout, hunseen.files, hunseen.rlog⟩
  | some content =>
    have hread : ReadsInFull os devPath.bytes content := ⟨hopen, fun _ => hmalloc _⟩
    obtain ⟨packet₂, hpacket₂, st₂, s₂, hrun₂, hout, -⟩ :=
      pullFile_completes layer devPath hauth hfit (hlen content rfl) hread
    obtain rfl := Except.ok.inj (hpacket.symm.trans hpacket₂)
    obtain ⟨rfl, rfl⟩ := hrun.unique hrun₂
    obtain ⟨block, hblock, -⟩ := readBlock_of_readsInFull hread
    have hopened := request_pullfileInit_eq layer hauth (pullFilePacket_chan hle) hpath hopen
    rw [hblock, ok_bind] at hopened
    obtain ⟨rfl, -⟩ := Prod.mk.inj (Except.ok.inj (hreq.symm.trans hopened))
    exact ⟨hout, hunseen.files, hunseen.rlog⟩

/-! ## Without the key -/

section Closed

/-- Clearing a buffer of zeros leaves it as it was. -/
private theorem write_zeros {n len : Nat} (h : 0 + (List.replicate len (0 : UInt8)).length ≤ n) :
    (Buf.zero n).write 0 (List.replicate len 0) h = Buf.zero n := by
  rw [List.length_replicate, Nat.zero_add] at h
  rw [Buf.ext_iff, Buf.bytes_write, Buf.bytes_zero, List.take_zero, List.nil_append, Nat.zero_add,
    List.length_replicate, List.drop_replicate, List.replicate_append_replicate]
  congr 1
  omega

/-- The one turn of a pull loop without an answer. -/
def closedTurn (layer : UInt8) (out : Bytes) : PullState (layerProtSize layer) :=
  ⟨.pullout, 0, Buf.zero (layerProtSize layer + 1), out⟩

/-- An empty answer to the first request announces nothing. -/
theorem recv_init_closed (p : PullCmd (layerProtSize layer)) (out : Bytes) :
    p.recv { PullCmd.init (layerProtSize layer) with out := out } (some []) =
      closedTurn layer out := by
  have hp := layerProtSize_bounds layer
  -- An empty reply leaves zeros in the buffer, and so the size 0.
  have hsize : getSizeOf (Buf.zero (layerProtSize layer + 1)) = 0 := by
    rw [getSizeOf, Buf.bytes_zero, List.take_replicate, Nat.min_eq_left (by omega)]
    rfl
  show PullState.mk .pullout (getSizeOf (udbCtrlRead (Buf.zero _) (some [])))
    (udbCtrlRead (Buf.zero _) (some [])) out = _
  rw [udbCtrlRead_nil, hsize]
  rfl

/-- Of nothing, nothing is asked for. -/
private theorem chunkSize_zero (layer : UInt8) : chunkSize (layerProtSize layer) 0 = 0 := by
  have hp := layerProtSize_bounds layer
  unfold chunkSize
  rw [if_pos (by rw [UInt32.toNat_zero]; omega)]

/-- The loop then asks for no byte. -/
theorem next_closedTurn (p : PullCmd (layerProtSize layer)) (out : Bytes) :
    p.next (closedTurn layer out) =
      .call (padTo (layerProtSize layer) (channelHeader p.chan ++ le32 0)) := by
  have hphase : (closedTurn layer out).phase = .pullout := rfl
  have h := next_pullout (p := p) hphase
  rw [closedTurn, chunkSize_zero] at h
  exact h

/-- The empty answer ends the loop. -/
theorem recv_closedTurn (p : PullCmd (layerProtSize layer)) (out : Bytes) :
    p.recv (closedTurn layer out) (some []) =
      ⟨.finished, 0, Buf.zero (layerProtSize layer + 1),
        out ++ p.sink (Buf.zero (layerProtSize layer + 1)).bytes 0⟩ := by
  simp only [PullCmd.recv, closedTurn, chunkSize_zero, write_zeros, udbCtrlRead_nil]
  rfl

/-- The commands with the pull loop take the zeros of their own read buffer for the size of an
    empty output. -/
theorem closedPull_completes (os : Os) (layer : UInt8) (hno : s.udbAuthOk = false)
    (p : PullCmd (layerProtSize layer)) {c : UdbChanId} (hc : c ≠ .auth)
    (hinit : p.initPacket.bytes[3]? = some c.toByte) (hchan : p.chan ≠ .auth)
    (hsink : p.sink (Buf.zero (layerProtSize layer + 1)).bytes 0 = []) :
    ∃ st', Completes p.client (serveLayer os layer) (PullCmd.init (layerProtSize layer)) s
      st' (s.setProtSize layer) ∧ st'.out = [] := by
  have hfirst : serveLayer os layer s p.initPacket.bytes = some (s.setProtSize layer, []) :=
    serveLayer_eq_some.mpr (request_of_closed hno hc hinit)
  have hsecond : serveLayer os layer (s.setProtSize layer)
      (padTo (layerProtSize layer) (channelHeader p.chan ++ le32 0)) =
        some (s.setProtSize layer, []) :=
    serveLayer_eq_some.mpr (request_of_closed hno hchan (getElem?_header _))
  have hrecv : p.client.recv (PullCmd.init (layerProtSize layer)) (some []) =
      closedTurn layer [] := recv_init_closed p []
  -- The turn of the loop for nothing is the last one.
  have hlast : p.client.recv (closedTurn layer []) (some []) =
      ⟨.finished, 0, Buf.zero (layerProtSize layer + 1), []⟩ := by
    have h := recv_closedTurn p []
    rw [hsink] at h
    exact h
  have hend : p.client.next (p.client.recv (closedTurn layer []) (some [])) = .finished := by
    rw [hlast]
    rfl
  have hrun := Completes.call (next_closedTurn p []) hsecond (.finished hend)
  rw [← hrecv] at hrun
  exact ⟨_, .call rfl hfirst hrun, by rw [hrecv, hlast]⟩

/-- The chunks of a push are thrown away. -/
private theorem closedProc_completes (os : Os) (layer : UInt8) (p : PushCmd (layerProtSize layer))
    (hno : s.udbAuthOk = false) (st : PushState) (hphase : st.phase = .proc)
    (hleft : st.leftSize.toNat = st.file.length) :
    ∃ st', Completes p.client (serveLayer os layer) st (s.setProtSize layer) st'
      (s.setProtSize layer) := by
  have hp := layerProtSize_bounds layer
  have hoff := procOffset_bounds (layerProtSize layer)
  -- Induction on what is left of the file; only an empty file has a chunk of length 0.
  induction hn : st.file.length using Nat.strong_induction_on generalizing st with
  | _ k ih =>
    have ht := Turn.intro layer hleft
    have hlen := ht.len
    have hchan : (procPacket layer (pushChunkSize (layerProtSize layer) st.leftSize)
        (st.file.take (pushChunkSize (layerProtSize layer) st.leftSize).toNat))[3]? =
          some UdbChanId.pushFileProc.toByte := by
      rw [procPacket, List.append_assoc]
      exact getElem?_header _
    have hserve : serveLayer os layer (s.setProtSize layer) _ = some (s.setProtSize layer, []) :=
      serveLayer_eq_some.mpr (request_of_closed hno (by decide) hchan)
    have hrecv := ht.recv (p := p) hphase hleft (some [])
    by_cases hz : st.file.length = (pushChunkSize (layerProtSize layer) st.leftSize).toNat
    · rw [if_pos hz] at hrecv
      -- The last chunk, and the end of the transfer.
      have hnext : p.client.next (p.client.recv st (some [])) =
          .call (padTo (layerProtSize layer) (channelHeader .pushFileFini)) := by
        rw [hrecv]
        simp only [PushCmd.client, PushCmd.next, pushFiniPacket,
          setUdbChannelHeader_zero (by omega : 4 ≤ layerProtSize layer)]
        rfl
      have hfini : (padTo (layerProtSize layer) (channelHeader .pushFileFini))[3]? =
          some UdbChanId.pushFileFini.toByte := by
        rw [← List.append_nil (channelHeader .pushFileFini)]
        exact getElem?_header _
      have hserve₁ : serveLayer os layer (s.setProtSize layer) _ =
          some (s.setProtSize layer, []) :=
        serveLayer_eq_some.mpr (request_of_closed hno (by decide) hfini)
      refine ⟨_, .call (ht.next hphase) hserve (.call hnext hserve₁ (.finished ?_))⟩
      rw [hrecv]
      rfl
    · rw [if_neg hz] at hrecv
      have hlt := st.leftSize.toNat_lt
      obtain ⟨st', hrun⟩ := ih _ (by rw [hrecv, List.length_drop]; omega)
        (p.client.recv st (some [])) (by rw [hrecv])
        (by
          rw [hrecv, List.length_drop]
          exact UInt32.toNat_ofNat_of_lt' (by show _ < 4294967296; omega)) rfl
      exact ⟨st', .call (ht.next hphase) hserve hrun⟩

/-- A whole push that nobody takes notice of. -/
theorem closedPush_completes (os : Os) (layer : UInt8) (hno : s.udbAuthOk = false)
    {content : Bytes} (hlen : content.length < 2 ^ 32) (p : PushCmd (layerProtSize layer))
    (hinit : p.initPacket.bytes[3]? = some UdbChanId.pushFileInit.toByte) :
    ∃ st', Completes p.client (serveLayer os layer) (PushCmd.init content) s st'
      (s.setProtSize layer) := by
  have hfirst : serveLayer os layer s p.initPacket.bytes = some (s.setProtSize layer, []) :=
    serveLayer_eq_some.mpr (request_of_closed hno (by decide) hinit)
  obtain ⟨st', hrun⟩ := closedProc_completes os layer p hno
    ⟨.proc, UInt32.ofNat content.length, content⟩ rfl (UInt32.toNat_ofNat_of_lt' hlen)
  exact ⟨st', .call rfl hfirst hrun⟩

end Closed

/-! ## Sending the key -/

/-- The packet of `auth` holds the key. -/
theorem authPacket_eq {protSize : Nat} (h : 64 ≤ protSize) :
    ∃ packet, authPacket protSize = .ok packet ∧
      packet.bytes = padTo protSize (channelHeader .auth ++ authKey) := by
  have hle : (channelHeader .auth ++ authCmd).length ≤ protSize := by
    show 20 ≤ protSize
    omega
  have hpacket : authPacket protSize = .ok (Buf.fill protSize _ hle) := by
    rw [authPacket, setUdbChannelHeader_zero (by omega), ok_bind]
    exact Buf.memcpy_fill rfl (by simp; omega) hle
  exact ⟨_, hpacket, rfl⟩

/-- `auth` ends in every state, dumps the answer, and sets the flag and nothing else. -/
theorem auth_completes (os : Os) (layer : UInt8) (driver : Driver) (s : Server)
    {packet : Buf (layerProtSize layer)} (hpacket : authPacket (layerProtSize layer) = .ok packet) :
    ∃ st', Completes (AuthCmd.mk driver packet).client (serveLayer os layer)
        (AuthCmd.init (layerProtSize layer)) s st'
        { s.setProtSize layer with udbAuthOk := true } ∧
      st'.dumped = .ok (padTo (layerProtSize layer) (ascii "AUTHOK")) := by
  have hp := layerProtSize_bounds layer
  obtain ⟨packet', hpacket', hbytes⟩ := authPacket_eq hp.1
  obtain rfl := Except.ok.inj (hpacket.symm.trans hpacket')
  have hchan : packet.bytes[3]? = some UdbChanId.auth.toByte := by
    rw [hbytes]
    exact getElem?_header _
  have hkey : strncmpEq (packet.bytes.drop 4) authKey 16 = true := by
    apply (strncmpEq_iff (b := authKey) (by decide)).mpr
    rw [hbytes, padTo, List.append_assoc]
    rfl
  have hserve := serveLayer_eq_some.mpr (request_auth os layer s hchan hkey)
  let reply := padTo (layerProtSize layer) (ascii "AUTHOK")
  have hlen : reply.length = layerProtSize layer := length_padTo (by
    show 6 ≤ layerProtSize layer
    omega)
  refine ⟨_, .call rfl hserve (.finished rfl), ?_⟩
  -- Every driver reports a whole packet.
  have hread : (bytesReturned driver (layerProtSize layer) (some reply)).toUInt32.toNat =
      layerProtSize layer := by
    have htake : (reply.take (layerProtSize layer)).length = layerProtSize layer := by
      rw [List.length_take, hlen, Nat.min_self]
    have hsize : (UInt64.ofNat (layerProtSize layer)).toUInt32.toNat = layerProtSize layer := by
      rw [UInt64.toNat_toUInt32,
        UInt64.toNat_ofNat_of_lt' (by show _ < 18446744073709551616; omega)]
      omega
    cases driver with
    | v4l2 => exact hsize
    | usbdevfs | udp =>
      show (UInt64.ofNat (reply.take (layerProtSize layer)).length).toUInt32.toNat = _
      rw [htake]
      exact hsize
  have hbuf : (udbCtrlRead (Buf.zero (layerProtSize layer + 1)) (some reply)).bytes =
      reply ++ [0] := bytes_udbCtrlRead (by simp) hlen
  show load (udbCtrlRead (Buf.zero (layerProtSize layer + 1)) (some reply)).bytes 0
    (bytesReturned driver (layerProtSize layer) (some reply)).toUInt32.toNat = _
  rw [hread, hbuf, load_eq_ok (by rw [List.length_append, hlen]; omega), List.drop_zero,
    List.take_left' hlen]

end Udb.Spec
