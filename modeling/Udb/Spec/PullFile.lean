import Udb.Spec.PullLoop
import Udb.Spec.Reach

/-!
# Pulling a file

`udb_debug_pullfile_init` drops whatever an earlier pull left, reads the file into
a fresh block and announces its size; `pull_file` then gets exactly these bytes.
-/

namespace Udb.Spec

open CMem StopAndWait Udb.Native

/-- The server can open `path` and reads all of `content` from it: `fstat` reports its length,
    the block is allocated (nothing is needed for an empty file) and `fread` delivers it. -/
structure ReadsInFull (os : Os) (path content : Bytes) : Prop where
  opens : os.fopenRead path = some ⟨content.length, content⟩
  allocates : content ≠ [] → os.malloc content.length ≠ none

/-- The content of a file that is read in full is in the block. -/
theorem readBlock_of_readsInFull {os : Os} {path content : Bytes}
    (h : ReadsInFull os path content) :
    ∃ block, readBlock os ⟨content.length, content⟩ = .ok block ∧
      (content ≠ [] → block = some content) := by
  cases hm : os.malloc content.length with
  | none =>
    have hnil : content = [] := by
      by_contra hne
      exact h.allocates hne hm
    subst hnil
    exact ⟨none, by simp_all [readBlock], fun hne => absurd rfl hne⟩
  | some garbage => exact ⟨some content, by simp [readBlock, hm], fun _ => rfl⟩

/-- The state that `PULL_FILE_INIT` leaves for a file it can open. -/
def pulled (layer : UInt8) (path : Bytes) (f : ReadFile) (block : Option Bytes) (s : Server) :
    Server :=
  { ((s.setProtSize layer).call (.fopenRead path)).printf
      (path ++ ascii " size is " ++ fmtD (UInt32.ofNat f.stSize) ++ ascii "\n") with
    udbPullfileCtrl := ⟨block, UInt32.ofNat f.stSize, 0⟩ }

/-- `PULL_FILE_INIT` on a file that can be opened announces what `fstat` says of it. -/
theorem request_pullfileInit_eq {os : Os} (layer : UInt8) {cmd path : Bytes} {s : Server}
    (hauth : s.udbAuthOk = true) (hcmd : cmd[3]? = some UdbChanId.pullFileInit.toByte)
    (hpath : cstrAt cmd 4 = .ok path) {f : ReadFile} (hopen : os.fopenRead path = some f) :
    request os layer cmd s = readBlock os f >>= fun block => .ok (pulled layer path f block s,
      padTo (layerProtSize layer) (le32 (UInt32.ofNat f.stSize))) := by
  have hread : pullfileRead os path ((s.setProtSize layer).call (.fopenRead path)) =
      readBlock os f >>= fun block => .ok (pulled layer path f block s) := by
    rw [pullfileRead, hopen]
    rfl
  rw [request_of_auth hauth (by decide) hcmd]
  simp only [dispatch, UdbChanId.ofByte_toByte, udbDebugPullfileInit, hpath, ok_bind, hread]
  cases readBlock os f with
  | error e => rfl
  | ok block =>
    -- The size is announced, whatever could be read.
    have hans := answer_short layer (length_le32_short (UInt32.ofNat f.stSize))
      (rfl : (pulled layer path f block s).udbProtSize = _)
    rw [ok_bind, ok_bind]
    show (Resp.answer _ (le32 (UInt32.ofNat f.stSize)) _ >>= _) >>= _ = _
    rw [hans, ok_bind, pure_eq_ok, ok_bind, sent_fill]
    rfl

/-- `PULL_FILE_INIT` on a file that is read in full stores and announces it, whatever the
    controller held. -/
theorem request_pullfileInit {os : Os} (layer : UInt8) {cmd path content : Bytes} {s : Server}
    (hauth : s.udbAuthOk = true) (hcmd : cmd[3]? = some UdbChanId.pullFileInit.toByte)
    (hpath : cstrAt cmd 4 = .ok path) (hlen : content.length < 2 ^ 32)
    (hread : ReadsInFull os path content) :
    ∃ s₁, request os layer cmd s =
        .ok (s₁, padTo (layerProtSize layer) (le32 (UInt32.ofNat content.length))) ∧
      Stored .pullFile s₁ content := by
  obtain ⟨block, hblock, hcontent⟩ := readBlock_of_readsInFull hread
  have hreq := request_pullfileInit_eq layer hauth hcmd hpath hread.opens
  rw [hblock, ok_bind] at hreq
  refine ⟨_, hreq, Stored.intro hauth rfl rfl hlen fun hne => ⟨[], ?_⟩⟩
  rw [List.append_nil]
  exact hcontent hne

/-- A pull writes what is in the replies. -/
theorem sinkOf_pullFile {layer : UInt8} (packet : Buf (layerProtSize layer)) (content : Bytes) :
    SinkOf layer (pullFile packet) content := by
  intro data _ _
  simp [pullFile, writeReply, padTo, List.append_assoc]

/-- The first packet of a pull, when the path fits. -/
theorem pullFilePacket_eq {protSize : Nat} {devPath : CString}
    (h : (channelHeader .pullFileInit ++ devPath.bytes).length ≤ protSize) :
    pullFilePacket protSize devPath = .ok (Buf.fill protSize _ h) := by
  have h4 : 4 ≤ protSize := by simp at h; omega
  rw [pullFilePacket, setUdbChannelHeader_zero h4, ok_bind]
  exact Buf.memcpy_fill rfl h4 h

/-- `pull_file` ends with the content in its output, from every authenticated state. -/
theorem pullFile_completes (layer : UInt8) {os : Os} {s : Server} (devPath : CString)
    {content : Bytes} (hauth : s.udbAuthOk = true)
    (hfit : 4 + devPath.bytes.length < layerProtSize layer) (hlen : content.length < 2 ^ 32)
    (hread : ReadsInFull os devPath.bytes content) :
    ∃ packet, pullFilePacket (layerProtSize layer) devPath = .ok packet ∧
      ∃ st' s', Completes (pullFile packet).client (serveLayer os layer)
        (PullCmd.init (layerProtSize layer)) s st' s' ∧ st'.out = content ∧
        Channel.pullFile.Empty s' := by
  have hle : (channelHeader .pullFileInit ++ devPath.bytes).length ≤ layerProtSize layer := by
    simp
    omega
  have hpath : cstrAt (padTo (layerProtSize layer)
      (channelHeader .pullFileInit ++ devPath.bytes)) 4 = .ok devPath.bytes :=
    cstrAt_padTo (a := channelHeader .pullFileInit) devPath.nulFree hfit
  refine ⟨_, pullFilePacket_eq hle, ?_⟩
  -- The first request stores the content, and the loop pulls all of it.
  obtain ⟨s₁, hinit, hstored⟩ := request_pullfileInit layer hauth
    (getElem?_header _) hpath hlen hread
  exact pullCmd_completes .pullFile (p := pullFile (Buf.fill _ _ hle)) rfl (.inr rfl)
    (sinkOf_pullFile _ content) hlen hinit hstored

/-- A pulled file arrives whole, and the server keeps nothing of it: from every authenticated
    state, whatever earlier sessions left in it, for every layer, every path that fits the first
    packet, and every content that the server opens and reads in full under that path. -/
theorem pullFile_round_trip (layer : UInt8) (os : Os) (s : Server) (hauth : s.udbAuthOk = true)
    (devPath : CString) (hfit : 4 + devPath.bytes.length < layerProtSize layer)
    (content : Bytes) (hlen : content.length < 2 ^ 32)
    (hread : ReadsInFull os devPath.bytes content) :
    ∃ packet, pullFilePacket (layerProtSize layer) devPath = .ok packet ∧
      ∃ st' s', Completes (pullFile packet).client (serveLayer os layer)
        (PullCmd.init (layerProtSize layer)) s st' s' ∧
        st'.out = content ∧
        s'.udbPullfileCtrl.usedSize = 0 ∧ s'.udbPullfileCtrl.cpOffset = 0 ∧
        s'.udbPullfileCtrl.pullout = none := by
  obtain ⟨packet, hpacket, st', s', hrun, hout, hused, hcp, hnull⟩ :=
    pullFile_completes layer devPath hauth hfit hlen hread
  exact ⟨packet, hpacket, st', s', hrun, hout, hused, hcp, hnull rfl⟩

/-- A file of three bytes. -/
theorem pullFile_round_trip_three :
    ∃ packet, pullFilePacket (layerProtSize udbLayerDef) ⟨ascii "f", by decide⟩ = .ok packet ∧
      ∃ st' s', Completes (pullFile packet).client (serveLayer (willing [1, 0, 3] []) udbLayerDef)
        (PullCmd.init (layerProtSize udbLayerDef)) (authed fun _ => none) st' s' ∧
        st'.out = [1, 0, 3] ∧
        s'.udbPullfileCtrl.usedSize = 0 ∧ s'.udbPullfileCtrl.cpOffset = 0 ∧
        s'.udbPullfileCtrl.pullout = none :=
  pullFile_round_trip udbLayerDef (willing [1, 0, 3] []) (authed fun _ => none) rfl
    ⟨ascii "f", by decide⟩ (by decide) [1, 0, 3] (by decide) ⟨rfl, fun _ => by simp [willing]⟩

end Udb.Spec
