import Udb.Spec.PullFile
import Udb.Spec.PushFile

/-!
# File transfer over UDP

Requests and replies carry no sequence number and nothing is sent again: the
server acts on every datagram it gets, and the client takes the next one for the
answer. A transfer is therefore right as long as each datagram arrives at most
once and no wait is given up; losses then only leave the client waiting.

## Key results

- `pullFile_udp` and `pushFile_udp`: transfers that get to their end in step
-/

namespace Udb.Spec

open CMem StopAndWait Udb.Native

/-- `pull_file` over UDP, with only `allowed` events, ends with the content of the device file,
    if it gets to its end. -/
def PullsRight (allowed : StopAndWait.Event → Prop) (os : Os) (s : Server) (devPath : CString)
    (content : Bytes) : Prop :=
  ∃ packet, pullFilePacket (layerProtSize udbLayerNet) devPath = .ok packet ∧
    ∀ d, Reaches (pullFile packet).client (serveLayer os udbLayerNet) allowed
        (start (PullCmd.init _) s) d →
      d.Done (pullFile packet).client → d.client.out = content

/-- `push_file` over UDP, with only `allowed` events, leaves the content in the device file, if
    it gets to its end. -/
def PushesRight (allowed : StopAndWait.Event → Prop) (os : Os) (s : Server) (devPath : CString)
    (content : Bytes) : Prop :=
  ∃ packet, pushFilePacket (layerProtSize udbLayerNet) (UInt32.ofNat content.length) devPath =
      .ok packet ∧
    ∀ d, Reaches (PushCmd.mk packet).client (serveLayer os udbLayerNet) allowed
        (start (PushCmd.init content) s) d →
      d.Done (PushCmd.mk packet).client →
      ∃ s', d.server = some s' ∧ s'.dev.files devPath.bytes = some content

/-- Both, from every authenticated state that the server can reach, for every content shorter
    than 4 GiB and every path that fits the first packet with its terminator (a push has the size
    in front of it), if the server's own file operations succeed. -/
def TransfersRight (allowed : StopAndWait.Event → Prop) : Prop :=
  ∀ (os : Os) (s : Server) (devPath : CString) (content : Bytes),
    Reachable s → s.udbAuthOk = true → content.length < 2 ^ 32 →
      (4 + devPath.bytes.length < layerProtSize udbLayerNet → ReadsInFull os devPath.bytes content →
        PullsRight allowed os s devPath content) ∧
      (8 + devPath.bytes.length < layerProtSize udbLayerNet → os.fopenWrite devPath.bytes = true →
        WritesInFull os → PushesRight allowed os s devPath content)

section InStep

variable {os : Os} {s : Server} {devPath : CString} {content : Bytes}

/-- A pull that stays in step has had the lossless run. -/
theorem pullFile_udp (hauth : s.udbAuthOk = true) (hlen : content.length < 2 ^ 32)
    (hfit : 4 + devPath.bytes.length < layerProtSize udbLayerNet)
    (hread : ReadsInFull os devPath.bytes content) : PullsRight InStep os s devPath content := by
  obtain ⟨packet, hpacket, st', s', hrun, hout, -⟩ := pullFile_completes _ _ hauth hfit hlen hread
  refine ⟨packet, hpacket, fun d hreach hdone => ?_⟩
  obtain ⟨s'', -, hrun'⟩ := completes_of_reaches hreach hdone
  rw [(hrun'.unique hrun).1, hout]

/-- A push that stays in step has had the lossless run. -/
theorem pushFile_udp {ok : Bool} (hinv : Inv ok s) (hauth : s.udbAuthOk = true)
    (hlen : content.length < 2 ^ 32)
    (hfit : 8 + devPath.bytes.length < layerProtSize udbLayerNet)
    (hopen : os.fopenWrite devPath.bytes = true) (hwrite : WritesInFull os) :
    PushesRight InStep os s devPath content := by
  obtain ⟨packet, hpacket, st', s', hrun, hfile, -⟩ :=
    pushFile_completes hinv hauth hfit hlen hopen hwrite
  refine ⟨packet, hpacket, fun d hreach hdone => ?_⟩
  obtain ⟨s'', hserver, hrun'⟩ := completes_of_reaches hreach hdone
  rw [(hrun'.unique hrun).2] at hserver
  exact ⟨s', hserver, hfile⟩

end InStep

/-- A transfer that gets to its end is right, whatever the network drops, delays or reorders, as
    long as it duplicates nothing and the client does not give up waiting. -/
theorem transfersRight_inStep : TransfersRight InStep := by
  intro os s devPath content hs hauth hlen
  constructor
  · intro hfit hread
    exact pullFile_udp hauth hlen hfit hread
  · intro hfit hopen hwrite
    exact pushFile_udp (inv_of_reachable hs) hauth hlen hfit hopen hwrite

/-- Such runs exist: the lossless one is one of them. -/
theorem transfersRight_inStep_three :
    ∃ packet d, pullFilePacket (layerProtSize udbLayerNet) ⟨ascii "f", by decide⟩ = .ok packet ∧
      Reaches (pullFile packet).client (serveLayer (willing [1, 0, 3] []) udbLayerNet) InStep
        (start (PullCmd.init _) (authed fun _ => none)) d ∧
      d.Done (pullFile packet).client ∧ d.client.out = [1, 0, 3] := by
  have hread : ReadsInFull (willing [1, 0, 3] []) (ascii "f") [1, 0, 3] :=
    ⟨rfl, fun _ => by simp [willing]⟩
  obtain ⟨packet, hpacket, hright⟩ := (transfersRight_inStep (willing [1, 0, 3] [])
    (authed fun _ => none) ⟨ascii "f", by decide⟩ [1, 0, 3] (reachable_authed _) rfl
    (by decide)).1 (by decide) hread
  -- There is a run without any loss, and it is right like any other.
  obtain ⟨packet', hpacket', st', s', hrun, -⟩ := pullFile_completes udbLayerNet
    (s := authed fun _ => none) ⟨ascii "f", by decide⟩ rfl (by decide) (by decide) hread
  obtain rfl : packet = packet' := Except.ok.inj (hpacket.symm.trans hpacket')
  obtain ⟨hreach, hfin⟩ := reaches_of_completes hrun
  exact ⟨packet, start st' s', hpacket, hreach, ⟨rfl, hfin⟩, hright _ hreach ⟨rfl, hfin⟩⟩

/-! ## Out of step -/

/-- Fewer events, fewer runs. -/
private theorem TransfersRight.anti {a b : StopAndWait.Event → Prop} (hab : ∀ e, a e → b e)
    (h : TransfersRight b) : TransfersRight a := by
  intro os s devPath content hs hauth hlen
  obtain ⟨hpull, hpush⟩ := h os s devPath content hs hauth hlen
  constructor
  · -- A network that does less reaches fewer states.
    intro hfit hread
    obtain ⟨packet, hpacket, hright⟩ := hpull hfit hread
    exact ⟨packet, hpacket, fun d hreach => hright d (hreach.mono hab)⟩
  · intro hfit hopen hwrite
    obtain ⟨packet, hpacket, hright⟩ := hpush hfit hopen hwrite
    exact ⟨packet, hpacket, fun d hreach => hright d (hreach.mono hab)⟩

/-- The events in step, and `e`. -/
def InStepOr (e x : StopAndWait.Event) : Prop := InStep x ∨ x = e

section Counterexample

variable (packet : Buf (layerProtSize udbLayerNet)) (os : Os) {s s₁ : Server}

/-- The reply to a `PULL_FILE_INIT` for a file of one byte. -/
def sizeOne : Bytes := padTo (layerProtSize udbLayerNet) (le32 1)

/-- The client that waits for the one byte. -/
def askedOne (b : Buf (layerProtSize udbLayerNet + 1)) : PullState (layerProtSize udbLayerNet) :=
  ⟨.pullout, 1, b, []⟩

/-- The packet it has sent. -/
def askOne : Bytes := padTo (layerProtSize udbLayerNet) (channelHeader .pullFilePullout ++
  le32 (chunkSize (layerProtSize udbLayerNet) 1))

/-- The size, taken for data: the file gets the first byte of the size field. -/
private theorem deliver_size {b : Buf (layerProtSize udbLayerNet + 1)}
    (hb : b.bytes.drop (layerProtSize udbLayerNet) = [0]) (t : Option Server) (qs : List Bytes) :
    ∃ d, Step (pullFile packet).client (serveLayer os udbLayerNet)
        ⟨askedOne b, true, t, qs, [sizeOne]⟩ .deliver d ∧
      d.Done (pullFile packet).client ∧ d.client.out = [1] := by
  -- One byte is asked for, so the first byte of the reply is taken.
  have hchunk : (1 : UInt32) = chunkSize (layerProtSize udbLayerNet) 1 := by decide
  have hlen : sizeOne.length = layerProtSize udbLayerNet := length_padTo (a := le32 1) (by decide)
  obtain ⟨b', hrecv, -⟩ := recv_pullout (p := pullFile packet) (askedOne b) (.inr rfl) rfl hb hlen
    hchunk
  have hdeliver : Step (pullFile packet).client (serveLayer os udbLayerNet)
      ⟨askedOne b, true, t, qs, [sizeOne]⟩ .deliver
      ⟨(pullFile packet).client.recv (askedOne b) (some sizeOne), false, t, qs, []⟩ :=
    @Step.deliver _ _ _ _ _ _ ⟨_, _, _, qs, [sizeOne]⟩ [] [] _ rfl rfl
  rw [hrecv] at hdeliver
  exact ⟨_, hdeliver, ⟨rfl, by simp [PullCmd.client, PullCmd.next, askedOne]⟩, rfl⟩

/-- The first request is duplicated: its second answer is taken for the data. -/
private theorem pull_duplicateRequest {s₂ : Server}
    (h₁ : serveLayer os udbLayerNet s packet.bytes = some (s₁, sizeOne))
    (h₂ : serveLayer os udbLayerNet s₁ packet.bytes = some (s₂, sizeOne)) :
    ∃ d, Reaches (pullFile packet).client (serveLayer os udbLayerNet)
        (InStepOr .duplicateRequest) (start (PullCmd.init _) s) d ∧
      d.Done (pullFile packet).client ∧ d.client.out = [1] := by
  let cl := (pullFile packet).client
  let serve := serveLayer os udbLayerNet
  let c₀ := PullCmd.init (layerProtSize udbLayerNet)
  let q₀ := packet.bytes
  obtain ⟨b, hrecv, hb⟩ := recv_init (pullFile packet) 1
  have hsend₀ : Step cl serve (start c₀ s) .send ⟨c₀, true, some s, [q₀], []⟩ := .send rfl rfl
  -- Both copies are served, and the second reply arrives where the data is expected.
  have hdup : Step cl serve ⟨c₀, true, some s, [q₀], []⟩ .duplicateRequest
      ⟨c₀, true, some s, [q₀, q₀], []⟩ := .duplicateRequest List.mem_cons_self
  have hserve₀ : Step cl serve ⟨c₀, true, some s, [q₀, q₀], []⟩ .serve
      ⟨c₀, true, some s₁, [q₀], [sizeOne]⟩ :=
    @Step.serve _ _ _ _ cl serve ⟨_, _, _, [q₀, q₀], []⟩ _ _ [] [q₀] q₀ _ rfl rfl h₁
  have hdeliver₀ : Step cl serve ⟨c₀, true, some s₁, [q₀], [sizeOne]⟩ .deliver
      ⟨cl.recv c₀ (some sizeOne), false, some s₁, [q₀], []⟩ :=
    @Step.deliver _ _ _ _ cl serve ⟨_, _, _, [q₀], [sizeOne]⟩ [] [] _ rfl rfl
  rw [show cl.recv c₀ (some sizeOne) = askedOne b from hrecv] at hdeliver₀
  have hsend₁ : Step cl serve ⟨askedOne b, false, some s₁, [q₀], []⟩ .send
      ⟨askedOne b, true, some s₁, [askOne, q₀], []⟩ := .send rfl (next_pullout rfl)
  have hserve₁ : Step cl serve ⟨askedOne b, true, some s₁, [askOne, q₀], []⟩ .serve
      ⟨askedOne b, true, some s₂, [askOne], [sizeOne]⟩ :=
    @Step.serve _ _ _ _ cl serve ⟨_, _, _, [askOne, q₀], []⟩ _ _ [askOne] [] q₀ _ rfl rfl h₂
  obtain ⟨d, hdeliver₁, hdone⟩ := deliver_size packet os hb (some s₂) [askOne]
  exact ⟨d, .tail (.tail (.tail (.tail (.tail (.tail (.single ⟨_, .inl (by decide), hsend₀⟩)
    ⟨_, .inr rfl, hdup⟩) ⟨_, .inl (by decide), hserve₀⟩) ⟨_, .inl (by decide), hdeliver₀⟩)
    ⟨_, .inl (by decide), hsend₁⟩) ⟨_, .inl (by decide), hserve₁⟩)
    ⟨_, .inl (by decide), hdeliver₁⟩, hdone⟩

/-- The first reply is duplicated: its copy is taken for the data. -/
private theorem pull_duplicateReply
    (h₁ : serveLayer os udbLayerNet s packet.bytes = some (s₁, sizeOne)) :
    ∃ d, Reaches (pullFile packet).client (serveLayer os udbLayerNet)
        (InStepOr .duplicateReply) (start (PullCmd.init _) s) d ∧
      d.Done (pullFile packet).client ∧ d.client.out = [1] := by
  let cl := (pullFile packet).client
  let serve := serveLayer os udbLayerNet
  let c₀ := PullCmd.init (layerProtSize udbLayerNet)
  let q₀ := packet.bytes
  obtain ⟨b, hrecv, hb⟩ := recv_init (pullFile packet) 1
  have hsend₀ : Step cl serve (start c₀ s) .send ⟨c₀, true, some s, [q₀], []⟩ := .send rfl rfl
  have hserve₀ : Step cl serve ⟨c₀, true, some s, [q₀], []⟩ .serve
      ⟨c₀, true, some s₁, [], [sizeOne]⟩ :=
    @Step.serve _ _ _ _ cl serve ⟨_, _, _, [q₀], []⟩ _ _ [] [] q₀ _ rfl rfl h₁
  -- The copy of the reply arrives where the data is expected.
  have hdup : Step cl serve ⟨c₀, true, some s₁, [], [sizeOne]⟩ .duplicateReply
      ⟨c₀, true, some s₁, [], [sizeOne, sizeOne]⟩ := .duplicateReply List.mem_cons_self
  have hdeliver₀ : Step cl serve ⟨c₀, true, some s₁, [], [sizeOne, sizeOne]⟩ .deliver
      ⟨cl.recv c₀ (some sizeOne), false, some s₁, [], [sizeOne]⟩ :=
    @Step.deliver _ _ _ _ cl serve ⟨_, _, _, [], [sizeOne, sizeOne]⟩ [] [sizeOne] _ rfl rfl
  rw [show cl.recv c₀ (some sizeOne) = askedOne b from hrecv] at hdeliver₀
  have hsend₁ : Step cl serve ⟨askedOne b, false, some s₁, [], [sizeOne]⟩ .send
      ⟨askedOne b, true, some s₁, [askOne], [sizeOne]⟩ := .send rfl (next_pullout rfl)
  obtain ⟨d, hdeliver₁, hdone⟩ := deliver_size packet os hb (some s₁) [askOne]
  exact ⟨d, .tail (.tail (.tail (.tail (.tail (.single ⟨_, .inl (by decide), hsend₀⟩)
    ⟨_, .inl (by decide), hserve₀⟩) ⟨_, .inr rfl, hdup⟩) ⟨_, .inl (by decide), hdeliver₀⟩)
    ⟨_, .inl (by decide), hsend₁⟩) ⟨_, .inl (by decide), hdeliver₁⟩, hdone⟩

/-- With a size of 0, one more wait ends the pull. -/
private theorem recv_pullout_none (b : Buf (layerProtSize udbLayerNet + 1)) :
    ((pullFile packet).client.recv ⟨.pullout, 0, b, []⟩ none).phase = .finished ∧
      ((pullFile packet).client.recv ⟨.pullout, 0, b, []⟩ none).out = [] := by
  have hchunk : chunkSize (layerProtSize udbLayerNet) 0 = 0 := by decide
  simp [PullCmd.client, PullCmd.recv, hchunk, pullFile, writeReply]

/-- Giving up twice ends every pull with an empty file: the cleared buffer reads as the
    size 0. -/
private theorem pull_giveUp :
    ∃ d, Reaches (pullFile packet).client (serveLayer os udbLayerNet) (InStepOr .giveUp)
        (start (PullCmd.init _) s) d ∧
      d.Done (pullFile packet).client ∧ d.client.out = [] := by
  let cl := (pullFile packet).client
  let serve := serveLayer os udbLayerNet
  let c₁ : PullState (layerProtSize udbLayerNet) := ⟨.pullout, 0, Buf.zero _, []⟩
  let q₁ := padTo (layerProtSize udbLayerNet) (channelHeader .pullFilePullout ++
    le32 (chunkSize (layerProtSize udbLayerNet) 0))
  -- The first wait is given up, and the loop asks for a piece of size 0.
  have hnext : cl.next c₁ = .call q₁ := next_pullout rfl
  obtain ⟨hphase, hout⟩ := recv_pullout_none packet (Buf.zero _)
  have hsend₀ : Step cl serve (start (PullCmd.init _) s) .send
      ⟨PullCmd.init _, true, some s, [packet.bytes], []⟩ := .send rfl rfl
  have hgive₀ : Step cl serve ⟨PullCmd.init _, true, some s, [packet.bytes], []⟩ .giveUp
      ⟨c₁, false, some s, [packet.bytes], []⟩ := .giveUp rfl
  -- The second one as well, and the loop ends.
  have hsend₁ : Step cl serve ⟨c₁, false, some s, [packet.bytes], []⟩ .send
      ⟨c₁, true, some s, [q₁, packet.bytes], []⟩ := .send rfl hnext
  have hgive₁ : Step cl serve ⟨c₁, true, some s, [q₁, packet.bytes], []⟩ .giveUp
      ⟨cl.recv c₁ none, false, some s, [q₁, packet.bytes], []⟩ := .giveUp rfl
  refine ⟨_, .tail (.tail (.tail (.single ⟨_, .inl (by decide), hsend₀⟩) ⟨_, .inr rfl, hgive₀⟩)
    ⟨_, .inl (by decide), hsend₁⟩) ⟨_, .inr rfl, hgive₁⟩, ⟨rfl, ?_⟩, hout⟩
  show PullCmd.next _ (cl.recv c₁ none) = .finished
  simp only [PullCmd.next, cl, c₁, hphase]

end Counterexample

/-- One event out of step is enough to break a transfer: with a file of one byte, the first
    request or its reply is duplicated, or all waits are given up. -/
private theorem not_transfersRight_inStepOr {e : StopAndWait.Event} (he : ¬ InStep e) :
    ¬ TransfersRight (InStepOr e) := by
  intro h
  let os := willing [7] []
  let s := authed fun _ => none
  let devPath : CString := ⟨ascii "f", by decide⟩
  have hread : ReadsInFull os devPath.bytes [7] := ⟨rfl, fun _ => by simp [os, willing]⟩
  have hle : (channelHeader .pullFileInit ++ devPath.bytes).length ≤
      layerProtSize udbLayerNet := by decide
  obtain ⟨packet, hpacket, hright⟩ :=
    (h os s devPath [7] (reachable_authed _) rfl (by decide)).1 (by decide) hread
  obtain rfl := Except.ok.inj ((pullFilePacket_eq hle).symm.trans hpacket)
  have hpath : cstrAt (Buf.fill _ _ hle).bytes 4 = .ok devPath.bytes :=
    cstrAt_padTo (a := channelHeader .pullFileInit) devPath.nulFree (by decide)
  obtain ⟨s₁, hreq₁, hstored⟩ := request_pullfileInit udbLayerNet (s := s) rfl
    (getElem?_header _) hpath (by decide) hread
  obtain ⟨s₂, hreq₂, -⟩ := request_pullfileInit udbLayerNet hstored.auth (getElem?_header _) hpath
    (by decide) hread
  have hwrong : ∀ d : Config (PullState (layerProtSize udbLayerNet)) Server Bytes Bytes,
      Reaches _ _ (InStepOr e) (start (PullCmd.init _) s) d → d.Done _ → d.client.out ≠ [7] →
      False := fun d hreach hdone hne => hne (hright d hreach hdone)
  -- There are three events that are not in step.
  have hcases : e = .duplicateRequest ∨ e = .duplicateReply ∨ e = .giveUp := by
    revert he
    cases e <;> decide
  rcases hcases with rfl | rfl | rfl
  · obtain ⟨d, hreach, hdone, hout⟩ := pull_duplicateRequest (Buf.fill _ _ hle) os
      (congrArg Except.toOption hreq₁) (congrArg Except.toOption hreq₂)
    exact hwrong d hreach hdone (by rw [hout]; decide)
  · obtain ⟨d, hreach, hdone, hout⟩ := pull_duplicateReply (Buf.fill _ _ hle) os
      (congrArg Except.toOption hreq₁)
    exact hwrong d hreach hdone (by rw [hout]; decide)
  · obtain ⟨d, hreach, hdone, hout⟩ := pull_giveUp (Buf.fill _ _ hle) os
    exact hwrong d hreach hdone (by rw [hout]; decide)

/-- Over a network that does anything, transfers go wrong. -/
theorem not_transfersRight : ¬ TransfersRight fun _ => True := by
  intro h
  exact not_transfersRight_inStepOr (e := .duplicateRequest) (by decide)
    (h.anti fun _ _ => trivial)

end Udb.Spec
