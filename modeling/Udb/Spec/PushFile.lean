import Udb.Spec.PullLoop
import Udb.Spec.Reach

/-!
# Pushing a file

`push_file` cuts the local file into chunks whose length field has one byte in the
small packets and two in the others, and the server decodes each packet with its
own copy of the protocol size. `Receiving` says how much of the file has arrived;
a chunk moves it on, and the last request closes the stream.

## Key results

- `procData_packet`: the server reads back the chunk that the client has packed
- `procLoop_completes`: from any turn the loop ends with the rest of the file
  appended to the device file
-/

namespace Udb.Spec

open CMem StopAndWait Udb.Native

/-! ## Chunks -/

section Chunks

variable {protSize : Nat}

/-- Where the data of a chunk packet starts. -/
def procOffset (protSize : Nat) : Nat := if protSize = udbProtSizeDefault then 5 else 6

/-- The length field of a chunk packet. -/
def procLength (protSize : Nat) (cpSize : UInt16) : Bytes :=
  if protSize = udbProtSizeDefault then [UInt8.ofNat cpSize.toNat] else le16 cpSize

/-- The length of a chunk takes one byte or two, as the layer has it. -/
theorem length_procLength (protSize : Nat) (cpSize : UInt16) :
    (channelHeader .pushFileProc ++ procLength protSize cpSize).length = procOffset protSize := by
  unfold procLength procOffset
  split <;> simp

/-- A full chunk fills the packet. -/
private theorem toNat_pushMaxPkgSize (layer : UInt8) :
    (pushMaxPkgSize (layerProtSize layer)).toNat =
      layerProtSize layer - procOffset (layerProtSize layer) := by
  rcases layerProtSize_cases layer with h | h | h <;> rw [h] <;> rfl

/-- The chunk size is not cut by the 16-bit variable that holds it. -/
theorem toNat_pushChunkSize (layer : UInt8) (leftSize : UInt32) :
    (pushChunkSize (layerProtSize layer) leftSize).toNat =
      min leftSize.toNat (layerProtSize layer - procOffset (layerProtSize layer)) := by
  have hp := layerProtSize_bounds layer
  have hmax := toNat_pushMaxPkgSize layer
  unfold pushChunkSize
  split
  · rename_i hlt
    rw [UInt16.toNat_ofNat_of_lt' (by show _ < 65536; omega)]
    omega
  · omega

/-- Nor is it cut by the one-byte variable of the small packets. -/
theorem pushReadSize_pushChunkSize (layer : UInt8) (leftSize : UInt32) :
    pushReadSize (layerProtSize layer) (pushChunkSize (layerProtSize layer) leftSize) =
      (pushChunkSize (layerProtSize layer) leftSize).toNat := by
  have hc := toNat_pushChunkSize layer leftSize
  unfold pushReadSize
  split
  · rename_i hdef
    have h64 : layerProtSize layer = 64 := hdef
    rw [UInt8.toNat_ofNat_of_lt' (by show _ < 256; omega)]
  · rfl

variable {cpSize : UInt16} {data : Bytes}

/-- Both layouts are a header, a length field and the data, one behind the other. -/
theorem pushProcPacket_stores (protSize : Nat) (cpSize : UInt16) (data : Bytes) :
    pushProcPacket protSize cpSize data = (do
      let writeBuf ← setUdbChannelHeader (Buf.zero protSize) .pushFileProc
      let writeBuf ← writeBuf.memcpy 4 (procLength protSize cpSize)
      writeBuf.memcpy (procOffset protSize) data) := by
  unfold pushProcPacket procLength procOffset
  split <;> rfl

/-- The packet of a chunk. -/
theorem pushProcPacket_eq
    (h : (channelHeader .pushFileProc ++ procLength protSize cpSize ++ data).length ≤ protSize) :
    pushProcPacket protSize cpSize data = .ok (Buf.fill protSize _ h) := by
  have hlen := length_procLength protSize cpSize
  have hle : procOffset protSize + data.length ≤ protSize := by
    rw [← hlen, ← List.length_append]
    exact h
  have h4 : 4 ≤ protSize := by
    unfold procOffset at hle
    split at hle <;> omega
  -- Header, length and data are stored one behind the other.
  rw [pushProcPacket_stores, setUdbChannelHeader_zero h4, ok_bind,
    Buf.memcpy_fill (length_channelHeader _) h4 (by rw [hlen]; omega), ok_bind]
  exact Buf.memcpy_fill hlen _ h

/-- The server reads back the chunk that the client has packed, in either layout. -/
theorem procData_packet (hlen : data.length = cpSize.toNat)
    (hone : protSize = udbProtSizeDefault → cpSize.toNat < 256) (b : Bytes) :
    procData protSize (channelHeader .pushFileProc ++ procLength protSize cpSize ++ data ++ b) =
      .ok data := by
  unfold procData procLength
  split
  · -- One byte, in which the length of a chunk in the small packets fits.
    rename_i hdef
    have hbyte : (UInt8.ofNat cpSize.toNat).toNat = data.length := by
      rw [UInt8.toNat_ofNat_of_lt' (hone hdef), hlen]
    have hfield :
        load (channelHeader .pushFileProc ++ [UInt8.ofNat cpSize.toNat] ++ data ++ b) 4 1 =
          .ok [UInt8.ofNat cpSize.toNat] := by
      rw [load_eq_ok (by simp; omega), List.append_assoc, List.append_assoc]
      rfl
    have hval : ofLe [UInt8.ofNat cpSize.toNat] = data.length := by
      rw [ofLe, List.foldr_cons, List.foldr_nil, hbyte]
      omega
    show (load _ 4 1 >>= fun wrlen => load _ 5 (ofLe wrlen)) = _
    rw [hfield, ok_bind, hval, load_eq_ok (by simp; omega), List.append_assoc _ data]
    exact congrArg Except.ok List.take_left
  · -- Two bytes.
    have hfield : load16 (channelHeader .pushFileProc ++ le16 cpSize ++ data ++ b) 4 =
        .ok cpSize := by
      rw [List.append_assoc _ data]
      exact load16_append (channelHeader .pushFileProc) cpSize _
    show (load16 _ 4 >>= fun wrlen => load _ 6 wrlen.toNat) = _
    rw [hfield, ok_bind, ← hlen, load_eq_ok (by simp; omega), List.append_assoc _ data]
    exact congrArg Except.ok List.take_left

end Chunks

/-! ## The server's side -/

/-- Every `fwrite` reaches the file in full. -/
def WritesInFull (os : Os) : Prop := ∀ data : Bytes, data.length ≤ os.fwrite data

/-- A push to `path` is under way: the stream is open, it is the only one, and `done` is what
    the file holds. -/
structure Receiving (s : Server) (path done : Bytes) : Prop where
  auth : s.udbAuthOk = true
  fp : s.udbPushfileCtrl.fp = some path
  streams : s.dev.streams = [path]
  file : s.dev.files path = some done

section Server

variable {os : Os} {layer : UInt8} {cmd path done : Bytes} {s : Server}

/-- `PUSH_FILE_INIT` truncates the file and leaves its stream as the only open one, also when
    an earlier push was never finished. -/
theorem request_pushfileInit (layer : UInt8) {ok : Bool} (hinv : Inv ok s)
    (hauth : s.udbAuthOk = true)
    (hcmd : cmd[3]? = some UdbChanId.pushFileInit.toByte) {fileLen : UInt32}
    (hsize : load32 cmd 4 = .ok fileLen) (hpath : cstrAt cmd 8 = .ok path)
    (hopen : os.fopenWrite path = true) :
    ∃ s₁, request os layer cmd s = .ok (s₁, padTo (layerProtSize layer) (ascii "INITOK")) ∧
      Receiving s₁ path [] := by
  -- The stream that an earlier push has left open is closed first.
  obtain ⟨dev, hclose, hstreams, -⟩ := (hinv.setProtSize layer).pushfileClose
  let opened : Server := { s.setProtSize layer with
    udbPushfileCtrl := ⟨some path⟩, dev := dev.openWrite path }
  let s₁ := opened.printf
    (path ++ ascii " size is " ++ fmtD fileLen ++ ascii ", 0x" ++ fmtX fileLen ++ ascii "\n")
  refine ⟨s₁, ?_, hauth, rfl, ?_, ?_⟩
  · have hans := answer_short layer (b := ascii "INITOK") (by decide)
      (s.udbProtSize_setProtSize layer)
    rw [request_of_auth hauth (by decide) hcmd]
    simp only [dispatch, UdbChanId.ofByte_toByte, udbDebugPushfileInit, hclose, hpath, ok_bind,
      hopen, if_true, udbCmdPkgContentOffset, hsize]
    show (Resp.answer _ _ (s.setProtSize layer).udbProtSize >>= _) >>= _ = _
    rw [hans, ok_bind, pure_eq_ok, ok_bind, sent_fill]
    rfl
  · show path :: dev.streams = [path]
    rw [hstreams]
  · exact Function.update_self path _ _

/-- `PUSH_FILE_PROC` appends the chunk. -/
private theorem request_pushfileProc (layer : UInt8) (h : Receiving s path done) {data : Bytes}
    (hcmd : cmd[3]? = some UdbChanId.pushFileProc.toByte)
    (hdata : procData (layerProtSize layer) cmd = .ok data) (hwrite : WritesInFull os) :
    ∃ s₁, request os layer cmd s = .ok (s₁, padTo (layerProtSize layer) (ascii "PROCOK")) ∧
      Receiving s₁ path (done ++ data) := by
  let s₁ : Server := { s.setProtSize layer with dev := s.dev.append path data }
  -- `fwrite` writes all of the data.
  have hfw : fwriteFp os data (s.setProtSize layer) = .ok s₁ := by
    unfold fwriteFp
    rw [show (s.setProtSize layer).udbPushfileCtrl.fp = some path from h.fp]
    dsimp only
    rw [List.take_of_length_le (hwrite data)]
    rfl
  refine ⟨s₁, ?_, h.auth, h.fp, h.streams, ?_⟩
  · have hans := answer_short layer (b := ascii "PROCOK") (by decide)
      (s.udbProtSize_setProtSize layer)
    rw [request_of_auth h.auth (by decide) hcmd]
    simp only [dispatch, UdbChanId.ofByte_toByte, udbDebugPushfileProc,
      Server.udbProtSize_setProtSize, hdata, ok_bind, hfw]
    show (Resp.answer _ _ (s.setProtSize layer).udbProtSize >>= _) >>= _ = _
    rw [hans, ok_bind, pure_eq_ok, ok_bind, sent_fill]
    rfl
  · -- The file has it behind what it had.
    show Function.update s.dev.files path _ path = _
    rw [Function.update_self, h.file, Option.getD_some]

/-- `PUSH_FILE_FINI` closes the stream. -/
private theorem request_pushfileFini (os : Os) (layer : UInt8) (h : Receiving s path done)
    (hcmd : cmd[3]? = some UdbChanId.pushFileFini.toByte) :
    ∃ s₁, request os layer cmd s = .ok (s₁, padTo (layerProtSize layer) (ascii "FINIOK")) ∧
      s₁.dev.files path = some done ∧ s₁.udbPushfileCtrl.fp = none ∧ s₁.dev.streams = [] := by
  let s₁ : Server := { s.setProtSize layer with
    udbPushfileCtrl := ⟨none⟩, dev := s.dev.close path }
  refine ⟨s₁, ?_, h.file, rfl, ?_⟩
  · have hans := answer_short layer (b := ascii "FINIOK") (by decide)
      (s.udbProtSize_setProtSize layer)
    rw [request_of_auth h.auth (by decide) hcmd]
    simp only [dispatch, UdbChanId.ofByte_toByte, udbDebugPushfileFini]
    rw [show (s.setProtSize layer).udbPushfileCtrl.fp = some path from h.fp]
    show (Resp.answer _ _ (s.setProtSize layer).udbProtSize >>= _) >>= _ = _
    rw [hans, ok_bind, pure_eq_ok, ok_bind, sent_fill]
    rfl
  · -- The stream of the push was the only one.
    show s.dev.streams.erase path = []
    rw [h.streams, List.erase_cons_head]

end Server

/-! ## The loop -/

section Loop

variable {layer : UInt8} {os : Os} {p : PushCmd (layerProtSize layer)} {path done : Bytes}
  {st : PushState} {s : Server}

/-- The packet of one turn. -/
def procPacket (layer : UInt8) (c : UInt16) (data : Bytes) : Bytes :=
  padTo (layerProtSize layer)
    (channelHeader .pushFileProc ++ procLength (layerProtSize layer) c ++ data)

/-- One turn takes the next chunk of the file, as much as a packet holds. -/
structure Turn (layer : UInt8) (st : PushState) (c : UInt16) : Prop where
  size : c = pushChunkSize (layerProtSize layer) st.leftSize
  len : c.toNat = min st.file.length (layerProtSize layer - procOffset (layerProtSize layer))

/-- Each turn of the loop sends what its size says. -/
theorem Turn.intro (layer : UInt8) (hleft : st.leftSize.toNat = st.file.length) :
    Turn layer st (pushChunkSize (layerProtSize layer) st.leftSize) :=
  ⟨rfl, by rw [toNat_pushChunkSize, hleft]⟩

variable {c : UInt16}

/-- The data of a chunk is behind five bytes or six. -/
theorem procOffset_bounds (protSize : Nat) : 5 ≤ procOffset protSize ∧ procOffset protSize ≤ 6 := by
  unfold procOffset
  split <;> omega

/-- As much is read from the file as is sent. -/
private theorem Turn.readSize (ht : Turn layer st c) : pushReadSize
    (layerProtSize layer) c = c.toNat := by
  rw [ht.size]
  exact pushReadSize_pushChunkSize layer _

/-- In the loop a chunk is sent. -/
theorem Turn.next (ht : Turn layer st c) (hphase : st.phase = .proc) :
    p.client.next st = .call (procPacket layer c (st.file.take c.toNat)) := by
  have hp := layerProtSize_bounds layer
  have hoff := procOffset_bounds (layerProtSize layer)
  have hlen := ht.len
  -- What the client reads at once fits its packet.
  have hfit : (channelHeader .pushFileProc ++ procLength (layerProtSize layer) c ++
      st.file.take c.toNat).length ≤ layerProtSize layer := by
    rw [List.length_append, length_procLength, List.length_take]
    omega
  simp only [PushCmd.client, PushCmd.next, hphase, pushData, ← ht.size, ht.readSize]
  rw [pushProcPacket_eq hfit]
  rfl

/-- Behind it the rest of the file is left, whatever the reply was. -/
theorem Turn.recv (ht : Turn layer st c) (hphase : st.phase = .proc)
    (hleft : st.leftSize.toNat = st.file.length) (reply : Option Bytes) :
    p.client.recv st reply =
      ⟨if st.file.length = c.toNat then .fini else .proc,
        UInt32.ofNat (st.file.length - c.toNat), st.file.drop c.toNat⟩ := by
  have hlt := st.leftSize.toNat_lt
  have hlen := ht.len
  -- The size that is left goes down by what was sent, and does not wrap.
  have hsub : st.leftSize - UInt32.ofNat c.toNat = UInt32.ofNat (st.file.length - c.toNat) := by
    have hcu : (UInt32.ofNat c.toNat).toNat = c.toNat :=
      UInt32.toNat_ofNat_of_lt' (by show _ < 4294967296; omega)
    rw [← UInt32.toNat_inj, UInt32.toNat_sub_of_le _ _ (by rw [UInt32.le_iff_toNat_le]; omega),
      hcu, hleft, UInt32.toNat_ofNat_of_lt' (by show _ < 4294967296; omega)]
  -- So it is 0 exactly if the file has been sent.
  have hzero : UInt32.ofNat (st.file.length - c.toNat) = 0 ↔ st.file.length = c.toNat := by
    rw [← UInt32.toNat_inj, UInt32.toNat_ofNat_of_lt' (by show _ < 4294967296; omega),
      UInt32.toNat_zero]
    omega
  simp only [PushCmd.client, PushCmd.recv, hphase, ← ht.size, ht.readSize, hsub, hzero]

/-- One turn, served. -/
theorem Turn.serve (ht : Turn layer st c) (hwrite : WritesInFull os) (h : Receiving s path done) :
    ∃ s₁, serveLayer os layer s (procPacket layer c (st.file.take c.toNat)) =
        some (s₁, padTo (layerProtSize layer) (ascii "PROCOK")) ∧
      Receiving s₁ path (done ++ st.file.take c.toNat) := by
  have hlen := ht.len
  -- The server finds the length where the client has stored it.
  have hcmd : (procPacket layer c (st.file.take c.toNat))[3]? =
      some UdbChanId.pushFileProc.toByte := by
    rw [procPacket, List.append_assoc]
    exact getElem?_header _
  -- One byte for it is enough in packets of 64 bytes.
  have hone : layerProtSize layer = udbProtSizeDefault → c.toNat < 256 := by
    intro hdef
    have h64 : layerProtSize layer = 64 := hdef
    omega
  have hdata : procData (layerProtSize layer) (procPacket layer c (st.file.take c.toNat)) =
      .ok (st.file.take c.toNat) :=
    procData_packet (by rw [List.length_take]; omega) hone _
  obtain ⟨s₁, hreq, h₁⟩ := request_pushfileProc layer h hcmd hdata hwrite
  exact ⟨s₁, serveLayer_eq_some.mpr hreq, h₁⟩

/-- The last request. -/
private theorem fini_completes (p : PushCmd (layerProtSize layer)) (os : Os)
    (hphase : st.phase = .fini)
    (h : Receiving s path done) :
    ∃ st' s', Completes p.client (serveLayer os layer) st s st' s' ∧
      s'.dev.files path = some done ∧ s'.udbPushfileCtrl.fp = none ∧ s'.dev.streams = [] := by
  have hp := layerProtSize_bounds layer
  have hcmd : (padTo (layerProtSize layer) (channelHeader .pushFileFini))[3]? =
      some UdbChanId.pushFileFini.toByte := by
    rw [← List.append_nil (channelHeader .pushFileFini)]
    exact getElem?_header _
  obtain ⟨s₁, hreq, hres⟩ := request_pushfileFini os layer h hcmd
  -- The last packet is a header with zeros behind it.
  have hnext : p.client.next st = .call (padTo (layerProtSize layer)
      (channelHeader .pushFileFini)) := by
    simp only [PushCmd.client, PushCmd.next, hphase, pushFiniPacket,
      setUdbChannelHeader_zero (by omega : 4 ≤ layerProtSize layer)]
    rfl
  refine ⟨p.client.recv st _, s₁, .call hnext (serveLayer_eq_some.mpr hreq) (.finished ?_), hres⟩
  simp only [PushCmd.client, PushCmd.recv, hphase, PushCmd.next]

/-- The loop ends, with the rest of the local file behind what had arrived. -/
theorem procLoop_completes (p : PushCmd (layerProtSize layer)) (hwrite : WritesInFull os)
    (st : PushState) (s : Server) (hphase : st.phase = .proc)
    (hleft : st.leftSize.toNat = st.file.length) (h : Receiving s path done) :
    ∃ st' s', Completes p.client (serveLayer os layer) st s st' s' ∧
      s'.dev.files path = some (done ++ st.file) ∧ s'.udbPushfileCtrl.fp = none ∧
      s'.dev.streams = [] := by
  have hp := layerProtSize_bounds layer
  have hoff := procOffset_bounds (layerProtSize layer)
  -- Induction on what is left of the file; only an empty file has a chunk of length 0.
  induction hn : st.file.length using Nat.strong_induction_on generalizing st s done with
  | _ k ih =>
    obtain ⟨c, ht⟩ : ∃ c, Turn layer st c := ⟨_, Turn.intro layer hleft⟩
    have hlen := ht.len
    obtain ⟨s₁, hserve, h₁⟩ := ht.serve hwrite h
    have hrecv := ht.recv (p := p) hphase hleft
      (some (padTo (layerProtSize layer) (ascii "PROCOK")))
    by_cases hz : st.file.length = c.toNat
    · rw [if_pos hz] at hrecv
      obtain ⟨st', s', hrun, hres⟩ := fini_completes p os (congrArg PushState.phase hrecv) h₁
      rw [List.take_of_length_le hz.le] at hres
      exact ⟨st', s', .call (ht.next hphase) hserve hrun, hres⟩
    · rw [if_neg hz] at hrecv
      have hlt := st.leftSize.toNat_lt
      obtain ⟨st', s', hrun, hres⟩ := ih (st.file.drop c.toNat).length
        (by rw [List.length_drop]; omega) _ s₁ (congrArg PushState.phase hrecv)
        (by
          rw [hrecv]
          dsimp only
          rw [List.length_drop, UInt32.toNat_ofNat_of_lt' (by show _ < 4294967296; omega)])
        h₁ (by rw [hrecv])
      rw [hrecv, List.append_assoc, List.take_append_drop] at hres
      exact ⟨st', s', .call (ht.next hphase) hserve hrun, hres⟩

end Loop

/-! ## The whole command -/

/-- The first packet of a push, when the path fits. -/
theorem pushFilePacket_eq {protSize : Nat} {fileSize : UInt32} {devPath : CString}
    (h : (channelHeader .pushFileInit ++ le32 fileSize ++ devPath.bytes).length ≤ protSize) :
    pushFilePacket protSize fileSize devPath = .ok (Buf.fill protSize _ h) := by
  have h8 : (channelHeader .pushFileInit ++ le32 fileSize).length ≤ protSize := by
    rw [List.length_append] at h
    omega
  have h4 : 4 ≤ protSize := by simp at h8; omega
  rw [pushFilePacket, setUdbChannelHeader_zero h4, ok_bind,
    Buf.memcpy_fill (length_channelHeader _) h4 h8, ok_bind]
  exact Buf.memcpy_fill rfl h8 h

/-- `push_file` ends with the content in the device file and no stream open. -/
theorem pushFile_completes {layer : UInt8} {os : Os} {s : Server} {devPath : CString}
    {content : Bytes} {ok : Bool} (hinv : Inv ok s) (hauth : s.udbAuthOk = true)
    (hfit : 8 + devPath.bytes.length < layerProtSize layer) (hlen : content.length < 2 ^ 32)
    (hopen : os.fopenWrite devPath.bytes = true) (hwrite : WritesInFull os) :
    ∃ packet, pushFilePacket (layerProtSize layer) (UInt32.ofNat content.length) devPath =
        .ok packet ∧
      ∃ st' s', Completes (PushCmd.mk packet).client (serveLayer os layer) (PushCmd.init content)
          s st' s' ∧
        s'.dev.files devPath.bytes = some content ∧ s'.udbPushfileCtrl.fp = none ∧
        s'.dev.streams = [] := by
  let size := UInt32.ofNat content.length
  have hle : (channelHeader .pushFileInit ++ le32 size ++ devPath.bytes).length ≤
      layerProtSize layer := by
    simp
    omega
  refine ⟨_, pushFilePacket_eq hle, ?_⟩
  -- The server reads the size and the path back from the first packet.
  let packet := padTo (layerProtSize layer)
    (channelHeader .pushFileInit ++ le32 size ++ devPath.bytes)
  have hcmd : packet[3]? = some UdbChanId.pushFileInit.toByte := by
    show (padTo _ (_ ++ _ ++ _))[3]? = _
    rw [List.append_assoc]
    exact getElem?_header _
  have hsize : load32 packet 4 = .ok size := by
    show load32 (_ ++ _ ++ _ ++ _) 4 = _
    rw [List.append_assoc _ devPath.bytes]
    exact load32_append (channelHeader .pushFileInit) size _
  have hpath : cstrAt packet 8 = .ok devPath.bytes :=
    cstrAt_padTo (a := channelHeader .pushFileInit ++ le32 size) devPath.nulFree hfit
  obtain ⟨s₁, hreq, h₁⟩ := request_pushfileInit layer hinv hauth hcmd hsize hpath hopen
  -- Then all of the content is still to be sent.
  obtain ⟨st', s', hrun, hres⟩ := procLoop_completes (PushCmd.mk (Buf.fill _ _ hle)) hwrite
    ⟨.proc, size, content⟩ s₁ rfl (UInt32.toNat_ofNat_of_lt' hlen) h₁
  exact ⟨st', s', .call rfl (by rw [serveLayer]; exact congrArg Except.toOption hreq) hrun, hres⟩

/-- A pushed file arrives whole, and no stream stays open: from every authenticated state that
    the server can reach, also one where an earlier push was abandoned, for every layer, every
    path that fits the first packet and every content, if the opens and writes succeed. -/
theorem pushFile_round_trip (layer : UInt8) (os : Os) (s : Server) (hs : Reachable s)
    (hauth : s.udbAuthOk = true) (devPath : CString)
    (hfit : 8 + devPath.bytes.length < layerProtSize layer)
    (content : Bytes) (hlen : content.length < 2 ^ 32)
    (hopen : os.fopenWrite devPath.bytes = true) (hwrite : WritesInFull os) :
    ∃ packet, pushFilePacket (layerProtSize layer) (UInt32.ofNat content.length) devPath =
        .ok packet ∧
      ∃ st' s', Completes (PushCmd.mk packet).client (serveLayer os layer) (PushCmd.init content)
          s st' s' ∧
        s'.dev.files devPath.bytes = some content ∧ s'.udbPushfileCtrl.fp = none ∧
        s'.dev.streams = [] :=
  pushFile_completes (inv_of_reachable hs) hauth hfit hlen hopen hwrite

/-- A file of three bytes. -/
theorem pushFile_round_trip_three :
    ∃ packet, pushFilePacket (layerProtSize udbLayerNet) 3 ⟨ascii "f", by decide⟩ = .ok packet ∧
      ∃ st' s', Completes (PushCmd.mk packet).client (serveLayer (willing [] []) udbLayerNet)
          (PushCmd.init [1, 0, 3]) (authed fun _ => none) st' s' ∧
        s'.dev.files (ascii "f") = some [1, 0, 3] ∧ s'.udbPushfileCtrl.fp = none ∧
        s'.dev.streams = [] :=
  pushFile_round_trip udbLayerNet (willing [] []) (authed fun _ => none) (reachable_authed _) rfl
    ⟨ascii "f", by decide⟩ (by decide) [1, 0, 3] (by decide) rfl fun _ => Nat.le_refl _

end Udb.Spec
