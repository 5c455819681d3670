import Udb.Spec.PushOrder

/-!
# Where the bytes of a chunk come from

A `PUSH_FILE_PROC` packet says itself how long its data is, in one byte or in two,
and `udb_debug_pushfile_proc` hands that number to `fwrite` as it stands. The
packet lies in a buffer of the transport, so a number that points past its end
takes what the server keeps behind that buffer into the file, and the peer can pull
the file back.

## Key results

- `procData_memory`: the range that a chunk packet makes the server read
- `chunk_from_packet_iff`: it stays in the packet exactly when the length field does
-/

namespace Udb.Spec

open CMem Udb.Native

/-! ## The range that is read -/

/-- The value of the length field of a chunk packet. -/
def wrlen (protSize : Nat) (packet : Bytes) : Nat :=
  if protSize = udbProtSizeDefault then (packet.getD 4 0).toNat
  else (packet.getD 4 0).toNat + 256 * (packet.getD 5 0).toNat

section Memory

variable {protSize : Nat} {packet behind : Bytes}

/-- The length field is in the packet, and what is behind does not change it. -/
private theorem wrlen_append (h : 5 < packet.length) :
    wrlen protSize (packet ++ behind) = wrlen protSize packet := by
  unfold wrlen
  rw [List.getD_append packet behind 0 4 (by omega), List.getD_append packet behind 0 5 h]

/-- The range that a chunk packet makes the server read, in the memory that starts with it. -/
private theorem procData_eq_load {mem : Bytes} (h : 5 < mem.length) :
    procData protSize mem = load mem (procOffset protSize) (wrlen protSize mem) := by
  unfold procData procOffset wrlen
  split
  · -- A layer of 64 bytes has one byte for the length.
    rw [udbCmdPkgContentOffset, load_one (by omega), ok_bind]
    simp [ofLe]
  · -- The others have two.
    have hlo := (mem.getD 4 0).toNat_lt
    have hhi := (mem.getD 5 0).toNat_lt
    have hval : (UInt16.ofNat (ofLe [mem.getD 4 0, mem.getD 5 0])).toNat =
        (mem.getD 4 0).toNat + 256 * (mem.getD 5 0).toNat := by
      rw [UInt16.toNat_ofNat_of_lt' (by simp only [ofLe, List.foldr]; show _ < 65536; omega)]
      simp [ofLe]
    rw [udbCmdPkgContentOffset, load16, load_two (by omega), Except.map, ok_bind, hval]

/-- The bytes of a chunk are read from the packet on, also behind its end. -/
theorem procData_memory (h : 5 < packet.length) :
    procData protSize (packet ++ behind) =
      load (packet ++ behind) (procOffset protSize) (wrlen protSize packet) := by
  rw [procData_eq_load (by rw [List.length_append]; omega), wrlen_append h]

/-- A range that ends in the packet is a piece of it. -/
private theorem load_append_left {off n : Nat} (h : off + n ≤ packet.length) :
    load (packet ++ behind) off n = .ok ((packet.drop off).take n) := by
  rw [load_eq_ok (by rw [List.length_append]; omega), List.drop_append_of_le_length (by omega),
    List.take_append_of_le_length (by rw [List.length_drop]; omega)]

end Memory

/-! ## One request -/

/-- Whatever `fwrite` does with it, a chunk packet with `behind` after it in memory appends a
    piece of its own data to the open file, and nothing if its length points past its end. -/
def ChunkFromPacket (layer : UInt8) (packet behind path : Bytes) (s : Server) : Prop :=
  ∀ os : Os, ∃ s' reply data, request os layer (packet ++ behind) s = .ok (s', reply) ∧
    s'.dev = s.dev.append path data ∧
    data <:+: packet.drop (procOffset (layerProtSize layer)) ∧
    (layerProtSize layer <
      procOffset (layerProtSize layer) + wrlen (layerProtSize layer) packet → data = [])

/-- Appending shows in the file what is appended. -/
theorem append_inj {d : Device} {path a b : Bytes} (h : d.append path a = d.append path b) :
    a = b := by
  have hfile := congrFun (congrArg Device.files h) path
  simp only [Device.append, Device.call, Function.update_self, Option.some.injEq] at hfile
  exact List.append_cancel_left hfile

/-- A chunk is taken from its packet exactly when its length field says that it ends there: for
    every layer, every state that the server can be in with a push under way, every packet of
    that layer and whatever is behind it in memory. -/
theorem chunk_from_packet_iff (layer : UInt8) (s : Server) (hs : Reachable s) (path : Bytes)
    (hfp : s.udbPushfileCtrl.fp = some path) (packet behind : Bytes)
    (hlen : packet.length = layerProtSize layer)
    (hcmd : packet[3]? = some UdbChanId.pushFileProc.toByte) :
    ChunkFromPacket layer packet behind path s ↔
      procOffset (layerProtSize layer) + wrlen (layerProtSize layer) packet ≤
        layerProtSize layer := by
  have hp := layerProtSize_bounds layer
  have hoff := procOffset_bounds (layerProtSize layer)
  have hauth := auth_of_open hs hfp
  have hchan : (packet ++ behind)[3]? = some UdbChanId.pushFileProc.toByte := by
    rw [List.getElem?_append_left (by omega), hcmd]
  have hread : procData (layerProtSize layer) (packet ++ behind) = load (packet ++ behind)
      (procOffset (layerProtSize layer)) (wrlen (layerProtSize layer) packet) :=
    procData_memory (by omega)
  constructor
  · intro h
    by_contra hout
    -- All of the range is written, so its first byte shows that something was appended.
    obtain ⟨s', reply, data, hreq, hdev, -, hnil⟩ := h (willing [] [])
    obtain ⟨path', data', hfp', hdata, -, rfl⟩ := (request_proc_eq_ok hauth hchan).mp hreq
    obtain rfl := Option.some.inj (hfp.symm.trans hfp')
    rw [hread, load_eq_ok_iff] at hdata
    obtain ⟨hfits, hdata⟩ := hdata
    have heq : data'.take data'.length = data := append_inj hdev
    rw [hnil (by omega), List.take_length] at heq
    have hzero := congrArg List.length (hdata.symm.trans heq)
    rw [List.length_take, List.length_drop, List.length_nil] at hzero
    omega
  · intro hin os
    rw [load_append_left (by omega)] at hread
    refine ⟨_, _, _, (request_proc_eq_ok hauth hchan).mpr ⟨path, _, hfp, hread, rfl, rfl⟩, rfl,
      ?_, fun hout => absurd hin (by omega)⟩
    exact ((List.take_prefix _ _).trans (List.take_prefix _ _)).isInfix

/-- A push to `f` is under way, over the control channel. -/
private theorem exists_open : ∃ s, Reachable s ∧ s.udbPushfileCtrl.fp = some (ascii "f") := by
  let packet := padTo 64 (channelHeader .pushFileInit ++ le32 2 ++ ascii "f")
  have hpath : cstrAt packet 8 = .ok (ascii "f") :=
    cstrAt_padTo (a := channelHeader .pushFileInit ++ le32 2) (by decide) (by decide)
  have hsize : load32 packet 4 = .ok 2 := rfl
  have hopen : (willing [] []).fopenWrite (ascii "f") = true := rfl
  obtain ⟨s, hreq, hrecv⟩ := request_pushfileInit udbLayerDef
    (inv_of_reachable (reachable_authed fun _ => none)) rfl rfl hsize hpath hopen
  exact ⟨s, .step (reachable_authed _) (.request (length_padTo (by decide)) hreq), hrecv.fp⟩

/-- A chunk packet over the control channel that says it carries `n` bytes. -/
def chunkOf (n : UInt8) : Bytes := padTo 64 (channelHeader .pushFileProc ++ [n])

/-- A chunk of two bytes. -/
theorem chunk_from_packet_iff_two :
    ∃ s, ChunkFromPacket udbLayerDef (chunkOf 2) [] (ascii "f") s := by
  obtain ⟨s, hs, hfp⟩ := exists_open
  exact ⟨s, (chunk_from_packet_iff udbLayerDef s hs (ascii "f") hfp (chunkOf 2) [] rfl rfl).mpr
    (by decide)⟩

/-- A packet says that it carries 60 bytes and has room for 59: the byte behind it, whatever the
    server keeps there, goes into the file. -/
theorem not_chunk_from_packet :
    ¬ ∀ (layer : UInt8) (s : Server), Reachable s → ∀ path : Bytes,
      s.udbPushfileCtrl.fp = some path → ∀ packet behind : Bytes,
        packet.length = layerProtSize layer →
        packet[3]? = some UdbChanId.pushFileProc.toByte →
          ChunkFromPacket layer packet behind path s := by
  intro h
  obtain ⟨s, hs, hfp⟩ := exists_open
  have hchan : (chunkOf 60 ++ [42])[3]? = some UdbChanId.pushFileProc.toByte := rfl
  obtain ⟨s', reply, data, hreq, hdev, -, hnil⟩ :=
    h udbLayerDef s hs (ascii "f") hfp (chunkOf 60) [42] rfl rfl (willing [] [])
  obtain ⟨path, data', hfp', hdata, -, rfl⟩ :=
    (request_proc_eq_ok (auth_of_open hs hfp) hchan).mp hreq
  obtain rfl := Option.some.inj (hfp.symm.trans hfp')
  -- The length says 60 where 59 bytes are left, so the byte behind the packet is read.
  have hread : procData 64 (chunkOf 60 ++ [42]) = .ok (List.replicate 59 0 ++ [42]) := rfl
  obtain rfl := Except.ok.inj (hread.symm.trans hdata)
  have heq : List.replicate 59 0 ++ [42] = data := append_inj hdev
  rw [hnil (by decide)] at heq
  cases heq

end Udb.Spec
