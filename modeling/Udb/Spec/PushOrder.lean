import Udb.Spec.Frame
import Udb.Spec.PushFile

/-!
# The order of push requests

`PUSH_FILE_INIT` opens a stream, `PUSH_FILE_PROC` writes to it and
`PUSH_FILE_FINI` closes it. The requests can come in any order: the server does
not refuse one, and `push_file` does not look at the answer to its first. A
request that finds no open stream hands a null pointer to `fwrite` or `fclose`.

## Key results

- `exec_proc`, `exec_fini`: with an open stream a request acts on it, without one
  it does not return
- `push_acts_on_open_iff`: the requests act on an open stream only, exactly when
  each of them finds one
-/

namespace Udb.Spec

open CMem Udb.Native

/-! ## Requests -/

/-- The three requests of a push. -/
inductive PushKind where
  | init
  | proc
  | fini
  deriving DecidableEq, Repr

/-- The channel of a request. -/
def PushKind.chanId : PushKind → UdbChanId
  | init => .pushFileInit
  | proc => .pushFileProc
  | fini => .pushFileFini

/-- A push request, as a transport hands it over. -/
structure PushRequest where
  kind : PushKind
  os : Os
  layer : UInt8
  cmd : Bytes
  size : cmd.length = layerProtSize layer
  chan : cmd[3]? = some kind.chanId.toByte

namespace PushRequest

def event (q : PushRequest) : Event := .request q.os q.layer q.cmd

/-- The path that is open behind a request, if `opened` was open before it: that of the latest
    `INIT`, if it could be opened and no `FINI` has followed. -/
def after (q : PushRequest) (opened : Option Bytes) : Option Bytes :=
  match q.kind with
  | .init =>
    match cstrAt q.cmd 8 with
    | .ok path => if q.os.fopenWrite path then some path else none
    | .error _ => none
  | .proc => opened
  | .fini => none

/-- The path of an `INIT` is terminated in its packet, and the data of a `PROC` lies in it. -/
def InPacket (q : PushRequest) : Prop :=
  match q.kind with
  | .init => ∃ path, cstrAt q.cmd 8 = .ok path
  | .proc => ∃ data, procData (layerProtSize q.layer) q.cmd = .ok data
  | .fini => True

/-- A chunk is written to the open file and the end closes it. Without an open file, neither
    touches the device or answers that it has done so. -/
def ActsOn (q : PushRequest) (opened : Option Bytes) (s : Server) : Prop :=
  match q.kind, opened with
  | .init, _ => True
  | .proc, some path =>
    ∀ s' o, exec q.event s = .ok (s', o) → ∃ data, s'.dev = s.dev.append path data
  | .fini, some path => ∀ s' o, exec q.event s = .ok (s', o) → s'.dev = s.dev.close path
  | _, none =>
    ∃ s' reply, exec q.event s = .ok (s', some reply) ∧ s'.dev = s.dev ∧
      ¬ ascii "PROCOK" <+: reply ∧ ¬ ascii "FINIOK" <+: reply

end PushRequest

/-- Each request of a run acts on the file that the requests before it have left open. -/
def ActsOnOpen : Option Bytes → List PushRequest → Server → Prop
  | _, [], _ => True
  | opened, q :: qs, s =>
    q.ActsOn opened s ∧ ∀ s' o, exec q.event s = .ok (s', o) → ActsOnOpen (q.after opened) qs s'

/-- Each `PROC` and each `FINI` comes when a file is open. A request that reaches outside its
    packet is the last. -/
def InOrder : Option Bytes → List PushRequest → Prop
  | _, [] => True
  | opened, q :: qs =>
    (q.kind = .init ∨ opened ≠ none) ∧ (q.InPacket → InOrder (q.after opened) qs)

/-! ## One request -/

section Request

variable {q : PushRequest} {s s' : Server} {o : Option Bytes}

/-- A request of a push is a call of its handler. -/
private theorem PushRequest.exec_eq (hauth : s.udbAuthOk = true) :
    exec q.event s = dispatch q.os q.kind.chanId.toByte q.cmd
      ⟨Buf.zero (layerProtSize q.layer), 0⟩ (s.setProtSize q.layer) >>= fun p =>
        pure (p.1, some p.2.sent) := by
  have hno : q.kind.chanId ≠ .auth := by cases q.kind <;> decide
  simp only [PushRequest.event, exec, request_of_auth hauth hno q.chan]
  cases dispatch q.os q.kind.chanId.toByte q.cmd ⟨Buf.zero (layerProtSize q.layer), 0⟩
    (s.setProtSize q.layer) <;> rfl

/-- What the handler does, the request does. -/
private theorem PushRequest.exec_eq_ok (hauth : s.udbAuthOk = true) :
    exec q.event s = .ok (s', o) ↔ ∃ r, dispatch q.os q.kind.chanId.toByte q.cmd
      ⟨Buf.zero (layerProtSize q.layer), 0⟩ (s.setProtSize q.layer) = .ok (s', r) ∧
        o = some r.sent := by
  rw [PushRequest.exec_eq hauth]
  constructor
  · intro h
    obtain ⟨⟨s₁, r⟩, hdisp, h⟩ := bind_eq_ok.mp h
    obtain ⟨rfl, rfl⟩ := pure_pair_eq_ok.mp h
    exact ⟨r, hdisp, rfl⟩
  · rintro ⟨r, hdisp, rfl⟩
    rw [hdisp, ok_bind, pure_eq_ok]

/-- `INIT` returns if its path is terminated. -/
private theorem exec_init_returns (hkind : q.kind = .init) (hauth : s.udbAuthOk = true)
    (hin : q.InPacket) : ∃ s' o, exec q.event s = .ok (s', o) := by
  have hp := layerProtSize_bounds q.layer
  obtain ⟨path, hpath⟩ : ∃ path, cstrAt q.cmd 8 = .ok path := by
    simpa only [PushRequest.InPacket, hkind] using hin
  obtain ⟨dev, hclose⟩ := pushfileClose_frame (s.setProtSize q.layer)
  have hload : ∃ fileLen, load32 q.cmd udbCmdPkgContentOffset = .ok fileLen := by
    have hfour : udbCmdPkgContentOffset + 4 ≤ q.cmd.length := by
      rw [q.size, udbCmdPkgContentOffset]
      omega
    exact ⟨_, congrArg (Except.map _) (load_eq_ok hfour)⟩
  obtain ⟨fileLen, hload⟩ := hload
  have hok := answer_short q.layer (b := ascii "INITOK") (by decide) rfl
  have hno := answer_short q.layer (b := ascii "INITNO") (by decide) rfl
  -- Whatever the handler answers, it is sent.
  suffices h : ∃ s' r, dispatch q.os q.kind.chanId.toByte q.cmd
      ⟨Buf.zero (layerProtSize q.layer), 0⟩ (s.setProtSize q.layer) = .ok (s', r) by
    obtain ⟨s', r, h⟩ := h
    exact ⟨s', _, (PushRequest.exec_eq_ok hauth).mpr ⟨r, h, rfl⟩⟩
  rw [hkind]
  simp only [PushKind.chanId, dispatch, UdbChanId.ofByte_toByte, udbDebugPushfileInit, hclose,
    hpath, hload, ok_bind]
  by_cases hopen : q.os.fopenWrite path = true
  · rw [if_pos hopen]
    exact ⟨_, _, bind_eq_ok.mpr ⟨_, hok, rfl⟩⟩
  · rw [if_neg hopen]
    exact ⟨_, _, bind_eq_ok.mpr ⟨_, hno, rfl⟩⟩

/-- With an open stream a chunk is written to it, from wherever its packet points. -/
theorem request_proc_eq_ok {os : Os} {layer : UInt8} {cmd reply : Bytes}
    (hauth : s.udbAuthOk = true) (hcmd : cmd[3]? = some UdbChanId.pushFileProc.toByte) :
    request os layer cmd s = .ok (s', reply) ↔ ∃ path data, s.udbPushfileCtrl.fp = some path ∧
      procData (layerProtSize layer) cmd = .ok data ∧
      reply = padTo (layerProtSize layer) (ascii "PROCOK") ∧
      s' = { s.setProtSize layer with
        dev := s.dev.append path (data.take (os.fwrite data)) } := by
  have hans := answer_short layer (b := ascii "PROCOK") (by decide) rfl
  rw [request_of_auth hauth (by decide) hcmd]
  simp only [dispatch, UdbChanId.ofByte_toByte]
  constructor
  · -- The answer fits every packet, so only stream and data decide.
    intro h
    obtain ⟨⟨s₁, r⟩, hproc, h⟩ := bind_eq_ok.mp h
    obtain ⟨rfl, rfl⟩ := pure_pair_eq_ok.mp h
    obtain ⟨path, data, hfp, hdata, hr, rfl⟩ := udbDebugPushfileProc_eq_ok.mp hproc
    obtain rfl := Except.ok.inj (hans.symm.trans hr)
    exact ⟨path, data, hfp, hdata, by rw [sent_fill], rfl⟩
  · rintro ⟨path, data, hfp, hdata, rfl, rfl⟩
    have hproc : udbDebugPushfileProc os cmd ⟨Buf.zero (layerProtSize layer), 0⟩
        (s.setProtSize layer) = .ok (_, _) :=
      udbDebugPushfileProc_eq_ok.mpr ⟨path, data, hfp, hdata, hans, rfl⟩
    rw [hproc, ok_bind, pure_eq_ok, sent_fill]
    rfl

/-- With an open stream `PROC` returns if its data lies in the packet, and writes to the stream;
    without one it does not return. -/
theorem exec_proc (hkind : q.kind = .proc) (hauth : s.udbAuthOk = true) :
    exec q.event s = .ok (s', o) ↔ ∃ path data, s.udbPushfileCtrl.fp = some path ∧
      procData (layerProtSize q.layer) q.cmd = .ok data ∧
      o = some (padTo (layerProtSize q.layer) (ascii "PROCOK")) ∧
      s' = { s.setProtSize q.layer with
        dev := s.dev.append path (data.take (q.os.fwrite data)) } := by
  have hcmd := q.chan
  rw [hkind] at hcmd
  rw [PushRequest.event, exec_request_eq_ok]
  constructor
  · -- A request of the run is one of the bridge, with its reply.
    rintro ⟨reply, hreq, rfl⟩
    obtain ⟨path, data, hfp, hdata, rfl, rfl⟩ := (request_proc_eq_ok hauth hcmd).mp hreq
    exact ⟨path, data, hfp, hdata, rfl, rfl⟩
  · rintro ⟨path, data, hfp, hdata, rfl, rfl⟩
    exact ⟨_, (request_proc_eq_ok hauth hcmd).mpr ⟨path, data, hfp, hdata, rfl, rfl⟩, rfl⟩

/-- With an open stream `FINI` closes it; without one it does not return. -/
theorem exec_fini (hkind : q.kind = .fini) (hauth : s.udbAuthOk = true) :
    exec q.event s = .ok (s', o) ↔ ∃ path, s.udbPushfileCtrl.fp = some path ∧
      o = some (padTo (layerProtSize q.layer) (ascii "FINIOK")) ∧
      s' = { s.setProtSize q.layer with
        udbPushfileCtrl := ⟨none⟩, dev := s.dev.close path } := by
  have hans := answer_short q.layer (b := ascii "FINIOK") (by decide) rfl
  rw [PushRequest.exec_eq_ok hauth, hkind]
  simp only [PushKind.chanId, dispatch, UdbChanId.ofByte_toByte]
  constructor
  · rintro ⟨r, hfini, rfl⟩
    obtain ⟨path, hfp, hr, rfl⟩ := udbDebugPushfileFini_eq_ok.mp hfini
    obtain rfl := Except.ok.inj (hans.symm.trans hr)
    exact ⟨path, hfp, by rw [sent_fill], rfl⟩
  · rintro ⟨path, hfp, rfl, rfl⟩
    exact ⟨_, udbDebugPushfileFini_eq_ok.mpr ⟨path, hfp, hans, rfl⟩, by rw [sent_fill]⟩

/-- A request that returns has stayed in its packet, and leaves open what the order of requests
    says. -/
private theorem exec_push (hauth : s.udbAuthOk = true) (h : exec q.event s = .ok (s', o)) :
    q.InPacket ∧ s'.udbAuthOk = true ∧
      s'.udbPushfileCtrl.fp = q.after s.udbPushfileCtrl.fp := by
  cases hkind : q.kind with
  | init =>
    rw [PushRequest.exec_eq_ok hauth, hkind] at h
    obtain ⟨r, hdisp, -⟩ := h
    simp only [PushKind.chanId, dispatch, UdbChanId.ofByte_toByte] at hdisp
    -- A new push closes the old one and opens its own path, or none.
    obtain ⟨path, rlog, dev, hpath, rfl⟩ := udbDebugPushfileInit_frame hdisp
    refine ⟨?_, hauth, by simp only [PushRequest.after, hkind, hpath]⟩
    simp only [PushRequest.InPacket, hkind]
    exact ⟨path, hpath⟩
  | proc =>
    -- Data leaves the stream as it is.
    obtain ⟨path, data, -, hdata, -, rfl⟩ := (exec_proc hkind hauth).mp h
    refine ⟨?_, hauth, by simp only [PushRequest.after, hkind]; rfl⟩
    simp only [PushRequest.InPacket, hkind]
    exact ⟨data, hdata⟩
  | fini =>
    -- The end leaves none.
    obtain ⟨path, -, -, rfl⟩ := (exec_fini hkind hauth).mp h
    refine ⟨?_, hauth, by simp only [PushRequest.after, hkind]⟩
    simp only [PushRequest.InPacket, hkind]

/-- A request that stays in its packet and finds an open stream, if it needs one, returns. -/
private theorem exec_push_returns (hauth : s.udbAuthOk = true) (hin : q.InPacket)
    (hopen : q.kind = .init ∨ s.udbPushfileCtrl.fp ≠ none) :
    ∃ s' o, exec q.event s = .ok (s', o) := by
  cases hkind : q.kind with
  | init => exact exec_init_returns hkind hauth hin
  | proc =>
    -- Data needs an open stream, and must lie inside its packet.
    obtain ⟨path, hfp⟩ : ∃ path, s.udbPushfileCtrl.fp = some path := by
      simpa [hkind, Option.ne_none_iff_exists'] using hopen
    obtain ⟨data, hdata⟩ : ∃ data, procData (layerProtSize q.layer) q.cmd = .ok data := by
      simpa only [PushRequest.InPacket, hkind] using hin
    exact ⟨_, _, (exec_proc hkind hauth).mpr ⟨path, data, hfp, hdata, rfl, rfl⟩⟩
  | fini =>
    -- The end needs an open stream.
    obtain ⟨path, hfp⟩ : ∃ path, s.udbPushfileCtrl.fp = some path := by
      simpa [hkind, Option.ne_none_iff_exists'] using hopen
    exact ⟨_, _, (exec_fini hkind hauth).mpr ⟨path, hfp, rfl, rfl⟩⟩

/-- One request acts on the open file only, exactly when it finds one if it needs one. -/
private theorem actsOn_iff (hauth : s.udbAuthOk = true) :
    q.ActsOn s.udbPushfileCtrl.fp s ↔ q.kind = .init ∨ s.udbPushfileCtrl.fp ≠ none := by
  cases hkind : q.kind with
  | init => simp [PushRequest.ActsOn, hkind]
  | proc =>
    cases hfp : s.udbPushfileCtrl.fp with
    | none =>
      -- `fwrite` gets a null pointer, so there is no reply at all.
      simp [PushRequest.ActsOn, hkind, exec_proc hkind hauth, hfp]
    | some path =>
      simp only [PushRequest.ActsOn, hkind, exec_proc hkind hauth, hfp]
      simp only [reduceCtorEq, ne_eq, not_false_eq_true, or_true, iff_true]
      rintro s' o ⟨path', data, hpath, -, -, rfl⟩
      obtain rfl := Option.some.inj hpath
      exact ⟨_, rfl⟩
  | fini =>
    cases hfp : s.udbPushfileCtrl.fp with
    | none =>
      -- So does `fclose`.
      simp [PushRequest.ActsOn, hkind, exec_fini hkind hauth, hfp]
    | some path =>
      simp only [PushRequest.ActsOn, hkind, exec_fini hkind hauth, hfp]
      simp only [reduceCtorEq, ne_eq, not_false_eq_true, or_true, iff_true]
      rintro s' o ⟨path', hpath, -, rfl⟩
      obtain rfl := Option.some.inj hpath
      rfl

end Request

/-! ## The result -/

/-- A run of push requests on an authenticated server, whatever an earlier push has left open,
    acts on open files only exactly when each `PROC` and each `FINI` comes while one is open. -/
theorem push_acts_on_open_iff (s : Server) (hauth : s.udbAuthOk = true) (qs : List PushRequest) :
    ActsOnOpen s.udbPushfileCtrl.fp qs s ↔ InOrder s.udbPushfileCtrl.fp qs := by
  induction qs generalizing s with
  | nil => exact Iff.rfl
  | cons q qs ih =>
    rw [ActsOnOpen, InOrder, actsOn_iff hauth]
    apply and_congr_right
    intro hopen
    constructor
    · -- The request is handled, so what holds behind it is about the requests that follow.
      intro h hin
      obtain ⟨s', o, hexec⟩ := exec_push_returns hauth hin hopen
      obtain ⟨-, hauth', hfp⟩ := exec_push hauth hexec
      have hrest := h s' o hexec
      rw [← hfp] at hrest ⊢
      exact (ih s' hauth').mp hrest
    · -- A request that was handled lies inside its packet.
      intro h s' o hexec
      obtain ⟨hin, hauth', hfp⟩ := exec_push hauth hexec
      have hrest := h hin
      rw [← hfp] at hrest ⊢
      exact (ih s' hauth').mpr hrest

/-- The first request of `push_file` for a file of two bytes. -/
def initOfTwo (os : Os) : PushRequest :=
  ⟨.init, os, udbLayerDef, padTo 64 (channelHeader .pushFileInit ++ le32 2 ++ ascii "f"), rfl, rfl⟩

/-- All three of its requests. -/
def pushOfTwo (os : Os) : List PushRequest :=
  [initOfTwo os,
    ⟨.proc, os, udbLayerDef, padTo 64 (channelHeader .pushFileProc ++ [2, 104, 105]), rfl, rfl⟩,
    ⟨.fini, os, udbLayerDef, padTo 64 (channelHeader .pushFileFini), rfl, rfl⟩]

/-- The first chunk of a file that was opened. -/
theorem push_acts_on_open_two :
    ActsOnOpen none (pushOfTwo (willing [] [])) (authed fun _ => none) := by
  have hopen : (initOfTwo (willing [] [])).after none ≠ none := Option.some_ne_none (ascii "f")
  have horder : InOrder none (pushOfTwo (willing [] [])) :=
    ⟨.inl rfl, fun _ => ⟨.inr hopen, fun _ => ⟨.inr hopen, fun _ => trivial⟩⟩⟩
  exact (push_acts_on_open_iff (authed fun _ => none) rfl (pushOfTwo (willing [] []))).mpr horder

/-- The path cannot be opened, and `push_file` goes on: its next request does not return. -/
theorem not_push_acts_on_open :
    ¬ ∀ (s : Server) (qs : List PushRequest), s.udbAuthOk = true →
      ActsOnOpen s.udbPushfileCtrl.fp qs s := by
  intro h
  let denying : Os := { willing [] [] with fopenWrite := fun _ => false }
  have hauth : (authed fun _ => none).udbAuthOk = true := rfl
  obtain ⟨-, hrest⟩ := h (authed fun _ => none) (pushOfTwo denying) hauth
  obtain ⟨s₁, o, hinit⟩ := exec_init_returns (q := initOfTwo denying) rfl hauth ⟨ascii "f", rfl⟩
  obtain ⟨-, hauth₁, hfp⟩ := exec_push hauth hinit
  -- `INITNO` was answered, so nothing is open when the chunk comes.
  obtain ⟨⟨s₂, reply, hproc, -⟩, -⟩ := hrest s₁ o hinit
  obtain ⟨path, data, hopen, -⟩ := (exec_proc rfl hauth₁).mp hproc
  rw [hfp] at hopen
  cases hopen

end Udb.Spec
