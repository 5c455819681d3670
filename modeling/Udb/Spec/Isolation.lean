import Udb.Spec.Shell
import Udb.Spec.Transport

/-!
# A session of `RUN_CMD` beside one of `RUN_CMD_WAIT`

Two clients share `runcmd_buf`. What one of them has still to be handed out can be
overwritten or cleared by a step of the other. As long as no step writes there, the
two sessions do not see each other; a command that is stored over the output of
another shows that this is needed.

## Key results

- `runcmd_sessions_isolated`: sessions that stay apart see what they see alone
- `not_runcmd_sessions_isolated`: a client is handed the output of the other
-/

namespace Udb.Spec

open CMem Udb.Native Interleave

variable {s s' t t' : Server} {e : Event} {o : Option Bytes}

/-! ## Two parties -/

/-- The event belongs to the session of `RUN_CMD_WAIT`: its requests, and what its worker does. -/
def waits (e : Event) : Bool := Part.wait.touchedBy e

/-- The bytes of the buffer that a session has still to hand out: of `RUN_CMD` for `false`, of
    `RUN_CMD_WAIT` for `true`. In front of the start of a worker that is nothing. -/
def Pending (s : Server) : Bool → Nat → Prop
  | false, k => s.udbRuncmdCtrl.cpOffset.toNat ≤ k ∧ k < s.udbRuncmdCtrl.usedSize.toNat
  | true, k => .created ∉ s.workers ∧
      s.udbRuncmdWaitCtrl.cpOffset.toNat ≤ k ∧ k < s.udbRuncmdWaitCtrl.usedSize.toNat

/-- The event keeps to its own session. -/
structure Apart (e : Event) (s : Server) : Prop where
  /-- It stores to no byte that the other session has still to hand out. -/
  writes : ∀ k, Writes s e k → ¬ Pending s (!waits e) k
  /-- A worker finds room for its command, whoever has set the protocol size. -/
  room : ∀ i os line, e = .thread i (.start os line) → s.workers[i]? = some .created →
    line.length < s.udbProtSize
  /-- A poll is inside the data, and hands out nothing between a command and its worker. -/
  poll : ∀ os layer cmd, e = .request os layer cmd →
    cmd[3]? = some UdbChanId.runCmdWaitPullout.toByte →
    s.udbRuncmdWaitCtrl.cpOffset ≤ s.udbRuncmdWaitCtrl.usedSize ∧
      (.created ∈ s.workers → s.udbRuncmdWaitCtrl.usedSize = 0)
  /-- A command that is accepted gets its worker, or nothing is left of the one before. -/
  wait : ∀ os layer cmd, e = .request os layer cmd →
    cmd[3]? = some UdbChanId.runCmdWait.toByte → s.udbRuncmdWaitCtrl.singleInstance = false →
    os.pthreadCreate = true ∨ s.udbRuncmdWaitCtrl.usedSize = 0

/-! ## The session of `RUN_CMD_WAIT` -/

section Wait

variable {i : Nat} {input : ThreadInput}

/-- A thread step does not move the cursor, and the last thread that was still to start clears
    `used_size`. -/
private theorem threadStep_pending (h : threadStep i input t = .ok t') :
    t'.udbRuncmdWaitCtrl.cpOffset = t.udbRuncmdWaitCtrl.cpOffset ∧
      (.created ∉ t'.workers → .created ∈ t.workers → t'.udbRuncmdWaitCtrl.usedSize = 0) ∧
      (t.udbRuncmdWaitCtrl.usedSize.toNat ≤ udbBufSize →
        t'.udbRuncmdWaitCtrl.usedSize.toNat ≤ udbBufSize) := by
  -- A thread that has started is not the one that is still to start.
  have hkeeps : ∀ {w w' : Worker}, t.workers[i]? = some w → w ≠ .created →
      .created ∈ t.workers → .created ∈ t.workers.set i w' := by
    intro w w' hw hne hmem
    obtain ⟨j, hj⟩ := List.mem_iff_getElem?.mp hmem
    have hij : i ≠ j := by
      rintro rfl
      exact hne (Option.some.inj (hw.symm.trans hj))
    exact List.mem_iff_getElem?.mpr ⟨j, by rw [List.getElem?_set_ne hij, hj]⟩
  unfold threadStep at h
  split at h
  · obtain ⟨⟨t₁, w⟩, hstart, h⟩ := bind_eq_ok.mp h
    obtain ⟨-, rlog, calls, rfl⟩ := threadStart_eq hstart
    obtain rfl := Except.ok.inj h
    exact ⟨rfl, fun _ _ => rfl, fun _ => Nat.zero_le _⟩
  · rename_i hw
    obtain ⟨⟨t₁, w⟩, hline, h⟩ := bind_eq_ok.mp h
    obtain rfl := Except.ok.inj h
    rcases threadLine_eq hline with ⟨rfl, rlog, rfl⟩ | ⟨rfl, b, hcpy, rfl⟩
    · exact ⟨rfl, fun hno hmem => absurd (hkeeps hw (by simp) hmem) hno, id⟩
    · obtain ⟨hadd, hle⟩ := toNat_usedSize_add hcpy
      refine ⟨rfl, fun hno hmem => absurd (hkeeps hw (by simp) hmem) hno, fun _ => ?_⟩
      dsimp only
      omega
  · rename_i hw
    obtain rfl := Except.ok.inj h
    exact ⟨rfl, fun hno hmem => absurd (hkeeps hw (by simp) hmem) hno, id⟩
  · rename_i hw
    obtain rfl := Except.ok.inj h
    refine ⟨rfl, fun hno hmem => ?_, id⟩
    obtain ⟨j, hj⟩ := List.mem_iff_getElem?.mp hmem
    have hij : j ≠ i := by
      rintro rfl
      cases Option.some.inj (hw.symm.trans hj)
    exact absurd (List.mem_eraseIdx_iff_getElem?.mpr ⟨j, hij, hj⟩) hno
  · obtain rfl := Except.ok.inj h
    exact ⟨rfl, fun hno hmem => absurd hmem hno, id⟩

/-- A thread step reads the controller and the threads. -/
theorem SameWait.thread (hsame : SameWait s t)
    (hroom : ∀ os line, input = .start os line → s.workers[i]? = some .created →
      line.length < s.udbProtSize)
    (h : threadStep i input t = .ok t') :
    ∃ s', threadStep i input s = .ok s' ∧ SameWait s' t' := by
  obtain ⟨hcp, hfirst, -⟩ := threadStep_pending h
  obtain ⟨s', hs', hpart, -, hagree⟩ := threadStep_congr hsame.part hroom h
  refine ⟨s', hs', hpart, fun hno => ?_⟩
  by_cases hcreated : .created ∈ t.workers
  · rw [hfirst hno hcreated]
    exact fun k _ hk => absurd hk (Nat.not_lt_zero k)
  · rw [hcp]
    exact hagree _ (hsame.agree hcreated)

end Wait

/-! ## Both sessions -/

/-- The event is one of the two sessions. -/
def OfShell (e : Event) : Prop := Part.runcmd.touchedBy e = true ∨ waits e = true

/-- The requests of `RUN_CMD_WAIT` do not touch `RUN_CMD`. -/
theorem runcmd_of_waits (h : waits e = true) : Part.runcmd.touchedBy e = false := by
  cases e with
  | thread | printf | files => rfl
  | request os layer cmd =>
    obtain ⟨c, hc, hchan⟩ := onChannel_eq_true.mp h
    -- The two services have no channel in common.
    apply onChannel_eq_false.mpr
    intro d hd heq
    rw [hchan] at heq
    have hcd := toByte_injective (Option.some.inj heq)
    subst hcd
    exact absurd hd (by revert hc; cases c <;> decide)

/-- `RUN_CMD` and its pullouts read their own controller and their own bytes. -/
theorem SameRun.request {os : Os} {layer : UInt8} {cmd : Bytes} (hsame : SameRun s t)
    (hs : s.udbAuthOk = true) (ht : t.udbAuthOk = true)
    (hon : OnChannel Part.runcmd.ids cmd = true)
    (h : exec (.request os layer cmd) t = .ok (t', o)) :
    ∃ s', exec (.request os layer cmd) s = .ok (s', o) ∧ SameRun s' t' := by
  rcases channel_of_runcmd hon with hchan | hchan
  · obtain ⟨s', hs', hsame', -⟩ := runcmd_congr hs ht hchan hsame.ctrl h
    exact ⟨s', hs', hsame'⟩
  · obtain ⟨s', hs', hsame', -⟩ := runcmdPullout_congr hs ht hchan hsame h
    exact ⟨s', hs', hsame'⟩

/-- A command that is accepted or refused in both states. -/
theorem SameWait.wait {os : Os} {layer : UInt8} {cmd : Bytes} (hsame : SameWait s t)
    (hs : s.udbAuthOk = true) (ht : t.udbAuthOk = true)
    (hchan : cmd[3]? = some UdbChanId.runCmdWait.toByte)
    (hapart : Apart (.request os layer cmd) s)
    (h : exec (.request os layer cmd) t = .ok (t', o)) :
    ∃ s', exec (.request os layer cmd) s = .ok (s', o) ∧ SameWait s' t' := by
  have hctrl := hsame.part.1
  obtain ⟨s', hs', hpart, -, hbs, hbt, hcase⟩ := wait_congr hs ht hchan hsame.part h
  refine ⟨s', hs', hpart, fun hno => ?_⟩
  rw [hbs, hbt]
  rcases hcase with ⟨hsamectrl, hsameworkers⟩ | ⟨hsingle, rfl⟩
  · rw [hsameworkers] at hno
    rw [hsamectrl]
    exact hsame.agree hno
  · -- The worker is still to start, or nothing was left.
    rcases hapart.wait os layer cmd rfl hchan (by rw [hctrl]; exact hsingle) with hcreate | hempty
    · have hmem : Worker.created ∈
          if os.pthreadCreate then t.workers ++ [.created] else t.workers := by
        rw [if_pos hcreate]
        simp
      exact absurd hmem hno
    · rw [hctrl] at hempty
      intro k _ hk
      have hk' : k < t.udbRuncmdWaitCtrl.usedSize.toNat := hk
      rw [hempty] at hk'
      exact absurd hk' (Nat.not_lt_zero k)

/-- The session `b` stands at the same point in both states. -/
structure Stands (b : Bool) (s t : Server) : Prop where
  left : s.udbAuthOk = true
  right : t.udbAuthOk = true
  run : b = false → SameRun s t
  wait : b = true → SameWait s t
  used_le : b = true → t.udbRuncmdWaitCtrl.usedSize.toNat ≤ udbBufSize
  nul : b = true → s.runcmdBuf.bytes.getLast? = some 0

/-- An event of the session does in the one state what it does in the other. -/
theorem Stands.own {b : Bool} (hb : waits e = b) (hof : OfShell e) (hapart : Apart e s)
    (h : Stands b s t) (hexec : exec e t = .ok (t', o)) :
    ∃ s', exec e s = .ok (s', o) ∧ Stands b s' t' := by
  obtain ⟨hs, ht, hrun, hwait, hused, hnul⟩ := h
  cases b with
  | false =>
    have hsame := hrun rfl
    obtain ⟨s', hs', hsame'⟩ : ∃ s', exec e s = .ok (s', o) ∧ SameRun s' t' := by
      cases e with
      | thread | printf | files => rcases hof with hof | hof <;> simp_all [waits, Part.touchedBy]
      | request os layer cmd =>
        exact hsame.request hs ht (hof.resolve_right (by rw [hb]; simp)) hexec
    exact ⟨s', hs', exec_auth hs hs', exec_auth ht hexec, fun _ => hsame', nofun, nofun, nofun⟩
  | true =>
    have hsame := hwait rfl
    obtain ⟨s', hs', hsame', hused'⟩ : ∃ s', exec e s = .ok (s', o) ∧ SameWait s' t' ∧
        t'.udbRuncmdWaitCtrl.usedSize.toNat ≤ udbBufSize := by
      cases e with
      | printf | files => cases hb
      | thread i input =>
        obtain ⟨hthread, rfl⟩ := exec_thread_eq_ok.mp hexec
        obtain ⟨s', hs', hsame'⟩ := hsame.thread
          (fun os line heq => hapart.room i os line (congrArg (Event.thread i) heq)) hthread
        exact ⟨s', exec_thread_eq_ok.mpr ⟨hs', rfl⟩, hsame',
          (threadStep_pending hthread).2.2 (hused rfl)⟩
      | request os layer cmd =>
        obtain ⟨reply, hreq, -⟩ := exec_request_eq_ok.mp hexec
        have hused' := (requestEffect hreq).used_le (hused rfl)
        rcases channel_of_wait hb with hchan | hchan
        · obtain ⟨s', hs', hsame'⟩ := hsame.wait hs ht hchan hapart hexec
          exact ⟨s', hs', hsame', hused'⟩
        · -- A poll hands out what both have, up to the size that both have.
          have hctrl := hsame.part.1
          obtain ⟨hcursor, hstarted⟩ := hapart.poll os layer cmd rfl hchan
          rw [hctrl] at hcursor
          rw [hctrl, hsame.part.2] at hstarted
          obtain ⟨s', hs', hsame'⟩ :=
            hsame.poll hs ht hchan hcursor hstarted (hused rfl) (hnul rfl) hexec
          exact ⟨s', hs', hsame', hused'⟩
    exact ⟨s', hs', exec_auth hs hs', exec_auth ht hexec, nofun, fun _ => hsame', fun _ => hused',
      fun _ => exec_nul (hnul rfl) hs'⟩

/-- An event of the other session leaves it where it stands. -/
theorem Stands.other {b : Bool} (hb : waits e = !b) (hapart : Apart e s) (h : Stands b s t)
    (hexec : exec e s = .ok (s', o)) : Stands b s' t := by
  obtain ⟨hs, ht, hrun, hwait, hused, hnul⟩ := h
  -- What the session has still to be handed out is not written to.
  have hkeeps : ∀ k, Pending s b k → s'.runcmdBuf.bytes[k]? = s.runcmdBuf.bytes[k]? := by
    intro k hk
    apply exec_writes hexec
    intro hw
    have hno := hapart.writes k hw
    rw [hb, Bool.not_not] at hno
    exact hno hk
  refine ⟨exec_auth hs hexec, ht, ?_, ?_, hused, fun hbt => exec_nul (hnul hbt) hexec⟩
  · -- The session of `RUN_CMD` has its own controller.
    rintro rfl
    obtain ⟨hctrl, hagree⟩ := hrun rfl
    have hframe : s'.udbRuncmdCtrl = s.udbRuncmdCtrl :=
      exec_frame .runcmd (runcmd_of_waits hb) hexec
    refine ⟨hframe.trans hctrl, fun k hlo hhi => ?_⟩
    rw [hkeeps k (by rw [Pending, hctrl]; exact ⟨hlo, hhi⟩), hagree k hlo hhi]
  · -- That of `RUN_CMD_WAIT` has controller and worker.
    rintro rfl
    obtain ⟨⟨hctrl, hworkers⟩, hagree⟩ := hwait rfl
    obtain ⟨hfctrl, hfworkers⟩ := exec_frame .wait hb hexec
    refine ⟨⟨hfctrl.trans hctrl, hfworkers.trans hworkers⟩, fun hno k hlo hhi => ?_⟩
    rw [hkeeps k (by rw [Pending, hctrl, hworkers]; exact ⟨hno, hlo, hhi⟩), hagree hno k hlo hhi]

/-! ## With the buffers of the transports -/

/-- The event belongs to the session of `RUN_CMD_WAIT`: its packets, and what its worker does. -/
def ofWait : DaemonEvent → Bool
  | .request os layer cmd => waits (.request os layer cmd)
  | .store waits _ _ => waits
  | .worker _ _ => true
  | _ => false

/-- The event is one of the two sessions. -/
def OfSessions : DaemonEvent → Prop
  | .request os layer cmd => OfShell (.request os layer cmd)
  | .store _ _ _ => True
  | .worker _ _ => True
  | _ => False

/-- The event keeps to its own session, also in the buffers: a packet of the other client leaves
    the command that a worker has still to read. -/
structure ApartIn (e : DaemonEvent) (d : Daemon) : Prop where
  server : ∀ ev, e.toEvent d = .ok (some ev) → Apart ev d.server
  cmd : ofWait e = false → KeepsCmd e d

/-- The session `b` stands at the same point in both states, and so does the command of its
    worker. -/
structure StandsIn (b : Bool) (d k : Daemon) : Prop where
  server : Stands b d.server k.server
  cmd : b = true → SameCmd d k

section Daemon

variable {d d' k k' : Daemon} {de : DaemonEvent}

/-- An event of the sessions is one of the server's shell. -/
private theorem ofShell_toEvent {ev : Event} (hof : OfSessions de)
    (hev : de.toEvent d = .ok (some ev)) : OfShell ev ∧ waits ev = ofWait de := by
  cases de with
  | store => cases hev
  | printf | files => cases hof
  | request os layer cmd =>
    obtain rfl := Option.some.inj (Except.ok.inj hev)
    exact ⟨hof, rfl⟩
  | worker i input =>
    -- A worker belongs to `RUN_CMD_WAIT`, whatever it reads.
    obtain ⟨input', -, rfl⟩ := toEvent_worker hev
    exact ⟨.inr rfl, rfl⟩

/-- Both states take the same event for the same event of the server. -/
private theorem StandsIn.toEvent_eq {b : Bool} (h : StandsIn b d k) (hb : ofWait de = b) :
    de.toEvent d = de.toEvent k := by
  cases b with
  | true =>
    have hworkers := (h.server.wait rfl).part.2
    exact toEvent_congr hworkers fun hmem => (h.cmd rfl hmem).2
  | false =>
    cases de with
    | request | store | printf | files => rfl
    | worker => cases hb

/-- An event of the own session can be taken in the whole system as in the session alone. -/
theorem StandsIn.own {b : Bool} (hb : ofWait de = b) (hof : OfSessions de)
    (hapart : ApartIn de d) (h : StandsIn b d k) (hexec : daemonExec de k = .ok (k', o)) :
    ∃ d', daemonExec de d = .ok (d', o) ∧ StandsIn b d' k' := by
  have hsame := h.toEvent_eq hb
  -- What the server does first; the command follows.
  obtain ⟨d', hd, hstands⟩ :
      ∃ d', daemonExec de d = .ok (d', o) ∧ Stands b d'.server k'.server := by
    rcases daemonExec_cases hexec with ⟨hev, rfl, rfl⟩ | ⟨ev, t', hev, hserver, rfl⟩
    · obtain ⟨w, layer, buf, rfl⟩ := toEvent_eq_none hev
      exact ⟨_, daemonExec_store w layer buf d, h.server⟩
    · rw [← hsame] at hev
      obtain ⟨hshell, hwaits⟩ := ofShell_toEvent hof hev
      obtain ⟨s', hs', hstands⟩ := h.server.own (hwaits.trans hb) hshell (hapart.server ev hev)
        hserver
      exact ⟨_, daemonExec_event hev hs', hstands⟩
  refine ⟨d', hd, hstands, ?_⟩
  rintro rfl
  exact (h.cmd rfl).step (h.server.wait rfl).part.2 hd hexec (hstands.wait rfl).part.2

/-- One of the other session changes nothing in the own one. -/
theorem StandsIn.other {b : Bool} (hb : ofWait de = !b) (hof : OfSessions de)
    (hapart : ApartIn de d) (h : StandsIn b d k) (hexec : daemonExec de d = .ok (d', o)) :
    StandsIn b d' k := by
  have hserver : Stands b d'.server k.server ∧
      (b = true → d'.server.workers = d.server.workers) := by
    rcases daemonExec_cases hexec with ⟨hev, rfl, rfl⟩ | ⟨ev, s', hev, hserver, rfl⟩
    · -- A store to a buffer does not reach the server.
      rw [server_receive]
      exact ⟨h.server, fun _ => rfl⟩
    · -- A request or a step of the other one leaves the workers.
      obtain ⟨-, hwaits⟩ := ofShell_toEvent hof hev
      refine ⟨h.server.other (hwaits.trans hb) (hapart.server ev hev) hserver, ?_⟩
      rintro rfl
      exact (exec_frame .wait (hwaits.trans hb) hserver).2
  refine ⟨hserver.1, ?_⟩
  rintro rfl
  exact (h.cmd rfl).other (hapart.cmd hb) hexec (hserver.2 rfl)

end Daemon

/-! ## The result -/

/-- The two sessions do not see each other, if no step writes to what the other has still to be
    handed out, or to the command that a worker has still to read: for every reachable state of an
    authenticated server, whatever the buffers of its transports hold, and every interleaving of
    the packets of `RUN_CMD` with the packets of `RUN_CMD_WAIT` and the steps of its worker, if
    each session runs through alone, then the interleaving does, and both get the replies that
    they get alone. -/
theorem runcmd_sessions_isolated (d : Daemon) (es : List DaemonEvent) (t : Bool → Daemon)
    (outs : Bool → List (Option Bytes)) (hreach : Reachable d.server)
    (hauth : d.server.udbAuthOk = true) (hof : ∀ e ∈ es, OfSessions e)
    (hapart : Along daemonExec ApartIn es d)
    (halone : ∀ b, run daemonExec (es.filter fun e => ofWait e == b) d = .ok (t b, outs b)) :
    ∃ d' all, run daemonExec es d = .ok (d', all) ∧
      ∀ b, view (fun e => ofWait e == b) es all = outs b := by
  have hsafe : Along daemonExec (fun e d => OfSessions e ∧ ApartIn e d) es d :=
    hapart.imp fun e he d h => ⟨hof e he, h⟩
  -- At the start both sessions stand where they would stand alone.
  have hstands : ∀ b, StandsIn b d d := fun b =>
    ⟨⟨hauth, hauth, fun _ => ⟨rfl, fun _ _ _ => rfl⟩,
      fun _ => ⟨.refl .wait d.server, fun _ _ _ _ => rfl⟩,
      fun _ => (waitBase_of_reachable hreach).used_le, fun _ => nul_of_reachable hreach⟩,
      fun _ _ => ⟨rfl, rfl⟩⟩
  -- A step of its own does to a session what it does alone.
  have hown : ∀ (b : Bool) (e : DaemonEvent) (d k k' : Daemon) (o : Option Bytes), ofWait e = b →
      OfSessions e ∧ ApartIn e d → StandsIn b d k → daemonExec e k = .ok (k', o) →
      ∃ d', daemonExec e d = .ok (d', o) ∧ StandsIn b d' k' :=
    fun b e d k k' o hb hsafe h hexec => h.own hb hsafe.1 hsafe.2 hexec
  -- A step of the other one changes nothing that it looks at.
  have hother : ∀ (b : Bool) (e : DaemonEvent) (d d' k : Daemon) (o : Option Bytes),
      ofWait e = !b → OfSessions e ∧ ApartIn e d → StandsIn b d k →
      daemonExec e d = .ok (d', o) → StandsIn b d' k :=
    fun b e d d' k o hb hsafe h hexec => h.other hb hsafe.1 hsafe.2 hexec
  obtain ⟨d', all, hrun, hview⟩ := run_both hown hother hstands hsafe halone
  exact ⟨d', all, hrun, fun b => (hview b).1⟩

/-! ## A line over the output of another client -/

/-- A command of the first client, whose output is `out`. -/
def runEvent (layer : UInt8) (out : Bytes) : DaemonEvent :=
  .request (willing [] out) layer
    (padTo (layerProtSize layer) (channelHeader .runCmd ++ ascii "ls"))

/-- The pullout of one byte. -/
def pullEvent : DaemonEvent :=
  .request (willing [] []) udbLayerDef (padTo 64 (channelHeader .runCmdPullout ++ le32 1))

/-- A command of the second client, and what its worker does. -/
def waitEvent : DaemonEvent :=
  .request (willing [] []) udbLayerDef (padTo 64 (channelHeader .runCmdWait ++ ascii "id"))

def startEvent : DaemonEvent := .worker 0 (.start (willing [] []))

def lineEvent (line : Bytes) : DaemonEvent := .worker 0 (.line (willing [] []) line)

section Examples

variable {d : Daemon} {rest line : Bytes}

/-- A request of the server is one of the daemon. -/
theorem daemonExec_request {os : Os} {layer : UInt8} {cmd reply : Bytes}
    (h : request os layer cmd d.server = .ok (s', reply)) :
    ∃ d', daemonExec (.request os layer cmd) d = .ok (d', some reply) ∧ d'.server = s' :=
  ⟨_, daemonExec_event rfl (exec_request_eq_ok.mpr ⟨_, h, rfl⟩), rfl⟩

/-- `RUN_CMD` stores its output. -/
private theorem exists_run (layer : UInt8) (hauth : d.server.udbAuthOk = true) (out : Bytes) :
    ∃ d₁ reply, daemonExec (runEvent layer out) d = .ok (d₁, some reply) ∧
      Stored .runcmd d₁.server (keptOutput out) := by
  have hchan := @getElem?_header (layerProtSize layer) .runCmd (ascii "ls")
  have hcmd : cstrAt (padTo (layerProtSize layer) (channelHeader .runCmd ++ ascii "ls")) 4 =
      .ok (ascii "ls") :=
    cstrAt_padTo (a := channelHeader .runCmd) (by decide)
      (lt_of_lt_of_le (by decide) (layerProtSize_bounds layer).1)
  -- `ls` is left to the shell, and its output is stored.
  have hshell : HandedToShell (willing [] out) (ascii "ls") d.server := ⟨0, _, rfl, Int.le_refl 0⟩
  obtain ⟨s₁, hreq, hstored⟩ := request_runcmd layer hauth hchan hcmd hshell rfl
  obtain ⟨d₁, hd₁, rfl⟩ := daemonExec_request hreq
  exact ⟨d₁, _, hd₁, hstored⟩

/-- A pullout of one byte. -/
private theorem exec_pull (hauth : d.server.udbAuthOk = true) (h : Holds .runcmd d.server rest)
    (hne : 1 ≤ rest.length) :
    ∃ d₁, daemonExec pullEvent d =
      .ok (d₁, some (padTo (layerProtSize udbLayerDef) (rest.take 1))) := by
  have hchan := @getElem?_header 64 Channel.runcmd.pulloutId (le32 1)
  have hsize := @load32_header 64 Channel.runcmd.pulloutId 1
  have hreq := @request_granted .runcmd d.server rest _ 1 (willing [] []) udbLayerDef hauth h hchan
    hsize hne (by decide)
  obtain ⟨d₁, hd₁, -⟩ := daemonExec_request hreq
  exact ⟨d₁, hd₁⟩

/-- The worker of the second client is still to start, and finds its command. -/
structure Waiting (d : Daemon) : Prop where
  auth : d.server.udbAuthOk = true
  workers : d.server.workers = [.created]
  arg : d.arg = udbLayerDef
  cmd : d.cmd = .ok (ascii "id")
  pullout : d.server.udbRuncmdWaitCtrl.pullout = .buf
  clock : d.server.udbRuncmdWaitCtrl.tmLastUpdate = 0

/-- Without an instance the second client's command is accepted. -/
private theorem exists_waiting (hauth : d.server.udbAuthOk = true)
    (hsingle : d.server.udbRuncmdWaitCtrl.singleInstance = false)
    (hworkers : d.server.workers = []) :
    ∃ d₁, daemonExec waitEvent d = .ok (d₁, some (padTo (layerProtSize udbLayerDef) [1])) ∧
      Waiting d₁ ∧ d₁.server.udbProtSize = 64 ∧ d₁.server.udbRuncmdCtrl = d.server.udbRuncmdCtrl ∧
      d₁.server.runcmdBuf = d.server.runcmdBuf := by
  have hchan := @getElem?_header 64 .runCmdWait (ascii "id")
  have hreq := request_runcmdWait (willing [] []) udbLayerDef hauth hchan hsingle
  have hw₁ : (waitAccepted (willing [] []) (d.server.setProtSize udbLayerDef)).workers =
      [.created] := by
    show d.server.workers ++ [Worker.created] = _
    rw [hworkers]
    rfl
  -- There was no thread, so the pointer is the new one's.
  have hgrew : d.server.workers.length <
      (waitAccepted (willing [] []) (d.server.setProtSize udbLayerDef)).workers.length := by
    rw [hw₁, hworkers]
    exact Nat.one_pos
  have hexec := daemonExec_event (d := d) (e := waitEvent) rfl
    (exec_request_eq_ok.mpr ⟨_, hreq, rfl⟩)
  have harg : (d.receive waitEvent).setArg waitEvent
      (waitAccepted (willing [] []) (d.server.setProtSize udbLayerDef)) =
      { d.receive waitEvent with arg := udbLayerDef } := setArg_of_grew hgrew
  rw [harg] at hexec
  exact ⟨_, hexec, ⟨hauth, hw₁, rfl, rfl, rfl, rfl⟩, rfl, rfl, rfl⟩

/-- The thread that starts finds the line its pointer shows. -/
theorem toEvent_startEvent (hworkers : d.server.workers = [.created]) (hcmd : d.cmd = .ok line) :
    startEvent.toEvent d = .ok (some (.thread 0 (.start (willing [] []) line))) := by
  have hw : d.server.workers[0]? = some .created := by
    rw [hworkers]
    rfl
  unfold startEvent DaemonEvent.toEvent WorkerInput.read
  dsimp only
  rw [if_pos hw, hcmd]
  rfl

/-- The worker starts, if it has room for its command. -/
private theorem exists_started (h : Waiting d) (hroom : 2 < d.server.udbProtSize) :
    ∃ d₁, daemonExec startEvent d = .ok (d₁, none) ∧
      d₁.server.workers = [.reading (ascii "id")] ∧
      d₁.server.udbRuncmdWaitCtrl.usedSize = 0 ∧
      d₁.server.udbRuncmdWaitCtrl.tmLastUpdate = 0 ∧
      d₁.server.udbRuncmdWaitCtrl.pullout = .buf ∧ d₁.server.udbAuthOk = true ∧
      d₁.server.udbRuncmdCtrl = d.server.udbRuncmdCtrl ∧
      d₁.server.runcmdBuf = d.server.runcmdBuf := by
  have hw : d.server.workers[0]? = some .created := by
    rw [h.workers]
    rfl
  obtain ⟨s₁, hstart⟩ := @exists_threadStart d.server (ascii "id") hroom
  obtain ⟨-, rlog, calls, rfl⟩ := threadStart_eq hstart
  -- The thread finds its command where the pointer shows.
  have hthread := (threadStep_start hw).trans (bind_eq_ok.mpr ⟨_, hstart, rfl⟩)
  have hexec := exec_thread_eq_ok.mpr ⟨hthread, rfl⟩
  refine ⟨_, daemonExec_event (toEvent_startEvent h.workers h.cmd) hexec, ?_, rfl, h.clock,
    h.pullout, h.auth, rfl, rfl⟩
  show d.server.workers.set 0 _ = _
  rw [h.workers]
  rfl

/-- Then the worker stores a line at the front of the buffer, whatever it holds. -/
private theorem exists_overwrite (hauth : d.server.udbAuthOk = true)
    (hsingle : d.server.udbRuncmdWaitCtrl.singleInstance = false)
    (hworkers : d.server.workers = []) (hfit : 0 + (cstr line ++ [0]).length ≤ udbBufSize) :
    ∃ d₁ d₂ d₃,
      daemonExec waitEvent d = .ok (d₁, some (padTo (layerProtSize udbLayerDef) [1])) ∧
      daemonExec startEvent d₁ = .ok (d₂, none) ∧
      daemonExec (lineEvent line) d₂ = .ok (d₃, none) ∧
      d₃.server.udbAuthOk = true ∧ d₃.server.udbRuncmdCtrl = d.server.udbRuncmdCtrl ∧
      d.server.runcmdBuf.memcpy 0 (cstr line ++ [0]) = .ok d₃.server.runcmdBuf := by
  obtain ⟨d₁, hd₁, hwaiting, hprot, hrun₁, hbuf₁⟩ := exists_waiting hauth hsingle hworkers
  obtain ⟨d₂, hd₂, hw₂, hused₂, htm₂, hptr₂, hauth₂, hrun₂, hbuf₂⟩ :=
    exists_started hwaiting (by rw [hprot]; decide)
  obtain ⟨b, hcpy⟩ : ∃ b, d.server.runcmdBuf.memcpy 0 (cstr line ++ [0]) = .ok b :=
    ⟨_, dif_pos hfit⟩
  -- No time has passed, so the line is stored.
  have hclock : ¬ tmDiff (osTimeGetBootMs (willing [] []))
      d₂.server.udbRuncmdWaitCtrl.tmLastUpdate > 300 := by
    rw [htm₂]
    decide
  have hcpy₂ : d₂.server.runcmdBuf.memcpy d₂.server.udbRuncmdWaitCtrl.usedSize.toNat
      (cstr line ++ [0]) = .ok b := by
    rw [hused₂, hbuf₂, hbuf₁]
    exact hcpy
  have hw : d₂.server.workers[0]? = some (.reading (ascii "id")) := by
    rw [hw₂]
    rfl
  have hline := @threadLine_stored d₂.server (willing [] []) (ascii "id") line b hclock hptr₂ hcpy₂
  have hthread := (threadStep_line hw).trans (bind_eq_ok.mpr ⟨_, hline, rfl⟩)
  exact ⟨d₁, d₂, _, hd₁, hd₂,
    daemonExec_event (e := lineEvent line) rfl (exec_thread_eq_ok.mpr ⟨hthread, rfl⟩), hauth₂,
    hrun₂.trans hrun₁, hcpy⟩

end Examples

/-- A request on another channel writes nothing. -/
private theorem not_writes {os : Os} {layer : UInt8} {cmd : Bytes} {k : Nat}
    (hno : OnChannel fillIds cmd = false) : ¬ Writes s (.request os layer cmd) k := by
  intro hw
  cases hw with
  | builtIn hchan | shell _ hchan | pullout _ hchan | poll _ hchan =>
    exact onChannel_eq_false.mp hno _ (by decide) hchan

/-- A request that is not a poll. -/
private theorem apart_request {os : Os} {layer : UInt8} {cmd : Bytes}
    (hw : ∀ k, Writes s (.request os layer cmd) k →
      ¬ Pending s (!waits (.request os layer cmd)) k)
    (hpoll : cmd[3]? ≠ some UdbChanId.runCmdWaitPullout.toByte)
    (hwait : cmd[3]? = some UdbChanId.runCmdWait.toByte →
      s.udbRuncmdWaitCtrl.singleInstance = false →
      os.pthreadCreate = true ∨ s.udbRuncmdWaitCtrl.usedSize = 0) :
    Apart (.request os layer cmd) s := by
  refine ⟨hw, nofun, fun os' layer' cmd' heq hchan => ?_, fun os' layer' cmd' heq hchan => ?_⟩
  · obtain ⟨-, -, rfl⟩ := Event.request.inj heq
    exact absurd hchan hpoll
  · obtain ⟨rfl, -, rfl⟩ := Event.request.inj heq
    exact hwait hchan

/-- The server with the key, and buffers that hold nothing. -/
def daemonAuthed : Daemon := ⟨authed fun _ => none, fun _ => [], udbLayerDef⟩

/-- A command of the first client through another transport leaves the worker where it is. -/
theorem Waiting.run {d d' : Daemon} {layer : UInt8} {out : Bytes} (h : Waiting d)
    (hlayer : layer ≠ udbLayerDef) (hexec : daemonExec (runEvent layer out) d = .ok (d', o)) :
    Waiting d' ∧ d'.server.udbProtSize = layerProtSize layer := by
  rcases daemonExec_cases hexec with ⟨hev, -⟩ | ⟨ev, s', hev, hserver, rfl⟩
  · cases hev
  · obtain rfl := Option.some.inj (Except.ok.inj hev)
    obtain ⟨reply, hreq, -⟩ := exec_request_eq_ok.mp hserver
    -- The channel of the packet is not that of the session.
    have hother : OnChannel Part.wait.ids (padTo (layerProtSize layer)
        (channelHeader .runCmd ++ ascii "ls")) = false := by
      rw [onChannel_eq_false, getElem?_header]
      decide
    obtain ⟨hctrl, hworkers⟩ := request_frame .wait hother hreq
    rw [setArg_of_not_grew (by rw [hworkers]; exact lt_irrefl _)]
    refine ⟨⟨exec_auth h.auth hserver, hworkers.trans h.workers, ?_, ?_, ?_, ?_⟩,
      request_protSize hreq⟩
    · exact (arg_receive d _).trans h.arg
    · -- Nor is the buffer, which belongs to another transport.
      rcases cmd_receive d (runEvent layer out) with heq | ⟨layer', buf, hstored, hsame, -⟩
      · exact heq.trans h.cmd
      · obtain ⟨rfl, -⟩ := Prod.mk.inj (Option.some.inj hstored)
        exact absurd (hsame.trans h.arg) hlayer
    · dsimp only
      rw [hctrl]
      exact h.pullout
    · dsimp only
      rw [hctrl]
      exact h.clock

/-- A command of the one client between the other one's command and its worker's start, through
    another transport. -/
def fourEvents : List DaemonEvent :=
  [waitEvent, runEvent udbLayerUvcHs (ascii "a"), startEvent, pullEvent]

/-- The two sessions stay apart over these events. -/
private theorem apart_fourEvents : Along daemonExec ApartIn fourEvents daemonAuthed := by
  obtain ⟨d₁, hd₁, hwaiting₁, -⟩ := @exists_waiting daemonAuthed rfl rfl rfl
  obtain ⟨d₂, r, hd₂, -⟩ := exists_run udbLayerUvcHs hwaiting₁.auth (ascii "a")
  obtain ⟨hwaiting₂, hprot⟩ := hwaiting₁.run (by decide) hd₂
  have hroom : 2 < d₂.server.udbProtSize := by
    rw [hprot]
    decide
  obtain ⟨d₃, hd₃, hreading, hused, -⟩ := exists_started hwaiting₂ hroom
  -- No worker has started, so nothing of its output can be overwritten.
  refine ⟨⟨fun ev hev => ?_, nofun⟩, fun d o h₁ => ?_⟩
  · obtain rfl := Option.some.inj (Except.ok.inj hev)
    exact apart_request (fun k hw => absurd hw (not_writes rfl)) (by decide) (fun _ _ => .inl rfl)
  obtain ⟨rfl, -⟩ := pure_pair_eq_ok.mp (hd₁.symm.trans h₁)
  refine ⟨⟨fun ev hev => ?_, fun _ _ layer buf hs hlayer => ?_⟩, fun d o h₂ => ?_⟩
  · obtain rfl := Option.some.inj (Except.ok.inj hev)
    refine apart_request (fun k _ hk => hk.1 ?_) (by decide) (fun h => absurd h (by decide))
    rw [hwaiting₁.workers]
    exact List.mem_singleton_self _
  · -- The packet is in the buffer of another transport.
    obtain ⟨rfl, -⟩ := Prod.mk.inj (Option.some.inj hs)
    rw [hwaiting₁.arg] at hlayer
    exact absurd hlayer (by decide)
  obtain ⟨rfl, -⟩ := pure_pair_eq_ok.mp (hd₂.symm.trans h₂)
  refine ⟨⟨fun ev hev => ?_, nofun⟩, fun d o h₃ => ?_⟩
  · -- The worker reads the second client's command.
    obtain rfl := Option.some.inj (Except.ok.inj
      ((toEvent_startEvent hwaiting₂.workers hwaiting₂.cmd).symm.trans hev))
    refine ⟨fun k hw => (by cases hw), fun i os line heq _ => ?_, nofun, nofun⟩
    obtain ⟨-, hinput⟩ := Event.thread.inj heq
    obtain ⟨-, rfl⟩ := ThreadInput.start.inj hinput
    exact hroom
  obtain ⟨rfl, -⟩ := pure_pair_eq_ok.mp (hd₃.symm.trans h₃)
  refine ⟨⟨fun ev hev => ?_, fun _ hmem => ?_⟩, fun _ _ _ => trivial⟩
  · obtain rfl := Option.some.inj (Except.ok.inj hev)
    refine apart_request (fun k _ hk => ?_) (by decide) (fun h => absurd h (by decide))
    -- The worker has stored nothing.
    have hlt := hk.2.2
    rw [hused] at hlt
    exact absurd hlt (Nat.not_lt_zero k)
  · rw [hreading] at hmem
    simp at hmem

/-- Two sessions with a pullout each. -/
theorem runcmd_sessions_isolated_four :
    ∃ (t : Bool → Daemon) (outs : Bool → List (Option Bytes)) (d' : Daemon)
        (all : List (Option Bytes)),
      (∀ b, run daemonExec (fourEvents.filter fun e => ofWait e == b) daemonAuthed =
        .ok (t b, outs b)) ∧
      run daemonExec fourEvents daemonAuthed = .ok (d', all) ∧
      ∀ b, view (fun e => ofWait e == b) fourEvents all = outs b := by
  -- The first client alone.
  obtain ⟨a₁, r, ha₁, hstored⟩ := @exists_run daemonAuthed udbLayerUvcHs rfl (ascii "a")
  obtain ⟨a₂, ha₂⟩ := exec_pull hstored.auth hstored.holds (by decide)
  -- The second client alone.
  obtain ⟨b₁, hb₁, hwaiting, hprot, -⟩ := @exists_waiting daemonAuthed rfl rfl rfl
  obtain ⟨b₂, hb₂, -⟩ := exists_started hwaiting (by rw [hprot]; decide)
  have hof : ∀ e ∈ fourEvents, OfSessions e := by
    intro e he
    simp only [fourEvents, List.mem_cons, List.not_mem_nil, or_false] at he
    rcases he with rfl | rfl | rfl | rfl
    · exact .inr rfl
    · exact .inl rfl
    · trivial
    · exact .inl rfl
  have halone : ∀ b, run daemonExec (fourEvents.filter fun e => ofWait e == b) daemonAuthed =
      .ok (bif b then b₂ else a₂,
        bif b then [some (padTo (layerProtSize udbLayerDef) [1]), none]
        else [some r,
          some (padTo (layerProtSize udbLayerDef) ((keptOutput (ascii "a")).take 1))]) := by
    intro b
    cases b with
    | false =>
      exact run_cons_eq_ok.mpr
        ⟨a₁, some r, _, ha₁, run_cons_eq_ok.mpr ⟨a₂, _, _, ha₂, rfl, rfl⟩, rfl⟩
    | true =>
      exact run_cons_eq_ok.mpr ⟨b₁, _, _, hb₁, run_cons_eq_ok.mpr ⟨b₂, _, _, hb₂, rfl, rfl⟩, rfl⟩
  obtain ⟨d', all, hrun, hview⟩ := runcmd_sessions_isolated daemonAuthed fourEvents _ _
    (reachable_authed _) rfl hof apart_fourEvents halone
  exact ⟨_, _, d', all, halone, hrun, hview⟩

/-- The output of a command is stored, a worker stores its first line over it, and the pullout
    hands out the line. -/
theorem not_runcmd_sessions_isolated :
    ¬ ∀ (d : Daemon) (es : List DaemonEvent) (t : Bool → Daemon)
        (outs : Bool → List (Option Bytes)),
      Reachable d.server → d.server.udbAuthOk = true → (∀ e ∈ es, OfSessions e) →
      (∀ b, run daemonExec (es.filter fun e => ofWait e == b) d = .ok (t b, outs b)) →
      ∃ d' all, run daemonExec es d = .ok (d', all) ∧
        ∀ b, view (fun e => ofWait e == b) es all = outs b := by
  intro hall
  -- The first client alone.
  obtain ⟨a₁, r, ha₁, hstored⟩ := @exists_run daemonAuthed udbLayerDef rfl (ascii "a")
  obtain ⟨a₂, ha₂⟩ := exec_pull hstored.auth hstored.holds (by decide)
  -- The second client alone.
  obtain ⟨b₁, b₂, b₃, hb₁, hb₂, hb₃, -⟩ :=
    @exists_overwrite daemonAuthed (ascii "b") rfl rfl rfl (by decide)
  -- The second client behind the first one's command.
  have hframe : Part.wait.Same a₁.server daemonAuthed.server := by
    rcases daemonExec_cases ha₁ with ⟨hev, -⟩ | ⟨ev, s', hev, hserver, rfl⟩
    · cases hev
    · obtain rfl := Option.some.inj (Except.ok.inj hev)
      exact exec_frame .wait rfl hserver
  obtain ⟨c₁, c₂, c₃, hc₁, hc₂, hc₃, hauth, hctrl, hcpy⟩ :=
    @exists_overwrite a₁ (ascii "b") hstored.auth (by rw [hframe.1]; rfl) (by rw [hframe.2]; rfl)
      (by decide)
  have hholds : Holds .runcmd c₃.server (ascii "b") := by
    obtain ⟨-, hstart, hsize, hcontent⟩ := hstored
    obtain ⟨m, hmem, -⟩ := hcontent (by decide)
    have hptr : a₁.server.udbRuncmdCtrl.pullout = .buf := by
      cases hnull : a₁.server.udbRuncmdCtrl.pullout with
      | buf => rfl
      | null => simp [Channel.mem, hnull, StaticPtr.deref] at hmem
    obtain ⟨-, hbytes⟩ := Buf.memcpy_eq_ok_iff.mp hcpy
    have hcp : Channel.runcmd.cpOffset c₃.server = 0 := by
      show c₃.server.udbRuncmdCtrl.cpOffset = 0
      rw [hctrl]
      exact hstart
    refine ⟨?_, fun _ => ⟨c₃.server.runcmdBuf.bytes, ?_, ?_, ?_⟩⟩
    · show c₃.server.udbRuncmdCtrl.cpOffset.toNat + 1 = c₃.server.udbRuncmdCtrl.usedSize.toNat
      rw [hctrl]
      exact hsize
    · show c₃.server.udbRuncmdCtrl.pullout.deref c₃.server.runcmdBuf = _
      rw [hctrl, hptr]
      rfl
    · rw [hcp, Buf.length_bytes]
      decide
    · rw [hcp, hbytes]
      rfl
  obtain ⟨c₄, hc₄⟩ := exec_pull hauth hholds (by decide)
  have hof : ∀ e ∈ [runEvent udbLayerDef (ascii "a"), waitEvent, startEvent, lineEvent (ascii "b"),
      pullEvent], OfSessions e := by
    intro e he
    simp only [List.mem_cons, List.not_mem_nil, or_false] at he
    rcases he with rfl | rfl | rfl | rfl | rfl
    · exact .inl rfl
    · exact .inr rfl
    · trivial
    · trivial
    · exact .inl rfl
  obtain ⟨d', all, hrun, hview⟩ := hall daemonAuthed _ (fun b => bif b then b₃ else a₂)
    (fun b => bif b then [_, none, none] else [some r, _]) (reachable_authed _) rfl hof
    (fun b => by
      cases b with
      | false =>
        exact run_cons_eq_ok.mpr
          ⟨a₁, some r, _, ha₁, run_cons_eq_ok.mpr ⟨a₂, _, _, ha₂, rfl, rfl⟩, rfl⟩
      | true =>
        exact run_cons_eq_ok.mpr ⟨b₁, _, _, hb₁, run_cons_eq_ok.mpr
          ⟨b₂, _, _, hb₂, run_cons_eq_ok.mpr ⟨b₃, _, _, hb₃, rfl, rfl⟩, rfl⟩, rfl⟩)
  have hboth : run daemonExec [runEvent udbLayerDef (ascii "a"), waitEvent, startEvent,
      lineEvent (ascii "b"), pullEvent] daemonAuthed =
      .ok (c₄, [some r, some (padTo (layerProtSize udbLayerDef) [1]), none, none,
        some (padTo (layerProtSize udbLayerDef) ((ascii "b").take 1))]) :=
    run_cons_eq_ok.mpr ⟨a₁, some r, _, ha₁, run_cons_eq_ok.mpr ⟨c₁, _, _, hc₁,
      run_cons_eq_ok.mpr ⟨c₂, _, _, hc₂, run_cons_eq_ok.mpr ⟨c₃, _, _, hc₃,
        run_cons_eq_ok.mpr ⟨c₄, _, _, hc₄, rfl, rfl⟩, rfl⟩, rfl⟩, rfl⟩, rfl⟩
  rw [hboth] at hrun
  obtain ⟨-, rfl⟩ := pure_pair_eq_ok.mp hrun
  have hreplies : [some r, some (padTo (layerProtSize udbLayerDef) ((ascii "b").take 1))] =
      [some r, some (padTo (layerProtSize udbLayerDef) ((keptOutput (ascii "a")).take 1))] :=
    hview false
  rw [List.cons.injEq, List.cons.injEq] at hreplies
  exact absurd hreplies.2.1 (by decide)

end Udb.Spec
