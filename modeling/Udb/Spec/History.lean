import Udb.Spec.Frame
import Udb.Spec.Wait

/-!
# Histories

A history is a run of the server from its start, with a label for each step that
says what happened, the latest first. Properties of runs are stated about it: which
steps a run is made of, what the last worker did, what it has stored.

`WaitEffect` says once what a step can do to the controller of `RUN_CMD_WAIT` and
to the worker threads. Every invariant of the service is one case analysis over it.

## Key results

- `waitEffect`: what a step does to the controller and to the threads
- `waitBase_of_reachable`: what holds in every reachable state, also when clients
  give up and the cursor has left the data
-/

namespace Udb.Spec

open CMem Udb.Native

/-! ## Labels -/

/-- What happened in a step. -/
inductive Label where
  | request (os : Os) (layer : UInt8) (cmd reply : Bytes)
  | worker (i : Nat) (e : WorkerEvent)
  | printf (text : Bytes)
  | files

/-- A step, with its label. -/
inductive LabelledStep : Label → Server → Server → Prop where
  | request {s s' : Server} {os : Os} {layer : UInt8} {cmd reply : Bytes}
      (hcmd : cmd.length = layerProtSize layer) (h : request os layer cmd s = .ok (s', reply)) :
      LabelledStep (.request os layer cmd reply) s s'
  | worker {s s' : Server} {i : Nat} {e : WorkerEvent} (h : WorkerStep i e s s') :
      LabelledStep (.worker i e) s s'
  | printf {s : Server} (text : Bytes) : LabelledStep (.printf text) s (s.printf text)
  | files {s : Server} (files : Bytes → Option Bytes) :
      LabelledStep .files s { s with dev := { s.dev with files := files } }

/-- The labels only name the steps. -/
theorem step_iff_labelled {s s' : Server} : Step s s' ↔ ∃ l, LabelledStep l s s' := by
  constructor
  · intro h
    cases h with
    | request hcmd h => exact ⟨_, .request hcmd h⟩
    | worker h => exact ⟨_, .worker h⟩
    | printf text => exact ⟨_, .printf text⟩
    | files files => exact ⟨_, .files files⟩
  · rintro ⟨l, h⟩
    cases h with
    | request hcmd h => exact .request hcmd h
    | worker h => exact .worker h
    | printf text => exact .printf text
    | files files => exact .files files

/-- The runs from a fresh server whose steps are all `allowed`: the labels, the latest first, and
    the state at the end. -/
inductive History (allowed : Label → Server → Server → Prop) : List Label → Server → Prop where
  | init (banner : List Bytes) (files : Bytes → Option Bytes) :
      History allowed [] (Server.init banner files)
  | step {ls : List Label} {l : Label} {s s' : Server} (hist : History allowed ls s)
      (h : LabelledStep l s s') (ha : allowed l s s') : History allowed (l :: ls) s'

section Runs

variable {allowed allowed' : Label → Server → Server → Prop} {ls : List Label} {s s' : Server}

/-- A history leads to a reachable state. -/
theorem History.reachable (h : History allowed ls s) : Reachable s := by
  induction h with
  | init banner files => exact .init banner files
  | step _ hst _ ih => exact .step ih (step_iff_labelled.mpr ⟨_, hst⟩)

/-- Every reachable state has a history. -/
theorem exists_history (h : Reachable s) : ∃ ls, History (fun _ _ _ => True) ls s := by
  induction h with
  | init banner files => exact ⟨[], .init banner files⟩
  | step _ hst ih =>
    obtain ⟨ls, hist⟩ := ih
    obtain ⟨l, hl⟩ := step_iff_labelled.mp hst
    exact ⟨l :: ls, .step hist hl trivial⟩

/-- What every allowed step has after a run of allowed steps, may be asked of the steps. -/
theorem History.refine (h : History allowed ls s)
    (himp : ∀ ls l s s', History allowed ls s → LabelledStep l s s' → allowed l s s' →
      allowed' l s s') : History allowed' ls s := by
  induction h with
  | init banner files => exact .init banner files
  | step hist hst ha ih => exact .step ih hst (himp _ _ _ _ hist hst ha)

end Runs

/-! ## Clients -/

section Clients

open StopAndWait

variable {layer : UInt8} {p : WaitCmd (layerProtSize layer)} {safe : Server → Prop}
  {c c' : WaitConf layer}

/-- All requests of `exec_cmd_wait` are full packets. -/
private theorem WaitCmd.length_next {st : WaitState (layerProtSize layer)} {q : Bytes}
    (hn : p.client.next st = .call q) : q.length = layerProtSize layer := by
  have hp := layerProtSize_bounds layer
  cases hphase : st.phase with
  | init =>
    simp only [WaitCmd.client, WaitCmd.next, hphase, Action.call.injEq] at hn
    rw [← hn, Buf.length_bytes]
  | poll =>
    -- A poll is a header with zeros behind it.
    rw [WaitCmd.next_poll p (by omega) hphase, Action.call.injEq] at hn
    rw [← hn]
    apply length_padTo
    rw [length_channelHeader]
    omega
  | finished =>
    simp only [WaitCmd.client, WaitCmd.next, hphase] at hn
    cases hn

/-- What a client and the worker do, the server can do. -/
theorem reachable_of_waitSteps (h : Reachable c.server)
    (hrun : Relation.ReflTransGen (WaitStep p safe) c c') : Reachable c'.server := by
  induction hrun with
  | refl => exact h
  | tail _ hst ih =>
    cases hst with
    | start hw | append hw | finish hw | exit hw => exact .step ih (.worker hw)
    | @poll s s' _ _ os q r _ hn hs =>
      exact .step ih (.request (WaitCmd.length_next hn) (serveLayer_eq_some.mp hs))

end Clients

/-! ## What a step does to the service -/

/-- The controller and the threads behind a step. -/
inductive WaitEffect (s : Server) : Label → RuncmdWaitUnit → List Worker → Prop where
  /-- A request of another service, a request that was refused, or nothing at all. -/
  | idle {l : Label} (hl : ∀ i e, l ≠ .worker i e) :
      WaitEffect s l s.udbRuncmdWaitCtrl s.workers
  | accepted {os : Os} {layer : UInt8} {cmd reply : Bytes} (hauth : s.udbAuthOk = true)
      (hchan : cmd[3]? = some UdbChanId.runCmdWait.toByte)
      (hsingle : s.udbRuncmdWaitCtrl.singleInstance = false) :
      WaitEffect s (.request os layer cmd reply) (waitAccepted os s).udbRuncmdWaitCtrl
        (waitAccepted os s).workers
  | poll {os : Os} {layer : UInt8} {cmd reply : Bytes} {len : Nat} (hauth : s.udbAuthOk = true)
      (hchan : cmd[3]? = some UdbChanId.runCmdWaitPullout.toByte)
      (hptr : s.udbRuncmdWaitCtrl.pullout = .buf)
      (hlen : strlenAt (some s.runcmdBuf.bytes) s.udbRuncmdWaitCtrl.cpOffset.toNat = .ok len) :
      WaitEffect s (.request os layer cmd reply) (afterPoll os layer s len).udbRuncmdWaitCtrl
        s.workers
  | start {i : Nat} {cmd : Bytes} {w : Worker} (hw : s.workers[i]? = some .created)
      (hcase : w = .reading cmd ∨ w = .exiting) :
      WaitEffect s (.worker i .start)
        { s.udbRuncmdWaitCtrl with usedSize := 0, cmdFinish := false } (s.workers.set i w)
  | gaveUp {i : Nat} {threadCmd buffer : Bytes}
      (hw : s.workers[i]? = some (.reading threadCmd)) :
      WaitEffect s (.worker i (.line buffer)) s.udbRuncmdWaitCtrl (s.workers.set i .exiting)
  | stored {i : Nat} {threadCmd buffer : Bytes} {b : Buf udbBufSize}
      (hw : s.workers[i]? = some (.reading threadCmd))
      (hcpy : s.runcmdBuf.memcpy s.udbRuncmdWaitCtrl.usedSize.toNat (cstr buffer ++ [0]) =
        .ok b) :
      WaitEffect s (.worker i (.line buffer))
        { s.udbRuncmdWaitCtrl with
          usedSize := s.udbRuncmdWaitCtrl.usedSize + UInt32.ofNat (cstr buffer ++ [0]).length }
        (s.workers.set i (.reading threadCmd))
  | eof {i : Nat} {threadCmd : Bytes} (hw : s.workers[i]? = some (.reading threadCmd)) :
      WaitEffect s (.worker i .eof) { s.udbRuncmdWaitCtrl with cmdFinish := true }
        (s.workers.set i .exiting)
  | exit {i : Nat} (hw : s.workers[i]? = some .exiting) :
      WaitEffect s (.worker i .exit) { s.udbRuncmdWaitCtrl with singleInstance := false }
        (s.workers.eraseIdx i)

section Effect

variable {l : Label} {s s' : Server} {os : Os} {layer : UInt8} {cmd reply : Bytes}

/-- What a request does to the control block of `RUN_CMD_WAIT`. -/
theorem requestEffect (h : request os layer cmd s = .ok (s', reply)) :
    WaitEffect s (.request os layer cmd reply) s'.udbRuncmdWaitCtrl s'.workers := by
  have hidle : Part.wait.Same s' s →
      WaitEffect s (.request os layer cmd reply) s'.udbRuncmdWaitCtrl s'.workers := by
    rintro ⟨hctrl, hworkers⟩
    rw [hctrl, hworkers]
    exact .idle fun i e => by simp
  by_cases hon : OnChannel Part.wait.ids cmd = true
  · cases hauth : s.udbAuthOk with
    | false =>
      -- The bridge returns before the `switch`.
      obtain ⟨⟨s₁, r⟩, hbridge, h⟩ := bind_eq_ok.mp h
      obtain ⟨rfl, -⟩ := pure_pair_eq_ok.mp h
      obtain rfl := bridge_of_closed hauth hbridge
      exact hidle ⟨rfl, rfl⟩
    | true =>
      rcases channel_of_wait hon with hchan | hchan
      · cases hsingle : s.udbRuncmdWaitCtrl.singleInstance with
        | false =>
          rw [request_runcmdWait os layer hauth hchan hsingle] at h
          obtain ⟨rfl, -⟩ := pure_pair_eq_ok.mp h
          exact .accepted hauth hchan hsingle
        | true =>
          obtain ⟨line, -, rfl, -⟩ := (request_runcmdWait_refused hauth hchan hsingle).mp h
          exact hidle ⟨rfl, rfl⟩
      · obtain ⟨len, data, hptr, hlen, -, rfl, -, -⟩ :=
          (request_waitPullout_eq_ok hauth hchan).mp h
        rw [afterPoll_setProtSize]
        show WaitEffect s _ (afterPoll os layer s len).udbRuncmdWaitCtrl
          (afterPoll os layer s len).workers
        rw [workers_afterPoll]
        exact .poll hauth hchan hptr hlen
  · exact hidle (request_frame .wait (Bool.eq_false_iff.mpr hon) h)

/-- Every step has one of these effects. -/
theorem waitEffect (h : LabelledStep l s s') :
    WaitEffect s l s'.udbRuncmdWaitCtrl s'.workers := by
  cases h with
  | request hcmd h => exact requestEffect h
  | printf text => exact .idle fun i e => by simp
  | files files => exact .idle fun i e => by simp
  | @worker _ _ i e h =>
    -- Only a worker's own steps and the requests of the service change anything.
    cases h with
    | @start _ s₁ os cmd w hw hok =>
      obtain ⟨hcase, rlog, calls, rfl⟩ := threadStart_eq hok
      exact .start hw hcase
    | @line _ s₁ os threadCmd buffer w hw hb hok =>
      rcases threadLine_eq hok with ⟨rfl, rlog, rfl⟩ | ⟨rfl, b, hcpy, rfl⟩
      · exact .gaveUp hw
      · exact .stored hw hcpy
    | @eof _ threadCmd hw => exact .eof hw
    | exit hw => exact .exit hw

end Effect

/-! ## What always holds -/

/-- What holds of the controller and the threads in every reachable state. Nothing is said of the
    cursor: it can be behind the data. -/
structure WaitBase (ctrl : RuncmdWaitUnit) (workers : List Worker) : Prop where
  used_le : ctrl.usedSize.toNat ≤ udbBufSize
  ptr : ctrl.pullout = .null → ctrl.usedSize = 0 ∧ ctrl.cpOffset = 0 ∧ workers = []
  reading : ∀ cmd, .reading cmd ∈ workers → ctrl.cmdFinish = false

section Base

variable {l : Label} {s s' : Server} {ctrl : RuncmdWaitUnit} {ws : List Worker}

/-- Text that was copied into the buffer is counted without a wrap. -/
theorem toNat_usedSize_add {off : UInt32} {b b' : Buf udbBufSize} {src : Bytes}
    (h : b.memcpy off.toNat src = .ok b') :
    (off + UInt32.ofNat src.length).toNat = off.toNat + src.length ∧
      off.toNat + src.length ≤ udbBufSize := by
  obtain ⟨hle, -⟩ := Buf.memcpy_eq_ok_iff.mp h
  have hsize : udbBufSize = 655360 := rfl
  refine ⟨?_, hle⟩
  rw [UInt32.toNat_add, UInt32.toNat_ofNat_of_lt' (by show _ < 4294967296; omega)]
  omega

/-- The only thread has gone on to something else. -/
theorem reading_of_set {ws : List Worker} {i : Nat} {w w' : Worker} {cmd : Bytes}
    (hone : ws.length ≤ 1) (hw : ws[i]? = some w') (h : Worker.reading cmd ∈ ws.set i w) :
    w = .reading cmd := by
  obtain ⟨hi, -⟩ := List.getElem?_eq_some_iff.mp hw
  obtain ⟨x, rfl⟩ : ∃ x, ws = [x] := List.length_eq_one_iff.mp (by omega)
  obtain rfl : i = 0 := by simpa using hi
  have hw' : Worker.reading cmd = w := by simpa using h
  exact hw'.symm

/-- The counter stays in the buffer. -/
theorem WaitEffect.used_le (h : WaitEffect s l ctrl ws)
    (hused : s.udbRuncmdWaitCtrl.usedSize.toNat ≤ udbBufSize) :
    ctrl.usedSize.toNat ≤ udbBufSize := by
  cases h with
  | idle | accepted | gaveUp | eof | exit => exact hused
  | poll =>
    rw [usedSize_afterPoll]
    split
    · exact Nat.zero_le _
    · exact hused
  | start => exact Nat.zero_le _
  -- A line is stored only where it fits.
  | stored hw hcpy =>
    obtain ⟨hadd, hle⟩ := toNat_usedSize_add hcpy
    dsimp only
    omega

/-- The base of the control block stays with the last thread. -/
theorem WaitEffect.base (h : WaitEffect s l ctrl ws) (hone : s.workers.length ≤ 1)
    (hbase : WaitBase s.udbRuncmdWaitCtrl s.workers) : WaitBase ctrl ws := by
  obtain ⟨hused, hptr, hreading⟩ := hbase
  refine ⟨h.used_le hused, ?_, ?_⟩
  · -- A state with a thread has its pointer set.
    have hnotnull : ∀ {i : Nat} {w : Worker}, s.workers[i]? = some w →
        s.udbRuncmdWaitCtrl.pullout ≠ .null := by
      intro i w hw hnull
      rw [(hptr hnull).2.2] at hw
      cases hw
    intro hnull
    cases h with
    | idle hl => exact hptr hnull
    | accepted => cases hnull
    | poll hauth hchan hset =>
      rw [pullout_afterPoll, hset] at hnull
      cases hnull
    | start hw | gaveUp hw | stored hw | eof hw | exit hw => exact absurd hnull (hnotnull hw)
  · intro cmd hmem
    cases h with
    | idle hl => exact hreading cmd hmem
    | @accepted os =>
      apply hreading cmd
      have hcase : Worker.reading cmd ∈
          if os.pthreadCreate then s.workers ++ [.created] else s.workers := hmem
      split at hcase
      · simpa using hcase
      · exact hcase
    | poll =>
      rw [cmdFinish_afterPoll]
      exact hreading cmd hmem
    | start => rfl
    | stored hw => exact hreading _ (List.mem_of_getElem? hw)
    | gaveUp hw | eof hw => cases reading_of_set hone hw hmem
    | exit hw => exact hreading cmd (List.mem_of_mem_eraseIdx hmem)

/-- There is at most one thread. -/
theorem length_workers_le {s : Server} (h : Reachable s) : s.workers.length ≤ 1 :=
  (inv_of_reachable h).workers.trans (Bool.toNat_le _)

/-- So it is in every reachable state. -/
theorem waitBase_of_reachable (h : Reachable s) : WaitBase s.udbRuncmdWaitCtrl s.workers := by
  induction h with
  | init banner files =>
    exact ⟨Nat.zero_le _, fun _ => ⟨rfl, rfl, rfl⟩, fun cmd hmem => by cases hmem⟩
  | step hs hst ih =>
    obtain ⟨l, hl⟩ := step_iff_labelled.mp hst
    exact (waitEffect hl).base (length_workers_le hs) ih

/-! ## The end of the buffer -/

/-- The last byte of the buffer is never written to. -/
theorem nul_of_reachable (h : Reachable s) : s.runcmdBuf.bytes.getLast? = some 0 := by
  induction h with
  | init banner files =>
    -- The buffer starts with zeros.
    have hsize : udbBufSize = 655360 := rfl
    show (List.replicate udbBufSize (0 : UInt8)).getLast? = some 0
    rw [List.getLast?_replicate, if_neg (by omega)]
  | step hs hst ih =>
    rcases step_iff_exec.mp (.inr hst) with rfl | ⟨e, o, -, hexec⟩
    · exact ih
    · exact exec_nul ih hexec

/-- So a poll finds a terminator from every place in the buffer. -/
theorem strlenAt_of_nul {b : Buf udbBufSize} (h : b.bytes.getLast? = some 0) {off : Nat}
    (hoff : off < udbBufSize) :
    ∃ len, strlenAt (some b.bytes) off = .ok len ∧ off + len < udbBufSize := by
  have hlast : (b.bytes.drop off).getLast? = some 0 := by
    rw [List.getLast?_drop, Buf.length_bytes, if_neg (by omega), h]
  have hmem : (0 : UInt8) ∈ b.bytes.drop off := List.mem_of_getLast? hlast
  have hlt := length_cstr_lt hmem
  rw [List.length_drop, Buf.length_bytes] at hlt
  exact ⟨_, strlenAt_eq_ok.mpr ⟨hmem, rfl⟩, by omega⟩

end Base

end Udb.Spec
