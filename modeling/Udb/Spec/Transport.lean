import Udb.Native.Transport
import Udb.Spec.History

/-!
# The command of a worker

A worker reads its command when it starts, from the buffer of the transport that
brought it. Here is what one event does to that command: the events that store to
no such buffer leave it as it is (`KeepsCmd`), and the same event does the same to
it in two states (`SameCmd.step`).

## Key results

- `daemonExec_cases`: an event stores to a buffer, or is one event of the server
- `SameCmd.step`, `SameCmd.other`: the command behind an event
-/

namespace Udb.Spec

open CMem Udb.Native Interleave

variable {d d' k k' : Daemon} {e : DaemonEvent} {ev : Event} {o o' : Option Bytes}

/-! ## One event -/

/-- An event stores to a buffer and nothing else, or is one event of the server. -/
theorem daemonExec_cases (h : daemonExec e d = .ok (d', o)) :
    (e.toEvent d = .ok none ∧ d' = d.receive e ∧ o = none) ∨
    ∃ ev s', e.toEvent d = .ok (some ev) ∧ exec ev d.server = .ok (s', o) ∧
      d' = { (d.receive e).setArg e s' with server := s' } := by
  obtain ⟨ev, hev, h⟩ := bind_eq_ok.mp h
  cases ev with
  | none =>
    -- A store to a buffer does not reach the server.
    obtain ⟨rfl, rfl⟩ := pure_pair_eq_ok.mp h
    exact .inl ⟨hev, rfl, rfl⟩
  | some ev =>
    obtain ⟨⟨s', o'⟩, hexec, h⟩ := bind_eq_ok.mp h
    obtain ⟨rfl, rfl⟩ := pure_pair_eq_ok.mp h
    exact .inr ⟨ev, s', hev, hexec, rfl⟩

/-- An event of the server takes its step in the daemon. -/
theorem daemonExec_event {s' : Server} (hev : e.toEvent d = .ok (some ev))
    (hexec : exec ev d.server = .ok (s', o)) :
    daemonExec e d = .ok ({ (d.receive e).setArg e s' with server := s' }, o) := by
  simp only [daemonExec, hev, hexec, ok_bind, pure_eq_ok]

/-- What a transport stores changes its buffer only. -/
theorem daemonExec_store (waits : Bool) (layer : UInt8) (buf : Bytes) (d : Daemon) :
    daemonExec (.store waits layer buf) d =
      .ok ({ d with buf := Function.update d.buf layer buf }, none) := rfl

@[simp] theorem server_receive (d : Daemon) (e : DaemonEvent) :
    (d.receive e).server = d.server := by
  unfold Daemon.receive
  split <;> rfl

@[simp] theorem arg_receive (d : Daemon) (e : DaemonEvent) : (d.receive e).arg = d.arg := by
  unfold Daemon.receive
  split <;> rfl

/-- The pointer of a new thread is into the buffer of its request. -/
theorem setArg_of_grew {os : Os} {layer : UInt8} {cmd : Bytes} {s' : Server}
    (h : d.server.workers.length < s'.workers.length) :
    (d.receive (.request os layer cmd)).setArg (.request os layer cmd) s' =
      { d.receive (.request os layer cmd) with arg := layer } := if_pos h

/-- Without a new thread it stays. -/
theorem setArg_of_not_grew {s' : Server} (h : ¬ d.server.workers.length < s'.workers.length) :
    (d.receive e).setArg e s' = d.receive e := by
  unfold Daemon.setArg
  split
  · rw [server_receive, if_neg h]
  · rfl

/-- The step that a worker's event is. -/
theorem toEvent_worker {i : Nat} {input : WorkerInput}
    (h : (DaemonEvent.worker i input).toEvent d = .ok (some ev)) :
    ∃ input', input.read d i = .ok input' ∧ ev = .thread i input' := by
  obtain ⟨input', hread, h⟩ := bind_eq_ok.mp h
  exact ⟨input', hread, (Option.some.inj (Except.ok.inj h)).symm⟩

/-- Only a store is no event of the server. -/
theorem toEvent_eq_none (h : e.toEvent d = .ok none) : ∃ waits layer buf,
    e = .store waits layer buf := by
  cases e with
  | store waits layer buf => exact ⟨waits, layer, buf, rfl⟩
  | request | printf | files => cases h
  | worker i input =>
    obtain ⟨input', -, h⟩ := bind_eq_ok.mp h
    cases h

/-- Only the start of a thread depends on the buffers. -/
theorem toEvent_congr (hworkers : d.server.workers = k.server.workers)
    (hcmd : .created ∈ d.server.workers → d.cmd = k.cmd) : e.toEvent d = e.toEvent k := by
  cases e with
  | request | store | printf | files => rfl
  | worker i input =>
    cases input with
    | line | eof | exit => rfl
    | start os =>
      unfold DaemonEvent.toEvent WorkerInput.read
      dsimp only
      rw [hworkers] at hcmd ⊢
      split
      · -- Only a thread that starts reads the buffer.
        rename_i hw
        rw [hcmd (List.mem_of_getElem? hw)]
      · rfl

/-- The command behind a store: the new string, if the buffer is the one that `arg` points into. -/
theorem cmd_receive (d : Daemon) (e : DaemonEvent) :
    (d.receive e).cmd = d.cmd ∨ ∃ layer buf, e.stored = some (layer, buf) ∧ layer = d.arg ∧
      (d.receive e).cmd = cstrAt buf udbCmdPkgContentOffset := by
  unfold Daemon.receive
  cases hstored : e.stored with
  | none => exact .inl rfl
  | some p =>
    obtain ⟨layer, buf⟩ := p
    by_cases hlayer : layer = d.arg
    · -- The pointer shows this buffer.
      refine .inr ⟨layer, buf, rfl, hlayer, ?_⟩
      simp only [Daemon.cmd, hlayer, Function.update_self]
    · -- It shows another one.
      left
      simp only [Daemon.cmd, Function.update_of_ne (Ne.symm hlayer)]

/-! ## The threads -/

/-- A thread that is still to start was so before, and no thread step sets the protocol size. -/
private theorem created_of_threadStep {s s' : Server} {i : Nat} {input : ThreadInput}
    (h : threadStep i input s = .ok s') :
    s'.udbProtSize = s.udbProtSize ∧ s'.workers.length ≤ s.workers.length ∧
      (.created ∈ s'.workers → .created ∈ s.workers) := by
  unfold threadStep at h
  split at h
  · obtain ⟨⟨s₁, w⟩, hstart, h⟩ := bind_eq_ok.mp h
    obtain ⟨hcase, rlog, calls, rfl⟩ := threadStart_eq hstart
    obtain rfl := Except.ok.inj h
    -- A thread that starts is no longer one that was created.
    refine ⟨rfl, (List.length_set).le,
      fun hmem => (List.mem_or_eq_of_mem_set hmem).resolve_right ?_⟩
    rcases hcase with rfl | rfl <;> simp
  · obtain ⟨⟨s₁, w⟩, hline, h⟩ := bind_eq_ok.mp h
    obtain rfl := Except.ok.inj h
    rcases threadLine_eq hline with ⟨rfl, rlog, rfl⟩ | ⟨rfl, b, -, rfl⟩
    · -- One that has read a line was not one before.
      exact ⟨rfl, (List.length_set).le,
        fun hmem => (List.mem_or_eq_of_mem_set hmem).resolve_right (by simp)⟩
    · exact ⟨rfl, (List.length_set).le,
        fun hmem => (List.mem_or_eq_of_mem_set hmem).resolve_right (by simp)⟩
  · obtain rfl := Except.ok.inj h
    exact ⟨rfl, (List.length_set).le,
      fun hmem => (List.mem_or_eq_of_mem_set hmem).resolve_right (by simp [threadEof])⟩
  · obtain rfl := Except.ok.inj h
    -- One that leaves is gone.
    exact ⟨rfl, List.length_eraseIdx_le _ _, fun hmem => List.mem_of_mem_eraseIdx hmem⟩
  · obtain rfl := Except.ok.inj h
    exact ⟨rfl, le_rfl, id⟩

/-- A request creates a thread or leaves the threads alone. -/
private theorem workers_of_request {s s' : Server} {os : Os} {layer : UInt8} {cmd reply : Bytes}
    (h : request os layer cmd s = .ok (s', reply)) :
    s'.workers = s.workers ∨ s'.workers = s.workers ++ [.created] := by
  have heffect := requestEffect h
  generalize s'.udbRuncmdWaitCtrl = ctrl at heffect
  generalize s'.workers = ws at heffect ⊢
  cases heffect with
  | idle | poll => exact .inl rfl
  | accepted =>
    -- Only a command that is accepted makes a thread.
    unfold waitAccepted
    dsimp only
    split
    · exact .inr rfl
    · exact .inl rfl

/-! ## The same event in two states -/

/-- A thread that is still to start finds the same command in both states. -/
def SameCmd (d k : Daemon) : Prop := .created ∈ d.server.workers → d.arg = k.arg ∧ d.cmd = k.cmd

/-- The event leaves the command of a thread that is still to start. -/
def KeepsCmd (e : DaemonEvent) (d : Daemon) : Prop :=
  .created ∈ d.server.workers → ∀ layer buf, e.stored = some (layer, buf) → layer = d.arg →
    cstrAt buf udbCmdPkgContentOffset = d.cmd

/-- The same event stores the same, and gives a new thread the same command. -/
theorem SameCmd.step (h : SameCmd d k) (hworkers : d.server.workers = k.server.workers)
    (hd : daemonExec e d = .ok (d', o)) (hk : daemonExec e k = .ok (k', o'))
    (hworkers' : d'.server.workers = k'.server.workers) : SameCmd d' k' := by
  -- What is stored is the same for both, so the command stays the same where the pointer does.
  have hreceive : .created ∈ d.server.workers →
      (d.receive e).arg = (k.receive e).arg ∧ (d.receive e).cmd = (k.receive e).cmd := by
    intro hmem
    obtain ⟨harg, hcmd⟩ := h hmem
    refine ⟨by rw [arg_receive, arg_receive, harg], ?_⟩
    unfold Daemon.receive
    cases e.stored with
    | none => exact hcmd
    | some p =>
      simp only [Daemon.cmd] at hcmd ⊢
      by_cases hlayer : k.arg = p.1
      · rw [harg, hlayer, Function.update_self, Function.update_self]
      · rw [harg] at hcmd ⊢
        rw [Function.update_of_ne hlayer, Function.update_of_ne hlayer, hcmd]
  rcases daemonExec_cases hd with ⟨hev, rfl, -⟩ | ⟨ev, s', hev, hexec, rfl⟩
  · obtain ⟨waits, layer, buf, rfl⟩ := toEvent_eq_none hev
    obtain ⟨rfl, -⟩ := pure_pair_eq_ok.mp hk
    exact hreceive
  · rcases daemonExec_cases hk with ⟨hev', -⟩ | ⟨ev', t', -, hexec', rfl⟩
    · obtain ⟨waits, layer, buf, rfl⟩ := toEvent_eq_none hev'
      cases hev
    · intro hmem
      have hmem' : .created ∈ s'.workers := hmem
      have hsame : s'.workers = t'.workers := hworkers'
      cases e with
      | store => cases hev
      | printf | files =>
        obtain rfl := Option.some.inj (Except.ok.inj hev)
        obtain ⟨rfl, -⟩ := pure_pair_eq_ok.mp hexec
        exact hreceive hmem'
      | worker i input =>
        obtain ⟨input', -, rfl⟩ := toEvent_worker hev
        obtain ⟨hthread, -⟩ := exec_thread_eq_ok.mp hexec
        exact hreceive ((created_of_threadStep hthread).2.2 hmem')
      | request os layer cmd =>
        obtain rfl := Option.some.inj (Except.ok.inj hev)
        obtain ⟨reply, hreq, -⟩ := exec_request_eq_ok.mp hexec
        by_cases hgrew : d.server.workers.length < s'.workers.length
        · -- A new thread: its pointer is into the packet.
          have hgrew' : k.server.workers.length < t'.workers.length := by
            rwa [← hworkers, ← hsame]
          rw [setArg_of_grew hgrew, setArg_of_grew hgrew']
          refine ⟨rfl, ?_⟩
          show cstrAt (Function.update d.buf layer cmd layer) _ =
            cstrAt (Function.update k.buf layer cmd layer) _
          rw [Function.update_self, Function.update_self]
        · have hgrew' : ¬ k.server.workers.length < t'.workers.length := by
            rwa [← hworkers, ← hsame]
          rw [setArg_of_not_grew hgrew, setArg_of_not_grew hgrew']
          apply hreceive
          rcases workers_of_request hreq with heq | heq
          · rwa [← heq]
          · rw [heq, List.length_append] at hgrew
            exact absurd (Nat.lt_succ_self _) hgrew

/-- An event that leaves the threads and their command. -/
theorem SameCmd.other (h : SameCmd d k) (hkeeps : KeepsCmd e d)
    (hd : daemonExec e d = .ok (d', o)) (hworkers : d'.server.workers = d.server.workers) :
    SameCmd d' k := by
  have hreceive : .created ∈ d.server.workers →
      (d.receive e).arg = k.arg ∧ (d.receive e).cmd = k.cmd := by
    -- What is stored in the buffer is the command that was there.
    intro hmem
    obtain ⟨harg, hcmd⟩ := h hmem
    refine ⟨(arg_receive d e).trans harg, ?_⟩
    rcases cmd_receive d e with heq | ⟨layer, buf, hstored, hlayer, heq⟩
    · rw [heq, hcmd]
    · rw [heq, hkeeps hmem layer buf hstored hlayer, hcmd]
  rcases daemonExec_cases hd with ⟨-, rfl, -⟩ | ⟨ev, s', -, hexec, rfl⟩
  · intro hmem
    rw [server_receive] at hmem
    exact hreceive hmem
  · intro hmem
    -- There is no new thread, so the pointer stays.
    have hsame : s'.workers = d.server.workers := hworkers
    have hmem' : .created ∈ s'.workers := hmem
    rw [hsame] at hmem'
    rw [setArg_of_not_grew (by rw [hsame]; exact lt_irrefl _)]
    exact hreceive hmem'

/-! ## Runs -/

/-- Events of the daemon that can happen are such events of the server. -/
private theorem wellFormed_toEvent (hwf : e.WellFormed) (hev : e.toEvent d = .ok (some ev)) :
    ev.WellFormed := by
  cases e with
  | store => cases hev
  | request os layer cmd =>
    obtain rfl := Option.some.inj (Except.ok.inj hev)
    exact hwf
  | printf | files =>
    obtain rfl := Option.some.inj (Except.ok.inj hev)
    trivial
  | worker i input =>
    obtain ⟨input', hread, rfl⟩ := toEvent_worker hev
    cases input with
    | line os buffer =>
      obtain rfl := Except.ok.inj hread
      exact hwf
    | eof | exit =>
      obtain rfl := Except.ok.inj hread
      trivial
    | start os =>
      -- Whatever the command is.
      unfold WorkerInput.read at hread
      dsimp only at hread
      split at hread
      · cases hcmd : d.cmd with
        | error f =>
          rw [hcmd] at hread
          cases hread
        | ok line =>
          rw [hcmd] at hread
          obtain rfl := Except.ok.inj hread
          trivial
      · obtain rfl := Except.ok.inj hread
        trivial

/-- A thread can be created in the server when it can in the daemon. -/
private theorem creates_toEvent (hcreates : e.Creates) (hev : e.toEvent d = .ok (some ev)) :
    ∀ os layer cmd, ev = .request os layer cmd → os.pthreadCreate = true := by
  rintro os layer cmd rfl
  cases e with
  | store => cases hev
  -- Only a request is a request of the server.
  | printf | files => cases Option.some.inj (Except.ok.inj hev)
  | request os' layer' cmd' =>
    obtain ⟨rfl, -⟩ := Event.request.inj (Option.some.inj (Except.ok.inj hev))
    exact hcreates
  | worker i input =>
    obtain ⟨input', -, heq⟩ := toEvent_worker hev
    cases heq

/-- Thread creation succeeds. -/
def CreatesThreads (l : Label) (_s _s' : Server) : Prop :=
  ∀ os layer cmd reply, l = .request os layer cmd reply → os.pthreadCreate = true

/-- The server's part of an event is a labelled step, or nothing. -/
private theorem history_of_exec {ls : List Label} {s s' : Server}
    (hist : History CreatesThreads ls s)
    (hwf : ev.WellFormed) (hcreates : ∀ os layer cmd, ev = .request os layer cmd →
      os.pthreadCreate = true) (hexec : exec ev s = .ok (s', o)) :
    ∃ ls', History CreatesThreads ls' s' := by
  cases ev with
  | request os layer cmd =>
    obtain ⟨reply, hreq, -⟩ := exec_request_eq_ok.mp hexec
    refine ⟨_, hist.step (.request hwf hreq) ?_⟩
    intro os' layer' cmd' reply' heq
    obtain ⟨rfl, -⟩ := Label.request.inj heq
    exact hcreates _ _ _ rfl
  | printf text =>
    obtain ⟨rfl, -⟩ := pure_pair_eq_ok.mp hexec
    exact ⟨_, hist.step (.printf text) nofun⟩
  | files files =>
    obtain ⟨rfl, -⟩ := pure_pair_eq_ok.mp hexec
    exact ⟨_, hist.step (.files files) nofun⟩
  | thread i input =>
    obtain ⟨hthread, -⟩ := exec_thread_eq_ok.mp hexec
    -- A worker takes a step of its own, or the input is not for it.
    rcases threadStep_cases hwf hthread with rfl | ⟨we, hstep⟩
    · exact ⟨ls, hist⟩
    · exact ⟨_, hist.step (.worker hstep) nofun⟩

/-- The server of a run from the start has a history, if threads can be created. -/
theorem history_of_daemonRun {es : List DaemonEvent} {outs : List (Option Bytes)} {ls : List Label}
    (hist : History CreatesThreads ls d.server) (hwf : ∀ e ∈ es, e.WellFormed ∧ e.Creates)
    (hrun : run daemonExec es d = .ok (d', outs)) :
    ∃ ls', History CreatesThreads ls' d'.server := by
  induction es generalizing d outs ls with
  | nil =>
    simp only [run, Except.ok.injEq, Prod.mk.injEq] at hrun
    exact ⟨ls, hrun.1 ▸ hist⟩
  | cons e es ih =>
    obtain ⟨d₁, o, os, he, hrest, -⟩ := run_cons_eq_ok.mp hrun
    have hes : ∀ e ∈ es, e.WellFormed ∧ e.Creates := fun e' h => hwf e' (List.mem_cons_of_mem _ h)
    obtain ⟨hwf₀, hcreates⟩ := hwf e List.mem_cons_self
    rcases daemonExec_cases he with ⟨-, rfl, -⟩ | ⟨ev, s', hev, hexec, rfl⟩
    · -- A store to a buffer leaves the server, and so its history.
      rw [← server_receive d e] at hist
      exact ih hist hes hrest
    · -- An event of the server is one more step of it.
      obtain ⟨ls', hist'⟩ := history_of_exec hist (wellFormed_toEvent hwf₀ hev)
        (creates_toEvent hcreates hev) hexec
      exact ih hist' hes hrest

end Udb.Spec
