import Udb.ForStd.Interleave
import Udb.Native.Bridge

/-!
# The server as a machine

`Step` says what can happen next. Here the same steps are a function of an event,
which carries everything that is not in the server's state: the request, what the
operating system answers, and what a worker thread finds when it runs. Two runs
with the same events differ only in the states they start from.
-/

namespace Udb.Native

open CMem

/-! ## Threads -/

/-- What a worker thread finds in one step. -/
inductive ThreadInput where
  | start (os : Os) (cmd : Bytes)
  | line (os : Os) (buffer : Bytes)
  | eof
  | exit

/-- One step of the thread at place `i`. A thread that is not there, or stands elsewhere, takes
    none. -/
def threadStep (i : Nat) (input : ThreadInput) (s : Server) : Except Fault Server :=
  match s.workers[i]?, input with
  | some .created, .start os cmd => do
    let (s', w) ← threadStart os cmd s
    pure { s' with workers := s'.workers.set i w }
  | some (.reading threadCmd), .line os buffer => do
    let (s', w) ← threadLine os threadCmd buffer s
    pure { s' with workers := s'.workers.set i w }
  | some (.reading _), .eof =>
    pure { (threadEof s).1 with workers := s.workers.set i (threadEof s).2 }
  | some .exiting, .exit => pure { threadExit s with workers := s.workers.eraseIdx i }
  | _, _ => pure s

section Equations

variable {i : Nat} {os : Os} {cmd threadCmd buffer : Bytes} {s : Server}

/-- A thread that was created starts. -/
theorem threadStep_start (hw : s.workers[i]? = some .created) :
    threadStep i (.start os cmd) s = threadStart os cmd s >>= fun p =>
      .ok { p.1 with workers := p.1.workers.set i p.2 } := by
  simp only [threadStep, hw, pure_eq_ok]

/-- A thread that reads gets a line. -/
theorem threadStep_line (hw : s.workers[i]? = some (.reading threadCmd)) :
    threadStep i (.line os buffer) s = threadLine os threadCmd buffer s >>= fun p =>
      .ok { p.1 with workers := p.1.workers.set i p.2 } := by
  simp only [threadStep, hw, pure_eq_ok]

/-- It comes to the end. -/
theorem threadStep_eof (hw : s.workers[i]? = some (.reading threadCmd)) :
    threadStep i .eof s =
      .ok { (threadEof s).1 with workers := s.workers.set i (threadEof s).2 } := by
  simp only [threadStep, hw, pure_eq_ok]

/-- It is gone. -/
theorem threadStep_exit (hw : s.workers[i]? = some .exiting) :
    threadStep i .exit s = .ok { threadExit s with workers := s.workers.eraseIdx i } := by
  simp only [threadStep, hw, pure_eq_ok]

end Equations

/-- What a thread can find: `fgets` returns at least one byte, and no more than fit in front of
    its terminator. -/
def ThreadInput.WellFormed : ThreadInput → Prop
  | .line _ buffer => buffer ≠ [] ∧ buffer.length < 1024
  | _ => True

/-- A thread step is one of the steps of the system, or nothing happens. -/
theorem threadStep_cases {i : Nat} {input : ThreadInput} {s s' : Server} (hwf : input.WellFormed)
    (h : threadStep i input s = .ok s') : s' = s ∨ ∃ e, WorkerStep i e s s' := by
  unfold threadStep at h
  split at h
  · -- The worker has been created, and starts.
    rename_i os cmd hw
    obtain ⟨⟨s₁, w⟩, hstart, h⟩ := bind_eq_ok.mp h
    obtain rfl := Except.ok.inj h
    exact .inr ⟨.start, .start hw hstart⟩
  · -- It reads, and there is a line.
    rename_i threadCmd os buffer hw
    obtain ⟨⟨s₁, w⟩, hline, h⟩ := bind_eq_ok.mp h
    obtain rfl := Except.ok.inj h
    exact .inr ⟨.line buffer, .line hw hwf hline⟩
  · -- It reads, and the stream is at its end.
    rename_i threadCmd hw
    obtain rfl := Except.ok.inj h
    exact .inr ⟨.eof, .eof hw⟩
  · -- It is done, and exits.
    rename_i hw
    obtain rfl := Except.ok.inj h
    exact .inr ⟨.exit, .exit hw⟩
  · -- There is no such worker.
    exact .inl (Except.ok.inj h).symm

/-- Every worker step of the system is a thread step. -/
theorem threadStep_of_workerStep {i : Nat} {e : WorkerEvent} {s s' : Server}
    (h : WorkerStep i e s s') :
    ∃ input : ThreadInput, input.WellFormed ∧ threadStep i input s = .ok s' := by
  cases h with
  | @start _ _ os cmd _ hw h =>
    exact ⟨.start os cmd, trivial, (threadStep_start hw).trans (bind_eq_ok.mpr ⟨_, h, rfl⟩)⟩
  | @line _ _ os _ buffer _ hw hb h =>
    exact ⟨.line os buffer, hb, (threadStep_line hw).trans (bind_eq_ok.mpr ⟨_, h, rfl⟩)⟩
  | eof hw => exact ⟨.eof, trivial, threadStep_eof hw⟩
  | exit hw => exact ⟨.exit, trivial, threadStep_exit hw⟩

/-! ## Events -/

/-- What can happen to the server. -/
inductive Event where
  | request (os : Os) (layer : UInt8) (cmd : Bytes)
  | thread (i : Nat) (input : ThreadInput)
  | printf (text : Bytes)
  | files (files : Bytes → Option Bytes)

/-- One event, with the reply if it is a request. -/
def exec : Interleave.Machine Server Event (Option Bytes) Fault
  | .request os layer cmd, s => do
    let (s', reply) ← request os layer cmd s
    pure (s', some reply)
  | .thread i input, s => do
    let s' ← threadStep i input s
    pure (s', none)
  | .printf text, s => pure (s.printf text, none)
  | .files files, s => pure ({ s with dev := { s.dev with files := files } }, none)

/-- A request that is answered. -/
theorem exec_request_eq_ok {os : Os} {layer : UInt8} {cmd : Bytes} {s s' : Server}
    {o : Option Bytes} : exec (.request os layer cmd) s = .ok (s', o) ↔
      ∃ reply, request os layer cmd s = .ok (s', reply) ∧ o = some reply := by
  simp only [exec, bind_eq_ok]
  constructor
  · rintro ⟨⟨s₁, reply⟩, hreq, h⟩
    obtain ⟨rfl, rfl⟩ := pure_pair_eq_ok.mp h
    exact ⟨reply, hreq, rfl⟩
  · rintro ⟨reply, hreq, rfl⟩
    exact ⟨(s', reply), hreq, rfl⟩

/-- A step of a thread has no reply. -/
theorem exec_thread_eq_ok {i : Nat} {input : ThreadInput} {s s' : Server} {o : Option Bytes} :
    exec (.thread i input) s = .ok (s', o) ↔ threadStep i input s = .ok s' ∧ o = none := by
  simp only [exec, bind_eq_ok]
  constructor
  · rintro ⟨s₁, hthread, h⟩
    obtain ⟨rfl, rfl⟩ := pure_pair_eq_ok.mp h
    exact ⟨hthread, rfl⟩
  · rintro ⟨hthread, rfl⟩
    exact ⟨s', hthread, rfl⟩

/-- A transport hands over a buffer of the protocol size, and threads find what they can find. -/
def Event.WellFormed : Event → Prop
  | .request _ layer cmd => cmd.length = layerProtSize layer
  | .thread _ input => input.WellFormed
  | _ => True

/-- The events of the machine are the steps of the system. -/
theorem step_iff_exec {s s' : Server} :
    (s' = s ∨ Step s s') ↔
      s' = s ∨ ∃ (e : Event) (o : Option Bytes), e.WellFormed ∧ exec e s = .ok (s', o) := by
  constructor
  · -- Each step is an event.
    rintro (rfl | hstep)
    · exact .inl rfl
    · right
      cases hstep with
      | @request _ os layer cmd reply hcmd h =>
        exact ⟨.request os layer cmd, some reply, hcmd, exec_request_eq_ok.mpr ⟨reply, h, rfl⟩⟩
      | @worker _ i e h =>
        obtain ⟨input, hwf, hok⟩ := threadStep_of_workerStep h
        exact ⟨.thread i input, none, hwf, exec_thread_eq_ok.mpr ⟨hok, rfl⟩⟩
      | printf text => exact ⟨.printf text, none, trivial, rfl⟩
      | files files => exact ⟨.files files, none, trivial, rfl⟩
  · -- Each event that returns is a step, or leaves the state as it is.
    rintro (rfl | ⟨e, o, hwf, h⟩)
    · exact .inl rfl
    · cases e with
      | request os layer cmd =>
        obtain ⟨reply, hreq, -⟩ := exec_request_eq_ok.mp h
        exact .inr (.request hwf hreq)
      | thread i input =>
        obtain ⟨hthread, -⟩ := exec_thread_eq_ok.mp h
        exact (threadStep_cases hwf hthread).imp_right fun ⟨_, hw⟩ => .worker hw
      | printf text =>
        obtain ⟨rfl, -⟩ := pure_pair_eq_ok.mp h
        exact .inr (.printf text)
      | files files =>
        obtain ⟨rfl, -⟩ := pure_pair_eq_ok.mp h
        exact .inr (.files files)

end Udb.Native
