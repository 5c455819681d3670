import Udb.ForStd.Fds

/-!
# Starting programs (`uvc_popen`, `uvc_pclose`)

`RUN_CMD` starts its program in the thread that serves requests, and `RUN_CMD_WAIT`
in a thread of its own, so two calls can be under way at a time. They share the
descriptors of the server and the array `childpid`, which the first call allocates
without a lock. Here a call is cut at every system call and at every store to
`childpid`, the calls of a child on its way to `execlp` one by one, and between two
such steps any other thread or process may take its own.

A first call whose `calloc` fails stores the null pointer, also over the array of
another. There a child dies in front of its `execlp`, and a call that comes to the
store of its child has no step: that is the end of the server.

The server opens streams with type `"r"` only, and is built without `LOW_MEM_MODE`,
so a child has its own copy of `childpid`.
-/

namespace Udb.Native

open Fds

/-- `STDOUT_FILENO` -/
def stdoutFileno : Nat := 1

/-- `STDERR_FILENO` -/
def stderrFileno : Nat := 2

/-- Where a thread stands in `uvc_popen`, or in the `uvc_pclose` behind it. -/
inductive Call where
  | idle
  /-- `childpid == NULL` was true. -/
  | first
  /-- `childpid` has been looked at, and `pipe` comes next. -/
  | ready
  /-- `pipe` has returned. -/
  | piped (r w : Nat)
  /-- `fork` has returned in the server. -/
  | forked (r w pid : Nat)
  /-- `pfd[1]` is closed. -/
  | closed (r pid : Nat)
  /-- The stream is open, and its child is in `childpid`. -/
  | reading (r : Nat)
  /-- `uvc_pclose` has taken the child from `childpid`. -/
  | cleared (r pid : Nat)
  /-- The stream is closed. -/
  | waiting (pid : Nat)
  deriving DecidableEq, Repr

/-- A system call of a child in front of `execlp`. -/
inductive ChildCall where
  | close (fd : Nat)
  | dup2 (oldfd newfd : Nat)
  /-- The load of `childpid[0]` where `childpid` is null. -/
  | segv
  deriving DecidableEq, Repr

/-- What it does to the descriptors of the child. A child that dies has none. -/
def ChildCall.run : ChildCall → Table → Table
  | .close fd, fds => fds.close fd
  | .dup2 oldfd newfd, fds => fds.dup2 oldfd newfd
  | .segv, _ => fun _ => none

/-- A process that descends from a child of the server, with the calls that are still in front of
    its `execlp`. No program looks at `family`, the pipe that was made for that child. -/
structure Proc where
  family : Nat
  fds : Table
  todo : List ChildCall

/-- What a process number stands for: nothing, a process, or one that has ended and that its parent
    has not waited for. -/
inductive Slot where
  | free
  | live (ofServer : Bool) (p : Proc)
  | zombie (ofServer : Bool) (stat : Nat)

/-- The server, with the processes behind it. -/
structure Sys where
  fds : Table
  childpid : Option (Nat → Nat)
  calls : Nat → Call
  procs : Nat → Slot
  nextPipe : Nat

/-- The calls of the child of a stream that is read. -/
def childCalls (maxfd : Nat) (childpid : Option (Nat → Nat)) (r w : Nat) : List ChildCall :=
  .close r ::
    (if w ≠ stdoutFileno then
      [.dup2 w stdoutFileno, .dup2 w stderrFileno, .close w]
    else []) ++
    -- Close all descriptors in `childpid[]`.
    match childpid with
    | none => [.segv]
    | some pids => ((List.range maxfd).filter fun i => 0 < pids i).map .close

namespace Sys

def setCall (s : Sys) (t : Nat) (c : Call) : Sys := { s with calls := Function.update s.calls t c }

def setProc (s : Sys) (q : Nat) (slot : Slot) : Sys :=
  { s with procs := Function.update s.procs q slot }

/-- `childpid[fd]`, which is 0 in an array that is not there yet. -/
def pidAt (s : Sys) (fd : Nat) : Nat :=
  match s.childpid with
  | none => 0
  | some pids => pids fd

/-- The pipe that a descriptor of the server is an end of. -/
def pipeOf (s : Sys) (fd : Nat) : Nat :=
  match s.fds fd with
  | some (.pipe e) => e.pipe
  | _ => 0

/-- `if (childpid == NULL)` -/
def test (s : Sys) (t : Nat) : Sys :=
  s.setCall t (if s.childpid.isNone then .first else .ready)

/-- `childpid = calloc(maxfd, sizeof(pid_t))`, whatever another thread has stored there. -/
def calloc (s : Sys) (t : Nat) : Sys := { s with childpid := some fun _ => 0 }.setCall t .ready

/-- The same store where `calloc` fails, and `return (NULL)`. -/
def callocFails (s : Sys) (t : Nat) : Sys := { s with childpid := none }.setCall t .idle

/-- `pipe(pfd)` -/
def pipe (s : Sys) (t r w : Nat) : Sys :=
  { s with
    fds := Function.update (Function.update s.fds r (some (.pipe ⟨s.nextPipe, false⟩))) w
      (some (.pipe ⟨s.nextPipe, true⟩))
    nextPipe := s.nextPipe + 1 }.setCall t (.piped r w)

/-- `fork()` -/
def fork (maxfd : Nat) (s : Sys) (t r w pid : Nat) : Sys :=
  (s.setProc pid (.live true ⟨s.pipeOf r, s.fds, childCalls maxfd s.childpid r w⟩)).setCall t
    (.forked r w pid)

/-- `close(pfd[1])` -/
def closeWrite (s : Sys) (t r w pid : Nat) : Sys :=
  { s with fds := s.fds.close w }.setCall t (.closed r pid)

/-- `childpid[fileno(fp)] = pid` -/
def remember (s : Sys) (t r pid : Nat) (pids : Nat → Nat) : Sys :=
  { s with childpid := some (Function.update pids r pid) }.setCall t (.reading r)

/-- `uvc_pclose`, up to `childpid[fd] = 0`. A stream that the array does not know stays open. -/
def takePid (s : Sys) (t r : Nat) : Sys :=
  match s.childpid with
  | none => s.setCall t .idle
  | some pids =>
    let pid := pids r
    if pid = 0 then s.setCall t .idle
    else { s with childpid := some (Function.update pids r 0) }.setCall t (.cleared r pid)

/-- `fclose(fp)` -/
def fclose (s : Sys) (t r : Nat) (c : Call) : Sys := { s with fds := s.fds.close r }.setCall t c

end Sys

/-- What can happen. Each event of the server is one of thread `t`. -/
inductive PopenEvent where
  | test (t : Nat)
  | getrlimitFails (t : Nat)
  | calloc (t : Nat)
  | callocFails (t : Nat)
  | pipe (t r w : Nat)
  | pipeFails (t : Nat)
  | fork (t pid : Nat)
  | forkFails (t : Nat)
  | closeWrite (t : Nat)
  | remember (t : Nat)
  | fdopenFails (t : Nat)
  | takePid (t : Nat)
  | fclose (t : Nat)
  | fcloseFails (t : Nat)
  | wait (t stat : Nat)
  | file (fd : Nat) (d : Option Desc)
  | childCall (q : Nat)
  | childFork (q q' : Nat)
  | childFds (q : Nat) (fds : Table) (pipes : Nat)
  | exit (q stat : Nat)
  | reap (q : Nat)

/-- One step of the server or of a process behind it. The kernel gives out any descriptors and any
    process number that are free. -/
inductive PopenStep (maxfd : Nat) : Sys → PopenEvent → Sys → Prop where
  | test {s : Sys} {t : Nat} (ht : s.calls t = .idle) : PopenStep maxfd s (.test t) (s.test t)
  | getrlimitFails {s : Sys} {t : Nat} (ht : s.calls t = .first) :
      PopenStep maxfd s (.getrlimitFails t) (s.setCall t .idle)
  | calloc {s : Sys} {t : Nat} (ht : s.calls t = .first) :
      PopenStep maxfd s (.calloc t) (s.calloc t)
  | callocFails {s : Sys} {t : Nat} (ht : s.calls t = .first) :
      PopenStep maxfd s (.callocFails t) (s.callocFails t)
  | pipe {s : Sys} {t r w : Nat} (ht : s.calls t = .ready) (hr : s.fds r = none)
      (hw : s.fds w = none) (hne : r ≠ w) (hr' : r < maxfd) (hw' : w < maxfd) :
      PopenStep maxfd s (.pipe t r w) (s.pipe t r w)
  | pipeFails {s : Sys} {t : Nat} (ht : s.calls t = .ready) :
      PopenStep maxfd s (.pipeFails t) (s.setCall t .idle)
  | fork {s : Sys} {t r w pid : Nat} (ht : s.calls t = .piped r w) (hpid : 0 < pid)
      (hfree : s.procs pid = .free) : PopenStep maxfd s (.fork t pid) (s.fork maxfd t r w pid)
  /-- `return (NULL)`: both ends stay open. -/
  | forkFails {s : Sys} {t r w : Nat} (ht : s.calls t = .piped r w) :
      PopenStep maxfd s (.forkFails t) (s.setCall t .idle)
  | closeWrite {s : Sys} {t r w pid : Nat} (ht : s.calls t = .forked r w pid) :
      PopenStep maxfd s (.closeWrite t) (s.closeWrite t r w pid)
  | remember {s : Sys} {t r pid : Nat} {pids : Nat → Nat} (ht : s.calls t = .closed r pid)
      (hpids : s.childpid = some pids) :
      PopenStep maxfd s (.remember t) (s.remember t r pid pids)
  /-- `return (NULL)`: the end stays open, and nobody knows the child. -/
  | fdopenFails {s : Sys} {t r pid : Nat} (ht : s.calls t = .closed r pid) :
      PopenStep maxfd s (.fdopenFails t) (s.setCall t .idle)
  | takePid {s : Sys} {t r : Nat} (ht : s.calls t = .reading r) :
      PopenStep maxfd s (.takePid t) (s.takePid t r)
  | fclose {s : Sys} {t r pid : Nat} (ht : s.calls t = .cleared r pid) :
      PopenStep maxfd s (.fclose t) (s.fclose t r (.waiting pid))
  /-- `return (-1)`: the descriptor is closed, but the child is not waited for. -/
  | fcloseFails {s : Sys} {t r pid : Nat} (ht : s.calls t = .cleared r pid) :
      PopenStep maxfd s (.fcloseFails t) (s.fclose t r .idle)
  /-- `waitpid` returns when the child has ended. -/
  | wait {s : Sys} {t pid stat : Nat} (ht : s.calls t = .waiting pid)
      (hz : s.procs pid = .zombie true stat) :
      PopenStep maxfd s (.wait t stat) ((s.setProc pid .free).setCall t .idle)
  /-- The server opens or closes something that is not a pipe, and not a standard stream. -/
  | file {s : Sys} {fd : Nat} {d : Option Desc} (hstd : 3 ≤ fd)
      (hold : s.fds fd = none ∨ s.fds fd = some .other) (hnew : d = none ∨ d = some .other) :
      PopenStep maxfd s (.file fd d) { s with fds := Function.update s.fds fd d }
  /-- A child takes the next call on its way to `execlp`. One that dies there takes none. -/
  | childCall {s : Sys} {q : Nat} {ofServer : Bool} {p : Proc} {c : ChildCall}
      {todo : List ChildCall} (hq : s.procs q = .live ofServer p) (htodo : p.todo = c :: todo)
      (hc : c ≠ .segv) :
      PopenStep maxfd s (.childCall q)
        (s.setProc q (.live ofServer { p with fds := c.run p.fds, todo := todo }))
  | childFork {s : Sys} {q q' : Nat} {ofServer : Bool} {p : Proc}
      (hq : s.procs q = .live ofServer p) (htodo : p.todo = []) (hpid : 0 < q')
      (hfree : s.procs q' = .free) :
      PopenStep maxfd s (.childFork q q') (s.setProc q' (.live false p))
  /-- A program closes, duplicates and opens files, and makes pipes of its own. -/
  | childFds {s : Sys} {q pipes : Nat} {ofServer : Bool} {p : Proc} {fds : Table}
      (hq : s.procs q = .live ofServer p) (htodo : p.todo = []) (hle : s.nextPipe ≤ pipes)
      (hfds : ∀ pipe write, fds.Holds pipe write →
        p.fds.Holds pipe write ∨ s.nextPipe ≤ pipe ∧ pipe < pipes) :
      PopenStep maxfd s (.childFds q fds pipes)
        { s.setProc q (.live ofServer { p with fds := fds }) with nextPipe := pipes }
  | exit {s : Sys} {q stat : Nat} {ofServer : Bool} {p : Proc}
      (hq : s.procs q = .live ofServer p) :
      PopenStep maxfd s (.exit q stat) (s.setProc q (.zombie ofServer stat))
  /-- A process that has another parent is waited for by that. -/
  | reap {s : Sys} {q stat : Nat} (hq : s.procs q = .zombie false stat) :
      PopenStep maxfd s (.reap q) (s.setProc q .free)

end Udb.Native
