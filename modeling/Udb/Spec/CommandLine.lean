import Udb.Native.ClientLine
import Udb.Spec.Main
import Udb.Spec.Remote

/-!
# Command lines

The whole tool: a user types commands behind `-i`, each of them is a process of its own that
reads its words, talks to the device and reads or writes files of the user. `Desk` is what
this is for: files here and files there, and commands that copy between them.

A pull opens the user's file before it asks the device, so behind a pull that the device
refuses, or of a file that is not there, the user has an empty file. A file that cannot be
opened for writing is left alone, and the device is not asked.

## Key results

- `implements_desk`: one command line does what `Desk.step` says
- `command_lines_refine`: so do all that a user types
-/

namespace Udb.Spec

open CMem Udb.Native Refine

/-! ## The user and the device -/

/-- What a user types. `out` is what the shell of the device prints for a line. -/
inductive UserCmd where
  | auth
  | push (file devPath : CString)
  | pull (file devPath : CString)
  | shell (arg : CString) (argv : List CString) (out : Bytes)
  | log

/-- The files of the user, the paths that can be written to, and the device. -/
structure Desk where
  files : Files
  writable : Bytes → Bool
  remote : Remote

/-- What a pull stores. -/
def Remote.fetched (r : Remote) (path : Bytes) : Content :=
  if r.authed then (r.files path).getD ⟨[], by decide⟩ else ⟨[], by decide⟩

namespace Desk

/-- The device does its part, and the user's files become `files`. -/
def goOn (layer : UInt8) (d : Desk) (op : Op) (files : Files) : Desk × Bytes :=
  (⟨files, d.writable, (d.remote.step layer op).1⟩, (d.remote.step layer op).2)

/-- One command, with what it gets from the device. -/
def step (layer : UInt8) (d : Desk) : UserCmd → Desk × Bytes
  | .auth => d.goOn layer .auth d.files
  | .push file devPath =>
    match d.files file.bytes with
    | some content => d.goOn layer (.push devPath content) d.files
    | none => (d, [])
  | .pull file devPath =>
    if d.writable file.bytes then
      d.goOn layer (.pull devPath)
        (Function.update d.files file.bytes (some (d.remote.fetched devPath.bytes)))
    else (d, [])
  | .shell arg argv out => d.goOn layer (.shell (arg :: argv) out) d.files
  | .log => d.goOn layer .mshLog d.files

end Desk

/-! ## Processes -/

/-- The words of a command. -/
def UserCmd.words : UserCmd → List CString
  | .auth => [⟨ascii "auth", by decide⟩]
  | .push file devPath => [⟨ascii "push", by decide⟩, file, devPath]
  | .pull file devPath => [⟨ascii "pull", by decide⟩, file, devPath]
  | .shell arg argv _ => ⟨ascii "shell", by decide⟩ :: arg :: argv
  | .log => ⟨ascii "msh", by decide⟩ :: logArgs

/-- What the shell of the device prints for it. -/
def UserCmd.out : UserCmd → Bytes
  | .shell _ _ out => out
  | _ => []

/-- The command of a script that answers a question, where the shell prints `out`. -/
def opOf (out : Bytes) : Ask → Option Op
  | .auth => some .auth
  | .push devPath content =>
    if h : content.length < 2 ^ 32 then some (.push devPath ⟨content, h⟩) else none
  | .pull devPath => some (.pull devPath)
  | .shell argv => some (.shell argv out)
  | .msh argv => if argv = logArgs then some .mshLog else none

/-- A process of the tool, started with the words of a command behind `-i host`. -/
inductive LineRuns (layer : UInt8) (host : CString) :
    UserCmd → LocalFiles × Server → Bytes → LocalFiles × Server → Prop where
  | idle {cmd : UserCmd} {prog : CString} {call : MainCall} {disk : LocalFiles} {s : Server}
      (hmain : main none [] [] (prog :: ((Target.net host).words ++ cmd.words)) = .ok (.ret call))
      (hask : call.fn.ask disk call.args = none) : LineRuns layer host cmd (disk, s) [] (disk, s)
  | perform {cmd : UserCmd} {prog : CString} {call : MainCall} {ask : Ask} {op : Op}
      {disk : LocalFiles} {s s' : Server} {got : Bytes}
      (hmain : main none [] [] (prog :: ((Target.net host).words ++ cmd.words)) = .ok (.ret call))
      (hask : call.fn.ask disk call.args = some ask) (hop : opOf cmd.out ask = some op)
      (hperf : Performs layer op s got s') :
      LineRuns layer host cmd (disk, s) got (call.fn.stored disk got call.args, s')

/-- The function that is called for a command. -/
def UserCmd.fn : UserCmd → MainFn
  | .auth => .auth
  | .push _ _ => .pushFile
  | .pull _ _ => .pullFile
  | .shell _ _ _ => .execCmd
  | .log => .mshExecCmd

/-- Its words. -/
def UserCmd.args : UserCmd → List CString
  | .auth => []
  | .push file devPath => [file, devPath]
  | .pull file devPath => [file, devPath]
  | .shell arg argv _ => arg :: argv
  | .log => logArgs

variable {layer : UInt8} {host : CString}

/-- `main` reads what the user typed. -/
private theorem main_words (host prog : CString) (cmd : UserCmd) :
    main none [] [] (prog :: ((Target.net host).words ++ cmd.words)) =
      .ok (.ret ⟨0, some host, cmd.fn, cmd.args⟩) := by
  cases cmd with
  | auth => exact main_net (by decide) host
  | push file devPath => exact main_net (by decide) host
  | pull file devPath => exact main_net (by decide) host
  | shell arg argv out => exact main_net (by decide) host
  | log => exact main_net (by decide) host

/-! ## One command -/

/-- What a command asks the device for. -/
def UserCmd.op (d : Desk) : UserCmd → Option Op
  | .auth => some .auth
  | .push file devPath => (d.files file.bytes).map (.push devPath)
  | .pull file devPath => if d.writable file.bytes then some (.pull devPath) else none
  | .shell arg argv out => some (.shell (arg :: argv) out)
  | .log => some .mshLog

/-- The user's files as the tool finds them. -/
def Desk.disk (d : Desk) : LocalFiles := ⟨d.files.bytes, d.writable⟩

/-- The question of a command is the one that its operation answers. -/
private theorem ask_bind_opOf (d : Desk) (cmd : UserCmd) :
    (cmd.fn.ask d.disk cmd.args).bind (opOf cmd.out) = cmd.op d := by
  cases cmd with
  | push file devPath =>
    simp only [UserCmd.fn, UserCmd.args, MainFn.ask, UserCmd.op, Desk.disk, Files.bytes]
    -- A file of the user that is there is one that is short enough.
    cases hfile : d.files file.bytes with
    | none => rfl
    | some content =>
      simp only [Option.map_some, Option.bind_some, opOf, dif_pos content.property]
  | pull file devPath =>
    show (if d.writable file.bytes then some (Ask.pull devPath) else none).bind (opOf []) =
      if d.writable file.bytes then some (Op.pull devPath) else none
    split <;> rfl
  | log => simp [opOf, UserCmd.op, UserCmd.fn, UserCmd.args, MainFn.ask]
  | _ => rfl

/-- Each question has an answer. -/
private theorem ask_eq_none {d : Desk} {cmd : UserCmd} (hop : cmd.op d = none) :
    cmd.fn.ask d.disk cmd.args = none := by
  cases cmd with
  | push file devPath =>
    -- A push without its file.
    have hfile : d.files file.bytes = none := Option.map_eq_none_iff.mp hop
    simp only [UserCmd.fn, UserCmd.args, MainFn.ask, Desk.disk, Files.bytes, hfile, Option.map_none]
  | pull file devPath =>
    simp only [UserCmd.op] at hop
    split at hop
    · cases hop
    · -- A pull into a path that cannot be opened.
      rename_i hno
      exact if_neg hno
  | _ => cases hop

/-- The user's files behind a command. -/
def Desk.filesBehind (d : Desk) : UserCmd → Files
  | .pull file devPath =>
    Function.update d.files file.bytes (some (d.remote.fetched devPath.bytes))
  | _ => d.files

/-- A command that asks for something is one operation of the device. -/
private theorem Desk.step_of_op {d : Desk} {cmd : UserCmd} {op : Op} (hop : cmd.op d = some op) :
    d.step layer cmd = d.goOn layer op (d.filesBehind cmd) := by
  cases cmd with
  | push file devPath =>
    obtain ⟨content, hfile, rfl⟩ := Option.map_eq_some_iff.mp hop
    simp only [Desk.step, hfile]
    rfl
  | pull file devPath =>
    simp only [UserCmd.op] at hop
    split at hop
    · -- The path can be written, so the command reaches the device.
      rename_i hwritable
      cases hop
      exact if_pos hwritable
    · cases hop
  | _ =>
    cases hop
    rfl

/-- A command that asks for nothing changes nothing. -/
private theorem Desk.step_of_none {d : Desk} {cmd : UserCmd} (hop : cmd.op d = none) :
    d.step layer cmd = (d, []) := by
  cases cmd with
  | push file devPath =>
    have hfile : d.files file.bytes = none := Option.map_eq_none_iff.mp hop
    simp only [Desk.step, hfile]
  | pull file devPath =>
    simp only [UserCmd.op] at hop
    split at hop
    · cases hop
    · -- The path cannot be written, so nothing is asked for.
      rename_i hno
      exact if_neg hno
  | _ => cases hop

/-- What a pull stores is what the device hands out. -/
private theorem Remote.val_fetched (r : Remote) (devPath : CString) :
    (r.fetched devPath.bytes).val = (r.step layer (.pull devPath)).2 := by
  simp only [Remote.fetched, Remote.step, Files.bytes]
  split
  · cases hfile : r.files devPath.bytes <;> rfl
  · rfl

/-- What a pull gets is what it stores. -/
private theorem stored_eq {d : Desk} {cmd : UserCmd} {op : Op} (hop : cmd.op d = some op) :
    cmd.fn.stored d.disk (d.remote.step layer op).2 cmd.args =
      ⟨(d.filesBehind cmd).bytes, d.writable⟩ := by
  cases cmd with
  | pull file devPath =>
    simp only [UserCmd.op] at hop
    split at hop
    · rename_i hwritable
      obtain rfl := Option.some.inj hop
      -- The file of the pull gets what the device has answered, every other file is kept.
      have hbytes : Function.update d.files.bytes file.bytes
          (some (d.remote.step layer (.pull devPath)).2) =
            (d.filesBehind (.pull file devPath)).bytes := by
        rw [← Remote.val_fetched]
        funext path
        simp only [Desk.filesBehind, Files.bytes, Function.update_apply]
        split <;> rfl
      show (if d.writable file.bytes then _ else _) = _
      rw [if_pos hwritable, ← hbytes]
      rfl
    · cases hop
  | _ => rfl

/-- The words fit the packets, a line for the shell is not one of the server's own commands, and its
    output has no 0. -/
def UserCmd.Fits (layer : UInt8) : UserCmd → Prop
  | .push _ devPath => 8 + devPath.bytes.length < layerProtSize layer
  | .pull _ devPath => 4 + devPath.bytes.length < layerProtSize layer
  | .shell arg argv out => (Op.shell (arg :: argv) out).Fits layer
  | _ => True

/-- The operation of a command fits when the command does. -/
theorem UserCmd.Fits.op {cmd : UserCmd} {d : Desk} {op : Op} (h : cmd.Fits layer)
    (hop : cmd.op d = some op) : op.Fits layer := by
  cases cmd with
  | push file devPath =>
    -- What fits was said about the words, and the operation has the same.
    obtain ⟨content, -, rfl⟩ := Option.map_eq_some_iff.mp hop
    exact h
  | pull file devPath =>
    simp only [UserCmd.op] at hop
    split at hop
    · cases hop
      exact h
    · cases hop
  | _ =>
    cases hop
    exact h

/-- The user's files and the server are in a state that shows the desk. -/
structure Desk.Shows (d : Desk) (c : LocalFiles × Server) : Prop where
  disk : c.1 = d.disk
  remote : Presents d.remote c.2

/-- A command line does with the user's files and on the server what the desk says. -/
theorem implements_desk (layer : UInt8) (host : CString) :
    Implements Desk.Shows (UserCmd.Fits layer) (Desk.step layer) (LineRuns layer host) where
  total := by
    intro d c cmd h hfit
    obtain ⟨disk, s⟩ := c
    obtain ⟨rfl, hremote⟩ := h
    have hmain := main_words host host cmd
    cases hop : cmd.op d with
    | none => exact ⟨_, _, .idle hmain (ask_eq_none hop)⟩
    | some op =>
      -- The device does its part.
      obtain ⟨ask, hask, hopOf⟩ := Option.bind_eq_some_iff.mp ((ask_bind_opOf d cmd).trans hop)
      obtain ⟨o, s', hperf⟩ := (implements_remote layer).total hremote (hfit.op hop)
      exact ⟨_, _, .perform hmain hask hopOf hperf⟩
  sound := by
    intro d c cmd o c' h hfit hrun
    cases hrun with
    | idle hmain hask =>
      -- What cannot be opened comes to nothing, on the desk as well.
      obtain ⟨hdisk, hremote⟩ := h
      dsimp only at hdisk
      subst hdisk
      rw [main_words] at hmain
      cases hmain
      have hop : cmd.op d = none := by
        rw [← ask_bind_opOf, hask]
        rfl
      rw [Desk.step_of_none hop]
      exact ⟨rfl, rfl, hremote⟩
    | perform hmain hask hopOf hperf =>
      obtain ⟨hdisk, hremote⟩ := h
      dsimp only at hdisk
      subst hdisk
      rw [main_words] at hmain
      cases hmain
      have hop : cmd.op d = some _ := (ask_bind_opOf d cmd).symm.trans
        (Option.bind_eq_some_iff.mpr ⟨_, hask, hopOf⟩)
      obtain ⟨rfl, hremote'⟩ := (implements_remote layer).sound hremote (hfit.op hop) hperf
      rw [Desk.step_of_op hop]
      exact ⟨rfl, stored_eq hop, hremote'⟩

/-! ## What a user types -/

/-- All that a user types refines the desk. From every reachable state of the server, with any files
    of the user and of the device, all command lines that fit run to their end, and however they
    run, over a network that may delay, reorder and lose datagrams, they get from the device what
    the desk gives, and both sides have the files that it has. A file of the user that cannot be
    opened leaves everything as it was. -/
theorem command_lines_refine (layer : UInt8) (host : CString) (s : Server) (hs : Reachable s)
    (files devFiles : Files) (writable : Bytes → Bool) (hfiles : s.dev.files = devFiles.bytes)
    (log : List Bytes) (hlog : s.rlog = rlogRun log) (cmds : List UserCmd)
    (hcmds : ∀ cmd ∈ cmds, cmd.Fits layer) :
    (∃ outs c', Run (LineRuns layer host) cmds (⟨files.bytes, writable⟩, s) outs c') ∧
      ∀ outs c', Run (LineRuns layer host) cmds (⟨files.bytes, writable⟩, s) outs c' →
        let ended :=
          specRun (Desk.step layer) ⟨files, writable, s.udbAuthOk, devFiles, log⟩ cmds
        outs = ended.2 ∧ c'.1.content = ended.1.files.bytes ∧
          c'.2.dev.files = ended.1.remote.files.bytes := by
  have hstart : Desk.Shows ⟨files, writable, s.udbAuthOk, devFiles, log⟩
      (⟨files.bytes, writable⟩, s) := ⟨rfl, inv_of_reachable hs, hfiles, hlog⟩
  constructor
  · exact (implements_desk layer host).run_total hstart hcmds
  · intro outs c' hrun
    -- A run of the processes is one of the desk, which holds the files of both sides.
    obtain ⟨hout, hend⟩ := (implements_desk layer host).run_sound hstart hcmds hrun
    exact ⟨hout, congrArg LocalFiles.content hend.disk, hend.remote.files⟩

/-- A file is pushed, listed, and pulled into another one. A pull into a directory asks for
    nothing. -/
theorem command_lines_refine_copy :
    let a : CString := ⟨ascii "a", by decide⟩
    let b : CString := ⟨ascii "b", by decide⟩
    let c : CString := ⟨ascii "c", by decide⟩
    let tmp : CString := ⟨ascii "/tmp", by decide⟩
    let files : Files := Function.update (fun _ => none) a.bytes (some ⟨[1, 0, 3], by decide⟩)
    let writable : Bytes → Bool := fun path => path ≠ tmp.bytes
    let cmds : List UserCmd :=
      [.push a b, .shell ⟨ascii "ls", by decide⟩ [] (ascii "b\n"), .pull c b, .pull tmp b]
    ∃ outs c', Run (LineRuns udbLayerNet a) cmds (⟨files.bytes, writable⟩, authed fun _ => none)
      outs c' ∧ outs = [[], ascii "b\n", [1, 0, 3], []] ∧ c'.1.content c.bytes = some [1, 0, 3] ∧
      c'.1.content tmp.bytes = none := by
  intro a b c tmp files writable cmds
  -- `ls` is no built-in, so the server leaves it to its shell.
  have hleft : LeftToShell (packed 4 [⟨ascii "ls", by decide⟩]) := fun _ _ => rfl
  have hfits : ∀ cmd ∈ cmds, cmd.Fits udbLayerNet := by
    simp only [cmds, List.forall_mem_cons, List.not_mem_nil, false_implies, implies_true, and_true,
      UserCmd.Fits, Op.Fits]
    exact ⟨by decide, ⟨by decide, hleft, by decide⟩, by decide, by decide⟩
  obtain ⟨⟨outs, c', hrun⟩, hall⟩ := command_lines_refine udbLayerNet a (authed fun _ => none)
    (reachable_authed _) files (fun _ => none) writable rfl [] rfl cmds hfits
  -- What the desk gives is computed.
  obtain ⟨hout, hcontent, -⟩ := hall outs c' hrun
  refine ⟨outs, c', hrun, hout, ?_, ?_⟩
  · rw [hcontent]
    rfl
  · rw [hcontent]
    rfl

end Udb.Spec
