import Udb.ForStd.Refine
import Udb.Spec.Effects

/-!
# The device behind the tool

What the packets, cursors and buffers are for: the user of the tool sees a device
with files, a shell and a log. `Remote` is that device, with one step for each
command and no protocol. A script is any list of commands, and of what else happens
to the device between them: its other programs change files and log.

The device refuses everything until the key was sent, without saying so: every
command ends, with no output, and changes nothing.

A file is known by the path it is opened with; two paths of one file are two files.

## Key results

- `implements_remote`: one command does on the server what `Remote.step` says
- `script_refines`: so do scripts
- `pull_gets_last_push`: what a pull in a script gets
-/

namespace Udb.Spec

open CMem StopAndWait Udb.Native Refine

/-! ## The abstract device -/

/-- The content of a file. Its size fits the four bytes that announce it. -/
abbrev Content := { content : Bytes // content.length < 2 ^ 32 }

/-- The files of a device. -/
abbrev Files := Bytes → Option Content

/-- The files as the server's device has them. -/
def Files.bytes (files : Files) (path : Bytes) : Option Bytes := (files path).map Subtype.val

/-- What the user of the tool sees of a device. -/
structure Remote where
  authed : Bool
  files : Files
  log : List Bytes

/-- The commands of a script, and what else happens to the device. -/
inductive Op where
  | auth
  | push (devPath : CString) (content : Content)
  | pull (devPath : CString)
  /-- A command line, on which the shell prints `out`. -/
  | shell (argv : List CString) (out : Bytes)
  | mshLog
  | change (files : Files)
  | print (text : Bytes)

namespace Remote

/-- A message of a program on the device. -/
def print (r : Remote) (text : Bytes) : Remote := { r with log := r.log ++ [rlogTag, text] }

/-- One step, with what the client gets. -/
def step (layer : UInt8) (r : Remote) : Op → Remote × Bytes
  | .auth => ({ r with authed := true }, padTo (layerProtSize layer) (ascii "AUTHOK"))
  | .change files => ({ r with files := files }, [])
  | .print text => (r.print text, [])
  | .push devPath content =>
    if r.authed then
      ({ r with files := Function.update r.files devPath.bytes (some content) }.print
        (pushText devPath.bytes (UInt32.ofNat content.val.length)), [])
    else (r, [])
  | .pull devPath =>
    if r.authed then
      (r.print (pullText devPath.bytes (r.files.bytes devPath.bytes)),
        (r.files.bytes devPath.bytes).getD [])
    else (r, [])
  | .shell _ out => (r, if r.authed then keptOutput out else [])
  | .mshLog => (r, if r.authed then newest r.log else [])

end Remote

/-! ## The tool on the server -/

/-- The operating system serves the files of the device, and nothing fails. -/
structure Serves (os : Os) (dev : Device) : Prop where
  reads : ∀ path, os.fopenRead path =
    (dev.files path).map fun content => ⟨content.length, content⟩
  allocates : ∀ n, os.malloc n ≠ none
  opens : ∀ path, os.fopenWrite path = true
  writes : WritesInFull os

/-- The command's client runs to its end, over the network, and the server has gone from one state
    to the other. The operating system may answer differently in each command. -/
inductive Performs (layer : UInt8) : Op → Server → Bytes → Server → Prop where
  | auth {os : Os} {driver : Driver} {packet : Buf (layerProtSize layer)}
      {st' : AuthState (layerProtSize layer)} {s s' : Server} {out : Bytes}
      (hpacket : authPacket (layerProtSize layer) = .ok packet)
      (h : Ends (AuthCmd.mk driver packet).client (serveLayer os layer)
        (AuthCmd.init (layerProtSize layer)) s st' s')
      (hout : st'.dumped = .ok out) : Performs layer .auth s out s'
  | push {os : Os} {devPath : CString} {content : Content} {packet : Buf (layerProtSize layer)}
      {st' : PushState} {s s' : Server} (hos : Serves os s.dev)
      (hpacket : pushFilePacket (layerProtSize layer) (UInt32.ofNat content.val.length) devPath =
        .ok packet)
      (h : Ends (PushCmd.mk packet).client (serveLayer os layer) (PushCmd.init content.val) s st'
        s') : Performs layer (.push devPath content) s [] s'
  | pull {os : Os} {devPath : CString} {packet : Buf (layerProtSize layer)}
      {st' : PullState (layerProtSize layer)} {s s' : Server} (hos : Serves os s.dev)
      (hpacket : pullFilePacket (layerProtSize layer) devPath = .ok packet)
      (h : Ends (pullFile packet).client (serveLayer os layer)
        (PullCmd.init (layerProtSize layer)) s st' s') :
      Performs layer (.pull devPath) s st'.out s'
  | shell {os : Os} {argv : List CString} {out : Bytes} {packet : Buf (layerProtSize layer)}
      {st' : PullState (layerProtSize layer)} {s s' : Server}
      (hspawn : os.spawn (popenExec (packed 4 argv) true) = some out)
      (hpacket : execCmdPacket (layerProtSize layer) argv = .ok packet)
      (h : Ends (execCmd packet).client (serveLayer os layer)
        (PullCmd.init (layerProtSize layer)) s st' s') :
      Performs layer (.shell argv out) s st'.out s'
  | mshLog {os : Os} {packet : Buf (layerProtSize layer)}
      {st' : PullState (layerProtSize layer)} {s s' : Server}
      (hpacket : mshExecCmdPacket (layerProtSize layer) logArgs = .ok packet)
      (h : Ends (mshExecCmd packet).client (serveLayer os layer)
        (PullCmd.init (layerProtSize layer)) s st' s') : Performs layer .mshLog s st'.out s'
  | change {files : Files} {s : Server} :
      Performs layer (.change files) s [] { s with dev := { s.dev with files := files.bytes } }
  | print {text : Bytes} {s : Server} : Performs layer (.print text) s [] (s.printf text)

/-- The command fits the packets, and a line for the shell is one for the shell, with an output
    that a terminal can show. -/
def Op.Fits (layer : UInt8) : Op → Prop
  | .push devPath _ => 8 + devPath.bytes.length < layerProtSize layer
  | .pull devPath => 4 + devPath.bytes.length < layerProtSize layer
  | .shell argv out => 4 + (packed 4 argv).length < layerProtSize layer ∧
      LeftToShell (packed 4 argv) ∧ (0 : UInt8) ∉ out
  | _ => True

/-- The server is in a state that shows the device `r`. -/
structure Presents (r : Remote) (s : Server) : Prop where
  inv : Inv r.authed s
  files : s.dev.files = r.files.bytes
  log : s.rlog = rlogRun r.log

/-! ## One command -/

section Commands

variable {layer : UInt8} {r : Remote} {s s' : Server} {o : Bytes}

theorem Presents.auth (h : Presents r s) : s.udbAuthOk = r.authed := h.inv.auth

/-- A device that listens keeps the invariant of its server. -/
theorem Presents.completes {σ : Type} {os : Os} {cl : Client σ Bytes Bytes} {c c' : σ}
    (h : Presents r s) (hauth : r.authed = true)
    (hrun : Completes cl (serveLayer os layer) c s c' s') : Inv r.authed s' := by
  have hinv := h.inv
  rw [hauth] at hinv ⊢
  exact hinv.completes hrun

/-- A device that refuses is as it was. -/
theorem Presents.refused (h : Presents r s) (layer : UInt8) : Presents r (s.setProtSize layer) :=
  ⟨h.inv.setProtSize layer, h.files, h.log⟩

/-- What is logged is logged behind the rest. -/
private theorem rlogPrintf_rlogRun (msgs : List Bytes) (text : Bytes) :
    rlogPrintf (rlogRun msgs) text = rlogRun (msgs ++ [rlogTag, text]) := by
  simp [rlogPrintf, rlogRun]

/-- An operating system that serves the device, with a shell that prints `out`. -/
def serving (dev : Device) (out : Bytes) : Os :=
  { willing [] out with
    fopenRead := fun path => (dev.files path).map fun content => ⟨content.length, content⟩ }

/-- Such a system serves the device. -/
private theorem serves_serving (dev : Device) (out : Bytes) : Serves (serving dev out) dev where
  reads _ := rfl
  allocates _ := by simp [serving, willing]
  opens _ := rfl
  writes data := Nat.le_refl data.length

/-- The key is accepted, whatever the device was. -/
private theorem Presents.sendKey (h : Presents r s) (layer : UInt8) :
    Presents { r with authed := true } { s.setProtSize layer with udbAuthOk := true } := by
  have hinv := h.inv.setProtSize layer
  exact ⟨{ hinv with auth := rfl }, h.files, h.log⟩

/-- `auth` prints one answer, and sets the flag. -/
private theorem performs_auth_iff :
    Performs layer .auth s o s' ↔
      o = padTo (layerProtSize layer) (ascii "AUTHOK") ∧
        s' = { s.setProtSize layer with udbAuthOk := true } := by
  constructor
  · intro hperf
    cases hperf with
    | @auth os driver packet st' _ _ _ hpacket hends hout =>
      -- The client has one run, and prints what the server answers to the key.
      obtain ⟨st₂, hrun₂, hdump⟩ := auth_completes os layer driver s hpacket
      obtain ⟨rfl, rfl⟩ := (ends_iff.mp hends).unique hrun₂
      exact ⟨Except.ok.inj (hout.symm.trans hdump), rfl⟩
  · rintro ⟨rfl, rfl⟩
    obtain ⟨packet, hpacket, -⟩ := authPacket_eq (layerProtSize_bounds layer).1
    obtain ⟨st', hrun, hdump⟩ := auth_completes (willing [] []) layer .udp s hpacket
    exact .auth hpacket (ends_iff.mpr hrun) hdump

section Push

variable {devPath : CString} {content : Content}

/-- A push that fits has its first packet. -/
private theorem fits_push (hfit : (Op.push devPath content).Fits layer) :
    ∃ packet, pushFilePacket (layerProtSize layer) (UInt32.ofNat content.val.length) devPath =
        .ok packet ∧ packet.bytes[3]? = some UdbChanId.pushFileInit.toByte := by
  have hlt : 8 + devPath.bytes.length < layerProtSize layer := hfit
  have hle : (channelHeader .pushFileInit ++ le32 (UInt32.ofNat content.val.length) ++
      devPath.bytes).length ≤ layerProtSize layer := by
    simp
    omega
  refine ⟨_, pushFilePacket_eq hle, ?_⟩
  -- The channel stands in the header, whatever follows.
  show (padTo _ (_ ++ _ ++ _))[3]? = _
  rw [List.append_assoc]
  exact getElem?_header _

/-- It runs to its end, with the key or without. -/
private theorem exists_push (h : Presents r s) (hfit : (Op.push devPath content).Fits layer) :
    ∃ o s', Performs layer (.push devPath content) s o s' := by
  obtain ⟨packet, hpacket, hchan⟩ := fits_push hfit
  have hos := serves_serving s.dev []
  cases hauth : r.authed with
  | true =>
    -- With the key the content arrives.
    obtain ⟨packet', hpacket', st', s', hrun, -⟩ := pushFile_completes h.inv (h.auth.trans hauth)
      hfit content.property (hos.opens _) hos.writes
    obtain rfl := Except.ok.inj (hpacket.symm.trans hpacket')
    exact ⟨_, _, .push hos hpacket (ends_iff.mpr hrun)⟩
  | false =>
    -- Without it every request is answered with nothing, and the loop still ends.
    obtain ⟨st', hrun⟩ := closedPush_completes (serving s.dev []) layer (h.auth.trans hauth)
      content.property (PushCmd.mk packet) hchan
    exact ⟨_, _, .push hos hpacket (ends_iff.mpr hrun)⟩

/-- However it runs, it does what the device says. -/
private theorem performs_push (h : Presents r s) (hfit : (Op.push devPath content).Fits layer)
    (hperf : Performs layer (.push devPath content) s o s') :
    o = (r.step layer (.push devPath content)).2 ∧
      Presents (r.step layer (.push devPath content)).1 s' := by
  cases hperf with
  | @push os _ _ packet st' _ _ hos hpacket hends =>
    have hrun := ends_iff.mp hends
    cases hauth : r.authed with
    | true =>
      obtain ⟨hfiles, hlog⟩ := pushFile_effect h.inv (h.auth.trans hauth) hfit content.property
        (hos.opens _) hos.writes hpacket hrun
      simp only [Remote.step, if_pos hauth]
      refine ⟨trivial, ⟨h.completes hauth hrun, ?_, ?_⟩⟩
      · rw [hfiles, h.files]
        funext path
        simp only [Remote.print, Files.bytes, Function.update_apply]
        split <;> rfl
      · rw [hlog, h.log, rlogPrintf_rlogRun]
        rfl
    | false =>
      -- There is one way only to end, which is the one without the key.
      obtain ⟨packet', hpacket', hchan⟩ := fits_push hfit
      obtain rfl := Except.ok.inj (hpacket.symm.trans hpacket')
      obtain ⟨st₂, hrun₂⟩ := closedPush_completes os layer (h.auth.trans hauth) content.property
        (PushCmd.mk packet) hchan
      obtain ⟨-, rfl⟩ := hrun.unique hrun₂
      simp only [Remote.step, hauth, Bool.false_eq_true, if_false]
      exact ⟨trivial, h.refused layer⟩

end Push

section Pull

variable {devPath : CString}

/-- A pull that fits has its first packet. -/
private theorem fits_pull (hfit : (Op.pull devPath).Fits layer) :
    ∃ packet, pullFilePacket (layerProtSize layer) devPath = .ok packet ∧
      packet.bytes[3]? = some UdbChanId.pullFileInit.toByte := by
  have hlt : 4 + devPath.bytes.length < layerProtSize layer := hfit
  have hle : (channelHeader .pullFileInit ++ devPath.bytes).length ≤ layerProtSize layer := by
    simp
    omega
  exact ⟨_, pullFilePacket_eq hle, pullFilePacket_chan hle⟩

/-- The pull of a device that refuses. -/
private theorem closedPull_pullFile (os : Os) (layer : UInt8) (hno : s.udbAuthOk = false)
    {packet : Buf (layerProtSize layer)}
    (hchan : packet.bytes[3]? = some UdbChanId.pullFileInit.toByte) :
    ∃ st', Completes (pullFile packet).client (serveLayer os layer)
      (PullCmd.init (layerProtSize layer)) s st' (s.setProtSize layer) ∧ st'.out = [] :=
  closedPull_completes os layer hno (pullFile packet) (by decide) hchan
    (show UdbChanId.pullFilePullout ≠ .auth by decide) rfl

/-- It runs to its end, with the key or without, whether the file is there or not. -/
private theorem exists_pull (h : Presents r s) (hfit : (Op.pull devPath).Fits layer) :
    ∃ o s', Performs layer (.pull devPath) s o s' := by
  obtain ⟨packet, hpacket, hchan⟩ := fits_pull hfit
  have hos := serves_serving s.dev []
  cases hauth : r.authed with
  | true =>
    have hs := h.auth.trans hauth
    cases hfile : s.dev.files devPath.bytes with
    | none =>
      -- No such file: an empty one is pulled.
      have hle : (channelHeader .pullFileInit ++ devPath.bytes).length ≤ layerProtSize layer := by
        have hlt : 4 + devPath.bytes.length < layerProtSize layer := hfit
        simp
        omega
      obtain rfl := Except.ok.inj (hpacket.symm.trans (pullFilePacket_eq hle))
      obtain ⟨st', s', hrun, -⟩ := emptyPull_of_auth hs hfit
        ((hos.reads _).trans (by rw [hfile]; rfl)) hle
      exact ⟨_, _, .pull hos hpacket (ends_iff.mpr hrun)⟩
    | some content =>
      -- The files that the device presents are short enough for the size field.
      have hlen : content.length < 2 ^ 32 := by
        rw [h.files, Files.bytes, Option.map_eq_some_iff] at hfile
        obtain ⟨c, -, rfl⟩ := hfile
        exact c.property
      obtain ⟨packet', hpacket', st', s', hrun, -⟩ := pullFile_completes layer devPath hs hfit hlen
        ⟨(hos.reads _).trans (by rw [hfile]; rfl), fun _ => hos.allocates _⟩
      obtain rfl := Except.ok.inj (hpacket.symm.trans hpacket')
      exact ⟨_, _, .pull hos hpacket (ends_iff.mpr hrun)⟩
  | false =>
    -- Without the key the loop ends with nothing.
    obtain ⟨st', hrun, -⟩ :=
      closedPull_pullFile (serving s.dev []) layer (h.auth.trans hauth) hchan
    exact ⟨_, _, .pull hos hpacket (ends_iff.mpr hrun)⟩

/-- However it runs, it does what the device says. -/
private theorem performs_pull (h : Presents r s) (hfit : (Op.pull devPath).Fits layer)
    (hperf : Performs layer (.pull devPath) s o s') :
    o = (r.step layer (.pull devPath)).2 ∧ Presents (r.step layer (.pull devPath)).1 s' := by
  cases hperf with
  | @pull os _ packet st' _ _ hos hpacket hends =>
    have hrun := ends_iff.mp hends
    cases hauth : r.authed with
    | true =>
      -- The file that is opened is the one that the device presents.
      have hlen : ∀ content, r.files.bytes devPath.bytes = some content →
          content.length < 2 ^ 32 := by
        intro content hfile
        rw [Files.bytes, Option.map_eq_some_iff] at hfile
        obtain ⟨c, -, rfl⟩ := hfile
        exact c.property
      have hopen := hos.reads devPath.bytes
      rw [h.files] at hopen
      obtain ⟨hout, hfiles, hlog⟩ := pullFile_effect (h.auth.trans hauth) hfit hlen hopen
        hos.allocates hpacket hrun
      simp only [Remote.step, if_pos hauth]
      -- The pull is logged, and no file changes.
      refine ⟨hout, ⟨h.completes hauth hrun, hfiles.trans h.files, ?_⟩⟩
      rw [hlog, h.log, rlogPrintf_rlogRun]
      rfl
    | false =>
      obtain ⟨packet', hpacket', hchan⟩ := fits_pull hfit
      obtain rfl := Except.ok.inj (hpacket.symm.trans hpacket')
      -- Any run is the one that ends with nothing.
      obtain ⟨st₂, hrun₂, hout⟩ := closedPull_pullFile os layer (h.auth.trans hauth) hchan
      obtain ⟨rfl, rfl⟩ := hrun.unique hrun₂
      simp only [Remote.step, hauth, Bool.false_eq_true, if_false]
      exact ⟨hout, h.refused layer⟩

end Pull

section Shell

variable {argv : List CString} {out : Bytes}

/-- A line that fits has its packet, in which the server reads it. -/
private theorem fits_shell (hfit : (Op.shell argv out).Fits layer) :
    ∃ packet, execCmdPacket (layerProtSize layer) argv = .ok packet ∧
      packet.bytes[3]? = some UdbChanId.runCmd.toByte ∧
      cstrAt packet.bytes udbCmdPkgContentOffset = .ok (packed 4 argv) := by
  obtain ⟨hlt, -, -⟩ := hfit
  have hle : (channelHeader .runCmd ++ packed 4 argv).length ≤ layerProtSize layer := by
    rw [List.length_append, length_channelHeader]
    omega
  have hpacket := cmdPacket_eq .runCmd hle
  exact ⟨_, hpacket, cmdPacket_chan hpacket, cstrAt_packed .runCmd hlt⟩

/-- A command line for the shell of a device that listens. -/
private theorem shell_completes (hs : s.udbAuthOk = true) (hfit : (Op.shell argv out).Fits layer)
    {os : Os}
    (hspawn : os.spawn (popenExec (packed 4 argv) true) = some out)
    {packet : Buf (layerProtSize layer)}
    (hpacket : execCmdPacket (layerProtSize layer) argv = .ok packet) :
    ∃ st' s', Completes (execCmd packet).client (serveLayer os layer)
        (PullCmd.init (layerProtSize layer)) s st' s' ∧
      st'.out = keptOutput out ∧ Unseen s s' := by
  obtain ⟨packet', hpacket', hchan, hcmd⟩ := fits_shell hfit
  obtain rfl := Except.ok.inj (hpacket.symm.trans hpacket')
  obtain ⟨-, hleft, hnul⟩ := hfit
  -- The line is left to the shell, whose output has no NUL.
  have hshell : HandedToShell os (packed 4 argv) s := ⟨0, s, hleft os s, Int.le_refl 0⟩
  have hkept : (0 : UInt8) ∉ keptOutput out := fun h => hnul (List.mem_of_mem_take h)
  obtain ⟨s₁, hinit, hstored⟩ := request_runcmd layer hs hchan hcmd hshell hspawn
  obtain ⟨st', s', hrun, hout, -⟩ := pullCmd_completes .runcmd (p := execCmd packet) rfl (.inl rfl)
    (sinkOf_printReply rfl hkept) ((length_keptOutput_lt out).trans (by decide)) hinit hstored
  -- Neither the command nor the pullouts touch files or log.
  obtain ⟨s₂, reply, hreq, hunseen⟩ := pullCmd_unseen .runcmd rfl hs hrun
  exact ⟨st', s', hrun, hout,
    (request_runcmd_unseen hs hchan hcmd hleft hspawn hreq).trans hunseen⟩

/-- The same line on a device that refuses. -/
private theorem closedPull_execCmd (os : Os) (hno : s.udbAuthOk = false)
    {packet : Buf (layerProtSize layer)}
    (hchan : packet.bytes[3]? = some UdbChanId.runCmd.toByte) :
    ∃ st', Completes (execCmd packet).client (serveLayer os layer)
      (PullCmd.init (layerProtSize layer)) s st' (s.setProtSize layer) ∧ st'.out = [] :=
  closedPull_completes os layer hno (execCmd packet) (by decide) hchan
    (show UdbChanId.runCmdPullout ≠ .auth by decide) rfl

/-- It runs to its end, with the key or without. -/
private theorem exists_shell (h : Presents r s) (hfit : (Op.shell argv out).Fits layer) :
    ∃ o s', Performs layer (.shell argv out) s o s' := by
  obtain ⟨packet, hpacket, hchan, -⟩ := fits_shell hfit
  cases hauth : r.authed with
  | true =>
    -- A shell that prints `out`.
    have hspawn : (willing [] out).spawn (popenExec (packed 4 argv) true) = some out := rfl
    obtain ⟨st', s', hrun, -⟩ := shell_completes (h.auth.trans hauth) hfit hspawn hpacket
    exact ⟨_, _, .shell rfl hpacket (ends_iff.mpr hrun)⟩
  | false =>
    obtain ⟨st', hrun, -⟩ := closedPull_execCmd (willing [] out) (h.auth.trans hauth) hchan
    exact ⟨_, _, .shell rfl hpacket (ends_iff.mpr hrun)⟩

/-- However it runs, it does what the device says. -/
private theorem performs_shell (h : Presents r s) (hfit : (Op.shell argv out).Fits layer)
    (hperf : Performs layer (.shell argv out) s o s') :
    o = (r.step layer (.shell argv out)).2 ∧
      Presents (r.step layer (.shell argv out)).1 s' := by
  cases hperf with
  | @shell os _ _ packet st' _ _ hspawn hpacket hends =>
    have hrun := ends_iff.mp hends
    cases hauth : r.authed with
    | true =>
      obtain ⟨st₂, s₂, hrun₂, hout, hunseen⟩ :=
        shell_completes (h.auth.trans hauth) hfit hspawn hpacket
      -- Any run is that one.
      obtain ⟨rfl, rfl⟩ := hrun.unique hrun₂
      simp only [Remote.step, if_pos hauth]
      exact ⟨hout, ⟨h.completes hauth hrun, hunseen.files.trans h.files,
        hunseen.rlog.trans h.log⟩⟩
    | false =>
      obtain ⟨packet', hpacket', hchan, -⟩ := fits_shell hfit
      obtain rfl := Except.ok.inj (hpacket.symm.trans hpacket')
      -- Without the key any run is the one that ends with nothing.
      obtain ⟨st₂, hrun₂, hout⟩ := closedPull_execCmd os (h.auth.trans hauth) hchan
      obtain ⟨rfl, rfl⟩ := hrun.unique hrun₂
      refine ⟨?_, h.refused layer⟩
      simp only [Remote.step, hauth, Bool.false_eq_true, if_false]
      exact hout

end Shell

section Log

/-- Reading the log of a device that listens. -/
private theorem mshLog_completes (os : Os) (hs : s.udbAuthOk = true) {msgs : List Bytes}
    (hlog : s.rlog = rlogRun msgs) {packet : Buf (layerProtSize layer)}
    (hpacket : mshExecCmdPacket (layerProtSize layer) logArgs = .ok packet) :
    ∃ st' s', Completes (mshExecCmd packet).client (serveLayer os layer)
        (PullCmd.init (layerProtSize layer)) s st' s' ∧
      st'.out = newest msgs ∧ Unseen s s' := by
  obtain ⟨packet', hpacket', hchan, hcmd⟩ := mshExecCmdPacket_log (layerProtSize_bounds layer).1
  obtain rfl := Except.ok.inj (hpacket.symm.trans hpacket')
  obtain ⟨s₁, hinit, hstored⟩ := request_mshLog os layer hs hchan hcmd hlog
  -- The log is far shorter than the size field allows.
  have hlt : (newest msgs).length < 2 ^ 32 := by
    have hlen := length_newest msgs
    have hmax : rlogMaxLogBufSize = 512 := rfl
    omega
  obtain ⟨st', s', hrun, hout, -⟩ := pullCmd_completes .msh (p := mshExecCmd packet) rfl
    (.inl rfl) (sinkOf_printReply rfl (not_mem_newest msgs)) hlt hinit hstored
  obtain ⟨s₂, reply, hreq, hunseen⟩ := pullCmd_unseen .msh rfl hs hrun
  exact ⟨st', s', hrun, hout, (request_msh_unseen hs hchan hreq).trans hunseen⟩

/-- The same on a device that refuses. -/
private theorem closedPull_mshExecCmd (os : Os) (hno : s.udbAuthOk = false)
    {packet : Buf (layerProtSize layer)}
    (hchan : packet.bytes[3]? = some UdbChanId.mshCmd.toByte) :
    ∃ st', Completes (mshExecCmd packet).client (serveLayer os layer)
      (PullCmd.init (layerProtSize layer)) s st' (s.setProtSize layer) ∧ st'.out = [] :=
  closedPull_completes os layer hno (mshExecCmd packet) (by decide) hchan
    (show UdbChanId.mshCmdPullout ≠ .auth by decide) rfl

/-- The log can be read at any time. -/
private theorem exists_mshLog (h : Presents r s) (layer : UInt8) :
    ∃ o s', Performs layer .mshLog s o s' := by
  obtain ⟨packet, hpacket, hchan, -⟩ := mshExecCmdPacket_log (layerProtSize_bounds layer).1
  cases hauth : r.authed with
  | true =>
    obtain ⟨st', s', hrun, -⟩ :=
      mshLog_completes (willing [] []) (h.auth.trans hauth) h.log hpacket
    exact ⟨_, _, .mshLog hpacket (ends_iff.mpr hrun)⟩
  | false =>
    obtain ⟨st', hrun, -⟩ := closedPull_mshExecCmd (willing [] []) (h.auth.trans hauth) hchan
    exact ⟨_, _, .mshLog hpacket (ends_iff.mpr hrun)⟩

/-- It is the log of the device. -/
private theorem performs_mshLog (h : Presents r s) (hperf : Performs layer .mshLog s o s') :
    o = (r.step layer .mshLog).2 ∧ Presents (r.step layer .mshLog).1 s' := by
  cases hperf with
  | @mshLog os packet st' _ _ hpacket hends =>
    have hrun := ends_iff.mp hends
    cases hauth : r.authed with
    | true =>
      obtain ⟨st₂, s₂, hrun₂, hout, hunseen⟩ :=
        mshLog_completes os (h.auth.trans hauth) h.log hpacket
      -- Any run is that one.
      obtain ⟨rfl, rfl⟩ := hrun.unique hrun₂
      simp only [Remote.step, if_pos hauth]
      exact ⟨hout, ⟨h.completes hauth hrun, hunseen.files.trans h.files,
        hunseen.rlog.trans h.log⟩⟩
    | false =>
      obtain ⟨packet', hpacket', hchan, -⟩ := mshExecCmdPacket_log (layerProtSize_bounds layer).1
      obtain rfl := Except.ok.inj (hpacket.symm.trans hpacket')
      -- Without the key any run is the one that ends with nothing.
      obtain ⟨st₂, hrun₂, hout⟩ := closedPull_mshExecCmd os (h.auth.trans hauth) hchan
      obtain ⟨rfl, rfl⟩ := hrun.unique hrun₂
      refine ⟨?_, h.refused layer⟩
      simp only [Remote.step, hauth, Bool.false_eq_true, if_false]
      exact hout

end Log

end Commands

/-- One command does on the server what the abstract device does. -/
theorem implements_remote (layer : UInt8) :
    Implements Presents (Op.Fits layer) (Remote.step layer) (Performs layer) where
  total := by
    intro r s op h hfit
    -- Each command has a run.
    cases op with
    | auth => exact ⟨_, _, performs_auth_iff.mpr ⟨rfl, rfl⟩⟩
    | push devPath content => exact exists_push h hfit
    | pull devPath => exact exists_pull h hfit
    | shell argv out => exact exists_shell h hfit
    | mshLog => exact exists_mshLog h layer
    | change files => exact ⟨_, _, .change⟩
    | print text => exact ⟨_, _, .print⟩
  sound := by
    intro r s op o s' h hfit hperf
    -- Each run does what the device does.
    cases op with
    | auth =>
      obtain ⟨rfl, rfl⟩ := performs_auth_iff.mp hperf
      exact ⟨rfl, h.sendKey layer⟩
    | push devPath content => exact performs_push h hfit hperf
    | pull devPath => exact performs_pull h hfit hperf
    | shell argv out => exact performs_shell h hfit hperf
    | mshLog => exact performs_mshLog h hperf
    | change files =>
      cases hperf
      exact ⟨rfl, ⟨{ h.inv with }, rfl, h.log⟩⟩
    | print text =>
      cases hperf
      refine ⟨rfl, ⟨h.inv.printf text, h.files, ?_⟩⟩
      show rlogPrintf s.rlog text = _
      rw [h.log, rlogPrintf_rlogRun]
      rfl

/-! ## Scripts -/

/-- Scripts refine the abstract device. From every reachable state, whatever earlier sessions left
    in it and whether or not the key was sent, every script of commands that fit runs to its end,
    and however it is run, over a network that may delay, reorder and lose datagrams, each client
    gets what the abstract device gives, and the files, the log and the flag end up as there. -/
theorem script_refines (layer : UInt8) (s : Server) (hs : Reachable s) (files : Files)
    (hfiles : s.dev.files = files.bytes) (log : List Bytes) (hlog : s.rlog = rlogRun log)
    (ops : List Op) (hops : ∀ op ∈ ops, op.Fits layer) :
    (∃ outs s', Run (Performs layer) ops s outs s') ∧
      ∀ outs s', Run (Performs layer) ops s outs s' →
        let ended := specRun (Remote.step layer) ⟨s.udbAuthOk, files, log⟩ ops
        outs = ended.2 ∧ s'.dev.files = ended.1.files.bytes ∧ s'.rlog = rlogRun ended.1.log ∧
          s'.udbAuthOk = ended.1.authed := by
  have hstart : Presents ⟨s.udbAuthOk, files, log⟩ s := ⟨inv_of_reachable hs, hfiles, hlog⟩
  refine ⟨(implements_remote layer).run_total hstart hops, fun outs s' hrun => ?_⟩
  obtain ⟨hout, hend⟩ := (implements_remote layer).run_sound hstart hops hrun
  exact ⟨hout, hend.files, hend.log, hend.auth⟩

/-- A file is pushed, the shell lists it, it is pulled, and the log is read. -/
def pushPull : List Op :=
  [.push ⟨ascii "f", by decide⟩ ⟨[1, 0, 3], by decide⟩, .shell lsArgs (ascii "f\n"),
    .pull ⟨ascii "f", by decide⟩, .mshLog]

/-- The four commands print what the device gives. -/
theorem script_refines_pushPull :
    ∃ outs s', Run (Performs udbLayerNet) pushPull (authed fun _ => none) outs s' ∧
      outs = [[], ascii "f\n", [1, 0, 3], ascii "f size is 3, 0x3\nf size is 3\n"] := by
  have hleft : LeftToShell (packed 4 lsArgs) := fun _ _ => rfl
  have hfits : ∀ op ∈ pushPull, op.Fits udbLayerNet := by
    simp only [pushPull, List.forall_mem_cons, List.not_mem_nil, false_implies, implies_true,
      and_true, Op.Fits]
    exact ⟨by decide, ⟨by decide, hleft, by decide⟩, by decide⟩
  obtain ⟨⟨outs, s', hrun⟩, hall⟩ := script_refines udbLayerNet (authed fun _ => none)
    (reachable_authed _) (fun _ => none) rfl [] rfl pushPull hfits
  exact ⟨outs, s', hrun, (hall outs s' hrun).1⟩

/-! ## Reading what was written -/

/-- The step leaves `content` at `path`, if it is there. -/
def Op.Keeps (path : Bytes) (content : Content) : Op → Prop
  | .push devPath _ => devPath.bytes ≠ path
  | .change files => files path = some content
  | _ => True

namespace Remote

variable {layer : UInt8}

/-- A device that listens goes on to. -/
private theorem authed_step (r : Remote) (op : Op) (h : r.authed = true) :
    (r.step layer op).1.authed = true := by
  cases op with
  | auth => rfl
  | change | print | shell | mshLog => exact h
  | push | pull =>
    simp only [step, if_pos h]
    exact h

/-- Nobody takes the key back. -/
private theorem authed_specRun (r : Remote) (ops : List Op) (h : r.authed = true ∨ .auth ∈ ops) :
    (specRun (Remote.step layer) r ops).1.authed = true := by
  induction ops generalizing r with
  | nil => simpa [specRun] using h
  | cons op ops ih =>
    apply ih
    -- Once the key was sent the flag stays, and until then it is still to come.
    rcases h with h | h
    · exact .inl (authed_step r op h)
    · rcases List.mem_cons.mp h with rfl | h
      · exact .inl rfl
      · exact .inr h

/-- A file that is kept is there behind the step. -/
private theorem files_step (r : Remote) {op : Op} {path : Bytes} {content : Content}
    (hkeeps : op.Keeps path content) (h : r.files path = some content) :
    (r.step layer op).1.files path = some content := by
  cases op with
  | auth | print | shell | mshLog => exact h
  | change files => exact hkeeps
  | push devPath other =>
    -- A push stores its own file, which is another one.
    simp only [step]
    split
    · show Function.update r.files devPath.bytes (some other) path = _
      rw [Function.update_of_ne (Ne.symm hkeeps), h]
    · exact h
  | pull devPath =>
    simp only [step]
    split <;> exact h

/-- What is kept in each step is there after all of them. -/
private theorem files_specRun (r : Remote) {ops : List Op} {path : Bytes} {content : Content}
    (hkeeps : ∀ op ∈ ops, op.Keeps path content) (h : r.files path = some content) :
    (specRun (Remote.step layer) r ops).1.files path = some content := by
  induction ops generalizing r with
  | nil => exact h
  | cons op ops ih =>
    exact ih _ (fun op hop => hkeeps op (List.mem_cons_of_mem _ hop))
      (files_step r (hkeeps op List.mem_cons_self) h)

end Remote

/-- A pull gets the last push. In every script that sends the key at some time, or begins when it
    was sent, a pull gets the content that was last pushed to its path, whatever came before and
    whatever other commands came in between, unless another program has changed that file. -/
theorem pull_gets_last_push (layer : UInt8) (s : Server) (hs : Reachable s) (files : Files)
    (hfiles : s.dev.files = files.bytes) (log : List Bytes) (hlog : s.rlog = rlogRun log)
    (before between : List Op) (devPath : CString) (content : Content)
    (hauth : s.udbAuthOk = true ∨ .auth ∈ before)
    (hkeeps : ∀ op ∈ between, op.Keeps devPath.bytes content)
    (hops : ∀ op ∈ before ++ .push devPath content :: between ++ [.pull devPath], op.Fits layer)
    (outs : List Bytes) (s' : Server)
    (hrun : Run (Performs layer) (before ++ .push devPath content :: between ++ [.pull devPath]) s
      outs s') :
    outs.getLast? = some content.val ∧ s'.dev.files devPath.bytes = some content.val := by
  have hstart : Presents ⟨s.udbAuthOk, files, log⟩ s := ⟨inv_of_reachable hs, hfiles, hlog⟩
  obtain ⟨rfl, hend⟩ := (implements_remote layer).run_sound hstart hops hrun
  let r₀ := (specRun (Remote.step layer) ⟨s.udbAuthOk, files, log⟩ before).1
  let r₁ := (r₀.step layer (.push devPath content)).1
  let r₂ := (specRun (Remote.step layer) r₁ between).1
  have hauth₀ : r₀.authed = true := Remote.authed_specRun _ before hauth
  have hauth₁ : r₁.authed = true := Remote.authed_step r₀ _ hauth₀
  have hauth₂ : r₂.authed = true := Remote.authed_specRun r₁ between (.inl hauth₁)
  have hfile₁ : r₁.files devPath.bytes = some content := by
    simp only [r₁, Remote.step, if_pos hauth₀]
    exact Function.update_self devPath.bytes _ _
  have hfile₂ : r₂.files devPath.bytes = some content := Remote.files_specRun r₁ hkeeps hfile₁
  -- The device in front of the pull is `r₂`, and the pull is the last step.
  have hlast : specRun (Remote.step layer) ⟨s.udbAuthOk, files, log⟩
      (before ++ .push devPath content :: between ++ [.pull devPath]) =
        ((r₂.step layer (.pull devPath)).1,
          (specRun (Remote.step layer) ⟨s.udbAuthOk, files, log⟩
            (before ++ .push devPath content :: between)).2 ++
              [(r₂.step layer (.pull devPath)).2]) := by
    rw [specRun_append, specRun_append]
    rfl
  rw [hend.files, hlast]
  simp only [Remote.step, if_pos hauth₂, List.getLast?_concat, Remote.print, Files.bytes, hfile₂]
  exact ⟨rfl, rfl⟩

/-- The key, and two files that are pushed. -/
def pushTwo : List Op :=
  [.auth, .push ⟨ascii "f", by decide⟩ ⟨[7], by decide⟩,
    .push ⟨ascii "g", by decide⟩ ⟨[8], by decide⟩, .pull ⟨ascii "f", by decide⟩]

/-- The pull gets the file that was pushed in front of the other one. -/
theorem pull_gets_last_push_two :
    ∃ outs s', Run (Performs udbLayerDef) pushTwo (Server.init [] fun _ => none) outs s' ∧
      outs.getLast? = some [7] ∧ s'.dev.files (ascii "f") = some [7] := by
  -- The packets fit and no line is refused, so the script runs to its end.
  have hfits : ∀ op ∈ pushTwo, op.Fits udbLayerDef := by
    simp only [pushTwo, List.forall_mem_cons, List.not_mem_nil, false_implies, implies_true,
      and_true, Op.Fits, true_and]
    exact ⟨by decide, by decide, by decide⟩
  have hstart : Presents ⟨false, fun _ => none, []⟩ (Server.init [] fun _ => none) :=
    ⟨Inv.init [] _, rfl, rfl⟩
  obtain ⟨outs, s', hrun⟩ := (implements_remote udbLayerDef).run_total hstart hfits
  refine ⟨outs, s', hrun, pull_gets_last_push udbLayerDef _ (.init [] _) (fun _ => none) rfl [] rfl
    [.auth] [.push ⟨ascii "g", by decide⟩ ⟨[8], by decide⟩] ⟨ascii "f", by decide⟩
    ⟨[7], by decide⟩ (.inr List.mem_cons_self) ?_ hfits outs s' hrun⟩
  -- The command between the two is a push to another path.
  intro op hop
  obtain rfl := List.mem_singleton.mp hop
  show ascii "g" ≠ ascii "f"
  decide

end Udb.Spec
