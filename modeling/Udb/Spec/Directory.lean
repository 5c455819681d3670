import Udb.Native.InteractiveShell
import Udb.Spec.BuiltInLine
import Udb.Spec.Effects

/-!
# The directory of the server

A `cd` on a command line is done by the server itself, so it lasts from one line to
the next, and from one session to the next. `World` is a device whose programs and
whose `chdir` depend on the directory, and `World.runLine` is what a line does in it.

## Key results

- `World.serve_line`: a request does what its line does in the directory of the server
- `World.serve_unanswered`: the lines that stop the server
-/

namespace Udb.Spec

open CMem Runs StopAndWait Udb.Native

variable {os : Os} {layer : UInt8} {s s' : Server} {line : Bytes}

/-! ## What a line is taken for -/

/-- The commands that the server does itself. -/
inductive BuiltInCmd where
  | exit
  | cd (path : Bytes)
  deriving DecidableEq

/-- The command that a line is taken for, or nothing if it is for the shell. -/
def builtInOf (line : Bytes) : Option BuiltInCmd :=
  if (59 : UInt8) ∈ line.dropLast ∨ (124 : UInt8) ∈ line.dropLast then none
  else if (runs 32 line.dropLast)[0]? = some (ascii "exit") then some .exit
  else if (runs 32 line.dropLast)[0]? = some (ascii "cd") then
    ((runs 32 line.dropLast)[1]?).map fun dir => .cd (cdPath dir)
  else none

/-- The lines on which the check returns. -/
def Answered (line : Bytes) : Prop :=
  line ≠ [] ∧ (¬ Inspected line.dropLast ∨ ∀ piece ∈ line.dropLast.splitOn 124, piece ≠ [])

instance (line : Bytes) : Decidable (Answered line) := inferInstanceAs (Decidable (_ ∧ _))

namespace BuiltInCmd

/-- What the check returns for it. -/
def ret (os : Os) : BuiltInCmd → Int
  | exit => 1
  | cd path => if os.chdir path then 1 else -1

/-- What it does to the server. -/
def done (s : Server) : BuiltInCmd → Server
  | exit => s.printf (ascii "exit?\n")
  | cd path => s.call (.chdir path)

end BuiltInCmd

/-- `exit` is taken and logged. -/
private theorem runBuiltIn_exit (os : Os) {input : Bytes}
    (h : (runs 32 input)[0]? = some (ascii "exit"))
    (s : Server) : runBuiltIn os (commandOf input) s = .ok (1, s.printf (ascii "exit?\n")) := by
  have hname : (commandOf input).name = some (ascii "exit") := by
    rw [← h, ← List.head?_eq_getElem?, commandOf]
    dsimp only
    rw [List.head?_take, if_neg (by decide)]
  simp [runBuiltIn, nameIs, hname]

/-- `cd` is taken if it has a directory to go to. -/
private theorem runBuiltIn_cd (os : Os) {input : Bytes}
    (h : (runs 32 input)[0]? = some (ascii "cd"))
    (s : Server) : runBuiltIn os (commandOf input) s =
      match (runs 32 input)[1]? with
      | none => .ok (-1, s)
      | some dir => .ok ((BuiltInCmd.cd (cdPath dir)).ret os, s.call (.chdir (cdPath dir))) := by
  have hname : (commandOf input).name = some (ascii "cd") := by
    rw [← h, ← List.head?_eq_getElem?, commandOf]
    dsimp only
    rw [List.head?_take, if_neg (by decide)]
  have hexit : (ascii "cd" == ascii "exit") = false := by decide
  -- With no word behind `cd` the count of words is too small.
  cases hdir : (runs 32 input)[1]? with
  | none =>
    have hargc : (commandOf input).argc < 2 := by
      rw [List.getElem?_eq_none_iff] at hdir
      simp only [commandOf, List.length_take]
      omega
    simp [runBuiltIn, nameIs, hname, hexit, hargc]
  | some dir =>
    obtain ⟨hlt, -⟩ := List.getElem?_eq_some_iff.mp hdir
    have hargc : ¬ (commandOf input).argc < 2 := by
      simp only [commandOf, List.length_take, argMaxCount]
      omega
    have harg : (commandOf input).argv[1]? = some dir := by
      rw [← hdir, commandOf]
      dsimp only
      rw [List.getElem?_take_of_lt (by decide)]
    simp only [runBuiltIn, nameIs, hname, hexit, ok_bind, hargc, harg, Bool.false_eq_true, if_false,
      BuiltInCmd.ret]
    split <;> rfl

/-- A line that is taken for a built-in command starts with its name, and has no `;` and no bar. -/
private theorem accepts_of_builtInOf {b : BuiltInCmd} (h : builtInOf line = some b) :
    Accepts (willing [] []) line := by
  unfold builtInOf at h
  split at h
  · cases h
  · rename_i hsep
    simp only [not_or] at hsep
    refine ⟨hsep.1, hsep.2, ?_⟩
    split at h
    · -- The first word is `exit`.
      rename_i hexit
      rw [← List.head?_eq_getElem?] at hexit
      exact .inl hexit
    · split at h
      · -- It is `cd`, and the word behind it is there.
        rename_i hcd
        rw [Option.map_eq_some_iff] at h
        obtain ⟨dir, hdir, -⟩ := h
        right
        cases hruns : runs 32 line.dropLast with
        | nil => simp [hruns] at hcd
        | cons word args =>
          rw [hruns] at hcd hdir
          obtain rfl := Option.some.inj hcd
          cases args with
          | nil => simp at hdir
          | cons dir' rest => exact ⟨dir', rest, rfl, rfl⟩
      · cases h

/-- The check does a built-in command. -/
private theorem inputHandle_of_builtInOf (os : Os) {b : BuiltInCmd} (h : builtInOf line = some b)
    (s : Server) : uvcRuncmdInputHandle os line s = .ok (b.ret os, b.done s) := by
  have hacc := accepts_of_builtInOf h
  have hin := inspected_of_accepts hacc
  have hne : line ≠ [] := by
    rintro rfl
    exact absurd hin.1 (by decide)
  obtain ⟨name, hname, heq⟩ := inputHandle_of_single os hne hin hacc.2.1 s
  have hhead := head?_runs_of_name hname
  rw [List.head?_eq_getElem?] at hhead
  simp only [builtInOf, hacc.1, hacc.2.1, or_self, if_false, hhead, Option.some.injEq] at h
  rw [heq]
  -- The name decides for both sides.
  by_cases hexit : name = ascii "exit"
  · rw [if_pos hexit] at h
    obtain rfl := Option.some.inj h
    rw [if_pos (by simp [hexit]), runBuiltIn_exit os (by rw [hhead, hexit])]
    rfl
  · rw [if_neg hexit] at h
    by_cases hcd : name = ascii "cd"
    · rw [if_pos hcd, Option.map_eq_some_iff] at h
      obtain ⟨dir, hdir, rfl⟩ := h
      rw [if_pos (by simp [hcd]), runBuiltIn_cd os (by rw [hhead, hcd]), hdir]
      rfl
    · rw [if_neg hcd] at h
      cases h

/-- Every other line on which the check returns is left to the shell. -/
private theorem inputHandle_of_not_builtInOf (os : Os) (hans : Answered line)
    (h : builtInOf line = none)
    (s : Server) : ∃ ret, uvcRuncmdInputHandle os line s = .ok (ret, s) ∧ ret ≤ 0 := by
  obtain ⟨hne, hpieces⟩ := hans
  by_cases hin : Inspected line.dropLast
  · have hfull := length_runs_eq_iff.mpr (hpieces.resolve_left fun hno => hno hin)
    by_cases hbar : (124 : UInt8) ∈ line.dropLast
    · exact ⟨0, inputHandle_of_pipeline os hne hin hfull hbar s, Int.le_refl 0⟩
    · obtain ⟨name, hname, heq⟩ := inputHandle_of_single os hne hin hbar s
      have hsemi : (59 : UInt8) ∉ line.dropLast :=
        isMultiCmd_eq_false.mp (Bool.eq_false_iff.mpr hin.2.2.1)
      have hhead := head?_runs_of_name hname
      rw [List.head?_eq_getElem?] at hhead
      simp only [builtInOf, hsemi, hbar, or_self, if_false, hhead, Option.some.injEq] at h
      rw [heq]
      by_cases hexit : name = ascii "exit"
      · rw [if_pos hexit] at h
        cases h
      · rw [if_neg hexit] at h
        by_cases hcd : name = ascii "cd"
        · -- A `cd` without a directory fails.
          rw [if_pos hcd, Option.map_eq_none_iff] at h
          rw [if_pos (by simp [hcd]), runBuiltIn_cd os (by rw [hhead, hcd]), h]
          exact ⟨-1, rfl, by decide⟩
        · rw [if_neg (by simp [hexit, hcd])]
          exact ⟨0, rfl, Int.le_refl 0⟩
  · exact ⟨0, inputHandle_of_not_inspected os hne hin s, Int.le_refl 0⟩

/-! ## The device -/

/-- A directory, as `pwd` prints it. -/
abbrev Dir := { dir : Bytes // dir ≠ [] ∧ (0 : UInt8) ∉ dir ∧ (10 : UInt8) ∉ dir ∧
  dir.length + 1 < udbBufSize }

/-- What a terminal can show. -/
abbrev Text := { text : Bytes // (0 : UInt8) ∉ text }

/-- A device with directories. The server starts in `root`, `chdir` finds the directory that a path
    leads to, and a program prints what it prints in a directory. -/
structure World where
  root : Dir
  chdir : Dir → Bytes → Option Dir
  run : Dir → Exec → Text
  pwd : ∀ dir, (run dir (popenExec pwdLine true)).val = dir.val ++ ascii "\n"
  /-- Everything else. -/
  base : Os

namespace World

variable (w : World)

/-- The operating system, as a process in `dir` sees it. -/
def osIn (dir : Dir) : Os :=
  { w.base with
    chdir := fun path => (w.chdir dir path).isSome
    spawn := fun e => some (w.run dir e).val }

/-- The directory behind a call. -/
def moved (dir : Dir) : SysCall → Dir
  | .chdir path => (w.chdir dir path).getD dir
  | _ => dir

/-- The directory that the calls of the server have led to. -/
def dir (s : Server) : Dir := s.dev.calls.foldl w.moved w.root

/-- The server, which sees the device from its own directory. -/
def serve (layer : UInt8) : StopAndWait.Server Server Bytes Bytes :=
  fun s packet => serveLayer (w.osIn (w.dir s)) layer s packet

/-- What a program prints for a line, as far as it is kept. -/
def output (dir : Dir) (line : Bytes) : Bytes := keptOutput (w.run dir (popenExec line true)).val

/-- What a line does: the directory behind it, and its output. -/
def runLine (dir : Dir) (line : Bytes) : Dir × Bytes :=
  match builtInOf line with
  | none => (dir, w.output dir line)
  | some .exit => (dir, ascii "\n")
  | some (.cd path) =>
    match w.chdir dir path with
    -- The shell gets its try as well.
    | none => (dir, w.output dir line)
    | some dir' => (dir', ascii "\n")

variable {w}

/-- No command of the shell prints a 0. -/
private theorem not_mem_output (dir : Dir) (line : Bytes) : (0 : UInt8) ∉ w.output dir line :=
  fun h => (w.run dir _).property (List.mem_of_mem_take h)

/-- `pwd` prints the directory and a newline. -/
private theorem output_pwdLine (dir : Dir) : w.output dir pwdLine = dir.val ++ ascii "\n" := by
  obtain ⟨-, -, -, hlen⟩ := dir.property
  rw [output, w.pwd, keptOutput, List.take_of_length_le]
  rw [List.length_append]
  show dir.val.length + 1 ≤ _
  omega

/-- A line that the server does itself is answered with a newline. -/
private theorem snd_runLine (dir : Dir) (line : Bytes) :
    (w.runLine dir line).2 = ascii "\n" ∨ (w.runLine dir line).2 = w.output dir line := by
  unfold World.runLine
  split
  · exact .inr rfl
  · exact .inl rfl
  · split
    · exact .inr rfl
    · exact .inl rfl

/-- No line is answered with a 0. -/
theorem not_mem_runLine (dir : Dir) (line : Bytes) : (0 : UInt8) ∉ (w.runLine dir line).2 := by
  rcases snd_runLine (w := w) dir line with h | h
  · rw [h]
    decide
  · rw [h]
    exact not_mem_output dir line

/-- Every answer fits the buffer of `RUN_CMD`. -/
theorem length_runLine_lt (dir : Dir) (line : Bytes) :
    (w.runLine dir line).2.length < udbBufSize := by
  rcases snd_runLine (w := w) dir line with h | h
  · rw [h]
    decide
  · rw [h]
    exact length_keptOutput_lt _

/-- `pwd` is answered with the directory, which stays. -/
theorem runLine_pwdLine (dir : Dir) : w.runLine dir pwdLine = (dir, dir.val ++ ascii "\n") := by
  have hshell : builtInOf pwdLine = none := by decide
  rw [World.runLine, hshell, ← output_pwdLine dir]

end World

/-- The line `pwd` is answered. -/
theorem answered_pwdLine : Answered pwdLine := ⟨by decide, .inr (by decide)⟩

/-! ## The first request -/

section Request

variable {w : World} {packet reply : Bytes}

/-- Behind the check, a line makes at most one call, which starts a program. -/
private theorem calls_udbDebugRuncmd {n : Nat} {buf : Bytes} {resp resp' : Resp n} {ret : Int}
    {s₁ : Server} (hcmd : cstrAt buf udbCmdPkgContentOffset = .ok line)
    (hhandle : uvcRuncmdInputHandle os line (runcmdPoint s) = .ok (ret, s₁))
    (h : udbDebugRuncmd os buf resp s = .ok (s', resp')) :
    s'.dev.calls = s₁.dev.calls ∨ ∃ e, s'.dev.calls = s₁.dev.calls ++ [.spawn e] := by
  -- The shell is started once, or not at all.
  have hshell : ∀ s₂, s₂.dev.calls = s₁.dev.calls → runcmdShell os line resp s₂ = .ok (s', resp') →
      s'.dev.calls = s₁.dev.calls ∨ ∃ e, s'.dev.calls = s₁.dev.calls ++ [.spawn e] := by
    intro s₂ hcalls hrun
    unfold runcmdShell uvcPopen at hrun
    dsimp only at hrun
    cases hspawn : os.spawn (popenExec line true) with
    | none =>
      rw [hspawn] at hrun
      obtain ⟨rfl, -⟩ := pure_pair_eq_ok.mp hrun
      exact .inl hcalls
    | some out =>
      rw [hspawn] at hrun
      obtain ⟨b, -, hrun⟩ := bind_eq_ok.mp hrun
      obtain ⟨r, -, hrun⟩ := bind_eq_ok.mp hrun
      obtain ⟨rfl, -⟩ := pure_pair_eq_ok.mp hrun
      exact .inr ⟨_, congrArg (· ++ _) hcalls⟩
  rw [udbDebugRuncmd, hcmd, ok_bind, hhandle, ok_bind] at h
  dsimp only at h
  split at h
  · -- A built-in that was done starts nothing.
    obtain ⟨b, -, h⟩ := bind_eq_ok.mp h
    obtain ⟨r, -, h⟩ := bind_eq_ok.mp h
    obtain ⟨rfl, -⟩ := pure_pair_eq_ok.mp h
    exact .inl rfl
  · split at h
    · -- One that failed, and a line that is none, go to the shell.
      exact hshell (s₁.printf _) rfl h
    · exact hshell s₁ rfl h

/-- The directory of the server changes in the check. -/
private theorem dir_request {ret : Int} {s₁ : Server} (hauth : s.udbAuthOk = true)
    (hchan : packet[3]? = some UdbChanId.runCmd.toByte) (hcmd : cstrAt packet 4 = .ok line)
    (hhandle : uvcRuncmdInputHandle os line (runcmdPoint (s.setProtSize layer)) = .ok (ret, s₁))
    (h : request os layer packet s = .ok (s', reply)) : w.dir s' = w.dir s₁ := by
  obtain ⟨resp, hdisp⟩ := dispatch_of_request hauth (by decide) hchan h
  simp only [dispatch, UdbChanId.ofByte_toByte] at hdisp
  rcases calls_udbDebugRuncmd hcmd hhandle hdisp with hcalls | ⟨e, hcalls⟩
  · rw [World.dir, hcalls, World.dir]
  · rw [World.dir, hcalls, List.foldl_append, World.dir]
    rfl

/-- A built-in command that was done is answered with a newline. -/
private theorem request_builtIn {ret : Int} {s₁ : Server} (layer : UInt8)
    (hauth : s.udbAuthOk = true)
    (hchan : packet[3]? = some UdbChanId.runCmd.toByte) (hcmd : cstrAt packet 4 = .ok line)
    (hhandle : uvcRuncmdInputHandle os line s = .ok (ret, s₁)) (hret : 0 < ret) :
    ∃ s', request os layer packet s = .ok (s', padTo (layerProtSize layer) (le32 1)) ∧
      Stored .runcmd s' (ascii "\n") := by
  have hans : Resp.answer ⟨Buf.zero (layerProtSize layer), 0⟩ (le32 (UInt32.ofNat 1))
      (s.setProtSize layer).udbProtSize = .ok ⟨Buf.fill _ _ _, layerProtSize layer⟩ :=
    answer_short layer (length_le32_short _) rfl
  -- The answer is the size of the output, one byte.
  obtain ⟨rlog, calls, hrun⟩ := udbDebugRuncmd_taken (s := s.setProtSize layer) hcmd
    (.builtIn hhandle hret) hans
  refine ⟨RuncmdResult.builtIn.done (s.setProtSize layer) rlog calls, ?_,
    Stored.intro hauth rfl rfl (by decide) fun _ => ⟨s.runcmdBuf.bytes.drop 1, rfl⟩⟩
  rw [request_of_auth hauth (by decide) hchan]
  simp only [dispatch, UdbChanId.ofByte_toByte, hrun, ok_bind, pure_eq_ok, sent_fill]
  rfl

/-- The request of a line does what the line does in the directory of the server, and announces
    its output. -/
theorem World.serve_line (w : World) (layer : UInt8) (hauth : s.udbAuthOk = true)
    (hchan : packet[3]? = some UdbChanId.runCmd.toByte) (hcmd : cstrAt packet 4 = .ok line)
    (hans : Answered line) :
    ∃ s₁, w.serve layer s packet = some (s₁, padTo (layerProtSize layer)
        (le32 (UInt32.ofNat (w.runLine (w.dir s) line).2.length))) ∧
      Stored .runcmd s₁ (w.runLine (w.dir s) line).2 ∧
      w.dir s₁ = (w.runLine (w.dir s) line).1 := by
  let os := w.osIn (w.dir s)
  have hspawn : os.spawn (popenExec line true) = some (w.run (w.dir s) (popenExec line true)).val :=
    rfl
  cases hb : builtInOf line with
  | none =>
    -- The line is for the shell.
    obtain ⟨ret, hhandle, hret⟩ := inputHandle_of_not_builtInOf os hans hb s
    obtain ⟨s₁, hreq, hstored⟩ := request_runcmd layer hauth hchan hcmd ⟨ret, s, hhandle, hret⟩
      hspawn
    obtain ⟨ret', hhandle', -⟩ :=
      inputHandle_of_not_builtInOf os hans hb (runcmdPoint (s.setProtSize layer))
    have hline : w.runLine (w.dir s) line = (w.dir s, w.output (w.dir s) line) := by
      rw [World.runLine, hb]
    have hdir := dir_request (w := w) hauth hchan hcmd hhandle' hreq
    rw [hline]
    exact ⟨s₁, serveLayer_eq_some.mpr hreq, hstored, hdir⟩
  | some b =>
    have hhandle := inputHandle_of_builtInOf os hb s
    have hhandle' := inputHandle_of_builtInOf os hb (runcmdPoint (s.setProtSize layer))
    cases b with
    | exit =>
      obtain ⟨s₁, hreq, hstored⟩ := request_builtIn layer hauth hchan hcmd hhandle Int.one_pos
      have hdir := dir_request (w := w) hauth hchan hcmd hhandle' hreq
      have hline : w.runLine (w.dir s) line = (w.dir s, ascii "\n") := by
        rw [World.runLine, hb]
      rw [hline]
      exact ⟨s₁, serveLayer_eq_some.mpr hreq, hstored, hdir⟩
    | cd path =>
      have hmoved : w.dir ((BuiltInCmd.cd path).done (runcmdPoint (s.setProtSize layer))) =
          (w.chdir (w.dir s) path).getD (w.dir s) := by
        show (s.dev.calls ++ [_]).foldl w.moved w.root = _
        rw [List.foldl_append]
        rfl
      have hchdir : os.chdir path = (w.chdir (w.dir s) path).isSome := rfl
      cases hto : w.chdir (w.dir s) path with
      | some dir =>
        rw [hto] at hchdir hmoved
        have hret : 0 < (BuiltInCmd.cd path).ret os := by
          rw [BuiltInCmd.ret, hchdir]
          exact Int.one_pos
        obtain ⟨s₁, hreq, hstored⟩ := request_builtIn layer hauth hchan hcmd hhandle hret
        have hdir := dir_request (w := w) hauth hchan hcmd hhandle' hreq
        have hline : w.runLine (w.dir s) line = (dir, ascii "\n") := by
          simp only [World.runLine, hb, hto]
        rw [hline]
        exact ⟨s₁, serveLayer_eq_some.mpr hreq, hstored, hdir.trans hmoved⟩
      | none =>
        -- The directory was not found, so the shell gets the line as well.
        rw [hto] at hchdir hmoved
        have hret : (BuiltInCmd.cd path).ret os ≤ 0 := by
          rw [BuiltInCmd.ret, hchdir]
          decide
        obtain ⟨s₁, hreq, hstored⟩ := request_runcmd layer hauth hchan hcmd
          ⟨_, _, hhandle, hret⟩ hspawn
        have hdir := dir_request (w := w) hauth hchan hcmd hhandle' hreq
        have hline : w.runLine (w.dir s) line = (w.dir s, w.output (w.dir s) line) := by
          simp only [World.runLine, hb, hto]
        rw [hline]
        exact ⟨s₁, serveLayer_eq_some.mpr hreq, hstored, hdir.trans hmoved⟩

/-- A line on which the check does not return stops the server. -/
theorem World.serve_unanswered (hauth : s.udbAuthOk = true)
    (hchan : packet[3]? = some UdbChanId.runCmd.toByte) (hcmd : cstrAt packet 4 = .ok line)
    (hnul : (0 : UInt8) ∉ line) (hans : ¬ Answered line) : w.serve layer s packet = none := by
  cases hserve : w.serve layer s packet with
  | none => rfl
  | some res =>
    -- A reply would come from a line that the check of built-in commands survives.
    have hreq : request _ layer packet s = .ok (res.1, res.2) := serveLayer_eq_some.mp hserve
    obtain ⟨resp, hdisp⟩ := dispatch_of_request hauth (by decide) hchan hreq
    simp only [dispatch, UdbChanId.ofByte_toByte, udbDebugRuncmd, udbCmdPkgContentOffset, hcmd,
      ok_bind] at hdisp
    obtain ⟨⟨ret, s₁⟩, hhandle, -⟩ := bind_eq_ok.mp hdisp
    rw [← uvcRuncmdInputHandleAt_eq _ hnul] at hhandle
    exact absurd ((inputHandle_returns_iff _ ⟨line, hnul⟩ _).mp ⟨ret, s₁, hhandle⟩) hans

end Request

end Udb.Spec
