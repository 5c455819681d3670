import Udb.ForStd.ShellLex
import Udb.Spec.BuiltIn
import Udb.Spec.Runcmd

/-!
# What is taken as a built-in command

"build-in cmd must be very single", says `udb_debug.c`. The check drops the last byte
of the line, looks for a `;` and for bars, and takes the first word between blanks. It
does not know `&`, newlines and parentheses, so a line such as `cd /tmp && ls` is taken
as a `cd`, and what is behind it is never run.

Here the shell's own tokens of the line say what it is.

## Key results

- `inputHandle_eq_one_iff`: the lines that are taken as a built-in command
- `takesSimple_iff`: when such a line is one simple command
-/

namespace Udb.Spec

open CMem Runs Udb.Native

open ShellLex (tokens newline opToken operators Ordinary Plain IsSimple Joins)

variable {os : Os} {cmd : Bytes} {s : Server}

/-! ## The lines that are taken -/

/-- The copy without the last byte has no `;` and no bar, and starts with `exit`, or with `cd` and
    a directory that can be entered. -/
def Accepts (os : Os) (cmd : Bytes) : Prop :=
  (59 : UInt8) ∉ cmd.dropLast ∧ (124 : UInt8) ∉ cmd.dropLast ∧
    ((runs 32 cmd.dropLast).head? = some (ascii "exit") ∨
      ∃ dir rest, runs 32 cmd.dropLast = ascii "cd" :: dir :: rest ∧
        os.chdir (cdPath dir) = true)

/-- The first word between blanks, and what is in front of it and behind it. -/
private theorem runs_eq_cons {input w : Bytes} {ws : List Bytes} (h : runs 32 input = w :: ws) :
    ∃ skip sep rest, input = skip ++ w ++ sep ++ rest ∧ (∀ x ∈ skip, x = 32) ∧
      (sep = [32] ∨ sep = [] ∧ rest = []) ∧ ws = runs 32 rest := by
  rw [runs_eq_of_strtokR] at h
  cases htok : strtokR 32 input with
  | none =>
    rw [htok] at h
    cases h
  | some p =>
    obtain ⟨tok, rest⟩ := p
    rw [htok] at h
    obtain ⟨rfl, rfl⟩ := List.cons.inj h
    -- The first token ends at a blank, or at the end of the line.
    obtain ⟨skip, sep, hinput, hskip, -, -, hsep⟩ := strtokR_eq_some htok
    exact ⟨skip, sep, rest, hinput, hskip, hsep, rfl⟩

/-- `is_multi_cmd` looks for a semicolon only. -/
theorem isMultiCmd_eq_false {input : Bytes} :
    isMultiCmd input = false ↔ (59 : UInt8) ∉ input := by
  rw [← Bool.not_eq_true, isMultiCmd, List.any_eq_true]
  simp

/-- The name of a command is the first word of its piece. -/
theorem head?_runs_of_name {input name : Bytes} (h : (commandOf input).name = some name) :
    (runs 32 input).head? = some name := by
  rw [← h, commandOf]
  dsimp only
  rw [List.head?_take, if_neg (by decide)]

/-- A line that starts with `exit` or `cd` passes the tests, if it has no `;` and no bar. -/
theorem inspected_of_accepts (h : Accepts os cmd) : Inspected cmd.dropLast := by
  obtain ⟨hsemi, hbar, hword⟩ := h
  -- Each of the two words has a letter, so the line is neither empty nor blank.
  obtain ⟨w, ws, hruns, hletter⟩ : ∃ w ws, runs 32 cmd.dropLast = w :: ws ∧
      ∃ x ∈ w, isspace x = false := by
    rcases hword with hexit | ⟨dir, rest, hcd, -⟩
    · obtain ⟨ws, hws⟩ := List.head?_eq_some_iff.mp hexit
      exact ⟨_, ws, hws, 101, by decide, by decide⟩
    · exact ⟨_, _, hcd, 99, by decide, by decide⟩
  obtain ⟨skip, sep, rest, hinput, -⟩ := runs_eq_cons hruns
  obtain ⟨x, hx, hspace⟩ := hletter
  have hmem : x ∈ cmd.dropLast := by
    rw [hinput]
    simp [hx]
  refine ⟨List.length_pos_of_mem hmem, ?_, ?_, ?_⟩
  · rw [isBlank, List.all_eq_true]
    intro hall
    rw [hall x hmem] at hspace
    cases hspace
  · rw [isMultiCmd_eq_false.mpr hsemi]
    decide
  · intro hhead
    exact hbar (List.mem_of_mem_head? hhead)

/-- What `runBuiltIn` returns for a command that is the whole line. -/
private theorem runBuiltIn_eq_one_iff {input name : Bytes}
    (hname : (commandOf input).name = some name)
    (hbuiltIn : name = ascii "exit" ∨ name = ascii "cd") :
    (∃ s', runBuiltIn os (commandOf input) s = .ok (1, s')) ↔
      (runs 32 input).head? = some (ascii "exit") ∨
        ∃ dir rest, runs 32 input = ascii "cd" :: dir :: rest ∧ os.chdir (cdPath dir) = true := by
  have hhead := head?_runs_of_name hname
  obtain ⟨ws, hws⟩ := List.head?_eq_some_iff.mp hhead
  unfold runBuiltIn nameIs
  rw [hname]
  simp only [ok_bind]
  by_cases hexit : name = ascii "exit"
  · -- Nobody looks at the arguments of `exit`.
    rw [if_pos (by simpa using hexit)]
    refine iff_of_true ⟨_, rfl⟩ (.inl ?_)
    rw [hhead, hexit]
  · have hcd := hbuiltIn.resolve_left hexit
    rw [if_neg (by simpa using hexit), hws, hcd]
    cases ws with
    | nil =>
      -- There is no directory.
      have hargc : (commandOf input).argc < 2 := by
        rw [commandOf, hws]
        simp
      rw [if_pos hargc]
      refine iff_of_false (fun h => ?_) (by simp; decide)
      obtain ⟨s', h⟩ := h
      cases h
    | cons dir rest =>
      have hargc : ¬ (commandOf input).argc < 2 := by
        rw [commandOf, hws]
        simp [argMaxCount]
      have hdir : (commandOf input).argv[1]? = some dir := by
        rw [commandOf, hws]
        rfl
      rw [if_neg hargc, hdir]
      dsimp only
      cases hchdir : os.chdir (cdPath dir) with
      | false =>
        refine iff_of_false (fun h => ?_) (by simp [hchdir]; decide)
        obtain ⟨s', h⟩ := h
        cases h
      | true => exact iff_of_true ⟨_, rfl⟩ (.inr ⟨dir, rest, rfl, hchdir⟩)

/-- A built-in command is taken, or fails. -/
private theorem runBuiltIn_ret {command : Command} {ret : Int} {s' : Server}
    (h : runBuiltIn os command s = .ok (ret, s')) : ret = 1 ∨ ret = -1 := by
  obtain ⟨isExit, -, h⟩ := bind_eq_ok.mp h
  split at h
  · -- `exit`
    exact .inl (pure_pair_eq_ok.mp h).1.symm
  · split at h
    · -- `cd` without a path.
      exact .inr (pure_pair_eq_ok.mp h).1.symm
    · split at h
      · -- There is no pointer to a path.
        cases h
      · dsimp only at h
        split at h
        · exact .inl (pure_pair_eq_ok.mp h).1.symm
        · exact .inr (pure_pair_eq_ok.mp h).1.symm

/-- The lines that are taken as a built-in command. -/
theorem inputHandle_eq_one_iff :
    (∃ s', uvcRuncmdInputHandle os cmd s = .ok (1, s')) ↔ Accepts os cmd := by
  by_cases hnil : cmd = []
  · subst hnil
    refine iff_of_false (fun h => ?_) fun h => ?_
    · obtain ⟨s', h⟩ := h
      cases h
    · exact absurd (inspected_of_accepts h).1 (by decide)
  · by_cases hin : Inspected cmd.dropLast
    · by_cases hbar : (124 : UInt8) ∈ cmd.dropLast
      · -- With a bar the line is a pipeline, or a slot is null.
        refine iff_of_false (fun h => ?_) fun h => h.2.1 hbar
        obtain ⟨s', h⟩ := h
        by_cases hfull : (runs 124 cmd.dropLast).length = cmd.dropLast.count 124 + 1
        · rw [inputHandle_of_pipeline os hnil hin hfull hbar] at h
          cases h
        · rw [inputHandle_of_missing os hnil hin hfull] at h
          cases h
      · obtain ⟨name, hname, heq⟩ := inputHandle_of_single os hnil hin hbar s
        have hsemi : (59 : UInt8) ∉ cmd.dropLast :=
          isMultiCmd_eq_false.mp (Bool.eq_false_iff.mpr hin.2.2.1)
        rw [heq]
        by_cases hbuiltIn : name = ascii "exit" ∨ name = ascii "cd"
        · rw [if_pos (by simpa using hbuiltIn), runBuiltIn_eq_one_iff hname hbuiltIn]
          exact ⟨fun h => ⟨hsemi, hbar, h⟩, fun h => h.2.2⟩
        · rw [if_neg (by simpa using hbuiltIn)]
          refine iff_of_false (fun h => ?_) fun h => hbuiltIn ?_
          · obtain ⟨s', h⟩ := h
            cases h
          · -- The name is the first word.
            have hhead := head?_runs_of_name hname
            rcases h.2.2 with hexit | ⟨dir, rest, hcd, -⟩
            · exact .inl (Option.some.inj (hhead.symm.trans hexit))
            · rw [hcd] at hhead
              exact .inr (Option.some.inj hhead).symm
    · -- The tests have failed, and the line is for the shell.
      refine iff_of_false (fun h => ?_) fun h => hin (inspected_of_accepts h)
      rw [inputHandle_of_not_inspected os hnil hin] at h
      obtain ⟨s', h⟩ := h
      cases h

/-! ## The shell's tokens of such a line -/

/-- `exit` with only the last byte behind it, which is part of the shell's word. -/
def Glued (cmd : Bytes) : Prop :=
  ∃ skip c, (∀ x ∈ skip, x = 32) ∧ cmd = skip ++ (ascii "exit" ++ [c]) ∧
    c ≠ 32 ∧ c ≠ 9 ∧ c ≠ 10

/-- `exit` is a plain word. -/
private theorem ordinary_exit : ∀ c ∈ ascii "exit", Ordinary c := by decide +kernel

/-- `cd` is a plain word. -/
private theorem ordinary_cd : ∀ c ∈ ascii "cd", Ordinary c := by decide +kernel

/-- The word `exit` and the last byte of the line. -/
private theorem tokens_exit {skip : Bytes} (hskip : ∀ x ∈ skip, x = 32) (c : UInt8) :
    tokens (skip ++ (ascii "exit" ++ [c])) =
      if ShellLex.isBlank c then some [.word (ascii "exit")]
      else if c = 10 then some [.word (ascii "exit"), newline]
      else if operators.contains [c] then some [.word (ascii "exit"), opToken [c]]
      else if (ShellLex.advance [] .plain c).1 = [] then some [.word (ascii "exit" ++ [c])]
      else none := by
  rw [ShellLex.tokens_append_of_blank hskip,
    ShellLex.tokens_append_singleton (by decide) (by decide) ordinary_exit (by decide)]

/-- The first word stands in front of a blank, or it is `exit` in front of the last byte. -/
private theorem tokens_of_accepts (h : Accepts os cmd) :
    (∃ w rest, (w = ascii "cd" ∨ w = ascii "exit") ∧
      tokens cmd = (tokens rest).map (.word w :: ·)) ∨
    ∃ skip c, (∀ x ∈ skip, x = 32) ∧ cmd = skip ++ (ascii "exit" ++ [c]) := by
  have hlen := (inspected_of_accepts h).1
  have hne : cmd ≠ [] := by
    intro hnil
    rw [hnil] at hlen
    exact absurd hlen (by decide)
  obtain ⟨c, hlast⟩ : ∃ c, cmd.dropLast ++ [c] = cmd :=
    ⟨cmd.getLast hne, List.dropLast_append_getLast hne⟩
  obtain ⟨w, ws, hruns, hw⟩ : ∃ w ws, runs 32 cmd.dropLast = w :: ws ∧
      (w = ascii "exit" ∨ w = ascii "cd" ∧ ws ≠ []) := by
    rcases h.2.2 with hexit | ⟨dir, rest, hcd, -⟩
    · obtain ⟨ws, hws⟩ := List.head?_eq_some_iff.mp hexit
      exact ⟨_, ws, hws, .inl rfl⟩
    · exact ⟨_, _, hcd, .inr ⟨rfl, List.cons_ne_nil _ _⟩⟩
  obtain ⟨skip, sep, rest, hinput, hskip, hsep, hws⟩ := runs_eq_cons hruns
  rw [hinput] at hlast
  rcases hsep with rfl | ⟨rfl, rfl⟩
  · -- A blank ends the word for the shell as well.
    left
    have hcmd : cmd = skip ++ (w ++ 32 :: (rest ++ [c])) := by
      simpa using hlast.symm
    refine ⟨w, rest ++ [c], hw.symm.imp_left And.left, ?_⟩
    -- Both words are plain.
    rcases hw with rfl | ⟨rfl, -⟩
    · rw [hcmd, ShellLex.tokens_append_of_blank hskip,
        ShellLex.tokens_append_blank (by decide) (by decide) ordinary_exit]
    · rw [hcmd, ShellLex.tokens_append_of_blank hskip,
        ShellLex.tokens_append_blank (by decide) (by decide) ordinary_cd]
  · -- The word ends with the copy, so the last byte of the line stands next to it.
    right
    rcases hw with rfl | ⟨-, hdir⟩
    · exact ⟨skip, c, hskip, by simpa using hlast.symm⟩
    · -- A `cd` has its directory behind it.
      exact absurd hws hdir

/-- The first token of such a line is the word that it was taken for. -/
private theorem head_of_accepts (h : Accepts os cmd) (hglued : ¬ Glued cmd)
    {ts : List ShellLex.Token}
    (ht : tokens cmd = some ts) :
    ∃ w ts', ts = .word w :: ts' ∧ (w = ascii "cd" ∨ w = ascii "exit") := by
  rcases tokens_of_accepts h with ⟨w, rest, hw, htokens⟩ | ⟨skip, c, hskip, hcmd⟩
  · rw [htokens, Option.map_eq_some_iff] at ht
    obtain ⟨ts', -, rfl⟩ := ht
    exact ⟨w, ts', rfl, hw⟩
  · -- The last byte is a blank or a newline.
    have hc : ShellLex.isBlank c = true ∨ c = 10 := by
      by_contra hno
      rw [ShellLex.isBlank] at hno
      simp only [Bool.or_eq_true, decide_eq_true_eq, not_or] at hno
      exact hglued ⟨skip, c, hskip, hcmd, hno.1.1, hno.1.2, hno.2⟩
    rw [hcmd, tokens_exit hskip] at ht
    rcases hc with hblank | rfl
    · rw [if_pos hblank] at ht
      exact ⟨_, _, (Option.some.inj ht).symm, .inr rfl⟩
    · rw [if_neg (by decide), if_pos rfl] at ht
      exact ⟨_, _, (Option.some.inj ht).symm, .inr rfl⟩

/-- To the shell a glued line is another command, or none. -/
private theorem Glued.head_ne (h : Glued cmd) {w : Bytes} {args : List Bytes}
    (hsimple : IsSimple cmd (w :: args)) : w ≠ ascii "cd" ∧ w ≠ ascii "exit" := by
  obtain ⟨skip, c, hskip, rfl, h32, h9, h10⟩ := h
  have ht := tokens_exit hskip c
  rw [if_neg (by simp [ShellLex.isBlank, h32, h9]), if_neg h10] at ht
  by_cases hop : operators.contains [c] = true
  · -- An operator at the end leaves a command that is not complete.
    rw [if_pos hop] at ht
    have hlast : tokens (skip ++ (ascii "exit" ++ [c])) =
        some ([.word (ascii "exit")] ++ [opToken [c]]) := ht
    exact absurd hsimple (ShellLex.not_isSimple_of_last (List.contains_iff_mem.mp hop) hlast)
  · rw [if_neg hop] at ht
    by_cases hadv : (ShellLex.advance [] .plain c).1 = []
    · rw [if_pos hadv] at ht
      obtain ⟨args', hargs⟩ := hsimple.head ht
      obtain ⟨rfl, -⟩ := List.cons.inj hargs
      -- It is too long for either word.
      have hone : [c].length = 1 := rfl
      exact ⟨fun he => absurd (congrArg List.length he) (by rw [List.length_append, hone]; decide),
        fun he => absurd (congrArg List.length he) (by rw [List.length_append, hone]; decide)⟩
    · -- What the byte opens is never closed, so there are no tokens.
      obtain ⟨body, k, hbody, -⟩ := hsimple
      rw [if_neg hadv, hbody] at ht
      cases ht

/-! ## One simple command -/

/-- What is returned. -/
private theorem inputHandle_ret {ret : Int} {s' : Server}
    (h : uvcRuncmdInputHandle os cmd s = .ok (ret, s')) : ret = 0 ∨ ret = 1 ∨ ret = -1 := by
  by_cases hnil : cmd = []
  · subst hnil
    cases h
  · by_cases hin : Inspected cmd.dropLast
    · by_cases hbar : (124 : UInt8) ∈ cmd.dropLast
      · -- A pipeline: each piece has a name, or the line crashes.
        by_cases hfull : (runs 124 cmd.dropLast).length = cmd.dropLast.count 124 + 1
        · rw [inputHandle_of_pipeline os hnil hin hfull hbar] at h
          exact .inl (pure_pair_eq_ok.mp h).1.symm
        · rw [inputHandle_of_missing os hnil hin hfull] at h
          cases h
      · -- One command: the value is that of the built-in, or the shell gets it.
        obtain ⟨name, -, heq⟩ := inputHandle_of_single os hnil hin hbar s
        rw [heq] at h
        split at h
        · exact .inr (runBuiltIn_ret h)
        · exact .inl (pure_pair_eq_ok.mp h).1.symm
    · rw [inputHandle_of_not_inspected os hnil hin] at h
      exact .inl (pure_pair_eq_ok.mp h).1.symm

/-- A line that is not done goes to the shell as it came. -/
private theorem udbDebugRuncmd_of_le {n : Nat} {buf : Bytes} {ret : Int} {s' : Server}
    (h : uvcRuncmdInputHandle os cmd s = .ok (ret, s')) (hret : ret ≤ 0)
    (hcmd : cstrAt buf udbCmdPkgContentOffset = .ok cmd) (resp : Resp n) (s₀ : Server) :
    ∃ s₁, udbDebugRuncmd os buf resp s₀ = runcmdShell os cmd resp s₁ := by
  obtain ⟨s₁, h₁⟩ := uvcRuncmdInputHandle_of_state h (runcmdPoint s₀)
  refine ⟨if ret < 0 then s₁.printf (ascii "run build-in cmd Err, continue\n") else s₁, ?_⟩
  rw [udbDebugRuncmd, hcmd, ok_bind, h₁, ok_bind]
  dsimp only
  rw [if_neg (by omega)]

/-- If the check returns, then only a single simple command is taken, and a line of several
    commands goes to the shell whole, whatever packet it came in and whatever the answer. -/
def TakesSimple (os : Os) (cmd : Bytes) (s : Server) : Prop :=
  ∀ ret s', uvcRuncmdInputHandle os cmd s = .ok (ret, s') →
    (ret = 1 → ∃ w args, IsSimple cmd (w :: args) ∧ (w = ascii "cd" ∨ w = ascii "exit")) ∧
    (Joins cmd → (ret = 0 ∨ ret = -1) ∧
      ∀ (n : Nat) (buf : Bytes) (resp : Resp n) (s₀ : Server),
        cstrAt buf udbCmdPkgContentOffset = .ok cmd →
          ∃ s₁, udbDebugRuncmd os buf resp s₀ = runcmdShell os cmd resp s₁)

/-- The shell finds no operator in the line but redirections with a word behind them, and
    newlines at the end. -/
def NoOperators (cmd : Bytes) : Prop :=
  ∃ body k, tokens cmd = some (body ++ List.replicate k newline) ∧ Plain body

/-- What is not taken goes to the shell as it is, so only a line that is taken has to be a simple
    command. -/
private theorem takesSimple_of_accepts
    (h : Accepts os cmd → ∃ w args, IsSimple cmd (w :: args) ∧
      (w = ascii "cd" ∨ w = ascii "exit")) : TakesSimple os cmd s := by
  intro ret s' hret
  refine ⟨fun hone => h (inputHandle_eq_one_iff.mp ⟨s', by rw [hret, hone]⟩), fun hjoins => ?_⟩
  -- A line that joins commands is not simple, so it is not accepted.
  have hone : ret ≠ 1 := by
    rintro rfl
    obtain ⟨w, args, hsimple, -⟩ := h (inputHandle_eq_one_iff.mp ⟨s', hret⟩)
    exact hjoins.not_isSimple hsimple
  have hcases := inputHandle_ret hret
  exact ⟨by omega, fun n buf resp s₀ hcmd =>
    udbDebugRuncmd_of_le hret (by omega) hcmd resp s₀⟩

/-- Only a single simple command is taken as a built-in exactly when the line is not taken, or
    the shell finds no operators in it and no more than a blank or a newline behind `exit`: for
    every line, every answer of the operating system and every state. -/
theorem takesSimple_iff (os : Os) (cmd : Bytes) (s : Server) :
    TakesSimple os cmd s ↔ (Accepts os cmd → NoOperators cmd ∧ ¬ Glued cmd) := by
  constructor
  · intro h hacc
    obtain ⟨s', hret⟩ := inputHandle_eq_one_iff.mpr hacc
    obtain ⟨w, args, hsimple, hw⟩ := (h 1 s' hret).1 rfl
    refine ⟨?_, fun hglued => ?_⟩
    · obtain ⟨body, k, ht, hbody⟩ := hsimple
      exact ⟨body, k, ht, ShellLex.exists_simpleCommand_iff.mp ⟨_, hbody⟩⟩
    · obtain ⟨hcd, hexit⟩ := hglued.head_ne hsimple
      exact hw.elim hcd hexit
  · intro h
    refine takesSimple_of_accepts fun hacc => ?_
    obtain ⟨⟨body, k, ht, hplain⟩, hglued⟩ := h hacc
    obtain ⟨ws, hws⟩ := ShellLex.exists_simpleCommand_iff.mpr hplain
    have hsimple : IsSimple cmd ws := ⟨body, k, ht, hws⟩
    -- The first word is the one that the line was taken for.
    obtain ⟨w, ts, hts, hw⟩ := head_of_accepts hacc hglued ht
    rw [hts] at ht
    obtain ⟨args, rfl⟩ := hsimple.head ht
    exact ⟨w, args, hsimple, hw⟩

/-- `ls` behind an and-list is never run: the line is taken as a `cd`. -/
theorem not_takesSimple :
    ¬ (∀ (os : Os) (cmd : Bytes) (s : Server), TakesSimple os cmd s) ∧
    Joins (ascii "cd /tmp && ls ") ∧
    ∀ s : Server, ∃ s', uvcRuncmdInputHandle (willing [] []) (ascii "cd /tmp && ls ") s =
      .ok (1, s') := by
  -- The tokens of the shell are `cd /tmp`, `&&` and `ls`.
  have hjoins : Joins (ascii "cd /tmp && ls ") :=
    ⟨[.word (ascii "cd"), .word (ascii "/tmp")], [38, 38], [.word (ascii "ls")],
      by decide +kernel, by decide, ⟨ascii "cd", by simp⟩, ascii "ls", by simp⟩
  have htaken (s : Server) : ∃ s', uvcRuncmdInputHandle (willing [] []) (ascii "cd /tmp && ls ") s =
      .ok (1, s') := ⟨_, rfl⟩
  refine ⟨fun h => ?_, hjoins, htaken⟩
  obtain ⟨s', hret⟩ := htaken (authed fun _ => none)
  have hnot := ((h _ _ _ 1 s' hret).2 hjoins).1
  exact absurd hnot (by decide)

end Udb.Spec
