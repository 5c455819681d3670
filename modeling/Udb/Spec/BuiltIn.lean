import Udb.Spec.Reach
import Udb.Spec.Strtok

/-!
# The check for built-in commands

`uvc_runcmd_input_handle` looks at its copy of a command line before it parses it, and
dereferences a slot for every bar and one more. The parser fills a slot only for a
piece that is not empty, so two bars next to each other, or one at the end of the
copy, leave a null pointer in the last slots.

## Key results

- `uvcRuncmdInputHandleAt_eq`: in memory and on the list of bytes the check is the same
- `inputHandle_returns_iff`: the command lines on which it returns
-/

namespace Udb.Spec

open CMem Runs Udb.Native

variable {os : Os} {s : Server}

/-! ## Slots -/

/-- Slots are dereferenced up to the first that is null. -/
private theorem mapM_slots {α : Type} {f : Option α → Except Fault α}
    (hnone : f none = .error .nullDeref)
    (hsome : ∀ a, f (some a) = .ok a) (cmds : List α) (free : Nat) :
    (cmds.map some ++ List.replicate free none).mapM f =
      if free = 0 then .ok cmds else .error .nullDeref := by
  -- Induction on the slots that are filled.
  induction cmds with
  | nil =>
    cases free with
    | zero => rfl
    | succ n =>
      rw [List.map_nil, List.nil_append, List.replicate_succ, List.mapM_cons, hnone]
      rfl
  | cons c cmds ih =>
    rw [List.map_cons, List.cons_append, List.mapM_cons, hsome, ok_bind, ih]
    split <;> rfl

/-- The commands of a line are all there when no piece of it is empty. -/
private theorem derefSlots_pipelineOf (input : Bytes) :
    derefSlots (pipelineOf input) =
      if (runs 124 input).length = input.count 124 + 1 then
        .ok ((runs 124 input).map commandOf)
      else .error .nullDeref := by
  have hle : (runs 124 input).length ≤ input.count 124 + 1 := length_runs_le
  unfold derefSlots pipelineOf
  dsimp only
  rw [← List.map_map, mapM_slots rfl (fun _ => rfl)]
  by_cases hfull : (runs 124 input).length = input.count 124 + 1
  · rw [if_pos (by omega), if_pos hfull]
  · rw [if_neg (by omega), if_neg hfull]

/-! ## In memory -/

/-- The tests in front of the parser. -/
def Inspected (input : Bytes) : Prop :=
  0 < input.length ∧ ¬ isBlank input ∧ ¬ isMultiCmd input ∧ input.head? ≠ some 124

instance (input : Bytes) : Decidable (Inspected input) := inferInstanceAs (Decidable (_ ∧ _))

/-- Every slot of the array is read, so a free one is a null pointer. -/
private theorem derefSlot_mapM (cs : List CommandPtr) (free : Nat) :
    (cs.map some ++ List.replicate free none).mapM derefSlot =
      if free = 0 then .ok cs else .error .nullDeref :=
  mapM_slots rfl (fun _ => rfl) cs free

/-- In memory the check does what it does on the list of bytes. -/
theorem uvcRuncmdInputHandleAt_eq (os : Os) {cmd : Bytes} (h0 : (0 : UInt8) ∉ cmd) (s : Server) :
    uvcRuncmdInputHandleAt os cmd s = uvcRuncmdInputHandle os cmd s := by
  unfold uvcRuncmdInputHandleAt uvcRuncmdInputHandle
  by_cases hnil : cmd = []
  · rw [if_pos hnil, if_pos hnil]
  · rw [if_neg hnil, if_neg hnil]
    have h0' : (0 : UInt8) ∉ cmd.dropLast := fun h => h0 (List.dropLast_subset _ h)
    have hinput : cstrAt (cmd.dropLast ++ [0]) 0 = .ok cmd.dropLast := cstrAt_append h0' [] []
    dsimp only
    rw [hinput, ok_bind]
    split
    · -- Both parse the copy. In memory its slots hold pointers, on the list what they point to.
      obtain ⟨cs, str', hparse, hcs⟩ := parseCommandsWithPipesAt_spec h0' []
      have hcount := hcs.length_eq
      rw [List.length_map] at hcount
      have hle : (runs 124 cmd.dropLast).length ≤ cmd.dropLast.count 124 + 1 := length_runs_le
      rw [hparse, ok_bind]
      dsimp only
      rw [derefSlot_mapM, parseCommandsWithPipes_eq, derefSlots_pipelineOf]
      by_cases hfull : (runs 124 cmd.dropLast).length = cmd.dropLast.count 124 + 1
      · rw [if_pos (by omega), if_pos hfull, ok_bind, ok_bind]
        show (if 1 < cmd.dropLast.count 124 + 1 then _ else _) =
          (if 1 < cmd.dropLast.count 124 + 1 then _ else _)
        generalize (runs 124 cmd.dropLast).map commandOf = cmds at hcs
        split
        · rfl
        · -- The one command is found at its pointers.
          cases hcs with
          | nil => rfl
          | cons hfirst _ =>
            have hload := hfirst []
            rw [List.append_nil] at hload
            dsimp only
            rw [hload]
            rfl
      · -- A slot is null in both.
        rw [if_neg (by omega), if_neg hfull]
        rfl
    · rfl

/-! ## When it returns -/

/-- A line that is not blank has a first word. -/
private theorem name_commandOf {input : Bytes} (h : isBlank input = false) :
    ∃ name, (commandOf input).name = some name := by
  have hne : runs 32 input ≠ [] := by
    intro hnil
    rw [runs_eq_nil_iff] at hnil
    rw [isBlank, List.all_eq_false] at h
    -- Some byte of the line is not even `isspace`, so it is not the blank that separates words.
    obtain ⟨x, hx, hspace⟩ := h
    rw [hnil x hx] at hspace
    exact hspace (by decide)
  obtain ⟨w, ws, hruns⟩ := List.exists_cons_of_ne_nil hne
  exact ⟨w, by rw [commandOf, hruns]; rfl⟩

/-- A command with a name is checked and, if it is a built-in, run. -/
private theorem checkBuiltIn_returns {cmd : Command} {name : Bytes} (h : cmd.name = some name) :
    checkBuiltIn cmd = .ok (name == ascii "exit" || name == ascii "cd") := by
  simp only [checkBuiltIn, nameIs, h, ok_bind]
  cases name == ascii "exit" <;> rfl

/-- A command with a name comes to an end. -/
private theorem runBuiltIn_returns (os : Os) {cmd : Command} {name : Bytes}
    (h : cmd.name = some name)
    (hargc : cmd.argc = cmd.argv.length) (s : Server) :
    ∃ ret s', runBuiltIn os cmd s = .ok (ret, s') := by
  simp only [runBuiltIn, nameIs, h, ok_bind]
  split
  · exact ⟨_, _, rfl⟩
  · split
    · exact ⟨_, _, rfl⟩
    · rename_i hlt
      -- Only behind the count is the path looked at, so it is there.
      have hone : 1 < cmd.argv.length := by omega
      rw [List.getElem?_eq_getElem hone]
      dsimp only
      split
      · exact ⟨_, _, rfl⟩
      · exact ⟨_, _, rfl⟩

section Branches

variable {cmd : Bytes}

/-- The handler on a line that is not empty: what is inspected is parsed, and one command alone is
    compared with the built-in ones. -/
private theorem inputHandle_eq (os : Os) (hne : cmd ≠ []) (s : Server) :
    uvcRuncmdInputHandle os cmd s =
      if Inspected cmd.dropLast then
        derefSlots (pipelineOf cmd.dropLast) >>= fun cmds =>
          if 1 < cmd.dropLast.count 124 + 1 then pure (0, s)
          else match cmds with
            | [] => .error .nullDeref
            | first :: _ => checkBuiltIn first >>= fun builtIn =>
              if builtIn then runBuiltIn os first s else pure (0, s)
      else pure (0, s) := by
  unfold uvcRuncmdInputHandle
  rw [if_neg hne, ← parseCommandsWithPipes_eq]
  rfl

/-- A line that the tests let through is for the shell. -/
theorem inputHandle_of_not_inspected (os : Os) (hne : cmd ≠ []) (hno : ¬ Inspected cmd.dropLast)
    (s : Server) : uvcRuncmdInputHandle os cmd s = .ok (0, s) := by
  rw [inputHandle_eq os hne, if_neg hno, pure_eq_ok]

/-- With an empty piece a slot is null. -/
theorem inputHandle_of_missing (os : Os) (hne : cmd ≠ []) (hin : Inspected cmd.dropLast)
    (hmiss : (runs 124 cmd.dropLast).length ≠ cmd.dropLast.count 124 + 1) (s : Server) :
    uvcRuncmdInputHandle os cmd s = .error .nullDeref := by
  rw [inputHandle_eq os hne, if_pos hin, derefSlots_pipelineOf, if_neg hmiss, error_bind]

/-- A pipeline is for the shell. -/
theorem inputHandle_of_pipeline (os : Os) (hne : cmd ≠ []) (hin : Inspected cmd.dropLast)
    (hfull : (runs 124 cmd.dropLast).length = cmd.dropLast.count 124 + 1)
    (hbar : (124 : UInt8) ∈ cmd.dropLast) (s : Server) :
    uvcRuncmdInputHandle os cmd s = .ok (0, s) := by
  have hcount := List.count_pos_iff.mpr hbar
  rw [inputHandle_eq os hne, if_pos hin, derefSlots_pipelineOf, if_pos hfull, ok_bind,
    if_pos (by omega), pure_eq_ok]

/-- Without a bar the one command is the whole line, and it has a name. -/
theorem inputHandle_of_single (os : Os) (hne : cmd ≠ []) (hin : Inspected cmd.dropLast)
    (hbar : (124 : UInt8) ∉ cmd.dropLast) (s : Server) :
    ∃ name, (commandOf cmd.dropLast).name = some name ∧ uvcRuncmdInputHandle os cmd s =
      if (name == ascii "exit" || name == ascii "cd") then runBuiltIn os (commandOf cmd.dropLast) s
      else .ok (0, s) := by
  obtain ⟨name, hname⟩ := name_commandOf (Bool.eq_false_iff.mpr hin.2.1)
  -- Without a bar there is one piece, so the name is that of the whole line.
  have hline : runs 124 cmd.dropLast = [cmd.dropLast] := by
    rw [runs_of_not_mem hbar, if_neg (List.ne_nil_of_length_pos hin.1)]
  have hcount := List.count_eq_zero.mpr hbar
  refine ⟨name, hname, ?_⟩
  rw [inputHandle_eq os hne, if_pos hin, derefSlots_pipelineOf, hline, hcount,
    if_pos (List.length_singleton), ok_bind, if_neg (by omega)]
  show (checkBuiltIn (commandOf cmd.dropLast) >>= _) = _
  rw [checkBuiltIn_returns hname, ok_bind, pure_eq_ok]

/-- Behind the tests the check returns when no piece of the line is empty. -/
private theorem inputHandle_inspected (os : Os) (hne : cmd ≠ []) (hin : Inspected cmd.dropLast)
    (s : Server) : (∃ ret s', uvcRuncmdInputHandle os cmd s = .ok (ret, s')) ↔
      ∀ piece ∈ cmd.dropLast.splitOn 124, piece ≠ [] := by
  rw [← length_runs_eq_iff]
  by_cases hfull : (runs 124 cmd.dropLast).length = cmd.dropLast.count 124 + 1
  · -- Every slot is filled: a pipeline is for the shell, and one command has a name.
    refine iff_of_true ?_ hfull
    by_cases hbar : (124 : UInt8) ∈ cmd.dropLast
    · exact ⟨_, _, inputHandle_of_pipeline os hne hin hfull hbar s⟩
    · obtain ⟨name, hname, heq⟩ := inputHandle_of_single os hne hin hbar s
      rw [heq]
      split
      · exact runBuiltIn_returns os hname rfl s
      · exact ⟨_, _, rfl⟩
  · refine iff_of_false (fun h => ?_) hfull
    rw [inputHandle_of_missing os hne hin hfull] at h
    obtain ⟨ret, s', h⟩ := h
    cases h

end Branches

/-- The check returns, with every access inside its copy and no null command dereferenced,
    exactly when the line is not empty, and its copy is one that the tests let through unparsed or
    one in which bars stand between non-empty pieces: for every line, every answer of the
    operating system and every state. -/
theorem inputHandle_returns_iff (os : Os) (cmd : CString) (s : Server) :
    (∃ ret s', uvcRuncmdInputHandleAt os cmd.bytes s = .ok (ret, s')) ↔
      cmd.bytes ≠ [] ∧ (¬ Inspected cmd.bytes.dropLast ∨
        ∀ piece ∈ cmd.bytes.dropLast.splitOn 124, piece ≠ []) := by
  rw [uvcRuncmdInputHandleAt_eq os cmd.nulFree]
  by_cases hnil : cmd.bytes = []
  · -- The empty line: its last byte is read in front of the string.
    refine iff_of_false (fun h => ?_) fun h => h.1 hnil
    unfold uvcRuncmdInputHandle at h
    rw [if_pos hnil] at h
    obtain ⟨ret, s', h⟩ := h
    cases h
  · by_cases hin : Inspected cmd.bytes.dropLast
    · -- The line is looked at: a piece without a name is a null pointer.
      rw [inputHandle_inspected os hnil hin s]
      exact ⟨fun h => ⟨hnil, .inr h⟩, fun h => h.2.resolve_left fun hno => hno hin⟩
    · -- It goes to the shell unseen.
      exact iff_of_true ⟨_, _, inputHandle_of_not_inspected os hnil hin s⟩ ⟨hnil, .inl hin⟩

/-- The empty line: the terminator is stored in front of the copy. Two bars next to each other:
    the third slot is null. -/
theorem not_inputHandle_returns :
    ¬ (∀ (os : Os) (cmd : CString) (s : Server),
      ∃ ret s', uvcRuncmdInputHandleAt os cmd.bytes s = .ok (ret, s')) ∧
    ∀ (os : Os) (s : Server),
      uvcRuncmdInputHandleAt os [] s = .error .outOfBounds ∧
      uvcRuncmdInputHandleAt os (ascii "a||b ") s = .error .nullDeref := by
  refine ⟨fun h => ?_, fun os s => ⟨rfl, rfl⟩⟩
  obtain ⟨ret, s', h⟩ := h (willing [] []) ⟨ascii "a||b ", by decide⟩ (authed fun _ => none)
  cases h

end Udb.Spec
