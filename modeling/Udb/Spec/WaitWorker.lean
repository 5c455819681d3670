import Udb.Spec.Transport

/-!
# The worker of `RUN_CMD_WAIT`

`single_instance` is set by the request that creates the worker and cleared by the
worker's last step. As long as threads can be created, the flag is the number of
workers.

What the worker appends is limited by nothing but the buffer: `used_size` is the
length of the stream of all lines since its start, whatever was polled.

## Key results

- `single_of_history`: the flag is the number of workers
- `append_fits_iff`: the outputs whose appends stay inside the buffer
-/

namespace Udb.Spec

open CMem Udb.Native Interleave

variable {ls : List Label} {l : Label} {s s' t t' : Server} {os : Os} {layer : UInt8}
  {cmd reply : Bytes}

/-! ## One worker -/

/-- A step keeps the flag and the number of workers equal. -/
theorem WaitEffect.single {ctrl : RuncmdWaitUnit} {ws : List Worker} (h : WaitEffect s l ctrl ws)
    (hcreates : CreatesThreads l s s')
    (hsingle : s.workers.length = s.udbRuncmdWaitCtrl.singleInstance.toNat) :
    ws.length = ctrl.singleInstance.toNat := by
  cases h with
  | idle => exact hsingle
  | @accepted os layer cmd reply hauth hchan hno =>
    rw [hno] at hsingle
    have hlen : (waitAccepted os s).workers.length = s.workers.length + 1 := by
      unfold waitAccepted
      rw [hcreates os layer cmd reply rfl]
      simp
    rw [hlen, hsingle]
    rfl
  | poll =>
    rw [singleInstance_afterPoll]
    exact hsingle
  | start | gaveUp | stored | eof =>
    rw [List.length_set]
    exact hsingle
  | exit hw =>
    -- The only worker leaves as it clears the flag.
    obtain ⟨hi, -⟩ := List.getElem?_eq_some_iff.mp hw
    have hone : s.udbRuncmdWaitCtrl.singleInstance.toNat ≤ 1 := Bool.toNat_le _
    rw [List.length_eraseIdx_of_lt hi]
    show s.workers.length - 1 = 0
    omega

/-- The flag is the number of workers. -/
theorem single_of_history (h : History CreatesThreads ls s) :
    s.workers.length = s.udbRuncmdWaitCtrl.singleInstance.toNat := by
  induction h with
  | init banner files => rfl
  | @step ls l s s' hist hst hcreates ih => exact (waitEffect hst).single hcreates ih

/-! ## The end of the buffer -/

/-- The lines that the worker has read since its start, with the latest event first. -/
def linesRead : List Label → List Bytes
  | [] => []
  | .worker _ .start :: _ => []
  | .worker _ (.line buffer) :: ls => linesRead ls ++ [cstr buffer]
  | _ :: ls => linesRead ls

/-- Other steps read no line. -/
private theorem linesRead_cons (hl : ∀ i e, l ≠ .worker i e) : linesRead
    (l :: ls) = linesRead ls := by
  cases l with
  | worker i e => exact absurd rfl (hl i e)
  | request | printf | files => rfl

/-- As long as the worker reads, `used_size` counts what it has stored: a poll sets it to 0 only
    after the end of the output. -/
theorem WaitEffect.used {ctrl : RuncmdWaitUnit} {ws : List Worker} (h : WaitEffect s l ctrl ws)
    (hone : s.workers.length ≤ 1) (hbase : WaitBase s.udbRuncmdWaitCtrl s.workers)
    (hused : ∀ cmd, .reading cmd ∈ s.workers →
      s.udbRuncmdWaitCtrl.usedSize.toNat = (stream (linesRead ls)).length)
    (hmem : .reading cmd ∈ ws) :
    ctrl.usedSize.toNat = (stream (linesRead (l :: ls))).length := by
  cases h with
  | idle hl =>
    rw [linesRead_cons hl]
    exact hused cmd hmem
  | @accepted os layer line reply =>
    -- The worker of an accepted command does not read yet.
    have hold : .reading cmd ∈ s.workers := by
      have hcase : .reading cmd ∈
          if os.pthreadCreate then s.workers ++ [.created] else s.workers := hmem
      split at hcase
      · simpa using hcase
      · exact hcase
    rw [linesRead_cons (by simp)]
    exact hused cmd hold
  | poll =>
    rw [usedSize_afterPoll, endsAt_eq_false _ (hbase.reading cmd hmem), linesRead_cons (by simp)]
    exact hused cmd hmem
  | start => rfl
  | gaveUp hw | eof hw => cases reading_of_set hone hw hmem
  | @stored i threadCmd buffer b hw hcpy =>
    obtain ⟨hadd, -⟩ := toNat_usedSize_add hcpy
    dsimp only
    rw [hadd, hused threadCmd (List.mem_of_getElem? hw), linesRead, stream_append]
    exact List.length_append.symm
  | @exit i hw =>
    have hold := List.mem_of_mem_eraseIdx hmem
    exact hused cmd hold

/-- The counter is the length of what was read. -/
private theorem used_of_history {allowed : Label → Server → Server → Prop}
    (h : History allowed ls s)
    (hmem : .reading cmd ∈ s.workers) :
    s.udbRuncmdWaitCtrl.usedSize.toNat = (stream (linesRead ls)).length := by
  induction h generalizing cmd with
  | init banner files => cases hmem
  | @step ls l s s' hist hst ha ih =>
    have hreach := hist.reachable
    exact (waitEffect hst).used (length_workers_le hreach) (waitBase_of_reachable hreach)
      (fun _ h => ih h) hmem

/-- An append stays inside the buffer exactly if all lines since the worker's start, each with
    its terminator, fit: in every run, whatever else is polled, refused or run in between. -/
theorem append_fits_iff (ls : List Label) (s : Server) (h : History (fun _ _ _ => True) ls s)
    (i : Nat) (cmd : Bytes) (hw : s.workers[i]? = some (.reading cmd)) (buffer : Bytes) :
    s.udbRuncmdWaitCtrl.usedSize.toNat + (cstr buffer).length + 1 ≤ udbBufSize ↔
      (stream (linesRead ls ++ [cstr buffer])).length ≤ udbBufSize := by
  rw [used_of_history h (List.mem_of_getElem? hw), stream_append, List.length_append,
    List.length_append, List.length_singleton, Nat.add_assoc]

/-- The worker has stored three lines, and each has been polled. -/
theorem exists_history_polled : ∃ ls s, History (fun _ _ _ => True) ls s ∧
    s.workers = [.reading []] ∧
    s.udbRuncmdWaitCtrl.usedSize.toNat =
      (stream [ascii "a\n", ascii "bc\n", ascii "a\n"]).length ∧
    s.udbRuncmdWaitCtrl.cpOffset = s.udbRuncmdWaitCtrl.usedSize := by
  obtain ⟨p, c₀, s, st, hfirst, -, hrun, h⟩ := exists_caughtUp udbLayerDef
    (by decide : ∀ l ∈ [ascii "a\n", ascii "bc\n", ascii "a\n"], IsLine l) (by decide) (by decide)
  have hreach := reachable_of_waitSteps
    (reachable_of_waitSteps (reachable_authed fun _ => none) (.single hfirst)) hrun
  obtain ⟨ls, hist⟩ := exists_history hreach
  exact ⟨ls, s, hist, h.worker, h.used, h.cursor⟩

/-- Three lines with a poll between them. -/
theorem append_fits_iff_polled : ∃ ls s, History (fun _ _ _ => True) ls s ∧
    s.udbRuncmdWaitCtrl.usedSize.toNat =
      (stream [ascii "a\n", ascii "bc\n", ascii "a\n"]).length ∧
    (s.udbRuncmdWaitCtrl.usedSize.toNat + (cstr (ascii "d\n")).length + 1 ≤ udbBufSize ↔
      (stream (linesRead ls ++ [cstr (ascii "d\n")])).length ≤ udbBufSize) := by
  obtain ⟨ls, s, hist, hw, hused, -⟩ := exists_history_polled
  exact ⟨ls, s, hist, hused, append_fits_iff ls s hist 0 [] (by rw [hw]; rfl) _⟩

/-- A worker that has stored `lines`. -/
private theorem exists_history_reading {lines : List Bytes} (hlines : ∀ l ∈ lines, IsLine l)
    (hfit : (stream lines).length ≤ udbBufSize) :
    ∃ ls s, History (fun _ _ _ => True) ls s ∧ s.workers = [.reading []] ∧
      s.udbRuncmdWaitCtrl.usedSize.toNat = (stream lines).length := by
  obtain ⟨p, c₀, s, st, -, hfirst, -, hrun, h⟩ :=
    exists_reading udbLayerDef hlines hfit fun _ => True
  have hreach := reachable_of_waitSteps
    (reachable_of_waitSteps (reachable_authed fun _ => none) (.single hfirst)) hrun
  obtain ⟨ls, hist⟩ := exists_history hreach
  exact ⟨ls, s, hist, h.worker, h.used⟩

/-- A line of one character. -/
private theorem isLine_replicate {n : Nat} (hlt : n + 1 < 1024) :
    IsLine (List.replicate n 97 ++ ascii "\n") := by
  refine ⟨by simp [ascii], by simpa [ascii] using hlt, fun hmem => ?_⟩
  rcases List.mem_append.mp hmem with hmem | hmem
  · exact absurd (List.eq_of_mem_replicate hmem) (by decide)
  · exact absurd hmem (by decide)

/-- The length of equal lines. -/
private theorem length_stream_replicate (k : Nat) (line : Bytes) :
    (stream (List.replicate k line)).length = k * (line.length + 1) := by
  simp [stream, List.length_flatMap]

/-- 654 lines of 1000 bytes fit, the 655th does not. -/
theorem not_append_fits :
    ¬ ∀ (ls : List Label) (s : Server), History (fun _ _ _ => True) ls s → ∀ (i : Nat)
      (cmd : Bytes), s.workers[i]? = some (.reading cmd) → ∀ buffer : Bytes, buffer ≠ [] →
      buffer.length < 1024 →
      s.udbRuncmdWaitCtrl.usedSize.toNat + (cstr buffer).length + 1 ≤ udbBufSize := by
  intro hall
  -- Lines of 1000 bytes, each stored with its NUL: 654 of them fit.
  let line : Bytes := List.replicate 999 97 ++ ascii "\n"
  have hline : IsLine line := isLine_replicate (by omega)
  have hlen : line.length = 1000 := by
    rw [List.length_append, List.length_replicate]
    rfl
  have hstream := length_stream_replicate 654 line
  rw [hlen] at hstream
  have hsize : udbBufSize = 655360 := rfl
  obtain ⟨ls, s, hist, hw, hused⟩ := exists_history_reading
    (fun l hl => List.eq_of_mem_replicate hl ▸ hline) (hstream.trans_le (by omega))
  -- There is no room for one more.
  have hfits := hall ls s hist 0 [] (by rw [hw]; rfl) line hline.1 hline.2.1
  rw [hused, hstream, cstr_of_not_mem hline.2.2, hlen] at hfits
  omega

end Udb.Spec
