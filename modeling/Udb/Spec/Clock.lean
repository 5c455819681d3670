import Udb.ForStd.Wrap
import Udb.Spec.History

/-!
# The poll timeout

The worker of `RUN_CMD_WAIT` gives its command up when `tm_last_update` is more
than 300 ms away. Both times are read as 32-bit values, and their distance is
taken with the larger one first. `LastSet` follows the boot time of the last
update through a run, so that the distance can be compared with the time that
really passed.

## Key results

- `LastSet.tmLastUpdate`: what `tm_last_update` holds in every run
- `givesUp_measures_iff`: the timeout measures the elapsed time, except across a wrap
-/

namespace Udb.Spec

open CMem Udb.Native

variable {os : Os} {l : Label} {s s' : Server} {T : Nat}

/-! ## The last update -/

/-- The step sets `tm_last_update`, at the boot time `T`. -/
inductive SetsClock (s : Server) : Label → Nat → Prop where
  | accepted {os : Os} {layer : UInt8} {cmd reply : Bytes} (hauth : s.udbAuthOk = true)
      (hchan : cmd[3]? = some UdbChanId.runCmdWait.toByte)
      (hsingle : s.udbRuncmdWaitCtrl.singleInstance = false) :
      SetsClock s (.request os layer cmd reply) os.bootMs
  | poll {os : Os} {layer : UInt8} {cmd reply : Bytes} (hauth : s.udbAuthOk = true)
      (hchan : cmd[3]? = some UdbChanId.runCmdWaitPullout.toByte) :
      SetsClock s (.request os layer cmd reply) os.bootMs

/-- The states in which `tm_last_update` was set last at the boot time `T`. -/
inductive LastSet (T : Nat) : Server → Prop where
  | set {s s' : Server} {l : Label} (hs : Reachable s) (h : LabelledStep l s s')
      (hset : SetsClock s l T) : LastSet T s'
  | keep {s s' : Server} {l : Label} (hs : LastSet T s) (h : LabelledStep l s s')
      (hkeep : ∀ T', ¬ SetsClock s l T') : LastSet T s'

/-- The step stores the low 32 bits of the boot time. -/
theorem SetsClock.tmLastUpdate (hset : SetsClock s l T) (h : LabelledStep l s s') :
    s'.udbRuncmdWaitCtrl.tmLastUpdate = UInt32.ofNat T := by
  cases hset with
  | @accepted os layer cmd reply hauth hchan hsingle =>
    cases h with
    | request hcmd hreq =>
      -- A session that begins takes the time of its request.
      rw [request_runcmdWait os layer hauth hchan hsingle] at hreq
      obtain ⟨rfl, -⟩ := pure_pair_eq_ok.mp hreq
      rfl
  | @poll os layer cmd reply hauth hchan =>
    cases h with
    | request hcmd hreq =>
      -- A poll takes the time again, whatever it hands out.
      obtain ⟨len, data, -, -, -, rfl, -, -⟩ := (request_waitPullout_eq_ok hauth hchan).mp hreq
      exact tmLastUpdate_afterPoll os layer (s.setProtSize layer) len

/-- Every other step leaves the time of the last update alone. -/
private theorem tmLastUpdate_of_not_setsClock (hkeep : ∀ T', ¬ SetsClock s l T')
    (h : LabelledStep l s s') :
    s'.udbRuncmdWaitCtrl.tmLastUpdate = s.udbRuncmdWaitCtrl.tmLastUpdate := by
  have heffect := waitEffect h
  generalize s'.udbRuncmdWaitCtrl = ctrl, s'.workers = ws at heffect
  cases heffect with
  | idle | start | gaveUp | stored | eof | exit => rfl
  | accepted hauth hchan hsingle => exact absurd (.accepted hauth hchan hsingle) (hkeep _)
  | poll hauth hchan => exact absurd (.poll hauth hchan) (hkeep _)

/-- The clock is cut to 32 bits when it is stored. -/
theorem LastSet.tmLastUpdate (h : LastSet T s) :
    s.udbRuncmdWaitCtrl.tmLastUpdate = UInt32.ofNat T := by
  induction h with
  | set hs h hset => exact hset.tmLastUpdate h
  | keep hs h hkeep ih => exact (tmLastUpdate_of_not_setsClock hkeep h).trans ih

/-- Wherever a worker runs, `tm_last_update` has been set: by the command that started it, if not
    by a poll. -/
theorem exists_lastSet (h : Reachable s) (hne : s.workers ≠ []) : ∃ T, LastSet T s := by
  induction h with
  | init banner files => exact absurd rfl hne
  | @step s s' hs hst ih =>
    obtain ⟨l, hl⟩ := step_iff_labelled.mp hst
    by_cases hset : ∃ T, SetsClock s l T
    · obtain ⟨T, hset⟩ := hset
      -- This step has set the clock.
      exact ⟨T, .set hs hl hset⟩
    · have hkeep : ∀ T, ¬ SetsClock s l T := not_exists.mp hset
      -- It has not, so it has not made the worker either: there was one before.
      have hbefore : s.workers ≠ [] := by
        intro hnil
        have heffect := waitEffect hl
        generalize s'.udbRuncmdWaitCtrl = ctrl, s'.workers = ws at heffect hne
        cases heffect with
        | idle | poll => exact hne hnil
        | accepted hauth hchan hsingle => exact hkeep _ (.accepted hauth hchan hsingle)
        | start hw | gaveUp hw | stored hw | eof hw | exit hw =>
          rw [hnil] at hw
          cases hw
      obtain ⟨T, hT⟩ := ih hbefore
      exact ⟨T, .keep hT hl hkeep⟩

/-! ## The distance -/

/-- The boot time in milliseconds is cut to 32 bits. -/
private theorem toNat_osTimeGetBootMs (os : Os) : (osTimeGetBootMs os).toNat = os.bootMs % 2 ^ 32 :=
  UInt32.toNat_ofNat'

/-- The larger value is the first operand of the subtraction, so nothing wraps there. -/
private theorem toNat_tmDiff (a b : UInt32) : (tmDiff a b).toNat = Nat.dist a.toNat b.toNat := by
  unfold tmDiff
  split
  · -- The clock is ahead of the last update.
    rename_i h
    have hle : b.toNat ≤ a.toNat := (UInt32.lt_iff_toNat_lt.mp h).le
    rw [UInt32.toNat_sub_of_le _ _ (UInt32.le_iff_toNat_le.mpr hle),
      Nat.dist_eq_sub_of_le_right hle]
  · -- It is not: then the difference is taken the other way.
    rename_i h
    have hle : a.toNat ≤ b.toNat := Nat.le_of_not_lt fun hlt => h (UInt32.lt_iff_toNat_lt.mpr hlt)
    rw [UInt32.toNat_sub_of_le _ _ (UInt32.le_iff_toNat_le.mpr hle),
      Nat.dist_eq_sub_of_le hle]

/-- The worker at place `i` gets a line, and gives the command up. -/
def GivesUp (i : Nat) (os : Os) (buffer : Bytes) (s : Server) : Prop :=
  ∃ s', threadStep i (.line os buffer) s = .ok s' ∧ s'.workers[i]? = some .exiting

section GivesUp

variable {i : Nat} {threadCmd buffer : Bytes}

/-- A thread gives up behind more than 300 ms, as it measures them. -/
private theorem givesUp_iff (hw : s.workers[i]? = some (.reading threadCmd)) :
    GivesUp i os buffer s ↔
      tmDiff (osTimeGetBootMs os) s.udbRuncmdWaitCtrl.tmLastUpdate > 300 := by
  obtain ⟨hi, -⟩ := List.getElem?_eq_some_iff.mp hw
  unfold GivesUp
  rw [threadStep_line hw]
  constructor
  · intro h
    obtain ⟨s', hs', hexit⟩ := h
    obtain ⟨⟨s₁, w⟩, hline, hs'⟩ := bind_eq_ok.mp hs'
    obtain rfl := Except.ok.inj hs'
    by_contra hclock
    rcases threadLine_eq hline with ⟨rfl, -⟩ | ⟨rfl, b, -, rfl⟩
    · unfold threadLine at hline
      rw [if_neg hclock] at hline
      split at hline
      · cases hline
      · obtain ⟨b, -, hline⟩ := bind_eq_ok.mp hline
        cases (pure_pair_eq_ok.mp hline).2
    · -- A worker that has stored its line reads on.
      rw [List.getElem?_set_self hi] at hexit
      cases hexit
  · intro hclock
    refine ⟨_, bind_eq_ok.mpr ⟨_, if_pos hclock, rfl⟩, ?_⟩
    exact List.getElem?_set_self hi

/-- The timeout measures the elapsed time exactly if the 32-bit clock does not wrap between the
    last update and the worker's reading, or if it is due anyway. -/
theorem givesUp_measures_iff {T₁ : Nat} (hset : LastSet T₁ s)
    (hw : s.workers[i]? = some (.reading threadCmd)) (hnear : Nat.dist os.bootMs T₁ < 2 ^ 31) :
    (GivesUp i os buffer s ↔ 300 < Nat.dist os.bootMs T₁) ↔
      os.bootMs / 2 ^ 32 = T₁ / 2 ^ 32 ∨ 300 < Nat.dist os.bootMs T₁ := by
  have hshown : GivesUp i os buffer s ↔
      300 < Nat.dist (os.bootMs % 2 ^ 32) (T₁ % 2 ^ 32) := by
    rw [givesUp_iff hw, gt_iff_lt, UInt32.lt_iff_toNat_lt, toNat_tmDiff, hset.tmLastUpdate,
      toNat_osTimeGetBootMs]
    exact Iff.rfl
  rw [hshown]
  exact Wrap.timeout_iff (by omega)

end GivesUp

/-! ## A worker under way -/

/-- A device where everything succeeds, at the boot time `t`. -/
def willingAt (t : Nat) : Os := { willing [] [] with bootMs := t }

/-- A command was accepted at the boot time `t`, and its worker reads. -/
private theorem exists_lastSet_reading (t : Nat) :
    ∃ s, LastSet t s ∧ s.workers[0]? = some (.reading []) := by
  have hchan := @getElem?_header 64 .runCmdWait (ascii "ls")
  -- A command is accepted at `t`, and its worker starts.
  have hreq := @request_runcmdWait (authed fun _ => none)
    (padTo 64 (channelHeader .runCmdWait ++ ascii "ls")) (willingAt t) udbLayerDef rfl hchan rfl
  have hset := LastSet.set (reachable_authed fun _ => none) (.request rfl hreq)
    (.accepted rfl hchan rfl)
  have hroom : 0 < (waitAccepted (willingAt t)
      ((authed fun _ => none).setProtSize udbLayerDef)).udbProtSize := by
    show 0 < layerProtSize udbLayerDef
    decide
  have hw : (waitAccepted (willingAt t)
      ((authed fun _ => none).setProtSize udbLayerDef)).workers[0]? = some .created := rfl
  obtain ⟨s₂, hstart⟩ := @exists_threadStart _ [] hroom
  obtain ⟨-, rlog, calls, rfl⟩ := threadStart_eq hstart
  refine ⟨_, .keep hset (.worker (.start hw hstart)) nofun, ?_⟩
  rfl

/-- The command was accepted 2 ms before the wrap and the worker reads the clock 1 ms behind it. -/
theorem givesUp_measures_wrap : ∃ s, LastSet (2 ^ 32 - 2) s ∧
    ((GivesUp 0 (willingAt (2 ^ 32 + 1)) (ascii "x") s ↔
        300 < Nat.dist (2 ^ 32 + 1) (2 ^ 32 - 2)) ↔
      (2 ^ 32 + 1) / 2 ^ 32 = (2 ^ 32 - 2) / 2 ^ 32 ∨
        300 < Nat.dist (2 ^ 32 + 1) (2 ^ 32 - 2)) := by
  obtain ⟨s, hset, hw⟩ := exists_lastSet_reading (2 ^ 32 - 2)
  exact ⟨s, hset, @givesUp_measures_iff (willingAt (2 ^ 32 + 1)) s 0 [] (ascii "x") _ hset hw
    (by decide)⟩

/-- Across a wrap a command is given up after 3 ms. -/
theorem not_givesUp_measures :
    ¬ ∀ (T₁ : Nat) (s : Server) (i : Nat) (threadCmd : Bytes) (os : Os) (buffer : Bytes),
      LastSet T₁ s → s.workers[i]? = some (.reading threadCmd) →
      Nat.dist os.bootMs T₁ < 2 ^ 31 →
      (GivesUp i os buffer s ↔ 300 < Nat.dist os.bootMs T₁) := by
  intro hall
  obtain ⟨s, hset, hw⟩ := exists_lastSet_reading (2 ^ 32 - 2)
  have hiff := hall _ s 0 [] (willingAt (2 ^ 32 + 1)) (ascii "x") hset hw (by decide)
  have hup : GivesUp 0 (willingAt (2 ^ 32 + 1)) (ascii "x") s := by
    rw [givesUp_iff hw, hset.tmLastUpdate]
    decide
  exact absurd (hiff.mp hup) (by decide)

end Udb.Spec
