import Udb.Spec.History
import Udb.Spec.Session

/-!
# Two services, one buffer

`RUN_CMD` and `RUN_CMD_WAIT` have a controller each, but both pointers are set to
`runcmd_buf`. `Writes` names the bytes of it that an event stores to. Everything
else here is about one event in two states that agree on what the event reads: the
controllers, and a region of the buffer.

## Key results

- `exec_writes`: an event changes the buffer only where it writes
- `threadStep_congr`, `runcmd_congr`, `runcmdPullout_congr`, `wait_congr`, `poll_congr`,
  `SameWait.poll`: an event does the same in two states that agree on what it reads
-/

namespace Udb.Spec

open CMem Udb.Native

variable {os : Os} {layer : UInt8} {cmd reply : Bytes} {s s' t t' : Server}

/-! ## Writes -/

/-- The event stores at offset `k` of the buffer. -/
inductive Writes (s : Server) : Event → Nat → Prop where
  | builtIn {os : Os} {layer : UInt8} {cmd line : Bytes}
      (hchan : cmd[3]? = some UdbChanId.runCmd.toByte)
      (hline : cstrAt cmd udbCmdPkgContentOffset = .ok line) (htaken : Taken os line .builtIn) :
      Writes s (.request os layer cmd) 0
  /-- The buffer is cleared in front of the output of the shell, also if nothing was spawned. -/
  | shell {os : Os} {layer : UInt8} {cmd line : Bytes} (k : Nat)
      (hchan : cmd[3]? = some UdbChanId.runCmd.toByte)
      (hline : cstrAt cmd udbCmdPkgContentOffset = .ok line) (hshell : HandedToShell os line s) :
      Writes s (.request os layer cmd) k
  /-- The pullout that reaches the end clears the buffer. -/
  | pullout {os : Os} {layer : UInt8} {cmd : Bytes} {c : UInt32} (k : Nat)
      (hchan : cmd[3]? = some UdbChanId.runCmdPullout.toByte)
      (hsize : load32 cmd udbCmdPkgContentOffset = .ok c)
      (hend : s.udbRuncmdCtrl.cpOffset + c = s.udbRuncmdCtrl.usedSize) :
      Writes s (.request os layer cmd) k
  /-- So does the poll that announces the end. -/
  | poll {os : Os} {layer : UInt8} {cmd : Bytes} (k : Nat)
      (hchan : cmd[3]? = some UdbChanId.runCmdWaitPullout.toByte)
      (hend : endsAt layer s = true) : Writes s (.request os layer cmd) k
  | append {i : Nat} {os : Os} {threadCmd buffer : Bytes} {k : Nat}
      (hw : s.workers[i]? = some (.reading threadCmd))
      (hclock : ¬ tmDiff (osTimeGetBootMs os) s.udbRuncmdWaitCtrl.tmLastUpdate > 300)
      (hlo : s.udbRuncmdWaitCtrl.usedSize.toNat ≤ k)
      (hhi : k < s.udbRuncmdWaitCtrl.usedSize.toNat + (cstr buffer ++ [0]).length) :
      Writes s (.thread i (.line os buffer)) k

section Lines

variable {threadCmd buffer : Bytes} {w : Worker}

/-- The loop goes on only if the clock is not too far. -/
private theorem threadLine_clock
    (h : threadLine os threadCmd buffer s = .ok (s', .reading threadCmd)) :
    ¬ tmDiff (osTimeGetBootMs os) s.udbRuncmdWaitCtrl.tmLastUpdate > 300 := by
  intro hclock
  unfold threadLine at h
  dsimp only at h
  rw [if_pos hclock] at h
  cases (pure_pair_eq_ok.mp h).2

end Lines

/-- A request changes the bytes of the buffer that it writes only. -/
private theorem request_writes {k : Nat} (h : request os layer cmd s = .ok (s', reply))
    (hk : ¬ Writes s (.request os layer cmd) k) :
    s'.runcmdBuf.bytes[k]? = s.runcmdBuf.bytes[k]? := by
  rcases request_runcmdBuf h with heq | ⟨hon, -⟩
  · rw [heq]
  · cases hauth : s.udbAuthOk with
    | false =>
      -- The bridge returns before the `switch`.
      obtain ⟨⟨s₁, r⟩, hbridge, h⟩ := bind_eq_ok.mp h
      obtain ⟨rfl, -⟩ := pure_pair_eq_ok.mp h
      obtain rfl := bridge_of_closed hauth hbridge
      rfl
    | true =>
      rcases channel_of_fill hon with hchan | hchan | hchan
      · rw [request_of_auth hauth (by decide) hchan] at h
        obtain ⟨⟨s₁, r⟩, hdisp, h⟩ := bind_eq_ok.mp h
        obtain ⟨rfl, -⟩ := pure_pair_eq_ok.mp h
        simp only [dispatch, UdbChanId.ofByte_toByte] at hdisp
        obtain ⟨line, res, rlog, calls, hline, htaken, -, rfl⟩ := udbDebugRuncmd_cases hdisp
        cases htaken with
        | builtIn hhandle hret =>
          have hne : k ≠ 0 := by
            rintro rfl
            exact hk (.builtIn hchan hline (.builtIn hhandle hret))
          have hlen : (ascii "\n").length = 1 := by decide
          exact Buf.getElem?_memcpy (memcpy_newline s.runcmdBuf) (.inr (by omega))
        | failed hshell => exact absurd (.shell k hchan hline (hshell.of_state s)) hk
        | output hshell => exact absurd (.shell k hchan hline (hshell.of_state s)) hk
      · rw [request_of_auth hauth (by decide) hchan] at h
        obtain ⟨⟨s₁, r⟩, hdisp, h⟩ := bind_eq_ok.mp h
        obtain ⟨rfl, -⟩ := pure_pair_eq_ok.mp h
        rw [show UdbChanId.runCmdPullout = Channel.runcmd.pulloutId from rfl,
          Channel.dispatch_pulloutId, Channel.handler_eq] at hdisp
        obtain ⟨⟨moved, r'⟩, hcopy, hdisp⟩ := bind_eq_ok.mp hdisp
        cases moved with
        | none =>
          obtain ⟨rfl, -⟩ := pure_pair_eq_ok.mp hdisp
          rfl
        | some o =>
          obtain ⟨c, -, hsize, -, -, rfl⟩ := pulloutCopy_eq_some hcopy
          dsimp only at hdisp
          split at hdisp
          · rename_i hend
            exact absurd (.pullout k hchan hsize hend) hk
          · obtain ⟨rfl, -⟩ := pure_pair_eq_ok.mp hdisp
            rfl
      · obtain ⟨len, data, -, -, -, rfl, -, -⟩ := (request_waitPullout_eq_ok hauth hchan).mp h
        have hgoing : endsAt layer s = false := by
          by_cases hend : endsAt layer s = true
          · exact absurd (.poll k hchan hend) hk
          · simpa using hend
        rw [afterPoll_setProtSize, afterPoll_of_going os hgoing]
        rfl

/-- An event changes the buffer only where it writes. -/
theorem exec_writes {e : Event} {o : Option Bytes} {k : Nat} (h : exec e s = .ok (s', o))
    (hk : ¬ Writes s e k) : s'.runcmdBuf.bytes[k]? = s.runcmdBuf.bytes[k]? := by
  cases e with
  | request os layer cmd =>
    obtain ⟨reply, hreq, -⟩ := exec_request_eq_ok.mp h
    exact request_writes hreq hk
  | thread i input =>
    obtain ⟨hthread, -⟩ := exec_thread_eq_ok.mp h
    unfold threadStep at hthread
    split at hthread
    · obtain ⟨⟨s₁, w⟩, hstart, hthread⟩ := bind_eq_ok.mp hthread
      obtain ⟨-, rlog, calls, rfl⟩ := threadStart_eq hstart
      rw [← Except.ok.inj hthread]
    · rename_i threadCmd os buffer hw
      obtain ⟨⟨s₁, w⟩, hline, hthread⟩ := bind_eq_ok.mp hthread
      rw [← Except.ok.inj hthread]
      rcases threadLine_eq hline with ⟨-, rlog, rfl⟩ | ⟨rfl, b, hcpy, rfl⟩
      · rfl
      · -- The byte is in front of the line or behind it.
        apply Buf.getElem?_memcpy hcpy
        by_cases hlo : k < s.udbRuncmdWaitCtrl.usedSize.toNat
        · exact .inl hlo
        · right
          by_contra hhi
          exact hk (.append hw (threadLine_clock hline) (by omega) (by omega))
    · rw [← Except.ok.inj hthread]
      rfl
    · rw [← Except.ok.inj hthread]
      rfl
    · rw [← Except.ok.inj hthread]
  | printf text =>
    obtain ⟨rfl, -⟩ := pure_pair_eq_ok.mp h
    rfl
  | files files =>
    obtain ⟨rfl, -⟩ := pure_pair_eq_ok.mp h
    rfl

/-! ## Threads in two states -/

section Threads

variable {i : Nat} {input : ThreadInput} {w : Worker} {line threadCmd buffer : Bytes}

/-- The start of a thread depends on the room for its command only. -/
private theorem threadStart_congr (h : threadStart os line t = .ok (t', w))
    (hroom : line.length < s.udbProtSize) : ∃ s', threadStart os line s = .ok (s', w) := by
  unfold threadStart uvcPopen at h ⊢
  dsimp only at h ⊢
  rw [if_pos hroom]
  -- The command has room in both.
  split at h
  · cases hspawn : os.spawn (popenExec line false) with
    | none =>
      simp only [hspawn] at h ⊢
      obtain ⟨-, rfl⟩ := pure_pair_eq_ok.mp h
      exact ⟨_, rfl⟩
    | some out =>
      simp only [hspawn] at h ⊢
      obtain ⟨-, rfl⟩ := pure_pair_eq_ok.mp h
      exact ⟨_, rfl⟩
  · cases h

/-- One turn of the loop depends on the controller only. -/
private theorem threadLine_congr (hctrl : s.udbRuncmdWaitCtrl = t.udbRuncmdWaitCtrl)
    (h : threadLine os threadCmd buffer t = .ok (t', w)) :
    ∃ s', threadLine os threadCmd buffer s = .ok (s', w) := by
  unfold threadLine at h ⊢
  dsimp only at h ⊢
  rw [hctrl]
  by_cases hclock : tmDiff (osTimeGetBootMs os) t.udbRuncmdWaitCtrl.tmLastUpdate > 300
  · rw [if_pos hclock] at h ⊢
    obtain ⟨-, rfl⟩ := pure_pair_eq_ok.mp h
    exact ⟨_, rfl⟩
  · rw [if_neg hclock] at h ⊢
    cases hptr : t.udbRuncmdWaitCtrl.pullout with
    | null =>
      rw [hptr] at h
      cases h
    | buf =>
      rw [hptr] at h
      obtain ⟨b, hcpy, h⟩ := bind_eq_ok.mp h
      obtain ⟨-, rfl⟩ := pure_pair_eq_ok.mp h
      -- Whether there is room depends on `used_size` only.
      obtain ⟨hle, -⟩ := Buf.memcpy_eq_ok_iff.mp hcpy
      have hcpy' : s.runcmdBuf.memcpy t.udbRuncmdWaitCtrl.usedSize.toNat (cstr buffer ++ [0]) =
        .ok _ := dif_pos hle
      dsimp only
      rw [hcpy']
      exact ⟨_, rfl⟩

/-- One turn leaves both states with the same controller, and stores the same bytes. -/
private theorem threadLine_same (hctrl : s.udbRuncmdWaitCtrl = t.udbRuncmdWaitCtrl)
    (h : threadLine os threadCmd buffer t = .ok (t', w)) :
    ∃ s', threadLine os threadCmd buffer s = .ok (s', w) ∧
      s'.udbRuncmdWaitCtrl = t'.udbRuncmdWaitCtrl ∧ s'.workers = s.workers ∧
      t'.workers = t.workers ∧
      (s.runcmdBuf = t.runcmdBuf → s'.runcmdBuf = t'.runcmdBuf) ∧
      ∀ lo, AgreeOn lo t.udbRuncmdWaitCtrl.usedSize.toNat s.runcmdBuf.bytes t.runcmdBuf.bytes →
        AgreeOn lo t'.udbRuncmdWaitCtrl.usedSize.toNat s'.runcmdBuf.bytes t'.runcmdBuf.bytes := by
  obtain ⟨s', h'⟩ := threadLine_congr hctrl h
  refine ⟨s', h', ?_⟩
  rcases threadLine_eq h with ⟨rfl, rlog, rfl⟩ | ⟨rfl, b, hcpy, rfl⟩
  · -- It gives up in both.
    rcases threadLine_eq h' with ⟨-, rlog', rfl⟩ | ⟨hgoing, -⟩
    · exact ⟨hctrl, rfl, rfl, id, fun lo => id⟩
    · cases hgoing
  · -- It stores its line at the same place in both.
    rcases threadLine_eq h' with ⟨hgone, -⟩ | ⟨-, b', hcpy', rfl⟩
    · cases hgone
    · obtain ⟨hadd, -⟩ := toNat_usedSize_add hcpy
      rw [hctrl] at hcpy'
      refine ⟨?_, rfl, rfl, fun heq => ?_, fun lo hagree => ?_⟩
      · dsimp only
        rw [hctrl]
      · rw [heq, hcpy] at hcpy'
        exact (Except.ok.inj hcpy').symm
      · dsimp only
        rw [hadd]
        exact hagree.memcpy hcpy' hcpy

/-- A thread does the same in two states with the same controller and the same threads. -/
theorem threadStep_congr (hpart : Part.wait.Same s t)
    (hroom : ∀ os line, input = .start os line → s.workers[i]? = some .created →
      line.length < s.udbProtSize)
    (h : threadStep i input t = .ok t') :
    ∃ s', threadStep i input s = .ok s' ∧ Part.wait.Same s' t' ∧
      (s.runcmdBuf = t.runcmdBuf → s'.runcmdBuf = t'.runcmdBuf) ∧
      ∀ lo, AgreeOn lo t.udbRuncmdWaitCtrl.usedSize.toNat s.runcmdBuf.bytes t.runcmdBuf.bytes →
        AgreeOn lo t'.udbRuncmdWaitCtrl.usedSize.toNat s'.runcmdBuf.bytes t'.runcmdBuf.bytes := by
  obtain ⟨hctrl, hworkers⟩ := hpart
  -- Each step by what it does in the second state; the threads are the same, so the first takes
  -- the same branch.
  unfold threadStep at h
  split at h
  · rename_i os line hw
    obtain ⟨⟨t₁, w⟩, hstart, h⟩ := bind_eq_ok.mp h
    obtain rfl := Except.ok.inj h
    rw [← hworkers] at hw
    obtain ⟨s₁, hstart'⟩ := threadStart_congr hstart (hroom os line rfl hw)
    obtain ⟨-, rlog, calls, rfl⟩ := threadStart_eq hstart
    obtain ⟨-, rlog', calls', rfl⟩ := threadStart_eq hstart'
    refine ⟨_, (threadStep_start hw).trans (bind_eq_ok.mpr ⟨_, hstart', rfl⟩), ⟨?_, ?_⟩, id, ?_⟩
    · dsimp only
      rw [hctrl]
    · dsimp only
      rw [hworkers]
    · -- Nothing is used now.
      exact fun lo _ k _ hk => absurd hk (Nat.not_lt_zero k)
  · rename_i threadCmd os buffer hw
    obtain ⟨⟨t₁, w⟩, hline, h⟩ := bind_eq_ok.mp h
    obtain rfl := Except.ok.inj h
    rw [← hworkers] at hw
    obtain ⟨s₁, hline', hctrl', hs, ht, hbuf, hagree⟩ := threadLine_same hctrl hline
    refine ⟨_, (threadStep_line hw).trans (bind_eq_ok.mpr ⟨_, hline', rfl⟩), ⟨hctrl', ?_⟩, hbuf,
      hagree⟩
    dsimp only
    rw [hs, ht, hworkers]
  · rename_i threadCmd hw
    obtain rfl := Except.ok.inj h
    rw [← hworkers] at hw
    refine ⟨_, threadStep_eof hw, ⟨?_, ?_⟩, id, fun lo => id⟩
    · dsimp only [threadEof]
      rw [hctrl]
    · dsimp only [threadEof]
      rw [hworkers]
  · rename_i hw
    obtain rfl := Except.ok.inj h
    rw [← hworkers] at hw
    refine ⟨_, threadStep_exit hw, ⟨?_, ?_⟩, id, fun lo => id⟩
    · dsimp only [threadExit]
      rw [hctrl]
    · dsimp only [threadExit]
      rw [hworkers]
  · obtain rfl := Except.ok.inj h
    refine ⟨s, ?_, ⟨hctrl, hworkers⟩, id, fun lo => id⟩
    unfold threadStep
    rw [hworkers]
    split <;> simp_all

end Threads
/-! ## Requests in two states -/

section Requests

variable {o : Option Bytes} {ptr : StaticPtr} {b b' : Buf udbBufSize} {cp used c : UInt32}
  {data : Bytes}

/-- What a pullout has read lies in the buffer, so the cursor has not wrapped around. -/
private theorem toNat_pulled (h : loadPtr (ptr.deref b) cp.toNat c.toNat = .ok data) :
    (cp + c).toNat = cp.toNat + c.toNat := by
  have hcp := cp.toNat_lt
  have hsize : udbBufSize = 655360 := rfl
  rw [UInt32.toNat_add]
  by_cases hc : c.toNat = 0
  · -- Nothing is asked for.
    omega
  · -- What can be loaded lies inside the buffer, far below `2 ^ 32`.
    have hfit : cp.toNat + c.toNat ≤ udbBufSize := by
      cases ptr with
      | null => simp [StaticPtr.deref, loadPtr, hc] at h
      | buf =>
        by_contra hover
        simp [StaticPtr.deref, loadPtr, load, hc, hover] at h
    omega

/-- A pullout reads only what the cursor has still to hand out. -/
private theorem loadPtr_congr (hagree : AgreeOn cp.toNat used.toNat b'.bytes b.bytes)
    (hle : cp + c ≤ used)
    (h : loadPtr (ptr.deref b) cp.toNat c.toNat = .ok data) :
    loadPtr (ptr.deref b') cp.toNat c.toNat = .ok data := by
  have hsum := toNat_pulled h
  rw [UInt32.le_iff_toNat_le, hsum] at hle
  cases ptr with
  | null => exact h
  | buf =>
    have hlen : b'.bytes.length = b.bytes.length := by
      rw [Buf.length_bytes, Buf.length_bytes]
    exact (hagree.loadPtr hlen (Nat.le_refl _) hle).trans h

/-- What a command leaves to be handed out does not depend on what the buffer held. -/
private theorem RuncmdResult.agreeOn_store (res : RuncmdResult) (b b' : Buf udbBufSize)
    (ctrl : PulloutUnit) :
    AgreeOn (res.control ctrl).cpOffset.toNat (res.control ctrl).usedSize.toNat
      (res.store b).bytes (res.store b').bytes := by
  cases res with
  | builtIn =>
    intro k hlo hhi
    -- Of a built-in one byte is handed out, the newline.
    have hlen : (ascii "\n").length = 1 := by decide
    have hone : k < 1 := hhi
    have hk : k < 0 + (ascii "\n").length := by omega
    rw [Buf.getElem?_memcpy_of_mem (memcpy_newline b) (Nat.zero_le k) hk,
      Buf.getElem?_memcpy_of_mem (memcpy_newline b') (Nat.zero_le k) hk]
  | failed => exact fun k _ _ => rfl
  | output out => exact fun k _ _ => rfl

/-- Two states in which the session of `RUN_CMD` stands at the same point: the controllers are the
    same, and the buffers from the cursor on. -/
structure SameRun (s t : Server) : Prop where
  ctrl : s.udbRuncmdCtrl = t.udbRuncmdCtrl
  agree : AgreeOn t.udbRuncmdCtrl.cpOffset.toNat t.udbRuncmdCtrl.usedSize.toNat
    s.runcmdBuf.bytes t.runcmdBuf.bytes

/-- `RUN_CMD` does the same in all states with the same controller. -/
theorem runcmd_congr (hs : s.udbAuthOk = true) (ht : t.udbAuthOk = true)
    (hchan : cmd[3]? = some UdbChanId.runCmd.toByte) (hctrl : s.udbRuncmdCtrl = t.udbRuncmdCtrl)
    (h : exec (.request os layer cmd) t = .ok (t', o)) :
    ∃ s', exec (.request os layer cmd) s = .ok (s', o) ∧ SameRun s' t' ∧
      (s.runcmdBuf = t.runcmdBuf → s'.runcmdBuf = t'.runcmdBuf) := by
  apply exec_request_congr (Q := fun t' s' => SameRun s' t' ∧
    (s.runcmdBuf = t.runcmdBuf → s'.runcmdBuf = t'.runcmdBuf)) ht hs (by decide) hchan _ h
  intro t₁ r hdisp
  simp only [dispatch, UdbChanId.ofByte_toByte] at hdisp ⊢
  obtain ⟨line, res, rlog, calls, hline, htaken, hans, rfl⟩ := udbDebugRuncmd_cases hdisp
  obtain ⟨rlog', calls', hrun⟩ := udbDebugRuncmd_taken (s := s.setProtSize layer) hline htaken hans
  -- What the command stores does not depend on what was there.
  refine ⟨_, hrun, ⟨?_, res.agreeOn_store _ _ _⟩, fun heq => ?_⟩
  · show res.control s.udbRuncmdCtrl = res.control t.udbRuncmdCtrl
    rw [hctrl]
  · show res.store s.runcmdBuf = res.store t.runcmdBuf
    rw [heq]

/-- A pullout reads the controller, and the buffer from the cursor on. -/
theorem runcmdPullout_congr (hs : s.udbAuthOk = true) (ht : t.udbAuthOk = true)
    (hchan : cmd[3]? = some UdbChanId.runCmdPullout.toByte) (hsame : SameRun s t)
    (h : exec (.request os layer cmd) t = .ok (t', o)) :
    ∃ s', exec (.request os layer cmd) s = .ok (s', o) ∧ SameRun s' t' ∧
      (s.runcmdBuf = t.runcmdBuf → s'.runcmdBuf = t'.runcmdBuf) := by
  obtain ⟨hctrl, hagree⟩ := hsame
  apply exec_request_congr (Q := fun t' s' => SameRun s' t' ∧
    (s.runcmdBuf = t.runcmdBuf → s'.runcmdBuf = t'.runcmdBuf)) ht hs (by decide) hchan _ h
  intro t₁ r hdisp
  rw [show UdbChanId.runCmdPullout = Channel.runcmd.pulloutId from rfl,
    Channel.dispatch_pulloutId] at hdisp ⊢
  obtain ⟨s₁, hrun, hcases⟩ := handler_congr .runcmd
    (s := t.setProtSize layer) (t := s.setProtSize layer) rfl
    (congrArg PulloutUnit.usedSize hctrl) (congrArg PulloutUnit.cpOffset hctrl)
    (fun c data hle hload => by
      show loadPtr (s.udbRuncmdCtrl.pullout.deref s.runcmdBuf) _ _ = _
      rw [hctrl]
      exact loadPtr_congr hagree hle hload) hdisp
  refine ⟨s₁, hrun, ?_⟩
  rcases hcases with ⟨rfl, rfl⟩ | ⟨c, data, hload, rfl, rfl⟩ | ⟨rfl, rfl⟩
  · exact ⟨⟨hctrl, hagree⟩, id⟩
  · refine ⟨⟨congrArg (fun u : PulloutUnit =>
      { u with cpOffset := t.udbRuncmdCtrl.cpOffset + c }) hctrl, hagree.mono ?_ (Nat.le_refl _)⟩,
      id⟩
    show t.udbRuncmdCtrl.cpOffset.toNat ≤ (t.udbRuncmdCtrl.cpOffset + c).toNat
    have hsum : (t.udbRuncmdCtrl.cpOffset + c).toNat =
        t.udbRuncmdCtrl.cpOffset.toNat + c.toNat := toNat_pulled hload
    omega
  · -- The end: both buffers are cleared.
    exact ⟨⟨congrArg (fun u : PulloutUnit =>
      { u with usedSize := 0, cpOffset := 0, totalSize := 0 }) hctrl, fun k _ _ => rfl⟩,
      fun _ => rfl⟩

/-- `RUN_CMD_WAIT` reads the controller only. -/
theorem wait_congr (hs : s.udbAuthOk = true) (ht : t.udbAuthOk = true)
    (hchan : cmd[3]? = some UdbChanId.runCmdWait.toByte) (hpart : Part.wait.Same s t)
    (h : exec (.request os layer cmd) t = .ok (t', o)) :
    ∃ s', exec (.request os layer cmd) s = .ok (s', o) ∧ Part.wait.Same s' t' ∧
      s'.udbProtSize = t'.udbProtSize ∧ s'.runcmdBuf = s.runcmdBuf ∧
      t'.runcmdBuf = t.runcmdBuf ∧
      (Part.wait.Same t' t ∨ t.udbRuncmdWaitCtrl.singleInstance = false ∧
        t' = (waitAccepted os t).setProtSize layer) := by
  obtain ⟨hctrl, hworkers⟩ := hpart
  obtain ⟨reply, hreq, rfl⟩ := exec_request_eq_ok.mp h
  -- Both refuse the command, or both accept it.
  cases hsingle : t.udbRuncmdWaitCtrl.singleInstance with
  | true =>
    obtain ⟨line, hline, rfl, rfl⟩ := (request_runcmdWait_refused ht hchan hsingle).mp hreq
    rw [← hctrl] at hsingle
    have hreq' := (@request_runcmdWait_refused os layer s _ cmd _ hs hchan hsingle).mpr
      ⟨line, hline, rfl, rfl⟩
    exact ⟨_, exec_request_eq_ok.mpr ⟨_, hreq', rfl⟩, ⟨hctrl, hworkers⟩, rfl, rfl, rfl,
      .inl ⟨rfl, rfl⟩⟩
  | false =>
    rw [request_runcmdWait os layer ht hchan hsingle] at hreq
    obtain ⟨rfl, rfl⟩ := pure_pair_eq_ok.mp hreq
    have hreq' := request_runcmdWait os layer hs hchan (hctrl ▸ hsingle)
    refine ⟨_, exec_request_eq_ok.mpr ⟨_, hreq', rfl⟩, ⟨?_, ?_⟩, rfl, rfl, rfl, .inr ⟨rfl, rfl⟩⟩
    · show (waitAccepted os s).udbRuncmdWaitCtrl = (waitAccepted os t).udbRuncmdWaitCtrl
      unfold waitAccepted
      rw [hctrl]
    · show (waitAccepted os s).workers = (waitAccepted os t).workers
      unfold waitAccepted
      rw [hworkers]

/-- When a poll ends the command depends on the control block. -/
private theorem endsAt_congr (hctrl : s.udbRuncmdWaitCtrl = t.udbRuncmdWaitCtrl) :
    endsAt layer s = endsAt layer t := by
  rw [endsAt, endsAt, hctrl]

/-- A poll that moves both cursors by as much leaves the services the same. -/
private theorem afterPoll_congr {len len' : Nat} (hpart : Part.wait.Same s t)
    (hcut : cutSize layer s len = cutSize layer t len') :
    Part.wait.Same (afterPoll os layer s len) (afterPoll os layer t len') := by
  obtain ⟨hctrl, hworkers⟩ := hpart
  refine ⟨?_, ?_⟩
  · unfold afterPoll
    rw [endsAt_congr hctrl, hcut, hctrl]
    cases endsAt layer t <;> rfl
  · rw [workers_afterPoll, workers_afterPoll, hworkers]

/-- A poll that ends the command clears the buffer. -/
private theorem runcmdBuf_afterPoll (len : Nat) : (afterPoll os layer s len).runcmdBuf =
    if endsAt layer s then Buf.zero udbBufSize else s.runcmdBuf := by
  unfold afterPoll
  cases endsAt layer s <;> rfl

/-- A poll in two states with the same buffer. -/
theorem poll_congr (hs : s.udbAuthOk = true) (ht : t.udbAuthOk = true)
    (hchan : cmd[3]? = some UdbChanId.runCmdWaitPullout.toByte) (hpart : Part.wait.Same s t)
    (hbuf : s.runcmdBuf = t.runcmdBuf) (h : exec (.request os layer cmd) t = .ok (t', o)) :
    ∃ s', exec (.request os layer cmd) s = .ok (s', o) ∧ Part.wait.Same s' t' ∧
      s'.udbProtSize = t'.udbProtSize ∧ s'.runcmdBuf = t'.runcmdBuf := by
  have hctrl := hpart.1
  obtain ⟨reply, hreq, rfl⟩ := exec_request_eq_ok.mp h
  obtain ⟨len, data, hptr, hlen, hdata, rfl, hlt, rfl⟩ :=
    (request_waitPullout_eq_ok ht hchan).mp hreq
  -- Flag and size of the poll are read from the controller.
  have hends : endsAt layer s = endsAt layer t := endsAt_congr hctrl
  have hcut : cutSize layer s len = cutSize layer t len := by rw [cutSize, cutSize, hctrl]
  rw [← hctrl] at hptr hlen hdata
  rw [← hbuf] at hlen hdata
  rw [← hcut] at hdata
  rw [← hends]
  refine ⟨_, exec_request_eq_ok.mpr ⟨_, (request_waitPullout_eq_ok hs hchan).mpr
    ⟨len, data, hptr, hlen, hdata, rfl, hlt, rfl⟩, rfl⟩, afterPoll_congr hpart hcut, ?_, ?_⟩
  · rw [afterPoll_setProtSize, afterPoll_setProtSize]
    rfl
  · -- The buffer is cleared in both, or in none.
    rw [afterPoll_setProtSize, afterPoll_setProtSize]
    show (afterPoll os layer s len).runcmdBuf = (afterPoll os layer t len).runcmdBuf
    rw [runcmdBuf_afterPoll, runcmdBuf_afterPoll, hends, hbuf]

/-- Where the next terminator is makes a difference only in front of `used_size`. -/
private theorem waitPiece_congr {len len' : Nat}
    (hagree : AgreeOn cp.toNat used.toNat b'.bytes b.bytes)
    (hlen : strlenAt (some b.bytes) cp.toNat = .ok len)
    (hlen' : strlenAt (some b'.bytes) cp.toNat = .ok len') (protSize : Nat) :
    waitPiece protSize used cp len' = waitPiece protSize used cp len := by
  obtain ⟨-, rfl⟩ := strlenAt_eq_ok.mp hlen
  obtain ⟨-, rfl⟩ := strlenAt_eq_ok.mp hlen'
  have hmin := hagree.length_cstr
  rw [waitPiece, waitPiece]
  omega

/-- Two states in which the session of `RUN_CMD_WAIT` stands at the same point: the controllers
    and the threads are the same, and the buffers from the cursor on, unless a thread is still
    to start, which clears `used_size`. -/
structure SameWait (s t : Server) : Prop where
  part : Part.wait.Same s t
  agree : .created ∉ t.workers →
    AgreeOn t.udbRuncmdWaitCtrl.cpOffset.toNat t.udbRuncmdWaitCtrl.usedSize.toNat
      s.runcmdBuf.bytes t.runcmdBuf.bytes

/-- A poll inside the data reads the controller, and the buffer from the cursor on. -/
theorem SameWait.poll (hs : s.udbAuthOk = true) (ht : t.udbAuthOk = true)
    (hchan : cmd[3]? = some UdbChanId.runCmdWaitPullout.toByte) (hsame : SameWait s t)
    (hcursor : t.udbRuncmdWaitCtrl.cpOffset ≤ t.udbRuncmdWaitCtrl.usedSize)
    (hstarted : .created ∈ t.workers → t.udbRuncmdWaitCtrl.usedSize = 0)
    (hused : t.udbRuncmdWaitCtrl.usedSize.toNat ≤ udbBufSize)
    (hnul : s.runcmdBuf.bytes.getLast? = some 0)
    (h : exec (.request os layer cmd) t = .ok (t', o)) :
    ∃ s', exec (.request os layer cmd) s = .ok (s', o) ∧ SameWait s' t' := by
  obtain ⟨hpart, hagree⟩ := hsame
  have hctrl := hpart.1
  -- In front of the start of a thread there is nothing to agree on.
  have hagree : AgreeOn t.udbRuncmdWaitCtrl.cpOffset.toNat t.udbRuncmdWaitCtrl.usedSize.toNat
      s.runcmdBuf.bytes t.runcmdBuf.bytes := by
    by_cases hcreated : .created ∈ t.workers
    · rw [hstarted hcreated]
      exact fun k _ hk => absurd hk (Nat.not_lt_zero k)
    · exact hagree hcreated
  obtain ⟨reply, hreq, rfl⟩ := exec_request_eq_ok.mp h
  obtain ⟨len, hpollable, rfl, rfl, -⟩ := request_waitPullout ht hchan hcursor hused hreq
  obtain ⟨len', hlen', -⟩ : ∃ len', strlenAt (some s.runcmdBuf.bytes)
      s.udbRuncmdWaitCtrl.cpOffset.toNat = .ok len' ∧ _ := by
    apply strlenAt_of_nul hnul
    rw [hctrl]
    exact hpollable.cursor_lt
  have hpollable' : Pollable s len' := by
    refine ⟨?_, ?_, ?_, hlen'⟩
    · rw [hctrl]
      exact hpollable.ptr
    · rw [hctrl]
      exact hcursor
    · rw [hctrl]
      exact hused
  rw [hctrl] at hlen'
  have hpiece := waitPiece_congr hagree hpollable.term hlen' (layerProtSize layer)
  have hends : endsAt layer s = endsAt layer t := endsAt_congr hctrl
  have hcut : cutSize layer s len' = cutSize layer t len := by
    rw [← UInt32.toNat_inj, toNat_cutSize layer hpollable', toNat_cutSize layer hpollable, hctrl,
      hpiece]
  have hdata : pieceOf layer s len' = pieceOf layer t len := by
    have hwait := length_pieceOf_le layer hpollable
    rw [length_pieceOf layer hpollable, toNat_cutSize layer hpollable] at hwait
    rw [pieceOf, pieceOf, hctrl, hpiece]
    exact hagree.slice (Nat.le_refl _) hwait
  have hreq' := request_afterPoll os layer hs hchan hpollable'
  rw [hends, hdata] at hreq'
  refine ⟨_, exec_request_eq_ok.mpr ⟨_, hreq', rfl⟩, afterPoll_congr hpart hcut, fun _ => ?_⟩
  rw [afterPoll_setProtSize, afterPoll_setProtSize]
  show AgreeOn (afterPoll os layer t len).udbRuncmdWaitCtrl.cpOffset.toNat
    (afterPoll os layer t len).udbRuncmdWaitCtrl.usedSize.toNat
    (afterPoll os layer s len').runcmdBuf.bytes (afterPoll os layer t len).runcmdBuf.bytes
  rw [runcmdBuf_afterPoll, runcmdBuf_afterPoll, hends]
  cases hend : endsAt layer t with
  | true => exact fun k _ _ => rfl
  | false =>
    obtain ⟨-, -, -, hsize, hmoved⟩ := (polled_afterPoll os layer hpollable).going hend
    rw [hsize]
    apply hagree.mono
    · omega
    · exact Nat.le_refl _

end Requests
end Udb.Spec
