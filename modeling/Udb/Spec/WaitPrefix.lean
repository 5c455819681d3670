import Udb.Spec.Wait

/-!
# What a client has printed on the way

Polls that are not safe can lose output, but they never invent, repeat or reorder
it: whatever the worker and the client do, the client has printed a beginning of
the command's output. The end may be announced too early, by a flag that was left
from the command before or by a piece that was cut at a line's end; what comes
after it is missing, and what was printed stays right.

## Key results

- `PrefixInv.step`: every step keeps the beginning
- `execCmdWait_prints_isPrefix`: the invariant of every run, from a server that has
  nothing left to hand out
-/

namespace Udb.Spec

open CMem StopAndWait Udb.Native

variable {layer : UInt8} {lines todo : List Bytes} {s s' : Server}
  {st : WaitState (layerProtSize layer)} {os : Os} {p : WaitCmd (layerProtSize layer)}
  {q r : Bytes}

/-! ## The first exchange -/

/-- A reply fits the layer. -/
private theorem length_reply_le {cmd reply : Bytes} (h : request os layer cmd s = .ok (s', reply)) :
    reply.length ≤ layerProtSize layer := by
  obtain ⟨⟨s₁, resp⟩, -, h⟩ := bind_eq_ok.mp h
  obtain ⟨-, rfl⟩ := pure_pair_eq_ok.mp h
  have hfull := resp.buf.length_bytes
  rw [Resp.sent, List.length_take]
  omega

/-- The first byte of the reply decides whether the client polls. -/
theorem WaitCmd.recv_init (p : WaitCmd (layerProtSize layer)) {reply : Bytes}
    (hlen : reply.length ≤ layerProtSize layer) :
    ∃ b, p.client.recv (WaitCmd.init (layerProtSize layer)) (some reply) =
        ⟨if reply.head? = some 1 then .poll else .finished, b, []⟩ ∧
      b.bytes.drop (layerProtSize layer) = [0] := by
  have hp := layerProtSize_bounds layer
  -- The client reads into a cleared buffer that is one byte longer than a reply.
  have hbytes : (udbCtrlRead (Buf.zero (layerProtSize layer + 1)) (some reply)).bytes =
      reply ++ List.replicate (layerProtSize layer + 1 - reply.length) 0 := by
    rw [udbCtrlRead, Buf.bytes_write, List.take_of_length_le hlen]
    simp
  -- Its first byte is the reply's, or 0 for an empty reply.
  have hhead :
      (reply ++ List.replicate (layerProtSize layer + 1 - reply.length) (0 : UInt8)).head? =
          some 1 ↔
        reply.head? = some 1 := by
    cases reply with
    | nil => simp [List.replicate_succ]
    | cons x reply => rfl
  refine ⟨udbCtrlRead (Buf.zero (layerProtSize layer + 1)) (some reply), ?_, ?_⟩
  · simp only [WaitCmd.client, WaitCmd.recv, WaitCmd.init, hbytes, hhead]
  · rw [hbytes, List.drop_append, List.drop_of_length_le hlen, List.nil_append, List.drop_replicate]
    rw [show layerProtSize layer + 1 - reply.length - (layerProtSize layer - reply.length) = 1 by
      omega]
    rfl

/-! ## The invariant -/

/-- What holds in every run from a server that has nothing left to hand out. -/
inductive PrefixInv (lines : List Bytes) {layer : UInt8} : WaitConf layer → Prop where
  /-- `RUN_CMD_WAIT` has not been sent yet. -/
  | asking {s : Server} (hw : s.workers = []) (hused : s.udbRuncmdWaitCtrl.usedSize = 0)
      (hcp : s.udbRuncmdWaitCtrl.cpOffset = 0) :
      PrefixInv lines ⟨s, WaitCmd.init (layerProtSize layer), lines⟩
  /-- The thread has not run yet, or could not be created. -/
  | waiting {s : Server} {st : WaitState (layerProtSize layer)} (base : Polling s st)
      (hw : s.workers = [] ∨ s.workers = [.created]) (hnone : Streaming [] s st) :
      PrefixInv lines ⟨s, st, lines⟩
  /-- The lines `app` have been stored. -/
  | running {s : Server} {st : WaitState (layerProtSize layer)} {w : Option Worker}
      {app todo : List Bytes} (base : Polling s st) (hw : s.workers = w.toList)
      (hstarted : w ≠ some .created) (happ : app <+: lines) (hstream : Streaming app s st)
      (hlines : ∀ cmd, w = some (.reading cmd) → lines = app ++ todo) :
      PrefixInv lines ⟨s, st, todo⟩
  /-- The client has stopped. -/
  | done {s : Server} {st : WaitState (layerProtSize layer)} {todo : List Bytes}
      (hphase : st.phase = .finished) (hout : st.out <+: lines.flatten) :
      PrefixInv lines ⟨s, st, todo⟩

/-- A part of the lines is a part of their text. -/
private theorem flatten_isPrefix {app : List Bytes} (h : app <+: lines) :
    app.flatten <+: lines.flatten := by
  obtain ⟨rest, rfl⟩ := h
  rw [List.flatten_append]
  exact List.prefix_append _ _

/-- What lies in front of some cursor is a beginning of the output. -/
private theorem filter_take_isPrefix (hnul : ∀ l ∈ lines, (0 : UInt8) ∉ l) {app : List Bytes}
    (happ : app <+: lines) (k : Nat) :
    ((stream app).take k).filter (· ≠ 0) <+: lines.flatten := by
  have hnul' : ∀ l ∈ app, (0 : UInt8) ∉ l := fun l hl => hnul l (happ.subset hl)
  have htake : ((stream app).take k).filter (· ≠ 0) <+: (stream app).filter (· ≠ 0) :=
    (List.take_prefix k (stream app)).filter _
  rw [filter_stream hnul'] at htake
  exact htake.trans (flatten_isPrefix happ)

/-! ## Steps -/

/-- What was printed is a part of the text. -/
theorem PrefixInv.out (hnul : ∀ l ∈ lines, (0 : UInt8) ∉ l) {c : WaitConf layer}
    (h : PrefixInv lines c) : c.client.out <+: lines.flatten := by
  cases h with
  | asking => exact List.nil_prefix
  | waiting base hw hnone =>
    rw [hnone.out]
    exact filter_take_isPrefix hnul List.nil_prefix _
  | running base hw hstarted happ hstream hlines =>
    rw [hstream.out]
    exact filter_take_isPrefix hnul happ _
  | done hphase hout => exact hout

/-- The thread starts. -/
theorem PrefixInv.start (h : PrefixInv lines ⟨s, st, todo⟩) (hst : WorkerStep 0 .start s s') :
    PrefixInv lines ⟨s', st, todo⟩ := by
  cases hst with
  | @start _ s₁ os cmd w hw hok =>
    obtain ⟨hcase, rlog, calls, rfl⟩ := threadStart_eq hok
    cases h with
    | asking hnone => rw [hnone] at hw; cases hw
    | waiting base hone hnone =>
      rcases hone with hone | hone
      · rw [hone] at hw
        cases hw
      · -- The worker finds the cursor at the start, because nothing was there to be handed out.
        have hset : s.workers.set 0 w = (some w).toList := by rw [hone]; rfl
        have hzero : s.udbRuncmdWaitCtrl.cpOffset.toNat = 0 := by
          have hle := UInt32.le_iff_toNat_le.mp hnone.cursor
          have hused := hnone.used
          rw [stream, List.flatMap_nil, List.length_nil] at hused
          omega
        have hcp : s.udbRuncmdWaitCtrl.cpOffset = 0 := UInt32.toNat_inj.mp hzero
        have hout := hnone.out
        refine .running ⟨base.auth, base.ptr, base.phase, base.readBuf⟩ hset ?_ List.nil_prefix
          ⟨rfl, rfl, ?_, hout⟩ fun _ _ => (List.nil_append _).symm
        · rcases hcase with rfl | rfl <;> simp
        · dsimp only
          rw [hcp]
          exact UInt32.le_refl _
    | @running _ _ w₀ _ _ base hone hstarted =>
      cases w₀ <;> rw [hone] at hw <;> cases hw
      exact absurd rfl hstarted
    | done hphase hout => exact .done hphase hout

/-- It appends a line. -/
theorem PrefixInv.append {line : Bytes} (hnul : (0 : UInt8) ∉ line)
    (h : PrefixInv lines ⟨s, st, line :: todo⟩) (hst : WorkerStep 0 (.line line) s s') :
    PrefixInv lines ⟨s', st, todo⟩ := by
  cases hst with
  | @line _ s₁ os threadCmd _ w hw hb hok =>
    cases h with
    | asking hnone => rw [hnone] at hw; cases hw
    | waiting base hone => rcases hone with hone | hone <;> rw [hone] at hw <;> cases hw
    | @running _ _ w₀ app _ base hone hstarted happ hstream hlines =>
      obtain rfl : w₀ = some (.reading threadCmd) := by
        rw [hone] at hw
        cases w₀ with
        | none => cases hw
        | some w₀ => exact congrArg some (Option.some.inj hw)
      have hset : s.workers.set 0 w = (some w).toList := by rw [hone]; rfl
      have hall := hlines threadCmd rfl
      rcases threadLine_eq hok with ⟨rfl, rlog, rfl⟩ | ⟨rfl, b, hcpy, rfl⟩
      · -- The worker gives up, and the line it has read is lost.
        exact .running ⟨base.auth, base.ptr, base.phase, base.readBuf⟩ hset (by simp) happ
          ⟨hstream.stored, hstream.used, hstream.cursor, hstream.out⟩ fun _ hread => by cases hread
      · -- It is the next line of the output.
        have happ' : app ++ [line] <+: lines := by
          rw [hall]
          exact ⟨todo, by simp⟩
        obtain ⟨hstored, hused, hcursor, hout⟩ := hstream.append hnul hcpy
        exact .running ⟨base.auth, base.ptr, base.phase, base.readBuf⟩ hset (by simp) happ'
          ⟨hstored, hused, hcursor, hout⟩ fun _ _ => by rw [hall]; simp
    | done hphase hout => exact .done hphase hout

/-- It comes to the end of the lines. -/
theorem PrefixInv.finish (h : PrefixInv lines ⟨s, st, []⟩) (hst : WorkerStep 0 .eof s s') :
    PrefixInv lines ⟨s', st, []⟩ := by
  cases hst with
  | @eof _ threadCmd hw =>
    generalize htodo : ([] : List Bytes) = todo at h ⊢
    cases h with
    -- Only a worker that reads comes to the end of its stream.
    | asking hnone => rw [hnone] at hw; cases hw
    | waiting base hone => rcases hone with hone | hone <;> rw [hone] at hw <;> cases hw
    | @running _ _ w₀ _ _ base hone hstarted happ hstream hlines =>
      have hset : s.workers.set 0 (threadEof s).2 = (some Worker.exiting).toList := by
        rw [hone] at hw ⊢
        cases w₀ with
        | none => cases hw
        | some w₀ => rfl
      -- The flag is set and the bytes stay, so the invariant has nothing new to say.
      exact .running ⟨base.auth, base.ptr, base.phase, base.readBuf⟩ hset (by simp) happ
        ⟨hstream.stored, hstream.used, hstream.cursor, hstream.out⟩ fun _ hread => by cases hread
    | done hphase hout => exact .done hphase hout

/-- The worker is gone, and nothing else has changed. -/
theorem PrefixInv.exit (h : PrefixInv lines ⟨s, st, todo⟩) (hst : WorkerStep 0 .exit s s') :
    PrefixInv lines ⟨s', st, todo⟩ := by
  cases hst with
  | exit hw =>
    cases h with
    -- Only a worker that is done exits.
    | asking hnone => rw [hnone] at hw; cases hw
    | waiting base hone => rcases hone with hone | hone <;> rw [hone] at hw <;> cases hw
    | @running _ _ w₀ _ _ base hone hstarted happ hstream hlines =>
      -- It leaves the list of workers, and nothing else changes.
      have hgone : s.workers.eraseIdx 0 = (none : Option Worker).toList := by
        rw [hone]
        cases w₀ <;> rfl
      exact .running ⟨base.auth, base.ptr, base.phase, base.readBuf⟩ hgone (by simp) happ
        ⟨hstream.stored, hstream.used, hstream.cursor, hstream.out⟩ fun _ hread => by cases hread
    | done hphase hout => exact .done hphase hout

/-- The first exchange starts the polling, or ends the command. -/
private theorem PrefixInv.accept {argv : List CString}
    (hpacket : execCmdWaitPacket (layerProtSize layer) argv = .ok p.initPacket)
    (hw : s.workers = []) (hused : s.udbRuncmdWaitCtrl.usedSize = 0)
    (hreq : request os layer p.initPacket.bytes s = .ok (s', r)) :
    PrefixInv lines
      ⟨s', p.client.recv (WaitCmd.init (layerProtSize layer)) (some r), lines⟩ := by
  obtain ⟨b, hrecv, hb⟩ := WaitCmd.recv_init p (length_reply_le hreq)
  rw [hrecv]
  by_cases hone : r.head? = some 1
  · have hchan := cmdPacket_chan hpacket
    obtain ⟨hauth, hidle⟩ := accepted_of_reply hchan hreq hone
    rw [request_runcmdWait os layer hauth hchan hidle] at hreq
    obtain ⟨rfl, -⟩ := pure_pair_eq_ok.mp hreq
    rw [if_pos hone]
    -- The command has been accepted: there is no output yet, and the worker may start.
    refine .waiting ⟨hauth, rfl, rfl, hb⟩ ?_ ⟨?_, ?_, UInt32.zero_le, rfl⟩
    · show (if os.pthreadCreate then s.workers ++ [.created] else s.workers) = [] ∨
        (if os.pthreadCreate then s.workers ++ [.created] else s.workers) = [.created]
      rw [hw]
      cases os.pthreadCreate
      · exact .inl rfl
      · exact .inr rfl
    · show s.runcmdBuf.bytes.take s.udbRuncmdWaitCtrl.usedSize.toNat = _
      rw [hused]
      rfl
    · show _ = s.udbRuncmdWaitCtrl.usedSize.toNat
      rw [hused]
      rfl
  · -- It has been refused, and nothing is printed.
    rw [if_neg hone]
    exact .done rfl List.nil_prefix

/-- The client polls, whatever the state. -/
theorem PrefixInv.poll {argv : List CString} (hnul : ∀ l ∈ lines, (0 : UInt8) ∉ l)
    (hpacket : execCmdWaitPacket (layerProtSize layer) argv = .ok p.initPacket)
    (h : PrefixInv lines ⟨s, st, todo⟩) (hn : p.client.next st = .call q)
    (hs : serveLayer os layer s q = some (s', r)) :
    PrefixInv lines ⟨s', p.client.recv st (some r), todo⟩ := by
  cases h with
  | asking hw hused =>
    obtain rfl : p.initPacket.bytes = q := Action.call.inj hn
    exact PrefixInv.accept hpacket hw hused (serveLayer_eq_some.mp hs)
  | waiting base hw hnone =>
    -- Before the worker starts, a poll delivers nothing of the output.
    obtain ⟨len, b, -, hpolled, hrecv, hb, hgoes⟩ := hnone.poll base hn hs
    rw [hrecv] at hgoes ⊢
    cases hends : endsAt layer s with
    | true => exact .done rfl (filter_take_isPrefix hnul List.nil_prefix _)
    | false =>
      obtain ⟨-, hptr, -, -, -⟩ := hpolled.going hends
      have hnone' := hgoes hends
      rw [hends] at hnone'
      exact .waiting ⟨hpolled.auth.trans base.auth, hptr.trans base.ptr, rfl, hb⟩
        (by rw [hpolled.workers]; exact hw) hnone'
  | running base hw hstarted happ hstream hlines =>
    -- What is delivered is the next part of the stream.
    obtain ⟨len, b, -, hpolled, hrecv, hb, hgoes⟩ := hstream.poll base hn hs
    rw [hrecv] at hgoes ⊢
    cases hends : endsAt layer s with
    | true => exact .done rfl (filter_take_isPrefix hnul happ _)
    | false =>
      obtain ⟨-, hptr, -, -, -⟩ := hpolled.going hends
      have hstream' := hgoes hends
      rw [hends] at hstream'
      exact .running ⟨hpolled.auth.trans base.auth, hptr.trans base.ptr, rfl, hb⟩
        (hpolled.workers.trans hw) hstarted happ hstream' hlines
  | done hphase hout =>
    simp only [WaitCmd.client, WaitCmd.next, hphase] at hn
    cases hn

/-- Every step keeps the invariant. -/
theorem PrefixInv.step {argv : List CString} {c c' : WaitConf layer}
    (hnul : ∀ l ∈ lines, (0 : UInt8) ∉ l) (htodo : ∀ l ∈ c.todo, (0 : UInt8) ∉ l)
    (hpacket : execCmdWaitPacket (layerProtSize layer) argv = .ok p.initPacket)
    (h : PrefixInv lines c) (hst : WaitStep p (fun _ => True) c c') : PrefixInv lines c' := by
  cases hst with
  | start hw => exact h.start hw
  | append hw => exact h.append (htodo _ List.mem_cons_self) hw
  | finish hw => exact h.finish hw
  | exit hw => exact h.exit hw
  | poll _ hn hs => exact h.poll hnul hpacket hn hs

/-- The invariant of every run. -/
private theorem prefixInv_run {argv : List CString} {c₀ c : WaitConf layer}
    (hnul : ∀ l ∈ lines, (0 : UInt8) ∉ l) (htodo : c₀.todo = lines)
    (hpacket : execCmdWaitPacket (layerProtSize layer) argv = .ok p.initPacket)
    (h₀ : PrefixInv lines c₀) (hrun : Relation.ReflTransGen (WaitStep p fun _ => True) c₀ c) :
    PrefixInv lines c := by
  induction hrun with
  | refl => exact h₀
  | tail hrun hst ih =>
    have hsuffix := todo_isSuffix hrun
    rw [htodo] at hsuffix
    exact ih.step hnul (fun l hl => hnul l (hsuffix.subset hl)) hpacket hst

/-! ## The result -/

/-- A reply to a poll carries less than a packet: a state byte, and a piece of which the client
    prints all but the terminator. -/
theorem PrefixInv.reply (h : PrefixInv lines ⟨s, st, todo⟩) (hphase : st.phase = .poll)
    (hn : p.client.next st = .call q) (hs : serveLayer os layer s q = some (s', r)) :
    ∃ flag piece, piece.length ≤ layerProtSize layer - 1 ∧
      r = padTo (layerProtSize layer) ([flag] ++ piece) ∧
      (p.client.recv st (some r)).out = st.out ++ piece.filter (· ≠ 0) := by
  -- A client that polls is in one of the two middle cases.
  have hstream : ∃ app, Polling s st ∧ Streaming app s st := by
    cases h with
    | asking => cases hphase
    | waiting base hw hnone => exact ⟨[], base, hnone⟩
    | @running _ _ _ app _ base hw hstarted happ hstream => exact ⟨app, base, hstream⟩
    | done hdone => rw [hdone] at hphase; cases hphase
  obtain ⟨app, base, hstream⟩ := hstream
  obtain ⟨len, b, -, hr, -, hrecv, -⟩ := poll_exchange base hstream.cursor hstream.used_le hn hs
  have hlt := length_pieceOf_lt layer s len
  exact ⟨_, pieceOf layer s len, by omega, hr, by rw [hrecv]⟩

/-- `RUN_CMD_WAIT` never invents, repeats or reorders output. From every server without a worker
    and with nothing left to hand out, for every layer and every interleaving of the worker with
    the exchanges of the client, what the client has printed is a beginning of the output, and
    each reply to a poll carries less than a packet of it. -/
theorem execCmdWait_prints_isPrefix (layer : UInt8) (argv : List CString)
    (packet : Buf (layerProtSize layer)) (lines : List Bytes) (s : Server) (c : WaitConf layer)
    (hpacket : execCmdWaitPacket (layerProtSize layer) argv = .ok packet)
    (hnul : ∀ l ∈ lines, (0 : UInt8) ∉ l) (hw : s.workers = [])
    (hused : s.udbRuncmdWaitCtrl.usedSize = 0) (hcp : s.udbRuncmdWaitCtrl.cpOffset = 0)
    (hrun : Relation.ReflTransGen (WaitStep ⟨packet⟩ fun _ => True)
      ⟨s, WaitCmd.init (layerProtSize layer), lines⟩ c) :
    c.client.out <+: lines.flatten ∧
      (c.client.phase = .poll → ∀ os q s' r,
        (WaitCmd.mk packet).client.next c.client = .call q →
        serveLayer os layer c.server q = some (s', r) →
        ∃ flag piece, piece.length ≤ layerProtSize layer - 1 ∧
          r = padTo (layerProtSize layer) ([flag] ++ piece) ∧
          ((WaitCmd.mk packet).client.recv c.client (some r)).out =
            c.client.out ++ piece.filter (· ≠ 0)) := by
  have h₀ : PrefixInv lines ⟨s, WaitCmd.init (layerProtSize layer), lines⟩ := .asking hw hused hcp
  have hinv := prefixInv_run (p := ⟨packet⟩) hnul rfl hpacket h₀ hrun
  exact ⟨hinv.out hnul, fun hphase os q s' r hn hs => hinv.reply hphase hn hs⟩

/-- The first of two lines is printed. -/
theorem execCmdWait_prints_isPrefix_two :
    ∃ (p : WaitCmd (layerProtSize udbLayerDef)) (c : WaitConf udbLayerDef),
      Relation.ReflTransGen (WaitStep p fun _ => True) ⟨authed fun _ => none,
        WaitCmd.init (layerProtSize udbLayerDef), [ascii "a\n", ascii "b\n"]⟩ c ∧
      c.client.out = ascii "a\n" ∧ c.client.out <+: [ascii "a\n", ascii "b\n"].flatten := by
  have hline : ∀ l ∈ [ascii "a\n", ascii "b\n"], IsLine l := by decide
  obtain ⟨p, c₀, s, st, hpacket, hfirst, -, hrun, h, hfin⟩ :=
    exists_ahead udbLayerDef hline (by decide) fun _ => True
  obtain ⟨s', b, hpoll⟩ :=
    @Ahead.poll _ s st p (fun _ => True) _ _ _ h hfin (by decide) (by decide) trivial
  have hall := (hrun.tail hpoll).head hfirst
  exact ⟨p, _, hall, rfl, (execCmdWait_prints_isPrefix udbLayerDef lsArgs p.initPacket _ _ _ hpacket
    (fun l hl => (hline l hl).2.2) rfl rfl rfl hall).1⟩

end Udb.Spec
