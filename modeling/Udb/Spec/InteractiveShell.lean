import Udb.Spec.Directory

/-!
# A shell on the device

What `interactive_shell` is for: a prompt that shows a directory, and lines that run
in it, each in the directory that the lines before it have led to. The three loops of
the client are one loop, `Pulling`, and what is between them is a fold over the lines.

Nothing of this holds without the key. Then the first directory is shown as nothing,
and the loop behind the first line reads in front of its buffer.

## Key results

- `shell_transcript`: what a session prints, and when it comes to its end
- `shell_locked`: a session without the key
-/

namespace Udb.Spec

open CMem StopAndWait Udb.Native

variable {layer : UInt8} {s s' : Server} {line : Bytes}

/-! ## The loops -/

/-- What a loop shows of a content. -/
def shown : ShellLoop → Bytes → Bytes
  | .cwd, content => content
  | .line, content => content
  | .prompt, content => content.filter (· ≠ 10)

/-- Each loop shows its data in pieces. -/
private theorem shown_append (loop : ShellLoop) (a b : Bytes) :
    shown loop (a ++ b) = shown loop a ++ shown loop b := by
  cases loop with
  | cwd => rfl
  | line => rfl
  | prompt => exact List.filter_append a b

/-- The content is one line: nothing is behind its newline. -/
def OneLine (content : Bytes) : Prop :=
  ∀ front behind, content = front ++ 10 :: behind → behind = []

/-- The end of a line is one line. -/
private theorem OneLine.of_suffix {content rest : Bytes} (h : OneLine content)
    (hsuf : rest <:+ content) :
    OneLine rest := by
  obtain ⟨skip, rfl⟩ := hsuf
  intro front behind hrest
  apply h (skip ++ front) behind
  rw [hrest, List.append_assoc]

/-- So is its start. -/
private theorem OneLine.of_isPrefix {content data : Bytes} (h : OneLine content)
    (hpre : data <+: content) :
    OneLine data := by
  obtain ⟨rest, rfl⟩ := hpre
  intro front behind hdata
  have hnil := h front (behind ++ rest) (by rw [hdata, List.append_assoc, List.cons_append])
  exact (List.append_eq_nil_iff.mp hnil).1

/-- A directory is printed on one line. -/
private theorem oneLine_dir (dir : Dir) : OneLine (dir.val ++ ascii "\n") := by
  obtain ⟨-, -, hnl, -⟩ := dir.property
  intro front behind h
  rcases List.eq_nil_or_concat behind with rfl | ⟨b, x, rfl⟩
  · rfl
  · -- Otherwise there would be a newline in the name.
    have hsplit : dir.val ++ ascii "\n" = (front ++ 10 :: b) ++ [x] := by
      rw [h, List.concat_eq_append, List.append_assoc, List.cons_append]
    have hdir := (List.append_inj' hsplit rfl).1
    exact absurd (by rw [hdir]; simp) hnl

/-- The newline is not shown. -/
private theorem printPrompt_oneLine {data : Bytes} (h : OneLine data) :
    (if data.getLast? = some 10 then data.dropLast else data) = shown .prompt data := by
  show _ = data.filter (· ≠ 10)
  split
  · -- The newline at the end is the only one.
    rename_i hlast
    obtain ⟨front, rfl⟩ := List.getLast?_eq_some_iff.mp hlast
    have hfront : ∀ x ∈ front, x ≠ 10 := by
      intro x hx hten
      subst hten
      obtain ⟨a, b, rfl⟩ := List.append_of_mem hx
      have := h a (b ++ [10]) (by simp)
      simp at this
    rw [List.dropLast_concat, List.filter_append, List.filter_eq_self.mpr (by simpa using hfront)]
    exact (List.append_nil front).symm
  · -- There is no newline, since it would be at the end.
    rename_i hlast
    symm
    rw [List.filter_eq_self]
    intro x hx
    rw [decide_eq_true_eq]
    rintro rfl
    obtain ⟨a, b, hab⟩ := List.append_of_mem hx
    rw [hab, h a b hab] at hlast
    simp at hlast

/-- The string of a reply that delivers `data`. -/
private theorem cstr_reply {n : Nat} {data : Bytes} (hnul : (0 : UInt8) ∉ data) :
    cstr (padTo n data ++ [0]) = data := by
  rw [padTo, List.append_assoc, cstr_append_of_not_mem hnul, ← List.replicate_succ',
    cstr_replicate_zero, List.append_nil]

/-- What the loops print of a reply is the data that they show. -/
private theorem sink_eq_shown {loop : ShellLoop} {n : Nat} {data : Bytes}
    (hnul : (0 : UInt8) ∉ data)
    (hline : loop = .prompt → OneLine data) (cpSize : Nat) :
    loop.sink (padTo n data ++ [0]) cpSize = shown loop data := by
  cases loop with
  | cwd => exact cstr_reply hnul
  | line => exact cstr_reply hnul
  | prompt =>
    rw [← printPrompt_oneLine (hline rfl)]
    show (if (cstr _).getLast? = some 10 then (cstr _).dropLast else cstr _) = _
    rw [cstr_reply hnul]

section Loop

variable {w : World} {loop : ShellLoop} {st : ShellState (layerProtSize layer)} {rest : Bytes}

/-- A turn of a loop is next, with `rest` still to come. -/
structure Pulling (loop : ShellLoop) (st : ShellState (layerProtSize layer)) (s : Server)
    (rest : Bytes) : Prop where
  auth : s.udbAuthOk = true
  holds : Holds .runcmd s rest
  running : st.phase = .running loop
  phase : st.pull.phase = .pullout
  size : st.pull.getSize.toNat = rest.length
  buf : st.pull.readBuf.bytes.drop (layerProtSize layer) = [0]

/-- Pulling does not change the directory. -/
private theorem dir_afterPull (w : World) (layer : UInt8) (c : UInt32) (s : Server) :
    w.dir (afterPull .runcmd layer c s) = w.dir s := by
  unfold afterPull
  split <;> rfl

/-- What the read buffer holds after a full reply. -/
private theorem readBuf_recv {p : PullCmd (layerProtSize layer)}
    {st : PullState (layerProtSize layer)}
    {reply : Bytes}
    (hclear : p.clearLen = layerProtSize layer ∨ p.clearLen = layerProtSize layer + 1)
    (hphase : st.phase = .pullout) (hbuf : st.readBuf.bytes.drop (layerProtSize layer) = [0])
    (hlen : reply.length = layerProtSize layer) :
    (p.recv st (some reply)).readBuf.bytes = reply ++ [0] := by
  simp only [PullCmd.recv, hphase]
  exact bytes_udbCtrlRead (drop_cleared hbuf hclear (by simpa using p.clearLen_le)) hlen

/-- A turn of a loop: the next packet of bytes is shown. -/
theorem Pulling.turn (h : Pulling loop st s rest) (hnul : (0 : UInt8) ∉ rest)
    (hprompt : loop = .prompt → OneLine rest ∧ rest ≠ []) :
    ∃ pull s₁, Exchange Shell.client (w.serve layer) (st, s)
        (Shell.settle loop { st with pull := pull }, s₁) ∧
      pull.out = st.pull.out ++ shown loop (rest.take (layerProtSize layer)) ∧
      s₁.udbAuthOk = true ∧ w.dir s₁ = w.dir s ∧
      if rest.length ≤ layerProtSize layer then pull.phase = .finished
      else Pulling loop { st with pull := pull } s₁ (rest.drop (layerProtSize layer)) := by
  have hp := layerProtSize_bounds layer
  let p := shellCmd loop st.writeBuf
  let c := chunkSize (layerProtSize layer) st.pull.getSize
  have hc : c.toNat = min rest.length (layerProtSize layer) := by
    rw [← h.size]
    exact toNat_chunkSize (by omega) _
  have htake : rest.take c.toNat = rest.take (layerProtSize layer) := by
    rw [hc, Nat.min_comm]
    exact List.take_eq_take_min.symm
  have hserve := serve_pullout (w.osIn (w.dir s)) layer h.auth h.holds (c := c) (by omega)
    (by omega)
  rw [htake] at hserve
  let reply := padTo (layerProtSize layer) (rest.take (layerProtSize layer))
  have hfull : reply.length = layerProtSize layer := length_padTo (by rw [List.length_take]; omega)
  have hsub : ∀ x ∈ rest.take (layerProtSize layer), x ∈ rest := fun x hx => List.mem_of_mem_take hx
  have hfree : (0 : UInt8) ∉ rest.take (layerProtSize layer) := fun h0 => hnul (hsub 0 h0)
  -- What is received.
  obtain ⟨b, hrecv, hbuf⟩ := recv_pullout (p := p) st.pull (.inr rfl) h.phase h.buf hfull rfl
  have hsink : p.sink (reply ++ [0]) c.toNat = shown loop (rest.take (layerProtSize layer)) :=
    sink_eq_shown hfree (fun hl => (hprompt hl).1.of_isPrefix (List.take_prefix _ _)) _
  rw [hsink] at hrecv
  have hread := readBuf_recv (p := p) (.inr rfl) h.phase h.buf hfull
  have hsafe : ¬ (loop = .prompt ∧ st.pull.phase = .pullout ∧
      cstr (p.recv st.pull (some reply)).readBuf.bytes = []) := by
    rintro ⟨hl, -, hnil⟩
    rw [hread, cstr_reply hfree, List.take_eq_nil_iff] at hnil
    rcases hnil with hnil | hnil
    · omega
    · exact (hprompt hl).2 hnil
  have hnext : Shell.client.next st = .call (padTo (layerProtSize layer)
      (channelHeader .runCmdPullout ++ le32 c)) := by
    show Shell.next st = _
    rw [Shell.next, h.running]
    exact next_pullout (p := p) h.phase
  have hnew : Shell.client.recv st (some reply) =
      Shell.settle loop { st with pull := p.recv st.pull (some reply) } := by
    show Shell.recv st (some reply) = _
    rw [Shell.recv, h.running]
    dsimp only
    rw [if_neg hsafe]
  have hleft : (st.pull.getSize - c).toNat = rest.length - c.toNat := by
    have hle : c ≤ st.pull.getSize := by
      rw [UInt32.le_iff_toNat_le, h.size]
      omega
    rw [UInt32.toNat_sub_of_le _ _ hle, h.size]
  have hzero : st.pull.getSize - c = 0 ↔ rest.length ≤ layerProtSize layer := by
    rw [← UInt32.toNat_inj, hleft, UInt32.toNat_zero]
    omega
  have hout : (p.recv st.pull (some reply)).out =
      st.pull.out ++ shown loop (rest.take (layerProtSize layer)) := congrArg PullState.out hrecv
  have hphase := congrArg PullState.phase hrecv
  dsimp only at hphase
  refine ⟨p.recv st.pull (some reply), afterPull .runcmd layer c s,
    ⟨_, reply, hnext, hserve, hnew.symm⟩,
    hout, by simpa using h.auth, dir_afterPull w layer c s, ?_⟩
  split
  · rename_i hlast
    rw [if_pos (hzero.mpr hlast)] at hphase
    exact hphase
  · rename_i hmore
    rw [if_neg (fun h0 => hmore (hzero.mp h0))] at hphase
    have hck : c.toNat = layerProtSize layer := by omega
    have hholds : Holds .runcmd (afterPull .runcmd layer c s) (rest.drop c.toNat) :=
      h.holds.afterPull (by omega)
    rw [hck] at hholds
    exact
      { auth := by simpa using h.auth
        holds := hholds
        running := h.running
        phase := hphase
        size := by
          have hsize := congrArg (UInt32.toNat ∘ PullState.getSize) hrecv
          rw [List.length_drop]
          exact hsize.trans (hleft.trans (congrArg (rest.length - ·) hck))
        buf := by
          show (p.client.recv st.pull (some reply)).readBuf.bytes.drop _ = _
          rw [hrecv]
          exact hbuf }

/-- A loop shows what is to come, and the shell goes on behind it. -/
private theorem Pulling.exchanges (h : Pulling loop st s rest) (hnul : (0 : UInt8) ∉ rest)
    (hprompt : loop = .prompt → OneLine rest ∧ rest ≠ []) :
    ∃ pull s', Relation.ReflTransGen (Exchange Shell.client (w.serve layer)) (st, s)
        (Shell.behind loop { st with pull := pull }, s') ∧
      pull.out = st.pull.out ++ shown loop rest ∧ s'.udbAuthOk = true ∧ w.dir s' = w.dir s := by
  -- Induction on what is to come.
  induction hn : rest.length using Nat.strong_induction_on generalizing rest st s with
  | _ k ih =>
    have hp := layerProtSize_bounds layer
    obtain ⟨pull, s₁, hx, hout, hauth, hdir, hturn⟩ := h.turn (w := w) hnul hprompt
    by_cases hlast : rest.length ≤ layerProtSize layer
    · rw [if_pos hlast] at hturn
      rw [List.take_of_length_le hlast] at hout
      rw [Shell.settle, if_pos hturn] at hx
      exact ⟨pull, s₁, .single hx, hout, hauth, hdir⟩
    · rw [if_neg hlast] at hturn
      have hphase : pull.phase ≠ .finished := by
        rw [hturn.phase]
        simp
      rw [Shell.settle, if_neg hphase] at hx
      have hlen : (rest.drop (layerProtSize layer)).length = rest.length - layerProtSize layer :=
        List.length_drop
      have hdrop : rest.drop (layerProtSize layer) ≠ [] := List.ne_nil_of_length_pos (by omega)
      obtain ⟨pull', s', hxs, hout', hauth', hdir'⟩ := ih _ (by omega) hturn
        (fun h0 => hnul (List.mem_of_mem_drop h0))
        (fun hl => ⟨(hprompt hl).1.of_suffix (List.drop_suffix _ _), hdrop⟩) hlen
      refine ⟨pull', s', .head hx hxs, ?_, hauth', hdir'.trans hdir⟩
      rw [hout', hout, List.append_assoc, ← shown_append, List.take_append_drop]

/-! ## A request and its loop -/

/-- A request is built, and nothing was sent. -/
def started (loop : ShellLoop) (packet : Buf (layerProtSize layer)) (out stdin : Bytes) :
    ShellState (layerProtSize layer) :=
  ⟨.running loop, packet, { PullCmd.init (layerProtSize layer) with out := out }, stdin⟩

variable {packet : Buf (layerProtSize layer)} {out stdin : Bytes} {s₁ : Server}

/-- The reply that announces a size. -/
private theorem exchange_announce {n : UInt32} (loop : ShellLoop)
    (packet : Buf (layerProtSize layer))
    (out stdin : Bytes) (hserve : w.serve layer s packet.bytes =
      some (s₁, padTo (layerProtSize layer) (le32 n))) :
    ∃ b, Exchange Shell.client (w.serve layer) (started loop packet out stdin, s)
        ({ started loop packet out stdin with pull := ⟨.pullout, n, b, out⟩ }, s₁) ∧
      b.bytes.drop (layerProtSize layer) = [0] := by
  have hp := layerProtSize_bounds layer
  let reply := padTo (layerProtSize layer) (le32 n)
  have hlen : reply.length = layerProtSize layer := length_padTo (by rw [length_le32]; omega)
  -- The reply ends in front of the NUL that the buffer keeps at its end.
  let readBuf := udbCtrlRead (Buf.zero (layerProtSize layer + 1)) (some reply)
  have hread : readBuf.bytes = reply ++ [0] := bytes_udbCtrlRead (by simp) hlen
  refine ⟨readBuf, ⟨packet.bytes, reply, rfl, hserve, ?_⟩,
    by rw [hread]; exact List.drop_left' hlen⟩
  -- Its first word is the size of what comes.
  have hsize : getSizeOf readBuf = n := getSizeOf_reply hread
  show _ = Shell.recv (started loop packet out stdin) (some reply)
  simp only [Shell.recv, Shell.settle, started, PullCmd.recv, PullCmd.init, reduceCtorEq, false_and,
    and_false, if_false]
  rw [← hsize]

/-- A line is run and shown. -/
private theorem session_exchanges (w : World) (loop : ShellLoop) (out stdin : Bytes)
    (hauth : s.udbAuthOk = true) (hchan : packet.bytes[3]? = some UdbChanId.runCmd.toByte)
    (hcmd : cstrAt packet.bytes 4 = .ok line) (hans : Answered line)
    (hprompt : loop = .prompt → OneLine (w.runLine (w.dir s) line).2 ∧
      (w.runLine (w.dir s) line).2 ≠ []) :
    ∃ pull s', Relation.ReflTransGen (Exchange Shell.client (w.serve layer))
        (started loop packet out stdin, s)
        (Shell.behind loop { started loop packet out stdin with pull := pull }, s') ∧
      pull.out = out ++ shown loop (w.runLine (w.dir s) line).2 ∧ s'.udbAuthOk = true ∧
      w.dir s' = (w.runLine (w.dir s) line).1 := by
  obtain ⟨s₁, hserve, hstored, hdir⟩ := w.serve_line layer hauth hchan hcmd hans
  have hlen := (World.length_runLine_lt (w := w) (w.dir s) line).trans
    (show udbBufSize < 2 ^ 32 by decide)
  -- The reply to the line announces the size of the output, and the pullouts fetch it.
  obtain ⟨b, hx, hbuf⟩ := exchange_announce loop packet out stdin hserve
  have hpulling : Pulling loop { started loop packet out stdin with
      pull := ⟨.pullout, UInt32.ofNat (w.runLine (w.dir s) line).2.length, b, out⟩ } s₁
      (w.runLine (w.dir s) line).2 :=
    { auth := hstored.auth
      holds := hstored.holds
      running := rfl
      phase := rfl
      size := UInt32.toNat_ofNat_of_lt' hlen
      buf := hbuf }
  obtain ⟨pull, s', hxs, hout, hauth', hdir'⟩ :=
    hpulling.exchanges (w := w) (World.not_mem_runLine _ _) hprompt
  exact ⟨pull, s', .head hx hxs, hout, hauth', hdir'.trans hdir⟩

end Loop

/-! ## Packets -/

section Packets

variable {protSize : Nat}

/-- The packet that asks for the directory. -/
private theorem pwdPacket_eq (h : 64 ≤ protSize) :
    ∃ packet, pwdPacket protSize = .ok packet ∧
      packet.bytes = padTo protSize (channelHeader .runCmd ++ pwdLine) := by
  have hle : (channelHeader .runCmd ++ pwdLine).length ≤ protSize := by
    show 8 ≤ protSize
    omega
  have hpacket : pwdPacket protSize = .ok (Buf.fill protSize _ hle) := by
    rw [pwdPacket, setUdbChannelHeader_zero (by omega), ok_bind]
    exact Buf.memcpy_fill rfl (by simp; omega) hle
  exact ⟨_, hpacket, rfl⟩

/-- The header is stored in front of the line. -/
private theorem linePacket_eq (h : line.length + 5 ≤ protSize) :
    ∃ packet, linePacket protSize line = .ok packet ∧
      packet.bytes = padTo protSize (channelHeader .runCmd ++ line) := by
  have hstore : 4 + (line ++ [0]).length ≤ protSize := by
    simp
    omega
  have hhead : 0 + (channelHeader .runCmd).length ≤ protSize := by
    simp
    omega
  let writeBuf := (Buf.zero protSize).write 4 (line ++ [0]) hstore
  refine ⟨writeBuf.write 0 (channelHeader .runCmd) hhead, ?_, ?_⟩
  · rw [linePacket, Buf.memcpy, dif_pos hstore, ok_bind]
    exact dif_pos hhead
  · -- The line is stored with its NUL, and then the header in front of it.
    have hfour : ((Buf.zero protSize).bytes.take 4).length = 4 := by
      simp
      omega
    rw [Buf.bytes_write, Buf.bytes_write, List.take_zero, List.nil_append, Nat.zero_add,
      length_channelHeader, List.append_assoc, List.drop_left' hfour, Buf.bytes_zero,
      List.drop_replicate, padTo, List.append_assoc, List.append_assoc, List.singleton_append,
      ← List.replicate_succ]
    congr 3
    simp
    omega

/-- A string ends in front of the zeros. -/
private theorem cstr_append_zeros (a : Bytes) (n : Nat) : cstr
    (a ++ List.replicate n 0) = cstr a := by
  induction a with
  | nil => exact cstr_replicate_zero n
  | cons x a ih =>
    by_cases hx : x = 0
    · subst hx
      rfl
    · simpa [cstr, hx] using ih

/-- The server reads the typed line, up to a 0 in it. -/
private theorem cstrAt_linePacket (h : line.length + 5 ≤ protSize) :
    cstrAt (padTo protSize (channelHeader .runCmd ++ line)) 4 = .ok (cstr line) := by
  obtain ⟨k, hk⟩ : ∃ k, protSize - (channelHeader .runCmd ++ line).length = k + 1 :=
    ⟨protSize - line.length - 5, by rw [List.length_append, length_channelHeader]; omega⟩
  rw [cstrAt, padTo, List.append_assoc, List.drop_left' (length_channelHeader _), hk,
    if_pos (by simp [List.replicate_succ]), cstr_append_zeros]

end Packets

/-! ## Sessions -/

/-- What is read of `stdin`, with `fuel` lines at most: the lines that are run, and what is printed
    in the end. -/
def typedLines (size : Nat) : Nat → Bytes → List Bytes × Bytes
  | 0, _ => ([], [])
  | fuel + 1, stdin =>
    match fgets size stdin with
    | none => ([], [])
    | some (line, rest) =>
      if startsExit line then ([], ascii "exit\n")
      else
        let (lines, bye) := typedLines size fuel rest
        (line :: lines, bye)

/-- What is read of `stdin`. No line is empty. -/
def typed (layer : UInt8) (stdin : Bytes) : List Bytes × Bytes :=
  typedLines (layerProtSize layer - 4) stdin.length stdin

namespace World

variable (w : World)

/-- The directory behind some lines. -/
def dirBehind (dir : Dir) (lines : List Bytes) : Dir :=
  lines.foldl (fun dir line => (w.runLine dir (cstr line)).1) dir

/-- What is shown for some lines: for each its output, and the prompt with the directory. -/
def transcript (dir : Dir) : List Bytes → Bytes
  | [] => []
  | line :: lines =>
    let (dir', out) := w.runLine dir (cstr line)
    out ++ dir'.val ++ ascii ">" ++ transcript dir' lines

end World

/-- A line is taken from what is left of `stdin`, and fits its packet. -/
private theorem fgets_eq_some {size : Nat} {stdin rest : Bytes} (hsize : 2 ≤ size)
    (h : fgets size stdin = some (line, rest)) :
    line.length < size ∧ rest.length < stdin.length := by
  unfold fgets at h
  split at h
  · cases h
  · rename_i hne
    dsimp only at h
    have hpos := List.length_pos_of_ne_nil hne
    generalize hroom : stdin.take (size - 1) = room at h
    -- One byte of the buffer is left for the NUL.
    have hlen : room.length = min (size - 1) stdin.length := by
      rw [← hroom, List.length_take]
    have hbody : (room.takeWhile (· ≠ 10)).length ≤ room.length :=
      (List.takeWhile_sublist _).length_le
    obtain ⟨rfl, rfl⟩ := Prod.mk.inj (Option.some.inj h)
    rw [List.length_take, List.length_drop]
    split
    · omega
    · omega

section Sessions

variable {w : World} {st : ShellState (layerProtSize layer)}

/-- The prompt shows the directory without its newline. -/
private theorem shown_dir (dir : Dir) : shown .prompt (dir.val ++ ascii "\n") = dir.val := by
  rw [← printPrompt_oneLine (oneLine_dir dir)]
  have hlast : (dir.val ++ ascii "\n").getLast? = some 10 := List.getLast?_concat
  rw [if_pos hlast]
  exact List.dropLast_concat

/-- The directory is asked for and shown. -/
private theorem pwd_exchanges (hauth : s.udbAuthOk = true) (loop : ShellLoop)
    {packet : Buf (layerProtSize layer)} (out stdin : Bytes)
    (hpacket : packet.bytes = padTo (layerProtSize layer) (channelHeader .runCmd ++ pwdLine)) :
    ∃ pull s', Relation.ReflTransGen (Exchange Shell.client (w.serve layer))
        (started loop packet out stdin, s)
        (Shell.behind loop { started loop packet out stdin with pull := pull }, s') ∧
      pull.out = out ++ shown loop ((w.dir s).val ++ ascii "\n") ∧ s'.udbAuthOk = true ∧
      w.dir s' = w.dir s := by
  have hp := layerProtSize_bounds layer
  have hchan : packet.bytes[3]? = some UdbChanId.runCmd.toByte := by
    rw [hpacket]
    exact getElem?_header _
  have hcmd : cstrAt packet.bytes 4 = .ok pwdLine := by
    rw [hpacket]
    exact cstrAt_linePacket (by
      show 4 + 5 ≤ _
      omega)
  -- The answer to `pwd` is one line, so the loop takes it whole.
  have h := session_exchanges w loop out stdin hauth hchan hcmd answered_pwdLine
  rw [World.runLine_pwdLine] at h
  exact h fun _ => ⟨oneLine_dir _, by simp [ascii]⟩

/-- A line is read, run and shown, and the directory behind it is. -/
private theorem line_exchanges {rest : Bytes} (hauth : s.udbAuthOk = true)
    (hread : fgets (layerProtSize layer - 4) st.stdin = some (line, rest))
    (hexit : startsExit line = false) (hans : Answered (cstr line)) :
    ∃ st₁ s₁, Relation.ReflTransGen (Exchange Shell.client (w.serve layer)) (Shell.readLine st, s)
        (Shell.readLine st₁, s₁) ∧
      st₁.pull.out = st.pull.out ++ ascii ">" ++ (w.runLine (w.dir s) (cstr line)).2 ++
        (w.runLine (w.dir s) (cstr line)).1.val ∧
      st₁.stdin = rest ∧ s₁.udbAuthOk = true ∧ w.dir s₁ = (w.runLine (w.dir s) (cstr line)).1 := by
  have hp := layerProtSize_bounds layer
  obtain ⟨hlen, -⟩ := fgets_eq_some (by omega) hread
  have hfit : line.length + 5 ≤ layerProtSize layer := by omega
  obtain ⟨packet, hpacket, hbytes⟩ := linePacket_eq hfit
  obtain ⟨pwd, hpwd, hpwdBytes⟩ := pwdPacket_eq hp.1
  have hstart : Shell.readLine st = started .line packet (st.pull.out ++ ascii ">") rest := by
    simp only [Shell.readLine, hread, hexit, hpacket, Shell.enter, started]
    rfl
  have hchan : packet.bytes[3]? = some UdbChanId.runCmd.toByte := by
    rw [hbytes]
    exact getElem?_header _
  have hcmd : cstrAt packet.bytes 4 = .ok (cstr line) := by
    rw [hbytes]
    exact cstrAt_linePacket hfit
  -- The line, and then the directory.
  obtain ⟨pull, s₁, hx₁, hout₁, hauth₁, hdir₁⟩ :=
    session_exchanges w .line (st.pull.out ++ ascii ">") rest hauth hchan hcmd hans nofun
  have hpwdStart : Shell.behind .line
      { started .line packet (st.pull.out ++ ascii ">") rest with pull := pull } =
        started .prompt pwd pull.out rest := by
    simp only [Shell.behind, hpwd, Shell.enter, started]
  obtain ⟨pull', s₂, hx₂, hout₂, hauth₂, hdir₂⟩ :=
    pwd_exchanges (w := w) hauth₁ .prompt pull.out rest hpwdBytes
  rw [hpwdStart] at hx₁
  rw [hstart]
  refine ⟨{ started .prompt pwd pull.out rest with pull := pull' }, s₂, hx₁.trans hx₂, ?_, rfl,
    hauth₂, hdir₂.trans hdir₁⟩
  rw [shown_dir, hdir₁, hout₁] at hout₂
  exact hout₂

/-- From this prompt on the lines are run, and the shell ends if all of them are answered. -/
structure Follows (w : World) (st : ShellState (layerProtSize layer)) (s : Server)
    (lines : List Bytes) (bye : Bytes) : Prop where
  ends : (∃ st' s', Completes Shell.client (w.serve layer) (Shell.readLine st) s st' s') ↔
    ∀ line ∈ lines, Answered (cstr line)
  shows : ∀ st' s', Completes Shell.client (w.serve layer) (Shell.readLine st) s st' s' →
    st'.pull.out = st.pull.out ++ ascii ">" ++ w.transcript (w.dir s) lines ++ bye ∧
      w.dir s' = w.dirBehind (w.dir s) lines

/-- Nothing is read any more. -/
private theorem follows_of_exited {bye : Bytes} (hphase : (Shell.readLine st).phase = .exited)
    (hout : (Shell.readLine st).pull.out = st.pull.out ++ ascii ">" ++ bye) :
    Follows w st s [] bye := by
  have hnext : Shell.client.next (Shell.readLine st) = .finished := by
    show Shell.next _ = _
    rw [Shell.next, hphase]
  refine ⟨iff_of_true ⟨_, _, .finished hnext⟩ (by simp), fun st' s' hrun => ?_⟩
  obtain ⟨rfl, rfl⟩ := (completes_finished_iff hnext).mp hrun
  refine ⟨?_, rfl⟩
  rw [hout, World.transcript, List.append_nil]

/-- A line in front of others. -/
theorem Follows.cons {rest : Bytes} {lines : List Bytes} {bye : Bytes} (hauth : s.udbAuthOk = true)
    (hread : fgets (layerProtSize layer - 4) st.stdin = some (line, rest))
    (hexit : startsExit line = false)
    (h : ∀ (st₁ : ShellState (layerProtSize layer)) (s₁ : Server), st₁.stdin = rest →
      s₁.udbAuthOk = true → Follows w st₁ s₁ lines bye) : Follows w st s (line :: lines) bye := by
  by_cases hans : Answered (cstr line)
  · obtain ⟨st₁, s₁, hx, hout, hstdin, hauth₁, hdir⟩ :=
      line_exchanges (w := w) hauth hread hexit hans
    have h₁ := h st₁ s₁ hstdin hauth₁
    have hiff : ∀ st' s', Completes Shell.client (w.serve layer) (Shell.readLine st) s st' s' ↔
        Completes Shell.client (w.serve layer) (Shell.readLine st₁) s₁ st' s' :=
      fun _ _ => completes_iff_of_exchanges hx
    constructor
    · simp only [hiff, h₁.ends, List.forall_mem_cons, hans, true_and]
    · intro st' s' hrun
      obtain ⟨hout', hdir'⟩ := h₁.shows st' s' ((hiff st' s').mp hrun)
      rw [hout', hdir', hout, hdir]
      exact ⟨by simp [World.transcript], rfl⟩
  · -- The server stops, and the shell waits for ever.
    have hp := layerProtSize_bounds layer
    obtain ⟨hlen, -⟩ := fgets_eq_some (by omega) hread
    have hfit : line.length + 5 ≤ layerProtSize layer := by omega
    obtain ⟨packet, hpacket, hbytes⟩ := linePacket_eq hfit
    have hstart : Shell.readLine st = started .line packet (st.pull.out ++ ascii ">") rest := by
      simp only [Shell.readLine, hread, hexit, hpacket, Shell.enter, started]
      rfl
    have hstop : w.serve layer s packet.bytes = none := by
      refine World.serve_unanswered hauth ?_ ?_ (not_mem_cstr line) hans
      · rw [hbytes]
        exact getElem?_header _
      · rw [hbytes]
        exact cstrAt_linePacket hfit
    have hno : ∀ st' s',
        ¬ Completes Shell.client (w.serve layer) (Shell.readLine st) s st' s' := by
      intro st' s'
      rw [hstart]
      exact not_completes_of_stop rfl hstop
    constructor
    · refine iff_of_false (fun h => ?_) fun h => hans (h line List.mem_cons_self)
      obtain ⟨st', s', hrun⟩ := h
      exact hno st' s' hrun
    · exact fun st' s' hrun => absurd hrun (hno st' s')

/-- Nothing more is read at this prompt, or a line is. -/
private theorem readLine_cases (st : ShellState (layerProtSize layer)) (fuel : Nat)
    (hfuel : st.stdin.length ≤ fuel) :
    (∃ bye, typedLines (layerProtSize layer - 4) fuel st.stdin = ([], bye) ∧
      ∀ (w : World) (s : Server), Follows w st s [] bye) ∨
    ∃ line rest fuel', fuel = fuel' + 1 ∧ rest.length ≤ fuel' ∧
      fgets (layerProtSize layer - 4) st.stdin = some (line, rest) ∧ startsExit line = false ∧
      typedLines (layerProtSize layer - 4) fuel st.stdin =
        (line :: (typedLines (layerProtSize layer - 4) fuel' rest).1,
          (typedLines (layerProtSize layer - 4) fuel' rest).2) := by
  have hp := layerProtSize_bounds layer
  cases hread : fgets (layerProtSize layer - 4) st.stdin with
  | none =>
    refine .inl ⟨[], ?_, fun w s => follows_of_exited ?_ ?_⟩
    · cases fuel with
      | zero => rfl
      | succ fuel => rw [typedLines, hread]
    · simp [Shell.readLine, hread]
    · simp [Shell.readLine, hread]
  | some res =>
    obtain ⟨line, rest⟩ := res
    -- What is read is not empty, so there is less to read behind it.
    obtain ⟨-, hlt⟩ := fgets_eq_some (by omega) hread
    obtain ⟨fuel, rfl⟩ : ∃ fuel', fuel = fuel' + 1 := ⟨fuel - 1, by omega⟩
    cases hexit : startsExit line with
    | true =>
      refine .inl ⟨ascii "exit\n", ?_, fun w s => follows_of_exited ?_ ?_⟩
      · simp only [typedLines, hread, hexit, if_true]
      · simp [Shell.readLine, hread, hexit]
      · simp [Shell.readLine, hread, hexit]
    | false =>
      refine .inr ⟨line, rest, fuel, rfl, by omega, rfl, hexit, ?_⟩
      simp only [typedLines, hread, hexit, Bool.false_eq_true, if_false]

/-- What the shell does from a prompt on. -/
private theorem readLine_follows (w : World) (st : ShellState (layerProtSize layer)) (fuel : Nat)
    (hfuel : st.stdin.length ≤ fuel) (hauth : s.udbAuthOk = true) :
    Follows w st s (typedLines (layerProtSize layer - 4) fuel st.stdin).1
      (typedLines (layerProtSize layer - 4) fuel st.stdin).2 := by
  -- Induction on the lines.
  induction fuel generalizing st s with
  | zero =>
    rcases readLine_cases st 0 hfuel with ⟨bye, htyped, h⟩ | ⟨line, rest, fuel', hzero, -⟩
    · rw [htyped]
      exact h w s
    · cases hzero
  | succ fuel ih =>
    rcases readLine_cases st (fuel + 1) hfuel with
      ⟨bye, htyped, h⟩ | ⟨line, rest, fuel', hfuel', hrest, hread, hexit, htyped⟩
    · rw [htyped]
      exact h w s
    · obtain rfl := Nat.succ.inj hfuel'
      rw [htyped]
      refine Follows.cons hauth hread hexit fun st₁ s₁ hstdin hauth₁ => ?_
      rw [← hstdin] at hrest ⊢
      exact ih st₁ hrest hauth₁

end Sessions

/-- A session of `interactive_shell`, on every device with directories, from every state in which
    the key was sent, whatever earlier commands and sessions left in it, for every layer and every
    `stdin`, over a network that may delay, reorder and lose datagrams. It comes to its end exactly
    if the server's check returns on each line that is typed, and then it has shown the directory
    in which the server was, and for each line what it prints in the directory that the lines
    before it have led to, and the directory behind it. -/
theorem shell_transcript (layer : UInt8) (w : World) (s : Server) (hauth : s.udbAuthOk = true)
    (stdin : Bytes) :
    ((∃ st' s', Ends Shell.client (w.serve layer) (Shell.init (layerProtSize layer) stdin) s
        st' s') ↔ ∀ line ∈ (typed layer stdin).1, Answered (cstr line)) ∧
    ∀ st' s', Ends Shell.client (w.serve layer) (Shell.init (layerProtSize layer) stdin) s st' s' →
      st'.pull.out = (w.dir s).val ++ ascii "\n>" ++
          w.transcript (w.dir s) (typed layer stdin).1 ++ (typed layer stdin).2 ∧
        w.dir s' = w.dirBehind (w.dir s) (typed layer stdin).1 := by
  obtain ⟨pwd, hpwd, hbytes⟩ := pwdPacket_eq (layerProtSize_bounds layer).1
  have hstart : Shell.init (layerProtSize layer) stdin = started .cwd pwd [] stdin := by
    simp only [Shell.init, hpwd, Shell.enter, started]
  -- The session starts with the line of the program itself, and then comes the first prompt.
  obtain ⟨pull, s₁, hx, hout, hauth₁, hdir⟩ := pwd_exchanges (w := w) hauth .cwd [] stdin hbytes
  have hiff : ∀ st' s',
      Ends Shell.client (w.serve layer) (Shell.init (layerProtSize layer) stdin) s st' s' ↔
        Completes Shell.client (w.serve layer)
          (Shell.readLine { started .cwd pwd [] stdin with pull := pull }) s₁ st' s' := by
    intro st' s'
    rw [ends_iff, hstart]
    exact completes_iff_of_exchanges hx
  have h := readLine_follows w { started .cwd pwd [] stdin with pull := pull } stdin.length
    (Nat.le_refl _) hauth₁
  constructor
  · simp only [hiff]
    exact h.ends
  · intro st' s' hrun
    obtain ⟨hout', hdir'⟩ := h.shows st' s' ((hiff st' s').mp hrun)
    rw [hout', hdir', hdir]
    refine ⟨?_, rfl⟩
    show pull.out ++ _ ++ _ ++ _ = _
    rw [hout]
    simp [shown, typed, started, ascii]

/-- A device with two directories, on which every program but `pwd` prints the same. -/
def twoDirs : World where
  root := ⟨ascii "/", by decide⟩
  chdir _ path := if path = ascii "/tmp" then some ⟨ascii "/tmp", by decide⟩ else none
  run dir e := if e = popenExec pwdLine true then ⟨dir.val ++ ascii "\n", by
      obtain ⟨-, hnul, -⟩ := dir.property
      rw [List.mem_append, not_or]
      exact ⟨hnul, by decide⟩⟩
    else ⟨ascii "x\n", by decide⟩
  pwd dir := by rw [if_pos rfl]
  base := willing [] []

/-- `cd /tmp`, `ls` and `exit` -/
theorem shell_transcript_cd :
    ∃ st' s', Ends Shell.client (twoDirs.serve udbLayerNet)
        (Shell.init (layerProtSize udbLayerNet) (ascii "cd /tmp\nls\nexit\n"))
        (authed fun _ => none) st' s' ∧
      st'.pull.out = ascii "/\n>\n/tmp>x\n/tmp>exit\n" := by
  obtain ⟨hends, hshows⟩ := shell_transcript udbLayerNet twoDirs (authed fun _ => none) rfl
    (ascii "cd /tmp\nls\nexit\n")
  have htyped : typed udbLayerNet (ascii "cd /tmp\nls\nexit\n") =
      ([ascii "cd /tmp\n", ascii "ls\n"], ascii "exit\n") := by decide +kernel
  rw [htyped] at hends hshows
  obtain ⟨st', s', hrun⟩ := hends.mpr (by decide +kernel)
  refine ⟨st', s', hrun, (hshows st' s' hrun).1.trans ?_⟩
  decide +kernel

/-! ## Without the key -/

section Locked

variable {w : World} {loop : ShellLoop} {packet : Buf (layerProtSize layer)} {out stdin : Bytes}

/-- The request of a line, and the first pullout behind it, are not answered. -/
private theorem locked_exchanges (w : World) (loop : ShellLoop) (packet : Buf (layerProtSize layer))
    (out stdin : Bytes) (hno : s.udbAuthOk = false)
    (hpacket : packet.bytes[3]? = some UdbChanId.runCmd.toByte) :
    ∃ st', Relation.ReflTransGen (Exchange Shell.client (w.serve layer))
        (started loop packet out stdin, s) (st', s.setProtSize layer) ∧
      if loop = .prompt then st'.phase = .crashed ∧ st'.pull.out = out
      else ∃ pull, pull.out = out ∧
        st' = Shell.behind loop { started loop packet out stdin with pull := pull } := by
  let p := shellCmd loop packet
  let turn := { started loop packet out stdin with pull := closedTurn layer out }
  -- The command and the pullout behind it are answered with nothing.
  have hfirst : w.serve layer s packet.bytes = some (s.setProtSize layer, []) :=
    serveLayer_eq_some.mpr (request_of_closed hno (by decide) hpacket)
  have hinit : turn = Shell.client.recv (started loop packet out stdin) (some []) := by
    show turn = Shell.recv (started loop packet out stdin) (some [])
    simp only [Shell.recv, Shell.settle, started, recv_init_closed]
    simp only [PullCmd.init, closedTurn, reduceCtorEq, false_and, and_false, if_false, turn,
      started]
  have hsecond : w.serve layer (s.setProtSize layer)
      (padTo (layerProtSize layer) (channelHeader .runCmdPullout ++ le32 0)) =
        some (s.setProtSize layer, []) :=
    serveLayer_eq_some.mpr (request_of_closed hno
      (show UdbChanId.runCmdPullout ≠ .auth by decide) (getElem?_header _))
  -- So the loop finds no text: the prompt looks at `read_buf[-1]`, the others end.
  have hlast : Shell.client.recv turn (some []) =
      if loop = .prompt then { turn with phase := .crashed }
      else Shell.behind loop { turn with
        pull := ⟨.finished, 0, Buf.zero (layerProtSize layer + 1),
          out ++ p.sink (Buf.zero (layerProtSize layer + 1)).bytes 0⟩ } := by
    show Shell.recv turn (some []) = _
    simp only [Shell.recv, Shell.settle, started, recv_closedTurn, turn, p]
    simp only [closedTurn, Buf.bytes_zero, cstr_replicate_zero, and_true, if_true]
  -- Two exchanges, and the last turn of the loop.
  have hx₁ : Exchange Shell.client (w.serve layer) (started loop packet out stdin, s)
      (turn, s.setProtSize layer) := ⟨_, [], rfl, hfirst, hinit⟩
  have hx₂ : Exchange Shell.client (w.serve layer) (turn, s.setProtSize layer)
      (Shell.client.recv turn (some []), s.setProtSize layer) :=
    ⟨_, [], next_closedTurn p out, hsecond, rfl⟩
  refine ⟨_, .head hx₁ (.single hx₂), ?_⟩
  rw [hlast]
  have hempty : ∀ n, cstr (List.replicate n (0 : UInt8)) = [] := cstr_replicate_zero
  cases loop with
  | prompt => exact ⟨rfl, rfl⟩
  | cwd | line =>
    exact ⟨_, by
      show out ++ cstr (List.replicate _ 0) = out
      rw [hempty, List.append_nil], rfl⟩

/-- A first line: the loop behind it reads in front of its buffer. -/
private theorem locked_line {st : ShellState (layerProtSize layer)} {rest : Bytes}
    (hno : s.udbAuthOk = false)
    (hread : fgets (layerProtSize layer - 4) st.stdin = some (line, rest))
    (hexit : startsExit line = false) :
    ∃ st', Relation.ReflTransGen (Exchange Shell.client (w.serve layer)) (Shell.readLine st, s)
        (st', s.setProtSize layer) ∧
      st'.phase = .crashed ∧ st'.pull.out = st.pull.out ++ ascii ">" := by
  have hp := layerProtSize_bounds layer
  obtain ⟨hlen, -⟩ := fgets_eq_some (by omega) hread
  obtain ⟨packet, hpacket, hbytes⟩ :=
    linePacket_eq (show line.length + 5 ≤ layerProtSize layer by omega)
  obtain ⟨pwd, hpwd, hpwdBytes⟩ := pwdPacket_eq hp.1
  have hstart : Shell.readLine st = started .line packet (st.pull.out ++ ascii ">") rest := by
    simp only [Shell.readLine, hread, hexit, hpacket, Shell.enter, started]
    rfl
  obtain ⟨st₁, hx₁, hst₁⟩ := locked_exchanges w .line packet (st.pull.out ++ ascii ">") rest hno
    (by rw [hbytes]; exact getElem?_header _)
  rw [if_neg (by simp)] at hst₁
  obtain ⟨pull, hpull, rfl⟩ := hst₁
  -- The line itself is over without a fault, and the loop for the prompt comes next.
  have hprompt : Shell.behind .line
      { started .line packet (st.pull.out ++ ascii ">") rest with pull := pull } =
        started .prompt pwd (st.pull.out ++ ascii ">") rest := by
    simp only [Shell.behind, hpwd, Shell.enter, started, hpull]
  have hno₁ : (s.setProtSize layer).udbAuthOk = false := hno
  obtain ⟨st₂, hx₂, hst₂⟩ := locked_exchanges w .prompt pwd (st.pull.out ++ ascii ">") rest hno₁
    (by rw [hpwdBytes]; exact getElem?_header _)
  rw [hprompt] at hx₁
  rw [hstart]
  exact ⟨st₂, hx₁.trans hx₂, hst₂⟩

end Locked

/-- A session without the key, on every device, from every state and for every layer and `stdin`.
    It comes to its end exactly if no line is typed in front of `exit` or the end of `stdin`, and
    has shown no directory then. A first line makes the shell read in front of its buffer. -/
theorem shell_locked (layer : UInt8) (w : World) (s : Server) (hno : s.udbAuthOk = false)
    (stdin : Bytes) :
    ((∃ st' s', Ends Shell.client (w.serve layer) (Shell.init (layerProtSize layer) stdin) s
        st' s') ↔ (typed layer stdin).1 = []) ∧
    (∀ st' s', Ends Shell.client (w.serve layer) (Shell.init (layerProtSize layer) stdin) s st' s' →
      st'.pull.out = ascii ">" ++ (typed layer stdin).2) ∧
    ((typed layer stdin).1 ≠ [] → ∃ st' s', Relation.ReflTransGen
        (Exchange Shell.client (w.serve layer)) (Shell.init (layerProtSize layer) stdin, s)
        (st', s') ∧ st'.phase = .crashed ∧ st'.pull.out = ascii ">") := by
  obtain ⟨pwd, hpwd, hbytes⟩ := pwdPacket_eq (layerProtSize_bounds layer).1
  have hstart : Shell.init (layerProtSize layer) stdin = started .cwd pwd [] stdin := by
    simp only [Shell.init, hpwd, Shell.enter, started]
  obtain ⟨st, hx, hst⟩ := locked_exchanges w .cwd pwd [] stdin hno
    (by rw [hbytes]; exact getElem?_header _)
  rw [if_neg (by simp)] at hst
  obtain ⟨pull, hpull, rfl⟩ := hst
  let st : ShellState (layerProtSize layer) := { started .cwd pwd [] stdin with pull := pull }
  have hiff : ∀ st' s',
      Ends Shell.client (w.serve layer) (Shell.init (layerProtSize layer) stdin) s st' s' ↔
        Completes Shell.client (w.serve layer) (Shell.readLine st) (s.setProtSize layer) st' s' := by
    intro st' s'
    rw [ends_iff, hstart]
    exact completes_iff_of_exchanges hx
  simp only [hiff]
  rw [hstart]
  rcases readLine_cases st stdin.length (Nat.le_refl _) with
    ⟨bye, htyped, h⟩ | ⟨line, rest, fuel', -, -, hread, hexit, htyped⟩
  · -- Nothing is typed.
    have hquiet := h w (s.setProtSize layer)
    have hnil : typed layer stdin = ([], bye) := htyped
    rw [hnil]
    refine ⟨iff_of_true (hquiet.ends.mpr (by simp)) rfl, fun st' s' hrun => ?_,
      fun hne => absurd rfl hne⟩
    rw [(hquiet.shows st' s' hrun).1]
    show pull.out ++ _ ++ _ ++ _ = _
    rw [hpull]
    simp [World.transcript]
  · -- The first line is not survived.
    have hcons : (typed layer stdin).1 ≠ [] := by
      rw [typed, show typedLines _ stdin.length stdin = _ from htyped]
      simp
    obtain ⟨st', hx', hcrash, hout⟩ :=
      locked_line (w := w) (s := s.setProtSize layer) hno hread hexit
    have hno' : ∀ st₁ s₁, ¬ Completes Shell.client (w.serve layer) (Shell.readLine st)
        (s.setProtSize layer) st₁ s₁ := by
      intro st₁ s₁
      rw [completes_iff_of_exchanges hx']
      apply not_completes_of_crashed
      show Shell.next st' = _
      rw [Shell.next, hcrash]
    refine ⟨iff_of_false (fun h => ?_) hcons, fun st₁ s₁ hrun => absurd hrun (hno' st₁ s₁), fun _ =>
      ⟨st', _, hx.trans hx', hcrash, ?_⟩⟩
    · obtain ⟨st₁, s₁, hrun⟩ := h
      exact hno' st₁ s₁ hrun
    · rw [hout]
      show pull.out ++ _ = _
      rw [hpull]
      rfl

/-- A line for a server without the key. -/
theorem shell_locked_ls :
    ∃ st' s', Relation.ReflTransGen (Exchange Shell.client (twoDirs.serve udbLayerDef))
        (Shell.init (layerProtSize udbLayerDef) (ascii "ls\n"), Server.init [] fun _ => none)
        (st', s') ∧ st'.phase = .crashed ∧ st'.pull.out = ascii ">" :=
  (shell_locked udbLayerDef twoDirs (Server.init [] fun _ => none) rfl (ascii "ls\n")).2.2
    (by decide +kernel)

end Udb.Spec
