import Udb.Native.ClientRun
import Udb.Spec.Args
import Udb.Spec.PullFile
import Udb.Spec.PushFile

/-!
# The client's packet buffers

The packets behind the first have a fixed layout and always fit. The first packet
holds what the user typed: the loop that joins the arguments looks at the offset only
when an argument is already in the packet, the two file commands never look at the
length of the path, and `raw_set` never looks at the number of its arguments. Its last
`dumphex` takes the length of the reply as it is, and that of a failed read is -1.

## Key results

- `cmdPacket_returns_iff`: when the joined arguments stay inside the packet
- `rawSet_returns_iff`: the same for `raw_set` and what it prints
- `stays_inside_iff`: all commands
-/

namespace Udb.Spec

open CMem StopAndWait Udb.Native

variable {protSize : Nat} {argv : List CString}

/-- A copy returns when it fits the buffer. -/
private theorem memcpy_returns_iff {n : Nat} {b : Buf n} {off : Nat} {data : Bytes} :
    (∃ b', b.memcpy off data = .ok b') ↔ off + data.length ≤ n := by
  constructor
  · intro h
    obtain ⟨b', h⟩ := h
    exact (Buf.memcpy_eq_ok_iff.mp h).1
  · intro h
    exact ⟨_, dif_pos h⟩

/-! ## Joined arguments -/

/-- The length of these arguments, each with a blank behind it. -/
def argsLen (args : List CString) : Nat := (args.map fun arg => arg.bytes.length + 1).sum

@[simp] theorem argsLen_nil : argsLen [] = 0 := rfl

@[simp] theorem argsLen_cons (arg : CString) (args : List CString) :
    argsLen (arg :: args) = arg.bytes.length + 1 + argsLen args := by
  rw [argsLen, argsLen, List.map_cons, List.sum_cons]

/-- From `offset` on there is room for the arguments up to the first that ends at 60 or behind. -/
def RoomFrom (protSize offset : Nat) (argv : List CString) : Prop :=
  ∀ k ≤ argv.length, (∀ j < k, offset + argsLen (argv.take j) < 60) →
    offset + argsLen (argv.take k) ≤ protSize

/-- The packet has room for the arguments that the loop stores behind its header. -/
def PacksInside (protSize : Nat) (argv : List CString) : Prop := RoomFrom protSize 4 argv

/-- The loop stores its arguments exactly when there is room for all that it packs. -/
private theorem packArgs_returns_iff {b : Buf protSize} {offset : Nat} (hoff : offset ≤ protSize) :
    (∃ b', packArgs b offset argv = .ok b') ↔ offset + (packed offset argv).length ≤ protSize := by
  induction argv generalizing b offset with
  | nil => exact iff_of_true ⟨b, rfl⟩ hoff
  | cons arg argv ih =>
    have hblank : (ascii " ").length = 1 := rfl
    rw [packArgs, packed, List.length_append, length_piece]
    by_cases hfit : offset + (arg.bytes.length + 1) ≤ protSize
    · have harg : offset + arg.bytes.length ≤ protSize := by omega
      obtain ⟨b₁, hb₁⟩ : ∃ b₁, b.memcpy offset arg.bytes = .ok b₁ := memcpy_returns_iff.mpr harg
      obtain ⟨b₂, hb₂⟩ : ∃ b₂, b₁.memcpy (offset + arg.bytes.length) (ascii " ") = .ok b₂ :=
        memcpy_returns_iff.mpr (by omega)
      rw [hb₁, ok_bind, hb₂, ok_bind]
      dsimp only
      split
      · -- The offset has reached 60, and nothing more is stored.
        exact iff_of_true ⟨_, rfl⟩ (by rw [List.length_nil]; omega)
      · rw [ih hfit]
        omega
    · -- The argument or its blank is outside.
      refine iff_of_false (fun h => hfit ?_) (by omega)
      obtain ⟨b', h⟩ := h
      obtain ⟨b₁, hb₁, h⟩ := bind_eq_ok.mp h
      obtain ⟨b₂, hb₂, -⟩ := bind_eq_ok.mp h
      exact memcpy_returns_iff.mp ⟨b₂, hb₂⟩

/-- The first argument, and the others if it does not end the loop. -/
private theorem roomFrom_cons {offset : Nat} {arg : CString} (hoff : offset < 60) :
    RoomFrom protSize offset (arg :: argv) ↔
      offset + (arg.bytes.length + 1) ≤ protSize ∧
        (offset + (arg.bytes.length + 1) < 60 →
          RoomFrom protSize (offset + (arg.bytes.length + 1)) argv) := by
  constructor
  · intro h
    constructor
    · -- The first argument alone, and then one more than of the others.
      have hone := h 1 (by simp) fun j hj => by
        obtain rfl : j = 0 := by omega
        simpa using hoff
      simpa using hone
    · intro hgo k hk hbefore
      have hk' := h (k + 1) (by simpa using hk) fun j hj => by
        cases j with
        | zero => simpa using hoff
        | succ j =>
          have hj' := hbefore j (by omega)
          rw [List.take_succ_cons, argsLen_cons]
          omega
      rw [List.take_succ_cons, argsLen_cons] at hk'
      omega
  · rintro ⟨hfirst, hrest⟩ k hk hbefore
    cases k with
    | zero =>
      rw [List.take_zero, argsLen_nil]
      omega
    | succ k =>
      rw [List.take_succ_cons, argsLen_cons]
      cases k with
      | zero =>
        rw [List.take_zero, argsLen_nil]
        omega
      | succ k =>
        -- The loop has not stopped behind the first argument.
        have hone := hbefore 1 (by omega)
        rw [List.take_succ_cons, List.take_zero, argsLen_cons, argsLen_nil] at hone
        have hroom := hrest (by omega) (k + 1) (by simpa using hk) fun j hj => by
          have hj' := hbefore (j + 1) (by omega)
          rw [List.take_succ_cons, argsLen_cons] at hj'
          omega
        omega

/-- What is packed fits exactly when there is room at each offset that is written to. -/
private theorem packed_le_iff {offset : Nat} (hoff : offset < 60) (hp : 60 ≤ protSize) :
    offset + (packed offset argv).length ≤ protSize ↔ RoomFrom protSize offset argv := by
  -- Both sides take one argument off, and stop at the same one.
  induction argv generalizing offset with
  | nil =>
    refine iff_of_true (by rw [packed, List.length_nil]; omega) fun k _ _ => ?_
    rw [List.take_nil, argsLen_nil]
    omega
  | cons arg argv ih =>
    rw [roomFrom_cons hoff, packed, List.length_append, length_piece]
    by_cases hstop : offset + (arg.bytes.length + 1) ≥ 60
    · rw [if_pos hstop, List.length_nil]
      constructor
      · intro h
        exact ⟨h, fun hgo => by omega⟩
      · intro h
        exact h.1
    · rw [if_neg hstop]
      have ih' := @ih (offset + (arg.bytes.length + 1)) (by omega)
      constructor
      · intro h
        exact ⟨by omega, fun _ => ih'.mp (by omega)⟩
      · intro h
        have hrest := ih'.mpr (h.2 (by omega))
        omega

/-- The packet of a command line is built exactly when its arguments stay inside. -/
theorem cmdPacket_returns_iff (chan : UdbChanId) (hp : 60 ≤ protSize) :
    (∃ packet, cmdPacket protSize chan argv = .ok packet) ↔ PacksInside protSize argv := by
  rw [cmdPacket, setUdbChannelHeader_zero (by omega), ok_bind, packArgs_returns_iff (by omega),
    packed_le_iff (by omega) hp, PacksInside]

/-! ## Paths -/

/-- The first packet of a pull is built when the path fits behind its header. -/
private theorem pullFilePacket_returns_iff (hp : 4 ≤ protSize) (devPath : CString) :
    (∃ packet, pullFilePacket protSize devPath = .ok packet) ↔
      4 + devPath.bytes.length ≤ protSize := by
  rw [pullFilePacket, setUdbChannelHeader_zero hp, ok_bind, memcpy_returns_iff]

/-- That of a push, when the path fits behind the size. -/
private theorem pushFilePacket_returns_iff (hp : 8 ≤ protSize) (fileSize : UInt32)
    (devPath : CString) :
    (∃ packet, pushFilePacket protSize fileSize devPath = .ok packet) ↔
      8 + devPath.bytes.length ≤ protSize := by
  have hfit : (channelHeader .pushFileInit ++ le32 fileSize).length ≤ protSize := by
    rw [List.length_append, length_channelHeader, length_le32]
    exact hp
  have h4 : (channelHeader .pushFileInit).length ≤ protSize := by
    rw [length_channelHeader]
    omega
  -- Header and size fill the first eight bytes, so only the path can be too long.
  obtain ⟨b, hb⟩ : ∃ b, (Buf.fill protSize (channelHeader .pushFileInit) h4).memcpy 4
      (le32 fileSize) = .ok b := ⟨_, Buf.memcpy_fill (length_channelHeader _) h4 hfit⟩
  rw [pushFilePacket, setUdbChannelHeader_zero (by omega), ok_bind, hb, ok_bind,
    memcpy_returns_iff]

/-! ## Packets behind the first -/

/-- The packets of a pull loop fit every layer. -/
private theorem PullCmd.next_ne_crashed (p : PullCmd protSize) (hp : 8 ≤ protSize)
    (st : PullState protSize) : p.client.next st ≠ .crashed := by
  show p.next st ≠ .crashed
  unfold PullCmd.next
  cases st.phase with
  | init => exact fun h => by cases h
  | pullout =>
    dsimp only
    rw [pulloutPacket_eq hp]
    exact fun h => by cases h
  | finished => exact fun h => by cases h

/-- So do those of `exec_cmd_wait`. -/
private theorem WaitCmd.next_ne_crashed (p : WaitCmd protSize) (hp : 4 ≤ protSize)
    (st : WaitState protSize) : p.client.next st ≠ .crashed := by
  show p.next st ≠ .crashed
  unfold WaitCmd.next
  cases st.phase with
  | init => exact fun h => by cases h
  | poll =>
    dsimp only
    rw [waitPulloutPacket, setUdbChannelHeader_zero hp]
    exact fun h => by cases h
  | finished => exact fun h => by cases h

/-- So do the chunks of a push, whose size is taken from that of the layer. -/
private theorem PushCmd.next_ne_crashed {layer : UInt8} (p : PushCmd (layerProtSize layer))
    (st : PushState) : p.client.next st ≠ .crashed := by
  have hp := layerProtSize_bounds layer
  show p.next st ≠ .crashed
  unfold PushCmd.next
  cases st.phase with
  | init => exact fun h => by cases h
  | proc =>
    -- No more is read than has room behind the length field.
    have hfit : (channelHeader .pushFileProc ++
        procLength (layerProtSize layer) (pushChunkSize (layerProtSize layer) st.leftSize) ++
          pushData (layerProtSize layer) st).length ≤ layerProtSize layer := by
      have hoff := procOffset_bounds (layerProtSize layer)
      have hsize := toNat_pushChunkSize layer st.leftSize
      rw [List.length_append, length_procLength, pushData, List.length_take,
        pushReadSize_pushChunkSize]
      omega
    dsimp only
    rw [pushProcPacket_eq hfit]
    exact fun h => by cases h
  | fini =>
    dsimp only
    rw [pushFiniPacket, setUdbChannelHeader_zero (by omega)]
    exact fun h => by cases h
  | finished => exact fun h => by cases h

/-- A client whose turns never crash runs to its end, whatever the driver does. -/
private theorem runClient_of_forall {σ : Type} {cl : Client σ Bytes Bytes}
    (h : ∀ c, cl.next c ≠ .crashed) (c : σ) (outcomes : List (Option Bytes)) :
    runClient cl c outcomes = .ok () := by
  rw [runClient, if_pos (survives_of_forall h c outcomes)]
  rfl

/-! ## Raw packets -/

/-- The loop stores a byte for each word. -/
private theorem rawSetLoop_returns_iff {b : Buf protSize} {i : Nat} (hi : i ≤ protSize) :
    (∃ b', rawSetLoop b i argv = .ok b') ↔ i + argv.length ≤ protSize := by
  induction argv generalizing b i with
  | nil => exact iff_of_true ⟨b, rfl⟩ hi
  | cons arg argv ih =>
    have hbyte := @memcpy_returns_iff _ b i [(strtoul arg.bytes 16).toUInt8]
    rw [rawSetLoop, List.length_cons]
    by_cases hfit : i + 1 ≤ protSize
    · obtain ⟨b₁, hb₁⟩ := hbyte.mpr hfit
      rw [hb₁, ok_bind, ih hfit]
      omega
    · -- This byte is outside, and the loop does not look.
      refine iff_of_false (fun h => hfit ?_) (by omega)
      obtain ⟨b', h⟩ := h
      obtain ⟨b₁, hb₁, -⟩ := bind_eq_ok.mp h
      exact hbyte.mp ⟨b₁, hb₁⟩

/-- The length of a reply that is there is its own, and that of a failed read is past every
    buffer. -/
private theorem bytesReturned_le_iff (driver : Driver) (hp : protSize ≤ 1470) (reply : Option Bytes)
    :
    (bytesReturned driver protSize reply).toUInt32.toNat ≤ protSize + 1 ↔
      driver = .v4l2 ∨ reply ≠ none := by
  have hsize (n : Nat) (hn : n ≤ protSize) : (UInt64.ofNat n).toUInt32.toNat = n := by
    rw [UInt64.toNat_toUInt32, UInt64.toNat_ofNat_of_lt' (by show n < 2 ^ 64; omega)]
    exact Nat.mod_eq_of_lt (by omega)
  have hfailed : ¬ (UInt64.ofNat (2 ^ 64 - 1)).toUInt32.toNat ≤ protSize + 1 := by
    have hmax : (UInt64.ofNat (2 ^ 64 - 1)).toUInt32.toNat = 2 ^ 32 - 1 := by decide
    omega
  cases reply with
  | none =>
    -- The length is the result -1, as an `unsigned long`, except where the driver fills it in.
    cases driver with
    | v4l2 =>
      refine iff_of_true ?_ (.inl rfl)
      show (UInt64.ofNat protSize).toUInt32.toNat ≤ _
      rw [hsize protSize le_rfl]
      omega
    | usbdevfs => exact iff_of_false hfailed (by simp)
    | udp => exact iff_of_false hfailed (by simp)
  | some data =>
    refine iff_of_true ?_ (.inr (Option.some_ne_none data))
    have hdata : (UInt64.ofNat (data.take protSize).length).toUInt32.toNat ≤ protSize := by
      rw [hsize _ (List.length_take_le _ _)]
      exact List.length_take_le _ _
    cases driver with
    | v4l2 =>
      show (UInt64.ofNat protSize).toUInt32.toNat ≤ _
      rw [hsize protSize le_rfl]
      omega
    | usbdevfs => exact Nat.le_succ_of_le hdata
    | udp => exact Nat.le_succ_of_le hdata

/-- A dump reads `size` bytes. -/
private theorem dumphex_returns_iff {data : Bytes} {size : UInt32} :
    (∃ printed, dumphex data size = .ok printed) ↔ size.toNat ≤ data.length := by
  constructor
  · rintro ⟨printed, h⟩
    have hle := (load_eq_ok_iff.mp h).1
    omega
  · intro h
    exact ⟨_, load_eq_ok (by omega)⟩

/-- `raw_set` returns exactly when there is room for its arguments and its read does not fail,
    unless the driver does not tell. -/
theorem rawSet_returns_iff (driver : Driver) (hp : protSize ≤ 1470)
    (outcomes : List (Option Bytes)) :
    (∃ printed, rawSet driver protSize argv outcomes = .ok printed) ↔
      argv.length ≤ protSize ∧ (driver = .v4l2 ∨ outcomes.head? ≠ some none) := by
  have hloop := @rawSetLoop_returns_iff protSize argv (Buf.zero protSize) 0 (Nat.zero_le _)
  rw [Nat.zero_add] at hloop
  rw [← hloop, rawSet]
  cases hb : rawSetLoop (Buf.zero protSize) 0 argv with
  | error e =>
    -- Nothing is sent when the arguments do not fit.
    refine iff_of_false (fun h => ?_) fun h => ?_
    · obtain ⟨printed, h⟩ := h
      cases h
    · obtain ⟨⟨b', h⟩, -⟩ := h
      cases h
  | ok b =>
    rw [ok_bind]
    cases outcomes with
    | nil => exact iff_of_true ⟨_, rfl⟩ ⟨⟨b, rfl⟩, .inr (by simp)⟩
    | cons reply outcomes =>
      -- What was sent is printed, and then the reply, if it is not said to be too long.
      obtain ⟨sent, hsent⟩ :
          ∃ sent, dumphex b.bytes (UInt64.ofNat protSize).toUInt32 = .ok sent := by
        rw [dumphex_returns_iff, b.length_bytes, UInt64.toNat_toUInt32]
        exact (Nat.mod_le _ _).trans (Nat.mod_le _ _)
      have hgot := @dumphex_returns_iff (udbCtrlRead (Buf.zero (protSize + 1)) reply).bytes
        (bytesReturned driver protSize reply).toUInt32
      rw [Buf.length_bytes, bytesReturned_le_iff driver hp] at hgot
      rw [List.head?_cons, ne_eq, Option.some.injEq]
      dsimp only
      rw [hsent, ok_bind]
      constructor
      · rintro ⟨printed, h⟩
        obtain ⟨got, hdump, -⟩ := bind_eq_ok.mp h
        exact ⟨⟨b, rfl⟩, hgot.mp ⟨got, hdump⟩⟩
      · rintro ⟨-, h⟩
        obtain ⟨got, hdump⟩ := hgot.mpr h
        rw [hdump]
        exact ⟨_, rfl⟩

/-! ## All commands -/

/-- No store is outside of `write_buf`, and nothing outside of a buffer is printed by `dumphex`. -/
def StaysInside (cmd : ClientCmd) (driver : Driver) (protSize : Nat) (argv : List CString)
    (file : Option Bytes) (outcomes : List (Option Bytes)) : Prop :=
  ∃ r, cmd.run driver protSize argv file outcomes = .ok r

/-- There is room for what the user typed, and the length of the one reply that is printed is
    that of a reply. -/
def HasRoom (cmd : ClientCmd) (driver : Driver) (protSize : Nat) (argv : List CString)
    (file : Option Bytes) (outcomes : List (Option Bytes)) : Prop :=
  match cmd with
  | .execCmd | .execCmdWait | .mshExecCmd => PacksInside protSize argv
  | .pullFile =>
    ∀ devPath, argv[1]? = some devPath → file.isSome → 4 + devPath.bytes.length ≤ protSize
  | .pushFile =>
    ∀ devPath, argv[1]? = some devPath → file.isSome → 8 + devPath.bytes.length ≤ protSize
  | .rawSet => argv.length ≤ protSize ∧ (driver = .v4l2 ∨ outcomes.head? ≠ some none)

/-- A command whose client never crashes stays inside when its first packet does. -/
private theorem bind_returns_iff {α : Type} {packet : Except Fault α} {f : α → Except Fault Unit}
    (hf : ∀ p, f p = .ok ()) : (∃ r, (packet >>= f) = .ok r) ↔ ∃ p, packet = .ok p := by
  constructor
  · rintro ⟨r, h⟩
    obtain ⟨p, hp, -⟩ := bind_eq_ok.mp h
    exact ⟨p, hp⟩
  · rintro ⟨p, hp⟩
    exact ⟨(), by rw [hp, ok_bind, hf]⟩

section Commands

variable {driver : Driver} {file : Option Bytes} {outcomes : List (Option Bytes)}

/-- For `pull_file` the path is all that matters. -/
private theorem staysInside_pullFile (hp : 8 ≤ protSize) :
    StaysInside .pullFile driver protSize argv file outcomes ↔
      HasRoom .pullFile driver protSize argv file outcomes := by
  unfold StaysInside HasRoom ClientCmd.run
  -- Nothing is built without both paths, and without a local file.
  match argv, file with
  | [], _ => exact iff_of_true ⟨(), rfl⟩ (by simp)
  | [_], _ => exact iff_of_true ⟨(), rfl⟩ (by simp)
  | _ :: _ :: _, none => exact iff_of_true ⟨(), rfl⟩ (by simp)
  | _ :: devPath :: _, some _ =>
    dsimp only
    rw [bind_returns_iff fun packet =>
      runClient_of_forall (PullCmd.next_ne_crashed (Udb.Native.pullFile packet) hp) _ _,
      pullFilePacket_returns_iff (by omega)]
    simp

/-- For `push_file` too, whatever the file is. -/
private theorem staysInside_pushFile {layer : UInt8} :
    StaysInside .pushFile driver (layerProtSize layer) argv file outcomes ↔
      HasRoom .pushFile driver (layerProtSize layer) argv file outcomes := by
  have hp := layerProtSize_bounds layer
  unfold StaysInside HasRoom ClientCmd.run
  match argv, file with
  | [], _ => exact iff_of_true ⟨(), rfl⟩ (by simp)
  | [_], _ => exact iff_of_true ⟨(), rfl⟩ (by simp)
  | _ :: _ :: _, none => exact iff_of_true ⟨(), rfl⟩ (by simp)
  | _ :: devPath :: _, some _ =>
    dsimp only
    -- Behind the first packet every packet is cut to the protocol size.
    rw [bind_returns_iff fun packet =>
      runClient_of_forall (PushCmd.next_ne_crashed (PushCmd.mk packet)) _ _,
      pushFilePacket_returns_iff (by omega)]
    simp

end Commands

/-- A command stays inside its packet buffers exactly when there is room for its arguments, and,
    if it is `raw_set`, its read does not fail or the driver does not tell: for every command,
    every argument vector, both packet sizes, every driver and local file and all outcomes of
    the transport. -/
theorem stays_inside_iff (cmd : ClientCmd) (driver : Driver) (protSize : Nat)
    (hp : protSize = 64 ∨ protSize = 1470) (argv : List CString) (file : Option Bytes)
    (outcomes : List (Option Bytes)) :
    StaysInside cmd driver protSize argv file outcomes ↔
      HasRoom cmd driver protSize argv file outcomes := by
  have h60 : 60 ≤ protSize := by omega
  have h8 : 8 ≤ protSize := by omega
  cases cmd with
  | execCmd =>
    exact (bind_returns_iff fun packet => runClient_of_forall
      (PullCmd.next_ne_crashed (execCmd packet) h8) _ _).trans (cmdPacket_returns_iff _ h60)
  | execCmdWait =>
    exact (bind_returns_iff fun packet => runClient_of_forall
      (WaitCmd.next_ne_crashed (WaitCmd.mk packet) (by omega)) _ _).trans
        (cmdPacket_returns_iff _ h60)
  | mshExecCmd =>
    exact (bind_returns_iff fun packet => runClient_of_forall
      (PullCmd.next_ne_crashed (mshExecCmd packet) h8) _ _).trans (cmdPacket_returns_iff _ h60)
  | pullFile => exact staysInside_pullFile h8
  | pushFile =>
    -- Both sizes are those of a layer.
    rcases hp with rfl | rfl
    · exact @staysInside_pushFile argv driver file outcomes udbLayerDef
    · exact @staysInside_pushFile argv driver file outcomes udbLayerNet
  | rawSet =>
    refine Iff.trans ?_ (rawSet_returns_iff driver (by omega) outcomes)
    constructor
    · rintro ⟨r, h⟩
      obtain ⟨printed, hprinted, -⟩ := bind_eq_ok.mp h
      exact ⟨printed, hprinted⟩
    · rintro ⟨printed, h⟩
      exact ⟨(), by rw [ClientCmd.run, h]; rfl⟩

/-- One byte is sent and one comes back. -/
theorem stays_inside_iff_raw :
    StaysInside .rawSet .usbdevfs 64 [⟨ascii "0x11", by decide⟩] none [some [7]] :=
  (stays_inside_iff .rawSet .usbdevfs 64 (.inl rfl) _ _ _).mpr ⟨by decide, .inr (by decide)⟩

/-- A word of `n` letters. -/
def longWord (n : Nat) : CString := ⟨List.replicate n 97, by simp [List.mem_replicate]⟩

/-- Sixty letters and their blank are one byte too many for a small packet. So are 57 letters of a
    path behind the size of a file, and 65 raw bytes. The length of a failed read is past every
    buffer. -/
theorem not_stays_inside :
    ¬ (∀ (cmd : ClientCmd) (driver : Driver) (protSize : Nat) (argv : List CString)
      (file : Option Bytes) (outcomes : List (Option Bytes)),
        protSize = 64 ∨ protSize = 1470 → StaysInside cmd driver protSize argv file outcomes) ∧
    ClientCmd.execCmd.run .usbdevfs 64 [longWord 60] none [] = .error .outOfBounds ∧
    ClientCmd.pushFile.run .usbdevfs 64 [longWord 1, longWord 57] (some []) [] =
      .error .outOfBounds ∧
    ClientCmd.rawSet.run .usbdevfs 64 (List.replicate 65 (longWord 1)) none [] =
      .error .outOfBounds ∧
    ClientCmd.rawSet.run .udp 1470 [longWord 1] none [none] = .error .outOfBounds := by
  have hexec : ClientCmd.execCmd.run .usbdevfs 64 [longWord 60] none [] = .error .outOfBounds := by
    decide +kernel
  refine ⟨fun h => ?_, hexec, by decide +kernel, by decide +kernel, by decide +kernel⟩
  obtain ⟨r, hr⟩ := h .execCmd .usbdevfs 64 [longWord 60] none [] (.inl rfl)
  rw [hexec] at hr
  cases hr

end Udb.Spec
