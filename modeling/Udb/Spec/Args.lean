import Udb.Spec.PullLoop

/-!
# Command arguments

`exec_cmd`, `exec_cmd_wait` and `msh_exec_cmd` join their arguments into a packet
with one and the same loop. It stops at offset 60, which leaves room in the small
packets only and is the same for the large ones, so an argument behind that offset
is dropped although it would fit.

## Key results

- `cmdPacket_eq`: the packet that the loop builds
- `packed_eq_joined_iff`: when no argument is dropped
-/

namespace Udb.Spec

open CMem Udb.Native

/-- An argument as the loop stores it. -/
def piece (arg : CString) : Bytes := arg.bytes ++ ascii " "

/-- All arguments, each with a blank behind it. -/
def joined (argv : List CString) : Bytes := argv.flatMap piece

/-- The arguments that the loop stores from `offset` on. -/
def packed (offset : Nat) : List CString → Bytes
  | [] => []
  | arg :: argv =>
    let offset := offset + (piece arg).length
    piece arg ++ if offset ≥ 60 then [] else packed offset argv

@[simp] theorem length_piece (arg : CString) : (piece arg).length = arg.bytes.length + 1 := by
  simp [piece, ascii]

/-- The pieces of the first argument stand in front. -/
private theorem joined_cons (arg : CString) (argv : List CString) :
    joined (arg :: argv) = piece arg ++ joined argv := List.flatMap_cons

/-- What is packed is the start of all arguments with a blank behind each. -/
private theorem packed_isPrefix (offset : Nat) (argv : List CString) :
    packed offset argv <+: joined argv := by
  induction argv generalizing offset with
  | nil => exact List.prefix_rfl
  | cons arg argv ih =>
    rw [packed, joined_cons, List.prefix_append_right_inj]
    split
    · exact List.nil_prefix
    · exact ih _

/-- Arguments are strings, so no 0 is among their bytes. -/
private theorem not_mem_joined (argv : List CString) : (0 : UInt8) ∉ joined argv := by
  induction argv with
  | nil => simp [joined]
  | cons arg argv ih =>
    rw [joined_cons, piece, List.mem_append, List.mem_append]
    rintro ((h | h) | h)
    · exact arg.nulFree h
    · exact absurd h (by decide)
    · exact ih h

/-- No argument is dropped exactly when the loop has not reached offset 60 before the last. -/
theorem packed_eq_joined_iff {argv : List CString} {offset : Nat} (hoff : offset < 60) :
    packed offset argv = joined argv ↔ offset + (joined argv.dropLast).length < 60 := by
  induction argv generalizing offset with
  | nil => simpa [packed, joined] using hoff
  | cons arg argv ih =>
    rw [packed, joined_cons, List.append_right_inj]
    cases argv with
    | nil => simpa [packed, joined] using hoff
    | cons arg' argv =>
      rw [List.dropLast_cons_cons, joined_cons arg (arg' :: argv).dropLast, List.length_append]
      split
      · -- The loop stops here, and at least a blank is missing.
        rename_i hstop
        refine iff_of_false (fun h => ?_) (by omega)
        have := congrArg List.length h
        simp [joined_cons] at this
        omega
      · rename_i hgo
        rw [ih (by omega)]
        omega

/-! ## The packet -/

section Packet

variable {protSize : Nat} {argv : List CString}

/-- Packing behind what stands in the packet appends the packed arguments to it. -/
private theorem packArgs_fill (argv : List CString) {a : Bytes} {offset : Nat}
    (hoff : a.length = offset)
    (ha : a.length ≤ protSize) (h : (a ++ packed offset argv).length ≤ protSize) :
    packArgs (Buf.fill protSize a ha) offset argv = .ok (Buf.fill protSize _ h) := by
  -- Induction on the arguments, with what the packet holds already generalised.
  induction argv generalizing a offset with
  | nil =>
    simp only [packArgs, packed, List.append_nil]
    rfl
  | cons arg argv ih =>
    have hpiece : (a ++ arg.bytes ++ ascii " ").length = offset + (piece arg).length := by
      rw [List.append_assoc, List.length_append, hoff]
      rfl
    have hlen : (a ++ arg.bytes ++ ascii " ").length ≤ protSize := by
      rw [packed, List.length_append, List.length_append] at h
      omega
    have hbytes : (a ++ arg.bytes).length ≤ protSize := by
      rw [List.length_append] at hlen
      omega
    rw [packArgs, Buf.memcpy_fill hoff ha hbytes, ok_bind,
      Buf.memcpy_fill (by rw [List.length_append, hoff]) hbytes hlen, ok_bind]
    have hnext : offset + (arg.bytes.length + 1) = offset + (piece arg).length := by
      rw [length_piece]
    rw [hnext]
    have heq : a ++ packed offset (arg :: argv) = a ++ arg.bytes ++ ascii " " ++
        if offset + (piece arg).length ≥ 60 then [] else
          packed (offset + (piece arg).length) argv := by
      simp only [packed, piece, List.append_assoc]
    simp only [heq] at h ⊢
    split
    · -- The loop stops here, and what is left is not packed.
      simp only [List.append_nil]
      rfl
    · rename_i hgo
      rw [if_neg hgo] at h
      exact ih hpiece hlen h

/-- The packet of a command line, when it fits. -/
theorem cmdPacket_eq (chan : UdbChanId)
    (h : (channelHeader chan ++ packed 4 argv).length ≤ protSize) :
    cmdPacket protSize chan argv = .ok (Buf.fill protSize _ h) := by
  have h4 : 4 ≤ protSize := by simp at h; omega
  rw [cmdPacket, setUdbChannelHeader_zero h4, ok_bind]
  exact packArgs_fill argv (length_channelHeader chan) h4 h

/-- The loop leaves the header alone. -/
private theorem take_packArgs {offset : Nat} {b b' : Buf protSize} (hoff : 4 ≤ offset)
    (h : packArgs b offset argv = .ok b') : b'.bytes.take 4 = b.bytes.take 4 := by
  induction argv generalizing b offset with
  | nil =>
    simp only [packArgs, pure_eq_ok, Except.ok.injEq] at h
    rw [h]
  | cons arg argv ih =>
    obtain ⟨b₁, h₁, h⟩ := bind_eq_ok.mp h
    obtain ⟨b₂, h₂, h⟩ := bind_eq_ok.mp h
    -- The word and the blank behind it are stored at `offset` or later.
    have htake : b₂.bytes.take 4 = b.bytes.take 4 := by
      rw [Buf.take_memcpy h₂ (by omega), Buf.take_memcpy h₁ hoff]
    dsimp only at h
    split at h
    · simp only [pure_eq_ok, Except.ok.injEq] at h
      rw [← h, htake]
    · rw [ih (by omega) h, htake]

/-- Every packet that is built is on its channel. -/
theorem cmdPacket_chan {chan : UdbChanId} {packet : Buf protSize}
    (h : cmdPacket protSize chan argv = .ok packet) : packet.bytes[3]? = some chan.toByte := by
  obtain ⟨b, hb, h⟩ := bind_eq_ok.mp h
  have hhead : packet.bytes.take 4 = channelHeader chan := by
    rw [take_packArgs (Nat.le_refl 4) h, (Buf.memcpy_eq_ok_iff.mp hb).2]
    rfl
  rw [← List.getElem?_take_of_lt (by decide : 3 < 4), hhead]
  rfl

/-- The string that the server reads from the packet. -/
theorem cstrAt_packed (chan : UdbChanId) (h : 4 + (packed 4 argv).length < protSize) :
    cstrAt (padTo protSize (channelHeader chan ++ packed 4 argv)) 4 = .ok (packed 4 argv) := by
  have hnul : (0 : UInt8) ∉ packed 4 argv := fun hmem =>
    not_mem_joined argv ((packed_isPrefix 4 argv).subset hmem)
  exact cstrAt_padTo (a := channelHeader chan) hnul h

/-- The packet is built, and the server reads all arguments from it. -/
def ReadsAll (argv : List CString) (built : Except Fault (Buf protSize)) : Prop :=
  ∃ packet, built = .ok packet ∧
    cstrAt packet.bytes udbCmdPkgContentOffset = .ok (joined argv)

/-- The server reads all arguments when none of them is in front of the test at 60 but the last. -/
private theorem readsAll_iff (chan : UdbChanId) (hfit : 4 + (joined argv).length ≤ protSize - 1) :
    ReadsAll argv (cmdPacket protSize chan argv) ↔ 4 + (joined argv.dropLast).length < 60 := by
  have hle := (packed_isPrefix 4 argv).length_le
  have hlen : (channelHeader chan ++ packed 4 argv).length ≤ protSize := by
    rw [List.length_append, length_channelHeader]
    omega
  -- What a server of any protocol size reads is the text up to the first NUL.
  have hread : cstrAt (Buf.fill protSize _ hlen).bytes udbCmdPkgContentOffset =
      .ok (packed 4 argv) := cstrAt_packed chan (by omega)
  rw [← packed_eq_joined_iff (by decide), ReadsAll, cmdPacket_eq chan hlen]
  constructor
  · rintro ⟨packet, hpacket, hall⟩
    rw [← Except.ok.inj hpacket, hread] at hall
    exact Except.ok.inj hall
  · intro heq
    exact ⟨_, rfl, by rw [hread, heq]⟩

end Packet

/-- For every packet size, and every argument vector whose joined form fits a packet, the server
    reads the arguments unchanged exactly when all but the last end before offset 60; the same
    for the three commands. -/
theorem args_unchanged_iff (protSize : Nat) (argv : List CString)
    (hfit : 4 + (joined argv).length ≤ protSize - 1) :
    (ReadsAll argv (execCmdPacket protSize argv) ↔ 4 + (joined argv.dropLast).length < 60) ∧
      (ReadsAll argv (execCmdWaitPacket protSize argv) ↔
        4 + (joined argv.dropLast).length < 60) ∧
      (ReadsAll argv (mshExecCmdPacket protSize argv) ↔
        4 + (joined argv.dropLast).length < 60) :=
  ⟨readsAll_iff .runCmd hfit, readsAll_iff .runCmdWait hfit, readsAll_iff .mshCmd hfit⟩

def lsArgs : List CString := [⟨ascii "ls", by decide⟩, ⟨ascii "-l", by decide⟩]

/-- `udb shell ls` -/
theorem args_unchanged_iff_ls : ReadsAll lsArgs (execCmdPacket 64 lsArgs) :=
  (args_unchanged_iff 64 lsArgs (by decide)).1.mpr (by decide)

/-- The second argument is dropped in both packet sizes: the first ends at offset 60. -/
def longArgs : List CString :=
  [⟨List.replicate 55 97, by decide⟩, ⟨ascii "b", by decide⟩]

/-- Arguments that fit the packet are lost behind an offset of 60. -/
theorem not_args_unchanged :
    ¬ ∀ (protSize : Nat) (argv : List CString), protSize = 64 ∨ protSize = 1470 →
      4 + (joined argv).length ≤ protSize - 1 →
      ReadsAll argv (execCmdPacket protSize argv) ∧
        ReadsAll argv (execCmdWaitPacket protSize argv) ∧
        ReadsAll argv (mshExecCmdPacket protSize argv) := by
  intro h
  have hall := (h 1470 longArgs (.inr rfl) (by decide)).1
  exact absurd ((readsAll_iff .runCmd (by decide)).mp hall) (by decide)

end Udb.Spec
