import Udb.Native.ClientRun

/-!
# The hex dump (`utils.cpp`)

What `dumphex` prints. `ClientRun` knows only which bytes it loads; here they are
printed, sixteen to a row, in hexadecimal and as text. The text of a row is
collected in the local array `ascii`, which is not initialised but for its last
byte and is used again for each row.
-/

namespace Udb.Native

open CMem

/-- A digit of `%X`. -/
def hexDigit (d : Nat) : UInt8 := UInt8.ofNat (if d < 10 then 48 + d else 55 + d)

/-- `printf("%02X ", b)` -/
def hexCell (b : UInt8) : Bytes := [hexDigit (b.toNat / 16), hexDigit (b.toNat % 16), 32]

/-- What stands for a byte in the text: itself from `' '` to `'~'`, or a dot. -/
def asciiChar (b : UInt8) : UInt8 := if b ≥ 32 ∧ b ≤ 126 then b else 46

/-- `printf("|  %s \n", ascii)` -/
def printAscii (ascii : Buf 17) : Except Fault Bytes := do
  let text ← cstrAt ascii.bytes 0
  pure (CMem.ascii "|  " ++ text ++ CMem.ascii " \n")

/-- One turn of the loop: what is printed for the byte `b` at place `i` of `size`. -/
def dumphexTurn (size i : Nat) (b : UInt8) (ascii : Buf 17) : Except Fault (Bytes × Buf 17) := do
  let ascii ← ascii.memcpy (i % 16) [asciiChar b]
  if (i + 1) % 8 = 0 ∨ i + 1 = size then
    if (i + 1) % 16 = 0 then do
      let line ← printAscii ascii
      pure (hexCell b ++ [32] ++ line, ascii)
    else if i + 1 = size then do
      let ascii ← ascii.memcpy ((i + 1) % 16) [0]
      let line ← printAscii ascii
      let gap := if (i + 1) % 16 ≤ 8 then [32] else []
      -- Three blanks for each byte that the row lacks.
      let fill := List.replicate (3 * (16 - (i + 1) % 16)) 32
      pure (hexCell b ++ [32] ++ gap ++ fill ++ line, ascii)
    else pure (hexCell b ++ [32], ascii)
  else pure (hexCell b, ascii)

/-- The loop, from place `i` on. -/
def dumphexLoop (size : Nat) : (i : Nat) → Bytes → Buf 17 → Except Fault Bytes
  | _, [], _ => pure []
  | i, b :: rest, ascii => do
    let (out, ascii) ← dumphexTurn size i b ascii
    let outs ← dumphexLoop size (i + 1) rest ascii
    pure (out ++ outs)

/-- The output of `dumphex(data, size)`, with `ascii` what the array happens to hold. -/
def dumphexOutput (ascii : Buf 17) (data : Bytes) (size : UInt32) : Except Fault Bytes := do
  let bytes ← dumphex data size
  let ascii ← ascii.memcpy 16 [0]
  dumphexLoop size.toNat 0 bytes ascii

end Udb.Native
