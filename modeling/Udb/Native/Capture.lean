import Udb.Native.PrintImg
import Udb.Native.Server

/-!
# Capturing frames (`v4l2.cpp`, `libuvc.cpp`)

Each frame of a camera is stored in the dump file, from its start on, and shown in the
terminal with a line of text below it. The loop around that prints the number of the
frame and the time it took. The callback of libuvc does the same as the loop over V4L2.

Two places print in the terminal, and the file is written through one stream, so a
frame leaves behind what it prints, the file, the counter, and the size of the last
image.
-/

namespace Udb.Native

open CMem

/-- What the capture looks at in `v4l2_handle_t`, or `libuvc_handle_t`. -/
structure CaptureHandle where
  width : UInt32
  height : UInt32
  /-- `format` is MJPEG. -/
  mjpeg : Bool
  imgPrint : Int
  batchMode : Int
  opts : ImgOpts

/-- What is around the capture: stb, the rounding of a shade, what `malloc` leaves in a cell, and
    the order in which threads run. -/
structure CaptureEnv where
  stb : Stb
  shade : Nat → Nat → UInt8
  junk : Nat → CharData
  order : List Nat

/-- What a frame leaves behind: the size of the last image, the dump file, if there is one, and
    the number of frames. -/
structure CaptureState where
  last : ImageSize
  dump : Option Bytes
  count : UInt32

/-- A frame: the bytes that are used of its buffer, the size of the terminal when it is shown, and
    the time it takes. -/
structure CaptureFrame where
  data : Bytes
  term : Option (UInt16 × UInt16)
  ms : Nat

/-- The image that is shown of a frame. `bmp_img` has twice the size of the frame. -/
def framePicture (shade : Nat → Nat → UInt8) (h : CaptureHandle) (data : Bytes) :
    Except Fault Bytes :=
  if h.mjpeg then .ok data else depth2bmpHist shade data (data.length * 2) h.width h.height

/-- The text below it. -/
def frameLabel (h : CaptureHandle) : Bytes :=
  (if h.mjpeg then ascii "ColorView " else ascii "DepthView Orignal: ") ++
    (fmtD h.width ++ (ascii "*" ++ fmtD h.height))

/-- `fseek(dump_fp, 0L, SEEK_SET)` and `fwrite(start, size, 1, dump_fp)` -/
def dumpFrame (dump : Option Bytes) (data : Bytes) : Option Bytes :=
  dump.map fun file => overlay data file

/-- `v4l2_process_buffer`, for `fuel` turns of the loop in `print_img`. -/
def v4l2ProcessBuffer (env : CaptureEnv) (h : CaptureHandle) (fuel : Nat) (f : CaptureFrame)
    (s : CaptureState) : Option (Except Fault (Bytes × CaptureState)) :=
  let s := { s with dump := dumpFrame s.dump f.data }
  if h.imgPrint ≠ 0 then
    match framePicture env.shade h f.data with
    | .error e => some (.error e)
    | .ok img =>
      (printImg env.stb env.junk env.order h.opts fuel f.term s.last img).map fun r => do
        let (_, out, last) ← r
        let home := if h.batchMode ≠ 1 then ascii "\x1b[1;0H" else []
        pure (home ++ (out ++ (frameLabel h ++ ascii "\n")), { s with last := last })
  else some (.ok ([], s))

/-- One turn of the loop in `v4l2_cap_loop`. -/
def v4l2CapTurn (env : CaptureEnv) (h : CaptureHandle) (fuel : Nat) (f : CaptureFrame)
    (s : CaptureState) : Option (Except Fault (Bytes × CaptureState)) :=
  (v4l2ProcessBuffer env h fuel f s).map fun r => do
    let (out, s) ← r
    let count := s.count + 1
    pure (out ++ (ascii "FrameNr: " ++ (fmtD count ++ (ascii "\t" ++
      (ascii "time " ++ (fmtU f.ms ++ ascii " ms\n"))))), { s with count := count })

/-- The loop, for some frames. -/
def v4l2CapLoop (env : CaptureEnv) (h : CaptureHandle) (fuel : Nat) :
    List CaptureFrame → CaptureState → Option (Except Fault (Bytes × CaptureState))
  | [], s => some (.ok ([], s))
  | f :: fs, s =>
    match v4l2CapTurn env h fuel f s with
    | none => none
    | some (.error e) => some (.error e)
    | some (.ok (out, s)) =>
      (v4l2CapLoop env h fuel fs s).map fun r => do
        let (outs, s) ← r
        pure (out ++ outs, s)

end Udb.Native
