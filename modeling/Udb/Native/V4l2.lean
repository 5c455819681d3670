import Udb.Native.Sysfs

/-!
# Finding a video node (`platform_linux.cpp`)

`get_v4l2_index` follows the link of each video node to the directory of its USB
device, three components up, and compares the numbers there. Its buffers are
cleared once, in front of the loop.
-/

namespace Udb.Native

open CMem

/-- `V4L2_DEVICES_ID_MAX` -/
def v4l2DevicesIdMax : Nat := 255

/-- What the lookup sees of sysfs: where `/sys/class/video4linux/videoN` points to, for the nodes
    that exist, and the attributes by their path. -/
structure V4l2 where
  link : Nat → Option CString
  files : Bytes → Option Attr

/-- The buffers of the loop. -/
structure V4l2State where
  interfacePath : Buf pathMax
  devPath : Buf pathMax
  line : Bytes

/-- The directory of the links. -/
def sysClassV4l : Bytes := ascii "/sys/class/video4linux/"

/-- `readlink(path, buf, PATH_MAX)`: no terminator is stored. -/
def readlink (target : Bytes) (buf : Buf pathMax) : Except Fault (Buf pathMax) :=
  buf.memcpy 0 (target.take pathMax)

/-- The loop that copies `interface_path` into `dev_path` from `off` on, until the slash number
    `flag - 2`. -/
def copyDir (flag : Int) (devPath : Buf pathMax) :
    (k off : Nat) → Bytes → Except Fault (Buf pathMax)
  | _, _, [] => pure devPath
  | k, off, c :: rest =>
    let k := if c = 47 then k + 1 else k
    if (k : Int) = flag - 2 then pure devPath
    else do
      let devPath ← devPath.memcpy off [c]
      copyDir flag devPath k (off + 1) rest

/-- `snprintf(sys_node, strlen(dev_path) + 8, "%s/busnum", dev_path)`, and the same for the
    `devnum`: the path, which has to fit in `sys_node`. -/
def sysNode (devPath node : Bytes) : Except Fault Bytes :=
  let path := (devPath ++ node).take (devPath.length + 7)
  if path.length < pathMax then pure path else .error .outOfBounds

/-- One turn of the loop: the numbers that it compares. -/
def v4l2Turn (v : V4l2) (target : Bytes) (st : V4l2State) :
    Except Fault (UInt8 × UInt8 × V4l2State) := do
  let interfacePath ← readlink target st.interfacePath
  let link ← cstrAt interfacePath.bytes 0
  let flag := link.count 47
  let devPath ← st.devPath.memcpy 0 sysClassV4l
  let devPath ← copyDir flag devPath 0 sysClassV4l.length link
  let dir ← cstrAt devPath.bytes 0
  let busNode ← sysNode dir (ascii "/busnum")
  let line ← readSysfsNode ((v.files busNode).map Attr.text) lineSize st.line
  let busnum := dec8 line
  let devNode ← sysNode dir (ascii "/devnum")
  let line ← readSysfsNode ((v.files devNode).map Attr.text) lineSize line
  let devnum := dec8 line
  pure (busnum, devnum, ⟨interfacePath, devPath, line⟩)

/-- The loop over the indexes. -/
def v4l2Loop (v : V4l2) (busnr devnr : UInt8) : List Nat → V4l2State → Except Fault Int
  | [], _ => pure (-1)
  | index :: rest, st =>
    match v.link index with
    | none => v4l2Loop v busnr devnr rest st
    | some target => do
      let (busnum, devnum, st) ← v4l2Turn v target.bytes st
      if devnum = devnr ∧ busnum = busnr then pure index else v4l2Loop v busnr devnr rest st

/-- `get_v4l2_index` -/
def getV4l2Index (v : V4l2) (busnr devnr : UInt8) : Except Fault Int :=
  v4l2Loop v busnr devnr (List.range v4l2DevicesIdMax) ⟨Buf.zero pathMax, Buf.zero pathMax, []⟩

end Udb.Native
