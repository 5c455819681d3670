import Udb.ForStd.Walk
import Udb.Native.V4l2

/-!
# Choosing a device (`platform_linux.cpp`, `udb.cpp`)

Three functions read `/sys/bus/usb/devices` in a loop of their own and number the
supported devices in it: `print_connected_list` shows them, `convert_sn_to_index`
looks for a serial number, and `select_usb_dev_by_index` takes one by its number.

Each has its own line buffer, which starts with whatever is there and keeps the
last text that could be read. `print_lsusb_list`, which shows all devices, clears
its buffers before each read.
-/

namespace Udb.Native

open CMem Walk

/-! ## Entries -/

/-- A node of `/sys/bus/usb/devices`: its name, and the attributes it has by theirs. -/
structure SysfsNode where
  name : Bytes
  files : String → Option Attr

/-- The content of an attribute file. -/
def SysfsNode.file (e : SysfsNode) (attr : String) : Option Bytes := (e.files attr).map Attr.text

/-- `dirent->d_name[0] == '.'` -/
def SysfsNode.hidden (e : SysfsNode) : Bool := e.name.head? = some 46

/-- A node as the kernel makes it. A device has both ids and an interface has neither, and a device
    that is supported has its place on the bus. -/
structure SysfsEntry extends SysfsNode where
  ids : (files "idVendor").isSome = (files "idProduct").isSome
  located : ∀ vid pid, files "idVendor" = some vid → files "idProduct" = some pid →
    inSupportList (hex16 vid.value) (hex16 pid.value) = true →
      (files "busnum").isSome ∧ (files "devnum").isSome

def SysfsEntry.file (e : SysfsEntry) (attr : String) : Option Bytes := e.toSysfsNode.file attr

def SysfsEntry.hidden (e : SysfsEntry) : Bool := e.toSysfsNode.hidden

/-- What becomes of a call: the process exits, or the call returns. -/
inductive Ended (α : Type) where
  | exit (code : Int)
  | ret (a : α)
  deriving DecidableEq, Repr

/-- What a call that has returned goes on with. -/
def Ended.map {α β : Type} (f : α → β) : Ended α → Ended β
  | .exit code => .exit code
  | .ret a => .ret (f a)

/-- The ids of an entry, as all three loops read them. -/
def readIds (e : SysfsEntry) (line : Bytes) : Except Fault (UInt16 × UInt16 × Bytes) := do
  let line ← readSysfsNode (e.file "idVendor") lineSize line
  let vid := hex16 line
  let line ← readSysfsNode (e.file "idProduct") lineSize line
  let pid := hex16 line
  pure (vid, pid, line)

/-! ## Looking for a serial number -/

/-- The variables of `convert_sn_to_index`. -/
structure ConvertState where
  find : Nat
  line : Bytes
  sysfsSn : Bytes

/-- The body of its loop. The device's place on the bus is read and not used. -/
def convertTurn (sn : Bytes) (st : ConvertState) (e : SysfsEntry) :
    Except Fault (ConvertState × Bool) := do
  let (vid, pid, line) ← readIds e st.line
  if inSupportList vid pid then do
    let find := st.find + 1
    let line ← readSysfsNode (e.file "busnum") lineSize line
    let line ← readSysfsNode (e.file "devnum") lineSize line
    let sysfsSn ← readSysfsNode (e.file "serial") lineSize st.sysfsSn
    pure (⟨find, line, sysfsSn⟩, strncmpEq sysfsSn sn sn.length)
  else pure ({ st with line := line }, false)

/-- `convert_sn_to_index`; `dir` is what `opendir` and `readdir` give, `line` and `sysfsSn` are
    what its buffers hold at first. The number is that of the last device counted, whether
    its serial number was the one or the directory came to its end. -/
def convertSnToIndex (dir : Option (List SysfsEntry)) (sn line sysfsSn : Bytes) :
    Except Fault (Ended Int) :=
  match dir with
  | none => pure (.exit (-1))
  | some dir => do
    let st ← loop SysfsEntry.hidden (convertTurn sn) ⟨0, line, sysfsSn⟩ dir
    if st.find = 0 then pure (.exit (-1)) else pure (.ret st.find)

/-! ## Taking a device by its number -/

/-- `usb_dev_t` -/
structure UsbDev where
  vid : UInt16
  pid : UInt16
  busnum : UInt8
  devnum : UInt8
  usbclass : UInt8
  backend : UInt8
  devSn : Bytes
  deriving DecidableEq, Repr

/-- The variables of `select_usb_dev_by_index`, and what its argument points to. -/
structure SelectState where
  find : Nat
  line : Bytes
  usbDev : UsbDev

/-- The body of its loop. -/
def selectTurn (index : Int) (st : SelectState) (e : SysfsEntry) :
    Except Fault (SelectState × Bool) := do
  let (vid, pid, line) ← readIds e st.line
  if inSupportList vid pid then do
    let find := st.find + 1
    let line ← readSysfsNode (e.file "busnum") lineSize line
    let busnum := dec8 line
    let line ← readSysfsNode (e.file "devnum") lineSize line
    let devnum := dec8 line
    if index = find then do
      -- The buffer for the serial number is cleared first, and larger than the others.
      let devSn ← readSysfsNode (e.file "serial") pathMax []
      pure (⟨find, line,
        ⟨vid, pid, busnum, devnum, getSupportListUsbclass vid pid, getSupportListBackend vid pid,
          devSn⟩⟩, true)
    else pure (⟨find, line, st.usbDev⟩, false)
  else pure ({ st with line := line }, false)

/-- `select_usb_dev_by_index(index, usb_dev)`: what `usb_dev` holds afterwards. -/
def selectUsbDevByIndex (dir : Option (List SysfsEntry)) (index : Int) (usbDev : UsbDev)
    (line : Bytes) : Except Fault (Ended UsbDev) :=
  match dir with
  | none => pure (.ret usbDev)
  | some dir => do
    let st ← loop SysfsEntry.hidden (selectTurn index) ⟨0, line, usbDev⟩ dir
    if st.find = 0 then pure (.exit (-1)) else pure (.ret st.usbDev)

/-! ## The list -/

/-- What is printed for a device. Without a video node its index is negative. -/
structure Row where
  find : Nat
  product : Bytes
  busnum : UInt8
  devpath : UInt8
  devnum : UInt8
  vid : UInt16
  pid : UInt16
  sn : Bytes
  videoIndex : Int
  deriving DecidableEq, Repr

/-- The variables of `print_connected_list`, and what it has printed. -/
structure PrintState where
  find : Nat
  line : Bytes
  sysfsProduct : Bytes
  sysfsSn : Bytes
  rows : List Row

/-- The body of its loop. -/
def printTurn (v : V4l2) (st : PrintState) (e : SysfsEntry) :
    Except Fault (PrintState × Bool) := do
  let (vid, pid, line) ← readIds e st.line
  if inSupportListAll vid pid usbClassUvc then do
    let find := st.find + 1
    let line ← readSysfsNode (e.file "busnum") lineSize line
    let busnum := dec8 line
    let line ← readSysfsNode (e.file "devpath") lineSize line
    let devpath := dec8 line
    let line ← readSysfsNode (e.file "devnum") lineSize line
    let devnum := dec8 line
    let sysfsProduct ← readSysfsNode (e.file "product") lineSize st.sysfsProduct
    let sysfsSn ← readSysfsNode (e.file "serial") lineSize st.sysfsSn
    let videoIndex ← getV4l2Index v busnum devnum
    pure (⟨find, line, sysfsProduct, sysfsSn,
      st.rows ++ [⟨find, sysfsProduct, busnum, devpath, devnum, vid, pid, sysfsSn, videoIndex⟩]⟩,
      false)
  else pure ({ st with line := line }, false)

/-- `print_connected_list`: its result and the rows. -/
def printConnectedList (v : V4l2) (dir : Option (List SysfsEntry))
    (line sysfsProduct sysfsSn : Bytes) : Except Fault (Ended (Int × List Row)) :=
  match dir with
  | none => pure (.ret (-1, []))
  | some dir => do
    let st ← loop SysfsEntry.hidden (printTurn v) ⟨0, line, sysfsProduct, sysfsSn, []⟩ dir
    if st.find = 0 then pure (.exit (-1)) else pure (.ret (0, st.rows))

/-! ## All devices -/

/-- A line of `print_lsusb_list`. -/
structure LsusbRow where
  busnum : UInt8
  devpath : UInt8
  devnum : UInt8
  vid : UInt16
  pid : UInt16
  speed : UInt32
  product : Bytes
  sn : Bytes
  deriving DecidableEq, Repr

/-- The variables of `print_lsusb_list`, and what it has printed. -/
structure LsusbState where
  line : Bytes
  sysfsProduct : Bytes
  sysfsSn : Bytes
  rows : List LsusbRow

/-- `memset(buf, 0, 1024)`: no text is left of what was there. -/
def clear (_buf : Bytes) : Bytes := []

/-- The body of its loop. -/
def lsusbTurn (st : LsusbState) (e : SysfsNode) : Except Fault (LsusbState × Bool) := do
  let line ← readSysfsNode (e.file "idVendor") lineSize (clear st.line)
  let vid := hex16 line
  if vid = 0 then pure ({ st with line := line }, false)
  else do
    let line ← readSysfsNode (e.file "idProduct") lineSize (clear line)
    let pid := hex16 line
    let line ← readSysfsNode (e.file "busnum") lineSize (clear line)
    let busnum := dec8 line
    let line ← readSysfsNode (e.file "devpath") lineSize (clear line)
    let devpath := dec8 line
    let line ← readSysfsNode (e.file "devnum") lineSize (clear line)
    let devnum := dec8 line
    let line ← readSysfsNode (e.file "speed") lineSize (clear line)
    let speed := (strtoul line 10).toUInt32
    let sysfsProduct ← readSysfsNode (e.file "product") lineSize (clear st.sysfsProduct)
    let sysfsSn ← readSysfsNode (e.file "serial") lineSize (clear st.sysfsSn)
    pure (⟨line, sysfsProduct, sysfsSn,
      st.rows ++ [⟨busnum, devpath, devnum, vid, pid, speed, sysfsProduct, sysfsSn⟩]⟩, false)

/-- `print_lsusb_list`: its result and the lines. -/
def printLsusbList (dir : Option (List SysfsNode)) (line sysfsProduct sysfsSn : Bytes) :
    Except Fault (Int × List LsusbRow) :=
  match dir with
  | none => pure (-1, [])
  | some dir => do
    let st ← loop SysfsNode.hidden lsusbTurn ⟨line, sysfsProduct, sysfsSn, []⟩ dir
    pure (0, st.rows)

/-! ## The option `-s` -/

/-- `dev_index` after the option `-d` or `-s` has set it. -/
def clampDevIndex (devIndex : Int) : Int := if devIndex < 1 then 1 else devIndex

/-- The option `-s sn` and what a command does first: the device that it goes to. Both read the
    directory, each with a line buffer of its own. -/
def selectBySn (dir : Option (List SysfsEntry)) (sn : Bytes) (usbDev : UsbDev)
    (line sysfsSn line' : Bytes) : Except Fault (Ended UsbDev) := do
  match ← convertSnToIndex dir sn line sysfsSn with
  | .exit code => pure (.exit code)
  | .ret index => selectUsbDevByIndex dir (clampDevIndex index) usbDev line'

end Udb.Native
