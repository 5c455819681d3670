import Udb.Native.UsbDev

/-!
# The command line (`udb.cpp`)

`main` looks for an option in front of the command: `-i` gives the address of a device on the
net, `-d` the number of a device in the list and `-s` its serial number. It then goes on
with `argv` two words further and calls the function of the command, most of them
with what is behind its word.

`argv[argc]` is the null pointer. Of the three options only `-i` compares `argc` with what is
needed before it takes words from `argv`.

The functions that talk to a device begin with one test of `dev_index`, which decides between the
device with this number and the address `net_dev`.
-/

namespace Udb.Native

open CMem

/-! ## Words -/

/-- `argv[i]`, with the null pointer behind the last word. -/
def argvAt (argv : List CString) (i : Nat) : Except Fault (Option CString) :=
  if i ≤ argv.length then pure argv[i]? else .error .outOfBounds

/-- `argv[i]` where it is read as a string. -/
def wordAt (argv : List CString) (i : Nat) : Except Fault CString := do
  match ← argvAt argv i with
  | some word => pure word
  | none => .error .nullDeref

/-- `!strcmp(word, literal)` -/
def isWord (word : CString) (literal : String) : Bool := word.bytes = ascii literal

/-! ## Commands -/

/-- What `main` calls. `lsusbMain` goes on with `print_lsusb_list` if it has to show the tree. -/
inductive MainFn where
  | printUsage
  | list
  | detach
  | attach
  | usbreset
  | usbmon
  | capture
  | view
  | dfuMain
  | uhubctlMain
  | lsusbMain (tree : Bool)
  | adbMainFunc
  | listUpnpcMain
  | auth
  | pushFile
  | pullFile
  | interactiveShell
  | execCmd
  | execCmdWait
  | mshExecCmd
  | rawSet
  | rawGet
  deriving DecidableEq, Repr

/-- The words of the commands, and how many words of `argv` are in front of those that the function
    gets. `shell` and `lsusb` have more to them. -/
def mainCommands : List (String × MainFn × Option Nat) :=
  [("detach", .detach, none), ("attach", .attach, none), ("usbreset", .usbreset, none),
    ("usbmon", .usbmon, none), ("cap", .capture, some 1), ("view", .view, some 1),
    ("dfu", .dfuMain, some 1), ("hub", .uhubctlMain, some 1), ("adb", .adbMainFunc, some 1),
    ("upnp", .listUpnpcMain, some 1), ("auth", .auth, none), ("push", .pushFile, some 2),
    ("pull", .pullFile, some 2), ("shell", .execCmd, some 2), ("runcmd", .execCmdWait, some 2),
    ("msh", .mshExecCmd, some 2), ("rawset", .rawSet, some 2), ("rawget", .rawGet, none)]

/-- `(argc > 1) && (strncmp(argv[1], "-t", 2) == 0)` behind the word `lsusb`. -/
def lsusbTree (argv : List CString) : Bool :=
  match argv with
  | _ :: word :: _ => strncmpEq word.bytes (ascii "-t") 2
  | _ => false

/-- The chain of comparisons at `main_handle`: the function for the word `argv[1]`, and its
    `argv`. -/
def mainCall (argv : List CString) (word : CString) : MainFn × List CString :=
  if isWord word "shell" ∧ argv.length = 2 then (.interactiveShell, [])
  else if isWord word "lsusb" then (.lsusbMain (lsusbTree (argv.drop 1)), argv.drop 1)
  else match mainCommands.find? fun command => isWord word command.1 with
    | some (_, fn, some skip) => (fn, argv.drop skip)
    | some (_, fn, none) => (fn, [])
    | none => (.printUsage, [])

/-! ## Options -/

/-- `dev_index`, `net_dev`, and the function that is called with its `argv`. -/
structure MainCall where
  devIndex : Int
  netDev : Option CString
  fn : MainFn
  args : List CString
  deriving DecidableEq

/-- A call that has nothing to do with a device. -/
def MainCall.plain (fn : MainFn) : MainCall := ⟨1, none, fn, []⟩

/-- `main_handle` -/
def mainHandle (devIndex : Int) (netDev : Option CString) (argv : List CString) :
    Except Fault MainCall := do
  let word ← wordAt argv 1
  let (fn, args) := mainCall argv word
  pure ⟨devIndex, netDev, fn, args⟩

/-- `dev_index = strtoul(argv[2], NULL, 10)`, a `long` cut to an `int`. -/
def devIndexOf (word : CString) : Int := (strtoul word.bytes 10).toUInt32.toInt32.toInt

/-- `convert_sn_to_index(sn)`, where `sn` may be the null pointer. Its length is taken at the first
    device that is counted: there the empty string would be found. -/
def convertPtr (dir : Option (List SysfsEntry)) (sn : Option CString) (line sysfsSn : Bytes) :
    Except Fault (Ended Int) :=
  match sn with
  | some sn => convertSnToIndex dir sn.bytes line sysfsSn
  | none => do
    match ← convertSnToIndex dir [] line sysfsSn with
    | .exit code => pure (.exit code)
    | .ret _ => .error .nullDeref

/-- `main`, as far as the call that it makes. `dir` is what `opendir` and `readdir` give to
    `convert_sn_to_index`, `line` and `sysfsSn` what its buffers hold at first. -/
def main (dir : Option (List SysfsEntry)) (line sysfsSn : Bytes) (argv : List CString) :
    Except Fault (Ended MainCall) :=
  if argv.length ≤ 1 then pure (.ret (.plain .printUsage))
  else do
    let word ← wordAt argv 1
    if isWord word "-i" then
      if argv.length < 4 then pure (.ret (.plain .printUsage))
      else do
        let call ← mainHandle 0 (← argvAt argv 2) (argv.drop 2)
        pure (.ret call)
    else if isWord word "-d" then do
      let number ← wordAt argv 2
      let call ← mainHandle (clampDevIndex (devIndexOf number)) none (argv.drop 2)
      pure (.ret call)
    else if isWord word "-s" then do
      match ← convertPtr dir (← argvAt argv 2) line sysfsSn with
      | .exit code => pure (.exit code)
      | .ret index => do
        let call ← mainHandle (clampDevIndex index) none (argv.drop 2)
        pure (.ret call)
    else if isWord word "list" then pure (.ret (.plain .list))
    else do
      let call ← mainHandle 1 none argv
      pure (.ret call)

/-! ## Opening the device -/

/-- What a function talks to: a device on the bus, or a host on the net. -/
inductive Peer where
  | usb (usbDev : UsbDev)
  | net (hostip : CString)
  deriving DecidableEq

/-- `auth.cpp`, `file.cpp`, `raw.cpp` and `shell.cpp`: the functions that begin with `openPeer`. -/
def MainFn.talks : MainFn → Bool
  | .auth | .pushFile | .pullFile | .interactiveShell | .execCmd | .execCmdWait | .mshExecCmd
  | .rawSet => true
  | _ => false

/-- `if (dev_index > 0)`, with `select_usb_dev_by_index` and `get_udb_ctrl_handle_from_usb`, or else
    `get_udb_ctrl_handle_from_net`, which reads the address as a string. `usbDev` is what `usb_dev`
    holds and `line` what the line buffer does. -/
def openPeer (dir : Option (List SysfsEntry)) (call : MainCall) (usbDev : UsbDev) (line : Bytes) :
    Except Fault (Ended Peer) :=
  if 0 < call.devIndex then do
    let ended ← selectUsbDevByIndex dir call.devIndex usbDev line
    pure (ended.map .usb)
  else match call.netDev with
    | some hostip => pure (.ret (.net hostip))
    | none => .error .nullDeref

/-- `main` and what the function does first, if it is one that talks to a device. -/
def mainPeer (dir : Option (List SysfsEntry)) (line sysfsSn : Bytes) (argv : List CString)
    (usbDev : UsbDev) (line' : Bytes) : Except Fault (Ended (Option Peer)) := do
  match ← main dir line sysfsSn argv with
  | .exit code => pure (.exit code)
  | .ret call =>
    if call.fn.talks then do
      let ended ← openPeer dir call usbDev line'
      pure (ended.map some)
    else pure (.ret none)

end Udb.Native
