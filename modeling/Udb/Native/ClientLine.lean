import Udb.Native.ClientFile
import Udb.Native.Main

/-!
# What a command line asks for (`file.cpp`, `auth.cpp`, `shell.cpp`)

The functions that talk to the device, up to the exchange of packets: which words they
take, and what `push_file` and `pull_file` do with the file of the user. Both open it
before they send anything, and ask for nothing if that fails.

What the two print of their progress is left out. A function gets something from the
device: the content that `pull_file` writes to the file, and what the others print.
-/

namespace Udb.Native

open CMem

/-- The files of the user, and the paths that `fopen` opens for writing. -/
structure LocalFiles where
  content : Bytes → Option Bytes
  writable : Bytes → Bool

/-- What a function asks the device for. -/
inductive Ask where
  | auth
  | push (devPath : CString) (content : Bytes)
  | pull (devPath : CString)
  | shell (argv : List CString)
  | msh (argv : List CString)
  deriving DecidableEq

/-- The question of a function with its words. Without both paths the usage is printed. -/
def MainFn.ask (disk : LocalFiles) : MainFn → List CString → Option Ask
  | .auth, _ => some .auth
  | .pushFile, localPath :: devPath :: _ => (disk.content localPath.bytes).map (.push devPath)
  | .pullFile, localPath :: devPath :: _ =>
    if disk.writable localPath.bytes then some (.pull devPath) else none
  | .execCmd, argv => some (.shell argv)
  | .mshExecCmd, argv => some (.msh argv)
  | _, _ => none

/-- The user's files behind the function, with what it got: a pull is written to its file, which was
    emptied when it was opened. -/
def MainFn.stored (disk : LocalFiles) (got : Bytes) : MainFn → List CString → LocalFiles
  | .pullFile, localPath :: _ :: _ =>
    if disk.writable localPath.bytes then
      { disk with content := Function.update disk.content localPath.bytes (some got) }
    else disk
  | _, _ => disk

end Udb.Native
