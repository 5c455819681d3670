import Udb.ForStd.CMem
import Udb.ForStd.Chunks
import Udb.ForStd.Cursor
import Udb.ForStd.Fds
import Udb.ForStd.Grid
import Udb.ForStd.Histogram
import Udb.ForStd.Interleave
import Udb.ForStd.Trace
import Udb.ForStd.Ledger
import Udb.ForStd.Refine
import Udb.ForStd.Ring
import Udb.ForStd.Runs
import Udb.ForStd.ShellLex
import Udb.ForStd.StopAndWait
import Udb.ForStd.Utf8
import Udb.ForStd.Terminal
import Udb.ForStd.Trunc
import Udb.ForStd.Walk
import Udb.ForStd.Word
import Udb.ForStd.Wrap
import Udb.Native.Protocol
import Udb.Native.Rlog
import Udb.Native.Server
import Udb.Native.Builtin
import Udb.Native.Runcmd
import Udb.Native.File
import Udb.Native.Bridge
import Udb.Native.PrintImg
import Udb.Native.Capture
import Udb.Native.Client
import Udb.Native.ClientFile
import Udb.Native.Sysfs
import Udb.Native.ClientRun
import Udb.Native.ClientAuth
import Udb.Native.V4l2
import Udb.Native.UsbDev
import Udb.Native.Main
import Udb.Native.ClientLine
import Udb.Native.Event
import Udb.Native.InteractiveShell
import Udb.Native.NetDebugd
import Udb.Native.NetLoop
import Udb.Native.Popen
import Udb.Native.Strtok
import Udb.Native.Transport
import Udb.Native.Utils
import Udb.Spec.Pullout
import Udb.Spec.PullLoop
import Udb.Spec.Args
import Udb.Spec.Rlog
import Udb.Spec.Reach
import Udb.Spec.Auth
import Udb.Spec.Blocks
import Udb.Spec.PullFile
import Udb.Spec.PushFile
import Udb.Spec.Buffers
import Udb.Spec.Strtok
import Udb.Spec.BuiltIn
import Udb.Spec.Runcmd
import Udb.Spec.BuiltInLine
import Udb.Spec.Capture
import Udb.Spec.WaitPoll
import Udb.Spec.WaitRun
import Udb.Spec.Frame
import Udb.Spec.Wait
import Udb.Spec.History
import Udb.Spec.Clock
import Udb.Spec.Codepoint
import Udb.Spec.Devices
import Udb.Spec.Main
import Udb.Spec.Msh
import Udb.Spec.PullFail
import Udb.Spec.Effects
import Udb.Spec.Remote
import Udb.Spec.CommandLine
import Udb.Spec.V4l2
import Udb.Spec.DeviceList
import Udb.Spec.Directory
import Udb.Spec.FitImage
import Udb.Spec.HexDump
import Udb.Spec.InteractiveShell
import Udb.Spec.Session
import Udb.Spec.Shell
import Udb.Spec.Transport
import Udb.Spec.Isolation
import Udb.Spec.Net
import Udb.Spec.NetLoop
import Udb.Spec.Popen
import Udb.Spec.PopenLeaks
import Udb.Spec.PulloutRun
import Udb.Spec.SafeCopy
import Udb.Spec.PullSize
import Udb.Spec.PushOrder
import Udb.Spec.PushChunk
import Udb.Spec.WaitWorker
import Udb.Spec.Refusal
import Udb.Spec.RlogWindow
import Udb.Spec.Slices
import Udb.Spec.Screen
import Udb.Spec.Udp
import Udb.Spec.View
import Udb.Spec.WaitCursor
import Udb.Spec.WaitExit
import Udb.Spec.WaitPrefix
