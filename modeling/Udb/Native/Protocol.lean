import Udb.ForStd.CMem

/-!
# The packets

The constants that client (`udb.h`, `config.h`) and server (`udb_debug.c`,
`udb_debug.h`) share: packet sizes, channel numbers and the packet header.
-/

namespace Udb.Native

open CMem

/-! ## Sizes and offsets -/

/-- `UDB_PROT_SIZE_DEFAULT` -/
def udbProtSizeDefault : Nat := 64

/-- `UDB_PROT_SIZE_USB2_CTRL` -/
def udbProtSizeUsb2Ctrl : Nat := 64

/-- `UDB_PROT_SIZE_USB2_BULK` -/
def udbProtSizeUsb2Bulk : Nat := 512

/-- `UDB_PROT_SIZE_NET_UDP` -/
def udbProtSizeNetUdp : Nat := 1470

/-- `UDB_MAX_PKG_COUNT` -/
def udbMaxPkgCount : Nat := 1024 * 10

/-- `UDB_BUF_SIZE` -/
def udbBufSize : Nat := udbProtSizeDefault * udbMaxPkgCount

/-- `UDB_CMD_CHANNEL_ID_OFFSET` -/
def udbCmdChannelIdOffset : Nat := 3

/-- `UDB_CMD_PKG_CONTENT_OFFSET` -/
def udbCmdPkgContentOffset : Nat := 4

/-! ## Transport layers -/

/-- `UDB_LAYER_DEF` -/
def udbLayerDef : UInt8 := 0x01

/-- `UDB_LAYER_UVC_HS` -/
def udbLayerUvcHs : UInt8 := 0x02

/-- `UDB_LAYER_CDC_HS` -/
def udbLayerCdcHs : UInt8 := 0x03

/-- `UDB_LAYER_NET` -/
def udbLayerNet : UInt8 := 0x04

/-- The protocol size that `udb_debug_bridge` assigns for a layer. -/
def layerProtSize (layer : UInt8) : Nat :=
  if layer = udbLayerDef then udbProtSizeDefault
  else if layer = udbLayerUvcHs then udbProtSizeUsb2Ctrl
  else if layer = udbLayerCdcHs then udbProtSizeUsb2Bulk
  else if layer = udbLayerNet then udbProtSizeNetUdp
  else udbProtSizeDefault

/-- Every layer has one of the three sizes. -/
theorem layerProtSize_cases (layer : UInt8) :
    layerProtSize layer = 64 ∨ layerProtSize layer = 512 ∨ layerProtSize layer = 1470 := by
  unfold layerProtSize udbProtSizeDefault udbProtSizeUsb2Ctrl udbProtSizeUsb2Bulk udbProtSizeNetUdp
  split_ifs <;> simp

/-- The sizes of the layers. -/
theorem layerProtSize_bounds (layer : UInt8) :
    64 ≤ layerProtSize layer ∧ layerProtSize layer ≤ 1470 := by
  have := layerProtSize_cases layer
  omega

/-! ## Channels -/

/-- `udb_chan_id_e` -/
inductive UdbChanId where
  | auth
  | runCmd
  | runCmdPullout
  | runCmdWait
  | runCmdWaitPullout
  | mshCmd
  | mshCmdPullout
  | pullFileInit
  | pullFilePullout
  | pushFileInit
  | pushFileProc
  | pushFileFini
  deriving DecidableEq, Repr

namespace UdbChanId

/-- The channel byte. -/
def toByte : UdbChanId → UInt8
  | auth => 0x01
  | runCmd => 0x02
  | runCmdPullout => 0x03
  | runCmdWait => 0x04
  | runCmdWaitPullout => 0x05
  | mshCmd => 0x06
  | mshCmdPullout => 0x07
  | pullFileInit => 0x11
  | pullFilePullout => 0x12
  | pushFileInit => 0x21
  | pushFileProc => 0x22
  | pushFileFini => 0x23

/-- The channels that have a handler. -/
def all : List UdbChanId :=
  [auth, runCmd, runCmdPullout, runCmdWait, runCmdWaitPullout, mshCmd, mshCmdPullout,
    pullFileInit, pullFilePullout, pushFileInit, pushFileProc, pushFileFini]

/-- The channel that a channel byte stands for; bytes without a handler have none. -/
def ofByte (b : UInt8) : Option UdbChanId := all.find? fun c => c.toByte = b

@[simp] theorem ofByte_toByte (c : UdbChanId) : ofByte c.toByte = some c := by
  cases c <;> rfl

end UdbChanId

/-- The four bytes that every packet starts with. -/
def channelHeader (chanId : UdbChanId) : Bytes := ascii "udb" ++ [chanId.toByte]

@[simp] theorem length_channelHeader (chanId : UdbChanId) : (channelHeader chanId).length = 4 := rfl

/-- `set_udb_channel_header` -/
def setUdbChannelHeader {n : Nat} (buf : Buf n) (chanId : UdbChanId) : Except Fault (Buf n) :=
  buf.memcpy 0 (channelHeader chanId)

end Udb.Native
