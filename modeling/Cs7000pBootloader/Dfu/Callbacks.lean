import Cs7000pBootloader.Flash.Process

/-!
The DfuSe layer `dfu_tinyusb.c`: its state `dfuse_ctx` and the callbacks that the USB stack makes
into it.  The blocks of `tud_dfu_get_status_cb` are definitions of their own, in the order of the
source; a block that falls through returns `none`.
-/

namespace Cs7000pBootloader.Dfu

open Flash

/-! ### What the USB stack passes in and takes back -/

/-- `dfu_state_t`. -/
inductive DfuState where
  | appIdle | appDetach | dfuIdle | dnloadSync | dnbusy | dnloadIdle | manifestSync | manifest
  | manifestWaitReset | uploadIdle | error
  deriving DecidableEq, Repr

/-- `dfu_status_t`. -/
inductive DfuStatus where
  | ok | errTarget | errFile | errWrite | errErase | errCheckErased | errProg | errVerify
  | errAddress | errNotdone | errFirmware | errVendor | errUsbr | errPor | errUnknown
  | errStalledpkt
  deriving DecidableEq, Repr

/-- `tud_dfu_get_status_request_t`. -/
structure GetStatusRequest where
  state : DfuState
  block : BitVec 16
  length : BitVec 16
  buffer : List Byte
  deriving DecidableEq, Repr

/-- `dfu_status_response_t`, as far as the callback writes it. -/
structure StatusResponse where
  bStatus : DfuStatus
  bwPollTimeout : Byte × Byte × Byte
  bState : DfuState
  deriving DecidableEq, Repr

/-- `tud_dfu_get_status_control_t`. -/
structure GetStatusControl where
  invokeDownload : Bool
  invokeManifest : Bool
  deriving DecidableEq, Repr

/-! ### The state -/

/-- `dfuse_op_t`. -/
inductive DfuseOp where
  | idle | eraseBusy | writeBusy | setAddrBusy
  deriving DecidableEq, Repr

/-- `dfuse_ctx`. -/
structure DfuseCtx where
  baseAddr : Addr
  haveAddr : Bool
  op : DfuseOp
  currentAddr : Addr
  lastWasGetCmds : Bool
  deriving DecidableEq, Repr

/-- The state of the two layers together. -/
structure Firmware where
  dfuse : DfuseCtx
  flash : FlashDev
  deriving DecidableEq, Repr

/-- The firmware at reset. -/
def resetFw : Firmware := ⟨⟨0, false, .idle, 0, false⟩, resetDev⟩

/-- What `tud_dfu_get_status_cb` returns and leaves behind. -/
structure GetStatusOut where
  ret : Bool
  resp : StatusResponse
  ctl : GetStatusControl
  fw : Firmware
  bus : List Bus
  deriving DecidableEq, Repr

/-! ### Constants and helpers -/

def appBaseAddr : Addr := 0x08100000

def dfuseCmdGetCommands : Byte := 0x00
def dfuseCmdSetAddress : Byte := 0x21
def dfuseCmdErase : Byte := 0x41

/-- `dfuse_cmds`. -/
def dfuseCmds : List Byte := [dfuseCmdGetCommands, dfuseCmdSetAddress, dfuseCmdErase]

/-- `set_poll_timeout`. -/
def setPollTimeout (resp : StatusResponse) (ms : BitVec 32) : StatusResponse :=
  { resp with bwPollTimeout :=
    ((ms &&& 0xff).setWidth 8, ((ms >>> 8) &&& 0xff).setWidth 8, ((ms >>> 16) &&& 0xff).setWidth 8) }

/-- The three writes of every answer: the status, the state, the poll timeout. -/
def answer (resp : StatusResponse) (status : DfuStatus) (state : DfuState) (ms : BitVec 32) :
    StatusResponse :=
  setPollTimeout { resp with bStatus := status, bState := state } ms

/-- `buffer[i]`. -/
def GetStatusRequest.byte (req : GetStatusRequest) (i : ℕ) : Byte := req.buffer.getD i 0

/-- The address of a command, little-endian after the command byte. -/
def GetStatusRequest.addr (req : GetStatusRequest) : Addr :=
  (req.byte 1).setWidth 32 ||| (req.byte 2).setWidth 32 <<< 8 |||
    (req.byte 3).setWidth 32 <<< 16 ||| (req.byte 4).setWidth 32 <<< 24

/-- The address of a data block: `base_addr + (uint32_t)(block - 2u) * CFG_TUD_DFU_XFER_BUFSIZE`. -/
def blockAddr (base : Addr) (block : BitVec 16) : Addr :=
  base + (block.setWidth 32 - 2) * BitVec.ofNat 32 cfgTudDfuXferBufsize

/-- `tud_mount_cb`. -/
def tudMountCb (fw : Firmware) : Firmware × List Bus :=
  let f := flashInit fw.flash
  ({ flash := f.1, dfuse := ⟨appBaseAddr, true, .idle, 0, false⟩ }, f.2)

/-- `tud_dfu_abort_cb`. -/
def tudDfuAbortCb (fw : Firmware) : Firmware :=
  { fw with dfuse := { fw.dfuse with op := .idle, currentAddr := 0, lastWasGetCmds := false } }

/-! ### GETSTATUS -/

/-- The controls of alt 0: no extra callbacks. -/
def noCallbacks : GetStatusControl := ⟨false, false⟩

/-- A handled request. -/
def handled (resp : StatusResponse) (fw : Firmware) (bus : List Bus) : Option GetStatusOut :=
  some ⟨true, resp, noCallbacks, fw, bus⟩

/-- GetCommands: block 0, length 1, `0x00`. -/
def getCommands (req : GetStatusRequest) (resp : StatusResponse) (fw : Firmware) :
    Option GetStatusOut :=
  if req.block = 0 ∧ req.length = 1 ∧ req.byte 0 = dfuseCmdGetCommands then
    handled (answer resp .ok .dnloadIdle 0)
      { fw with dfuse := { fw.dfuse with lastWasGetCmds := true } } []
  else none

/-- SetAddressPointer: block 0, length 5, `0x21`, the address. -/
def setAddress (req : GetStatusRequest) (resp : StatusResponse) (fw : Firmware) :
    Option GetStatusOut :=
  if req.block = 0 ∧ req.length = 5 ∧ req.byte 0 = dfuseCmdSetAddress then
    if req.state = .dnloadSync then
      handled (answer resp .ok .dnbusy 0) { fw with dfuse :=
        { fw.dfuse with baseAddr := req.addr, haveAddr := true, op := .setAddrBusy } } []
    else if req.state = .dnbusy ∧ fw.dfuse.op = .setAddrBusy then
      handled (answer resp .ok .dnloadIdle 0) { fw with dfuse := { fw.dfuse with op := .idle } } []
    else none
  else none

/-- Erase: block 0, `0x41`, the address; without the address it would be a mass erase. -/
def erase (req : GetStatusRequest) (resp : StatusResponse) (fw : Firmware) : Option GetStatusOut :=
  if req.block = 0 ∧ 1 ≤ req.length ∧ req.byte 0 = dfuseCmdErase then
    if req.state = .dnloadSync then
      if req.length ≠ 5 then handled (answer resp .errTarget .error 0) fw []
      else
        let f := flashEraseSectorAsync req.addr fw.flash
        if ¬ f.1 then handled (answer resp .errAddress .error 0) { fw with flash := f.2 } []
        else
          handled (answer resp .ok .dnbusy 900) { flash := f.2, dfuse :=
            { fw.dfuse with op := .eraseBusy, currentAddr := req.addr } } []
    else if req.state = .dnbusy ∧ fw.dfuse.op = .eraseBusy then
      if ¬ flashIsBusy fw.flash then
        handled (answer resp .ok .dnloadIdle 0) { fw with dfuse := { fw.dfuse with op := .idle } } []
      else handled (answer resp .ok .dnbusy 20) fw []
    else none
  else none

/-- Firmware data: block 2 or later, at least one byte. -/
def dataBlock (req : GetStatusRequest) (resp : StatusResponse) (fw : Firmware) :
    Option GetStatusOut :=
  if 2 ≤ req.block ∧ 0 < req.length ∧ fw.dfuse.haveAddr = true then
    let addr := blockAddr fw.dfuse.baseAddr req.block
    if req.state = .dnloadSync ∧ fw.dfuse.op = .idle then
      let f := flashWriteAsync addr req.buffer req.length fw.flash
      if ¬ f.1 then handled (answer resp .errAddress .error 0) { fw with flash := f.2.1 } f.2.2
      else
        handled (answer resp .ok .dnbusy 3) { flash := f.2.1, dfuse :=
          { fw.dfuse with op := .writeBusy, currentAddr := addr } } f.2.2
    else if req.state = .dnbusy ∧ fw.dfuse.op = .writeBusy then
      if ¬ flashIsBusy fw.flash then
        handled (answer resp .ok .dnloadIdle 0) { fw with dfuse := { fw.dfuse with op := .idle } } []
      else handled (answer resp .ok .dnbusy 1) fw []
    else none
  else none

/-- `tud_dfu_get_status_cb`: the first block that returns decides; after the last one the stack's
default logic handles the request. -/
def tudDfuGetStatusCb (alt : Byte) (req : GetStatusRequest) (resp : StatusResponse)
    (fw : Firmware) : GetStatusOut :=
  let unhandled : GetStatusOut := ⟨false, resp, noCallbacks, fw, []⟩
  if alt ≠ 0 then unhandled
  else
    (getCommands req resp fw <|> setAddress req resp fw <|> erase req resp fw <|>
      dataBlock req resp fw).getD unhandled

/-! ### UPLOAD -/

/-- What `tud_dfu_upload_cb` returns, what it puts into the host's buffer, and the state it
leaves. -/
structure UploadOut where
  ret : BitVec 16
  data : List Byte
  dfuse : DfuseCtx
  bus : List Bus

/-- `tud_dfu_upload_cb`, over the memory `mem`. -/
def tudDfuUploadCb (alt : Byte) (block length : BitVec 16) (mem : Addr → Byte) (c : DfuseCtx) :
    UploadOut :=
  if alt ≠ 0 then ⟨0, [], c, []⟩
  else if block = 0 then
    if c.lastWasGetCmds then
      let n := if length.toNat < dfuseCmds.length then length else BitVec.ofNat 16 dfuseCmds.length
      ⟨n, dfuseCmds.take n.toNat, { c with lastWasGetCmds := false }, []⟩
    else ⟨0, [], c, []⟩
  else if ¬ c.haveAddr ∨ block < 2 then ⟨0, [], c, []⟩
  else
    let addr := blockAddr c.baseAddr block
    let src := (List.range length.toNat).map fun i => addr + BitVec.ofNat 32 i
    ⟨length, src.map mem, c, src.map .load⟩

end Cs7000pBootloader.Dfu
