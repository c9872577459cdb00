import Cs7000pBootloader.Lib.ByteMem

/-!
The flash driver `dfu_flash.c`: its state `flash_ctx`, the control register `CR2` of bank 2, and
the driver's functions.  Each function returns the new state and the bus accesses it makes, in
program order.

* `SR2` is volatile, so the readings a poll makes are an input `r : ℕ → Sr2`, one value for each
  read in program order, with nothing said about how they relate.
* `START` and `FW` are commands that the controller takes and clears by itself; they appear as bus
  accesses, and the register keeps the other bits.
* A word store carries its four bytes as they lie in memory.  The barriers `__ISB` and `__DSB` have
  no effect on a sequential model.
-/

namespace Cs7000pBootloader.Flash

abbrev Addr := BitVec 32
abbrev Byte := BitVec 8

/-- `CFG_TUD_DFU_XFER_BUFSIZE`. -/
abbrev cfgTudDfuXferBufsize : ℕ := 1024

/-! ### The registers of bank 2 -/

/-- The bits of the status register `SR2`: the queue wait, the write buffer, the end of a program
operation, and the error flags. -/
structure Sr2 where
  qw : Bool
  wbne : Bool
  eop : Bool
  wrperr : Bool
  pgserr : Bool
  strberr : Bool
  incerr : Bool
  operr : Bool
  deriving DecidableEq, Repr

/-- The bits of the control register `CR2` that stay as they are written.  While `LOCK` is set the
register takes no write; the writes below are modelled as on an unlocked one, which `flash_init`
makes of it before the main loop and at every mount. -/
structure Cr2 where
  lock : Bool
  pg : Bool
  ser : Bool
  psize : BitVec 2
  snb : BitVec 3
  deriving DecidableEq, Repr

/-- A bus access of the firmware. -/
inductive Bus where
  /-- `SR2` is read and has the value `v` -/
  | sr2 (v : Sr2)
  /-- `CR2` is written -/
  | cr2 (v : Cr2)
  /-- `CR2`, holding `v`, is written with `START` set -/
  | start (v : Cr2)
  /-- `CR2`, holding `v`, is written with `FW` set -/
  | forceWrite (v : Cr2)
  /-- `CCR2` is written with `CLR_EOP` set -/
  | clrEop
  | keyr2 (key : BitVec 32)
  /-- a 32-bit store of the bytes `bs` -/
  | word (a : Addr) (bs : List Byte)
  | byte (a : Addr) (b : Byte)
  /-- a byte read of memory-mapped flash -/
  | load (a : Addr)
  /-- the debug pin `PHONE_TXD` -/
  | phoneTxd (level : Bool)
  deriving DecidableEq, Repr

/-! ### The state of the driver -/

/-- `flash_op_state_t`. -/
inductive FlashOpState where
  | idle | erasePending | eraseBusy | writePending | writeBusy
  deriving DecidableEq, Repr

/-- `flash_ctx`. -/
structure FlashCtx where
  state : FlashOpState
  addr : Addr
  buffer : List Byte
  length : BitVec 16
  offset : BitVec 16
  deriving DecidableEq, Repr

/-- `flash_ctx.buffer[i]`. -/
def FlashCtx.at (c : FlashCtx) (i : ℕ) : Byte := c.buffer.getD i 0

/-- The driver's state together with the control register it drives. -/
structure FlashDev where
  ctx : FlashCtx
  cr2 : Cr2
  deriving DecidableEq, Repr

/-- The driver at reset: zeroed statics and a locked register. -/
def resetDev : FlashDev :=
  ⟨⟨.idle, 0, List.replicate cfgTudDfuXferBufsize 0, 0, 0⟩, ⟨true, false, false, 0, 0⟩⟩

/-- A status register with no bit set. -/
def sr2Clear : Sr2 := ⟨false, false, false, false, false, false, false, false⟩

/-! ### The functions -/

/-- `flash_init`: the key sequence unlocks the register. -/
def flashInit (d : FlashDev) : FlashDev × List Bus :=
  let ctx := { d.ctx with state := .idle }
  if d.cr2.lock then
    ({ ctx, cr2 := { d.cr2 with lock := false } }, [.keyr2 0x45670123, .keyr2 0xCDEF89AB])
  else
    ({ d with ctx }, [])

/-- `addr_to_sector`: bank 2 at `0x08100000`, sectors of 128 KB. -/
def addrToSector (addr : Addr) : BitVec 8 := (((addr - 0x08100000) / (128 * 1024)) &&& 7).setWidth 8

/-- `flash_erase_sector_async`. -/
def flashEraseSectorAsync (addr : Addr) (d : FlashDev) : Bool × FlashDev :=
  if d.ctx.state ≠ .idle then (false, d)
  else (true, { d with ctx := { d.ctx with addr, state := .erasePending } })

/-- `flash_op_complete`, on the readings `r 0` and `r 1`. -/
def flashOpComplete (r : ℕ → Sr2) : Bool × List Bus :=
  if (r 0).qw then (false, [.sr2 (r 0)])
  else if (r 1).eop then (true, [.sr2 (r 0), .sr2 (r 1), .clrEop])
  else (true, [.sr2 (r 0), .sr2 (r 1)])

/-- `memcpy` into a buffer that has room for `n` bytes.  The buffer of the driver has room for 1024,
and no DNLOAD is longer; beyond that the source writes past its end, where this one grows. -/
def memcpy (dst src : List Byte) (n : ℕ) : List Byte := src.take n ++ dst.drop n

/-- `flash_write_async`. -/
def flashWriteAsync (addr : Addr) (data : List Byte) (length : BitVec 16) (d : FlashDev) :
    Bool × FlashDev × List Bus :=
  if d.ctx.state ≠ .idle then (false, d, [])
  else
    (true, { d with ctx :=
      { buffer := memcpy d.ctx.buffer data length.toNat, addr, length, offset := 0,
        state := .writePending } }, [.phoneTxd true])

/-- The eight word stores of a burst of 32 bytes. -/
def burstStores (c : FlashCtx) : List Bus :=
  (List.range 8).map fun i => .word (c.addr + c.offset.setWidth 32 + BitVec.ofNat 32 (4 * i))
    ((List.range 4).map fun j => c.at (c.offset.toNat + (4 * i + j)))

/-- The byte stores of the last `remaining` bytes. -/
def tailStores (c : FlashCtx) (remaining : ℕ) : List Bus :=
  (List.range remaining).map fun i =>
    .byte (c.addr + c.offset.setWidth 32 + BitVec.ofNat 32 i) (c.at (c.offset.toNat + i))

/-- The case `FLASH_OP_WRITE_BUSY` of `flash_process`. -/
def flashWriteBusy (r : ℕ → Sr2) (d : FlashDev) : FlashDev × List Bus :=
  let queue := flashOpComplete r
  if ¬ queue.1 then (d, queue.2)
  else if d.ctx.offset < d.ctx.length then
    let remaining := d.ctx.length.toNat - d.ctx.offset.toNat
    if 32 ≤ remaining then
      ({ d with ctx := { d.ctx with offset := d.ctx.offset + 32 } }, queue.2 ++ burstStores d.ctx)
    else
      ({ d with ctx := { d.ctx with offset := d.ctx.length } }, queue.2 ++ tailStores d.ctx remaining)
  else if (r 2).wbne then (d, queue.2 ++ [.sr2 (r 2), .forceWrite d.cr2])
  else
    let done := flashOpComplete fun n => r (n + 3)
    if done.1 then
      let cr2 := { d.cr2 with pg := false }
      ({ ctx := { d.ctx with state := .idle }, cr2 },
        queue.2 ++ .sr2 (r 2) :: done.2 ++ [.cr2 cr2, .phoneTxd false])
    else (d, queue.2 ++ .sr2 (r 2) :: done.2)

/-- `flash_process`. -/
def flashProcess (r : ℕ → Sr2) (d : FlashDev) : FlashDev × List Bus :=
  match d.ctx.state with
  | .idle => (d, [])
  | .erasePending =>
    let queue := flashOpComplete r
    if ¬ queue.1 then (d, queue.2)
    else
      let c₁ := { d.cr2 with psize := 3 }
      let c₂ := { c₁ with snb := 0 }
      let c₃ := { c₂ with snb := c₂.snb ||| (addrToSector d.ctx.addr).setWidth 3 }
      let c₄ := { c₃ with ser := true }
      ({ ctx := { d.ctx with state := .eraseBusy }, cr2 := c₄ },
        queue.2 ++ [.cr2 c₁, .cr2 c₂, .cr2 c₃, .cr2 c₄, .start c₄])
  | .eraseBusy =>
    let queue := flashOpComplete r
    if queue.1 then
      let cr2 := { d.cr2 with ser := false }
      ({ ctx := { d.ctx with state := .idle }, cr2 }, queue.2 ++ [.cr2 cr2])
    else (d, queue.2)
  | .writePending =>
    let queue := flashOpComplete r
    if ¬ queue.1 then (d, queue.2)
    else
      let c₁ := { d.cr2 with psize := 3 }
      let c₂ := { c₁ with pg := true }
      -- falls through to start the first write, on the readings after these two
      let next := flashWriteBusy (fun n => r (n + 2))
        { ctx := { d.ctx with state := .writeBusy }, cr2 := c₂ }
      (next.1, queue.2 ++ [.cr2 c₁, .cr2 c₂] ++ next.2)
  | .writeBusy => flashWriteBusy r d

/-- `flash_is_busy`. -/
def flashIsBusy (d : FlashDev) : Bool := d.ctx.state ≠ .idle

/-! ### What the flash array is told -/

/-- What a bus access tells the flash array: to take a byte, or to erase a sector. -/
inductive Effect where
  | store (s : Addr × Byte)
  | erase (sector : BitVec 3)
  deriving DecidableEq, Repr

/-- The stores of a bus access, byte by byte, or the sector it starts to erase. -/
def Bus.effects : Bus → List Effect
  | .word a bs => (Lib.placed a bs).map .store
  | .byte a b => [.store (a, b)]
  | .start v => [.erase v.snb]
  | _ => []

def effects (tr : List Bus) : List Effect := tr.flatMap Bus.effects

/-- **What the driver still owes** of the operation it took: the start of a pending erase, or
the bytes of a write that are not stored yet. -/
def owed (d : FlashDev) : List Effect :=
  match d.ctx.state with
  | .erasePending => [.erase ((addrToSector d.ctx.addr).setWidth 3)]
  | .writePending | .writeBusy =>
    (Lib.placed (d.ctx.addr + d.ctx.offset.setWidth 32)
      ((List.range (d.ctx.length.toNat - d.ctx.offset.toNat)).map fun i =>
        d.ctx.at (d.ctx.offset.toNat + i))).map .store
  | .idle | .eraseBusy => []

end Cs7000pBootloader.Flash
