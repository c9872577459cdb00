import Cs7000pBootloader.Dfu.Device
import Cs7000pBootloader.Flash.Array

/-!
The boot path: `main` of `main.c` and `jump_to_application` of `boot_jump.c`, one phase for each
thing they do, over the flash array, the backup register `RTC->BKP0R` and the device that runs in the
USB loop.

* A reset or a power loss can come between any two steps.  It loses what is in RAM; a power loss may
  also lose the backup register.
* An erase or a write that is cut off leaves anything in the addresses it was working on.
* The application is not part of the source.  It may leave anything in flash and in `BKP0R`.
-/

namespace Cs7000pBootloader.Boot

open Flash Dfu Cs7000pBootloader.Lib

def bootMagicGoApp : BitVec 32 := 0xDEADB007

/-! ### The state -/

/-- Where the processor is. -/
inductive Phase where
  /-- `main`, before `bootflag_get` -/
  | start
  /-- before `bootflag_clear` -/
  | clearFlag
  /-- `jump_to_application`, before the two words are read -/
  | readVectors
  /-- before interrupts, SysTick and NVIC are turned off -/
  | quiesce (msp reset : BitVec 32)
  | setVtor (msp reset : BitVec 32)
  | setMsp (msp reset : BitVec 32)
  | branch (reset : BitVec 32)
  | app
  /-- before `ALARM_KEY` is read -/
  | sampleButton
  /-- `reboot_into_application`, before `bootflag_set` -/
  | setFlag
  /-- before `NVIC_SystemReset` -/
  | systemReset
  | usbLoop
  deriving DecidableEq, Repr

structure Machine where
  mem : Addr → Byte
  bkp0r : BitVec 32
  dev : Device
  phase : Phase

/-- The machine at a reset: what is in RAM is gone. -/
def boot (mem : Addr → Byte) (bkp0r : BitVec 32) : Machine := ⟨mem, bkp0r, powerOn, .start⟩

/-- What the boot path does. -/
inductive Action where
  | readBkp (v : BitVec 32)
  | writeBkp (v : BitVec 32)
  | readButton (released : Bool)
  | systemReset
  | disableIrq
  | stopSysTick
  | clearNvic
  | setVtor (a : Addr)
  | setMsp (v : BitVec 32)
  | branch (a : BitVec 32)
  | bus (b : Bus)
  deriving DecidableEq, Repr

inductive BootEvent where
  /-- the processor takes the next step of the boot path; `released` is what `ALARM_KEY` reads -/
  | run (released : Bool)
  /-- an event of the USB loop -/
  | usb (e : Event)
  /-- a reset; `left` is what a flash operation that is cut off leaves -/
  | reset (left : Addr → Byte)
  /-- a power loss, which keeps the backup register or not -/
  | powerLoss (left : Addr → Byte) (kept : Bool)
  /-- the application leaves `mem` and `bkp` behind -/
  | app (mem : Addr → Byte) (bkp : BitVec 32)

/-! ### The steps -/

/-- The 32-bit word at an address, little-endian. -/
def word (mem : Addr → Byte) (a : Addr) : BitVec 32 :=
  mem (a + 3) ++ mem (a + 2) ++ mem (a + 1) ++ mem a

/-- The addresses that the flash driver is working on. -/
def Touched (d : FlashDev) (a : Addr) : Prop :=
  d.ctx.state = .eraseBusy ∧ InSector ((addrToSector d.ctx.addr).setWidth 3) a ∨
    d.ctx.state = .writeBusy ∧ d.ctx.addr.toNat ≤ a.toNat ∧
      a.toNat < d.ctx.addr.toNat + d.ctx.length.toNat

instance (d : FlashDev) (a : Addr) : Decidable (Touched d a) := by unfold Touched; infer_instance

/-- The array after an operation is cut off. -/
def cutOff (s : Machine) (left : Addr → Byte) : Addr → Byte := fun a =>
  if Touched s.dev.fw.flash a then left a else s.mem a

/-- The next step of `main`, `reboot_into_application` and `jump_to_application`. -/
def runStep (s : Machine) (released : Bool) : Machine × List Action :=
  match s.phase with
  | .start =>
    ({ s with phase := if s.bkp0r = bootMagicGoApp then .clearFlag else .sampleButton },
      [.readBkp s.bkp0r])
  | .clearFlag => ({ s with bkp0r := 0, phase := .readVectors }, [.writeBkp 0])
  | .readVectors =>
    -- the words are compared with 0xFFFFFFFF, and the body of that `if` is empty
    ({ s with phase := .quiesce (word s.mem appBaseAddr) (word s.mem (appBaseAddr + 4)) }, [])
  | .quiesce msp reset =>
    ({ s with phase := .setVtor msp reset }, [.disableIrq, .stopSysTick, .clearNvic])
  | .setVtor msp reset => ({ s with phase := .setMsp msp reset }, [.setVtor appBaseAddr])
  | .setMsp msp reset => ({ s with phase := .branch reset }, [.setMsp msp])
  | .branch reset => ({ s with phase := .app }, [.branch reset])
  | .app => (s, [])
  | .sampleButton =>
    if released then ({ s with phase := .setFlag }, [.readButton true])
    else
      let f := flashInit s.dev.fw.flash
      ({ s with phase := .usbLoop, dev := { s.dev with fw := { s.dev.fw with flash := f.1 } } },
        .readButton false :: f.2.map .bus)
  | .setFlag =>
    ({ s with bkp0r := bootMagicGoApp, phase := .systemReset }, [.writeBkp bootMagicGoApp])
  | .systemReset => (boot s.mem s.bkp0r, [.systemReset])
  | .usbLoop => (s, [])

def bootStep (s : Machine) : BootEvent → Machine × List Action
  | .run released => runStep s released
  | .usb e =>
    if s.phase = .usbLoop then
      ({ s with mem := memoryAfter s.mem (step s.dev e).2, dev := (step s.dev e).1 },
        (step s.dev e).2.map .bus)
    else (s, [])
  | .reset left => (boot (cutOff s left) s.bkp0r, [])
  | .powerLoss left kept => (boot (cutOff s left) (if kept then s.bkp0r else 0), [])
  | .app mem bkp => if s.phase = .app then ({ s with mem, bkp0r := bkp }, []) else (s, [])

end Cs7000pBootloader.Boot
