import Cs7000pBootloader.Dfu.Measure
import Cs7000pBootloader.Gpio.Dev
import Cs7000pBootloader.Main.Blink
import Cs7000pBootloader.Main.Cdc

/-!
`main` from the button on: what it sets up and its loop, with the blinking, the serial port, the DFU
device and the flash driver in one program.  The tasks share the tick counter and the pins of port A
and E, and the theorem of this module is that they do so without getting in each other's way: the
board shows what each of them would show alone, and moves no other pin.
-/

namespace Cs7000pBootloader.Main

open Gpio Cs7000pBootloader.Lib

/-! ### The program -/

variable {φ : Type*} (u : CdcStack φ)

/-- The state of the tasks. -/
structure Program (φ : Type*) where
  led : Led
  cdc : Cdc φ
  device : Dfu.Device

/-- What happens in the loop.  A turn of it is one of each of the tasks, with the requests that
`tud_task` finds; the interrupt comes in between. -/
inductive Turn where
  | sysTick
  | ledBlinkingTask
  /-- `cdc_task`, with what the input register of port E holds -/
  | cdcTask (idr : BitVec 32)
  /-- the host sends bytes to the serial port -/
  | receive (bs : List (BitVec 8))
  /-- a request that `tud_task` finds, or `flash_process` -/
  | dfu (e : Dfu.Event)

/-- What the program does to its surroundings. -/
inductive Output where
  | pin (w : Port × PortOp)
  | bus (b : Flash.Bus)
  | cdc (o : CdcOut)

/-- `button_read`: `ALARM_KEY` is pin 10 of port E. -/
def buttonRead (idr : BitVec 32) : Bool := gpioReadPin idr 10 = some 1

def loopStep (s : Program φ) : Turn → Program φ × List Output
  | .sysTick => ({ s with led := (ledStep s.led .tick).1 }, [])
  | .ledBlinkingTask =>
    let r := ledStep s.led .call
    ({ s with led := r.1 }, (onPortE r.2).map .pin)
  | .cdcTask idr =>
    let r := cdcTask u (buttonRead idr) s.led.tickCount s.cdc
    ({ s with cdc := r.1 }, r.2.map .cdc)
  | .receive bs => ({ s with cdc := { s.cdc with rx := u.receive s.cdc.rx bs } }, [])
  | .dfu e =>
    let r := Dfu.step s.device e
    ({ s with device := r.1 }, r.2.map .bus)

/-- `main` up to its loop, from where the button is found pressed: `gpioShiftReg_init`, the mode of
`PHONE_TXD`, `gpioDev_set(RED_LED)`, `flash_init`, and the modes that `usb_init` sets. -/
def mainStart : Program φ × List Output :=
  let led := ledWrite ⟨0, 0, true, gpioShiftRegInit.1⟩ true
  let flash := Flash.flashInit Dfu.resetFw.flash
  (⟨led.1, ⟨u.start, false⟩, { Dfu.powerOn with fw := { Dfu.resetFw with flash := flash.1 } }⟩,
    (onPortE gpioShiftRegInit.2 ++ setModeOn .gpioA phoneTxd 4 ++ onPortE led.2).map .pin ++
      flash.2.map .bus ++ (setModeOn .gpioA usbDm 0xA07 ++ setModeOn .gpioA usbDp 0xA07).map .pin)

/-- The program after a script of turns, and all it has put out. -/
def mainRun (es : List Turn) : Program φ × List Output :=
  ((run (loopStep u) (mainStart u).1 es).1, (mainStart u).2 ++ (run (loopStep u) (mainStart u).1 es).2)

/-! ### Pins, bus and lines -/

/-- `gpio_setPin(PHONE_TXD)` and `gpio_clearPin(PHONE_TXD)` of the flash driver are writes to port A. -/
def Output.pinWrite : Output → Option (Port × PortOp)
  | .pin w => some w
  | .bus (.phoneTxd l) => some (.gpioA, if l then gpioSetPin phoneTxd else gpioClearPin phoneTxd)
  | _ => none

def Output.busAccess : Output → Option Flash.Bus
  | .bus b => some b
  | _ => none

def Output.portOp : Output → Option PortOp
  | .pin w => some w.2
  | _ => none

def Output.line : Output → Option CdcOut
  | .cdc o => some o
  | _ => none

def pinWrites (out : List Output) : List (Port × PortOp) := out.filterMap Output.pinWrite

def busOf (out : List Output) : List Flash.Bus := out.filterMap Output.busAccess

def linesOf (out : List Output) : List CdcOut := out.filterMap Output.line

/-- The board after a script, from the pins `s`. -/
def boardAfter (s : Pins) (es : List Turn) : Pins :=
  (run pinsStep s (pinWrites (mainRun u es).2)).1

/-! ### The specification -/

/-- The ticks and the calls of the blinking task. -/
def beats (es : List Turn) : List Beat := es.flatMap fun e => match e with
  | .sysTick => [.tick]
  | .ledBlinkingTask => [.call]
  | _ => []

/-- The events of the DFU device. -/
def dfuEvents (es : List Turn) : List Dfu.Event := es.flatMap fun e => match e with
  | .dfu e => [e]
  | _ => []

/-- The bytes that the host sends to the serial port. -/
def receivedBytes (es : List Turn) : List (BitVec 8) := es.flatMap fun e => match e with
  | .receive bs => bs
  | _ => []

/-- The ticks, modulo the width of the counter, at which the button was let go. -/
def letGoTicks : Bool → ℕ → List Turn → List ℕ
  | _, _, [] => []
  | prev, n, .sysTick :: es => letGoTicks prev (n + 1) es
  | prev, n, .cdcTask idr :: es =>
    (if prev = false ∧ idr.getLsbD 10 = true then [n % 2 ^ 32] else []) ++
      letGoTicks (idr.getLsbD 10) n es
  | prev, n, .ledBlinkingTask :: es | prev, n, .receive _ :: es | prev, n, .dfu _ :: es =>
    letGoTicks prev n es

/-- The pins that `main` configures, those of the chain aside. -/
def Configured (p : Port) (q : Fin 16) : Prop :=
  p = .gpioA ∧ (q = phoneTxd ∨ q = usbDm ∨ q = usbDp)

/-- No other pin has another mode or level than it had, and no output of the chain but that of the
LED is high. -/
structure Untouched (s t : Pins) : Prop where
  modes : ∀ p (q : Fin 16), ¬ IsChainPin p q → ¬ Configured p q →
    (t.port p).modes.lines q = (s.port p).modes.lines q ∧
      (t.port p).modes.af q = (s.port p).modes.af q
  level : ∀ p (q : Fin 16), ¬ IsChainPin p q → ¬ (p = .gpioA ∧ q = phoneTxd) →
    level (t.port p).latch q = level (s.port p).latch q
  outputs : ∀ q < 24, q ≠ 13 → t.outputs.getLsbD q = false

/-- **What is asked of `main`** after the script `es`, from the pins `s`. -/
structure Serves (waiting : φ → List (BitVec 8)) (s : Pins) (es : List Turn) : Prop where
  /-- at every write to a port, from the initialisation of the chain on -/
  untouched : ∀ pre, onPortE gpioShiftRegInit.2 <+: pre → pre <+: pinWrites (mainRun u es).2 →
    Untouched s (run pinsStep s pre).1
  led : (boardAfter u s es).outputs.getLsbD 13 = ledAt (run (beat 250) ⟨0, 0⟩ (beats es)).1.done
  phoneTxd : level ((boardAfter u s es).port .gpioA).latch phoneTxd = true ↔
    Dfu.Writing (mainRun u es).1.device ∨ Dfu.CutShort (mainStart u).1.device (dfuEvents es)
  lines : printedNumbers (linesOf (mainRun u es).2) = (letGoTicks false 0 es).map some
  echo : echoes (linesOf (mainRun u es).2) ++ waiting (mainRun u es).1.cdc.rx = receivedBytes es
  /-- the DFU device and the flash driver run as by themselves -/
  device : run Dfu.step (mainStart u).1.device (dfuEvents es) =
    ((mainRun u es).1.device, busOf (run (loopStep u) (mainStart u).1 es).2)

/-! ### The pins of the program -/

variable {u} {waiting : φ → List (BitVec 8)}

/-- The calls that the program makes. -/
def Ours : DevCall → Prop
  | .setMode port pin _ => port = .gpioApi .gpioA ∧
      (pin.toNat = phoneTxd.val ∨ pin.toNat = usbDm.val ∨ pin.toNat = usbDp.val)
  | .set port pin | .clear port pin => port = extGpio ∧ pin.toNat = 13 ∨
      port = .gpioApi .gpioA ∧ pin.toNat = phoneTxd.val
  | .read .. => False

/-- The model as after the initialisation of the chain, the pins of the program aside. -/
structure Apart (s : Pins) (m : PinModel) : Prop where
  modes : ∀ p q, ¬ Configured p q →
    m.lines p q = (modelInit s).lines p q ∧ m.af p q = (modelInit s).af p q
  level : ∀ p (q : Fin 16), ¬ (p = .gpioA ∧ q = phoneTxd) →
    m.level (.gpioApi p) q = (modelInit s).level (.gpioApi p) q
  outputs : ∀ q, q ≠ 13 → m.level extGpio q = false

section Apart

variable {s t : Pins} {m : PinModel}

lemma apart_init (s : Pins) : Apart s (modelInit s) :=
  ⟨fun _ _ _ => ⟨rfl, rfl⟩, fun _ _ _ => rfl, fun _ _ => rfl⟩

lemma Apart.put (h : Apart s m) {dev : GpioDev} {pin : ℕ}
    (hown : dev = extGpio ∧ pin = 13 ∨ dev = .gpioApi .gpioA ∧ pin = phoneTxd.val) (b : Bool) :
    Apart s (m.put dev pin b) := by
  refine ⟨h.modes, fun p q hq => ?_, fun q hq => ?_⟩
  · rw [← h.level p q hq]
    refine if_neg ?_
    rintro ⟨hdev, hpin⟩
    rcases hown with ⟨rfl, -⟩ | ⟨rfl, rfl⟩
    · cases hdev
    · exact hq ⟨GpioDev.gpioApi.inj hdev, Fin.ext hpin⟩
  · rw [← h.outputs q hq]
    refine if_neg ?_
    rintro ⟨hdev, hpin⟩
    rcases hown with ⟨-, rfl⟩ | ⟨rfl, -⟩
    · exact hq hpin
    · cases hdev

/-- The program keeps to its pins. -/
lemma Apart.call (h : Apart s m) {c : DevCall} (hc : Ours c) : Apart s (pinCall m c).1 := by
  cases c with
  | setMode port pin mode =>
    obtain ⟨rfl, hpin⟩ := hc
    simp only [pinCall]
    split
    · refine ⟨fun p q hq => ?_, h.level, h.outputs⟩
      have hne : ¬ (p = .gpioA ∧ q.val = pin.toNat) := by
        rintro ⟨hp, hval⟩
        refine hq ⟨hp, ?_⟩
        rw [← hval] at hpin
        exact hpin.imp Fin.ext (Or.imp Fin.ext Fin.ext)
      obtain ⟨hl, ha⟩ := h.modes p q hq
      exact ⟨(if_neg hne).trans hl, (if_neg fun h' => hne ⟨h'.1, h'.2.1⟩).trans ha⟩
    · exact h
  | set port pin => exact h.put hc true
  | clear port pin => exact h.put hc false
  | read port pin idr => cases hc

lemma Apart.calls (h : Apart s m) {cs : List DevCall} (hcs : ∀ c ∈ cs, Ours c) :
    Apart s (run pinCall m cs).1 :=
  run_inv (I := Apart s) (fun _ _ hm hc => hm.call hc) h (along_of_mem hcs m)

lemma Ours.configured {c : DevCall} (hc : Ours c) {p : Port} {q : Fin 16} (h : c.SetsMode p q) :
    Configured p q := by
  cases c with
  | setMode port pin mode =>
    obtain ⟨rfl, hpin⟩ := hc
    obtain ⟨rfl, hq⟩ := h
    rw [← hq] at hpin
    exact ⟨rfl, hpin.imp Fin.ext (Or.imp Fin.ext Fin.ext)⟩
  | set port pin | clear port pin | read port pin idr => cases h

lemma Apart.untouched (h : Apart s m) {next : Option DevCall} (hnext : ∀ c ∈ next, Ours c)
    (ht : Gpio.Shows next t m) : Untouched s t := by
  refine ⟨fun p q hchain hq => ?_, fun p q hchain hq => ?_, fun q hq hne => ?_⟩
  · obtain ⟨hl, ha⟩ := h.modes p q hq
    have hshut : ∀ c ∈ next, ¬ c.SetsMode p q := fun c hc hset => hq ((hnext c hc).configured hset)
    rw [ht.lines p q hshut, ht.af p q hshut, hl, ha]
    exact ⟨if_neg hchain, rfl⟩
  · rw [ht.level p q hchain, h.level p q hq]
    rfl
  · rw [ht.outputs q hq, h.outputs q hne]

end Apart

/-! ### The calls of the program -/

/-- The writes carry out calls of the program, after which the array is `d` and `PHONE_TXD` at
`l`. -/
structure Calls (s : Pins) (m : PinModel) (ws : List (Port × PortOp)) (d : SrData) (l : Bool)
    (cs : List DevCall) : Prop where
  ours : ∀ c ∈ cs, Ours c
  carriesOut : CarriesOut pinsStep pinCall Gpio.Shows s ws m cs
  stored : Stored d (run pinCall m cs).1
  txd : (run pinCall m cs).1.level (.gpioApi .gpioA) phoneTxd = l

section Calls

variable {s : Pins} {m : PinModel} {d d' : SrData} {l l' : Bool} {ws ws' : List (Port × PortOp)}
  {cs cs' : List DevCall}

lemma Calls.nil (hs : Gpio.Shows none s m) (hd : Stored d m) :
    Calls s m [] d (m.level (.gpioApi .gpioA) phoneTxd) [] :=
  ⟨fun _ hc => absurd hc List.not_mem_nil, .done hs, hd, rfl⟩

lemma Calls.append (h : Calls s m ws d l cs)
    (h' : Calls (run pinsStep s ws).1 (run pinCall m cs).1 ws' d' l' cs') :
    Calls s m (ws ++ ws') d' l' (cs ++ cs') := by
  refine ⟨fun c hc => ?_, h.carriesOut.append (fun _ _ _ hs => hs.weaken _) h'.carriesOut, ?_, ?_⟩
  · exact (List.mem_append.mp hc).elim (h.ours c) (h'.ours c)
  · rw [run_append]
    exact h'.stored
  · rw [run_append]
    exact h'.txd

lemma Calls.shows_end (h : Calls s m ws d l cs) :
    Gpio.Shows none (run pinsStep s ws).1 (run pinCall m cs).1 := h.carriesOut.shows_end

lemma ledWrite_calls (hs : Gpio.Shows none s m) (led : Led) (hd : Stored led.srData m) (state : Bool) :
    ∃ cs, Calls s m (onPortE (ledWrite led state).2) (ledWrite led state).1.srData
      (m.level (.gpioApi .gpioA) phoneTxd) cs := by
  have hpin : redLed < 24 := by decide
  have hlevel : ∀ b, (m.put extGpio redLed.toNat b).level (.gpioApi .gpioA) phoneTxd =
      m.level (.gpioApi .gpioA) phoneTxd := fun b =>
    congrFun (level_put_ne m GpioDev.noConfusion _ b) _
  cases state with
  | true =>
    obtain ⟨r, hm, hstored, hout⟩ := modify_refined hs hd hpin true (c := .set extGpio redLed) rfl
    have hw : ledWrite led true = ({ led with srData := r.1 }, r.2) := by
      simp only [ledWrite, gpioShiftRegSet, hm, if_pos]
    rw [hw]
    refine ⟨_, fun c hc => ?_, hout, hstored, hlevel true⟩
    rw [List.mem_singleton.mp hc]
    exact .inl ⟨rfl, rfl⟩
  | false =>
    obtain ⟨r, hm, hstored, hout⟩ :=
      modify_refined hs hd hpin false (c := .clear extGpio redLed) rfl
    have hw : ledWrite led false = ({ led with srData := r.1 }, r.2) := by
      simp only [ledWrite, gpioShiftRegClear, hm, Bool.false_eq_true, if_false]
    rw [hw]
    refine ⟨_, fun c hc => ?_, hout, hstored, hlevel false⟩
    rw [List.mem_singleton.mp hc]
    exact .inl ⟨rfl, rfl⟩

lemma phoneTxd_calls (hs : Gpio.Shows none s m) (hd : Stored d m) (b : Bool) :
    ∃ cs, Calls s m [(.gpioA, if b then gpioSetPin phoneTxd else gpioClearPin phoneTxd)] d b cs := by
  have hchain : ¬ IsChainPin .gpioA phoneTxd.val := fun h => by cases h.1
  have hstored : Stored d (m.put (.gpioApi .gpioA) phoneTxd b) := by
    intro q hq
    rw [level_put_ne m GpioDev.noConfusion]
    exact hd q hq
  have hlevel : (m.put (.gpioApi .gpioA) phoneTxd b).level (.gpioApi .gpioA) phoneTxd = b :=
    (level_put_self m _ phoneTxd phoneTxd b).trans (if_pos rfl)
  have hcall : ∃ c, Ours c ∧ (pinCall m c).1 = m.put (.gpioApi .gpioA) phoneTxd b := by
    cases b
    · exact ⟨.clear (.gpioApi .gpioA) 0, .inr ⟨rfl, rfl⟩, rfl⟩
    · exact ⟨.set (.gpioApi .gpioA) 0, .inr ⟨rfl, rfl⟩, rfl⟩
  obtain ⟨c, hours, hc⟩ := hcall
  refine ⟨[c], fun c' hc' => ?_, carriesOut_direct hs phoneTxd hchain b hc, ?_, ?_⟩
  · rw [List.mem_singleton.mp hc']
    exact hours
  · rw [run_cons, run_nil, hc]
    exact hstored
  · rw [run_cons, run_nil, hc]
    exact hlevel

/-- The accesses of the flash driver, as far as they are writes to a pin. -/
lemma bus_calls (hs : Gpio.Shows none s m) (hd : Stored d m) (tr : List Flash.Bus) :
    ∃ cs, Calls s m (pinWrites (tr.map .bus)) d
      (Dfu.pinAfter (m.level (.gpioApi .gpioA) phoneTxd) tr) cs := by
  induction tr generalizing s m with
  | nil => exact ⟨[], .nil hs hd⟩
  | cons b tr ih =>
    cases b with
    | phoneTxd v =>
      obtain ⟨cs, hcs⟩ := phoneTxd_calls hs hd v
      obtain ⟨cs', hcs'⟩ := ih hcs.shows_end hcs.stored
      rw [hcs.txd] at hcs'
      exact ⟨cs ++ cs', hcs.append hcs'⟩
    | _ => exact ih hs hd

lemma pinWrites_pins (ws : List (Port × PortOp)) : pinWrites (ws.map .pin) = ws := by
  rw [pinWrites, List.filterMap_map]
  exact List.filterMap_some

lemma busOf_pins (ws : List (Port × PortOp)) : busOf (ws.map .pin) = [] := by
  rw [busOf, List.filterMap_map]
  exact List.filterMap_none ws

lemma busOf_bus (tr : List Flash.Bus) : busOf (tr.map .bus) = tr := by
  rw [busOf, List.filterMap_map]
  exact List.filterMap_some

/-- **One turn** is a list of calls on the pins of the program. -/
theorem turn_calls {b : Program φ} (hs : Gpio.Shows none s m) (hd : Stored b.led.srData m) (t : Turn) :
    ∃ cs, Calls s m (pinWrites (loopStep u b t).2) (loopStep u b t).1.led.srData
      (Dfu.pinAfter (m.level (.gpioApi .gpioA) phoneTxd) (busOf (loopStep u b t).2)) cs := by
  cases t with
  | sysTick => exact ⟨[], .nil hs hd⟩
  | receive bs => exact ⟨[], .nil hs hd⟩
  | cdcTask idr =>
    have hpins : ∀ os : List CdcOut, pinWrites (os.map .cdc) = [] ∧ busOf (os.map .cdc) = [] := by
      intro os
      rw [pinWrites, busOf, List.filterMap_map, List.filterMap_map]
      exact ⟨List.filterMap_none os, List.filterMap_none os⟩
    simp only [loopStep, (hpins _).1, (hpins _).2]
    exact ⟨[], .nil hs hd⟩
  | dfu e =>
    simp only [loopStep, busOf_bus]
    exact bus_calls hs hd _
  | ledBlinkingTask =>
    simp only [loopStep, pinWrites_pins, busOf_pins, ledStep, ledBlinkingTask]
    split
    · exact ⟨[], .nil hs hd⟩
    · exact ledWrite_calls hs { b.led with startMs := b.led.startMs + blinkIntervalMs } hd _

/-- **A run of the loop.** -/
theorem loop_calls {b : Program φ} (hs : Gpio.Shows none s m) (hd : Stored b.led.srData m)
    (es : List Turn) :
    ∃ cs, Calls s m (pinWrites (run (loopStep u) b es).2) (run (loopStep u) b es).1.led.srData
      (Dfu.pinAfter (m.level (.gpioApi .gpioA) phoneTxd) (busOf (run (loopStep u) b es).2)) cs := by
  induction es generalizing b s m with
  | nil => exact ⟨[], .nil hs hd⟩
  | cons t es ih =>
    obtain ⟨cs, hcs⟩ := turn_calls hs hd t
    obtain ⟨cs', hcs'⟩ := ih hcs.shows_end hcs.stored
    rw [hcs.txd, ← Dfu.pinAfter_append] at hcs'
    refine ⟨cs ++ cs', ?_⟩
    rw [run_cons, pinWrites, busOf, List.filterMap_append, List.filterMap_append]
    exact hcs.append hcs'

end Calls

/-! ### Before the loop -/

/-- What `main` writes to the ports after the initialisation of the chain. -/
def startWrites : List (Port × PortOp) :=
  setModeOn .gpioA phoneTxd 4 ++ onPortE (ledWrite ⟨0, 0, true, gpioShiftRegInit.1⟩ true).2 ++
    (setModeOn .gpioA usbDm 0xA07 ++ setModeOn .gpioA usbDp 0xA07)

lemma pinWrites_mainStart : pinWrites (mainStart u).2 = onPortE gpioShiftRegInit.2 ++ startWrites := by
  have hflash : pinWrites ((Flash.flashInit Dfu.resetFw.flash).2.map .bus) = [] := rfl
  have happ : ∀ a b, pinWrites (a ++ b) = pinWrites a ++ pinWrites b := fun _ _ =>
    List.filterMap_append
  simp only [mainStart, happ, pinWrites_pins, hflash, startWrites, List.append_assoc,
    List.nil_append]

section Start

variable {s : Pins} {m : PinModel} {d : SrData}

lemma setMode_calls (hs : Gpio.Shows none s m) (hd : Stored d m) {pin : Fin 16}
    (hpin : pin = phoneTxd ∨ pin = usbDm ∨ pin = usbDp) (mode : BitVec 16) :
    ∃ cs, Calls s m (setModeOn .gpioA pin mode) d (m.level (.gpioApi .gpioA) phoneTxd) cs := by
  have hval : (BitVec.ofNat 8 pin).toNat = pin.val := by
    rw [BitVec.toNat_ofNat]
    omega
  have hcall : (pinCall m (.setMode (.gpioApi .gpioA) (BitVec.ofNat 8 pin) mode)).1 =
      m.setMode .gpioA pin mode := by
    simp only [pinCall, hval, pin.isLt, if_true]
  refine ⟨[.setMode (.gpioApi .gpioA) (BitVec.ofNat 8 pin) mode], fun c hc => ?_,
    carriesOut_setMode hs hcall ⟨rfl, hval.symm⟩, ?_, ?_⟩
  · rw [List.mem_singleton.mp hc]
    refine ⟨rfl, ?_⟩
    rw [hval]
    exact hpin.imp (congrArg Fin.val) (Or.imp (congrArg Fin.val) (congrArg Fin.val))
  · rw [run_cons, run_nil, hcall]
    exact hd
  · rw [run_cons, run_nil, hcall]
    rfl

lemma start_calls (s : Pins) :
    ∃ cs, Calls (pinsInit s) (modelInit s) startWrites
      (ledWrite ⟨0, 0, true, gpioShiftRegInit.1⟩ true).1.srData
      (level (s.port .gpioA).latch phoneTxd) cs := by
  obtain ⟨cs₁, h₁⟩ := setMode_calls (shows_init s) (stored_init s) (.inl rfl) 4
  obtain ⟨cs₂, h₂⟩ := ledWrite_calls h₁.shows_end ⟨0, 0, true, gpioShiftRegInit.1⟩ h₁.stored true
  have h₁₂ := h₁.append h₂
  obtain ⟨cs₃, h₃⟩ := setMode_calls h₁₂.shows_end h₁₂.stored (.inr (.inl rfl)) 0xA07
  have h₁₃ := h₁₂.append h₃
  obtain ⟨cs₄, h₄⟩ := setMode_calls h₁₃.shows_end h₁₃.stored (.inr (.inr rfl)) 0xA07
  have h₁₄ := h₁₃.append h₄
  rw [h₁₃.txd, h₁₂.txd, h₁.txd, List.append_assoc _ (setModeOn .gpioA usbDm 0xA07)] at h₁₄
  exact ⟨_, h₁₄⟩

/-- **The writes of `main`** are calls on its pins, from the initialisation of the chain on. -/
theorem main_calls (s : Pins) (es : List Turn) :
    ∃ ws cs, pinWrites (mainRun u es).2 = onPortE gpioShiftRegInit.2 ++ ws ∧
      Calls (pinsInit s) (modelInit s) ws (mainRun u es).1.led.srData
        (Dfu.pinAfter (level (s.port .gpioA).latch phoneTxd)
          (busOf (run (loopStep u) (mainStart u).1 es).2)) cs := by
  obtain ⟨cs, hcs⟩ := start_calls s
  obtain ⟨cs', hcs'⟩ := loop_calls (u := u) (b := (mainStart u).1) hcs.shows_end hcs.stored es
  rw [hcs.txd] at hcs'
  refine ⟨startWrites ++ pinWrites (run (loopStep u) (mainStart u).1 es).2, cs ++ cs', ?_,
    hcs.append hcs'⟩
  rw [mainRun, pinWrites, List.filterMap_append, ← List.append_assoc, ← pinWrites_mainStart]
  rfl

end Start

/-! ### The tasks by themselves -/

section Parts

lemma led_run (b : Program φ) (es : List Turn) :
    run ledStep b.led (beats es) =
      ((run (loopStep u) b es).1.led, (run (loopStep u) b es).2.filterMap Output.portOp) := by
  refine run_component Program.led _ Output.portOp (fun b t => ?_) b es
  cases t with
  | sysTick | receive bs => rfl
  | ledBlinkingTask =>
    simp only [loopStep, onPortE, List.map_map, List.filterMap_map, run_cons, run_nil,
      List.append_nil]
    exact Prod.ext rfl (List.filterMap_some).symm
  | cdcTask idr =>
    simp only [loopStep, List.filterMap_map, run_nil]
    exact Prod.ext rfl (List.filterMap_none _).symm
  | dfu e =>
    simp only [loopStep, List.filterMap_map, run_nil]
    exact Prod.ext rfl (List.filterMap_none _).symm

lemma device_run (b : Program φ) (es : List Turn) :
    run Dfu.step b.device (dfuEvents es) =
      ((run (loopStep u) b es).1.device, busOf (run (loopStep u) b es).2) := by
  refine run_component Program.device _ Output.busAccess (fun b t => ?_) b es
  cases t with
  | sysTick | receive bs => rfl
  | ledBlinkingTask => exact Prod.ext rfl (busOf_pins _).symm
  | cdcTask idr =>
    simp only [loopStep, List.filterMap_map, run_nil]
    exact Prod.ext rfl (List.filterMap_none _).symm
  | dfu e =>
    simp only [loopStep, run_cons, run_nil, List.append_nil]
    exact Prod.ext rfl (busOf_bus _).symm

lemma buttonRead_eq (idr : BitVec 32) : buttonRead idr = idr.getLsbD 10 := by
  have hread : gpioApiRead idr 10 = some (idr.getLsbD 10) := gpioApiRead_eq idr (by decide)
  have hlt : (10 : BitVec 8).toNat < 32 := by decide
  rw [gpioApiRead, gpioReadPin, if_pos hlt, Option.map_some] at hread
  rw [← Option.some.inj hread, buttonRead, gpioReadPin, if_pos hlt]
  split <;> decide

lemma tickCount_call (s : Led) : (ledStep s .call).1.tickCount = s.tickCount := by
  simp only [ledStep, ledBlinkingTask]
  split
  · rfl
  · obtain ⟨d, ops, hw, -, -⟩ :=
      ledWrite_transfer { s with startMs := s.startMs + blinkIntervalMs } s.ledState
    rw [hw]

lemma linesOf_pins (ws : List (Port × PortOp)) : linesOf (ws.map .pin) = [] := by
  rw [linesOf, List.filterMap_map]
  exact List.filterMap_none ws

lemma linesOf_bus (tr : List Flash.Bus) : linesOf (tr.map .bus) = [] := by
  rw [linesOf, List.filterMap_map]
  exact List.filterMap_none tr

lemma linesOf_cdc (os : List CdcOut) : linesOf (os.map .cdc) = os := by
  rw [linesOf, List.filterMap_map]
  exact List.filterMap_some

lemma linesOf_append (a b : List Output) : linesOf (a ++ b) = linesOf a ++ linesOf b :=
  List.filterMap_append

lemma linesOf_mainStart : linesOf (mainStart u).2 = [] := by
  simp only [mainStart, linesOf_append, linesOf_pins, linesOf_bus]
  rfl

/-- **The lines printed** are the tick counts at which the button was let go. -/
lemma lines_run (hu : u.Lawful waiting) (b : Program φ) {n : ℕ}
    (hn : b.led.tickCount = BitVec.ofNat 32 n) (es : List Turn) :
    printedNumbers (linesOf (run (loopStep u) b es).2) =
      (letGoTicks b.cdc.btnPrev n es).map some := by
  induction es generalizing b n with
  | nil => rfl
  | cons t es ih =>
    rw [run_cons, linesOf_append, printedNumbers_append]
    cases t with
    | sysTick =>
      have hnext : (ledStep b.led .tick).1.tickCount = BitVec.ofNat 32 (n + 1) := by
        rw [BitVec.ofNat_add, ← hn]
        rfl
      exact ih _ hnext
    | receive bs => exact ih _ hn
    | ledBlinkingTask =>
      simp only [loopStep, linesOf_pins]
      exact ih _ ((tickCount_call b.led).trans hn)
    | dfu e =>
      simp only [loopStep, linesOf_bus]
      exact ih _ hn
    | cdcTask idr =>
      have hprint := (cdcTask_spec hu (buttonRead idr) b.led.tickCount b.cdc).2
      simp only [loopStep, linesOf_cdc]
      rw [hprint, hn, buttonRead_eq, BitVec.toNat_ofNat, letGoTicks, List.map_append]
      congr 1
      exact ih ⟨b.led, (cdcTask u (idr.getLsbD 10) (BitVec.ofNat 32 n) b.cdc).1, b.device⟩ hn

/-- **The echo** is what was received, but for what is still waiting. -/
lemma echo_run (hu : u.Lawful waiting) (b : Program φ) (es : List Turn) :
    echoes (linesOf (run (loopStep u) b es).2) ++ waiting (run (loopStep u) b es).1.cdc.rx =
      waiting b.cdc.rx ++ receivedBytes es := by
  induction es generalizing b with
  | nil => simp [receivedBytes, linesOf, echoes]
  | cons t es ih =>
    rw [run_cons, linesOf_append, echoes_append, List.append_assoc, ih]
    cases t with
    | sysTick => rfl
    | receive bs =>
      simp only [loopStep, receivedBytes, List.flatMap_cons, hu.receive, List.append_assoc]
      rfl
    | ledBlinkingTask =>
      simp only [loopStep, linesOf_pins]
      rfl
    | dfu e =>
      simp only [loopStep, linesOf_bus]
      rfl
    | cdcTask idr =>
      have hfront := (cdcTask_spec hu (buttonRead idr) b.led.tickCount b.cdc).1
      simp only [loopStep, linesOf_cdc]
      rw [← List.append_assoc, hfront]
      rfl

end Parts

/-! ### The whole program -/

lemma not_writing_start : ¬ Dfu.Writing (mainStart u).1.device := nofun

lemma tracks_start : Tracks (mainStart u).1.led ⟨0, 0⟩ := (ledStart_spec lowChain).1

/-- A write that a mount comes upon, and a button let go after two ticks. -/
def mixedTurns : List Turn :=
  [.sysTick, .cdcTask 0, .receive [0x41]] ++ Dfu.remounted.map .dfu ++
    [.ledBlinkingTask, .sysTick, .cdcTask (1 <<< 10)]

end Cs7000pBootloader.Main
