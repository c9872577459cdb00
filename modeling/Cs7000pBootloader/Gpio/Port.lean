import Cs7000pBootloader.Lib.Fields
import Mathlib.Data.List.Induction

/-!
A GPIO port and `gpio_setMode`: the fields of one pin in each register, what one call does to
them, and what a list of calls leaves behind for every pin of the port.
-/

namespace Cs7000pBootloader.Gpio

open Lib

/-! ### The port -/

/-- The registers of `GPIO_TypeDef` that `gpio_setMode` touches. -/
structure GpioPort where
  moder : BitVec 32
  otyper : BitVec 32
  pupdr : BitVec 32
  afr0 : BitVec 32
  afr1 : BitVec 32
deriving DecidableEq, Repr

/-- `enum Mode` -/
inductive Mode
  | input
  | inputPullUp
  | inputPullDown
  | analog
  | output
  | openDrain
  | openDrainPu
  | alternate
  | alternateOd
  | alternateOdPu
deriving DecidableEq, Repr

/-- The case of `switch (mode & 0xFF)`: `none` is the default. -/
def modeOf (mode : BitVec 16) : Option Mode :=
  match (mode &&& 0xFF#16).toNat with
  | 0 => some .input
  | 1 => some .inputPullUp
  | 2 => some .inputPullDown
  | 3 => some .analog
  | 4 => some .output
  | 5 => some .openDrain
  | 6 => some .openDrainPu
  | 7 => some .alternate
  | 8 => some .alternateOd
  | 9 => some .alternateOdPu
  | _ => none

/-- The local `af` of `gpio_setMode`. -/
def afOf (mode : BitVec 16) : BitVec 8 := ((mode >>> 8) &&& 0x0F#16).setWidth 8

/-- `setGpioAf` -/
def setGpioAf (port : GpioPort) (pin : Fin 16) (af : BitVec 8) : GpioPort :=
  if pin.val < 8 then
    { port with
      afr0 := (port.afr0 &&& ~~~(0x0F#32 <<< (pin.val * 4))) ||| (af.setWidth 32 <<< (pin.val * 4)) }
  else
    { port with
      afr1 := (port.afr1 &&& ~~~(0x0F#32 <<< ((pin.val - 8) * 4))) |||
        (af.setWidth 32 <<< ((pin.val - 8) * 4)) }

/-- The three `|=` of one case of the switch. -/
def GpioPort.orMode (p : GpioPort) (pin : Fin 16) (mode type pup : BitVec 32) : GpioPort :=
  { p with
    moder := p.moder ||| (mode <<< (pin.val * 2))
    otyper := p.otyper ||| (type <<< pin.val)
    pupdr := p.pupdr ||| (pup <<< (pin.val * 2)) }

/-- `gpio_setMode` -/
def gpioSetMode (port : GpioPort) (pin : Fin 16) (mode : BitVec 16) : GpioPort :=
  let af := afOf mode
  let p : GpioPort :=
    { port with
      moder := port.moder &&& ~~~(3#32 <<< (pin.val * 2))
      otyper := port.otyper &&& ~~~(1#32 <<< pin.val)
      pupdr := port.pupdr &&& ~~~(3#32 <<< (pin.val * 2)) }
  match modeOf mode with
  | some .input => p.orMode pin 0x00#32 0x00#32 0x00#32
  | some .inputPullUp => p.orMode pin 0x00#32 0x00#32 0x01#32
  | some .inputPullDown => p.orMode pin 0x00#32 0x00#32 0x02#32
  | some .analog => p.orMode pin 0x03#32 0x00#32 0x00#32
  | some .output => p.orMode pin 0x01#32 0x00#32 0x00#32
  | some .openDrain => p.orMode pin 0x01#32 0x01#32 0x00#32
  -- the comment of this case has `PUP=01`
  | some .openDrainPu => p.orMode pin 0x01#32 0x01#32 0x00#32
  | some .alternate => setGpioAf (p.orMode pin 0x02#32 0x00#32 0x00#32) pin af
  | some .alternateOd => setGpioAf (p.orMode pin 0x02#32 0x01#32 0x00#32) pin af
  | some .alternateOdPu => setGpioAf (p.orMode pin 0x02#32 0x01#32 0x01#32) pin af
  | none => p.orMode pin 0x00#32 0x00#32 0x00#32

/-! ### One pin of a port -/

/-- What `MODER`, `OTYPER` and `PUPDR` hold for one pin. -/
structure PinLines where
  moder : BitVec 2
  otyper : BitVec 1
  pupdr : BitVec 2
deriving DecidableEq, Repr

def GpioPort.lines (p : GpioPort) (pin : Fin 16) : PinLines :=
  ⟨field 2 p.moder pin, field 1 p.otyper pin, field 2 p.pupdr pin⟩

/-- The alternate function nibble of a pin. -/
def GpioPort.af (p : GpioPort) (pin : Fin 16) : BitVec 4 :=
  if pin.val < 8 then field 4 p.afr0 pin else field 4 p.afr1 (pin - 8)

/-- The fields documented for a mode: no, up or down pull, push-pull or open drain. -/
def documented : Option Mode → PinLines
  | some .input => ⟨0b00, 0, 0b00⟩
  | some .inputPullUp => ⟨0b00, 0, 0b01⟩
  | some .inputPullDown => ⟨0b00, 0, 0b10⟩
  | some .analog => ⟨0b11, 0, 0b00⟩
  | some .output => ⟨0b01, 0, 0b00⟩
  | some .openDrain => ⟨0b01, 1, 0b00⟩
  | some .openDrainPu => ⟨0b01, 1, 0b01⟩
  | some .alternate => ⟨0b10, 0, 0b00⟩
  | some .alternateOd => ⟨0b10, 1, 0b00⟩
  | some .alternateOdPu => ⟨0b10, 1, 0b01⟩
  | none => ⟨0b00, 0, 0b00⟩

/-- The function number that `ALTERNATE_FUNC` puts in a mode. -/
def functionOf (mode : BitVec 16) : BitVec 4 := mode.extractLsb' 8 4

/-- The modes that set the alternate function. -/
def IsAlternate (mode : BitVec 16) : Prop :=
  modeOf mode = some .alternate ∨ modeOf mode = some .alternateOd ∨
    modeOf mode = some .alternateOdPu

instance (mode : BitVec 16) : Decidable (IsAlternate mode) := by
  unfold IsAlternate
  infer_instance

/-! ### One call -/

/-- What the code writes for a mode: as documented, but for the missing pull-up of
`OPEN_DRAIN_PU`. -/
def written : Option Mode → PinLines
  | some .openDrainPu => ⟨0b01, 1, 0b00⟩
  | m => documented m

lemma written_eq_documented_iff (m : Option Mode) :
    written m = documented m ↔ m ≠ some .openDrainPu := by
  rcases m with _ | m
  · simp [written]
  · cases m <;> simp [written, documented]

/-- The port with the three fields of a pin written. -/
def GpioPort.setLines (p : GpioPort) (pin : Fin 16) (l : PinLines) : GpioPort :=
  { p with
    moder := setField 2 p.moder pin l.moder
    otyper := setField 1 p.otyper pin l.otyper
    pupdr := setField 2 p.pupdr pin l.pupdr }

/-- The port with the nibble of a pin written. -/
def GpioPort.setAf (p : GpioPort) (pin : Fin 16) (af : BitVec 4) : GpioPort :=
  if pin.val < 8 then { p with afr0 := setField 4 p.afr0 pin af }
  else { p with afr1 := setField 4 p.afr1 (pin - 8) af }

lemma setWidth_afOf (mode : BitVec 16) :
    (afOf mode).setWidth 32 = (functionOf mode).setWidth 32 := by
  have hmask : 0x0F#16 = (BitVec.allOnes 4).setWidth 16 := rfl
  apply BitVec.eq_of_getLsbD_eq
  intro b hb
  simp only [afOf, functionOf, hmask, BitVec.getLsbD_setWidth, BitVec.getLsbD_and,
    BitVec.getLsbD_ushiftRight, BitVec.getLsbD_allOnes, BitVec.getLsbD_extractLsb']
  by_cases h4 : b < 4
  · have h8 : b < 8 := by omega
    have h16 : b < 16 := by omega
    simp [hb, h4, h8, h16]
  · simp [h4]

lemma setGpioAf_eq (p : GpioPort) (pin : Fin 16) (mode : BitVec 16) :
    setGpioAf p pin (afOf mode) = p.setAf pin (functionOf mode) := by
  simp only [setGpioAf, GpioPort.setAf, setField, setWidth_afOf]
  rfl

/-- **One call** writes the three fields of its pin, and the nibble when its mode is an alternate
one. -/
theorem gpioSetMode_eq (p : GpioPort) (pin : Fin 16) (mode : BitVec 16) :
    gpioSetMode p pin mode =
      if IsAlternate mode then (p.setLines pin (written (modeOf mode))).setAf pin (functionOf mode)
      else p.setLines pin (written (modeOf mode)) := by
  obtain ⟨o, hm⟩ : ∃ o, modeOf mode = o := ⟨_, rfl⟩
  rcases o with _ | m
  · simp [gpioSetMode, IsAlternate, hm, written, documented, GpioPort.orMode, GpioPort.setLines,
      setField]
  · cases m <;>
      simp [gpioSetMode, IsAlternate, hm, written, documented, GpioPort.orMode, GpioPort.setLines,
        setField, setGpioAf_eq]

section OneCall

variable (p : GpioPort) {pin q : Fin 16} (l : PinLines) (af : BitVec 4)

@[simp] lemma lines_setLines_self : (p.setLines pin l).lines pin = l := by
  have hpin := pin.isLt
  simp only [GpioPort.lines, GpioPort.setLines]
  rw [field_setField_self _ _ (by omega), field_setField_self _ _ (by omega),
    field_setField_self _ _ (by omega)]

lemma lines_setLines_ne (h : pin ≠ q) : (p.setLines pin l).lines q = p.lines q := by
  have hval : pin.val ≠ q.val := fun hv => h (Fin.ext hv)
  simp only [GpioPort.lines, GpioPort.setLines, field_setField_ne _ _ hval]

@[simp] lemma lines_setAf : (p.setAf pin af).lines q = p.lines q := by
  unfold GpioPort.setAf
  split <;> rfl

@[simp] lemma af_setLines : (p.setLines pin l).af q = p.af q := rfl

@[simp] lemma af_setAf_self : (p.setAf pin af).af pin = af := by
  have hpin := pin.isLt
  unfold GpioPort.setAf GpioPort.af
  split
  · exact field_setField_self _ _ (by omega)
  · exact field_setField_self _ _ (by omega)

lemma af_setAf_ne (h : pin ≠ q) : (p.setAf pin af).af q = p.af q := by
  have hval : pin.val ≠ q.val := fun hv => h (Fin.ext hv)
  unfold GpioPort.setAf GpioPort.af
  by_cases hp : pin.val < 8 <;> by_cases hq : q.val < 8
  · simp only [hp, hq, if_true, field_setField_ne _ _ hval]
  · simp only [hp, hq, if_true, if_false]
  · simp only [hp, hq, if_true, if_false]
  · have hsub : pin.val - 8 ≠ q.val - 8 := by omega
    simp only [hp, hq, if_false, field_setField_ne _ _ hsub]

variable (mode mode' : BitVec 16)

lemma gpioSetMode_lines_self :
    (gpioSetMode p pin mode).lines pin = written (modeOf mode) := by
  rw [gpioSetMode_eq]
  split <;> simp

lemma gpioSetMode_af_self :
    (gpioSetMode p pin mode).af pin = if IsAlternate mode then functionOf mode else p.af pin := by
  rw [gpioSetMode_eq]
  split <;> simp

/-- No cross-talk: a call leaves the fields of every other pin. -/
lemma gpioSetMode_lines_ne (h : pin ≠ q) : (gpioSetMode p pin mode).lines q = p.lines q := by
  rw [gpioSetMode_eq]
  split <;> simp [lines_setLines_ne _ _ h]

lemma gpioSetMode_af_ne (h : pin ≠ q) : (gpioSetMode p pin mode).af q = p.af q := by
  rw [gpioSetMode_eq]
  split <;> simp [af_setAf_ne _ _ h]

lemma setLines_comm (h : pin ≠ q) (l' : PinLines) :
    (p.setLines pin l).setLines q l' = (p.setLines q l').setLines pin l := by
  have hval : pin.val ≠ q.val := fun hv => h (Fin.ext hv)
  simp only [GpioPort.setLines, setField_comm _ _ _ hval]

lemma setAf_setLines : (p.setAf pin af).setLines q l = (p.setLines q l).setAf pin af := by
  unfold GpioPort.setAf
  split <;> rfl

lemma setAf_comm (h : pin ≠ q) (af' : BitVec 4) :
    (p.setAf pin af).setAf q af' = (p.setAf q af').setAf pin af := by
  have hval : pin.val ≠ q.val := fun hv => h (Fin.ext hv)
  unfold GpioPort.setAf
  by_cases hp : pin.val < 8 <;> by_cases hq : q.val < 8
  · simp only [hp, hq, if_true, setField_comm _ _ _ hval]
  · simp only [hp, hq, if_true, if_false]
  · simp only [hp, hq, if_true, if_false]
  · have hsub : pin.val - 8 ≠ q.val - 8 := by omega
    simp only [hp, hq, if_false, setField_comm _ _ _ hsub]

theorem gpioSetMode_comm (h : pin ≠ q) :
    gpioSetMode (gpioSetMode p pin mode) q mode' =
      gpioSetMode (gpioSetMode p q mode') pin mode := by
  simp only [gpioSetMode_eq]
  by_cases hm : IsAlternate mode <;> by_cases hm' : IsAlternate mode' <;>
    simp only [hm, hm', if_true, if_false]
  · rw [setAf_setLines, setLines_comm _ _ h, setAf_comm _ _ h, ← setAf_setLines]
  · rw [setAf_setLines, setLines_comm _ _ h]
  · rw [setLines_comm _ _ h, setAf_setLines]
  · rw [setLines_comm _ _ h]

end OneCall

/-! ### The writes of a call -/

inductive PortReg
  | moder
  | otyper
  | pupdr
  | afr0
  | afr1
deriving DecidableEq, Repr

/-- An `&=` or `|=` on a register: one read and one write. -/
inductive RegOp
  | and (r : PortReg) (v : BitVec 32)
  | or (r : PortReg) (v : BitVec 32)
deriving DecidableEq, Repr

def GpioPort.modify (p : GpioPort) (f : BitVec 32 → BitVec 32) : PortReg → GpioPort
  | .moder => { p with moder := f p.moder }
  | .otyper => { p with otyper := f p.otyper }
  | .pupdr => { p with pupdr := f p.pupdr }
  | .afr0 => { p with afr0 := f p.afr0 }
  | .afr1 => { p with afr1 := f p.afr1 }

def GpioPort.apply (p : GpioPort) : RegOp → GpioPort
  | .and r v => p.modify (· &&& v) r
  | .or r v => p.modify (· ||| v) r

/-- The writes of `setGpioAf`. -/
def setGpioAfOps (pin : Fin 16) (af : BitVec 8) : List RegOp :=
  if pin.val < 8 then
    [.and .afr0 (~~~(0x0F#32 <<< (pin.val * 4))), .or .afr0 (af.setWidth 32 <<< (pin.val * 4))]
  else
    [.and .afr1 (~~~(0x0F#32 <<< ((pin.val - 8) * 4))),
      .or .afr1 (af.setWidth 32 <<< ((pin.val - 8) * 4))]

/-- The three `|=` of one case of the switch. -/
def orModeOps (pin : Fin 16) (mode type pup : BitVec 32) : List RegOp :=
  [.or .moder (mode <<< (pin.val * 2)), .or .otyper (type <<< pin.val),
    .or .pupdr (pup <<< (pin.val * 2))]

/-- The writes of `gpio_setMode`, in order. -/
def gpioSetModeOps (pin : Fin 16) (mode : BitVec 16) : List RegOp :=
  let af := afOf mode
  [.and .moder (~~~(3#32 <<< (pin.val * 2))), .and .otyper (~~~(1#32 <<< pin.val)),
    .and .pupdr (~~~(3#32 <<< (pin.val * 2)))] ++
  match modeOf mode with
  | some .input => orModeOps pin 0x00#32 0x00#32 0x00#32
  | some .inputPullUp => orModeOps pin 0x00#32 0x00#32 0x01#32
  | some .inputPullDown => orModeOps pin 0x00#32 0x00#32 0x02#32
  | some .analog => orModeOps pin 0x03#32 0x00#32 0x00#32
  | some .output => orModeOps pin 0x01#32 0x00#32 0x00#32
  | some .openDrain => orModeOps pin 0x01#32 0x01#32 0x00#32
  | some .openDrainPu => orModeOps pin 0x01#32 0x01#32 0x00#32
  | some .alternate => orModeOps pin 0x02#32 0x00#32 0x00#32 ++ setGpioAfOps pin af
  | some .alternateOd => orModeOps pin 0x02#32 0x01#32 0x00#32 ++ setGpioAfOps pin af
  | some .alternateOdPu => orModeOps pin 0x02#32 0x01#32 0x01#32 ++ setGpioAfOps pin af
  | none => orModeOps pin 0x00#32 0x00#32 0x00#32

section Writes

variable (p : GpioPort) (pin : Fin 16)

lemma foldl_setGpioAfOps (af : BitVec 8) :
    (setGpioAfOps pin af).foldl GpioPort.apply p = setGpioAf p pin af := by
  unfold setGpioAfOps setGpioAf
  split <;> rfl

/-- **The writes of a call**, one after the other, are the call. -/
theorem foldl_gpioSetModeOps (mode : BitVec 16) :
    (gpioSetModeOps pin mode).foldl GpioPort.apply p = gpioSetMode p pin mode := by
  unfold gpioSetModeOps gpioSetMode
  rw [List.foldl_append]
  rcases modeOf mode with _ | m
  · rfl
  · cases m <;> simp only [List.foldl_append, foldl_setGpioAfOps] <;> rfl

variable {pin}

/-- The write leaves the fields and the nibble of every other pin alone. -/
def RegOp.Concerns (op : RegOp) (pin : Fin 16) : Prop :=
  ∀ p : GpioPort, ∀ q, pin ≠ q → (p.apply op).lines q = p.lines q ∧ (p.apply op).af q = p.af q

lemma concerns_clear {op : RegOp}
    (h : op ∈ [.and .moder (~~~(3#32 <<< (pin.val * 2))), .and .otyper (~~~(1#32 <<< pin.val)),
      RegOp.and .pupdr (~~~(3#32 <<< (pin.val * 2)))]) : op.Concerns pin := by
  intro p q hq
  have hval : pin.val ≠ q.val := fun hv => hq (Fin.ext hv)
  have h₂ (w : BitVec 32) : field 2 (w &&& ~~~(3#32 <<< (pin.val * 2))) q = field 2 w q :=
    field_clear_ne w hval
  have h₁ (w : BitVec 32) : field 1 (w &&& ~~~(1#32 <<< pin.val)) q = field 1 w q := by
    have hclear := field_clear_ne (k := 1) w hval
    rwa [Nat.mul_one] at hclear
  simp only [List.mem_cons, List.not_mem_nil, or_false] at h
  rcases h with rfl | rfl | rfl
  · exact ⟨congrArg (PinLines.mk · _ _) (h₂ p.moder), rfl⟩
  · exact ⟨congrArg (PinLines.mk _ · _) (h₁ p.otyper), rfl⟩
  · exact ⟨congrArg (PinLines.mk _ _ ·) (h₂ p.pupdr), rfl⟩

lemma concerns_orMode (l : PinLines) {op : RegOp}
    (h : op ∈ orModeOps pin (l.moder.setWidth 32) (l.otyper.setWidth 32) (l.pupdr.setWidth 32)) :
    op.Concerns pin := by
  intro p q hq
  have hval : pin.val ≠ q.val := fun hv => hq (Fin.ext hv)
  have h₁ : field 1 (p.otyper ||| (l.otyper.setWidth 32 <<< pin.val)) q = field 1 p.otyper q := by
    have hor := field_or_ne p.otyper l.otyper hval
    rwa [Nat.mul_one] at hor
  simp only [orModeOps, List.mem_cons, List.not_mem_nil, or_false] at h
  rcases h with rfl | rfl | rfl
  · exact ⟨congrArg (PinLines.mk · _ _) (field_or_ne p.moder l.moder hval), rfl⟩
  · exact ⟨congrArg (PinLines.mk _ · _) h₁, rfl⟩
  · exact ⟨congrArg (PinLines.mk _ _ ·) (field_or_ne p.pupdr l.pupdr hval), rfl⟩

lemma concerns_setGpioAf (mode : BitVec 16) {op : RegOp} (h : op ∈ setGpioAfOps pin (afOf mode)) :
    op.Concerns pin := by
  intro p q hq
  have hval : pin.val ≠ q.val := fun hv => hq (Fin.ext hv)
  rw [setGpioAfOps, setWidth_afOf] at h
  split at h
  all_goals
    simp only [List.mem_cons, List.not_mem_nil, or_false] at h
    rcases h with rfl | rfl
  · exact ⟨rfl, if_congr Iff.rfl (field_clear_ne p.afr0 hval) rfl⟩
  · exact ⟨rfl, if_congr Iff.rfl (field_or_ne p.afr0 _ hval) rfl⟩
  · refine ⟨rfl, ?_⟩
    by_cases hlow : q.val < 8
    · exact (if_pos hlow).trans (if_pos hlow).symm
    · have hsub : pin.val - 8 ≠ q.val - 8 := by omega
      exact ((if_neg hlow).trans (field_clear_ne p.afr1 hsub)).trans (if_neg hlow).symm
  · refine ⟨rfl, ?_⟩
    by_cases hlow : q.val < 8
    · exact (if_pos hlow).trans (if_pos hlow).symm
    · have hsub : pin.val - 8 ≠ q.val - 8 := by omega
      exact ((if_neg hlow).trans (field_or_ne p.afr1 _ hsub)).trans (if_neg hlow).symm

/-- **Every write of a call** concerns the pin of the call. -/
theorem concerns_of_mem {mode : BitVec 16} {op : RegOp} (h : op ∈ gpioSetModeOps pin mode) :
    op.Concerns pin := by
  have hor := @concerns_orMode pin (written (modeOf mode)) op
  rcases List.mem_append.mp h with h | h
  · exact concerns_clear h
  · rcases hm : modeOf mode with _ | m <;> rw [hm] at h hor
    · exact hor h
    · cases m with
      | alternate | alternateOd | alternateOdPu =>
        rcases List.mem_append.mp h with h | h
        · exact hor h
        · exact concerns_setGpioAf mode h
      | _ => exact hor h

end Writes

/-! ### A list of calls -/

/-- The port after a list of calls, each a pin and a mode. -/
def gpioSetModes (port : GpioPort) (calls : List (Fin 16 × BitVec 16)) : GpioPort :=
  calls.foldl (fun p c => gpioSetMode p c.1 c.2) port

/-- The modes that a list of calls sets on a pin, in order. -/
def modesFor (pin : Fin 16) (calls : List (Fin 16 × BitVec 16)) : List (BitVec 16) :=
  (calls.filter fun c => c.1 = pin).map Prod.snd

/-- Last writer wins, pin by pin: the fields are those documented for the last mode set on a pin,
the nibble is the function of the last alternate mode set on it, a pin no call names keeps both,
and two neighbouring calls on different pins can be exchanged. -/
structure LastWriterWins (port : GpioPort) (calls : List (Fin 16 × BitVec 16)) : Prop where
  lines : ∀ pin, (gpioSetModes port calls).lines pin =
    ((modesFor pin calls).getLast?.map fun m => documented (modeOf m)).getD (port.lines pin)
  af : ∀ pin, (gpioSetModes port calls).af pin =
    (((modesFor pin calls).filter fun m => IsAlternate m).getLast?.map functionOf).getD (port.af pin)
  comm : ∀ pre c d post, calls = pre ++ c :: d :: post → c.1 ≠ d.1 →
    gpioSetModes port (pre ++ d :: c :: post) = gpioSetModes port calls

lemma gpioSetModes_concat (port : GpioPort) (calls : List (Fin 16 × BitVec 16))
    (c : Fin 16 × BitVec 16) :
    gpioSetModes port (calls ++ [c]) = gpioSetMode (gpioSetModes port calls) c.1 c.2 := by
  simp [gpioSetModes]

lemma modesFor_concat_self (calls : List (Fin 16 × BitVec 16)) (c : Fin 16 × BitVec 16) :
    modesFor c.1 (calls ++ [c]) = modesFor c.1 calls ++ [c.2] := by
  simp [modesFor]

lemma modesFor_concat_ne (calls : List (Fin 16 × BitVec 16)) {c : Fin 16 × BitVec 16}
    {pin : Fin 16} (h : c.1 ≠ pin) : modesFor pin (calls ++ [c]) = modesFor pin calls := by
  simp [modesFor, h]

/-- **The fields after a list of calls** are those the code writes for the last mode. -/
theorem gpioSetModes_lines (port : GpioPort) (calls : List (Fin 16 × BitVec 16)) (pin : Fin 16) :
    (gpioSetModes port calls).lines pin =
      ((modesFor pin calls).getLast?.map fun m => written (modeOf m)).getD (port.lines pin) := by
  induction calls using List.reverseRecOn with
  | nil => rfl
  | append_singleton calls c ih =>
    rw [gpioSetModes_concat]
    by_cases h : c.1 = pin
    · subst h
      rw [gpioSetMode_lines_self, modesFor_concat_self]
      simp
    · rw [gpioSetMode_lines_ne _ _ h, ih, modesFor_concat_ne _ h]

/-- **The nibble after a list of calls** is the function of the last alternate mode. -/
theorem gpioSetModes_af (port : GpioPort) (calls : List (Fin 16 × BitVec 16)) (pin : Fin 16) :
    (gpioSetModes port calls).af pin =
      (((modesFor pin calls).filter fun m => IsAlternate m).getLast?.map functionOf).getD
        (port.af pin) := by
  induction calls using List.reverseRecOn with
  | nil => rfl
  | append_singleton calls c ih =>
    rw [gpioSetModes_concat]
    by_cases h : c.1 = pin
    · subst h
      rw [gpioSetMode_af_self, modesFor_concat_self, ih]
      by_cases hm : IsAlternate c.2
      · simp [hm]
      · simp [hm]
    · rw [gpioSetMode_af_ne _ _ h, ih, modesFor_concat_ne _ h]

theorem gpioSetModes_comm (port : GpioPort) (pre post : List (Fin 16 × BitVec 16))
    (c d : Fin 16 × BitVec 16) (h : c.1 ≠ d.1) :
    gpioSetModes port (pre ++ d :: c :: post) = gpioSetModes port (pre ++ c :: d :: post) := by
  simp only [gpioSetModes, List.foldl_append, List.foldl_cons, gpioSetMode_comm _ _ _ h]

/-- **`gpio_setMode` is last-writer-wins per pin** exactly when `OPEN_DRAIN_PU` is the last mode of
no pin: that mode writes no pull-up. -/
theorem lastWriterWins_iff (port : GpioPort) (calls : List (Fin 16 × BitVec 16)) :
    LastWriterWins port calls ↔
      ∀ pin, ∀ m ∈ (modesFor pin calls).getLast?, modeOf m ≠ some .openDrainPu := by
  constructor
  · intro h pin m hm
    have hl := h.lines pin
    rw [gpioSetModes_lines, Option.mem_def.mp hm] at hl
    exact (written_eq_documented_iff _).mp hl
  · intro h
    refine ⟨fun pin => ?_, gpioSetModes_af port calls, ?_⟩
    · rw [gpioSetModes_lines]
      rcases hm : (modesFor pin calls).getLast? with _ | m
      · rfl
      · exact (written_eq_documented_iff _).mpr (h pin m (Option.mem_def.mpr hm))
    · rintro pre c d post rfl hcd
      exact gpioSetModes_comm port pre post c d hcd

/-- One call of `OPEN_DRAIN_PU` on pin 3 of a cleared port leaves the pin without its pull-up. -/
theorem openDrainPu_no_pull : ¬ LastWriterWins ⟨0, 0, 0, 0, 0⟩ [(3, 6)] := by
  intro h
  exact absurd (h.lines 3) (by decide)

end Cs7000pBootloader.Gpio
