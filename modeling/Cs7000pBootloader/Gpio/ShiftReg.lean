import Cs7000pBootloader.Gpio.Port
import Cs7000pBootloader.Lib.Runs
import Mathlib.Data.BitVec
import Mathlib.Logic.Function.Basic

/-!
The shift-register outputs `extGpio`: the array `srData_extGpio` with the functions that set, clear
and read its bits, and the port writes they issue.  The theorem of this module says which lists of
calls see 24 independent bits.
-/

namespace Cs7000pBootloader.Gpio

open Lib

/-! ### Port writes -/

/-- What the functions do to a port and to the interrupt mask. -/
inductive PortOp
  | reg (op : RegOp)
  | bsrr (v : BitVec 32)
  | disableIrq
  | enableIrq
deriving DecidableEq, Repr

/-- `gpio_setPin` -/
def gpioSetPin (pin : ℕ) : PortOp := .bsrr (1#32 <<< pin)

/-- `gpio_clearPin` -/
def gpioClearPin (pin : ℕ) : PortOp := .bsrr (1#32 <<< (pin + 16))

/-- The pins `GPIOEXT_CLK`, `GPIOEXT_DAT` and `GPIOEXT_STR` of port E. -/
def gpioextClk : Fin 16 := 7
def gpioextDat : Fin 16 := 9
def gpioextStr : Fin 16 := 8

/-- The pins `PHONE_TXD`, `USB_DM` and `USB_DP` of port A. -/
def phoneTxd : Fin 16 := 0
def usbDm : Fin 16 := 11
def usbDp : Fin 16 := 12

/-- One turn of the inner loop of `spiSr_send`; the delays between the writes are left out. -/
def spiSrBit (value : BitVec 8) (cnt : ℕ) : List PortOp :=
  [.bsrr (1#32 <<< 23),
    if value &&& (0x80#8 >>> cnt) ≠ 0 then .bsrr (1#32 <<< 9) else .bsrr (1#32 <<< 25),
    .bsrr (1#32 <<< 7)]

/-- `spiSr_send`, of a buffer with its size. -/
def spiSrSend (txbuf : List (BitVec 8)) : List PortOp :=
  txbuf.flatMap fun value => (List.range 8).flatMap (spiSrBit value)

/-! ### The array -/

/-- `srData_extGpio` -/
abbrev SrData := Vector (BitVec 8) 3

/-- `gpioShiftReg_init`: the array afterwards, whatever it held. -/
def gpioShiftRegInit : SrData × List PortOp :=
  let srData : SrData := Vector.replicate 3 0x00
  (srData,
    (gpioSetModeOps gpioextStr 4 ++ gpioSetModeOps gpioextClk 4 ++
      gpioSetModeOps gpioextDat 4).map .reg ++ [gpioClearPin gpioextStr] ++
        spiSrSend srData.toList ++ [gpioSetPin gpioextStr])

/-- `const size_t byte = (24 - 1 - pin) / 8`: a division of `int`, then a conversion. -/
def srByte (pin : BitVec 8) : BitVec 32 := BitVec.ofInt 32 ((24 - 1 - (pin.toNat : ℤ)).tdiv 8)

/-- `const size_t bit = pin % 8` -/
def srBit (pin : BitVec 8) : ℕ := pin.toNat % 8

/-- `gpioShiftReg_modify`: `none` is an access outside the array. -/
def gpioShiftRegModify (srData : SrData) (pin : BitVec 8) (state : Bool) :
    Option (SrData × List PortOp) :=
  let byte := (srByte pin).toNat
  let bit := srBit pin
  if pin > 24 then some (srData, [])
  else
    match srData[byte]? with
    | none => none
    | some v =>
      let v := if state = true then v ||| (1#8 <<< bit) else v &&& ~~~(1#8 <<< bit)
      let srData := srData.setIfInBounds byte v
      some (srData,
        [.disableIrq, gpioClearPin gpioextStr] ++ spiSrSend srData.toList ++
          [gpioSetPin gpioextStr, .enableIrq])

/-- `gpioShiftReg_set` -/
def gpioShiftRegSet (srData : SrData) (pin : BitVec 8) := gpioShiftRegModify srData pin true

/-- `gpioShiftReg_clear` -/
def gpioShiftRegClear (srData : SrData) (pin : BitVec 8) := gpioShiftRegModify srData pin false

/-- `gpioShiftReg_read` -/
def gpioShiftRegRead (srData : SrData) (pin : BitVec 8) : Option Bool :=
  let byte := (srByte pin).toNat
  let bit := srBit pin
  if pin > 24 then some false
  else
    match srData[byte]? with
    | none => none
    | some v => some (v &&& (1#8 <<< bit) ≠ 0)

/-! ### Calls -/

/-- A call through `extGpio` that writes. -/
inductive SrCall
  | set (pin : BitVec 8)
  | clear (pin : BitVec 8)
deriving DecidableEq, Repr

def SrCall.pin : SrCall → BitVec 8
  | set p | clear p => p

def SrCall.value : SrCall → Bool
  | set _ => true
  | clear _ => false

/-- The array after a call, and the writes of the call; once an access has left the array nothing is
known any more. -/
def srCall : Option SrData → SrCall → Option SrData × List PortOp
  | none, _ => (none, [])
  | some d, c =>
    let written := match c with
      | .set p => gpioShiftRegSet d p
      | .clear p => gpioShiftRegClear d p
    match written with
    | none => (none, [])
    | some (d, ops) => (some d, ops)

/-! ### The bits of the array -/

/-- The bit of pin `p` as the chain is wired: byte 0 holds pins 16 to 23. -/
def pinBit (d : SrData) (p : ℕ) : Bool := d[2 - p / 8].getLsbD (p % 8)

lemma srByte_toNat {pin : BitVec 8} (h : pin < 24) : (srByte pin).toNat = 2 - pin.toNat / 8 := by
  have hp : pin.toNat < 24 := BitVec.lt_def.mp h
  have hdiv : (24 - 1 - (pin.toNat : ℤ)).tdiv 8 = ((2 - pin.toNat / 8 : ℕ) : ℤ) := by
    rw [Int.tdiv_eq_ediv_of_nonneg (by omega)]
    omega
  rw [srByte, hdiv, BitVec.ofInt_natCast, BitVec.toNat_ofNat]
  omega

/-- **Pin 24 is pin 16**: the division of `-1` truncates to 0 and the bound check lets it pass. -/
theorem gpioShiftRegModify_24 (d : SrData) (b : Bool) :
    gpioShiftRegModify d 24 b = gpioShiftRegModify d 16 b := rfl

theorem gpioShiftRegRead_24 (d : SrData) : gpioShiftRegRead d 24 = gpioShiftRegRead d 16 := rfl

lemma getLsbD_mask {n i j : ℕ} (hi : i < n) : (1#n <<< i).getLsbD j = decide (i = j) := by
  rw [← BitVec.twoPow_eq, BitVec.getLsbD_twoPow, decide_eq_true hi, Bool.true_and]

lemma getLsbD_modified (v : BitVec 8) (b : Bool) {i j : ℕ} (hi : i < 8) (hj : j < 8) :
    (if b = true then v ||| (1#8 <<< i) else v &&& ~~~(1#8 <<< i)).getLsbD j =
      if i = j then b else v.getLsbD j := by
  cases b
  · simp only [Bool.false_eq_true, if_false, BitVec.getLsbD_and, BitVec.getLsbD_not,
      getLsbD_mask hi, decide_eq_true hj, Bool.true_and]
    by_cases h : i = j <;> simp [h]
  · simp only [if_true, BitVec.getLsbD_or, getLsbD_mask hi]
    by_cases h : i = j <;> simp [h]

lemma and_mask_ne_zero {n : ℕ} (v : BitVec n) {i : ℕ} (hi : i < n) :
    decide (v &&& (1#n <<< i) ≠ 0) = v.getLsbD i := by
  have hbit : (v &&& (1#n <<< i)).getLsbD i = v.getLsbD i := by
    rw [BitVec.getLsbD_and, getLsbD_mask hi, decide_eq_true rfl, Bool.and_true]
  cases hv : v.getLsbD i with
  | true =>
    refine decide_eq_true fun h0 => ?_
    rw [h0, hv] at hbit
    simp at hbit
  | false =>
    refine decide_eq_false fun hne => hne ?_
    apply BitVec.eq_of_getLsbD_eq
    intro j _
    rw [BitVec.getLsbD_and, getLsbD_mask hi]
    by_cases h : i = j
    · subst h
      simp [hv]
    · simp [h]

lemma not_gt_of_lt {pin : BitVec 8} (h : pin < 24) : ¬ pin > 24 := by
  have := BitVec.lt_def.mp h
  intro hg
  have := BitVec.lt_def.mp hg
  simp at *
  omega

theorem gpioShiftRegRead_eq (d : SrData) {pin : BitVec 8} (h : pin < 24) :
    gpioShiftRegRead d pin = some (pinBit d pin.toNat) := by
  have hbyte : 2 - pin.toNat / 8 < 3 := by omega
  have hbit : pin.toNat % 8 < 8 := Nat.mod_lt _ (by omega)
  simp only [gpioShiftRegRead, if_neg (not_gt_of_lt h), srByte_toNat h, srBit,
    Vector.getElem?_eq_getElem hbyte]
  exact congrArg some (and_mask_ne_zero _ hbit)

lemma pin_eq_of_place {p q : ℕ} (hp : p < 24) (hq : q < 24) (hbyte : 2 - p / 8 = 2 - q / 8)
    (hbit : p % 8 = q % 8) : p = q := by omega

/-- **A write to one of the 24 pins** stays in the array, gives the pin its value and leaves every
other pin as it was. -/
theorem gpioShiftRegModify_spec (d : SrData) {pin : BitVec 8} (h : pin < 24) (b : Bool) :
    ∃ d', gpioShiftRegModify d pin b =
        some (d', [.disableIrq, gpioClearPin gpioextStr] ++ spiSrSend d'.toList ++
          [gpioSetPin gpioextStr, .enableIrq]) ∧
      ∀ q, q < 24 → pinBit d' q = if q = pin.toNat then b else pinBit d q := by
  have hp : pin.toNat < 24 := BitVec.lt_def.mp h
  have hbyte : 2 - pin.toNat / 8 < 3 := by omega
  have hbit : pin.toNat % 8 < 8 := Nat.mod_lt _ (by omega)
  simp only [gpioShiftRegModify, if_neg (not_gt_of_lt h), srByte_toNat h, srBit,
    Vector.getElem?_eq_getElem hbyte]
  refine ⟨_, rfl, fun q hq => ?_⟩
  have hqbit : q % 8 < 8 := Nat.mod_lt _ (by omega)
  simp only [pinBit, Vector.getElem_setIfInBounds]
  by_cases hb : 2 - pin.toNat / 8 = 2 - q / 8
  · simp only [hb, if_true, getLsbD_modified _ b hbit hqbit]
    by_cases hi : pin.toNat % 8 = q % 8
    · rw [if_pos hi, if_pos (pin_eq_of_place hp hq hb hi).symm]
    · rw [if_neg hi, if_neg fun he => hi (by rw [he])]
  · rw [if_neg hb, if_neg fun he => hb (by rw [he])]

lemma gpioShiftRegModify_above (d : SrData) {pin : BitVec 8} (h : pin > 24) (b : Bool) :
    gpioShiftRegModify d pin b = some (d, []) := if_pos h

lemma gpioShiftRegRead_above (d : SrData) {pin : BitVec 8} (h : pin > 24) :
    gpioShiftRegRead d pin = some false := if_pos h

lemma srData_ext {d d' : SrData} (h : ∀ q, q < 24 → pinBit d q = pinBit d' q) : d = d' := by
  apply Vector.ext
  intro i hi
  apply BitVec.eq_of_getLsbD_eq
  intro j hj
  have hq := h ((2 - i) * 8 + j) (by omega)
  have hdiv : 2 - ((2 - i) * 8 + j) / 8 = i := by omega
  have hmod : ((2 - i) * 8 + j) % 8 = j := by omega
  simpa only [pinBit, hdiv, hmod] using hq

/-! ### Lists of calls -/

/-- The value last written to each pin, after one more call. -/
def lastWritten (c : SrCall) (w : BitVec 8 → Bool) : BitVec 8 → Bool :=
  Function.update w c.pin c.value

/-- The array, and what the calls so far wrote last. -/
abbrev SrRun := Option SrData × (BitVec 8 → Bool)

def srStep : SrRun → SrCall → SrRun × List PortOp := withGhost srCall fun _ => lastWritten

/-- After `gpioShiftReg_init`, with nothing written. -/
def srStart : SrRun := (some gpioShiftRegInit.1, fun _ => false)

/-- A pin that does not exist is ignored. -/
def IgnoresAbsent (s : SrRun) (c : SrCall) : Prop := 24 ≤ c.pin → (srStep s c).1.1 = s.1

/-- What is asked of a list of calls: those on pins that do not exist are ignored, and after the last
one, with no access outside the array, each of the 24 pins reads as last written and every other one
reads false. -/
structure IndependentBits (cs : List SrCall) : Prop where
  ignored : Along srStep IgnoresAbsent srStart cs
  reads : ∃ d, (run srStep srStart cs).1.1 = some d ∧
    ∀ p, gpioShiftRegRead d p = some (if p < 24 then (run srStep srStart cs).1.2 p else false)

/-- The call does not write to pin 24, or writes what pin 16 has already. -/
def Harmless (s : SrRun) (c : SrCall) : Prop := c.pin = 24 → s.2 16 = c.value

/-- The array holds the values last written. -/
def Holds (s : SrRun) : Prop := ∃ d, s.1 = some d ∧ ∀ q, q < 24 → gpioShiftRegRead d q = some (s.2 q)

lemma holds_start : Holds srStart := by
  refine ⟨_, rfl, fun q hq => ?_⟩
  rw [gpioShiftRegRead_eq _ hq]
  simp [pinBit, gpioShiftRegInit, srStart]

lemma pin_cases (p : BitVec 8) : p < 24 ∨ p = 24 ∨ p > 24 := by
  rcases Nat.lt_trichotomy p.toNat 24 with h | h | h
  · exact .inl (BitVec.lt_def.mpr h)
  · exact .inr (.inl (BitVec.eq_of_toNat_eq h))
  · exact .inr (.inr (BitVec.lt_def.mpr h))

lemma update_of_ge {w : BitVec 8 → Bool} {p q : BitVec 8} (hq : q < 24) (hp : ¬ p < 24) (b : Bool) :
    Function.update w p b q = w q := by
  refine Function.update_of_ne ?_ b w
  rintro rfl
  exact hp hq

lemma modify_values {d : SrData} {w : BitVec 8 → Bool}
    (hd : ∀ q, q < 24 → gpioShiftRegRead d q = some (w q)) {p : BitVec 8} (hp : p < 24) (b : Bool) :
    ∃ d', (gpioShiftRegModify d p b).map Prod.fst = some d' ∧
      ∀ q, q < 24 → gpioShiftRegRead d' q = some (Function.update w p b q) := by
  obtain ⟨d', hm, hbits⟩ := gpioShiftRegModify_spec d hp b
  refine ⟨d', by rw [hm]; rfl, fun q hq => ?_⟩
  rw [gpioShiftRegRead_eq _ hq, hbits _ (BitVec.lt_def.mp hq)]
  by_cases h : q = p
  · subst h
    simp
  · have hq' := hd q hq
    rw [gpioShiftRegRead_eq _ hq] at hq'
    rw [if_neg fun he => h (BitVec.eq_of_toNat_eq he), Function.update_of_ne h]
    exact hq'

/-- Writing to pin 24 leaves the array alone exactly when pin 16 has the value already. -/
lemma modify_24 {d : SrData} {w : BitVec 8 → Bool}
    (hd : ∀ q, q < 24 → gpioShiftRegRead d q = some (w q)) (b : Bool) :
    ∃ d', (gpioShiftRegModify d 24 b).map Prod.fst = some d' ∧ (d' = d ↔ w 16 = b) := by
  have hlt : (16 : BitVec 8) < 24 := by decide
  obtain ⟨d', hm, hbits⟩ := gpioShiftRegModify_spec d hlt b
  have h16 := hd 16 hlt
  rw [gpioShiftRegRead_eq _ hlt] at h16
  have hw : pinBit d 16 = w 16 := Option.some.inj h16
  refine ⟨d', by rw [gpioShiftRegModify_24, hm]; rfl, ?_, ?_⟩
  · rintro rfl
    have := hbits 16 (by omega)
    rw [← hw, this]
    rfl
  · intro hb
    refine srData_ext fun q hq => ?_
    rw [hbits q hq]
    split_ifs with h
    · rw [h, ← hb, ← hw]
      rfl
    · rfl

lemma srStep_some {d : SrData} {w : BitVec 8 → Bool} (c : SrCall) :
    (srStep (some d, w) c).1 =
      ((gpioShiftRegModify d c.pin c.value).map Prod.fst, Function.update w c.pin c.value) := by
  cases c <;>
  · simp only [srStep, withGhost, srCall, gpioShiftRegSet, gpioShiftRegClear, SrCall.pin,
      SrCall.value, lastWritten]
    split <;> simp [*]

/-- **One call** ignores a pin that does not exist exactly when it is harmless. -/
lemma ignoresAbsent_iff {s : SrRun} (hs : Holds s) (c : SrCall) :
    IgnoresAbsent s c ↔ Harmless s c := by
  obtain ⟨o, w⟩ := s
  obtain ⟨d, rfl, hd⟩ := hs
  rw [IgnoresAbsent, Harmless, srStep_some]
  rcases pin_cases c.pin with hp | hp | hp
  · refine iff_of_true (fun hle => absurd hle (BitVec.not_le.mpr hp)) fun he => ?_
    rw [he] at hp
    exact absurd hp (by decide)
  · obtain ⟨d', hm, hiff⟩ := modify_24 hd c.value
    simp only [hp, hm, Option.some.injEq, hiff, forall_const]
    exact forall_prop_of_true (by decide)
  · refine iff_of_true (fun _ => ?_) fun he => ?_
    · rw [gpioShiftRegModify_above _ hp]
      rfl
    · rw [he] at hp
      exact absurd hp (by decide)

lemma IgnoresAbsent.holds {s : SrRun} {c : SrCall} (hs : Holds s) (h : IgnoresAbsent s c) :
    Holds (srStep s c).1 := by
  obtain ⟨o, w⟩ := s
  obtain ⟨d, rfl, hd⟩ := hs
  by_cases hp : c.pin < 24
  · obtain ⟨d', hm, hv⟩ := modify_values hd hp c.value
    rw [srStep_some, hm]
    exact ⟨d', rfl, hv⟩
  · have hsame := h (BitVec.not_lt.mp hp)
    rw [srStep_some] at hsame
    rw [srStep_some]
    exact ⟨d, hsame, fun q hq => (hd q hq).trans (congrArg some (update_of_ge hq hp _).symm)⟩

/-- **Every pin reads as it should** exactly when pin 16, which pin 24 returns, was last cleared. -/
lemma reads_iff {d : SrData} {w : BitVec 8 → Bool}
    (hd : ∀ q, q < 24 → gpioShiftRegRead d q = some (w q)) :
    (∀ p, gpioShiftRegRead d p = some (if p < 24 then w p else false)) ↔ w 16 = false := by
  have h24 : gpioShiftRegRead d 24 = some (w 16) := (gpioShiftRegRead_24 d).trans (hd 16 (by decide))
  constructor
  · intro h
    exact Option.some.inj (h24.symm.trans (h 24))
  · intro h p
    rcases pin_cases p with hp | rfl | hp
    · rw [hd p hp, if_pos hp]
    · rw [h24, h]
      rfl
    · rw [gpioShiftRegRead_above d hp, if_neg (BitVec.not_lt.mpr (BitVec.le_of_lt hp))]

theorem independentBits_iff (cs : List SrCall) :
    IndependentBits cs ↔
      Along srStep Harmless srStart cs ∧ (run srStep srStart cs).1.2 16 = false := by
  have halong : Along srStep IgnoresAbsent srStart cs ↔ Along srStep Harmless srStart cs :=
    along_iff_of_inv (I := Holds) (fun s c hs hc => ((ignoresAbsent_iff hs c).mpr hc).holds hs)
      (fun s c hs => ignoresAbsent_iff hs c) holds_start
  have hend (h : Along srStep IgnoresAbsent srStart cs) : Holds (run srStep srStart cs).1 :=
    run_inv (fun s c hs hc => hc.holds hs) holds_start h
  constructor
  · rintro ⟨hign, d, hsome, hreads⟩
    obtain ⟨d', hsome', hd⟩ := hend hign
    obtain rfl : d = d' := Option.some.inj (hsome.symm.trans hsome')
    exact ⟨halong.mp hign, (reads_iff hd).mp hreads⟩
  · rintro ⟨hharm, h16⟩
    obtain ⟨d, hsome, hd⟩ := hend (halong.mpr hharm)
    exact ⟨halong.mpr hharm, d, hsome, (reads_iff hd).mpr h16⟩

lemma srStep_last (s : SrRun) (c : SrCall) :
    (srStep s c).1.2 = Function.update s.2 c.pin c.value := rfl

lemma last_16 {cs : List SrCall} (h : .set 16 ∉ cs) : (run srStep srStart cs).1.2 16 = false := by
  refine run_inv (I := fun s : SrRun => s.2 16 = false) (G := fun _ c => c ≠ SrCall.set 16)
    (fun s c hs hc => ?_) rfl (along_of_mem (fun c hc => ?_) _)
  · rw [srStep_last]
    by_cases hp : c.pin = 16
    · rw [hp, Function.update_self]
      cases c with
      | set p => exact absurd (congrArg SrCall.set hp) hc
      | clear p => rfl
    · rw [Function.update_of_ne (Ne.symm hp)]
      exact hs
  · rintro rfl
    exact h hc

/-- **At every point of a list** the outputs are independent bits exactly when neither pin 16 nor pin
24 is ever set. -/
theorem independentBits_prefixes_iff (cs : List SrCall) :
    (∀ pre, pre <+: cs → IndependentBits pre) ↔ .set 16 ∉ cs ∧ .set 24 ∉ cs := by
  constructor
  · intro h
    refine ⟨fun hmem => ?_, fun hmem => ?_⟩ <;> obtain ⟨pre, post, rfl⟩ := List.mem_iff_append.mp hmem
    · have hset := ((independentBits_iff _).mp (h (pre ++ [.set 16]) ⟨post, by simp⟩)).2
      rw [run_append] at hset
      simp [run_cons, srStep_last, SrCall.pin, SrCall.value] at hset
    · have hclear := ((independentBits_iff _).mp (h pre ⟨_, rfl⟩)).2
      have hharm := ((independentBits_iff _).mp (h (pre ++ [.set 24]) ⟨post, by simp⟩)).1
      have hset : (run srStep srStart pre).1.2 16 = true := (along_append.mp hharm).2.1 rfl
      rw [hclear] at hset
      exact absurd hset (by decide)
  · rintro ⟨h16, h24⟩ pre ⟨post, rfl⟩
    have hpre : .set 16 ∉ pre := fun hmem => h16 (List.mem_append_left _ hmem)
    refine (independentBits_iff pre).mpr ⟨along_iff_split.mpr ?_, last_16 hpre⟩
    rintro before c after rfl hc
    rw [last_16 fun hmem => hpre (List.mem_append_left _ hmem)]
    cases c with
    | set p => exact absurd (by simp [← (show p = 24 from hc)]) h24
    | clear p => rfl

lemma gpioShiftRegModify_comm (d : SrData) {p q : BitVec 8} (hp : p < 24) (hq : q < 24) (h : p ≠ q)
    (a b : Bool) :
    ((gpioShiftRegModify d p a).bind fun x => gpioShiftRegModify x.1 q b).map Prod.fst =
      ((gpioShiftRegModify d q b).bind fun x => gpioShiftRegModify x.1 p a).map Prod.fst := by
  obtain ⟨d₁, h₁, hb₁⟩ := gpioShiftRegModify_spec d hp a
  obtain ⟨d₂, h₂, hb₂⟩ := gpioShiftRegModify_spec d₁ hq b
  obtain ⟨d₃, h₃, hb₃⟩ := gpioShiftRegModify_spec d hq b
  obtain ⟨d₄, h₄, hb₄⟩ := gpioShiftRegModify_spec d₃ hp a
  have hne : p.toNat ≠ q.toNat := fun he => h (BitVec.eq_of_toNat_eq he)
  have heq : d₂ = d₄ := by
    refine srData_ext fun r hr => ?_
    rw [hb₂ r hr, hb₁ r hr, hb₄ r hr, hb₃ r hr]
    by_cases hrq : r = q.toNat
    · rw [if_pos hrq, if_neg fun he => hne (he.symm.trans hrq), if_pos hrq]
    · rw [if_neg hrq, if_neg hrq]
  simp only [h₁, h₃, Option.bind_some, h₂, h₄, Option.map_some, heq]

/-- Two writes to different pins of the 24 can be exchanged, whatever the array. -/
def WritesCommute : Prop :=
  ∀ (d : SrData) (p q : BitVec 8) (a b : Bool), p < 24 → q < 24 → p ≠ q →
    ((gpioShiftRegModify d p a).bind fun x => gpioShiftRegModify x.1 q b).map Prod.fst =
      ((gpioShiftRegModify d q b).bind fun x => gpioShiftRegModify x.1 p a).map Prod.fst

/-- **The outputs behave as 24 independent bits** after a list of calls exactly when every write to pin
24 writes what pin 16 has already and pin 16 ends up clear, and at every point of the list exactly
when neither of the two is ever set; writes to different pins always commute. -/
theorem shiftReg_independent_iff (cs : List SrCall) :
    (IndependentBits cs ↔
      Along srStep Harmless srStart cs ∧ (run srStep srStart cs).1.2 16 = false) ∧
    ((∀ pre, pre <+: cs → IndependentBits pre) ↔ .set 16 ∉ cs ∧ .set 24 ∉ cs) ∧ WritesCommute :=
  ⟨independentBits_iff cs, independentBits_prefixes_iff cs,
    fun d _ _ a b hp hq h => gpioShiftRegModify_comm d hp hq h a b⟩

/-- Setting pin 24, which does not exist, sets pin 16. -/
theorem set_pin24_alters : ¬ IndependentBits [.set 24] := by
  intro h
  have hset := ((independentBits_iff _).mp h).1.1 rfl
  exact absurd hset (by decide)

end Cs7000pBootloader.Gpio
