import Cs7000pBootloader.Gpio.ShiftReg
import Cs7000pBootloader.Lib.Shift

/-!
The external shift-register chain behind `extGpio`, driven by the writes of the driver to port E:
it shifts in PE9 on a rising edge of PE7 and copies its stages to its outputs on a rising edge of
PE8.  The theorem of this module is that the outputs follow the array, without intermediate values.
-/

namespace Cs7000pBootloader.Gpio

open Lib

/-! ### The chain -/

/-- Port E, the level of a pin being that of its output latch, and the chain on it. -/
structure Chain where
  modes : GpioPort
  port : BitVec 16
  stages : BitVec 24
  outputs : BitVec 24

/-- A rising edge that the chain sees: of its clock, with PE9 before and after it, or of its
strobe. -/
inductive Edge
  | clock (before after : Bool)
  | strobe
deriving DecidableEq, Repr

/-- A write to `BSRR`: the low half sets pins, the high half resets them, and setting wins. -/
def bsrrWrite (port : BitVec 16) (v : BitVec 32) : BitVec 16 :=
  (port &&& ~~~(v.extractLsb' 16 16)) ||| v.extractLsb' 0 16

def level (port : BitVec 16) (pin : Fin 16) : Bool := port.getLsbD pin

/-- The write that takes the port from one set of levels to another raises the pin. -/
def rises (port port' : BitVec 16) (pin : Fin 16) : Bool := !level port pin && level port' pin

def chainStep (c : Chain) : PortOp → Chain × List Edge
  | .reg op => ({ c with modes := c.modes.apply op }, [])
  | .bsrr v =>
    let port := bsrrWrite c.port v
    let clk := rises c.port port gpioextClk
    let str := rises c.port port gpioextStr
    ({ c with
        port := port
        stages := if clk then c.stages.shiftConcat (level port gpioextDat) else c.stages
        outputs := if str then c.stages else c.outputs },
      (if clk then [.clock (level c.port gpioextDat) (level port gpioextDat)] else []) ++
        if str then [.strobe] else [])
  | .disableIrq => (c, [])
  | .enableIrq => (c, [])

/-! ### One write -/

section Write

variable {port : BitVec 16} {p q : Fin 16}

lemma level_bsrrWrite (v : BitVec 32) :
    level (bsrrWrite port v) q = (level port q && !v.getLsbD (16 + q) || v.getLsbD q) := by
  simp [level, bsrrWrite]

lemma level_set : level (bsrrWrite port (1#32 <<< p.val)) q = if p = q then true else level port q := by
  have hp := p.isLt
  have hne : p.val ≠ 16 + q.val := by omega
  rw [level_bsrrWrite, getLsbD_mask (by omega), getLsbD_mask (by omega), decide_eq_false hne]
  by_cases h : p = q
  · simp [h]
  · have hval : p.val ≠ q.val := fun hv => h (Fin.ext hv)
    simp [h, hval]

lemma level_clear :
    level (bsrrWrite port (1#32 <<< (p.val + 16))) q = if p = q then false else level port q := by
  have hp := p.isLt
  have hq := q.isLt
  have hne : p.val + 16 ≠ q.val := by omega
  rw [level_bsrrWrite, getLsbD_mask (by omega), getLsbD_mask (by omega), decide_eq_false hne]
  by_cases h : p = q
  · subst h
    simp [Nat.add_comm p.val 16]
  · have hval : p.val + 16 ≠ 16 + q.val := fun hv => h (Fin.ext (by omega))
    simp [h, hval]

variable {c : Chain}

lemma chainStep_clear (p : Fin 16) :
    chainStep c (gpioClearPin p) = ({ c with port := bsrrWrite c.port (1#32 <<< (p.val + 16)) }, []) := by
  have hr : ∀ q, rises c.port (bsrrWrite c.port (1#32 <<< (p.val + 16))) q = false := by
    intro q
    rw [rises, level_clear]
    split_ifs <;> simp
  simp [chainStep, gpioClearPin, hr]

@[simp] lemma run_reg (ops : List RegOp) :
    run chainStep c (ops.map .reg) = ({ c with modes := ops.foldl GpioPort.apply c.modes }, []) := by
  induction ops generalizing c with
  | nil => rfl
  | cons op ops ih => simp only [List.map_cons, run_cons, ih, chainStep, List.foldl_cons, List.nil_append]

@[simp] lemma chainStep_disableIrq : chainStep c .disableIrq = (c, []) := rfl

/-- `gpio_setPin` raises its own pin, if it was low, and no other. -/
lemma rises_set : rises port (bsrrWrite port (1#32 <<< p.val)) q = (decide (p = q) && !level port q) := by
  rw [rises, level_set]
  by_cases h : p = q <;> simp [h]

lemma clk_ne_dat : gpioextClk ≠ gpioextDat := by decide

lemma clk_ne_str : gpioextClk ≠ gpioextStr := by decide

lemma dat_ne_str : gpioextDat ≠ gpioextStr := by decide

lemma chainStep_setDat :
    chainStep c (gpioSetPin gpioextDat) =
      ({ c with port := bsrrWrite c.port (1#32 <<< gpioextDat.val) }, []) := by
  simp [chainStep, gpioSetPin, rises_set, clk_ne_dat.symm, dat_ne_str]

lemma chainStep_setClk (h : level c.port gpioextClk = false) :
    chainStep c (gpioSetPin gpioextClk) =
      ({ c with
          port := bsrrWrite c.port (1#32 <<< gpioextClk.val)
          stages := c.stages.shiftConcat (level c.port gpioextDat) },
        [.clock (level c.port gpioextDat) (level c.port gpioextDat)]) := by
  simp [chainStep, gpioSetPin, rises_set, level_set, clk_ne_dat, clk_ne_str, h]

lemma chainStep_setStr (h : level c.port gpioextStr = false) :
    chainStep c (gpioSetPin gpioextStr) =
      ({ c with port := bsrrWrite c.port (1#32 <<< gpioextStr.val), outputs := c.stages },
        [.strobe]) := by
  simp [chainStep, gpioSetPin, rises_set, clk_ne_str.symm, h]

lemma chainStep_outputs {op : PortOp} (h : .strobe ∉ (chainStep c op).2) :
    (chainStep c op).1.outputs = c.outputs := by
  cases op with
  | bsrr v =>
    simp only [chainStep] at h ⊢
    split_ifs at h ⊢ with hs
    all_goals first | rfl | simp at h
  | _ => rfl

theorem run_outputs {ops : List PortOp} (h : .strobe ∉ (run chainStep c ops).2) :
    (run chainStep c ops).1.outputs = c.outputs := by
  induction ops generalizing c with
  | nil => rfl
  | cons op ops ih =>
    rw [run_cons, List.mem_append, not_or] at h
    rw [run_cons, ih h.2, chainStep_outputs h.1]

end Write

/-! ### Sending -/

/-- The chain has had `bits` shifted in, PE9 being stable at each edge, and nothing else. -/
structure Sent (c : Chain) (ops : List PortOp) (bits : List Bool) : Prop where
  edges : (run chainStep c ops).2 = bits.map fun b => .clock b b
  stages : (run chainStep c ops).1.stages = bits.foldl BitVec.shiftConcat c.stages
  strobe : level (run chainStep c ops).1.port gpioextStr = level c.port gpioextStr

lemma Sent.nil (c : Chain) : Sent c [] [] := ⟨rfl, rfl, rfl⟩

lemma Sent.append {c : Chain} {ops ops' : List PortOp} {bits bits' : List Bool}
    (h : Sent c ops bits) (h' : Sent (run chainStep c ops).1 ops' bits') :
    Sent c (ops ++ ops') (bits ++ bits') := by
  refine ⟨?_, ?_, ?_⟩ <;> rw [run_append]
  · rw [h.edges, h'.edges, List.map_append]
  · rw [h'.stages, h.stages, List.foldl_append]
  · rw [h'.strobe, h.strobe]

lemma and_shifted_mask (value : BitVec 8) {cnt : ℕ} (h : cnt < 8) :
    decide (value &&& (0x80#8 >>> cnt) ≠ 0) = value.getMsbD cnt := by
  have hmask : ∀ i < 8, 0x80#8 >>> i = 1#8 <<< (7 - i) := by decide
  rw [hmask cnt h, and_mask_ne_zero _ (by omega), BitVec.getMsbD, decide_eq_true h, Bool.true_and]

lemma spiSrBit_eq (value : BitVec 8) {cnt : ℕ} (h : cnt < 8) :
    spiSrBit value cnt =
      [gpioClearPin gpioextClk,
        if value.getMsbD cnt then gpioSetPin gpioextDat else gpioClearPin gpioextDat,
        gpioSetPin gpioextClk] := by
  rw [← and_shifted_mask value h]
  simp only [spiSrBit, decide_eq_true_eq]
  rfl

/-- **One bit**: the clock goes low, the data pin takes the bit, the clock goes high. -/
lemma sent_bit (c : Chain) (value : BitVec 8) {cnt : ℕ} (h : cnt < 8) :
    Sent c (spiSrBit value cnt) [value.getMsbD cnt] := by
  rw [spiSrBit_eq value h]
  cases value.getMsbD cnt
  · simp only [Bool.false_eq_true, if_false]
    refine ⟨?_, ?_, ?_⟩ <;>
      simp [run_cons, chainStep_clear, chainStep_setClk, level_clear, level_set, clk_ne_dat.symm,
        dat_ne_str, clk_ne_str]
  · simp only [if_true]
    refine ⟨?_, ?_, ?_⟩ <;>
      simp [run_cons, chainStep_clear, chainStep_setDat, chainStep_setClk, level_clear, level_set,
        clk_ne_dat.symm, dat_ne_str, clk_ne_str]

lemma sent_bits (c : Chain) (value : BitVec 8) {cnts : List ℕ} (h : ∀ cnt ∈ cnts, cnt < 8) :
    Sent c (cnts.flatMap (spiSrBit value)) (cnts.map value.getMsbD) := by
  induction cnts generalizing c with
  | nil => exact .nil c
  | cons cnt cnts ih =>
    have hb := sent_bit c value (h cnt (by simp))
    exact hb.append (ih _ fun k hk => h k (List.mem_cons_of_mem _ hk))

/-- **`spiSr_send`** shifts in the bits of the buffer, most significant first and in byte order. -/
theorem sent_spiSrSend (c : Chain) (txbuf : List (BitVec 8)) :
    Sent c (spiSrSend txbuf) (bitsOf txbuf) := by
  induction txbuf generalizing c with
  | nil => exact .nil c
  | cons value txbuf ih =>
    have hlt : ∀ cnt ∈ List.range 8, cnt < 8 := fun _ h => List.mem_range.mp h
    have hb := sent_bits c value hlt
    exact hb.append (ih _)

/-- The write leaves every pin but PE7 and PE9 at its level. -/
def OnlyClkDat (op : PortOp) : Prop :=
  ∃ v, op = .bsrr v ∧
    ∀ port q, q ≠ gpioextClk → q ≠ gpioextDat → level (bsrrWrite port v) q = level port q

lemma onlyClkDat_set {p : Fin 16} (h : p = gpioextClk ∨ p = gpioextDat) :
    OnlyClkDat (gpioSetPin p) := by
  refine ⟨_, rfl, fun port q hc hd => ?_⟩
  rw [level_set, if_neg]
  rintro rfl
  exact h.elim hc hd

lemma onlyClkDat_clear {p : Fin 16} (h : p = gpioextClk ∨ p = gpioextDat) :
    OnlyClkDat (gpioClearPin p) := by
  refine ⟨_, rfl, fun port q hc hd => ?_⟩
  rw [level_clear, if_neg]
  rintro rfl
  exact h.elim hc hd

lemma onlyClkDat_of_mem {txbuf : List (BitVec 8)} {op : PortOp} (h : op ∈ spiSrSend txbuf) :
    OnlyClkDat op := by
  obtain ⟨value, -, hv⟩ := List.mem_flatMap.mp h
  obtain ⟨cnt, hcnt, hop⟩ := List.mem_flatMap.mp hv
  rw [spiSrBit_eq value (List.mem_range.mp hcnt)] at hop
  have hc := onlyClkDat_clear (p := gpioextClk) (.inl rfl)
  have hs := onlyClkDat_set (p := gpioextClk) (.inl rfl)
  have hd := onlyClkDat_set (p := gpioextDat) (.inr rfl)
  have hd' := onlyClkDat_clear (p := gpioextDat) (.inr rfl)
  simp only [List.mem_cons, List.not_mem_nil, or_false] at hop
  rcases hop with rfl | rfl | rfl
  · exact hc
  · split_ifs
    · exact hd
    · exact hd'
  · exact hs

/-! ### A transfer -/

/-- The bits of the array in the order of sending: after 24 of them stage `p` holds pin `p`. -/
lemma shifted_array (d : SrData) (s : BitVec 24) {p : ℕ} (hp : p < 24) :
    ((bitsOf d.toList).foldl BitVec.shiftConcat s).getLsbD p = pinBit d p := by
  have hlen : (bitsOf d.toList).length = 24 := by rw [length_bitsOf, Vector.length_toList]
  have hidx : (24 - 1 - p) / 8 = 2 - p / 8 := by omega
  have hbit : 7 - (24 - 1 - p) % 8 = p % 8 := by omega
  have hbyte : 2 - p / 8 < 3 := by omega
  rw [getLsbD_foldl_shiftConcat _ _ hp, List.getElem?_reverse (by omega), hlen,
    getElem?_bitsOf (by omega), hidx]
  have hget : d.toList[2 - p / 8]? = some d[2 - p / 8] := by simp [hbyte]
  have hmod : (24 - 1 - p) % 8 < 8 := Nat.mod_lt _ (by omega)
  rw [hget]
  simp only [Option.map_some, Option.getD_some, BitVec.getMsbD, decide_eq_true hmod, Bool.true_and,
    pinBit]
  rw [show 8 - 1 - (24 - 1 - p) % 8 = p % 8 from hbit]

/-- **A transfer of the array**: 24 rising clock edges with PE9 stable at each, then the strobe;
pin `p` is in stage `p` and on output `p`, so that the first bit sent, pin 23, is in the farthest
stage; and no output changes before the strobe or after it. -/
structure Transfer (c : Chain) (ops : List PortOp) (d : SrData) : Prop where
  edges : (run chainStep c ops).2 = ((bitsOf d.toList).map fun b => .clock b b) ++ [.strobe]
  clocks : (bitsOf d.toList).length = 24
  stages : ∀ p, p < 24 → (run chainStep c ops).1.stages.getLsbD p = pinBit d p
  outputs : ∀ p, p < 24 → (run chainStep c ops).1.outputs.getLsbD p = pinBit d p
  steady : ∀ pre post, ops = pre ++ post → (run chainStep c pre).1.outputs =
    if .strobe ∈ (run chainStep c pre).2 then (run chainStep c ops).1.outputs else c.outputs

/-- With one strobe, at the end of what the chain sees, the outputs change there only. -/
lemma steady_of_edges {c : Chain} {ops : List PortOp} {bits : List Bool}
    (h : (run chainStep c ops).2 = (bits.map fun b => .clock b b) ++ [.strobe])
    {pre post : List PortOp} (hs : ops = pre ++ post) :
    (run chainStep c pre).1.outputs =
      if .strobe ∈ (run chainStep c pre).2 then (run chainStep c ops).1.outputs else c.outputs := by
  split_ifs with hm
  · subst hs
    rw [run_append] at h ⊢
    -- the strobe comes once, so that the rest of the run has none
    have hcount := congrArg (List.count Edge.strobe) h
    have hzero : List.count Edge.strobe (bits.map fun b => Edge.clock b b) = 0 :=
      List.count_eq_zero.mpr (by simp)
    rw [List.count_append, List.count_append, hzero] at hcount
    have hpos := List.count_pos_iff.mpr hm
    have hpost : List.count Edge.strobe (run chainStep (run chainStep c pre).1 post).2 = 0 := by
      simp at hcount
      omega
    exact (run_outputs (List.count_eq_zero.mp hpost)).symm
  · exact run_outputs hm

/-- What comes before the bits brings the strobe low, and what comes after it does nothing. -/
theorem transfer {c : Chain} {before : List PortOp} (after : List PortOp) (d : SrData)
    (hb : (run chainStep c before).2 = [])
    (hlow : level (run chainStep c before).1.port gpioextStr = false)
    (ha : ∀ c', run chainStep c' after = (c', [])) :
    Transfer c (before ++ spiSrSend d.toList ++ (gpioSetPin gpioextStr :: after)) d := by
  have hsent := sent_spiSrSend (run chainStep c before).1 d.toList
  have hstr := hsent.strobe.trans hlow
  have hedges : (run chainStep c (before ++ spiSrSend d.toList ++ (gpioSetPin gpioextStr :: after))).2 =
      ((bitsOf d.toList).map fun b => .clock b b) ++ [.strobe] := by
    rw [run_append, run_append, hb, hsent.edges, run_cons, chainStep_setStr hstr, ha]
    rfl
  refine ⟨hedges, ?_, ?_, ?_, fun pre post hs => steady_of_edges hedges hs⟩
  · rw [length_bitsOf, Vector.length_toList]
  all_goals
    intro p hp
    rw [run_append, run_append, run_cons, chainStep_setStr hstr, ha]
    simp only [hsent.stages]
    exact shifted_array d _ hp

/-! ### The driver and the chain -/

/-- The array in RAM and the chain on port E. -/
structure Board where
  data : SrData
  chain : Chain

/-- The board after `gpioShiftReg_init`. -/
def boardInit (c : Chain) : Board :=
  ⟨gpioShiftRegInit.1, (run chainStep c gpioShiftRegInit.2).1⟩

/-- A call that sets or clears one of the 24 pins. -/
def boardStep (s : Board) (w : Fin 24 × Bool) : Board × List Edge :=
  match gpioShiftRegModify s.data (BitVec.ofNat 8 w.1) w.2 with
  | none => (s, [])
  | some (d, ops) => (⟨d, (run chainStep s.chain ops).1⟩, (run chainStep s.chain ops).2)

/-- The call goes through and its port writes are a transfer of the new array. -/
def Transfers (s : Board) (w : Fin 24 × Bool) : Prop :=
  ∃ d ops, gpioShiftRegModify s.data (BitVec.ofNat 8 w.1) w.2 = some (d, ops) ∧
    boardStep s w = (⟨d, (run chainStep s.chain ops).1⟩, (run chainStep s.chain ops).2) ∧
    Transfer s.chain ops d

/-- What is asked of `spiSr_send` on any buffer: the bits most significant first and in byte order,
with writes to PE7 and PE9 only. -/
structure SendsMsbFirst (c : Chain) (txbuf : List (BitVec 8)) : Prop where
  edges : (run chainStep c (spiSrSend txbuf)).2 = (bitsOf txbuf).map fun b => .clock b b
  pins : ∀ op ∈ spiSrSend txbuf, OnlyClkDat op

lemma transfer_init (c : Chain) : Transfer c gpioShiftRegInit.2 gpioShiftRegInit.1 := by
  refine transfer [] gpioShiftRegInit.1 ?_ ?_ fun _ => rfl
  · simp [run_append, run_cons, chainStep_clear]
  · simp [run_append, run_cons, chainStep_clear, level_clear]

lemma transfers (s : Board) (w : Fin 24 × Bool) : Transfers s w := by
  have hpin : BitVec.ofNat 8 w.1 < 24 := by
    have := w.1.isLt
    rw [BitVec.lt_def, BitVec.toNat_ofNat]
    exact Nat.lt_of_le_of_lt (Nat.mod_le _ _) this
  obtain ⟨d, hm, -⟩ := gpioShiftRegModify_spec s.data hpin w.2
  refine ⟨d, _, hm, by rw [boardStep, hm], ?_⟩
  refine transfer [.enableIrq] d ?_ ?_ fun _ => rfl
  · simp [run_cons, chainStep_clear]
  · simp [run_cons, chainStep_clear, level_clear]

lemma modify_transfer (d : SrData) {pin : BitVec 8} (h : pin < 24) (b : Bool) :
    ∃ d' ops, gpioShiftRegModify d pin b = some (d', ops) ∧ (∀ c, Transfer c ops d') ∧
      ∀ q, q < 24 → pinBit d' q = if q = pin.toNat then b else pinBit d q := by
  obtain ⟨d', hm, hbits⟩ := gpioShiftRegModify_spec d h b
  refine ⟨d', _, hm, fun c => transfer [.enableIrq] d' ?_ ?_ fun _ => rfl, hbits⟩
  · simp [run_cons, chainStep_clear]
  · simp [run_cons, chainStep_clear, level_clear]

lemma run_modes {c : Chain} {ops : List PortOp} (h : ∀ op ∈ ops, ∃ v, op = .bsrr v) :
    (run chainStep c ops).1.modes = c.modes := by
  induction ops generalizing c with
  | nil => rfl
  | cons op ops ih =>
    obtain ⟨v, rfl⟩ := h op (by simp)
    rw [run_cons, ih fun o ho => h o (List.mem_cons_of_mem _ ho)]
    rfl

/-- `gpioShiftReg_init` sets three modes, and then only writes to `BSRR`. -/
lemma init_ops :
    ∃ rest, gpioShiftRegInit.2 = (gpioSetModeOps gpioextStr 4 ++ gpioSetModeOps gpioextClk 4 ++
      gpioSetModeOps gpioextDat 4).map .reg ++ rest ∧ ∀ op ∈ rest, ∃ v, op = .bsrr v := by
  refine ⟨gpioClearPin gpioextStr ::
    (spiSrSend gpioShiftRegInit.1.toList ++ [gpioSetPin gpioextStr]), ?_, fun op hop => ?_⟩
  · simp only [gpioShiftRegInit, List.append_assoc, List.cons_append, List.nil_append]
  · rcases List.mem_cons.mp hop with rfl | hop
    · exact ⟨_, rfl⟩
    · rcases List.mem_append.mp hop with hop | hop
      · obtain ⟨v, hv, -⟩ := onlyClkDat_of_mem hop
        exact ⟨v, hv⟩
      · exact ⟨_, List.mem_singleton.mp hop⟩

lemma modes_boardInit (c : Chain) :
    (boardInit c).chain.modes =
      gpioSetMode (gpioSetMode (gpioSetMode c.modes gpioextStr 4) gpioextClk 4) gpioextDat 4 := by
  obtain ⟨rest, hops, hrest⟩ := init_ops
  rw [boardInit, hops, run_append, run_reg, run_modes hrest]
  simp only [List.foldl_append, foldl_gpioSetModeOps]

theorem init_modes (c : Chain) {q : Fin 16}
    (hq : q = gpioextStr ∨ q = gpioextClk ∨ q = gpioextDat) :
    (boardInit c).chain.modes.lines q = documented (some .output) := by
  have hout : written (modeOf 4) = documented (some .output) := by decide
  rw [modes_boardInit]
  rcases hq with rfl | rfl | rfl
  · rw [gpioSetMode_lines_ne _ _ dat_ne_str, gpioSetMode_lines_ne _ _ clk_ne_str,
      gpioSetMode_lines_self, hout]
  · rw [gpioSetMode_lines_ne _ _ clk_ne_dat.symm, gpioSetMode_lines_self, hout]
  · rw [gpioSetMode_lines_self, hout]

/-- **The chain follows the array**: from any levels and contents of the chain, the initialisation
and every later call transfer the array to the outputs, without an intermediate value; and
`spiSr_send` sends any buffer most significant bit first, on PE7 and PE9 only. -/
theorem serial_follows (c : Chain) (ws : List (Fin 24 × Bool)) :
    Transfer c gpioShiftRegInit.2 gpioShiftRegInit.1 ∧
      Along boardStep Transfers (boardInit c) ws ∧
      ∀ c' txbuf, SendsMsbFirst c' txbuf :=
  ⟨transfer_init c, along_of_forall transfers _ _,
    fun c' txbuf => ⟨(sent_spiSrSend c' txbuf).edges, fun _ h => onlyClkDat_of_mem h⟩⟩

end Cs7000pBootloader.Gpio
