import Cs7000pBootloader.Gpio.Serial
import Cs7000pBootloader.Lib.Stutter

/-!
The interface `gpioDev`: one table of operations for the pins of the MCU and one for the outputs of
the shift-register chain, which hangs on three pins of port E.  The theorem of this module is that
behind the interface all these pins are independent, at every write to a port.  A mode takes several
writes, to the fields of its pin in each register; in between these fields are left open.
-/

namespace Cs7000pBootloader.Gpio

open Lib

/-! ### The devices -/

/-- The ports that have a device. -/
inductive Port
  | gpioA
  | gpioB
  | gpioC
  | gpioD
  | gpioE
deriving DecidableEq, Repr

/-- `struct gpioDev`: the table `gpioApi` with the port in `priv`, or `gpioShiftReg_ops`. -/
inductive GpioDev
  | gpioApi (priv : Port)
  | gpioShiftRegOps
deriving DecidableEq, Repr

/-- `extGpio` -/
def extGpio : GpioDev := .gpioShiftRegOps

lemma toNat_lt_of_not_gt {pin : BitVec 8} (h : ¬ pin > 15) : pin.toNat < 16 :=
  Nat.lt_of_not_le fun hle => h (BitVec.lt_def.mpr hle)

/-- The writes of `gpio_setMode` on a port. -/
def setModeOn (p : Port) (pin : Fin 16) (mode : BitVec 16) : List (Port × PortOp) :=
  (gpioSetModeOps pin mode).map fun op => (p, .reg op)

/-- `gpioApi_mode` -/
def gpioApiMode (priv : Port) (pin : BitVec 8) (mode : BitVec 16) : List (Port × PortOp) × ℤ :=
  if h : pin > 15 then ([], -1)
  else (setModeOn priv ⟨pin.toNat, toNat_lt_of_not_gt h⟩ mode, 0)

/-- `gpioApi_set`: `none` is a shift by the width of the word or more. -/
def gpioApiSet (priv : Port) (pin : BitVec 8) : Option (List (Port × PortOp)) :=
  if pin.toNat < 32 then some [(priv, gpioSetPin pin.toNat)] else none

/-- `gpioApi_clear` -/
def gpioApiClear (priv : Port) (pin : BitVec 8) : Option (List (Port × PortOp)) :=
  if pin.toNat + 16 < 32 then some [(priv, gpioClearPin pin.toNat)] else none

/-- `gpio_readPin`, of a port with `idr` in its input register -/
def gpioReadPin (idr : BitVec 32) (pin : BitVec 8) : Option (BitVec 8) :=
  if pin.toNat < 32 then some (if idr &&& (1#32 <<< pin.toNat) ≠ 0 then 1 else 0) else none

/-- `gpioApi_read` -/
def gpioApiRead (idr : BitVec 32) (pin : BitVec 8) : Option Bool :=
  (gpioReadPin idr pin).map fun val => val ≠ 0

/-- `gpioShiftReg_mode` -/
def gpioShiftRegMode (_pin : BitVec 8) (_mode : BitVec 16) : ℤ := -1

/-! ### Calls through the tables -/

/-- A call of `gpioDev_setMode`, `gpioDev_set`, `gpioDev_clear` or `gpioDev_read`; with a read comes
what the input register of the port holds. -/
inductive DevCall
  | setMode (port : GpioDev) (pin : BitVec 8) (mode : BitVec 16)
  | set (port : GpioDev) (pin : BitVec 8)
  | clear (port : GpioDev) (pin : BitVec 8)
  | read (port : GpioDev) (pin : BitVec 8) (idr : BitVec 32)
deriving DecidableEq, Repr

/-- What a call returns. -/
inductive DevRet
  | code (r : ℤ)
  | level (b : Bool)
deriving DecidableEq, Repr

/-- The writes of the chain's driver go to port E. -/
def onPortE (ops : List PortOp) : List (Port × PortOp) := ops.map fun op => (.gpioE, op)

/-- A call: the array afterwards, the writes to the ports and what is returned. -/
def devCall (srData : SrData) : DevCall → Option (SrData × List (Port × PortOp) × List DevRet)
  | .setMode (.gpioApi priv) pin mode =>
    let r := gpioApiMode priv pin mode
    some (srData, r.1, [.code r.2])
  | .setMode .gpioShiftRegOps pin mode => some (srData, [], [.code (gpioShiftRegMode pin mode)])
  | .set (.gpioApi priv) pin => (gpioApiSet priv pin).map fun ops => (srData, ops, [])
  | .set .gpioShiftRegOps pin =>
    (gpioShiftRegSet srData pin).map fun r => (r.1, onPortE r.2, [])
  | .clear (.gpioApi priv) pin => (gpioApiClear priv pin).map fun ops => (srData, ops, [])
  | .clear .gpioShiftRegOps pin =>
    (gpioShiftRegClear srData pin).map fun r => (r.1, onPortE r.2, [])
  | .read (.gpioApi _) pin idr => (gpioApiRead idr pin).map fun b => (srData, [], [.level b])
  | .read .gpioShiftRegOps pin _ =>
    (gpioShiftRegRead srData pin).map fun b => (srData, [], [.level b])

/-! ### The ports -/

/-- The registers of a port and the latch of its outputs. -/
structure PortState where
  modes : GpioPort
  latch : BitVec 16

/-- The ports, and the stages and outputs of the chain. -/
structure Pins where
  port : Port → PortState
  stages : BitVec 24
  outputs : BitVec 24

/-- The chain with its port. -/
def Pins.chain (s : Pins) : Chain :=
  ⟨(s.port .gpioE).modes, (s.port .gpioE).latch, s.stages, s.outputs⟩

lemma modes_eq_chain (s : Pins) : (s.port .gpioE).modes = s.chain.modes := rfl

lemma latch_eq_chain (s : Pins) : (s.port .gpioE).latch = s.chain.port := rfl

lemma outputs_eq_chain (s : Pins) : s.outputs = s.chain.outputs := rfl

/-- A write to a port. -/
def portStep (p : PortState) : PortOp → PortState
  | .reg op => { p with modes := p.modes.apply op }
  | .bsrr v => { p with latch := bsrrWrite p.latch v }
  | .disableIrq => p
  | .enableIrq => p

/-- A write to one of the ports; the chain follows those to port E. -/
def pinsStep (s : Pins) (w : Port × PortOp) : Pins × List Edge :=
  let r := chainStep s.chain w.2
  let port := Function.update s.port w.1 (portStep (s.port w.1) w.2)
  if w.1 = .gpioE then (⟨port, r.1.stages, r.1.outputs⟩, r.2) else ({ s with port := port }, [])

/-! ### Independent pins -/

/-- The pins behind the interface: what is set for those of the ports, and the level of each. -/
structure PinModel where
  lines : Port → Fin 16 → PinLines
  af : Port → Fin 16 → BitVec 4
  level : GpioDev → ℕ → Bool

/-- One pin gets a level. -/
def PinModel.put (m : PinModel) (dev : GpioDev) (pin : ℕ) (b : Bool) : PinModel :=
  { m with level := fun d q => if d = dev ∧ q = pin then b else m.level d q }

lemma level_put_self (m : PinModel) (dev : GpioDev) {n : ℕ} (pin q : Fin n) (b : Bool) :
    (m.put dev pin b).level dev q = if pin = q then b else m.level dev q := by
  have hself : (dev = dev ∧ q.val = pin.val) ↔ pin = q :=
    ⟨fun h => Fin.ext h.2.symm, fun h => ⟨rfl, congrArg Fin.val h.symm⟩⟩
  exact ite_congr (propext hself) (fun _ => rfl) fun _ => rfl

lemma level_put_ne (m : PinModel) {dev d : GpioDev} (h : d ≠ dev) (pin : ℕ) (b : Bool) :
    (m.put dev pin b).level d = m.level d :=
  funext fun _ => if_neg fun hd => h hd.1

/-- One pin gets a mode. -/
def PinModel.setMode (m : PinModel) (p : Port) (pin : ℕ) (mode : BitVec 16) : PinModel :=
  { m with
    lines := fun p' q => if p' = p ∧ q.val = pin then written (modeOf mode) else m.lines p' q
    af := fun p' q =>
      if p' = p ∧ q.val = pin ∧ IsAlternate mode then functionOf mode else m.af p' q }

/-- What a call is to do: it concerns its own pin. -/
def pinCall (m : PinModel) : DevCall → PinModel × List DevRet
  | .setMode (.gpioApi p) pin mode =>
    if pin.toNat < 16 then (m.setMode p pin.toNat mode, [.code 0]) else (m, [.code (-1)])
  | .setMode .gpioShiftRegOps _ _ => (m, [.code (-1)])
  | .set dev pin => (m.put dev pin.toNat true, [])
  | .clear dev pin => (m.put dev pin.toNat false, [])
  | .read (.gpioApi _) pin idr => (m, [.level (idr.getLsbD pin.toNat)])
  | .read .gpioShiftRegOps pin _ => (m, [.level (m.level extGpio pin.toNat)])

/-- The pins that drive the chain. -/
def IsChainPin (p : Port) (q : ℕ) : Prop :=
  p = .gpioE ∧ (q = gpioextClk.val ∨ q = gpioextDat.val ∨ q = gpioextStr.val)

instance (p : Port) (q : ℕ) : Decidable (IsChainPin p q) := by
  unfold IsChainPin
  infer_instance

/-- The pin exists, and is not one that drives the chain; `gpioApi_mode` checks the first by
itself. -/
def DevCall.Proper : DevCall → Prop
  | .setMode (.gpioApi p) pin _ => ¬ IsChainPin p pin.toNat
  | .setMode .gpioShiftRegOps _ _ => True
  | .set (.gpioApi p) pin | .clear (.gpioApi p) pin => pin.toNat < 16 ∧ ¬ IsChainPin p pin.toNat
  | .read (.gpioApi _) pin _ => pin.toNat < 16
  | .set .gpioShiftRegOps pin | .clear .gpioShiftRegOps pin
  | .read .gpioShiftRegOps pin _ => pin < 24

instance (c : DevCall) : Decidable c.Proper := by
  unfold DevCall.Proper
  split <;> infer_instance

/-- The pin whose mode a call sets. -/
def DevCall.SetsMode : DevCall → Port → Fin 16 → Prop
  | .setMode (.gpioApi p) pin _, p', q => p' = p ∧ q.val = pin.toNat
  | _, _, _ => False

/-- The ports and the chain have what the model says, but for the levels of the pins that drive the
chain and for what the next call, which may have begun, sets. -/
structure Shows (next : Option DevCall) (s : Pins) (m : PinModel) : Prop where
  lines : ∀ p q, (∀ c ∈ next, ¬ c.SetsMode p q) → (s.port p).modes.lines q = m.lines p q
  af : ∀ p q, (∀ c ∈ next, ¬ c.SetsMode p q) → (s.port p).modes.af q = m.af p q
  level : ∀ p (q : Fin 16), ¬ IsChainPin p q.val → level (s.port p).latch q = m.level (.gpioApi p) q
  outputs : ∀ q < 24, s.outputs.getLsbD q = m.level extGpio q

lemma Shows.lines_settled {s : Pins} {m : PinModel} (h : Shows none s m) (p : Port) (q : Fin 16) :
    (s.port p).modes.lines q = m.lines p q :=
  h.lines p q fun c hc => absurd hc (Option.not_mem_none c)

lemma Shows.af_settled {s : Pins} {m : PinModel} (h : Shows none s m) (p : Port) (q : Fin 16) :
    (s.port p).modes.af q = m.af p q :=
  h.af p q fun c hc => absurd hc (Option.not_mem_none c)

lemma Shows.weaken {s : Pins} {m : PinModel} (h : Shows none s m) (next : Option DevCall) :
    Shows next s m :=
  ⟨fun p q _ => h.lines_settled p q, fun p q _ => h.af_settled p q, h.level, h.outputs⟩

/-- The array has what the model says. -/
def Stored (d : SrData) (m : PinModel) : Prop := ∀ q < 24, pinBit d q = m.level extGpio q

/-! ### One write -/

section Write

variable {s : Pins} {m m' : PinModel} {p : Port} {op : PortOp} {next : Option DevCall}

lemma port_pinsStep (w : Port × PortOp) :
    (pinsStep s w).1.port = Function.update s.port w.1 (portStep (s.port w.1) w.2) := by
  unfold pinsStep
  simp only
  split <;> rfl

lemma chain_pinsStep : (pinsStep s (.gpioE, op)).1.chain = (chainStep s.chain op).1 := by
  cases op <;> simp [pinsStep, Pins.chain, portStep, chainStep]

lemma chain_run (ops : List PortOp) :
    (run pinsStep s (onPortE ops)).1.chain = (run chainStep s.chain ops).1 := by
  induction ops generalizing s with
  | nil => rfl
  | cons op ops ih =>
    rw [run_cons, ← chain_pinsStep, ← ih]
    rfl

lemma outputs_pinsStep (h : p = .gpioE → .strobe ∉ (chainStep s.chain op).2) :
    (pinsStep s (p, op)).1.outputs = s.outputs := by
  unfold pinsStep
  simp only
  split
  · next hp => exact chainStep_outputs (h hp)
  · rfl

/-- **One write**, seen at its own port and at the outputs. -/
theorem shows_pinsStep (h : Shows next s m)
    (hlines : ∀ q, (∀ c ∈ next, ¬ c.SetsMode p q) →
      (portStep (s.port p) op).modes.lines q = m'.lines p q)
    (haf : ∀ q, (∀ c ∈ next, ¬ c.SetsMode p q) → (portStep (s.port p) op).modes.af q = m'.af p q)
    (hlevel : ∀ q : Fin 16, ¬ IsChainPin p q.val →
      level (portStep (s.port p) op).latch q = m'.level (.gpioApi p) q)
    (hother : ∀ p', p' ≠ p → m'.lines p' = m.lines p' ∧ m'.af p' = m.af p' ∧
      m'.level (.gpioApi p') = m.level (.gpioApi p'))
    (hout : ∀ q < 24, (pinsStep s (p, op)).1.outputs.getLsbD q = m'.level extGpio q) :
    Shows next (pinsStep s (p, op)).1 m' := by
  refine ⟨?_, ?_, ?_, hout⟩ <;> rw [port_pinsStep] <;> intro p' q
  all_goals
    by_cases hp : p' = p
    · subst hp
      rw [Function.update_self]
      first | exact hlines q | exact haf q | exact hlevel q
    · obtain ⟨hl, ha, hv⟩ := hother p' hp
      rw [Function.update_of_ne hp]
      first
        | exact fun hq => (h.lines p' q hq).trans (congrFun hl q).symm
        | exact fun hq => (h.af p' q hq).trans (congrFun ha q).symm
        | exact fun hq => (h.level p' q hq).trans (congrFun hv q).symm

end Write

/-! ### Writes that nothing shows -/

/-- The write moves pins that drive the chain at most, and does not strobe it. -/
def Hidden (op : PortOp) : Prop :=
  ∀ c : Chain, (chainStep c op).1.modes = c.modes ∧ (chainStep c op).1.outputs = c.outputs ∧
    ∀ q : Fin 16, ¬ IsChainPin .gpioE q.val → level (chainStep c op).1.port q = level c.port q

lemma hidden_disableIrq : Hidden .disableIrq := fun _ => ⟨rfl, rfl, fun _ _ => rfl⟩

lemma hidden_enableIrq : Hidden .enableIrq := fun _ => ⟨rfl, rfl, fun _ _ => rfl⟩

lemma ne_of_not_chainPin {q : Fin 16} (h : ¬ IsChainPin .gpioE q.val) :
    q ≠ gpioextClk ∧ q ≠ gpioextDat ∧ q ≠ gpioextStr := by
  refine ⟨?_, ?_, ?_⟩ <;> rintro rfl
  · exact h ⟨rfl, .inl rfl⟩
  · exact h ⟨rfl, .inr (.inl rfl)⟩
  · exact h ⟨rfl, .inr (.inr rfl)⟩

lemma hidden_clearStr : Hidden (gpioClearPin gpioextStr) := by
  intro c
  rw [chainStep_clear]
  refine ⟨rfl, rfl, fun q hq => ?_⟩
  rw [level_clear, if_neg (ne_of_not_chainPin hq).2.2.symm]

lemma hidden_of_onlyClkDat {op : PortOp} (h : OnlyClkDat op) : Hidden op := by
  obtain ⟨v, rfl, hv⟩ := h
  intro c
  refine ⟨rfl, ?_, fun q hq => ?_⟩
  · have hstr := hv c.port gpioextStr clk_ne_str.symm dat_ne_str.symm
    have hrise : rises c.port (bsrrWrite c.port v) gpioextStr = false := by
      rw [rises, hstr, Bool.not_and_self]
    simp only [chainStep, hrise, Bool.false_eq_true, if_false]
  · obtain ⟨hclk, hdat, -⟩ := ne_of_not_chainPin hq
    exact hv c.port q hclk hdat

section Calls

variable {s : Pins} {m : PinModel}

lemma Shows.hidden (h : Shows none s m) {op : PortOp} (hop : Hidden op) :
    Shows none (pinsStep s (.gpioE, op)).1 m := by
  obtain ⟨hmodes, hout, hlevel⟩ := hop s.chain
  have hport : portStep (s.port .gpioE) op =
      ⟨(chainStep s.chain op).1.modes, (chainStep s.chain op).1.port⟩ := by
    cases op <;> rfl
  refine shows_pinsStep h ?_ ?_ ?_ (fun _ _ => ⟨rfl, rfl, rfl⟩) ?_
  · intro q _
    rw [hport, hmodes]
    exact h.lines_settled .gpioE q
  · intro q _
    rw [hport, hmodes]
    exact h.af_settled .gpioE q
  · intro q hq
    rw [hport, hlevel q hq]
    exact h.level .gpioE q hq
  · intro q hq
    rw [outputs_eq_chain, chain_pinsStep, hout]
    exact h.outputs q hq

lemma Shows.hidden_all (h : Shows none s m) {ops : List PortOp} (hops : ∀ op ∈ ops, Hidden op) :
    CarriesOut pinsStep pinCall Shows s (onPortE ops) m [] := by
  refine .of_hidden (fun w => w.1 = .gpioE ∧ Hidden w.2) ?_ h ?_
  · rintro s m ⟨-, op⟩ ⟨rfl, hop⟩ hs
    exact hs.hidden hop
  · intro w hw
    obtain ⟨op, hop, rfl⟩ := List.mem_map.mp hw
    exact ⟨rfl, hops op hop⟩

/-! ### Calls -/

/-- **The strobe** shows the stages at the outputs and moves nothing else. -/
lemma shows_strobe (hs : Shows none s m) {m' : PinModel} (hlow : level s.chain.port gpioextStr = false)
    (hlines : m'.lines = m.lines) (haf : m'.af = m.af)
    (hlevel : ∀ p, m'.level (.gpioApi p) = m.level (.gpioApi p))
    (hout : ∀ q < 24, s.chain.stages.getLsbD q = m'.level extGpio q) :
    Shows none (pinsStep s (.gpioE, gpioSetPin gpioextStr)).1 m' := by
  refine shows_pinsStep hs ?_ ?_ ?_ ?_ ?_
  · intro q _
    rw [hlines]
    exact hs.lines_settled .gpioE q
  · intro q _
    rw [haf]
    exact hs.af_settled .gpioE q
  · intro q hq
    have hstr := (ne_of_not_chainPin hq).2.2.symm
    rw [hlevel]
    exact (level_set.trans (if_neg hstr)).trans (hs.level .gpioE q hq)
  · intro p' _
    exact ⟨congrFun hlines p', congrFun haf p', hlevel p'⟩
  · intro q hq
    rw [outputs_eq_chain, chain_pinsStep, chainStep_setStr hlow]
    exact hout q hq

/-- **A transfer** carries out the call that changed the array: up to the strobe and after it the
writes are hidden. -/
lemma carriesOut_transfer (hs : Shows none s m) {d : SrData} {c : DevCall}
    (hd : Stored d (pinCall m c).1) (hlines : (pinCall m c).1.lines = m.lines)
    (haf : (pinCall m c).1.af = m.af)
    (hlevel : ∀ p, (pinCall m c).1.level (.gpioApi p) = m.level (.gpioApi p)) :
    CarriesOut pinsStep pinCall Shows s (onPortE ([.disableIrq, gpioClearPin gpioextStr] ++
      spiSrSend d.toList ++ [gpioSetPin gpioextStr, .enableIrq])) m [c] := by
  have hsplit : onPortE ([.disableIrq, gpioClearPin gpioextStr] ++ spiSrSend d.toList ++
      [gpioSetPin gpioextStr, .enableIrq]) =
      onPortE ([.disableIrq, gpioClearPin gpioextStr] ++ spiSrSend d.toList) ++
        (.gpioE, gpioSetPin gpioextStr) :: onPortE [.enableIrq] := by
    simp only [onPortE, List.map_append, List.map_cons, List.map_nil]
  have hbefore : CarriesOut pinsStep pinCall Shows s
      (onPortE ([.disableIrq, gpioClearPin gpioextStr] ++ spiSrSend d.toList)) m [] := by
    refine hs.hidden_all fun op hop => ?_
    rcases List.mem_append.mp hop with hop | hop
    · simp only [List.mem_cons, List.not_mem_nil, or_false] at hop
      rcases hop with rfl | rfl
      · exact hidden_disableIrq
      · exact hidden_clearStr
    · exact hidden_of_onlyClkDat (onlyClkDat_of_mem hop)
  rw [hsplit]
  refine .of_one (fun _ _ _ h => h.weaken _) hbefore (Shows.hidden_all ?_ ?_)
  · -- the strobe shows the stages, which hold the array by now
    have hshow := hbefore.shows_end
    set s' := (run pinsStep s
      (onPortE ([.disableIrq, gpioClearPin gpioextStr] ++ spiSrSend d.toList))).1 with hs'
    have hchain : s'.chain = (run chainStep s.chain
        ([.disableIrq, gpioClearPin gpioextStr] ++ spiSrSend d.toList)).1 := chain_run _
    have hsent := sent_spiSrSend
      (run chainStep s.chain [.disableIrq, gpioClearPin gpioextStr]).1 d.toList
    rw [run_append] at hchain
    have hlow : level s'.chain.port gpioextStr = false := by
      rw [hchain, hsent.strobe]
      simp [run_cons, chainStep_clear, level_clear]
    refine shows_strobe hshow hlow hlines haf hlevel fun q hq => ?_
    rw [hchain, hsent.stages, ← hd q hq]
    exact shifted_array d _ hq
  · intro op hop
    rw [List.mem_singleton.mp hop]
    exact hidden_enableIrq

/-- **A pin of a port** is set or cleared by one write. -/
lemma carriesOut_direct (hs : Shows none s m) {p : Port} (pin : Fin 16) (hchain : ¬ IsChainPin p pin.val)
    (b : Bool) {c : DevCall} (hc : (pinCall m c).1 = m.put (.gpioApi p) pin b) :
    CarriesOut pinsStep pinCall Shows s [(p, if b then gpioSetPin pin else gpioClearPin pin)] m
      [c] := by
  refine .move (hs.weaken _) (.done ?_)
  rw [hc]
  have hstrobe : p = .gpioE →
      .strobe ∉ (chainStep s.chain (if b then gpioSetPin pin else gpioClearPin pin)).2 := by
    rintro rfl
    have hstr := (ne_of_not_chainPin hchain).2.2
    cases b
    · simp [chainStep_clear]
    · simp [chainStep, gpioSetPin, rises_set, hstr]
  refine shows_pinsStep hs ?_ ?_ ?_ ?_ ?_
  · intro q _
    cases b <;> exact hs.lines_settled p q
  · intro q _
    cases b <;> exact hs.af_settled p q
  · intro q hq
    rw [level_put_self, ← hs.level p q hq]
    cases b
    · simp only [Bool.false_eq_true, if_false, gpioClearPin, portStep, level_clear]
    · simp only [if_true, gpioSetPin, portStep, level_set]
  · intro p' hp
    exact ⟨rfl, rfl, level_put_ne m (fun h => hp (GpioDev.gpioApi.inj h)) _ b⟩
  · intro q hq
    rw [outputs_pinsStep hstrobe, hs.outputs q hq, level_put_ne m GpioDev.noConfusion]

/-- A write of `gpio_setMode` moves nothing but what is open. -/
lemma shows_reg {c : DevCall} (hs : Shows (some c) s m) {p : Port} {pin : Fin 16} {op : RegOp}
    (hop : op.Concerns pin) (hc : c.SetsMode p pin) :
    Shows (some c) (pinsStep s (p, .reg op)).1 m := by
  have hne : ∀ q, (∀ c' ∈ some c, ¬ c'.SetsMode p q) → pin ≠ q := by
    rintro q hq rfl
    exact hq c rfl hc
  refine shows_pinsStep hs ?_ ?_ (hs.level p) (fun _ _ => ⟨rfl, rfl, rfl⟩) ?_
  · intro q hq
    exact (hop _ q (hne q hq)).1.trans (hs.lines p q hq)
  · intro q hq
    exact (hop _ q (hne q hq)).2.trans (hs.af p q hq)
  · intro q hq
    rw [outputs_pinsStep fun _ => List.not_mem_nil]
    exact hs.outputs q hq

lemma port_run_reg (s : Pins) (p : Port) (ops : List RegOp) :
    (run pinsStep s (ops.map fun op => (p, PortOp.reg op))).1.port =
      Function.update s.port p
        { s.port p with modes := ops.foldl GpioPort.apply (s.port p).modes } := by
  induction ops generalizing s with
  | nil => exact (Function.update_eq_self p s.port).symm
  | cons op ops ih =>
    rw [List.map_cons, run_cons, ih, port_pinsStep, Function.update_self, Function.update_idem]
    rfl

lemma outputs_run_reg (s : Pins) (p : Port) (ops : List RegOp) :
    (run pinsStep s (ops.map fun op => (p, PortOp.reg op))).1.outputs = s.outputs := by
  induction ops generalizing s with
  | nil => rfl
  | cons op ops ih => rw [List.map_cons, run_cons, ih, outputs_pinsStep fun _ => List.not_mem_nil]

/-- **A mode** is set by the last of its writes. -/
lemma carriesOut_setMode (hs : Shows none s m) {p : Port} {pin : Fin 16} {mode : BitVec 16}
    {c : DevCall} (hc : (pinCall m c).1 = m.setMode p pin mode) (hsets : c.SetsMode p pin) :
    CarriesOut pinsStep pinCall Shows s (setModeOn p pin mode) m [c] := by
  refine .of_last (by simp [setModeOn, gpioSetModeOps]) (fun pre post h => ?_) ?_
  · -- the writes so far concern the pin that is open
    refine run_inv (I := fun s => Shows (some c) s m)
      (G := fun _ w => ∃ op : RegOp, w = (p, PortOp.reg op) ∧ op.Concerns pin)
      (fun s w hs hw => ?_) (hs.weaken (some c)) (along_of_mem (fun w hw => ?_) s)
    · obtain ⟨op, rfl, hop⟩ := hw
      exact shows_reg hs hop hsets
    · have hmem : w ∈ setModeOn p pin mode := h ▸ List.mem_append_left post hw
      obtain ⟨op, hop, rfl⟩ := List.mem_map.mp hmem
      exact ⟨op, rfl, concerns_of_mem hop⟩
  · have hport := port_run_reg s p (gpioSetModeOps pin mode)
    rw [foldl_gpioSetModeOps] at hport
    rw [hc]
    refine ⟨fun p' q _ => ?_, fun p' q _ => ?_, fun p' q hq => ?_, fun q hq => ?_⟩
    · rw [setModeOn, hport]
      by_cases hp : p' = p
      · subst hp
        rw [Function.update_self]
        by_cases hq : q = pin
        · subst hq
          exact (gpioSetMode_lines_self _ _).trans (if_pos ⟨rfl, rfl⟩).symm
        · refine ((gpioSetMode_lines_ne _ _ (Ne.symm hq)).trans (hs.lines_settled p' q)).trans ?_
          exact (if_neg fun h => hq (Fin.ext h.2)).symm
      · rw [Function.update_of_ne hp]
        exact (hs.lines_settled p' q).trans (if_neg fun h => hp h.1).symm
    · rw [setModeOn, hport]
      by_cases hp : p' = p
      · subst hp
        rw [Function.update_self]
        by_cases hq : q = pin
        · subst hq
          refine (gpioSetMode_af_self _ _).trans ?_
          by_cases hm : IsAlternate mode
          · simp [PinModel.setMode, hm]
          · simp [PinModel.setMode, hm, hs.af_settled p' q]
        · refine ((gpioSetMode_af_ne _ _ (Ne.symm hq)).trans (hs.af_settled p' q)).trans ?_
          exact (if_neg fun h => hq (Fin.ext h.2.1)).symm
      · rw [Function.update_of_ne hp]
        exact (hs.af_settled p' q).trans (if_neg fun h => hp h.1).symm
    · rw [setModeOn, hport]
      by_cases hp : p' = p
      · subst hp
        rw [Function.update_self]
        exact hs.level p' q hq
      · rw [Function.update_of_ne hp]
        exact hs.level p' q hq
    · rw [setModeOn, outputs_run_reg]
      exact hs.outputs q hq

lemma gpioApiRead_eq (idr : BitVec 32) {pin : BitVec 8} (h : pin.toNat < 16) :
    gpioApiRead idr pin = some (idr.getLsbD pin.toNat) := by
  have hlt : pin.toNat < 32 := by omega
  have hbit := and_mask_ne_zero idr hlt
  rw [gpioApiRead, gpioReadPin, if_pos hlt, Option.map_some, ← hbit]
  congr 1
  split <;> simp_all

lemma stored_put {d d' : SrData} (hd : Stored d m) {pin : BitVec 8} {b : Bool}
    (hbits : ∀ q < 24, pinBit d' q = if q = pin.toNat then b else pinBit d q) :
    Stored d' (m.put extGpio pin.toNat b) := by
  intro q hq
  rw [hbits q hq, hd q hq]
  by_cases h : q = pin.toNat
  · exact (if_pos h).trans (if_pos ⟨rfl, h⟩).symm
  · exact (if_neg h).trans (if_neg fun h' => h h'.2).symm

lemma modify_refined (hs : Shows none s m) {d : SrData} (hd : Stored d m) {pin : BitVec 8}
    (hpin : pin < 24) (b : Bool) {c : DevCall} (hc : (pinCall m c).1 = m.put extGpio pin.toNat b) :
    ∃ r, gpioShiftRegModify d pin b = some r ∧ Stored r.1 (pinCall m c).1 ∧
      CarriesOut pinsStep pinCall Shows s (onPortE r.2) m [c] := by
  obtain ⟨d', hm, hbits⟩ := gpioShiftRegModify_spec d hpin b
  have hstored := stored_put hd hbits
  refine ⟨_, hm, hc ▸ hstored, carriesOut_transfer hs (hc ▸ hstored) ?_ ?_ fun p => ?_⟩ <;> rw [hc]
  · rfl
  · rfl
  · exact level_put_ne m GpioDev.noConfusion _ b

lemma carriesOut_idle (hs : Shows none s m) {c : DevCall} (hc : (pinCall m c).1 = m) :
    CarriesOut pinsStep pinCall Shows s [] m [c] := by
  refine .idle (hs.weaken _) (.done ?_)
  rw [hc]
  exact hs

/-- A call that sets a mode: refused outside the port, the writes of `gpio_setMode` inside. -/
lemma setMode_refined (hs : Shows none s m) {d : SrData} (hd : Stored d m) (p : Port) (pin : BitVec 8)
    (mode : BitVec 16) :
    ∃ ops, devCall d (.setMode (.gpioApi p) pin mode) =
        some (d, ops, (pinCall m (.setMode (.gpioApi p) pin mode)).2) ∧
      Stored d (pinCall m (.setMode (.gpioApi p) pin mode)).1 ∧
      CarriesOut pinsStep pinCall Shows s ops m [.setMode (.gpioApi p) pin mode] := by
  by_cases h : pin.toNat < 16
  · have hle : ¬ pin > 15 := fun hgt => Nat.not_lt.mpr (Nat.le_of_lt_succ h) (BitVec.lt_def.mp hgt)
    have hcall : pinCall m (.setMode (.gpioApi p) pin mode) =
        (m.setMode p pin.toNat mode, [.code 0]) := if_pos h
    refine ⟨setModeOn p ⟨pin.toNat, h⟩ mode, ?_, ?_,
      carriesOut_setMode hs (congrArg Prod.fst hcall) ⟨rfl, rfl⟩⟩
    · rw [devCall, gpioApiMode, dif_neg hle, hcall]
    · rw [hcall]
      exact hd
  · have hgt : pin > 15 := BitVec.lt_def.mpr (Nat.not_lt.mp h)
    have hcall : pinCall m (.setMode (.gpioApi p) pin mode) = (m, [.code (-1)]) := if_neg h
    refine ⟨[], ?_, ?_, carriesOut_idle hs (congrArg Prod.fst hcall)⟩
    · rw [devCall, gpioApiMode, dif_pos hgt, hcall]
    · rw [hcall]
      exact hd

/-- **Every proper call** is answered and carried out as on independent pins. -/
theorem devCall_refined {d : SrData} {c : DevCall} (hc : c.Proper) (hd : Stored d m)
    (hs : Shows none s m) :
    ∃ d' ops, devCall d c = some (d', ops, (pinCall m c).2) ∧ Stored d' (pinCall m c).1 ∧
      CarriesOut pinsStep pinCall Shows s ops m [c] := by
  cases c with
  | setMode port pin mode =>
    cases port with
    | gpioApi p => exact ⟨d, setMode_refined hs hd p pin mode⟩
    | gpioShiftRegOps => exact ⟨d, [], rfl, hd, carriesOut_idle hs rfl⟩
  | set port pin =>
    cases port with
    | gpioApi p =>
      obtain ⟨hpin, hchain⟩ := hc
      have hlt : pin.toNat < 32 := by omega
      refine ⟨d, [(p, gpioSetPin pin.toNat)], ?_, hd,
        carriesOut_direct hs ⟨pin.toNat, hpin⟩ hchain true rfl⟩
      rw [devCall, gpioApiSet, if_pos hlt]
      rfl
    | gpioShiftRegOps =>
      obtain ⟨r, hm, hstored, hout⟩ := modify_refined hs hd hc true (c := .set extGpio pin) rfl
      refine ⟨r.1, onPortE r.2, ?_, hstored, hout⟩
      rw [devCall, gpioShiftRegSet, hm]
      rfl
  | clear port pin =>
    cases port with
    | gpioApi p =>
      obtain ⟨hpin, hchain⟩ := hc
      have hlt : pin.toNat + 16 < 32 := by omega
      refine ⟨d, [(p, gpioClearPin pin.toNat)], ?_, hd,
        carriesOut_direct hs ⟨pin.toNat, hpin⟩ hchain false rfl⟩
      rw [devCall, gpioApiClear, if_pos hlt]
      rfl
    | gpioShiftRegOps =>
      obtain ⟨r, hm, hstored, hout⟩ := modify_refined hs hd hc false (c := .clear extGpio pin) rfl
      refine ⟨r.1, onPortE r.2, ?_, hstored, hout⟩
      rw [devCall, gpioShiftRegClear, hm]
      rfl
  | read port pin idr =>
    cases port with
    | gpioApi p =>
      refine ⟨d, [], ?_, hd, carriesOut_idle hs rfl⟩
      rw [devCall, gpioApiRead_eq idr hc]
      rfl
    | gpioShiftRegOps =>
      refine ⟨d, [], ?_, hd, carriesOut_idle hs rfl⟩
      rw [devCall, gpioShiftRegRead_eq d hc, hd _ (BitVec.lt_def.mp hc)]
      rfl

end Calls

/-! ### From the initialisation on -/

/-- The ports and the chain after `gpioShiftReg_init`. -/
def pinsInit (s : Pins) : Pins := (run pinsStep s (onPortE gpioShiftRegInit.2)).1

/-- The pins of the ports as they were, but for the modes of those that drive the chain, and its
outputs low. -/
def modelInit (s : Pins) : PinModel where
  lines p q := if IsChainPin p q.val then documented (some .output) else (s.port p).modes.lines q
  af p q := (s.port p).modes.af q
  level dev q := match dev with
    | .gpioApi p => (s.port p).latch.getLsbD q
    | .gpioShiftRegOps => false

section Init

variable (s : Pins)

lemma port_run_ne {p : Port} (hp : p ≠ .gpioE) (ops : List PortOp) :
    (run pinsStep s (onPortE ops)).1.port p = s.port p := by
  induction ops generalizing s with
  | nil => rfl
  | cons op ops ih =>
    have hone : (pinsStep s (.gpioE, op)).1.port p = s.port p := by
      rw [port_pinsStep, Function.update_of_ne hp]
    exact (ih _).trans hone

lemma level_run {c : Chain} {ops : List PortOp} {q : Fin 16}
    (hops : ∀ op ∈ ops, ∀ c, level (chainStep c op).1.port q = level c.port q) :
    level (run chainStep c ops).1.port q = level c.port q := by
  induction ops generalizing c with
  | nil => rfl
  | cons op ops ih =>
    rw [run_cons, ih fun op' hop' => hops op' (List.mem_cons_of_mem _ hop')]
    exact hops op List.mem_cons_self c

lemma level_init {c : Chain} {q : Fin 16} (hq : ¬ IsChainPin .gpioE q.val) :
    level (run chainStep c gpioShiftRegInit.2).1.port q = level c.port q := by
  refine level_run fun op hop c => ?_
  rcases List.mem_append.mp hop with hop | hop
  · rcases List.mem_append.mp hop with hop | hop
    · rcases List.mem_append.mp hop with hop | hop
      · obtain ⟨op, -, rfl⟩ := List.mem_map.mp hop
        rfl
      · rw [List.mem_singleton.mp hop]
        exact (hidden_clearStr c).2.2 q hq
    · exact (hidden_of_onlyClkDat (onlyClkDat_of_mem hop) c).2.2 q hq
  · rw [List.mem_singleton.mp hop]
    exact level_set.trans (if_neg (ne_of_not_chainPin hq).2.2.symm)

lemma chain_pinsInit : (pinsInit s).chain = (boardInit s.chain).chain := by
  unfold pinsInit boardInit
  exact chain_run _

/-- **After `gpioShiftReg_init`** the outputs are low, whatever the chain held, and no pin of a port
has moved. -/
theorem shows_init : Shows none (pinsInit s) (modelInit s) := by
  have hout : ¬ IsAlternate 4 := by decide
  refine ⟨fun p q _ => ?_, fun p q _ => ?_, fun p q hq => ?_, fun q hq => ?_⟩
  · by_cases hp : p = .gpioE
    · subst hp
      rw [modes_eq_chain, chain_pinsInit]
      by_cases hq : IsChainPin .gpioE q.val
      · refine Eq.trans (init_modes _ ?_) (if_pos hq).symm
        rcases hq.2 with h | h | h
        · exact .inr (.inl (Fin.ext h))
        · exact .inr (.inr (Fin.ext h))
        · exact .inl (Fin.ext h)
      · obtain ⟨hclk, hdat, hstr⟩ := ne_of_not_chainPin hq
        rw [modes_boardInit, gpioSetMode_lines_ne _ _ hdat.symm, gpioSetMode_lines_ne _ _ hclk.symm,
          gpioSetMode_lines_ne _ _ hstr.symm]
        exact (if_neg hq).symm
    · have hport : (pinsInit s).port p = s.port p := port_run_ne s hp _
      rw [hport]
      exact (if_neg fun h => hp h.1).symm
  · by_cases hp : p = .gpioE
    · subst hp
      have haf : ∀ (m : GpioPort) (k : Fin 16), (gpioSetMode m k 4).af q = m.af q := by
        intro m k
        rw [gpioSetMode_eq, if_neg hout, af_setLines]
      rw [modes_eq_chain, chain_pinsInit, modes_boardInit, haf, haf, haf]
      rfl
    · have hport : (pinsInit s).port p = s.port p := port_run_ne s hp _
      rw [hport]
      rfl
  · by_cases hp : p = .gpioE
    · subst hp
      rw [latch_eq_chain, chain_pinsInit, boardInit, level_init hq]
      rfl
    · have hport : (pinsInit s).port p = s.port p := port_run_ne s hp _
      rw [hport]
      rfl
  · rw [outputs_eq_chain, chain_pinsInit, boardInit, (transfer_init s.chain).outputs q hq]
    simp [pinBit, gpioShiftRegInit, modelInit, extGpio]

end Init

lemma stored_init (s : Pins) : Stored gpioShiftRegInit.1 (modelInit s) := by
  intro q _
  simp [pinBit, gpioShiftRegInit, modelInit, extGpio]

/-- **The pins behind `gpioDev` are independent**: after `gpioShiftReg_init`, on any ports and any
chain, proper calls in any order are answered as on independent pins and take effect one by one, in
order; at every write to a port the pins of the ports and the outputs of the chain are those of the
model after some of the calls, but for the mode of the pin that the next call sets, which takes
several writes; and between two calls they are those of the model altogether. -/
theorem pins_independent (s : Pins) (cs : List DevCall) (hcs : ∀ c ∈ cs, c.Proper) :
    ∃ d ops, callAll devCall gpioShiftRegInit.1 cs =
        some (d, ops, (run pinCall (modelInit s) cs).2) ∧
      CarriesOut pinsStep pinCall Shows (pinsInit s) ops (modelInit s) cs ∧
      (∀ pre post, ops = pre ++ post → ∃ cs₁ cs₂, cs = cs₁ ++ cs₂ ∧
        Shows cs₂.head? (run pinsStep (pinsInit s) pre).1 (run pinCall (modelInit s) cs₁).1) ∧
      ∀ cs₁ cs₂, cs = cs₁ ++ cs₂ → ∃ d₁ pre, pre <+: ops ∧
        callAll devCall gpioShiftRegInit.1 cs₁ =
          some (d₁, pre, (run pinCall (modelInit s) cs₁).2) ∧
        Shows none (run pinsStep (pinsInit s) pre).1 (run pinCall (modelInit s) cs₁).1 := by
  have hall : ∀ cs, (∀ c ∈ cs, c.Proper) → ∃ d ops, callAll devCall gpioShiftRegInit.1 cs =
      some (d, ops, (run pinCall (modelInit s) cs).2) ∧ Stored d (run pinCall (modelInit s) cs).1 ∧
      CarriesOut pinsStep pinCall Shows (pinsInit s) ops (modelInit s) cs := fun cs hcs =>
    callAll_carriesOut (fun _ _ _ h => h.weaken _)
      (fun _ _ _ _ hc hd hs => devCall_refined hc hd hs) (stored_init s) (shows_init s) hcs
  obtain ⟨d, ops, hcalls, -, hout⟩ := hall cs hcs
  refine ⟨d, ops, hcalls, hout, ?_, ?_⟩
  · rintro pre post rfl
    obtain ⟨cs₁, cs₂, hsplit, hrest⟩ := hout.split
    exact ⟨cs₁, cs₂, hsplit, hrest.shows⟩
  · rintro cs₁ cs₂ rfl
    obtain ⟨d₁, pre, hfirst, -, hpre⟩ := hall cs₁ fun c hc => hcs c (List.mem_append_left _ hc)
    exact ⟨d₁, pre, callAll_prefix hfirst hcalls, hfirst, hpre.shows_end⟩

/-- Calls on a pin of port E, an output of the chain and a pin that does not exist. -/
def mixedCalls : List DevCall :=
  [.setMode (.gpioApi .gpioE) 0 4, .set (.gpioApi .gpioE) 0, .set extGpio 13,
    .setMode (.gpioApi .gpioA) 16 4, .read extGpio 13 0, .clear extGpio 23]

/-- The ports after a reset, with ones in the chain. -/
def resetPins : Pins := ⟨fun _ => ⟨⟨0, 0, 0, 0, 0⟩, 0⟩, BitVec.allOnes 24, BitVec.allOnes 24⟩

theorem pins_independent_mixed :
    ∃ d ops, callAll devCall gpioShiftRegInit.1 mixedCalls =
        some (d, ops, [.code 0, .code (-1), .level true]) ∧
      CarriesOut pinsStep pinCall Shows (pinsInit resetPins) ops (modelInit resetPins) mixedCalls ∧
      (∀ pre post, ops = pre ++ post → ∃ cs₁ cs₂, mixedCalls = cs₁ ++ cs₂ ∧
        Shows cs₂.head? (run pinsStep (pinsInit resetPins) pre).1
          (run pinCall (modelInit resetPins) cs₁).1) ∧
      ∀ cs₁ cs₂, mixedCalls = cs₁ ++ cs₂ → ∃ d₁ pre, pre <+: ops ∧
        callAll devCall gpioShiftRegInit.1 cs₁ =
          some (d₁, pre, (run pinCall (modelInit resetPins) cs₁).2) ∧
        Shows none (run pinsStep (pinsInit resetPins) pre).1
          (run pinCall (modelInit resetPins) cs₁).1 :=
  pins_independent resetPins mixedCalls (by decide)

end Cs7000pBootloader.Gpio
