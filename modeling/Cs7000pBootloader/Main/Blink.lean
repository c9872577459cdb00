import Cs7000pBootloader.Gpio.Serial
import Cs7000pBootloader.Lib.Periodic

/-!
The red LED: `SysTick_Handler` counts milliseconds, and `led_blinking_task`, called from the main
loop, writes the LED through the shift register, once for every 250 ms.  A write is a piece of
periodic work, so what the LED shows follows from the ticks and the calls; and as every transfer
carries the whole array, that no other output of the chain ever goes high is part of the story.
-/

namespace Cs7000pBootloader.Main

open Gpio Cs7000pBootloader.Lib

/-! ### The task -/

/-- The pin of `RED_LED`. -/
def redLed : BitVec 8 := 13

/-- `blink_interval_ms` -/
def blinkIntervalMs : BitVec 32 := 250

/-- `g_tickCount`, the statics of `led_blinking_task`, and the array of the shift register. -/
structure Led where
  tickCount : BitVec 32
  startMs : BitVec 32
  ledState : Bool
  srData : SrData

/-- `led_write` -/
def ledWrite (s : Led) (state : Bool) : Led × List PortOp :=
  let written := if state then gpioShiftRegSet s.srData redLed else gpioShiftRegClear s.srData redLed
  match written with
  -- an access outside the array
  | none => (s, [])
  | some (srData, ops) => ({ s with srData }, ops)

/-- `led_blinking_task` -/
def ledBlinkingTask (s : Led) : Led × List PortOp :=
  if s.tickCount - s.startMs < blinkIntervalMs then (s, [])
  else
    let s := { s with startMs := s.startMs + blinkIntervalMs }
    let write := ledWrite s s.ledState
    ({ write.1 with ledState := !write.1.ledState }, write.2)

/-- `SysTick_Handler`, or a call of the task. -/
def ledStep (s : Led) : Beat → Led × List PortOp
  | .tick => ({ s with tickCount := s.tickCount + 1 }, [])
  | .call => ledBlinkingTask s

/-- `main` before its loop: `gpioShiftReg_init` and `gpioDev_set(RED_LED)`. -/
def ledStart : Led × List PortOp :=
  let write := ledWrite ⟨0, 0, true, gpioShiftRegInit.1⟩ true
  (write.1, gpioShiftRegInit.2 ++ write.2)

/-! ### The specification -/

/-- The LED after `n` writes: on from the start, and the first write turns it on again. -/
def ledAt (n : ℕ) : Bool := n = 0 ∨ n % 2 = 1

/-- The port writes of `main` and of a run of its loop. -/
def portWrites (es : List Beat) : List PortOp := ledStart.2 ++ (run ledStep ledStart.1 es).2

/-- The chain after them. -/
def chainAfter (c : Chain) (es : List Beat) : Chain := (run chainStep c (portWrites es)).1

/-- A call comes within the range of the tick counter after it fell due. -/
def InRange (p : Periodic) (e : Beat) : Prop := e = .call → p.behind 250 < 2 ^ 32

/-- **What is asked of the LED** on the chain `c` after the script `es`. -/
structure Blinks (c : Chain) (es : List Beat) (n : ℕ) : Prop where
  /-- `n` is the least, over the points of the script, of what was due and the calls since -/
  least : (∀ pre post, es = pre ++ post → n ≤ ticks pre / 250 + calls post) ∧
    ∃ pre post, es = pre ++ post ∧ n = ticks pre / 250 + calls post
  /-- the chain was strobed twice by `main`, and once for each write -/
  strobes : (run chainStep c (portWrites es)).2.count .strobe = n + 2
  level : (chainAfter c es).outputs.getLsbD 13 = ledAt n

/-! ### One transfer -/

section Transfer

variable {s : Led} {c : Chain}

/-- The chain shows the array. -/
def Shows (c : Chain) (d : SrData) : Prop := ∀ q, q < 24 → c.outputs.getLsbD q = pinBit d q

lemma ledWrite_transfer (s : Led) (state : Bool) :
    ∃ d ops, ledWrite s state = ({ s with srData := d }, ops) ∧ (∀ c, Transfer c ops d) ∧
      ∀ q, q < 24 → pinBit d q = if q = 13 then state else pinBit s.srData q := by
  have hpin : redLed < 24 := by decide
  obtain ⟨d, ops, hm, htr, hbits⟩ := modify_transfer s.srData hpin state
  refine ⟨d, ops, ?_, htr, hbits⟩
  cases state with
  | true => simp only [ledWrite, gpioShiftRegSet, hm, if_pos]
  | false => simp only [ledWrite, gpioShiftRegClear, hm, Bool.false_eq_true, if_false]

lemma strobes_of_transfer {ops : List PortOp} {d : SrData} (h : Transfer c ops d) :
    (run chainStep c ops).2.count .strobe = 1 := by
  have hzero : ((bitsOf d.toList).map fun b => Edge.clock b b).count .strobe = 0 :=
    List.count_eq_zero.mpr (by simp)
  rw [h.edges, List.count_append, hzero]
  rfl

end Transfer

/-! ### The task does periodic work -/

section Refinement

variable {s : Led} {p : Periodic}

/-- **The task tracks the periodic work**: the counters modulo `2 ^ 32`, the state of the LED by the
number of writes. -/
structure Tracks (s : Led) (p : Periodic) : Prop where
  tick : s.tickCount = BitVec.ofNat 32 p.elapsed
  start : s.startMs = BitVec.ofNat 32 (250 * p.done)
  state : s.ledState = decide (p.done % 2 = 0)
  led : pinBit s.srData 13 = ledAt p.done
  due : p.Due 250

lemma Tracks.waits_iff (h : Tracks s p) (hin : p.behind 250 < 2 ^ 32) :
    s.tickCount - s.startMs < blinkIntervalMs ↔ p.behind 250 < 250 := by
  rw [h.tick, h.start, BitVec.lt_def, toNat_ofNat_sub_ofNat h.due hin]
  exact Iff.rfl

lemma ledAt_succ (n : ℕ) : ledAt (n + 1) = decide (n % 2 = 0) := by
  unfold ledAt
  apply decide_eq_decide.mpr
  omega

/-- **One beat**: the task writes when a piece of work is done, and transfers the array then. -/
theorem Tracks.beat (h : Tracks s p) {e : Beat} (hin : InRange p e) :
    Tracks (ledStep s e).1 (beat 250 p e).1 ∧
      ∀ c, Shows c s.srData → Shows (run chainStep c (ledStep s e).2).1 (ledStep s e).1.srData ∧
        (run chainStep c (ledStep s e).2).2.count .strobe = (Lib.beat 250 p e).2.length := by
  have hdue := due_beat h.due e
  cases e with
  | tick =>
    refine ⟨⟨?_, h.start, h.state, h.led, hdue⟩, fun c hc => ⟨hc, rfl⟩⟩
    simp only [ledStep, h.tick, Lib.beat, BitVec.ofNat_add]
    rfl
  | call =>
    have hiff := h.waits_iff (hin rfl)
    by_cases hb : p.behind 250 < 250
    · have hrest : ledBlinkingTask s = (s, []) := if_pos (hiff.mpr hb)
      simp only [ledStep, hrest, beat_rests hb]
      exact ⟨h, fun c hc => ⟨hc, rfl⟩⟩
    · rw [beat_works hb] at hdue ⊢
      obtain ⟨d, ops, hw, htr, hbits⟩ :=
        ledWrite_transfer { s with startMs := s.startMs + blinkIntervalMs } s.ledState
      have htask : ledBlinkingTask s = ({ s with startMs := s.startMs + blinkIntervalMs
                                                 ledState := !s.ledState, srData := d }, ops) := by
        rw [ledBlinkingTask, if_neg (mt hiff.mp hb)]
        simp only [hw]
      simp only [ledStep, htask]
      refine ⟨⟨h.tick, ?_, ?_, ?_, hdue⟩, fun c _ => ⟨(htr c).outputs, ?_⟩⟩
      · rw [h.start, Nat.mul_succ, BitVec.ofNat_add]
        rfl
      · rw [h.state, ← decide_not]
        apply decide_eq_decide.mpr
        show ¬ p.done % 2 = 0 ↔ (p.done + 1) % 2 = 0
        omega
      · rw [hbits 13 (by decide), if_pos rfl, h.state, ledAt_succ]
      · exact strobes_of_transfer (htr c)

/-- **A run**: the chain shows the array, and is strobed once for each piece of work. -/
theorem Tracks.run (h : Tracks s p) {c : Chain} (hc : Shows c s.srData) {es : List Beat}
    (hin : Along (Lib.beat 250) InRange p es) :
    Tracks (Lib.run ledStep s es).1 (Lib.run (Lib.beat 250) p es).1 ∧
      Shows (Lib.run chainStep c (Lib.run ledStep s es).2).1 (Lib.run ledStep s es).1.srData ∧
      (Lib.run chainStep c (Lib.run ledStep s es).2).2.count .strobe =
        (Lib.run (Lib.beat 250) p es).2.length := by
  induction es generalizing s p c with
  | nil => exact ⟨h, hc, rfl⟩
  | cons e es ih =>
    obtain ⟨hnext, hstep⟩ := h.beat hin.1
    obtain ⟨hshows, hstrobe⟩ := hstep c hc
    obtain ⟨htracks, hend, hrest⟩ := ih hnext hshows hin.2
    rw [run_cons, run_cons, run_append, List.count_append, List.length_append, hstrobe, hrest]
    exact ⟨htracks, hend, rfl⟩

end Refinement

/-! ### From the start of `main` -/

lemma ledStart_spec (c : Chain) :
    Tracks ledStart.1 ⟨0, 0⟩ ∧ Shows (run chainStep c ledStart.2).1 ledStart.1.srData ∧
      (run chainStep c ledStart.2).2.count .strobe = 2 := by
  obtain ⟨d, ops, hw, htr, hbits⟩ := ledWrite_transfer ⟨0, 0, true, gpioShiftRegInit.1⟩ true
  have hstart : ledStart = (⟨0, 0, true, d⟩, gpioShiftRegInit.2 ++ ops) := by
    simp only [ledStart, hw]
  have hinit := strobes_of_transfer (transfer_init c)
  have hone := strobes_of_transfer (htr (run chainStep c gpioShiftRegInit.2).1)
  rw [hstart, run_append, List.count_append, hinit, hone]
  refine ⟨⟨rfl, rfl, rfl, ?_, Nat.le_refl _⟩, (htr _).outputs, rfl⟩
  exact hbits 13 (by decide)

/-- **The LED shows the periodic work.** For any chain and any script of ticks and calls in which no
call comes `2 ^ 32` ticks late, the LED has been written as often as the least of what was due at a
point of the script and the calls since, in turn on and off. -/
theorem led_catches_up (c : Chain) (es : List Beat) (h : Along (beat 250) InRange ⟨0, 0⟩ es) :
    ∃ n, Blinks c es n := by
  obtain ⟨htracks, hshows, hstrobes⟩ := ledStart_spec c
  obtain ⟨hend, hled, hcount⟩ := htracks.run hshows h
  have hpos : 0 < 250 := by decide
  have hout := congrArg List.length (beat_outputs (k := 250) ⟨0, 0⟩ es)
  rw [List.range_zero, List.nil_append, List.length_range] at hout
  refine ⟨(run (beat 250) ⟨0, 0⟩ es).1.done, ⟨fun pre post he => ?_, exists_done_eq hpos es⟩, ?_, ?_⟩
  · rw [he]
    exact done_le hpos pre post
  · rw [portWrites, run_append, List.count_append, hstrobes, hcount, hout]
    omega
  · rw [chainAfter, portWrites, run_append, hled 13 (by decide), hend.led]

lemma inRange_of_ticks_lt {es : List Beat} (h : ticks es < 2 ^ 32) :
    Along (beat 250) InRange ⟨0, 0⟩ es := by
  rw [along_iff_split]
  rintro pre e post rfl rfl
  rw [ticks_append] at h
  unfold Periodic.behind
  rw [beat_elapsed, Nat.zero_add]
  omega

/-- A chain with everything low. -/
def lowChain : Chain := ⟨⟨0, 0, 0, 0, 0⟩, 0, 0, 0⟩

/-- Two writes fall due before the first of three calls. -/
theorem led_catches_up_late :
    ∃ n, Blinks lowChain (List.replicate 600 .tick ++ [.call, .call, .call]) n := by
  refine led_catches_up _ _ (inRange_of_ticks_lt ?_)
  have hcalls : ticks [.call, .call, .call] = 0 := rfl
  rw [ticks_append, hcalls, ticks, List.count_replicate_self]
  decide

lemma inRange_of_prompt {es : List Beat} (h : Prompt 250 es) :
    Along (beat 250) InRange ⟨0, 0⟩ es := by
  rw [along_iff_split]
  rintro pre e post rfl rfl
  have hbehind := h.left.behind_lt (by decide)
  omega

/-- **The LED follows the clock.** When the task is called at least once in every 250 ms, then after
every call, for all time and over every wrap of the tick counter, the LED is on in the first quarter
of a second and in every second one from then on. -/
theorem led_follows_clock (c : Chain) (es : List Beat) (h : Prompt 250 (es ++ [.call])) :
    (chainAfter c (es ++ [.call])).outputs.getLsbD 13 = ledAt (ticks es / 250) := by
  obtain ⟨htracks, hshows, -⟩ := ledStart_spec c
  obtain ⟨hend, hled, -⟩ := htracks.run hshows (inRange_of_prompt h)
  have hdone := h.done_eq (by decide)
  rw [chainAfter, portWrites, run_append, hled 13 (by decide), hend.led, hdone]

/-- A quarter of a second, with a call at its end. -/
theorem led_follows_clock_quarter :
    (chainAfter lowChain (List.replicate 250 .tick ++ [.call])).outputs.getLsbD 13 =
      ledAt (ticks (List.replicate 250 .tick) / 250) := by
  refine led_follows_clock _ _ (prompt_of_ticks_le ?_)
  have hcall : ticks [.call] = 0 := rfl
  rw [ticks_append, hcall, ticks, List.count_replicate_self]

/-! ### The other outputs -/

section Others

variable {s : Led} {c : Chain}

/-- Every output but that of the LED is low. -/
def OnlyRed (c : Chain) : Prop := ∀ q, q < 24 → q ≠ 13 → c.outputs.getLsbD q = false

/-- The array has no other pin set, and the chain shows it. -/
structure Dark (s : Led) (c : Chain) : Prop where
  data : ∀ q, q < 24 → q ≠ 13 → pinBit s.srData q = false
  shows : Shows c s.srData

lemma Dark.onlyRed (h : Dark s c) : OnlyRed c := fun q hq hne => by rw [h.shows q hq, h.data q hq hne]

/-- During a transfer the outputs are what they were, or what they will be. -/
lemma onlyRed_of_transfer {ops pre : List PortOp} {d : SrData} (h : Transfer c ops d)
    (hpre : pre <+: ops) (hc : OnlyRed c) (hend : OnlyRed (run chainStep c ops).1) :
    OnlyRed (run chainStep c pre).1 := by
  obtain ⟨post, rfl⟩ := hpre
  intro q hq hne
  rw [h.steady pre post rfl]
  split_ifs
  · exact hend q hq hne
  · exact hc q hq hne

/-- A write of the LED, whatever it writes, keeps the other outputs low at each port write. -/
lemma Dark.write (h : Dark s c) (state : Bool) :
    Dark (ledWrite s state).1 (run chainStep c (ledWrite s state).2).1 ∧
      ∀ pre, pre <+: (ledWrite s state).2 → OnlyRed (run chainStep c pre).1 := by
  obtain ⟨d, ops, hw, htr, hbits⟩ := ledWrite_transfer s state
  rw [hw]
  have hdark : Dark { s with srData := d } (run chainStep c ops).1 := by
    refine ⟨fun q hq hne => ?_, (htr c).outputs⟩
    rw [hbits q hq, if_neg hne]
    exact h.data q hq hne
  exact ⟨hdark, fun pre hpre => onlyRed_of_transfer (htr c) hpre h.onlyRed hdark.onlyRed⟩

lemma Dark.step (h : Dark s c) (e : Beat) :
    Dark (ledStep s e).1 (run chainStep c (ledStep s e).2).1 ∧
      ∀ pre, pre <+: (ledStep s e).2 → OnlyRed (run chainStep c pre).1 := by
  have hidle : ∀ pre, pre <+: [] → OnlyRed (run chainStep c pre).1 := by
    intro pre hpre
    rw [List.prefix_nil.mp hpre]
    exact h.onlyRed
  cases e with
  | tick => exact ⟨⟨h.data, h.shows⟩, hidle⟩
  | call =>
    simp only [ledStep, ledBlinkingTask]
    split_ifs
    · exact ⟨h, hidle⟩
    · have hstart : Dark { s with startMs := s.startMs + blinkIntervalMs } c := ⟨h.data, h.shows⟩
      obtain ⟨hdark, hpre⟩ := hstart.write s.ledState
      exact ⟨⟨hdark.data, hdark.shows⟩, hpre⟩

lemma Dark.run (h : Dark s c) (es : List Beat) {pre : List PortOp}
    (hpre : pre <+: (Lib.run ledStep s es).2) : OnlyRed (Lib.run chainStep c pre).1 := by
  induction es generalizing s c pre with
  | nil =>
    rw [List.prefix_nil.mp hpre]
    exact h.onlyRed
  | cons e es ih =>
    obtain ⟨hnext, hnow⟩ := h.step e
    rw [run_cons] at hpre
    rcases List.prefix_or_prefix_of_prefix hpre (List.prefix_append _ _) with hp | ⟨rest, rfl⟩
    · exact hnow pre hp
    · rw [run_append]
      exact ih hnext ((List.prefix_append_right_inj _).mp hpre)

end Others

/-- **No other output ever goes high.** Once `gpioShiftReg_init` has cleared the chain, after every
single port write of every script the 23 other outputs are low, the power of the transmitter among
them, however late the calls come. -/
theorem only_red_led (c : Chain) (es : List Beat) (pre : List PortOp)
    (hinit : gpioShiftRegInit.2 <+: pre) (hpre : pre <+: portWrites es) :
    OnlyRed (run chainStep c pre).1 := by
  have hclear : Dark ⟨0, 0, true, gpioShiftRegInit.1⟩ (run chainStep c gpioShiftRegInit.2).1 := by
    refine ⟨fun q hq _ => ?_, (transfer_init c).outputs⟩
    simp [pinBit, gpioShiftRegInit]
  obtain ⟨hstart, hfirst⟩ := hclear.write true
  obtain ⟨rest, rfl⟩ := hinit
  rw [portWrites, ledStart, List.append_assoc, List.prefix_append_right_inj] at hpre
  rw [run_append]
  rcases List.prefix_or_prefix_of_prefix hpre (List.prefix_append _ _) with hp | ⟨later, rfl⟩
  · exact hfirst rest hp
  · rw [run_append]
    exact hstart.run es ((List.prefix_append_right_inj _).mp hpre)

/-- Half a second with two calls: the task turns the LED on again, and then off. -/
def twoWrites : List Beat := List.replicate 500 .tick ++ [.call, .call]

theorem only_red_led_call : OnlyRed (run chainStep lowChain (portWrites twoWrites)).1 :=
  only_red_led lowChain twoWrites (portWrites twoWrites)
    (List.prefix_append_of_prefix (List.prefix_append _ _)) List.prefix_rfl

end Cs7000pBootloader.Main
