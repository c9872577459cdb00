import Cs7000pBootloader.Dfu.Live

/-!
Which states the device gets into, and the way out of them.  What `op`, the state of the flash driver
and the DFU state can be together is said exactly; many of these states are of no use to a host, as
when `op` and the driver disagree after an abort.  An abort is the way out of every one: once the
driver has come to its end, all orders can be given again, without the plug being pulled.
-/

namespace Cs7000pBootloader.Dfu

open Flash Cs7000pBootloader.Lib

/-! ### The specification -/

/-- What the control of the device depends on. -/
structure Control where
  op : DfuseOp
  flash : FlashOpState
  dfu : DfuState
  deriving DecidableEq, Repr

def Device.control (d : Device) : Control := ⟨d.fw.dfuse.op, d.fw.flash.ctx.state, d.dfu⟩

/-- **The states that occur**: the driver does not do the opposite of what `op` says, and
`DFU_DNBUSY` is not entered without it; nothing else is excluded. -/
structure Occurs (c : Control) : Prop where
  erase : c.op = .eraseBusy → c.flash.isWrite = false
  write : c.op = .writeBusy → c.flash.isErase = false
  dnbusy : c.dfu = .dnbusy → c.op ≠ .idle

/-- The states that an answer of the firmware, a DNLOAD, an abort, a mount or a CLRSTATUS leads to. -/
def DfuState.Entered (s : DfuState) : Prop :=
  s = .dfuIdle ∨ s = .dnloadSync ∨ s = .dnbusy ∨ s = .dnloadIdle ∨ s = .error

/-- The firmware answers the event itself, if it is a GETSTATUS. -/
def Answers (d : Device) : Event → Prop
  | .getStatus resp _ => (d.poll resp).ret = true
  | _ => True

instance (d : Device) : DecidablePred (Answers d)
  | .getStatus resp _ => inferInstanceAs (Decidable ((d.poll resp).ret = true))
  | .mount | .dnload _ | .upload _ _ _ | .abort | .clrStatus | .process _ => .isTrue trivial

/-! ### No other state occurs -/

/-- `op` and the driver. -/
def Matches (fw : Firmware) : Prop :=
  (fw.dfuse.op = .eraseBusy → fw.flash.ctx.state.isWrite = false) ∧
    (fw.dfuse.op = .writeBusy → fw.flash.ctx.state.isErase = false)

section Matches

variable {d : Device} {fw fw' : Firmware}

lemma matches_of_op (he : fw.dfuse.op ≠ .eraseBusy) (hw : fw.dfuse.op ≠ .writeBusy) : Matches fw :=
  ⟨fun h => absurd h he, fun h => absurd h hw⟩

lemma isErase_of_move {f f' : FlashDev} {tr : List Bus} (h : Move f f' tr)
    (he : f'.ctx.state.isErase = true) : f.ctx.state.isErase = true ∨ f.ctx.state = .idle := by
  rcases f.ctx.state.cases with hs | hs | hs
  · exact .inr hs
  · exact .inl hs
  · rcases h.isWrite hs with hw | hi
    · cases hst : f'.ctx.state <;> simp [hst, FlashOpState.isErase, FlashOpState.isWrite] at he hw
    · rw [hi] at he
      cases he

lemma Matches.process (h : Matches fw) (r : ℕ → Sr2) :
    Matches { fw with flash := (flashProcess r fw.flash).1 } := by
  have hmove := flashProcess_move r fw.flash
  refine ⟨fun hop => ?_, fun hop => ?_⟩
  · by_contra hw
    have hwas := isWrite_of_move hmove (eq_true_of_ne_false hw)
    exact Bool.false_ne_true ((h.1 hop).symm.trans hwas)
  · by_contra he
    rcases isErase_of_move hmove (eq_true_of_ne_false he) with hwas | hi
    · exact Bool.false_ne_true ((h.2 hop).symm.trans hwas)
    · simp only [flashProcess_idle hi, hi] at he
      exact he rfl

lemma Matches.answered {req : GetStatusRequest} {resp : StatusResponse} {out : GetStatusOut}
    (h : Matches fw) (ha : Answered req resp fw out) : Matches out.fw := by
  cases ha with
  | setAddress | setAddressDone | eraseDone | writeDone => exact matches_of_op (by simp) (by simp)
  | eraseStarted => exact ⟨fun _ => rfl, nofun⟩
  | writeStarted => exact ⟨nofun, fun _ => rfl⟩
  | _ => exact h

lemma Matches.step (h : Matches d.fw) (e : Event) : Matches (step d e).1.fw := by
  cases e with
  | mount | abort =>
    refine matches_of_op ?_ ?_ <;> simp [Dfu.step, tudMountCb, tudDfuAbortCb]
  | dnload x =>
    simp only [Dfu.step]
    split <;> exact h
  | getStatus resp next => exact h.answered (d.answered resp)
  | upload b n mem =>
    obtain ⟨f, hf⟩ := step_upload d b n mem
    rw [hf]
    exact h
  | clrStatus => exact h
  | process r => exact h.process r

end Matches

lemma occurs_run (es : List Event) : Occurs (run step powerOn es).1.control := by
  have hstart : Matches powerOn.fw := matches_of_op (by decide) (by decide)
  have hmatches : Matches (run step powerOn es).1.fw :=
    run_inv_all (I := fun d : Device => Matches d.fw) (fun _ e h => h.step e) hstart es
  refine ⟨hmatches.1, hmatches.2, fun hb hidle => ?_⟩
  cases busyOp_run es hb with
  | setAddress _ hop | erase _ _ hop | data _ _ hop => cases hop.symm.trans hidle

lemma entered_answered {req : GetStatusRequest} {resp : StatusResponse} {fw : Firmware}
    {out : GetStatusOut} (h : Answered req resp fw out) (hret : out.ret = true) :
    out.resp.bState.Entered := by
  cases h with
  | unhandled => cases hret
  | _ => simp [DfuState.Entered]

lemma entered_step {d : Device} (h : d.dfu.Entered) {e : Event} (he : Answers d e) :
    (step d e).1.dfu.Entered := by
  cases e with
  | getStatus resp next =>
    simp only [step, if_pos (show (d.poll resp).ret = true from he)]
    exact entered_answered (d.answered resp) he
  | dnload x =>
    simp only [step]
    split_ifs
    · exact .inr (.inl rfl)
    · exact h
  | mount | abort | clrStatus => exact .inl rfl
  | upload | process => exact h

lemma entered_run {es : List Event} (hes : Along step Answers powerOn es) :
    (run step powerOn es).1.dfu.Entered :=
  run_inv (I := fun d : Device => d.dfu.Entered) (fun _ _ h he => entered_step h he) (.inl rfl) hes

/-! ### Every such state occurs -/

/-- A way to a state of the driver. -/
def flashRoad : FlashOpState → List Event
  | .idle => [.mount]
  | .erasePending => [.mount, .dnload (eraseDnload appBaseAddr), askStatus]
  | .eraseBusy => [.mount, .dnload (eraseDnload appBaseAddr), askStatus, readyPoll]
  | .writePending => [.mount, .dnload (byteDnload 0xAA), askStatus]
  | .writeBusy => [.mount, .dnload (byteDnload 0xAA), askStatus, readyPoll]

/-- A way to it with `op` as well: it ends in `DFU_DNBUSY` unless `op` is idle. -/
def opRoad : DfuseOp → FlashOpState → List Event
  | .idle, st => flashRoad st ++ [.abort]
  | .setAddrBusy, st => flashRoad st ++ [.abort, .dnload (setDnload appBaseAddr), askStatus]
  | .eraseBusy, .idle => flashRoad .eraseBusy ++ [readyPoll]
  | .writeBusy, .idle => flashRoad .writeBusy ++ [readyPoll]
  | .eraseBusy, st | .writeBusy, st => flashRoad st

lemma length_cmd_le (cmd : Byte) : [cmd].length ≤ cfgTudDfuXferBufsize := Nat.le_add_left 1 1023

/-- A DNLOAD of one byte to block 0: the command list, or a mass erase. -/
def cmdDnload (cmd : Byte) : Dnload := ⟨0, [cmd], [], length_cmd_le cmd⟩

/-- A way to a DFU state from there. -/
def dfuRoad : DfuState → List Event
  | .dnloadSync => [.clrStatus, .dnload (setDnload appBaseAddr)]
  | .dnloadIdle => [.clrStatus, .dnload (cmdDnload dfuseCmdGetCommands), askStatus]
  | .error => [.clrStatus, .dnload (cmdDnload dfuseCmdErase), askStatus]
  | .dfuIdle => [.clrStatus]
  | _ => []

section Roads

variable {d : Device}

lemma opRoad_control {op : DfuseOp} {st : FlashOpState} (he : op = .eraseBusy → st.isWrite = false)
    (hw : op = .writeBusy → st.isErase = false) :
    (run step powerOn (opRoad op st)).1.control =
        ⟨op, st, if op = .idle then .dfuIdle else .dnbusy⟩ ∧
      Along step Answers powerOn (opRoad op st) := by
  cases op <;> cases st <;> first
    | exact absurd (he rfl) (by decide)
    | exact absurd (hw rfl) (by decide)
    | exact ⟨rfl, by decide⟩

lemma dfuRoad_control {dfu : DfuState} (hin : dfu.Entered) (hb : dfu = .dnbusy → d.dfu = .dnbusy) :
    (run step d (dfuRoad dfu)).1.control = { d.control with dfu } ∧
      Along step Answers d (dfuRoad dfu) := by
  rcases hin with rfl | rfl | rfl | rfl | rfl
  · exact ⟨rfl, trivial, trivial⟩
  · exact ⟨rfl, trivial, trivial, trivial⟩
  · show d.control = _ ∧ True
    rw [Device.control, hb rfl]
    exact ⟨rfl, trivial⟩
  · exact ⟨rfl, trivial, trivial, rfl, trivial⟩
  · exact ⟨rfl, trivial, trivial, rfl, trivial⟩

end Roads

/-- **The states the device gets into** from power-on.  Whatever the events, and whatever the stack
makes of a GETSTATUS that the firmware does not answer, `Occurs` holds; and the runs in which the
firmware answers every GETSTATUS lead exactly to the states of `Occurs` whose DFU state is
entered. -/
theorem reachable_iff :
    (∀ es, Occurs (run step powerOn es).1.control) ∧
      ∀ c : Control, (∃ es, Along step Answers powerOn es ∧ (run step powerOn es).1.control = c) ↔
        Occurs c ∧ c.dfu.Entered := by
  refine ⟨occurs_run, fun c => ⟨?_, ?_⟩⟩
  · rintro ⟨es, hes, rfl⟩
    exact ⟨occurs_run es, entered_run hes⟩
  · rintro ⟨h, hin⟩
    obtain ⟨op, st, dfu⟩ := c
    obtain ⟨hc, hop⟩ := opRoad_control h.erase h.write
    have hb : dfu = .dnbusy → (run step powerOn (opRoad op st)).1.dfu = .dnbusy := fun hd =>
      (congrArg Control.dfu hc).trans (if_neg (h.dnbusy hd))
    obtain ⟨hd, hroad⟩ := dfuRoad_control hin hb
    refine ⟨opRoad op st ++ dfuRoad dfu, along_append.mpr ⟨hop, hroad⟩, ?_⟩
    rw [run_append, hd, hc]

/-! ### The way out -/

section Abort

variable {d : Device} {sched : ℕ → ℕ → Sr2}

lemma haveAddr_step (h : d.fw.dfuse.haveAddr = true) (e : Event) :
    (step d e).1.fw.dfuse.haveAddr = true := by
  cases e with
  | mount => rfl
  | dnload x =>
    simp only [step]
    split <;> exact h
  | getStatus resp next => exact (d.answered resp).haveAddr h
  | upload b n mem =>
    obtain ⟨f, hf⟩ := step_upload d b n mem
    rw [hf]
    exact h
  | abort | clrStatus | process r => exact h

lemma haveAddr_run {es : List Event} (h : .mount ∈ es) :
    (run step d es).1.fw.dfuse.haveAddr = true := by
  obtain ⟨pre, post, rfl⟩ := List.append_of_mem h
  rw [run_append, run_cons]
  exact run_inv_all (I := fun d : Device => d.fw.dfuse.haveAddr = true)
    (fun _ e h => haveAddr_step h e) rfl post

/-- Polls of the main loop change the driver only, and bring it to its end. -/
lemma run_schedPolls (d : Device) (sched : ℕ → ℕ → Sr2) (k n : ℕ) :
    ∃ f, (run step d (schedPolls sched k n)).1 = { d with fw := { d.fw with flash := f } } ∧
      f.ctx.stepsLeft ≤ d.fw.flash.ctx.stepsLeft - (schedPolls sched k n).countP Event.isReady := by
  induction n with
  | zero => exact ⟨d.fw.flash, rfl, Nat.le_refl _⟩
  | succ n ih =>
    obtain ⟨f, hf, hle⟩ := ih
    have hstep := stepsLeft_process f (sched (k + n))
    rw [schedPolls_succ, run_append, hf, List.countP_append]
    refine ⟨_, rfl, ?_⟩
    simp only [List.countP_cons, List.countP_nil, Event.isReady, decide_eq_true_eq]
    omega

lemma atRest_abort (haddr : d.fw.dfuse.haveAddr = true) {n : ℕ}
    (hn : d.fw.flash.ctx.stepsLeft ≤ (schedPolls sched 0 n).countP Event.isReady) :
    AtRest d.fw.dfuse.baseAddr (run step d (.abort :: schedPolls sched 0 n)).1.fw ∧
      (run step d (.abort :: schedPolls sched 0 n)).1.dfu = .dfuIdle := by
  obtain ⟨f, hf, hle⟩ := run_schedPolls (step d .abort).1 sched 0 n
  have hflash : (step d .abort).1.fw.flash = d.fw.flash := rfl
  rw [hflash] at hle
  have hzero : f.ctx.stepsLeft = 0 := by omega
  rw [run_cons, hf]
  exact ⟨⟨rfl, haddr, rfl, stepsLeft_eq_zero_iff.mp hzero⟩, rfl⟩

/-- **An abort is the way out.** Whatever a run with a mount in it has led to, from any device: after
an abort, and as many polls as the driver needs, the host can give any valid orders and poll each to
its end, over any readings of the controller that are ready again and again. -/
theorem abort_recovers (d : Device) (pre : List Event) (hmount : .mount ∈ pre) (os : List Order)
    (hv : ∀ o ∈ os, o.Valid) (hfair : Fair sched) :
    ∃ n es m, Performs (run step d (pre ++ .abort :: schedPolls sched 0 n)).1 os es ∧
      readings es = (List.range m).map fun i => sched (n + i) := by
  have haddr := haveAddr_run (d := d) hmount
  obtain ⟨n, hn⟩ := exists_ready hfair 0 (run step d pre).1.fw.flash.ctx.stepsLeft
  obtain ⟨hr, hidle⟩ := atRest_abort haddr hn
  obtain ⟨es, m, hes, hread⟩ := exists_performs hfair hv hr (.inl hidle) n
  refine ⟨n, es, m, ?_, hread⟩
  rw [run_append]
  exact hes

end Abort

/-- A controller that is busy at every other poll. -/
def alternating : ℕ → ℕ → Sr2 := fun k _ => { sr2Clear with qw := decide (k % 2 = 0) }

lemma fair_alternating : Fair alternating := fun N =>
  ⟨2 * N + 1, by omega, fun _ _ => ⟨decide_eq_false (by omega), rfl⟩⟩

/-- A CLRSTATUS during a write, which leaves `op` busy, and a block that is given after the abort. -/
theorem abort_recovers_clrStatus :
    ∃ n es m, Performs (run step powerOn ((flashRoad .writeBusy ++ [.clrStatus]) ++
        .abort :: schedPolls alternating 0 n)).1 [.load (.block 2 [0xAA])] es ∧
      readings es = (List.range m).map fun i => alternating (n + i) := by
  refine abort_recovers powerOn _ (by simp [flashRoad]) _ ?_ fair_alternating
  intro o ho
  rw [List.mem_singleton.mp ho]
  exact ⟨by decide, by simp, (by decide : 1 ≤ 1024)⟩

end Cs7000pBootloader.Dfu
