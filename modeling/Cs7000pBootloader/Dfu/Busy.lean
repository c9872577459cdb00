import Cs7000pBootloader.Dfu.Device

/-!
The invariant of `DFU_DNBUSY`: `op` is the busy value of the command that the stack still holds.
Hence no GETSTATUS is left unanswered there, whatever came before.
-/

namespace Cs7000pBootloader.Dfu

open Flash Cs7000pBootloader.Lib

/-- `op` is the busy value of a valid command. -/
inductive Running (req : GetStatusRequest) (c : DfuseCtx) : Prop
  | setAddress : req.IsSetAddress → c.op = .setAddrBusy → Running req c
  | erase : req.IsErase → req.length = 5 → c.op = .eraseBusy → Running req c
  | data : req.IsData → c.haveAddr = true → c.op = .writeBusy → Running req c

/-- **The invariant of `DFU_DNBUSY`.** -/
def BusyOp (d : Device) : Prop := d.dfu = .dnbusy → Running d.request d.fw.dfuse

/-- The command is over at the next poll: a SetAddress, or the flash has finished. -/
def Device.Over (d : Device) : Prop := d.request.IsSetAddress ∨ flashIsBusy d.fw.flash = false

/-- **A poll in `DFU_DNBUSY` is answered**: with `OK` and `DFU_DNLOAD_IDLE`, leaving `op` idle, when
the command is over, and with `DFU_DNBUSY`, changing nothing, when it is not. -/
structure BusyAnswered (d : Device) : Prop where
  op : Running d.request d.fw.dfuse
  ended : d.Over → ∀ resp, (d.poll resp).ret = true ∧ (d.poll resp).resp.bStatus = .ok ∧
    (d.poll resp).resp.bState = .dnloadIdle ∧
    (d.poll resp).fw = { d.fw with dfuse := { d.fw.dfuse with op := .idle } }
  runs : ¬ d.Over → ∀ resp, (d.poll resp).ret = true ∧ (d.poll resp).resp.bStatus = .ok ∧
    (d.poll resp).resp.bState = .dnbusy ∧ (d.poll resp).fw = d.fw

/-! ### The invariant -/

lemma Running.not_getCommands {req : GetStatusRequest} {c : DfuseCtx} (h : Running req c) :
    ¬ req.IsGetCommands := by
  intro hg
  cases h with
  | setAddress hs => exact hg.others.1 hs
  | erase he => exact hg.others.2.1 he
  | data hd => exact hg.others.2.2 hd

lemma Running.congr {d d' : Device} (h : Running d.request d.fw.dfuse) (hcmd : d'.cmd = d.cmd)
    (ho : d'.fw.dfuse.op = d.fw.dfuse.op) (hv : d'.fw.dfuse.haveAddr = d.fw.dfuse.haveAddr) :
    Running d'.request d'.fw.dfuse := by
  obtain ⟨fw, dfu, cmd⟩ := d
  obtain ⟨fw', dfu', cmd'⟩ := d'
  obtain rfl : cmd' = cmd := hcmd
  cases h with
  | setAddress hc hop => exact .setAddress hc (ho.trans hop)
  | erase hc hl hop => exact .erase hc hl (ho.trans hop)
  | data hc ha hop => exact .data hc (hv.trans ha) (ho.trans hop)

lemma Answered.running {req : GetStatusRequest} {resp : StatusResponse} {fw : Firmware}
    {out : GetStatusOut} (h : Answered req resp fw out) (hr : out.ret = true)
    (hb : out.resp.bState = .dnbusy) (hI : req.state = .dnbusy → Running req fw.dfuse) :
    Running req out.fw.dfuse := by
  cases h with
  | setAddress hc => exact .setAddress hc rfl
  | eraseStarted hc _ hl => exact .erase hc hl rfl
  | writeStarted hc ha => exact .data hc ha rfl
  | eraseRuns _ hst | writeRuns _ _ hst => exact hI hst
  | unhandled => cases hr
  | _ => simp at hb

lemma Answered.enters {req : GetStatusRequest} {resp : StatusResponse} {fw : Firmware}
    {out : GetStatusOut} (h : Answered req resp fw out) (hr : out.ret = true)
    (hb : out.resp.bState = .dnbusy) (hst : req.state ≠ .dnbusy) : req.state = .dnloadSync := by
  cases h with
  | setAddress _ hs | eraseStarted _ hs | writeStarted _ _ hs => exact hs
  | eraseRuns _ hs | writeRuns _ _ hs => exact absurd hs hst
  | unhandled => cases hr
  | _ => simp at hb

lemma Answered.not_dnloadSync {req : GetStatusRequest} {resp : StatusResponse} {fw : Firmware}
    {out : GetStatusOut} (h : Answered req resp fw out) (hr : out.ret = true) :
    out.resp.bState ≠ .dnloadSync := by
  cases h with
  | unhandled => cases hr
  | _ => simp

lemma busyOp_getStatus {d : Device} (h : BusyOp d) (resp : StatusResponse) (next : DfuState) :
    BusyOp (step d (.getStatus resp next)).1 := by
  have ha := d.answered resp
  intro hb
  simp only [step] at hb ⊢
  -- the request that GETSTATUS passes on next time differs in its state only
  suffices hrun : Running d.request (d.poll resp).fw.dfuse from
    Running.congr (d := { d with fw := (d.poll resp).fw }) hrun rfl rfl rfl
  by_cases hr : (d.poll resp).ret = true
  · rw [if_pos hr] at hb
    exact ha.running hr hb h
  · rw [if_neg hr] at hb
    -- an unhandled poll does not enter DFU_DNBUSY, and changes nothing
    have hrun := h (DfuState.default_eq_dnbusy hb)
    generalize d.poll resp = out at *
    cases ha with
    | unhandled => exact hrun
    | _ => exact absurd rfl hr

theorem busyOp_step {d : Device} (h : BusyOp d) (e : Event) : BusyOp (step d e).1 := by
  cases e with
  | mount | abort | clrStatus => intro hb; cases hb
  | dnload x =>
    simp only [step]
    split_ifs with ht
    · intro hb
      cases hb
    · exact h
  | getStatus resp next => exact busyOp_getStatus h resp next
  | upload b n mem =>
    obtain ⟨f, hf⟩ := step_upload d b n mem
    rw [hf]
    exact fun hb => (h hb).congr rfl rfl rfl
  | process r => exact h

theorem busyOp_run (es : List Event) : BusyOp (run step powerOn es).1 := by
  have h0 : BusyOp powerOn := fun h => by cases h
  exact run_inv_all (I := BusyOp) (fun _ e h => busyOp_step h e) h0 es

/-! ### The answers -/

/-- **The two answers in `DFU_DNBUSY`.** -/
theorem Answered.busy {req : GetStatusRequest} {resp : StatusResponse} {fw : Firmware}
    {out : GetStatusOut} (h : Answered req resp fw out) (hst : req.state = .dnbusy)
    (hrun : Running req fw.dfuse) :
    (req.IsSetAddress ∨ fw.flash.ctx.state = .idle) ∧
        out = ⟨true, answer resp .ok .dnloadIdle 0, noCallbacks,
          { fw with dfuse := { fw.dfuse with op := .idle } }, []⟩ ∨
      ¬ (req.IsSetAddress ∨ fw.flash.ctx.state = .idle) ∧
        ∃ ms, out = ⟨true, answer resp .ok .dnbusy ms, noCallbacks, fw, []⟩ := by
  have hsync : ¬ req.state = .dnloadSync := by simp [hst]
  cases h with
  | getCommands hc => exact absurd hc hrun.not_getCommands
  | setAddress _ h | massErase _ h | eraseRefused _ h | eraseStarted _ h => exact absurd h hsync
  | writeRefused _ _ h | writeStarted _ _ h => exact absurd h hsync
  | setAddressDone hc => exact .inl ⟨.inl hc, rfl⟩
  | eraseDone _ _ _ hi => exact .inl ⟨.inr hi, rfl⟩
  | writeDone _ _ _ _ hi => exact .inl ⟨.inr hi, rfl⟩
  | eraseRuns hc _ _ hi => exact .inr ⟨not_or.mpr ⟨hc.others.2.1, hi⟩, _, rfl⟩
  | writeRuns hc _ _ _ hi => exact .inr ⟨not_or.mpr ⟨hc.others.2.1, hi⟩, _, rfl⟩
  | unhandled _ hs he hd =>
    -- the three guards are what `Running` says
    cases hrun with
    | setAddress hc hop => exact absurd ⟨hc, .inr ⟨hst, hop⟩⟩ hs
    | erase hc _ hop => exact absurd ⟨hc, .inr ⟨hst, hop⟩⟩ he
    | data hc hv hop => exact absurd ⟨hc, hv, .inr ⟨hst, hop⟩⟩ hd

lemma BusyOp.answered {d : Device} (h : BusyOp d) (hb : d.dfu = .dnbusy) : BusyAnswered d := by
  have hover : d.Over ↔ d.request.IsSetAddress ∨ d.fw.flash.ctx.state = .idle :=
    or_congr_right flashIsBusy_eq_false
  refine ⟨h hb, fun ho resp => ?_, fun ho resp => ?_⟩
  · rcases (d.answered resp).busy hb (h hb) with ⟨-, he⟩ | ⟨hn, -⟩
    · rw [he]
      exact ⟨rfl, rfl, rfl, rfl⟩
    · exact absurd (hover.mp ho) hn
  · rcases (d.answered resp).busy hb (h hb) with ⟨hi, -⟩ | ⟨-, ms, he⟩
    · exact absurd (hover.mpr hi) ho
    · rw [he]
      exact ⟨rfl, rfl, rfl, rfl⟩

/-- **No deadlock in `DFU_DNBUSY`.** In every run of the device that ends there, `op` is the busy
value of the command held, and the next GETSTATUS is answered. -/
theorem dnbusy_answered (es : List Event) (hb : (run step powerOn es).1.dfu = .dnbusy) :
    BusyAnswered (run step powerOn es).1 :=
  (busyOp_run es).answered hb

/-- A SetAddress right after the first mount, up to its first GETSTATUS. -/
def setAddressStarted : List Event :=
  [.mount, .dnload ⟨0, [0x21, 0x00, 0x00, 0x10, 0x08], [], by decide⟩,
    .getStatus ⟨.ok, (0, 0, 0), .dnloadSync⟩ .error]

theorem dnbusy_answered_setAddress : BusyAnswered (run step powerOn setAddressStarted).1 :=
  dnbusy_answered setAddressStarted (by decide)

end Cs7000pBootloader.Dfu
