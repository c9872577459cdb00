import Cs7000pBootloader.Dfu.Legal

/-!
The agreement of the two layers: while the flash driver works, `dfuse_ctx.op` names its operation
and `current_addr` its address.  Two calls break it, an abort and a SetAddress over a running
operation, since they overwrite `op` and leave the driver alone.
-/

namespace Cs7000pBootloader.Dfu

open Flash Cs7000pBootloader.Lib

/-! ### Sequences of calls -/

/-- The calls into the firmware: the callbacks of the USB stack and the poll of the main loop.  The
stack passes no `req.length` above the 1024 bytes of its buffer. -/
inductive FwCall where
  | mount
  | getStatus (alt : Byte) (req : GetStatusRequest) (resp : StatusResponse)
  | upload (alt : Byte) (block length : BitVec 16) (mem : Addr → Byte)
  | abort
  | process (r : ℕ → Sr2)

def fwCall (fw : Firmware) : FwCall → Firmware × List Bus
  | .mount => tudMountCb fw
  | .getStatus alt req resp =>
    ((tudDfuGetStatusCb alt req resp fw).fw, (tudDfuGetStatusCb alt req resp fw).bus)
  | .upload alt b n mem =>
    ({ fw with dfuse := (tudDfuUploadCb alt b n mem fw.dfuse).dfuse },
      (tudDfuUploadCb alt b n mem fw.dfuse).bus)
  | .abort => (tudDfuAbortCb fw, [])
  | .process r => ({ fw with flash := (flashProcess r fw.flash).1 }, (flashProcess r fw.flash).2)

/-! ### The specification -/

/-- **Agreement.** What the driver does is what `op` names, at the address in `current_addr`. -/
structure Agree (fw : Firmware) : Prop where
  erase : fw.flash.ctx.state.isErase = true →
    fw.dfuse.op = .eraseBusy ∧ fw.flash.ctx.addr = fw.dfuse.currentAddr
  write : fw.flash.ctx.state.isWrite = true →
    fw.dfuse.op = .writeBusy ∧ fw.flash.ctx.addr = fw.dfuse.currentAddr

/-- With `op` idle, the driver takes the next erase or write, and no request is answered
`ERR_ADDRESS` because of an earlier operation. -/
structure Accepts (fw : Firmware) : Prop where
  erase : fw.dfuse.op = .idle → ∀ a, (flashEraseSectorAsync a fw.flash).1 = true
  write : fw.dfuse.op = .idle → ∀ a data n, (flashWriteAsync a data n fw.flash).1 = true
  answer : fw.dfuse.op = .idle → ∀ req resp, (tudDfuGetStatusCb 0 req resp fw).ret = true →
    (tudDfuGetStatusCb 0 req resp fw).resp.bStatus ≠ .errAddress

/-- What is asked of a call: that the layers agree after it. -/
def AgreesAfter (fw : Firmware) (c : FwCall) : Prop :=
  Agree (fwCall fw c).1 ∧ Accepts (fwCall fw c).1

/-- The call does not take `op` away from a running operation. -/
def LeavesOp (fw : Firmware) : FwCall → Prop
  | .abort => flashIsBusy fw.flash = false
  | .getStatus alt req _ =>
    alt = 0 → req.IsSetAddress → req.state = .dnloadSync → flashIsBusy fw.flash = false
  | _ => True

/-! ### Agreement -/

lemma agree_of_idle {fw : Firmware} (h : fw.flash.ctx.state = .idle) : Agree fw :=
  ⟨fun he => by simp [h, FlashOpState.isErase] at he,
    fun hw => by simp [h, FlashOpState.isWrite] at hw⟩

lemma Agree.idle {fw : Firmware} (h : Agree fw) (he : fw.dfuse.op ≠ .eraseBusy)
    (hw : fw.dfuse.op ≠ .writeBusy) : fw.flash.ctx.state = .idle := by
  rcases fw.flash.ctx.state.cases with hs | hs | hs
  · exact hs
  · exact absurd (h.erase hs).1 he
  · exact absurd (h.write hs).1 hw

lemma Agree.accepts {fw : Firmware} (h : Agree fw) : Accepts fw := by
  have hidle : fw.dfuse.op = .idle → fw.flash.ctx.state = .idle := fun ho =>
    h.idle (by simp [ho]) (by simp [ho])
  refine ⟨fun ho a => ?_, fun ho a data n => ?_, fun ho req resp hr => ?_⟩
  · rw [flashEraseSectorAsync_idle (hidle ho)]
  · rw [flashWriteAsync_idle (hidle ho)]
  · have ha := tudDfuGetStatusCb_answered req resp fw
    generalize hout : tudDfuGetStatusCb 0 req resp fw = out at *
    cases ha with
    | eraseRefused _ _ _ hb => exact absurd (hidle ho) hb
    | writeRefused _ _ _ _ hb => exact absurd (hidle ho) hb
    | unhandled => cases hr
    | _ => simp

/-- The callback keeps the agreement, except for a SetAddress over a running operation. -/
lemma Agree.answered {req : GetStatusRequest} {resp : StatusResponse} {fw : Firmware}
    {out : GetStatusOut} (ha : Answered req resp fw out) (h : Agree fw)
    (hs : req.IsSetAddress → req.state = .dnloadSync → fw.flash.ctx.state = .idle) :
    Agree out.fw := by
  cases ha with
  | getCommands => exact ⟨h.erase, h.write⟩
  | setAddress hc hst => exact agree_of_idle (hs hc hst)
  | setAddressDone _ _ ho => exact agree_of_idle (h.idle (by simp [ho]) (by simp [ho]))
  | eraseStarted => exact ⟨fun _ => ⟨rfl, rfl⟩, nofun⟩
  | writeStarted => exact ⟨nofun, fun _ => ⟨rfl, rfl⟩⟩
  | eraseDone _ _ _ hi => exact agree_of_idle hi
  | writeDone _ _ _ _ hi => exact agree_of_idle hi
  | massErase | eraseRefused | eraseRuns | writeRefused | writeRuns | unhandled => exact h

lemma Agree.process {fw : Firmware} (h : Agree fw) (r : ℕ → Sr2) :
    Agree { fw with flash := (flashProcess r fw.flash).1 } := by
  have hm := flashProcess_move r fw.flash
  have haddr := hm.addr
  rcases fw.flash.ctx.state.cases with hs | hs | hs
  · rw [flashProcess_idle hs]
    exact h
  · obtain ⟨ho, ha⟩ := h.erase hs
    refine ⟨fun _ => ⟨ho, haddr.trans ha⟩, fun hw => ?_⟩
    -- an erase does not turn into a write
    rcases hm.isErase hs with he | ⟨-, he⟩ | ⟨-, he⟩ <;> simp only [he] at hw
    · cases hst : fw.flash.ctx.state <;> simp_all [FlashOpState.isErase, FlashOpState.isWrite]
    · cases hw
    · cases hw
  · obtain ⟨ho, ha⟩ := h.write hs
    refine ⟨fun he => ?_, fun _ => ⟨ho, haddr.trans ha⟩⟩
    -- nor a write into an erase
    rcases hm.isWrite hs with hw | hw
    · simp only at he
      cases hst : (flashProcess r fw.flash).1.ctx.state <;>
        simp_all [FlashOpState.isErase, FlashOpState.isWrite]
    · simp only [hw] at he
      cases he

lemma tudDfuGetStatusCb_other {alt : Byte} (h : alt ≠ 0) (req : GetStatusRequest)
    (resp : StatusResponse) (fw : Firmware) :
    tudDfuGetStatusCb alt req resp fw = ⟨false, resp, noCallbacks, fw, []⟩ := if_pos h

lemma tudDfuUploadCb_dfuse (alt : Byte) (b n : BitVec 16) (mem : Addr → Byte) (c : DfuseCtx) :
    ∃ f, (tudDfuUploadCb alt b n mem c).dfuse = { c with lastWasGetCmds := f } := by
  unfold tudDfuUploadCb
  split_ifs <;> exact ⟨_, rfl⟩

lemma flashInit_state (d : FlashDev) : (flashInit d).1.ctx.state = .idle := by
  unfold flashInit
  split_ifs <;> rfl

lemma fwCall_agree {fw : Firmware} {c : FwCall} (h : Agree fw) (hc : LeavesOp fw c) :
    Agree (fwCall fw c).1 := by
  cases c with
  | mount => exact agree_of_idle (flashInit_state fw.flash)
  | getStatus alt req resp =>
    by_cases ha : alt = 0
    · subst ha
      exact h.answered (tudDfuGetStatusCb_answered req resp fw)
        fun hs hst => flashIsBusy_eq_false.mp (hc rfl hs hst)
    · simpa only [fwCall, tudDfuGetStatusCb_other ha] using h
  | upload alt b n mem =>
    obtain ⟨f, hf⟩ := tudDfuUploadCb_dfuse alt b n mem fw.dfuse
    simp only [fwCall, hf]
    exact ⟨h.erase, h.write⟩
  | abort => exact agree_of_idle (flashIsBusy_eq_false.mp hc)
  | process r => exact h.process r

lemma agreesAfter_iff {fw : Firmware} {c : FwCall} (h : Agree fw) :
    AgreesAfter fw c ↔ LeavesOp fw c := by
  refine ⟨fun ⟨hag, _⟩ => ?_, fun hc => ⟨fwCall_agree h hc, (fwCall_agree h hc).accepts⟩⟩
  cases c with
  | abort => exact flashIsBusy_eq_false.mpr (hag.idle (by simp [fwCall, tudDfuAbortCb])
      (by simp [fwCall, tudDfuAbortCb]))
  | getStatus alt req resp =>
    rintro rfl hs hst
    have e : (tudDfuGetStatusCb 0 req resp fw).fw = { fw with dfuse :=
        { fw.dfuse with baseAddr := req.addr, haveAddr := true, op := .setAddrBusy } } := by
      have e1 : setAddress req resp fw = _ := (if_pos hs).trans (if_pos hst)
      rw [tudDfuGetStatusCb_zero, getCommands_none hs.others.1, e1]
      rfl
    simp only [fwCall, e] at hag
    exact flashIsBusy_eq_false.mpr (hag.idle (by simp) (by simp))
  | _ => trivial

/-- **Agreement over whole runs.** From an idle driver, the layers agree after every call of a
sequence exactly when no abort and no SetAddress of the sequence falls into a running erase or
write. -/
theorem layers_agree_iff (fw : Firmware) (hs : flashIsBusy fw.flash = false) (calls : List FwCall) :
    Along fwCall AgreesAfter fw calls ↔ Along fwCall LeavesOp fw calls :=
  along_iff_of_inv (I := Agree) (fun _ _ => fwCall_agree) (fun _ _ => agreesAfter_iff)
    (agree_of_idle (flashIsBusy_eq_false.mp hs))

/-- The GETSTATUS that starts a data block of one byte. -/
def firstPoll : FwCall := .getStatus 0 ⟨.dnloadSync, 2, 1, [0xAA]⟩ ⟨.ok, (0, 0, 0), .dnloadSync⟩

theorem layers_agree_iff_reset :
    Along fwCall AgreesAfter resetFw [.mount, firstPoll, .process fun _ => sr2Clear, .abort] ↔
      Along fwCall LeavesOp resetFw [.mount, firstPoll, .process fun _ => sr2Clear, .abort] :=
  layers_agree_iff resetFw rfl _

/-- An abort right after a data block was accepted: the write runs on under an idle `op`. -/
theorem abort_breaks_agreement :
    ¬ ∀ calls, Along fwCall AgreesAfter resetFw calls := by
  intro h
  have hag := (h [.mount, firstPoll, .abort]).2.2.1.1
  exact absurd (hag.write (by decide)).1 (by decide)

end Cs7000pBootloader.Dfu
