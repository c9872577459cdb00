import Cs7000pBootloader.Dfu.Callbacks

/-!
What `tud_dfu_get_status_cb` can answer on alt 0.  `Answered` lists the outcomes once; the later
modules read their facts off it.  The answers are legal DFU answers, with one exception: GetCommands
is answered in every DFU state.
-/

namespace Cs7000pBootloader.Dfu

open Flash

/-! ### The four commands -/

section Commands

variable (req : GetStatusRequest)

def GetStatusRequest.IsGetCommands : Prop :=
  req.block = 0 ∧ req.length = 1 ∧ req.byte 0 = dfuseCmdGetCommands

def GetStatusRequest.IsSetAddress : Prop :=
  req.block = 0 ∧ req.length = 5 ∧ req.byte 0 = dfuseCmdSetAddress

def GetStatusRequest.IsErase : Prop :=
  req.block = 0 ∧ 1 ≤ req.length ∧ req.byte 0 = dfuseCmdErase

def GetStatusRequest.IsData : Prop := 2 ≤ req.block ∧ 0 < req.length

instance : Decidable req.IsGetCommands := by
  unfold GetStatusRequest.IsGetCommands; infer_instance

instance : Decidable req.IsSetAddress := by
  unfold GetStatusRequest.IsSetAddress; infer_instance

instance : Decidable req.IsErase := by unfold GetStatusRequest.IsErase; infer_instance

instance : Decidable req.IsData := by unfold GetStatusRequest.IsData; infer_instance

variable {req}

lemma cmd_bytes : dfuseCmdGetCommands ≠ dfuseCmdSetAddress ∧ dfuseCmdGetCommands ≠ dfuseCmdErase ∧
    dfuseCmdSetAddress ≠ dfuseCmdErase := by decide

lemma not_data_of_block (h : req.block = 0) : ¬ req.IsData := by
  rintro ⟨h2, -⟩
  rw [h] at h2
  exact absurd h2 (by decide)

lemma GetStatusRequest.IsGetCommands.others (h : req.IsGetCommands) :
    ¬ req.IsSetAddress ∧ ¬ req.IsErase ∧ ¬ req.IsData :=
  ⟨fun hs => cmd_bytes.1 (h.2.2.symm.trans hs.2.2), fun he => cmd_bytes.2.1 (h.2.2.symm.trans he.2.2),
    not_data_of_block h.1⟩

lemma GetStatusRequest.IsSetAddress.others (h : req.IsSetAddress) :
    ¬ req.IsGetCommands ∧ ¬ req.IsErase ∧ ¬ req.IsData :=
  ⟨fun hg => cmd_bytes.1 (hg.2.2.symm.trans h.2.2), fun he => cmd_bytes.2.2 (h.2.2.symm.trans he.2.2),
    not_data_of_block h.1⟩

lemma GetStatusRequest.IsErase.others (h : req.IsErase) :
    ¬ req.IsGetCommands ∧ ¬ req.IsSetAddress ∧ ¬ req.IsData :=
  ⟨fun hg => cmd_bytes.2.1 (hg.2.2.symm.trans h.2.2), fun hs => cmd_bytes.2.2 (hs.2.2.symm.trans h.2.2),
    not_data_of_block h.1⟩

lemma GetStatusRequest.IsData.others (h : req.IsData) :
    ¬ req.IsGetCommands ∧ ¬ req.IsSetAddress ∧ ¬ req.IsErase :=
  ⟨fun hc => not_data_of_block hc.1 h, fun hc => not_data_of_block hc.1 h,
    fun hc => not_data_of_block hc.1 h⟩

end Commands

/-! ### The outcomes of a GETSTATUS -/

/-- **What the callback can answer.** -/
inductive Answered (req : GetStatusRequest) (resp : StatusResponse) (fw : Firmware) :
    GetStatusOut → Prop
  | getCommands : req.IsGetCommands →
      Answered req resp fw ⟨true, answer resp .ok .dnloadIdle 0, noCallbacks,
        { fw with dfuse := { fw.dfuse with lastWasGetCmds := true } }, []⟩
  | setAddress : req.IsSetAddress → req.state = .dnloadSync →
      Answered req resp fw ⟨true, answer resp .ok .dnbusy 0, noCallbacks, { fw with dfuse :=
        { fw.dfuse with baseAddr := req.addr, haveAddr := true, op := .setAddrBusy } }, []⟩
  | setAddressDone : req.IsSetAddress → req.state = .dnbusy → fw.dfuse.op = .setAddrBusy →
      Answered req resp fw ⟨true, answer resp .ok .dnloadIdle 0, noCallbacks,
        { fw with dfuse := { fw.dfuse with op := .idle } }, []⟩
  | massErase : req.IsErase → req.state = .dnloadSync → req.length ≠ 5 →
      Answered req resp fw ⟨true, answer resp .errTarget .error 0, noCallbacks, fw, []⟩
  | eraseRefused : req.IsErase → req.state = .dnloadSync → req.length = 5 →
      fw.flash.ctx.state ≠ .idle →
      Answered req resp fw ⟨true, answer resp .errAddress .error 0, noCallbacks, fw, []⟩
  | eraseStarted : req.IsErase → req.state = .dnloadSync → req.length = 5 →
      fw.flash.ctx.state = .idle →
      Answered req resp fw ⟨true, answer resp .ok .dnbusy 900, noCallbacks,
        ⟨{ fw.dfuse with op := .eraseBusy, currentAddr := req.addr },
          { fw.flash with ctx := { fw.flash.ctx with addr := req.addr, state := .erasePending } }⟩, []⟩
  | eraseDone : req.IsErase → req.state = .dnbusy → fw.dfuse.op = .eraseBusy →
      fw.flash.ctx.state = .idle →
      Answered req resp fw ⟨true, answer resp .ok .dnloadIdle 0, noCallbacks,
        { fw with dfuse := { fw.dfuse with op := .idle } }, []⟩
  | eraseRuns : req.IsErase → req.state = .dnbusy → fw.dfuse.op = .eraseBusy →
      fw.flash.ctx.state ≠ .idle →
      Answered req resp fw ⟨true, answer resp .ok .dnbusy 20, noCallbacks, fw, []⟩
  | writeRefused : req.IsData → fw.dfuse.haveAddr = true → req.state = .dnloadSync →
      fw.dfuse.op = .idle → fw.flash.ctx.state ≠ .idle →
      Answered req resp fw ⟨true, answer resp .errAddress .error 0, noCallbacks, fw, []⟩
  | writeStarted : req.IsData → fw.dfuse.haveAddr = true → req.state = .dnloadSync →
      fw.dfuse.op = .idle → fw.flash.ctx.state = .idle →
      Answered req resp fw ⟨true, answer resp .ok .dnbusy 3, noCallbacks,
        ⟨{ fw.dfuse with op := .writeBusy, currentAddr := blockAddr fw.dfuse.baseAddr req.block },
          { fw.flash with ctx := ⟨.writePending, blockAddr fw.dfuse.baseAddr req.block,
            memcpy fw.flash.ctx.buffer req.buffer req.length.toNat, req.length, 0⟩ }⟩,
        [.phoneTxd true]⟩
  | writeDone : req.IsData → fw.dfuse.haveAddr = true → req.state = .dnbusy →
      fw.dfuse.op = .writeBusy → fw.flash.ctx.state = .idle →
      Answered req resp fw ⟨true, answer resp .ok .dnloadIdle 0, noCallbacks,
        { fw with dfuse := { fw.dfuse with op := .idle } }, []⟩
  | writeRuns : req.IsData → fw.dfuse.haveAddr = true → req.state = .dnbusy →
      fw.dfuse.op = .writeBusy → fw.flash.ctx.state ≠ .idle →
      Answered req resp fw ⟨true, answer resp .ok .dnbusy 1, noCallbacks, fw, []⟩
  | unhandled : ¬ req.IsGetCommands →
      ¬ (req.IsSetAddress ∧ (req.state = .dnloadSync ∨
        req.state = .dnbusy ∧ fw.dfuse.op = .setAddrBusy)) →
      ¬ (req.IsErase ∧ (req.state = .dnloadSync ∨
        req.state = .dnbusy ∧ fw.dfuse.op = .eraseBusy)) →
      ¬ (req.IsData ∧ fw.dfuse.haveAddr = true ∧ (req.state = .dnloadSync ∧ fw.dfuse.op = .idle ∨
        req.state = .dnbusy ∧ fw.dfuse.op = .writeBusy)) →
      Answered req resp fw ⟨false, resp, noCallbacks, fw, []⟩

section Blocks

variable {req : GetStatusRequest} {resp : StatusResponse} {fw : Firmware}

lemma getCommands_none (h : ¬ req.IsGetCommands) : getCommands req resp fw = none := if_neg h

lemma setAddress_none (h : ¬ (req.IsSetAddress ∧ (req.state = .dnloadSync ∨
    req.state = .dnbusy ∧ fw.dfuse.op = .setAddrBusy))) : setAddress req resp fw = none := by
  unfold setAddress
  by_cases hc : req.IsSetAddress
  · have h1 : ¬ req.state = .dnloadSync := fun hs => h ⟨hc, .inl hs⟩
    have h2 : ¬ (req.state = .dnbusy ∧ fw.dfuse.op = .setAddrBusy) := fun hs => h ⟨hc, .inr hs⟩
    exact (if_pos hc).trans ((if_neg h1).trans (if_neg h2))
  · exact if_neg hc

lemma erase_none (h : ¬ (req.IsErase ∧ (req.state = .dnloadSync ∨
    req.state = .dnbusy ∧ fw.dfuse.op = .eraseBusy))) : erase req resp fw = none := by
  unfold erase
  by_cases hc : req.IsErase
  · have h1 : ¬ req.state = .dnloadSync := fun hs => h ⟨hc, .inl hs⟩
    have h2 : ¬ (req.state = .dnbusy ∧ fw.dfuse.op = .eraseBusy) := fun hs => h ⟨hc, .inr hs⟩
    exact (if_pos hc).trans ((if_neg h1).trans (if_neg h2))
  · exact if_neg hc

lemma dataBlock_none (h : ¬ (req.IsData ∧ fw.dfuse.haveAddr = true ∧
    (req.state = .dnloadSync ∧ fw.dfuse.op = .idle ∨
      req.state = .dnbusy ∧ fw.dfuse.op = .writeBusy))) : dataBlock req resp fw = none := by
  unfold dataBlock
  by_cases hc : 2 ≤ req.block ∧ 0 < req.length ∧ fw.dfuse.haveAddr = true
  · have hd : req.IsData := ⟨hc.1, hc.2.1⟩
    have h1 : ¬ (req.state = .dnloadSync ∧ fw.dfuse.op = .idle) :=
      fun hs => h ⟨hd, hc.2.2, .inl hs⟩
    have h2 : ¬ (req.state = .dnbusy ∧ fw.dfuse.op = .writeBusy) :=
      fun hs => h ⟨hd, hc.2.2, .inr hs⟩
    exact (if_pos hc).trans ((if_neg h1).trans (if_neg h2))
  · exact if_neg hc

end Blocks

section Cb

variable (req : GetStatusRequest) (resp : StatusResponse) (fw : Firmware)

lemma tudDfuGetStatusCb_zero :
    tudDfuGetStatusCb 0 req resp fw =
      (getCommands req resp fw <|> setAddress req resp fw <|> erase req resp fw <|>
        dataBlock req resp fw).getD ⟨false, resp, noCallbacks, fw, []⟩ := by
  unfold tudDfuGetStatusCb
  exact if_neg (by simp)

theorem tudDfuGetStatusCb_answered :
    Answered req resp fw (tudDfuGetStatusCb 0 req resp fw) := by
  rw [tudDfuGetStatusCb_zero]
  by_cases hg : req.IsGetCommands
  · have e : getCommands req resp fw = _ := if_pos hg
    rw [e]
    exact .getCommands hg
  rw [getCommands_none hg]
  by_cases hs : req.IsSetAddress ∧ (req.state = .dnloadSync ∨
      req.state = .dnbusy ∧ fw.dfuse.op = .setAddrBusy)
  · obtain ⟨hc, hst | hst⟩ := hs
    · have e : setAddress req resp fw = _ := (if_pos hc).trans (if_pos hst)
      rw [e]
      exact .setAddress hc hst
    · have e : setAddress req resp fw = _ :=
        (if_pos hc).trans ((if_neg (by simp [hst.1])).trans (if_pos hst))
      rw [e]
      exact .setAddressDone hc hst.1 hst.2
  rw [setAddress_none hs]
  by_cases he : req.IsErase ∧ (req.state = .dnloadSync ∨
      req.state = .dnbusy ∧ fw.dfuse.op = .eraseBusy)
  · obtain ⟨hc, hst | hst⟩ := he
    · have e : erase req resp fw = _ := (if_pos hc).trans (if_pos hst)
      rw [e]
      by_cases hl : req.length = 5
      · rw [if_neg (not_not.mpr hl)]
        by_cases hi : fw.flash.ctx.state = .idle
        · rw [flashEraseSectorAsync_idle hi]
          exact .eraseStarted hc hst hl hi
        · rw [flashEraseSectorAsync_busy hi]
          exact .eraseRefused hc hst hl hi
      · rw [if_pos hl]
        exact .massErase hc hst hl
    · have e : erase req resp fw = _ :=
        (if_pos hc).trans ((if_neg (by simp [hst.1])).trans (if_pos hst))
      rw [e]
      by_cases hi : fw.flash.ctx.state = .idle
      · rw [if_pos (by simp [flashIsBusy, hi])]
        exact .eraseDone hc hst.1 hst.2 hi
      · rw [if_neg (by simp [flashIsBusy, hi])]
        exact .eraseRuns hc hst.1 hst.2 hi
  rw [erase_none he]
  by_cases hd : req.IsData ∧ fw.dfuse.haveAddr = true ∧
      (req.state = .dnloadSync ∧ fw.dfuse.op = .idle ∨
        req.state = .dnbusy ∧ fw.dfuse.op = .writeBusy)
  · obtain ⟨hc, ha, hst | hst⟩ := hd
    · have e : dataBlock req resp fw = _ := (if_pos ⟨hc.1, hc.2, ha⟩).trans (if_pos hst)
      rw [e]
      by_cases hi : fw.flash.ctx.state = .idle
      · rw [flashWriteAsync_idle hi]
        exact .writeStarted hc ha hst.1 hst.2 hi
      · rw [flashWriteAsync_busy hi]
        exact .writeRefused hc ha hst.1 hst.2 hi
    · have e : dataBlock req resp fw = _ :=
        (if_pos ⟨hc.1, hc.2, ha⟩).trans ((if_neg (by simp [hst.1])).trans (if_pos hst))
      rw [e]
      by_cases hi : fw.flash.ctx.state = .idle
      · rw [if_pos (by simp [flashIsBusy, hi])]
        exact .writeDone hc ha hst.1 hst.2 hi
      · rw [if_neg (by simp [flashIsBusy, hi])]
        exact .writeRuns hc ha hst.1 hst.2 hi
  rw [dataBlock_none hd]
  exact .unhandled hg hs he hd

end Cb

lemma Answered.haveAddr {req : GetStatusRequest} {resp : StatusResponse} {fw : Firmware}
    {out : GetStatusOut} (h : Answered req resp fw out) (ha : fw.dfuse.haveAddr = true) :
    out.fw.dfuse.haveAddr = true := by
  cases h <;> first | exact ha | rfl

/-! ### The first GETSTATUS of a command -/

section Sync

variable {req : GetStatusRequest} {resp : StatusResponse} {fw : Firmware} {out : GetStatusOut}

theorem Answered.sync_setAddress (h : Answered req resp fw out) (hs : req.IsSetAddress)
    (hst : req.state = .dnloadSync) :
    out = ⟨true, answer resp .ok .dnbusy 0, noCallbacks, { fw with dfuse :=
      { fw.dfuse with baseAddr := req.addr, haveAddr := true, op := .setAddrBusy } }, []⟩ := by
  have hbusy : ¬ req.state = .dnbusy := by simp [hst]
  cases h with
  | setAddress => rfl
  | unhandled _ hn => exact absurd ⟨hs, .inl hst⟩ hn
  | setAddressDone _ hb => exact absurd hb hbusy
  | getCommands hc => exact absurd hs hc.others.1
  | massErase hc | eraseRefused hc | eraseStarted hc | eraseDone hc | eraseRuns hc =>
    exact absurd hs hc.others.2.1
  | writeRefused hc | writeStarted hc | writeDone hc | writeRuns hc => exact absurd hs hc.others.2.1

theorem Answered.sync_erase (h : Answered req resp fw out) (hc : req.IsErase)
    (hst : req.state = .dnloadSync) (hl : req.length = 5) :
    fw.flash.ctx.state ≠ .idle ∧
        out = ⟨true, answer resp .errAddress .error 0, noCallbacks, fw, []⟩ ∨
      fw.flash.ctx.state = .idle ∧ out = ⟨true, answer resp .ok .dnbusy 900, noCallbacks,
        ⟨{ fw.dfuse with op := .eraseBusy, currentAddr := req.addr },
          { fw.flash with ctx := { fw.flash.ctx with addr := req.addr, state := .erasePending } }⟩,
        []⟩ := by
  have hbusy : ¬ req.state = .dnbusy := by simp [hst]
  cases h with
  | eraseRefused _ _ _ hi => exact .inl ⟨hi, rfl⟩
  | eraseStarted _ _ _ hi => exact .inr ⟨hi, rfl⟩
  | massErase _ _ hn => exact absurd hl hn
  | unhandled _ _ hn => exact absurd ⟨hc, .inl hst⟩ hn
  | getCommands hg => exact absurd hc hg.others.2.1
  | setAddress hs | setAddressDone hs => exact absurd hc hs.others.2.1
  | writeRefused hd | writeStarted hd => exact absurd hc hd.others.2.2
  | eraseDone _ hs | eraseRuns _ hs | writeDone _ _ hs | writeRuns _ _ hs => exact absurd hs hbusy

theorem Answered.sync_data (h : Answered req resp fw out) (hd : req.IsData)
    (hst : req.state = .dnloadSync) :
    (fw.dfuse.haveAddr = true ∧ fw.dfuse.op = .idle) ∧
        (fw.flash.ctx.state ≠ .idle ∧
            out = ⟨true, answer resp .errAddress .error 0, noCallbacks, fw, []⟩ ∨
          fw.flash.ctx.state = .idle ∧ out = ⟨true, answer resp .ok .dnbusy 3, noCallbacks,
            ⟨{ fw.dfuse with op := .writeBusy, currentAddr := blockAddr fw.dfuse.baseAddr req.block },
              { fw.flash with ctx := ⟨.writePending, blockAddr fw.dfuse.baseAddr req.block,
                memcpy fw.flash.ctx.buffer req.buffer req.length.toNat, req.length, 0⟩ }⟩,
            [.phoneTxd true]⟩) ∨
      ¬ (fw.dfuse.haveAddr = true ∧ fw.dfuse.op = .idle) ∧
        out = ⟨false, resp, noCallbacks, fw, []⟩ := by
  have hbusy : ¬ req.state = .dnbusy := by simp [hst]
  cases h with
  | writeRefused _ ha _ ho hi => exact .inl ⟨⟨ha, ho⟩, .inl ⟨hi, rfl⟩⟩
  | writeStarted _ ha _ ho hi => exact .inl ⟨⟨ha, ho⟩, .inr ⟨hi, rfl⟩⟩
  | unhandled _ _ _ hn => exact .inr ⟨fun hc => hn ⟨hd, hc.1, .inl ⟨hst, hc.2⟩⟩, rfl⟩
  | getCommands hc => exact absurd hd hc.others.2.2
  | setAddress hc | setAddressDone hc => exact absurd hd hc.others.2.2
  | massErase hc | eraseRefused hc | eraseStarted hc | eraseDone hc | eraseRuns hc =>
    exact absurd hd hc.others.2.2
  | writeDone _ _ hs | writeRuns _ _ hs => exact absurd hs hbusy

end Sync

end Cs7000pBootloader.Dfu
