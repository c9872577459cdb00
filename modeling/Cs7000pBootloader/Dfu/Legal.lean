import Cs7000pBootloader.Dfu.Answers

/-!
Legal DFU answers: a request outside the download states is left alone, an answer is a DFU successor
of the state it answers, an error changes nothing, and nothing past the length of the request is
read.  GetCommands, which is answered in every state, is the one exception.
-/

namespace Cs7000pBootloader.Dfu

open Flash

/-! ### The specification -/

/-- The DFU states that may follow a download state at a GETSTATUS. -/
def DfuState.Successor : DfuState → DfuState → Prop
  | .dnloadSync, s => s = .dnbusy ∨ s = .dnloadIdle ∨ s = .error
  | .dnbusy, s => s = .dnbusy ∨ s = .dnloadIdle
  | _, _ => False

/-- **A legal answer** to a request on alt 0. -/
structure LegalAnswer (req : GetStatusRequest) (resp : StatusResponse) (fw : Firmware)
    (out : GetStatusOut) : Prop where
  /-- outside the download states the request is left alone -/
  alone : req.state ≠ .dnloadSync → req.state ≠ .dnbusy →
    out.ret = false ∧ out.resp = resp ∧ out.fw = fw
  /-- an answer is a successor of the request's state -/
  successor : out.ret = true → req.state.Successor out.resp.bState
  /-- the status is `OK` exactly when the answer is no error -/
  status : out.ret = true → (out.resp.bStatus = .ok ↔ out.resp.bState ≠ .error)
  /-- an error changes nothing -/
  error : out.ret = true → out.resp.bState = .error → out.fw = fw
  /-- what lies in the buffer from the length on does not matter -/
  bounded : ∀ buffer, buffer.take req.length.toNat = req.buffer.take req.length.toNat →
    tudDfuGetStatusCb 0 { req with buffer } resp fw = out

/-! ### The bytes past the length -/

section Buffer

variable {req : GetStatusRequest} {buffer : List Byte}

lemma byte_congr (h : buffer.take req.length.toNat = req.buffer.take req.length.toNat) {i : ℕ}
    (hi : i < req.length.toNat) : GetStatusRequest.byte { req with buffer } i = req.byte i := by
  have e : ∀ b : List Byte, b.getD i 0 = (b.take req.length.toNat).getD i 0 := fun b => by
    simp only [List.getD_eq_getElem?_getD]
    rw [List.getElem?_take_of_lt hi]
  unfold GetStatusRequest.byte
  rw [e, e req.buffer, h]

lemma addr_congr (h : buffer.take req.length.toNat = req.buffer.take req.length.toNat)
    (hl : req.length = 5) : GetStatusRequest.addr { req with buffer } = req.addr := by
  have h5 : req.length.toNat = 5 := by rw [hl]; rfl
  unfold GetStatusRequest.addr
  rw [byte_congr h (by omega), byte_congr h (by omega), byte_congr h (by omega),
    byte_congr h (by omega)]

variable (resp : StatusResponse) (fw : Firmware)

lemma getCommands_congr (h : buffer.take req.length.toNat = req.buffer.take req.length.toNat) :
    getCommands { req with buffer } resp fw = getCommands req resp fw := by
  unfold getCommands
  by_cases hl : req.length = 1
  · rw [byte_congr h (by rw [hl]; decide)]
  · rw [if_neg fun hc => hl hc.2.1, if_neg fun hc => hl hc.2.1]

lemma setAddress_congr (h : buffer.take req.length.toNat = req.buffer.take req.length.toNat) :
    setAddress { req with buffer } resp fw = setAddress req resp fw := by
  unfold setAddress
  by_cases hl : req.length = 5
  · rw [byte_congr h (by rw [hl]; decide), addr_congr h hl]
  · rw [if_neg fun hc => hl hc.2.1, if_neg fun hc => hl hc.2.1]

lemma erase_congr (h : buffer.take req.length.toNat = req.buffer.take req.length.toNat) :
    erase { req with buffer } resp fw = erase req resp fw := by
  unfold erase
  by_cases hl : 1 ≤ req.length
  · rw [byte_congr h (Nat.lt_of_lt_of_le Nat.zero_lt_one (BitVec.le_def.mp hl))]
    by_cases h5 : req.length = 5
    · rw [addr_congr h h5]
    · simp only [ne_eq, h5, not_false_eq_true, ↓reduceIte]
  · rw [if_neg fun hc => hl hc.2.1, if_neg fun hc => hl hc.2.1]

lemma dataBlock_congr (h : buffer.take req.length.toNat = req.buffer.take req.length.toNat) :
    dataBlock { req with buffer } resp fw = dataBlock req resp fw := by
  unfold dataBlock flashWriteAsync memcpy
  simp only [h]

theorem tudDfuGetStatusCb_congr
    (h : buffer.take req.length.toNat = req.buffer.take req.length.toNat) :
    tudDfuGetStatusCb 0 { req with buffer } resp fw = tudDfuGetStatusCb 0 req resp fw := by
  rw [tudDfuGetStatusCb_zero, tudDfuGetStatusCb_zero, getCommands_congr resp fw h,
    setAddress_congr resp fw h, erase_congr resp fw h, dataBlock_congr resp fw h]

end Buffer

/-! ### Legality -/

@[simp] lemma answer_bState (resp : StatusResponse) (st : DfuStatus) (s : DfuState)
    (ms : BitVec 32) : (answer resp st s ms).bState = s := rfl

@[simp] lemma answer_bStatus (resp : StatusResponse) (st : DfuStatus) (s : DfuState)
    (ms : BitVec 32) : (answer resp st s ms).bStatus = st := rfl

section Legal

variable {req : GetStatusRequest} {resp : StatusResponse} {fw : Firmware} {out : GetStatusOut}

/-- Outside the download states only GetCommands is answered. -/
lemma Answered.alone (h : Answered req resp fw out) (hs : req.state ≠ .dnloadSync)
    (hb : req.state ≠ .dnbusy) (hg : ¬ req.IsGetCommands) :
    out.ret = false ∧ out.resp = resp ∧ out.fw = fw := by
  cases h with
  | getCommands hc => exact absurd hc hg
  | unhandled => exact ⟨rfl, rfl, rfl⟩
  | setAddress _ hst | massErase _ hst | eraseRefused _ hst | eraseStarted _ hst => exact absurd hst hs
  | writeRefused _ _ hst | writeStarted _ _ hst => exact absurd hst hs
  | setAddressDone _ hst | eraseDone _ hst | eraseRuns _ hst => exact absurd hst hb
  | writeDone _ _ hst | writeRuns _ _ hst => exact absurd hst hb

lemma Answered.successor (h : Answered req resp fw out) (hr : out.ret = true)
    (hst : req.state = .dnloadSync ∨ req.state = .dnbusy) :
    req.state.Successor out.resp.bState := by
  cases h with
  | getCommands => rcases hst with hst | hst <;> rw [hst] <;> simp [DfuState.Successor]
  | unhandled => cases hr
  | setAddress _ h | massErase _ h | eraseRefused _ h | eraseStarted _ h =>
    rw [h]; simp [DfuState.Successor]
  | writeRefused _ _ h | writeStarted _ _ h => rw [h]; simp [DfuState.Successor]
  | setAddressDone _ h | eraseDone _ h | eraseRuns _ h => rw [h]; simp [DfuState.Successor]
  | writeDone _ _ h | writeRuns _ _ h => rw [h]; simp [DfuState.Successor]

lemma Answered.status (h : Answered req resp fw out) (hr : out.ret = true) :
    out.resp.bStatus = .ok ↔ out.resp.bState ≠ .error := by
  cases h with
  | unhandled => cases hr
  | _ => simp

lemma Answered.error (h : Answered req resp fw out) (hr : out.ret = true)
    (he : out.resp.bState = .error) : out.fw = fw := by
  cases h with
  | massErase | eraseRefused | writeRefused => rfl
  | unhandled => cases hr
  | _ => simp at he

end Legal

/-- **Legal answers.** The callback's answer to a request on alt 0 is legal exactly when the request
is no GetCommands outside the download states. -/
theorem legalAnswer_iff (req : GetStatusRequest) (resp : StatusResponse) (fw : Firmware) :
    LegalAnswer req resp fw (tudDfuGetStatusCb 0 req resp fw) ↔
      ¬ (req.IsGetCommands ∧ req.state ≠ .dnloadSync ∧ req.state ≠ .dnbusy) := by
  have h := tudDfuGetStatusCb_answered req resp fw
  constructor
  · rintro hl ⟨hg, hs, hb⟩
    have hr := (hl.alone hs hb).1
    have e : getCommands req resp fw = _ := if_pos hg
    rw [tudDfuGetStatusCb_zero, e] at hr
    cases hr
  · intro hn
    have hg : req.state ≠ .dnloadSync → req.state ≠ .dnbusy → ¬ req.IsGetCommands :=
      fun hs hb hc => hn ⟨hc, hs, hb⟩
    refine ⟨fun hs hb => h.alone hs hb (hg hs hb), fun hr => ?_, h.status, h.error,
      fun b hb => tudDfuGetStatusCb_congr resp fw hb⟩
    refine h.successor hr ?_
    by_contra hc
    rw [not_or] at hc
    have hret := (h.alone hc.1 hc.2 (hg hc.1 hc.2)).1
    rw [hr] at hret
    cases hret

/-- After an abort, a GETSTATUS in `DFU_IDLE` over the GetCommands of before moves the device to
`DFU_DNLOAD_IDLE`. -/
theorem getCommands_leaves_dfuIdle :
    ¬ LegalAnswer ⟨.dfuIdle, 0, 1, [0]⟩ ⟨.ok, (0, 0, 0), .dfuIdle⟩ resetFw
      (tudDfuGetStatusCb 0 ⟨.dfuIdle, 0, 1, [0]⟩ ⟨.ok, (0, 0, 0), .dfuIdle⟩ resetFw) := by
  intro h
  have := (h.alone (by decide) (by decide)).1
  exact absurd this (by decide)

end Cs7000pBootloader.Dfu
