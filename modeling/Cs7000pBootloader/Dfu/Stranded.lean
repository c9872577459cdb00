import Cs7000pBootloader.Dfu.Busy

/-!
Data blocks that are silently ignored.  The write branch alone is guarded by an idle `op`, and a
CLRSTATUS in `DFU_DNBUSY` returns to `DFU_IDLE` without a call that would clear `op`: the operation
is stranded, and every data block after it falls through the callback until an abort, a mount or a
SetAddress or Erase polled to its end.
-/

namespace Cs7000pBootloader.Dfu

open Flash Cs7000pBootloader.Lib

/-! ### The specification -/

/-- The GETSTATUS handles the data block: it is accepted by the flash driver, or refused. -/
def Device.Handles (d : Device) (resp : StatusResponse) : Prop :=
  (d.poll resp).ret = true ∧
    ((d.poll resp).resp.bState = .dnbusy ∧
        flashWriteAsync (blockAddr d.fw.dfuse.baseAddr d.request.block) d.request.buffer
          d.request.length d.fw.flash = (true, (d.poll resp).fw.flash, (d.poll resp).bus) ∨
      (d.poll resp).resp.bState = .error)

/-- What is asked of an event: a GETSTATUS in `DFU_DNLOAD_SYNC` handles its data block. -/
def BlockHandled (d : Device) : Event → Prop
  | .getStatus resp _ => d.dfu = .dnloadSync → d.request.IsData → d.Handles resp
  | _ => True

instance (d : Device) : Decidable d.Over := by unfold Device.Over; infer_instance

/-- An operation becomes stranded by a CLRSTATUS in `DFU_DNBUSY`, and stays so until an abort, a
mount, or a poll that ends a later operation. -/
def stranded (d : Device) : Event → Bool → Bool
  | .clrStatus, b => b || d.dfu = .dnbusy
  | .abort, _ | .mount, _ => false
  | .getStatus _ _, b => if d.dfu = .dnbusy ∧ d.Over then false else b
  | _, b => b

/-- The event is no data block over a stranded operation. -/
def NotOverStranded (s : Device × Bool) : Event → Prop
  | .getStatus _ _ => s.1.dfu = .dnloadSync → s.1.request.IsData → s.2 = false
  | _ => True

/-! ### The invariant -/

/-- Outside `DFU_DNBUSY`, `op` is idle exactly when no operation is stranded. -/
structure StrandedOp (s : Device × Bool) : Prop where
  haveAddr : s.1.fw.dfuse.haveAddr = true
  busy : BusyOp s.1
  op : s.1.dfu ≠ .dnbusy → (s.1.fw.dfuse.op = .idle ↔ s.2 = false)

lemma Answered.op_eq {req : GetStatusRequest} {resp : StatusResponse} {fw : Firmware}
    {out : GetStatusOut} (h : Answered req resp fw out) (hst : req.state ≠ .dnbusy)
    (hb : out.ret = true → out.resp.bState ≠ .dnbusy) : out.fw.dfuse.op = fw.dfuse.op := by
  cases h with
  | getCommands | massErase | eraseRefused | writeRefused | unhandled => rfl
  | setAddressDone _ h | eraseDone _ h | eraseRuns _ h => exact absurd h hst
  | writeDone _ _ h | writeRuns _ _ h => exact absurd h hst
  | setAddress | eraseStarted | writeStarted => exact absurd rfl (hb rfl)

lemma strandedOp_getStatus {s : Device × Bool} (h : StrandedOp s) (resp : StatusResponse)
    (next : DfuState) : StrandedOp (withGhost step stranded s (.getStatus resp next)).1 := by
  obtain ⟨d, b⟩ := s
  have ha := d.answered resp
  refine ⟨ha.haveAddr h.haveAddr, busyOp_step h.busy _, ?_⟩
  simp only [withGhost, step, stranded]
  intro hnb
  by_cases hst : d.dfu = .dnbusy
  · have hover : d.Over ↔ d.request.IsSetAddress ∨ d.fw.flash.ctx.state = .idle :=
      or_congr_right flashIsBusy_eq_false
    rcases ha.busy hst (h.busy hst) with ⟨hi, he⟩ | ⟨-, ms, he⟩
    · rw [if_pos ⟨hst, hover.mpr hi⟩, he]
      exact ⟨fun _ => rfl, fun _ => rfl⟩
    · rw [he] at hnb
      exact absurd rfl hnb
  · rw [if_neg fun hc => hst hc.1]
    have hop : (d.poll resp).fw.dfuse.op = d.fw.dfuse.op := ha.op_eq hst fun hr => by
      rw [if_pos hr] at hnb
      exact hnb
    rw [hop]
    exact h.op hst

theorem strandedOp_step {s : Device × Bool} (h : StrandedOp s) (e : Event) :
    StrandedOp (withGhost step stranded s e).1 := by
  have hbusy : BusyOp (withGhost step stranded s e).1.1 := busyOp_step h.busy e
  cases e with
  | mount => exact ⟨rfl, hbusy, fun _ => ⟨fun _ => rfl, fun _ => rfl⟩⟩
  | abort => exact ⟨h.haveAddr, hbusy, fun _ => ⟨fun _ => rfl, fun _ => rfl⟩⟩
  | getStatus resp next => exact strandedOp_getStatus h resp next
  | process r => exact ⟨h.haveAddr, hbusy, h.op⟩
  | upload b n mem =>
    obtain ⟨f, hf⟩ := step_upload s.1 b n mem
    refine ⟨?_, hbusy, ?_⟩ <;> simp only [withGhost, hf]
    · exact h.haveAddr
    · exact h.op
  | dnload x =>
    by_cases ht : s.1.dfu.TakesDnload
    · have hne : s.1.dfu ≠ .dnbusy := by
        rintro hs
        rw [hs] at ht
        exact absurd ht (by decide)
      refine ⟨?_, hbusy, ?_⟩ <;> simp only [withGhost, step, if_pos ht, stranded]
      · exact h.haveAddr
      · exact fun _ => h.op hne
    · refine ⟨?_, hbusy, ?_⟩ <;> simp only [withGhost, step, if_neg ht, stranded]
      · exact h.haveAddr
      · exact h.op
  | clrStatus =>
    refine ⟨h.haveAddr, hbusy, fun _ => ?_⟩
    simp only [withGhost, step, stranded]
    by_cases hst : s.1.dfu = .dnbusy
    · -- the operation that runs is stranded now
      have hop : s.1.fw.dfuse.op ≠ .idle := by
        cases h.busy hst with
        | setAddress _ ho | erase _ _ ho | data _ _ ho => simp [ho]
      simp [hst, hop]
    · simpa [hst] using h.op hst

/-! ### Exactly when blocks are handled -/

lemma blockHandled_iff {s : Device × Bool} (h : StrandedOp s) (e : Event) :
    BlockHandled s.1 e ↔ NotOverStranded s e := by
  cases e with
  | getStatus resp next =>
    refine forall_congr' fun hst => forall_congr' fun hd => ?_
    have hop := h.op (by rw [hst]; decide)
    rw [← hop]
    unfold Device.Handles
    rcases (s.1.answered resp).sync_data hd hst with
      ⟨⟨-, ho⟩, ⟨-, he⟩ | ⟨hi, he⟩⟩ | ⟨hn, he⟩ <;> rw [he]
    · exact iff_of_true ⟨rfl, .inr rfl⟩ ho
    · exact iff_of_true ⟨rfl, .inl ⟨rfl, flashWriteAsync_idle hi _ _ _⟩⟩ ho
    · exact iff_of_false (fun hc => Bool.false_ne_true hc.1) fun ho => hn ⟨h.haveAddr, ho⟩
  | _ => exact Iff.rfl

/-- **Data blocks over whole runs.** After a mount, every data block of a run is handled exactly when
none of them comes over a stranded operation. -/
theorem blocks_handled_iff (d : Device) (es : List Event) :
    Along step BlockHandled (step d .mount).1 es ↔
      Along (withGhost step stranded) NotOverStranded ((step d .mount).1, false) es := by
  have h0 : StrandedOp ((step d .mount).1, false) :=
    ⟨rfl, (fun hb => by cases hb), fun _ => ⟨fun _ => rfl, fun _ => rfl⟩⟩
  rw [← along_iff_of_inv (I := StrandedOp) (P := fun s e => BlockHandled s.1 e)
    (fun _ e h _ => strandedOp_step h e) (fun _ e h => blockHandled_iff h e) h0, along_withGhost]

/-- A CLRSTATUS before the second GETSTATUS of a SetAddress: the data block after it is ignored. -/
theorem clrStatus_loses_block :
    ¬ ∀ d es, Along step BlockHandled (step d .mount).1 es := by
  intro h
  have hrun := h powerOn [.dnload ⟨0, [0x21, 0x00, 0x00, 0x10, 0x08], [], by decide⟩, askStatus,
    .clrStatus, .dnload ⟨2, [0xAA], [], by decide⟩, askStatus]
  exact absurd (hrun.2.2.2.2.1 (by decide) (by decide)).1 (by decide)

end Cs7000pBootloader.Dfu
