import Cs7000pBootloader.Dfu.Region
import Cs7000pBootloader.Flash.Align

/-!
Flash words over whole runs of the device.  Where a block starts in its flash word is decided by
the address pointer alone, because blocks are 1024 bytes apart; the pointer is taken from the host as
it is, and neither the callback nor the driver looks at its low bits.
-/

namespace Cs7000pBootloader.Dfu

open Flash Cs7000pBootloader.Lib

/-! ### The specification -/

/-- The GETSTATUS accepts a data block. -/
def Device.Accepts (d : Device) (resp : StatusResponse) : Prop :=
  d.dfu = .dnloadSync ∧ d.request.IsData ∧ (d.poll resp).ret = true ∧
    (d.poll resp).resp.bState = .dnbusy

instance (d : Device) (resp : StatusResponse) : Decidable (d.Accepts resp) := by
  unfold Device.Accepts; infer_instance

/-- What went over the bus since the last data block was accepted. -/
def sinceBlock (d : Device) : Event → List Bus → List Bus
  | .getStatus resp next, tr => if d.Accepts resp then [] else tr ++ (step d (.getStatus resp next)).2
  | e, tr => tr ++ (step d e).2

/-- A data block that would break the alignment is refused, and the driver is left alone. -/
def RefusesMisaligned (d : Device) : Event → Prop
  | .getStatus resp _ => d.dfu = .dnloadSync → d.request.IsData →
      ¬ KeepsAligned (blockAddr d.fw.dfuse.baseAddr d.request.block) d.request.length →
      (d.poll resp).ret = true ∧ (d.poll resp).resp.bState = .error ∧
        (d.poll resp).fw.flash = d.fw.flash
  | _ => True

/-- **What is asked of an event**: its stores are aligned with those of the block before them, and a
block that would break the alignment is refused. -/
structure AlignedStep (s : Device × List Bus) (e : Event) : Prop where
  stores : Aligned s.2 (step s.1 e).2
  refused : RefusesMisaligned s.1 e

/-- A data block goes to a pointer that is a multiple of 32, or it is short enough for the flash word
it starts in, or it finds the driver busy. -/
def FitsPointer (d : Device) : Event → Prop
  | .getStatus _ _ => d.dfu = .dnloadSync → d.request.IsData →
      Fits d.fw.dfuse.baseAddr d.request.length ∨
        d.fw.dfuse.op = .idle ∧ flashIsBusy d.fw.flash = true
  | _ => True

/-! ### The pointer -/

lemma blockAddr_mod (base : Addr) (block : BitVec 16) :
    (blockAddr base block).toNat % 32 = base.toNat % 32 := by
  unfold blockAddr
  rw [BitVec.toNat_add, BitVec.toNat_mul, BitVec.toNat_ofNat]
  simp only [cfgTudDfuXferBufsize]
  omega

lemma fits_blockAddr {base : Addr} {block n : BitVec 16} :
    Fits (blockAddr base block) n ↔ Fits base n := by
  unfold Fits
  rw [blockAddr_mod]

/-! ### The invariant -/

/-- What was stored of the last block is laid out in flash words. -/
structure LaidOut (s : Device × List Bus) : Prop where
  haveAddr : s.1.fw.dfuse.haveAddr = true
  laid : ∃ (addr : Addr) (n : BitVec 16), Fits addr n ∧ Laid addr n.toNat s.1.fw.flash s.2

lemma step_addrs (d : Device) {e : Event} (h : ∀ r, e ≠ .process r) :
    wordAddrs (step d e).2 = [] ∧ byteAddrs (step d e).2 = [] := by
  cases e with
  | process r => exact absurd rfl (h r)
  | dnload x | abort | clrStatus => exact ⟨rfl, rfl⟩
  | mount =>
    simp only [step, tudMountCb, flashInit]
    split_ifs <;> exact ⟨rfl, rfl⟩
  | getStatus resp next =>
    have ha := d.answered resp
    simp only [step]
    generalize d.poll resp = out at *
    cases ha <;> exact ⟨rfl, rfl⟩
  | upload b n mem =>
    simp only [step]
    unfold tudDfuUploadCb
    split_ifs <;> simp [wordAddrs, byteAddrs, Bus.wordAddr, Bus.byteAddr, List.filterMap_map,
      Function.comp_def]

/-- An answer to anything but a data block keeps the driver or starts an erase. -/
lemma Answered.flash_still {req : GetStatusRequest} {resp : StatusResponse} {fw : Firmware}
    {out : GetStatusOut} (h : Answered req resp fw out)
    (hn : ¬ (req.state = .dnloadSync ∧ req.IsData)) :
    out.fw.flash = fw.flash ∨ out.fw.flash.ctx.state.isWrite = false := by
  cases h with
  | writeStarted hd _ hst => exact absurd ⟨hst, hd⟩ hn
  | eraseStarted => exact .inr rfl
  | _ => exact .inl rfl

lemma LaidOut.still {d d' : Device} {tr q : List Bus} (h : LaidOut (d, tr))
    (hv : d'.fw.dfuse.haveAddr = true) (hq : wordAddrs q = [] ∧ byteAddrs q = [])
    (hf : d'.fw.flash = d.fw.flash ∨ d'.fw.flash.ctx.state.isWrite = false) :
    LaidOut (d', tr ++ q) := by
  obtain ⟨-, addr, n, hfit, hl⟩ := h
  exact ⟨hv, addr, n, hfit, hl.still hq hf⟩

lemma laidOut_getStatus {d : Device} {tr : List Bus} (h : LaidOut (d, tr)) (resp : StatusResponse)
    (next : DfuState) (hG : FitsPointer d (.getStatus resp next)) :
    LaidOut (withGhost step sinceBlock (d, tr) (.getStatus resp next)).1 := by
  have ha := d.answered resp
  have hv : (d.poll resp).fw.dfuse.haveAddr = true := ha.haveAddr h.haveAddr
  have hbus := step_addrs d (e := .getStatus resp next) (by simp)
  have hkeep : ¬ d.Accepts resp → ((d.poll resp).fw.flash = d.fw.flash ∨
      (d.poll resp).fw.flash.ctx.state.isWrite = false) →
      LaidOut (withGhost step sinceBlock (d, tr) (.getStatus resp next)).1 := by
    intro hn hflash
    have hghost : sinceBlock d (.getStatus resp next) tr = tr ++ (step d (.getStatus resp next)).2 :=
      if_neg hn
    unfold withGhost
    rw [hghost]
    exact h.still hv hbus hflash
  by_cases hb : d.dfu = .dnloadSync ∧ d.request.IsData
  · rcases ha.sync_data hb.2 hb.1 with ⟨⟨-, ho⟩, ⟨hi, he⟩ | ⟨hi, he⟩⟩ | ⟨-, he⟩
    · refine hkeep (fun hc => ?_) (.inl (by rw [he]))
      have hst := hc.2.2.2
      rw [he] at hst
      cases hst
    · -- the block is accepted: what is laid out is this one from here on
      have hacc : d.Accepts resp := ⟨hb.1, hb.2, by rw [he], by rw [he]; rfl⟩
      have hghost : sinceBlock d (.getStatus resp next) tr = [] := if_pos hacc
      have hfit := (hG hb.1 hb.2).resolve_right fun hc => flashIsBusy_eq_true.mp hc.2 hi
      have hflash : (d.poll resp).fw.flash = (flashWriteAsync (blockAddr d.fw.dfuse.baseAddr
          d.request.block) d.request.buffer d.request.length d.fw.flash).2.1 := by
        rw [he, flashWriteAsync_idle hi]
      unfold withGhost
      rw [hghost]
      refine ⟨hv, blockAddr d.fw.dfuse.baseAddr d.request.block, d.request.length,
        fits_blockAddr.mpr hfit, ?_⟩
      show Laid _ _ (d.poll resp).fw.flash []
      rw [hflash]
      exact laid_accepted hi d.request.buffer
    · refine hkeep (fun hc => ?_) (.inl (by rw [he]))
      have hret := hc.2.2.1
      rw [he] at hret
      cases hret
  · exact hkeep (fun hc => hb ⟨hc.1, hc.2.1⟩) (ha.flash_still hb)

theorem laidOut_step {s : Device × List Bus} {e : Event} (h : LaidOut s) (hG : FitsPointer s.1 e) :
    LaidOut (withGhost step sinceBlock s e).1 := by
  obtain ⟨d, tr⟩ := s
  cases e with
  | getStatus resp next => exact laidOut_getStatus h resp next hG
  | process r =>
    obtain ⟨hv, addr, n, hf, hl⟩ := h
    exact ⟨hv, addr, n, hf, hl.move (flashProcess_move r d.fw.flash)⟩
  | mount =>
    refine h.still rfl (step_addrs d (by simp)) (.inr ?_)
    rw [show (step d .mount).1.fw.flash.ctx.state = .idle from flashInit_state d.fw.flash]
    rfl
  | abort | clrStatus => exact h.still h.haveAddr (step_addrs d (by simp)) (.inl rfl)
  | dnload x =>
    refine h.still ?_ (step_addrs d (by simp)) (.inl ?_)
    · simp only [step]
      split_ifs <;> exact h.haveAddr
    · simp only [step]
      split_ifs <;> rfl
  | upload b n mem =>
    obtain ⟨f, hf⟩ := step_upload d b n mem
    refine h.still ?_ (step_addrs d (by simp)) (.inl ?_) <;> rw [hf]
    exact h.haveAddr

/-! ### Exactly which runs are aligned -/

lemma refusesMisaligned_iff {d : Device} (hv : d.fw.dfuse.haveAddr = true) (e : Event) :
    RefusesMisaligned d e ↔ FitsPointer d e := by
  cases e with
  | getStatus resp next =>
    refine forall_congr' fun hst => forall_congr' fun hd => ?_
    rw [keepsAligned_iff, fits_blockAddr]
    by_cases hf : Fits d.fw.dfuse.baseAddr d.request.length
    · exact iff_of_true (fun hn => absurd hf hn) (.inl hf)
    rcases (d.answered resp).sync_data hd hst with
      ⟨⟨-, ho⟩, ⟨hb, he⟩ | ⟨hi, he⟩⟩ | ⟨hn, he⟩ <;> rw [he]
    · exact iff_of_true (fun _ => ⟨rfl, rfl, rfl⟩) (.inr ⟨ho, flashIsBusy_eq_true.mpr hb⟩)
    · refine iff_of_false (fun hr => ?_) ?_
      · exact absurd (hr hf).2.1 (by simp)
      · rintro (hc | ⟨-, hb⟩)
        · exact hf hc
        · exact flashIsBusy_eq_true.mp hb hi
    · refine iff_of_false (fun hr => ?_) ?_
      · exact Bool.false_ne_true (hr hf).1
      · rintro (hc | ⟨ho, -⟩)
        · exact hf hc
        · exact hn ⟨hv, ho⟩
  | _ => exact Iff.rfl

lemma alignedStep_iff {s : Device × List Bus} (h : LaidOut s) (e : Event) :
    AlignedStep s e ↔ FitsPointer s.1 e := by
  obtain ⟨hv, addr, n, hf, hl⟩ := h
  rw [← refusesMisaligned_iff hv]
  refine ⟨fun hs => hs.refused, fun hr => ⟨?_, hr⟩⟩
  cases e with
  | process r => exact hl.aligned hf (flashProcess_move r s.1.fw.flash)
  | _ => exact hl.aligned_still hf (step_addrs s.1 (by simp))

lemma laidOut_mount (d : Device) : LaidOut ((step d .mount).1, []) := by
  refine ⟨rfl, 0, 0, .inl rfl, ?_, ?_, fun hc => ?_⟩
  · exact fun a hm => absurd hm List.not_mem_nil
  · exact fun a hm => absurd hm List.not_mem_nil
  · rw [show (step d .mount).1.fw.flash.ctx.state = .idle from flashInit_state d.fw.flash] at hc
    cases hc

/-- **Alignment over whole runs.** After a mount, the stores of a run are aligned and its misaligned
blocks refused exactly when every data block goes to a pointer that is a multiple of 32, stays in the
flash word it starts in, or finds the driver busy. -/
theorem aligned_run_iff (d : Device) (es : List Event) :
    Along (withGhost step sinceBlock) AlignedStep ((step d .mount).1, []) es ↔
      Along step FitsPointer (step d .mount).1 es := by
  rw [along_iff_of_inv (I := LaidOut) (G := fun s e => FitsPointer s.1 e)
    (fun _ _ => laidOut_step) (fun _ e h => alignedStep_iff h e) (laidOut_mount d), along_withGhost]

/-- A block of 64 bytes to a pointer of `0x08100004`: it is accepted, and its first burst lies across
two flash words. -/
theorem block_straddles_words :
    ¬ ∀ d es, Along (withGhost step sinceBlock) AlignedStep ((step d .mount).1, []) es := by
  intro h
  have hrun := h powerOn [.dnload ⟨0, [0x21, 0x04, 0x00, 0x10, 0x08], [], by decide⟩, askStatus,
    askStatus, .dnload ⟨2, List.replicate 64 0xAA, [], by decide⟩, askStatus, readyPoll]
  exact absurd hrun.2.2.2.2.2.1.stores.first (by decide)

end Cs7000pBootloader.Dfu
