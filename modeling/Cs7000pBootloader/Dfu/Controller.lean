import Cs7000pBootloader.Dfu.Align
import Cs7000pBootloader.Flash.Control

/-!
What the flash controller asks of the device.  The array is modelled as bytes, which is what the
controller makes of it only when every access is made under its mode bits and every store is aligned
to the flash words of 256 bits.  From a mount that finds the mode bits clear, a host that sets the
pointer to multiples of 32 keeps to both.
-/

namespace Cs7000pBootloader.Dfu

open Flash Cs7000pBootloader.Lib

/-! ### The specification -/

/-- **What the controller asks of an event**, with what went over the bus since the last data block:
stores under `PG` alone and starts under `SER` alone; bursts of one whole flash word, and the last
bytes of a block in one flash word that none of its bursts touches. -/
structure Honours (s : Device × List Bus) (e : Event) : Prop where
  modes : Disciplined s.1.fw.flash.cr2 (step s.1 e).2
  words : Aligned s.2 (step s.1 e).2

/-- `PG` and `SER` are clear. -/
def Device.ModesClear (d : Device) : Prop :=
  d.fw.flash.cr2.pg = false ∧ d.fw.flash.cr2.ser = false

/-- A SetAddress that the stack holds goes to a multiple of 32. -/
def Device.PointsAligned (d : Device) : Prop :=
  d.request.IsSetAddress → d.request.addr.toNat % 32 = 0

/-- The event is no mount, and no SetAddress into the middle of a flash word. -/
def PointsToWords (d : Device) : Event → Prop
  | .mount => False
  | .dnload x => ({ d with cmd := x } : Device).PointsAligned
  | _ => True

/-! ### The mode bits -/

section Modes

variable {d : Device}

lemma disciplined_upload (alt : Byte) (b n : BitVec 16) (mem : Addr → Byte) (c : DfuseCtx) (v : Cr2) :
    Disciplined v (tudDfuUploadCb alt b n mem c).bus := by
  have hload : ∀ x ∈ (tudDfuUploadCb alt b n mem c).bus, ∃ a, x = .load a := by
    unfold tudDfuUploadCb
    split_ifs <;> simp
  refine (disciplined_of_mode fun x hx => ?_).1
  obtain ⟨a, rfl⟩ := hload x hx
  exact ⟨rfl, trivial⟩

/-- An answer starts no operation under the wrong bits: it leaves the driver, or finds it idle. -/
lemma Answered.modes {req : GetStatusRequest} {resp : StatusResponse} {fw : Firmware}
    {out : GetStatusOut} (h : Answered req resp fw out) (hm : Modes fw.flash) :
    Modes out.fw.flash ∧ Disciplined fw.flash.cr2 out.bus := by
  cases h with
  | eraseStarted _ _ _ hi => exact ⟨⟨by simp [hm.pg, hi], by simp [hm.ser, hi]⟩, trivial⟩
  | writeStarted _ _ _ _ hi =>
    exact ⟨⟨by simp [hm.pg, hi], by simp [hm.ser, hi]⟩, trivial, trivial⟩
  | _ => exact ⟨hm, trivial⟩

/-- **Between mounts** the mode bits say what runs, and every access is made under its own. -/
lemma modes_step (h : Modes d.fw.flash) {e : Event} (he : e ≠ .mount) :
    Modes (step d e).1.fw.flash ∧ Disciplined d.fw.flash.cr2 (step d e).2 := by
  cases e with
  | mount => exact absurd rfl he
  | getStatus resp next => exact (d.answered resp).modes h
  | process r => exact (flashProcess_move r d.fw.flash).modes h
  | upload b n mem => exact ⟨h, disciplined_upload 0 b n mem d.fw.dfuse _⟩
  | dnload x =>
    simp only [step]
    split_ifs <;> exact ⟨h, trivial⟩
  | abort | clrStatus => exact ⟨h, trivial⟩

lemma modes_mount (h : d.ModesClear) : Modes (step d .mount).1.fw.flash := by
  simp only [step, tudMountCb, flashInit]
  split_ifs <;> exact ⟨by simp [h.1], by simp [h.2]⟩

end Modes

/-! ### The pointer -/

/-- **The invariant**: what is stored is laid out in flash words, the mode bits say what runs, and the
pointer is a multiple of 32 and will be. -/
structure Steady (s : Device × List Bus) : Prop where
  laid : LaidOut s
  modes : Modes s.1.fw.flash
  pointer : s.1.fw.dfuse.baseAddr.toNat % 32 = 0
  cmd : s.1.dfu = .dnloadSync → s.1.PointsAligned

section Steady

variable {d : Device} {s : Device × List Bus} {e : Event}

lemma pointer_answered {req : GetStatusRequest} {resp : StatusResponse} {fw : Firmware}
    {out : GetStatusOut} (h : Answered req resp fw out) (hp : fw.dfuse.baseAddr.toNat % 32 = 0)
    (hreq : req.state = .dnloadSync → req.IsSetAddress → req.addr.toNat % 32 = 0) :
    out.fw.dfuse.baseAddr.toNat % 32 = 0 := by
  cases h with
  | setAddress hs hst => exact hreq hst hs
  | _ => exact hp

lemma dnloadSync_step (h : (step d e).1.dfu = .dnloadSync) :
    (∃ x, e = .dnload x ∧ d.dfu.TakesDnload) ∨ d.dfu = .dnloadSync := by
  cases e with
  | dnload x =>
    by_cases ht : d.dfu.TakesDnload
    · exact .inl ⟨x, rfl, ht⟩
    · simp only [step, if_neg ht] at h
      exact .inr h
  | getStatus resp next =>
    have ha := d.answered resp
    simp only [step] at h
    generalize d.poll resp = out at ha h
    cases ha with
    | unhandled => exact .inr (DfuState.default_eq_dnloadSync h)
    | _ => cases h
  | mount | abort | clrStatus => cases h
  | upload | process => exact .inr h

lemma pointsAligned_step (h : d.dfu = .dnloadSync → d.PointsAligned) (he : PointsToWords d e)
    (hsync : (step d e).1.dfu = .dnloadSync) : (step d e).1.PointsAligned := by
  rcases dnloadSync_step hsync with ⟨x, rfl, ht⟩ | hs
  · simp only [step, if_pos ht]
    exact he
  · have hcmd : (step d e).1.cmd = d.cmd := by
      refine step_cmd fun x _ ht => ?_
      rcases ht with ht | ht <;> cases hs.symm.trans ht
    have h := h hs
    unfold Device.PointsAligned Device.request at h ⊢
    rw [hcmd]
    exact h

lemma Steady.fits (h : Steady s) : FitsPointer s.1 e := by
  cases e with
  | getStatus resp next => exact fun _ _ => .inl (.inl h.pointer)
  | _ => trivial

lemma Steady.step (h : Steady s) (he : PointsToWords s.1 e) :
    Steady (withGhost step sinceBlock s e).1 := by
  have hmount : e ≠ .mount := by
    rintro rfl
    exact he
  refine ⟨laidOut_step h.laid h.fits, (modes_step h.modes hmount).1, ?_,
    pointsAligned_step h.cmd he⟩
  cases e with
  | mount => exact he.elim
  | getStatus resp next => exact pointer_answered (s.1.answered resp) h.pointer h.cmd
  | dnload x =>
    simp only [withGhost, Dfu.step]
    split_ifs <;> exact h.pointer
  | upload b n mem =>
    obtain ⟨f, hf⟩ := step_upload s.1 b n mem
    simp only [withGhost, hf]
    exact h.pointer
  | abort | clrStatus | process => exact h.pointer

lemma Steady.honours (h : Steady s) (he : PointsToWords s.1 e) : Honours s e := by
  have hmount : e ≠ .mount := by
    rintro rfl
    exact he
  exact ⟨(modes_step h.modes hmount).2, ((alignedStep_iff h.laid e).mpr h.fits).stores⟩

end Steady

/-- **A run in whole flash words** does what the controller asks, from a mount that finds `PG` and
`SER` clear to the next mount. -/
theorem honours_run {d : Device} (h : d.ModesClear) {es : List Event}
    (hes : Along step PointsToWords (step d .mount).1 es) :
    Along (withGhost step sinceBlock) Honours ((step d .mount).1, []) es := by
  refine along_of_inv (I := Steady) (G := fun s e => PointsToWords s.1 e) (fun _ _ h he => h.step he)
    (fun _ _ h he => h.honours he) ?_ (along_withGhost.mpr hes)
  exact ⟨laidOut_mount d, modes_mount h, (by decide : appBaseAddr.toNat % 32 = 0), nofun⟩

end Cs7000pBootloader.Dfu
