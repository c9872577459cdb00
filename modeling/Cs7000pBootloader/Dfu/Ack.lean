import Cs7000pBootloader.Dfu.Busy
import Cs7000pBootloader.Flash.Erase

/-!
The soundness of the acknowledgement: when a poll in `DFU_DNBUSY` answers `OK` and
`DFU_DNLOAD_IDLE`, the command it answers was carried out since that command's own first GETSTATUS,
and nothing else was done to the flash.  A ghost history follows the run: what went over the bus
since the first GETSTATUS of the command the stack holds.
-/

namespace Cs7000pBootloader.Dfu

open Flash Cs7000pBootloader.Lib

/-! ### The specification -/

/-- What went over the bus since the first GETSTATUS of the command held, if there was one. -/
def history (d : Device) (e : Event) (h : Option (List Bus)) : Option (List Bus) :=
  match e with
  | .dnload _ => if d.dfu.TakesDnload then none else h
  | .getStatus _ _ => some (h.getD [] ++ (step d e).2)
  | _ => h.map (· ++ (step d e).2)

/-- **The command held was carried out** by what went over the bus in `tr`. -/
structure CarriedOut (d : Device) (tr : List Bus) : Prop where
  /-- a data block: the flash got the payload, byte for byte and in order, and nothing else -/
  data : d.request.IsData → flashIsBusy d.fw.flash = false ∧
    effects tr = (placed (blockAddr d.fw.dfuse.baseAddr d.cmd.block) d.cmd.payload).map .store
  /-- an erase: its sector was erased once and to the end -/
  erase : d.request.IsErase → flashIsBusy d.fw.flash = false ∧
    Erased ((addrToSector d.request.addr).setWidth 3) tr
  /-- a SetAddress: the address pointer is set -/
  setAddress : d.request.IsSetAddress →
    d.fw.dfuse.haveAddr = true ∧ d.fw.dfuse.baseAddr = d.request.addr

/-- What is asked of an event, with the history before it: an acknowledgement in `DFU_DNBUSY` is
true. -/
def AckSound (s : Device × Option (List Bus)) : Event → Prop
  | .getStatus resp _ => s.1.dfu = .dnbusy → (s.1.poll resp).ret = true →
      (s.1.poll resp).resp.bStatus = .ok → (s.1.poll resp).resp.bState = .dnloadIdle →
      ∃ tr, s.2 = some tr ∧ CarriedOut s.1 tr
  | _ => True

/-- The event does not change the command held. -/
def KeepsCommand (d : Device) (e : Event) : Prop := ∀ x, e = .dnload x → ¬ d.dfu.TakesDnload

lemma history_some {d : Device} {e : Event} (h : KeepsCommand d e) (tr : List Bus) :
    history d e (some tr) = some (tr ++ (step d e).2) := by
  cases e with
  | dnload x =>
    simp only [history, step, if_neg (h x rfl), List.append_nil]
  | _ => rfl

/-- The history is what went over the bus since the first GETSTATUS, as long as the command is
held. -/
theorem history_since (d : Device) (resp : StatusResponse) (next : DfuState) {es : List Event}
    (h : Along step KeepsCommand (step d (.getStatus resp next)).1 es) :
    (run (withGhost step history) (d, none) (.getStatus resp next :: es)).1.2 =
      some (run step d (.getStatus resp next :: es)).2 := by
  have hrun : ∀ (d : Device) (tr : List Bus), Along step KeepsCommand d es →
      (run (withGhost step history) (d, some tr) es).1.2 = some (tr ++ (run step d es).2) := by
    clear h
    induction es with
    | nil => intro d tr _; simp
    | cons e es ih =>
      intro d tr hk
      rw [run_cons, run_cons, ← List.append_assoc]
      simp only [withGhost, history_some hk.1]
      exact ih _ _ hk.2
  exact hrun _ _ h

/-! ### The invariant -/

/-- The command held is under way, and `tr` is what was done for it. -/
inductive UnderWay (d : Device) (tr : List Bus) : Prop
  | setAddress : d.request.IsSetAddress → d.fw.dfuse.haveAddr = true →
      d.fw.dfuse.baseAddr = d.request.addr → UnderWay d tr
  | erase : d.request.IsErase →
      EraseProgress ((addrToSector d.request.addr).setWidth 3) d.fw.flash tr → UnderWay d tr
  | data : d.request.IsData → effects tr ++ owed d.fw.flash =
      (placed (blockAddr d.fw.dfuse.baseAddr d.cmd.block) d.cmd.payload).map .store → UnderWay d tr

/-- The callback does not answer the command held in `DFU_DNLOAD_SYNC`. -/
structure Ignored (d : Device) : Prop where
  getCommands : ¬ d.request.IsGetCommands
  setAddress : ¬ d.request.IsSetAddress
  erase : ¬ d.request.IsErase
  data : d.request.IsData → ¬ (d.fw.dfuse.haveAddr = true ∧ d.fw.dfuse.op = .idle)

/-- **The invariant**: in `DFU_DNBUSY` the command held is under way, and a command that was polled
in `DFU_DNLOAD_SYNC` is not answered there. -/
structure Followed (s : Device × Option (List Bus)) : Prop where
  busy : BusyOp s.1
  underWay : s.1.dfu = .dnbusy → ∃ tr, s.2 = some tr ∧ UnderWay s.1 tr
  ignored : s.1.dfu = .dnloadSync → s.2 = none ∨ Ignored s.1

section Invariant

variable {d d' : Device} {tr q : List Bus}

lemma UnderWay.congr (h : UnderWay d tr) (hcmd : d'.cmd = d.cmd) (hflash : d'.fw.flash = d.fw.flash)
    (hv : d'.fw.dfuse.haveAddr = d.fw.dfuse.haveAddr)
    (hb : d'.fw.dfuse.baseAddr = d.fw.dfuse.baseAddr) : UnderWay d' tr := by
  obtain ⟨fw, dfu, cmd⟩ := d
  obtain ⟨fw', dfu', cmd'⟩ := d'
  obtain rfl : cmd' = cmd := hcmd
  cases h with
  | setAddress hc ha hp => exact .setAddress hc (hv.trans ha) (hb.trans hp)
  | erase hc hp => exact .erase hc (hflash ▸ hp)
  | data hc he => exact .data hc (by rw [hflash, hb]; exact he)

lemma Ignored.congr (h : Ignored d) (hcmd : d'.cmd = d.cmd)
    (ho : d'.fw.dfuse.op = d.fw.dfuse.op) (hv : d'.fw.dfuse.haveAddr = d.fw.dfuse.haveAddr) :
    Ignored d' := by
  obtain ⟨fw, dfu, cmd⟩ := d
  obtain ⟨fw', dfu', cmd'⟩ := d'
  obtain rfl : cmd' = cmd := hcmd
  exact ⟨h.getCommands, h.setAddress, h.erase, fun hc hop =>
    h.data hc ⟨hv.symm.trans hop.1, ho.symm.trans hop.2⟩⟩

lemma UnderWay.still (h : UnderWay d tr) (hq : effects q = []) : UnderWay d (tr ++ q) := by
  cases h with
  | setAddress hc ha hb => exact .setAddress hc ha hb
  | erase hc hp => exact .erase hc (hp.still hq)
  | data hc he => exact .data hc (by rw [effects_append, hq, List.append_nil, he])

lemma UnderWay.process (h : UnderWay d tr) (r : ℕ → Sr2) :
    UnderWay (step d (.process r)).1 (tr ++ (step d (.process r)).2) := by
  cases h with
  | setAddress hc ha hb => exact .setAddress hc ha hb
  | erase hc hp => exact .erase hc (hp.move (flashProcess_move r d.fw.flash))
  | data hc he =>
    refine .data hc ?_
    have hp := flashProcess_owed r d.fw.flash
    simp only [step]
    rw [effects_append, List.append_assoc, hp, he]

lemma UnderWay.carriedOut (h : UnderWay d tr)
    (ho : d.request.IsSetAddress ∨ d.fw.flash.ctx.state = .idle) : CarriedOut d tr := by
  cases h with
  | setAddress hc ha hb =>
    exact ⟨fun hd => absurd hd hc.others.2.2, fun he => absurd he hc.others.2.1, fun _ => ⟨ha, hb⟩⟩
  | erase hc hp =>
    have hi := ho.resolve_left hc.others.2.1
    exact ⟨fun hd => absurd hd hc.others.2.2,
      fun _ => ⟨flashIsBusy_eq_false.mpr hi, hp.erased hi⟩, fun hs => absurd hs hc.others.2.1⟩
  | data hc he =>
    have hi := ho.resolve_left hc.others.2.1
    refine ⟨fun _ => ⟨flashIsBusy_eq_false.mpr hi, ?_⟩, fun hs => absurd hs hc.others.2.2,
      fun hs => absurd hs hc.others.2.1⟩
    rw [← he, owed_of_idle hi, List.append_nil]

/-- **The first GETSTATUS** of a command that it puts under way. -/
lemma Answered.underWay {resp : StatusResponse} {out : GetStatusOut}
    (h : Answered d.request resp d.fw out) (hst : d.dfu = .dnloadSync) (hr : out.ret = true)
    (hb : out.resp.bState = .dnbusy) (dfu : DfuState) :
    UnderWay { d with fw := out.fw, dfu } out.bus := by
  have hbusy := Device.request_not_dnbusy hst
  cases h with
  | setAddress hc => exact .setAddress hc rfl rfl
  | eraseStarted hc => exact .erase hc (.pending rfl rfl rfl)
  | writeStarted hc =>
    refine .data hc ?_
    rw [← Device.take_buffer]
    exact owed_writePending Device.length_le_buffer
  | eraseRuns _ hs | writeRuns _ _ hs => exact absurd hs hbusy
  | unhandled => cases hr
  | _ => simp at hb

/-- A command that the callback did not answer in `DFU_DNLOAD_SYNC` is not answered there later. -/
lemma Ignored.unanswered (h : Ignored d) (hst : d.dfu = .dnloadSync) (resp : StatusResponse) :
    d.poll resp = ⟨false, resp, noCallbacks, d.fw, []⟩ := by
  have ha := d.answered resp
  have hbusy := Device.request_not_dnbusy hst
  generalize d.poll resp = out at *
  cases ha with
  | unhandled => rfl
  | getCommands hc => exact absurd hc h.getCommands
  | setAddress hc | setAddressDone hc => exact absurd hc h.setAddress
  | massErase hc | eraseRefused hc | eraseStarted hc | eraseDone hc | eraseRuns hc =>
    exact absurd hc h.erase
  | writeRefused hc ha _ ho | writeStarted hc ha _ ho => exact absurd ⟨ha, ho⟩ (h.data hc)
  | writeDone _ _ hs | writeRuns _ _ hs => exact absurd hs hbusy

lemma Answered.ignored {resp : StatusResponse} {out : GetStatusOut}
    (h : Answered d.request resp d.fw out) (hst : d.dfu = .dnloadSync) (hr : out.ret = false) :
    Ignored d ∧ out.fw = d.fw := by
  cases h with
  | unhandled hg hs he hd =>
    exact ⟨⟨hg, fun hc => hs ⟨hc, .inl hst⟩, fun hc => he ⟨hc, .inl hst⟩,
      fun hc hop => hd ⟨hc, hop.1, .inl ⟨hst, hop.2⟩⟩⟩, rfl⟩
  | _ => cases hr

end Invariant

/-! ### Steps -/

lemma followed_getStatus {s : Device × Option (List Bus)} (h : Followed s) (resp : StatusResponse)
    (next : DfuState) : Followed (withGhost step history s (.getStatus resp next)).1 := by
  obtain ⟨d, hist⟩ := s
  have ha := d.answered resp
  refine ⟨busyOp_step h.busy _, ?_, ?_⟩
  · intro hb
    simp only [withGhost, step, history] at hb ⊢
    by_cases hst : d.dfu = .dnbusy
    · -- the answer that stays in DFU_DNBUSY changes nothing
      obtain ⟨tr, rfl, hw⟩ := h.underWay hst
      rcases ha.busy hst (h.busy hst) with ⟨-, he⟩ | ⟨-, ms, he⟩
      · rw [he] at hb
        cases hb
      · rw [he]
        refine ⟨tr ++ [], rfl, ?_⟩
        rw [List.append_nil]
        exact hw.congr rfl rfl rfl rfl
    · -- DFU_DNBUSY is entered: this is the first GETSTATUS of the command
      by_cases hr : (d.poll resp).ret = true
      · rw [if_pos hr] at hb
        have hsync : d.dfu = .dnloadSync := ha.enters hr hb hst
        rcases h.ignored hsync with hn | hi
        · rw [show hist = none from hn]
          exact ⟨_, rfl, ha.underWay hsync hr hb _⟩
        · rw [hi.unanswered hsync resp] at hr
          cases hr
      · rw [if_neg hr] at hb
        exact absurd (DfuState.default_eq_dnbusy hb) hst
  · intro hs
    simp only [withGhost, step, history] at hs ⊢
    by_cases hr : (d.poll resp).ret = true
    · rw [if_pos hr] at hs
      exact absurd hs (ha.not_dnloadSync hr)
    · rw [if_neg hr] at hs
      have hst : d.dfu = .dnloadSync := DfuState.default_eq_dnloadSync hs
      obtain ⟨hi, hfw⟩ := ha.ignored hst (by simpa using hr)
      rw [hfw]
      exact .inr (hi.congr rfl rfl rfl)

theorem followed_step {s : Device × Option (List Bus)} (h : Followed s) (e : Event) :
    Followed (withGhost step history s e).1 := by
  have hbusy : BusyOp (withGhost step history s e).1.1 := busyOp_step h.busy e
  cases e with
  | mount | abort | clrStatus =>
    refine ⟨hbusy, ?_, ?_⟩ <;> intro hs <;> cases hs
  | getStatus resp next => exact followed_getStatus h resp next
  | dnload x =>
    refine ⟨hbusy, ?_, ?_⟩ <;> simp only [withGhost, step, history] <;> split_ifs with ht
    · intro hb
      cases hb
    · exact h.underWay
    · exact fun _ => .inl rfl
    · exact h.ignored
  | process r =>
    refine ⟨hbusy, fun hb => ?_, fun hs => ?_⟩
    · obtain ⟨tr, htr, hw⟩ := h.underWay hb
      exact ⟨_, by simp only [withGhost, history, htr, Option.map_some], hw.process r⟩
    · rcases h.ignored hs with hn | hi
      · exact .inl (by simp only [withGhost, history, hn, Option.map_none])
      · exact .inr (hi.congr rfl rfl rfl)
  | upload b n mem =>
    obtain ⟨f, hf⟩ := step_upload s.1 b n mem
    have hq : effects (step s.1 (.upload b n mem)).2 = [] :=
      effects_upload 0 b n mem s.1.fw.dfuse
    refine ⟨hbusy, fun hb => ?_, fun hs => ?_⟩
    · simp only [withGhost, hf, history] at hb ⊢
      obtain ⟨tr, htr, hw⟩ := h.underWay hb
      refine ⟨tr ++ (step s.1 (.upload b n mem)).2, by rw [htr, Option.map_some], ?_⟩
      exact (hw.still hq).congr rfl rfl rfl rfl
    · simp only [withGhost, hf, history] at hs ⊢
      rcases h.ignored hs with hn | hi
      · exact .inl (by rw [hn, Option.map_none])
      · exact .inr (hi.congr rfl rfl rfl)

lemma ackSound_of_followed {s : Device × Option (List Bus)} (h : Followed s) (e : Event) :
    AckSound s e := by
  cases e with
  | getStatus resp next =>
    intro hst _ _ hack
    obtain ⟨tr, htr, hw⟩ := h.underWay hst
    refine ⟨tr, htr, ?_⟩
    rcases (s.1.answered resp).busy hst (h.busy hst) with ⟨ho, -⟩ | ⟨-, ms, he⟩
    · exact hw.carriedOut ho
    · rw [he] at hack
      cases hack
  | _ => trivial

/-- **Acknowledgement soundness.** Along every run of the device, whenever a GETSTATUS in
`DFU_DNBUSY` answers `OK` and `DFU_DNLOAD_IDLE`, the command held was carried out since its own
first GETSTATUS. -/
theorem acknowledgement_sound (es : List Event) :
    Along (withGhost step history) AckSound (powerOn, none) es := by
  have h0 : Followed (powerOn, none) :=
    ⟨(fun h => by cases h), (fun h => by cases h), fun _ => .inl rfl⟩
  exact along_of_inv (G := fun _ _ => True) (I := Followed) (fun _ e h _ => followed_step h e)
    (fun _ e h _ => ackSound_of_followed h e) h0 (along_of_forall (fun _ _ => trivial) _ _)

/-- A data block of one byte: after two polls it is acknowledged, and its history is its store. -/
example :
    let s := (run (withGhost step history) (powerOn, none)
      [.mount, .dnload ⟨2, [0xAA], [], by decide⟩, askStatus, readyPoll, readyPoll]).1
    (s.1.poll ⟨.ok, (0, 0, 0), .dfuIdle⟩).resp.bState = .dnloadIdle ∧
      effects (s.2.getD []) = [.store (0x08100000, 0xAA)] := by decide

end Cs7000pBootloader.Dfu
