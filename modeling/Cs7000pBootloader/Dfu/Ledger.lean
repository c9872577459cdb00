import Cs7000pBootloader.Dfu.Host
import Cs7000pBootloader.Flash.Array

/-!
The flash array under any host.  Whatever the order of the requests and of the polls, the array is
given the work of the commands that were accepted, each from its first byte to its last before the
next one begins; only a mount drops work, and it drops what is not stored yet.  A ghost ledger
follows the run: it is written at the GETSTATUS that tells the host that its command has begun, from
the command alone.
-/

namespace Cs7000pBootloader.Dfu

open Flash Cs7000pBootloader.Lib

/-! ### The specification -/

/-- What the command held asks of the array. -/
def Device.work (d : Device) : List Effect :=
  if d.request.IsData then
    (placed (blockAddr d.fw.dfuse.baseAddr d.cmd.block) d.cmd.payload).map .store
  else if d.request.IsErase then [.erase ((addrToSector d.request.addr).setWidth 3)]
  else []

/-- The GETSTATUS tells the host that its command has begun. -/
def Device.Begins (d : Device) (resp : StatusResponse) : Prop :=
  d.dfu = .dnloadSync ∧ (d.poll resp).ret = true ∧ (d.poll resp).resp.bState = .dnbusy

instance (d : Device) (resp : StatusResponse) : Decidable (d.Begins resp) := by
  unfold Device.Begins; infer_instance

/-- **The ledger**: the work of every command that has begun, less what a mount drops. -/
def ledger (d : Device) : Event → List Effect → List Effect
  | .getStatus resp _, l => if d.Begins resp then l ++ d.work else l
  | .mount, l => l.take (l.length - (owed d.fw.flash).length)
  | _, l => l

/-- **What is asked of a run** from `d` over the array `m`, with what is owed at its start as the
first entry of the ledger. -/
structure FollowsLedger (d : Device) (m : Addr → Byte) (es : List Event) (l : List Effect) :
    Prop where
  /-- the array was told the ledger, up to what is owed -/
  told : effects (run step d es).2 ++ owed (run step d es).1.fw.flash = l
  /-- a driver that is idle has put all of it into the array -/
  stored : flashIsBusy (run step d es).1.fw.flash = false →
    memoryAfter m (run step d es).2 = l.foldl Effect.apply m
  /-- and an upload then reads the array that the ledger leaves -/
  read : flashIsBusy (run step d es).1.fw.flash = false → (run step d es).1.fw.dfuse.haveAddr = true →
    ∀ b n : BitVec 16, 2 ≤ b →
      uploaded (run step d es).1 (.upload b n (memoryAfter m (run step d es).2)) =
        (List.range n.toNat).map fun i => (l.foldl Effect.apply m)
          (blockAddr (run step d es).1.fw.dfuse.baseAddr b + BitVec.ofNat 32 i)

/-! ### One step -/

section Step

variable {d : Device} {resp : StatusResponse} {out : GetStatusOut}

lemma told_untouched (hbus : effects out.bus = []) (hflash : out.fw.flash = d.fw.flash)
    {tr : List Bus} {l : List Effect} (h : effects tr ++ owed d.fw.flash = l) :
    effects (tr ++ out.bus) ++ owed out.fw.flash = l := by
  rw [effects_append, hbus, hflash, List.append_nil, h]

lemma not_begins (h : (d.poll resp).resp.bState ≠ .dnbusy ∨ d.dfu ≠ .dnloadSync) :
    ¬ d.Begins resp := by
  rintro ⟨hst, -, hb⟩
  exact h.elim (fun hn => hn hb) (fun hn => hn hst)

/-- **The GETSTATUS of a command.** It owes the work of a command that begins, on top of what is
owed already, which is nothing then. -/
lemma Answered.told (h : Answered d.request resp d.fw out) (he : d.poll resp = out) {tr : List Bus}
    {l : List Effect} (hl : effects tr ++ owed d.fw.flash = l) :
    effects (tr ++ out.bus) ++ owed out.fw.flash = if d.Begins resp then l ++ d.work else l := by
  have hbus := h.bus_still.1
  cases h with
  | setAddress hc =>
    have hw : d.work = [] := by
      unfold Device.work
      rw [if_neg hc.others.2.2, if_neg hc.others.2.1]
    rw [told_untouched hbus rfl hl, hw, List.append_nil, ite_self]
  | eraseStarted hc hst _ hi =>
    have hb : d.Begins resp := ⟨hst, by rw [he], by rw [he]; rfl⟩
    rw [owed_of_idle hi, List.append_nil] at hl
    rw [if_pos hb, List.append_nil, hl]
    unfold Device.work
    rw [if_neg hc.others.2.2, if_pos hc]
    rfl
  | writeStarted hc _ hst _ hi =>
    have hb : d.Begins resp := ⟨hst, by rw [he], by rw [he]; rfl⟩
    rw [owed_of_idle hi, List.append_nil] at hl
    rw [if_pos hb, effects_append, hbus, List.append_nil, hl]
    unfold Device.work
    rw [if_pos hc, ← Device.take_buffer]
    exact congrArg (l ++ ·) (owed_writePending Device.length_le_buffer)
  | eraseRuns _ hst | writeRuns _ _ hst =>
    have hst' : d.dfu = .dnbusy := hst
    rw [if_neg (not_begins (.inr (by simp [hst'])))]
    exact told_untouched hbus rfl hl
  | unhandled =>
    have hn : ¬ d.Begins resp := fun hb => by
      have hret := hb.2.1
      rw [he] at hret
      cases hret
    rw [if_neg hn]
    exact told_untouched hbus rfl hl
  | _ =>
    rw [if_neg (not_begins (.inl (by simp [he])))]
    exact told_untouched hbus rfl hl

/-- **One event keeps the ledger.** -/
lemma told_step {l : List Effect} {tr : List Bus} (hl : effects tr ++ owed d.fw.flash = l)
    (e : Event) :
    effects (tr ++ (step d e).2) ++ owed (step d e).1.fw.flash = ledger d e l := by
  cases e with
  | getStatus resp next => exact (d.answered resp).told rfl hl
  | process r =>
    simp only [step, ledger]
    rw [effects_append, List.append_assoc, flashProcess_owed, hl]
  | mount =>
    rw [owed_mount, effects_append, effects_mount, List.append_nil, List.append_nil, ledger, ← hl]
    simp
  | upload b n mem =>
    obtain ⟨f, hf⟩ := step_upload d b n mem
    have hq : effects (step d (.upload b n mem)).2 = [] := effects_upload 0 b n mem d.fw.dfuse
    rw [hf, effects_append, hq, List.append_nil]
    exact hl
  | dnload x =>
    simp only [step, ledger]
    split_ifs <;> simpa using hl
  | abort | clrStatus => simpa [step, ledger, tudDfuAbortCb] using hl

end Step

/-! ### Whole runs -/

/-- **Commands are carried out whole and in order**, whatever the host and the controller do: over
every run the array was told exactly the ledger, up to what the driver still owes; whenever the
driver is idle the byte memory of these stores and erases is what the ledger makes of it, and that is
what an upload reads. -/
theorem run_follows_ledger (d : Device) (m : Addr → Byte) (es : List Event) :
    FollowsLedger d m es (run (withGhost step ledger) (d, owed d.fw.flash) es).1.2 := by
  have htold : effects (run step d es).2 ++ owed (run step d es).1.fw.flash =
      (run (withGhost step ledger) (d, owed d.fw.flash) es).1.2 := by
    have h0 : effects [] ++ owed d.fw.flash = owed d.fw.flash := rfl
    have hall : Along (withGhost step ledger) (fun _ _ => True) (d, owed d.fw.flash) es :=
      along_of_forall (fun _ _ => trivial) _ _
    have hrun := run_trace (J := fun s tr => effects tr ++ owed s.1.fw.flash = s.2)
      (fun _ e _ h _ => told_step h e) h0 hall
    obtain ⟨hstate, htrace⟩ :=
      run_withGhost step ledger (d, owed d.fw.flash) es
    rwa [List.nil_append, hstate, htrace] at hrun
  have hstored : flashIsBusy (run step d es).1.fw.flash = false →
      memoryAfter m (run step d es).2 =
        (run (withGhost step ledger) (d, owed d.fw.flash) es).1.2.foldl Effect.apply m := by
    intro hi
    rw [owed_of_idle (flashIsBusy_eq_false.mp hi), List.append_nil] at htold
    rw [← htold]
    rfl
  refine ⟨htold, hstored, fun hi hv b n h2 => ?_⟩
  rw [uploaded, tudDfuUploadCb_block h2 hv, hstored hi]

end Cs7000pBootloader.Dfu
