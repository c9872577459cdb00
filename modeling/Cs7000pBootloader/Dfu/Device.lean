import Cs7000pBootloader.Dfu.Agreement

/-!
The device as the host sees it: around the firmware, the DFU state and the download that the USB
stack holds.  The stack is not part of the source, so `step` is what is assumed of it: a DNLOAD is
taken in two states only and stays what GETSTATUS passes on until the next one, the answer of a
handled GETSTATUS is adopted, `DFU_DNBUSY` is entered in no other way, and an abort, a mount or a
CLRSTATUS leads to `DFU_IDLE`.  What the stack makes of an unhandled GETSTATUS is an input.

Seen from the firmware, a run of the device is a sequence of calls (`run_calls`).
-/

namespace Cs7000pBootloader.Dfu

open Flash Cs7000pBootloader.Lib

/-- A DNLOAD: its block number, its payload, and what an earlier one left behind in the buffer. -/
structure Dnload where
  block : BitVec 16
  payload : List Byte
  stale : List Byte
  /-- the stack takes no more than its buffer holds -/
  le : payload.length ≤ cfgTudDfuXferBufsize

def Dnload.length (x : Dnload) : BitVec 16 := BitVec.ofNat 16 x.payload.length

lemma Dnload.length_toNat (x : Dnload) : x.length.toNat = x.payload.length := by
  have h : x.payload.length ≤ 1024 := x.le
  unfold Dnload.length
  rw [BitVec.toNat_ofNat, Nat.mod_eq_of_lt (by omega)]

/-- The firmware with the state of the stack: the DFU state and the last DNLOAD it took. -/
structure Device where
  fw : Firmware
  dfu : DfuState
  cmd : Dnload

/-- The device at power-on: the buffer of the stack is zeroed. -/
def powerOn : Device := ⟨resetFw, .dfuIdle, ⟨0, [], [], Nat.zero_le _⟩⟩

/-- What happens to the device: the requests of the host, and a poll of the main loop. -/
inductive Event where
  | mount
  | dnload (x : Dnload)
  /-- the stack passes `resp` in; `next` is its own choice if the callback does not answer -/
  | getStatus (resp : StatusResponse) (next : DfuState)
  /-- a read of `length` bytes over the memory `mem` -/
  | upload (block length : BitVec 16) (mem : Addr → Byte)
  | abort
  /-- CLRSTATUS or SET_INTERFACE, which reach no callback -/
  | clrStatus
  | process (r : ℕ → Sr2)

/-- What GETSTATUS passes to the callback. -/
def Device.request (d : Device) : GetStatusRequest :=
  ⟨d.dfu, d.cmd.block, d.cmd.length, d.cmd.payload ++ d.cmd.stale⟩

/-- What the callback makes of a GETSTATUS. -/
def Device.poll (d : Device) (resp : StatusResponse) : GetStatusOut :=
  tudDfuGetStatusCb 0 d.request resp d.fw

/-- The DFU states in which the stack takes a DNLOAD. -/
def DfuState.TakesDnload (s : DfuState) : Prop := s = .dfuIdle ∨ s = .dnloadIdle

instance (s : DfuState) : Decidable s.TakesDnload := by
  unfold DfuState.TakesDnload; infer_instance

/-- The stack's own next state: it enters neither `DFU_DNBUSY` nor `DFU_DNLOAD_SYNC` by itself. -/
def DfuState.default (s next : DfuState) : DfuState :=
  if next = .dnbusy ∨ next = .dnloadSync then s else next

def step (d : Device) : Event → Device × List Bus
  | .mount => ({ d with fw := (tudMountCb d.fw).1, dfu := .dfuIdle }, (tudMountCb d.fw).2)
  | .dnload x => (if d.dfu.TakesDnload then { d with dfu := .dnloadSync, cmd := x } else d, [])
  | .getStatus resp next =>
    let out := d.poll resp
    ({ d with fw := out.fw, dfu := if out.ret then out.resp.bState else d.dfu.default next }, out.bus)
  | .upload b n mem =>
    let out := tudDfuUploadCb 0 b n mem d.fw.dfuse
    ({ d with fw := { d.fw with dfuse := out.dfuse } }, out.bus)
  | .abort => ({ d with fw := tudDfuAbortCb d.fw, dfu := .dfuIdle }, [])
  | .clrStatus => ({ d with dfu := .dfuIdle }, [])
  | .process r =>
    ({ d with fw := { d.fw with flash := (flashProcess r d.fw.flash).1 } },
      (flashProcess r d.fw.flash).2)

/-- A GETSTATUS over a response that is `OK` so far. -/
def askStatus : Event := .getStatus ⟨.ok, (0, 0, 0), .dfuIdle⟩ .dfuIdle

/-- A poll of the main loop that finds the controller ready. -/
def readyPoll : Event := .process fun _ => sr2Clear

/-! ### The device is a caller of the firmware -/

/-- The calls an event makes into the firmware. -/
def Event.calls (d : Device) : Event → List FwCall
  | .mount => [.mount]
  | .dnload _ | .clrStatus => []
  | .getStatus resp _ => [.getStatus 0 d.request resp]
  | .upload b n mem => [.upload 0 b n mem]
  | .abort => [.abort]
  | .process r => [.process r]

lemma step_calls (d : Device) (e : Event) :
    run fwCall d.fw (e.calls d) = ((step d e).1.fw, (step d e).2) := by
  cases e with
  | dnload x =>
    simp only [Event.calls, run_nil, step]
    split_ifs <;> rfl
  | _ => simp [Event.calls, step, fwCall, Device.poll]

/-- **Refinement.** A run of the device is a sequence of calls into the firmware, with the same
accesses to the bus. -/
theorem run_calls (d : Device) (es : List Event) :
    ∃ calls, run fwCall d.fw calls = ((run step d es).1.fw, (run step d es).2) := by
  induction es generalizing d with
  | nil => exact ⟨[], rfl⟩
  | cons e es ih =>
    obtain ⟨calls, hc⟩ := ih (step d e).1
    refine ⟨e.calls d ++ calls, ?_⟩
    rw [run_append, step_calls, run_cons, hc]

/-! ### What the events leave alone -/

section Device

variable {d : Device}

lemma Device.request_length_toNat : d.request.length.toNat = d.cmd.payload.length :=
  d.cmd.length_toNat

lemma Device.take_buffer : d.request.buffer.take d.request.length.toNat = d.cmd.payload := by
  rw [Device.request_length_toNat]
  exact List.take_left

lemma Device.answered (d : Device) (resp : StatusResponse) :
    Answered d.request resp d.fw (d.poll resp) :=
  tudDfuGetStatusCb_answered d.request resp d.fw

lemma Device.request_not_dnbusy (h : d.dfu = .dnloadSync) : ¬ d.request.state = .dnbusy := by
  show ¬ d.dfu = .dnbusy
  rw [h]
  decide

lemma Device.length_le_buffer : d.request.length.toNat ≤ d.request.buffer.length := by
  rw [Device.request_length_toNat]
  simp [Device.request]

lemma owed_mount (d : Device) : owed (step d .mount).1.fw.flash = [] :=
  owed_of_idle (flashInit_state d.fw.flash)

lemma effects_mount (d : Device) : effects (step d .mount).2 = [] := by
  simp only [step, tudMountCb, flashInit]
  split_ifs <;> rfl

lemma DfuState.default_eq_dnbusy {s next : DfuState} (h : s.default next = .dnbusy) :
    s = .dnbusy := by
  unfold DfuState.default at h
  split_ifs at h with hn
  · exact h
  · exact absurd (.inl h) hn

lemma DfuState.default_eq_dnloadSync {s next : DfuState} (h : s.default next = .dnloadSync) :
    s = .dnloadSync := by
  unfold DfuState.default at h
  split_ifs at h with hn
  · exact h
  · exact absurd (.inr h) hn

lemma step_cmd {e : Event} (h : ∀ x, e = .dnload x → ¬ d.dfu.TakesDnload) :
    (step d e).1.cmd = d.cmd := by
  cases e with
  | dnload x => simp only [step, if_neg (h x rfl)]
  | _ => rfl

lemma step_upload (d : Device) (b n : BitVec 16) (mem : Addr → Byte) :
    ∃ f, (step d (.upload b n mem)).1 =
      { d with fw := { d.fw with dfuse := { d.fw.dfuse with lastWasGetCmds := f } } } := by
  obtain ⟨f, hf⟩ := tudDfuUploadCb_dfuse 0 b n mem d.fw.dfuse
  exact ⟨f, by simp only [step, hf]⟩

lemma effects_upload (alt : Byte) (b n : BitVec 16) (mem : Addr → Byte) (c : DfuseCtx) :
    effects (tudDfuUploadCb alt b n mem c).bus = [] := by
  unfold tudDfuUploadCb
  split_ifs <;> simp [effects, List.flatMap_map, Bus.effects]

end Device

end Cs7000pBootloader.Dfu
