import Cs7000pBootloader.Dfu.Device
import Cs7000pBootloader.Lib.Unwinding

/-!
What does not matter.  Uploads change nothing in the firmware but the flag of the command list, and
what an earlier DNLOAD left in the buffer behind a payload is passed to the callback but never used.
So a host that uploads, over a buffer with anything behind the payload, gets the same answers to its
GETSTATUS requests, and the flash the same accesses, as one that does not.

The bytes of an UPLOAD go into a buffer of the stack, and that may be the one that holds the last
DNLOAD.  What they do there is a parameter, and an upload that overwrites a payload goes unseen as
long as no GETSTATUS reads it before the next DNLOAD.
-/

namespace Cs7000pBootloader.Dfu

open Flash Cs7000pBootloader.Lib

/-! ### The specification -/

/-- What is seen of the device from outside: the answer to a GETSTATUS, and the accesses to the
bus. -/
inductive Seen where
  | answer (ret : Bool) (resp : StatusResponse)
  | bus (b : Bus)
  deriving DecidableEq, Repr

/-- What is seen of an event that is no upload. -/
def seenOf (d : Device) : Event → List Seen
  | .getStatus resp next =>
    .answer (d.poll resp).ret (d.poll resp).resp :: (step d (.getStatus resp next)).2.map .bus
  | .upload _ _ _ => []
  | e => (step d e).2.map .bus

def Event.IsUpload : Event → Prop
  | .upload _ _ _ => True
  | _ => False

/-- The same event, up to what lies behind the payload of a DNLOAD. -/
inductive SameUpToStale : Event → Event → Prop
  | refl {e} : ¬ e.IsUpload → SameUpToStale e e
  | stale {x : Dnload} (stale : List Byte) : SameUpToStale (.dnload x) (.dnload { x with stale })

/-- The state up to the flag of the command list. -/
def Firmware.withFlag (fw : Firmware) (f : Bool) : Firmware :=
  { fw with dfuse := { fw.dfuse with lastWasGetCmds := f } }

section Deposit

variable (deposit : Dnload → List Byte → Dnload)

/-- The device with the buffer of its uploads: `deposit` says what the bytes of an UPLOAD make of the
DNLOAD that the stack holds. -/
def sharedStep (d : Device) : Event → Device × List Bus
  | .upload b n mem =>
    let out := step d (.upload b n mem)
    ({ out.1 with cmd := deposit d.cmd (tudDfuUploadCb 0 b n mem d.fw.dfuse).data }, out.2)
  | e => step d e

/-- The bytes of the upload change the block number or the payload of the DNLOAD. -/
def Spoils (d : Device) (b n : BitVec 16) (mem : Addr → Byte) : Prop :=
  let x := deposit d.cmd (tudDfuUploadCb 0 b n mem d.fw.dfuse).data
  x.block ≠ d.cmd.block ∨ x.payload ≠ d.cmd.payload

instance (d : Device) (b n : BitVec 16) (mem : Addr → Byte) :
    Decidable (Spoils deposit d b n mem) := by
  unfold Spoils; infer_instance

/-- Whether an upload has spoiled the DNLOAD that the stack holds. -/
def spoiled (d : Device) : Event → Bool → Bool
  | .upload b n mem, sp => sp || decide (Spoils deposit d b n mem)
  | .dnload _, sp => sp && !decide d.dfu.TakesDnload
  | _, sp => sp

/-- The device, marked when its DNLOAD is spoiled. -/
def markedStep : Device × Bool → Event → (Device × Bool) × List Bus :=
  withGhost (sharedStep deposit) (spoiled deposit)

end Deposit

/-- A GETSTATUS does not find the DNLOAD spoiled. -/
def ReadsClean (s : Device × Bool) : Event → Prop
  | .getStatus _ _ => s.2 = false
  | _ => True

instance (s : Device × Bool) : DecidablePred (ReadsClean s)
  | .getStatus _ _ => inferInstanceAs (Decidable (s.2 = false))
  | .mount | .dnload _ | .upload _ _ _ | .abort | .clrStatus | .process _ => .isTrue trivial

/-- **The devices are the same** but for the flag of the command list and what lies behind the
payload, or for the whole DNLOAD when it is spoiled on one side. -/
structure SameDevice (s t : Device × Bool) : Prop where
  fw : ∃ f, t.1.fw = s.1.fw.withFlag f
  dfu : t.1.dfu = s.1.dfu
  cmd : s.2 = false → t.2 = false →
    t.1.cmd.block = s.1.cmd.block ∧ t.1.cmd.payload = s.1.cmd.payload

/-! ### The flag -/

section Flag

variable {fw : Firmware} {f : Bool}

@[simp] lemma withFlag_flash : (fw.withFlag f).flash = fw.flash := rfl

@[simp] lemma withFlag_op : (fw.withFlag f).dfuse.op = fw.dfuse.op := rfl

@[simp] lemma withFlag_haveAddr : (fw.withFlag f).dfuse.haveAddr = fw.dfuse.haveAddr := rfl

@[simp] lemma withFlag_baseAddr : (fw.withFlag f).dfuse.baseAddr = fw.dfuse.baseAddr := rfl

/-- What the callback leaves behind, with another flag. -/
def GetStatusOut.withFlag (out : GetStatusOut) (f : Bool) : GetStatusOut :=
  { out with fw := out.fw.withFlag f }

variable (req : GetStatusRequest) (resp : StatusResponse)

lemma setAddress_withFlag :
    setAddress req resp (fw.withFlag f) = (setAddress req resp fw).map (·.withFlag f) := by
  simp only [setAddress, withFlag_op, apply_ite (Option.map _)]
  rfl

lemma erase_withFlag :
    erase req resp (fw.withFlag f) = (erase req resp fw).map (·.withFlag f) := by
  simp only [erase, withFlag_op, withFlag_flash, apply_ite (Option.map _)]
  rfl

lemma dataBlock_withFlag :
    dataBlock req resp (fw.withFlag f) = (dataBlock req resp fw).map (·.withFlag f) := by
  simp only [dataBlock, withFlag_op, withFlag_flash, withFlag_haveAddr, withFlag_baseAddr,
    apply_ite (Option.map _)]
  rfl

/-- **The callback does not read the flag.** -/
lemma tudDfuGetStatusCb_withFlag (fw : Firmware) (f : Bool) :
    ∃ f', tudDfuGetStatusCb 0 req resp (fw.withFlag f) =
      (tudDfuGetStatusCb 0 req resp fw).withFlag f' := by
  rw [tudDfuGetStatusCb_zero, tudDfuGetStatusCb_zero, setAddress_withFlag, erase_withFlag,
    dataBlock_withFlag]
  by_cases hg : req.IsGetCommands
  · have e : ∀ fw, getCommands req resp fw = _ := fun fw => if_pos hg
    rw [e, e]
    exact ⟨true, rfl⟩
  · rw [getCommands_none hg, getCommands_none hg]
    refine ⟨f, ?_⟩
    cases setAddress req resp fw <;> cases erase req resp fw <;> cases dataBlock req resp fw <;> rfl

end Flag

/-! ### One event -/

section Step

variable {s t : Device × Bool} (deposit : Dnload → List Byte → Dnload)

lemma SameDevice.symm (h : SameDevice s t) : SameDevice t s := by
  obtain ⟨f, hf⟩ := h.fw
  refine ⟨⟨s.1.fw.dfuse.lastWasGetCmds, by rw [hf]; rfl⟩, h.dfu.symm, fun ht hs => ?_⟩
  obtain ⟨hblock, hpay⟩ := h.cmd hs ht
  exact ⟨hblock.symm, hpay.symm⟩

/-- **A GETSTATUS is answered alike**, and leaves the firmware alike up to the flag, when the stack
holds the same DNLOAD. -/
lemma SameDevice.poll (h : SameDevice s t) (hs : s.2 = false) (ht : t.2 = false)
    (resp : StatusResponse) : ∃ f, t.1.poll resp = (s.1.poll resp).withFlag f := by
  obtain ⟨f, hfw⟩ := h.fw
  obtain ⟨hblock, hpay⟩ := h.cmd hs ht
  have hreq : t.1.request = { s.1.request with buffer := t.1.request.buffer } := by
    simp only [Device.request, Dnload.length, h.dfu, hblock, hpay]
  have hbuffer : t.1.request.buffer.take s.1.request.length.toNat =
      s.1.request.buffer.take s.1.request.length.toNat := by
    have hlen : t.1.request.length = s.1.request.length := by
      simp only [Device.request, Dnload.length, hpay]
    rw [Device.take_buffer, ← hlen, Device.take_buffer, hpay]
  obtain ⟨f', hf⟩ := tudDfuGetStatusCb_withFlag s.1.request resp s.1.fw f
  refine ⟨f', ?_⟩
  rw [Device.poll, Device.poll, ← hf, hreq, hfw]
  exact tudDfuGetStatusCb_congr resp (s.1.fw.withFlag f) hbuffer

lemma SameDevice.upload (h : SameDevice s t) {e : Event} (he : e.IsUpload) :
    SameDevice (markedStep deposit s e).1 t ∧ seenOf s.1 e = [] := by
  cases e with
  | upload b n mem =>
    obtain ⟨f, hf⟩ := step_upload s.1 b n mem
    obtain ⟨f', hfw⟩ := h.fw
    refine ⟨⟨⟨f', ?_⟩, ?_, fun hs ht => ?_⟩, rfl⟩
    · simp only [markedStep, withGhost, sharedStep, hf]
      exact hfw
    · simp only [markedStep, withGhost, sharedStep, hf]
      exact h.dfu
    · obtain ⟨hclean, hkept⟩ := Bool.or_eq_false_iff.mp hs
      obtain ⟨hblock, hpay⟩ := not_or.mp (of_decide_eq_false hkept)
      obtain ⟨hb, hp⟩ := h.cmd hclean ht
      exact ⟨hb.trans (not_not.mp hblock).symm, hp.trans (not_not.mp hpay).symm⟩
  | _ => exact he.elim

/-- A DNLOAD that is taken takes the place of a spoiled one. -/
lemma SameDevice.dnload (h : SameDevice s t) (x : Dnload) (stale : List Byte) :
    SameDevice (markedStep deposit s (.dnload x)).1
      (markedStep deposit t (.dnload { x with stale })).1 := by
  obtain ⟨f, hfw⟩ := h.fw
  by_cases htakes : s.1.dfu.TakesDnload
  · have htakes' : t.1.dfu.TakesDnload := by rwa [h.dfu]
    simp only [markedStep, withGhost, sharedStep, step, if_pos htakes, if_pos htakes']
    exact ⟨⟨f, hfw⟩, rfl, fun _ _ => ⟨rfl, rfl⟩⟩
  · have htakes' : ¬ t.1.dfu.TakesDnload := by rwa [h.dfu]
    simp only [markedStep, withGhost, sharedStep, step, spoiled, if_neg htakes, if_neg htakes',
      decide_eq_false htakes, decide_eq_false htakes', Bool.not_false, Bool.and_true]
    exact h

lemma SameDevice.step (h : SameDevice s t) {e e' : Event} (he : SameUpToStale e e')
    (hs : ReadsClean s e) (ht : ReadsClean t e') :
    SameDevice (markedStep deposit s e).1 (markedStep deposit t e').1 ∧
      seenOf s.1 e = seenOf t.1 e' := by
  obtain ⟨f, hfw⟩ := h.fw
  cases he with
  | stale stale => exact ⟨h.dnload deposit _ stale, rfl⟩
  | refl hu =>
    cases e with
    | upload => exact absurd trivial hu
    | getStatus resp next =>
      obtain ⟨f', hpoll⟩ := h.poll hs ht resp
      simp only [markedStep, withGhost, sharedStep, Dfu.step, seenOf, hpoll, h.dfu]
      exact ⟨⟨⟨f', rfl⟩, rfl, h.cmd⟩, rfl⟩
    | dnload x => exact ⟨h.dnload deposit x x.stale, rfl⟩
    | mount =>
      simp only [markedStep, withGhost, sharedStep, Dfu.step, seenOf, tudMountCb, hfw]
      exact ⟨⟨⟨false, rfl⟩, rfl, h.cmd⟩, rfl⟩
    | abort =>
      refine ⟨⟨⟨false, ?_⟩, rfl, h.cmd⟩, rfl⟩
      simp only [markedStep, withGhost, sharedStep, Dfu.step, tudDfuAbortCb, hfw]
      rfl
    | clrStatus => exact ⟨⟨⟨f, hfw⟩, rfl, h.cmd⟩, rfl⟩
    | process r =>
      simp only [markedStep, withGhost, sharedStep, Dfu.step, seenOf, hfw]
      exact ⟨⟨⟨f, rfl⟩, h.dfu, h.cmd⟩, rfl⟩

end Step

/-! ### Whole runs -/

/-- **Uploads and left-over bytes do not matter.** Wherever the stack puts the bytes of an UPLOAD: two
runs of the device whose scripts differ in uploads, and behind the payloads of their DNLOADs, answer
every GETSTATUS alike and make the same accesses to the bus, but for the reads of the uploads, and
they end in the same device; as long as no GETSTATUS comes between an upload that overwrites the
payload and the next DNLOAD. -/
theorem uploads_unseen (deposit : Dnload → List Byte → Dnload) (d : Device) {es es' : List Event}
    (h : Alike Event.IsUpload SameUpToStale es es')
    (hes : Along (markedStep deposit) ReadsClean (d, false) es)
    (hes' : Along (markedStep deposit) ReadsClean (d, false) es') :
    SameDevice (run (markedStep deposit) (d, false) es).1
        (run (markedStep deposit) (d, false) es').1 ∧
      observed (sharedStep deposit) seenOf d es = observed (sharedStep deposit) seenOf d es' := by
  have h0 : SameDevice (d, false) (d, false) :=
    ⟨⟨d.fw.dfuse.lastWasGetCmds, rfl⟩, rfl, fun _ _ => ⟨rfl, rfl⟩⟩
  have hobs : ∀ es, observed (markedStep deposit) (fun s e => seenOf s.1 e) (d, false) es =
      observed (sharedStep deposit) seenOf d es := fun es => observed_withGhost _ _ _
  rw [← hobs, ← hobs]
  refine observed_of_alike (R := SameDevice) (G := ReadsClean) (fun _ _ h => h.symm) ?_ ?_ h h0 hes
    hes'
  · exact fun _ _ _ h he => h.upload deposit he
  · exact fun _ _ _ _ h he hs ht => h.step deposit he hs ht

/-- In a stack that keeps the DNLOAD apart from its uploads, every run reads it clean. -/
theorem readsClean_of_keeps {deposit : Dnload → List Byte → Dnload}
    (h : ∀ x data, (deposit x data).block = x.block ∧ (deposit x data).payload = x.payload)
    (d : Device) (es : List Event) : Along (markedStep deposit) ReadsClean (d, false) es := by
  refine along_of_inv (I := fun s : Device × Bool => s.2 = false) (G := fun _ _ => True) ?_ ?_ rfl
    (along_of_forall (fun _ _ => trivial) _ es)
  · intro s e hs _
    cases e with
    | upload b n mem =>
      have hkept : ¬ Spoils deposit s.1 b n mem := fun hsp =>
        hsp.elim (fun hb => hb (h _ _).1) fun hp => hp (h _ _).2
      exact Bool.or_eq_false_iff.mpr ⟨hs, decide_eq_false hkept⟩
    | dnload x => exact Bool.and_eq_false_imp.mpr fun ht => absurd (hs.symm.trans ht) (by decide)
    | _ => exact hs
  · intro s e hs _
    cases e with
    | getStatus => exact hs
    | _ => trivial

/-- A stack with one buffer for both directions: the bytes of an UPLOAD lie over the payload. -/
def oneBuffer (x : Dnload) (data : List Byte) : Dnload :=
  let buffer := data ++ (x.payload ++ x.stale).drop data.length
  ⟨x.block, buffer.take x.payload.length, buffer.drop x.payload.length,
    Nat.le_trans (List.length_take_le _ _) x.le⟩

lemma one_le_xferBufsize : [(0x00 : Byte)].length ≤ cfgTudDfuXferBufsize := Nat.le_add_left 1 1023

/-- A DNLOAD of the command list, over a buffer that held `stale`. -/
def listDnload (stale : List Byte) : Dnload := ⟨0, [0x00], stale, one_le_xferBufsize⟩

/-- The command list asked for over a zeroed buffer, and over another one between two uploads, of
which the second overwrites the command. -/
theorem uploads_unseen_list :
    SameDevice
        (run (markedStep oneBuffer) (powerOn, false) [.mount, .dnload (listDnload []), askStatus]).1
        (run (markedStep oneBuffer) (powerOn, false) [.upload 0 4 fun _ => 0, .mount,
          .dnload (listDnload [0xFF]), askStatus, .upload 2 1 fun _ => 0xAA]).1 ∧
      observed (sharedStep oneBuffer) seenOf powerOn [.mount, .dnload (listDnload []), askStatus] =
        observed (sharedStep oneBuffer) seenOf powerOn [.upload 0 4 fun _ => 0, .mount,
          .dnload (listDnload [0xFF]), askStatus, .upload 2 1 fun _ => 0xAA] := by
  have hlist : SameUpToStale (.dnload (listDnload [])) (.dnload (listDnload [0xFF])) :=
    .stale (x := listDnload []) [0xFF]
  refine uploads_unseen oneBuffer powerOn ?_ ?_ ?_
  · exact .right trivial (.both (.refl id) (.both hlist (.both (.refl id) (.right trivial .nil))))
  · exact ⟨trivial, trivial, rfl, trivial⟩
  · exact ⟨trivial, trivial, trivial, rfl, trivial, trivial⟩

/-- An upload before the GETSTATUS is seen: the command it leaves is a mass erase. -/
example :
    observed (sharedStep oneBuffer) seenOf powerOn
        [.mount, .dnload (listDnload []), .upload 2 1 fun _ => dfuseCmdErase, askStatus] ≠
      observed (sharedStep oneBuffer) seenOf powerOn [.mount, .dnload (listDnload []), askStatus] := by
  decide

end Cs7000pBootloader.Dfu
