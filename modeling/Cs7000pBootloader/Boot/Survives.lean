import Cs7000pBootloader.Boot.Machine
import Cs7000pBootloader.Dfu.Update
import Cs7000pBootloader.Dfu.Ledger
import Cs7000pBootloader.Flash.Write

/-!
The bootloader survives.  An erase cannot leave bank 2 and a write is stored where its GETSTATUS
found it; so as long as every data block that begins lies in the region of the application, nothing
outside of it changes, whatever is cut off in between and whatever a cut-off leaves behind.
-/

namespace Cs7000pBootloader.Boot

open Flash Dfu Cs7000pBootloader.Lib

/-! ### The specification -/

/-- The event keeps to the region: a data block that begins lies inside, and the application writes
nothing outside. -/
def KeepsToRegion (s : Machine) : BootEvent → Prop
  | .usb (.getStatus resp _) => s.phase = .usbLoop → s.dev.Begins resp → s.dev.request.IsData →
      Inside s.dev.fw.dfuse.baseAddr s.dev.request.block s.dev.request.length
  | .app mem _ => s.phase = .app → ∀ a, ¬ InRegion a → mem a = s.mem a
  | _ => True

/-! ### The driver -/

/-- A write that is pending or running goes into the region. -/
def WritesInside (d : FlashDev) : Prop :=
  d.ctx.state.isWrite = true →
    regionStart ≤ d.ctx.addr.toNat ∧ d.ctx.addr.toNat + d.ctx.length.toNat ≤ regionEnd

section Driver

variable {d d' : FlashDev} {tr : List Bus} {a : Addr}

lemma writesInside_of_not_write (h : d.ctx.state.isWrite = false) : WritesInside d := by
  intro hw
  rw [h] at hw
  cases hw

lemma WritesInside.touched (h : WritesInside d) (ht : Touched d a) : InRegion a := by
  rcases ht with ⟨-, hs⟩ | ⟨hw, hlo, hhi⟩
  · exact inRegion_of_inSector hs
  · obtain ⟨hstart, hend⟩ := h (by rw [hw]; rfl)
    exact ⟨by omega, by omega⟩

lemma WritesInside.owed (h : WritesInside d) {e : Effect} (he : e ∈ owed d) (hw : e.Writes a) :
    InRegion a := by
  rcases FlashOpState.cases d.ctx.state with hs | hs | hs
  · rw [owed_of_idle hs] at he
    cases he
  · cases hst : d.ctx.state with
    | erasePending =>
      simp only [Flash.owed, hst, List.mem_singleton] at he
      subst he
      exact inRegion_of_inSector hw
    | eraseBusy =>
      simp only [Flash.owed, hst, List.not_mem_nil] at he
    | _ =>
      rw [hst] at hs
      cases hs
  · obtain ⟨hstart, hend⟩ := h hs
    rw [owed_of_isWrite hs] at he
    obtain ⟨⟨x, b⟩, hm, rfl⟩ := List.mem_map.mp he
    obtain rfl : x = a := hw
    obtain ⟨i, hi, rfl⟩ := mem_placed hm
    rw [List.length_map, List.length_range] at hi
    have hend' : regionEnd = 0x08200000 := rfl
    have hoff : (d.ctx.addr + d.ctx.offset.setWidth 32).toNat =
        d.ctx.addr.toNat + d.ctx.offset.toNat := by
      rw [BitVec.toNat_add, BitVec.toNat_setWidth]
      omega
    have hsum := toNat_add_ofNat (a := d.ctx.addr + d.ctx.offset.setWidth 32) (i := i) (by omega)
    exact ⟨by omega, by omega⟩

lemma WritesInside.move (h : WritesInside d) (hm : Move d d' tr) : WritesInside d' := by
  intro hw
  rw [hm.addr, hm.buffer.2]
  exact h (isWrite_of_move hm hw)

end Driver

/-! ### The device -/

section Device

variable {d : Device}

/-- A GETSTATUS lets a write begin inside the region only. -/
lemma writesInside_getStatus (h : WritesInside d.fw.flash) {resp : StatusResponse}
    (hin : d.Begins resp → d.request.IsData →
      Inside d.fw.dfuse.baseAddr d.request.block d.request.length) :
    WritesInside (d.poll resp).fw.flash := by
  have hans := d.answered resp
  generalize he : d.poll resp = out at hans
  cases hans with
  | writeStarted hd _ hst hop hi =>
    intro _
    have hbegins : d.Begins resp := ⟨hst, by rw [he], by rw [he]; rfl⟩
    obtain ⟨hlo, hhi⟩ := hin hbegins hd
    have hlt : blockStart d.fw.dfuse.baseAddr d.request.block < 2 ^ 32 := by
      simp only [regionEnd] at hhi
      omega
    have haddr := blockAddr_toNat hd.1 hlt
    exact ⟨by rw [haddr]; exact hlo, by rw [haddr]; exact hhi⟩
  | eraseStarted => exact writesInside_of_not_write rfl
  | _ => exact h

lemma step_outside (h : WritesInside d.fw.flash) (e : Event) (m : Addr → Byte) {a : Addr}
    (ha : ¬ InRegion a) : memoryAfter m (step d e).2 a = m a := by
  refine memoryAfter_of_not_writes m fun x hx hw => ?_
  cases e with
  | process r =>
    refine ha (h.owed ?_ hw)
    rw [← flashProcess_owed r d.fw.flash]
    exact List.mem_append_left _ hx
  | getStatus resp next =>
    rw [show effects (step d (.getStatus resp next)).2 = [] from (d.answered resp).bus_still.1] at hx
    cases hx
  | mount =>
    rw [effects_mount] at hx
    cases hx
  | upload b n mem =>
    rw [show effects (step d (.upload b n mem)).2 = [] from effects_upload 0 b n mem _] at hx
    cases hx
  | dnload | abort | clrStatus => cases hx

end Device

/-! ### The machine -/

/-- **The invariant**: the array is as it was outside the region, and a write goes into it. -/
structure Survives (mem : Addr → Byte) (s : Machine) : Prop where
  outside : ∀ a, ¬ InRegion a → s.mem a = mem a
  writes : WritesInside s.dev.fw.flash

section Machine

variable {mem : Addr → Byte} {s : Machine}

lemma survives_boot {m : Addr → Byte} (h : ∀ a, ¬ InRegion a → m a = mem a) (bkp : BitVec 32) :
    Survives mem (boot m bkp) := ⟨h, writesInside_of_not_write rfl⟩

lemma Survives.cutOff (h : Survives mem s) (left : Addr → Byte) :
    ∀ a, ¬ InRegion a → Boot.cutOff s left a = mem a := by
  intro a ha
  have hn : ¬ Touched s.dev.fw.flash a := fun ht => ha (h.writes.touched ht)
  exact (if_neg hn).trans (h.outside a ha)

lemma Survives.runStep (h : Survives mem s) (released : Bool) :
    Survives mem (Boot.runStep s released).1 := by
  unfold Boot.runStep
  cases s.phase with
  | systemReset => exact survives_boot h.outside _
  | sampleButton =>
    cases released with
    | true => exact ⟨h.outside, h.writes⟩
    | false =>
      refine ⟨h.outside, writesInside_of_not_write ?_⟩
      show (flashInit s.dev.fw.flash).1.ctx.state.isWrite = false
      rw [flashInit_state]
      rfl
  | _ => exact ⟨h.outside, h.writes⟩

lemma Survives.usb (h : Survives mem s) (hu : s.phase = .usbLoop) {e : Event}
    (hG : KeepsToRegion s (.usb e)) : WritesInside (step s.dev e).1.fw.flash := by
  cases e with
  | mount => exact writesInside_of_not_write (by simp [step, tudMountCb, flashInit_state]; rfl)
  | dnload x =>
    simp only [step]
    split_ifs <;> exact h.writes
  | getStatus resp next => exact writesInside_getStatus h.writes (hG hu)
  | upload b n m =>
    obtain ⟨f, hf⟩ := step_upload s.dev b n m
    rw [hf]
    exact h.writes
  | abort | clrStatus => exact h.writes
  | process r => exact h.writes.move (flashProcess_move r s.dev.fw.flash)

/-- **One event.** -/
theorem Survives.step (h : Survives mem s) {e : BootEvent} (hG : KeepsToRegion s e) :
    Survives mem (bootStep s e).1 := by
  cases e with
  | run released => exact h.runStep released
  | usb e =>
    by_cases hu : s.phase = .usbLoop
    · have he : bootStep s (.usb e) = (_, _) := if_pos hu
      rw [he]
      refine ⟨fun a ha => ?_, h.usb hu hG⟩
      exact (step_outside h.writes e s.mem ha).trans (h.outside a ha)
    · have he : bootStep s (.usb e) = (s, []) := if_neg hu
      rw [he]
      exact h
  | reset left => exact survives_boot (h.cutOff left) _
  | powerLoss left kept => exact survives_boot (h.cutOff left) _
  | app m bkp =>
    by_cases hp : s.phase = .app
    · have he : bootStep s (.app m bkp) = (_, _) := if_pos hp
      rw [he]
      exact ⟨fun a ha => (hG hp a ha).trans (h.outside a ha), h.writes⟩
    · have he : bootStep s (.app m bkp) = (s, []) := if_neg hp
      rw [he]
      exact h

end Machine

/-- **The bootloader survives.** From any boot, over every run in which the data blocks that begin
lie in the region and the application keeps to it, whatever else the host asks for, whatever is
erased, and whatever a reset or a power loss leaves in the addresses being worked on: nothing outside
the region changes. -/
theorem bootloader_survives (mem : Addr → Byte) (bkp : BitVec 32) (es : List BootEvent)
    (h : Along bootStep KeepsToRegion (boot mem bkp) es) (a : Addr) (ha : ¬ InRegion a) :
    (run bootStep (boot mem bkp) es).1.mem a = mem a := by
  have h0 : Survives mem (boot mem bkp) := survives_boot (fun _ _ => rfl) bkp
  exact (run_inv (fun _ _ h hG => h.step hG) h0 h).outside a ha

/-- An erase and the write of a byte, each begun and cut off. -/
def cutTwice : List BootEvent :=
  [.run false, .run false, .usb .mount, .usb (.dnload (eraseDnload 0x08120000)), .usb askStatus,
    .usb readyPoll, .powerLoss (fun _ => 0x55) false, .run false, .run false, .usb .mount,
    .usb (.dnload (byteDnload 0xAA)), .usb askStatus, .usb readyPoll, .reset fun _ => 0x55]

theorem bootloader_survives_cutTwice :
    (run bootStep (boot (fun _ => 0) 0) cutTwice).1.mem 0x080FFFFF = 0 := by
  refine bootloader_survives (fun _ => 0) 0 cutTwice ?_ 0x080FFFFF (by decide)
  have herase : ∀ d : Device, d.cmd = eraseDnload 0x08120000 → ¬ d.request.IsData := by
    rintro d hd ⟨h2, -⟩
    rw [Device.request, hd] at h2
    exact absurd (two_le_toNat h2) (by decide : ¬ 2 ≤ (0 : ℕ))
  refine ⟨trivial, trivial, trivial, trivial, fun _ _ hd => absurd hd (herase _ rfl), trivial,
    trivial, trivial, trivial, trivial, trivial, fun _ _ _ => ?_, trivial, trivial, trivial⟩
  decide

end Cs7000pBootloader.Boot
