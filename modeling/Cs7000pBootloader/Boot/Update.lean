import Cs7000pBootloader.Boot.Handoff
import Cs7000pBootloader.Boot.Vectors
import Cs7000pBootloader.Dfu.Update

/-!
The bootloader end to end.  From any state of the machine, whatever was cut off and whatever lies in
flash, two boots with the button held lead into the USB loop; there an update installs its image; and
the next boot with the button released starts the application that the image holds, with the stack
pointer and the reset vector of its first two words.
-/

namespace Cs7000pBootloader.Boot

open Flash Dfu Cs7000pBootloader.Lib

/-! ### The specification -/

/-- The 32-bit word of an image, little-endian. -/
def imageWord (image : List Byte) (i : ℕ) : BitVec 32 :=
  image.getD (i + 3) 0 ++ image.getD (i + 2) 0 ++ image.getD (i + 1) 0 ++ image.getD i 0

/-- The first `n` steps of the boot path, the button reading the same. -/
def steps (n : ℕ) (released : Bool) : List BootEvent := List.replicate n (.run released)

/-- **What is asked of an update** from the machine `s`, with what comes after it: the image is in
flash, the rest of the erased sectors is blank, all other memory is as it was, and the application is
started once, from the first two words of the image. -/
structure BootsImage (s : Machine) (image : List Byte) (as : List Addr) (es : List BootEvent) :
    Prop where
  flash : Updated image appBaseAddr as s.mem (run bootStep s es).1.mem
  started : (run bootStep s es).1.phase = .app
  handOver : (run bootStep s es).2.filter Action.isHandOver =
    [.setVtor appBaseAddr, .setMsp (imageWord image 0), .branch (imageWord image 4)]

/-! ### Boots -/

section Boots

variable (mem : Addr → Byte) {bkp : BitVec 32}

lemma run_steps_over {s : Machine} (h : s.phase = .app ∨ s.phase = .usbLoop) (n : ℕ)
    (released : Bool) : run bootStep s (steps n released) = (s, []) := by
  have hone : bootStep s (.run released) = (s, []) := by
    rcases h with h | h <;> simp only [bootStep, runStep, h]
  induction n with
  | zero => rfl
  | succ n ih =>
    rw [steps, List.replicate_succ, run_cons, hone]
    rw [steps] at ih
    rw [ih]
    rfl

lemma steps_add (k n : ℕ) (released : Bool) :
    steps (k + n) released = steps k released ++ steps n released := List.replicate_add k n _

lemma boot_magic (released : Bool) :
    run bootStep (boot mem bootMagicGoApp) (steps 7 released) = (⟨mem, 0, powerOn, .app⟩,
      [.readBkp bootMagicGoApp, .writeBkp 0, .disableIrq, .stopSysTick, .clearNvic,
        .setVtor appBaseAddr, .setMsp (word mem appBaseAddr),
        .branch (word mem (appBaseAddr + 4))]) := by
  simp [steps, List.replicate_succ, run_cons, bootStep, runStep, boot]

lemma boot_released (h : bkp ≠ bootMagicGoApp) :
    run bootStep (boot mem bkp) (steps 4 true) = (boot mem bootMagicGoApp,
      [.readBkp bkp, .readButton true, .writeBkp bootMagicGoApp, .systemReset]) := by
  simp [steps, List.replicate_succ, run_cons, bootStep, runStep, boot, h]

/-- **With the button released** the application is started, from the words that are in flash. -/
lemma boot_starts {n : ℕ} (hn : 11 ≤ n) (bkp : BitVec 32) :
    (run bootStep (boot mem bkp) (steps n true)).1 = ⟨mem, 0, powerOn, .app⟩ ∧
      (run bootStep (boot mem bkp) (steps n true)).2.filter Action.isHandOver =
        [.setVtor appBaseAddr, .setMsp (word mem appBaseAddr),
          .branch (word mem (appBaseAddr + 4))] := by
  by_cases hm : bkp = bootMagicGoApp
  · subst hm
    obtain ⟨k, rfl⟩ : ∃ k, n = 7 + k := ⟨n - 7, by omega⟩
    rw [steps_add, run_append, boot_magic, run_steps_over (.inl rfl)]
    exact ⟨rfl, rfl⟩
  · obtain ⟨k, rfl⟩ : ∃ k, n = 4 + (7 + k) := ⟨n - 11, by omega⟩
    rw [steps_add, steps_add, run_append, run_append, boot_released mem hm, boot_magic,
      run_steps_over (.inl rfl)]
    exact ⟨rfl, rfl⟩

end Boots

/-! ### Into the USB loop -/

section Held

variable {s : Machine} {es : List BootEvent}

/-- A boot that has looked at the register and does not start the application found no magic. -/
def FoundNone (s : Machine) : Prop :=
  s.phase = .sampleButton ∨ s.phase = .usbLoop → s.bkp0r ≠ bootMagicGoApp

lemma FoundNone.moved {s' : Machine} {e : BootEvent} {j r : ℕ} (h : FoundNone s)
    (hm : Moved s e s' j r) : FoundNone s' := by
  intro hp
  cases hm with
  | stays _ hp' hb =>
    rw [hp'] at hp
    rw [hb]
    exact h hp
  | findsNone _ hn _ hb =>
    rw [hb]
    exact hn
  | held hs _ hb =>
    rw [hb]
    exact h (.inl hs)
  | prepares _ hc =>
    rcases hp with hp | hp <;> rw [hp] at hc <;> cases hc
  | boots _ hp' | appLeaves _ hp' | findsMagic _ _ hp' | clears _ hp' =>
    rcases hp with hp | hp <;> cases hp'.symm.trans hp
  | jumps _ _ hp' | released _ hp' | sets _ hp' =>
    rcases hp with hp | hp <;> cases hp'.symm.trans hp

lemma start_of_cutsOff {c : BootEvent} (hc : c.cutsOff = true) (s : Machine) :
    (bootStep s c).1.phase = .start := by
  cases c with
  | reset | powerLoss => rfl
  | _ => cases hc

/-- **Two boots with the button held** lead into the USB loop, whatever was cut off before them: the
first may start the application, once, and then no jump is due. -/
theorem usbLoop_of_held (s : Machine) {c₁ c₂ : BootEvent} {q₁ q₂ : List BootEvent}
    (hc₁ : c₁.cutsOff = true) (hc₂ : c₂.cutsOff = true) (hq₁ : Completes q₁) (hq₂ : Completes q₂)
    (hes : ∀ e ∈ q₁ ++ c₂ :: q₂, WritesNoMagic e)
    (hr : releases (run bootStep s (c₁ :: (q₁ ++ c₂ :: q₂))).2 = 0) :
    (run bootStep s (c₁ :: (q₁ ++ c₂ :: q₂))).1.phase = .usbLoop := by
  have hs₁ := start_of_cutsOff hc₁ s
  rw [run_cons] at hr ⊢
  generalize (bootStep s c₁).1 = s₁ at hs₁ hr ⊢
  have hclear : Cleared s₁ := fun h => by rw [hs₁] at h; cases h
  have hnone : FoundNone s₁ := fun h => by rw [hs₁] at h; rcases h with h | h <;> cases h
  have hpays := run_pays hclear hes
  have hpays₂ := run_pays (cleared_run hclear q₁) fun e he => hes e (List.mem_append_right _ he)
  have hle := credit_le s₁
  have hs₂ := start_of_cutsOff hc₂ (run bootStep s₁ q₁).1
  rw [run_append, run_cons] at hr hpays ⊢
  rw [run_cons] at hpays₂
  simp only [jumps, releases, List.countP_append] at hr hpays hpays₂
  have hr₁ : releases (run bootStep s₁ q₁).2 = 0 := by
    unfold releases
    omega
  have hr₂ : releases (run bootStep (bootStep (run bootStep s₁ q₁).1 c₂).1 q₂).2 = 0 := by
    unfold releases
    omega
  refine (completes_phase hs₂ hq₂ hr₂).resolve_right fun happ => ?_
  have hj₂ := mt (completes_app hs₂) (not_not.mpr happ)
  simp only [jumps] at hj₂
  rcases completes_phase hs₁ hq₁ hr₁ with husb | happ₁
  · -- nothing is due after the first boot
    have hdue : credit (run bootStep s₁ q₁).1 = 0 := by
      refine credit_not_due fun hd => ?_
      have hfound := run_inv_all (fun s e h => h.moved (bootStep_moved s e)) hnone q₁
      exact hfound (.inr husb) (hd.bkp (by rw [husb]; rfl))
    omega
  · have hj₁ := mt (completes_app hs₁) (not_not.mpr happ₁)
    simp only [jumps] at hj₁
    omega

end Held

/-! ### The mode bits -/

lemma modesClear_of_cutsOff {c : BootEvent} (hc : c.cutsOff = true) (s : Machine) :
    (bootStep s c).1.dev.ModesClear := by
  cases c with
  | reset | powerLoss => exact ⟨rfl, rfl⟩
  | _ => cases hc

lemma modesClear_step {s : Machine} (h : s.dev.ModesClear) {e : BootEvent} (he : ∀ x, e ≠ .usb x) :
    (bootStep s e).1.dev.ModesClear := by
  cases e with
  | usb x => exact absurd rfl (he x)
  | reset left => exact modesClear_of_cutsOff rfl s
  | powerLoss left kept => exact modesClear_of_cutsOff rfl s
  | app mem bkp =>
    simp only [bootStep]
    split_ifs <;> exact h
  | run released =>
    simp only [bootStep, runStep]
    cases s.phase with
    | sampleButton =>
      simp only [flashInit]
      split_ifs <;> exact h
    | systemReset => exact ⟨rfl, rfl⟩
    | _ => exact h

/-! ### The update in the machine -/

section Update

variable {s : Machine}

lemma run_usb (h : s.phase = .usbLoop) (es : List Event) :
    run bootStep s (es.map .usb) =
      ({ s with mem := memoryAfter s.mem (run step s.dev es).2, dev := (run step s.dev es).1 },
        (run step s.dev es).2.map .bus) := by
  induction es generalizing s with
  | nil => rfl
  | cons e es ih =>
    have he : bootStep s (.usb e) = (_, _) := if_pos h
    rw [List.map_cons, run_cons, run_cons, he]
    rw [ih (s := { s with mem := memoryAfter s.mem (step s.dev e).2, dev := (step s.dev e).1 }) h]
    simp only [memoryAfter, effects_append, List.foldl_append, List.map_append]

lemma boot_of_cutsOff {c : BootEvent} (hc : c.cutsOff = true)
    (hi : s.dev.fw.flash.ctx.state = .idle) :
    (bootStep s c).2 = [] ∧ ∃ bkp, (bootStep s c).1 = boot s.mem bkp := by
  have hkeep : ∀ left, cutOff s left = s.mem := by
    intro left
    funext a
    apply if_neg
    rintro (⟨h, -⟩ | ⟨h, -⟩) <;> cases hi.symm.trans h
  cases c with
  | reset left => exact ⟨rfl, s.bkp0r, congrArg (boot · s.bkp0r) (hkeep left)⟩
  | powerLoss left kept => exact ⟨rfl, _, congrArg (boot · _) (hkeep left)⟩
  | _ => cases hc

lemma word_of_updated {image : List Byte} {as : List Addr} {m m' : Addr → Byte}
    (h : Updated image appBaseAddr as m m') {i : ℕ} (hi : i + 4 ≤ image.length) :
    word m' (appBaseAddr + BitVec.ofNat 32 i) = imageWord image i := by
  have hbyte : ∀ k, k < 4 →
      m' (appBaseAddr + BitVec.ofNat 32 i + BitVec.ofNat 32 k) = image.getD (i + k) 0 := by
    intro k hk
    have hlt : i + k < image.length := by omega
    rw [BitVec.add_assoc, ← BitVec.ofNat_add, h.inside (i + k) hlt, List.getD_eq_getElem _ _ hlt]
  have h0 := hbyte 0 (by decide)
  rw [BitVec.add_zero] at h0
  have h1 := hbyte 1 (by decide)
  have h2 := hbyte 2 (by decide)
  have h3 := hbyte 3 (by decide)
  rw [Nat.add_zero] at h0
  simp only [word, imageWord]
  rw [← h1, ← h2, ← h3, ← h0]
  rfl

/-- **With the button released** an image that is in flash is started, when the driver was idle at the
cut-off. -/
lemma starts_image {image : List Byte} {as : List Addr} {m : Addr → Byte}
    (h : Updated image appBaseAddr as m s.mem) (h8 : 8 ≤ image.length)
    (hi : s.dev.fw.flash.ctx.state = .idle) {c : BootEvent} (hc : c.cutsOff = true) {n : ℕ}
    (hn : 11 ≤ n) :
    (run bootStep s (c :: steps n true)).1 = ⟨s.mem, 0, powerOn, .app⟩ ∧
      (run bootStep s (c :: steps n true)).2.filter Action.isHandOver =
        [.setVtor appBaseAddr, .setMsp (imageWord image 0), .branch (imageWord image 4)] := by
  obtain ⟨hnil, bkp, hboot⟩ := boot_of_cutsOff hc hi
  obtain ⟨happ, hjump⟩ := boot_starts s.mem hn bkp
  have h0 := word_of_updated h (i := 0) (by omega)
  have h4 := word_of_updated h (i := 4) (by omega)
  rw [BitVec.add_zero] at h0
  rw [run_cons, hnil, hboot, List.nil_append, ← h0, ← h4]
  exact ⟨happ, hjump⟩

/-- **From the USB loop**, an update and a boot with the button released start the image. -/
lemma bootsImage_of_update (h : s.phase = .usbLoop) {as : List Addr} {parts : List (List Byte)}
    {es : List Event} (has : ∀ a ∈ as, InRegion a) (hlo : 8 ≤ parts.flatten.length)
    (hhi : parts.flatten.length ≤ 0x100000)
    (hcover : ∀ i < parts.flatten.length, SameSector as (appBaseAddr + BitVec.ofNat 32 i))
    (hes : Performs (step s.dev .mount).1 (update as appBaseAddr parts) es) {c : BootEvent}
    (hc : c.cutsOff = true) {n : ℕ} (hn : 11 ≤ n) :
    BootsImage s parts.flatten as ((Event.mount :: es).map .usb ++ c :: steps n true) := by
  have hend : appBaseAddr.toNat + parts.flatten.length ≤ regionEnd := by
    show 0x08100000 + _ ≤ 0x08200000
    omega
  obtain ⟨⟨p, hrest⟩, -, hupd⟩ := update_updated (fun _ b => b) (fun _ => rfl) s.mem has
    (Nat.le_refl _) hend hcover hes
  have hmem : memoryAfter s.mem (run step s.dev (.mount :: es)).2 =
      memoryAfter s.mem (run step (step s.dev .mount).1 es).2 := by
    rw [run_cons, memoryAfter, effects_append, effects_mount]
    rfl
  rw [programmed_second, ← hmem] at hupd
  obtain ⟨hend, hjump⟩ := starts_image
    (s := { s with mem := memoryAfter s.mem (run step s.dev (.mount :: es)).2
                   dev := (run step s.dev (.mount :: es)).1 }) hupd hlo hrest.flash hc hn
  have hquiet : ∀ bs : List Bus, (bs.map Action.bus).filter Action.isHandOver = [] := by
    intro bs
    rw [List.filter_eq_nil_iff]
    intro a ha
    obtain ⟨b, -, rfl⟩ := List.mem_map.mp ha
    exact Bool.false_ne_true
  have hrun := run_usb h (.mount :: es)
  refine ⟨?_, ?_, ?_⟩
  · rw [run_append, hrun, hend]
    exact hupd
  · rw [run_append, hrun, hend]
  · rw [run_append, hrun, List.filter_append, hquiet, hjump]
    rfl

end Update

/-- **The bootloader cannot be locked out.** Whatever the machine is doing and whatever is in flash
and in `BKP0R`: cut it off and hold the button, twice; when both boots run to completion, with no
more from the application than it likes but the magic, the second is in the USB loop, with `PG` and
`SER` clear as long as nothing came over USB.  There every update of the application in whole flash
words makes no access but as the controller asks, and is installed, and the next boot with the button
released starts its image. -/
theorem reflash_from_anywhere (s : Machine) (c₁ c₂ : BootEvent) (q₁ q₂ : List BootEvent)
    (hc₁ : c₁.cutsOff = true) (hc₂ : c₂.cutsOff = true) (hq₁ : Completes q₁) (hq₂ : Completes q₂)
    (hes : ∀ e ∈ q₁ ++ c₂ :: q₂, WritesNoMagic e)
    (hheld : releases (run bootStep s (c₁ :: (q₁ ++ c₂ :: q₂))).2 = 0) :
    let u := (run bootStep s (c₁ :: (q₁ ++ c₂ :: q₂))).1
    u.phase = .usbLoop ∧ ((∀ x, .usb x ∉ q₂) → u.dev.ModesClear) ∧
      ∀ as parts es, u.dev.ModesClear → InWords appBaseAddr parts → (∀ a ∈ as, InRegion a) →
        8 ≤ parts.flatten.length → parts.flatten.length ≤ 0x100000 →
        (∀ i < parts.flatten.length, SameSector as (appBaseAddr + BitVec.ofNat 32 i)) →
        Performs (step u.dev .mount).1 (update as appBaseAddr parts) es →
        Along (withGhost step sinceBlock) Honours ((step u.dev .mount).1, []) es ∧
          ∀ c₃ n, c₃.cutsOff = true → 11 ≤ n →
            BootsImage u parts.flatten as ((Event.mount :: es).map .usb ++ c₃ :: steps n true) := by
  intro u
  refine ⟨usbLoop_of_held s hc₁ hc₂ hq₁ hq₂ hes hheld, fun husb => ?_, ?_⟩
  · show (run bootStep s (c₁ :: (q₁ ++ c₂ :: q₂))).1.dev.ModesClear
    rw [run_cons, run_append, run_cons]
    refine run_inv (I := fun s : Machine => s.dev.ModesClear) (G := fun _ e => ∀ x, e ≠ .usb x)
      (fun _ _ h he => modesClear_step h he) (modesClear_of_cutsOff hc₂ _) (along_of_mem ?_ _)
    rintro e he x rfl
    exact husb x he
  · intro as parts es hclear hwords has hlo hhi hcover hup
    refine ⟨honours_update hclear hwords hhi hup, fun c₃ n hc₃ hn => ?_⟩
    exact bootsImage_of_update (usbLoop_of_held s hc₁ hc₂ hq₁ hq₂ hes hheld) has hlo hhi hcover hup
      hc₃ hn

section EightBytes

def eightDnload : Dnload := ⟨2, [0, 0, 2, 0x20, 9, 0, 0x10, 8], [], Nat.le_add_left 8 1016⟩

/-- An update to a stack pointer and a reset vector. -/
def eightBytes : List Event :=
  (.dnload (eraseDnload 0x08100000) :: [askStatus, readyPoll, readyPoll, askStatus]) ++
    ((.dnload (setDnload 0x08100000) :: setPolls) ++
      ((.dnload eightDnload :: blockPolls 1) ++ []))

lemma performs_eightBytes :
    Performs (step powerOn .mount).1
      (update [0x08100000] appBaseAddr [[0, 0, 2, 0x20, 9, 0, 0x10, 8]]) eightBytes := by
  refine .cons (o := .erase 0x08100000) ⟨rfl, rfl⟩ ?_ (by decide) ?_
  · simp [askStatus, readyPoll, Event.IsPoll]
  refine .cons (o := .load (.setAddress 0x08100000)) ⟨rfl, rfl⟩ setPolls_isPoll (by decide) ?_
  exact .cons (o := .load (.block 2 [0, 0, 2, 0x20, 9, 0, 0x10, 8])) ⟨rfl, rfl⟩ (blockPolls_isPoll 1)
    (by decide) .nil

/-- Over an erased application and with the magic set, so that the first boot starts it. -/
def locked : Machine :=
  (run bootStep (boot (fun _ => 0xFF) bootMagicGoApp)
    (.reset (fun _ => 0) :: (steps 7 false ++ .powerLoss (fun _ => 0) true :: steps 7 false))).1

theorem reflash_from_anywhere_locked :
    locked.phase = .usbLoop ∧
      Along (withGhost step sinceBlock) Honours ((step locked.dev .mount).1, []) eightBytes ∧
      BootsImage locked [0, 0, 2, 0x20, 9, 0, 0x10, 8] [0x08100000]
        ((Event.mount :: eightBytes).map .usb ++ .reset (fun _ => 0) :: steps 11 true) := by
  have hregion : ∀ a ∈ [(0x08100000 : Addr)], InRegion a := by
    rw [List.forall_mem_singleton]
    decide
  have hcover : ∀ i < 8, SameSector [0x08100000] (appBaseAddr + BitVec.ofNat 32 i) := by
    intro i hi
    refine ⟨0x08100000, List.mem_singleton.mpr rfl, ?_⟩
    have hbase : appBaseAddr.toNat = 0x08100000 := rfl
    rw [toNat_add_ofNat (by omega), hbase]
    show (0x08100000 + i) / 0x20000 = 0x08100000 / 0x20000
    omega
  obtain ⟨husb, hclear, hupdates⟩ := reflash_from_anywhere (boot (fun _ => 0xFF) bootMagicGoApp)
    (.reset fun _ => 0) (.powerLoss (fun _ => 0) true) (steps 7 false) (steps 7 false) rfl rfl
    ⟨by decide, by decide⟩ ⟨by decide, by decide⟩ (by simp [steps, WritesNoMagic]) (by decide)
  obtain ⟨hhonours, hboots⟩ := hupdates [0x08100000] [[0, 0, 2, 0x20, 9, 0, 0x10, 8]] eightBytes
    (hclear (by simp [steps])) ⟨by decide, by decide⟩ hregion (by decide) (by decide) hcover
    performs_eightBytes
  exact ⟨husb, hhonours, hboots (.reset fun _ => 0) 11 rfl (Nat.le_refl _)⟩

end EightBytes

end Cs7000pBootloader.Boot
