import Cs7000pBootloader.Boot.Machine

/-!
The one-shot hand-off.  A boot that reads the button as released leaves the magic in `BKP0R` and
resets; the next boot finds it, clears it and jumps.  The flag is cleared before the jump, so a
start of the application uses up one released reading, whatever resets and power losses come in
between; and a button that is held leads to the USB loop, after one more start at most.
-/

namespace Cs7000pBootloader.Boot

open Flash Dfu Cs7000pBootloader.Lib

/-! ### The specification -/

def Action.isJump : Action → Bool
  | .branch _ => true
  | _ => false

def Action.isReleased : Action → Bool
  | .readButton released => released
  | _ => false

/-- How often a trace jumps to the application. -/
def jumps (tr : List Action) : ℕ := tr.countP Action.isJump

/-- How often a trace reads the button as released. -/
def releases (tr : List Action) : ℕ := tr.countP Action.isReleased

/-- The event is not the application writing the magic. -/
def WritesNoMagic : BootEvent → Prop
  | .app _ bkp => bkp ≠ bootMagicGoApp
  | _ => True

/-- The step jumps to the application. -/
def JumpsAt (s : Machine) (e : BootEvent) : Prop := 0 < jumps (bootStep s e).2

/-- A step that jumps does so over a cleared register. -/
def JumpsCleared (s : Machine) (e : BootEvent) : Prop := JumpsAt s e → s.bkp0r = 0

/-- A reset or a power loss. -/
def BootEvent.cutsOff : BootEvent → Bool
  | .reset _ | .powerLoss _ _ => true
  | _ => false

def BootEvent.isRun : BootEvent → Bool
  | .run _ => true
  | _ => false

/-- The steps of the longest boot, from the start to the jump. -/
def bootLength : ℕ := 7

/-- Enough for a boot to run to completion: nothing cuts it off, and it takes all its steps. -/
def Completes (q : List BootEvent) : Prop :=
  (∀ e ∈ q, e.cutsOff = false) ∧ bootLength ≤ q.countP BootEvent.isRun

/-- **What is asked of a run** from a boot. -/
structure HandsOff (s : Machine) (es : List BootEvent) : Prop where
  /-- at each jump the register is clear -/
  cleared : Along bootStep JumpsCleared s es
  /-- between two jumps the button was read as released -/
  between : ∀ pre e mid e' post, es = pre ++ e :: mid ++ e' :: post →
    JumpsAt (run bootStep s pre).1 e → JumpsAt (run bootStep s (pre ++ e :: mid)).1 e' →
    0 < releases (run bootStep (run bootStep s (pre ++ [e])).1 mid).2
  /-- the jumps are no more than the released readings, plus one -/
  count : jumps (run bootStep s es).2 ≤ releases (run bootStep s es).2 + 1
  /-- once the button is held there is one more jump at most; and a boot that runs to completion
  enters the USB loop, or is the first to jump -/
  recovers : ∀ pre post, es = pre ++ post →
    releases (run bootStep (run bootStep s pre).1 post).2 = 0 →
    jumps (run bootStep (run bootStep s pre).1 post).2 ≤ 1 ∧
    ∀ p q r, post = p ++ q ++ r → (run bootStep s (pre ++ p)).1.phase = .start → Completes q →
      (run bootStep s (pre ++ p ++ q)).1.phase = .usbLoop ∨
        (run bootStep s (pre ++ p ++ q)).1.phase = .app ∧
          jumps (run bootStep (run bootStep s pre).1 p).2 = 0

/-! ### The steps of a boot -/

/-- The phases from the cleared register to the jump. -/
def Phase.isCleared : Phase → Bool
  | .readVectors | .quiesce _ _ | .setVtor _ _ | .setMsp _ _ | .branch _ => true
  | _ => false

/-- The steps a boot still takes, when the button is held. -/
def Phase.stepsLeft : Phase → ℕ
  | .start => 7
  | .clearFlag => 6
  | .readVectors => 5
  | .quiesce _ _ => 4
  | .setVtor _ _ => 3
  | .setMsp _ _ => 2
  | .branch _ | .sampleButton => 1
  | .app | .usbLoop | .setFlag | .systemReset => 0

/-- **What an event can do** to the phase and the register, with its jumps and its released
readings. -/
inductive Moved (s : Machine) (e : BootEvent) (s' : Machine) : ℕ → ℕ → Prop
  | stays : (e.isRun = true → s.phase = .app ∨ s.phase = .usbLoop) → s'.phase = s.phase →
      s'.bkp0r = s.bkp0r → Moved s e s' 0 0
  | boots : e.cutsOff = true ∨ s.phase = .systemReset → s'.phase = .start →
      s'.bkp0r = s.bkp0r ∨ s'.bkp0r = 0 → Moved s e s' 0 0
  | appLeaves : s.phase = .app → s'.phase = .app →
      (WritesNoMagic e → s'.bkp0r ≠ bootMagicGoApp) → Moved s e s' 0 0
  | findsMagic : s.phase = .start → s.bkp0r = bootMagicGoApp → s'.phase = .clearFlag →
      s'.bkp0r = s.bkp0r → Moved s e s' 0 0
  | findsNone : s.phase = .start → s.bkp0r ≠ bootMagicGoApp → s'.phase = .sampleButton →
      s'.bkp0r = s.bkp0r → Moved s e s' 0 0
  | clears : s.phase = .clearFlag → s'.phase = .readVectors → s'.bkp0r = 0 → Moved s e s' 0 0
  | prepares : s.phase.isCleared = true → s'.phase.isCleared = true →
      s'.phase.stepsLeft + 1 = s.phase.stepsLeft → s'.bkp0r = s.bkp0r → Moved s e s' 0 0
  | jumps : s.phase.isCleared = true → s.phase.stepsLeft = 1 → s'.phase = .app →
      s'.bkp0r = s.bkp0r → Moved s e s' 1 0
  | released : s.phase = .sampleButton → s'.phase = .setFlag → s'.bkp0r = s.bkp0r →
      Moved s e s' 0 1
  | held : s.phase = .sampleButton → s'.phase = .usbLoop → s'.bkp0r = s.bkp0r → Moved s e s' 0 0
  | sets : s.phase = .setFlag → s'.phase = .systemReset → s'.bkp0r = bootMagicGoApp →
      Moved s e s' 0 0

lemma jumps_bus (bs : List Bus) :
    jumps (bs.map .bus) = 0 ∧ jumps (.readButton false :: bs.map .bus) = 0 := by
  have h : ∀ a ∈ bs.map Action.bus, ¬ a.isJump = true := by simp [Action.isJump]
  exact ⟨List.countP_eq_zero.mpr h,
    List.countP_eq_zero.mpr (List.forall_mem_cons.mpr ⟨Bool.false_ne_true, h⟩)⟩

lemma releases_bus (bs : List Bus) :
    releases (bs.map .bus) = 0 ∧ releases (.readButton false :: bs.map .bus) = 0 := by
  have h : ∀ a ∈ bs.map Action.bus, ¬ a.isReleased = true := by simp [Action.isReleased]
  exact ⟨List.countP_eq_zero.mpr h,
    List.countP_eq_zero.mpr (List.forall_mem_cons.mpr ⟨Bool.false_ne_true, h⟩)⟩

lemma runStep_moved (s : Machine) (released : Bool) :
    Moved s (.run released) (runStep s released).1 (jumps (runStep s released).2)
      (releases (runStep s released).2) := by
  unfold runStep
  cases hph : s.phase with
  | start =>
    by_cases hm : s.bkp0r = bootMagicGoApp
    · exact .findsMagic hph hm (if_pos hm) rfl
    · exact .findsNone hph hm (if_neg hm) rfl
  | clearFlag => exact .clears hph rfl rfl
  | readVectors | quiesce | setVtor | setMsp =>
    exact .prepares (by rw [hph]; rfl) rfl (by rw [hph]; rfl) rfl
  | branch => exact .jumps (by rw [hph]; rfl) (by rw [hph]; rfl) rfl rfl
  | app => exact .stays (fun _ => .inl hph) rfl rfl
  | usbLoop => exact .stays (fun _ => .inr hph) rfl rfl
  | setFlag => exact .sets hph rfl rfl
  | systemReset => exact .boots (.inr hph) rfl (.inl rfl)
  | sampleButton =>
    cases released with
    | true => exact .released hph rfl rfl
    | false =>
      rw [if_neg Bool.false_ne_true, (jumps_bus _).2, (releases_bus _).2]
      exact .held hph rfl rfl

theorem bootStep_moved (s : Machine) (e : BootEvent) :
    Moved s e (bootStep s e).1 (jumps (bootStep s e).2) (releases (bootStep s e).2) := by
  cases e with
  | run released => exact runStep_moved s released
  | usb e =>
    by_cases hu : s.phase = .usbLoop
    · have he : bootStep s (.usb e) = (_, _) := if_pos hu
      rw [he, (jumps_bus _).1, (releases_bus _).1]
      exact .stays (fun _ => .inr hu) rfl rfl
    · have he : bootStep s (.usb e) = (s, []) := if_neg hu
      rw [he]
      exact .stays (fun hc => absurd hc Bool.false_ne_true) rfl rfl
  | reset left => exact .boots (.inl rfl) rfl (.inl rfl)
  | powerLoss left kept =>
    refine .boots (.inl rfl) rfl ?_
    cases kept
    · exact .inr rfl
    · exact .inl rfl
  | app mem bkp =>
    by_cases ha : s.phase = .app
    · have he : bootStep s (.app mem bkp) = (_, _) := if_pos ha
      rw [he]
      exact .appLeaves ha ha fun hb => hb
    · have he : bootStep s (.app mem bkp) = (s, []) := if_neg ha
      rw [he]
      exact .stays (fun hc => absurd hc Bool.false_ne_true) rfl rfl

/-! ### What is due -/

/-- On the way to the jump the register is clear. -/
def Cleared (s : Machine) : Prop := s.phase.isCleared = true → s.bkp0r = 0

/-- The phases in which a jump is due, whatever the register holds. -/
def Phase.isDue : Phase → Bool
  | .setFlag | .systemReset | .clearFlag => true
  | p => p.isCleared

/-- A jump is due. -/
def Due (s : Machine) : Prop := s.bkp0r = bootMagicGoApp ∨ s.phase.isDue = true

instance (s : Machine) : Decidable (Due s) := by unfold Due; infer_instance

/-- The number of jumps that are due. -/
def credit (s : Machine) : ℕ := if Due s then 1 else 0

section Credit

variable {s s' : Machine} {e : BootEvent} {j r : ℕ}

lemma Phase.isDue_of_isCleared {p : Phase} (h : p.isCleared = true) : p.isDue = true := by
  cases p <;> first | rfl | cases h

lemma credit_le (s : Machine) : credit s ≤ 1 := by
  unfold credit
  split_ifs <;> omega

lemma credit_due (h : Due s) : credit s = 1 := if_pos h

lemma credit_not_due (h : ¬ Due s) : credit s = 0 := if_neg h

lemma credit_mono (h : Due s' → Due s) : credit s' ≤ credit s := by
  by_cases hd : Due s'
  · rw [credit_due (h hd)]
    exact credit_le s'
  · rw [credit_not_due hd]
    exact Nat.zero_le _

lemma Cleared.moved (h : Cleared s) (hm : Moved s e s' j r) : Cleared s' := by
  intro hc
  cases hm with
  | stays _ hp hb =>
    rw [hp] at hc
    rw [hb]
    exact h hc
  | prepares hp _ _ hb =>
    rw [hb]
    exact h hp
  | clears _ _ hb => exact hb
  | boots _ hp | appLeaves _ hp | findsMagic _ _ hp | findsNone _ _ hp =>
    rw [hp] at hc
    cases hc
  | jumps _ _ hp | released _ hp | held _ hp | sets _ hp =>
    rw [hp] at hc
    cases hc

lemma Moved.jumped (hm : Moved s e s' j r) (hc : Cleared s) (hj : 0 < j) :
    s.bkp0r = 0 ∧ credit s = 1 ∧ credit s' = 0 ∧ r = 0 := by
  cases hm with
  | jumps hp _ hp' hb =>
    have hz := hc hp
    refine ⟨hz, credit_due (.inr (Phase.isDue_of_isCleared hp)), credit_not_due ?_, rfl⟩
    rintro (hd | hd)
    · rw [hb, hz] at hd
      exact absurd hd (by decide)
    · rw [hp'] at hd
      cases hd
  | _ => exact absurd hj (Nat.lt_irrefl 0)

/-- The register alone makes a jump due in a phase in which none is. -/
lemma Due.bkp (h : Due s) (hp : s.phase.isDue = false) : s.bkp0r = bootMagicGoApp := by
  refine h.resolve_right fun hd => ?_
  rw [hp] at hd
  cases hd

/-- **Every step pays for its jump**, with a released reading or with the jump that is due. -/
theorem Moved.pays (hm : Moved s e s' j r) (hc : Cleared s) (he : WritesNoMagic e) :
    j + credit s' ≤ r + credit s := by
  have hle := credit_le s'
  have hdue : Due s → 0 + credit s' ≤ 0 + credit s := fun hd => by
    rw [credit_due hd]
    omega
  have hmono : (Due s' → Due s) → 0 + credit s' ≤ 0 + credit s := fun h =>
    Nat.add_le_add_left (credit_mono h) 0
  cases hm with
  | jumps hp h1 hp' hb =>
    have hm : Moved s e s' 1 0 := .jumps hp h1 hp' hb
    obtain ⟨-, hone, hnone, -⟩ := hm.jumped hc Nat.one_pos
    omega
  | released => omega
  | findsMagic _ hb => exact hdue (.inl hb)
  | clears hp | sets hp => exact hdue (.inr (by rw [hp]; rfl))
  | prepares hp => exact hdue (.inr (Phase.isDue_of_isCleared hp))
  | appLeaves _ hp hb => exact hmono fun hd => absurd (hd.bkp (by rw [hp]; rfl)) (hb he)
  | stays _ hp hb =>
    apply hmono
    unfold Due
    rw [hp, hb]
    exact id
  | boots _ hp hb =>
    apply hmono
    intro hd
    have hmagic := hd.bkp (by rw [hp]; rfl)
    rcases hb with hb | hb
    · exact .inl (hb.symm.trans hmagic)
    · exact absurd (hb.symm.trans hmagic) (by decide)
  | findsNone _ hn hp hb =>
    apply hmono
    intro hd
    exact absurd (hb.symm.trans (hd.bkp (by rw [hp]; rfl))) hn
  | held _ hp hb =>
    apply hmono
    intro hd
    exact .inl (hb.symm.trans (hd.bkp (by rw [hp]; rfl)))

end Credit

/-! ### Boots that run to completion -/

section Completion

variable {s s' : Machine} {e : BootEvent} {j r : ℕ}

/-- No boot with a released button is under way. -/
def Held (s : Machine) : Prop := s.phase ≠ .setFlag ∧ s.phase ≠ .systemReset

/-- Held down and not cut off, a boot gets on with every step. -/
lemma Moved.countdown (hm : Moved s e s' j r) (hh : Held s) (he : e.cutsOff = false) (hr : r = 0) :
    Held s' ∧ s'.phase.stepsLeft ≤ s.phase.stepsLeft - if e.isRun then 1 else 0 := by
  have hone : ∀ n, n - 1 ≤ n - if e.isRun then 1 else 0 := fun n => by split_ifs <;> omega
  cases hm with
  | stays hrun hp =>
    unfold Held
    rw [hp]
    refine ⟨hh, ?_⟩
    split_ifs with hc
    · rcases hrun hc with h | h <;> rw [h] <;> exact Nat.le_refl 0
    · exact Nat.le_refl _
  | boots hb =>
    rcases hb with hb | hb
    · rw [he] at hb
      cases hb
    · exact absurd hb hh.2
  | released => cases hr
  | sets hp => exact absurd hp hh.1
  | prepares _ hp hs =>
    refine ⟨⟨fun hc => ?_, fun hc => ?_⟩, ?_⟩
    · rw [hc] at hp
      cases hp
    · rw [hc] at hp
      cases hp
    · have h1 := hone s.phase.stepsLeft
      omega
  | appLeaves _ hp | jumps _ _ hp | held _ hp =>
    unfold Held
    rw [hp]
    exact ⟨by decide, Nat.zero_le _⟩
  | findsMagic hs _ hp | findsNone hs _ hp | clears hs hp =>
    unfold Held
    rw [hp, hs]
    exact ⟨by simp, Nat.le_trans (by decide) (hone _)⟩

lemma Held.ended (h : Held s) (hz : s.phase.stepsLeft = 0) : s.phase = .usbLoop ∨ s.phase = .app := by
  obtain ⟨hset, hreset⟩ := h
  cases hp : s.phase with
  | usbLoop => exact .inl rfl
  | app => exact .inr rfl
  | setFlag => exact absurd hp hset
  | systemReset => exact absurd hp hreset
  | _ =>
    rw [hp] at hz
    cases hz

lemma Moved.app (hm : Moved s e s' j r) (hs : s.phase ≠ .app) (hj : j = 0) : s'.phase ≠ .app := by
  intro hc
  cases hm with
  | jumps => cases hj
  | stays _ hp => exact hs (hp.symm.trans hc)
  | appLeaves ha => exact hs ha
  | prepares _ hp =>
    rw [hc] at hp
    cases hp
  | boots _ hp | released _ hp | held _ hp | sets _ hp | clears _ hp => cases hp.symm.trans hc
  | findsMagic _ _ hp | findsNone _ _ hp => cases hp.symm.trans hc

end Completion

/-! ### Runs -/

section Runs

variable {s : Machine} {es : List BootEvent}

lemma cleared_run (h : Cleared s) (es : List BootEvent) : Cleared (run bootStep s es).1 :=
  run_inv_all (fun s e h => h.moved (bootStep_moved s e)) h es

/-- **A run pays for its jumps**, with released readings and with the jump due at its start. -/
theorem run_pays (h : Cleared s) (hes : ∀ e ∈ es, WritesNoMagic e) :
    jumps (run bootStep s es).2 + credit (run bootStep s es).1 ≤
      releases (run bootStep s es).2 + credit s :=
  run_credit (I := Cleared) (fun s e h _ => h.moved (bootStep_moved s e))
    (fun s e h he => (bootStep_moved s e).pays h he) h (along_of_mem hes s)

lemma completes_phase (hs : s.phase = .start) (hq : Completes es)
    (hr : releases (run bootStep s es).2 = 0) :
    (run bootStep s es).1.phase = .usbLoop ∨ (run bootStep s es).1.phase = .app := by
  have hG : Along bootStep (fun s e => e.cutsOff = false ∧ releases (bootStep s e).2 = 0) s es :=
    along_iff_split.mpr fun pre e post he => ⟨hq.1 e (by rw [he]; simp),
      along_iff_split.mp (along_countP_eq_zero hr) pre e post he⟩
  have h0 : Held s := by
    unfold Held
    rw [hs]
    exact ⟨by decide, by decide⟩
  have hheld : Held (run bootStep s es).1 :=
    run_inv (fun s e h hg => ((bootStep_moved s e).countdown h hg.1 hg.2).1) h0 hG
  have hleft := run_countdown (fun s : Machine => s.phase.stepsLeft)
    (fun s e h hg => ((bootStep_moved s e).countdown h hg.1 hg.2).1)
    (fun s e h hg => ((bootStep_moved s e).countdown h hg.1 hg.2).2) h0 hG
  have hruns : 7 ≤ es.countP BootEvent.isRun := hq.2
  have h7 : s.phase.stepsLeft = 7 := by rw [hs]; rfl
  have hzero : (run bootStep s es).1.phase.stepsLeft = 0 := by omega
  exact hheld.ended hzero

lemma completes_app (hs : s.phase = .start) (hj : jumps (run bootStep s es).2 = 0) :
    (run bootStep s es).1.phase ≠ .app :=
  run_inv (I := fun s => s.phase ≠ .app) (fun s e h hg => (bootStep_moved s e).app h hg)
    (by rw [hs]; decide) (along_countP_eq_zero hj)

end Runs

/-! ### The hand-off -/

section HandOff

variable {s : Machine} {es : List BootEvent}

lemma jumpsCleared (h : Cleared s) (e : BootEvent) : JumpsCleared s e := fun hj =>
  ((bootStep_moved s e).jumped h hj).1

lemma released_between (h : Cleared s) {e e' : BootEvent} {mid : List BootEvent}
    (hmid : ∀ x ∈ mid, WritesNoMagic x) (he : JumpsAt s e)
    (he' : JumpsAt (run bootStep (bootStep s e).1 mid).1 e') :
    0 < releases (run bootStep (bootStep s e).1 mid).2 := by
  have hafter := h.moved (bootStep_moved s e)
  obtain ⟨-, -, hnone, -⟩ := (bootStep_moved s e).jumped h he
  obtain ⟨-, hone, -, -⟩ := (bootStep_moved _ e').jumped (cleared_run hafter mid) he'
  have hpays := run_pays hafter hmid
  omega

lemma boot_ends (h : Cleared s) (hes : ∀ e ∈ es, WritesNoMagic e)
    (hr : releases (run bootStep s es).2 = 0) {p q r : List BootEvent} (hsplit : es = p ++ q ++ r)
    (hstart : (run bootStep s p).1.phase = .start) (hq : Completes q) :
    (run bootStep s (p ++ q)).1.phase = .usbLoop ∨
      (run bootStep s (p ++ q)).1.phase = .app ∧ jumps (run bootStep s p).2 = 0 := by
  subst hsplit
  have hpays := run_pays h hes
  have hle := credit_le s
  rw [run_append, run_append] at hr hpays
  simp only [jumps, releases, List.countP_append] at hr hpays
  have hrq : releases (run bootStep (run bootStep s p).1 q).2 = 0 := by
    unfold releases
    omega
  rw [run_append]
  rcases completes_phase hstart hq hrq with husb | happ
  · exact .inl husb
  · -- it jumped, and no more than one jump was due
    have hjq : (run bootStep (run bootStep s p).1 q).2.countP Action.isJump ≠ 0 := fun hc =>
      completes_app hstart hc happ
    refine .inr ⟨happ, ?_⟩
    unfold jumps
    omega

end HandOff

/-- **One-shot hand-off and recoverability.** From every initial memory and every initial value of
`BKP0R`, in every run in which the application does not write the magic. -/
theorem hands_off_once (mem : Addr → Byte) (bkp : BitVec 32) (es : List BootEvent)
    (hes : ∀ e ∈ es, WritesNoMagic e) : HandsOff (boot mem bkp) es := by
  have h0 : Cleared (boot mem bkp) := fun h => by cases h
  refine ⟨?_, ?_, ?_, ?_⟩
  · exact along_of_inv (I := Cleared) (G := fun _ _ => True)
      (fun s e h _ => h.moved (bootStep_moved s e)) (fun s e h _ => jumpsCleared h e) h0
      (along_of_forall (fun _ _ => trivial) _ es)
  · rintro pre e mid e' post rfl he he'
    have hmid : ∀ x ∈ mid, WritesNoMagic x := fun x hx => hes x (by simp [hx])
    have hcut : (run bootStep (boot mem bkp) (pre ++ [e])).1 =
        (bootStep (run bootStep (boot mem bkp) pre).1 e).1 := by rw [run_append]; rfl
    rw [run_append] at he'
    rw [hcut]
    exact released_between (cleared_run h0 pre) hmid he he'
  · have hpays := run_pays h0 hes
    have hle := credit_le (boot mem bkp)
    omega
  · rintro pre post rfl hr
    have hpre := cleared_run h0 pre
    have hpost : ∀ e ∈ post, WritesNoMagic e := fun e he => hes e (List.mem_append_right _ he)
    have hpays := run_pays hpre hpost
    have hle := credit_le (run bootStep (boot mem bkp) pre).1
    refine ⟨by omega, fun p q r hsplit hstart hq => ?_⟩
    rw [run_append] at hstart
    rw [List.append_assoc, run_append]
    exact boot_ends hpre hpost hr hsplit hstart hq

/-- A power loss just before the jump, a boot into the USB loop with the button held, and one with the
button released that is cut off after the magic is set. -/
theorem hands_off_once_cut : HandsOff (boot (fun _ => 0xFF) bootMagicGoApp)
    (List.replicate 6 (.run true) ++ [.powerLoss (fun _ => 0) true, .run false, .run false,
      .reset fun _ => 0, .run true, .run true, .run true, .reset fun _ => 0] ++
      List.replicate 7 (.run false) ++ [.app (fun _ => 0) 1]) :=
  hands_off_once _ _ _ (by simp [WritesNoMagic, bootMagicGoApp])

end Cs7000pBootloader.Boot
