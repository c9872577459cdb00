import Cs7000pBootloader.Boot.Machine

/-!
The application is started without a look at its vectors.  `jump_to_application` compares the stack
pointer and the reset vector with `0xFFFFFFFF` and goes on either way, so an erased application is
never started exactly as long as no boot that finds the magic in `BKP0R` finds an erased word.
-/

namespace Cs7000pBootloader.Boot

open Flash Dfu Cs7000pBootloader.Lib

/-! ### The specification -/

/-- Neither vector of the application reads `0xFFFFFFFF`. -/
def Programmed (mem : Addr → Byte) : Prop :=
  word mem appBaseAddr ≠ 0xFFFFFFFF ∧ word mem (appBaseAddr + 4) ≠ 0xFFFFFFFF

instance (mem : Addr → Byte) : Decidable (Programmed mem) := by unfold Programmed; infer_instance

/-- The actions that hand over to the application. -/
def Action.isHandOver : Action → Bool
  | .setVtor _ | .setMsp _ | .branch _ => true
  | _ => false

/-- **What is asked of a step**: it hands over only to an application that is programmed. -/
def HandsOverProgrammed (s : Machine) (e : BootEvent) : Prop :=
  ∀ a ∈ (bootStep s e).2, a.isHandOver = true → Programmed s.mem

/-- The step does not find the magic in `BKP0R` with an erased vector in flash. -/
def NoMagicOverErased (s : Machine) : BootEvent → Prop
  | .run _ => s.phase = .start → s.bkp0r = bootMagicGoApp → Programmed s.mem
  | _ => True

/-! ### The invariant -/

/-- The phases between the magic and the application. -/
def Phase.isHandOver : Phase → Bool
  | .clearFlag | .readVectors | .quiesce _ _ | .setVtor _ _ | .setMsp _ _ | .branch _ => true
  | _ => false

/-- On the way to the application, it is programmed. -/
def OnTheWay (s : Machine) : Prop := s.phase.isHandOver = true → Programmed s.mem

lemma onTheWay_step {s : Machine} {e : BootEvent} (h : OnTheWay s) (hG : NoMagicOverErased s e) :
    OnTheWay (bootStep s e).1 := by
  have hboot : ∀ mem bkp, OnTheWay (boot mem bkp) := fun mem bkp hp => by cases hp
  cases e with
  | run released =>
    simp only [bootStep, runStep]
    cases hph : s.phase with
    | start =>
      intro hp
      simp only at hp ⊢
      by_cases hm : s.bkp0r = bootMagicGoApp
      · exact hG hph hm
      · rw [if_neg hm] at hp
        cases hp
    | clearFlag | readVectors | quiesce | setVtor | setMsp =>
      intro _
      exact h (by rw [hph]; rfl)
    | branch => intro hp; cases hp
    | app | usbLoop =>
      intro hp
      rw [hph] at hp
      cases hp
    | sampleButton => cases released <;> exact fun hp => by cases hp
    | setFlag => intro hp; cases hp
    | systemReset => exact hboot _ _
  | usb e =>
    simp only [bootStep]
    split_ifs with hu
    · intro hp
      simp only [hu] at hp
      cases hp
    · exact h
  | reset left => exact hboot _ _
  | powerLoss left kept => exact hboot _ _
  | app mem bkp =>
    simp only [bootStep]
    split_ifs with ha
    · intro hp
      simp only [ha] at hp
      cases hp
    · exact h

lemma isHandOver_of_mem {s : Machine} {e : BootEvent} {a : Action} (ha : a ∈ (bootStep s e).2)
    (hh : a.isHandOver = true) : s.phase.isHandOver = true := by
  have hbus : ∀ bs : List Bus, a ∉ bs.map Action.bus := by
    intro bs hm
    obtain ⟨b, -, rfl⟩ := List.mem_map.mp hm
    cases hh
  cases e with
  | run released =>
    simp only [bootStep, runStep] at ha
    cases hph : s.phase with
    | clearFlag | readVectors | quiesce | setVtor | setMsp | branch => rfl
    | start | setFlag | systemReset =>
      simp only [hph, List.mem_singleton] at ha
      subst ha
      cases hh
    | app | usbLoop =>
      simp only [hph] at ha
      cases ha
    | sampleButton =>
      simp only [hph] at ha
      cases released with
      | true =>
        rw [if_pos rfl, List.mem_singleton] at ha
        subst ha
        cases hh
      | false =>
        rw [if_neg Bool.false_ne_true, List.mem_cons] at ha
        rcases ha with rfl | ha
        · cases hh
        · exact absurd ha (hbus _)
  | usb e =>
    simp only [bootStep] at ha
    split_ifs at ha
    · exact absurd ha (hbus _)
    · cases ha
  | reset left => cases ha
  | powerLoss left kept => cases ha
  | app mem bkp =>
    simp only [bootStep] at ha
    split_ifs at ha <;> cases ha

/-! ### Runs -/

lemma hands_over_of_magic {s : Machine} (hs : s.phase = .start) (hm : s.bkp0r = bootMagicGoApp)
    (b : Bool) (h : Along bootStep HandsOverProgrammed s (List.replicate 5 (.run b))) :
    Programmed s.mem := by
  obtain ⟨mem, bkp, dev, phase⟩ := s
  obtain rfl : phase = .start := hs
  obtain rfl : bkp = bootMagicGoApp := hm
  have h5 := h.2.2.2.2.1
  exact h5 (.setVtor appBaseAddr) (List.mem_singleton.mpr rfl) rfl

/-- **An erased application is never started** in a run in which every boot that finds the magic in
`BKP0R` finds both vectors programmed; and a run in which one does not can go on, from there, to a
start of an erased application. -/
theorem erased_never_started (mem : Addr → Byte) (bkp : BitVec 32) (es : List BootEvent) :
    (Along bootStep NoMagicOverErased (boot mem bkp) es →
      Along bootStep HandsOverProgrammed (boot mem bkp) es) ∧
    (¬ Along bootStep NoMagicOverErased (boot mem bkp) es →
      ∃ pre more, pre <+: es ∧
        ¬ Along bootStep HandsOverProgrammed (boot mem bkp) (pre ++ more)) := by
  constructor
  · intro hG
    have h0 : OnTheWay (boot mem bkp) := fun hp => by cases hp
    exact along_of_inv (I := OnTheWay) (fun _ _ => onTheWay_step)
      (fun s e h _ a ha hh => h (isHandOver_of_mem ha hh)) h0 hG
  · intro hG
    rw [along_iff_split] at hG
    simp only [not_forall] at hG
    obtain ⟨pre, e, post, rfl, hbad⟩ := hG
    cases e with
    | run b =>
      simp only [NoMagicOverErased, not_forall] at hbad
      obtain ⟨hs, hm, hp⟩ := hbad
      refine ⟨pre, List.replicate 5 (.run b), List.prefix_append _ _, fun hall => hp ?_⟩
      exact hands_over_of_magic hs hm b (along_append.mp hall).2
    | _ => exact absurd trivial hbad

/-- Erased flash and a released button: the bootloader sets the flag, resets, and hands over. -/
theorem erased_started : ¬ ∀ mem bkp es, Along bootStep HandsOverProgrammed (boot mem bkp) es := by
  intro h
  have hrun := h (fun _ => 0xFF) 0 (List.replicate 9 (.run true))
  have h9 := hrun.2.2.2.2.2.2.2.2.1 (.setVtor appBaseAddr) (by decide) rfl
  exact absurd h9 (by decide)

end Cs7000pBootloader.Boot
