import Cs7000pBootloader.Dfu.Device
import Mathlib.Data.List.Induction

/-!
The debug pin.  With `DEBUG_MEASURE` the driver raises `PHONE_TXD` when it takes a write and lowers it
when it is done, so that the length of a write can be measured on the pin.  A mount resets the driver
without lowering the pin; that is the one way in which the pin and the driver can disagree.
-/

namespace Cs7000pBootloader.Dfu

open Flash Cs7000pBootloader.Lib

/-! ### The specification -/

/-- The level of the pin after a bus access. -/
def pinStep (level : Bool) : Bus → Bool
  | .phoneTxd l => l
  | _ => level

/-- The level of the pin after what went over the bus. -/
def pinAfter (level : Bool) (tr : List Bus) : Bool := tr.foldl pinStep level

/-- A write is pending or running. -/
def Writing (d : Device) : Prop := d.fw.flash.ctx.state.isWrite = true

/-- A poll of the main loop ends a write. -/
def Finishes (d : Device) : Event → Prop
  | .process r => Writing d ∧ (flashProcess r d.fw.flash).1.ctx.state = .idle
  | _ => False

/-- A mount came upon a write, and no write has ended since. -/
def CutShort (d : Device) (es : List Event) : Prop :=
  ∃ pre post, es = pre ++ .mount :: post ∧ Writing (run step d pre).1 ∧
    Along step (fun d e => ¬ Finishes d e) (step (run step d pre).1 .mount).1 post

instance (d : Device) : Decidable (Writing d) := by unfold Writing; infer_instance

instance (d : Device) (e : Event) : Decidable (Finishes d e) := by
  cases e <;> unfold Finishes <;> infer_instance

/-! ### The driver -/

section Driver

variable {r : ℕ → Sr2} {d : FlashDev} {a b : List Bus}

/-- The accesses leave the pin alone. -/
def PinFree (tr : List Bus) : Prop := ∀ v, .phoneTxd v ∉ tr

lemma PinFree.append (ha : PinFree a) (hb : PinFree b) : PinFree (a ++ b) := by
  intro v hv
  rcases List.mem_append.mp hv with hv | hv
  · exact ha v hv
  · exact hb v hv

lemma PinFree.after (h : PinFree a) (l : Bool) : pinAfter l a = l := by
  induction a with
  | nil => rfl
  | cons x a ih =>
    have hx : pinStep l x = l := by
      cases x with
      | phoneTxd v => exact absurd List.mem_cons_self (h v)
      | _ => rfl
    rw [pinAfter, List.foldl_cons, hx]
    exact ih fun v hv => h v (List.mem_cons_of_mem _ hv)

lemma pinAfter_append (l : Bool) (a b : List Bus) :
    pinAfter l (a ++ b) = pinAfter (pinAfter l a) b := List.foldl_append

lemma flashOpComplete_pinFree (r : ℕ → Sr2) : PinFree (flashOpComplete r).2 := by
  intro v
  unfold flashOpComplete
  split_ifs <;> simp

lemma burstStores_pinFree (c : FlashCtx) : PinFree (burstStores c) := by
  simp [PinFree, burstStores]

lemma tailStores_pinFree (c : FlashCtx) (n : ℕ) : PinFree (tailStores c n) := by
  simp [PinFree, tailStores]

lemma flashWriteBusy_pin (r : ℕ → Sr2) (d : FlashDev) :
    (flashWriteBusy r d).1.ctx.state = .idle ∧ (∀ l, pinAfter l (flashWriteBusy r d).2 = false) ∨
      (flashWriteBusy r d).1.ctx.state = d.ctx.state ∧ PinFree (flashWriteBusy r d).2 := by
  have hq := flashOpComplete_pinFree r
  have hread : PinFree [.sr2 (r 2)] := by simp [PinFree]
  unfold flashWriteBusy
  by_cases hc : (flashOpComplete r).1 = true
  · simp only [hc, not_true_eq_false, ↓reduceIte]
    split_ifs with ho h32 hw hd
    · exact .inr ⟨rfl, hq.append (burstStores_pinFree _)⟩
    · exact .inr ⟨rfl, hq.append (tailStores_pinFree _ _)⟩
    · exact .inr ⟨rfl, hq.append (by simp [PinFree])⟩
    · refine .inl ⟨rfl, fun l => ?_⟩
      rw [pinAfter_append]
      rfl
    · exact .inr ⟨rfl, hq.append (hread.append (flashOpComplete_pinFree _))⟩
  · simp only [hc]
    exact .inr ⟨rfl, hq⟩

/-- **A poll** lowers the pin when it ends a write, and leaves it alone otherwise. -/
lemma flashProcess_pin (r : ℕ → Sr2) (d : FlashDev) :
    (d.ctx.state.isWrite = true ∧ (flashProcess r d).1.ctx.state = .idle ∧
        ∀ l, pinAfter l (flashProcess r d).2 = false) ∨
      ¬ (d.ctx.state.isWrite = true ∧ (flashProcess r d).1.ctx.state = .idle) ∧
        PinFree (flashProcess r d).2 := by
  have hq := flashOpComplete_pinFree r
  unfold flashProcess
  cases hs : d.ctx.state with
  | idle => exact .inr ⟨by simp [FlashOpState.isWrite], by simp [PinFree]⟩
  | erasePending =>
    refine .inr ⟨by simp [FlashOpState.isWrite], ?_⟩
    by_cases hc : (flashOpComplete r).1 = true
    · simp only [hc, not_true_eq_false, ↓reduceIte]
      exact hq.append (by simp [PinFree])
    · simp only [hc]
      exact hq
  | eraseBusy =>
    refine .inr ⟨by simp [FlashOpState.isWrite], ?_⟩
    by_cases hc : (flashOpComplete r).1 = true
    · simp only [hc, ↓reduceIte]
      exact hq.append (by simp [PinFree])
    · simp only [hc]
      exact hq
  | writePending =>
    by_cases hc : (flashOpComplete r).1 = true
    · simp only [hc, not_true_eq_false, ↓reduceIte]
      have hset : PinFree ((flashOpComplete r).2 ++ [.cr2 { d.cr2 with psize := 3 },
          .cr2 { d.cr2 with psize := 3, pg := true }]) := hq.append (by simp [PinFree])
      rcases flashWriteBusy_pin (fun n => r (n + 2)) { ctx := { d.ctx with state := .writeBusy }
                                                       cr2 := { d.cr2 with psize := 3, pg := true } }
        with ⟨hi, hp⟩ | ⟨hi, hp⟩
      · exact .inl ⟨rfl, hi, fun l => by rw [pinAfter_append, hp]⟩
      · refine .inr ⟨fun hn => ?_, hset.append hp⟩
        cases hi.symm.trans hn.2
    · simp only [hc]
      refine .inr ⟨fun hn => ?_, hq⟩
      cases hs.symm.trans hn.2
  | writeBusy =>
    rcases flashWriteBusy_pin r d with ⟨hi, hp⟩ | ⟨hi, hp⟩
    · exact .inl ⟨rfl, hi, hp⟩
    · refine .inr ⟨fun hn => ?_, hp⟩
      cases (hi.trans hs).symm.trans hn.2

end Driver

/-! ### One event -/

section Step

variable {d : Device} {e : Event}

/-- **One event** and the pin: it goes low when a write ends, high when one is taken, and else it is
left alone. -/
inductive PinMove (d : Device) (e : Event) (d' : Device) (tr : List Bus) : Prop
  | ends : Finishes d e → ¬ Writing d' → (∀ l, pinAfter l tr = false) → PinMove d e d' tr
  | starts : ¬ Writing d → Writing d' → e ≠ .mount → (∀ l, pinAfter l tr = true) → PinMove d e d' tr
  | mounts : e = .mount → ¬ Writing d' → (∀ l, pinAfter l tr = l) → PinMove d e d' tr
  | stays : e ≠ .mount → ¬ Finishes d e → (Writing d' ↔ Writing d) → (∀ l, pinAfter l tr = l) →
      PinMove d e d' tr

lemma not_writing_of_idle {d : Device} (h : d.fw.flash.ctx.state = .idle) : ¬ Writing d := by
  unfold Writing
  rw [h]
  decide

theorem step_pinMove (d : Device) (e : Event) : PinMove d e (step d e).1 (step d e).2 := by
  cases e with
  | mount =>
    refine .mounts rfl (not_writing_of_idle (flashInit_state d.fw.flash)) (PinFree.after ?_)
    simp only [step, tudMountCb, flashInit]
    split_ifs <;> simp [PinFree]
  | process r =>
    rcases flashProcess_pin r d.fw.flash with ⟨hw, hi, hp⟩ | ⟨hn, hp⟩
    · exact .ends ⟨hw, hi⟩ (not_writing_of_idle hi) hp
    · refine .stays (by simp) hn ⟨fun h => ?_, fun h => ?_⟩ hp.after
      · exact isWrite_of_move (flashProcess_move r d.fw.flash) h
      · exact ((flashProcess_move r d.fw.flash).isWrite h).resolve_right fun hi => hn ⟨h, hi⟩
  | getStatus resp next =>
    have hans := d.answered resp
    simp only [step]
    generalize d.poll resp = out at hans
    cases hans with
    | eraseStarted _ _ _ hi =>
      refine .stays (by simp) id ⟨fun h => ?_, fun h => ?_⟩ (PinFree.after (by simp [PinFree]))
      · cases h
      · exact absurd h (not_writing_of_idle hi)
    | writeStarted _ _ _ _ hi =>
      exact .starts (not_writing_of_idle hi) rfl (by simp) fun _ => rfl
    | _ => exact .stays (by simp) id Iff.rfl (PinFree.after (by simp [PinFree]))
  | upload b n mem =>
    obtain ⟨f, hf⟩ := step_upload d b n mem
    refine .stays (by simp) id (by rw [hf]; exact Iff.rfl) (PinFree.after ?_)
    simp only [step, tudDfuUploadCb]
    split_ifs <;> simp [PinFree]
  | dnload x =>
    refine .stays (by simp) id ?_ (PinFree.after (by simp [PinFree, step]))
    simp only [step]
    split_ifs <;> exact Iff.rfl
  | abort | clrStatus => exact .stays (by simp) id Iff.rfl (PinFree.after (by simp [PinFree, step]))

end Step

/-! ### Runs -/

lemma cutShort_concat (d : Device) (es : List Event) (e : Event) :
    CutShort d (es ++ [e]) ↔ e = .mount ∧ Writing (run step d es).1 ∨
      CutShort d es ∧ ¬ Finishes (run step d es).1 e := by
  constructor
  · rintro ⟨pre, post, he, hw, hpost⟩
    rcases List.eq_nil_or_concat post with rfl | ⟨post, e', rfl⟩
    · obtain ⟨rfl, h⟩ := List.append_inj' he rfl
      obtain rfl : e = .mount := by simpa using h
      exact .inl ⟨rfl, hw⟩
    · rw [List.concat_eq_append, ← List.cons_append, ← List.append_assoc] at he
      obtain ⟨rfl, h⟩ := List.append_inj' he rfl
      obtain rfl : e = e' := by simpa using h
      rw [List.concat_eq_append] at hpost
      obtain ⟨hpost, hlast⟩ := along_append.mp hpost
      refine .inr ⟨⟨pre, post, rfl, hw, hpost⟩, ?_⟩
      rw [run_append, run_cons]
      exact hlast.1
  · rintro (⟨rfl, hw⟩ | ⟨⟨pre, post, rfl, hw, hpost⟩, hf⟩)
    · exact ⟨es, [], rfl, hw, trivial⟩
    · refine ⟨pre, post ++ [e], by simp, hw, along_append.mpr ⟨hpost, ?_, trivial⟩⟩
      rw [run_append, run_cons] at hf
      exact hf

/-- The level of the pin after a run from a device that is not writing, with the pin low. -/
lemma pin_high_iff {d : Device} (h : ¬ Writing d) (es : List Event) :
    pinAfter false (run step d es).2 = true ↔ Writing (run step d es).1 ∨ CutShort d es := by
  induction es using List.reverseRecOn with
  | nil =>
    refine iff_of_false Bool.false_ne_true ?_
    rintro (hw | ⟨pre, post, he, -⟩)
    · exact h hw
    · simp at he
  | append_singleton es e ih =>
    rw [cutShort_concat, run_append, run_cons, run_nil, List.append_nil, pinAfter_append]
    cases step_pinMove (run step d es).1 e with
    | ends hf hw hp =>
      rw [hp]
      have hm : e ≠ .mount := by
        rintro rfl
        exact hf
      simp [hw, hf, hm]
    | starts hn hw _ hp =>
      rw [hp]
      simp [hw]
    | mounts he hw hp =>
      rw [hp, ih]
      subst he
      simp [hw, Finishes]
    | stays hm hf hw hp =>
      rw [hp, ih]
      simp [hw, hm, hf]

/-- **The pin shows the write.** From a device that is not writing, with the pin low, after any run
the pin is high exactly when a write is under way, or a mount came upon one and none has ended
since. -/
theorem pin_shows_write (d : Device) (h : ¬ Writing d) (es : List Event) :
    pinAfter false (run step d es).2 = true ↔ Writing (run step d es).1 ∨ CutShort d es :=
  pin_high_iff h es

/-- A write that a mount came upon. -/
def remounted : List Event :=
  [.mount, .dnload ⟨2, [0xAA], [], Nat.le_add_left 1 1023⟩, askStatus, .mount]

theorem pin_shows_write_remounted :
    pinAfter false (run step powerOn remounted).2 = true ↔
      Writing (run step powerOn remounted).1 ∨ CutShort powerOn remounted :=
  pin_shows_write powerOn (by decide) remounted

end Cs7000pBootloader.Dfu
