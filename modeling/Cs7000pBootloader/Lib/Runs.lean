import Mathlib.Data.List.Basic
import Mathlib.Tactic.TypeStar

/-!
Runs of a deterministic machine that reads events and puts out a trace: the run of a list of
events, what holds along a run, and the rules that carry an invariant, a trace or an account of
outstanding work from one step to a whole run.
-/

namespace Cs7000pBootloader.Lib

section Runs

variable {σ ε ω : Type*} (step : σ → ε → σ × List ω)

/-- The state a run ends in, and everything it put out. -/
def run : σ → List ε → σ × List ω
  | s, [] => (s, [])
  | s, e :: es => ((run (step s e).1 es).1, (step s e).2 ++ (run (step s e).1 es).2)

@[simp] lemma run_nil (s : σ) : run step s [] = (s, []) := rfl

@[simp] lemma run_cons (s : σ) (e : ε) (es : List ε) :
    run step s (e :: es) =
      ((run step (step s e).1 es).1, (step s e).2 ++ (run step (step s e).1 es).2) := rfl

theorem run_append (s : σ) (es fs : List ε) :
    run step s (es ++ fs) =
      ((run step (run step s es).1 fs).1, (run step s es).2 ++ (run step (run step s es).1 fs).2) := by
  induction es generalizing s with
  | nil => rfl
  | cons e es ih => simp only [List.cons_append, run_cons, ih, List.append_assoc]

/-- What each step of a run puts out. -/
def outputs : σ → List ε → List (List ω)
  | _, [] => []
  | s, e :: es => (step s e).2 :: outputs (step s e).1 es

@[simp] lemma outputs_nil (s : σ) : outputs step s [] = [] := rfl

@[simp] lemma outputs_cons (s : σ) (e : ε) (es : List ε) :
    outputs step s (e :: es) = (step s e).2 :: outputs step (step s e).1 es := rfl

/-- `P` holds of the state and the event of every step of the run. -/
def Along (P : σ → ε → Prop) : σ → List ε → Prop
  | _, [] => True
  | s, e :: es => P s e ∧ Along P (step s e).1 es

instance decidableAlong (P : σ → ε → Prop) [∀ s e, Decidable (P s e)] :
    ∀ (s : σ) (es : List ε), Decidable (Along step P s es)
  | _, [] => isTrue trivial
  | s, e :: es => by
    haveI := decidableAlong P (step s e).1 es
    unfold Along
    infer_instance

variable {step}

@[simp] lemma along_nil (P : σ → ε → Prop) (s : σ) : Along step P s [] ↔ True := Iff.rfl

@[simp] lemma along_cons (P : σ → ε → Prop) (s : σ) (e : ε) (es : List ε) :
    Along step P s (e :: es) ↔ P s e ∧ Along step P (step s e).1 es := Iff.rfl

theorem along_append {P : σ → ε → Prop} {s : σ} {es fs : List ε} :
    Along step P s (es ++ fs) ↔ Along step P s es ∧ Along step P (run step s es).1 fs := by
  induction es generalizing s with
  | nil => simp
  | cons e es ih => simp only [List.cons_append, along_cons, ih, run_cons, and_assoc]

/-- What holds along a run holds at every step of it, and conversely. -/
theorem along_iff_split {P : σ → ε → Prop} {s : σ} {es : List ε} :
    Along step P s es ↔ ∀ pre e post, es = pre ++ e :: post → P (run step s pre).1 e := by
  constructor
  · rintro h pre e post rfl
    exact (along_append.mp h).2.1
  · intro h
    induction es generalizing s with
    | nil => trivial
    | cons e es ih =>
      refine ⟨h [] e es rfl, ih fun pre e' post hs => ?_⟩
      subst hs
      exact h (e :: pre) e' post rfl

theorem along_of_forall {P : σ → ε → Prop} (h : ∀ s e, P s e) (s : σ) (es : List ε) :
    Along step P s es :=
  along_iff_split.mpr fun _ _ _ _ => h _ _

theorem along_of_mem {P : ε → Prop} {es : List ε} (h : ∀ e ∈ es, P e) (s : σ) :
    Along step (fun _ e => P e) s es :=
  along_iff_split.mpr fun pre e post hs => h e (by rw [hs]; simp)

section Invariant

variable {I : σ → Prop} {G P : σ → ε → Prop}

/-- **Invariant rule.** What good steps keep holds at the end of a run of good steps. -/
theorem run_inv (hstep : ∀ s e, I s → G s e → I (step s e).1) {s : σ} {es : List ε} (hs : I s)
    (hG : Along step G s es) : I (run step s es).1 := by
  induction es generalizing s with
  | nil => exact hs
  | cons e es ih => exact ih (hstep s e hs hG.1) hG.2

/-- An invariant that every step keeps holds at the end of every run. -/
theorem run_inv_all (hstep : ∀ s e, I s → I (step s e).1) {s : σ} (hs : I s) (es : List ε) :
    I (run step s es).1 :=
  run_inv (G := fun _ _ => True) (fun s e h _ => hstep s e h) hs (along_of_forall (by simp) s es)

/-- What good steps from the invariant have holds along a run of good steps. -/
theorem along_of_inv (hstep : ∀ s e, I s → G s e → I (step s e).1)
    (hP : ∀ s e, I s → G s e → P s e) {s : σ} {es : List ε} (hs : I s) (hG : Along step G s es) :
    Along step P s es := by
  induction es generalizing s with
  | nil => trivial
  | cons e es ih => exact ⟨hP s e hs hG.1, ih (hstep s e hs hG.1) hG.2⟩

/-- **Exact conditions of a run.** When the good steps keep the invariant, and a step from the
invariant has `P` exactly when it is good, a run has `P` all along exactly when it is good all
along. -/
theorem along_iff_of_inv (hstep : ∀ s e, I s → G s e → I (step s e).1)
    (hP : ∀ s e, I s → (P s e ↔ G s e)) {s : σ} {es : List ε} (hs : I s) :
    Along step P s es ↔ Along step G s es := by
  induction es generalizing s with
  | nil => exact Iff.rfl
  | cons e es ih =>
    rw [along_cons, along_cons, hP s e hs]
    exact and_congr_right fun hG => ih (hstep s e hs hG)

end Invariant

/-- **Trace rule.** A relation of the state and of what was put out so far that every step of
the run keeps holds at its end. -/
theorem run_trace {J : σ → List ω → Prop} {G : σ → ε → Prop}
    (hstep : ∀ s e tr, J s tr → G s e → J (step s e).1 (tr ++ (step s e).2)) {s : σ}
    {es : List ε} {tr : List ω} (hs : J s tr) (hG : Along step G s es) :
    J (run step s es).1 (tr ++ (run step s es).2) := by
  induction es generalizing s tr with
  | nil => simpa using hs
  | cons e es ih =>
    rw [run_cons, ← List.append_assoc]
    exact ih (hstep s e tr hs hG.1) hG.2

theorem along_countP_eq_zero {p : ω → Bool} {s : σ} {es : List ε}
    (h : (run step s es).2.countP p = 0) : Along step (fun s e => (step s e).2.countP p = 0) s es := by
  induction es generalizing s with
  | nil => trivial
  | cons e es ih =>
    rw [run_cons, List.countP_append, Nat.add_eq_zero_iff] at h
    exact ⟨h.1, ih h.2⟩

end Runs

/-! ### Ghost state -/

section Ghost

variable {σ ε ω γ : Type*} (step : σ → ε → σ × List ω) (ghost : σ → ε → γ → γ)

/-- The machine with a ghost component, which follows the run and does not influence it. -/
def withGhost (s : σ × γ) (e : ε) : (σ × γ) × List ω :=
  (((step s.1 e).1, ghost s.1 e s.2), (step s.1 e).2)

/-- The machine runs as it does without the ghost. -/
theorem run_withGhost (s : σ × γ) (es : List ε) :
    (run (withGhost step ghost) s es).1.1 = (run step s.1 es).1 ∧
      (run (withGhost step ghost) s es).2 = (run step s.1 es).2 := by
  induction es generalizing s with
  | nil => exact ⟨rfl, rfl⟩
  | cons e es ih =>
    obtain ⟨hstate, htrace⟩ := ih (withGhost step ghost s e).1
    refine ⟨hstate, ?_⟩
    rw [run_cons, run_cons, htrace]
    rfl

variable {step ghost}

theorem along_withGhost {P : σ → ε → Prop} {s : σ × γ} {es : List ε} :
    Along (withGhost step ghost) (fun s e => P s.1 e) s es ↔ Along step P s.1 es := by
  induction es generalizing s with
  | nil => exact Iff.rfl
  | cons e es ih => exact and_congr_right fun _ => ih

end Ghost

/-! ### Components -/

section Component

variable {σ ε ω τ φ ψ : Type*} {step : σ → ε → σ × List ω} {part : τ → φ → τ × List ψ}

/-- **Component rule.** When every step is a run of a component, a run is one. -/
theorem run_component (proj : σ → τ) (evs : ε → List φ) (outs : ω → Option ψ)
    (h : ∀ s e, run part (proj s) (evs e) = (proj (step s e).1, (step s e).2.filterMap outs))
    (s : σ) (es : List ε) :
    run part (proj s) (es.flatMap evs) =
      (proj (run step s es).1, (run step s es).2.filterMap outs) := by
  induction es generalizing s with
  | nil => rfl
  | cons e es ih => rw [List.flatMap_cons, run_append, h, ih, run_cons, List.filterMap_append]

end Component

/-! ### Outstanding work -/

section Owed

variable {σ ε ω α : Type*} {step : σ → ε → σ × List ω}

/-- **Conservation rule.** When no step loses, adds or reorders work, what a run did followed
by what is still owed at its end is what was owed at its start. -/
theorem run_conserves {did : List ω → List α} {owed : σ → List α} {I : σ → Prop}
    {G : σ → ε → Prop} (hnil : did [] = []) (happ : ∀ a b, did (a ++ b) = did a ++ did b)
    (hI : ∀ s e, I s → G s e → I (step s e).1)
    (hstep : ∀ s e, I s → G s e → did (step s e).2 ++ owed (step s e).1 = owed s) {s : σ}
    {es : List ε} (hs : I s) (hG : Along step G s es) :
    did (run step s es).2 ++ owed (run step s es).1 = owed s := by
  induction es generalizing s with
  | nil => simp [hnil]
  | cons e es ih =>
    rw [run_cons, happ, List.append_assoc, ih (hI s e hs hG.1) hG.2, hstep s e hs hG.1]

end Owed

/-! ### Accounts -/

section Accounts

variable {σ ε ω : Type*} {step : σ → ε → σ × List ω} {I : σ → Prop} {G : σ → ε → Prop}

/-- **Credit rule.** When every step pays for what it spends out of what it earns and its credit, a
run does. -/
theorem run_credit {spent earned : ω → Bool} {credit : σ → ℕ}
    (hI : ∀ s e, I s → G s e → I (step s e).1)
    (hstep : ∀ s e, I s → G s e → (step s e).2.countP spent + credit (step s e).1 ≤
      (step s e).2.countP earned + credit s) {s : σ} {es : List ε} (hs : I s)
    (hG : Along step G s es) :
    (run step s es).2.countP spent + credit (run step s es).1 ≤
      (run step s es).2.countP earned + credit s := by
  induction es generalizing s with
  | nil => exact Nat.le_refl _
  | cons e es ih =>
    have hfirst := hstep s e hs hG.1
    have hrest := ih (hI s e hs hG.1) hG.2
    simp only [run_cons, List.countP_append]
    omega

/-- **Countdown rule.** When every tick lowers a number and nothing raises it, it is down by as many
as there were ticks, or at zero. -/
theorem run_countdown (left : σ → ℕ) {tick : ε → Bool}
    (hI : ∀ s e, I s → G s e → I (step s e).1)
    (hstep : ∀ s e, I s → G s e → left (step s e).1 ≤ left s - if tick e then 1 else 0) {s : σ}
    {es : List ε} (hs : I s) (hG : Along step G s es) :
    left (run step s es).1 ≤ left s - es.countP tick := by
  induction es generalizing s with
  | nil => exact Nat.le_refl _
  | cons e es ih =>
    have hfirst := hstep s e hs hG.1
    have hrest := ih (hI s e hs hG.1) hG.2
    simp only [run_cons, List.countP_cons]
    omega

end Accounts

end Cs7000pBootloader.Lib
