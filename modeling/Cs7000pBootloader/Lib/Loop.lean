import Cs7000pBootloader.Lib.Runs

/-!
A loop `while (busy) step` over a schedule, that is an unbounded sequence of inputs, one for each
turn: with fuel, since a schedule may keep it going for ever.  What the loop returns does not depend
on the fuel, it is a run of the step over the first inputs of the schedule, and a measure that a
turn lowers, or stalls at finitely often, makes the loop end.
-/

namespace Cs7000pBootloader.Lib

section Loop

variable {σ ε ω : Type*} (busy : σ → Bool) (step : σ → ε → σ × List ω)

/-- What is left of a schedule after its first input. -/
def later (sched : ℕ → ε) : ℕ → ε := fun k => sched (k + 1)

/-- The loop: the state it ends in, what it put out, and the schedule it leaves over. -/
def loop : ℕ → (ℕ → ε) → σ → Option (σ × List ω × (ℕ → ε))
  | 0, _, _ => none
  | n + 1, sched, s =>
    if busy s then
      (loop n (later sched) (step s (sched 0)).1).map fun o =>
        (o.1, (step s (sched 0)).2 ++ o.2.1, o.2.2)
    else some (s, [], sched)

/-- The state after the first `k` turns, if the loop goes on for so long. -/
def turns (sched : ℕ → ε) (s : σ) : ℕ → σ
  | 0 => s
  | k + 1 => turns (later sched) (step s (sched 0)).1 k

variable {busy step} {n m : ℕ} {sched : ℕ → ε} {s : σ} {o : σ × List ω × (ℕ → ε)}

lemma loop_idle (h : busy s = false) : loop busy step (n + 1) sched s = some (s, [], sched) := by
  simp [loop, h]

lemma loop_busy (h : busy s = true) :
    loop busy step (n + 1) sched s =
      (loop busy step n (later sched) (step s (sched 0)).1).map fun o =>
        (o.1, (step s (sched 0)).2 ++ o.2.1, o.2.2) := by
  simp [loop, h]

lemma loop_busy_some (h : busy s = true) (ho : loop busy step (n + 1) sched s = some o) :
    ∃ o', loop busy step n (later sched) (step s (sched 0)).1 = some o' ∧
      o = (o'.1, (step s (sched 0)).2 ++ o'.2.1, o'.2.2) := by
  rw [loop_busy h, Option.map_eq_some_iff] at ho
  obtain ⟨o', ho', rfl⟩ := ho
  exact ⟨o', ho', rfl⟩

/-- More fuel does not change what the loop returns. -/
theorem loop_mono (ho : loop busy step n sched s = some o) (h : n ≤ m) :
    loop busy step m sched s = some o := by
  induction n generalizing m sched s o with
  | zero => cases ho
  | succ n ih =>
    obtain ⟨m, rfl⟩ : ∃ k, m = k + 1 := ⟨m - 1, by omega⟩
    cases hb : busy s with
    | false => rwa [loop_idle hb] at ho ⊢
    | true =>
      obtain ⟨o', ho', rfl⟩ := loop_busy_some hb ho
      rw [loop_busy hb, ih ho' (by omega)]
      rfl

theorem loop_det {o' : σ × List ω × (ℕ → ε)} (ho : loop busy step n sched s = some o)
    (ho' : loop busy step m sched s = some o') : o = o' := by
  have h := loop_mono ho (Nat.le_max_left n m)
  rw [loop_mono ho' (Nat.le_max_right n m)] at h
  exact (Option.some.inj h).symm

/-- **The loop is a run** of the step over inputs that it takes while it is busy, and ends in a
state that is not. -/
theorem loop_run (ho : loop busy step n sched s = some o) :
    ∃ es, run step s es = (o.1, o.2.1) ∧ Along step (fun s _ => busy s = true) s es ∧
      busy o.1 = false := by
  induction n generalizing sched s o with
  | zero => cases ho
  | succ n ih =>
    cases hb : busy s with
    | false =>
      rw [loop_idle hb, Option.some.injEq] at ho
      subst ho
      exact ⟨[], rfl, trivial, hb⟩
    | true =>
      obtain ⟨o', ho', rfl⟩ := loop_busy_some hb ho
      obtain ⟨es, hrun, halong, hend⟩ := ih ho'
      exact ⟨sched 0 :: es, by rw [run_cons, hrun], ⟨hb, halong⟩, hend⟩

/-- **Termination.** Every turn of the busy loop lowers the measure, or stalls and does not raise
it; a schedule under which it stalls finitely often makes the loop end. -/
theorem loop_terminates (measure : σ → ℕ) {Stalls : σ → ε → Prop}
    (hstep : ∀ s e, busy s = true → measure (step s e).1 < measure s ∨
      Stalls s e ∧ measure (step s e).1 ≤ measure s)
    (hfin : ∃ N, ∀ k, N ≤ k → ¬ Stalls (turns step sched s k) (sched k)) :
    ∃ n o, loop busy step n sched s = some o := by
  obtain ⟨N, hN⟩ := hfin
  induction N generalizing sched s with
  | zero =>
    -- from here on no turn stalls, so that the measure falls
    induction hm : measure s using Nat.strongRecOn generalizing sched s with
    | ind μ ih =>
      cases hb : busy s with
      | false => exact ⟨1, _, loop_idle hb⟩
      | true =>
        have hlt : measure (step s (sched 0)).1 < μ := by
          rcases hstep s (sched 0) hb with h | ⟨h, -⟩
          · rwa [hm] at h
          · exact absurd h (hN 0 (Nat.le_refl 0))
        obtain ⟨n, o, ho⟩ := ih _ hlt (fun k _ => hN (k + 1) (Nat.zero_le _)) rfl
        exact ⟨n + 1, _, by rw [loop_busy hb, ho]; rfl⟩
  | succ N ih =>
    cases hb : busy s with
    | false => exact ⟨1, _, loop_idle hb⟩
    | true =>
      have hN' : ∀ k, N ≤ k → ¬ Stalls (turns step (later sched) (step s (sched 0)).1 k)
          (later sched k) := fun k hk => hN (k + 1) (by omega)
      obtain ⟨n, o, ho⟩ := ih hN'
      exact ⟨n + 1, _, by rw [loop_busy hb, ho]; rfl⟩

end Loop

end Cs7000pBootloader.Lib
