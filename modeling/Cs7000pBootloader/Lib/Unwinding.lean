import Cs7000pBootloader.Lib.Runs

/-!
Unwinding: two scripts that differ in events without a visible effect, and in what events carry
along unseen, are observed alike.  The relation on states is kept by a hidden event on either side
alone and by two alike events on both.
-/

namespace Cs7000pBootloader.Lib

section Unwinding

variable {σ ε ω ο : Type*} (step : σ → ε → σ × List ω) (obs : σ → ε → List ο)

/-- What is observed of a run. -/
def observed : σ → List ε → List ο
  | _, [] => []
  | s, e :: es => obs s e ++ observed (step s e).1 es

/-- Two scripts are alike up to hidden events and up to `E`. -/
inductive Alike (Hidden : ε → Prop) (E : ε → ε → Prop) : List ε → List ε → Prop
  | nil : Alike Hidden E [] []
  | both {e e' es es'} : E e e' → Alike Hidden E es es' → Alike Hidden E (e :: es) (e' :: es')
  | left {e es es'} : Hidden e → Alike Hidden E es es' → Alike Hidden E (e :: es) es'
  | right {e es es'} : Hidden e → Alike Hidden E es es' → Alike Hidden E es (e :: es')

variable {step obs} {Hidden : ε → Prop} {E : ε → ε → Prop} {R : σ → σ → Prop} {G : σ → ε → Prop}

/-- **Unwinding.** When a hidden event is not observed and keeps the relation on its side, and two
alike events are observed alike and keep it on both, then alike scripts from related states, with good
steps on both sides, are observed alike and end in related states. -/
theorem observed_of_alike (hsymm : ∀ s t, R s t → R t s)
    (hhidden : ∀ s t e, R s t → Hidden e → R (step s e).1 t ∧ obs s e = [])
    (hboth : ∀ s t e e', R s t → E e e' → G s e → G t e' →
      R (step s e).1 (step t e').1 ∧ obs s e = obs t e')
    {es es' : List ε} (h : Alike Hidden E es es') {s t : σ} (hst : R s t) (hs : Along step G s es)
    (ht : Along step G t es') :
    R (run step s es).1 (run step t es').1 ∧ observed step obs s es = observed step obs t es' := by
  induction h generalizing s t with
  | nil => exact ⟨hst, rfl⟩
  | both he _ ih =>
    obtain ⟨hnext, hobs⟩ := hboth _ _ _ _ hst he hs.1 ht.1
    obtain ⟨hend, hrest⟩ := ih hnext hs.2 ht.2
    exact ⟨hend, by rw [observed, observed, hobs, hrest]⟩
  | left he _ ih =>
    obtain ⟨hnext, hobs⟩ := hhidden _ _ _ hst he
    obtain ⟨hend, hrest⟩ := ih hnext hs.2 ht
    exact ⟨hend, by rw [observed, hobs, hrest, List.nil_append]⟩
  | right he _ ih =>
    obtain ⟨hnext, hobs⟩ := hhidden _ _ _ (hsymm _ _ hst) he
    obtain ⟨hend, hrest⟩ := ih (hsymm _ _ hnext) hs ht.2
    exact ⟨hend, by rw [observed, hobs, hrest, List.nil_append]⟩

theorem observed_withGhost {γ : Type*} (ghost : σ → ε → γ → γ) (s : σ × γ) (es : List ε) :
    observed (withGhost step ghost) (fun s e => obs s.1 e) s es = observed step obs s.1 es := by
  induction es generalizing s with
  | nil => rfl
  | cons e es ih => exact congrArg (obs s.1 e ++ ·) (ih _)

end Unwinding

end Cs7000pBootloader.Lib
