import Cs7000pBootloader.Lib.Runs

/-!
Calls carried out by small steps.  A model makes one transition for each call; a machine needs a
list of small steps for it, and shows the model's state before the call until one of them and the
state after it from then on.  What it shows may be less while a call is being carried out, so that
the relation has the next call as a parameter; with no call left it shows everything.
-/

namespace Cs7000pBootloader.Lib

variable {σ α ω μ ε ρ δ : Type*}

/-! ### Small steps and calls -/

/-- The small steps carry out the calls: the machine shows the model all the time, while at a step
the model stands still or makes a call, and a call may need no step. -/
inductive CarriesOut (step : σ → α → σ × List ω) (call : μ → ε → μ × List ρ)
    (Shows : Option ε → σ → μ → Prop) : σ → List α → μ → List ε → Prop
  | done {s m} : Shows none s m → CarriesOut step call Shows s [] m []
  | stutter {s a as m cs} : Shows cs.head? s m → CarriesOut step call Shows (step s a).1 as m cs →
      CarriesOut step call Shows s (a :: as) m cs
  | move {s a as m c cs} : Shows (some c) s m →
      CarriesOut step call Shows (step s a).1 as (call m c).1 cs →
      CarriesOut step call Shows s (a :: as) m (c :: cs)
  | idle {s as m c cs} : Shows (some c) s m → CarriesOut step call Shows s as (call m c).1 cs →
      CarriesOut step call Shows s as m (c :: cs)

section CarriesOut

variable {step : σ → α → σ × List ω} {call : μ → ε → μ × List ρ}
  {Shows : Option ε → σ → μ → Prop} {s : σ} {m : μ} {as as' : List α} {cs cs' : List ε}

lemma CarriesOut.shows (h : CarriesOut step call Shows s as m cs) : Shows cs.head? s m := by
  cases h <;> assumption

theorem CarriesOut.shows_end (h : CarriesOut step call Shows s as m cs) :
    Shows none (run step s as).1 (run call m cs).1 := by
  induction h with
  | done h => exact h
  | stutter _ _ ih => exact ih
  | move _ _ ih => exact ih
  | idle _ _ ih => exact ih

/-- **At every moment** the machine shows the model after some of the calls, and carries out the
others from there. -/
theorem CarriesOut.split (h : CarriesOut step call Shows s (as ++ as') m cs) :
    ∃ cs₁ cs₂, cs = cs₁ ++ cs₂ ∧
      CarriesOut step call Shows (run step s as).1 as' (run call m cs₁).1 cs₂ := by
  generalize hl : as ++ as' = l at h
  induction h generalizing as with
  | @done s m hs =>
    obtain ⟨rfl, rfl⟩ := List.append_eq_nil_iff.mp hl
    exact ⟨[], [], rfl, .done hs⟩
  | @stutter s a l m cs hs hrest ih =>
    cases as with
    | nil =>
      obtain rfl : as' = a :: l := hl
      exact ⟨[], cs, rfl, .stutter hs hrest⟩
    | cons b as =>
      obtain ⟨rfl, rfl⟩ := List.cons.inj hl
      exact ih rfl
  | @move s a l m c cs hs hrest ih =>
    cases as with
    | nil =>
      obtain rfl : as' = a :: l := hl
      exact ⟨[], c :: cs, rfl, .move hs hrest⟩
    | cons b as =>
      obtain ⟨rfl, rfl⟩ := List.cons.inj hl
      obtain ⟨cs₁, cs₂, rfl, h₂⟩ := ih rfl
      exact ⟨c :: cs₁, cs₂, rfl, h₂⟩
  | @idle s l m c cs hs _ ih =>
    obtain ⟨cs₁, cs₂, rfl, h₂⟩ := ih hl
    exact ⟨c :: cs₁, cs₂, rfl, h₂⟩

lemma CarriesOut.of_hidden (Hidden : α → Prop)
    (hstep : ∀ s m a, Hidden a → Shows none s m → Shows none (step s a).1 m) (hs : Shows none s m)
    (has : ∀ a ∈ as, Hidden a) : CarriesOut step call Shows s as m [] := by
  induction as generalizing s with
  | nil => exact .done hs
  | cons a as ih =>
    have hnext := hstep s m a (has a List.mem_cons_self) hs
    exact .stutter hs (ih hnext fun b hb => has b (List.mem_cons_of_mem _ hb))

/-- A call made by the last of several steps. -/
lemma CarriesOut.of_last {c : ε} (has : as ≠ [])
    (hmid : ∀ pre post, as = pre ++ post → Shows (some c) (run step s pre).1 m)
    (hend : Shows none (run step s as).1 (call m c).1) :
    CarriesOut step call Shows s as m [c] := by
  induction as generalizing s with
  | nil => exact absurd rfl has
  | cons a as ih =>
    have hs : Shows (some c) s m := hmid [] (a :: as) rfl
    cases as with
    | nil => exact .move hs (.done hend)
    | cons b as =>
      refine .stutter hs (ih (List.cons_ne_nil b as) (fun pre post h => ?_) hend)
      exact hmid (a :: pre) post (congrArg (a :: ·) h)

section Settled

variable (hsettled : ∀ c s m, Shows none s m → Shows c s m)

include hsettled

theorem CarriesOut.append (h : CarriesOut step call Shows s as m cs)
    (h' : CarriesOut step call Shows (run step s as).1 as' (run call m cs).1 cs') :
    CarriesOut step call Shows s (as ++ as') m (cs ++ cs') := by
  induction h with
  | done _ => exact h'
  | @stutter s a as m cs hs _ ih =>
    refine .stutter ?_ (ih h')
    cases cs with
    | nil => exact hsettled _ _ _ hs
    | cons c cs => exact hs
  | move hs _ ih => exact .move hs (ih h')
  | idle hs _ ih => exact .idle hs (ih h')

lemma CarriesOut.of_one {c : ε} {a : α}
    (hbefore : CarriesOut step call Shows s as m [])
    (hafter : CarriesOut step call Shows (step (run step s as).1 a).1 as' (call m c).1 []) :
    CarriesOut step call Shows s (as ++ a :: as') m [c] :=
  hbefore.append hsettled (.move (hsettled _ _ _ hbefore.shows_end) hafter)

end Settled

end CarriesOut

/-! ### Code that issues the steps -/

/-- The calls of a list one after the other: the memory of the code at the end, the steps it
issued and what it returned. -/
def callAll (code : δ → ε → Option (δ × List α × List ρ)) :
    δ → List ε → Option (δ × List α × List ρ)
  | d, [] => some (d, [], [])
  | d, c :: cs => do
    let now ← code d c
    let rest ← callAll code now.1 cs
    return (rest.1, now.2.1 ++ rest.2.1, now.2.2 ++ rest.2.2)

section Calls

variable {step : σ → α → σ × List ω} {call : μ → ε → μ × List ρ}
  {Shows : Option ε → σ → μ → Prop} {code : δ → ε → Option (δ × List α × List ρ)}
  {Holds : δ → μ → Prop} {Proper : ε → Prop}

/-- **Refinement rule.** When the code answers every proper call as the model does, keeps its memory
in step with it and issues steps that carry the call out, it does so for every list of proper
calls. -/
theorem callAll_carriesOut (hsettled : ∀ c s m, Shows none s m → Shows c s m)
    (hcall : ∀ d s m c, Proper c → Holds d m → Shows none s m →
      ∃ d' as, code d c = some (d', as, (call m c).2) ∧ Holds d' (call m c).1 ∧
        CarriesOut step call Shows s as m [c])
    {d : δ} {s : σ} {m : μ} {cs : List ε} (hd : Holds d m) (hs : Shows none s m)
    (hcs : ∀ c ∈ cs, Proper c) :
    ∃ d' as, callAll code d cs = some (d', as, (run call m cs).2) ∧ Holds d' (run call m cs).1 ∧
      CarriesOut step call Shows s as m cs := by
  induction cs generalizing d s m with
  | nil => exact ⟨d, [], rfl, hd, .done hs⟩
  | cons c cs ih =>
    obtain ⟨d₁, as₁, hcode, hd₁, has₁⟩ := hcall d s m c (hcs c List.mem_cons_self) hd hs
    have hs₁ := has₁.shows_end
    obtain ⟨d₂, as₂, hrest, hd₂, has₂⟩ :=
      ih hd₁ hs₁ fun c' hc' => hcs c' (List.mem_cons_of_mem _ hc')
    refine ⟨d₂, as₁ ++ as₂, ?_, hd₂, has₁.append hsettled has₂⟩
    rw [callAll, hcode, Option.bind_eq_bind, Option.bind_some, hrest]
    rfl

/-- The first calls of a list issue the first steps. -/
lemma callAll_prefix {d d₁ d₂ : δ} {cs cs' : List ε} {as as' : List α} {rs rs' : List ρ}
    (h : callAll code d cs = some (d₁, as, rs)) (h' : callAll code d (cs ++ cs') = some (d₂, as', rs')) :
    as <+: as' := by
  induction cs generalizing d as as' rs rs' with
  | nil =>
    obtain ⟨-, rfl, -⟩ : d = d₁ ∧ [] = as ∧ [] = rs := by simpa [callAll] using h
    exact List.nil_prefix
  | cons c cs ih =>
    simp only [List.cons_append, callAll, Option.bind_eq_bind] at h h'
    cases hnow : code d c with
    | none => simp [hnow] at h
    | some now =>
      rw [hnow, Option.bind_some] at h h'
      obtain ⟨⟨e, bs, qs⟩, hrest, hr⟩ := Option.bind_eq_some_iff.mp h
      obtain ⟨⟨e', bs', qs'⟩, hrest', hr'⟩ := Option.bind_eq_some_iff.mp h'
      obtain ⟨rfl, rfl, -⟩ : e = d₁ ∧ now.2.1 ++ bs = as ∧ now.2.2 ++ qs = rs := by
        simpa using hr
      obtain ⟨rfl, rfl, -⟩ : e' = d₂ ∧ now.2.1 ++ bs' = as' ∧ now.2.2 ++ qs' = rs' := by
        simpa using hr'
      exact (List.prefix_append_right_inj _).mpr (ih hrest hrest')

end Calls

end Cs7000pBootloader.Lib
