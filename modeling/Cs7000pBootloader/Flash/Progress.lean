import Cs7000pBootloader.Flash.Blocking

/-!
How many polls an operation takes.  A poll that finds the controller ready brings the operation one
step on, by a sector command or by up to 32 bytes; a poll that reads `QW` high, or `WBNE` set after
the last byte, leaves it where it is.
-/

namespace Cs7000pBootloader.Flash

open Cs7000pBootloader.Lib

/-! ### The measure -/

/-- The steps an operation is away from its end: the chunks still to store and the last poll. -/
def FlashCtx.stepsLeft (c : FlashCtx) : ℕ :=
  match c.state with
  | .idle => 0
  | .erasePending => 2
  | .eraseBusy => 1
  | .writePending | .writeBusy => (c.length.toNat - c.offset.toNat + 31) / 32 + 1

/-- The poll broke off on a reading with `QW` high. -/
def qwHigh (tr : List Bus) : Bool :=
  match tr.getLast? with
  | some (.sr2 v) => v.qw
  | _ => false

/-- The poll read `WBNE` set, and forced the write. -/
def wbneSet (tr : List Bus) : Bool :=
  match tr.reverse with
  | .forceWrite _ :: .sr2 v :: _ => v.wbne
  | _ => false

@[simp] lemma qwHigh_sr2 (a : List Bus) (v : Sr2) : qwHigh (a ++ [.sr2 v]) = v.qw := by
  simp [qwHigh]

@[simp] lemma wbneSet_sr2 (a : List Bus) (v : Sr2) : wbneSet (a ++ [.sr2 v]) = false := by
  simp [wbneSet]

@[simp] lemma qwHigh_force (a : List Bus) (v : Sr2) (c : Cr2) :
    qwHigh (a ++ [.sr2 v, .forceWrite c]) = false := by simp [qwHigh]

@[simp] lemma wbneSet_force (a : List Bus) (v : Sr2) (c : Cr2) :
    wbneSet (a ++ [.sr2 v, .forceWrite c]) = v.wbne := by simp [wbneSet]

/-- An access that ends a poll which made a step. -/
def Bus.lastOfStep : Bus → Bool
  | .sr2 _ | .forceWrite _ => false
  | _ => true

lemma qwHigh_step {a : List Bus} {b : Bus} (h : b.lastOfStep = true) : qwHigh (a ++ [b]) = false := by
  cases b <;> simp_all [Bus.lastOfStep, qwHigh]

lemma wbneSet_step {a : List Bus} {b : Bus} (h : b.lastOfStep = true) :
    wbneSet (a ++ [b]) = false := by
  cases b <;> simp_all [Bus.lastOfStep, wbneSet]

/-! ### The outcome of a poll -/

/-- **A poll stalls or makes one step.** -/
inductive Outcome (d d' : FlashDev) : List Bus → Prop
  /-- `QW` is high -/
  | stall {a v} : v.qw = true → d'.ctx.stepsLeft = d.ctx.stepsLeft → Outcome d d' (a ++ [.sr2 v])
  /-- the write buffer is not empty -/
  | force {a v c} : v.wbne = true → d.ctx.state.isWrite = true →
      d'.ctx.stepsLeft = d.ctx.stepsLeft → Outcome d d' (a ++ [.sr2 v, .forceWrite c])
  | step {a b} : b.lastOfStep = true → d'.ctx.stepsLeft + 1 = d.ctx.stepsLeft →
      Outcome d d' (a ++ [b])

section Outcomes

variable {d d' d₁ : FlashDev} {tr : List Bus}

lemma Outcome.prepend (h : Outcome d₁ d' tr) (p : List Bus)
    (hd : d₁.ctx.stepsLeft = d.ctx.stepsLeft) (hs : d.ctx.state.isWrite = true) :
    Outcome d d' (p ++ tr) := by
  cases h with
  | stall hv he =>
    rw [← List.append_assoc]
    exact .stall hv (he.trans hd)
  | force hv _ he =>
    rw [← List.append_assoc]
    exact .force hv hs (he.trans hd)
  | step hb he =>
    rw [← List.append_assoc]
    exact .step hb (he.trans hd)

lemma flashOpComplete_fails {r : ℕ → Sr2} (h : ¬ (flashOpComplete r).1 = true) :
    (flashOpComplete r).2 = [] ++ [.sr2 (r 0)] ∧ (r 0).qw = true := by
  by_cases hq : (r 0).qw = true
  · exact ⟨by simp [flashOpComplete, hq], hq⟩
  · refine absurd ?_ h
    unfold flashOpComplete
    split_ifs <;> rfl

lemma stepsLeft_write {c : FlashCtx} (h : c.state.isWrite = true) :
    c.stepsLeft = (c.length.toNat - c.offset.toNat + 31) / 32 + 1 := by
  unfold FlashCtx.stepsLeft
  cases hs : c.state <;> simp_all [FlashOpState.isWrite]

lemma stepsLeft_burst {c : FlashCtx} (h : c.state.isWrite = true)
    (hle : c.offset.toNat + 32 ≤ c.length.toNat) :
    FlashCtx.stepsLeft { c with offset := c.offset + 32 } + 1 = c.stepsLeft := by
  have hlen := c.length.isLt
  have ho : (c.offset + 32).toNat = c.offset.toNat + 32 := by
    rw [BitVec.toNat_add]
    exact Nat.mod_eq_of_lt (by simp; omega)
  rw [stepsLeft_write h, stepsLeft_write (c := { c with offset := c.offset + 32 }) h]
  simp only [ho]
  omega

lemma stepsLeft_tail {c : FlashCtx} (h : c.state.isWrite = true)
    (hlt : c.offset.toNat < c.length.toNat) (hle : c.length.toNat < c.offset.toNat + 32) :
    FlashCtx.stepsLeft { c with offset := c.length } + 1 = c.stepsLeft := by
  rw [stepsLeft_write h, stepsLeft_write (c := { c with offset := c.length }) h]
  simp only
  omega

lemma lastOfStep_of_isStore {b : Bus} (h : b.isStore = true) : b.lastOfStep = true := by
  cases b <;> first | rfl | cases h

lemma Outcome.last {b : Bus} (hl : tr.getLast? = some b) (hb : b.lastOfStep = true)
    (hleft : d'.ctx.stepsLeft + 1 = d.ctx.stepsLeft) : Outcome d d' tr := by
  obtain ⟨a, rfl⟩ := List.getLast?_eq_some_iff.mp hl
  exact .step hb hleft

lemma Outcome.stores {q s : List Bus} (hs : ∀ b ∈ s, b.isStore = true) (hne : s ≠ [])
    (hleft : d'.ctx.stepsLeft + 1 = d.ctx.stepsLeft) : Outcome d d' (q ++ s) := by
  refine .last (b := s.getLast hne) ?_ (lastOfStep_of_isStore (hs _ (List.getLast_mem hne))) hleft
  rw [List.getLast?_append, List.getLast?_eq_some_getLast hne]
  rfl

lemma Outcome.fails {q : List Bus} {r : ℕ → Sr2} (h : ¬ (flashOpComplete r).1 = true) :
    Outcome d d (q ++ (flashOpComplete r).2) := by
  obtain ⟨htr, hq⟩ := flashOpComplete_fails h
  rw [htr]
  exact .stall hq rfl

lemma flashWriteBusy_outcome (r : ℕ → Sr2) (hs : d.ctx.state = .writeBusy) :
    Outcome d (flashWriteBusy r d).1 (flashWriteBusy r d).2 := by
  have hw : d.ctx.state.isWrite = true := by rw [hs]; rfl
  unfold flashWriteBusy
  by_cases hc : (flashOpComplete r).1 = true
  · simp only [hc, not_true_eq_false, if_false]
    by_cases ho : d.ctx.offset < d.ctx.length
    · have ho' := BitVec.lt_def.mp ho
      rw [if_pos ho]
      split_ifs with h32
      · refine .stores (burstStores_isStore _) (by simp [burstStores]) ?_
        exact stepsLeft_burst hw (by omega)
      · refine .stores (tailStores_isStore _ _) ?_ (stepsLeft_tail hw ho' (by omega))
        simp only [tailStores, ne_eq, List.map_eq_nil_iff, List.range_eq_nil]
        omega
    · have ho' : d.ctx.length.toNat ≤ d.ctx.offset.toNat :=
        Nat.le_of_not_lt fun h => ho (BitVec.lt_def.mpr h)
      rw [if_neg ho]
      split_ifs with hwb hd
      · exact .force hwb hw rfl
      · -- the commit takes the driver from one step to none
        have hone : d.ctx.stepsLeft = 1 := by
          rw [stepsLeft_write hw]
          omega
        refine .last (b := .phoneTxd false) (by simp [List.getLast?_cons]) rfl ?_
        rw [hone]
        rfl
      · have hfail := Outcome.fails (d := d) (q := (flashOpComplete r).2 ++ [.sr2 (r 2)]) hd
        rwa [List.append_assoc] at hfail
  · simp only [hc]
    exact .fails (q := []) hc

/-- **The outcome of a poll.** -/
theorem flashProcess_outcome (r : ℕ → Sr2) (hne : d.ctx.state ≠ .idle) :
    Outcome d (flashProcess r d).1 (flashProcess r d).2 := by
  unfold flashProcess
  cases hs : d.ctx.state with
  | idle => exact absurd hs hne
  | erasePending =>
    by_cases hc : (flashOpComplete r).1 = true
    · simp only [hc, not_true_eq_false, if_false]
      refine .last (by simp; rfl) rfl ?_
      simp [FlashCtx.stepsLeft, hs]
    · simp only [hc]
      exact .fails (q := []) hc
  | eraseBusy =>
    by_cases hc : (flashOpComplete r).1 = true
    · simp only [hc, if_true]
      refine .step rfl ?_
      simp [FlashCtx.stepsLeft, hs]
    · simp only [hc]
      exact .fails (q := []) hc
  | writePending =>
    by_cases hc : (flashOpComplete r).1 = true
    · simp only [hc, not_true_eq_false, if_false]
      refine (flashWriteBusy_outcome _ rfl).prepend _ ?_ (by rw [hs]; rfl)
      simp [FlashCtx.stepsLeft, hs]
    · simp only [hc]
      exact .fails (q := []) hc
  | writeBusy => exact flashWriteBusy_outcome r hs

end Outcomes

/-! ### Counting polls -/

/-- The polls of a run that found the controller ready: no reading with `QW` high broke them off. -/
def readyPolls (d : FlashDev) (rs : List (ℕ → Sr2)) : ℕ :=
  (outputs (fun d r => flashProcess r d) d rs).countP fun tr => !qwHigh tr

/-- The polls of a run that read `WBNE` set after the last byte. -/
def forcedPolls (d : FlashDev) (rs : List (ℕ → Sr2)) : ℕ :=
  (outputs (fun d r => flashProcess r d) d rs).countP wbneSet

/-- The operation is not over before any of the polls. -/
def NotOver (d : FlashDev) (rs : List (ℕ → Sr2)) : Prop :=
  Along (fun d r => flashProcess r d) (fun d _ => d.ctx.state ≠ .idle) d rs

section Counting

variable {d : FlashDev} {rs : List (ℕ → Sr2)}

lemma Outcome.account {d d' : FlashDev} {tr : List Bus} (h : Outcome d d' tr) :
    d'.ctx.stepsLeft + (if (!qwHigh tr) = true then 1 else 0) =
      d.ctx.stepsLeft + if wbneSet tr = true then 1 else 0 := by
  cases h with
  | stall hv he => rw [qwHigh_sr2, wbneSet_sr2, hv, he]; rfl
  | force hv _ he => rw [qwHigh_force, wbneSet_force, hv, he]; rfl
  | step hb he => rw [qwHigh_step hb, wbneSet_step hb, ← he]; rfl

lemma stepsLeft_eq_zero_iff : d.ctx.stepsLeft = 0 ↔ d.ctx.state = .idle := by
  unfold FlashCtx.stepsLeft
  cases d.ctx.state <;> simp

/-- **The account of a run**: the ready polls are the steps made and the forced writes. -/
theorem stepsLeft_run (h : NotOver d rs) :
    (run (fun d r => flashProcess r d) d rs).1.ctx.stepsLeft + readyPolls d rs =
      d.ctx.stepsLeft + forcedPolls d rs := by
  induction rs generalizing d with
  | nil => rfl
  | cons r rs ih =>
    have hrest := ih h.2
    have hpoll := (flashProcess_outcome r h.1).account
    simp only [readyPolls, forcedPolls, outputs_cons, List.countP_cons, run_cons] at hrest ⊢
    omega

lemma forcedPolls_erase (h : NotOver d rs) (he : d.ctx.state.isErase = true) :
    forcedPolls d rs = 0 := by
  induction rs generalizing d with
  | nil => rfl
  | cons r rs ih =>
    have hnone : wbneSet (flashProcess r d).2 = false := by
      have hout := flashProcess_outcome r h.1
      generalize (flashProcess r d).1 = d' at hout
      generalize (flashProcess r d).2 = tr at hout
      cases hout with
      | stall => exact wbneSet_sr2 _ _
      | force _ hw =>
        exfalso
        revert he hw
        cases d.ctx.state <;> simp [FlashOpState.isErase, FlashOpState.isWrite]
      | step hb => exact wbneSet_step hb
    have hrest : forcedPolls (flashProcess r d).1 rs = 0 := by
      rcases (flashProcess_move r d).isErase he with hs | ⟨-, hs⟩ | ⟨-, hs⟩
      · exact ih h.2 (by rw [hs]; exact he)
      · exact ih h.2 (by rw [hs]; rfl)
      · cases rs with
        | nil => rfl
        | cons r' rs => exact absurd hs h.2.1
    simp only [forcedPolls] at hrest
    simp [forcedPolls, hnone, hrest]

end Counting

/-! ### A controller that is ready -/

/-- No reading of the poll has `QW` or `WBNE` set; a poll makes seven readings at most. -/
def IsReady (r : ℕ → Sr2) : Prop := ∀ n < 7, (r n).qw = false ∧ (r n).wbne = false

instance (r : ℕ → Sr2) : Decidable (IsReady r) := by unfold IsReady; infer_instance

section Ready

variable {d : FlashDev} {r : ℕ → Sr2} {v : Sr2}

lemma reading_of_flashOpComplete (h : .sr2 v ∈ (flashOpComplete r).2) : v = r 0 ∨ v = r 1 := by
  unfold flashOpComplete at h
  split_ifs at h <;> simp at h <;> tauto

lemma reading_of_flashWriteBusy (h : .sr2 v ∈ (flashWriteBusy r d).2) : ∃ n < 5, v = r n := by
  have hqueue : .sr2 v ∈ (flashOpComplete r).2 → ∃ n < 5, v = r n := fun hm =>
    (reading_of_flashOpComplete hm).elim (fun he => ⟨0, by omega, he⟩) fun he => ⟨1, by omega, he⟩
  have hdone : .sr2 v ∈ (flashOpComplete fun n => r (n + 3)).2 → ∃ n < 5, v = r n := fun hm =>
    (reading_of_flashOpComplete hm).elim (fun he => ⟨3, by omega, he⟩) fun he => ⟨4, by omega, he⟩
  unfold flashWriteBusy at h
  by_cases hc : (flashOpComplete r).1 = true
  · simp only [hc, not_true_eq_false, if_false] at h
    split_ifs at h with ho h32 hw hd
    · exact hqueue (by simpa [burstStores] using h)
    · exact hqueue (by simpa [tailStores] using h)
    all_goals
      simp only [List.append_assoc, List.cons_append, List.mem_append, List.mem_cons,
        Bus.sr2.injEq, List.not_mem_nil, or_false, reduceCtorEq] at h
    · rcases h with hm | rfl
      · exact hqueue hm
      · exact ⟨2, by omega, rfl⟩
    all_goals
      rcases h with hm | rfl | hm
      · exact hqueue hm
      · exact ⟨2, by omega, rfl⟩
      · exact hdone hm
  · simp only [hc] at h
    exact hqueue h

/-- The readings of a poll are its first seven. -/
lemma reading_of_flashProcess (h : .sr2 v ∈ (flashProcess r d).2) : ∃ n < 7, v = r n := by
  have hqueue : .sr2 v ∈ (flashOpComplete r).2 → ∃ n < 7, v = r n := fun hm =>
    (reading_of_flashOpComplete hm).elim (fun he => ⟨0, by omega, he⟩) fun he => ⟨1, by omega, he⟩
  unfold flashProcess at h
  by_cases hc : (flashOpComplete r).1 = true
  · cases hs : d.ctx.state with
    | idle => simp [hs] at h
    | erasePending | eraseBusy =>
      simp only [hs, hc, not_true_eq_false, if_false, if_true] at h
      exact hqueue (by simpa using h)
    | writePending =>
      simp only [hs, hc, not_true_eq_false, if_false, List.mem_append, List.mem_cons,
        List.not_mem_nil, or_false, reduceCtorEq] at h
      rcases h with hm | hm
      · exact hqueue hm
      · obtain ⟨n, hn, he⟩ := reading_of_flashWriteBusy hm
        exact ⟨n + 2, by omega, he⟩
    | writeBusy =>
      simp only [hs] at h
      obtain ⟨n, hn, he⟩ := reading_of_flashWriteBusy h
      exact ⟨n, by omega, he⟩
  · cases hs : d.ctx.state with
    | idle => simp [hs] at h
    | erasePending | eraseBusy | writePending =>
      simp only [hs, hc] at h
      exact hqueue h
    | writeBusy =>
      simp only [hs] at h
      obtain ⟨n, hn, he⟩ := reading_of_flashWriteBusy h
      exact ⟨n, by omega, he⟩

/-- **A ready poll makes a step.** -/
theorem stepsLeft_ready (hr : IsReady r) (hne : d.ctx.state ≠ .idle) :
    (flashProcess r d).1.ctx.stepsLeft + 1 = d.ctx.stepsLeft := by
  have hout := flashProcess_outcome r hne
  have hread : ∀ v, .sr2 v ∈ (flashProcess r d).2 → v.qw = false ∧ v.wbne = false := by
    intro v hv
    obtain ⟨n, hn, rfl⟩ := reading_of_flashProcess hv
    exact hr n hn
  generalize (flashProcess r d).1 = d' at hout ⊢
  generalize (flashProcess r d).2 = tr at hout hread
  cases hout with
  | stall hv => exact absurd ((hread _ (by simp)).1.symm.trans hv) Bool.false_ne_true
  | force hv => exact absurd ((hread _ (by simp)).2.symm.trans hv) Bool.false_ne_true
  | step _ he => exact he

end Ready

/-! ### The bounds -/

/-- The poll stalls: it reads `QW` high, or `WBNE` set after the last byte. -/
def Stalls (d : FlashDev) (r : ℕ → Sr2) : Prop :=
  qwHigh (flashProcess r d).2 = true ∨ wbneSet (flashProcess r d).2 = true

/-- Only finitely many polls stall under the schedule. -/
def FinitelyStalled (d : FlashDev) (sched : ℕ → ℕ → Sr2) : Prop :=
  ∃ N, ∀ k, N ≤ k → ¬ Stalls (turns (fun d r => flashProcess r d) sched d k) (sched k)

/-- A poll of a running operation lowers the measure, or stalls and does not raise it. -/
def Progresses (d : FlashDev) (r : ℕ → Sr2) : Prop :=
  d.ctx.state ≠ .idle → (flashProcess r d).1.ctx.stepsLeft < d.ctx.stepsLeft ∨
    Stalls d r ∧ (flashProcess r d).1.ctx.stepsLeft ≤ d.ctx.stepsLeft

/-- An accepted erase is over after exactly two ready polls. -/
def EraseBound (d : FlashDev) : Prop :=
  ∀ addr rs, d.ctx.state = .idle → NotOver (flashEraseSectorAsync addr d).2 rs →
    ((run (fun d r => flashProcess r d) (flashEraseSectorAsync addr d).2 rs).1.ctx.state = .idle ↔
      readyPolls (flashEraseSectorAsync addr d).2 rs = 2)

/-- An accepted write is over after exactly one ready poll for each 32 bytes or part of them, one
more, and one for each poll that read `WBNE` set. -/
def WriteBound (d : FlashDev) : Prop :=
  ∀ addr data rs, d.ctx.state = .idle → data.length ≤ cfgTudDfuXferBufsize →
    NotOver (accepted d addr data) rs →
    ((run (fun d r => flashProcess r d) (accepted d addr data) rs).1.ctx.state = .idle ↔
      readyPolls (accepted d addr data) rs =
        (data.length + 31) / 32 + 1 + forcedPolls (accepted d addr data) rs)

/-- The blocking calls return under every schedule with finitely many stalls. -/
def BlockingReturns (d : FlashDev) : Prop :=
  (∀ addr sched, FinitelyStalled (flashEraseSectorAsync addr d).2 sched →
    ∃ fuel o, flashEraseSectorBlocking fuel sched addr d = some o) ∧
  ∀ addr data length sched, FinitelyStalled (flashWriteAsync addr data length d).2.1 sched →
    ∃ fuel o, flashWriteBlocking fuel sched addr data length d = some o

lemma progresses (d : FlashDev) (r : ℕ → Sr2) : Progresses d r := by
  intro hne
  have hout := flashProcess_outcome r hne
  unfold Stalls
  generalize (flashProcess r d).1 = d' at hout ⊢
  generalize (flashProcess r d).2 = tr at hout ⊢
  cases hout with
  | stall hv he => exact .inr ⟨.inl (by simpa using hv), Nat.le_of_eq he⟩
  | force hv _ he => exact .inr ⟨.inr (by simpa using hv), Nat.le_of_eq he⟩
  | step _ he => exact .inl (by omega)

lemma eraseBound (d : FlashDev) : EraseBound d := by
  intro addr rs hi h
  have hacc := stepsLeft_run h
  have hstate : (flashEraseSectorAsync addr d).2.ctx.state = .erasePending := by
    rw [flashEraseSectorAsync_idle hi]
  have hleft : (flashEraseSectorAsync addr d).2.ctx.stepsLeft = 2 := by
    unfold FlashCtx.stepsLeft
    rw [hstate]
  rw [hleft, forcedPolls_erase h (by rw [hstate]; rfl)] at hacc
  rw [← stepsLeft_eq_zero_iff]
  omega

lemma writeBound (d : FlashDev) : WriteBound d := by
  intro addr data rs hi hL h
  have hacc := stepsLeft_run h
  have hleft : (accepted d addr data).ctx.stepsLeft = (data.length + 31) / 32 + 1 := by
    rw [accepted_eq hi addr hL]
    have hlen := toNat_ofNat_length hL
    simp only [FlashCtx.stepsLeft, hlen]
    simp
  rw [hleft] at hacc
  rw [← stepsLeft_eq_zero_iff]
  omega

/-- A polling loop under a schedule with finitely many stalls returns. -/
lemma pollUntilIdle_returns {d : FlashDev} {sched : ℕ → ℕ → Sr2} (h : FinitelyStalled d sched) :
    ∃ fuel o, pollUntilIdle fuel sched d = some o :=
  loop_terminates (fun d => d.ctx.stepsLeft)
    (fun d r hb => progresses d r (flashIsBusy_eq_true.mp hb)) h

lemma blockingReturns (d : FlashDev) : BlockingReturns d := by
  refine ⟨fun addr sched h => pollUntilIdle_returns h, fun addr data length sched h => ?_⟩
  obtain ⟨fuel, o, ho⟩ := pollUntilIdle_returns h
  exact ⟨fuel, _, by rw [flashWriteBlocking, ho]; rfl⟩

/-- **Polling terminates, with exact bounds**: every poll makes a step or stalls, an erase takes two
ready polls and a write one for each 32 bytes and one more, forced writes apart; so the blocking
calls return from every state of the driver once the stalls end. -/
theorem polling_terminates (d : FlashDev) :
    (∀ r, Progresses d r) ∧ EraseBound d ∧ WriteBound d ∧ BlockingReturns d :=
  ⟨progresses d, eraseBound d, writeBound d, blockingReturns d⟩

/-- Three bytes take two ready polls and the one that forces the write. -/
theorem polling_terminates_three :
    readyPolls (accepted resetDev 0x08120000 [1, 2, 3])
      [fun _ => sr2Clear, fun _ => { sr2Clear with qw := true },
        fun _ => { sr2Clear with wbne := true }, fun _ => sr2Clear] = 3 := by
  have h := (polling_terminates resetDev).2.2.1 0x08120000 [1, 2, 3]
    [fun _ => sr2Clear, fun _ => { sr2Clear with qw := true },
      fun _ => { sr2Clear with wbne := true }, fun _ => sr2Clear]
    rfl (by decide) ⟨by decide, by decide, by decide, by decide, trivial⟩
  exact h.mp (by decide)

end Cs7000pBootloader.Flash
