import Cs7000pBootloader.Lib.Runs
import Mathlib.Data.BitVec

/-!
Work that falls due periodically.  Ticks pass, and a worker that is called does one piece of work if
one is due, a piece for every `k` ticks.  What has been done after a script is the least, over the
points of the script, of what was due at the point and the calls since; so a worker that is called
once in every `k` ticks is never behind.  A counter of `w` bits with the time of the last piece
measures what is due, as long as the worker is not `2 ^ w` ticks behind.
-/

namespace Cs7000pBootloader.Lib

inductive Beat where
  | tick
  | call
  deriving DecidableEq, Repr

def ticks (es : List Beat) : ℕ := es.count .tick

def calls (es : List Beat) : ℕ := es.count .call

/-- The ticks so far, and the pieces of work done. -/
structure Periodic where
  elapsed : ℕ
  done : ℕ
  deriving DecidableEq, Repr

section Periodic

variable (k : ℕ)

/-- The ticks that are not paid for by a piece of work. -/
def Periodic.behind (s : Periodic) : ℕ := s.elapsed - k * s.done

/-- A beat, with the number of the piece of work that is done on it. -/
def beat (s : Periodic) : Beat → Periodic × List ℕ
  | .tick => ({ s with elapsed := s.elapsed + 1 }, [])
  | .call => if s.behind k < k then (s, []) else ({ s with done := s.done + 1 }, [s.done])

/-- Nothing is done before it is due. -/
def Periodic.Due (s : Periodic) : Prop := k * s.done ≤ s.elapsed

/-- There are no more than `k` ticks without a call. -/
def Prompt (es : List Beat) : Prop :=
  ∀ pre mid post, es = pre ++ mid ++ post → .call ∉ mid → ticks mid ≤ k

variable {k} {s : Periodic} {es : List Beat}

@[simp] lemma ticks_append (es fs : List Beat) : ticks (es ++ fs) = ticks es + ticks fs :=
  List.count_append

@[simp] lemma calls_append (es fs : List Beat) : calls (es ++ fs) = calls es + calls fs :=
  List.count_append

lemma beat_rests (h : s.behind k < k) : beat k s .call = (s, []) := if_pos h

lemma beat_works (h : ¬ s.behind k < k) :
    beat k s .call = ({ s with done := s.done + 1 }, [s.done]) := if_neg h

lemma due_beat (h : s.Due k) (e : Beat) : (beat k s e).1.Due k := by
  unfold Periodic.Due at *
  cases e with
  | tick => exact Nat.le_succ_of_le h
  | call =>
    by_cases hb : s.behind k < k
    · rw [beat_rests hb]
      exact h
    · rw [beat_works hb]
      unfold Periodic.behind at hb
      show k * (s.done + 1) ≤ s.elapsed
      rw [Nat.mul_succ]
      omega

lemma beat_elapsed (s : Periodic) (es : List Beat) :
    (run (beat k) s es).1.elapsed = s.elapsed + ticks es := by
  induction es generalizing s with
  | nil => rfl
  | cons e es ih =>
    rw [run_cons, ih]
    cases e with
    | tick =>
      simp only [beat, ticks, List.count_cons_self]
      omega
    | call =>
      have hcount : ticks (.call :: es) = ticks es := List.count_cons_of_ne (by decide)
      rw [hcount]
      by_cases hb : s.behind k < k
      · rw [beat_rests hb]
      · rw [beat_works hb]

lemma beat_outputs (s : Periodic) (es : List Beat) :
    (List.range s.done) ++ (run (beat k) s es).2 = List.range (run (beat k) s es).1.done := by
  induction es generalizing s with
  | nil => simp
  | cons e es ih =>
    rw [run_cons, ← ih, ← List.append_assoc]
    congr 1
    cases e with
    | tick => simp [beat]
    | call =>
      by_cases hb : s.behind k < k
      · rw [beat_rests hb, List.append_nil]
      · rw [beat_works hb]
        exact List.range_succ.symm

lemma done_le_calls (s : Periodic) (es : List Beat) :
    (run (beat k) s es).1.done ≤ s.done + calls es := by
  induction es generalizing s with
  | nil => exact Nat.le_refl _
  | cons e es ih =>
    rw [run_cons]
    refine Nat.le_trans (ih _) ?_
    cases e with
    | tick =>
      have hcount : calls (.tick :: es) = calls es := List.count_cons_of_ne (by decide)
      rw [hcount]
      exact Nat.le_refl _
    | call =>
      have hcount : calls (.call :: es) = calls es + 1 := List.count_cons_self
      rw [hcount]
      by_cases hb : s.behind k < k
      · rw [beat_rests hb]
        exact Nat.add_le_add_left (Nat.le_succ _) _
      · rw [beat_works hb]
        show s.done + 1 + calls es ≤ _
        omega

lemma done_le_elapsed (hk : 0 < k) (es : List Beat) :
    (run (beat k) ⟨0, 0⟩ es).1.done ≤ ticks es / k := by
  have hdue : Periodic.Due k ⟨0, 0⟩ := Nat.le_refl _
  have h : Periodic.Due k (run (beat k) ⟨0, 0⟩ es).1 :=
    run_inv_all (I := Periodic.Due k) (fun _ e h => due_beat h e) hdue es
  unfold Periodic.Due at h
  rw [beat_elapsed, Nat.zero_add] at h
  rw [Nat.le_div_iff_mul_le hk, Nat.mul_comm]
  exact h

/-- **What has been done** is at most what was due at a point of the script and the calls since. -/
theorem done_le (hk : 0 < k) (pre post : List Beat) :
    (run (beat k) ⟨0, 0⟩ (pre ++ post)).1.done ≤ ticks pre / k + calls post := by
  have hpre := done_le_elapsed hk pre
  have hpost := done_le_calls (k := k) (run (beat k) ⟨0, 0⟩ pre).1 post
  rw [run_append]
  exact Nat.le_trans hpost (Nat.add_le_add_right hpre _)

/-- **And it is as much at one point**: the last call that found nothing due, or the start. -/
theorem exists_done_eq (hk : 0 < k) (es : List Beat) :
    ∃ pre post, es = pre ++ post ∧
      (run (beat k) ⟨0, 0⟩ es).1.done = ticks pre / k + calls post := by
  induction es using List.reverseRecOn with
  | nil => exact ⟨[], [], rfl, by simp [ticks, calls]⟩
  | append_singleton es e ih =>
    obtain ⟨pre, post, rfl, hd⟩ := ih
    rw [run_append]
    cases e with
    | tick => exact ⟨pre, post ++ [.tick], by simp, by simpa [beat, calls] using hd⟩
    | call =>
      by_cases hb : (run (beat k) ⟨0, 0⟩ (pre ++ post)).1.behind k < k
      · refine ⟨pre ++ post ++ [.call], [], by simp, ?_⟩
        have hle := done_le_elapsed hk (pre ++ post)
        have hge : ticks (pre ++ post) / k ≤ (run (beat k) ⟨0, 0⟩ (pre ++ post)).1.done := by
          unfold Periodic.behind at hb
          rw [beat_elapsed] at hb
          rw [Nat.div_le_iff_le_mul_add_pred hk]
          simp only at hb
          omega
        have hcall : ticks [.call] = 0 := rfl
        rw [run_cons, beat_rests hb, ticks_append _ [.call], hcall]
        exact Nat.le_antisymm hle hge
      · refine ⟨pre, post ++ [.call], by simp, ?_⟩
        rw [run_cons, beat_works hb, calls_append, ← Nat.add_assoc, ← hd]
        rfl

/-! ### Prompt calls -/

lemma Prompt.left {es fs : List Beat} (h : Prompt k (es ++ fs)) : Prompt k es := by
  intro pre mid post he hm
  exact h pre mid (post ++ fs) (by rw [he]; simp) hm

lemma Prompt.right {es fs : List Beat} (h : Prompt k (es ++ fs)) : Prompt k fs := by
  intro pre mid post he hm
  exact h (es ++ pre) mid post (by rw [he]; simp) hm

lemma prompt_of_ticks_le (h : ticks es ≤ k) : Prompt k es := by
  rintro pre mid post rfl -
  rw [ticks_append, ticks_append] at h
  omega

lemma Prompt.ticks_le (h : Prompt k es) : ticks es ≤ k * (calls es + 1) := by
  generalize hn : calls es = n
  induction n generalizing es with
  | zero =>
    have hnone : Beat.call ∉ es := List.count_eq_zero.mp hn
    have hall := h [] es [] (by simp) hnone
    omega
  | succ n ih =>
    have hmem : Beat.call ∈ es := List.count_pos_iff.mp (by rw [← calls, hn]; omega)
    obtain ⟨seg, rest, rfl, hnone⟩ := List.eq_append_cons_of_mem hmem
    have hseg := h [] seg (.call :: rest) (by simp) hnone
    have hzero : calls seg = 0 := List.count_eq_zero.mpr hnone
    have hrest : calls rest = n := by
      rw [calls_append, hzero, calls, List.count_cons_self] at hn
      show List.count Beat.call rest = n
      omega
    have hsplit : seg ++ .call :: rest = seg ++ [.call] ++ rest := by simp
    rw [hsplit] at h ⊢
    have hle := ih h.right hrest
    have hcall : ticks [.call] = 0 := rfl
    rw [ticks_append, ticks_append, hcall]
    have hmul : k * (n + 1 + 1) = k * (n + 1) + k := Nat.mul_succ k (n + 1)
    omega

/-- **A worker that is called promptly** is less than two periods behind. -/
theorem Prompt.behind_lt (hk : 0 < k) (h : Prompt k es) :
    (run (beat k) ⟨0, 0⟩ es).1.behind k < 2 * k := by
  obtain ⟨pre, post, rfl, hd⟩ := exists_done_eq hk es
  have hpost := h.right.ticks_le
  have hmod := Nat.div_add_mod (ticks pre) k
  have hlt := Nat.mod_lt (ticks pre) hk
  unfold Periodic.behind
  rw [hd, beat_elapsed, ticks_append, Nat.mul_add]
  rw [Nat.mul_succ] at hpost
  simp only
  omega

/-- **And has nothing left to do** when it has been called. -/
theorem Prompt.done_eq (hk : 0 < k) (h : Prompt k (es ++ [.call])) :
    (run (beat k) ⟨0, 0⟩ (es ++ [.call])).1.done = ticks es / k := by
  have hle := done_le_elapsed hk (es ++ [.call])
  have hbehind := h.left.behind_lt hk
  have hall : ticks (es ++ [.call]) = ticks es := by rw [ticks_append]; rfl
  refine Nat.le_antisymm (by rwa [hall] at hle) ?_
  rw [run_append, run_cons, Nat.div_le_iff_le_mul_add_pred hk]
  unfold Periodic.behind at hbehind
  rw [beat_elapsed] at hbehind
  by_cases hb : (run (beat k) ⟨0, 0⟩ es).1.behind k < k
  · rw [beat_rests hb]
    unfold Periodic.behind at hb
    rw [beat_elapsed] at hb
    simp only [run_nil] at hb ⊢
    omega
  · rw [beat_works hb]
    simp only [run_nil] at hbehind ⊢
    rw [Nat.mul_succ]
    omega

end Periodic

/-! ### Counters that wrap -/

lemma toNat_ofNat_sub_ofNat {w a b : ℕ} (hab : a ≤ b) (h : b - a < 2 ^ w) :
    (BitVec.ofNat w b - BitVec.ofNat w a).toNat = b - a := by
  have hsplit : BitVec.ofNat w b = BitVec.ofNat w a + BitVec.ofNat w (b - a) := by
    rw [← BitVec.ofNat_add, Nat.add_sub_cancel' hab]
  rw [hsplit, BitVec.add_comm, BitVec.add_sub_cancel, BitVec.toNat_ofNat, Nat.mod_eq_of_lt h]

end Cs7000pBootloader.Lib
