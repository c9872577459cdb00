import Mathlib.Algebra.Group.Nat.Defs
import Mathlib.Data.Nat.Basic

/-!
Words cut into fields of equal width, as hardware registers are: reading a field, writing one by
clearing it and or-ing the new value in, and what a write leaves alone.
-/

namespace Cs7000pBootloader.Lib

variable {n : ℕ} (k : ℕ)

/-- Field `i` of a word cut into fields of `k` bits. -/
def field (w : BitVec n) (i : ℕ) : BitVec k := w.extractLsb' (i * k) k

/-- The word with field `i` cleared by a mask and `x` or-ed in. -/
def setField (w : BitVec n) (i : ℕ) (x : BitVec k) : BitVec n :=
  (w &&& ~~~((BitVec.allOnes k).setWidth n <<< (i * k))) ||| (x.setWidth n <<< (i * k))

variable {k}

lemma getLsbD_field (w : BitVec n) (i b : ℕ) (hb : b < k) :
    (field k w i).getLsbD b = w.getLsbD (i * k + b) := by
  simp [field, hb]

lemma getLsbD_setField (w : BitVec n) (i : ℕ) (x : BitVec k) (b : ℕ) (hb : b < n) :
    (setField k w i x).getLsbD b =
      if i * k ≤ b ∧ b < i * k + k then x.getLsbD (b - i * k) else w.getLsbD b := by
  simp only [setField, BitVec.getLsbD_or, BitVec.getLsbD_and, BitVec.getLsbD_not,
    BitVec.getLsbD_shiftLeft, BitVec.getLsbD_setWidth, BitVec.getLsbD_allOnes]
  have hsub : b - i * k < n := by omega
  by_cases hlo : i * k ≤ b
  · by_cases hhi : b < i * k + k
    · have : b - i * k < k := by omega
      simp [hb, hsub, hlo, hhi, this, Nat.not_lt.mpr hlo]
    · have hk : ¬ b - i * k < k := by omega
      have hx : x.getLsbD (b - i * k) = false := BitVec.getLsbD_of_ge x _ (by omega)
      simp [hb, hhi, hk, hx]
  · have : b < i * k := by omega
    simp [hb, hlo, this]

lemma field_bit_ne {i j b : ℕ} (hij : i ≠ j) (hb : b < k) :
    ¬ (i * k ≤ j * k + b ∧ j * k + b < i * k + k) := by
  rintro ⟨hlo, hhi⟩
  rcases Nat.lt_or_gt_of_ne hij with h | h
  · have : (i + 1) * k ≤ j * k := Nat.mul_le_mul_right k h
    have : (i + 1) * k = i * k + k := Nat.succ_mul i k
    omega
  · have : (j + 1) * k ≤ i * k := Nat.mul_le_mul_right k h
    have : (j + 1) * k = j * k + k := Nat.succ_mul j k
    omega

theorem field_setField_self (w : BitVec n) {i : ℕ} (x : BitVec k) (hi : i * k + k ≤ n) :
    field k (setField k w i x) i = x := by
  apply BitVec.eq_of_getLsbD_eq
  intro b hb
  rw [getLsbD_field _ _ _ hb, getLsbD_setField _ _ _ _ (by omega), if_pos (by omega),
    Nat.add_sub_cancel_left]

/-- Words that agree outside field `i` have the same other fields. -/
lemma field_congr {w w' : BitVec n} {i j : ℕ}
    (h : ∀ b, ¬ (i * k ≤ b ∧ b < i * k + k) → w.getLsbD b = w'.getLsbD b) (hij : i ≠ j) :
    field k w j = field k w' j := by
  apply BitVec.eq_of_getLsbD_eq
  intro b hb
  rw [getLsbD_field _ _ _ hb, getLsbD_field _ _ _ hb]
  exact h _ (field_bit_ne hij hb)

theorem field_clear_ne (w : BitVec n) {i j : ℕ} (hij : i ≠ j) :
    field k (w &&& ~~~((BitVec.allOnes k).setWidth n <<< (i * k))) j = field k w j := by
  refine field_congr (fun b hb => ?_) hij
  simp only [BitVec.getLsbD_and, BitVec.getLsbD_not, BitVec.getLsbD_shiftLeft,
    BitVec.getLsbD_setWidth, BitVec.getLsbD_allOnes]
  by_cases hn : b < n
  · by_cases hlo : b < i * k
    · simp [hn, hlo]
    · have hk : ¬ b - i * k < k := by omega
      simp [hn, hk]
  · simp [BitVec.getLsbD_of_ge w b (by omega)]

theorem field_or_ne (w : BitVec n) {i j : ℕ} (x : BitVec k) (hij : i ≠ j) :
    field k (w ||| (x.setWidth n <<< (i * k))) j = field k w j := by
  refine field_congr (fun b hb => ?_) hij
  simp only [BitVec.getLsbD_or, BitVec.getLsbD_shiftLeft, BitVec.getLsbD_setWidth]
  by_cases hlo : b < i * k
  · simp [hlo]
  · simp [BitVec.getLsbD_of_ge x (b - i * k) (by omega)]

theorem field_setField_ne (w : BitVec n) {i j : ℕ} (x : BitVec k) (hij : i ≠ j) :
    field k (setField k w i x) j = field k w j := by
  rw [setField, field_or_ne _ _ hij, field_clear_ne _ hij]

theorem setField_comm (w : BitVec n) {i j : ℕ} (x y : BitVec k) (hij : i ≠ j) :
    setField k (setField k w i x) j y = setField k (setField k w j y) i x := by
  apply BitVec.eq_of_getLsbD_eq
  intro b hb
  simp only [getLsbD_setField _ _ _ _ hb]
  by_cases hj : j * k ≤ b ∧ b < j * k + k
  · have hi : ¬ (i * k ≤ b ∧ b < i * k + k) := by
      have := field_bit_ne (k := k) (b := b - j * k) hij (by omega)
      have hb' : j * k + (b - j * k) = b := by omega
      rwa [hb'] at this
    rw [if_pos hj, if_neg hi, if_pos hj]
  · simp only [if_neg hj]

end Cs7000pBootloader.Lib
