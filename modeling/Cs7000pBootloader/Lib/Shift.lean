import Mathlib.Data.BitVec

/-!
Serial transfer: the bits of a buffer in the order in which they are sent, and the contents of a
shift register after a list of bits has been shifted in.
-/

namespace Cs7000pBootloader.Lib

/-- The bits of a word, most significant first. -/
def msbFirst {n : ℕ} (v : BitVec n) : List Bool := (List.range n).map v.getMsbD

/-- The bits of a buffer, word after word. -/
def bitsOf {n : ℕ} (buf : List (BitVec n)) : List Bool := buf.flatMap msbFirst

section Bits

variable {n : ℕ}

@[simp] lemma length_msbFirst (v : BitVec n) : (msbFirst v).length = n := by simp [msbFirst]

@[simp] lemma bitsOf_nil : bitsOf ([] : List (BitVec n)) = [] := rfl

@[simp] lemma bitsOf_cons (v : BitVec n) (buf : List (BitVec n)) :
    bitsOf (v :: buf) = msbFirst v ++ bitsOf buf := rfl

theorem length_bitsOf (buf : List (BitVec n)) : (bitsOf buf).length = buf.length * n := by
  induction buf with
  | nil => simp
  | cons v buf ih =>
    rw [bitsOf_cons, List.length_append, ih, length_msbFirst, List.length_cons, Nat.succ_mul,
      Nat.add_comm]

/-- Bit `i` of the stream is bit `i % n` of word `i / n`. -/
theorem getElem?_bitsOf (hn : 0 < n) (buf : List (BitVec n)) (i : ℕ) :
    (bitsOf buf)[i]? = buf[i / n]?.map fun v => v.getMsbD (i % n) := by
  induction buf generalizing i with
  | nil => simp
  | cons v buf ih =>
    rw [bitsOf_cons]
    by_cases hi : i < n
    · rw [List.getElem?_append_left (by simpa using hi), Nat.div_eq_of_lt hi, Nat.mod_eq_of_lt hi]
      simp [msbFirst, hi]
    · have hdiv : i / n = (i - n) / n + 1 := by
        rw [← Nat.div_eq_sub_div hn (by omega)]
      have hmod : i % n = (i - n) % n := Nat.mod_eq_sub_mod (by omega)
      rw [List.getElem?_append_right (by simpa using hi), length_msbFirst, ih, hdiv, hmod,
        List.getElem?_cons_succ]

end Bits

/-- **Shifting in**: the last bit is in stage 0, the one before it in stage 1, and what the register
held has moved on. -/
theorem getLsbD_foldl_shiftConcat {m : ℕ} (bits : List Bool) (s : BitVec m) {i : ℕ} (hi : i < m) :
    (bits.foldl BitVec.shiftConcat s).getLsbD i =
      (bits.reverse[i]?).getD (s.getLsbD (i - bits.length)) := by
  induction bits generalizing s with
  | nil => rfl
  | cons b bits ih =>
    rw [List.foldl_cons, ih, BitVec.getLsbD_shiftConcat, List.reverse_cons, List.length_cons]
    by_cases hlt : i < bits.length
    · rw [List.getElem?_append_left (by simpa using hlt)]
      simp [hlt]
    · by_cases heq : i = bits.length
      · subst heq
        simp [Nat.lt_of_le_of_lt (Nat.zero_le _) hi]
      · have hsub : i - bits.length ≠ 0 := by omega
        have hlt' : i - bits.length < m := by omega
        have hone : i - bits.length - 1 = i - (bits.length + 1) := by omega
        rw [List.getElem?_eq_none (by simp; omega), List.getElem?_eq_none (by simp; omega)]
        simp [hsub, hlt', hone]

end Cs7000pBootloader.Lib
