import Mathlib.Data.BitVec

/-!
Hexadecimal text: digits in upper case, numbers with a fixed count of digits, bytes with two digits
each; and reading them back.
-/

namespace Cs7000pBootloader.Lib

/-- The character of a digit. -/
def hexChar (d : ℕ) : BitVec 8 := if d < 10 then BitVec.ofNat 8 (0x30 + d) else BitVec.ofNat 8 (0x37 + d)

/-- The digit of a character. -/
def unhex (c : BitVec 8) : Option ℕ :=
  if 0x30 ≤ c.toNat ∧ c.toNat < 0x3A then some (c.toNat - 0x30)
  else if 0x41 ≤ c.toNat ∧ c.toNat < 0x47 then some (c.toNat - 0x37)
  else none

/-- The last `k` digits of a number, most significant first. -/
def hexOf : ℕ → ℕ → List (BitVec 8)
  | 0, _ => []
  | k + 1, n => hexOf k (n / 16) ++ [hexChar (n % 16)]

/-- The number that the digits stand for. -/
def readHex (s : List (BitVec 8)) : Option ℕ :=
  s.foldlM (fun n c => (unhex c).map (16 * n + ·)) 0

lemma unhex_hexChar {d : ℕ} (h : d < 16) : unhex (hexChar d) = some d := by
  unfold hexChar
  split_ifs with hd
  · have hn : (BitVec.ofNat 8 (0x30 + d)).toNat = 0x30 + d := by
      rw [BitVec.toNat_ofNat, Nat.mod_eq_of_lt (by omega)]
    have hr : 0x30 ≤ 0x30 + d ∧ 0x30 + d < 0x3A := by omega
    rw [unhex, hn, if_pos hr, Nat.add_sub_cancel_left]
  · have hn : (BitVec.ofNat 8 (0x37 + d)).toNat = 0x37 + d := by
      rw [BitVec.toNat_ofNat, Nat.mod_eq_of_lt (by omega)]
    have hl : ¬ (0x30 ≤ 0x37 + d ∧ 0x37 + d < 0x3A) := by omega
    have hr : 0x41 ≤ 0x37 + d ∧ 0x37 + d < 0x47 := by omega
    rw [unhex, hn, if_neg hl, if_pos hr, Nat.add_sub_cancel_left]

@[simp] lemma length_hexOf (k n : ℕ) : (hexOf k n).length = k := by
  induction k generalizing n with
  | zero => rfl
  | succ k ih => rw [hexOf, List.length_append, ih, List.length_singleton]

/-- **Reading back a number**: the digits give its remainder. -/
theorem readHex_hexOf (k n : ℕ) : readHex (hexOf k n) = some (n % 16 ^ k) := by
  induction k generalizing n with
  | zero => rw [Nat.pow_zero, Nat.mod_one]; rfl
  | succ k ih =>
    have hlt : n % 16 < 16 := Nat.mod_lt _ (by decide)
    have hsplit : 16 * (n / 16 % 16 ^ k) + n % 16 = n % 16 ^ (k + 1) := by
      rw [Nat.pow_succ, Nat.mul_comm (16 ^ k), Nat.mod_mul, Nat.add_comm]
    have hk := ih (n / 16)
    unfold readHex at hk ⊢
    rw [hexOf, List.foldlM_append, hk]
    simp [unhex_hexChar hlt, hsplit]

/-! ### Bytes -/

/-- A byte as two digits. -/
def hexByte (b : BitVec 8) : List (BitVec 8) := hexOf 2 b.toNat

/-- Bytes as text. -/
def hexBytes (bs : List (BitVec 8)) : List (BitVec 8) := bs.flatMap hexByte

/-- The bytes that the text stands for, two characters each. -/
def readHexBytes : List (BitVec 8) → Option (List (BitVec 8))
  | [] => some []
  | [_] => none
  | h :: l :: s =>
    match readHex [h, l], readHexBytes s with
    | some n, some bs => some (BitVec.ofNat 8 n :: bs)
    | _, _ => none

lemma hexByte_eq (b : BitVec 8) :
    hexByte b = [hexChar (b.toNat / 16 % 16), hexChar (b.toNat % 16)] := rfl

@[simp] lemma length_hexBytes (bs : List (BitVec 8)) : (hexBytes bs).length = 2 * bs.length := by
  induction bs with
  | nil => rfl
  | cons b bs ih =>
    rw [hexBytes, List.flatMap_cons, List.length_append, ← hexBytes, ih, hexByte, length_hexOf,
      List.length_cons]
    omega

/-- **Reading back bytes.** -/
theorem readHexBytes_hexBytes (bs : List (BitVec 8)) : readHexBytes (hexBytes bs) = some bs := by
  induction bs with
  | nil => rfl
  | cons b bs ih =>
    have hb : readHex [hexChar (b.toNat / 16 % 16), hexChar (b.toNat % 16)] = some b.toNat := by
      have hlt : b.toNat < 16 ^ 2 := b.isLt
      rw [← hexByte_eq, hexByte, readHex_hexOf, Nat.mod_eq_of_lt hlt]
    rw [hexBytes] at ih
    rw [hexBytes, List.flatMap_cons, hexByte_eq, List.cons_append, List.cons_append, List.nil_append,
      readHexBytes, hb, ih]
    simp

end Cs7000pBootloader.Lib
