import Mathlib.Algebra.Group.Nat.Defs
import Mathlib.Data.List.Basic
import Mathlib.Data.List.GetD
import Mathlib.Logic.Function.Basic
import Mathlib.Tactic.TypeStar

/-!
Byte memories over a ring of `2 ^ w` addresses: the stores that place a string of bytes at an
address, and the memory a list of stores leaves behind.
-/

namespace Cs7000pBootloader.Lib

variable {w : ℕ} {β : Type*}

/-- The stores that place `bs` at `a`, one address after the other. -/
def placed : BitVec w → List β → List (BitVec w × β)
  | _, [] => []
  | a, b :: bs => (a, b) :: placed (a + 1#w) bs

@[simp] lemma placed_nil (a : BitVec w) : placed a ([] : List β) = [] := rfl

@[simp] lemma placed_cons (a : BitVec w) (b : β) (bs : List β) :
    placed a (b :: bs) = (a, b) :: placed (a + 1#w) bs := rfl

lemma succ_add_ofNat (a : BitVec w) (i : ℕ) :
    a + 1#w + BitVec.ofNat w i = a + BitVec.ofNat w (i + 1) := by
  rw [BitVec.ofNat_add, BitVec.add_assoc, BitVec.add_comm 1#w]

lemma toNat_add_ofNat {a : BitVec w} {i : ℕ} (h : a.toNat + i < 2 ^ w) :
    (a + BitVec.ofNat w i).toNat = a.toNat + i := by
  rw [BitVec.toNat_add, BitVec.toNat_ofNat, Nat.mod_eq_of_lt (a := i) (by omega),
    Nat.mod_eq_of_lt h]

@[simp] lemma length_placed (a : BitVec w) (bs : List β) : (placed a bs).length = bs.length := by
  induction bs generalizing a with
  | nil => rfl
  | cons b bs ih => simp [ih]

theorem placed_append (a : BitVec w) (bs cs : List β) :
    placed a (bs ++ cs) = placed a bs ++ placed (a + BitVec.ofNat w bs.length) cs := by
  induction bs generalizing a with
  | nil => simp
  | cons b bs ih => simp [ih, succ_add_ofNat]

theorem placed_eq_mapIdx (a : BitVec w) (bs : List β) :
    placed a bs = bs.mapIdx fun i b => (a + BitVec.ofNat w i, b) := by
  induction bs generalizing a with
  | nil => rfl
  | cons b bs ih => simp [List.mapIdx_cons, ih, succ_add_ofNat]

/-- **Chunks of a placement.** `n` chunks of `k` bytes placed at multiples of `k` are one
placement. -/
theorem flatMap_placed (a : BitVec w) (f : ℕ → β) (k n : ℕ) :
    ((List.range n).flatMap fun i =>
        placed (a + BitVec.ofNat w (k * i)) ((List.range k).map fun j => f (k * i + j))) =
      placed a ((List.range (k * n)).map f) := by
  induction n with
  | zero => simp
  | succ n ih =>
    rw [List.range_succ, List.flatMap_append, ih, Nat.mul_succ, List.range_add, List.map_append,
      placed_append]
    simp [Function.comp_def]

theorem mem_placed {a x : BitVec w} {b : β} {bs : List β} (h : (x, b) ∈ placed a bs) :
    ∃ i < bs.length, x = a + BitVec.ofNat w i := by
  rw [placed_eq_mapIdx, List.mem_mapIdx] at h
  obtain ⟨i, hi, he⟩ := h
  exact ⟨i, hi, (Prod.mk.inj he).1.symm⟩

/-! ### Memories -/

/-- The memory after one store. -/
def poke (m : BitVec w → β) (s : BitVec w × β) : BitVec w → β := Function.update m s.1 s.2

/-- The memory after a list of stores, first to last. -/
def pokes (m : BitVec w → β) (ss : List (BitVec w × β)) : BitVec w → β := ss.foldl poke m

@[simp] lemma pokes_nil (m : BitVec w → β) : pokes m [] = m := rfl

@[simp] lemma pokes_cons (m : BitVec w → β) (s : BitVec w × β) (ss : List (BitVec w × β)) :
    pokes m (s :: ss) = pokes (poke m s) ss := rfl

theorem pokes_of_not_mem (m : BitVec w → β) {ss : List (BitVec w × β)} {x : BitVec w}
    (h : ∀ s ∈ ss, s.1 ≠ x) : pokes m ss x = m x := by
  induction ss generalizing m with
  | nil => rfl
  | cons s ss ih =>
    rw [pokes_cons, ih _ fun t ht => h t (List.mem_cons_of_mem _ ht)]
    exact Function.update_of_ne (h s List.mem_cons_self).symm _ _

/-- **What a placement leaves.** Bytes placed inside the address space are found one after the
other, and every address outside of them is unchanged. -/
theorem pokes_placed (m : BitVec w → β) (a : BitVec w) (bs : List β)
    (h : a.toNat + bs.length ≤ 2 ^ w) (x : BitVec w) :
    pokes m (placed a bs) x =
      if a.toNat ≤ x.toNat then (bs[x.toNat - a.toNat]?).getD (m x) else m x := by
  induction bs generalizing m a with
  | nil => simp
  | cons b bs ih =>
    have hx := x.isLt
    simp only [List.length_cons] at h
    rw [placed_cons, pokes_cons]
    cases bs with
    | nil =>
      simp only [placed_nil, pokes_nil, poke]
      by_cases hxa : x = a
      · subst hxa; simp
      · have hne : x.toNat ≠ a.toNat := fun hc => hxa (BitVec.eq_of_toNat_eq hc)
        rw [Function.update_of_ne hxa]
        split
        · rw [List.getElem?_eq_none (by simp; omega), Option.getD_none]
        · rfl
    | cons c cs =>
      -- two bytes or more: the address after `a` is not a wrapped one
      simp only [List.length_cons] at h
      have ha : (a + 1#w).toNat = a.toNat + 1 := by
        rw [BitVec.toNat_add, BitVec.toNat_ofNat, Nat.mod_eq_of_lt (a := 1) (by omega),
          Nat.mod_eq_of_lt (by omega)]
      rw [ih (poke m (a, b)) (a + 1#w) (by simp only [List.length_cons]; omega), ha]
      by_cases hxa : x = a
      · subst hxa
        rw [if_neg (by omega)]
        simp [poke]
      · have hne : x.toNat ≠ a.toNat := fun hc => hxa (BitVec.eq_of_toNat_eq hc)
        have hp : poke m (a, b) x = m x := Function.update_of_ne hxa _ _
        rw [hp]
        by_cases hle : a.toNat + 1 ≤ x.toNat
        · rw [if_pos hle, if_pos (by omega),
            show x.toNat - a.toNat = (x.toNat - (a.toNat + 1)) + 1 by omega]
          rfl
        · rw [if_neg hle, if_neg (by omega)]

theorem map_pokes_placed (m : BitVec w → β) (a : BitVec w) (bs : List β)
    (h : a.toNat + bs.length ≤ 2 ^ w) {i n : ℕ} (hin : i + n ≤ bs.length) :
    (List.range n).map (fun j => pokes m (placed a bs) (a + BitVec.ofNat w (i + j))) =
      (bs.drop i).take n := by
  apply List.ext_getElem
  · simp; omega
  · intro j hj hj'
    simp only [List.length_map, List.length_range] at hj
    simp only [List.getElem_map, List.getElem_range, List.getElem_take, List.getElem_drop]
    have ht : (a + BitVec.ofNat w (i + j)).toNat = a.toNat + (i + j) := toNat_add_ofNat (by omega)
    rw [pokes_placed m a bs h, ht, if_pos (by omega), Nat.add_sub_cancel_left,
      List.getElem?_eq_getElem (by omega), Option.getD_some]

end Cs7000pBootloader.Lib
