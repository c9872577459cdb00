import Cs7000pBootloader.Lib.ByteMem
import Mathlib.Data.List.Nodup

/-!
Memories whose cells take a value only when they are blank, as the cells of a flash array do.  What
a cell holds after it is programmed over another value is a parameter, `blend`; a list of stores to
blank cells, none of them twice, leaves what a list of writes would.
-/

namespace Cs7000pBootloader.Lib

variable {w : ℕ} {β : Type*} (blend : β → β → β)

/-- The memory after one cell is programmed. -/
def program (m : BitVec w → β) (s : BitVec w × β) : BitVec w → β :=
  Function.update m s.1 (blend (m s.1) s.2)

/-- The memory after a list of stores, first to last. -/
def programs (m : BitVec w → β) (ss : List (BitVec w × β)) : BitVec w → β :=
  ss.foldl (program blend) m

variable {blend}

lemma program_blank {blank : β} (hb : ∀ b, blend blank b = b) {m : BitVec w → β}
    {s : BitVec w × β} (h : m s.1 = blank) : program blend m s = poke m s := by
  rw [program, h, hb, poke]

/-- **Blank cells, each programmed once**, hold what was stored. -/
theorem programs_eq_pokes {blank : β} (hb : ∀ b, blend blank b = b) {m : BitVec w → β}
    {ss : List (BitVec w × β)} (hblank : ∀ s ∈ ss, m s.1 = blank)
    (honce : (ss.map Prod.fst).Nodup) : programs blend m ss = pokes m ss := by
  induction ss generalizing m with
  | nil => rfl
  | cons s ss ih =>
    rw [List.map_cons, List.nodup_cons] at honce
    obtain ⟨hnot, honce⟩ := honce
    have hfirst : program blend m s = poke m s := program_blank hb (hblank s List.mem_cons_self)
    have hrest : ∀ t ∈ ss, poke m s t.1 = blank := by
      intro t ht
      have hne : t.1 ≠ s.1 := fun hc => hnot (hc ▸ List.mem_map_of_mem ht)
      rw [poke, Function.update_of_ne hne]
      exact hblank t (List.mem_cons_of_mem s ht)
    rw [pokes_cons, ← ih hrest honce, ← hfirst]
    rfl

theorem nodup_placed (a : BitVec w) {bs : List β} (h : bs.length ≤ 2 ^ w) :
    ((placed a bs).map Prod.fst).Nodup := by
  have hmap : (placed a bs).map Prod.fst =
      (List.range bs.length).map fun i => a + BitVec.ofNat w i := by
    apply List.ext_getElem
    · simp
    · intro i _ _
      simp [placed_eq_mapIdx]
  rw [hmap]
  refine List.Nodup.map_on (fun i hi j hj hij => ?_) List.nodup_range
  have hi' := List.mem_range.mp hi
  have hj' := List.mem_range.mp hj
  have heq : (BitVec.ofNat w i).toNat = (BitVec.ofNat w j).toNat :=
    congrArg BitVec.toNat ((BitVec.add_right_inj a).mp hij)
  rwa [BitVec.toNat_ofNat, BitVec.toNat_ofNat, Nat.mod_eq_of_lt (by omega),
    Nat.mod_eq_of_lt (by omega)] at heq

end Cs7000pBootloader.Lib
