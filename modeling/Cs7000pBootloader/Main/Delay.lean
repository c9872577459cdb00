import Cs7000pBootloader.Lib.Asm

/-!
The delay loops: the inline assembly of `delayUs` and `delayMs`, instruction by instruction.  Both end
for every argument, after a number of instructions that depends on the argument alone.  `delayUs`
multiplies in 32 bits, so a delay that is too long comes out short; below that bound a millisecond of
the one is a thousand microseconds of the other, up to the instructions around the loop.
-/

namespace Cs7000pBootloader.Main

open Cs7000pBootloader.Lib.Asm

/-! ### The loops -/

/-- The operand `%0` and the registers that the assembly names. -/
inductive Reg where
  | arg
  | r1
  | r2
  deriving DecidableEq, Repr

abbrev Core := Cpu Reg 32

/-- The assembly of `delayUs`. -/
def delayUsAsm : List (Instr Reg 32) :=
  [.mov .r1 133, .mul .r2 .arg .r1, .mov .r1 0,
    .cmp .r1 .r2, .it, .add .lo .r1 .r1 1, .branch .lo 3]

/-- The assembly in the loop of `delayMs`. -/
def delayMsAsm : List (Instr Reg 32) :=
  [.mov .r1 0, .cmp .r1 .arg, .it, .add .lo .r1 .r1 1, .branch .lo 1]

/-- `count` of `delayMs` -/
def count : BitVec 32 := 133000

/-- `delayUs` from the state `s` ends in `t`, after `n` instructions of the assembly. -/
def DelayUs (useconds : BitVec 32) (n : ℕ) (s t : Core) : Prop :=
  EndsAfter delayUsAsm n ⟨Function.update s.regs .arg useconds, s.carry, 0⟩ t

/-- The loop of `delayMs`: so many turns, with the instructions of the assembly in all. -/
inductive DelayMs : ℕ → ℕ → Core → Core → Prop
  | done {s} : DelayMs 0 0 s s
  | turn {m n n' s t u} : EndsAfter delayMsAsm n ⟨Function.update s.regs .arg count, s.carry, 0⟩ t →
      DelayMs m n' t u → DelayMs (m + 1) (n + n') s u

/-! ### How long they take -/

/-- The instructions of `delayUs`: four for each turn of the loop, and seven around it. -/
def usSteps (useconds : BitVec 32) : ℕ := 4 * (133 * useconds.toNat % 2 ^ 32) + 7

/-- The instructions of a turn of `delayMs`. -/
def msSteps : ℕ := 4 * 133000 + 5

section Delays

variable {n : ℕ}

lemma delayUs_ends (useconds : BitVec 32) (s : Core) : ∃ t, DelayUs useconds (usSteps useconds) s t := by
  have hloop : CountsUp delayUsAsm 3 .r1 .r2 := ⟨rfl, rfl, rfl, rfl, by decide⟩
  have hlim : (useconds * 133).toNat = 133 * useconds.toNat % 2 ^ 32 := by
    rw [BitVec.toNat_mul, Nat.mul_comm]
    rfl
  -- the state in front of the loop
  have hstart := hloop.runFor (c := s.carry) (Function.update (Function.update
    (Function.update (Function.update s.regs .arg useconds) .r1 133) .r2 (useconds * 133)) .r1 0)
    (BitVec.le_def.mpr (Nat.zero_le _))
  have hsteps : usSteps useconds = 4 * ((useconds * 133).toNat - 0) + 4 + 1 + 1 + 1 := by
    rw [hlim]
    rfl
  refine ⟨_, Eq.trans ?_ hstart, rfl⟩
  rw [hsteps, runFor_step rfl, runFor_step rfl, runFor_step rfl]
  rfl

/-- **`delayUs`** ends after that many instructions, and not before. -/
theorem delayUs_iff (useconds : BitVec 32) (s : Core) :
    (∃ t, DelayUs useconds n s t) ↔ n = usSteps useconds := by
  obtain ⟨t, ht⟩ := delayUs_ends useconds s
  constructor
  · rintro ⟨t', ht'⟩
    exact ht'.unique ht
  · rintro rfl
    exact ⟨t, ht⟩

lemma delayMs_turn_ends (s : Core) :
    ∃ t, EndsAfter delayMsAsm msSteps ⟨Function.update s.regs .arg count, s.carry, 0⟩ t := by
  have hloop : CountsUp delayMsAsm 1 .r1 .arg := ⟨rfl, rfl, rfl, rfl, by decide⟩
  have hstart := hloop.runFor (c := s.carry)
    (Function.update (Function.update s.regs .arg count) .r1 0)
    (BitVec.le_def.mpr (Nat.zero_le _))
  have hsteps : msSteps = 4 * (count.toNat - 0) + 4 + 1 := rfl
  refine ⟨_, Eq.trans ?_ hstart, rfl⟩
  rw [hsteps, runFor_step rfl]
  rfl

/-- **`delayMs`** ends after that many instructions. -/
theorem delayMs_iff (mseconds : ℕ) (s : Core) :
    (∃ t, DelayMs mseconds n s t) ↔ n = mseconds * msSteps := by
  induction mseconds generalizing n s with
  | zero =>
    rw [Nat.zero_mul]
    constructor
    · rintro ⟨t, ⟨⟩⟩
      rfl
    · rintro rfl
      exact ⟨s, .done⟩
  | succ m ih =>
    obtain ⟨t, ht⟩ := delayMs_turn_ends s
    rw [Nat.succ_mul, Nat.add_comm (m * msSteps)]
    constructor
    · rintro ⟨u, hu⟩
      cases hu with
      | turn hturn hrest =>
        rw [hturn.unique ht, (ih _).mp ⟨u, hrest⟩]
    · rintro rfl
      obtain ⟨u, hu⟩ := (ih t).mpr rfl
      exact ⟨u, .turn ht hu⟩

end Delays

/-- **The delays end**, for every argument and from every state of the registers, after exactly so
many instructions; and `m` milliseconds are `1000 * m` microseconds, turn for turn of the loops, exactly
as long as the product fits into 32 bits. -/
theorem delays_exact (s : Core) (n : ℕ) (useconds m : BitVec 32) :
    ((∃ t, DelayUs useconds n s t) ↔ n = usSteps useconds) ∧
      ((∃ t, DelayMs m.toNat n s t) ↔ n = m.toNat * msSteps) ∧
      (usSteps (1000 * m) + 5 * m.toNat = m.toNat * msSteps + 7 ↔ 133000 * m.toNat < 2 ^ 32) := by
  refine ⟨delayUs_iff useconds s, delayMs_iff m.toNat s, ?_⟩
  have hm : 133 * (1000 * m).toNat % 2 ^ 32 = 133000 * m.toNat % 2 ^ 32 := by
    rw [BitVec.toNat_mul]
    show 133 * (1000 * m.toNat % 2 ^ 32) % 2 ^ 32 = _
    omega
  unfold usSteps msSteps
  rw [hm]
  omega

end Cs7000pBootloader.Main
