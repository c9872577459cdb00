import Mathlib.Data.BitVec
import Mathlib.Logic.Function.Basic

/-!
A few instructions of an assembly language with conditional execution: a step, a run of so many steps,
and the rule for a loop that counts a register up to another.  An instruction whose condition fails is
a step as well.
-/

namespace Cs7000pBootloader.Lib.Asm

/-- The condition of an instruction: `lo` after a comparison that was lower. -/
inductive Cond where
  | always
  | lo
  deriving DecidableEq, Repr

/-- Instructions on registers `ρ` of `w` bits. -/
inductive Instr (ρ : Type*) (w : ℕ) where
  | mov (d : ρ) (n : BitVec w)
  | mul (d a b : ρ)
  | cmp (a b : ρ)
  /-- the head of a block; the conditions stand on the instructions of the block -/
  | it
  | add (c : Cond) (d a : ρ) (n : BitVec w)
  | branch (c : Cond) (target : ℕ)

/-- The registers, the carry flag and the program counter. -/
structure Cpu (ρ : Type*) (w : ℕ) where
  regs : ρ → BitVec w
  carry : Bool
  pc : ℕ

variable {ρ : Type*} [DecidableEq ρ] {w : ℕ}

def Cond.holds (s : Cpu ρ w) : Cond → Bool
  | .always => true
  | .lo => !s.carry

/-- The step to the next instruction, with a register written. -/
def Cpu.put (s : Cpu ρ w) (d : ρ) (v : BitVec w) : Cpu ρ w :=
  { s with regs := Function.update s.regs d v, pc := s.pc + 1 }

def Cpu.skip (s : Cpu ρ w) : Cpu ρ w := { s with pc := s.pc + 1 }

/-- A comparison sets the carry when nothing is borrowed. -/
def exec (s : Cpu ρ w) : Instr ρ w → Cpu ρ w
  | .mov d n => s.put d n
  | .mul d a b => s.put d (s.regs a * s.regs b)
  | .cmp a b => { s with carry := decide (s.regs b ≤ s.regs a), pc := s.pc + 1 }
  | .it => s.skip
  | .add c d a n => if c.holds s then s.put d (s.regs a + n) else s.skip
  | .branch c target => if c.holds s then { s with pc := target } else s.skip

/-- One step; there is none behind the end of the program. -/
def next (prog : List (Instr ρ w)) (s : Cpu ρ w) : Option (Cpu ρ w) := prog[s.pc]?.map (exec s)

/-- So many steps. -/
def runFor (prog : List (Instr ρ w)) : ℕ → Cpu ρ w → Option (Cpu ρ w)
  | 0, s => some s
  | n + 1, s => (next prog s).bind (runFor prog n)

/-- The program ends after exactly `n` steps. -/
def EndsAfter (prog : List (Instr ρ w)) (n : ℕ) (s t : Cpu ρ w) : Prop :=
  runFor prog n s = some t ∧ next prog t = none

section Run

variable {prog : List (Instr ρ w)} {s t u : Cpu ρ w} {m n : ℕ}

lemma runFor_add (h : runFor prog m s = some t) : runFor prog (m + n) s = runFor prog n t := by
  induction m generalizing s with
  | zero =>
    obtain rfl : s = t := Option.some.inj h
    rw [Nat.zero_add]
  | succ m ih =>
    obtain ⟨u, hu, hrest⟩ := Option.bind_eq_some_iff.mp h
    rw [Nat.succ_add, runFor, hu, Option.bind_some, ih hrest]

lemma runFor_step {i : Instr ρ w} (h : prog[s.pc]? = some i) :
    runFor prog (n + 1) s = runFor prog n (exec s i) := by
  rw [runFor, next, h]
  rfl

lemma EndsAfter.unique (h : EndsAfter prog m s t) (h' : EndsAfter prog n s u) : m = n := by
  wlog hle : m ≤ n generalizing m n t u
  · exact (this h' h (Nat.le_of_not_le hle)).symm
  obtain ⟨k, rfl⟩ := Nat.exists_eq_add_of_le hle
  have hrun := h'.1
  rw [runFor_add h.1] at hrun
  cases k with
  | zero => rfl
  | succ k =>
    rw [runFor, h.2] at hrun
    cases hrun

/-! ### Counting up -/

/-- The loop at `k` that counts `i` up to `lim`. -/
structure CountsUp (prog : List (Instr ρ w)) (k : ℕ) (i lim : ρ) : Prop where
  cmp : prog[k]? = some (.cmp i lim)
  it : prog[k + 1]? = some .it
  add : prog[k + 2]? = some (.add .lo i i 1)
  branch : prog[k + 3]? = some (.branch .lo k)
  ne : lim ≠ i

variable {k : ℕ} {i lim : ρ} {regs : ρ → BitVec w} {c : Bool}

lemma CountsUp.turn (h : CountsUp prog k i lim) (hlt : regs i < regs lim) :
    runFor prog (4 + n) ⟨regs, c, k⟩ =
      runFor prog n ⟨Function.update regs i (regs i + 1), false, k⟩ := by
  have hcmp : decide (regs lim ≤ regs i) = false := decide_eq_false (BitVec.not_le.mpr hlt)
  refine runFor_add ?_
  rw [runFor_step h.cmp, exec, hcmp, runFor_step h.it, exec, Cpu.skip, runFor_step h.add, exec,
    Cond.holds, Bool.not_false, if_pos rfl, Cpu.put, runFor_step h.branch, exec, Cond.holds,
    Bool.not_false, if_pos rfl]
  rfl

lemma CountsUp.exit (h : CountsUp prog k i lim) (hge : regs lim ≤ regs i) :
    runFor prog 4 ⟨regs, c, k⟩ = some ⟨regs, true, k + 4⟩ := by
  rw [runFor_step h.cmp, exec, decide_eq_true hge, runFor_step h.it, exec, Cpu.skip,
    runFor_step h.add, exec, Cond.holds, Bool.not_true, if_neg Bool.false_ne_true, Cpu.skip,
    runFor_step h.branch, exec, Cond.holds, Bool.not_true, if_neg Bool.false_ne_true, Cpu.skip]
  rfl

/-- **The rule of the loop**: four steps for each number that it counts and four at the end, in which
the counter has reached its limit and nothing else has changed. -/
theorem CountsUp.runFor (h : CountsUp prog k i lim) (regs : ρ → BitVec w)
    (hle : regs i ≤ regs lim) : runFor prog (4 * ((regs lim).toNat - (regs i).toNat) + 4) ⟨regs, c, k⟩ =
      some ⟨Function.update regs i (regs lim), true, k + 4⟩ := by
  generalize hd : (regs lim).toNat - (regs i).toNat = d
  have hle' := BitVec.le_def.mp hle
  induction d generalizing regs c with
  | zero =>
    have heq : regs i = regs lim := BitVec.eq_of_toNat_eq (by omega)
    rw [Nat.mul_zero, Nat.zero_add, h.exit (BitVec.le_of_eq heq.symm), ← heq,
      Function.update_eq_self]
  | succ d ih =>
    have hlt : regs i < regs lim := BitVec.lt_def.mpr (by omega)
    have hlast := (regs lim).isLt
    have hone : (1 : BitVec w).toNat = 1 := by
      show 1 % 2 ^ w = 1
      exact Nat.mod_eq_of_lt (by omega)
    have hnext : (regs i + 1).toNat = (regs i).toNat + 1 := by
      rw [BitVec.toNat_add, hone, Nat.mod_eq_of_lt (by omega)]
    have hsplit : 4 * (d + 1) + 4 = 4 + (4 * d + 4) := by omega
    have hlim : Function.update regs i (regs i + 1) lim = regs lim := Function.update_of_ne h.ne _ _
    have hi : Function.update regs i (regs i + 1) i = regs i + 1 := Function.update_self _ _ _
    rw [hsplit, h.turn hlt, ih]
    · rw [hlim, Function.update_idem]
    · rw [hlim, hi]
      exact BitVec.le_def.mpr (by omega)
    · rw [hlim, hi, hnext]
      omega
    · rw [hlim, hi]
      omega

end Run

end Cs7000pBootloader.Lib.Asm
