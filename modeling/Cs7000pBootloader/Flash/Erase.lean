import Cs7000pBootloader.Flash.Process

/-!
How far an erase has come, read off the bus: nothing is started while it is pending, `START` is
written once when it begins, and the driver is idle again only after `QW` has read low behind it.
-/

namespace Cs7000pBootloader.Flash

/-- **The progress of an erase** of sector `s`, with what the driver did since it took it. -/
inductive EraseProgress (s : BitVec 3) (d : FlashDev) : List Bus → Prop
  | pending {tr} : d.ctx.state = .erasePending → (addrToSector d.ctx.addr).setWidth 3 = s →
      effects tr = [] → EraseProgress s d tr
  | busy {a v b} : d.ctx.state = .eraseBusy → v.ser = true →
      effects (a ++ .start v :: b) = [.erase s] → EraseProgress s d (a ++ .start v :: b)
  | done {a v b r} : d.ctx.state = .idle → v.ser = true → .sr2 r ∈ b → r.qw = false →
      effects (a ++ .start v :: b) = [.erase s] → EraseProgress s d (a ++ .start v :: b)

variable {s : BitVec 3} {d d' : FlashDev} {tr q : List Bus}

lemma EraseProgress.still (h : EraseProgress s d tr) (hq : effects q = []) :
    EraseProgress s d (tr ++ q) := by
  cases h with
  | pending hs ha he => exact .pending hs ha (by rw [effects_append, he, hq]; rfl)
  | @busy a v b hs hv he =>
    rw [List.append_assoc, List.cons_append]
    refine .busy hs hv ?_
    rw [← List.cons_append, ← List.append_assoc, effects_append, he, hq]
    rfl
  | @done a v b r hs hv hr hl he =>
    rw [List.append_assoc, List.cons_append]
    refine .done hs hv (List.mem_append_left _ hr) hl ?_
    rw [← List.cons_append, ← List.append_assoc, effects_append, he, hq]
    rfl

lemma EraseProgress.move (h : EraseProgress s d tr) (hm : Move d d' q) :
    EraseProgress s d' (tr ++ q) := by
  cases hm with
  | idle => simpa using h
  | wait _ hq => exact h.still hq.effects_eq
  | @eraseStart q c₁ c₂ c₃ c₄ hs hr he =>
    simp only [eraseModes, Prod.mk.injEq] at he
    obtain ⟨rfl, rfl, rfl, rfl⟩ := he
    cases h with
    | busy hb | done hb => exact absurd (hs.symm.trans hb) (by decide)
    | pending _ ha het =>
      have hsplit : ∀ c₁ c₂ c₃ c₄ c₅ : Bus, tr ++ (q ++ [c₁, c₂, c₃, c₄, c₅]) =
          (tr ++ q ++ [c₁, c₂, c₃, c₄]) ++ c₅ :: [] := by simp
      rw [hsplit]
      refine .busy rfl rfl ?_
      simp [het, hr.1.effects_eq, Bus.effects, ha]
  | @eraseDone q hs hr =>
    obtain ⟨hq, r, rest, rfl, hl⟩ := hr
    cases h with
    | pending hb | done hb => exact absurd (hs.symm.trans hb) (by decide)
    | @busy a v b _ hv he =>
      rw [List.append_assoc, List.cons_append]
      refine .done rfl hv (List.mem_append_right _ (by simp)) hl ?_
      rw [← List.cons_append, ← List.append_assoc, effects_append, he, effects_append,
        hq.effects_eq]
      rfl
  | writeStart hs | write hs =>
    cases h with
    | pending hb | busy hb | done hb => exact absurd (hs.symm.trans hb) (by decide)

/-- An erase that is over: its sector was erased once, by a `START` with `SER` set, and `QW` has
read low after it. -/
def Erased (s : BitVec 3) (tr : List Bus) : Prop :=
  effects tr = [.erase s] ∧
    ∃ a v b r, tr = a ++ .start v :: b ∧ v.ser = true ∧ .sr2 r ∈ b ∧ r.qw = false

lemma EraseProgress.erased (h : EraseProgress s d tr) (hi : d.ctx.state = .idle) : Erased s tr := by
  cases h with
  | pending hb | busy hb => exact absurd (hi.symm.trans hb) (by decide)
  | done _ hv hr hl he => exact ⟨he, _, _, _, _, rfl, hv, hr, hl⟩

end Cs7000pBootloader.Flash
