import Cs7000pBootloader.Flash.Process

/-!
The mode bits of `CR2` and the state of the driver.  `PG` belongs to a running write and `SER` to a
running erase, and every store and every start is made under its own bit.  One call breaks the
pairing: `flash_init` forgets the operation and leaves its bit in the register.
-/

namespace Cs7000pBootloader.Flash

open Cs7000pBootloader.Lib

/-! ### Sequences of calls -/

/-- The calls the rest of the firmware makes to the driver.  A `length` above 1024, which overruns
the buffer in the source, is passed by no caller. -/
inductive FlashCall where
  | init
  | eraseSectorAsync (addr : Addr)
  | writeAsync (addr : Addr) (data : List Byte) (length : BitVec 16)
  | process (r : ℕ → Sr2)

def flashCall (d : FlashDev) : FlashCall → FlashDev × List Bus
  | .init => flashInit d
  | .eraseSectorAsync a => ((flashEraseSectorAsync a d).2, [])
  | .writeAsync a data n => (flashWriteAsync a data n d).2
  | .process r => flashProcess r d

/-! ### The discipline -/

/-- The mode bits in force after an access. -/
def Bus.mode (c : Cr2) : Bus → Cr2
  | .cr2 v => v
  | _ => c

/-- The access is allowed under the mode bits in force: no write of `CR2` sets `PG` and `SER`
together, a start needs `SER` without `PG`, a store needs `PG` without `SER`. -/
def Bus.Allowed (c : Cr2) : Bus → Prop
  | .cr2 v | .forceWrite v => ¬ (v.pg = true ∧ v.ser = true)
  | .start v => v.ser = true ∧ v.pg = false
  | .word _ _ | .byte _ _ => c.pg = true ∧ c.ser = false
  | _ => True

instance (c : Cr2) (b : Bus) : Decidable (b.Allowed c) := by
  cases b <;> unfold Bus.Allowed <;> infer_instance

/-- Every access of the trace is allowed at its moment. -/
def Disciplined : Cr2 → List Bus → Prop
  | _, [] => True
  | c, b :: tr => b.Allowed c ∧ Disciplined (b.mode c) tr

instance decidableDisciplined : ∀ (c : Cr2) (tr : List Bus), Decidable (Disciplined c tr)
  | _, [] => isTrue trivial
  | c, b :: tr => by
    haveI := decidableDisciplined (b.mode c) tr
    unfold Disciplined
    infer_instance

/-- The bits are never both set, and both are clear while nothing runs. -/
def Paired (d : FlashDev) : Prop :=
  ¬ (d.cr2.pg = true ∧ d.cr2.ser = true) ∧
  (d.ctx.state = .idle ∨ d.ctx.state = .erasePending ∨ d.ctx.state = .writePending →
    d.cr2.pg = false ∧ d.cr2.ser = false)

instance : DecidablePred Paired := fun d => by unfold Paired; infer_instance

/-- What is asked of a call: a disciplined trace and a paired state after it. -/
def ControlOk (d : FlashDev) (c : FlashCall) : Prop :=
  Disciplined d.cr2 (flashCall d c).2 ∧ Paired (flashCall d c).1

instance (d : FlashDev) (c : FlashCall) : Decidable (ControlOk d c) := by
  unfold ControlOk; infer_instance

/-- The call is no `flash_init` in the middle of a running erase or write. -/
def InitAtRest (d : FlashDev) : FlashCall → Prop
  | .init => d.ctx.state ≠ .eraseBusy ∧ d.ctx.state ≠ .writeBusy
  | _ => True

/-! ### Disciplined traces -/

lemma disciplined_append (c : Cr2) (a b : List Bus) :
    Disciplined c (a ++ b) ↔ Disciplined c a ∧ Disciplined (a.foldl Bus.mode c) b := by
  induction a generalizing c with
  | nil => simp [Disciplined]
  | cons x a ih => simp only [List.cons_append, Disciplined, ih, and_assoc, List.foldl_cons]

lemma disciplined_of_mode {c : Cr2} {tr : List Bus} (h : ∀ b ∈ tr, b.mode c = c ∧ b.Allowed c) :
    Disciplined c tr ∧ tr.foldl Bus.mode c = c := by
  induction tr with
  | nil => exact ⟨trivial, rfl⟩
  | cons b tr ih =>
    obtain ⟨⟨hmode, hb⟩, hrest⟩ := List.forall_mem_cons.mp h
    obtain ⟨hd, hc⟩ := ih hrest
    rw [Disciplined, List.foldl_cons, hmode]
    exact ⟨⟨hb, hd⟩, hc⟩

lemma Quiet.disciplined {q : List Bus} (h : Quiet q) (c : Cr2) :
    Disciplined c q ∧ q.foldl Bus.mode c = c := by
  refine disciplined_of_mode fun b hb => ?_
  have hq := h b hb
  cases b with
  | sr2 | clrEop | keyr2 | phoneTxd => exact ⟨rfl, trivial⟩
  | _ => cases hq

lemma Quiet.disciplined_append {q tr : List Bus} (h : Quiet q) {c : Cr2} :
    Disciplined c (q ++ tr) ↔ Disciplined c tr := by
  obtain ⟨hd, hmode⟩ := h.disciplined c
  rw [Flash.disciplined_append, hmode]
  exact and_iff_right hd

lemma disciplined_stores {tr : List Bus}
    (h : ∀ b ∈ tr, (∃ a bs, b = .word a bs) ∨ ∃ a x, b = .byte a x) {c : Cr2}
    (hpg : c.pg = true) (hser : c.ser = false) : Disciplined c tr := by
  refine (disciplined_of_mode fun b hb => ?_).1
  rcases h b hb with ⟨a, bs, rfl⟩ | ⟨a, x, rfl⟩
  · exact ⟨rfl, hpg, hser⟩
  · exact ⟨rfl, hpg, hser⟩

/-! ### The invariant -/

/-- **`PG` says that a write runs, and `SER` that an erase runs.** -/
structure Modes (d : FlashDev) : Prop where
  pg : d.cr2.pg = true ↔ d.ctx.state = .writeBusy
  ser : d.cr2.ser = true ↔ d.ctx.state = .eraseBusy

lemma Modes.paired {d : FlashDev} (h : Modes d) : Paired d := by
  refine ⟨fun hb => ?_, fun hs => ⟨?_, ?_⟩⟩
  · have := h.pg.mp hb.1
    rw [h.ser.mp hb.2] at this
    cases this
  · rw [← Bool.not_eq_true, h.pg]
    rcases hs with hs | hs | hs <;> simp [hs]
  · rw [← Bool.not_eq_true, h.ser]
    rcases hs with hs | hs | hs <;> simp [hs]

lemma WriteMove.modes {d d' : FlashDev} {tr : List Bus} (hm : WriteMove d d' tr) (h : Modes d)
    (hs : d.ctx.state = .writeBusy) : Modes d' ∧ Disciplined d.cr2 tr := by
  have hpg : d.cr2.pg = true := h.pg.mpr hs
  have hser : d.cr2.ser = false := by
    rw [← Bool.not_eq_true, h.ser, hs]
    simp
  cases hm with
  | wait hq => exact ⟨h, (hq.disciplined _).1⟩
  | burst hr =>
    refine ⟨⟨h.pg, h.ser⟩, hr.1.disciplined_append.mpr (disciplined_stores ?_ hpg hser)⟩
    intro b hb
    obtain ⟨i, -, rfl⟩ := List.mem_map.mp hb
    exact .inl ⟨_, _, rfl⟩
  | tail hr =>
    refine ⟨⟨h.pg, h.ser⟩, hr.1.disciplined_append.mpr (disciplined_stores ?_ hpg hser)⟩
    intro b hb
    obtain ⟨i, -, rfl⟩ := List.mem_map.mp hb
    exact .inr ⟨_, _, rfl⟩
  | force hr =>
    refine ⟨h, hr.1.disciplined_append.mpr ⟨trivial, ?_, trivial⟩⟩
    simp [Bus.Allowed, hser]
  | finish hr hr' =>
    refine ⟨⟨by simp, by simp [hser]⟩, ?_⟩
    rw [List.append_assoc, hr.1.disciplined_append]
    refine ⟨trivial, hr'.1.disciplined_append.mpr ⟨?_, trivial, trivial⟩⟩
    simp [Bus.Allowed]

lemma Move.modes {d d' : FlashDev} {tr : List Bus} (hm : Move d d' tr) (h : Modes d) :
    Modes d' ∧ Disciplined d.cr2 tr := by
  cases hm with
  | idle => exact ⟨h, trivial⟩
  | wait _ hq => exact ⟨h, (hq.disciplined _).1⟩
  | eraseStart hs hr he =>
    simp only [eraseModes, Prod.mk.injEq] at he
    obtain ⟨rfl, rfl, rfl, rfl⟩ := he
    have hpg : d.cr2.pg = false := by rw [← Bool.not_eq_true, h.pg, hs]; simp
    refine ⟨⟨by simp [hpg], by simp⟩, hr.1.disciplined_append.mpr ?_⟩
    simp [Disciplined, Bus.Allowed, hpg]
  | eraseDone hs hr =>
    have hpg : d.cr2.pg = false := by rw [← Bool.not_eq_true, h.pg, hs]; simp
    refine ⟨⟨by simp [hpg], by simp⟩, hr.1.disciplined_append.mpr ?_⟩
    simp [Disciplined, Bus.Allowed]
  | writeStart hs hr hw =>
    have hser : d.cr2.ser = false := by rw [← Bool.not_eq_true, h.ser, hs]; simp
    obtain ⟨hm', hd⟩ := hw.modes ⟨by simp, by simp [hser]⟩ rfl
    refine ⟨hm', ?_⟩
    rw [List.append_assoc, hr.1.disciplined_append]
    refine ⟨?_, ?_, hd⟩ <;> simp [Bus.Allowed, hser]
  | write hs hw => exact hw.modes h hs

lemma flashCall_modes {d : FlashDev} {c : FlashCall} (h : Modes d) (hc : InitAtRest d c) :
    Modes (flashCall d c).1 := by
  cases c with
  | init =>
    have hpg : ¬ d.cr2.pg = true := fun hp => hc.2 (h.pg.mp hp)
    have hser : ¬ d.cr2.ser = true := fun hp => hc.1 (h.ser.mp hp)
    unfold flashCall flashInit
    split_ifs <;> exact ⟨by simp [hpg], by simp [hser]⟩
  | eraseSectorAsync a =>
    by_cases hs : d.ctx.state = .idle
    · simp only [flashCall, flashEraseSectorAsync_idle hs]
      exact ⟨by simp [h.pg, hs], by simp [h.ser, hs]⟩
    · simpa only [flashCall, flashEraseSectorAsync_busy hs] using h
  | writeAsync a data n =>
    by_cases hs : d.ctx.state = .idle
    · simp only [flashCall, flashWriteAsync_idle hs]
      exact ⟨by simp [h.pg, hs], by simp [h.ser, hs]⟩
    · simpa only [flashCall, flashWriteAsync_busy hs] using h
  | process r => exact ((flashProcess_move r d).modes h).1

lemma flashCall_disciplined {d : FlashDev} {c : FlashCall} (h : Modes d) :
    Disciplined d.cr2 (flashCall d c).2 := by
  cases c with
  | init =>
    refine (Quiet.disciplined ?_ _).1
    unfold flashCall flashInit
    split_ifs <;> simp [Quiet, Bus.quiet]
  | eraseSectorAsync a => exact trivial
  | writeAsync a data n =>
    refine (Quiet.disciplined ?_ _).1
    unfold flashCall flashWriteAsync
    split_ifs <;> simp [Quiet, Bus.quiet]
  | process r => exact ((flashProcess_move r d).modes h).2

/-- From paired modes, a call is in order exactly when it is no `flash_init` over a running
operation. -/
lemma controlOk_iff {d : FlashDev} {c : FlashCall} (h : Modes d) :
    ControlOk d c ↔ InitAtRest d c := by
  refine ⟨fun hok => ?_, fun hc => ⟨flashCall_disciplined h, (flashCall_modes h hc).paired⟩⟩
  cases c with
  | init =>
    have hbits : (flashInit d).1.cr2.pg = d.cr2.pg ∧ (flashInit d).1.cr2.ser = d.cr2.ser ∧
        (flashInit d).1.ctx.state = .idle := by
      unfold flashInit
      split_ifs <;> exact ⟨rfl, rfl, rfl⟩
    obtain ⟨hpg, hser⟩ := hok.2.2 (.inl hbits.2.2)
    simp only [flashCall, hbits.1, hbits.2.1] at hpg hser
    refine ⟨fun hs => ?_, fun hs => ?_⟩
    · rw [h.ser.mpr hs] at hser
      cases hser
    · rw [h.pg.mpr hs] at hpg
      cases hpg
  | _ => trivial

/-- **The control register over whole runs.** From a clear register and an idle driver, a sequence
of calls keeps the discipline at every step exactly when none of its `flash_init` calls falls into
a running erase or write. -/
theorem flash_control_iff (d : FlashDev) (hs : d.ctx.state = .idle) (hpg : d.cr2.pg = false)
    (hser : d.cr2.ser = false) (calls : List FlashCall) :
    Along flashCall ControlOk d calls ↔ Along flashCall InitAtRest d calls :=
  along_iff_of_inv (I := Modes) (fun _ _ => flashCall_modes) (fun _ _ => controlOk_iff)
    ⟨by simp [hpg, hs], by simp [hser, hs]⟩

theorem flash_control_iff_reset :
    Along flashCall ControlOk resetDev
        [.init, .eraseSectorAsync 0x08120000, .process fun _ => sr2Clear, .process fun _ => sr2Clear,
          .init, .writeAsync 0x08120000 [1, 2, 3] 3, .process fun _ => sr2Clear] ↔
      Along flashCall InitAtRest resetDev
        [.init, .eraseSectorAsync 0x08120000, .process fun _ => sr2Clear, .process fun _ => sr2Clear,
          .init, .writeAsync 0x08120000 [1, 2, 3] 3, .process fun _ => sr2Clear] :=
  flash_control_iff resetDev rfl rfl rfl _

/-- A re-enumeration in the middle of a write: the driver is idle again, and `PG` is still set. -/
theorem flash_init_leaves_pg :
    ¬ ∀ calls, Along flashCall ControlOk resetDev calls := by
  intro h
  exact absurd (h [.init, .writeAsync 0x08120000 [1, 2, 3] 3, .process fun _ => sr2Clear, .init])
    (by decide)

end Cs7000pBootloader.Flash
