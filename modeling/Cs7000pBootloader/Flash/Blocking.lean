import Cs7000pBootloader.Flash.Erase
import Cs7000pBootloader.Flash.Write
import Cs7000pBootloader.Lib.Loop

/-!
The blocking functions of the driver.  They issue the asynchronous request and poll until the driver
is idle, but do not look at the answer to the request: over a running operation it is refused, and
the loop that follows waits for that operation alone.
-/

namespace Cs7000pBootloader.Flash

open Cs7000pBootloader.Lib

/-! ### The functions -/

/-- What a blocking call returns with: the driver, the bus accesses, and the readings it left over,
one sequence of readings for each poll. -/
abbrev Returned := FlashDev × List Bus × (ℕ → ℕ → Sr2)

/-- `while (flash_is_busy()) flash_process();` -/
def pollUntilIdle (fuel : ℕ) (sched : ℕ → ℕ → Sr2) (d : FlashDev) : Option Returned :=
  loop flashIsBusy (fun d r => flashProcess r d) fuel sched d

/-- `flash_erase_sector_blocking` -/
def flashEraseSectorBlocking (fuel : ℕ) (sched : ℕ → ℕ → Sr2) (addr : Addr) (d : FlashDev) :
    Option Returned :=
  pollUntilIdle fuel sched (flashEraseSectorAsync addr d).2

/-- `flash_write_blocking` -/
def flashWriteBlocking (fuel : ℕ) (sched : ℕ → ℕ → Sr2) (addr : Addr) (data : List Byte)
    (length : BitVec 16) (d : FlashDev) : Option Returned :=
  let f := flashWriteAsync addr data length d
  (pollUntilIdle fuel sched f.2.1).map fun o => (o.1, f.2.2 ++ o.2.1, o.2.2)

/-! ### What they are asked to do -/

/-- Waiting for the driver to be idle, and then a call on the readings that are left.  From an idle
driver a blocking call is the request and the polls to its completion. -/
def waitThen (fuel : ℕ) (call : (ℕ → ℕ → Sr2) → FlashDev → Option Returned)
    (sched : ℕ → ℕ → Sr2) (d : FlashDev) : Option Returned :=
  (pollUntilIdle fuel sched d).bind fun o =>
    (call o.2.2 o.1).map fun o' => (o'.1, o.2.1 ++ o'.2.1, o'.2.2)

/-- **What is asked of an erase that returned**: what was owed before is done first, then the sector
is erased, with `QW` read low after it; and it is the same as waiting, asking and polling. -/
structure EraseDid (addr : Addr) (sched : ℕ → ℕ → Sr2) (d : FlashDev) (o : Returned) : Prop where
  did : ∃ tr₁ tr₂, o.2.1 = tr₁ ++ tr₂ ∧ effects tr₁ = owed d ∧
    Erased ((addrToSector addr).setWidth 3) tr₂
  same : ∃ fuel, waitThen fuel (fun s => flashEraseSectorBlocking fuel s addr) sched d = some o

/-- **What is asked of a write that returned**: what was owed before is done first, then the data is
stored; and it is the same as waiting, asking and polling. -/
structure WriteDid (addr : Addr) (data : List Byte) (sched : ℕ → ℕ → Sr2) (d : FlashDev)
    (o : Returned) : Prop where
  did : ∃ tr₁ tr₂, o.2.1 = tr₁ ++ tr₂ ∧ effects tr₁ = owed d ∧ effects tr₂ = toStore addr data
  same : ∃ fuel, waitThen fuel
    (fun s => flashWriteBlocking fuel s addr data (BitVec.ofNat 16 data.length)) sched d = some o

section Blocking

variable {n m : ℕ} {sched : ℕ → ℕ → Sr2} {d : FlashDev} {o : Returned} {addr : Addr}
  {data : List Byte}

lemma pollUntilIdle_idle (h : d.ctx.state = .idle) :
    pollUntilIdle (n + 1) sched d = some (d, [], sched) := loop_idle (flashIsBusy_eq_false.mpr h)

lemma flashProcess_ne_nil (h : d.ctx.state ≠ .idle) (r : ℕ → Sr2) : (flashProcess r d).2 ≠ [] := by
  have hread : ∀ r : ℕ → Sr2, (flashOpComplete r).2 ≠ [] := by
    intro r
    unfold flashOpComplete
    split_ifs <;> simp
  unfold flashProcess flashWriteBusy
  cases hs : d.ctx.state with
  | idle => exact absurd hs h
  | _ =>
    simp only
    split_ifs <;> simp [hread]

lemma pollUntilIdle_owed (h : pollUntilIdle n sched d = some o) :
    o.1.ctx.state = .idle ∧ effects o.2.1 = owed d := by
  obtain ⟨rs, hrun, -, hend⟩ := loop_run h
  have hi := flashIsBusy_eq_false.mp hend
  have hp := polls_owed d rs
  rw [hrun, owed_of_idle hi, List.append_nil] at hp
  exact ⟨hi, hp⟩

lemma pollUntilIdle_erased (h : pollUntilIdle n sched d = some o)
    (hs : d.ctx.state = .erasePending) (ha : d.ctx.addr = addr) :
    Erased ((addrToSector addr).setWidth 3) o.2.1 := by
  subst ha
  obtain ⟨rs, hrun, halong, hend⟩ := loop_run h
  have hpend : EraseProgress ((addrToSector d.ctx.addr).setWidth 3) d [] := .pending hs rfl rfl
  have hprog := run_trace (J := EraseProgress ((addrToSector d.ctx.addr).setWidth 3))
    (fun d r tr hJ _ => hJ.move (flashProcess_move r d)) hpend halong
  rw [hrun, List.nil_append] at hprog
  exact hprog.erased (flashIsBusy_eq_false.mp hend)

lemma pollUntilIdle_ne_nil (h : pollUntilIdle n sched d = some o) (hne : d.ctx.state ≠ .idle) :
    o.2.1 ≠ [] := by
  cases n with
  | zero => cases h
  | succ n =>
    obtain ⟨o', -, rfl⟩ := loop_busy_some (flashIsBusy_eq_true.mpr hne) h
    intro he
    exact flashProcess_ne_nil hne _ (List.append_eq_nil_iff.mp he).1

/-- After a loop over a running operation, another call that does something makes the trace
longer. -/
lemma waitThen_ne {call : (ℕ → ℕ → Sr2) → FlashDev → Option Returned}
    (h : pollUntilIdle n sched d = some o)
    (hcall : ∀ s d' o', d'.ctx.state = .idle → call s d' = some o' → o'.2.1 ≠ []) :
    waitThen m call sched d ≠ some o := by
  intro hw
  obtain ⟨o₁, h₁, h₂⟩ := Option.bind_eq_some_iff.mp hw
  obtain ⟨o₂, hc, he⟩ := Option.map_eq_some_iff.mp h₂
  obtain rfl : o₁ = o := loop_det h₁ h
  have htr : o₁.2.1 ++ o₂.2.1 = o₁.2.1 := congrArg (fun o => o.2.1) he
  exact hcall _ _ _ (pollUntilIdle_owed h).1 hc (List.append_right_eq_self.mp htr)

lemma waitThen_idle {call : (ℕ → ℕ → Sr2) → FlashDev → Option Returned}
    (h : d.ctx.state = .idle) (hc : call sched d = some o) :
    waitThen (n + 1) call sched d = some o := by
  rw [waitThen, pollUntilIdle_idle h]
  simp [hc]

/-! ### Erase -/

lemma erase_returns_ne_nil {s : ℕ → ℕ → Sr2} {d' : FlashDev} {o' : Returned}
    (hi : d'.ctx.state = .idle) (h : flashEraseSectorBlocking n s addr d' = some o') :
    o'.2.1 ≠ [] := by
  rw [flashEraseSectorBlocking, flashEraseSectorAsync_idle hi] at h
  exact pollUntilIdle_ne_nil h (by simp)

theorem eraseDid_iff (h : flashEraseSectorBlocking n sched addr d = some o) :
    EraseDid addr sched d o ↔ d.ctx.state = .idle := by
  constructor
  · intro hdid
    by_contra hne
    have h' := h
    rw [flashEraseSectorBlocking, flashEraseSectorAsync_busy hne] at h'
    obtain ⟨m, hm⟩ := hdid.same
    exact waitThen_ne h' (fun _ _ _ => erase_returns_ne_nil) hm
  · intro hi
    have h' := h
    rw [flashEraseSectorBlocking, flashEraseSectorAsync_idle hi] at h'
    refine ⟨⟨[], o.2.1, rfl, (owed_of_idle hi).symm, pollUntilIdle_erased h' rfl rfl⟩, ?_⟩
    cases n with
    | zero => cases h
    | succ n => exact ⟨n + 1, waitThen_idle hi h⟩

/-! ### Write -/

lemma write_returns_ne_nil {s : ℕ → ℕ → Sr2} {d' : FlashDev} {o' : Returned} {length : BitVec 16}
    (hi : d'.ctx.state = .idle) (h : flashWriteBlocking n s addr data length d' = some o') :
    o'.2.1 ≠ [] := by
  rw [flashWriteBlocking, flashWriteAsync_idle hi] at h
  obtain ⟨o₁, -, rfl⟩ := Option.map_eq_some_iff.mp h
  simp

theorem writeDid_iff (hL : data.length ≤ cfgTudDfuXferBufsize)
    (h : flashWriteBlocking n sched addr data (BitVec.ofNat 16 data.length) d = some o) :
    WriteDid addr data sched d o ↔ d.ctx.state = .idle := by
  constructor
  · intro hdid
    by_contra hne
    have h' := h
    rw [flashWriteBlocking, flashWriteAsync_busy hne] at h'
    obtain ⟨o₁, ho₁, rfl⟩ := Option.map_eq_some_iff.mp h'
    obtain ⟨m, hm⟩ := hdid.same
    exact waitThen_ne ho₁ (fun _ _ _ => write_returns_ne_nil) hm
  · intro hi
    have h' := h
    rw [flashWriteBlocking, flashWriteAsync_idle hi] at h'
    obtain ⟨o₁, ho₁, rfl⟩ := Option.map_eq_some_iff.mp h'
    refine ⟨⟨[], _, rfl, (owed_of_idle hi).symm, ?_⟩, ?_⟩
    · have hlen := toNat_ofNat_length hL
      have howed := (pollUntilIdle_owed ho₁).2
      rw [owed_writePending (by omega), hlen, List.take_length] at howed
      exact howed
    · cases n with
      | zero => cases h
      | succ n => exact ⟨n + 1, waitThen_idle hi h⟩

end Blocking

/-- **A blocking call that returns did what it was asked** exactly when the driver was idle at the
call. -/
theorem blocking_did_iff (d : FlashDev) (addr : Addr) (data : List Byte) (sched : ℕ → ℕ → Sr2)
    (fuel : ℕ) (hL : data.length ≤ cfgTudDfuXferBufsize) :
    (∀ o, flashEraseSectorBlocking fuel sched addr d = some o →
      (EraseDid addr sched d o ↔ d.ctx.state = .idle)) ∧
    ∀ o, flashWriteBlocking fuel sched addr data (BitVec.ofNat 16 data.length) d = some o →
      (WriteDid addr data sched d o ↔ d.ctx.state = .idle) :=
  ⟨fun _ h => eraseDid_iff h, fun _ h => writeDid_iff hL h⟩

/-- From reset, a blocking erase and a blocking write of three bytes return and did their work. -/
theorem blocking_did_reset :
    (∃ o, flashEraseSectorBlocking 3 (fun _ _ => sr2Clear) 0x08120000 resetDev = some o ∧
      EraseDid 0x08120000 (fun _ _ => sr2Clear) resetDev o) ∧
    ∃ o, flashWriteBlocking 3 (fun _ _ => sr2Clear) 0x08120000 [1, 2, 3]
        (BitVec.ofNat 16 [(1 : Byte), 2, 3].length) resetDev = some o ∧
      WriteDid 0x08120000 [1, 2, 3] (fun _ _ => sr2Clear) resetDev o := by
  have h := blocking_did_iff resetDev 0x08120000 [1, 2, 3] (fun _ _ => sr2Clear) 3 (by decide)
  obtain ⟨oe, he⟩ : ∃ o, flashEraseSectorBlocking 3 (fun _ _ => sr2Clear) 0x08120000 resetDev =
      some o := Option.isSome_iff_exists.mp (by decide)
  obtain ⟨ow, hw⟩ : ∃ o, flashWriteBlocking 3 (fun _ _ => sr2Clear) 0x08120000 [1, 2, 3]
      (BitVec.ofNat 16 [(1 : Byte), 2, 3].length) resetDev = some o :=
    Option.isSome_iff_exists.mp (by decide)
  exact ⟨⟨oe, he, (h.1 oe he).mpr rfl⟩, ow, hw, (h.2 ow hw).mpr rfl⟩

/-- A blocking write over a pending erase returns, and the write did not happen. -/
theorem blocking_write_lost :
    ¬ ∀ (d : FlashDev) (o : Returned),
      flashWriteBlocking 4 (fun _ _ => sr2Clear) 0x08120000 [1, 2, 3]
          (BitVec.ofNat 16 [(1 : Byte), 2, 3].length) d = some o →
        WriteDid 0x08120000 [1, 2, 3] (fun _ _ => sr2Clear) d o := by
  intro hall
  obtain ⟨o, ho⟩ : ∃ o, flashWriteBlocking 4 (fun _ _ => sr2Clear) 0x08120000 [1, 2, 3]
      (BitVec.ofNat 16 [(1 : Byte), 2, 3].length) (flashEraseSectorAsync 0x08100000 resetDev).2 =
        some o :=
    Option.isSome_iff_exists.mp (by decide)
  exact absurd ((writeDid_iff (by decide) ho).mp (hall _ o ho)) (by decide)

end Cs7000pBootloader.Flash
