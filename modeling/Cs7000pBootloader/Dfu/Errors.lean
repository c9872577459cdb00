import Cs7000pBootloader.Dfu.Busy

/-!
The error flags of the controller.  A flag that is raised stays set in `SR2`, since the driver
clears `EOP` only, and every later reading shows it; but the driver looks at `QW`, `WBNE` and `EOP`
alone, so an operation that failed is acknowledged like any other.
-/

namespace Cs7000pBootloader.Dfu

open Flash Cs7000pBootloader.Lib

/-! ### The flags -/

/-- The error flags of bank 2. -/
structure ErrorFlags where
  wrperr : Bool
  pgserr : Bool
  strberr : Bool
  incerr : Bool
  operr : Bool
  deriving DecidableEq, Repr

def noErrors : ErrorFlags := ⟨false, false, false, false, false⟩

def ErrorFlags.union (f g : ErrorFlags) : ErrorFlags :=
  ⟨f.wrperr || g.wrperr, f.pgserr || g.pgserr, f.strberr || g.strberr, f.incerr || g.incerr,
    f.operr || g.operr⟩

/-- A reading of `SR2` while the flags `f` are set. -/
def withErrors (v : Sr2) (f : ErrorFlags) : Sr2 :=
  { v with wrperr := f.wrperr, pgserr := f.pgserr, strberr := f.strberr, incerr := f.incerr,
           operr := f.operr }

/-- The flags raised before the first `n` readings of a poll. -/
def raisedBefore (raised : ℕ → ErrorFlags) (n : ℕ) : ErrorFlags :=
  (List.range n).foldl (fun f i => f.union (raised i)) noErrors

/-! ### The device over a controller that fails -/

/-- The device, the flags that are set, and whether the operation last accepted had one raised. -/
structure Board where
  dev : Device
  flags : ErrorFlags
  failed : Bool

/-- What happens: the controller raises flags, or an event of the device, with the flags that the
controller raises before each reading the event makes. -/
inductive BoardEvent where
  | raise (f : ErrorFlags)
  | event (e : Event) (raised : ℕ → ErrorFlags)

/-- The event as the controller lets it see `SR2`: the flags that are set are read. -/
def seen (flags : ErrorFlags) (raised : ℕ → ErrorFlags) : Event → Event
  | .process r => .process fun n => withErrors (r n) (flags.union (raisedBefore raised (n + 1)))
  | e => e

def Bus.isReading : Bus → Bool
  | .sr2 _ => true
  | _ => false

/-- An erase or a data block is accepted. -/
def accepts (d : Device) : Event → Bool
  | .getStatus resp _ => d.dfu = .dnloadSync ∧ ¬ d.request.IsSetAddress ∧
      (d.poll resp).ret = true ∧ (d.poll resp).resp.bState = .dnbusy
  | _ => false

def boardStep (b : Board) : BoardEvent → Board × List Bus
  | .raise f =>
    ({ b with flags := b.flags.union f,
              failed := b.failed || (flashIsBusy b.dev.fw.flash && f ≠ noErrors) }, [])
  | .event e raised =>
    let e' := seen b.flags raised e
    let s := step b.dev e'
    let f := raisedBefore raised (s.2.countP Bus.isReading)
    (⟨s.1, b.flags.union f,
      if accepts b.dev e' then false
      else b.failed || (flashIsBusy b.dev.fw.flash && f ≠ noErrors)⟩, s.2)

/-- The board after a power-on. -/
def boardOn : Board := ⟨powerOn, noErrors, false⟩

/-! ### The driver does not see them -/

/-- The readings agree in the bits that the driver looks at. -/
def SameStatus (r r' : ℕ → Sr2) : Prop :=
  ∀ n, (r n).qw = (r' n).qw ∧ (r n).wbne = (r' n).wbne ∧ (r n).eop = (r' n).eop

section SameStatus

variable {r r' : ℕ → Sr2}

lemma SameStatus.shift (h : SameStatus r r') (k : ℕ) :
    SameStatus (fun n => r (n + k)) (fun n => r' (n + k)) := fun n => h (n + k)

lemma flashOpComplete_same (h : SameStatus r r') :
    (flashOpComplete r).1 = (flashOpComplete r').1 := by
  unfold flashOpComplete
  rw [(h 0).1, (h 1).2.2]
  split_ifs <;> rfl

lemma flashWriteBusy_same (h : SameStatus r r') (d : FlashDev) :
    (flashWriteBusy r d).1 = (flashWriteBusy r' d).1 := by
  have h3 := flashOpComplete_same (h.shift 3)
  unfold flashWriteBusy
  simp only [flashOpComplete_same h, h3, (h 2).2.1]
  split_ifs <;> rfl

/-- A poll moves on alike on readings that differ in their error flags. -/
theorem flashProcess_same (h : SameStatus r r') (d : FlashDev) :
    (flashProcess r d).1 = (flashProcess r' d).1 := by
  have hw := flashWriteBusy_same (h.shift 2)
  unfold flashProcess
  cases d.ctx.state with
  | idle => rfl
  | erasePending | eraseBusy =>
    simp only [flashOpComplete_same h]
    split_ifs <;> rfl
  | writePending =>
    simp only [flashOpComplete_same h, hw]
    split_ifs <;> rfl
  | writeBusy => exact flashWriteBusy_same h d

end SameStatus

/-- The event without what the controller raises. -/
def BoardEvent.plain : BoardEvent → Option Event
  | .raise _ => none
  | .event e _ => some e

lemma step_seen (d : Device) (flags : ErrorFlags) (raised : ℕ → ErrorFlags) (e : Event) :
    (step d (seen flags raised e)).1 = (step d e).1 := by
  cases e with
  | process r =>
    have hs : SameStatus
        (fun n => withErrors (r n) (flags.union (raisedBefore raised (n + 1)))) r :=
      fun n => ⟨rfl, rfl, rfl⟩
    simp only [seen, step, flashProcess_same hs]
  | _ => rfl

/-- **The flags are not seen.** The device goes through the same states whatever the controller
raises. -/
theorem errors_unseen (b : Board) (es : List BoardEvent) :
    (run boardStep b es).1.dev = (run step b.dev (es.filterMap BoardEvent.plain)).1 := by
  induction es generalizing b with
  | nil => rfl
  | cons e es ih =>
    rw [run_cons, ih]
    cases e with
    | raise f => rfl
    | event e raised =>
      have hs : (boardStep b (.event e raised)).1.dev = (step b.dev e).1 := step_seen _ _ _ _
      rw [hs]
      rfl

/-! ### The specification -/

/-- What is asked of an event: a GETSTATUS for an erase or a data block during which a flag was
raised does not answer `OK` and `DFU_DNLOAD_IDLE`, and answers `DFU_ERROR` once the driver has
finished. -/
def Reports (b : Board) : BoardEvent → Prop
  | .event (.getStatus resp _) _ => b.dev.dfu = .dnbusy → ¬ b.dev.request.IsSetAddress →
      b.failed = true →
      ¬ ((b.dev.poll resp).ret = true ∧ (b.dev.poll resp).resp.bStatus = .ok ∧
        (b.dev.poll resp).resp.bState = .dnloadIdle) ∧
      (flashIsBusy b.dev.fw.flash = false →
        (b.dev.poll resp).ret = true ∧ (b.dev.poll resp).resp.bState = .error)
  | _ => True

/-- The event is no GETSTATUS for an operation that failed and is over. -/
def NotAfterFailure (b : Board) : BoardEvent → Prop
  | .event (.getStatus _ _) _ => b.dev.dfu = .dnbusy → ¬ b.dev.request.IsSetAddress →
      b.failed = true → flashIsBusy b.dev.fw.flash = true
  | _ => True

/-! ### Exactly when failures are reported -/

lemma busyOp_boardStep {b : Board} (h : BusyOp b.dev) (e : BoardEvent) :
    BusyOp (boardStep b e).1.dev := by
  cases e with
  | raise f => exact h
  | event e raised => exact busyOp_step h _

lemma reports_iff {b : Board} (h : BusyOp b.dev) (e : BoardEvent) :
    Reports b e ↔ NotAfterFailure b e := by
  rcases e with f | ⟨e, raised⟩
  · exact Iff.rfl
  cases e with
  | getStatus resp next =>
    refine forall_congr' fun hst => forall_congr' fun hs => forall_congr' fun _ => ?_
    rcases (b.dev.answered resp).busy hst (h hst) with ⟨ho, he⟩ | ⟨ho, ms, he⟩ <;> rw [he]
    · -- the driver is idle: the answer is OK
      have hi : flashIsBusy b.dev.fw.flash = false := flashIsBusy_eq_false.mpr (ho.resolve_left hs)
      refine iff_of_false (fun hr => hr.1 ⟨rfl, rfl, rfl⟩) fun hb => ?_
      rw [hi] at hb
      cases hb
    · have hb : flashIsBusy b.dev.fw.flash = true := by
        by_contra hc
        exact ho (.inr (flashIsBusy_eq_false.mp (by simpa using hc)))
      refine iff_of_true ⟨fun hr => absurd hr.2.2 (by simp), fun hi => ?_⟩ hb
      rw [hb] at hi
      cases hi
  | _ => exact Iff.rfl

/-- **Failures over whole runs.** In a run of the board, every failed operation is reported as such
exactly when no GETSTATUS ever comes for one after it is over. -/
theorem failures_reported_iff (es : List BoardEvent) :
    Along boardStep Reports boardOn es ↔ Along boardStep NotAfterFailure boardOn es :=
  along_iff_of_inv (I := fun b => BusyOp b.dev) (fun _ e h _ => busyOp_boardStep h e)
    (fun _ e h => reports_iff h e) (fun h => by cases h)

/-- A data block of one byte; the controller raises `WRPERR` before the driver finishes. -/
def failedWrite : List BoardEvent :=
  let quiet : ℕ → ErrorFlags := fun _ => noErrors
  let ask : BoardEvent := .event (.getStatus ⟨.ok, (0, 0, 0), .dfuIdle⟩ .dfuIdle) quiet
  [.event .mount quiet, .event (.dnload ⟨2, [0xAA], [], by decide⟩) quiet, ask,
    .event (.process fun _ => sr2Clear) quiet, .raise { noErrors with wrperr := true },
    .event (.process fun _ => sr2Clear) quiet, ask]

/-- The write is acknowledged with `OK` and `DFU_DNLOAD_IDLE`. -/
theorem failed_write_acknowledged : ¬ ∀ es, Along boardStep Reports boardOn es := by
  intro h
  have hrun := h failedWrite
  have hlast := hrun.2.2.2.2.2.2.1 (by decide) (by decide) (by decide)
  exact hlast.1 ⟨by decide, by decide, by decide⟩

end Cs7000pBootloader.Dfu
