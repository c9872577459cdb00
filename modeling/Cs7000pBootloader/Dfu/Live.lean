import Cs7000pBootloader.Dfu.Update
import Cs7000pBootloader.Flash.Progress

/-!
Every order comes to its end.  Between the GETSTATUS that begins an order and the one that
acknowledges it the host and the main loop may poll as they like; once the main loop has found the
controller ready often enough, the next GETSTATUS answers `DFU_DNLOAD_IDLE`.  How often is enough is
known from the order alone.  Hence a device that is plugged in again can always be updated.
-/

namespace Cs7000pBootloader.Dfu

open Flash Cs7000pBootloader.Lib

/-! ### The specification -/

/-- A poll of the main loop that finds the controller ready. -/
def Event.isReady : Event → Bool
  | .process r => decide (IsReady r)
  | _ => false

/-- The ready polls that an order takes: one for each 32 bytes and one more, two for an erase. -/
def Order.steps : Order → ℕ
  | .erase _ => 2
  | .load (.setAddress _) => 0
  | .load (.block _ data) => (data.length + 31) / 32 + 1

/-- The readings of the main loop's polls. -/
def readings (es : List Event) : List (ℕ → Sr2) :=
  es.filterMap fun e => match e with
    | .process r => some r
    | _ => none

/-- The controller is ready again and again. -/
def Fair (sched : ℕ → ℕ → Sr2) : Prop := ∀ N, ∃ k, N ≤ k ∧ IsReady (sched k)

/-! ### Waiting for the end -/

/-- No poll takes the driver farther from its end, and a ready one brings it nearer. -/
lemma stepsLeft_process (f : FlashDev) (r : ℕ → Sr2) :
    (flashProcess r f).1.ctx.stepsLeft ≤ f.ctx.stepsLeft - if IsReady r then 1 else 0 := by
  by_cases hi : f.ctx.state = .idle
  · rw [flashProcess_idle hi, stepsLeft_eq_zero_iff.mpr hi]
    exact Nat.zero_le _
  · split_ifs with hr
    · have hstep := stepsLeft_ready hr hi
      omega
    · rcases progresses f r hi with hlt | ⟨-, hle⟩
      · exact Nat.le_of_lt hlt
      · exact hle

/-- The order is under way, and `n` ready polls at most from its end. -/
structure Waits (d : Device) (n : ℕ) : Prop where
  dnbusy : d.dfu = .dnbusy
  running : Running d.request d.fw.dfuse
  left : d.request.IsSetAddress ∨ d.fw.flash.ctx.stepsLeft ≤ n

section Waits

variable {d : Device} {n : ℕ}

lemma Waits.getStatus (h : Waits d n) (resp : StatusResponse) (next : DfuState) :
    (step d (.getStatus resp next)).1.dfu = .dnloadIdle ∨
      n ≠ 0 ∧ Waits (step d (.getStatus resp next)).1 n := by
  rcases (d.answered resp).busy h.dnbusy h.running with ⟨-, he⟩ | ⟨hn, ms, he⟩
  · left
    simp only [step, he, ↓reduceIte, answer_bState]
  · right
    obtain ⟨hset, hidle⟩ := not_or.mp hn
    have hleft := h.left.resolve_left hset
    have hpos : d.fw.flash.ctx.stepsLeft ≠ 0 := fun hz => hidle (stepsLeft_eq_zero_iff.mp hz)
    refine ⟨by omega, ?_⟩
    simp only [step, he, ↓reduceIte]
    exact ⟨rfl, h.running.congr rfl rfl rfl, .inr hleft⟩

lemma Waits.process (h : Waits d n) (r : ℕ → Sr2) :
    Waits (step d (.process r)).1 (n - if IsReady r then 1 else 0) := by
  refine ⟨h.dnbusy, h.running, h.left.imp id fun hleft => ?_⟩
  have hstep := stepsLeft_process d.fw.flash r
  simp only [step]
  omega

/-- **Polls while the order is under way**: one of them acknowledges it, or every ready one has
brought the end nearer. -/
theorem Waits.polls (h : Waits d n) {polls : List Event} (hpolls : ∀ e ∈ polls, e.IsPoll) :
    (∃ pre, pre <+: polls ∧ (run step d pre).1.dfu = .dnloadIdle) ∨
      Waits (run step d polls).1 (n - polls.countP Event.isReady) := by
  induction polls generalizing d n with
  | nil => exact .inr h
  | cons e polls ih =>
    obtain ⟨he, hrest⟩ := List.forall_mem_cons.mp hpolls
    have hgo : ∀ k, Waits (step d e).1 k → k - polls.countP Event.isReady ≤
        n - (e :: polls).countP Event.isReady →
        (∃ pre, pre <+: e :: polls ∧ (run step d pre).1.dfu = .dnloadIdle) ∨
          Waits (run step d (e :: polls)).1 (n - (e :: polls).countP Event.isReady) := by
      intro k hk hle
      rcases ih hk hrest with ⟨pre, hpre, hend⟩ | ⟨hb, hr, hl⟩
      · exact .inl ⟨e :: pre, List.cons_prefix_cons.mpr ⟨rfl, hpre⟩, hend⟩
      · exact .inr ⟨hb, hr, hl.imp id fun hl => Nat.le_trans hl hle⟩
    cases e with
    | getStatus resp next =>
      rcases h.getStatus resp next with hend | ⟨-, hk⟩
      · exact .inl ⟨[.getStatus resp next], List.prefix_append _ _, hend⟩
      · exact hgo n hk (by simp [Event.isReady])
    | process r =>
      refine hgo _ (h.process r) ?_
      simp only [List.countP_cons, Event.isReady, decide_eq_true_eq]
      split_ifs <;> omega
    | _ => exact he.elim

lemma Waits.acknowledged (h : Waits d n) {polls : List Event} (hpolls : ∀ e ∈ polls, e.IsPoll)
    (hsteps : n ≤ polls.countP Event.isReady) (resp : StatusResponse) (next : DfuState) :
    ∃ pre, pre <+: polls ++ [.getStatus resp next] ∧ (run step d pre).1.dfu = .dnloadIdle := by
  rcases h.polls hpolls with ⟨pre, hpre, hend⟩ | hlast
  · exact ⟨pre, hpre.trans (List.prefix_append _ _), hend⟩
  · refine ⟨_, List.prefix_refl _, ?_⟩
    rw [Nat.sub_eq_zero_of_le hsteps] at hlast
    rw [run_append]
    exact (hlast.getStatus resp next).resolve_right fun hn => hn.1 rfl

end Waits

/-! ### The beginning of an order -/

/-- **The first GETSTATUS** puts the order under way, its steps from its end. -/
lemma waits_begin {p : Addr} {d : Device} {o : Order} (henc : o.Encodes d.cmd) (hv : o.Valid)
    (hst : d.dfu = .dnloadSync) (hr : AtRest p d.fw) (resp : StatusResponse) (next : DfuState) :
    Waits (step d (.getStatus resp next)).1 o.steps := by
  have ha := d.answered resp
  cases o with
  | erase a =>
    obtain ⟨hc, hl, -⟩ := henc.isErase
    rcases ha.sync_erase hc hst hl with ⟨hb, -⟩ | ⟨-, he⟩
    · exact absurd hr.flash hb
    · simp only [step, he, ↓reduceIte]
      exact ⟨rfl, .erase hc hl rfl, .inr (Nat.le_refl 2)⟩
  | load c =>
    cases c with
    | setAddress a =>
      obtain ⟨hs, -⟩ := Command.Encodes.setAddress henc
      have he := ha.sync_setAddress hs hst
      simp only [step, he, ↓reduceIte]
      exact ⟨rfl, .setAddress hs rfl, .inl hs⟩
    | block n data =>
      have hd := Command.Encodes.block henc hv
      rcases ha.sync_data hd hst with ⟨-, ⟨hb, -⟩ | ⟨-, he⟩⟩ | ⟨hn, -⟩
      · exact absurd hr.flash hb
      · simp only [step, he, ↓reduceIte]
        refine ⟨rfl, .data hd hr.haveAddr rfl, .inr (Nat.le_of_eq ?_)⟩
        have hlen : d.request.length.toNat = data.length := by
          rw [Device.request_length_toNat, henc.2]
        simp [FlashCtx.stepsLeft, Order.steps, hlen]
      · exact absurd ⟨hr.haveAddr, hr.op⟩ hn

lemma waits_dnload {p : Addr} {d : Device} {o : Order} {x : Dnload} (henc : o.Encodes x)
    (hv : o.Valid) (ht : d.dfu.TakesDnload) (hr : AtRest p d.fw) (resp : StatusResponse)
    (next : DfuState) : Waits (run step d [.dnload x, .getStatus resp next]).1 o.steps := by
  have hfirst : step d (.dnload x) = ({ d with dfu := .dnloadSync, cmd := x }, []) := by
    simp only [step, if_pos ht]
  rw [run_cons, run_cons, hfirst]
  exact waits_begin (d := { d with dfu := .dnloadSync, cmd := x }) henc hv rfl hr resp next

/-- **Every order is acknowledged in time.** From a device at rest the host downloads the order and
asks for the status; whatever polls follow, in any order, as soon as the main loop has found the
controller ready as often as the order has steps, a GETSTATUS has answered `DFU_DNLOAD_IDLE`, or the
next one does. -/
theorem acknowledged_in_time {p : Addr} {d : Device} {o : Order} {x : Dnload} (henc : o.Encodes x)
    (hv : o.Valid) (ht : d.dfu.TakesDnload) (hr : AtRest p d.fw) (resp resp' : StatusResponse)
    (next next' : DfuState) (polls : List Event) (hpolls : ∀ e ∈ polls, e.IsPoll)
    (hsteps : o.steps ≤ polls.countP Event.isReady) :
    ∃ pre, pre <+: polls ++ [.getStatus resp' next'] ∧
      (run step d (.dnload x :: .getStatus resp next :: pre)).1.dfu = .dnloadIdle :=
  (waits_dnload henc hv ht hr resp next).acknowledged hpolls hsteps resp' next'

/-- An erase after a mount, with two ready polls and a GETSTATUS between them. -/
theorem acknowledged_in_time_erase :
    ∃ pre, pre <+: [readyPoll, askStatus, readyPoll] ++ [askStatus] ∧
      (run step (step powerOn .mount).1
        (.dnload (eraseDnload 0x08120000) :: askStatus :: pre)).1.dfu =
          .dnloadIdle :=
  acknowledged_in_time (o := .erase 0x08120000) ⟨rfl, rfl⟩ trivial (.inl rfl) (atRest_mount powerOn)
    ⟨.ok, (0, 0, 0), .dfuIdle⟩ ⟨.ok, (0, 0, 0), .dfuIdle⟩ .dfuIdle .dfuIdle
    [readyPoll, askStatus, readyPoll] (by simp [readyPoll, askStatus, Event.IsPoll]) (by decide)

/-! ### Fair schedules -/

section Fair

variable {sched : ℕ → ℕ → Sr2}

/-- `n` polls of the main loop on the readings of a schedule, from the `k`-th on. -/
def schedPolls (sched : ℕ → ℕ → Sr2) (k n : ℕ) : List Event :=
  (List.range n).map fun i => .process (sched (k + i))

lemma schedPolls_isPoll (k n : ℕ) : ∀ e ∈ schedPolls sched k n, e.IsPoll := by
  intro e he
  obtain ⟨i, -, rfl⟩ := List.mem_map.mp he
  trivial

lemma readings_schedPolls (k n : ℕ) :
    readings (schedPolls sched k n) = (List.range n).map fun i => sched (k + i) := by
  unfold readings schedPolls
  rw [List.filterMap_map]
  exact congrFun List.filterMap_eq_map _

lemma schedPolls_succ (k n : ℕ) :
    schedPolls sched k (n + 1) = schedPolls sched k n ++ [.process (sched (k + n))] := by
  simp [schedPolls, List.range_succ]

lemma countP_schedPolls_mono (sched : ℕ → ℕ → Sr2) (k : ℕ) {n m : ℕ} (h : n ≤ m) :
    (schedPolls sched k n).countP Event.isReady ≤ (schedPolls sched k m).countP Event.isReady := by
  induction h with
  | refl => exact Nat.le_refl _
  | step _ ih =>
    rw [schedPolls_succ, List.countP_append]
    omega

lemma exists_ready (hfair : Fair sched) (k s : ℕ) :
    ∃ n, s ≤ (schedPolls sched k n).countP Event.isReady := by
  induction s with
  | zero => exact ⟨0, Nat.zero_le _⟩
  | succ s ih =>
    obtain ⟨n, hn⟩ := ih
    obtain ⟨j, hj, hready⟩ := hfair (k + n)
    refine ⟨j - k + 1, ?_⟩
    have hmono := countP_schedPolls_mono sched k (show n ≤ j - k by omega)
    have hlast : k + (j - k) = j := by omega
    rw [schedPolls_succ, List.countP_append, hlast]
    simp only [List.countP_cons, List.countP_nil, Event.isReady, decide_eq_true hready, if_true]
    omega

lemma readings_prefix {k n : ℕ} {pre : List Event} {resp : StatusResponse} {next : DfuState}
    (h : pre <+: schedPolls sched k n ++ [.getStatus resp next]) :
    ∃ m, readings pre = (List.range m).map fun i => sched (k + i) := by
  have hread : readings pre <+: (List.range n).map fun i => sched (k + i) := by
    rw [← readings_schedPolls]
    have happ : readings (schedPolls sched k n ++ [.getStatus resp next]) =
        readings (schedPolls sched k n) := by simp [readings, List.filterMap_append]
    rw [← happ]
    exact h.filterMap _
  rw [List.prefix_iff_eq_take, ← List.map_take, List.take_range] at hread
  exact ⟨_, hread⟩

lemma exists_encodes {o : Order} (hv : o.Valid) : ∃ x, o.Encodes x := by
  cases o with
  | erase a => exact ⟨eraseDnload a, rfl, rfl⟩
  | load c =>
    cases c with
    | setAddress a => exact ⟨setDnload a, rfl, rfl⟩
    | block n data => exact ⟨⟨n, data, [], hv.2.2⟩, rfl, rfl⟩

/-- The orders can be given one after the other, each over the part of the schedule that is left. -/
lemma exists_performs (hfair : Fair sched) {os : List Order} (hv : ∀ o ∈ os, o.Valid) {p : Addr}
    {d : Device} (hr : AtRest p d.fw) (ht : d.dfu.TakesDnload) (k : ℕ) :
    ∃ es n, Performs d os es ∧ readings es = (List.range n).map fun i => sched (k + i) := by
  induction os generalizing p d k with
  | nil => exact ⟨[], 0, .nil, rfl⟩
  | cons o os ih =>
    obtain ⟨ho, hos⟩ := List.forall_mem_cons.mp hv
    obtain ⟨x, henc⟩ := exists_encodes ho
    obtain ⟨n, hn⟩ := exists_ready hfair k o.steps
    obtain ⟨pre, hpre, hend⟩ := (waits_dnload henc ho ht hr ⟨.ok, (0, 0, 0), .dfuIdle⟩
      .dfuIdle).acknowledged (schedPolls_isPoll k n) hn ⟨.ok, (0, 0, 0), .dfuIdle⟩ .dfuIdle
    obtain ⟨m, hm⟩ := readings_prefix hpre
    have hpolls : ∀ e ∈ askStatus :: pre, e.IsPoll := by
      rintro e (_ | ⟨_, he⟩)
      · trivial
      · rcases List.mem_append.mp (hpre.subset he) with he | he
        · exact schedPolls_isPoll k n e he
        · rw [List.mem_singleton.mp he]
          trivial
    obtain ⟨hrest, -⟩ := order_refines henc ho ht hr hpolls hend
    obtain ⟨es, n', hes, hread⟩ := ih hos hrest (.inr hend) (k + m)
    refine ⟨_, m + n', .cons henc hpolls hend hes, ?_⟩
    have hsplit : readings ((.dnload x :: askStatus :: pre) ++ es) = readings pre ++ readings es := by
      simp [readings, List.filterMap_append, askStatus]
    rw [hsplit, hm, hread, List.range_add, List.map_append, List.map_map]
    simp only [Function.comp_def, Nat.add_assoc]

/-- **A device that is plugged in can be updated.** Whatever state it was in, after a mount the host
can give any valid orders and poll each to its end, over any readings of the controller that are
ready again and again. -/
theorem orders_complete (d : Device) (os : List Order) (hv : ∀ o ∈ os, o.Valid)
    (hfair : Fair sched) :
    ∃ es n, Performs (step d .mount).1 os es ∧ readings es = (List.range n).map sched := by
  obtain ⟨es, n, hes, hread⟩ := exists_performs hfair hv (atRest_mount d) (.inl rfl) 0
  exact ⟨es, n, hes, by simpa using hread⟩

end Fair

/-- A controller that is busy at every other poll. -/
theorem orders_complete_alternating :
    ∃ es n, Performs (step powerOn .mount).1
        [.erase 0x08100000, .load (.setAddress 0x08100000), .load (.block 2 [0xAA])] es ∧
      readings es = (List.range n).map fun k _ => { sr2Clear with qw := decide (k % 2 = 0) } := by
  refine orders_complete powerOn _ ?_ fun N => ⟨2 * N + 1, by omega, fun _ _ => ⟨?_, rfl⟩⟩
  · intro o ho
    simp only [List.mem_cons, List.not_mem_nil, or_false] at ho
    rcases ho with rfl | rfl | rfl
    · trivial
    · trivial
    · exact ⟨by decide, by simp, (by decide : 1 ≤ 1024)⟩
  · exact decide_eq_false (by omega)

end Cs7000pBootloader.Dfu
