import Cs7000pBootloader.Flash.Control

/-!
One write, from its acceptance until the driver is idle again, whatever the readings and whatever
is asked of the driver in between: what it stores, when it stores it, and what it reads of the
buffer.
-/

namespace Cs7000pBootloader.Flash

open Cs7000pBootloader.Lib

/-! ### Stores in a poll -/

/-- The access stores into the array. -/
def Bus.isStore : Bus → Bool
  | .word _ _ | .byte _ _ => true
  | _ => false

/-- The stores of the trace, if it has any, are at its end and come right after a status check that
found `QW` low.  How many they are is left open: that a poll makes one burst or stores the tail is a
matter of `WriteMove`. -/
def StoresWhenReady (tr : List Bus) : Prop :=
  (∀ b ∈ tr, b.isStore = false) ∨
    ∃ a q s, tr = a ++ q ++ s ∧ (∀ b ∈ a ++ q, b.isStore = false) ∧ Ready q ∧ ∀ b ∈ s, b.isStore = true

lemma Quiet.not_store {q : List Bus} (h : Quiet q) : ∀ b ∈ q, b.isStore = false := by
  intro b hb
  have := h b hb
  cases b <;> simp_all [Bus.quiet, Bus.isStore]

lemma Quiet.append_not_store {q s : List Bus} (h : Quiet q) (hs : ∀ b ∈ s, b.isStore = false) :
    ∀ b ∈ q ++ s, b.isStore = false :=
  List.forall_mem_append.mpr ⟨h.not_store, hs⟩

lemma StoresWhenReady.prepend {a tr : List Bus} (ha : ∀ b ∈ a, b.isStore = false)
    (h : StoresWhenReady tr) : StoresWhenReady (a ++ tr) := by
  rcases h with h | ⟨b, q, s, rfl, hb, hq, hs⟩
  · left
    intro x hx
    exact (List.mem_append.mp hx).elim (ha x) (h x)
  · right
    refine ⟨a ++ b, q, s, by simp, ?_, hq, hs⟩
    intro x hx
    rw [List.append_assoc] at hx
    exact (List.mem_append.mp hx).elim (ha x) (hb x)

lemma StoresWhenReady.after {q s : List Bus} (hq : Ready q) (hs : ∀ b ∈ s, b.isStore = true) :
    StoresWhenReady (q ++ s) :=
  .inr ⟨[], q, s, rfl, by simpa using hq.1.not_store, hq, hs⟩

lemma burstStores_isStore (c : FlashCtx) : ∀ b ∈ burstStores c, b.isStore = true := by
  intro b hb
  obtain ⟨i, -, rfl⟩ := List.mem_map.mp hb
  rfl

lemma tailStores_isStore (c : FlashCtx) (n : ℕ) : ∀ b ∈ tailStores c n, b.isStore = true := by
  intro b hb
  obtain ⟨i, -, rfl⟩ := List.mem_map.mp hb
  rfl

section Moves

variable {d d' : FlashDev} {tr : List Bus}

lemma WriteMove.storesWhenReady (h : WriteMove d d' tr) : StoresWhenReady tr := by
  cases h with
  | wait hq => exact .inl hq.not_store
  | burst hr => exact .after hr (burstStores_isStore _)
  | tail hr => exact .after hr (tailStores_isStore _ _)
  | force hr => exact .inl (hr.1.append_not_store (by simp [Bus.isStore]))
  | @finish q q' v hr hr' =>
    left
    have hend := hr'.1.append_not_store (s := [.cr2 { d.cr2 with pg := false }, .phoneTxd false])
      (by simp [Bus.isStore])
    rw [List.append_assoc, List.cons_append]
    exact hr.1.append_not_store (List.forall_mem_cons.mpr ⟨rfl, hend⟩)

/-- **A poll stores only right after it found `QW` low.** -/
theorem Move.storesWhenReady (h : Move d d' tr) : StoresWhenReady tr := by
  cases h with
  | idle => exact .inl (by simp)
  | wait _ hq => exact .inl hq.not_store
  | eraseStart _ hr | eraseDone _ hr =>
    exact .inl (hr.1.append_not_store (by simp [Bus.isStore]))
  | writeStart _ hr hw =>
    exact .prepend (hr.1.append_not_store (by simp [Bus.isStore])) hw.storesWhenReady
  | write _ hw => exact hw.storesWhenReady

/-! ### Force-write and the end -/

lemma WriteMove.force_owed (h : WriteMove d d' tr) {v : Cr2} (hv : .forceWrite v ∈ tr) :
    d.ctx.length.toNat ≤ d.ctx.offset.toNat := by
  have hq : ∀ {q : List Bus}, Quiet q → .forceWrite v ∉ q := fun hq hm =>
    absurd (hq _ hm) (by simp [Bus.quiet])
  cases h with
  | wait hw => exact absurd hv (hq hw)
  | burst hr =>
    rcases List.mem_append.mp hv with hv | hv
    · exact absurd hv (hq hr.1)
    · exact absurd (burstStores_isStore _ _ hv) (by simp [Bus.isStore])
  | tail hr =>
    rcases List.mem_append.mp hv with hv | hv
    · exact absurd hv (hq hr.1)
    · exact absurd (tailStores_isStore _ _ _ hv) (by simp [Bus.isStore])
  | force _ _ hle => exact hle
  | finish _ _ _ hle => exact hle

lemma Move.force_owed (h : Move d d' tr) {v : Cr2} (hv : .forceWrite v ∈ tr) : owed d = [] := by
  have hq : ∀ {q : List Bus}, Quiet q → .forceWrite v ∉ q := fun hq hm =>
    absurd (hq _ hm) (by simp [Bus.quiet])
  cases h with
  | idle => cases hv
  | wait _ hw => exact absurd hv (hq hw)
  | eraseStart _ hr => simp [hq hr.1] at hv
  | eraseDone _ hr => simp [hq hr.1] at hv
  | @writeStart q _ w hs hr hw =>
    have hm : .forceWrite v ∈ w := by simpa [hq hr.1] using hv
    rw [owed_of_isWrite (by rw [hs]; rfl), rest_of_le (c := d.ctx) (hw.force_owed hm)]
    rfl
  | write hs hw =>
    rw [owed_of_isWrite (by rw [hs]; rfl), rest_of_le (hw.force_owed hv)]
    rfl

/-- The poll read `WBNE` clear between two status checks that found `QW` low. -/
def EndsWhenDone (tr : List Bus) : Prop :=
  ∃ a q v q' b, tr = a ++ q ++ .sr2 v :: q' ++ b ∧ Ready q ∧ v.wbne = false ∧ Ready q'

lemma WriteMove.endsWhenDone (h : WriteMove d d' tr) (hs : d.ctx.state ≠ .idle)
    (hi : d'.ctx.state = .idle) : EndsWhenDone tr := by
  cases h with
  | wait | force => exact absurd hi hs
  | burst | tail => exact absurd hi hs
  | finish hr hr' hv => exact ⟨[], _, _, _, _, rfl, hr, hv, hr'⟩

/-- **A write ends in a poll that read `WBNE` clear and `QW` low.** -/
theorem Move.endsWhenDone (h : Move d d' tr) (hs : d.ctx.state.isWrite = true)
    (hi : d'.ctx.state = .idle) : EndsWhenDone tr := by
  cases h with
  | idle h => simp [h, FlashOpState.isWrite] at hs
  | wait => simp [hi, FlashOpState.isWrite] at hs
  | eraseStart h | eraseDone h => simp [h, FlashOpState.isWrite] at hs
  | @writeStart p _ w _ _ hw =>
    obtain ⟨a, q, v, q', b, rfl, hr, hv, hr'⟩ := hw.endsWhenDone (by simp) hi
    refine ⟨p ++ [.cr2 { d.cr2 with psize := 3 }, .cr2 { d.cr2 with psize := 3, pg := true }] ++ a,
      q, v, q', b, ?_, hr, hv, hr'⟩
    simp only [List.append_assoc]
  | write h hw => exact hw.endsWhenDone (by simp [h]) hi

end Moves

/-! ### The buffer -/

/-- The driver with another buffer. -/
def FlashDev.withBuffer (d : FlashDev) (buf : List Byte) : FlashDev :=
  { d with ctx := { d.ctx with buffer := buf } }

section Buffer

variable {d d' : FlashDev} {tr : List Bus} {buf : List Byte}

lemma burstStores_withBuffer (h : ∀ i, i < d.ctx.length.toNat → buf.getD i 0 = d.ctx.at i)
    (hle : d.ctx.offset.toNat + 32 ≤ d.ctx.length.toNat) :
    burstStores (d.withBuffer buf).ctx = burstStores d.ctx := by
  refine List.map_congr_left fun i hi => ?_
  have hi := List.mem_range.mp hi
  have hbytes : ∀ j ∈ List.range 4, buf.getD (d.ctx.offset.toNat + (4 * i + j)) 0 =
      d.ctx.at (d.ctx.offset.toNat + (4 * i + j)) := by
    intro j hj
    have hj := List.mem_range.mp hj
    exact h _ (by omega)
  exact congrArg (Bus.word _) (List.map_congr_left hbytes)

lemma tailStores_withBuffer (h : ∀ i, i < d.ctx.length.toNat → buf.getD i 0 = d.ctx.at i) :
    tailStores (d.withBuffer buf).ctx (d.ctx.length.toNat - d.ctx.offset.toNat) =
      tailStores d.ctx (d.ctx.length.toNat - d.ctx.offset.toNat) := by
  refine List.map_congr_left fun i hi => ?_
  have hi := List.mem_range.mp hi
  exact congrArg (Bus.byte _) (h (d.ctx.offset.toNat + i) (by omega))

lemma flashWriteBusy_withBuffer (r : ℕ → Sr2)
    (h : ∀ i, i < d.ctx.length.toNat → buf.getD i 0 = d.ctx.at i) :
    flashWriteBusy r (d.withBuffer buf) =
      ((flashWriteBusy r d).1.withBuffer buf, (flashWriteBusy r d).2) := by
  by_cases hc : (flashOpComplete r).1 = true
  · by_cases ho : d.ctx.offset < d.ctx.length
    · by_cases h32 : 32 ≤ d.ctx.length.toNat - d.ctx.offset.toNat
      · have hb := burstStores_withBuffer h (by omega)
        simp only [flashWriteBusy, hc, not_true_eq_false, if_false, FlashDev.withBuffer, ho, h32,
          if_true] at hb ⊢
        rw [hb]
      · have ht := tailStores_withBuffer h
        simp only [flashWriteBusy, hc, not_true_eq_false, if_false, FlashDev.withBuffer, ho, h32,
          if_true] at ht ⊢
        rw [ht]
    · simp only [flashWriteBusy, hc, not_true_eq_false, if_false, FlashDev.withBuffer, ho]
      split_ifs <;> rfl
  · simp only [flashWriteBusy, hc, FlashDev.withBuffer]
    rfl

/-- **A poll reads the buffer below the length only.** -/
theorem flashProcess_withBuffer (r : ℕ → Sr2)
    (h : ∀ i, i < d.ctx.length.toNat → buf.getD i 0 = d.ctx.at i) :
    flashProcess r (d.withBuffer buf) =
      ((flashProcess r d).1.withBuffer buf, (flashProcess r d).2) := by
  obtain ⟨⟨st, a, b, n, o⟩, c⟩ := d
  cases st with
  | idle => rfl
  | erasePending | eraseBusy =>
    simp only [flashProcess, FlashDev.withBuffer]
    split_ifs <;> rfl
  | writePending =>
    by_cases hc : (flashOpComplete r).1 = true
    · have hw := flashWriteBusy_withBuffer (d := ⟨⟨.writeBusy, a, b, n, o⟩,
        { c with psize := 3, pg := true }⟩) (fun n => r (n + 2)) h
      simp only [FlashDev.withBuffer] at hw
      simp only [flashProcess, FlashDev.withBuffer, hc, not_true_eq_false, if_false, hw]
    · simp only [flashProcess, FlashDev.withBuffer, hc]
      rfl
  | writeBusy => exact flashWriteBusy_withBuffer r h

lemma WriteMove.buffer (h : WriteMove d d' tr) :
    d'.ctx.buffer = d.ctx.buffer ∧ d'.ctx.length = d.ctx.length := by cases h <;> exact ⟨rfl, rfl⟩

lemma Move.buffer (h : Move d d' tr) :
    d'.ctx.buffer = d.ctx.buffer ∧ d'.ctx.length = d.ctx.length := by
  cases h with
  | idle | wait | eraseStart | eraseDone => exact ⟨rfl, rfl⟩
  | writeStart _ _ hw | write _ hw => exact hw.buffer

end Buffer

/-! ### A write among other calls -/

def FlashCall.isProcess : FlashCall → Bool
  | .process _ => true
  | _ => false

/-- The operation is not over, and the call does not reset the driver. -/
def Going (d : FlashDev) (c : FlashCall) : Prop := d.ctx.state ≠ .idle ∧ c ≠ .init

/-- A request is answered with `false`. -/
def Refused (d : FlashDev) : FlashCall → Prop
  | .eraseSectorAsync a => (flashEraseSectorAsync a d).1 = false
  | .writeAsync a data n => (flashWriteAsync a data n d).1 = false
  | _ => True

lemma Going.call {d : FlashDev} {c : FlashCall} (h : Going d c) :
    (∃ r, c = .process r) ∨ c.isProcess = false ∧ flashCall d c = (d, []) ∧ Refused d c := by
  cases c with
  | init => exact absurd rfl h.2
  | eraseSectorAsync a =>
    have hb := flashEraseSectorAsync_busy h.1 a
    exact .inr ⟨rfl, by rw [flashCall, hb], by rw [Refused, hb]⟩
  | writeAsync a data n =>
    have hb := flashWriteAsync_busy h.1 a data n
    exact .inr ⟨rfl, by rw [flashCall, hb], by rw [Refused, hb]⟩
  | process r => exact .inl ⟨r, rfl⟩

/-- The requests among the calls leave no mark. -/
lemma run_filter {d : FlashDev} {es : List FlashCall} (h : Along flashCall Going d es) :
    run flashCall d es = run flashCall d (es.filter FlashCall.isProcess) := by
  induction es generalizing d with
  | nil => rfl
  | cons c es ih =>
    have hrest := ih h.2
    rcases h.1.call with ⟨r, rfl⟩ | ⟨hc, hs, -⟩
    · rw [List.filter_cons_of_pos rfl, run_cons, run_cons, hrest]
    · rw [hs] at hrest
      rw [List.filter_cons_of_neg (by rw [hc]; simp), run_cons, hs, hrest]
      rfl

/-- The driver after it took a write. -/
def accepted (d : FlashDev) (addr : Addr) (data : List Byte) : FlashDev :=
  (flashWriteAsync addr data (BitVec.ofNat 16 data.length) d).2.1

/-- What the write is to store. -/
def toStore (addr : Addr) (data : List Byte) : List Effect := (placed addr data).map .store

/-- **The write so far**: what was stored and what is owed make up the data, and a force-write came
after all of it. -/
structure Writing (all : List Effect) (d : FlashDev) (tr : List Bus) : Prop where
  state : d.ctx.state = .idle ∨ d.ctx.state.isWrite = true
  conserved : effects tr ++ owed d = all
  forced : ∀ a v b, tr = a ++ .forceWrite v :: b → effects a = all

lemma Writing.move {all : List Effect} {d d' : FlashDev} {tr q : List Bus} (h : Writing all d tr)
    (hs : d.ctx.state.isWrite = true) (hm : Move d d' q) : Writing all d' (tr ++ q) := by
  refine ⟨(hm.isWrite hs).symm, ?_, ?_⟩
  · rw [effects_append, List.append_assoc, hm.owed_eq, h.conserved]
  · intro a v b he
    rcases List.append_eq_append_iff.mp he with ⟨a', rfl, hq⟩ | ⟨b', rfl, hb⟩
    · -- the force-write is in this poll, which then owes and stores nothing
      have hnone := hm.force_owed (v := v) (by rw [hq]; simp)
      have hstill := hm.owed_eq
      rw [hnone, hq] at hstill
      have hall := h.conserved
      rw [hnone, List.append_nil] at hall
      simp only [effects_append, List.append_eq_nil_iff] at hstill
      rw [effects_append, hstill.1.1, List.append_nil, hall]
    · cases b' with
      | nil =>
        have hnone := hm.force_owed (v := v) (by simp at hb; rw [← hb]; simp)
        have hall := h.conserved
        rw [hnone] at hall
        simpa using hall
      | cons x b' =>
        rw [List.cons_append, List.cons.injEq] at hb
        obtain ⟨rfl, rfl⟩ := hb
        exact h.forced a v b' rfl

lemma Writing.step {all : List Effect} {d : FlashDev} {tr : List Bus} {c : FlashCall}
    (h : Writing all d tr) (hc : Going d c) :
    Writing all (flashCall d c).1 (tr ++ (flashCall d c).2) := by
  rcases hc.call with ⟨r, rfl⟩ | ⟨-, hs, -⟩
  · exact h.move (h.state.resolve_left hc.1) (flashProcess_move r d)
  · rw [hs, List.append_nil]
    exact h

/-- What is asked of a call during the write: a request is refused, stores come right after `QW` was
read low, and only a poll that read `WBNE` clear and `QW` low ends the write. -/
structure WriteStep (d : FlashDev) (c : FlashCall) : Prop where
  refused : Refused d c
  timing : StoresWhenReady (flashCall d c).2
  ended : (flashCall d c).1.ctx.state = .idle →
    (∃ r, c = .process r) ∧ EndsWhenDone (flashCall d c).2

/-- **What is asked of a write** of `data` at `addr` that is followed by the calls `es`: it is
accepted; at every moment a prefix of the data is stored, and all of it when the driver is idle
again; requests in between leave no mark; the bytes of the buffer from the length on have no
influence; and a force-write comes after all the stores. -/
structure StoresExactly (d : FlashDev) (addr : Addr) (data : List Byte) (es : List FlashCall) :
    Prop where
  granted : (flashWriteAsync addr data (BitVec.ofNat 16 data.length) d).1 = true
  stored : ∀ pre post, es = pre ++ post →
    effects (run flashCall (accepted d addr data) pre).2 <+: toStore addr data
  complete : (run flashCall (accepted d addr data) es).1.ctx.state = .idle →
    effects (run flashCall (accepted d addr data) es).2 = toStore addr data
  unmarked : run flashCall (accepted d addr data) es =
    run flashCall (accepted d addr data) (es.filter FlashCall.isProcess)
  steps : Along flashCall WriteStep (accepted d addr data) es
  buffer : ∀ buf, (∀ i, i < data.length → buf.getD i 0 = data.getD i 0) →
    (run flashCall ((accepted d addr data).withBuffer buf) es).2 =
      (run flashCall (accepted d addr data) es).2
  forced : ∀ a v b, (run flashCall (accepted d addr data) es).2 = a ++ .forceWrite v :: b →
    effects a = toStore addr data

lemma run_withBuffer {buf : List Byte} {d : FlashDev} {es : List FlashCall}
    (hg : Along flashCall Going d es)
    (h : ∀ i, i < d.ctx.length.toNat → buf.getD i 0 = d.ctx.at i) :
    (run flashCall (d.withBuffer buf) es).2 = (run flashCall d es).2 := by
  induction es generalizing d with
  | nil => rfl
  | cons c es ih =>
    rcases hg.1.call with ⟨r, rfl⟩ | ⟨hc, hs, -⟩
    · have hp : flashCall (d.withBuffer buf) (.process r) =
          ((flashProcess r d).1.withBuffer buf, (flashProcess r d).2) := flashProcess_withBuffer r h
      obtain ⟨hbuf, hlen⟩ := (flashProcess_move r d).buffer
      have hnext : ∀ i, i < (flashProcess r d).1.ctx.length.toNat →
          buf.getD i 0 = (flashProcess r d).1.ctx.at i := by
        intro i hi
        rw [hlen] at hi
        rw [h i hi, FlashCtx.at, FlashCtx.at, hbuf]
      have hrest := ih hg.2 hnext
      rw [run_cons, run_cons, hp]
      exact congrArg ((flashProcess r d).2 ++ ·) hrest
    · have hg' : Going (d.withBuffer buf) c := hg.1
      have hs' : flashCall (d.withBuffer buf) c = (d.withBuffer buf, []) := by
        rcases hg'.call with ⟨r, rfl⟩ | ⟨-, hs', -⟩
        · cases hc
        · exact hs'
      have hrest := hg.2
      rw [hs] at hrest
      rw [run_cons, run_cons, hs, hs', ih hrest h]

section Accepted

variable {d : FlashDev} {addr : Addr} {data : List Byte}

lemma toNat_ofNat_length (hL : data.length ≤ cfgTudDfuXferBufsize) :
    (BitVec.ofNat 16 data.length).toNat = data.length := by
  simp only [cfgTudDfuXferBufsize] at hL
  rw [BitVec.toNat_ofNat]
  exact Nat.mod_eq_of_lt (by omega)

lemma accepted_eq (hd : d.ctx.state = .idle) (addr : Addr)
    (hL : data.length ≤ cfgTudDfuXferBufsize) :
    accepted d addr data = ⟨⟨.writePending, addr, memcpy d.ctx.buffer data data.length,
      BitVec.ofNat 16 data.length, 0⟩, d.cr2⟩ := by
  rw [accepted, flashWriteAsync_idle hd, toNat_ofNat_length hL]

lemma accepted_at (hd : d.ctx.state = .idle) (addr : Addr)
    (hL : data.length ≤ cfgTudDfuXferBufsize) {i : ℕ} (hi : i < data.length) :
    (accepted d addr data).ctx.at i = data.getD i 0 := by
  rw [accepted_eq hd addr hL]
  simp only [FlashCtx.at, memcpy, List.take_length]
  rw [List.getD_append _ _ _ _ hi]

lemma accepted_writing (hd : d.ctx.state = .idle) (hL : data.length ≤ cfgTudDfuXferBufsize) :
    Writing (toStore addr data) (accepted d addr data) [] := by
  rw [accepted_eq hd addr hL]
  refine ⟨.inr rfl, ?_, ?_⟩
  · have hlen := toNat_ofNat_length hL
    have howed : owed ⟨⟨.writePending, addr, memcpy d.ctx.buffer data
        (BitVec.ofNat 16 data.length).toNat, BitVec.ofNat 16 data.length, 0⟩, d.cr2⟩ =
        (placed addr (data.take (BitVec.ofNat 16 data.length).toNat)).map .store :=
      owed_writePending (by omega)
    rw [hlen, List.take_length] at howed
    exact howed
  · intro a v b he
    simp at he

lemma writing_run (hd : d.ctx.state = .idle) (hL : data.length ≤ cfgTudDfuXferBufsize)
    {es : List FlashCall} (hg : Along flashCall Going (accepted d addr data) es) :
    Writing (toStore addr data) (run flashCall (accepted d addr data) es).1
      (run flashCall (accepted d addr data) es).2 :=
  run_trace (J := Writing (toStore addr data)) (fun _ _ _ h hc => h.step hc)
    (accepted_writing hd hL) hg

lemma writeStep {all : List Effect} {d : FlashDev} {tr : List Bus} {c : FlashCall}
    (h : Writing all d tr) (hc : Going d c) : WriteStep d c := by
  rcases hc.call with ⟨r, rfl⟩ | ⟨-, hs, hr⟩
  · have hw := h.state.resolve_left hc.1
    refine ⟨trivial, (flashProcess_move r d).storesWhenReady, fun hi => ⟨⟨r, rfl⟩, ?_⟩⟩
    exact (flashProcess_move r d).endsWhenDone hw hi
  · refine ⟨hr, ?_, ?_⟩
    · rw [hs]
      exact .inl (by simp)
    · rw [hs]
      exact fun hi => absurd hi hc.1

end Accepted

end Cs7000pBootloader.Flash
