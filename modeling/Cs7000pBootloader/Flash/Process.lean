import Cs7000pBootloader.Flash.Driver
import Cs7000pBootloader.Lib.Runs

/-!
What one call of `flash_process` can do.  `Move` lists the outcomes once; every other fact about a
poll is read off it: which states follow which, what a poll leaves alone, and that it neither
loses, repeats nor reorders the work it was given (`flashProcess_owed`).
-/

namespace Cs7000pBootloader.Flash

open Cs7000pBootloader.Lib

/-! ### Effects of a trace -/

@[simp] lemma effects_nil : effects [] = [] := rfl

@[simp] lemma effects_append (a b : List Bus) : effects (a ++ b) = effects a ++ effects b :=
  List.flatMap_append

@[simp] lemma effects_cons (b : Bus) (tr : List Bus) : effects (b :: tr) = b.effects ++ effects tr :=
  List.flatMap_cons

/-- The access touches neither `CR2` nor the flash array. -/
def Bus.quiet : Bus → Bool
  | .sr2 _ | .clrEop | .keyr2 _ | .phoneTxd _ => true
  | .cr2 _ | .start _ | .forceWrite _ | .word _ _ | .byte _ _ | .load _ => false

/-- A trace of accesses that touch neither `CR2` nor the array. -/
def Quiet (tr : List Bus) : Prop := ∀ b ∈ tr, b.quiet = true

lemma Quiet.append {a b : List Bus} (ha : Quiet a) (hb : Quiet b) : Quiet (a ++ b) := by
  intro x hx
  rcases List.mem_append.mp hx with h | h
  · exact ha x h
  · exact hb x h

lemma Quiet.cons {b : Bus} {tr : List Bus} (hb : b.quiet = true) (h : Quiet tr) : Quiet (b :: tr) :=
  fun x hx => (List.mem_cons.mp hx).elim (fun e => e ▸ hb) (h x)

lemma Quiet.effects_eq {tr : List Bus} (h : Quiet tr) : effects tr = [] := by
  refine List.flatMap_eq_nil_iff.mpr fun b hb => ?_
  have := h b hb
  cases b <;> simp_all [Bus.quiet, Bus.effects]

lemma Quiet.not_load {tr : List Bus} (h : Quiet tr) (a : Addr) : .load a ∉ tr := by
  intro hm
  exact absurd (h _ hm) (by simp [Bus.quiet])

/-- The trace of a status check that passed: its first reading had `QW` low. -/
def Ready (q : List Bus) : Prop := Quiet q ∧ ∃ v rest, q = .sr2 v :: rest ∧ v.qw = false

lemma flashOpComplete_quiet (r : ℕ → Sr2) : Quiet (flashOpComplete r).2 := by
  unfold flashOpComplete
  split_ifs <;> simp [Quiet, Bus.quiet]

lemma flashOpComplete_ready {r : ℕ → Sr2} (h : (flashOpComplete r).1 = true) :
    Ready (flashOpComplete r).2 := by
  refine ⟨flashOpComplete_quiet r, ?_⟩
  unfold flashOpComplete at h ⊢
  by_cases hq : (r 0).qw = true
  · simp [hq] at h
  · split_ifs <;> exact ⟨_, _, rfl, by simpa using hq⟩

/-! ### The outcomes of a poll -/

/-- **What the case `FLASH_OP_WRITE_BUSY` can do.** -/
inductive WriteMove (d : FlashDev) : FlashDev → List Bus → Prop
  /-- the queue is busy -/
  | wait {q} : Quiet q → WriteMove d d q
  /-- the next 32 bytes -/
  | burst {q} : Ready q → d.ctx.offset.toNat + 32 ≤ d.ctx.length.toNat →
      WriteMove d { d with ctx := { d.ctx with offset := d.ctx.offset + 32 } }
        (q ++ burstStores d.ctx)
  /-- the last bytes, fewer than 32 -/
  | tail {q} : Ready q → d.ctx.offset.toNat < d.ctx.length.toNat →
      d.ctx.length.toNat < d.ctx.offset.toNat + 32 →
      WriteMove d { d with ctx := { d.ctx with offset := d.ctx.length } }
        (q ++ tailStores d.ctx (d.ctx.length.toNat - d.ctx.offset.toNat))
  /-- everything is stored, and the write buffer is not empty yet -/
  | force {q v} : Ready q → v.wbne = true → d.ctx.length.toNat ≤ d.ctx.offset.toNat →
      WriteMove d d (q ++ [.sr2 v, .forceWrite d.cr2])
  /-- everything is stored and committed -/
  | finish {q q' v} : Ready q → Ready q' → v.wbne = false →
      d.ctx.length.toNat ≤ d.ctx.offset.toNat →
      WriteMove d { ctx := { d.ctx with state := .idle }, cr2 := { d.cr2 with pg := false } }
        (q ++ .sr2 v :: q' ++ [.cr2 { d.cr2 with pg := false }, .phoneTxd false])

theorem flashWriteBusy_move (r : ℕ → Sr2) (d : FlashDev) :
    WriteMove d (flashWriteBusy r d).1 (flashWriteBusy r d).2 := by
  have hq := flashOpComplete_quiet r
  unfold flashWriteBusy
  by_cases hc : (flashOpComplete r).1 = true
  · have hr := flashOpComplete_ready hc
    simp only [hc, not_true_eq_false, ↓reduceIte]
    by_cases ho : d.ctx.offset < d.ctx.length
    · rw [if_pos ho]
      have ho' := BitVec.lt_def.mp ho
      split_ifs with h32
      · exact .burst hr (by omega)
      · exact .tail hr ho' (by omega)
    · rw [if_neg ho]
      have ho' : d.ctx.length.toNat ≤ d.ctx.offset.toNat :=
        Nat.le_of_not_lt fun h => ho (BitVec.lt_def.mpr h)
      split_ifs with hw hd
      · exact .force hr hw ho'
      · exact .finish hr (flashOpComplete_ready hd) (by simpa using hw) ho'
      · exact .wait (hq.append (.cons rfl (flashOpComplete_quiet _)))
  · simp only [hc]
    exact .wait hq

/-- The register while a sector erase is set up: the parallelism, the sector number cleared, the
sector number written, the sector erase command. -/
def eraseModes (c : Cr2) (addr : Addr) : Cr2 × Cr2 × Cr2 × Cr2 :=
  ({ c with psize := 3 }, { c with psize := 3, snb := 0 },
    { c with psize := 3, snb := (addrToSector addr).setWidth 3 },
    { c with psize := 3, snb := (addrToSector addr).setWidth 3, ser := true })

/-- **What `flash_process` can do.** -/
inductive Move (d : FlashDev) : FlashDev → List Bus → Prop
  | idle : d.ctx.state = .idle → Move d d []
  /-- the queue is busy -/
  | wait {q} : d.ctx.state = .erasePending ∨ d.ctx.state = .eraseBusy ∨
      d.ctx.state = .writePending → Quiet q → Move d d q
  | eraseStart {q c₁ c₂ c₃ c₄} : d.ctx.state = .erasePending → Ready q →
      eraseModes d.cr2 d.ctx.addr = (c₁, c₂, c₃, c₄) →
      Move d { ctx := { d.ctx with state := .eraseBusy }, cr2 := c₄ }
        (q ++ [.cr2 c₁, .cr2 c₂, .cr2 c₃, .cr2 c₄, .start c₄])
  | eraseDone {q} : d.ctx.state = .eraseBusy → Ready q →
      Move d { ctx := { d.ctx with state := .idle }, cr2 := { d.cr2 with ser := false } }
        (q ++ [.cr2 { d.cr2 with ser := false }])
  | writeStart {q d' tr} : d.ctx.state = .writePending → Ready q →
      WriteMove ⟨{ d.ctx with state := .writeBusy }, { d.cr2 with psize := 3, pg := true }⟩ d' tr →
      Move d d'
        (q ++ [.cr2 { d.cr2 with psize := 3 }, .cr2 { d.cr2 with psize := 3, pg := true }] ++ tr)
  | write {d' tr} : d.ctx.state = .writeBusy → WriteMove d d' tr → Move d d' tr

theorem flashProcess_move (r : ℕ → Sr2) (d : FlashDev) :
    Move d (flashProcess r d).1 (flashProcess r d).2 := by
  have hq := flashOpComplete_quiet r
  unfold flashProcess
  cases hs : d.ctx.state with
  | idle => exact .idle hs
  | erasePending =>
    by_cases hc : (flashOpComplete r).1 = true
    · simp only [hc, not_true_eq_false, ↓reduceIte]
      refine .eraseStart hs (flashOpComplete_ready hc) ?_
      simp [eraseModes]
    · simp only [hc]
      exact .wait (.inl hs) hq
  | eraseBusy =>
    by_cases hc : (flashOpComplete r).1 = true
    · simp only [hc, ↓reduceIte]
      exact .eraseDone hs (flashOpComplete_ready hc)
    · simp only [hc, Bool.false_eq_true, ↓reduceIte]
      exact .wait (.inr (.inl hs)) hq
  | writePending =>
    by_cases hc : (flashOpComplete r).1 = true
    · simp only [hc, not_true_eq_false, ↓reduceIte]
      exact .writeStart hs (flashOpComplete_ready hc) (flashWriteBusy_move _ _)
    · simp only [hc]
      exact .wait (.inr (.inr hs)) hq
  | writeBusy => exact .write hs (flashWriteBusy_move r d)

/-! ### What a poll does to the state -/

lemma flashProcess_idle {d : FlashDev} (h : d.ctx.state = .idle) (r : ℕ → Sr2) :
    flashProcess r d = (d, []) := by
  unfold flashProcess
  rw [h]

lemma WriteMove.state {d d' : FlashDev} {tr : List Bus} (h : WriteMove d d' tr) :
    d'.ctx.state = d.ctx.state ∨ d'.ctx.state = .idle := by
  cases h
  case finish => exact .inr rfl
  all_goals exact .inl rfl

lemma WriteMove.addr {d d' : FlashDev} {tr : List Bus} (h : WriteMove d d' tr) :
    d'.ctx.addr = d.ctx.addr := by cases h <;> rfl

lemma Move.addr {d d' : FlashDev} {tr : List Bus} (h : Move d d' tr) :
    d'.ctx.addr = d.ctx.addr := by
  cases h with
  | idle | wait | eraseStart | eraseDone => rfl
  | writeStart _ _ hw | write _ hw => exact hw.addr

lemma WriteMove.not_load {d d' : FlashDev} {tr : List Bus} (h : WriteMove d d' tr) (a : Addr) :
    .load a ∉ tr := by
  cases h with
  | wait hq => exact hq.not_load a
  | burst hr => simp [hr.1.not_load a, burstStores]
  | tail hr => simp [hr.1.not_load a, tailStores]
  | force hr => simp [hr.1.not_load a]
  | finish hr hr' => simp [hr.1.not_load a, hr'.1.not_load a]

lemma Move.not_load {d d' : FlashDev} {tr : List Bus} (h : Move d d' tr) (a : Addr) :
    .load a ∉ tr := by
  cases h with
  | idle => exact List.not_mem_nil
  | wait _ hq => exact hq.not_load a
  | eraseStart _ hr => simp [hr.1.not_load a]
  | eraseDone _ hr => simp [hr.1.not_load a]
  | writeStart _ hr hw => simp [hr.1.not_load a, hw.not_load a]
  | write _ hw => exact hw.not_load a

/-- An erase is pending or running. -/
def FlashOpState.isErase : FlashOpState → Bool
  | .erasePending | .eraseBusy => true
  | _ => false

/-- A write is pending or running. -/
def FlashOpState.isWrite : FlashOpState → Bool
  | .writePending | .writeBusy => true
  | _ => false

lemma FlashOpState.cases (s : FlashOpState) : s = .idle ∨ s.isErase = true ∨ s.isWrite = true := by
  cases s <;> simp [isErase, isWrite]

/-- An erase is an erase until it is over, and only a running one ends. -/
theorem Move.isErase {d d' : FlashDev} {tr : List Bus} (hm : Move d d' tr)
    (h : d.ctx.state.isErase = true) :
    d'.ctx.state = d.ctx.state ∨
      d.ctx.state = .erasePending ∧ d'.ctx.state = .eraseBusy ∨
      d.ctx.state = .eraseBusy ∧ d'.ctx.state = .idle := by
  cases hm with
  | idle | wait => exact .inl rfl
  | eraseStart hs => exact .inr (.inl ⟨hs, rfl⟩)
  | eraseDone hs => exact .inr (.inr ⟨hs, rfl⟩)
  | writeStart hs | write hs => simp [hs, FlashOpState.isErase] at h

theorem Move.isWrite {d d' : FlashDev} {tr : List Bus} (hm : Move d d' tr)
    (h : d.ctx.state.isWrite = true) : d'.ctx.state.isWrite = true ∨ d'.ctx.state = .idle := by
  cases hm with
  | idle | wait => exact .inl h
  | eraseStart hs | eraseDone hs => simp [hs, FlashOpState.isWrite] at h
  | writeStart _ _ hw =>
    rcases hw.state with hs | hs
    · exact .inl (by rw [hs]; rfl)
    · exact .inr hs
  | write _ hw =>
    rcases hw.state with hs | hs
    · exact .inl (by rw [hs]; exact h)
    · exact .inr hs

lemma isWrite_of_move {d d' : FlashDev} {tr : List Bus} (h : Move d d' tr)
    (hw : d'.ctx.state.isWrite = true) :
    d.ctx.state.isWrite = true := by
  rcases FlashOpState.cases d.ctx.state with hs | hs | hs
  · cases h with
    | idle | wait => exact hw
    | eraseStart he | eraseDone he | writeStart he | write he => cases hs.symm.trans he
  · rcases h.isErase hs with he | ⟨-, he⟩ | ⟨-, he⟩ <;> rw [he] at hw
    · exact hw
    · cases hw
    · cases hw
  · exact hs

/-! ### No work is lost, repeated or reordered -/

/-- The bytes a write still has to store, from the offset on. -/
def FlashCtx.rest (c : FlashCtx) : List (Addr × Byte) :=
  placed (c.addr + c.offset.setWidth 32)
    ((List.range (c.length.toNat - c.offset.toNat)).map fun i => c.at (c.offset.toNat + i))

lemma owed_of_isWrite {d : FlashDev} (h : d.ctx.state.isWrite = true) :
    owed d = d.ctx.rest.map .store := by
  unfold owed FlashCtx.rest
  cases hs : d.ctx.state <;> simp_all [FlashOpState.isWrite]

lemma owed_of_idle {d : FlashDev} (h : d.ctx.state = .idle) : owed d = [] := by
  unfold owed
  rw [h]

lemma effects_burstStores (c : FlashCtx) :
    effects (burstStores c) = (placed (c.addr + c.offset.setWidth 32)
      ((List.range 32).map fun i => c.at (c.offset.toNat + i))).map .store := by
  rw [← flatMap_placed (c.addr + c.offset.setWidth 32) (fun i => c.at (c.offset.toNat + i)) 4 8]
  unfold effects burstStores
  rw [List.flatMap_map, List.map_flatMap]
  rfl

lemma effects_tailStores (c : FlashCtx) (n : ℕ) :
    effects (tailStores c n) = (placed (c.addr + c.offset.setWidth 32)
      ((List.range n).map fun i => c.at (c.offset.toNat + i))).map .store := by
  have h := flatMap_placed (c.addr + c.offset.setWidth 32) (fun i => c.at (c.offset.toNat + i)) 1 n
  rw [Nat.one_mul] at h
  rw [← h]
  unfold effects tailStores
  rw [List.flatMap_map, List.map_flatMap]
  simp [Bus.effects]

lemma rest_of_le {c : FlashCtx} (h : c.length.toNat ≤ c.offset.toNat) : c.rest = [] := by
  unfold FlashCtx.rest
  rw [Nat.sub_eq_zero_of_le h]
  rfl

/-- The rest of a write is its next 32 bytes and the rest after them. -/
lemma rest_burst {c : FlashCtx} (h : c.offset.toNat + 32 ≤ c.length.toNat) :
    placed (c.addr + c.offset.setWidth 32)
        ((List.range 32).map fun i => c.at (c.offset.toNat + i)) ++
      FlashCtx.rest { c with offset := c.offset + 32 } = c.rest := by
  have hl := c.length.isLt
  have ho : (c.offset + 32).toNat = c.offset.toNat + 32 := by
    rw [BitVec.toNat_add]
    exact Nat.mod_eq_of_lt (by simp; omega)
  have hw : (c.offset + 32).setWidth 32 = c.offset.setWidth 32 + BitVec.ofNat 32 32 := by
    apply BitVec.eq_of_toNat_eq
    rw [BitVec.toNat_setWidth, ho, BitVec.toNat_add, BitVec.toNat_setWidth]
    simp
  have hn : c.length.toNat - c.offset.toNat = 32 + (c.length.toNat - (c.offset.toNat + 32)) := by
    omega
  unfold FlashCtx.rest FlashCtx.at
  simp only [ho, hw, hn, List.range_add, List.map_append, placed_append, List.length_map,
    List.length_range, List.map_map, BitVec.add_assoc]
  simp only [Function.comp_def, Nat.add_assoc]

lemma WriteMove.owed_eq {d d' : FlashDev} {tr : List Bus} (h : WriteMove d d' tr)
    (hs : d.ctx.state = .writeBusy) : effects tr ++ owed d' = owed d := by
  have hd : owed d = d.ctx.rest.map .store := owed_of_isWrite (by rw [hs]; rfl)
  cases h with
  | wait hq => rw [hq.effects_eq, List.nil_append]
  | burst hr hle =>
    rw [effects_append, hr.1.effects_eq, List.nil_append, effects_burstStores, hd,
      owed_of_isWrite (by simp [hs, FlashOpState.isWrite]), ← List.map_append, rest_burst hle]
  | force hr => simp [hr.1.effects_eq, Bus.effects]
  | tail hr hlt _ =>
    rw [effects_append, hr.1.effects_eq, List.nil_append, effects_tailStores, hd,
      owed_of_isWrite (by simp [hs, FlashOpState.isWrite]), rest_of_le (by simp)]
    simp [FlashCtx.rest]
  | finish hr hr' _ hle =>
    rw [hd, rest_of_le hle, owed_of_idle rfl]
    simp [hr.1.effects_eq, hr'.1.effects_eq, Bus.effects]

lemma Move.owed_eq {d d' : FlashDev} {tr : List Bus} (h : Move d d' tr) :
    effects tr ++ owed d' = owed d := by
  cases h with
  | idle => rfl
  | wait _ hq => rw [hq.effects_eq, List.nil_append]
  | eraseStart hs hr he =>
    simp only [eraseModes, Prod.mk.injEq] at he
    obtain ⟨-, -, -, rfl⟩ := he
    simp [hr.1.effects_eq, Bus.effects, owed, hs]
  | eraseDone hs hr => simp [hr.1.effects_eq, Bus.effects, owed, hs]
  | writeStart hs hr hw =>
    have h := (hw.owed_eq rfl).trans (owed_of_isWrite rfl)
    rw [effects_append, List.append_assoc, h, owed_of_isWrite (by rw [hs]; rfl)]
    simp [hr.1.effects_eq, Bus.effects, FlashCtx.rest, FlashCtx.at]
  | write hs hw => exact hw.owed_eq hs

/-- **A poll conserves the work.** What it tells the array, followed by what is owed after it, is
what was owed before it, whatever the readings. -/
theorem flashProcess_owed (r : ℕ → Sr2) (d : FlashDev) :
    effects (flashProcess r d).2 ++ owed (flashProcess r d).1 = owed d :=
  (flashProcess_move r d).owed_eq

/-- **Any number of polls conserves the work**: what they tell the array is what was owed before
them, up to what is owed after them. -/
theorem polls_owed (d : FlashDev) (rs : List (ℕ → Sr2)) :
    effects (run (fun d r => flashProcess r d) d rs).2 ++
      owed (run (fun d r => flashProcess r d) d rs).1 = owed d :=
  run_conserves (I := fun _ => True) (G := fun _ _ => True) effects_nil effects_append
    (fun _ _ _ _ => trivial) (fun d r _ _ => flashProcess_owed r d) trivial
    (along_of_forall (fun _ _ => trivial) d rs)

/-! ### Requests -/

lemma flashIsBusy_eq_true {d : FlashDev} : flashIsBusy d = true ↔ d.ctx.state ≠ .idle := by
  simp [flashIsBusy]

lemma flashIsBusy_eq_false {d : FlashDev} : flashIsBusy d = false ↔ d.ctx.state = .idle := by
  simp [flashIsBusy]

lemma flashEraseSectorAsync_busy {d : FlashDev} (h : d.ctx.state ≠ .idle) (a : Addr) :
    flashEraseSectorAsync a d = (false, d) := if_pos h

lemma flashWriteAsync_busy {d : FlashDev} (h : d.ctx.state ≠ .idle) (a : Addr) (data : List Byte)
    (n : BitVec 16) : flashWriteAsync a data n d = (false, d, []) := if_pos h

lemma flashEraseSectorAsync_idle {d : FlashDev} (h : d.ctx.state = .idle) (a : Addr) :
    flashEraseSectorAsync a d =
      (true, { d with ctx := { d.ctx with addr := a, state := .erasePending } }) :=
  if_neg (not_not.mpr h)

lemma flashWriteAsync_idle {d : FlashDev} (h : d.ctx.state = .idle) (a : Addr) (data : List Byte)
    (n : BitVec 16) :
    flashWriteAsync a data n d = (true, { d with ctx :=
      ⟨.writePending, a, memcpy d.ctx.buffer data n.toNat, n, 0⟩ }, [.phoneTxd true]) :=
  if_neg (not_not.mpr h)

lemma map_getD_memcpy (dst src : List Byte) {n : ℕ} (h : n ≤ src.length) :
    (List.range n).map (fun i => (memcpy dst src n).getD i 0) = src.take n := by
  apply List.ext_getElem
  · simp [Nat.min_eq_left h]
  · intro i hi _
    simp only [List.length_map, List.length_range] at hi
    have hlen : i < (src.take n).length := by simp; omega
    simp only [List.getElem_map, List.getElem_range, memcpy]
    rw [List.getD_append _ _ _ _ hlen, List.getD_eq_getElem _ _ hlen]

/-- **A write owes its data** from the moment it is accepted. -/
theorem owed_writePending {a : Addr} {data buffer : List Byte} {n : BitVec 16} {c : Cr2}
    (hn : n.toNat ≤ data.length) :
    owed ⟨⟨.writePending, a, memcpy buffer data n.toNat, n, 0⟩, c⟩ =
      (placed a (data.take n.toNat)).map .store := by
  rw [owed_of_isWrite rfl, ← map_getD_memcpy buffer data hn]
  simp [FlashCtx.rest, FlashCtx.at]

end Cs7000pBootloader.Flash
