import Cs7000pBootloader.Flash.Write

/-!
Flash words.  The controller programs 256 bits at a time, so a burst of eight words has to start at a
multiple of 32 and the bytes of the tail belong into one flash word of their own.  The driver looks
at the length that remains and not at the address: this module says which blocks come out aligned.
-/

namespace Cs7000pBootloader.Flash

open Cs7000pBootloader.Lib

/-! ### The addresses of a trace -/

def Bus.wordAddr : Bus → Option Addr
  | .word a _ => some a
  | _ => none

def Bus.byteAddr : Bus → Option Addr
  | .byte a _ => some a
  | _ => none

/-- Where a trace stores words. -/
def wordAddrs (tr : List Bus) : List Addr := tr.filterMap Bus.wordAddr

/-- Where a trace stores bytes. -/
def byteAddrs (tr : List Bus) : List Addr := tr.filterMap Bus.byteAddr

@[simp] lemma wordAddrs_append (a b : List Bus) :
    wordAddrs (a ++ b) = wordAddrs a ++ wordAddrs b := List.filterMap_append

@[simp] lemma byteAddrs_append (a b : List Bus) :
    byteAddrs (a ++ b) = byteAddrs a ++ byteAddrs b := List.filterMap_append

lemma addrs_quiet {q : List Bus} (h : Quiet q) : wordAddrs q = [] ∧ byteAddrs q = [] := by
  constructor <;>
  · refine List.filterMap_eq_nil_iff.mpr fun b hb => ?_
    have hs := h.not_store b hb
    cases b with
    | word | byte => cases hs
    | _ => rfl

lemma addrs_after {q : List Bus} (h : Quiet q) (s : List Bus) :
    wordAddrs (q ++ s) = wordAddrs s ∧ byteAddrs (q ++ s) = byteAddrs s := by
  obtain ⟨hw, hb⟩ := addrs_quiet h
  rw [wordAddrs_append, byteAddrs_append, hw, hb]
  exact ⟨rfl, rfl⟩

lemma addrs_burst (c : FlashCtx) :
    wordAddrs (burstStores c) =
        ((List.range 8).map fun i => c.addr + c.offset.setWidth 32 + BitVec.ofNat 32 (4 * i)) ∧
      byteAddrs (burstStores c) = [] := by
  unfold wordAddrs byteAddrs burstStores
  rw [List.filterMap_map, List.filterMap_map]
  exact ⟨rfl, rfl⟩

lemma addrs_tail (c : FlashCtx) (n : ℕ) :
    wordAddrs (tailStores c n) = [] ∧ byteAddrs (tailStores c n) =
      (List.range n).map fun i => c.addr + c.offset.setWidth 32 + BitVec.ofNat 32 i := by
  unfold wordAddrs byteAddrs tailStores
  rw [List.filterMap_map, List.filterMap_map]
  constructor
  · exact List.filterMap_eq_nil_iff.mpr fun i _ => rfl
  · exact congrFun List.filterMap_eq_map _

/-! ### The specification -/

/-- The 256-bit flash word an address lies in. -/
def flashWord (a : Addr) : ℕ := a.toNat / 32

/-- **What is asked of the stores of a block.** `before` went over the bus since the block was
accepted, and `tr` is what goes over it now. -/
structure Aligned (before tr : List Bus) : Prop where
  /-- the words, if there are any, are the eight words of one flash word -/
  burst : wordAddrs tr = [] ∨ ∃ a : Addr, a.toNat % 32 = 0 ∧
    wordAddrs tr = (List.range 8).map fun i => a + BitVec.ofNat 32 (4 * i)
  /-- the bytes of the block stay in one flash word -/
  tail : ∀ a ∈ byteAddrs (before ++ tr), ∀ b ∈ byteAddrs (before ++ tr), flashWord a = flashWord b
  /-- no burst of the block touches that one -/
  untouched : ∀ a ∈ wordAddrs (before ++ tr), ∀ b ∈ byteAddrs (before ++ tr),
    flashWord a ≠ flashWord b

lemma Aligned.first {before tr : List Bus} (h : Aligned before tr) :
    ((wordAddrs tr).headD 0).toNat % 32 = 0 := by
  rcases h.burst with hn | ⟨a, ha, he⟩
  · rw [hn]
    rfl
  · have hz : a + BitVec.ofNat 32 (4 * 0) = a := BitVec.add_zero a
    rw [he, List.range_succ_eq_map, List.map_cons, List.headD_cons, hz]
    exact ha

/-- The driver, polled. -/
def poll (d : FlashDev) (r : ℕ → Sr2) : FlashDev × List Bus := flashProcess r d

/-- The block keeps the alignment: whatever idle driver takes it, and however that is polled, the
stores are aligned. -/
def KeepsAligned (addr : Addr) (n : BitVec 16) : Prop :=
  ∀ (d : FlashDev) (data : List Byte) (rs : List (ℕ → Sr2)), d.ctx.state = .idle →
    Along (withGhost poll fun d r tr => tr ++ (poll d r).2) (fun s r => Aligned s.2 (poll s.1 r).2)
      ((flashWriteAsync addr data n d).2.1, []) rs

/-- The block starts at a flash word, or does not leave the one it starts in. -/
def Fits (addr : Addr) (n : BitVec 16) : Prop :=
  addr.toNat % 32 = 0 ∨ addr.toNat % 32 + n.toNat ≤ 32

instance (addr : Addr) (n : BitVec 16) : Decidable (Fits addr n) := by unfold Fits; infer_instance

/-! ### The stores of a poll -/

section Moves

variable {d d' : FlashDev} {tr : List Bus}

/-- What a poll stores, and how far it moves the offset: nothing, a burst, or the tail. -/
inductive Stored (c c' : FlashCtx) (tr : List Bus) : Prop
  | none : wordAddrs tr = [] → byteAddrs tr = [] → c'.offset = c.offset → Stored c c' tr
  | burst : c.offset.toNat + 32 ≤ c.length.toNat → wordAddrs tr = ((List.range 8).map fun i =>
        c.addr + c.offset.setWidth 32 + BitVec.ofNat 32 (4 * i)) →
      byteAddrs tr = [] → c'.offset = c.offset + 32 → Stored c c' tr
  | tail : c.offset.toNat < c.length.toNat → c.length.toNat < c.offset.toNat + 32 →
      wordAddrs tr = [] → byteAddrs tr = ((List.range (c.length.toNat - c.offset.toNat)).map fun i =>
        c.addr + c.offset.setWidth 32 + BitVec.ofNat 32 i) →
      c'.offset = c.length → Stored c c' tr

lemma WriteMove.stored (h : WriteMove d d' tr) : Stored d.ctx d'.ctx tr := by
  cases h with
  | wait hq =>
    obtain ⟨hw, hb⟩ := addrs_quiet hq
    exact .none hw hb rfl
  | burst hr hle =>
    obtain ⟨hw, hb⟩ := addrs_after hr.1 (burstStores d.ctx)
    exact .burst hle (hw.trans (addrs_burst d.ctx).1) (hb.trans (addrs_burst d.ctx).2) rfl
  | tail hr hlt hgt =>
    obtain ⟨hw, hb⟩ := addrs_after hr.1
      (tailStores d.ctx (d.ctx.length.toNat - d.ctx.offset.toNat))
    exact .tail hlt hgt (hw.trans (addrs_tail d.ctx _).1) (hb.trans (addrs_tail d.ctx _).2) rfl
  | force hr =>
    obtain ⟨hw, hb⟩ := addrs_after hr.1 _
    exact .none hw hb rfl
  | @finish q q' v hr hr' =>
    rw [List.append_assoc, List.cons_append]
    obtain ⟨hw, hb⟩ := addrs_after hr.1 _
    obtain ⟨hw', hb'⟩ := addrs_after hr'.1 _
    exact .none (hw.trans hw') (hb.trans hb') rfl

theorem Move.stored (h : Move d d' tr) (hs : d.ctx.state.isWrite = true) :
    Stored d.ctx d'.ctx tr := by
  cases h with
  | idle => exact .none rfl rfl rfl
  | wait _ hq =>
    obtain ⟨hw, hb⟩ := addrs_quiet hq
    exact .none hw hb rfl
  | eraseStart h | eraseDone h => simp [h, FlashOpState.isWrite] at hs
  | @writeStart _ _ tr _ hr hm =>
    rw [List.append_assoc]
    obtain ⟨hw, hb⟩ := addrs_after hr.1 _
    -- the two writes of `CR2` are no stores
    cases hm.stored with
    | none hwd hbt ho => exact .none (hw.trans hwd) (hb.trans hbt) ho
    | burst hle hwd hbt ho => exact .burst hle (hw.trans hwd) (hb.trans hbt) ho
    | tail hlt hgt hwd hbt ho => exact .tail hlt hgt (hw.trans hwd) (hb.trans hbt) ho
  | write _ hm => exact hm.stored

theorem Move.stored_none (h : Move d d' tr) (hs : d.ctx.state.isWrite = false) :
    d'.ctx.state.isWrite = false ∧ wordAddrs tr = [] ∧ byteAddrs tr = [] := by
  cases h with
  | idle => exact ⟨hs, rfl, rfl⟩
  | wait _ hq => exact ⟨hs, addrs_quiet hq⟩
  | eraseStart _ hr | eraseDone _ hr => exact ⟨rfl, addrs_after hr.1 _⟩
  | writeStart h | write h => simp [h, FlashOpState.isWrite] at hs

end Moves

/-! ### The layout of a block -/

/-- Everything stored of a block of `n` bytes at `addr` is a word of its full bursts or a byte of its
tail, and a write that goes on is the one of that block. -/
structure Laid (addr : Addr) (n : ℕ) (d : FlashDev) (tr : List Bus) : Prop where
  words : ∀ a ∈ wordAddrs tr, ∃ i < 32 * (n / 32), a = addr + BitVec.ofNat 32 i
  bytes : ∀ a ∈ byteAddrs tr, ∃ i, 32 * (n / 32) ≤ i ∧ i < n ∧ a = addr + BitVec.ofNat 32 i
  going : d.ctx.state.isWrite = true → d.ctx.addr = addr ∧ d.ctx.length.toNat = n ∧
    (d.ctx.offset.toNat % 32 = 0 ∨ d.ctx.offset = d.ctx.length)

section Laid

variable {addr : Addr} {n : ℕ} {d d' : FlashDev} {tr q : List Bus}

lemma words_still {P : Addr → Prop} (h : ∀ a ∈ wordAddrs tr, P a) (hq : wordAddrs q = []) :
    ∀ a ∈ wordAddrs (tr ++ q), P a := by
  rw [wordAddrs_append, hq, List.append_nil]
  exact h

lemma bytes_still {P : Addr → Prop} (h : ∀ a ∈ byteAddrs tr, P a) (hq : byteAddrs q = []) :
    ∀ a ∈ byteAddrs (tr ++ q), P a := by
  rw [byteAddrs_append, hq, List.append_nil]
  exact h

lemma Laid.still (h : Laid addr n d tr) (hq : wordAddrs q = [] ∧ byteAddrs q = [])
    (hd : d' = d ∨ d'.ctx.state.isWrite = false) : Laid addr n d' (tr ++ q) := by
  refine ⟨words_still h.words hq.1, bytes_still h.bytes hq.2, fun hc => ?_⟩
  rcases hd with rfl | hd
  · exact h.going hc
  · rw [hd] at hc
    cases hc

lemma Laid.move (h : Laid addr n d tr) (hm : Move d d' q) : Laid addr n d' (tr ++ q) := by
  by_cases hs : d.ctx.state.isWrite = true
  · obtain ⟨ha, hn, ho⟩ := h.going hs
    have hlen : d'.ctx.length = d.ctx.length := hm.buffer.2
    have hkeep : d'.ctx.addr = addr ∧ d'.ctx.length.toNat = n := by
      rw [hm.addr, hlen]
      exact ⟨ha, hn⟩
    have hat : ∀ i, d.ctx.addr + d.ctx.offset.setWidth 32 + BitVec.ofNat 32 i =
        addr + BitVec.ofNat 32 (d.ctx.offset.toNat + i) := by
      intro i
      have ew : d.ctx.offset.setWidth 32 = BitVec.ofNat 32 d.ctx.offset.toNat :=
        (BitVec.ofNat_toNat 32 d.ctx.offset).symm
      rw [ha, ew, BitVec.ofNat_add, BitVec.add_assoc]
    cases hm.stored hs with
    | none hw hb hoff =>
      refine ⟨words_still h.words hw, bytes_still h.bytes hb, fun _ => ⟨hkeep.1, hkeep.2, ?_⟩⟩
      rw [hlen, hoff]
      exact ho
    | burst hle hw hb hoff =>
      have h32 : d.ctx.offset.toNat % 32 = 0 := ho.resolve_right fun e => by rw [e] at hle; omega
      refine ⟨?_, bytes_still h.bytes hb, fun _ => ⟨hkeep.1, hkeep.2, .inl ?_⟩⟩
      · intro a hm
        rw [wordAddrs_append, hw] at hm
        rcases List.mem_append.mp hm with hm | hm
        · exact h.words a hm
        · obtain ⟨i, hi, rfl⟩ := List.mem_map.mp hm
          have hi := List.mem_range.mp hi
          exact ⟨d.ctx.offset.toNat + 4 * i, by omega, hat _⟩
      · have hl := d.ctx.length.isLt
        rw [hoff, BitVec.toNat_add, show (32 : BitVec 16).toNat = 32 from rfl]
        omega
    | tail hlt hgt hw hb hoff =>
      have h32 : d.ctx.offset.toNat % 32 = 0 := ho.resolve_right fun e => by rw [e] at hlt; omega
      refine ⟨words_still h.words hw, ?_, fun _ => ⟨hkeep.1, hkeep.2, .inr ?_⟩⟩
      · intro a hm
        rw [byteAddrs_append, hb] at hm
        rcases List.mem_append.mp hm with hm | hm
        · exact h.bytes a hm
        · obtain ⟨i, hi, rfl⟩ := List.mem_map.mp hm
          have hi := List.mem_range.mp hi
          exact ⟨d.ctx.offset.toNat + i, by omega, by omega, hat _⟩
      · rw [hlen, hoff]
  · obtain ⟨hs', hq⟩ := hm.stored_none (by simpa using hs)
    exact h.still hq (.inr hs')

lemma toNat_at (addr : Addr) (i : ℕ) :
    (addr + BitVec.ofNat 32 i).toNat = (addr.toNat + i) % 4294967296 := by
  rw [BitVec.toNat_add, BitVec.toNat_ofNat]
  omega

lemma Laid.tail {n : BitVec 16} (h : Laid addr n.toNat d tr) (hf : Fits addr n) {a b : Addr}
    (ha : a ∈ byteAddrs tr) (hb : b ∈ byteAddrs tr) : flashWord a = flashWord b := by
  obtain ⟨i, hi, hin, rfl⟩ := h.bytes a ha
  obtain ⟨j, hj, hjn, rfl⟩ := h.bytes b hb
  have hn := n.isLt
  have haddr := addr.isLt
  unfold flashWord
  rw [toNat_at, toNat_at]
  rcases hf with hf | hf <;> omega

lemma Laid.untouched {n : BitVec 16} (h : Laid addr n.toNat d tr) (hf : Fits addr n) {a b : Addr}
    (ha : a ∈ wordAddrs tr) (hb : b ∈ byteAddrs tr) : flashWord a ≠ flashWord b := by
  obtain ⟨i, hi, rfl⟩ := h.words a ha
  obtain ⟨j, hj, hjn, rfl⟩ := h.bytes b hb
  have hn := n.isLt
  have haddr := addr.isLt
  -- a block with a word is no shorter than a flash word
  have hmod : addr.toNat % 32 = 0 := by
    rcases hf with hf | hf <;> omega
  unfold flashWord
  rw [toNat_at, toNat_at]
  omega

lemma Laid.aligned_still {n : BitVec 16} (h : Laid addr n.toNat d tr) (hf : Fits addr n)
    (hq : wordAddrs q = [] ∧ byteAddrs q = []) : Aligned tr q :=
  have hafter := h.still hq (.inl rfl)
  ⟨.inl hq.1, fun _ ha _ hb => hafter.tail hf ha hb, fun _ ha _ hb => hafter.untouched hf ha hb⟩

/-- **The stores of a block that fits are aligned.** -/
theorem Laid.aligned {n : BitVec 16} (h : Laid addr n.toNat d tr) (hf : Fits addr n)
    (hm : Move d d' q) : Aligned tr q := by
  have hafter := h.move hm
  refine ⟨?_, fun a ha b hb => hafter.tail hf ha hb, fun a ha b hb => hafter.untouched hf ha hb⟩
  by_cases hs : d.ctx.state.isWrite = true
  · obtain ⟨haddr, hn, ho⟩ := h.going hs
    cases hm.stored hs with
    | none hw => exact .inl hw
    | tail _ _ hw => exact .inl hw
    | burst hle hw =>
      have h32 : d.ctx.offset.toNat % 32 = 0 := ho.resolve_right fun e => by rw [e] at hle; omega
      have hlt := d.ctx.offset.isLt
      refine .inr ⟨d.ctx.addr + d.ctx.offset.setWidth 32, ?_, hw⟩
      have hmod : addr.toNat % 32 = 0 := by
        rcases hf with hf | hf <;> omega
      rw [BitVec.toNat_add, BitVec.toNat_setWidth, haddr]
      omega
  · exact .inl (hm.stored_none (by simpa using hs)).2.1

end Laid

/-! ### Exactly which blocks keep the alignment -/

section Keeps

variable {addr : Addr} {n : BitVec 16} {d : FlashDev}

lemma laid_accepted (hi : d.ctx.state = .idle) (data : List Byte) :
    Laid addr n.toNat (flashWriteAsync addr data n d).2.1 [] := by
  rw [flashWriteAsync_idle hi]
  exact ⟨fun a hm => absurd hm List.not_mem_nil, fun a hm => absurd hm List.not_mem_nil,
    fun _ => ⟨rfl, rfl, .inl rfl⟩⟩

lemma poll_first (buffer : List Byte) (c : Cr2) (hn : 0 < n) :
    (poll ⟨⟨.writePending, addr, buffer, n, 0⟩, c⟩ fun _ => sr2Clear).1.ctx.offset ≠ 0 := by
  have hpos : 0 < n.toNat := BitVec.lt_def.mp hn
  have hstep : (poll ⟨⟨.writePending, addr, buffer, n, 0⟩, c⟩ fun _ => sr2Clear).1.ctx.offset =
      if 32 ≤ n.toNat then 32 else n := by
    simp only [poll, flashProcess, flashOpComplete, sr2Clear, flashWriteBusy]
    simp only [hn]
    split_ifs <;> simp_all
  rw [hstep]
  split_ifs
  · decide
  · intro h0
    rw [h0] at hpos
    exact absurd hpos (by decide)

/-- First stores that are aligned are those of a block that fits. -/
lemma Stored.fits {c c' : FlashCtx} {tr : List Bus} (hs : Stored c c' tr) (h0 : c.offset = 0)
    (hne : c'.offset ≠ 0) (h : Aligned [] tr) : Fits c.addr c.length := by
  have hz : c.offset.toNat = 0 := by rw [h0]; rfl
  have hadd : c.addr + c.offset.setWidth 32 = c.addr := by
    rw [h0]
    exact BitVec.add_zero c.addr
  cases hs with
  | none _ _ ho => exact absurd (ho.trans h0) hne
  | burst _ hw =>
    -- the burst starts at the address of the block
    have hfirst := h.first
    have hz' : c.addr + BitVec.ofNat 32 (4 * 0) = c.addr := BitVec.add_zero c.addr
    rw [hw, hadd, List.range_succ_eq_map, List.map_cons, List.headD_cons, hz'] at hfirst
    exact .inl hfirst
  | tail hlt hgt _ hb =>
    -- its first and its last byte lie in one flash word
    have hlen := c.length.isLt
    have haddr := c.addr.isLt
    have hmem : ∀ i < c.length.toNat, c.addr + BitVec.ofNat 32 i ∈ byteAddrs ([] ++ tr) := by
      intro i hi
      rw [List.nil_append, hb, hadd]
      exact List.mem_map.mpr ⟨i, List.mem_range.mpr (by omega), rfl⟩
    have hsame := h.tail _ (hmem 0 (by omega)) _ (hmem (c.length.toNat - 1) (by omega))
    unfold flashWord at hsame
    rw [toNat_at, toNat_at] at hsame
    exact .inr (by omega)

/-- **Exactly the blocks that fit keep the alignment.** -/
theorem keepsAligned_iff : KeepsAligned addr n ↔ Fits addr n := by
  constructor
  · intro h
    by_cases h0 : n = 0
    · subst h0
      have hz : (0 : BitVec 16).toNat = 0 := rfl
      exact .inr (by omega)
    have hn : 0 < n := BitVec.lt_def.mpr (Nat.pos_of_ne_zero fun hc => h0 (BitVec.eq_of_toNat_eq hc))
    have hfirst := h resetDev [] [fun _ => sr2Clear] rfl
    rw [flashWriteAsync_idle rfl] at hfirst
    exact ((flashProcess_move _ _).stored rfl).fits rfl (poll_first _ _ hn) hfirst.1
  · intro hf d data rs hi
    refine along_of_inv (I := fun s : FlashDev × List Bus => Laid addr n.toNat s.1 s.2)
      (G := fun _ _ => True) (fun s r h _ => h.move (flashProcess_move r s.1))
      (fun s r h _ => h.aligned hf (flashProcess_move r s.1)) (laid_accepted hi data)
      (along_of_forall (fun _ _ => trivial) _ rs)

end Keeps

end Cs7000pBootloader.Flash
