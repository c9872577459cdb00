import Cs7000pBootloader.Dfu.Device

/-!
The application region that the interface string advertises, `0x08100000/8*128Kg`.  The callbacks
compare no address with it, so a run is confined exactly as far as its requests are: the theorem
of this module says for which runs every store and every read lies inside and every request that
reaches out of the region is refused.
-/

namespace Cs7000pBootloader.Dfu

open Flash Cs7000pBootloader.Lib

/-! ### Addresses -/

def regionStart : ℕ := 0x08100000
def regionEnd : ℕ := 0x08200000

def InRegion (a : Addr) : Prop := regionStart ≤ a.toNat ∧ a.toNat < regionEnd

/-- Where the block starts when no address wraps. -/
def blockStart (base : Addr) (block : BitVec 16) : ℕ :=
  base.toNat + (block.toNat - 2) * cfgTudDfuXferBufsize

/-- The whole range of the block lies in the region. -/
def Inside (base : Addr) (block length : BitVec 16) : Prop :=
  regionStart ≤ blockStart base block ∧ blockStart base block + length.toNat ≤ regionEnd

instance (a : Addr) : Decidable (InRegion a) := by unfold InRegion; infer_instance

instance (base : Addr) (block length : BitVec 16) : Decidable (Inside base block length) := by
  unfold Inside; infer_instance

lemma two_le_toNat {block : BitVec 16} (h : 2 ≤ block) : 2 ≤ block.toNat := BitVec.le_def.mp h

/-- The source's address is the unwrapped one, as long as that fits. -/
lemma blockAddr_toNat {base : Addr} {block : BitVec 16} (h2 : 2 ≤ block)
    (h : blockStart base block < 2 ^ 32) : (blockAddr base block).toNat = blockStart base block := by
  have hb := block.isLt
  have h2' := two_le_toNat h2
  have hsub : (block.setWidth 32 - (2 : Addr)).toNat = block.toNat - 2 := by
    rw [BitVec.toNat_sub, BitVec.toNat_setWidth, show (2 : Addr).toNat = 2 from rfl]
    omega
  have hmul : ((block.setWidth 32 - 2) * BitVec.ofNat 32 cfgTudDfuXferBufsize).toNat =
      (block.toNat - 2) * cfgTudDfuXferBufsize := by
    rw [BitVec.toNat_mul, hsub]
    simp only [cfgTudDfuXferBufsize, BitVec.toNat_ofNat]
    omega
  unfold blockAddr
  rw [BitVec.toNat_add, hmul]
  exact Nat.mod_eq_of_lt h

lemma Inside.inRegion {base : Addr} {block length : BitVec 16} (h : Inside base block length)
    (h2 : 2 ≤ block) {i : ℕ} (hi : i < length.toNat) :
    InRegion (blockAddr base block + BitVec.ofNat 32 i) := by
  obtain ⟨hlo, hhi⟩ := h
  have hlen := length.isLt
  simp only [regionStart, regionEnd] at hlo hhi
  have ha : (blockAddr base block).toNat = blockStart base block := blockAddr_toNat h2 (by omega)
  have hsum : (blockAddr base block + BitVec.ofNat 32 i).toNat = blockStart base block + i := by
    rw [toNat_add_ofNat (by omega), ha]
  unfold InRegion regionStart regionEnd
  omega

/-! ### The specification -/

/-- A request that reaches out of the region is refused and leaves the flash driver alone: a data
block with `ERR_ADDRESS`, an upload with no bytes. -/
def Refuses (d : Device) : Event → Prop
  | .getStatus resp _ => d.dfu = .dnloadSync → d.request.IsData →
      ¬ Inside d.fw.dfuse.baseAddr d.request.block d.request.length →
      (d.poll resp).ret = true ∧ (d.poll resp).resp.bStatus = .errAddress ∧
        (d.poll resp).fw.flash = d.fw.flash
  | .upload b n mem => 2 ≤ b → ¬ Inside d.fw.dfuse.baseAddr b n →
      (tudDfuUploadCb 0 b n mem d.fw.dfuse).ret = 0
  | _ => True

/-- **What is asked of an event**: its stores and reads are in the region, and it is refused if it
reaches out. -/
structure Confined (d : Device) (e : Event) : Prop where
  stores : ∀ a b, .store (a, b) ∈ effects (step d e).2 → InRegion a
  reads : ∀ a, .load a ∈ (step d e).2 → InRegion a
  refused : Refuses d e

/-- An erase of an address out of the region is refused with `ERR_ADDRESS` and leaves the flash
driver alone. -/
def EraseConfined (d : Device) : Event → Prop
  | .getStatus resp _ => d.dfu = .dnloadSync → d.request.IsErase → d.request.length = 5 →
      ¬ InRegion d.request.addr →
      (d.poll resp).ret = true ∧ (d.poll resp).resp.bStatus = .errAddress ∧
        (d.poll resp).fw.flash = d.fw.flash
  | _ => True

/-- The request stays in the region, or it is a data block that finds the driver busy. -/
def StaysInside (d : Device) : Event → Prop
  | .getStatus _ _ => d.dfu = .dnloadSync → d.request.IsData →
      Inside d.fw.dfuse.baseAddr d.request.block d.request.length ∨
        d.fw.dfuse.op = .idle ∧ flashIsBusy d.fw.flash = true
  | .upload b n _ => 2 ≤ b → n = 0 ∨ Inside d.fw.dfuse.baseAddr b n
  | _ => True

/-- The erase stays in the region, or finds the driver busy. -/
def EraseStaysInside (d : Device) : Event → Prop
  | .getStatus _ _ => d.dfu = .dnloadSync → d.request.IsErase → d.request.length = 5 →
      InRegion d.request.addr ∨ flashIsBusy d.fw.flash = true
  | _ => True

/-! ### The invariant -/

/-- The bytes that the driver still owes go into the region. -/
structure OwesInside (d : Device) : Prop where
  haveAddr : d.fw.dfuse.haveAddr = true
  owed : ∀ a b, .store (a, b) ∈ owed d.fw.flash → InRegion a

lemma owed_inside {d : Device} (h2 : 2 ≤ d.request.block)
    (hin : Inside d.fw.dfuse.baseAddr d.request.block d.request.length) {a : Addr} {b : Byte}
    {buffer : List Byte} {c : Cr2}
    (h : .store (a, b) ∈ owed ⟨⟨.writePending, blockAddr d.fw.dfuse.baseAddr d.request.block,
      memcpy buffer d.request.buffer d.request.length.toNat, d.request.length, 0⟩, c⟩) :
    InRegion a := by
  have hlen := Device.length_le_buffer (d := d)
  rw [owed_writePending hlen, List.mem_map] at h
  obtain ⟨⟨x, y⟩, hm, he⟩ := h
  obtain ⟨rfl, rfl⟩ : x = a ∧ y = b := by simpa using he
  obtain ⟨i, hi, rfl⟩ := mem_placed hm
  exact hin.inRegion h2 (by simpa [Nat.min_eq_left hlen] using hi)

lemma owesInside_getStatus {d : Device} (h : OwesInside d) (resp : StatusResponse)
    (next : DfuState) (hG : StaysInside d (.getStatus resp next)) :
    OwesInside (step d (.getStatus resp next)).1 := by
  have ha := d.answered resp
  simp only [step]
  refine ⟨ha.haveAddr h.haveAddr, ?_⟩
  simp only
  generalize d.poll resp = out at *
  cases ha with
  | eraseStarted => simp [owed]
  | writeStarted hd _ hst hop hi =>
    intro a b hm
    rcases hG hst hd with hin | ⟨-, hb⟩
    · exact owed_inside hd.1 hin hm
    · exact absurd hi (flashIsBusy_eq_true.mp hb)
  | _ => exact h.owed

theorem owesInside_step {d : Device} {e : Event} (h : OwesInside d) (hG : StaysInside d e) :
    OwesInside (step d e).1 := by
  cases e with
  | mount =>
    refine ⟨rfl, fun a b hm => ?_⟩
    rw [owed_mount] at hm
    cases hm
  | dnload x =>
    simp only [step]
    split_ifs <;> exact ⟨h.haveAddr, h.owed⟩
  | getStatus resp next => exact owesInside_getStatus h resp next hG
  | upload b n mem =>
    obtain ⟨f, hf⟩ := step_upload d b n mem
    rw [hf]
    exact ⟨h.haveAddr, h.owed⟩
  | abort | clrStatus => exact ⟨h.haveAddr, h.owed⟩
  | process r =>
    refine ⟨h.haveAddr, fun a b hm => h.owed a b ?_⟩
    rw [← flashProcess_owed r d.fw.flash]
    exact List.mem_append_right _ hm

/-! ### Exactly which runs are confined -/

lemma Answered.bus_still {req : GetStatusRequest} {resp : StatusResponse} {fw : Firmware}
    {out : GetStatusOut} (h : Answered req resp fw out) :
    effects out.bus = [] ∧ ∀ a, .load a ∉ out.bus := by
  cases h <;> simp [Bus.effects]

lemma refuses_getStatus_iff {d : Device} (h : OwesInside d) (resp : StatusResponse)
    (next : DfuState) :
    Refuses d (.getStatus resp next) ↔ StaysInside d (.getStatus resp next) := by
  refine forall_congr' fun hst => forall_congr' fun hd => ?_
  have hdec := Classical.em (Inside d.fw.dfuse.baseAddr d.request.block d.request.length)
  rcases (d.answered resp).sync_data hd hst with
    ⟨⟨-, ho⟩, ⟨hb, he⟩ | ⟨hi, he⟩⟩ | ⟨hn, he⟩ <;> rw [he]
  · exact iff_of_true (fun _ => ⟨rfl, rfl, rfl⟩) (.inr ⟨ho, flashIsBusy_eq_true.mpr hb⟩)
  · constructor
    · intro hr
      refine .inl (hdec.resolve_right fun hni => ?_)
      exact absurd (hr hni).2.1 (by simp)
    · rintro (hin | ⟨-, hb⟩) hni
      · exact absurd hin hni
      · exact absurd hi (flashIsBusy_eq_true.mp hb)
  · constructor
    · intro hr
      refine .inl (hdec.resolve_right fun hni => ?_)
      exact absurd (hr hni).1 Bool.false_ne_true
    · rintro (hin | ⟨ho, -⟩) hni
      · exact absurd hin hni
      · exact absurd ⟨h.haveAddr, ho⟩ hn

lemma tudDfuUploadCb_block {b : BitVec 16} {c : DfuseCtx} (h2 : 2 ≤ b) (hv : c.haveAddr = true)
    (n : BitVec 16) (mem : Addr → Byte) :
    tudDfuUploadCb 0 b n mem c = ⟨n,
      (List.range n.toNat).map fun i => mem (blockAddr c.baseAddr b + BitVec.ofNat 32 i), c,
      (List.range n.toNat).map fun i => .load (blockAddr c.baseAddr b + BitVec.ofNat 32 i)⟩ := by
  have h2' := two_le_toNat h2
  have h0 : ¬ b = 0 := by
    rintro rfl
    exact absurd h2' (by decide)
  have hn : ¬ (¬ c.haveAddr = true ∨ b < 2) := by
    rintro (hc | hc)
    · exact hc hv
    · exact absurd (BitVec.lt_def.mp hc) (Nat.not_lt.mpr h2')
  unfold tudDfuUploadCb
  rw [if_neg (by simp), if_neg h0, if_neg hn]
  simp only [List.map_map, Function.comp_def]

lemma tudDfuUploadCb_below {b : BitVec 16} (h2 : ¬ 2 ≤ b) (n : BitVec 16) (mem : Addr → Byte)
    (c : DfuseCtx) : (tudDfuUploadCb 0 b n mem c).bus = [] := by
  have hlt : b < 2 := BitVec.lt_def.mpr (Nat.lt_of_not_le fun hle => h2 (BitVec.le_def.mpr hle))
  have hb : ¬ c.haveAddr = true ∨ b < 2 := .inr hlt
  unfold tudDfuUploadCb
  rw [if_neg (by simp)]
  split_ifs <;> rfl

lemma confined_upload_iff {d : Device} (h : OwesInside d) (b n : BitVec 16) (mem : Addr → Byte) :
    Confined d (.upload b n mem) ↔ StaysInside d (.upload b n mem) := by
  by_cases h2 : 2 ≤ b
  · have hup := tudDfuUploadCb_block h2 h.haveAddr n mem
    constructor
    · intro hc _
      by_cases hin : Inside d.fw.dfuse.baseAddr b n
      · exact .inr hin
      · have hr := hc.refused h2 hin
        rw [hup] at hr
        exact .inl hr
    · intro hG
      refine ⟨fun a x hm => ?_, fun a hm => ?_, fun _ hni => ?_⟩
      · have he : effects (step d (.upload b n mem)).2 = [] := effects_upload 0 b n mem d.fw.dfuse
        rw [he] at hm
        cases hm
      · simp only [step, hup, List.mem_map, List.mem_range, Bus.load.injEq] at hm
        obtain ⟨i, hi, rfl⟩ := hm
        rcases hG h2 with rfl | hin
        · exact absurd hi (Nat.not_lt_zero i)
        · exact hin.inRegion h2 hi
      · rw [hup]
        exact (hG h2).resolve_right hni
  · have hbus : (step d (.upload b n mem)).2 = [] := tudDfuUploadCb_below h2 n mem d.fw.dfuse
    refine iff_of_true ⟨fun a x hm => ?_, fun a hm => ?_, fun h2' => absurd h2' h2⟩
      fun h2' => absurd h2' h2
    · rw [hbus] at hm
      cases hm
    · rw [hbus] at hm
      cases hm

lemma confined_iff {d : Device} (h : OwesInside d) (e : Event) :
    Confined d e ↔ StaysInside d e := by
  cases e with
  | getStatus resp next =>
    obtain ⟨he, hl⟩ := (d.answered resp).bus_still
    rw [← refuses_getStatus_iff h]
    refine ⟨fun hc => hc.refused, fun hr => ⟨fun a b hm => ?_, fun a hm => absurd hm (hl a), hr⟩⟩
    rw [show effects (step d (.getStatus resp next)).2 = [] from he] at hm
    cases hm
  | upload b n mem => exact confined_upload_iff h b n mem
  | process r =>
    refine iff_of_true ⟨fun a b hm => h.owed a b ?_, fun a hm => ?_, trivial⟩ trivial
    · rw [← flashProcess_owed r d.fw.flash]
      exact List.mem_append_left _ hm
    · exact absurd hm ((flashProcess_move r d.fw.flash).not_load a)
  | mount =>
    refine iff_of_true ⟨fun a b hm => ?_, fun a hm => ?_, trivial⟩ trivial <;>
      simp only [step, tudMountCb, flashInit] at hm <;> split_ifs at hm <;>
      simp [Bus.effects] at hm
  | dnload x | abort | clrStatus =>
    exact iff_of_true ⟨fun a b hm => absurd hm List.not_mem_nil,
      fun a hm => absurd hm List.not_mem_nil, trivial⟩ trivial

lemma eraseConfined_iff (d : Device) (e : Event) : EraseConfined d e ↔ EraseStaysInside d e := by
  cases e with
  | getStatus resp next =>
    refine forall_congr' fun hst => forall_congr' fun hc => forall_congr' fun hl => ?_
    have hdec := Classical.em (InRegion d.request.addr)
    rcases (d.answered resp).sync_erase hc hst hl with ⟨hb, he⟩ | ⟨hi, he⟩ <;> rw [he]
    · exact iff_of_true (fun _ => ⟨rfl, rfl, rfl⟩) (.inr (flashIsBusy_eq_true.mpr hb))
    · constructor
      · intro hr
        refine .inl (hdec.resolve_right fun hni => ?_)
        exact absurd (hr hni).2.1 (by simp)
      · rintro (hin | hb) hni
        · exact absurd hin hni
        · exact absurd hi (flashIsBusy_eq_true.mp hb)
  | _ => exact Iff.rfl

/-- **Address confinement over whole runs.** After a mount, a run is confined exactly when every
data block and every upload of it stays inside the region, or is a data block that finds the driver
busy; and its erases are confined exactly when each stays inside or finds the driver busy. -/
theorem confined_run_iff (d : Device) (es : List Event) :
    (Along step Confined (step d .mount).1 es ↔ Along step StaysInside (step d .mount).1 es) ∧
      (Along step EraseConfined (step d .mount).1 es ↔
        Along step EraseStaysInside (step d .mount).1 es) := by
  have h0 : OwesInside (step d .mount).1 := by
    refine ⟨rfl, fun a b hm => ?_⟩
    rw [owed_mount] at hm
    cases hm
  exact ⟨along_iff_of_inv (I := OwesInside) (fun _ _ => owesInside_step)
      (fun _ e h => confined_iff h e) h0,
    along_iff_of_inv (I := fun _ => True) (fun _ _ _ _ => trivial)
      (fun d e _ => eraseConfined_iff d e) trivial⟩

/-- A data block into the bank of the bootloader: the pointer is set to `0x08000000`, and the block
is accepted. -/
theorem block_escapes_region : ¬ ∀ d es, Along step Confined (step d .mount).1 es := by
  intro h
  have hrun := h powerOn [.dnload ⟨0, [0x21, 0x00, 0x00, 0x00, 0x08], [], by decide⟩, askStatus,
    askStatus, .dnload ⟨2, [0xAA], [], by decide⟩, askStatus]
  exact absurd (hrun.2.2.2.2.1.refused (by decide) (by decide) (by decide)).2.1 (by decide)

end Cs7000pBootloader.Dfu
