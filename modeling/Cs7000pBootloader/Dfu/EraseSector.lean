import Cs7000pBootloader.Dfu.Region
import Cs7000pBootloader.Flash.Array

/-!
The sector that an Erase request names and the one that is erased.  From the acceptance of the
request the polls of the driver write `START` once, with the sector number computed from the
address; the number is masked to three bits and the address compared with no bound, so that the
request erases what it names exactly when the address is in bank 2.
-/

namespace Cs7000pBootloader.Dfu

open Flash Cs7000pBootloader.Lib

/-! ### The polls of an erase -/

/-- The poll that starts the erase: `QW` read low, then `START` with `SER` set and the sector number
`s` in `SNB`. -/
def Starts (s : BitVec 3) (t : List Bus) : Prop :=
  ∃ q c₁ c₂ c₃ v, t = q ++ [.cr2 c₁, .cr2 c₂, .cr2 c₃, .cr2 v, .start v] ∧ Ready q ∧
    v.ser = true ∧ v.snb = s

/-- The poll that ends the erase: `QW` read low, then `SER` cleared. -/
def Ends (t : List Bus) : Prop := ∃ q v, t = q ++ [.cr2 v] ∧ Ready q ∧ v.ser = false

/-- **The polls of an erase of sector `s`**, up to a state of the driver: polls that touch nothing,
the one that starts it, polls that touch nothing, the one that ends it. -/
inductive ErasePolls (s : BitVec 3) : FlashOpState → List (List Bus) → Prop
  | pending {w} : (∀ t ∈ w, Quiet t) → ErasePolls s .erasePending w
  | busy {w t w'} : (∀ t ∈ w, Quiet t) → Starts s t → (∀ t ∈ w', Quiet t) →
      ErasePolls s .eraseBusy (w ++ t :: w')
  | done {w t w' t'} : (∀ t ∈ w, Quiet t) → Starts s t → (∀ t ∈ w', Quiet t) → Ends t' →
      ErasePolls s .idle (w ++ t :: w' ++ [t'])

section Polls

variable {s : BitVec 3} {d d' : FlashDev} {ts : List (List Bus)} {t : List Bus}

lemma ErasePolls.move (h : ErasePolls s d.ctx.state ts) (hne : d.ctx.state ≠ .idle)
    (ha : (addrToSector d.ctx.addr).setWidth 3 = s) (hm : Move d d' t) :
    ErasePolls s d'.ctx.state (ts ++ [t]) := by
  have hsnoc : ∀ {w : List (List Bus)}, (∀ t ∈ w, Quiet t) → Quiet t → ∀ t' ∈ w ++ [t], Quiet t' := by
    intro w hw hq t' ht'
    rcases List.mem_append.mp ht' with ht' | ht'
    · exact hw t' ht'
    · rwa [List.mem_singleton.mp ht']
  cases hm with
  | idle hi => exact absurd hi hne
  | wait _ hq =>
    generalize d.ctx.state = st at h hne
    cases h with
    | pending hw => exact .pending (hsnoc hw hq)
    | busy hw hs hw' =>
      rw [List.append_assoc, List.cons_append]
      exact .busy hw hs (hsnoc hw' hq)
    | done => exact absurd rfl hne
  | @eraseStart q c₁ c₂ c₃ c₄ hst hr he =>
    rw [hst] at h
    simp only [eraseModes, Prod.mk.injEq] at he
    obtain ⟨-, -, -, rfl⟩ := he
    cases h with
    | pending hw => exact .busy hw ⟨q, c₁, c₂, c₃, _, rfl, hr, rfl, ha⟩ (by simp)
  | eraseDone hst hr =>
    rw [hst] at h
    cases h with
    | busy hw hs hw' => exact .done hw hs hw' ⟨_, _, rfl, hr, rfl⟩
  | writeStart hst | write hst =>
    rw [hst] at h
    cases h

/-- **The run of an erase**, from its acceptance until the driver is idle again. -/
theorem erasePolls_run (hs : ErasePolls s d.ctx.state ts)
    (ha : (addrToSector d.ctx.addr).setWidth 3 = s) {rs : List (ℕ → Sr2)}
    (hg : Along (fun d r => flashProcess r d) (fun d _ => d.ctx.state ≠ .idle) d rs) :
    ErasePolls s (run (fun d r => flashProcess r d) d rs).1.ctx.state
      (ts ++ outputs (fun d r => flashProcess r d) d rs) := by
  induction rs generalizing d ts with
  | nil => simpa using hs
  | cons r rs ih =>
    have hm := flashProcess_move r d
    have hnext := hs.move hg.1 ha hm
    have haddr := ha
    rw [← hm.addr] at haddr
    have hrun := ih hnext haddr hg.2
    rwa [List.append_assoc, List.singleton_append] at hrun

end Polls

/-! ### The sector of an address -/

lemma inSector_addrToSector {a : Addr} (h : InRegion a) :
    InSector ((addrToSector a).setWidth 3) a := by
  obtain ⟨hlo, hhi⟩ := h
  simp only [regionStart, regionEnd] at hlo hhi
  have hsub : (a - 0x08100000).toNat = a.toNat - 0x08100000 := by
    rw [BitVec.toNat_sub, show (0x08100000 : Addr).toNat = 0x08100000 from rfl]
    omega
  have hdiv : ((a - 0x08100000) / (128 * 1024)).toNat = (a.toNat - 0x08100000) / 0x20000 := by
    rw [BitVec.toNat_udiv, hsub]
    rfl
  have hlt : (a.toNat - 0x08100000) / 0x20000 < 8 := by omega
  have hnum : ((addrToSector a).setWidth 3).toNat = (a.toNat - 0x08100000) / 0x20000 := by
    rw [addrToSector, BitVec.toNat_setWidth, BitVec.toNat_setWidth, BitVec.toNat_and, hdiv]
    have hmask : (a.toNat - 0x08100000) / 0x20000 &&& (7 : Addr).toNat =
        (a.toNat - 0x08100000) / 0x20000 % 8 := Nat.and_two_pow_sub_one_eq_mod _ 3
    rw [hmask]
    omega
  unfold InSector
  rw [hnum]
  omega

lemma inRegion_of_inSector {s : BitVec 3} {a : Addr} (h : InSector s a) : InRegion a := by
  have hs := s.isLt
  unfold InSector at h
  unfold InRegion regionStart regionEnd
  omega

lemma same_block_of_inSector {s : BitVec 3} {a b : Addr} (ha : InSector s a) (hb : InSector s b) :
    a.toNat / 0x20000 = b.toNat / 0x20000 := by
  unfold InSector at ha hb
  omega

/-! ### The request -/

/-- An Erase request for one sector that finds the driver idle. -/
structure EraseRequest (fw : Firmware) (req : GetStatusRequest) : Prop where
  idle : fw.flash.ctx.state = .idle
  erase : req.IsErase
  sync : req.state = .dnloadSync
  length : req.length = 5

/-- The driver after a request and a list of polls, and what the polls put on the bus. -/
def polled (fw : Firmware) (req : GetStatusRequest) (resp : StatusResponse)
    (rs : List (ℕ → Sr2)) : FlashDev × List Bus :=
  run (fun d r => flashProcess r d) (tudDfuGetStatusCb 0 req resp fw).fw.flash rs

/-- **What is asked of an Erase request**: it is refused with `ERR_ADDRESS` and no poll touches
`CR2`, or its polls erase the sector that its address names. -/
def ErasesNamedSector (fw : Firmware) (req : GetStatusRequest) (resp : StatusResponse) : Prop :=
  (tudDfuGetStatusCb 0 req resp fw).resp.bStatus = .errAddress ∧
      (∀ rs, polled fw req resp rs = (fw.flash, [])) ∨
    ∃ s, InSector s req.addr ∧ ∀ rs,
      Along (fun d r => flashProcess r d) (fun d _ => d.ctx.state ≠ .idle)
        (tudDfuGetStatusCb 0 req resp fw).fw.flash rs →
      ErasePolls s (polled fw req resp rs).1.ctx.state
        (outputs (fun d r => flashProcess r d) (tudDfuGetStatusCb 0 req resp fw).fw.flash rs)

section Request

variable {fw fw' : Firmware} {req req' : GetStatusRequest}

lemma EraseRequest.out (h : EraseRequest fw req) (resp : StatusResponse) :
    tudDfuGetStatusCb 0 req resp fw = ⟨true, answer resp .ok .dnbusy 900, noCallbacks,
      ⟨{ fw.dfuse with op := .eraseBusy, currentAddr := req.addr },
        { fw.flash with ctx := { fw.flash.ctx with addr := req.addr, state := .erasePending } }⟩,
      []⟩ := by
  rcases (tudDfuGetStatusCb_answered req resp fw).sync_erase h.erase h.sync h.length with
    ⟨hb, -⟩ | ⟨-, he⟩
  · exact absurd h.idle hb
  · exact he

lemma EraseRequest.named_iff (h : EraseRequest fw req) (resp : StatusResponse) :
    ErasesNamedSector fw req resp ↔ InRegion req.addr := by
  unfold ErasesNamedSector polled
  rw [h.out resp]
  constructor
  · rintro (⟨hr, -⟩ | ⟨s, hs, -⟩)
    · exact absurd hr (by simp [answer, setPollTimeout])
    · exact inRegion_of_inSector hs
  · intro hin
    refine .inr ⟨_, inSector_addrToSector hin, fun rs hg => ?_⟩
    have hpend : ErasePolls ((addrToSector req.addr).setWidth 3) .erasePending [] :=
      .pending (by simp)
    have hrun := erasePolls_run (d := { fw.flash with
      ctx := { fw.flash.ctx with addr := req.addr, state := .erasePending } }) hpend rfl hg
    rwa [List.nil_append] at hrun

lemma EraseRequest.effects_eq (h : EraseRequest fw req) (resp : StatusResponse)
    {rs : List (ℕ → Sr2)} (hi : (polled fw req resp rs).1.ctx.state = .idle) :
    effects (polled fw req resp rs).2 = [.erase ((addrToSector req.addr).setWidth 3)] := by
  have hp := polls_owed (tudDfuGetStatusCb 0 req resp fw).fw.flash rs
  have hnone := owed_of_idle hi
  unfold polled at hnone
  rw [hnone, List.append_nil] at hp
  rw [polled, hp, h.out resp]
  rfl

end Request

/-- **An erase erases the sector it names, once**, exactly when its address is in bank 2; and two
such requests that erase the same sector name the same 128 KB. -/
theorem erase_names_sector_iff (fw fw' : Firmware) (req req' : GetStatusRequest)
    (resp resp' : StatusResponse) (h : EraseRequest fw req) (h' : EraseRequest fw' req') :
    (ErasesNamedSector fw req resp ↔ InRegion req.addr) ∧
      ∀ rs rs', InRegion req.addr → InRegion req'.addr →
        (polled fw req resp rs).1.ctx.state = .idle →
        (polled fw' req' resp' rs').1.ctx.state = .idle →
        effects (polled fw req resp rs).2 = effects (polled fw' req' resp' rs').2 →
        req.addr.toNat / 0x20000 = req'.addr.toNat / 0x20000 := by
  refine ⟨h.named_iff resp, fun rs rs' hin hin' hi hi' he => ?_⟩
  rw [h.effects_eq resp hi, h'.effects_eq resp' hi'] at he
  simp only [List.cons.injEq, Effect.erase.injEq, and_true] at he
  have hs := inSector_addrToSector hin
  rw [he] at hs
  exact same_block_of_inSector hs (inSector_addrToSector hin')

/-- The requests for `0x0812ABCD` and `0x08120000`, both in sector 1. -/
theorem erase_names_sector_1 :
    ErasesNamedSector resetFw ⟨.dnloadSync, 0, 5, [0x41, 0xCD, 0xAB, 0x12, 0x08]⟩
        ⟨.ok, (0, 0, 0), .dfuIdle⟩ ∧
      (0x0812ABCD : Addr).toNat / 0x20000 = (0x08120000 : Addr).toNat / 0x20000 := by
  have h := erase_names_sector_iff resetFw resetFw
    ⟨.dnloadSync, 0, 5, [0x41, 0xCD, 0xAB, 0x12, 0x08]⟩
    ⟨.dnloadSync, 0, 5, [0x41, 0x00, 0x00, 0x12, 0x08]⟩ ⟨.ok, (0, 0, 0), .dfuIdle⟩
    ⟨.ok, (0, 0, 0), .dfuIdle⟩ ⟨rfl, by decide, rfl, rfl⟩ ⟨rfl, by decide, rfl, rfl⟩
  refine ⟨h.1.mpr (by decide), ?_⟩
  exact h.2 [fun _ => sr2Clear, fun _ => sr2Clear] [fun _ => sr2Clear, fun _ => sr2Clear]
    (by decide) (by decide) (by decide) (by decide) (by decide)

/-- A request for `0x08000000`, in the bank of the bootloader, is taken. -/
theorem erase_outside_region :
    ¬ ErasesNamedSector resetFw ⟨.dnloadSync, 0, 5, [0x41, 0x00, 0x00, 0x00, 0x08]⟩
      ⟨.ok, (0, 0, 0), .dfuIdle⟩ := by
  rintro (⟨hr, -⟩ | ⟨s, hs, -⟩)
  · exact absurd hr (by decide)
  · exact absurd (inRegion_of_inSector hs) (by decide)

end Cs7000pBootloader.Dfu
