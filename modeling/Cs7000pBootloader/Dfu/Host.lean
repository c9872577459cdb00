import Cs7000pBootloader.Dfu.Ack
import Cs7000pBootloader.Dfu.Region

/-!
The protocol as the host sees it: an address pointer, and blocks that are stored relative to it.
`Command.exec` is that abstract loader; `Downloads.refines` says that the device refines it for a
host that polls every DNLOAD to `DFU_DNLOAD_IDLE`, whatever the flash controller's timing.
-/

namespace Cs7000pBootloader.Dfu

open Flash Cs7000pBootloader.Lib

/-! ### The abstract loader -/

/-- A command of the host. -/
inductive Command where
  | setAddress (a : Addr)
  | block (n : BitVec 16) (data : List Byte)

/-- What a command does to the address pointer and to the memory. -/
def Command.exec (p : Addr) : Command → Addr × List (Addr × Byte)
  | .setAddress a => (a, [])
  | .block n data => (p, placed (blockAddr p n) data)

/-- What reading a block of the same length returns. -/
def Command.reads (p : Addr) (mem : Addr → Byte) : Command → List Byte
  | .setAddress _ => []
  | .block n data => (List.range data.length).map fun i => mem (blockAddr p n + BitVec.ofNat 32 i)

/-- The payload of a SetAddress. -/
def setAddressBytes (a : Addr) : List Byte :=
  [dfuseCmdSetAddress, a.setWidth 8, (a >>> 8).setWidth 8, (a >>> 16).setWidth 8,
    (a >>> 24).setWidth 8]

/-- The DNLOAD carries the command. -/
def Command.Encodes : Command → Dnload → Prop
  | .setAddress a, x => x.block = 0 ∧ x.payload = setAddressBytes a
  | .block n data, x => x.block = n ∧ x.payload = data

/-- A data block has a block number from 2 on and between one byte and a full buffer. -/
def Command.Valid : Command → Prop
  | .setAddress _ => True
  | .block n data => 2 ≤ n ∧ data ≠ [] ∧ data.length ≤ cfgTudDfuXferBufsize

/-! ### The host -/

/-- A GETSTATUS of the host, or a poll of the main loop. -/
def Event.IsPoll : Event → Prop
  | .getStatus _ _ | .process _ => True
  | _ => False

/-- **The host downloads the commands** one after the other, each polled to `DFU_DNLOAD_IDLE`, with
polls of the main loop at any time. -/
inductive Downloads : Device → List Command → List Event → Prop
  | nil {d} : Downloads d [] []
  | idle {d cs es} (r : ℕ → Sr2) : Downloads (step d (.process r)).1 cs es →
      Downloads d cs (.process r :: es)
  | cons {d c cs x polls es} : c.Encodes x → (∀ e ∈ polls, e.IsPoll) →
      (run step d (.dnload x :: polls)).1.dfu = .dnloadIdle →
      Downloads (run step d (.dnload x :: polls)).1 cs es →
      Downloads d (c :: cs) ((.dnload x :: polls) ++ es)

/-- **The host uploads the blocks** over the memory `mem`, each with the length it has. -/
inductive Uploads (mem : Addr → Byte) : List Command → List Event → Prop
  | nil : Uploads mem [] []
  | idle {cs es} (r : ℕ → Sr2) : Uploads mem cs es → Uploads mem cs (.process r :: es)
  | cons {n data cs es} : Uploads mem cs es →
      Uploads mem (.block n data :: cs) (.upload n (BitVec.ofNat 16 data.length) mem :: es)

/-- What an event returns to the host. -/
def uploaded (d : Device) : Event → List Byte
  | .upload b n mem => (tudDfuUploadCb 0 b n mem d.fw.dfuse).data
  | _ => []

/-- What the uploads of a run return, one after the other. -/
def readBack : Device → List Event → List Byte
  | _, [] => []
  | d, e :: es => uploaded d e ++ readBack (step d e).1 es

/-! ### The encoding -/

lemma addr_setAddressBytes {req : GetStatusRequest} {a : Addr} {stale : List Byte}
    (h : req.buffer = setAddressBytes a ++ stale) : req.addr = a := by
  unfold GetStatusRequest.addr GetStatusRequest.byte
  rw [h]
  simp only [setAddressBytes, List.cons_append, List.getD_cons_succ, List.getD_cons_zero]
  apply BitVec.eq_of_getLsbD_eq
  intro i hi
  simp only [BitVec.getLsbD_or, BitVec.getLsbD_setWidth, BitVec.getLsbD_shiftLeft,
    BitVec.getLsbD_ushiftRight]
  grind

section Encoding

variable {c : Command} {d : Device}

lemma Command.Encodes.setAddress {a : Addr} (h : (Command.setAddress a).Encodes d.cmd) :
    d.request.IsSetAddress ∧ d.request.addr = a := by
  obtain ⟨hb, hp⟩ := h
  have hbuf : d.request.buffer = setAddressBytes a ++ d.cmd.stale := by rw [← hp]; rfl
  refine ⟨⟨hb, ?_, ?_⟩, addr_setAddressBytes hbuf⟩
  · show BitVec.ofNat 16 d.cmd.payload.length = 5
    rw [hp]
    rfl
  · show d.request.buffer.getD 0 0 = dfuseCmdSetAddress
    rw [hbuf]
    rfl

lemma Command.Encodes.block {n : BitVec 16} {data : List Byte}
    (h : (Command.block n data).Encodes d.cmd) (hv : (Command.block n data).Valid) :
    d.request.IsData := by
  obtain ⟨rfl, rfl⟩ := h
  refine ⟨hv.1, BitVec.lt_def.mpr ?_⟩
  rw [Device.request_length_toNat]
  exact List.length_pos_iff.mpr hv.2.1

lemma Command.Encodes.not_getCommands (h : c.Encodes d.cmd) (hv : c.Valid) :
    ¬ d.request.IsGetCommands := by
  intro hg
  cases c with
  | setAddress a => exact hg.others.1 h.setAddress.1
  | block n data => exact hg.others.2.2 (h.block hv)

end Encoding

/-! ### One command, polled to its end -/

/-- Nothing is under way, and the address pointer is `p`. -/
structure AtRest (p : Addr) (fw : Firmware) : Prop where
  op : fw.dfuse.op = .idle
  haveAddr : fw.dfuse.haveAddr = true
  pointer : fw.dfuse.baseAddr = p
  flash : fw.flash.ctx.state = .idle

/-- **The stages of a command** that found the pointer at `p`, with what it did to the array so
far. -/
inductive Stage (p : Addr) (c : Command) (d : Device) (done : List Effect) : Prop
  | sync : d.dfu = .dnloadSync → AtRest p d.fw → done = [] → Stage p c d done
  | busy : d.dfu = .dnbusy → Running d.request d.fw.dfuse → d.fw.dfuse.haveAddr = true →
      d.fw.dfuse.baseAddr = (c.exec p).1 →
      (d.request.IsSetAddress → d.fw.flash.ctx.state = .idle) →
      done ++ owed d.fw.flash = (c.exec p).2.map .store → Stage p c d done
  | ended : d.dfu ≠ .dnloadSync → d.dfu ≠ .dnbusy → AtRest (c.exec p).1 d.fw →
      done = (c.exec p).2.map .store → Stage p c d done

section Stage

variable {p : Addr} {c : Command} {d : Device} {done : List Effect}

lemma Stage.start (henc : c.Encodes d.cmd) (hv : c.Valid) (hst : d.dfu = .dnloadSync)
    (hr : AtRest p d.fw) (resp : StatusResponse) (next : DfuState) :
    Stage p c (step d (.getStatus resp next)).1 (effects (step d (.getStatus resp next)).2) := by
  have ha := d.answered resp
  cases c with
  | setAddress a =>
    obtain ⟨hs, haddr⟩ := henc.setAddress
    have he := ha.sync_setAddress hs hst
    simp only [step, he, ↓reduceIte]
    refine .busy rfl (.setAddress hs rfl) rfl haddr (fun _ => hr.flash) ?_
    rw [owed_of_idle hr.flash]
    rfl
  | block n data =>
    have hd := henc.block hv
    rcases ha.sync_data hd hst with ⟨-, ⟨hb, -⟩ | ⟨hi, he⟩⟩ | ⟨hn, -⟩
    · exact absurd hr.flash hb
    · have hw := ha.underWay hst (by rw [he]) (by rw [he]; rfl) .dnbusy
      obtain ⟨hblock, hpay⟩ := henc
      cases hw with
      | setAddress hc => exact absurd hd hc.others.2.2
      | erase hc => exact absurd hd hc.others.2.2
      | data _ hw =>
        rw [he] at hw
        simp only [step, he, ↓reduceIte]
        refine .busy rfl (.data hd hr.haveAddr rfl) hr.haveAddr hr.pointer
          (fun hs => absurd hd hs.others.2.2) (hw.trans ?_)
        rw [← hblock, ← hpay]
        simp only [Command.exec, hr.pointer]
    · exact absurd ⟨hr.haveAddr, hr.op⟩ hn

theorem Stage.poll (h : Stage p c d done) (henc : c.Encodes d.cmd) (hv : c.Valid) {e : Event}
    (he : e.IsPoll) : Stage p c (step d e).1 (done ++ effects (step d e).2) := by
  cases e with
  | getStatus resp next =>
    cases h with
    | sync hst hr hdone =>
      subst hdone
      exact Stage.start henc hv hst hr resp next
    | busy hst hrun ha hp hs hdone =>
      rcases (d.answered resp).busy hst hrun with ⟨ho, he⟩ | ⟨-, ms, he⟩
      · have hi : d.fw.flash.ctx.state = .idle := ho.elim hs id
        simp only [step, he, ↓reduceIte, effects_nil, List.append_nil]
        refine .ended (by simp) (by simp) ⟨rfl, ha, hp, hi⟩ ?_
        rw [← hdone, owed_of_idle hi, List.append_nil]
      · simp only [step, he, ↓reduceIte, effects_nil, List.append_nil]
        exact .busy rfl (hrun.congr rfl rfl rfl) ha hp hs hdone
    | ended hs hb hr hdone =>
      -- the stack may go on to any state of its own, the firmware stays as it is
      obtain ⟨hret, -, hfw⟩ := (d.answered resp).alone hs hb (henc.not_getCommands hv)
      simp only [step, hret, hfw, (d.answered resp).bus_still.1, List.append_nil,
        Bool.false_eq_true, ↓reduceIte]
      exact .ended (fun hc => hs (DfuState.default_eq_dnloadSync hc))
        (fun hc => hb (DfuState.default_eq_dnbusy hc)) hr hdone
  | process r =>
    have hmove := flashProcess_owed r d.fw.flash
    cases h with
    | sync hst hr hdone =>
      simp only [step, flashProcess_idle hr.flash, effects_nil, List.append_nil]
      exact .sync hst hr hdone
    | busy hst hrun ha hp hs hdone =>
      refine .busy hst hrun ha hp (fun hc => ?_) ?_
      · simp only [step, flashProcess_idle (hs hc)]
        exact hs hc
      · simp only [step]
        rw [List.append_assoc, hmove, hdone]
    | ended hs hb hr hdone =>
      simp only [step, flashProcess_idle hr.flash, effects_nil, List.append_nil]
      exact .ended hs hb hr hdone
  | _ => exact he.elim

/-- **One command.** A DNLOAD polled to `DFU_DNLOAD_IDLE` does to the pointer and the array what the
abstract loader does. -/
theorem session_refines {x : Dnload} {polls : List Event} (henc : c.Encodes x) (hv : c.Valid)
    (ht : d.dfu.TakesDnload) (hr : AtRest p d.fw) (hpolls : ∀ e ∈ polls, e.IsPoll)
    (hend : (run step d (.dnload x :: polls)).1.dfu = .dnloadIdle) :
    AtRest (c.exec p).1 (run step d (.dnload x :: polls)).1.fw ∧
      effects (run step d (.dnload x :: polls)).2 = (c.exec p).2.map .store := by
  have hfirst : step d (.dnload x) = ({ d with dfu := .dnloadSync, cmd := x }, []) := by
    simp only [step, if_pos ht]
  have h0 : Stage p c (step d (.dnload x)).1 (effects []) := by
    rw [hfirst]
    exact .sync rfl hr rfl
  have hcmd : c.Encodes (step d (.dnload x)).1.cmd := by
    rw [hfirst]
    exact henc
  have hpoll : ∀ (d : Device) (e : Event) (tr : List Bus),
      (c.Encodes d.cmd ∧ Stage p c d (effects tr)) → e.IsPoll →
      c.Encodes (step d e).1.cmd ∧ Stage p c (step d e).1 (effects (tr ++ (step d e).2)) := by
    rintro d e tr ⟨hc, hs⟩ hp
    have hsame : (step d e).1.cmd = d.cmd := step_cmd (by rintro y rfl; exact hp.elim)
    rw [hsame, effects_append]
    exact ⟨hc, hs.poll hc hv hp⟩
  have hrun := run_trace (J := fun d tr => c.Encodes d.cmd ∧ Stage p c d (effects tr)) hpoll
    ⟨hcmd, h0⟩ (along_of_mem hpolls _)
  rw [run_cons] at hend ⊢
  rw [hfirst] at hend ⊢ hrun
  cases hrun.2 with
  | sync hs => exact absurd (hs.symm.trans hend) (by decide)
  | busy hb => exact absurd (hb.symm.trans hend) (by decide)
  | ended _ _ hr hdone => exact ⟨hr, hdone⟩

end Stage

/-! ### The refinement -/

/-- **The device refines the abstract loader.** Commands downloaded by a host that polls each to its
end do to the pointer and the array what the abstract loader does, in that order and nothing
else. -/
theorem Downloads.refines {d : Device} {cs : List Command} {es : List Event}
    (h : Downloads d cs es) {p : Addr} (hr : AtRest p d.fw) (ht : d.dfu.TakesDnload)
    (hv : ∀ c ∈ cs, c.Valid) :
    AtRest (run Command.exec p cs).1 (run step d es).1.fw ∧ (run step d es).1.dfu.TakesDnload ∧
      effects (run step d es).2 = (run Command.exec p cs).2.map .store := by
  induction h generalizing p with
  | nil => exact ⟨hr, ht, rfl⟩
  | @idle d cs es r _ ih =>
    have hi : step d (.process r) = (d, []) := by simp only [step, flashProcess_idle hr.flash]
    rw [run_cons]
    rw [hi] at ih ⊢
    exact ih hr ht hv
  | @cons d c cs x polls es henc hpolls hend _ ih =>
    obtain ⟨hr', he⟩ :=
      session_refines henc (hv c List.mem_cons_self) ht hr hpolls hend
    obtain ⟨h1, h2, h3⟩ := ih hr' (.inr hend) fun c hc => hv c (List.mem_cons_of_mem _ hc)
    rw [run_append, run_cons _ p]
    refine ⟨h1, h2, ?_⟩
    rw [effects_append, he, h3, List.map_append]

/-- **Reading back.** The uploads of the host return what lies where the blocks are stored. -/
theorem Uploads.readBack_eq {mem : Addr → Byte} {cs : List Command} {es : List Event}
    (h : Uploads mem cs es) {p : Addr} {d : Device} (hr : AtRest p d.fw)
    (hv : ∀ c ∈ cs, c.Valid) : readBack d es = cs.flatMap (Command.reads p mem) := by
  induction h generalizing d with
  | nil => rfl
  | @idle cs es r _ ih =>
    have hi : (step d (.process r)).1 = d := by simp only [step, flashProcess_idle hr.flash]
    show [] ++ readBack (step d (.process r)).1 es = _
    rw [List.nil_append, hi]
    exact ih hr hv
  | @cons n data cs es _ ih =>
    obtain ⟨h2, -, hle⟩ := hv _ List.mem_cons_self
    have hlen : (BitVec.ofNat 16 data.length).toNat = data.length := by
      have hle' : data.length ≤ 1024 := hle
      rw [BitVec.toNat_ofNat, Nat.mod_eq_of_lt (by omega)]
    obtain ⟨f, hf⟩ := step_upload d n (BitVec.ofNat 16 data.length) mem
    rw [readBack, uploaded, tudDfuUploadCb_block h2 hr.haveAddr, hlen, hr.pointer,
      List.flatMap_cons, hf]
    refine congrArg _ (ih ?_ fun c hc => hv c (List.mem_cons_of_mem _ hc))
    exact ⟨hr.op, hr.haveAddr, hr.pointer, hr.flash⟩

end Cs7000pBootloader.Dfu
