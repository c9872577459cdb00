import Cs7000pBootloader.Dfu.Controller
import Cs7000pBootloader.Dfu.EraseSector
import Cs7000pBootloader.Dfu.Image

/-!
A whole update.  The host erases the sectors it needs and then downloads the image; the array, whose
cells take a byte only when they are erased, holds the image, is blank in the rest of the erased
sectors, and is unchanged elsewhere.  As before the host polls every DNLOAD to `DFU_DNLOAD_IDLE`, at
any time and over any timing of the flash controller.  The image lies in whole flash words and the
mount finds the mode bits clear, so that the run does what the controller asks.
-/

namespace Cs7000pBootloader.Dfu

open Flash Cs7000pBootloader.Lib

/-! ### The orders of the host -/

/-- What the host orders: the erase of the sector of an address, or a command of the loader. -/
inductive Order where
  | erase (a : Addr)
  | load (c : Command)

/-- What an order does to the address pointer and to the array. -/
def Order.exec (p : Addr) : Order → Addr × List Effect
  | .erase a => (p, [.erase ((addrToSector a).setWidth 3)])
  | .load c => ((c.exec p).1, (c.exec p).2.map .store)

/-- The payload of an Erase. -/
def eraseBytes (a : Addr) : List Byte :=
  [dfuseCmdErase, a.setWidth 8, (a >>> 8).setWidth 8, (a >>> 16).setWidth 8, (a >>> 24).setWidth 8]

/-- The DNLOAD carries the order. -/
def Order.Encodes : Order → Dnload → Prop
  | .erase a, x => x.block = 0 ∧ x.payload = eraseBytes a
  | .load c, x => c.Encodes x

def Order.Valid : Order → Prop
  | .erase _ => True
  | .load c => c.Valid

/-- **The host gives the orders** one after the other, each polled to `DFU_DNLOAD_IDLE`, with polls
of the main loop at any time. -/
inductive Performs : Device → List Order → List Event → Prop
  | nil {d} : Performs d [] []
  | idle {d os es} (r : ℕ → Sr2) : Performs (step d (.process r)).1 os es →
      Performs d os (.process r :: es)
  | cons {d o os x polls es} : o.Encodes x → (∀ e ∈ polls, e.IsPoll) →
      (run step d (.dnload x :: polls)).1.dfu = .dnloadIdle →
      Performs (run step d (.dnload x :: polls)).1 os es →
      Performs d (o :: os) ((.dnload x :: polls) ++ es)

/-! ### The erase of a sector -/

lemma addr_eraseBytes {req : GetStatusRequest} {a : Addr} {stale : List Byte}
    (h : req.buffer = eraseBytes a ++ stale) : req.addr = a := by
  -- the address is read behind the command byte
  have hsame : req.addr =
      ({ req with buffer := setAddressBytes a ++ stale } : GetStatusRequest).addr := by
    simp only [GetStatusRequest.addr, GetStatusRequest.byte, h, eraseBytes, setAddressBytes,
      List.cons_append, List.getD_cons_succ]
  rw [hsame]
  exact addr_setAddressBytes rfl

section Erase

variable {p a : Addr} {d : Device} {done : List Effect}

lemma Order.Encodes.isErase (h : (Order.erase a).Encodes d.cmd) :
    d.request.IsErase ∧ d.request.length = 5 ∧ d.request.addr = a := by
  obtain ⟨hb, hp⟩ := h
  have hbuf : d.request.buffer = eraseBytes a ++ d.cmd.stale := by rw [← hp]; rfl
  have hlen : d.request.length = 5 := by
    show BitVec.ofNat 16 d.cmd.payload.length = 5
    rw [hp]
    rfl
  refine ⟨⟨hb, ?_, ?_⟩, hlen, addr_eraseBytes hbuf⟩
  · rw [hlen]
    decide
  · show d.request.buffer.getD 0 0 = dfuseCmdErase
    rw [hbuf]
    rfl

/-- **The stages of an erase** that found the pointer at `p`, with what it did to the array so
far. -/
inductive EraseStage (p a : Addr) (d : Device) (done : List Effect) : Prop
  | sync : d.dfu = .dnloadSync → AtRest p d.fw → done = [] → EraseStage p a d done
  | busy : d.dfu = .dnbusy → d.fw.dfuse.op = .eraseBusy → d.fw.dfuse.haveAddr = true →
      d.fw.dfuse.baseAddr = p →
      done ++ owed d.fw.flash = [.erase ((addrToSector a).setWidth 3)] → EraseStage p a d done
  | ended : d.dfu ≠ .dnloadSync → d.dfu ≠ .dnbusy → AtRest p d.fw →
      done = [.erase ((addrToSector a).setWidth 3)] → EraseStage p a d done

theorem EraseStage.poll (h : EraseStage p a d done) (henc : (Order.erase a).Encodes d.cmd)
    {e : Event} (he : e.IsPoll) :
    EraseStage p a (step d e).1 (done ++ effects (step d e).2) := by
  obtain ⟨hc, hl, haddr⟩ := henc.isErase
  cases e with
  | getStatus resp next =>
    have hans := d.answered resp
    cases h with
    | sync hst hr hdone =>
      rcases hans.sync_erase hc hst hl with ⟨hb, -⟩ | ⟨-, he⟩
      · exact absurd hr.flash hb
      · subst hdone
        simp only [step, he, ↓reduceIte]
        refine .busy rfl rfl hr.haveAddr hr.pointer ?_
        rw [haddr]
        rfl
    | busy hst hop hv hp hdone =>
      rcases hans.busy hst (.erase hc hl hop) with ⟨ho, he⟩ | ⟨-, ms, he⟩
      · have hi : d.fw.flash.ctx.state = .idle := ho.resolve_left hc.others.2.1
        simp only [step, he, ↓reduceIte, effects_nil, List.append_nil]
        refine .ended (by simp) (by simp) ⟨rfl, hv, hp, hi⟩ ?_
        rw [← hdone, owed_of_idle hi, List.append_nil]
      · simp only [step, he, ↓reduceIte, effects_nil, List.append_nil]
        exact .busy rfl hop hv hp hdone
    | ended hs hb hr hdone =>
      -- the stack may go on to any state of its own, the firmware stays as it is
      obtain ⟨hret, -, hfw⟩ := hans.alone hs hb hc.others.1
      simp only [step, hret, hfw, hans.bus_still.1, List.append_nil, Bool.false_eq_true, ↓reduceIte]
      exact .ended (fun hc => hs (DfuState.default_eq_dnloadSync hc))
        (fun hc => hb (DfuState.default_eq_dnbusy hc)) hr hdone
  | process r =>
    cases h with
    | sync hst hr hdone =>
      simp only [step, flashProcess_idle hr.flash, effects_nil, List.append_nil]
      exact .sync hst hr hdone
    | busy hst hop hv hp hdone =>
      refine .busy hst hop hv hp ?_
      simp only [step]
      rw [List.append_assoc, flashProcess_owed, hdone]
    | ended hs hb hr hdone =>
      simp only [step, flashProcess_idle hr.flash, effects_nil, List.append_nil]
      exact .ended hs hb hr hdone
  | _ => exact he.elim

/-- **One erase.** An Erase polled to `DFU_DNLOAD_IDLE` erases the sector of its address, once, and
leaves the pointer. -/
theorem erase_refines {x : Dnload} {polls : List Event} (henc : (Order.erase a).Encodes x)
    (ht : d.dfu.TakesDnload) (hr : AtRest p d.fw) (hpolls : ∀ e ∈ polls, e.IsPoll)
    (hend : (run step d (.dnload x :: polls)).1.dfu = .dnloadIdle) :
    AtRest p (run step d (.dnload x :: polls)).1.fw ∧
      effects (run step d (.dnload x :: polls)).2 = [.erase ((addrToSector a).setWidth 3)] := by
  have hfirst : step d (.dnload x) = ({ d with dfu := .dnloadSync, cmd := x }, []) := by
    simp only [step, if_pos ht]
  rw [run_cons, hfirst] at hend ⊢
  have h0 : EraseStage p a { d with dfu := .dnloadSync, cmd := x } (effects []) :=
    .sync rfl hr rfl
  have hpoll : ∀ (d : Device) (e : Event) (tr : List Bus),
      ((Order.erase a).Encodes d.cmd ∧ EraseStage p a d (effects tr)) → e.IsPoll →
      (Order.erase a).Encodes (step d e).1.cmd ∧
        EraseStage p a (step d e).1 (effects (tr ++ (step d e).2)) := by
    rintro d e tr ⟨hc, hs⟩ hp
    have hsame : (step d e).1.cmd = d.cmd := step_cmd (by rintro y rfl; exact hp.elim)
    rw [hsame, effects_append]
    exact ⟨hc, hs.poll hc hp⟩
  have hrun := run_trace
    (J := fun d tr => (Order.erase a).Encodes d.cmd ∧ EraseStage p a d (effects tr)) hpoll
    ⟨henc, h0⟩ (along_of_mem hpolls _)
  cases hrun.2 with
  | sync hs => exact absurd (hs.symm.trans hend) (by decide)
  | busy hb => exact absurd (hb.symm.trans hend) (by decide)
  | ended _ _ hr hdone => exact ⟨hr, hdone⟩

end Erase

/-! ### Any orders -/

lemma order_refines {p : Addr} {d : Device} {o : Order} {x : Dnload} {polls : List Event}
    (henc : o.Encodes x) (hv : o.Valid) (ht : d.dfu.TakesDnload) (hr : AtRest p d.fw)
    (hpolls : ∀ e ∈ polls, e.IsPoll)
    (hend : (run step d (.dnload x :: polls)).1.dfu = .dnloadIdle) :
    AtRest (o.exec p).1 (run step d (.dnload x :: polls)).1.fw ∧
      effects (run step d (.dnload x :: polls)).2 = (o.exec p).2 := by
  cases o with
  | erase a => exact erase_refines henc ht hr hpolls hend
  | load c => exact session_refines henc hv ht hr hpolls hend

/-- **The device refines the orders**: given by a host that polls each to its end, they do to the
pointer and the array what they say, in that order and nothing else. -/
theorem Performs.refines {d : Device} {os : List Order} {es : List Event} (h : Performs d os es)
    {p : Addr} (hr : AtRest p d.fw) (ht : d.dfu.TakesDnload) (hv : ∀ o ∈ os, o.Valid) :
    AtRest (run Order.exec p os).1 (run step d es).1.fw ∧ (run step d es).1.dfu.TakesDnload ∧
      effects (run step d es).2 = (run Order.exec p os).2 := by
  induction h generalizing p with
  | nil => exact ⟨hr, ht, rfl⟩
  | @idle d os es r _ ih =>
    have hi : step d (.process r) = (d, []) := by simp only [step, flashProcess_idle hr.flash]
    rw [run_cons]
    rw [hi] at ih ⊢
    exact ih hr ht hv
  | @cons d o os x polls es henc hpolls hend _ ih =>
    obtain ⟨hr', he⟩ := order_refines henc (hv o List.mem_cons_self) ht hr hpolls hend
    obtain ⟨h1, h2, h3⟩ := ih hr' (.inr hend) fun o ho => hv o (List.mem_cons_of_mem _ ho)
    rw [run_append, run_cons _ p]
    refine ⟨h1, h2, ?_⟩
    rw [effects_append, he, h3]

/-! ### The update -/

/-- The erases of the sectors of `as`, then the image in parts. -/
def update (as : List Addr) (base : Addr) (parts : List (List Byte)) : List Order :=
  as.map .erase ++ (downloadParts base parts).map .load

/-- **An image in whole flash words**: it starts at a multiple of 32, and so does every part. -/
structure InWords (base : Addr) (parts : List (List Byte)) : Prop where
  base : base.toNat % 32 = 0
  parts : ∀ q ∈ parts.dropLast, q.length % 32 = 0

/-- The address lies in the 128 KB of one of `as`. -/
def SameSector (as : List Addr) (x : Addr) : Prop := ∃ a ∈ as, x.toNat / 0x20000 = a.toNat / 0x20000

/-- **What an update leaves** of the array `m`: the image, blank cells in the rest of the erased
sectors, and `m` elsewhere. -/
structure Updated (image : List Byte) (base : Addr) (as : List Addr) (m m' : Addr → Byte) :
    Prop where
  inside : ∀ i (h : i < image.length), m' (base + BitVec.ofNat 32 i) = image[i]
  blank : ∀ x, SameSector as x → (∀ i < image.length, x ≠ base + BitVec.ofNat 32 i) → m' x = 0xFF
  outside : ∀ x, ¬ SameSector as x → (∀ i < image.length, x ≠ base + BitVec.ofNat 32 i) → m' x = m x

/-- The sector that the driver computes for an address of the region is its 128 KB. -/
lemma inSector_iff {a x : Addr} (h : InRegion a) :
    InSector ((addrToSector a).setWidth 3) x ↔ x.toNat / 0x20000 = a.toNat / 0x20000 := by
  have ha := inSector_addrToSector h
  unfold InSector at ha ⊢
  omega

lemma sameSector_iff {as : List Addr} (h : ∀ a ∈ as, InRegion a) (x : Addr) :
    (∃ s ∈ as.map fun a => (addrToSector a).setWidth 3, InSector s x) ↔ SameSector as x := by
  constructor
  · rintro ⟨s, hs, hx⟩
    obtain ⟨a, ha, rfl⟩ := List.mem_map.mp hs
    exact ⟨a, ha, (inSector_iff (h a ha)).mp hx⟩
  · rintro ⟨a, ha, hx⟩
    exact ⟨_, List.mem_map_of_mem ha, (inSector_iff (h a ha)).mpr hx⟩

lemma run_erases (p : Addr) (as : List Addr) :
    run Order.exec p (as.map .erase) =
      (p, (as.map fun a => (addrToSector a).setWidth 3).map .erase) := by
  induction as with
  | nil => rfl
  | cons a as ih =>
    rw [List.map_cons, run_cons]
    simp only [Order.exec, ih]
    rfl

lemma run_loads (p : Addr) (cs : List Command) :
    run Order.exec p (cs.map .load) =
      ((run Command.exec p cs).1, (run Command.exec p cs).2.map .store) := by
  induction cs generalizing p with
  | nil => rfl
  | cons c cs ih =>
    rw [List.map_cons, run_cons, run_cons]
    simp only [Order.exec, ih, List.map_append]

lemma run_update (p : Addr) (as : List Addr) (base : Addr) {parts : List (List Byte)}
    (h : parts.flatten.length ≤ 0x100000) :
    (run Order.exec p (update as base parts)).2 =
      (as.map fun a => (addrToSector a).setWidth 3).map .erase ++
        (placed base parts.flatten).map .store := by
  rw [update, run_append, run_erases, run_loads, run_downloadParts p base h]

lemma valid_update (as : List Addr) (base : Addr) {parts : List (List Byte)}
    (h : parts.flatten.length ≤ 0x100000) : ∀ o ∈ update as base parts, o.Valid := by
  intro o ho
  rcases List.mem_append.mp ho with ho | ho
  · obtain ⟨a, -, rfl⟩ := List.mem_map.mp ho
    trivial
  · obtain ⟨c, hc, rfl⟩ := List.mem_map.mp ho
    exact valid_downloadParts base h c hc

/-! ### In whole flash words -/

/-- The order sets no pointer into the middle of a flash word. -/
def Order.PointsToWord : Order → Prop
  | .load (.setAddress a) => a.toNat % 32 = 0
  | _ => True

lemma Order.Encodes.pointsAligned {o : Order} {d : Device} (henc : o.Encodes d.cmd) (hv : o.Valid)
    (ho : o.PointsToWord) : d.PointsAligned := by
  intro hs
  cases o with
  | erase a => exact absurd hs henc.isErase.1.others.2.1
  | load c =>
    cases c with
    | setAddress a =>
      rw [(Command.Encodes.setAddress henc).2]
      exact ho
    | block n data => exact absurd hs (Command.Encodes.block henc hv).others.2.1

lemma Performs.pointsToWords {d : Device} {os : List Order} {es : List Event}
    (h : Performs d os es) (hv : ∀ o ∈ os, o.Valid) (ho : ∀ o ∈ os, o.PointsToWord) :
    Along step PointsToWords d es := by
  induction h with
  | nil => trivial
  | idle r _ ih => exact ⟨trivial, ih hv ho⟩
  | @cons d o os x polls es henc hpolls _ _ ih =>
    obtain ⟨hv, hvs⟩ := List.forall_mem_cons.mp hv
    obtain ⟨ho, hos⟩ := List.forall_mem_cons.mp ho
    refine along_append.mpr ⟨⟨henc.pointsAligned (d := { d with cmd := x }) hv ho, ?_⟩, ih hvs hos⟩
    refine along_iff_split.mpr fun pre e post hs => ?_
    have he := hpolls e (by rw [hs]; simp)
    cases e with
    | getStatus | process => trivial
    | _ => exact he.elim

lemma pointsToWord_downloadParts {base : Addr} {parts : List (List Byte)} (h : InWords base parts) :
    ∀ c ∈ downloadParts base parts, (Order.load c).PointsToWord := by
  induction parts generalizing base with
  | nil => intro c hc; cases hc
  | cons q qs ih =>
    intro c hc
    simp only [downloadParts, download, List.cons_append, List.mem_cons, List.mem_append] at hc
    rcases hc with rfl | hc | hc
    · exact h.base
    · obtain ⟨i, -, rfl⟩ := List.mem_map.mp hc
      trivial
    · cases qs with
      | nil => cases hc
      | cons q' qs =>
        obtain ⟨hq, hqs⟩ := List.forall_mem_cons.mp h.parts
        refine ih ⟨?_, hqs⟩ c hc
        have hbase := h.base
        rw [toNat_at]
        omega

lemma pointsToWord_update (as : List Addr) {base : Addr} {parts : List (List Byte)}
    (h : InWords base parts) : ∀ o ∈ update as base parts, o.PointsToWord := by
  intro o ho
  rcases List.mem_append.mp ho with ho | ho
  · obtain ⟨a, -, rfl⟩ := List.mem_map.mp ho
    trivial
  · obtain ⟨c, hc, rfl⟩ := List.mem_map.mp ho
    exact pointsToWord_downloadParts h c hc

/-- **An update in whole flash words** does what the controller asks. -/
lemma honours_update {d : Device} {as : List Addr} {base : Addr} {parts : List (List Byte)}
    {es : List Event} (hclear : d.ModesClear) (hwords : InWords base parts)
    (hlen : parts.flatten.length ≤ 0x100000)
    (hes : Performs (step d .mount).1 (update as base parts) es) :
    Along (withGhost step sinceBlock) Honours ((step d .mount).1, []) es :=
  honours_run hclear
    (hes.pointsToWords (valid_update as base hlen) (pointsToWord_update as hwords))

/-! ### What is left in the array -/

lemma updated_placed {image : List Byte} {base : Addr} {as : List Addr} {m blanked : Addr → Byte}
    (hend : base.toNat + image.length ≤ 2 ^ 32)
    (hblank : ∀ x, SameSector as x → blanked x = 0xFF)
    (hrest : ∀ x, ¬ SameSector as x → blanked x = m x) :
    Updated image base as m (pokes blanked (placed base image)) := by
  have hholds := holds_placed blanked hend
  refine ⟨hholds.inside, fun x hx hout => ?_, fun x hx hout => ?_⟩
  · rw [hholds.outside x hout, hblank x hx]
  · rw [hholds.outside x hout, hrest x hx]

lemma Updated.reads {image : List Byte} {base : Addr} {as : List Addr} {m m' : Addr → Byte}
    (h : Updated image base as m m') (hlen : image.length ≤ 0x100000) :
    (blocks image).flatMap (Command.reads base m') = image := by
  rw [reads_blocks hlen]
  apply List.ext_getElem
  · simp
  · intro i hi _
    rw [List.getElem_map, List.getElem_range]
    exact h.inside i (by simpa using hi)

section Installs

variable {d : Device} {as : List Addr} {base : Addr}
  {parts : List (List Byte)} {es : List Event}

/-- The orders of an update, given after a mount, leave the driver at rest and the array updated. -/
lemma update_updated (blend : Byte → Byte → Byte) (hblend : ∀ b, blend 0xFF b = b)
    (m : Addr → Byte) (has : ∀ a ∈ as, InRegion a) (hlo : regionStart ≤ base.toNat)
    (hhi : base.toNat + parts.flatten.length ≤ regionEnd)
    (hcover : ∀ i < parts.flatten.length, SameSector as (base + BitVec.ofNat 32 i))
    (hes : Performs (step d .mount).1 (update as base parts) es) :
    (∃ p, AtRest p (run step (step d .mount).1 es).1.fw) ∧
      (run step (step d .mount).1 es).1.dfu.TakesDnload ∧
      Updated parts.flatten base as m (programmed blend m (run step (step d .mount).1 es).2) := by
  simp only [regionStart, regionEnd] at hlo hhi
  have hlen : parts.flatten.length ≤ 0x100000 := by omega
  have hend : base.toNat + parts.flatten.length ≤ 2 ^ 32 := by omega
  obtain ⟨hrest, htakes, heff⟩ :=
    hes.refines (atRest_mount d) (.inl rfl) (valid_update as base hlen)
  rw [run_update _ as base hlen] at heff
  have hm : programmed blend m (run step (step d .mount).1 es).2 =
      pokes (fun a => if ∃ s ∈ as.map fun a => (addrToSector a).setWidth 3, InSector s a
        then 0xFF else m a) (placed base parts.flatten) := by
    refine programmed_erase_store hblend heff (fun s hs => ?_) (nodup_placed base (by omega))
    obtain ⟨i, hi, he⟩ := mem_placed (a := base) (x := s.1) (b := s.2) hs
    rw [he]
    exact (sameSector_iff has _).mpr (hcover i hi)
  refine ⟨⟨_, hrest⟩, htakes, ?_⟩
  rw [hm]
  refine updated_placed hend (fun x hx => if_pos ?_) fun x hx => if_neg ?_
  · exact (sameSector_iff has x).mpr hx
  · exact fun hc => hx ((sameSector_iff has x).mp hc)

end Installs

/-- **An update installs its image.** After a mount that finds `PG` and `SER` clear, a host that erases
sectors of bank 2 and then downloads an image into them, in whole flash words, makes no access but as
the controller asks; and it finds the image in the array, the rest of these sectors blank and all
other memory unchanged, whatever a cell holds when it is programmed over something else; and the image
uploads again after a SetAddress. -/
theorem update_installs_image (blend : Byte → Byte → Byte) (hblend : ∀ b, blend 0xFF b = b)
    (d : Device) (hclear : d.ModesClear) (m : Addr → Byte) (as : List Addr) (base : Addr)
    (parts : List (List Byte)) (es : List Event) (hwords : InWords base parts)
    (has : ∀ a ∈ as, InRegion a) (hlo : regionStart ≤ base.toNat)
    (hhi : base.toNat + parts.flatten.length ≤ regionEnd)
    (hcover : ∀ i < parts.flatten.length, SameSector as (base + BitVec.ofNat 32 i))
    (hes : Performs (step d .mount).1 (update as base parts) es) :
    let d' := (run step (step d .mount).1 es).1
    let m' := programmed blend m (run step (step d .mount).1 es).2
    Along (withGhost step sinceBlock) Honours ((step d .mount).1, []) es ∧
      Updated parts.flatten base as m m' ∧
      ∀ fs, Performs d' [.load (.setAddress base)] fs →
      ∀ us, Uploads (programmed blend m' (run step d' fs).2) (blocks parts.flatten) us →
        readBack (run step d' fs).1 us = parts.flatten := by
  intro d' m'
  obtain ⟨⟨p, hrest⟩, htakes, hupdated⟩ := update_updated blend hblend m has hlo hhi hcover hes
  have hlen : parts.flatten.length ≤ 0x100000 := by
    simp only [regionStart, regionEnd] at hlo hhi
    omega
  refine ⟨honours_update hclear hwords hlen hes, hupdated, fun fs hfs us hus => ?_⟩
  obtain ⟨hptr, -, hnone⟩ := hfs.refines hrest htakes (by simp [Order.Valid, Command.Valid])
  have hsame : programmed blend m' (run step d' fs).2 = m' := by
    have hnil : effects (run step d' fs).2 = [] := hnone
    rw [programmed, hnil]
    rfl
  rw [hsame] at hus
  have hvalid : ∀ c ∈ blocks parts.flatten, c.Valid := valid_blocks hlen
  rw [hus.readBack_eq hptr hvalid]
  exact hupdated.reads hlen

section TwoWords

def eraseDnload (a : Addr) : Dnload := ⟨0, eraseBytes a, [], Nat.le_add_left 5 1019⟩

/-- A flash word, and a byte of the next one. -/
def twoWords : List (List Byte) := [List.replicate 32 0xAA, [0xBB]]

/-- Sector 0 erased, and the two parts at its start. -/
def twoWordsUpdate : List Event :=
  (.dnload (eraseDnload 0x08100000) :: [askStatus, readyPoll, readyPoll, askStatus]) ++
    ((.dnload (setDnload 0x08100000) :: setPolls) ++
      ((.dnload (burstDnload 0xAA) :: blockPolls 1) ++
        ((.dnload (setDnload 0x08100020) :: setPolls) ++
          ((.dnload (byteDnload 0xBB) :: blockPolls 1) ++ []))))

lemma performs_twoWords :
    Performs (step powerOn .mount).1 (update [0x08100000] 0x08100000 twoWords) twoWordsUpdate := by
  refine .cons (o := .erase 0x08100000) ⟨rfl, rfl⟩ ?_ (by decide) ?_
  · simp [askStatus, readyPoll, Event.IsPoll]
  refine .cons (o := .load (.setAddress 0x08100000)) ⟨rfl, rfl⟩ setPolls_isPoll (by decide) ?_
  refine .cons (o := .load (.block 2 (List.replicate 32 0xAA))) ⟨rfl, rfl⟩ (blockPolls_isPoll 1)
    (by decide) ?_
  refine .cons (o := .load (.setAddress 0x08100020)) ⟨rfl, rfl⟩ setPolls_isPoll (by decide) ?_
  exact .cons (o := .load (.block 2 [0xBB])) ⟨rfl, rfl⟩ (blockPolls_isPoll 1) (by decide) .nil

/-- Over cells that hold zeros and only lose bits when they are programmed. -/
theorem update_installs_image_words :
    Along (withGhost step sinceBlock) Honours ((step powerOn .mount).1, []) twoWordsUpdate ∧
      Updated twoWords.flatten 0x08100000 [0x08100000] (fun _ => 0x00)
        (programmed (· &&& ·) (fun _ => 0x00) (run step (step powerOn .mount).1 twoWordsUpdate).2) := by
  have hnor : ∀ b : Byte, 0xFF &&& b = b := by decide
  have hregion : ∀ a ∈ [(0x08100000 : Addr)], InRegion a := by
    rw [List.forall_mem_singleton]
    decide
  have hcover : ∀ i < twoWords.flatten.length,
      SameSector [0x08100000] (0x08100000 + BitVec.ofNat 32 i) := by
    intro i hi
    have hlt : i < 33 := hi
    refine ⟨0x08100000, List.mem_singleton.mpr rfl, ?_⟩
    rw [toNat_at]
    show (0x08100000 + i) % 4294967296 / 0x20000 = 0x08100000 / 0x20000
    omega
  obtain ⟨hhonours, hupdated, -⟩ := update_installs_image (· &&& ·) hnor powerOn ⟨rfl, rfl⟩
    (fun _ => 0x00) [0x08100000] 0x08100000 twoWords twoWordsUpdate ⟨by decide, by decide⟩ hregion
    (by decide) (by decide) hcover performs_twoWords
  exact ⟨hhonours, hupdated⟩

end TwoWords

end Cs7000pBootloader.Dfu
