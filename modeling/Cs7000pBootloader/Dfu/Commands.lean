import Cs7000pBootloader.Dfu.Device

/-!
GetCommands and the UPLOAD of block 0.  The flag `last_was_get_cmds` is to say that the last command
was GetCommands.  It is set by every GETSTATUS over a GetCommands, in whatever DFU state, and the
other commands leave it as it is; so it can be left over from a command that is superseded, or be
set again by a poll long after the command.
-/

namespace Cs7000pBootloader.Dfu

open Flash Cs7000pBootloader.Lib

/-! ### The specification -/

/-- The request is one of the commands after which the command list is not due. -/
def GetStatusRequest.IsOther (req : GetStatusRequest) : Prop :=
  req.IsSetAddress ∨ req.IsErase ∨ req.IsData

instance (req : GetStatusRequest) : Decidable req.IsOther := by
  unfold GetStatusRequest.IsOther; infer_instance

/-- What the past of a run says about the command list. -/
structure CmdHistory where
  /-- the last command processed in `DFU_DNLOAD_SYNC` is GetCommands, and neither a mount, an abort
  nor an UPLOAD of block 0 came after it -/
  armed : Bool
  /-- since the last mount, abort or UPLOAD of block 0, a GetCommands was superseded by another
  command, or polled outside `DFU_DNLOAD_SYNC` when the list was not due -/
  leftOver : Bool
  deriving DecidableEq, Repr

/-- The history after a GETSTATUS of the device. -/
def CmdHistory.polled (h : CmdHistory) (d : Device) : CmdHistory :=
  if d.request.IsGetCommands then
    if d.dfu = .dnloadSync then ⟨true, false⟩ else { h with leftOver := !h.armed }
  else if d.request.IsOther ∧ d.dfu = .dnloadSync then ⟨false, h.armed || h.leftOver⟩
  else h

def cmdHistory (d : Device) : Event → CmdHistory → CmdHistory
  | .mount, _ | .abort, _ => ⟨false, false⟩
  | .upload b _ _, h => if b = 0 then ⟨false, false⟩ else h
  | .getStatus _ _, h => h.polled d
  | _, h => h

/-- **The pairing.** An UPLOAD of block 0 returns the command list, cut to the length asked for, if
the list is armed, and nothing otherwise. -/
def Paired (s : Device × CmdHistory) : Event → Prop
  | .upload b n mem =>
    let out := tudDfuUploadCb 0 b n mem s.1.fw.dfuse
    b = 0 → if s.2.armed then
        out.ret.toNat = min n.toNat 3 ∧ out.data = dfuseCmds.take (min n.toNat 3)
      else out.ret = 0 ∧ out.data = []
  | _ => True

/-- The event is no UPLOAD that asks for bytes of a list left over. -/
def AsksNoLeftOver (s : Device × CmdHistory) : Event → Prop
  | .upload b n _ => b = 0 → n ≠ 0 → s.2.leftOver = false
  | _ => True

/-! ### The flag mirrors the history -/

lemma Answered.lastWasGetCmds {req : GetStatusRequest} {resp : StatusResponse} {fw : Firmware}
    {out : GetStatusOut} (h : Answered req resp fw out) :
    out.fw.dfuse.lastWasGetCmds = (decide req.IsGetCommands || fw.dfuse.lastWasGetCmds) := by
  have hkeep : ¬ req.IsGetCommands →
      fw.dfuse.lastWasGetCmds = (decide req.IsGetCommands || fw.dfuse.lastWasGetCmds) := fun hn => by
    rw [decide_eq_false hn, Bool.false_or]
  cases h with
  | getCommands hg => simp [hg]
  | setAddress hc | setAddressDone hc => exact hkeep hc.others.1
  | massErase hc | eraseRefused hc | eraseStarted hc | eraseDone hc | eraseRuns hc =>
    exact hkeep hc.others.1
  | writeRefused hc | writeStarted hc | writeDone hc | writeRuns hc => exact hkeep hc.others.1
  | unhandled hn => exact hkeep hn

/-- The flag is up when the list is armed or left over, and never for both reasons. -/
structure FlagMirrors (s : Device × CmdHistory) : Prop where
  flag : s.1.fw.dfuse.lastWasGetCmds = (s.2.armed || s.2.leftOver)
  once : s.2.armed = true → s.2.leftOver = false

lemma flagMirrors_polled {s : Device × CmdHistory} (h : FlagMirrors s) (resp : StatusResponse)
    (next : DfuState) : FlagMirrors (withGhost step cmdHistory s (.getStatus resp next)).1 := by
  obtain ⟨d, a, l⟩ := s
  have hflag := (d.answered resp).lastWasGetCmds
  have hold : d.fw.dfuse.lastWasGetCmds = (a || l) := h.flag
  have honce : a = true → l = false := h.once
  rw [hold] at hflag
  have key : ∀ a' l', CmdHistory.polled ⟨a, l⟩ d = ⟨a', l'⟩ →
      (d.poll resp).fw.dfuse.lastWasGetCmds = (a' || l') → (a' = true → l' = false) →
      FlagMirrors (withGhost step cmdHistory (d, ⟨a, l⟩) (.getStatus resp next)).1 := by
    intro a' l' hp hf ho
    have hp' : cmdHistory d (.getStatus resp next) ⟨a, l⟩ = ⟨a', l'⟩ := hp
    unfold withGhost
    rw [hp']
    exact ⟨hf, ho⟩
  by_cases hg : d.request.IsGetCommands
  · rw [decide_eq_true hg, Bool.true_or] at hflag
    by_cases hst : d.dfu = .dnloadSync
    · exact key true false ((if_pos hg).trans (if_pos hst)) hflag fun _ => rfl
    · refine key a (!a) ((if_pos hg).trans (if_neg hst)) ?_ fun ha => by rw [ha]; rfl
      rw [Bool.or_not_self]
      exact hflag
  · rw [decide_eq_false hg, Bool.false_or] at hflag
    by_cases ho : d.request.IsOther ∧ d.dfu = .dnloadSync
    · exact key false (a || l) ((if_neg hg).trans (if_pos ho)) hflag
        fun hc => absurd hc Bool.false_ne_true
    · exact key a l ((if_neg hg).trans (if_neg ho)) hflag honce

lemma tudDfuUploadCb_keeps {b : BitVec 16} (hb : b ≠ 0) (n : BitVec 16) (mem : Addr → Byte)
    (c : DfuseCtx) : (tudDfuUploadCb 0 b n mem c).dfuse = c := by
  unfold tudDfuUploadCb
  rw [if_neg (by simp), if_neg hb]
  split_ifs <;> rfl

lemma tudDfuUploadCb_unset {c : DfuseCtx} (hc : c.lastWasGetCmds = false) (n : BitVec 16)
    (mem : Addr → Byte) : tudDfuUploadCb 0 0 n mem c = ⟨0, [], c, []⟩ := by
  unfold tudDfuUploadCb
  rw [if_neg (by simp), if_pos rfl, if_neg (by simp [hc])]

lemma tudDfuUploadCb_set {c : DfuseCtx} (hc : c.lastWasGetCmds = true) (n : BitVec 16)
    (mem : Addr → Byte) :
    let out := tudDfuUploadCb 0 0 n mem c
    out.ret.toNat = min n.toNat 3 ∧ out.data = dfuseCmds.take (min n.toNat 3) ∧
      out.dfuse = { c with lastWasGetCmds := false } := by
  intro out
  have hlen : dfuseCmds.length = 3 := rfl
  have hret : out.ret.toNat = min n.toNat 3 := by
    show (tudDfuUploadCb 0 0 n mem c).ret.toNat = _
    unfold tudDfuUploadCb
    rw [if_neg (by simp), if_pos rfl, if_pos hc, hlen]
    by_cases hn : n.toNat < 3
    · simp only [if_pos hn]
      omega
    · simp only [if_neg hn]
      have h3 : (BitVec.ofNat 16 3).toNat = 3 := rfl
      omega
  have hdata : out.data = dfuseCmds.take out.ret.toNat := by
    show (tudDfuUploadCb 0 0 n mem c).data = dfuseCmds.take (tudDfuUploadCb 0 0 n mem c).ret.toNat
    unfold tudDfuUploadCb
    rw [if_neg (by simp), if_pos rfl, if_pos hc]
  have hdfuse : out.dfuse = { c with lastWasGetCmds := false } := by
    show (tudDfuUploadCb 0 0 n mem c).dfuse = _
    unfold tudDfuUploadCb
    rw [if_neg (by simp), if_pos rfl, if_pos hc]
  refine ⟨hret, ?_, hdfuse⟩
  rw [hdata, hret]

lemma flagMirrors_upload {s : Device × CmdHistory} (h : FlagMirrors s) (b n : BitVec 16)
    (mem : Addr → Byte) : FlagMirrors (withGhost step cmdHistory s (.upload b n mem)).1 := by
  unfold withGhost
  by_cases hb : b = 0
  · subst hb
    have hp : cmdHistory s.1 (.upload 0 n mem) s.2 = ⟨false, false⟩ := by simp [cmdHistory]
    rw [hp]
    refine ⟨?_, fun _ => rfl⟩
    show (tudDfuUploadCb 0 0 n mem s.1.fw.dfuse).dfuse.lastWasGetCmds = false
    cases hf : s.1.fw.dfuse.lastWasGetCmds with
    | true => rw [(tudDfuUploadCb_set hf n mem).2.2]
    | false =>
      rw [tudDfuUploadCb_unset hf n mem]
      exact hf
  · have hp : cmdHistory s.1 (.upload b n mem) s.2 = s.2 := if_neg hb
    rw [hp]
    refine ⟨?_, h.once⟩
    show (tudDfuUploadCb 0 b n mem s.1.fw.dfuse).dfuse.lastWasGetCmds = _
    rw [tudDfuUploadCb_keeps hb]
    exact h.flag

theorem flagMirrors_step {s : Device × CmdHistory} (h : FlagMirrors s) (e : Event) :
    FlagMirrors (withGhost step cmdHistory s e).1 := by
  cases e with
  | mount | abort => exact ⟨rfl, fun _ => rfl⟩
  | getStatus resp next => exact flagMirrors_polled h resp next
  | upload b n mem => exact flagMirrors_upload h b n mem
  | clrStatus | process r => exact ⟨h.flag, h.once⟩
  | dnload x =>
    by_cases ht : s.1.dfu.TakesDnload
    · constructor <;> simp only [withGhost, step, if_pos ht, cmdHistory]
      · exact h.flag
      · exact h.once
    · constructor <;> simp only [withGhost, step, if_neg ht, cmdHistory]
      · exact h.flag
      · exact h.once

/-! ### Exactly when they pair up -/

lemma paired_iff {s : Device × CmdHistory} (h : FlagMirrors s) (e : Event) :
    Paired s e ↔ AsksNoLeftOver s e := by
  cases e with
  | upload b n mem =>
    refine forall_congr' fun hb => ?_
    subst hb
    cases ha : s.2.armed with
    | true =>
      have hf : s.1.fw.dfuse.lastWasGetCmds = true := by rw [h.flag, ha, Bool.true_or]
      have hset := tudDfuUploadCb_set hf n mem
      rw [if_pos rfl]
      exact iff_of_true ⟨hset.1, hset.2.1⟩ fun _ => h.once ha
    | false =>
      have hf : s.1.fw.dfuse.lastWasGetCmds = s.2.leftOver := by rw [h.flag, ha, Bool.false_or]
      rw [if_neg Bool.false_ne_true]
      cases hl : s.2.leftOver with
      | false =>
        rw [tudDfuUploadCb_unset (hf.trans hl)]
        exact iff_of_true ⟨rfl, rfl⟩ fun _ => rfl
      | true =>
        obtain ⟨hret, hdata, -⟩ := tudDfuUploadCb_set (hf.trans hl) n mem
        constructor
        · -- the list is returned though it is not due
          rintro ⟨h0, -⟩ hn
          rw [h0] at hret
          have hz : n.toNat ≠ 0 := fun hc => hn (BitVec.eq_of_toNat_eq hc)
          have h0' : (0 : BitVec 16).toNat = 0 := rfl
          omega
        · intro hn
          have h0 : n = 0 := by
            by_contra hne
            exact Bool.false_ne_true (hn hne).symm
          subst h0
          exact ⟨BitVec.eq_of_toNat_eq hret, hdata⟩
  | _ => exact Iff.rfl

/-- **GetCommands and UPLOAD over whole runs.** From power-on, the uploads of block 0 return the
command list exactly when it is due all along the run, if and only if no UPLOAD of the run asks for
bytes of a list left over. -/
theorem getCommands_pairs_iff (es : List Event) :
    Along (withGhost step cmdHistory) Paired (powerOn, ⟨false, false⟩) es ↔
      Along (withGhost step cmdHistory) AsksNoLeftOver (powerOn, ⟨false, false⟩) es :=
  along_iff_of_inv (I := FlagMirrors) (fun _ e h _ => flagMirrors_step h e)
    (fun _ e h => paired_iff h e) ⟨rfl, fun _ => rfl⟩

/-- A GETSTATUS in `DFU_DNLOAD_IDLE` arms the list again: the second UPLOAD returns it too. -/
theorem getStatus_rearms_list :
    ¬ ∀ es, Along (withGhost step cmdHistory) Paired (powerOn, ⟨false, false⟩) es := by
  intro h
  have hrun := h [.mount, .dnload ⟨0, [0x00], [], by decide⟩, askStatus, .upload 0 3 fun _ => 0,
    askStatus, .upload 0 3 fun _ => 0]
  exact absurd (hrun.2.2.2.2.2.1 rfl).1 (by decide)

end Cs7000pBootloader.Dfu
