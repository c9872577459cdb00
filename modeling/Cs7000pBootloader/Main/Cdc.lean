import Cs7000pBootloader.Lib.Hex
import Cs7000pBootloader.Lib.Runs

/-!
The serial port: `cdc_task` echoes what the host sends, at most 64 bytes in a turn of the main loop,
and prints the tick counter when the button is let go.  The FIFOs belong to the USB stack, which is
not part of the source: the one that receives is a parameter, with what is relied on as hypotheses,
and what is handed over to be sent is recorded in order.
-/

namespace Cs7000pBootloader.Main

open Cs7000pBootloader.Lib

variable {φ : Type*}

/-! ### The stack -/

/-- The receiving side of the stack's serial port. -/
structure CdcStack (φ : Type*) where
  /-- the FIFO at reset -/
  start : φ
  /-- the host sends bytes -/
  receive : φ → List (BitVec 8) → φ
  /-- `tud_cdc_available` -/
  available : φ → ℕ
  /-- `tud_cdc_read`: what it puts into a buffer of the given size -/
  read : φ → ℕ → List (BitVec 8) × φ

/-- **What is relied on**: the FIFO holds bytes that wait, a read takes from the front of them as many
as there are and the buffer has room for, and the number available is how many there are. -/
structure CdcStack.Lawful {φ : Type*} (u : CdcStack φ) (waiting : φ → List (BitVec 8)) : Prop where
  start : waiting u.start = []
  receive : ∀ f bs, waiting (u.receive f bs) = waiting f ++ bs
  available : ∀ f, u.available f = (waiting f).length
  taken : ∀ f n, (u.read f n).1 = (waiting f).take n
  left : ∀ f n, waiting (u.read f n).2 = (waiting f).drop n

/-- A FIFO that is the list of its bytes. -/
def listStack : CdcStack (List (BitVec 8)) where
  start := []
  receive f bs := f ++ bs
  available f := f.length
  read f n := (f.take n, f.drop n)

/-! ### The task -/

/-- What is handed to the stack, by the call that does it. -/
inductive CdcOut where
  /-- the write in `cdc_task` -/
  | echo (buf : List (BitVec 8))
  /-- the write in `printUnsignedInt` -/
  | print (result : List (BitVec 8))
  | flush
  deriving DecidableEq, Repr

/-- `hexdigits` -/
def hexdigits : List (BitVec 8) :=
  [0x30, 0x31, 0x32, 0x33, 0x34, 0x35, 0x36, 0x37, 0x38, 0x39, 0x41, 0x42, 0x43, 0x44, 0x45, 0x46]

/-- The array `result` before the loop, without its terminator: `0x........` and a line end. -/
def resultTemplate : List (BitVec 8) :=
  [0x30, 0x78, 0x2E, 0x2E, 0x2E, 0x2E, 0x2E, 0x2E, 0x2E, 0x2E, 0x0D, 0x0A]

/-- One turn of the loop of `printUnsignedInt`. -/
def printDigit (s : List (BitVec 8) × BitVec 32) (i : ℕ) : List (BitVec 8) × BitVec 32 :=
  (s.1.set i (hexdigits.getD (s.2 &&& 0xF).toNat 0), s.2 >>> 4)

/-- `printUnsignedInt` -/
def printUnsignedInt (x : BitVec 32) : List CdcOut :=
  let result := ([9, 8, 7, 6, 5, 4, 3, 2].foldl printDigit (resultTemplate, x)).1
  [.print result, .flush]

/-- The FIFO of received bytes, and the static `btn_prev`. -/
structure Cdc (φ : Type*) where
  rx : φ
  btnPrev : Bool

/-- `cdc_task`, with what `button_read` returns and what `g_tickCount` holds. -/
def cdcTask (u : CdcStack φ) (btn : Bool) (tickCount : BitVec 32) (s : Cdc φ) : Cdc φ × List CdcOut :=
  let echoed : φ × List CdcOut :=
    if u.available s.rx ≠ 0 then
      let buf := u.read s.rx 64
      (buf.2, [.echo buf.1, .flush])
    else (s.rx, [])
  let printed := if s.btnPrev = false ∧ btn ≠ false then printUnsignedInt tickCount else []
  (⟨echoed.1, btn⟩, echoed.2 ++ printed)

inductive CdcEvent where
  /-- the host sends bytes -/
  | receive (bs : List (BitVec 8))
  | task (btn : Bool) (tickCount : BitVec 32)

def cdcStep (u : CdcStack φ) (s : Cdc φ) : CdcEvent → Cdc φ × List CdcOut
  | .receive bs => ({ s with rx := u.receive s.rx bs }, [])
  | .task btn tickCount => cdcTask u btn tickCount s

/-! ### The specification -/

/-- The bytes sent by the host. -/
def received (es : List CdcEvent) : List (BitVec 8) := es.flatMap fun e => match e with
  | .receive bs => bs
  | _ => []

/-- The bytes echoed. -/
def echoes (out : List CdcOut) : List (BitVec 8) := out.flatMap fun o => match o with
  | .echo bs => bs
  | _ => []

/-- The number on a printed line. -/
def readLine (line : List (BitVec 8)) : Option ℕ :=
  if line.take 2 = [0x30, 0x78] ∧ line.drop 10 = [0x0D, 0x0A] then readHex ((line.drop 2).take 8)
  else none

/-- The numbers printed. -/
def printedNumbers (out : List CdcOut) : List (Option ℕ) := out.filterMap fun o => match o with
  | .print line => some (readLine line)
  | _ => none

/-- The tick counts at which the button was let go, as the task samples it. -/
def letGo : Bool → List CdcEvent → List ℕ
  | _, [] => []
  | prev, .receive _ :: es => letGo prev es
  | prev, .task btn tickCount :: es =>
    (if prev = false ∧ btn = true then [tickCount.toNat] else []) ++ letGo btn es

/-! ### A number -/

lemma hexdigits_eq (x : BitVec 32) :
    hexdigits.getD (x &&& 0xF).toNat 0 = hexChar (x.toNat % 16) := by
  have hmask : (x &&& 0xF).toNat = x.toNat % 16 := by
    rw [BitVec.toNat_and]
    exact Nat.and_two_pow_sub_one_eq_mod x.toNat 4
  have hall : ∀ d : Fin 16, hexdigits.getD d.val 0 = hexChar d.val := by decide
  rw [hmask]
  exact hall ⟨x.toNat % 16, Nat.mod_lt _ (by decide)⟩

/-- **The loop** leaves the digits of the number between the prefix and the line end. -/
lemma printUnsignedInt_eq (x : BitVec 32) :
    printUnsignedInt x = [.print ([0x30, 0x78] ++ hexOf 8 x.toNat ++ [0x0D, 0x0A]), .flush] := by
  simp only [printUnsignedInt, List.foldl_cons, List.foldl_nil, printDigit, hexdigits_eq,
    BitVec.toNat_ushiftRight, Nat.shiftRight_eq_div_pow, resultTemplate, List.set_cons_succ,
    List.set_cons_zero, hexOf]
  rfl

/-- **A printed line reads back** as the number. -/
lemma readLine_hexOf (x : BitVec 32) :
    readLine ([0x30, 0x78] ++ hexOf 8 x.toNat ++ [0x0D, 0x0A]) = some x.toNat := by
  have hlen := length_hexOf 8 x.toNat
  have hlt : x.toNat < 16 ^ 8 := x.isLt
  have hdigits : ((([0x30, 0x78] ++ hexOf 8 x.toNat ++ [0x0D, 0x0A] : List (BitVec 8)).drop 2).take 8) =
      hexOf 8 x.toNat := by
    rw [List.append_assoc, List.drop_left' (by rfl), List.take_left' hlen]
  have hend : ([0x30, 0x78] ++ hexOf 8 x.toNat ++ [0x0D, 0x0A] : List (BitVec 8)).drop 10 =
      [0x0D, 0x0A] := List.drop_left' (by simp)
  rw [readLine, hdigits, hend, readHex_hexOf, Nat.mod_eq_of_lt hlt]
  exact if_pos ⟨rfl, rfl⟩

/-! ### Runs -/

section Outputs

variable (a b : List CdcOut)

lemma echoes_append : echoes (a ++ b) = echoes a ++ echoes b := List.flatMap_append

lemma printedNumbers_append : printedNumbers (a ++ b) = printedNumbers a ++ printedNumbers b :=
  List.filterMap_append

end Outputs

section Serves

variable {u : CdcStack φ} {waiting : φ → List (BitVec 8)}

lemma printed_spec (prev btn : Bool) (tickCount : BitVec 32) :
    echoes (if prev = false ∧ btn ≠ false then printUnsignedInt tickCount else []) = [] ∧
      printedNumbers (if prev = false ∧ btn ≠ false then printUnsignedInt tickCount else []) =
        (if prev = false ∧ btn = true then [tickCount.toNat] else []).map some := by
  have hbtn : (prev = false ∧ btn ≠ false) ↔ (prev = false ∧ btn = true) := by simp
  by_cases hb : prev = false ∧ btn = true
  · rw [if_pos (hbtn.mpr hb), if_pos hb, printUnsignedInt_eq]
    refine ⟨rfl, ?_⟩
    simp only [printedNumbers, List.filterMap_cons, List.filterMap_nil, readLine_hexOf]
    rfl
  · rw [if_neg (mt hbtn.mp hb), if_neg hb]
    exact ⟨rfl, rfl⟩

/-- **One call** echoes the front of what was received, and prints when the button is let go. -/
lemma cdcTask_spec (hu : u.Lawful waiting) (btn : Bool) (tickCount : BitVec 32) (s : Cdc φ) :
    echoes (cdcTask u btn tickCount s).2 ++ waiting (cdcTask u btn tickCount s).1.rx =
        waiting s.rx ∧
      printedNumbers (cdcTask u btn tickCount s).2 =
        (if s.btnPrev = false ∧ btn = true then [tickCount.toNat] else []).map some := by
  obtain ⟨hquiet, hline⟩ := printed_spec s.btnPrev btn tickCount
  simp only [cdcTask]
  rw [echoes_append, printedNumbers_append, hquiet, hline, List.append_nil]
  split
  · have hecho : echoes [.echo (u.read s.rx 64).1, .flush] = (u.read s.rx 64).1 := by simp [echoes]
    rw [hecho, hu.taken, hu.left, List.take_append_drop]
    exact ⟨rfl, rfl⟩
  · exact ⟨rfl, rfl⟩

end Serves

lemma listStack_lawful : listStack.Lawful id :=
  ⟨rfl, fun _ _ => rfl, fun _ => rfl, fun _ _ => rfl, fun _ _ => rfl⟩

/-- More bytes than one call takes, and a button let go twice. -/
def busyPort : List CdcEvent :=
  [.receive (List.replicate 70 0x41), .task true 7, .receive [0x42], .task false 8,
    .task true 0xFFFFFFFF]

end Cs7000pBootloader.Main
