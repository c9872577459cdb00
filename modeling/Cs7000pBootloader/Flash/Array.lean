import Cs7000pBootloader.Flash.Process
import Cs7000pBootloader.Lib.Program

/-!
The flash array as a byte memory: a store sets its byte, an erase sets a sector of bank 2 to `0xFF`.
A real cell takes a byte only when it is erased, so a store is also read as a program operation, with
`blend` for what it leaves in a cell that holds something.
-/

namespace Cs7000pBootloader.Flash

open Cs7000pBootloader.Lib

/-- The address lies in sector `s` of bank 2. -/
def InSector (s : BitVec 3) (a : Addr) : Prop :=
  0x08100000 + s.toNat * 0x20000 ≤ a.toNat ∧ a.toNat < 0x08100000 + (s.toNat + 1) * 0x20000

instance (s : BitVec 3) (a : Addr) : Decidable (InSector s a) := by
  unfold InSector; infer_instance

/-- The array after one effect. -/
def Effect.apply (m : Addr → Byte) : Effect → Addr → Byte
  | .store s => poke m s
  | .erase s => fun a => if InSector s a then 0xFF else m a

/-- The array after what went over the bus. -/
def memoryAfter (m : Addr → Byte) (tr : List Bus) : Addr → Byte := (effects tr).foldl Effect.apply m

lemma memoryAfter_stores {m : Addr → Byte} {tr : List Bus} {ss : List (Addr × Byte)}
    (h : effects tr = ss.map .store) : memoryAfter m tr = pokes m ss := by
  unfold memoryAfter pokes
  rw [h, List.foldl_map]
  rfl

/-- The addresses that an effect writes. -/
def Effect.Writes : Effect → Addr → Prop
  | .store s, a => s.1 = a
  | .erase s, a => InSector s a

lemma memoryAfter_of_not_writes (m : Addr → Byte) {tr : List Bus} {a : Addr}
    (h : ∀ e ∈ effects tr, ¬ e.Writes a) : memoryAfter m tr a = m a := by
  unfold memoryAfter
  generalize effects tr = l at h
  induction l generalizing m with
  | nil => rfl
  | cons e l ih =>
    have he := h e List.mem_cons_self
    rw [List.foldl_cons, ih (e.apply m) fun e' he' => h e' (List.mem_cons_of_mem _ he')]
    cases e with
    | store s => exact Function.update_of_ne (Ne.symm he) s.2 m
    | erase s => exact if_neg he

/-! ### Cells that hold something -/

section Program

variable (blend : Byte → Byte → Byte)

/-- The array after one effect, a store being a program operation. -/
def Effect.program (m : Addr → Byte) : Effect → Addr → Byte
  | .store s => Lib.program blend m s
  | .erase s => Effect.apply m (.erase s)

/-- The array after what went over the bus. -/
def programmed (m : Addr → Byte) (tr : List Bus) : Addr → Byte :=
  (effects tr).foldl (Effect.program blend) m

/-- A cell that takes any byte is a byte of memory. -/
lemma programmed_second (m : Addr → Byte) (tr : List Bus) :
    programmed (fun _ b => b) m tr = memoryAfter m tr := by
  have heq : Effect.program (fun _ b => b) = Effect.apply := by
    funext m e
    cases e <;> rfl
  rw [programmed, heq, memoryAfter]

lemma foldl_erase (m : Addr → Byte) (sectors : List (BitVec 3)) (a : Addr) :
    (sectors.map Effect.erase).foldl (Effect.program blend) m a =
      if ∃ s ∈ sectors, InSector s a then 0xFF else m a := by
  induction sectors generalizing m with
  | nil => simp
  | cons s sectors ih =>
    rw [List.map_cons, List.foldl_cons, ih]
    simp only [Effect.program, Effect.apply, List.mem_cons, exists_eq_or_imp]
    by_cases hs : InSector s a <;> by_cases hrest : ∃ t ∈ sectors, InSector t a <;>
      simp [hs, hrest]

/-- **Erases and then stores to erased cells**, none of them twice, leave the array that they
place. -/
lemma programmed_erase_store {blend : Byte → Byte → Byte} (hb : ∀ b, blend 0xFF b = b)
    {m : Addr → Byte} {tr : List Bus} {sectors : List (BitVec 3)} {ss : List (Addr × Byte)}
    (h : effects tr = sectors.map .erase ++ ss.map .store)
    (herased : ∀ s ∈ ss, ∃ t ∈ sectors, InSector t s.1) (honce : (ss.map Prod.fst).Nodup) :
    programmed blend m tr =
      pokes (fun a => if ∃ s ∈ sectors, InSector s a then 0xFF else m a) ss := by
  have hstores : ∀ (m : Addr → Byte), (ss.map Effect.store).foldl (Effect.program blend) m =
      Lib.programs blend m ss := by
    intro m
    rw [List.foldl_map]
    rfl
  rw [programmed, h, List.foldl_append, hstores, funext (foldl_erase blend m sectors)]
  exact Lib.programs_eq_pokes hb (fun s hs => if_pos (herased s hs)) honce

end Program

end Cs7000pBootloader.Flash
