import Cs7000pBootloader.Dfu.Host
import Cs7000pBootloader.Flash.Array

/-!
The round trip of an image.  The host cuts the image into parts as it likes, sets the address
pointer for each part and downloads it as blocks 2, 3, …; the memory then holds the image and is
unchanged elsewhere, and any stretch of the image can be uploaded again.
-/

namespace Cs7000pBootloader.Dfu

open Flash Cs7000pBootloader.Lib

/-! ### The host's script -/

/-- The `i`-th piece of the image of the size of a transfer. -/
def chunk (image : List Byte) (i : ℕ) : List Byte :=
  (image.drop (cfgTudDfuXferBufsize * i)).take cfgTudDfuXferBufsize

def chunkCount (image : List Byte) : ℕ :=
  (image.length + (cfgTudDfuXferBufsize - 1)) / cfgTudDfuXferBufsize

/-- The image as blocks 2, 3, …, the last one possibly shorter. -/
def blocks (image : List Byte) : List Command :=
  (List.range (chunkCount image)).map fun i => .block (BitVec.ofNat 16 (i + 2)) (chunk image i)

/-- An image in one go: the pointer, then the blocks. -/
def download (base : Addr) (image : List Byte) : List Command := .setAddress base :: blocks image

/-- An image in parts, each at its own place behind the one before. -/
def downloadParts : Addr → List (List Byte) → List Command
  | _, [] => []
  | base, p :: ps => download base p ++ downloadParts (base + BitVec.ofNat 32 p.length) ps

/-! ### The specification -/

/-- `m'` holds the image from `base` on, and is `m` elsewhere. -/
structure Holds (image : List Byte) (base : Addr) (m m' : Addr → Byte) : Prop where
  inside : ∀ i (h : i < image.length), m' (base + BitVec.ofNat 32 i) = image[i]
  outside : ∀ a, (∀ i < image.length, a ≠ base + BitVec.ofNat 32 i) → m' a = m a

/-! ### Chunks -/

section Chunks

variable {image : List Byte} {k : ℕ}

lemma lt_of_lt_chunkCount (h : k < chunkCount image) : cfgTudDfuXferBufsize * k < image.length := by
  unfold chunkCount at h
  simp only [cfgTudDfuXferBufsize] at h ⊢
  omega

lemma length_chunk (image : List Byte) (k : ℕ) :
    (chunk image k).length = min cfgTudDfuXferBufsize (image.length - cfgTudDfuXferBufsize * k) := by
  simp [chunk]

lemma length_le_chunks (image : List Byte) :
    image.length ≤ cfgTudDfuXferBufsize * chunkCount image := by
  unfold chunkCount
  simp only [cfgTudDfuXferBufsize]
  omega

lemma chunkCount_le (h : image.length ≤ 0x100000) : chunkCount image ≤ 1024 := by
  unfold chunkCount
  simp only [cfgTudDfuXferBufsize]
  omega

lemma take_succ_chunk (image : List Byte) (k : ℕ) :
    image.take (cfgTudDfuXferBufsize * k) ++ chunk image k =
      image.take (cfgTudDfuXferBufsize * (k + 1)) := by
  rw [Nat.mul_succ, List.take_add]
  rfl

/-- The source's block address, for the numbers that the host uses. -/
lemma blockAddr_ofNat (p : Addr) (h : k + 2 < 2 ^ 16) :
    blockAddr p (BitVec.ofNat 16 (k + 2)) = p + BitVec.ofNat 32 (cfgTudDfuXferBufsize * k) := by
  have hs : (BitVec.ofNat 16 (k + 2)).setWidth 32 - (2 : Addr) = BitVec.ofNat 32 k := by
    apply BitVec.eq_of_toNat_eq
    rw [BitVec.toNat_sub, BitVec.toNat_setWidth, show (2 : Addr).toNat = 2 from rfl]
    simp only [BitVec.toNat_ofNat]
    omega
  unfold blockAddr
  rw [hs, ← BitVec.ofNat_mul, Nat.mul_comm]

lemma valid_blocks (h : image.length ≤ 0x100000) : ∀ c ∈ blocks image, c.Valid := by
  intro c hc
  simp only [blocks, List.mem_map, List.mem_range] at hc
  obtain ⟨k, hk, rfl⟩ := hc
  have hcount := chunkCount_le h
  have hlt := lt_of_lt_chunkCount hk
  refine ⟨?_, ?_, ?_⟩
  · rw [BitVec.le_def, BitVec.toNat_ofNat]
    show 2 ≤ (k + 2) % 2 ^ 16
    omega
  · rw [← List.length_pos_iff, length_chunk]
    simp only [cfgTudDfuXferBufsize] at hlt ⊢
    omega
  · rw [length_chunk]
    exact Nat.min_le_left _ _

/-! ### What the script does to the abstract loader -/

/-- **The blocks of an image** are stored as the image. -/
lemma run_blocks (h : image.length ≤ 0x100000) (p : Addr) :
    run Command.exec p (blocks image) = (p, placed p image) := by
  have hcount := chunkCount_le h
  have hk : ∀ k ≤ chunkCount image, run Command.exec p
      ((List.range k).map fun i => .block (BitVec.ofNat 16 (i + 2)) (chunk image i)) =
        (p, placed p (image.take (cfgTudDfuXferBufsize * k))) := by
    intro k hk
    induction k with
    | zero => simp
    | succ k ih =>
      have hlt : cfgTudDfuXferBufsize * k < image.length := lt_of_lt_chunkCount (by omega)
      rw [List.range_succ, List.map_append, run_append, ih (by omega), ← take_succ_chunk,
        placed_append, List.length_take, Nat.min_eq_left (Nat.le_of_lt hlt)]
      simp only [List.map_cons, List.map_nil, run_cons, run_nil, Command.exec, List.append_nil]
      rw [blockAddr_ofNat p (by omega)]
  have hall := hk (chunkCount image) (Nat.le_refl _)
  rw [List.take_of_length_le (length_le_chunks image)] at hall
  exact hall

lemma run_download (h : image.length ≤ 0x100000) (p base : Addr) :
    run Command.exec p (download base image) = (base, placed base image) := by
  rw [download, run_cons, Command.exec, run_blocks h]
  rfl

lemma downloadParts_concat (base : Addr) (parts : List (List Byte)) (last : List Byte) :
    downloadParts base (parts ++ [last]) =
      downloadParts base parts ++ download (base + BitVec.ofNat 32 parts.flatten.length) last := by
  induction parts generalizing base with
  | nil => simp [downloadParts]
  | cons p ps ih =>
    simp only [List.cons_append, downloadParts, ih, List.append_assoc, List.flatten_cons,
      List.length_append, BitVec.ofNat_add, BitVec.add_assoc]

/-- **The parts of an image** are stored as the image. -/
lemma run_downloadParts (p base : Addr) {parts : List (List Byte)}
    (h : parts.flatten.length ≤ 0x100000) :
    (run Command.exec p (downloadParts base parts)).2 = placed base parts.flatten := by
  induction parts generalizing p base with
  | nil => rfl
  | cons q qs ih =>
    rw [List.flatten_cons, List.length_append] at h
    rw [downloadParts, run_append, run_download (by omega), List.flatten_cons, placed_append,
      ih _ _ (by omega)]

lemma valid_downloadParts (base : Addr) {parts : List (List Byte)}
    (h : parts.flatten.length ≤ 0x100000) : ∀ c ∈ downloadParts base parts, c.Valid := by
  induction parts generalizing base with
  | nil => intro c hc; cases hc
  | cons q qs ih =>
    rw [List.flatten_cons, List.length_append] at h
    intro c hc
    simp only [downloadParts, download, List.cons_append, List.mem_cons, List.mem_append] at hc
    rcases hc with rfl | hc | hc
    · trivial
    · exact valid_blocks (by omega) c hc
    · exact ih _ (by omega) c hc

/-- **Reading the blocks of an image** reads its addresses one after the other. -/
lemma reads_blocks (h : image.length ≤ 0x100000) (p : Addr) (m : Addr → Byte) :
    (blocks image).flatMap (Command.reads p m) =
      (List.range image.length).map fun i => m (p + BitVec.ofNat 32 i) := by
  have hcount := chunkCount_le h
  have hk : ∀ k ≤ chunkCount image, ((List.range k).map fun i =>
      Command.block (BitVec.ofNat 16 (i + 2)) (chunk image i)).flatMap (Command.reads p m) =
        (List.range (min (cfgTudDfuXferBufsize * k) image.length)).map
          fun i => m (p + BitVec.ofNat 32 i) := by
    intro k hk
    induction k with
    | zero => simp
    | succ k ih =>
      have hlt : cfgTudDfuXferBufsize * k < image.length := lt_of_lt_chunkCount (by omega)
      have hlen : min (cfgTudDfuXferBufsize * (k + 1)) image.length =
          cfgTudDfuXferBufsize * k + (chunk image k).length := by
        rw [length_chunk]
        simp only [cfgTudDfuXferBufsize] at hlt ⊢
        omega
      rw [List.range_succ, List.map_append, List.flatMap_append, ih (by omega),
        Nat.min_eq_left (Nat.le_of_lt hlt), hlen, List.range_add, List.map_append]
      simp only [List.map_cons, List.map_nil, List.flatMap_cons, List.flatMap_nil, List.append_nil,
        Command.reads, List.map_map, Function.comp_def]
      rw [blockAddr_ofNat p (by omega)]
      simp only [BitVec.add_assoc, ← BitVec.ofNat_add]
  have hall := hk (chunkCount image) (Nat.le_refl _)
  rw [Nat.min_eq_right (length_le_chunks image)] at hall
  exact hall

end Chunks

/-! ### The round trip -/

lemma atRest_mount (d : Device) : AtRest appBaseAddr (step d .mount).1.fw :=
  ⟨rfl, rfl, rfl, flashInit_state d.fw.flash⟩

lemma holds_placed {image : List Byte} {base : Addr} (m : Addr → Byte)
    (h : base.toNat + image.length ≤ 2 ^ 32) : Holds image base m (pokes m (placed base image)) := by
  constructor
  · intro i hi
    have ha : (base + BitVec.ofNat 32 i).toNat = base.toNat + i := toNat_add_ofNat (by omega)
    rw [pokes_placed m base image h, ha, if_pos (Nat.le_add_right _ _), Nat.add_sub_cancel_left,
      List.getElem?_eq_getElem hi, Option.getD_some]
  · intro a ha
    refine pokes_of_not_mem m fun s hs hc => ?_
    obtain ⟨i, hi, he⟩ := mem_placed (a := base) (x := s.1) (b := s.2) hs
    exact ha i hi (hc.symm.trans he)

lemma reads_stretch {image : List Byte} {base : Addr} {m : Addr → Byte} {off n : ℕ}
    (hlen : image.length ≤ 0x100000) (h : base.toNat + image.length ≤ 2 ^ 32)
    (hoff : off + n ≤ image.length) :
    (blocks ((image.drop off).take n)).flatMap
        (Command.reads (base + BitVec.ofNat 32 off) (pokes m (placed base image))) =
      (image.drop off).take n := by
  have hn : ((image.drop off).take n).length = n := by
    rw [List.length_take, List.length_drop]
    omega
  rw [reads_blocks (by omega), hn, ← map_pokes_placed m base image h hoff]
  simp only [BitVec.add_assoc, ← BitVec.ofNat_add]

/-- **The image round trip.** After a mount, a host that downloads an image in parts, polling each
DNLOAD to `DFU_DNLOAD_IDLE`, finds the memory to hold the image and to be unchanged elsewhere; the
blocks of the last part, uploaded right away, return it, and the blocks of any stretch of the image
return it after a SetAddress. -/
theorem image_round_trip (d : Device) (m : Addr → Byte) (base : Addr) (parts : List (List Byte))
    (last : List Byte) (es : List Event) (hlo : regionStart ≤ base.toNat)
    (hhi : base.toNat + (parts.flatten ++ last).length ≤ regionEnd)
    (hes : Downloads (step d .mount).1 (downloadParts base (parts ++ [last])) es) :
    let image := parts.flatten ++ last
    let d' := (run step (step d .mount).1 es).1
    let m' := memoryAfter m (run step (step d .mount).1 es).2
    Holds image base m m' ∧
      (∀ us, Uploads m' (blocks last) us → readBack d' us = last) ∧
      ∀ off n, off + n ≤ image.length →
        ∀ fs, Downloads d' [.setAddress (base + BitVec.ofNat 32 off)] fs →
        ∀ us, Uploads (memoryAfter m' (run step d' fs).2) (blocks ((image.drop off).take n)) us →
          readBack (run step d' fs).1 us = (image.drop off).take n := by
  intro image d' m'
  have hflat : (parts ++ [last]).flatten = image := by simp [image]
  change base.toNat + image.length ≤ regionEnd at hhi
  simp only [regionStart, regionEnd] at hlo hhi
  have hlen : image.length ≤ 0x100000 := by omega
  have hend : base.toNat + image.length ≤ 2 ^ 32 := by omega
  have hlast : last.length ≤ 0x100000 := by
    simp only [image, List.length_append] at hlen
    omega
  obtain ⟨hrest, htakes, heff⟩ := hes.refines (atRest_mount d) (.inl rfl)
    (valid_downloadParts base (by rw [hflat]; exact hlen))
  rw [run_downloadParts _ _ (by rw [hflat]; exact hlen), hflat] at heff
  have hm : m' = pokes m (placed base image) := memoryAfter_stores heff
  -- the pointer is left at the last part
  have hptr : AtRest (base + BitVec.ofNat 32 parts.flatten.length) d'.fw := by
    rw [downloadParts_concat, run_append, run_download hlast] at hrest
    exact hrest
  refine ⟨hm ▸ holds_placed m hend, fun us hus => ?_, fun off n hoff fs hfs us hus => ?_⟩
  · rw [hus.readBack_eq hptr (valid_blocks hlast), hm]
    have hdrop : (image.drop parts.flatten.length).take last.length = last := by simp [image]
    conv_lhs => rw [← hdrop]
    rw [reads_stretch hlen hend (by simp [image]), hdrop]
  · obtain ⟨hrest', -, heff'⟩ := hfs.refines hptr htakes (by simp [Command.Valid])
    have hsame : memoryAfter m' (run step d' fs).2 = pokes m' [] := memoryAfter_stores heff'
    have hstretch : ((image.drop off).take n).length ≤ 0x100000 := by
      rw [List.length_take, List.length_drop]
      omega
    rw [hus.readBack_eq hrest' (valid_blocks hstretch), hsame, pokes_nil, hm]
    exact reads_stretch hlen hend hoff

section TwoParts

def setPolls : List Event := [askStatus, askStatus]

/-- The polls of a block of `n` bursts, one GETSTATUS coming in between. -/
def blockPolls (n : ℕ) : List Event :=
  askStatus :: readyPoll :: askStatus :: (List.replicate n readyPoll ++ [askStatus])

lemma setPolls_isPoll : ∀ e ∈ setPolls, e.IsPoll := by simp [setPolls, askStatus, Event.IsPoll]

lemma blockPolls_isPoll (n : ℕ) : ∀ e ∈ blockPolls n, e.IsPoll := by
  simp [blockPolls, askStatus, readyPoll, Event.IsPoll, or_imp, forall_and]

def setDnload (a : Addr) : Dnload := ⟨0, setAddressBytes a, [], (by decide : 5 ≤ 1024)⟩

def byteDnload (b : Byte) : Dnload := ⟨2, [b], [], (by decide : 1 ≤ 1024)⟩

def burstDnload (b : Byte) : Dnload := ⟨2, List.replicate 32 b, [], (by decide : 32 ≤ 1024)⟩

def fullDnload (b : Byte) : Dnload :=
  ⟨2, List.replicate 1024 b, [], Nat.le_of_eq List.length_replicate⟩

def lastDnload (b : Byte) : Dnload := ⟨3, [b], [], (by decide : 1 ≤ 1024)⟩

/-- A part of two blocks. -/
def lastPart : List Byte := List.replicate 1024 0xBB ++ [0xCC]

/-- A part of one burst, and that one behind it. -/
def twoParts : List (List Byte) := [List.replicate 32 0xAA] ++ [lastPart]

def twoPartsDownload : List Event :=
  (.dnload (setDnload 0x08100000) :: setPolls) ++ ((.dnload (burstDnload 0xAA) :: blockPolls 1) ++
    ((.dnload (setDnload 0x08100020) :: setPolls) ++ readyPoll ::
      ((.dnload (fullDnload 0xBB) :: blockPolls 32) ++
        ((.dnload (lastDnload 0xCC) :: blockPolls 1) ++ []))))

lemma blocks_lastPart : blocks lastPart = [.block 2 (List.replicate 1024 0xBB), .block 3 [0xCC]] := by
  simp [-List.reduceReplicate, lastPart, blocks, chunkCount, chunk, cfgTudDfuXferBufsize,
    List.range_succ]

lemma downloadParts_twoParts : downloadParts 0x08100000 twoParts =
    [.setAddress 0x08100000, .block 2 (List.replicate 32 0xAA), .setAddress 0x08100020,
      .block 2 (List.replicate 1024 0xBB), .block 3 [0xCC]] := by
  have hfirst : blocks (List.replicate 32 (0xAA : Byte)) = [.block 2 (List.replicate 32 0xAA)] := rfl
  simp only [twoParts, downloadParts, download, List.cons_append, List.nil_append, hfirst,
    blocks_lastPart]
  rfl

lemma downloads_twoParts :
    Downloads (step powerOn .mount).1 (downloadParts 0x08100000 twoParts) twoPartsDownload := by
  rw [downloadParts_twoParts]
  refine .cons (c := .setAddress 0x08100000) ⟨rfl, rfl⟩ setPolls_isPoll (by decide) ?_
  refine .cons (c := .block 2 (List.replicate 32 0xAA)) ⟨rfl, rfl⟩ (blockPolls_isPoll 1) (by decide) ?_
  refine .cons (c := .setAddress 0x08100020) ⟨rfl, rfl⟩ setPolls_isPoll (by decide) ?_
  refine .idle _ (.cons (c := .block 2 (List.replicate 1024 0xBB)) ⟨rfl, rfl⟩ (blockPolls_isPoll 32)
    (by decide +kernel) ?_)
  exact .cons (c := .block 3 [0xCC]) ⟨rfl, rfl⟩ (blockPolls_isPoll 1) (by decide +kernel) .nil

def twoPartsDevice : Device := (run step (step powerOn .mount).1 twoPartsDownload).1

/-- A blank memory after the download. -/
def twoPartsMemory : Addr → Byte :=
  memoryAfter (fun _ => 0xFF) (run step (step powerOn .mount).1 twoPartsDownload).2

/-- The pointer set to the last byte of the first part. -/
def setStretch : List Event := .dnload (setDnload 0x0810001F) :: setPolls

theorem image_round_trip_two_parts :
    Holds (List.replicate 32 0xAA ++ lastPart) 0x08100000 (fun _ => 0xFF) twoPartsMemory ∧
      readBack twoPartsDevice [.upload 2 1024 twoPartsMemory, .upload 3 1 twoPartsMemory] =
        lastPart ∧
      readBack (run step twoPartsDevice setStretch).1
        [.upload 2 2 (memoryAfter twoPartsMemory (run step twoPartsDevice setStretch).2)] =
          [0xAA, 0xBB] := by
  obtain ⟨hholds, hlast, hstretch⟩ := image_round_trip powerOn (fun _ => 0xFF) 0x08100000
    [List.replicate 32 0xAA] lastPart twoPartsDownload (by decide) (by decide +kernel)
    downloads_twoParts
  have hus : Uploads twoPartsMemory (blocks lastPart)
      [.upload 2 (BitVec.ofNat 16 (List.replicate 1024 (0xBB : Byte)).length) twoPartsMemory,
        .upload 3 1 twoPartsMemory] := by
    rw [blocks_lastPart]
    exact .cons (.cons .nil)
  rw [List.length_replicate] at hus
  refine ⟨hholds, hlast _ hus, hstretch 31 2 (by decide +kernel) setStretch ?_ _ ?_⟩
  · exact .cons (c := .setAddress 0x0810001F) ⟨rfl, rfl⟩ setPolls_isPoll (by decide +kernel) .nil
  · have hbytes : (([List.replicate 32 (0xAA : Byte)].flatten ++ lastPart).drop 31).take 2 =
        [0xAA, 0xBB] := by decide +kernel
    rw [hbytes]
    exact .cons .nil

end TwoParts

end Cs7000pBootloader.Dfu
