import EspFirmware.Spec.Image
import Mathlib.Tactic.IntervalCases

/-!
What the image loader does with every flash content: its loops end or run on, and the 32-bit addresses it
counts with beside the exact ones.
-/

namespace EspFirmware.Proof.Boot
open EspFirmware.Boot EspFirmware.Spec EspFirmware.Lib
open EspFirmware.Nvs (Byte Word)

section
variable {α β : Type} {x : Run α} {f : α → Run β}

theorem run_bind_ok {a : α} (returns : x.run = some (.ok a)) : (x >>= f).run = (f a).run := by
  rw [ExceptT.run_bind, returns]
  rfl

theorem run_bind_error {e : EspErr} (fails : x.run = some (.error e)) : (x >>= f).run = some (.error e) := by
  rw [ExceptT.run_bind, fails]
  rfl

theorem run_bind_none (runsOn : x.run = none) : (x >>= f).run = none := by
  rw [ExceptT.run_bind, runsOn]
  rfl

end

theorem and_three_eq_zero (w : Word) : w &&& 3 = 0 ↔ w.toNat % 4 = 0 := by
  have three : w.toNat &&& 3 = w.toNat % 4 := Nat.and_two_pow_sub_one_eq_mod w.toNat 2
  rw [← BitVec.toNat_inj, BitVec.toNat_and]
  change w.toNat &&& 3 = 0 ↔ _
  rw [three]

theorem mod_four_eq_zero (w : Word) : w % 4 = 0 ↔ w.toNat % 4 = 0 := by
  rw [← BitVec.toNat_inj, BitVec.toNat_umod]
  rfl

theorem and_not_fifteen (w : Word) : (w &&& ~~~(15 : Word)).toNat = w.toNat / 16 * 16 := by
  have mask : ∀ i < 32, (~~~(15 : Word)).getLsbD i = decide (4 ≤ i) := by
    decide
  have shifted : w &&& ~~~(15 : Word) = w >>> 4 <<< 4 := by
    apply BitVec.eq_of_getLsbD_eq
    intro i inside
    rw [BitVec.getLsbD_and, mask i inside, BitVec.getLsbD_shiftLeft, BitVec.getLsbD_ushiftRight]
    by_cases low : i < 4
    · simp [low, show ¬ 4 ≤ i by omega]
    · simp [low, show 4 ≤ i by omega, inside, show 4 + (i - 4) = i by omega]
  rw [shifted, BitVec.toNat_shiftLeft, BitVec.toNat_ushiftRight, Nat.shiftRight_eq_div_pow, Nat.shiftLeft_eq]
  have bound := w.isLt
  rw [Nat.mod_eq_of_lt (by omega)]

theorem flashRead_eq {srcAddr size : Word} (address : srcAddr.toNat % 4 = 0) (whole : size.toNat % 4 = 0) :
    bootloaderFlashRead srcAddr size = pure () := by
  rw [bootloaderFlashRead, if_neg (not_not_intro ((and_three_eq_zero _).mpr address)),
    if_neg (not_not_intro ((and_three_eq_zero _).mpr whole))]

theorem flashRead_aligned {srcAddr size : Word} (address : srcAddr.toNat % 4 = 0) (whole : size.toNat % 4 = 0) :
    (bootloaderFlashRead srcAddr size).run = some (.ok ()) := by
  rw [flashRead_eq address whole]
  rfl

theorem flashRead_unaligned {srcAddr size : Word} (address : srcAddr.toNat % 4 ≠ 0) :
    (bootloaderFlashRead srcAddr size).run = some (.error .fail) := by
  rw [bootloaderFlashRead, if_pos fun aligned => address ((and_three_eq_zero _).mp aligned)]
  rfl

theorem xorWords_eq (m : Memory) (a count : Nat) (checksum : Word) :
    xorWords m a count checksum = ((List.range count).map fun j => m.load32 (a + 4 * j)).foldl (· ^^^ ·) checksum := by
  rw [xorWords, List.foldl_map]

def chunkWords (m : Memory) (dataAddr dataLen : Word) (c rounds : Nat) : List Word :=
  (List.range' c rounds).flatMap fun c =>
    (List.range (min 1024 (dataLen.toNat - 1024 * c) / 4)).map fun j =>
      m.load32 ((dataAddr + BitVec.ofNat 32 (1024 * c)).toNat + 4 * j)

theorem chunkWords_succ (m : Memory) (dataAddr dataLen : Word) (c rounds : Nat) :
    chunkWords m dataAddr dataLen c (rounds + 1) =
      ((List.range (min 1024 (dataLen.toNat - 1024 * c) / 4)).map fun j =>
        m.load32 ((dataAddr + BitVec.ofNat 32 (1024 * c)).toNat + 4 * j)) ++ chunkWords m dataAddr dataLen (c + 1) rounds := by
  rw [chunkWords, List.range'_succ, List.flatMap_cons]
  rfl

section
variable {m : Memory} {dataAddr dataLen : Word} (aligned : dataAddr.toNat % 4 = 0) (whole : dataLen.toNat % 4 = 0)
include aligned whole

theorem dataLoop_next (fuel : Nat) {i : Word} (chunk : i.toNat % 1024 = 0) (more : i < dataLen) (checksum : Word) :
    (dataLoop m dataAddr dataLen (fuel + 1) i checksum).run =
      (dataLoop m dataAddr dataLen fuel (i + 1024)
        (xorWords m (dataAddr + i).toNat (min 1024 (dataLen.toNat - i.toNat) / 4) checksum)).run := by
  have left : (dataLen - i).toNat = dataLen.toNat - i.toNat := BitVec.toNat_sub_of_le (BitVec.le_of_lt more)
  have bytes : (if SHA_CHUNK < dataLen - i then SHA_CHUNK else dataLen - i).toNat =
      min 1024 (dataLen.toNat - i.toNat) := by
    have below : SHA_CHUNK < dataLen - i ↔ 1024 < dataLen.toNat - i.toNat := by
      rw [BitVec.lt_def, left]
      rfl
    by_cases long : 1024 < dataLen.toNat - i.toNat
    · rw [if_pos (below.mpr long)]
      exact (Nat.min_eq_left (Nat.le_of_lt long)).symm
    · rw [if_neg fun lt => long (below.mp lt), left]
      omega
  have address : (dataAddr + i).toNat % 4 = 0 := by
    rw [BitVec.toNat_add]
    omega
  have size : (if SHA_CHUNK < dataLen - i then SHA_CHUNK else dataLen - i).toNat % 4 = 0 := by
    rw [bytes]
    omega
  rw [dataLoop, if_pos more]
  simp only
  rw [run_bind_ok (flashRead_aligned address size), bytes]

theorem dataLoop_runs_on (long : 0xFFFFFC00 < dataLen.toNat) (fuel : Nat) {i : Word} (chunk : i.toNat % 1024 = 0)
    (checksum : Word) : (dataLoop m dataAddr dataLen fuel i checksum).run = none := by
  induction fuel generalizing i checksum with
  | zero => rfl
  | succ fuel ih =>
      have more : i < dataLen := by
        have bound := i.isLt
        rw [BitVec.lt_def]
        omega
      have next : (i + 1024).toNat % 1024 = 0 := by
        rw [BitVec.toNat_add]
        change (i.toNat + 1024) % 2 ^ 32 % 1024 = 0
        omega
      rw [dataLoop_next aligned whole fuel chunk more, ih next]

theorem dataLoop_ends (short : dataLen.toNat ≤ 0xFFFFFC00) {rounds c : Nat}
    (last : (dataLen.toNat + 1023) / 1024 = c + rounds) (fuel : Nat) (checksum : Word) :
    (dataLoop m dataAddr dataLen fuel (BitVec.ofNat 32 (1024 * c)) checksum).run =
      if rounds < fuel then some (.ok ((chunkWords m dataAddr dataLen c rounds).foldl (· ^^^ ·) checksum)) else none := by
  have counter : (BitVec.ofNat 32 (1024 * c)).toNat = 1024 * c := by
    rw [BitVec.toNat_ofNat, Nat.mod_eq_of_lt (by omega)]
  induction rounds generalizing c fuel checksum with
  | zero =>
      have done : ¬ BitVec.ofNat 32 (1024 * c) < dataLen := by
        rw [BitVec.lt_def, counter]
        omega
      cases fuel with
      | zero => rfl
      | succ fuel =>
          rw [dataLoop, if_neg done, if_pos (Nat.succ_pos fuel)]
          rfl
  | succ rounds ih =>
      have more : BitVec.ofNat 32 (1024 * c) < dataLen := by
        rw [BitVec.lt_def, counter]
        omega
      have next : BitVec.ofNat 32 (1024 * c) + 1024 = BitVec.ofNat 32 (1024 * (c + 1)) := by
        rw [Nat.mul_add, BitVec.ofNat_add]
        rfl
      have later : (BitVec.ofNat 32 (1024 * (c + 1))).toNat = 1024 * (c + 1) := by
        rw [BitVec.toNat_ofNat, Nat.mod_eq_of_lt (by omega)]
      cases fuel with
      | zero => rfl
      | succ fuel =>
          rw [dataLoop_next aligned whole _ (by omega) more, next, counter, ih (by omega) _ _ later, xorWords_eq,
            ← List.foldl_append, chunkWords_succ]
          simp only [Nat.add_lt_add_iff_right]

end

section
variable {reads : ImageReads} {part : EspPartitionPos}

theorem segmentWords_eq (k : Nat) :
    segmentWords reads part k = chunkWords (reads.segment k) (segmentAddr reads part k + 8) (segmentAt reads part k).dataLen 0
      (((segmentAt reads part k).dataLen.toNat + 1023) / 1024) := by
  rw [segmentWords, chunkWords, List.range_eq_range']

theorem checksumAt_succ (n : Nat) :
    checksumAt reads part (n + 1) = (segmentWords reads part n).foldl (· ^^^ ·) (checksumAt reads part n) := by
  rw [checksumAt, List.range_succ, List.flatMap_append, List.foldl_append, List.flatMap_singleton]
  rfl

theorem segmentAddr_aligned (aligned : part.offset.toNat % 4 = 0) {k : Nat}
    (accepted : ∀ j < k, SegmentAccepted reads part j) : (segmentAddr reads part k).toNat % 4 = 0 := by
  induction k with
  | zero =>
      rw [segmentAddr, BitVec.toNat_add]
      change (part.offset.toNat + 8) % 2 ^ 32 % 4 = 0
      omega
  | succ k ih =>
      have before := ih fun j less => accepted j (by omega)
      have whole : (EspImageSegmentHeader.read (reads.segment k) (segmentAddr reads part k).toNat).dataLen.toNat % 4 = 0 :=
        (accepted k (by omega)).1
      rw [segmentAddr, BitVec.toNat_add, BitVec.toNat_add]
      change (((segmentAddr reads part k).toNat + 8) % 2 ^ 32 + _) % 2 ^ 32 % 4 = 0
      omega

variable {k : Nat} (aligned : (segmentAddr reads part k).toNat % 4 = 0) (fuel : Nat)
include aligned

theorem dataAddr_aligned : (segmentAddr reads part k + 8).toNat % 4 = 0 := by
  rw [BitVec.toNat_add]
  change ((segmentAddr reads part k).toNat + 8) % 2 ^ 32 % 4 = 0
  omega

theorem processSegment_eq (checksum : Word) :
    (processSegment fuel reads k (segmentAddr reads part k) checksum).run =
      (if (segmentAt reads part k).dataLen % 4 ≠ 0 then throw .imageInvalid
        else do
          let checksum ← processSegmentData fuel (reads.segment k) (reads.buffer k) (segmentAddr reads part k + 8)
            (segmentAt reads part k).dataLen checksum
          return (segmentAt reads part k, checksum) : Run _).run := by
  rw [processSegment, run_bind_ok (flashRead_aligned aligned (by decide))]
  exact run_bind_ok (x := verifySegmentHeader _) rfl

theorem processSegment_refused (refused : ¬ SegmentAccepted reads part k) (checksum : Word) :
    ∃ e, (processSegment fuel reads k (segmentAddr reads part k) checksum).run = some (.error e) := by
  rw [processSegment_eq aligned]
  by_cases whole : (segmentAt reads part k).dataLen.toNat % 4 = 0
  · have noBuffer : reads.buffer k = false := by
      cases buffer : reads.buffer k with
      | false => rfl
      | true => exact absurd ⟨whole, buffer⟩ refused
    rw [if_neg (not_not_intro ((mod_four_eq_zero _).mpr whole)), noBuffer]
    exact ⟨.fail, rfl⟩
  · rw [if_pos fun zero => whole ((mod_four_eq_zero _).mp zero)]
    exact ⟨.imageInvalid, rfl⟩

theorem processSegment_runs_on (accepted : SegmentAccepted reads part k)
    (long : 0xFFFFFC00 < (segmentAt reads part k).dataLen.toNat) (checksum : Word) :
    (processSegment fuel reads k (segmentAddr reads part k) checksum).run = none := by
  rw [processSegment_eq aligned, if_neg (not_not_intro ((mod_four_eq_zero _).mpr accepted.1)), accepted.2]
  exact run_bind_none (dataLoop_runs_on (dataAddr_aligned aligned) accepted.1 long fuel rfl checksum)

theorem processSegment_ends (accepted : SegmentAccepted reads part k)
    (short : (segmentAt reads part k).dataLen.toNat ≤ 0xFFFFFC00) :
    (processSegment fuel reads k (segmentAddr reads part k) (checksumAt reads part k)).run =
      if ((segmentAt reads part k).dataLen.toNat + 1023) / 1024 < fuel then
        some (.ok (segmentAt reads part k, checksumAt reads part (k + 1))) else none := by
  have ends := dataLoop_ends (m := reads.segment k) (dataAddr_aligned aligned) accepted.1 short (c := 0)
    (Nat.zero_add _).symm fuel (checksumAt reads part k)
  rw [← segmentWords_eq, ← checksumAt_succ] at ends
  rw [processSegment_eq aligned, if_neg (not_not_intro ((mod_four_eq_zero _).mpr accepted.1)), accepted.2]
  split at ends
  · rename_i enough
    rw [if_pos enough]
    exact run_bind_ok ends
  · rename_i few
    rw [if_neg few]
    exact run_bind_none ends

end

section
variable {reads : ImageReads} {part : EspPartitionPos} (aligned : part.offset.toNat % 4 = 0)

def SegmentRead (reads : ImageReads) (part : EspPartitionPos) (k : Nat) : Prop :=
  SegmentAccepted reads part k ∧ (segmentAt reads part k).dataLen.toNat ≤ 0xFFFFFC00

theorem segmentLoop_cons (fuel left : Nat) {k : Nat} {nextAddr checksum : Word} {header : EspImageSegmentHeader}
    {sum : Word} (first : (processSegment fuel reads k nextAddr checksum).run = some (.ok (header, sum))) :
    (segmentLoop fuel reads (left + 1) k nextAddr checksum).run =
      (do
        let done ← segmentLoop fuel reads left (k + 1) (nextAddr + 8 + header.dataLen) sum
        return { done with segments := header :: done.segments, segmentData := (nextAddr + 8) :: done.segmentData }
        : Run SegmentsDone).run := by
  rw [segmentLoop, run_bind_ok first]

include aligned

theorem segmentLoop_ends (fuel : Nat) {left k : Nat} (read : ∀ j < k + left, SegmentRead reads part j) :
    (segmentLoop fuel reads left k (segmentAddr reads part k) (checksumAt reads part k)).run =
        some (.ok ⟨(List.range' k left).map (segmentAt reads part),
          (List.range' k left).map fun j => segmentAddr reads part j + 8, segmentAddr reads part (k + left),
          checksumAt reads part (k + left)⟩) ∨
      (segmentLoop fuel reads left k (segmentAddr reads part k) (checksumAt reads part k)).run = none ∧
        fuel < 2 ^ 22 := by
  induction left generalizing k with
  | zero => exact .inl rfl
  | succ left ih =>
      have here := read k (by omega)
      have place : (segmentAddr reads part k).toNat % 4 = 0 :=
        segmentAddr_aligned aligned fun j less => (read j (by omega)).1
      have first := processSegment_ends place fuel here.1 here.2
      split at first
      · rw [segmentLoop_cons fuel left first, List.range'_succ, Nat.add_comm left 1, ← Nat.add_assoc]
        rcases ih (k := k + 1) fun j less => read j (by omega) with rest | ⟨rest, few⟩
        · exact .inl (run_bind_ok rest)
        · exact .inr ⟨run_bind_none rest, few⟩
      · have length := here.2
        exact .inr ⟨run_bind_none first, by omega⟩

theorem segmentLoop_refused {fuel : Nat} (enough : 2 ^ 22 ≤ fuel) {bad : Nat}
    (before : ∀ j < bad, SegmentRead reads part j) (refused : ¬ SegmentAccepted reads part bad) {left k : Nat}
    (reached : k ≤ bad) (inside : bad < k + left) :
    ∃ e, (segmentLoop fuel reads left k (segmentAddr reads part k) (checksumAt reads part k)).run = some (.error e) := by
  have place : (segmentAddr reads part k).toNat % 4 = 0 :=
    segmentAddr_aligned aligned fun j less => (before j (by omega)).1
  induction left generalizing k with
  | zero => omega
  | succ left ih =>
      rcases Nat.eq_or_lt_of_le reached with rfl | later
      · obtain ⟨e, fails⟩ := processSegment_refused place fuel refused (checksumAt reads part k)
        exact ⟨e, run_bind_error fails⟩
      · have here := before k later
        have first := processSegment_ends place fuel here.1 here.2
        have length := here.2
        rw [if_pos (by omega)] at first
        have next : (segmentAddr reads part (k + 1)).toNat % 4 = 0 :=
          segmentAddr_aligned aligned fun j less => (before j (by omega)).1
        obtain ⟨e, fails⟩ := ih later (by omega) next
        rw [segmentLoop_cons fuel left first]
        exact ⟨e, run_bind_error fails⟩

theorem segmentLoop_runs_on (fuel : Nat) {bad : Nat} (before : ∀ j < bad, SegmentRead reads part j)
    (accepted : SegmentAccepted reads part bad) (long : 0xFFFFFC00 < (segmentAt reads part bad).dataLen.toNat)
    {left k : Nat} (reached : k ≤ bad) (inside : bad < k + left) :
    (segmentLoop fuel reads left k (segmentAddr reads part k) (checksumAt reads part k)).run = none := by
  have place : (segmentAddr reads part k).toNat % 4 = 0 :=
    segmentAddr_aligned aligned fun j less => (before j (by omega)).1
  induction left generalizing k with
  | zero => omega
  | succ left ih =>
      rcases Nat.eq_or_lt_of_le reached with rfl | later
      · exact run_bind_none (processSegment_runs_on place fuel accepted long _)
      · have here := before k later
        have first := processSegment_ends place fuel here.1 here.2
        have next : (segmentAddr reads part (k + 1)).toNat % 4 = 0 :=
          segmentAddr_aligned aligned fun j less => (before j (by omega)).1
        split at first
        · rw [segmentLoop_cons fuel left first]
          exact run_bind_none (ih later (by omega) next)
        · exact run_bind_none first

end

section
variable {reads : ImageReads} {part : EspPartitionPos}

theorem spanOf_append (before after : List EspImageSegmentHeader) :
    spanOf (before ++ after) = spanOf before + spanOf after := by
  simp [spanOf]

theorem segmentsAt_succ (n : Nat) :
    segmentsAt reads part (n + 1) = segmentsAt reads part n ++ [segmentAt reads part n] := by
  simp [segmentsAt, List.range_succ]

theorem segmentAddr_toNat (n : Nat) :
    (segmentAddr reads part n).toNat = (part.offset.toNat + 8 + spanOf (segmentsAt reads part n)) % 2 ^ 32 := by
  induction n with
  | zero =>
      rw [segmentAddr, BitVec.toNat_add]
      rfl
  | succ n ih =>
      have span : spanOf [segmentAt reads part n] = 8 + (segmentAt reads part n).dataLen.toNat := by
        simp [spanOf]
      rw [segmentAddr, ← segmentAt, BitVec.toNat_add, BitVec.toNat_add, ih, segmentsAt_succ, spanOf_append, span]
      change ((_ % 2 ^ 32 + 8) % 2 ^ 32 + _) % 2 ^ 32 = _
      omega

theorem unpadded_toNat (n : Nat) :
    (segmentAddr reads part n - part.offset).toNat = (8 + spanOf (segmentsAt reads part n)) % 2 ^ 32 := by
  have bound := part.offset.isLt
  rw [BitVec.toNat_sub, segmentAddr_toNat]
  omega

theorem padded_toNat {w : Word} {length : Nat} (unpadded : w.toNat = length % 2 ^ 32) :
    (w + 1 + 15 &&& ~~~(15 : Word)).toNat = withChecksum length % 2 ^ 32 := by
  rw [and_not_fifteen, BitVec.toNat_add, BitVec.toNat_add, unpadded, withChecksum]
  change ((length % 2 ^ 32 + 1) % 2 ^ 32 + 15) % 2 ^ 32 / 16 * 16 = _
  omega

end

section
variable {reads : ImageReads} {part : EspPartitionPos}

theorem verifyChecksum_eq {m : Memory} {sum startAddr unpadded : Word}
    (address : (startAddr + unpadded).toNat % 4 = 0) (whole : unpadded.toNat % 4 = 0) :
    (verifyChecksum m sum startAddr unpadded).run =
      if foldWord sum ≠ m ((startAddr + unpadded).toNat + ((unpadded + 1 + 15 &&& ~~~(15 : Word)) - unpadded - 1).toNat)
        then some (.error .imageInvalid) else some (.ok (unpadded + 1 + 15 &&& ~~~(15 : Word))) := by
  have size : ((unpadded + 1 + 15 &&& ~~~(15 : Word)) - unpadded).toNat % 4 = 0 := by
    have bound := unpadded.isLt
    rw [BitVec.toNat_sub, and_not_fifteen]
    omega
  have read : (tryCatch (bootloaderFlashRead (startAddr + unpadded)
      ((unpadded + 1 + 15 &&& ~~~(15 : Word)) - unpadded)) fun _ => throw .imageInvalid : Run Unit).run = some (.ok ()) := by
    rw [flashRead_eq address size]
    rfl
  rw [verifyChecksum]
  simp only
  rw [run_bind_ok read]
  split
  · rfl
  · rfl

def allDone (reads : ImageReads) (part : EspPartitionPos) : SegmentsDone :=
  ⟨segmentsAt reads part (imageAt reads part).segmentCount.toNat,
    (List.range (imageAt reads part).segmentCount.toNat).map fun j => segmentAddr reads part j + 8, endAddr reads part,
    checksumAt reads part (imageAt reads part).segmentCount.toNat⟩

theorem finishLoad_cases (header : HeaderAccepted reads part)
    (segments : ∀ k < (imageAt reads part).segmentCount.toNat, SegmentAccepted reads part k) :
    (ImageAccepted reads part ∧ ∃ imageLen : Word, imageLen.toNat = exactLength reads part % 2 ^ 32 ∧
      (finishLoad reads part (imageAt reads part) (allDone reads part)).run =
        some (.ok ⟨part.offset, imageAt reads part, (allDone reads part).segments, (allDone reads part).segmentData,
          imageLen⟩)) ∨
    ¬ ImageAccepted reads part ∧
      ∃ e, (finishLoad reads part (imageAt reads part) (allDone reads part)).run = some (.error e) := by
  have place : (endAddr reads part).toNat % 4 = 0 := segmentAddr_aligned header.aligned segments
  have whole : (endAddr reads part - part.offset).toNat % 4 = 0 := by
    have bound := part.offset.isLt
    have aligned := header.aligned
    rw [BitVec.toNat_sub]
    omega
  have back : part.offset + (endAddr reads part - part.offset) = endAddr reads part := by
    rw [BitVec.add_comm, BitVec.sub_add_cancel]
  have length : (endAddr reads part - part.offset + 1 + 15 &&& ~~~(15 : Word)).toNat = exactLength reads part % 2 ^ 32 :=
    padded_toNat (unpadded_toNat _)
  have check := @verifyChecksum_eq reads.checksum (checksumAt reads part (imageAt reads part).segmentCount.toNat)
    part.offset (endAddr reads part - part.offset) (by rw [back]; exact place) whole
  rw [back] at check
  rw [finishLoad]
  by_cases noWrap : part.offset ≤ endAddr reads part
  · rw [if_neg (show ¬ (allDone reads part).nextAddr < part.offset from BitVec.not_lt.mpr noWrap)]
    split at check
    · rename_i differs
      exact .inr ⟨fun accepted => differs accepted.checksum, _, run_bind_error check⟩
    · rename_i same
      by_cases fits : exactLength reads part % 2 ^ 32 ≤ part.size.toNat
      · left
        refine ⟨⟨header, segments, noWrap, not_not.mp same, fits⟩, _, length, (run_bind_ok check).trans ?_⟩
        rw [if_neg (by rw [gt_iff_lt, BitVec.lt_def, length]; omega)]
        rfl
      · right
        refine ⟨fun accepted => fits accepted.length, .imageInvalid, (run_bind_ok check).trans ?_⟩
        rw [if_pos (by rw [gt_iff_lt, BitVec.lt_def, length]; omega)]
        rfl
  · rw [if_pos (show (allDone reads part).nextAddr < part.offset from BitVec.not_le.mp noWrap)]
    exact .inr ⟨fun accepted => noWrap accepted.noWrap, .imageInvalid, rfl⟩

theorem load_refused (refused : ¬ HeaderAccepted reads part) (fuel : Nat) :
    ∃ e, (espImageLoad fuel reads part).run = some (.error e) := by
  rw [espImageLoad]
  by_cases size : part.size ≤ SIXTEEN_MB
  · rw [if_neg (BitVec.not_lt.mpr size)]
    by_cases aligned : part.offset.toNat % 4 = 0
    · rw [run_bind_ok (flashRead_aligned aligned (by decide))]
      by_cases magic : (imageAt reads part).magic = ESP_IMAGE_HEADER_MAGIC
      · have passed : (verifyImageHeader (imageAt reads part)).run = some (.ok ()) := by
          rw [verifyImageHeader, if_neg (not_not_intro magic)]
          rfl
        have many : (imageAt reads part).segmentCount.toNat > ESP_IMAGE_MAX_SEGMENTS := by
          rw [gt_iff_lt, ← Nat.not_le]
          intro few
          exact refused ⟨size, aligned, magic, few⟩
        refine ⟨.imageInvalid, (run_bind_ok passed).trans ?_⟩
        rw [← imageAt, if_pos many]
        rfl
      · have fails : (verifyImageHeader (imageAt reads part)).run = some (.error .imageInvalid) := by
          rw [verifyImageHeader, if_pos magic]
          rfl
        exact ⟨_, run_bind_error fails⟩
    · exact ⟨_, run_bind_error (flashRead_unaligned aligned)⟩
  · rw [if_pos (BitVec.not_le.mp size)]
    exact ⟨.invalidArg, rfl⟩

theorem load_eq (header : HeaderAccepted reads part) (fuel : Nat) :
    (espImageLoad fuel reads part).run =
      (do
        let done ← segmentLoop fuel reads (imageAt reads part).segmentCount.toNat 0 (segmentAddr reads part 0)
          (checksumAt reads part 0)
        finishLoad reads part (imageAt reads part) done : Run EspImageMetadata).run := by
  have passed : (verifyImageHeader (imageAt reads part)).run = some (.ok ()) := by
    rw [verifyImageHeader, if_neg (not_not_intro header.magic)]
    rfl
  rw [espImageLoad, if_neg (BitVec.not_lt.mpr header.size),
    run_bind_ok (flashRead_aligned header.aligned (by decide))]
  refine (run_bind_ok passed).trans ?_
  rw [← imageAt, if_neg (by rw [gt_iff_lt]; exact Nat.not_lt.mpr header.count)]
  rfl

theorem load_runs_on (header : HeaderAccepted reads part) {bad : Nat}
    (inside : bad < (imageAt reads part).segmentCount.toNat) (accepted : ∀ j ≤ bad, SegmentAccepted reads part j)
    (long : 0xFFFFFC00 < (segmentAt reads part bad).dataLen.toNat) (fuel : Nat) :
    (espImageLoad fuel reads part).run = none := by
  have exists_ : ∃ k, 0xFFFFFC00 < (segmentAt reads part k).dataLen.toNat := ⟨bad, long⟩
  have first := Nat.find_min' exists_ long
  have before : ∀ j < Nat.find exists_, SegmentRead reads part j := by
    intro j less
    exact ⟨accepted j (by omega), Nat.not_lt.mp (Nat.find_min exists_ less)⟩
  rw [load_eq header]
  exact run_bind_none (segmentLoop_runs_on header.aligned fuel before (accepted _ first) (Nat.find_spec exists_)
    (Nat.zero_le _) (by omega))

theorem loop_done (header : HeaderAccepted reads part)
    (read : ∀ k < (imageAt reads part).segmentCount.toNat, SegmentRead reads part k) (fuel : Nat) :
    (espImageLoad fuel reads part).run = (finishLoad reads part (imageAt reads part) (allDone reads part)).run ∨
      (espImageLoad fuel reads part).run = none ∧ fuel < 2 ^ 22 := by
  rw [load_eq header]
  rcases segmentLoop_ends header.aligned fuel (k := 0) (by simpa using read) with ends | ⟨runsOn, few⟩
  · left
    rw [run_bind_ok ends, ← List.range_eq_range', Nat.zero_add]
    rfl
  · exact .inr ⟨run_bind_none runsOn, few⟩

theorem spanOf_split {segments before after : List EspImageSegmentHeader} {segment : EspImageSegmentHeader}
    (parts : segments = before ++ segment :: after) :
    spanOf before + (8 + segment.dataLen.toNat) ≤ spanOf segments := by
  rw [parts, spanOf_append]
  simp [spanOf]

theorem inside_of_short {data : EspImageMetadata}
    (count : data.segments.length = data.image.segmentCount.toNat)
    (length : data.imageLen.toNat = withChecksum (8 + spanOf data.segments))
    (fits : data.imageLen.toNat ≤ part.size.toNat) : ImageInside part data := by
  have whole := length
  rw [withChecksum] at whole
  refine ⟨by omega, count, ?_, by rw [withChecksum]; omega, length⟩
  intro before segment after parts
  have span := spanOf_split parts
  rw [endOfSegments]
  omega

theorem when_of_loadsSafely (safe : LoadsSafely reads part) : LoadsSafelyWhen reads part := by
  obtain ⟨fuel, result, ends, inside⟩ := safe
  have counted : HeaderAccepted reads part → ∀ k < (imageAt reads part).segmentCount.toNat,
      (∀ j ≤ k, SegmentAccepted reads part j) → (segmentAt reads part k).dataLen.toNat ≤ 0xFFFFFC00 := by
    intro header k less accepted
    rcases Nat.lt_or_ge 0xFFFFFC00 (segmentAt reads part k).dataLen.toNat with long | short
    · rw [load_runs_on header less accepted long] at ends
      cases ends
    · exact short
  refine ⟨counted, ?_⟩
  intro accepted
  have read : ∀ k < (imageAt reads part).segmentCount.toNat, SegmentRead reads part k := fun k less =>
    ⟨accepted.segments k less, counted accepted.header k less fun j le => accepted.segments j (by omega)⟩
  rcases loop_done accepted.header read fuel with done | ⟨runsOn, -⟩
  · rcases finishLoad_cases accepted.header accepted.segments with ⟨-, imageLen, length, returns⟩ | ⟨refused, -⟩
    · rw [done, returns] at ends
      cases ends
      have exact_ := (inside _ rfl).length
      have small := Nat.mod_lt (exactLength reads part) (show 0 < 2 ^ 32 by decide)
      rw [← length, exact_] at small
      exact small
    · exact absurd accepted refused
  · rw [runsOn] at ends
    cases ends

theorem loadsSafely_of_when (condition : LoadsSafelyWhen reads part) : LoadsSafely reads part := by
  obtain ⟨counted, short⟩ := condition
  by_cases header : HeaderAccepted reads part
  · by_cases segments : ∀ k < (imageAt reads part).segmentCount.toNat, SegmentAccepted reads part k
    · have read : ∀ k < (imageAt reads part).segmentCount.toNat, SegmentRead reads part k := fun k less =>
        ⟨segments k less, counted header k less fun j le => segments j (by omega)⟩
      rcases loop_done header read (2 ^ 22) with done | ⟨-, few⟩
      · rcases finishLoad_cases header segments with ⟨accepted, imageLen, length, returns⟩ | ⟨-, e, fails⟩
        · refine ⟨2 ^ 22, _, done.trans returns, ?_⟩
          rintro data same
          cases same
          have exact_ : exactLength reads part % 2 ^ 32 = exactLength reads part := Nat.mod_eq_of_lt (short accepted)
          rw [exact_] at length
          have fits := accepted.length
          rw [exact_, ← length] at fits
          exact inside_of_short (by simp [allDone, segmentsAt]) length fits
        · exact ⟨2 ^ 22, _, done.trans fails, fun data same => by cases same⟩
      · omega
    · classical
      have exists_ : ∃ k, ¬ (k < (imageAt reads part).segmentCount.toNat → SegmentAccepted reads part k) := by
        simpa using segments
      obtain ⟨inside, refused⟩ := Classical.not_imp.mp (Nat.find_spec exists_)
      have accepted : ∀ j < Nat.find exists_, SegmentAccepted reads part j := fun j less =>
        not_not.mp (Nat.find_min exists_ less) (by omega)
      have before : ∀ j < Nat.find exists_, SegmentRead reads part j := fun j less =>
        ⟨accepted j less, counted header j (by omega) fun i le => accepted i (by omega)⟩
      obtain ⟨e, fails⟩ := segmentLoop_refused header.aligned (Nat.le_refl (2 ^ 22)) before refused (Nat.zero_le _)
        (show Nat.find exists_ < 0 + (imageAt reads part).segmentCount.toNat by omega)
      exact ⟨2 ^ 22, _, (load_eq header _).trans (run_bind_error fails), fun data same => by cases same⟩
  · obtain ⟨e, fails⟩ := load_refused header 0
    exact ⟨0, _, fails, fun data same => by cases same⟩

end

/-- The loader ends, and keeps what it accepts inside its partition, exactly under the condition. -/
theorem loads_safely_iff (reads : ImageReads) (part : EspPartitionPos) :
    LoadsSafely reads part ↔ LoadsSafelyWhen reads part :=
  ⟨when_of_loadsSafely, loadsSafely_of_when⟩

def endlessFlash : Memory := fun a =>
  if a = 0x10000 then 0xE9 else if a = 0x10001 then 1
  else if a = 0x1000C then 0xFC else if 0x1000D ≤ a ∧ a ≤ 0x1000F then 0xFF else 0

theorem endless_segment :
    (∀ fuel, (espImageLoad fuel (.of endlessFlash) ⟨0x10000, 0x100000⟩).run = none) ∧
      ¬ LoadsSafely (.of endlessFlash) ⟨0x10000, 0x100000⟩ := by
  have header : HeaderAccepted (.of endlessFlash) ⟨0x10000, 0x100000⟩ := ⟨by decide, by decide, by decide, by decide⟩
  have runsOn (fuel : Nat) : (espImageLoad fuel (.of endlessFlash) ⟨0x10000, 0x100000⟩).run = none := by
    refine @load_runs_on _ _ header 0 (by decide) ?_ (by decide) fuel
    intro j zero
    obtain rfl := Nat.le_zero.mp zero
    exact ⟨by decide, rfl⟩
  refine ⟨runsOn, ?_⟩
  rintro ⟨fuel, result, ends, -⟩
  rw [runsOn] at ends
  cases ends

end EspFirmware.Proof.Boot
