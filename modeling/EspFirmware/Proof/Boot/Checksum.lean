import EspFirmware.Proof.Boot.Image

/-!
The checksum of an image: the loader takes it word by word, the format byte by byte.
-/

namespace EspFirmware.Proof.Boot
open EspFirmware.Boot EspFirmware.Spec EspFirmware.Lib
open EspFirmware.Nvs (Byte Word)

theorem foldWord_xor (a b : Word) : foldWord (a ^^^ b) = foldWord a ^^^ foldWord b := by
  simp only [foldWord, BitVec.ushiftRight_xor_distrib, BitVec.setWidth_xor]
  ac_rfl

theorem foldWord_load32 (m : Memory) (a : Nat) :
    foldWord (m.load32 a) = m (a + 3) ^^^ m (a + 2) ^^^ m (a + 1) ^^^ m a := by
  apply BitVec.eq_of_getLsbD_eq
  intro i inside
  have third := Memory.getLsbD_load32 m a (k := 3) (by decide) inside
  have second := Memory.getLsbD_load32 m a (k := 2) (by decide) inside
  have first := Memory.getLsbD_load32 m a (k := 1) (by decide) inside
  have lowest := Memory.getLsbD_load32 m a (k := 0) (by decide) inside
  simp only [foldWord, BitVec.getLsbD_setWidth, BitVec.getLsbD_xor, BitVec.getLsbD_ushiftRight, inside, decide_true,
    Bool.true_and]
  rw [Nat.mul_zero, Nat.zero_add, Nat.add_zero] at lowest
  rw [← third, ← second, ← first, ← lowest]

theorem fold_words (m : Memory) (a count : Nat) (sum : Word) :
    foldWord (((List.range count).map fun j => m.load32 (a + 4 * j)).foldl (· ^^^ ·) sum) =
      (m.load a (4 * count)).foldl (· ^^^ ·) (foldWord sum) := by
  induction count with
  | zero => rfl
  | succ count ih =>
      have bytes : m.load (a + 4 * count) 4 =
          [m (a + 4 * count), m (a + 4 * count + 1), m (a + 4 * count + 2), m (a + 4 * count + 3)] := rfl
      rw [List.range_succ, List.map_append, List.foldl_append, Nat.mul_succ, Memory.load_append, List.foldl_append, ← ih,
        bytes]
      simp only [List.map_cons, List.map_nil, List.foldl_cons, List.foldl_nil, foldWord_xor, foldWord_load32]
      ac_rfl

theorem fold_chunkWords (m : Memory) {dataAddr dataLen : Word} (whole : dataLen.toNat % 4 = 0)
    (addressed : dataAddr.toNat + dataLen.toNat ≤ 2 ^ 32) {rounds c : Nat}
    (last : (dataLen.toNat + 1023) / 1024 = c + rounds) (sum : Word) :
    foldWord ((chunkWords m dataAddr dataLen c rounds).foldl (· ^^^ ·) sum) =
      (m.load (dataAddr.toNat + 1024 * c) (dataLen.toNat - 1024 * c)).foldl (· ^^^ ·) (foldWord sum) := by
  induction rounds generalizing c sum with
  | zero =>
      have none : dataLen.toNat - 1024 * c = 0 := by omega
      rw [none]
      rfl
  | succ rounds ih =>
      have here : (dataAddr + BitVec.ofNat 32 (1024 * c)).toNat = dataAddr.toNat + 1024 * c := by
        rw [BitVec.toNat_add, BitVec.toNat_ofNat, Nat.add_mod_mod, Nat.mod_eq_of_lt (by omega)]
      have split : dataLen.toNat - 1024 * c =
          4 * (min 1024 (dataLen.toNat - 1024 * c) / 4) + (dataLen.toNat - 1024 * (c + 1)) := by omega
      have next : dataAddr.toNat + 1024 * c + 4 * (min 1024 (dataLen.toNat - 1024 * c) / 4) =
            dataAddr.toNat + 1024 * (c + 1) ∨ dataLen.toNat - 1024 * (c + 1) = 0 := by omega
      rw [chunkWords_succ, List.foldl_append, ih (by omega), here, fold_words]
      conv_rhs => rw [split, Memory.load_append, List.foldl_append]
      rcases next with place | none
      · rw [place]
      · rw [none]
        rfl

section
variable {flash : Memory} {part : EspPartitionPos}

theorem segmentPlace_mono : Monotone (segmentPlace flash part) := by
  apply monotone_nat_of_le_succ
  intro k
  rw [segmentPlace]
  omega

theorem lastPlace_lt :
    segmentPlace flash part (segmentCountAt flash part) < part.offset.toNat + paddedLength flash part := by
  unfold paddedLength withChecksum
  omega

theorem segmentAddr_exact (held : ImageHeld flash part) {k : Nat} (inside : k ≤ segmentCountAt flash part) :
    (segmentAddr (.of flash) part k).toNat = segmentPlace flash part k := by
  have ends : segmentPlace flash part (segmentCountAt flash part) < _ := lastPlace_lt
  have bound := held.addressed
  have places : segmentPlace flash part k ≤ _ := segmentPlace_mono inside
  induction k with
  | zero =>
      rw [segmentAddr, BitVec.toNat_add]
      change (part.offset.toNat + 8) % 2 ^ 32 = part.offset.toNat + 8
      change part.offset.toNat + 8 ≤ _ at places
      omega
  | succ k ih =>
      have before := ih (by omega) (segmentPlace_mono (by omega))
      rw [segmentPlace] at places
      rw [segmentAddr, segmentPlace, BitVec.toNat_add, BitVec.toNat_add, before]
      change (((segmentPlace flash part k + 8) % 2 ^ 32 + (flash.load32 (segmentPlace flash part k + 4)).toNat) % 2 ^ 32 = _)
      omega

theorem dataLen_exact (held : ImageHeld flash part) {k : Nat} (inside : k ≤ segmentCountAt flash part) :
    (segmentAt (.of flash) part k).dataLen.toNat = dataLength flash part k := by
  change (flash.load32 ((segmentAddr (.of flash) part k).toNat + 4)).toNat = _
  rw [segmentAddr_exact held inside]
  rfl

theorem data_inside {k : Nat} (inside : k < segmentCountAt flash part) :
    segmentPlace flash part k + 8 + dataLength flash part k < part.offset.toNat + paddedLength flash part :=
  Nat.lt_of_le_of_lt (segmentPlace_mono (Nat.succ_le_of_lt inside)) lastPlace_lt

theorem segmentPlace_span (held : ImageHeld flash part) {n : Nat} (inside : n ≤ segmentCountAt flash part) :
    segmentPlace flash part n = part.offset.toNat + (8 + spanOf (segmentsAt (.of flash) part n)) := by
  induction n with
  | zero => rfl
  | succ n ih =>
      have length := dataLen_exact held (k := n) (by omega)
      unfold dataLength at length
      rw [segmentPlace, ih (by omega), segmentsAt_succ, spanOf_append, spanOf, spanOf, List.map_singleton, List.sum_singleton,
        length, ih (by omega)]
      unfold spanOf
      omega

theorem paddedLength_eq (held : ImageHeld flash part) : paddedLength flash part = exactLength (.of flash) part := by
  unfold paddedLength exactLength
  rw [segmentPlace_span held (Nat.le_refl _), Nat.add_sub_cancel_left]
  rfl

theorem checksum_exact (held : ImageHeld flash part) {n : Nat} (inside : n ≤ segmentCountAt flash part) :
    foldWord (checksumAt (.of flash) part n) = ((List.range n).flatMap (dataBytes flash part)).foldl (· ^^^ ·) 0xEF := by
  induction n with
  | zero =>
      change foldWord ESP_ROM_CHECKSUM_INITIAL = 0xEF
      decide
  | succ n ih =>
      have place := segmentAddr_exact held (k := n) (by omega)
      have length := dataLen_exact held (k := n) (by omega)
      have within := @data_inside flash part n (by omega)
      have bound := held.addressed
      have data : (segmentAddr (.of flash) part n + 8).toNat = segmentPlace flash part n + 8 := by
        rw [BitVec.toNat_add, place]
        exact Nat.mod_eq_of_lt (by change segmentPlace flash part n + 8 < 2 ^ 32; omega)
      have whole : (segmentAt (.of flash) part n).dataLen.toNat % 4 = 0 := by
        rw [length]
        exact held.whole n (by omega)
      have chunks := fold_chunkWords flash whole (by rw [data, length]; omega) (c := 0) (Nat.zero_add _).symm
        (checksumAt (.of flash) part n)
      rw [data, length, Nat.mul_zero, Nat.add_zero, Nat.sub_zero, ih (by omega)] at chunks
      rw [checksumAt_succ, segmentWords_eq, List.range_succ, List.flatMap_append, List.foldl_append, List.flatMap_singleton]
      rw [length]
      exact chunks

variable (held : ImageHeld flash part)
include held

theorem endAddr_exact : (endAddr (.of flash) part).toNat = segmentPlace flash part (segmentCountAt flash part) :=
  segmentAddr_exact held (Nat.le_refl _)

theorem unpadded_exact :
    (endAddr (.of flash) part - part.offset).toNat =
        segmentPlace flash part (segmentCountAt flash part) - part.offset.toNat ∧
      part.offset.toNat + 8 ≤ segmentPlace flash part (segmentCountAt flash part) := by
  have start : part.offset.toNat + 8 ≤ segmentPlace flash part (segmentCountAt flash part) :=
    segmentPlace_mono (Nat.zero_le _)
  have place := endAddr_exact held
  refine ⟨?_, start⟩
  rw [BitVec.toNat_sub_of_le (by rw [BitVec.le_def, place]; omega), place]

variable (header : HeaderAccepted (.of flash) part)
include header

theorem segments_read {k : Nat} (inside : k < segmentCountAt flash part) : SegmentRead (.of flash) part k := by
  have length := dataLen_exact held (Nat.le_of_lt inside)
  have within := data_inside inside
  have size : part.size.toNat ≤ 0x1000000 := header.size
  have fits := held.inside
  have start : part.offset.toNat ≤ segmentPlace flash part k :=
    Nat.le_trans (Nat.le_add_right _ 8) (segmentPlace_mono (Nat.zero_le k))
  refine ⟨⟨?_, rfl⟩, ?_⟩
  · rw [length]
    exact held.whole k inside
  · rw [length]
    omega

theorem last_exact :
    (endAddr (.of flash) part).toNat + ((endAddr (.of flash) part - part.offset + 1 + 15 &&& ~~~(15 : Word)) -
      (endAddr (.of flash) part - part.offset) - 1).toNat = part.offset.toNat + paddedLength flash part - 1 := by
  obtain ⟨unpadded, start⟩ := unpadded_exact held
  have size : part.size.toNat ≤ 0x1000000 := header.size
  have fits := held.inside
  have padded := padded_toNat (unpadded.trans (Nat.mod_eq_of_lt (by
    have : segmentPlace flash part (segmentCountAt flash part) < _ := lastPlace_lt
    omega)).symm)
  change _ = paddedLength flash part % 2 ^ 32 at padded
  rw [Nat.mod_eq_of_lt (by omega)] at padded
  have ends : segmentPlace flash part (segmentCountAt flash part) < _ := lastPlace_lt
  have one : (1 : Word).toNat = 1 := rfl
  rw [endAddr_exact held, BitVec.toNat_sub_of_le, BitVec.toNat_sub_of_le, padded, unpadded, one]
  · omega
  · rw [BitVec.le_def, padded, unpadded]
    omega
  · rw [BitVec.le_def, BitVec.toNat_sub_of_le, padded, unpadded, one]
    · omega
    · rw [BitVec.le_def, padded, unpadded]
      omega

theorem compared_iff_right :
    foldWord (checksumAt (.of flash) part (segmentCountAt flash part)) =
        flash ((endAddr (.of flash) part).toNat + ((endAddr (.of flash) part - part.offset + 1 + 15 &&& ~~~(15 : Word)) -
          (endAddr (.of flash) part - part.offset) - 1).toNat) ↔
      ChecksumRight flash part := by
  rw [last_exact held header, checksum_exact held (Nat.le_refl _)]
  exact eq_comm

theorem accepted_iff_right : ImageAccepted (.of flash) part ↔ ChecksumRight flash part := by
  rw [← compared_iff_right held header]
  constructor
  · intro accepted
    exact accepted.checksum
  · intro checksum
    have size : part.size.toNat ≤ 0x1000000 := header.size
    have fits := held.inside
    refine ⟨header, fun k inside => (segments_read held header inside).1, ?_, checksum, ?_⟩
    · rw [BitVec.le_def, endAddr_exact held]
      have start := (unpadded_exact held).2
      omega
    · rw [← paddedLength_eq held, Nat.mod_eq_of_lt (by omega)]
      exact fits

theorem verify_iff_right :
    (∃ length, (verifyChecksum flash (checksumAt (.of flash) part (segmentCountAt flash part)) part.offset
        (endAddr (.of flash) part - part.offset)).run = some (.ok length)) ↔ ChecksumRight flash part := by
  have back : part.offset + (endAddr (.of flash) part - part.offset) = endAddr (.of flash) part := by
    rw [BitVec.add_comm, BitVec.sub_add_cancel]
  have place : (endAddr (.of flash) part).toNat % 4 = 0 :=
    segmentAddr_aligned header.aligned fun k inside => (segments_read held header inside).1
  have whole : (endAddr (.of flash) part - part.offset).toNat % 4 = 0 := by
    have aligned := header.aligned
    have start := (unpadded_exact held).2
    rw [endAddr_exact held] at place
    rw [(unpadded_exact held).1]
    omega
  rw [← compared_iff_right held header, verifyChecksum_eq (by rw [back]; exact place) whole, back]
  split
  · rename_i differs
    refine iff_of_false ?_ differs
    rintro ⟨length, accepted⟩
    cases accepted
  · rename_i same
    exact iff_of_true ⟨_, rfl⟩ (not_not.mp same)

end

/-- With an image inside its partition `verify_checksum` accepts, in the call the loader makes, exactly when the last
byte of the padded image is the XOR of `0xEF` and all data. -/
theorem image_checksum (flash : Memory) (part : EspPartitionPos) (held : ImageHeld flash part) :
    ChecksumOfFormat flash part where
  accepts fuel checksumWord unpaddedLength called := by
    obtain ⟨header, done, loop, -, rfl, rfl⟩ := called
    have read (j : Nat) (inside : j < 0 + segmentCountAt flash part) : SegmentRead (.of flash) part j :=
      segments_read held header (by omega)
    rcases segmentLoop_ends header.aligned fuel read with ends | ⟨runsOn, -⟩
    · have same := loop.symm.trans ends
      cases same
      rw [Nat.zero_add]
      exact verify_iff_right held header
    · have differs := loop.symm.trans runsOn
      cases differs
  called aligned size := by
    have header : HeaderAccepted (.of flash) part := ⟨size, aligned, held.magic, held.count⟩
    have read (j : Nat) (inside : j < 0 + segmentCountAt flash part) : SegmentRead (.of flash) part j :=
      segments_read held header (by omega)
    refine ⟨2 ^ 22, fun fuel enough => ⟨?_, ?_⟩⟩
    · rcases segmentLoop_ends header.aligned fuel read with ends | ⟨-, few⟩
      · refine ⟨_, _, header, _, ends, ?_, rfl, rfl⟩
        have start := (unpadded_exact held).2
        have place := endAddr_exact held
        rw [Nat.zero_add]
        exact BitVec.not_lt.mpr (by rw [BitVec.le_def]; exact Nat.le_trans (by omega) (Nat.le_of_eq place.symm))
      · omega
    · have accepted := accepted_iff_right held header
      have ran := loop_done header (fun j inside => segments_read held header inside) fuel
      rw [← accepted, ran.resolve_right (by omega)]
      rcases finishLoad_cases header fun j inside => (segments_read held header inside).1 with
        ⟨right, length, -, ends⟩ | ⟨wrong, e, ends⟩
      · exact iff_of_true ⟨_, ends⟩ right
      · refine iff_of_false ?_ wrong
        rintro ⟨data, loaded⟩
        rw [ends] at loaded
        cases loaded

def smallImage : Memory :=
  Memory.store (fun _ => 0) 0x10000 [0xE9, 1, 0, 0, 0, 0, 0, 0, 0, 0, 0, 0, 4, 0, 0, 0, 1, 2, 3, 4, 0, 0, 0, 0, 0, 0, 0, 0, 0, 0, 0,
    0xEB]

theorem small_image_checksum :
    ImageHeld smallImage ⟨0x10000, 0x1000⟩ ∧ ChecksumOfFormat smallImage ⟨0x10000, 0x1000⟩ := by
  have held : ImageHeld smallImage ⟨0x10000, 0x1000⟩ := by
    constructor <;> decide
  exact ⟨held, image_checksum smallImage ⟨0x10000, 0x1000⟩ held⟩

example : ChecksumRight smallImage ⟨0x10000, 0x1000⟩ := by
  unfold ChecksumRight
  decide

end EspFirmware.Proof.Boot
