import EspFirmware.Spec.Modbus

namespace EspFirmware.Proof.Modbus
open EspFirmware.Lib EspFirmware.Modbus

theorem tables_eq :
    (Vector.zipWith (fun lo hi => lo ++ hi) CRCLo CRCHi : Vector (BitVec 16) 256).toList = Crc.table 0xA001 := by
  rw [Vector.toList_zipWith]
  decide +kernel

theorem table_byte (b : BitVec 8) :
    Crc.bitSteps 0xA001 8 (b.setWidth 16) = CRCLo.get b.toFin ++ CRCHi.get b.toFin := by
  rw [← Crc.get_of_toList_eq tables_eq b]
  exact Vector.getElem_zipWith b.isLt

theorem byteStep_eq (ucCRCHi ucCRCLo b : BitVec 8) :
    Crc.byteStep 0xA001 (ucCRCHi ++ ucCRCLo) b =
      CRCLo.get (ucCRCLo ^^^ b).toFin ++ (ucCRCHi ^^^ CRCHi.get (ucCRCLo ^^^ b).toFin) := by
  have lowByte : ((ucCRCHi ++ ucCRCLo) ^^^ b.setWidth 16).setWidth 8 = ucCRCLo ^^^ b := by
    rw [BitVec.setWidth_xor, BitVec.setWidth_append_eq_right, BitVec.setWidth_setWidth_of_le _ (by decide),
      BitVec.setWidth_eq]
  have highByte : (ucCRCHi ++ ucCRCLo) >>> 8 = 0#8 ++ ucCRCHi := by
    apply BitVec.eq_of_getLsbD_eq
    intro i inside
    have up : ¬ 8 + i < 8 := by omega
    rw [BitVec.getLsbD_ushiftRight, BitVec.getLsbD_append, BitVec.getLsbD_append, if_neg up, Nat.add_sub_cancel_left]
    split
    · rfl
    · have beyond : ucCRCHi.getLsbD i = false := BitVec.getLsbD_of_ge _ _ (by omega)
      rw [beyond, BitVec.getLsbD_zero]
  rw [Crc.byteStep_table, lowByte, table_byte, highByte, BitVec.xor_append, BitVec.xor_zero, BitVec.xor_comm ucCRCHi]

theorem load_succ (m : Memory) (a n : Nat) : Memory.load m a (n + 1) = m a :: Memory.load m (a + 1) n := by
  rw [Nat.add_comm, Memory.load_append]
  rfl

theorem crcLoop_eq (m : Memory) (place length : Nat) (ucCRCHi ucCRCLo : BitVec 8) :
    crcLoop m place length ucCRCHi ucCRCLo =
      Crc.crc 0xA001 (ucCRCHi ++ ucCRCLo) (Memory.load m place length) := by
  induction length generalizing place ucCRCHi ucCRCLo with
  | zero => rfl
  | succ length ih =>
      rw [crcLoop, ih, load_succ, ← byteStep_eq]
      rfl

theorem modbusCrc16_eq (m : Memory) (length : BitVec 8) :
    modbusCrc16 m length = modbusCrc (Memory.load m 0 length.toNat) := crcLoop_eq m 0 length.toNat 0xFF 0xFF

theorem crcBytes_inj {a b : List (BitVec 8)} : crcBytes a = crcBytes b ↔ modbusCrc a = modbusCrc b := by
  constructor
  · intro same
    obtain ⟨lows, rest⟩ := List.cons.inj same
    have highs := (List.cons.inj rest).1
    apply BitVec.eq_of_getLsbD_eq
    intro i inside
    by_cases first : i < 8
    · have bit := congrArg (fun x => x.getLsbD i) lows
      simpa [low, first] using bit
    · have bit := congrArg (fun x => x.getLsbD (i - 8)) highs
      have back : 8 + (i - 8) = i := by omega
      simpa [high, back, show i - 8 < 8 by omega] using bit
  · intro same
    unfold crcBytes
    rw [same]

theorem crcAccepts_iff (rxBuf : Memory) (n : Nat) :
    crcAccepts rxBuf (n + 2) = true ↔ Memory.load rxBuf n 2 = crcBytes (Memory.load rxBuf 0 (n % 256)) := by
  have two : Memory.load rxBuf n 2 = [rxBuf n, rxBuf (n + 1)] := rfl
  unfold crcAccepts
  dsimp only
  rw [Nat.add_sub_cancel, show n + 2 - 1 = n + 1 from rfl, modbusCrc16_eq, BitVec.toNat_ofNat, two, Bool.and_eq_true,
    beq_iff_eq, beq_iff_eq, crcBytes, List.cons.injEq, List.cons.injEq]
  exact ⟨fun both => ⟨both.1.symm, both.2.symm, rfl⟩, fun all => ⟨all.1.symm, all.2.1.symm⟩⟩

theorem crcAccepts_store (stale : Memory) {bytes : List (BitVec 8)} {n : Nat} (length : bytes.length = n + 2)
    (short : n ≤ 255) : crcAccepts (Memory.store stale 0 bytes) (n + 2) = true ↔ bytes.drop n = crcBytes (bytes.take n) := by
  have whole := Memory.load_store stale 0 bytes
  rw [length, Memory.load_append, Nat.zero_add] at whole
  have front := Memory.length_load (Memory.store stale 0 bytes) 0 n
  rw [crcAccepts_iff, Nat.mod_eq_of_lt (by omega)]
  have first : (Memory.load (Memory.store stale 0 bytes) 0 n ++ Memory.load (Memory.store stale 0 bytes) n 2).take n = _ :=
    List.take_left' front
  have last : (Memory.load (Memory.store stale 0 bytes) 0 n ++ Memory.load (Memory.store stale 0 bytes) n 2).drop n = _ :=
    List.drop_left' front
  rw [whole] at first last
  rw [first, last]

theorem flip_ne (b : BitVec 8) {bit : Nat} (inside : bit < 8) : b ^^^ 1 <<< bit ≠ b := by
  have all : ∀ k : Fin 8, (1 : BitVec 8) <<< k.val ≠ 0 := by decide
  intro same
  exact all ⟨bit, inside⟩ ((BitVec.xor_right_inj b).mp (same.trans (BitVec.xor_zero).symm))

theorem length_frame (bytes : List (BitVec 8)) : (frame bytes).length = bytes.length + 2 := List.length_append

theorem take_frame (bytes : List (BitVec 8)) : (frame bytes).take bytes.length = bytes := List.take_left' rfl

theorem drop_frame (bytes : List (BitVec 8)) : (frame bytes).drop bytes.length = crcBytes bytes := List.drop_left' rfl

theorem crcAccepts_frame (stale : Memory) {bytes : List (BitVec 8)} (short : bytes.length ≤ 255) :
    crcAccepts (Memory.store stale 0 (frame bytes)) (bytes.length + 2) = true := by
  rw [crcAccepts_store stale (length_frame bytes) short, take_frame, drop_frame]

/-- The table gives the checksum, frames are accepted, and no frame is in which one bit is another. -/
theorem crc_detects_bits (bytes : List (BitVec 8)) (stale : Memory) (short : bytes.length ≤ 255) :
    modbusCrc16 (Memory.store stale 0 bytes) (BitVec.ofNat 8 bytes.length) = modbusCrc bytes ∧
      crcAccepts (Memory.store stale 0 (frame bytes)) (frame bytes).length = true ∧
      ∀ place bit, place < (frame bytes).length → bit < 8 →
        crcAccepts (Memory.store stale 0 (flipBit (frame bytes) place bit)) (frame bytes).length = false := by
  have top : (0xA001 : BitVec 16).getLsbD (16 - 1) = true := rfl
  refine ⟨?_, ?_, fun place bit inside isBit => ?_⟩
  · rw [modbusCrc16_eq, BitVec.toNat_ofNat, Nat.mod_eq_of_lt (by omega), Memory.load_store]
  · rw [length_frame]
    exact crcAccepts_frame stale short
  · have length : (flipBit (frame bytes) place bit).length = bytes.length + 2 :=
      List.length_set.trans (length_frame bytes)
    have below : place < bytes.length + 2 := length_frame bytes ▸ inside
    rw [length_frame, Bool.eq_false_iff, ne_eq, crcAccepts_store stale length short]
    unfold flipBit
    rw [List.getD_eq_getElem?_getD, List.getElem?_eq_getElem inside, Option.getD_some, List.drop_set, List.take_set, take_frame, drop_frame]
    by_cases before : place < bytes.length
    · have same : (frame bytes)[place] = bytes[place] := List.getElem_append_left before
      rw [if_pos before, same]
      intro accepted
      exact Crc.crc_set_ne top (show 8 ≤ 16 by decide) before (flip_ne _ isBit) (crcBytes_inj.mp accepted).symm
    · have here : place - bytes.length < (crcBytes bytes).length := by
        show place - bytes.length < 2
        omega
      have same : (frame bytes)[place] = (crcBytes bytes)[place - bytes.length] :=
        List.getElem_append_right (by omega)
      have message (b : BitVec 8) : bytes.set place b = bytes := List.set_eq_of_length_le (by omega)
      rw [if_neg before, message, same]
      intro accepted
      have other := congrArg (fun l => l[place - bytes.length]?) accepted
      rw [List.getElem?_set_self here, List.getElem?_eq_getElem here] at other
      exact flip_ne _ isBit (Option.some.inj other)

theorem crc_detects_bits_of_request :
    modbusCrc16 (Memory.store (fun _ => 0) 0 [1, 3, 0, 0, 0, 2]) 6 = modbusCrc [1, 3, 0, 0, 0, 2] ∧
      frame [1, 3, 0, 0, 0, 2] = [1, 3, 0, 0, 0, 2, 0xC4, 0x0B] ∧
      crcAccepts (Memory.store (fun _ => 0) 0 [1, 3, 0, 0, 0, 2, 0xC4, 0x0B]) 8 = true ∧
      crcAccepts (Memory.store (fun _ => 0) 0 [1, 3, 0, 0, 0, 3, 0xC4, 0x0B]) 8 = false := by
  have is : frame [1, 3, 0, 0, 0, 2] = [1, 3, 0, 0, 0, 2, 0xC4, 0x0B] := by decide +kernel
  obtain ⟨table, accepted, flipped⟩ := crc_detects_bits [1, 3, 0, 0, 0, 2] (fun _ => 0) (by decide)
  rw [is] at accepted flipped
  exact ⟨table, is, accepted, flipped 5 0 (by decide) (by decide)⟩

end EspFirmware.Proof.Modbus
