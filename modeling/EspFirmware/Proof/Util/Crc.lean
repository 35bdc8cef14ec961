import EspFirmware.Lib.Crc
import EspFirmware.Nvs.Types
import EspFirmware.Util.Crc

namespace EspFirmware.Proof.Util
open EspFirmware.Lib EspFirmware.Util

theorem crc_tables_eq :
    crc32_le_table.toList = Crc.table 0xEDB88320 ∧ crc16_le_table.toList = Crc.table 0x8408 ∧
      crc8_le_table.toList = Crc.table 0x8C := by decide +kernel

theorem crc32_le_table_eq : crc32_le_table.toList = Crc.table 0xEDB88320 := crc_tables_eq.1

theorem crc16_le_table_eq : crc16_le_table.toList = Crc.table 0x8408 := crc_tables_eq.2.1

theorem crc8_le_table_eq : crc8_le_table.toList = Crc.table 0x8C := crc_tables_eq.2.2

theorem crcLe_eq {w : Nat} {entries : Vector (BitVec w) 256} {poly : BitVec w} (is : entries.toList = Crc.table poly)
    (crc : BitVec w) (buf : List (BitVec 8)) : crcLe entries crc buf = ~~~ Crc.crc poly (~~~ crc) buf := by
  have step (crc : BitVec w) (b : BitVec 8) :
      entries.get ((crc ^^^ b.setWidth w).setWidth 8).toFin ^^^ crc >>> 8 = Crc.byteStep poly crc b := by
    rw [Crc.byteStep_table, Crc.get_of_toList_eq is]
  unfold crcLe Crc.crc
  simp only [step]

theorem espCrc8_eq (p : List (BitVec 8)) : espCrc8 p = Crc.crc 0x8C 0 p := by
  have step (crc b : BitVec 8) : crc8_le_table.get (crc ^^^ b).toFin = Crc.byteStep 0x8C crc b := by
    rw [Crc.get_of_toList_eq crc8_le_table_eq, BitVec.setWidth_eq]
    unfold Crc.byteStep
    rw [BitVec.setWidth_eq]
  unfold espCrc8 Crc.crc
  simp only [step]

theorem crcLe_append {w : Nat} (table : Vector (BitVec w) 256) (crc : BitVec w) (front back : List (BitVec 8)) :
    crcLe table (crcLe table crc front) back = crcLe table crc (front ++ back) := by
  unfold crcLe
  rw [BitVec.not_not, List.foldl_append]

theorem crcLe_flatten {w : Nat} (table : Vector (BitVec w) 256) (crc : BitVec w) (pieces : List (List (BitVec 8))) :
    pieces.foldl (crcLe table) crc = crcLe table crc pieces.flatten := by
  induction pieces generalizing crc with
  | nil => exact (BitVec.not_not).symm
  | cons piece pieces ih => rw [List.foldl_cons, ih, crcLe_append, List.flatten_cons]

/-- The tables give the bitwise checksums, and the checksum of pieces is that of the whole. -/
theorem crcs_bitwise_and_chain :
    (∀ crc buf, crc32Le crc buf = ~~~ Crc.crc 0xEDB88320 (~~~ crc) buf) ∧
      (∀ crc buf, crc16Le crc buf = ~~~ Crc.crc 0x8408 (~~~ crc) buf) ∧
      (∀ p, espCrc8 p = Crc.crc 0x8C 0 p) ∧
      (∀ crc (pieces : List (List (BitVec 8))), pieces.foldl crc32Le crc = crc32Le crc pieces.flatten) ∧
      (∀ crc (pieces : List (List (BitVec 8))), pieces.foldl crc16Le crc = crc16Le crc pieces.flatten) :=
  ⟨crcLe_eq crc32_le_table_eq, crcLe_eq crc16_le_table_eq, espCrc8_eq, crcLe_flatten crc32_le_table,
    crcLe_flatten crc16_le_table⟩

example : crc32Le 0 [0x31, 0x32, 0x33, 0x34, 0x35, 0x36, 0x37, 0x38, 0x39] = 0xCBF43926 := by decide

end EspFirmware.Proof.Util
