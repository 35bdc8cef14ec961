import EspFirmware.Lib.Prog
import EspFirmware.Boot.PartitionTable

/-!
The OTA data of the running application (`esp_ota_ops.c`): two records in two flash sectors, of which the
one with the higher sequence number says which slot boots.
-/

namespace EspFirmware.Boot

open Lib
open Nvs (Byte Word wordBytes crc32Le)

def UINT32_MAX : Word := 0xFFFFFFFF

abbrev ESP_PARTITION_TYPE_APP : Byte := 0x00
abbrev ESP_PARTITION_TYPE_DATA : Byte := 0x01
abbrev ESP_PARTITION_SUBTYPE_APP_FACTORY : Nat := 0x00
abbrev ESP_PARTITION_SUBTYPE_APP_OTA_MIN : Nat := 0x10
abbrev ESP_PARTITION_SUBTYPE_APP_OTA_MAX : Nat := 0x20
abbrev ESP_PARTITION_SUBTYPE_APP_TEST : Nat := 0x20
abbrev ESP_PARTITION_SUBTYPE_DATA_OTA : Nat := 0x00

abbrev Flash := Memory

abbrev FlashProg := Prog Unit Flash EspErr

def programWord (a : Nat) (w : Word) (flash : Flash) : Flash := flash.store32 a (flash.load32 a &&& w)

def eraseSector (sec : Nat) (flash : Flash) : Flash := flash.fill (sec * SPI_FLASH_SEC_SIZE) SPI_FLASH_SEC_SIZE 0xFF

def spiFlashEraseSector (chipSize : Word) (sec : Nat) : FlashProg Unit :=
  if sec ≥ chipSize.toNat / SPI_FLASH_SEC_SIZE then .throw .flashOpFail else .write (eraseSector sec)

def eraseSectors (chipSize : Word) : (num sec : Nat) → FlashProg Unit
  | 0, _ => pure ()
  | num + 1, sec => do
      spiFlashEraseSector chipSize sec
      eraseSectors chipSize num (sec + 1)

/-- `spi_flash_erase_range`. The number of sectors is counted down to zero after the first one is erased,
so that no sector means `2 ^ 32` of them. -/
def spiFlashEraseRange (chipSize startAddress size : Word) : FlashProg Unit :=
  if startAddress.toNat % SPI_FLASH_SEC_SIZE ≠ 0 ∨ size.toNat % SPI_FLASH_SEC_SIZE ≠ 0 then .throw .flashOpFail
  else
    let num := size.toNat / SPI_FLASH_SEC_SIZE
    eraseSectors chipSize (if num = 0 then 2 ^ 32 else num) (startAddress.toNat / SPI_FLASH_SEC_SIZE)

def writeWords : List Word → Nat → FlashProg Unit
  | [], _ => pure ()
  | w :: rest, a => do
      Prog.write (programWord a w)
      writeWords rest (a + 4)

def spiFlashWrite (chipSize destAddr : Word) (src : List Word) : FlashProg Unit :=
  if src = [] then pure ()
  else if destAddr + BitVec.ofNat 32 (4 * src.length) > chipSize then .throw .flashOpFail
  else writeWords src destAddr.toNat

def espPartitionWrite (chipSize : Word) (partition : EspPartition) (dstOffset : Word) (src : List Word) :
    FlashProg Unit :=
  if dstOffset > partition.size then .throw .invalidArg
  else if dstOffset + BitVec.ofNat 32 (4 * src.length) > partition.size then .throw .invalidSize
  else spiFlashWrite chipSize (partition.address + dstOffset) src

def espPartitionEraseRange (chipSize : Word) (partition : EspPartition) (startAddr size : Word) : FlashProg Unit :=
  if startAddr > partition.size then .throw .invalidArg
  else if startAddr + size > partition.size then .throw .invalidSize
  else if size.toNat % SPI_FLASH_SEC_SIZE ≠ 0 then .throw .invalidSize
  else if startAddr.toNat % SPI_FLASH_SEC_SIZE ≠ 0 then .throw .invalidArg
  else spiFlashEraseRange chipSize (partition.address + startAddr) size

structure OtaSelect where
  otaSeq : Word
  seqLabel : List Word
  crc : Word
  deriving DecidableEq, Repr

namespace OtaSelect

def read (flash : Flash) (a : Nat) : OtaSelect where
  otaSeq := flash.load32 a
  seqLabel := (List.range 6).map fun k => flash.load32 (a + 4 + 4 * k)
  crc := flash.load32 (a + 28)

def words (s : OtaSelect) : List Word := s.otaSeq :: s.seqLabel ++ [s.crc]

def selectCrc (s : OtaSelect) : Word := crc32Le UINT32_MAX (wordBytes s.otaSeq)

def Valid (s : OtaSelect) : Prop := s.otaSeq ≠ UINT32_MAX ∧ s.crc = s.selectCrc

instance (s : OtaSelect) : Decidable s.Valid := inferInstanceAs (Decidable (_ ∧ _))

end OtaSelect

/-- Both records of the OTA data that starts at an address, as `s_ota_select` holds them. -/
def readSelects (flash : Flash) (address : Word) : OtaSelect × OtaSelect :=
  (.read flash address.toNat, .read flash (address + 0x1000).toNat)

def OTA_MAX (a b : Word) : Word := if a ≥ b then a else b

def SUB_TYPE_ID (i : Nat) : Nat := i &&& 0x0F

/-- `rewrite_ota_seq` for a sector 0 or 1, where `s` is its record in `s_ota_select`. -/
def rewriteOtaSeq (chipSize seq : Word) (secId : Nat) (s : OtaSelect) (otaDataPartition : EspPartition) :
    FlashProg Unit := do
  if secId = 0 ∨ secId = 1 then
    let s := { s with otaSeq := seq }
    let s := { s with crc := s.selectCrc }
    espPartitionEraseRange chipSize otaDataPartition (BitVec.ofNat 32 (secId * SPI_FLASH_SEC_SIZE)) 4096
    espPartitionWrite chipSize otaDataPartition (BitVec.ofNat 32 (SPI_FLASH_SEC_SIZE * secId)) s.words
  else Prog.throw .invalidArg

/-- The loop of `get_ota_partition_count` with `16 - left` slots counted; the assertion in it fails when
seventeen subtypes in a row are there. -/
def otaPartitionCountFrom (list : List EspPartition) : (left : Nat) → Option Nat
  | 0 =>
      if (espPartitionFindFirst list ESP_PARTITION_TYPE_APP (ESP_PARTITION_SUBTYPE_APP_OTA_MIN + 16)).isSome then none
      else some 16
  | left + 1 =>
      if (espPartitionFindFirst list ESP_PARTITION_TYPE_APP
          (ESP_PARTITION_SUBTYPE_APP_OTA_MIN + (16 - (left + 1)))).isSome
      then otaPartitionCountFrom list left
      else some (16 - (left + 1))

/-- `get_ota_partition_count`, `none` where its assertion fails. -/
def getOtaPartitionCount (list : List EspPartition) : Option Nat := otaPartitionCountFrom list 16

/-- `while (seq > residue + i * count) i++`, `none` where it does not end. -/
def seqLoop (seq residue count : Word) : (fuel : Nat) → (i : Word) → Option Word
  | 0, _ => none
  | fuel + 1, i => if seq > residue + i * count then seqLoop seq residue count fuel (i + 1) else some i

def nextSeq (seq : Word) (x count : Nat) : Option Word :=
  let residue := BitVec.ofNat 32 ((x + 1) % count)
  (seqLoop seq residue (BitVec.ofNat 32 count) (2 ^ 32) 0).map fun i => residue + i * BitVec.ofNat 32 count

def rewriteAbove (chipSize seq : Word) (x count secId : Nat) (s : OtaSelect) (otaDataPartition : EspPartition) :
    FlashProg Unit :=
  match nextSeq seq x count with
  | none => .fault
  | some next => rewriteOtaSeq chipSize next secId s otaDataPartition

def espRewriteOtaData (chipSize : Word) (list : List EspPartition) (subtype : Nat) : FlashProg Unit :=
  match espPartitionFindFirst list ESP_PARTITION_TYPE_DATA ESP_PARTITION_SUBTYPE_DATA_OTA with
  | none => .throw .notFound
  | some otaData =>
      match getOtaPartitionCount list with
      | none => .fault
      | some count =>
          if SUB_TYPE_ID subtype ≥ count then .throw .invalidArg
          else do
            let flash ← Prog.read
            let (s0, s1) := readSelects flash otaData.address
            let x := SUB_TYPE_ID subtype
            if s0.Valid ∧ s1.Valid then
              let seq := OTA_MAX s0.otaSeq s1.otaSeq
              if s0.otaSeq ≥ s1.otaSeq then rewriteAbove chipSize seq x count 1 s1 otaData
              else rewriteAbove chipSize seq x count 0 s0 otaData
            else if s0.Valid then rewriteAbove chipSize s0.otaSeq x count 1 s1 otaData
            else if s1.Valid then rewriteAbove chipSize s1.otaSeq x count 0 s0 otaData
            else rewriteOtaSeq chipSize (BitVec.ofNat 32 (x + 1)) 0 s0 otaData

/-- `esp_ota_set_boot_partition`; `verifies` stands for `esp_image_load(ESP_IMAGE_VERIFY, ..)`. -/
def espOtaSetBootPartition (chipSize : Word) (verifies : EspPartitionPos → Bool) (list : List EspPartition)
    (partition : Option EspPartition) : FlashProg Unit :=
  match partition with
  | none => .throw .invalidArg
  | some partition =>
      if verifies ⟨partition.address, partition.size⟩ = false then .throw .otaValidateFailed
      else if partition.type = ESP_PARTITION_TYPE_APP then
        match espPartitionFindFirst list ESP_PARTITION_TYPE_DATA ESP_PARTITION_SUBTYPE_DATA_OTA with
        | none => .throw .notFound
        | some otaData =>
            if partition.subtype.toNat = ESP_PARTITION_SUBTYPE_APP_FACTORY then
              espPartitionEraseRange chipSize otaData 0 otaData.size
            else espRewriteOtaData chipSize list partition.subtype.toNat
      else .throw .invalidArg

def findDefaultBootPartition (list : List EspPartition) : Option EspPartition :=
  espPartitionFindFirst list ESP_PARTITION_TYPE_APP ESP_PARTITION_SUBTYPE_APP_FACTORY <|>
  (List.range' ESP_PARTITION_SUBTYPE_APP_OTA_MIN 16).findSome? (espPartitionFindFirst list ESP_PARTITION_TYPE_APP) <|>
  espPartitionFindFirst list ESP_PARTITION_TYPE_APP ESP_PARTITION_SUBTYPE_APP_TEST

/-- The partition a sequence number stands for; the outer `none` is a division by zero. -/
def partitionOfSeq (list : List EspPartition) (count : Nat) (seq : Word) : Option (Option EspPartition) :=
  if count = 0 then none
  else some (espPartitionFindFirst list ESP_PARTITION_TYPE_APP
    (ESP_PARTITION_SUBTYPE_APP_OTA_MIN + (seq - 1).toNat % count))

/-- `esp_ota_get_boot_partition`. The outer `none` is a failed assertion or a division by zero. -/
def espOtaGetBootPartition (list : List EspPartition) (flash : Flash) : Option (Option EspPartition) :=
  match espPartitionFindFirst list ESP_PARTITION_TYPE_DATA ESP_PARTITION_SUBTYPE_DATA_OTA with
  | none => some none
  | some otaData =>
      let (s0, s1) := readSelects flash otaData.address
      match getOtaPartitionCount list with
      | none => none
      | some count =>
          if s0.otaSeq = UINT32_MAX ∧ s1.otaSeq = UINT32_MAX then some (findDefaultBootPartition list)
          else if s0.Valid ∧ s1.Valid then partitionOfSeq list count (OTA_MAX s0.otaSeq s1.otaSeq)
          else if s0.Valid then partitionOfSeq list count s0.otaSeq
          else if s1.Valid then partitionOfSeq list count s1.otaSeq
          else some (findDefaultBootPartition list)

end EspFirmware.Boot
