import EspFirmware.Lib.CString
import EspFirmware.Lib.Memory
import EspFirmware.Nvs.Types

/-!
The partition table as the firmware reads it (`flash_partitions.c`, `partition.c`): records of 32 bytes
from flash, the check the bootloader makes of them, and the list the application keeps.
-/

namespace EspFirmware.Boot

open Lib
open Nvs (Byte Word)

inductive EspErr where
  | fail
  | invalidArg
  | invalidState
  | invalidSize
  | notFound
  | flashOpFail
  | otaValidateFailed
  | imageInvalid
  | otaPartitionConflict
  | noMem
  deriving DecidableEq, Repr

structure EspPartitionPos where
  offset : Word
  size : Word
  deriving DecidableEq, Repr

structure EspPartitionInfo where
  magic : BitVec 16
  type : Byte
  subtype : Byte
  pos : EspPartitionPos
  label : Vector Byte 16
  flags : Word
  deriving DecidableEq, Repr

abbrev RawTable := Nat → EspPartitionInfo

def ESP_PARTITION_MAGIC : BitVec 16 := 0x50AA
def ESP_PARTITION_MAGIC_MD5 : BitVec 16 := 0xEBEB
def PART_TYPE_APP : Byte := 0x00
def PART_SUBTYPE_FACTORY : Byte := 0x00
def PART_SUBTYPE_OTA_FLAG : Byte := 0x10
def PART_SUBTYPE_OTA_MASK : Byte := 0x0f
def PART_SUBTYPE_TEST : Byte := 0x20
def PART_TYPE_DATA : Byte := 0x01
def PART_SUBTYPE_DATA_OTA : Byte := 0x00
def PART_TYPE_END : Byte := 0xff
def PART_SUBTYPE_END : Byte := 0xff

abbrev SPI_FLASH_SEC_SIZE : Nat := 4096
abbrev ESP_PARTITION_TABLE_MAX_ENTRIES : Nat := 0xC00 / 32

def EspPartitionInfo.read (m : Memory) (a : Nat) : EspPartitionInfo where
  magic := m (a + 1) ++ m a
  type := m (a + 2)
  subtype := m (a + 3)
  pos := ⟨m.load32 (a + 4), m.load32 (a + 8)⟩
  label := .ofFn fun i => m (a + 12 + i)
  flags := m.load32 (a + 28)

/-- The loop of `esp_partition_table_basic_verify` with `left` rounds to go. Records with the MD5 magic
are passed over: the code that checks them and sets `md5_found` is switched off. -/
def basicVerifyFrom (chipSize : Word) (table : RawTable) : (left numParts : Nat) → Except EspErr Nat
  | 0, _ => .error .invalidState
  | left + 1, numParts =>
      let part := table numParts
      if part.magic = ESP_PARTITION_MAGIC then
        if part.pos.offset > chipSize ∨ part.pos.offset + part.pos.size > chipSize then .error .invalidSize
        else basicVerifyFrom chipSize table left (numParts + 1)
      else if part.magic = ESP_PARTITION_MAGIC_MD5 then basicVerifyFrom chipSize table left (numParts + 1)
      else if part.magic = 0xFFFF ∧ part.type = PART_TYPE_END ∧ part.subtype = PART_SUBTYPE_END then .ok numParts
      else .error .invalidState

def espPartitionTableBasicVerify (chipSize : Word) (table : RawTable) : Except EspErr Nat :=
  basicVerifyFrom chipSize table ESP_PARTITION_TABLE_MAX_ENTRIES 0

structure EspPartition where
  type : Byte
  subtype : Byte
  address : Word
  size : Word
  label : List Byte
  encrypted : Bool
  deriving DecidableEq, Repr

/-- A new list item. The assignment to `encrypted` is under an option that nothing defines, so the flag is
what the allocated memory holds. -/
def listItem (memory : Bool) (it : EspPartitionInfo) : EspPartition where
  type := it.type
  subtype := it.subtype
  address := it.pos.offset
  size := it.pos.size
  label := cString it.label.toList
  encrypted := memory

def loadPartitionsFrom (memory : Nat → Bool) (table : RawTable) : (left i : Nat) → List EspPartition
  | 0, _ => []
  | left + 1, i =>
      if (table i).magic ≠ ESP_PARTITION_MAGIC then []
      else listItem (memory i) (table i) :: loadPartitionsFrom memory table left (i + 1)

/-- `load_partitions`: all of the sector the table starts. `memory` is what the items are allocated in. -/
def loadPartitions (memory : Nat → Bool) (table : RawTable) : List EspPartition :=
  loadPartitionsFrom memory table (SPI_FLASH_SEC_SIZE / 32) 0

def espPartitionFindFirst (list : List EspPartition) (type : Byte) (subtype : Nat) : Option EspPartition :=
  list.find? fun p => decide (p.type = type ∧ (subtype = 0xff ∨ p.subtype.toNat = subtype))

end EspFirmware.Boot
