import EspFirmware.Boot.Ota

/-!
The second stage bootloader (`bootloader_utility.c`): what it keeps of the partition table, the index it
selects from the OTA data, and the search for an image that loads.
-/

namespace EspFirmware.Boot

open Lib
open Nvs (Byte Word)

abbrev MAX_OTA_SLOTS : Nat := 16
abbrev FACTORY_INDEX : Int := -1
abbrev TEST_APP_INDEX : Int := -2
abbrev INVALID_INDEX : Int := -99

structure BootloaderState where
  otaInfo : EspPartitionPos
  factory : EspPartitionPos
  test : EspPartitionPos
  ota : Nat → EspPartitionPos
  appCount : Nat

namespace BootloaderState

def zero : BootloaderState := ⟨⟨0, 0⟩, ⟨0, 0⟩, ⟨0, 0⟩, fun _ => ⟨0, 0⟩, 0⟩

def load (bs : BootloaderState) (partition : EspPartitionInfo) : BootloaderState :=
  if partition.type = PART_TYPE_APP then
    if partition.subtype = PART_SUBTYPE_FACTORY then { bs with factory := partition.pos }
    else if partition.subtype = PART_SUBTYPE_TEST then { bs with test := partition.pos }
    else if partition.subtype &&& ~~~ PART_SUBTYPE_OTA_MASK = PART_SUBTYPE_OTA_FLAG then
      { bs with
        ota := Function.update bs.ota (partition.subtype &&& PART_SUBTYPE_OTA_MASK).toNat partition.pos
        appCount := bs.appCount + 1 }
    else bs
  else if partition.type = PART_TYPE_DATA then
    if partition.subtype = PART_SUBTYPE_DATA_OTA then { bs with otaInfo := partition.pos } else bs
  else bs

end BootloaderState

def bootloaderUtilityLoadPartitionTable (chipSize : Word) (table : RawTable) : Except EspErr BootloaderState := do
  let numPartitions ← espPartitionTableBasicVerify chipSize table
  return ((List.range numPartitions).map table).foldl BootloaderState.load .zero

/-- `ota_seq % bs->app_count` on 32-bit unsigned numbers; `none` is a division by zero. -/
def otaSlot (bs : BootloaderState) (seq : Word) : Option Int :=
  if bs.appCount = 0 then none else some (((seq - 1).toNat % bs.appCount : Nat) : Int)

section
variable (unmapped : Memory) (flash : Flash)

/-- `Cache_Read_Enable(map, 0, 0)` of the ROM: megabyte `map` of the flash is read from `0x40200000` on, and the
other addresses hold what they did. -/
def cacheReadEnable (map : Nat) : Memory := fun x =>
  if 0x40200000 ≤ x ∧ x < 0x40300000 then flash (map * 0x100000 + (x - 0x40200000)) else unmapped x

/-- `bootloader_mmap` while nothing is mapped: the address space after it and the address it returns. -/
def bootloaderMmap (srcAddr : Word) : Memory × Word :=
  if srcAddr < 0x100000 then (cacheReadEnable unmapped flash 0, 0x40200000 + srcAddr)
  else (cacheReadEnable unmapped flash 1, 0x40200000 + (srcAddr - 0x100000))

end

/-- `bootloader_utility_get_selected_boot_partition`; `unmapped` is the address space without the flash. -/
def bootloaderUtilityGetSelectedBootPartition (unmapped : Memory) (bs : BootloaderState) (flash : Flash) : Option Int :=
  if bs.otaInfo.offset ≠ 0 then
    if bs.otaInfo.size < 2 * 0x1000 then some INVALID_INDEX
    else
      let (space, otaSelectMap) := bootloaderMmap unmapped flash bs.otaInfo.offset
      if otaSelectMap = 0 then some INVALID_INDEX
      else
        let (sa, sb) := readSelects space otaSelectMap
        if sa.otaSeq = UINT32_MAX ∧ sb.otaSeq = UINT32_MAX then
          if bs.factory.offset ≠ 0 then some FACTORY_INDEX else some 0
        else if sa.Valid ∧ sb.Valid then otaSlot bs (if sa.otaSeq > sb.otaSeq then sa.otaSeq else sb.otaSeq)
        else if sa.Valid then otaSlot bs sa.otaSeq
        else if sb.Valid then otaSlot bs sb.otaSeq
        else some FACTORY_INDEX
  else some FACTORY_INDEX

def indexToPartition (bs : BootloaderState) (index : Int) : EspPartitionPos :=
  if index = FACTORY_INDEX then bs.factory
  else if index = TEST_APP_INDEX then bs.test
  else if 0 ≤ index ∧ index < MAX_OTA_SLOTS ∧ index < bs.appCount then bs.ota index.toNat
  else ⟨0, 0⟩

section
variable {Metadata : Type}

def tryLoadPartition (load : EspPartitionPos → Option Metadata) (partition : EspPartitionPos) : Option Metadata :=
  if partition.size = 0 then none else load partition

def tryIndex (load : EspPartitionPos → Option Metadata) (bs : BootloaderState) (index : Int) : Option Metadata :=
  if (indexToPartition bs index).size = 0 then none else tryLoadPartition load (indexToPartition bs index)

def backwards (load : EspPartitionPos → Option Metadata) (bs : BootloaderState) (startIndex : Int) : Option Metadata :=
  (List.range (startIndex - FACTORY_INDEX + 1).toNat).findSome? fun (k : Nat) => tryIndex load bs (startIndex - k)

/-- `for (index = start_index + 1; index < bs->app_count; index++)`, where the comparison is unsigned. -/
def forwards (load : EspPartitionPos → Option Metadata) (bs : BootloaderState) (startIndex : Int) : Option Metadata :=
  if startIndex + 1 < 0 then none
  else (List.range (bs.appCount - (startIndex + 1)).toNat).findSome? fun (k : Nat) => tryIndex load bs (startIndex + 1 + k)

def bootloaderUtilityLoadBootImage (load : EspPartitionPos → Option Metadata) (bs : BootloaderState)
    (startIndex : Int) : Option Metadata :=
  if startIndex = TEST_APP_INDEX then tryLoadPartition load bs.test
  else backwards load bs startIndex <|> forwards load bs startIndex <|> tryLoadPartition load bs.test

end

end EspFirmware.Boot
