import EspFirmware.Boot.Loader

/-!
What the bootloader can make of a partition table: the records it keeps, the ones it can reach from the
index it starts at, and what booting is to achieve.
-/

namespace EspFirmware.Spec
open EspFirmware.Boot EspFirmware.Lib

def bootIndex (part : EspPartitionInfo) : Option Int :=
  if part.type ≠ PART_TYPE_APP then none
  else if part.subtype = PART_SUBTYPE_FACTORY then some FACTORY_INDEX
  else if part.subtype = PART_SUBTYPE_TEST then some TEST_APP_INDEX
  else if 0x10 ≤ part.subtype.toNat ∧ part.subtype.toNat < 0x20 then some (part.subtype.toNat - 0x10 : Nat)
  else none

def isOtaApp (part : EspPartitionInfo) : Bool :=
  decide (part.type = PART_TYPE_APP ∧ 0x10 ≤ part.subtype.toNat ∧ part.subtype.toNat < 0x20)

def isOtaData (part : EspPartitionInfo) : Bool :=
  decide (part.type = PART_TYPE_DATA ∧ part.subtype = PART_SUBTYPE_DATA_OTA)

def partitions (table : RawTable) (num : Nat) : List EspPartitionInfo := (List.range num).map table

section
variable (chipSize : Nvs.Word)

/-- The verification goes on after a record: a partition within the chip, modulo `2 ^ 32`, or an MD5 record. -/
def PassesOver (part : EspPartitionInfo) : Prop :=
  part.magic = ESP_PARTITION_MAGIC ∧ part.pos.offset ≤ chipSize ∧ part.pos.offset + part.pos.size ≤ chipSize ∨
    part.magic = ESP_PARTITION_MAGIC_MD5

def IsEndMark (part : EspPartitionInfo) : Prop :=
  part.magic = 0xFFFF ∧ part.type = PART_TYPE_END ∧ part.subtype = PART_SUBTYPE_END

variable (table : RawTable)

def TableOnChip (num : Nat) : Prop :=
  num < ESP_PARTITION_TABLE_MAX_ENTRIES ∧ ∀ i < num, (table i).magic = ESP_PARTITION_MAGIC ∧
    (table i).pos.offset.toNat + (table i).pos.size.toNat ≤ chipSize.toNat

/-- Where the verification can come to an end mark, there is no MD5 record before it and no record whose end runs
over. -/
def OnChipWhen : Prop :=
  ∀ n < ESP_PARTITION_TABLE_MAX_ENTRIES, IsEndMark (table n) → (∀ i < n, PassesOver chipSize (table i)) →
    ∀ i < n, (table i).magic ≠ ESP_PARTITION_MAGIC_MD5 ∧
      (table i).pos.offset.toNat + (table i).pos.size.toNat < 2 ^ 32

end

def lastPos (p : EspPartitionInfo → Bool) (parts : List EspPartitionInfo) : EspPartitionPos :=
  parts.foldl (fun pos part => if p part then part.pos else pos) ⟨0, 0⟩

def Kept (parts : List EspPartitionInfo) (part : EspPartitionInfo) : Prop :=
  ∃ before after, parts = before ++ part :: after ∧ ∀ later ∈ after, bootIndex later ≠ bootIndex part

abbrev NULL_MAPPED : Nvs.Word := 0xBFF00000

def OtaDataUsed (parts : List EspPartitionInfo) : Prop :=
  (lastPos isOtaData parts).offset ≠ 0 ∧ 2 * 0x1000 ≤ (lastPos isOtaData parts).size ∧
    (lastPos isOtaData parts).offset ≠ NULL_MAPPED

def OtaDataRefused (parts : List EspPartitionInfo) : Prop :=
  (lastPos isOtaData parts).offset ≠ 0 ∧
    ((lastPos isOtaData parts).size < 2 * 0x1000 ∨ (lastPos isOtaData parts).offset = NULL_MAPPED)

def OtaDataMapped (address : Nvs.Word) : Prop :=
  address.toNat + 0x1020 ≤ 0x100000 ∨ 0x100000 ≤ address.toNat ∧ address.toNat + 0x1020 ≤ 0x200000

instance (address : Nvs.Word) : Decidable (OtaDataMapped address) := inferInstanceAs (Decidable (_ ∨ _ ∧ _))

def mappedSelects (unmapped : Memory) (flash : Flash) (address : Nvs.Word) : OtaSelect × OtaSelect :=
  let (space, otaSelectMap) := bootloaderMmap unmapped flash address
  readSelects space otaSelectMap

def topSeq (selects : OtaSelect × OtaSelect) : Option Nvs.Word :=
  if selects.1.Valid ∧ selects.2.Valid then some (OTA_MAX selects.1.otaSeq selects.2.otaSeq)
  else if selects.1.Valid then some selects.1.otaSeq
  else if selects.2.Valid then some selects.2.otaSeq
  else none

def Unnumbered (selects : OtaSelect × OtaSelect) : Prop :=
  selects.1.otaSeq = UINT32_MAX ∧ selects.2.otaSeq = UINT32_MAX

instance (selects : OtaSelect × OtaSelect) : Decidable (Unnumbered selects) := inferInstanceAs (Decidable (_ ∧ _))

def OtaDataValid (selects : OtaSelect × OtaSelect) : Prop := selects.1.Valid ∨ selects.2.Valid

instance (selects : OtaSelect × OtaSelect) : Decidable (OtaDataValid selects) := inferInstanceAs (Decidable (_ ∨ _))

section
variable {Metadata : Type} (load : EspPartitionPos → Option Metadata) (unmapped : Memory)

def HoldsImage (part : EspPartitionInfo) (data : Metadata) : Prop :=
  (bootIndex part).isSome ∧ part.pos.size ≠ 0 ∧ load part.pos = some data

/-- If any partition holds an image, the search that starts at the selected index ends with the image of
one, and that is the selected one if it holds an image. -/
def BootsImage (bs : BootloaderState) (parts : List EspPartitionInfo) (flash : Flash) : Prop :=
  (∃ part ∈ parts, ∃ data, HoldsImage load part data) →
    ∃ index data, bootloaderUtilityGetSelectedBootPartition unmapped bs flash = some index ∧
      bootloaderUtilityLoadBootImage load bs index = some data ∧
      (∃ part ∈ parts, HoldsImage load part data) ∧
      ∀ selected, tryLoadPartition load (indexToPartition bs index) = some selected → data = selected

def InReach (parts : List EspPartitionInfo) (part : EspPartitionInfo) : Prop :=
  Kept parts part ∧
    (bootIndex part = some TEST_APP_INDEX ∨
      ¬ OtaDataRefused parts ∧ ∀ index ∈ bootIndex part, index < (parts.countP isOtaApp : Nat))

/-- No record that the bootloader reads selects a slot where there is none, and an image is in reach if there is one
at all. -/
def BootsWhen (parts : List EspPartitionInfo) (flash : Flash) : Prop :=
  (∃ part ∈ parts, ∃ data, HoldsImage load part data) →
    (OtaDataUsed parts → OtaDataValid (mappedSelects unmapped flash (lastPos isOtaData parts).offset) →
      ∃ part ∈ parts, isOtaApp part) ∧
    ∃ part, InReach parts part ∧ ∃ data, HoldsImage load part data

end

def entries (parts : List EspPartitionInfo) : List EspPartitionInfo :=
  parts.takeWhile fun part => decide (part.magic = ESP_PARTITION_MAGIC)

/-- The application lists a partition with this property, and all partitions that have it are in one place. -/
def PlacedAt (parts : List EspPartitionInfo) (p : EspPartitionInfo → Prop) (pos : EspPartitionPos) : Prop :=
  (∃ part ∈ entries parts, p part) ∧ ∀ part ∈ parts, p part → part.pos = pos

def Indexed (index : Int) (part : EspPartitionInfo) : Prop := bootIndex part = some index

def Numbered (parts : List EspPartitionInfo) (n : Nat) : Prop :=
  List.Perm ((parts.filter isOtaApp).map fun part => part.subtype.toNat - 0x10) (List.range n) ∧
    ∀ part ∈ parts, isOtaApp part → part ∈ entries parts

def SlotsRunOn (parts : List EspPartitionInfo) : Prop :=
  ∀ k < 17, ∃ part ∈ entries parts, part.type = PART_TYPE_APP ∧ part.subtype.toNat = 0x10 + k

def NoApp (parts : List EspPartitionInfo) : Prop := ∀ part ∈ entries parts, bootIndex part = none

/-- `esp_ota_get_boot_partition` ends, and the partition it returns is in the place of the index the
bootloader selects. -/
def BootAgrees (unmapped : Memory) (list : List EspPartition) (bs : BootloaderState) (flash : Flash) : Prop :=
  ∃ result, espOtaGetBootPartition list flash = some result ∧
    ∀ partition, result = some partition →
      ∃ index, bootloaderUtilityGetSelectedBootPartition unmapped bs flash = some index ∧
        indexToPartition bs index = ⟨partition.address, partition.size⟩

/-- With a valid record, the slots are numbered alike. Without one there is one factory app, or no app at
all; where no record has a number, `ota_0` does as well if there is no factory app. -/
def DefaultAgrees (parts : List EspPartitionInfo) (selects : OtaSelect × OtaSelect) : Prop :=
  NoApp parts ∨ (∃ pos, PlacedAt parts (Indexed FACTORY_INDEX) pos ∧ (Unnumbered selects → pos.offset ≠ 0)) ∨
    Unnumbered selects ∧ (∀ part ∈ parts, ¬ Indexed FACTORY_INDEX part) ∧ ∃ pos, PlacedAt parts (Indexed 0) pos

def AgreesWhen (parts : List EspPartitionInfo) (flash : Flash) : Prop :=
  ∃ info, PlacedAt parts (fun part => isOtaData part) info ∧ info.offset ≠ 0 ∧ 2 * 0x1000 ≤ info.size ∧
    OtaDataMapped info.offset ∧ ¬ SlotsRunOn parts ∧
    (OtaDataValid (readSelects flash info.offset) → ∃ n, n ≠ 0 ∧ Numbered parts n) ∧
    (¬ OtaDataValid (readSelects flash info.offset) → DefaultAgrees parts (readSelects flash info.offset))

/-- A table as one would write it: the OTA apps numbered through, one OTA data partition of two sectors in reach, at
most one factory app, no app at the start of the flash, and no record with another magic that looks like
one of these. -/
structure PlainTable (parts : List EspPartitionInfo) : Prop where
  numbered : ∃ n, Numbered parts n
  otaData : ∃ info, PlacedAt parts (fun part => isOtaData part) info ∧ info.offset ≠ 0 ∧ 2 * 0x1000 ≤ info.size ∧
    OtaDataMapped info.offset
  factory : (∀ part ∈ parts, ¬ Indexed FACTORY_INDEX part) ∨ ∃ pos, PlacedAt parts (Indexed FACTORY_INDEX) pos
  offsets : ∀ part ∈ parts, (bootIndex part).isSome → part.pos.offset ≠ 0

end EspFirmware.Spec
