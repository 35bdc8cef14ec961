import Mathlib.Data.List.Rotate
import EspFirmware.Boot.OtaUpdate
import EspFirmware.Spec.Boot
import EspFirmware.Spec.SpiFlash

/-!
Runs of `esp_ota_set_boot_partition` on the OTA data: from erased sectors, by calls that succeed, or by
calls that the power may cut short after any of their flash steps.
-/

namespace EspFirmware.Spec
open EspFirmware.Boot EspFirmware.Lib

structure Device where
  chipSize : Nvs.Word
  verifies : EspPartitionPos → Bool
  memory : Nat → Bool
  table : RawTable

namespace Device
variable (dev : Device)

def list : List EspPartition := loadPartitions dev.memory dev.table

def setBoot (partition : EspPartition) : FlashProg Unit :=
  espOtaSetBootPartition dev.chipSize dev.verifies dev.list (some partition)

def Target (partition : EspPartition) (index : Int) : Prop :=
  partition ∈ dev.list ∧ partition.type = ESP_PARTITION_TYPE_APP ∧
    (index = FACTORY_INDEX ∧ partition.subtype.toNat = ESP_PARTITION_SUBTYPE_APP_FACTORY ∨
      ∃ k : Nat, k < 16 ∧ index = k ∧ partition.subtype.toNat = ESP_PARTITION_SUBTYPE_APP_OTA_MIN + k)

end Device

def OtaErased (info : EspPartitionPos) (flash : Flash) : Prop :=
  ∀ i < 4096, flash (info.offset.toNat + i) = 0xFF ∧ flash ((info.offset + 0x1000).toNat + i) = 0xFF

inductive SetRun (dev : Device) (info : EspPartitionPos) : Flash → Prop where
  | erased (flash : Flash) (erased : OtaErased info flash) : SetRun dev info flash
  | set {flash : Flash} (run : SetRun dev info flash) (partition : EspPartition) (index : Int)
      (target : dev.Target partition index) (ok : (dev.setBoot partition () flash).outcome = .ok ()) :
      SetRun dev info (dev.setBoot partition () flash).durable

inductive CutRun (dev : Device) (info : EspPartitionPos) : Flash → Prop where
  | erased (flash : Flash) (erased : OtaErased info flash) : CutRun dev info flash
  | cut {flash : Flash} (run : CutRun dev info flash) (partition : EspPartition) (index : Int)
      (target : dev.Target partition index) (count : Nat) (after : Flash)
      (stopped : (dev.setBoot partition).cutAfter count () flash = some after) : CutRun dev info after

/-- The OTA apps are `ota_0` to `ota_(n-1)`, and the OTA data is one partition of at least two sectors. -/
structure OtaTable (dev : Device) (parts : List EspPartitionInfo) (n : Nat) (info : EspPartitionPos)
    (bs : BootloaderState) : Prop where
  accepted : ∃ num, espPartitionTableBasicVerify dev.chipSize dev.table = .ok num ∧ parts = partitions dev.table num
  state : bootloaderUtilityLoadPartitionTable dev.chipSize dev.table = .ok bs
  numbered : Numbered parts n
  least : 1 ≤ n
  most : n ≤ 15
  otaData : PlacedAt parts (fun part => isOtaData part) info
  used : info.offset ≠ 0
  enough : 2 * 0x1000 ≤ info.size

def SeqsBelow (bound : Nat) (selects : OtaSelect × OtaSelect) : Prop :=
  (selects.1.Valid → selects.1.otaSeq.toNat < bound) ∧ (selects.2.Valid → selects.2.otaSeq.toNat < bound)

instance (bound : Nat) (selects : OtaSelect × OtaSelect) : Decidable (SeqsBelow bound selects) :=
  inferInstanceAs (Decidable ((_ → _) ∧ (_ → _)))

/-- Wherever the power goes out during the call, the bootloader selects what it selected before or the
new target. -/
def AtomicSwitch (unmapped : Memory) (dev : Device) (bs : BootloaderState) (flash : Flash) (partition : EspPartition)
    (index : Int) : Prop :=
  let selected := bootloaderUtilityGetSelectedBootPartition unmapped bs
  ∀ count after, (dev.setBoot partition).cutAfter count () flash = some after →
    selected after = selected flash ∨ selected after = some index

def SameSlot (n : Nat) (a b : Nvs.Word) : Prop := (a - 1).toNat % n = (b - 1).toNat % n

/-- To an OTA slot: a record is valid or there is a factory app, and the sequence number does not run over.
To the factory app: the first sector, which is erased first, does not hold the newer of two records for
different slots. -/
def SwitchesMapped (n : Nat) (bs : BootloaderState) (selects : OtaSelect × OtaSelect) (index : Int) : Prop :=
  if index = FACTORY_INDEX then
    bs.factory.offset ≠ 0 ∧
      (selects.1.Valid → selects.2.Valid → selects.1.otaSeq ≥ selects.2.otaSeq →
        SameSlot n selects.1.otaSeq selects.2.otaSeq)
  else
    (selects.1.Valid ∨ selects.2.Valid ∨ bs.factory.offset ≠ 0) ∧ SeqsBelow (2 ^ 32 - n) selects

/-- The bootloader reads both records, and what they hold allows the switch, or it reads neither of them. -/
def SwitchesWhen (n : Nat) (bs : BootloaderState) (info : EspPartitionPos) (flash : Flash) (index : Int) : Prop :=
  0x200000 ≤ info.offset.toNat ∨
    OtaDataMapped info.offset ∧ SwitchesMapped n bs (readSelects flash info.offset) index

section
variable (chipSize : Nvs.Word) (verifies : EspPartitionPos → Bool) (list : List EspPartition) (flash : Flash)
  (partition : EspPartition)

def setBootRan : Ran Unit Flash EspErr Unit :=
  espOtaSetBootPartition chipSize verifies list (some partition) () flash

/-- The call ends: with an error and the flash as it was, or with the partition as the one that boots. -/
def SetsWhatWasAsked : Prop :=
  (∃ e, (setBootRan chipSize verifies list flash partition).outcome = .err e ∧
      (setBootRan chipSize verifies list flash partition).durable = flash) ∨
    (setBootRan chipSize verifies list flash partition).outcome = .ok () ∧
      espOtaGetBootPartition list (setBootRan chipSize verifies list flash partition).durable = some (some partition)

/-- From the sequence number that decides on there is one for the slot, below the erased word. After number 0 the
last slot gets 0 again, which is the number before it modulo `2 ^ 32`. -/
def SeqFits (top : Option Nvs.Word) (x count : Nat) : Prop :=
  ∀ seq, top = some seq →
    (∃ number, seq.toNat ≤ number ∧ number < 2 ^ 32 - 1 ∧ number % count = (x + 1) % count) ∧
      (seq = 0 → x + 1 = count → count ∣ 2 ^ 32)

/-- There is no OTA data. Or the target is the first factory app and the OTA data does not end within a sector. Or it
is the first app of its slot and its number fits; where its slot is not counted, the call fails. -/
def AskedRight : Prop :=
  ∀ otaData, espPartitionFindFirst list ESP_PARTITION_TYPE_DATA ESP_PARTITION_SUBTYPE_DATA_OTA = some otaData →
    if partition.subtype.toNat = ESP_PARTITION_SUBTYPE_APP_FACTORY then
      otaData.size.toNat % SPI_FLASH_SEC_SIZE ≠ 0 ∨ getOtaPartitionCount list ≠ none ∧
        espPartitionFindFirst list ESP_PARTITION_TYPE_APP ESP_PARTITION_SUBTYPE_APP_FACTORY = some partition
    else
      ∃ count, getOtaPartitionCount list = some count ∧
        (count ≤ SUB_TYPE_ID partition.subtype.toNat ∨
          espPartitionFindFirst list ESP_PARTITION_TYPE_APP
              (ESP_PARTITION_SUBTYPE_APP_OTA_MIN + SUB_TYPE_ID partition.subtype.toNat) = some partition ∧
            SeqFits (topSeq (readSelects flash otaData.address)) (SUB_TYPE_ID partition.subtype.toNat) count)

end

end EspFirmware.Spec

/-!
What an update does: which slot it goes to, and what its image comes to there.
-/

namespace EspFirmware.Spec

open EspFirmware.Boot

def IsOtaSlot (p : EspPartition) : Prop :=
  p.type = ESP_PARTITION_TYPE_APP ∧ ESP_PARTITION_SUBTYPE_APP_OTA_MIN ≤ p.subtype.toNat ∧
    p.subtype.toNat < ESP_PARTITION_SUBTYPE_APP_OTA_MAX

instance (p : EspPartition) : Decidable (IsOtaSlot p) := inferInstanceAs (Decidable (_ ∧ _ ∧ _))

section
variable (list : List EspPartition) (physOffs : Nvs.Word)

def DistinctOtaSlots : Prop := list.Pairwise fun p q => IsOtaSlot p → IsOtaSlot q → p.subtype ≠ q.subtype

instance : Decidable (DistinctOtaSlots list) := inferInstanceAs (Decidable (List.Pairwise _ _))

structure SlotOrder (order : List Nat) : Prop where
  slots : ∀ i, i ∈ order ↔ ∃ p, list[i]? = some p ∧ IsOtaSlot p
  ascending : order.Pairwise fun i j => ∀ p q, list[i]? = some p → list[j]? = some q → p.subtype < q.subtype

def updates (start : Nat) : Nat → Option Nat
  | 0 => some start
  | k + 1 =>
      (updates start k).bind fun i => list[i]?.bind fun p => (espOtaGetNextUpdatePartition list physOffs (some p)).join

/-- The first partition in the place of this one, of the same type, and of the same label if this one has a label. -/
def firstInPlace (p : EspPartition) : Option EspPartition :=
  list.find? fun q => decide (q.type = p.type ∧ q.address = p.address ∧ q.size = p.size ∧
    (p.label = [] ∨ p.label = q.label))

/-- The subtype of the partition asks for any, and the first one in its place is a slot with another one above it. -/
def TakenForSlot (p : EspPartition) : Prop :=
  p.subtype.toNat = ESP_PARTITION_SUBTYPE_ANY ∧
    ∃ q, firstInPlace list p = some q ∧ IsOtaSlot q ∧ ∃ higher ∈ list, IsOtaSlot higher ∧ q.subtype < higher.subtype

/-- The calls go through the slots in turn, and start at the lowest but from a partition that is taken for a slot. -/
structure UpdatesRotate (order : List Nat) : Prop where
  visits : ∀ i (inside : i < order.length),
    (List.range order.length).map (updates list physOffs order[i]) = (order.rotate i).map some ∧
      updates list physOffs order[i] order.length = some order[i]
  lowest : ∀ p ∈ list, ¬ IsOtaSlot p →
    (espOtaGetNextUpdatePartition list physOffs (some p) = some order.head? ↔ ¬ TakenForSlot list p)
  moves : 2 ≤ order.length → ∀ i p, list[i]? = some p →
    espOtaGetNextUpdatePartition list physOffs (some p) ≠ some (some i)

end

structure OtaCall where
  src : Nat
  bytes : List Nvs.Byte

def OtaCall.Readable (c : OtaCall) : Prop := 0x3FF00000 ≤ c.src ∧ c.src + c.bytes.length ≤ 2 ^ 32

def image (calls : List OtaCall) : List Nvs.Byte := (calls.map OtaCall.bytes).flatten

structure UpdateTarget (chipSize : Nvs.Word) (list : List EspPartition) (physOffs : Nvs.Word) (p : EspPartition) :
    Prop where
  slot : IsOtaSlot p
  listed : p ∈ list
  notRunning : ∃ running, espOtaGetRunningPartition list physOffs = some running ∧
    espPartitionVerify list p ≠ some running
  address : p.address.toNat % SPI_FLASH_SEC_SIZE = 0
  size : p.size.toNat % SPI_FLASH_SEC_SIZE = 0
  inside : p.address.toNat + p.size.toNat ≤ chipSize.toNat
  mapped : chipSize.toNat ≤ SpiFlash.FLASH_SIZE

def writeAll (rom : SpiFlash.SpiRom) (fuel : Nat) (chipSize handle : Nvs.Word) : List OtaCall → OtaProg Unit
  | [] => pure ()
  | c :: rest => do
      espOtaWrite rom fuel chipSize handle c.src c.bytes
      writeAll rom fuel chipSize handle rest

def erasedBytes (imageSize : Nvs.Word) : Nat := (imageSize.toNat / SPI_FLASH_SEC_SIZE + 1) * SPI_FLASH_SEC_SIZE

def wroteSize (handle : Nvs.Word) (ops : OtaOps) : Option Nvs.Word :=
  (ops.entries.find? fun it => it.handle = handle).map OtaOpsEntry.wroteSize

section
variable (rom : SpiFlash.SpiRom) (chipSize : Nvs.Word) (list : List EspPartition) (physOffs : Nvs.Word)
  (p : EspPartition) (imageSize : Nvs.Word) (outHandle : Nat) (ops : OtaOps) (flash : Flash)

def begun : Lib.Ran OtaOps Flash EspErr Nvs.Word :=
  espOtaBegin chipSize true list physOffs (some p) imageSize outHandle ops flash

def streamed (fuel : Nat) (handle : Nvs.Word) (calls : List OtaCall) : Lib.Ran OtaOps Flash EspErr Unit :=
  let start := begun chipSize list physOffs p imageSize outHandle ops flash
  writeAll rom fuel chipSize handle calls start.volatile start.durable

/-- The image is erased for and written, and a last call that runs beyond the erased bytes is refused. -/
structure StreamsImage (calls : List OtaCall) (last : OtaCall) : Prop where
  begins : ∃ handle, (begun chipSize list physOffs p imageSize outHandle ops flash).outcome = .ok handle
  erases : ∀ x, p.address.toNat ≤ x → x < p.address.toNat + imageSize.toNat →
    (begun chipSize list physOffs p imageSize outHandle ops flash).durable x = 0xFF
  keeps : ∀ x, x < p.address.toNat ∨ p.address.toNat + p.size.toNat ≤ x →
    (begun chipSize list physOffs p imageSize outHandle ops flash).durable x = flash x
  writes : ∀ handle, (begun chipSize list physOffs p imageSize outHandle ops flash).outcome = .ok handle →
    ∃ enough, ∀ fuel ≥ enough,
      let after := streamed rom chipSize list physOffs p imageSize outHandle ops flash fuel handle calls
      after.outcome = .ok () ∧ Lib.Memory.load after.durable p.address.toNat (image calls).length = image calls
  refuses : ∀ handle, (begun chipSize list physOffs p imageSize outHandle ops flash).outcome = .ok handle →
    erasedBytes imageSize < (image calls).length + last.bytes.length → ∃ enough, ∀ fuel ≥ enough,
      let before := streamed rom chipSize list physOffs p imageSize outHandle ops flash fuel handle calls
      let after := espOtaWrite rom fuel chipSize handle last.src last.bytes before.volatile before.durable
      (∃ e, after.outcome = .err e) ∧ after.durable = before.durable ∧
        wroteSize handle after.volatile = wroteSize handle before.volatile

end

def CallsCounted (address : Nat) : List OtaCall → Prop
  | [] => True
  | c :: rest =>
      (Bounced address c.src c.bytes.length ∨
        (c.bytes.length - (SpiFlash.PAGE_SIZE - address % SpiFlash.PAGE_SIZE)) / SpiFlash.PAGE_SIZE < 2 ^ 8) ∧
        CallsCounted (address + c.bytes.length) rest

/-- There is a sector left behind the image, the calls can be counted, and the last call does not end between the
erased sectors and the end of the partition, but for a first call that begins no image. -/
structure StreamsWhen (p : EspPartition) (imageSize : Nvs.Word) (calls : List OtaCall) (last : OtaCall) : Prop where
  smaller : imageSize < p.size
  counted : CallsCounted p.address.toNat calls
  noGap : erasedBytes imageSize < (image calls).length + last.bytes.length →
    p.size.toNat < (image calls).length + last.bytes.length ∨ image calls = [] ∧ last.bytes.head? ≠ some 0xE9

end EspFirmware.Spec
