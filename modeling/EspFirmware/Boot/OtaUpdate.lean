import EspFirmware.Boot.SpiFlash

/-!
The slot an update goes to (`esp_ota_get_next_update_partition`), and how its image is written there
(`esp_ota_begin`, `esp_ota_write`).
-/

namespace EspFirmware.Boot

open Lib
open Nvs (Byte Word)
open SpiFlash (SpiRom SpiCalls SpiProg)

abbrev ESP_PARTITION_SUBTYPE_ANY : Nat := 0xff

/-! ## Pointers to partitions

A pointer to a partition of `s_partition_list` is its place in the list. -/

def matchesItem (type : Byte) (subtype : Nat) (label : Option (List Byte)) (p : EspPartition) : Bool :=
  decide (p.type = type ∧ (subtype = ESP_PARTITION_SUBTYPE_ANY ∨ p.subtype.toNat = subtype) ∧
    (label = none ∨ label = some p.label))

def espPartitionFind (list : List EspPartition) (type : Byte) (subtype : Nat) (label : Option (List Byte)) : List Nat :=
  (List.range list.length).filter fun i => list[i]?.any (matchesItem type subtype label)

def espPartitionVerify (list : List EspPartition) (partition : EspPartition) : Option Nat :=
  let label := if partition.label.length > 0 then some partition.label else none
  (espPartitionFind list partition.type partition.subtype.toNat label).find? fun i =>
    list[i]?.any fun p => decide (p.address = partition.address ∧ partition.size = p.size)

/-- `esp_ota_get_running_partition` of the code at a place in flash, `none` where it aborts. -/
def espOtaGetRunningPartition (list : List EspPartition) (physOffs : Word) : Option Nat :=
  (espPartitionFind list ESP_PARTITION_TYPE_APP ESP_PARTITION_SUBTYPE_ANY none).find? fun i =>
    list[i]?.any fun p => decide (p.address ≤ physOffs ∧ p.address + p.size > physOffs)

def nextUpdateLoop (list : List EspPartition) (startFrom : Nat) : List Nat → Option Nat → Bool → Option Nat
  | [], defaultOta, _ => defaultOta
  | t :: rest, defaultOta, nextIsResult =>
      match (espPartitionFind list ESP_PARTITION_TYPE_APP t none).head? with
      | none => nextUpdateLoop list startFrom rest defaultOta nextIsResult
      | some p =>
          let defaultOta := if defaultOta = none then some p else defaultOta
          if p = startFrom then nextUpdateLoop list startFrom rest defaultOta true
          else if nextIsResult then some p
          else nextUpdateLoop list startFrom rest defaultOta nextIsResult

/-- `esp_ota_get_next_update_partition`, where the running code is at a place in flash. The outer `none` is a
failed assertion. -/
def espOtaGetNextUpdatePartition (list : List EspPartition) (physOffs : Word) (startFrom : Option EspPartition) :
    Option (Option Nat) :=
  let startFrom :=
    match startFrom with
    | none => espOtaGetRunningPartition list physOffs
    | some partition => espPartitionVerify list partition
  startFrom.map fun start =>
    nextUpdateLoop list start (List.range' ESP_PARTITION_SUBTYPE_APP_OTA_MIN 16) none false

def OTA_SIZE_UNKNOWN : Word := 0xFFFFFFFF

/-- An entry of the list of OTA operations. What only the ESP32 uses is left out. -/
structure OtaOpsEntry where
  handle : Word
  part : EspPartition
  erasedSize : Word
  wroteSize : Word
  deriving DecidableEq, Repr

/-- `s_ota_ops_entries_head` and `s_ota_ops_last_handle`, with the calls of the flash ROM so far. -/
structure OtaOps where
  spi : SpiCalls
  entries : List OtaOpsEntry
  lastHandle : Word
  deriving DecidableEq, Repr

abbrev OtaProg := Prog OtaOps Flash EspErr

namespace OtaOps

def onSpi {α : Type} (p : SpiProg α) : OtaProg α :=
  Prog.zoom OtaOps.spi (fun spi ops => { ops with spi }) id (fun flash _ => flash) p

def onFlash {α : Type} (p : FlashProg α) : OtaProg α :=
  Prog.zoom (fun _ => ()) (fun _ ops => ops) id (fun flash _ => flash) p

end OtaOps

def isOtaPartition (p : EspPartition) : Prop :=
  p.type = ESP_PARTITION_TYPE_APP ∧ p.subtype.toNat ≥ ESP_PARTITION_SUBTYPE_APP_OTA_MIN ∧
    p.subtype.toNat < ESP_PARTITION_SUBTYPE_APP_OTA_MAX

instance (p : EspPartition) : Decidable (isOtaPartition p) := inferInstanceAs (Decidable (_ ∧ _ ∧ _))

/-- `esp_ota_begin` for the code at a place in flash; the handle is what it returns through `out_handle`, and
`allocated` says whether there is memory for an entry. -/
def espOtaBegin (chipSize : Word) (allocated : Bool) (list : List EspPartition) (physOffs : Word)
    (partition : Option EspPartition) (imageSize : Word) (outHandle : Nat) : OtaProg Word :=
  match partition with
  | none => Prog.throw .invalidArg
  | some partition =>
      if outHandle = 0 then Prog.throw .invalidArg
      else
        match espPartitionVerify list partition with
        | none => Prog.throw .notFound
        | some i =>
            match list[i]? with
            | none => Prog.fault
            | some partition =>
                if ¬ isOtaPartition partition then Prog.throw .invalidArg
                else
                  match espOtaGetRunningPartition list physOffs with
                  | none => Prog.fault
                  | some running =>
                      if i = running then Prog.throw .otaPartitionConflict
                      else do
                        let whole := imageSize = 0 ∨ imageSize = OTA_SIZE_UNKNOWN
                        OtaOps.onFlash (espPartitionEraseRange chipSize partition 0
                          (if whole then partition.size else (imageSize / 4096 + 1) * 4096))
                        if allocated then do
                          let ops ← Prog.get
                          let handle := ops.lastHandle + 1
                          let newEntry := ⟨handle, partition, if whole then partition.size else imageSize, 0⟩
                          Prog.modify fun ops => { ops with entries := newEntry :: ops.entries, lastHandle := handle }
                          pure handle
                        else Prog.throw .noMem

def addWrote (handle size : Word) : List OtaOpsEntry → List OtaOpsEntry
  | [] => []
  | it :: rest =>
      if it.handle = handle then { it with wroteSize := it.wroteSize + size } :: rest
      else it :: addWrote handle size rest

def espOtaWrite (rom : SpiRom) (fuel : Nat) (chipSize handle : Word) (data : Nat) (bytes : List Byte) : OtaProg Unit :=
  if data = 0 then Prog.throw .invalidArg
  else do
    let ops ← Prog.get
    match ops.entries.find? fun it => it.handle = handle with
    | none => Prog.throw .invalidArg
    | some it =>
        if it.erasedSize = 0 then Prog.fault
        else if it.wroteSize = 0 ∧ bytes.length > 0 ∧ bytes.head? ≠ some 0xE9 then Prog.throw .otaValidateFailed
        else do
          OtaOps.onSpi (SpiFlash.espPartitionWrite rom fuel chipSize it.part it.wroteSize data (SpiFlash.bufferOf bytes)
            bytes.length)
          Prog.modify fun ops => { ops with entries := addWrote handle (BitVec.ofNat 32 bytes.length) ops.entries }

end EspFirmware.Boot
