import EspFirmware.Tool.GenPart
import EspFirmware.Boot.PartitionTable

/-!
What becomes of a partition table on its way through a file: which names fit the binary form, what the
firmware is to read, and which tables the CSV form can hold.
-/

namespace EspFirmware.Spec
open EspFirmware.Tool EspFirmware.Lib
open EspFirmware.Boot (EspPartition EspPartitionInfo RawTable)
open EspFirmware.Nvs (Byte Word)

def NameFits (name : Text) : Prop :=
  (PartitionDefinition.encode name).length ≤ 16 ∧ 0 ∉ PartitionDefinition.encode name

def StartsWith (m : Lib.Memory) (b : List Byte) : Prop := ∀ j < b.length, m j = b.getD j 0

def rawTable (m : Lib.Memory) : RawTable := fun i => EspPartitionInfo.read m (32 * i)

def FitsChip (table : PartitionTable) (chipSize : Word) : Prop :=
  ∀ p ∈ table, ∀ offset ∈ p.offset, ∀ size ∈ p.size, offset + size ≤ chipSize.toNat

structure SameEntry (p : PartitionDefinition) (e : EspPartition) : Prop where
  type : p.type = some (e.type.toNat : Int)
  subtype : p.subtype = some (e.subtype.toNat : Int)
  offset : p.offset = some (e.address.toNat : Int)
  size : p.size = some (e.size.toNat : Int)
  label : PartitionDefinition.encode p.name = e.label
  encrypted : p.encrypted = e.encrypted

def ReadAlike (table : PartitionTable) (chipSize : Word) (memory : Nat → Bool) (raw : RawTable) : Prop :=
  Boot.espPartitionTableBasicVerify chipSize raw = .ok table.length ∧
    List.Forall₂ SameEntry table (Boot.loadPartitions memory raw)

structure CsvName (name : Text) : Prop where
  noComma : ',' ∉ name
  noHash : '#' ∉ name
  noDollar : '$' ∉ name
  oneLine : ∀ c ∈ name, isLineBreak c = false
  first : ∀ c, name.head? = some c → isBlank c = false
  last : ∀ c, name.getLast? = some c → isBlank c = false

def Ascending (table : PartitionTable) : Prop :=
  table.Pairwise fun p q => ∀ a ∈ p.offset, ∀ b ∈ q.offset, a ≤ b

def NaturalSizes (table : PartitionTable) : Prop := ∀ p ∈ table, ∀ size ∈ p.size, 0 ≤ size

def CsvSurvives (cfg : Settings) (simpleFormatting : Bool) (table : PartitionTable) : Prop :=
  ∃ text, PartitionTable.toCsv simpleFormatting table = .ok text ∧ PartitionTable.fromCsv cfg text = .ok table ∧
    (PartitionTable.fromCsv cfg text >>= PartitionTable.toBinary cfg) = PartitionTable.toBinary cfg table

def InEntry (p : PartitionDefinition) (a : Int) : Prop :=
  (PartitionTable.span p).1 ≤ a ∧ a < (PartitionTable.span p).1 + (PartitionTable.span p).2

structure PlacedRight (cfg : Settings) (limit : Int) (input : Text) (table : PartitionTable) : Prop where
  filled : ∀ p ∈ table, p.type.isSome ∧ p.offset.isSome ∧ p.size.isSome
  disjoint : table.Pairwise fun p q => ∀ a, ¬ (InEntry p a ∧ InEntry q a)
  above : ∀ p ∈ table, cfg.offsetPartTable + PARTITION_TABLE_SIZE ≤ (PartitionTable.span p).1
  aligned : ∀ p ∈ table, ∀ type ∈ p.type, (PartitionTable.span p).1 % PartitionDefinition.alignment type = 0
  inFlash : ∀ p ∈ table, (PartitionTable.span p).1 + (PartitionTable.span p).2 ≤ limit
  boundary : ∀ lines, PartitionTable.parseLines cfg (splitLines input) 0 = .ok lines →
    List.Forall₂ (fun line p => p.type = some APP_TYPE → line.offset ≠ p.offset →
      (PartitionTable.span p).1 % 0x10000 = 0) lines table

/-- An entry that is listed after another one of the same offset ends below the limit. -/
def SharedEndsBelow (limit : Int) (table : PartitionTable) : Prop :=
  table.Pairwise fun p q => (PartitionTable.span p).1 = (PartitionTable.span q).1 →
    (PartitionTable.span q).1 + (PartitionTable.span q).2 ≤ limit

end EspFirmware.Spec
