import EspFirmware.Boot.SpiFlash

/-!
What a copy of sectors reports, and when that is so.
-/

namespace EspFirmware.Spec
open EspFirmware.SectorCopy EspFirmware.Lib
open EspFirmware.Boot (Flash SPI_FLASH_SEC_SIZE)
open EspFirmware.Nvs (Byte Word)

structure CopyRanges (dest src totalSize : Word) : Prop where
  destSector : dest.toNat % SPI_FLASH_SEC_SIZE = 0
  srcSector : src.toNat % SPI_FLASH_SEC_SIZE = 0
  destEnds : dest.toNat + totalSize.toNat ≤ 2 ^ 32
  srcEnds : src.toNat + totalSize.toNat ≤ 2 ^ 32
  disjoint : dest.toNat + totalSize.toNat ≤ src.toNat ∨ src.toNat + totalSize.toNat ≤ dest.toNat

/-- The copy returns, and with zero only if every operation succeeded and the destination holds the source data. -/
def ReportsFailure (chip : FaultyFlash) (dest src totalSize : Word) (flash : Flash) : Prop :=
  (∃ ret, (espFlashSectorCopy chip dest src totalSize [] flash).outcome = .ok ret) ∧
    ((espFlashSectorCopy chip dest src totalSize [] flash).outcome = .ok 0 →
      (∀ issued ∈ (espFlashSectorCopy chip dest src totalSize [] flash).volatile, issued.2 = true) ∧
        Lib.Memory.load (espFlashSectorCopy chip dest src totalSize [] flash).durable dest.toNat totalSize.toNat =
          flash.load src.toNat totalSize.toNat)

def sectorsOf (totalSize : Word) : Nat := (totalSize.toNat + (SPI_FLASH_SEC_SIZE - 1)) / SPI_FLASH_SEC_SIZE

def WriteFails (chip : FaultyFlash) (dest : Word) (k : Nat) : Prop :=
  chip.fails (.writeData (dest.toNat + SPI_FLASH_SEC_SIZE * k) SPI_FLASH_SEC_SIZE) = true

/-- The read, the erase or the read-back of a sector fails; there is no read-back behind a failing write. -/
def OtherFails (chip : FaultyFlash) (dest src : Word) (k : Nat) : Prop :=
  chip.fails (.readData (src.toNat + SPI_FLASH_SEC_SIZE * k) SPI_FLASH_SEC_SIZE) = true ∨
    chip.fails (.eraseSector (dest.toNat / SPI_FLASH_SEC_SIZE + k)) = true ∨
    (¬ WriteFails chip dest k ∧
      chip.fails (.readData (dest.toNat + SPI_FLASH_SEC_SIZE * k) SPI_FLASH_SEC_SIZE) = true)

def NoWriteFailsAlone (chip : FaultyFlash) (dest src totalSize : Word) : Prop :=
  (∀ k < sectorsOf totalSize, ¬ WriteFails chip dest k) ∨ ∃ k < sectorsOf totalSize, OtherFails chip dest src k

end EspFirmware.Spec

/-!
What flash access comes to, byte by byte, when the ROM does what it is there for.
-/

namespace EspFirmware.Spec
open EspFirmware.SpiFlash EspFirmware.Lib
open EspFirmware.Boot (Flash)
open EspFirmware.Nvs (Byte Word)

def InPage (op : Nat × Nat) : Prop := op.1 % PAGE_SIZE + op.2 ≤ PAGE_SIZE

/-- Whole words are programmed inside a page, and whole words are read, where the ROM reports success. -/
structure RomWorks (rom : SpiRom) : Prop where
  programs : ∀ calls flash addr bytes, addr % 4 = 0 → bytes.length % 4 = 0 → InPage (addr, bytes.length) →
    (rom.pageProgram calls flash addr bytes).2 = true →
      (rom.pageProgram calls flash addr bytes).1 = programBytes addr bytes flash
  reads : ∀ calls flash addr len, addr % 4 = 0 → len % 4 = 0 → (rom.readData calls flash addr len).2 = true →
    (rom.readData calls flash addr len).1 = flash.load addr len

structure RomSucceeds (rom : SpiRom) : Prop where
  programs : ∀ calls flash addr bytes, (rom.pageProgram calls flash addr bytes).2 = true
  reads : ∀ calls flash addr len, (rom.readData calls flash addr len).2 = true

def AndWritten (flash flash' : Flash) (dest size : Nat) (data : Lib.Memory) : Prop :=
  ∀ x, flash' x = if dest ≤ x ∧ x < dest + size then flash x &&& data (x - dest) else flash x

def FilledFrom (flash : Flash) (src : Nat) (ram ram' : Lib.Memory) (dest size : Nat) : Prop :=
  ∀ x, ram' x = if dest ≤ x ∧ x < dest + size then flash (src + (x - dest)) else ram x

def Bounced (dest src size : Nat) : Prop := NOT_ALIGN dest ∨ NOT_ALIGN src ∨ NOT_ALIGN size ∨ IS_FLASH src

/-- Successful calls on a chip access the flash byte by byte, and reads and bounced writes end. -/
structure AccessesBytes (rom : SpiRom) (chipSize : Word) : Prop where
  write : ∀ fuel dest src data size made flash, dest + size ≤ chipSize.toNat →
    (spiFlashWrite rom fuel chipSize dest src data size made flash).outcome = .ok () →
      AndWritten flash (spiFlashWrite rom fuel chipSize dest src data size made flash).durable dest size data
  read : ∀ src dest size ram made flash ram', src + size ≤ chipSize.toNat →
    (spiFlashRead rom src dest size ram made flash).outcome = .ok ram' →
      FilledFrom flash src ram ram' dest size ∧ (spiFlashRead rom src dest size ram made flash).durable = flash
  writeEnds : ∀ dest src data size made flash, dest + size ≤ chipSize.toNat → Bounced dest src size →
    ∃ enough, ∀ fuel ≥ enough, (spiFlashWrite rom fuel chipSize dest src data size made flash).outcome ≠ .fault
  readEnds : ∀ src dest size ram made flash, (spiFlashRead rom src dest size ram made flash).outcome ≠ .fault

/-- A sector that the ROM reports as erased is, and where it reports a failure nothing is erased. -/
structure RomErases (rom : SpiRom) : Prop where
  erases : ∀ calls flash sec, (rom.eraseSector calls flash sec).2 = true →
    (rom.eraseSector calls flash sec).1 = Boot.eraseSector sec flash
  keeps : ∀ calls flash sec, (rom.eraseSector calls flash sec).2 = false → (rom.eraseSector calls flash sec).1 = flash

def EraseFails (rom : SpiRom) (chipSize : Word) (calls : Nat) (flash : Flash) (sec : Nat) : Prop :=
  chipSize.toNat / Boot.SPI_FLASH_SEC_SIZE ≤ sec ∨ (rom.eraseSector calls flash sec).2 = false

/-- The first `k` sectors from `sec` on are erased of `num`, and no other one. Success says that these are all of them
and an error that the next one is not erased; for invalid arguments nothing is erased, with an error. -/
structure ErasesFirst (rom : SpiRom) (chipSize : Word) (valid : Prop) (sec num : Nat) (made : SpiCalls) (flash : Flash)
    (ran : Ran SpiCalls Flash EspErr Unit) (k : Nat) : Prop where
  erased : ran.volatile.erased = made.erased ++ List.range' sec k
  bytes : ∀ x, ran.durable x =
    if Boot.SPI_FLASH_SEC_SIZE * sec ≤ x ∧ x < Boot.SPI_FLASH_SEC_SIZE * (sec + k) then 0xFF else flash x
  all : ran.outcome = .ok () → valid ∧ k = num
  failed : ran.outcome ≠ .ok () → ¬ valid ∨ EraseFails rom chipSize (made.calls + k) ran.durable (sec + k)
  nothing : ¬ valid → k = 0

structure ErasesRange (rom : SpiRom) (chipSize : Word) (valid : Prop) (start size : Nat) (made : SpiCalls)
    (flash : Flash) (ran : Ran SpiCalls Flash EspErr Unit) : Prop where
  returns : ran.outcome ≠ .fault
  first : ∃ k ≤ size / Boot.SPI_FLASH_SEC_SIZE, ErasesFirst rom chipSize valid (start / Boot.SPI_FLASH_SEC_SIZE)
    (size / Boot.SPI_FLASH_SEC_SIZE) made flash ran k

def WholeSectors (start size : Nat) : Prop := start % Boot.SPI_FLASH_SEC_SIZE = 0 ∧ size % Boot.SPI_FLASH_SEC_SIZE = 0

instance (start size : Nat) : Decidable (WholeSectors start size) := inferInstanceAs (Decidable (_ ∧ _))

def InPartition (partition : Boot.EspPartition) (offset size : Word) : Prop :=
  offset.toNat + size.toNat ≤ partition.size.toNat

/-- The comparisons of offset and size with the size of the partition, where the sum wraps. -/
def PassesBounds (partition : Boot.EspPartition) (offset size : Word) : Prop :=
  offset ≤ partition.size ∧ offset + size ≤ partition.size

/-- A range of whole sectors of the partition, which are whole sectors of the flash. -/
def ErasableRange (partition : Boot.EspPartition) (startAddr size : Word) : Prop :=
  InPartition partition startAddr size ∧ WholeSectors startAddr.toNat size.toNat ∧
    partition.address.toNat % Boot.SPI_FLASH_SEC_SIZE = 0

/-- The range is not empty, or the arguments are refused, or the first sector is not erased. -/
def ErasesOnlyRange (rom : SpiRom) (chipSize startAddress size : Word) (made : SpiCalls) (flash : Flash) : Prop :=
  size ≠ 0 ∨ ¬ WholeSectors startAddress.toNat size.toNat ∨
    EraseFails rom chipSize made.calls flash (startAddress.toNat / Boot.SPI_FLASH_SEC_SIZE)

def Addressed (partition : Boot.EspPartition) (offset : Word) : Prop :=
  partition.address.toNat + offset.toNat < 2 ^ 32

/-- The range is not empty and ends in the partition without a sum that wraps, or the arguments are refused, or the
first sector is not erased. -/
def ErasesOnlyInPartition (rom : SpiRom) (chipSize : Word) (partition : Boot.EspPartition) (startAddr size : Word)
    (made : SpiCalls) (flash : Flash) : Prop :=
  (size ≠ 0 ∧ InPartition partition startAddr size ∧ Addressed partition startAddr) ∨
    ¬ PassesBounds partition startAddr size ∨ ¬ WholeSectors startAddr.toNat size.toNat ∨
    partition.address.toNat % Boot.SPI_FLASH_SEC_SIZE ≠ 0 ∨
    EraseFails rom chipSize made.calls flash ((partition.address + startAddr).toNat / Boot.SPI_FLASH_SEC_SIZE)

def Touches (ops : List (Nat × Nat)) (x : Nat) : Prop := ∃ op ∈ ops, ∃ i < op.2, x = (op.1 + i) % 2 ^ 32

def StaysInPartition {α : Type} (partition : Boot.EspPartition) (call : SpiRom → SpiProg α) : Prop :=
  ∀ rom calls flash x, Touches (call rom ⟨calls, [], [], []⟩ flash).volatile.touched x →
    partition.address.toNat ≤ x ∧ x < partition.address.toNat + partition.size.toNat

/-- The range and the rest of its first and its last word are in the partition, without a sum that wraps. -/
structure WordsInPartition (partition : Boot.EspPartition) (offset size : Word) : Prop where
  inside : InPartition partition offset size
  addressed : partition.address.toNat + offset.toNat + size.toNat ≤ 2 ^ 32
  firstWord : partition.address.toNat ≤ (partition.address.toNat + offset.toNat) / 4 * 4
  lastWord : FLASH_ALIGN (partition.address.toNat + offset.toNat + size.toNat) ≤
    partition.address.toNat + partition.size.toNat

def ReadsInside (partition : Boot.EspPartition) (srcOffset : Word) (dst : Nat) (size : Word) : Prop :=
  dst = 0 ∨ size = 0 ∨ ¬ PassesBounds partition srcOffset size ∨ WordsInPartition partition srcOffset size

def CountedPages (dest src size : Nat) : Prop :=
  src = 0 ∨ IS_FLASH src ∨ (size - (PAGE_SIZE - dest % PAGE_SIZE)) / PAGE_SIZE < 2 ^ 8

def WritesInside (chipSize : Word) (partition : Boot.EspPartition) (dstOffset : Word) (src : Nat) (size : Word) :
    Prop :=
  src = 0 ∨ size = 0 ∨ ¬ PassesBounds partition dstOffset size ∨
    chipSize.toNat < ((partition.address + dstOffset).toNat + size.toNat) % 2 ^ 32 ∨
    (WordsInPartition partition dstOffset size ∧
      (Bounced (partition.address + dstOffset).toNat src size.toNat ∨
        CountedPages (partition.address + dstOffset).toNat src size.toNat))

/-- The range is refused or beyond the chip, or it starts in the partition and ends in it, or the chip does. -/
def ErasesInside (chipSize : Word) (partition : Boot.EspPartition) (startAddr size : Word) : Prop :=
  ¬ PassesBounds partition startAddr size ∨ ¬ WholeSectors startAddr.toNat size.toNat ∨
    partition.address.toNat % Boot.SPI_FLASH_SEC_SIZE ≠ 0 ∨
    chipSize.toNat / Boot.SPI_FLASH_SEC_SIZE ≤
      (partition.address + startAddr).toNat / Boot.SPI_FLASH_SEC_SIZE ∨
    (Addressed partition startAddr ∧
      ((size ≠ 0 ∧ InPartition partition startAddr size) ∨
        chipSize.toNat / Boot.SPI_FLASH_SEC_SIZE * Boot.SPI_FLASH_SEC_SIZE ≤
          partition.address.toNat + partition.size.toNat))

/-- The call ends, what it reports as written is, and each program operation is inside a page. -/
def CompletesWrite (chipSize : Word) (dest src : Nat) (data : Lib.Memory) (size : Nat) : Prop :=
  ∀ rom, RomWorks rom → ∀ made flash, ∃ enough, ∀ fuel ≥ enough,
    (spiFlashWrite rom fuel chipSize dest src data size made flash).outcome ≠ .fault ∧
      ((spiFlashWrite rom fuel chipSize dest src data size made flash).outcome = .ok () →
        AndWritten flash (spiFlashWrite rom fuel chipSize dest src data size made flash).durable dest size data) ∧
      ∃ ops, (spiFlashWrite rom fuel chipSize dest src data size made flash).volatile.programs = made.programs ++ ops ∧
        ∀ op ∈ ops, InPage op

end EspFirmware.Spec
