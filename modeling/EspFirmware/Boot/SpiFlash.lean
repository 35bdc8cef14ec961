import EspFirmware.Boot.Ota

/-!
Flash access by bytes (`spi_flash.c`, `partition.c`): what is not aligned goes through a buffer of 64 bytes on the
stack, which is aligned, and a program operation is cut at the pages. Addresses of the flash have 32 bits.
-/

namespace EspFirmware.SpiFlash

open Lib
open Boot (EspErr Flash)
open Nvs (Byte Word)

abbrev SPI_READ_BUF_MAX : Nat := 64
abbrev FLASH_ALIGN_BYTES : Nat := 4
abbrev PAGE_SIZE : Nat := 256
abbrev FLASH_BASE : Nat := 0x40200000
abbrev FLASH_SIZE : Nat := 16 * 1024 * 1024

def FLASH_ALIGN (addr : Nat) : Nat := (addr + (FLASH_ALIGN_BYTES - 1)) / FLASH_ALIGN_BYTES * FLASH_ALIGN_BYTES

def FLASH_ALIGN_BEFORE (addr : Nat) : Nat := FLASH_ALIGN addr - 4

abbrev NOT_ALIGN (addr : Nat) : Prop := addr % FLASH_ALIGN_BYTES ≠ 0

abbrev IS_FLASH (a : Nat) : Prop := FLASH_BASE ≤ a ∧ a < FLASH_BASE + FLASH_SIZE

def programBytes (a : Nat) (bytes : List Byte) (flash : Flash) : Flash := fun x =>
  if a ≤ x ∧ x < a + bytes.length then flash x &&& bytes.getD (x - a) 0 else flash x

/-- `SPI_page_program`, `SPI_read_data` and `SPI_sector_erase` of the ROM: what they do to the flash and what they
deliver, and whether they report success, which may differ from call to call. -/
structure SpiRom where
  pageProgram : (calls : Nat) → Flash → (addr : Nat) → List Byte → Flash × Bool
  readData : (calls : Nat) → Flash → (addr len : Nat) → List Byte × Bool
  eraseSector : (calls : Nat) → Flash → (sec : Nat) → Flash × Bool

/-- The calls of the ROM so far. Address and length are recorded of the program operations among them and of all
of them, and the sectors reported as erased. -/
structure SpiCalls where
  calls : Nat
  programs : List (Nat × Nat)
  touched : List (Nat × Nat)
  erased : List Nat
  deriving DecidableEq, Repr

def SpiCalls.touching (made : SpiCalls) (addr len : Nat) : SpiCalls :=
  { made with calls := made.calls + 1, touched := made.touched ++ [(addr, len)] }

abbrev SpiProg := Prog SpiCalls Flash EspErr

section
variable (rom : SpiRom)

def spiFlashWriteRaw (destAddr : Nat) (src : List Byte) : SpiProg Unit := do
  let made ← Prog.get
  let flash ← Prog.read
  let destAddr := destAddr % 2 ^ 32
  let result := rom.pageProgram made.calls flash destAddr src
  Prog.modify fun made =>
    { made.touching destAddr src.length with programs := made.programs ++ [(destAddr, src.length)] }
  Prog.write fun _ => result.1
  if result.2 then pure () else Prog.throw .flashOpFail

def spiFlashReadRaw (srcAddr size : Nat) : SpiProg (List Byte) := do
  let made ← Prog.get
  let flash ← Prog.read
  let srcAddr := srcAddr % 2 ^ 32
  let result := rom.readData made.calls flash srcAddr size
  Prog.modify fun made => made.touching srcAddr size
  if result.2 then pure result.1 else Prog.throw .flashOpFail

def programPages (target : Nat) (src : Memory) (pgmNum : Nat) : (fuel : Nat) → (i : Byte) → (pgmLen : Nat) → SpiProg Nat
  | 0, _, _ => Prog.fault
  | fuel + 1, i, pgmLen =>
      if i.toNat < pgmNum then do
        spiFlashWriteRaw rom ((target + pgmLen) % 2 ^ 32) (src.load (pgmLen / 4 * 4) PAGE_SIZE)
        programPages target src pgmNum fuel (i + 1) ((pgmLen + PAGE_SIZE) % 2 ^ 32)
      else pure pgmLen

def spiFlashProgram (fuel target : Nat) (src : Memory) (len : Nat) : SpiProg Unit := do
  let pgmLen := PAGE_SIZE - target % PAGE_SIZE
  if len < pgmLen then spiFlashWriteRaw rom target (src.load 0 len)
  else do
    spiFlashWriteRaw rom target (src.load 0 pgmLen)
    let pgmLen ← programPages rom target src ((len - pgmLen) / PAGE_SIZE) fuel 0 pgmLen
    spiFlashWriteRaw rom ((target + pgmLen) % 2 ^ 32) (src.load (pgmLen / 4 * 4) (len - pgmLen))

def bufferOf (bytes : List Byte) : Memory := Memory.store (fun _ => 0) 0 bytes

/-- The loop of `spi_flash_write` over pieces of the source from `off` on. What is read to fill up the last word
stands before the copied bytes in the buffer where they overlap. -/
def writeLoop (fuel : Nat) (data : Memory) : (rounds : Nat) → (destAddr off size : Nat) → SpiProg Unit
  | 0, _, _, _ => Prog.fault
  | rounds + 1, destAddr, off, size =>
      if size > 0 then do
        let len := if size ≥ SPI_READ_BUF_MAX then SPI_READ_BUF_MAX else size
        let wlen := FLASH_ALIGN len
        let lB := wlen - FLASH_ALIGN_BYTES
        let last ← if wlen ≠ len then spiFlashReadRaw rom (destAddr + lB) FLASH_ALIGN_BYTES else pure []
        spiFlashProgram rom fuel destAddr (bufferOf (data.load off len ++ last.drop (len - lB))) wlen
        writeLoop fuel data rounds (destAddr + len) (off + len) (size - len)
      else pure ()

/-- `spi_flash_write` from a source address, where `data` is what the source delivers. The check for write
protection always succeeds. -/
def spiFlashWrite (fuel : Nat) (chipSize : Word) (destAddr src : Nat) (data : Memory) (size : Nat) : SpiProg Unit :=
  if size = 0 then pure ()
  else if src = 0 then Prog.throw .flashOpFail
  else if (destAddr + size) % 2 ^ 32 > chipSize.toNat then Prog.throw .flashOpFail
  else if NOT_ALIGN destAddr ∨ NOT_ALIGN src ∨ NOT_ALIGN size ∨ IS_FLASH src then
    if NOT_ALIGN destAddr then do
      let rAddr := FLASH_ALIGN_BEFORE destAddr
      let cOff := destAddr - rAddr
      let wbytes := FLASH_ALIGN_BYTES - cOff
      let wbytes := if wbytes > size then size else wbytes
      let old ← spiFlashReadRaw rom rAddr FLASH_ALIGN_BYTES
      spiFlashProgram rom fuel rAddr (bufferOf (old.take cOff ++ data.load 0 wbytes ++ old.drop (cOff + wbytes)))
        FLASH_ALIGN_BYTES
      writeLoop rom fuel data (size + 1) (destAddr + wbytes) wbytes (size - wbytes)
    else writeLoop rom fuel data (size + 1) destAddr 0 size
  else spiFlashProgram rom fuel destAddr data size

def espPartitionWrite (fuel : Nat) (chipSize : Word) (partition : Boot.EspPartition) (dstOffset : Word) (src : Nat)
    (data : Memory) (size : Nat) : SpiProg Unit :=
  if dstOffset > partition.size then Prog.throw .invalidArg
  else if dstOffset + BitVec.ofNat 32 size > partition.size then Prog.throw .invalidSize
  else spiFlashWrite rom fuel chipSize (partition.address + dstOffset).toNat src data size

def readLoop : (rounds : Nat) → (srcAddr tmp size : Nat) → (ram : Memory) → SpiProg Memory
  | 0, _, _, _, _ => Prog.fault
  | rounds + 1, srcAddr, tmp, size, ram =>
      if size ≠ 0 then do
        let len := if size ≥ SPI_READ_BUF_MAX then SPI_READ_BUF_MAX else size
        let wlen := FLASH_ALIGN len
        let buf ← spiFlashReadRaw rom srcAddr wlen
        readLoop rounds (srcAddr + len) (tmp + len) (size - len) (ram.store tmp (buf.take len))
      else pure ram

def spiFlashRead (srcAddr dest size : Nat) (ram : Memory) : SpiProg Memory :=
  if size = 0 then pure ram
  else if dest = 0 then Prog.throw .flashOpFail
  else if NOT_ALIGN srcAddr ∨ NOT_ALIGN dest ∨ NOT_ALIGN size then
    if NOT_ALIGN srcAddr then do
      let rAddr := FLASH_ALIGN_BEFORE srcAddr
      let cOff := srcAddr - rAddr
      let wbytes := FLASH_ALIGN_BYTES - cOff
      let wbytes := if wbytes > size then size else wbytes
      let buf ← spiFlashReadRaw rom rAddr FLASH_ALIGN_BYTES
      readLoop rom (size + 1) (srcAddr + wbytes) (dest + wbytes) (size - wbytes)
        (ram.store dest ((buf.drop cOff).take wbytes))
    else readLoop rom (size + 1) srcAddr dest size ram
  else do
    let bytes ← spiFlashReadRaw rom srcAddr size
    pure (ram.store dest bytes)

def espPartitionRead (partition : Boot.EspPartition) (srcOffset : Word) (dst : Nat) (size : Word) (ram : Memory) :
    SpiProg Memory :=
  if srcOffset > partition.size then Prog.throw .invalidArg
  else if srcOffset + size > partition.size then Prog.throw .invalidSize
  else spiFlashRead rom (partition.address + srcOffset).toNat dst size.toNat ram

def spiFlashEraseSector (chipSize sec : Word) : SpiProg Unit :=
  if sec.toNat ≥ chipSize.toNat / Boot.SPI_FLASH_SEC_SIZE then Prog.throw .flashOpFail
  else do
    let made ← Prog.get
    let flash ← Prog.read
    let result := rom.eraseSector made.calls flash sec.toNat
    Prog.modify fun made => made.touching (sec.toNat * Boot.SPI_FLASH_SEC_SIZE) Boot.SPI_FLASH_SEC_SIZE
    Prog.write fun _ => result.1
    if result.2 then Prog.modify fun made => { made with erased := made.erased ++ [sec.toNat] }
    else Prog.throw .flashOpFail

/-- The loop of `spi_flash_erase_range`, whose body comes before its count is tested. -/
def eraseLoop (chipSize : Word) : (fuel : Nat) → (sec num : Word) → SpiProg Unit
  | 0, _, _ => Prog.fault
  | fuel + 1, sec, num => do
      spiFlashEraseSector rom chipSize sec
      if num - 1 ≠ 0 then eraseLoop chipSize fuel (sec + 1) (num - 1) else pure ()

def spiFlashEraseRange (chipSize startAddress size : Word) : SpiProg Unit :=
  if startAddress.toNat % Boot.SPI_FLASH_SEC_SIZE ≠ 0 ∨ size.toNat % Boot.SPI_FLASH_SEC_SIZE ≠ 0 then
    Prog.throw .flashOpFail
  else
    eraseLoop rom chipSize (2 ^ 32) (startAddress / BitVec.ofNat 32 Boot.SPI_FLASH_SEC_SIZE)
      (size / BitVec.ofNat 32 Boot.SPI_FLASH_SEC_SIZE)

def espPartitionEraseRange (chipSize : Word) (partition : Boot.EspPartition) (startAddr size : Word) : SpiProg Unit :=
  if startAddr > partition.size then Prog.throw .invalidArg
  else if startAddr + size > partition.size then Prog.throw .invalidSize
  else if size.toNat % Boot.SPI_FLASH_SEC_SIZE ≠ 0 then Prog.throw .invalidSize
  else if startAddr.toNat % Boot.SPI_FLASH_SEC_SIZE ≠ 0 then Prog.throw .invalidArg
  else spiFlashEraseRange rom chipSize (partition.address + startAddr) size

end

end EspFirmware.SpiFlash

/-!
Copying sectors of the flash in the bootloader (`port/port.c`), with an erase, a read-back and a comparison for each
sector that is written. The buffers are aligned.
-/

namespace EspFirmware.SectorCopy

open Lib
open Boot (Flash SPI_FLASH_SEC_SIZE)
open SpiFlash (programBytes)
open Nvs (Byte Word)

inductive FlashOp where
  | readData (addr n : Nat)
  | eraseSector (sec : Nat)
  | writeData (addr n : Nat)
  deriving DecidableEq, Repr

/-- Which operations fail, and what a failing operation delivers or leaves. An operation is the same one only where
its place is, and no copy asks for one twice. -/
structure FaultyFlash where
  fails : FlashOp → Bool
  delivers : FlashOp → Flash → List Byte
  leaves : FlashOp → Flash → Flash

abbrev Issued := List (FlashOp × Bool)

abbrev CopyProg := Prog Issued Flash Unit

section
variable (chip : FaultyFlash)

def spiReadData (addr n : Nat) : CopyProg (Int × List Byte) := do
  let flash ← Prog.read
  let op := FlashOp.readData addr n
  Prog.modify fun issued => issued ++ [(op, !chip.fails op)]
  if chip.fails op then pure (1, chip.delivers op flash) else pure (0, flash.load addr n)

def spiWrite (addr : Nat) (bytes : List Byte) : CopyProg Int := do
  let op := FlashOp.writeData addr bytes.length
  Prog.modify fun issued => issued ++ [(op, !chip.fails op)]
  if chip.fails op then do
    Prog.write (chip.leaves op)
    pure 1
  else do
    Prog.write (programBytes addr bytes)
    pure 0

def spiEraseSector (sec : Nat) : CopyProg Int := do
  let op := FlashOp.eraseSector sec
  Prog.modify fun issued => issued ++ [(op, !chip.fails op)]
  if chip.fails op then do
    Prog.write (chip.leaves op)
    pure 1
  else do
    Prog.write (Boot.eraseSector sec)
    pure 0

def spiFlashReadData (addr n : Nat) : CopyProg (Int × List Byte) :=
  if addr % 4 ≠ 0 ∨ n % 4 ≠ 0 then pure (-1, []) else spiReadData chip addr n

def spiFlashWriteData (addr : Nat) (buf : List Byte) : CopyProg Int :=
  if addr % 4 ≠ 0 ∨ buf.length % 4 ≠ 0 then pure (-1) else spiWrite chip addr buf

def spiFlashErase (addr : Nat) : CopyProg Int := spiEraseSector chip (addr / SPI_FLASH_SEC_SIZE)

def spiFlashWriteDataSafe (addr : Nat) (buf : List Byte) : CopyProg Int := do
  let ret ← spiFlashErase chip addr
  if ret ≠ 0 then pure (-1)
  else do
    let ret ← spiFlashWriteData chip addr buf
    if ret ≠ 0 then pure 0
    else do
      let (ret, checkBuf) ← spiFlashReadData chip addr buf.length
      if ret ≠ 0 then pure (-1)
      else if buf ≠ checkBuf then pure (-1)
      else pure 0

/-- The loop of `esp_flash_sector_copy`, out of fuel where it does not end. -/
def copyLoop (dest src totalSize : Word) : (fuel : Nat) → (offset : Word) → CopyProg Int
  | 0, _ => Prog.fault
  | fuel + 1, offset =>
      if offset < totalSize then do
        let (ret, cacheBuf) ← spiFlashReadData chip (src + offset).toNat SPI_FLASH_SEC_SIZE
        if ret ≠ 0 then pure (-1)
        else do
          let ret ← spiFlashWriteDataSafe chip (dest + offset).toNat cacheBuf
          if ret ≠ 0 then pure (-1)
          else copyLoop dest src totalSize fuel (offset + BitVec.ofNat 32 SPI_FLASH_SEC_SIZE)
      else pure 0

def espFlashSectorCopy (dest src totalSize : Word) : CopyProg Int := copyLoop chip dest src totalSize (2 ^ 20 + 1) 0

end

end EspFirmware.SectorCopy
