import EspFirmware.Lib.Prog
import EspFirmware.Boot.PartitionTable

/-!
The image loader (`esp_image_format.c`, ESP8266) with the checksum check on, SHA-256 and secure boot off:
headers, the loop over the segments and the loop over the data of one. First what it makes of the contents
its reads deliver, then the reads themselves, which can fail.
-/

namespace EspFirmware.Boot

open Lib
open Nvs (Byte Word)

structure EspImageHeader where
  magic : Byte
  segmentCount : Byte
  spiMode : Byte
  spiSpeed : BitVec 4
  spiSize : BitVec 4
  entryAddr : Word
  deriving DecidableEq, Repr

structure EspImageSegmentHeader where
  loadAddr : Word
  dataLen : Word
  deriving DecidableEq, Repr

structure EspImageMetadata where
  startAddr : Word
  image : EspImageHeader
  segments : List EspImageSegmentHeader
  segmentData : List Word
  imageLen : Word
  deriving DecidableEq, Repr

/-- What the reads of a call deliver: those of the image header, those for each segment, and that of the
checksum. Inside the chip this is the content of the flash. A read that leaves the chip fails, but its error
is dropped and the buffer keeps what it held. `buffer` says for which segments `malloc` finds a buffer. -/
structure ImageReads where
  header : Memory
  segment : Nat → Memory
  checksum : Memory
  buffer : Nat → Bool

def ImageReads.of (flash : Memory) : ImageReads := ⟨flash, fun _ => flash, flash, fun _ => true⟩

abbrev ESP_IMAGE_HEADER_MAGIC : Byte := 0xE9
abbrev ESP_IMAGE_MAX_SEGMENTS : Nat := 16
abbrev SIXTEEN_MB : Word := 0x1000000
abbrev ESP_ROM_CHECKSUM_INITIAL : Word := 0xEF
abbrev SHA_CHUNK : Word := 1024

abbrev Run := ExceptT EspErr Option

def EspImageHeader.read (m : Memory) (a : Nat) : EspImageHeader where
  magic := m a
  segmentCount := m (a + 1)
  spiMode := m (a + 2)
  spiSpeed := (m (a + 3)).extractLsb' 0 4
  spiSize := (m (a + 3)).extractLsb' 4 4
  entryAddr := m.load32 (a + 4)

def EspImageSegmentHeader.read (m : Memory) (a : Nat) : EspImageSegmentHeader := ⟨m.load32 a, m.load32 (a + 4)⟩

/-- `bootloader_flash_read`, apart from what it delivers. Its buffers are aligned. -/
def bootloaderFlashRead (srcAddr size : Word) : Run Unit :=
  if srcAddr &&& 3 ≠ 0 then throw .fail
  else if size &&& 3 ≠ 0 then throw .fail
  else pure ()

def verifyImageHeader (image : EspImageHeader) : Run Unit :=
  if image.magic ≠ ESP_IMAGE_HEADER_MAGIC then throw .imageInvalid else pure ()

/-- The checks of `verify_segment_header` are commented out. -/
def verifySegmentHeader (_ : EspImageSegmentHeader) : Run Unit := pure ()

def xorWords (m : Memory) (a count : Nat) (checksum : Word) : Word :=
  (List.range count).foldl (fun sum j => sum ^^^ m.load32 (a + 4 * j)) checksum

/-- The loop over the chunks from `i`, an `int` that is compared as unsigned. -/
def dataLoop (m : Memory) (dataAddr dataLen : Word) : (fuel : Nat) → (i checksum : Word) → Run Word
  | 0, _, _ => (none : Option (Except EspErr Word))
  | fuel + 1, i, checksum =>
      if i < dataLen then do
        let bytes := if SHA_CHUNK < dataLen - i then SHA_CHUNK else dataLen - i
        bootloaderFlashRead (dataAddr + i) bytes
        dataLoop m dataAddr dataLen fuel (i + SHA_CHUNK)
          (xorWords m (dataAddr + i).toNat (bytes.toNat / 4) checksum)
      else pure checksum

def processSegmentData (fuel : Nat) (m : Memory) (buffer : Bool) (dataAddr dataLen checksum : Word) : Run Word :=
  if buffer = false then throw .fail else dataLoop m dataAddr dataLen fuel 0 checksum

def processSegment (fuel : Nat) (reads : ImageReads) (index : Nat) (flashAddr checksum : Word) :
    Run (EspImageSegmentHeader × Word) := do
  bootloaderFlashRead flashAddr 8
  let header := EspImageSegmentHeader.read (reads.segment index) flashAddr.toNat
  verifySegmentHeader header
  if header.dataLen % 4 ≠ 0 then throw .imageInvalid
  else
    let checksum ←
      processSegmentData fuel (reads.segment index) (reads.buffer index) (flashAddr + 8) header.dataLen checksum
    return (header, checksum)

structure SegmentsDone where
  segments : List EspImageSegmentHeader
  segmentData : List Word
  nextAddr : Word
  checksum : Word
  deriving DecidableEq, Repr

def segmentLoop (fuel : Nat) (reads : ImageReads) : (left i : Nat) → (nextAddr checksum : Word) → Run SegmentsDone
  | 0, _, nextAddr, checksum => pure ⟨[], [], nextAddr, checksum⟩
  | left + 1, i, nextAddr, checksum => do
      let (header, checksum) ← processSegment fuel reads i nextAddr checksum
      let nextAddr := nextAddr + 8
      let done ← segmentLoop fuel reads left (i + 1) (nextAddr + header.dataLen) checksum
      return { done with segments := header :: done.segments, segmentData := nextAddr :: done.segmentData }

def foldWord (w : Word) : Byte := (w >>> 24 ^^^ w >>> 16 ^^^ w >>> 8 ^^^ w).setWidth 8

def verifyChecksum (m : Memory) (checksumWord startAddr unpaddedLength : Word) : Run Word := do
  let length := unpaddedLength + 1
  let length := (length + 15) &&& ~~~(15 : Word)
  tryCatch (bootloaderFlashRead (startAddr + unpaddedLength) (length - unpaddedLength)) fun _ => throw .imageInvalid
  let calc_ := m ((startAddr + unpaddedLength).toNat + (length - unpaddedLength - 1).toNat)
  if foldWord checksumWord ≠ calc_ then throw .imageInvalid else return length

def finishLoad (reads : ImageReads) (part : EspPartitionPos) (image : EspImageHeader) (done : SegmentsDone) :
    Run EspImageMetadata :=
  if done.nextAddr < part.offset then throw .imageInvalid
  else do
    let imageLen ← verifyChecksum reads.checksum done.checksum part.offset (done.nextAddr - part.offset)
    if imageLen > part.size then throw .imageInvalid
    else return ⟨part.offset, image, done.segments, done.segmentData, imageLen⟩

def espImageLoad (fuel : Nat) (reads : ImageReads) (part : EspPartitionPos) : Run EspImageMetadata :=
  if part.size > SIXTEEN_MB then throw .invalidArg
  else do
    bootloaderFlashRead part.offset 8
    let image := EspImageHeader.read reads.header part.offset.toNat
    verifyImageHeader image
    if image.segmentCount.toNat > ESP_IMAGE_MAX_SEGMENTS then throw .imageInvalid
    else
      let done ← segmentLoop fuel reads image.segmentCount.toNat 0 (part.offset + 8) ESP_ROM_CHECKSUM_INITIAL
      finishLoad reads part image done

end EspFirmware.Boot

namespace EspFirmware.ImageRead

open Lib Boot
open Nvs (Word)

/-- The flash, which of the reads fail, and what a failing one leaves in its buffer. -/
structure FlashReader where
  flash : Memory
  fails : Nat → Bool
  leaves : Nat → Memory → Memory

def FlashReader.read (r : FlashReader) (k : Nat) (srcAddr : Word) (size : Nat) (buffer : Memory) : Memory :=
  if r.fails k = true then r.leaves k buffer
  else fun i => if i < size then r.flash (srcAddr.toNat + i) else buffer i

structure LoadState where
  calls : Nat
  data : EspImageMetadata
  deriving DecidableEq, Repr

abbrev LoadProg := Prog LoadState Unit EspErr

def zeroed : EspImageMetadata := ⟨0, ⟨0, 0, 0, 0, 0, 0⟩, [], [], 0⟩

def zeroBuffer : Memory := fun _ => 0

def setData (f : EspImageMetadata → EspImageMetadata) : LoadProg Unit :=
  Prog.modify fun st => { st with data := f st.data }

section
variable (r : FlashReader)

/-- `bootloader_flash_read` into a buffer: `bootloader_flash_read_no_decrypt` drops the result of the read. -/
def bootloaderFlashRead (srcAddr : Word) (dest : Memory) (size : Word) : LoadProg Memory :=
  if srcAddr &&& 3 ≠ 0 then Prog.throw .fail
  else if size &&& 3 ≠ 0 then Prog.throw .fail
  else do
    let st ← Prog.get
    Prog.modify fun st => { st with calls := st.calls + 1 }
    pure (r.read st.calls srcAddr size.toNat dest)

def dataLoop (dataAddr dataLen : Word) : (fuel : Nat) → (i : Word) → (pbuf : Memory) → (checksum : Word) → LoadProg Word
  | 0, _, _, _ => Prog.fault
  | fuel + 1, i, pbuf, checksum =>
      if i < dataLen then do
        let bytes := if SHA_CHUNK < dataLen - i then SHA_CHUNK else dataLen - i
        let pbuf ← bootloaderFlashRead r (dataAddr + i) pbuf bytes
        dataLoop dataAddr dataLen fuel (i + SHA_CHUNK) pbuf (xorWords pbuf 0 (bytes.toNat / 4) checksum)
      else pure checksum

/-- `process_segment_data`, where `pbuf` is what `malloc` finds, with what is in it. -/
def processSegmentData (fuel : Nat) (pbuf : Option Memory) (dataAddr dataLen checksum : Word) : LoadProg Word :=
  match pbuf with
  | none => Prog.throw .fail
  | some pbuf => dataLoop r dataAddr dataLen fuel 0 pbuf checksum

def processSegment (fuel : Nat) (pbuf : Option Memory) (flashAddr checksum : Word) :
    LoadProg (EspImageSegmentHeader × Word) := do
  let buffer ← bootloaderFlashRead r flashAddr zeroBuffer 8
  let header := EspImageSegmentHeader.read buffer 0
  if header.dataLen % 4 ≠ 0 then Prog.throw .imageInvalid
  else do
    let checksum ← processSegmentData r fuel pbuf (flashAddr + 8) header.dataLen checksum
    pure (header, checksum)

/-- The loop over the segments from `i` with `left` to go, where `heap` is what `malloc` finds for each. -/
def segmentLoop (fuel : Nat) (heap : Nat → Option Memory) : (left i : Nat) → (nextAddr checksum : Word) →
    LoadProg (Word × Word)
  | 0, _, nextAddr, checksum => pure (nextAddr, checksum)
  | left + 1, i, nextAddr, checksum => do
      let (header, checksum) ← processSegment r fuel (heap i) nextAddr checksum
      let nextAddr := nextAddr + 8
      setData fun data => { data with
        segments := data.segments ++ [header], segmentData := data.segmentData ++ [nextAddr] }
      segmentLoop fuel heap left (i + 1) (nextAddr + header.dataLen) checksum

def verifyChecksum (buf : Memory) (checksumWord startAddr unpaddedLength : Word) : LoadProg Word := do
  let length := unpaddedLength + 1
  let length := (length + 15) &&& ~~~(15 : Word)
  let read ← Prog.attempt (bootloaderFlashRead r (startAddr + unpaddedLength) buf (length - unpaddedLength))
  match read with
  | .error _ => Prog.throw .imageInvalid
  | .ok buf =>
      let calc_ := buf (length - unpaddedLength - 1).toNat
      if foldWord checksumWord ≠ calc_ then Prog.throw .imageInvalid else pure length

def loadImage (fuel : Nat) (heap : Nat → Option Memory) (buf : Memory) (part : EspPartitionPos) : LoadProg Unit :=
  if part.size > SIXTEEN_MB then Prog.throw .invalidArg
  else do
    setData fun _ => { zeroed with startAddr := part.offset }
    let buffer ← bootloaderFlashRead r part.offset zeroBuffer 8
    let image := EspImageHeader.read buffer 0
    setData fun data => { data with image }
    if image.magic ≠ ESP_IMAGE_HEADER_MAGIC then Prog.throw .imageInvalid
    else if image.segmentCount.toNat > ESP_IMAGE_MAX_SEGMENTS then Prog.throw .imageInvalid
    else do
      let (nextAddr, checksum) ←
        segmentLoop r fuel heap image.segmentCount.toNat 0 (part.offset + 8) ESP_ROM_CHECKSUM_INITIAL
      if nextAddr < part.offset then Prog.throw .imageInvalid
      else do
        let imageLen ← verifyChecksum r buf checksum part.offset (nextAddr - part.offset)
        setData fun data => { data with imageLen }
        if imageLen > part.size then Prog.throw .imageInvalid else pure ()

def espImageLoad (fuel : Nat) (heap : Nat → Option Memory) (buf : Memory) (part : EspPartitionPos) : LoadProg Unit := do
  let loaded ← Prog.attempt (loadImage r fuel heap buf part)
  match loaded with
  | .ok () => pure ()
  | .error e => do
      setData fun _ => zeroed
      Prog.throw e

end

end EspFirmware.ImageRead
