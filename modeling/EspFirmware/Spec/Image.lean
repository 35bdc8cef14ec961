import EspFirmware.Boot.Image

/-!
An image in flash: the segments its headers name, its exact extent, and which images the loader keeps inside
their partition.
-/

namespace EspFirmware.Spec
open EspFirmware.Boot EspFirmware.Lib
open EspFirmware.Nvs (Byte Word)

def spanOf (segments : List EspImageSegmentHeader) : Nat := (segments.map fun s => 8 + s.dataLen.toNat).sum

def endOfSegments (offset : Nat) (segments : List EspImageSegmentHeader) : Nat := offset + 8 + spanOf segments

def withChecksum (length : Nat) : Nat := length / 16 * 16 + 16

/-- Header, segment headers, segment data and checksum byte lie in the partition, and the length is the
distance from its start to just past the checksum. -/
structure ImageInside (part : EspPartitionPos) (data : EspImageMetadata) : Prop where
  header : part.offset.toNat + 8 ≤ part.offset.toNat + part.size.toNat
  count : data.segments.length = data.image.segmentCount.toNat
  segment : ∀ before segment after, data.segments = before ++ segment :: after →
    endOfSegments part.offset.toNat before + 8 + segment.dataLen.toNat ≤ part.offset.toNat + part.size.toNat
  checksum : part.offset.toNat + withChecksum (8 + spanOf data.segments) - 1 < part.offset.toNat + part.size.toNat
  length : data.imageLen.toNat = withChecksum (8 + spanOf data.segments)

def LoadsSafely (reads : ImageReads) (part : EspPartitionPos) : Prop :=
  ∃ fuel result, (espImageLoad fuel reads part).run = some result ∧
    ∀ data, result = .ok data → ImageInside part data

section
variable (reads : ImageReads) (part : EspPartitionPos)

def segmentAddr : Nat → Word
  | 0 => part.offset + 8
  | k + 1 => segmentAddr k + 8 + (EspImageSegmentHeader.read (reads.segment k) (segmentAddr k).toNat).dataLen

def segmentAt (k : Nat) : EspImageSegmentHeader :=
  EspImageSegmentHeader.read (reads.segment k) (segmentAddr reads part k).toNat

def imageAt : EspImageHeader := EspImageHeader.read reads.header part.offset.toNat

def segmentsAt (n : Nat) : List EspImageSegmentHeader := (List.range n).map (segmentAt reads part)

structure HeaderAccepted : Prop where
  size : part.size ≤ SIXTEEN_MB
  aligned : part.offset.toNat % 4 = 0
  magic : (imageAt reads part).magic = ESP_IMAGE_HEADER_MAGIC
  count : (imageAt reads part).segmentCount.toNat ≤ ESP_IMAGE_MAX_SEGMENTS

/-- The loader reads the data of a segment: its length is a multiple of four, and there is a buffer. -/
def SegmentAccepted (k : Nat) : Prop := (segmentAt reads part k).dataLen.toNat % 4 = 0 ∧ reads.buffer k = true

def segmentWords (k : Nat) : List Word :=
  (List.range (((segmentAt reads part k).dataLen.toNat + 1023) / 1024)).flatMap fun c =>
    (List.range (min 1024 ((segmentAt reads part k).dataLen.toNat - 1024 * c) / 4)).map fun j =>
      (reads.segment k).load32 ((segmentAddr reads part k + 8 + BitVec.ofNat 32 (1024 * c)).toNat + 4 * j)

def checksumAt (n : Nat) : Word :=
  ((List.range n).flatMap (segmentWords reads part)).foldl (· ^^^ ·) ESP_ROM_CHECKSUM_INITIAL

def endAddr : Word := segmentAddr reads part (imageAt reads part).segmentCount.toNat

def exactLength : Nat := withChecksum (8 + spanOf (segmentsAt reads part (imageAt reads part).segmentCount.toNat))

def ChecksumFits : Prop :=
  foldWord (checksumAt reads part (imageAt reads part).segmentCount.toNat) =
    reads.checksum ((endAddr reads part).toNat +
      ((endAddr reads part - part.offset + 1 + 15 &&& ~~~(15 : Word)) - (endAddr reads part - part.offset) - 1).toNat)

instance : Decidable (ChecksumFits reads part) := inferInstanceAs (Decidable (_ = _))

/-- Everything the loader looks at is as it wants it, where it takes the length modulo 2 ^ 32. -/
structure ImageAccepted : Prop where
  header : HeaderAccepted reads part
  segments : ∀ k < (imageAt reads part).segmentCount.toNat, SegmentAccepted reads part k
  noWrap : part.offset ≤ endAddr reads part
  checksum : ChecksumFits reads part
  length : exactLength reads part % 2 ^ 32 ≤ part.size.toNat

/-- No segment the loader reaches is longer than its counter can count, and an image it has no other
objection to is shorter than 4 GiB. -/
structure LoadsSafelyWhen : Prop where
  counted : HeaderAccepted reads part → ∀ k < (imageAt reads part).segmentCount.toNat,
    (∀ j ≤ k, SegmentAccepted reads part j) → (segmentAt reads part k).dataLen.toNat ≤ 0xFFFFFC00
  short : ImageAccepted reads part → exactLength reads part < 2 ^ 32

end

section
variable (flash : Memory) (part : EspPartitionPos)

def segmentCountAt : Nat := (flash (part.offset.toNat + 1)).toNat

def segmentPlace : Nat → Nat
  | 0 => part.offset.toNat + 8
  | k + 1 => segmentPlace k + 8 + (flash.load32 (segmentPlace k + 4)).toNat

def dataLength (k : Nat) : Nat := (flash.load32 (segmentPlace flash part k + 4)).toNat

def dataBytes (k : Nat) : List Byte := flash.load (segmentPlace flash part k + 8) (dataLength flash part k)

def paddedLength : Nat := withChecksum (segmentPlace flash part (segmentCountAt flash part) - part.offset.toNat)

structure ImageHeld : Prop where
  magic : flash part.offset.toNat = ESP_IMAGE_HEADER_MAGIC
  count : segmentCountAt flash part ≤ ESP_IMAGE_MAX_SEGMENTS
  whole : ∀ k < segmentCountAt flash part, dataLength flash part k % 4 = 0
  inside : paddedLength flash part ≤ part.size.toNat
  addressed : part.offset.toNat + paddedLength flash part ≤ 2 ^ 32

def ChecksumRight : Prop :=
  flash (part.offset.toNat + paddedLength flash part - 1) =
    ((List.range (segmentCountAt flash part)).flatMap (dataBytes flash part)).foldl (· ^^^ ·) 0xEF

def ChecksumCalled (fuel : Nat) (checksumWord unpaddedLength : Word) : Prop :=
  HeaderAccepted (.of flash) part ∧ ∃ done,
    (segmentLoop fuel (.of flash) (segmentCountAt flash part) 0 (part.offset + 8) ESP_ROM_CHECKSUM_INITIAL).run =
        some (.ok done) ∧
      ¬ done.nextAddr < part.offset ∧ done.checksum = checksumWord ∧ done.nextAddr - part.offset = unpaddedLength

structure ChecksumOfFormat : Prop where
  accepts : ∀ fuel checksumWord unpaddedLength, ChecksumCalled flash part fuel checksumWord unpaddedLength →
    ((∃ length, (verifyChecksum flash checksumWord part.offset unpaddedLength).run = some (.ok length)) ↔
      ChecksumRight flash part)
  called : part.offset.toNat % 4 = 0 → part.size ≤ SIXTEEN_MB → ∃ enough, ∀ fuel ≥ enough,
    (∃ checksumWord unpaddedLength, ChecksumCalled flash part fuel checksumWord unpaddedLength) ∧
      ((∃ data, (espImageLoad fuel (.of flash) part).run = some (.ok data)) ↔ ChecksumRight flash part)

end

section
open ImageRead
variable (r : FlashReader) (heap : Nat → Option Lib.Memory) (buf : Lib.Memory) (part : EspPartitionPos)

def leftAt : Nat → Nat × Word
  | 0 => (1, part.offset + 8)
  | k + 1 =>
      let dataLen := (EspImageSegmentHeader.read (r.read (leftAt k).1 (leftAt k).2 8 zeroBuffer) 0).dataLen
      ((leftAt k).1 + 1 + (dataLen.toNat + 1023) / 1024, (leftAt k).2 + 8 + dataLen)

def headerLeft (k : Nat) : Lib.Memory := r.read (leftAt r part k).1 (leftAt r part k).2 8 zeroBuffer

def dataLenLeft (k : Nat) : Word := (EspImageSegmentHeader.read (headerLeft r part k) 0).dataLen

def chunkLeft (k : Nat) : Nat → Lib.Memory
  | 0 => (heap k).getD zeroBuffer
  | c + 1 =>
      r.read ((leftAt r part k).1 + 1 + c) ((leftAt r part k).2 + 8 + BitVec.ofNat 32 (1024 * c))
        (min 1024 ((dataLenLeft r part k).toNat - 1024 * c)) (chunkLeft k c)

def segmentLeft (k : Nat) : Lib.Memory := fun x =>
  let offset := (x + 2 ^ 32 - (leftAt r part k).2.toNat) % 2 ^ 32
  if offset < 8 then headerLeft r part k offset
  else chunkLeft r heap part k ((offset - 8) / 1024 + 1) ((offset - 8) % 1024)

def segmentCountLeft : Nat := (EspImageHeader.read (r.read 0 part.offset 8 zeroBuffer) 0).segmentCount.toNat

def checksumLeft : Lib.Memory :=
  let (calls, endAddr) := leftAt r part (segmentCountLeft r part)
  let unpadded := endAddr - part.offset
  r.read calls endAddr (((unpadded + 1 + 15) &&& ~~~(15 : Word)) - unpadded).toNat buf

def leftBy : ImageReads where
  header := fun x => r.read 0 part.offset 8 zeroBuffer (x - part.offset.toNat)
  segment := segmentLeft r heap part
  checksum := fun x => checksumLeft r buf part (x - (leftAt r part (segmentCountLeft r part)).2.toNat)
  buffer := fun k => (heap k).isSome

structure LeavesImage : Prop where
  accepted : ImageAccepted (leftBy r heap buf part) part
  counted : ∀ k < segmentCountLeft r part, (dataLenLeft r part k).toNat ≤ 0xFFFFFC00

def readCount : Nat := (leftAt r part (segmentCountLeft r part)).1 + 1

/-- The loader comes through a segment: its length is a multiple of four that can be counted, and there is a buffer. -/
def SegmentLeft (k : Nat) : Prop :=
  (dataLenLeft r part k).toNat % 4 = 0 ∧ (dataLenLeft r part k).toNat ≤ 0xFFFFFC00 ∧ (heap k).isSome

inductive ReadMade : Nat → Prop where
  | image (size : part.size ≤ SIXTEEN_MB) (aligned : part.offset.toNat % 4 = 0) : ReadMade 0
  | header (k : Nat) (image : HeaderAccepted (leftBy r heap buf part) part) (inside : k < segmentCountLeft r part)
      (before : ∀ j < k, SegmentLeft r heap part j) : ReadMade (leftAt r part k).1
  | chunk (k c : Nat) (image : HeaderAccepted (leftBy r heap buf part) part) (inside : k < segmentCountLeft r part)
      (through : ∀ j ≤ k, SegmentLeft r heap part j) (more : 1024 * c < (dataLenLeft r part k).toNat) :
      ReadMade ((leftAt r part k).1 + 1 + c)
  | checksum (image : HeaderAccepted (leftBy r heap buf part) part)
      (through : ∀ j < segmentCountLeft r part, SegmentLeft r heap part j)
      (noWrap : part.offset ≤ (leftAt r part (segmentCountLeft r part)).2) :
      ReadMade (leftAt r part (segmentCountLeft r part)).1

/-- What a read leaves is refused: a wrong magic or too many segments in the image header, a length in the header of a
segment that is not whole, cannot be counted or does not fit the partition, or data and a checksum that differ. -/
inductive ShowsUp : Nat → Prop where
  | image (wrong : (imageAt (leftBy r heap buf part) part).magic ≠ ESP_IMAGE_HEADER_MAGIC ∨
      ESP_IMAGE_MAX_SEGMENTS < segmentCountLeft r part) : ShowsUp 0
  | length (k : Nat) (inside : k < segmentCountLeft r part)
      (wrong : (dataLenLeft r part k).toNat % 4 ≠ 0 ∨ 0xFFFFFC00 < (dataLenLeft r part k).toNat) :
      ShowsUp (leftAt r part k).1
  | extent (k : Nat) (header : k = 0 ∨ ∃ j < segmentCountLeft r part, k = (leftAt r part j).1)
      (wrong : endAddr (leftBy r heap buf part) part < part.offset ∨
        part.size.toNat < exactLength (leftBy r heap buf part) part % 2 ^ 32) : ShowsUp k
  | checksum (k : Nat) (wrong : ¬ ChecksumFits (leftBy r heap buf part) part) : ShowsUp k

def FailuresShow : Prop :=
  (∃ k, r.fails k = true ∧ ReadMade r heap buf part k) →
    ∃ k, r.fails k = true ∧ ReadMade r heap buf part k ∧ ShowsUp r heap buf part k

def ReadErrorsStop : Prop :=
  ∀ fuel data, let ran := ImageRead.espImageLoad r fuel heap buf part ⟨0, data⟩ ()
    (∃ k < ran.volatile.calls, r.fails k = true) →
      ran.outcome ≠ .ok () ∧ ∀ e, ran.outcome = .err e → ran.volatile.data = zeroed

end

end EspFirmware.Spec
