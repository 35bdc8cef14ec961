import EspFirmware.Lib.Memory

/-!
The heap of `esp_heap_caps.c`, with the block headers of `esp_heap_caps_priv.h` and the regions of
`esp_heap_init.c`. Addresses and sizes are 32 bits wide. A loop over blocks that makes as many rounds as
there are addresses never ends; the functions then have no result.
-/

namespace EspFirmware.Heap
open EspFirmware.Lib Memory

abbrev Word := BitVec 32

def ADDRESSES : Nat := 2 ^ 32

def wrap (n : Nat) : Nat := n % 2 ^ 32

def minus (a b : Nat) : Nat := (a + 2 ^ 32 - b) % 2 ^ 32

def HEAP_ALIGN_SIZE : Nat := 4
def MEM_BLK_MIN : Nat := 1
def MEM_HEAD_SIZE : Nat := 8
def MEM2_HEAD_SIZE : Nat := 16

def heapAlign (ptr : Nat) : Nat := wrap (ptr + (HEAP_ALIGN_SIZE - 1)) / HEAP_ALIGN_SIZE * HEAP_ALIGN_SIZE

def MALLOC_CAP_32BIT : Word := 1 <<< 1
def MALLOC_CAP_8BIT : Word := 1 <<< 2
def MALLOC_CAP_DMA : Word := 1 <<< 3

def MEM_BLK_TAG : Word := topBit
def MEM_BLK_TRACE : Word := topBit

section
variable (m : Memory) (blk : Nat)

def memBlkPrev : Nat := (load32 m blk &&& ~~~ MEM_BLK_TAG).toNat

def memBlkNext : Nat := (load32 m (blk + 4) &&& ~~~ MEM_BLK_TRACE).toNat

def memBlkSetPrev (prev : Nat) : Memory :=
  store32 m blk (BitVec.ofNat 32 prev ||| (load32 m blk &&& MEM_BLK_TAG))

def memBlkSetNext (next : Nat) : Memory :=
  store32 m (blk + 4) (BitVec.ofNat 32 next ||| (load32 m (blk + 4) &&& MEM_BLK_TRACE))

def memBlkHeadSize (trace : Bool) : Nat := if trace then MEM2_HEAD_SIZE else MEM_HEAD_SIZE

def memBlkSetTraced (file line : Word) : Memory :=
  let m := store32 m (blk + 4) (load32 m (blk + 4) ||| MEM_BLK_TRACE)
  let m := store32 m (blk + 8) file
  store32 m (blk + 12) (line ||| MEM_BLK_TRACE)

def memBlkSetUntraced : Memory := store32 m (blk + 4) (load32 m (blk + 4) &&& ~~~ MEM_BLK_TRACE)

def memBlkIsTraced : Bool := load32 m (blk + 4) &&& MEM_BLK_TRACE ≠ 0

def memBlkSetUsed : Memory := store32 m blk (load32 m blk ||| MEM_BLK_TAG)

def memBlkSetUnused : Memory := store32 m blk (load32 m blk &&& ~~~ MEM_BLK_TAG)

def memBlkIsUsed : Bool := load32 m blk &&& MEM_BLK_TAG ≠ 0

def memBlkIsEnd : Bool := memBlkNext m blk = 0

def blkLinkSize : Nat := minus (memBlkNext m blk) blk

end

def ptr2memblkSize (size : Nat) (trace : Bool) : Nat := heapAlign (wrap (size + memBlkHeadSize trace))

def ptrIsTraced (m : Memory) (ptr : Nat) : Bool := load32 m (ptr - 4) &&& MEM_BLK_TRACE ≠ 0

def ptr2blk (ptr : Nat) (trace : Bool) : Nat := ptr - memBlkHeadSize trace

def blk2ptr (blk : Nat) (trace : Bool) : Nat := blk + memBlkHeadSize trace

def ptrSize (m : Memory) (ptr : Nat) : Nat :=
  let traced := ptrIsTraced m ptr
  minus (blkLinkSize m (ptr2blk ptr traced)) (memBlkHeadSize traced)

structure HeapRegion where
  startAddr : Nat
  totalSize : Nat
  caps : Word
  freeBlk : Nat
  freeBytes : Nat
  minFreeBytes : Nat
  deriving DecidableEq, Repr

structure HeapCaps (n : Nat) where
  memory : Memory
  region : Fin n → HeapRegion
  trace : Bool

variable {n : Nat}

def memStart (r : HeapRegion) : Nat := heapAlign r.startAddr

def memEnd (r : HeapRegion) : Nat :=
  let end_ := r.startAddr + r.totalSize
  let aligned := heapAlign end_
  (if aligned ≠ end_ then aligned - 4 else aligned) - MEM_HEAD_SIZE

def initRegion (h : HeapCaps n) (num : Fin n) : HeapCaps n :=
  let r := h.region num
  let m := store32 h.memory (memStart r) 0
  let m := store32 m (memStart r + 4) (BitVec.ofNat 32 (memEnd r))
  let m := store32 m (memEnd r) (BitVec.ofNat 32 (memStart r))
  let m := store32 m (memEnd r + 4) 0
  let size := blkLinkSize m (memStart r)
  { h with
    memory := m,
    region := Function.update h.region num
      { r with freeBlk := memStart r, freeBytes := size, minFreeBytes := size } }

def espHeapCapsInitRegion (h : HeapCaps n) : HeapCaps n := (List.finRange n).foldl initRegion h

def HEAP_REGIONS_MAX (fullIcache : Bool) : Nat := if fullIcache then 1 else 2

structure LinkerSymbols where
  lit4End : Nat
  heapStart : Nat
  iram : 0x40100000 ≤ lit4End ∧ lit4End + 32 ≤ 0x4010C000
  dram : 0x3FFE8000 ≤ heapStart ∧ heapStart + 32 ≤ 0x40000000

def heapRegions (fullIcache : Bool) (symbols : LinkerSymbols) (num : Fin (HEAP_REGIONS_MAX fullIcache)) :
    HeapRegion :=
  if num.val + 1 = HEAP_REGIONS_MAX fullIcache then
    ⟨symbols.heapStart, 0x40000000 - symbols.heapStart, MALLOC_CAP_8BIT ||| MALLOC_CAP_32BIT ||| MALLOC_CAP_DMA,
      0, 0, 0⟩
  else ⟨symbols.lit4End, 0x4010C000 - symbols.lit4End, MALLOC_CAP_32BIT, 0, 0, 0⟩

def heapCapsInit (fullIcache : Bool) (symbols : LinkerSymbols) (memory : Memory) :
    HeapCaps (HEAP_REGIONS_MAX fullIcache) :=
  espHeapCapsInitRegion ⟨memory, heapRegions fullIcache symbols, false⟩

def findBlk (m : Memory) (size : Nat) : Nat → Nat → Option Nat
  | 0, _ => none
  | fuel + 1, blk =>
      if blk ≠ 0 ∧ ¬ memBlkIsEnd m blk ∧ (memBlkIsUsed m blk ∨ blkLinkSize m blk < size) then
        findBlk m size fuel (memBlkNext m blk)
      else some blk

def skipUsed (m : Memory) : Nat → Nat → Option Nat
  | 0, _ => none
  | fuel + 1, blk =>
      if blk ≠ 0 ∧ ¬ memBlkIsEnd m blk ∧ memBlkIsUsed m blk then skipUsed m fuel (memBlkNext m blk)
      else some blk

def splitBlk (m : Memory) (blk nextBlk : Nat) : Memory :=
  let m := store32 (store32 m (nextBlk + 4) 0) nextBlk 0
  let m := memBlkSetPrev m nextBlk blk
  let m := memBlkSetNext m nextBlk (memBlkNext m blk)
  let m := memBlkSetPrev m (memBlkNext m blk) nextBlk
  memBlkSetNext m blk nextBlk

def takeBlk (m : Memory) (blk memBlkSize : Nat) (trace : Bool) (file line : Word) : Memory :=
  let nextBlk :=
    if wrap (memBlkSize + memBlkHeadSize trace + MEM_BLK_MIN) ≤ blkLinkSize m blk then wrap (blk + memBlkSize)
    else memBlkNext m blk
  let m := if memBlkNext m blk ≠ nextBlk then splitBlk m blk nextBlk else m
  let m := memBlkSetUsed m blk
  if trace then memBlkSetTraced m blk file line else m

/-- One round of the loop of `_heap_caps_malloc`; the pointer is null if the region has no room. -/
def mallocFrom (size : Nat) (caps file line : Word) (num : Fin n) (h : HeapCaps n) : Option (HeapCaps n × Nat) :=
  let r := h.region num
  let memBlkSize := ptr2memblkSize size h.trace
  if r.caps &&& caps ≠ caps then some (h, 0)
  else if r.freeBytes < memBlkSize then some (h, 0)
  else
    match findBlk h.memory memBlkSize ADDRESSES r.freeBlk with
    | none => none
    | some blk =>
        if blk = 0 ∨ memBlkIsEnd h.memory blk then some (h, 0)
        else
          let m := takeBlk h.memory blk memBlkSize h.trace file line
          match if r.freeBlk = blk then skipUsed m ADDRESSES blk else some r.freeBlk with
          | none => none
          | some freeBlk =>
              let freeBytes := minus r.freeBytes (blkLinkSize m blk)
              let minFreeBytes := if freeBytes < r.minFreeBytes then freeBytes else r.minFreeBytes
              some ({ h with
                      memory := m,
                      region := Function.update h.region num
                        { r with freeBlk := freeBlk, freeBytes := freeBytes, minFreeBytes := minFreeBytes } },
                    blk2ptr blk h.trace)

def mallocLoop (size : Nat) (caps file line : Word) : List (Fin n) → HeapCaps n → Option (HeapCaps n × Nat)
  | [], h => some (h, 0)
  | num :: rest, h =>
      match mallocFrom size caps file line num h with
      | none => none
      | some (h, retMem) => if retMem ≠ 0 then some (h, retMem) else mallocLoop size caps file line rest h

def heapCapsMalloc (size : Nat) (caps file line : Word) (h : HeapCaps n) : Option (HeapCaps n × Nat) :=
  mallocLoop size caps file line (List.finRange n) h

def getBlkRegion (h : HeapCaps n) (ptr : Nat) : Option (Fin n) :=
  (List.finRange n).find? fun num =>
    (h.region num).startAddr < ptr ∧ ptr < wrap ((h.region num).startAddr + (h.region num).totalSize)

def joinBlk (m : Memory) (blk : Nat) : Memory :=
  let prev := memBlkPrev m blk
  let next := memBlkNext m blk
  let last := memBlkNext m next
  let joined := prev ≠ 0 ∧ ¬ memBlkIsUsed m prev
  let m := if joined then memBlkSetPrev (memBlkSetNext m prev next) next prev else m
  let tmp := if joined then prev else blk
  if last ≠ 0 ∧ ¬ memBlkIsUsed m next then memBlkSetPrev (memBlkSetNext m tmp last) last tmp else m

def freeIn (num : Fin n) (blk : Nat) (h : HeapCaps n) : HeapCaps n :=
  let r := h.region num
  let m := memBlkSetUntraced (memBlkSetUnused h.memory blk) blk
  { h with
    memory := joinBlk m blk,
    region := Function.update h.region num
      { r with
        freeBytes := wrap (r.freeBytes + blkLinkSize h.memory blk),
        freeBlk := if blk < r.freeBlk then blk else r.freeBlk } }

def heapCapsFree (ptr : Nat) (h : HeapCaps n) : HeapCaps n :=
  if ptr = 0 then h
  else
    match getBlkRegion h ptr with
    | none => h
    | some num =>
        let blk := ptr2blk ptr (ptrIsTraced h.memory ptr)
        if memBlkIsUsed h.memory blk then freeIn num blk h else h

def heapCapsZalloc (size : Nat) (caps file line : Word) (h : HeapCaps n) : Option (HeapCaps n × Nat) :=
  match heapCapsMalloc size caps file line h with
  | none => none
  | some (h, p) => some (if p ≠ 0 then { h with memory := fill h.memory p size 0 } else h, p)

def heapCapsCalloc (count size : Nat) (caps file line : Word) (h : HeapCaps n) : Option (HeapCaps n × Nat) :=
  heapCapsZalloc (wrap (count * size)) caps file line h

def reallocCopy (mem newsize : Nat) (caps file line : Word) (h : HeapCaps n) : Option (HeapCaps n × Nat) :=
  match heapCapsMalloc newsize caps file line h with
  | none => none
  | some (h, p) =>
      some (if p ≠ 0 ∧ mem ≠ 0 then
        { h with memory := copy h.memory p mem (min newsize (ptrSize h.memory mem)) } else h, p)

def heapCapsRealloc (mem newsize : Nat) (caps file line : Word) (h : HeapCaps n) : Option (HeapCaps n × Nat) :=
  match reallocCopy mem newsize caps file line h with
  | none => none
  | some (h, p) => some (if p ≠ 0 ∧ mem ≠ 0 then heapCapsFree mem h else h, p)

def heapTraceSet (trace : Bool) (h : HeapCaps n) : HeapCaps n := { h with trace := trace }

end EspFirmware.Heap
