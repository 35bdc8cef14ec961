import EspFirmware.Heap.Caps
import EspFirmware.Lib.Run

/-!
What the heap promises its callers, and the runs it promises it for.
-/

namespace EspFirmware.Spec
open EspFirmware.Lib EspFirmware.Heap

variable {n : Nat}

structure Alloc where
  ptr : Nat
  size : Nat
  caps : Word
  deriving DecidableEq, Repr

inductive HeapEvent where
  | malloc (size : Nat) (caps file line : Word)
  | zalloc (size : Nat) (caps file line : Word)
  | calloc (count size : Nat) (caps file line : Word)
  | realloc (mem newsize : Nat) (caps file line : Word)
  | free (ptr : Nat)
  | trace (on : Bool)
  | write (address : Nat) (byte : BitVec 8)
  deriving DecidableEq, Repr

structure HeapRun (n : Nat) where
  heap : HeapCaps n
  live : List Alloc
  history : List (HeapCaps n)

namespace HeapRun

def start (h : HeapCaps n) : HeapRun n := ⟨h, [], [h]⟩

def moveTo (run : HeapRun n) (h : HeapCaps n) : HeapRun n :=
  { run with heap := h, history := h :: run.history }

def give (run : HeapRun n) (ptr size : Nat) (caps : Word) : HeapRun n :=
  if ptr ≠ 0 then { run with live := ⟨ptr, size, caps⟩ :: run.live } else run

def takeBack (run : HeapRun n) (ptr : Nat) : HeapRun n :=
  { run with live := run.live.filter fun a => a.ptr ≠ ptr }

end HeapRun

def HeapEvent.run : HeapEvent → HeapRun n → Option (HeapRun n)
  | .malloc size caps file line, run =>
      (heapCapsMalloc size caps file line run.heap).map fun (h, p) => (run.moveTo h).give p size caps
  | .zalloc size caps file line, run =>
      (heapCapsZalloc size caps file line run.heap).map fun (h, p) => (run.moveTo h).give p size caps
  | .calloc count size caps file line, run =>
      (heapCapsCalloc count size caps file line run.heap).map fun (h, p) =>
        (run.moveTo h).give p (count * size) caps
  | .realloc mem newsize caps file line, run =>
      (reallocCopy mem newsize caps file line run.heap).map fun (h, p) =>
        let given := (run.moveTo h).give p newsize caps
        if p ≠ 0 ∧ mem ≠ 0 then (given.moveTo (heapCapsFree mem h)).takeBack mem else given
  | .free ptr, run => some ((run.moveTo (heapCapsFree ptr run.heap)).takeBack ptr)
  | .trace on, run => some (run.moveTo (heapTraceSet on run.heap))
  | .write address byte, run =>
      some (run.moveTo { run.heap with memory := Function.update run.heap.memory address byte })

/-- Requests are below half the address space, and callers only use what they were given. -/
def HeapEvent.Allowed (run : HeapRun n) : HeapEvent → Prop
  | .malloc size _ _ _ => size < 2 ^ 31
  | .zalloc size _ _ _ => size < 2 ^ 31
  | .calloc count size _ _ _ => count * size < 2 ^ 31
  | .realloc mem newsize _ _ _ => newsize < 2 ^ 31 ∧ (mem = 0 ∨ mem ∈ run.live.map Alloc.ptr)
  | .free ptr => ptr = 0 ∨ ptr ∈ run.live.map Alloc.ptr
  | .trace _ => True
  | .write address _ => ∃ a ∈ run.live, a.ptr ≤ address ∧ address < a.ptr + a.size

def runHeap : List HeapEvent → HeapRun n → Option (HeapRun n)
  | [], run => some run
  | e :: rest, run => (e.run run).bind (runHeap rest)

def AllowedRun : List HeapEvent → HeapRun n → Prop
  | [], _ => True
  | e :: rest, run => HeapEvent.Allowed run e ∧ ∀ run', e.run run = some run' → AllowedRun rest run'

def Chained (m : Memory) : List Nat → Prop
  | a :: b :: rest => (memBlkNext m a = b ∧ memBlkPrev m b = a) ∧ Chained m (b :: rest)
  | _ => True

structure RegionOk (m : Memory) (r : HeapRegion) (blocks : List Nat) : Prop where
  chained : Chained m (blocks ++ [memEnd r])
  increasing : (blocks ++ [memEnd r]).Pairwise (· < ·)
  first : (blocks ++ [memEnd r]).head? = some (memStart r)
  noPrev : memBlkPrev m (memStart r) = 0
  noNext : memBlkNext m (memEnd r) = 0
  freeBytes : r.freeBytes = ((blocks.filter fun b => !memBlkIsUsed m b).map (blkLinkSize m)).sum

structure Area where
  address : Nat
  size : Nat

def Area.Apart (a b : Area) : Prop := a.address + a.size ≤ b.address ∨ b.address + b.size ≤ a.address

def headerArea (m : Memory) (blk : Nat) : Area := ⟨blk, memBlkHeadSize (memBlkIsTraced m blk)⟩

def regionHeaders (m : Memory) (r : HeapRegion) (blocks : List Nat) : List Area :=
  blocks.map (headerArea m) ++ [⟨memEnd r, MEM_HEAD_SIZE⟩]

def Alloc.area (a : Alloc) : Area := ⟨a.ptr, a.size⟩

def AllocOk (h : HeapCaps n) (blocks : Fin n → List Nat) (a : Alloc) : Prop :=
  let traced := ptrIsTraced h.memory a.ptr
  let blk := ptr2blk a.ptr traced
  ∃ num, blk ∈ blocks num ∧ (h.region num).caps &&& a.caps = a.caps ∧ memBlkIsUsed h.memory blk = true ∧
    a.ptr = blk2ptr blk traced ∧ memBlkHeadSize traced + a.size ≤ blkLinkSize h.memory blk

structure HeapOk (run : HeapRun n) (blocks : Fin n → List Nat) : Prop where
  regions : ∀ num, RegionOk run.heap.memory (run.heap.region num) (blocks num)
  allocs : ∀ a ∈ run.live, AllocOk run.heap blocks a
  disjoint : (((List.finRange n).flatMap fun num =>
      regionHeaders run.heap.memory (run.heap.region num) (blocks num)) ++
    run.live.map Alloc.area).Pairwise Area.Apart
  minReached : ∀ num, ∃ h ∈ run.history, (h.region num).freeBytes = (run.heap.region num).minFreeBytes
  minLeast : ∀ num, ∀ h ∈ run.history, (run.heap.region num).minFreeBytes ≤ (h.region num).freeBytes

def NoFreeNeighbours (m : Memory) : List Nat → Prop
  | a :: b :: rest => (memBlkIsUsed m a = true ∨ memBlkIsUsed m b = true) ∧ NoFreeNeighbours m (b :: rest)
  | _ => True

/-- Free memory is in one piece wherever it can be: free blocks are joined, `free_blk` is the first of them
(or the end), a request is refused only where no free block is large enough, and when every allocation has
been given back each region is what it was at the start. -/
structure HeapWhole (start : HeapCaps n) (run : HeapRun n) (blocks : Fin n → List Nat) : Prop where
  regions : ∀ num, RegionOk run.heap.memory (run.heap.region num) (blocks num)
  joined : ∀ num, NoFreeNeighbours run.heap.memory (blocks num)
  freeBlk : ∀ num, (run.heap.region num).freeBlk =
    ((blocks num).find? fun b => !memBlkIsUsed run.heap.memory b).getD (memEnd (run.heap.region num))
  refused : ∀ size caps file line h', size < 2 ^ 31 →
    heapCapsMalloc size caps file line run.heap = some (h', 0) →
    ∀ num, (run.heap.region num).caps &&& caps = caps → ∀ b ∈ blocks num, memBlkIsUsed run.heap.memory b = false →
      blkLinkSize run.heap.memory b < ptr2memblkSize size run.heap.trace
  returned : run.live = [] → ∀ num, blocks num = [memStart (run.heap.region num)] ∧
    memBlkIsUsed run.heap.memory (memStart (run.heap.region num)) = false ∧
    (run.heap.region num).freeBytes = (start.region num).freeBytes

/-- `a` is a block of the heap with room for all of it, apart from every header and every live allocation. -/
def Granted (h : HeapCaps n) (live : List Alloc) (a : Alloc) : Prop :=
  ∃ blocks : Fin n → List Nat, (∀ num, RegionOk h.memory (h.region num) (blocks num)) ∧ AllocOk h blocks a ∧
    (∀ num, ∀ area ∈ regionHeaders h.memory (h.region num) (blocks num), Area.Apart area a.area) ∧
    ∀ b ∈ live, Area.Apart a.area b.area

def Served (run : HeapRun n) (bytes : Nat) (caps : Word) (result : Option (HeapCaps n × Nat)) : Prop :=
  result = some (run.heap, 0) ∨
    ∃ h' ptr, result = some (h', ptr) ∧ ptr ≠ 0 ∧ Granted h' run.live ⟨ptr, bytes, caps⟩

def blocksFrom (m : Memory) (end_ : Nat) : Nat → Nat → List Nat
  | 0, _ => []
  | fuel + 1, blk => if blk = end_ then [] else blk :: blocksFrom m end_ fuel (memBlkNext m blk)

def heapBlocks (h : HeapCaps n) (num : Fin n) : List Nat :=
  blocksFrom h.memory (memEnd (h.region num)) ADDRESSES (memStart (h.region num))

/-- With its header, and rounded up to a multiple of four, the request stays below 2^32. -/
def Counted (h : HeapCaps n) (bytes : Nat) : Prop := bytes + memBlkHeadSize h.trace + 3 < 2 ^ 32

def NoBlockFor (h : HeapCaps n) (bytes : Nat) (caps : Word) : Prop :=
  ∀ num, (h.region num).caps &&& caps = caps → ∀ blk ∈ heapBlocks h num, memBlkIsUsed h.memory blk = false →
    blkLinkSize h.memory blk < ptr2memblkSize (wrap bytes) h.trace

def Fits (h : HeapCaps n) (bytes : Nat) (caps : Word) : Prop := Counted h bytes ∨ NoBlockFor h bytes caps

/-- Sizes are 32 bits wide, each request fits, and callers only use what they were given. -/
def HeapEvent.Fitting (run : HeapRun n) : HeapEvent → Prop
  | .malloc size caps _ _ => size < 2 ^ 32 ∧ Fits run.heap size caps
  | .zalloc size caps _ _ => size < 2 ^ 32 ∧ Fits run.heap size caps
  | .calloc count size caps _ _ => count < 2 ^ 32 ∧ size < 2 ^ 32 ∧ Fits run.heap (count * size) caps
  | .realloc mem newsize caps _ _ =>
      newsize < 2 ^ 32 ∧ Fits run.heap newsize caps ∧ (mem = 0 ∨ mem ∈ run.live.map Alloc.ptr)
  | .free ptr => ptr = 0 ∨ ptr ∈ run.live.map Alloc.ptr
  | .trace _ => True
  | .write address _ => ∃ a ∈ run.live, a.ptr ≤ address ∧ address < a.ptr + a.size

abbrev EachHeapStep (may : HeapRun n → HeapEvent → Prop) : List HeapEvent → HeapRun n → Prop :=
  EachStep (fun run e => HeapEvent.run e run) may

end EspFirmware.Spec
