import Mathlib.Algebra.Ring.Int.Defs
import EspFirmware.Lib.Memory

/-!
The ring buffers of FreeRTOS (`ringbuf.c`): what is done to a buffer inside one critical section. A failed
`configASSERT` is `none`.
-/

namespace EspFirmware.Rtos
open EspFirmware.Lib Memory

def configASSERT {α : Type} (c : Prop) [Decidable c] (rest : Option α) : Option α := if c then rest else none

def rbALIGN_SIZE (xSize : Nat) : Nat := (xSize + 3) / 4 * 4

def rbAligned (pvPtr : Nat) : Prop := pvPtr % 4 = 0

instance (pvPtr : Nat) : Decidable (rbAligned pvPtr) := inferInstanceAs (Decidable (pvPtr % 4 = 0))

inductive RingbufType where
  | noSplit
  | allowSplit
  | byteBuf
  deriving DecidableEq, Repr

def rbITEM_FREE_FLAG : BitVec 32 := 1
def rbITEM_DUMMY_DATA_FLAG : BitVec 32 := 2
def rbITEM_SPLIT_FLAG : BitVec 32 := 4

def rbHEADER_SIZE : Nat := 8

def xItemLen (m : Memory) (header : Nat) : Nat := (load32 m header).toNat

def uxItemFlags (m : Memory) (header : Nat) : BitVec 32 := load32 m (header + 4)

def setItemLen (m : Memory) (header len : Nat) : Memory := store32 m header (BitVec.ofNat 32 len)

def setItemFlags (m : Memory) (header : Nat) (flags : BitVec 32) : Memory := store32 m (header + 4) flags

/-- The buffer and the memory it is in. Its type stands for the type flags and the function pointers. No pointer moves
past `pucTail` in any run (`Placed` and `BytePointers` are the invariants), so that what is left before it is a number. -/
structure Ringbuffer where
  type : RingbufType
  xSize : Nat
  full : Bool
  xMaxItemSize : Nat
  pucWrite : Nat
  pucRead : Nat
  pucFree : Nat
  pucHead : Nat
  pucTail : Nat
  xItemsWaiting : Int
  memory : Memory

/-- What a reader is given: where it is and how long, and whether it is the first part of an item. -/
structure Part where
  ptr : Nat
  size : Nat
  split : Bool
  deriving DecidableEq, Repr

namespace Ringbuffer
variable (rb : Ringbuffer)

def writeInBounds : Prop := rb.pucHead ≤ rb.pucWrite ∧ rb.pucWrite < rb.pucTail

def readInBounds : Prop := rb.pucHead ≤ rb.pucRead ∧ rb.pucRead < rb.pucTail

instance : Decidable rb.writeInBounds := inferInstanceAs (Decidable (_ ∧ _))

instance : Decidable rb.readInBounds := inferInstanceAs (Decidable (_ ∧ _))

def prvGetFreeSize : Option Nat :=
  let xReturn : Int :=
    if rb.full then 0
    else
      let xFreeSize : Int := rb.pucFree - rb.pucWrite
      if xFreeSize ≤ 0 then xFreeSize + rb.xSize else xFreeSize
  configASSERT (xReturn.toNat ≤ rb.xSize) (some xReturn.toNat)

def prvCheckItemFitsDefault (xItemSize : Nat) : Option Bool :=
  configASSERT (rbAligned rb.pucWrite) <|
  configASSERT rb.writeInBounds <|
  let xTotalItemSize := rbALIGN_SIZE xItemSize + rbHEADER_SIZE
  some <|
    if rb.pucWrite = rb.pucFree then !rb.full
    else if rb.pucFree > rb.pucWrite then xTotalItemSize ≤ rb.pucFree - rb.pucWrite
    else if xTotalItemSize ≤ rb.pucTail - rb.pucWrite then true
    else if rb.type = .allowSplit then
      xTotalItemSize + rbHEADER_SIZE ≤ rb.xSize - (rb.pucWrite - rb.pucFree)
    else xTotalItemSize ≤ rb.pucFree - rb.pucHead

def prvCheckItemFitsByteBuffer (xItemSize : Nat) : Option Bool :=
  configASSERT rb.writeInBounds <|
  some <|
    if rb.pucWrite = rb.pucFree then !rb.full
    else if rb.pucFree > rb.pucWrite then xItemSize ≤ rb.pucFree - rb.pucWrite
    else xItemSize ≤ rb.xSize - (rb.pucWrite - rb.pucFree)

def xCheckItemFits (xItemSize : Nat) : Option Bool :=
  match rb.type with
  | .noSplit | .allowSplit => rb.prvCheckItemFitsDefault xItemSize
  | .byteBuf => rb.prvCheckItemFitsByteBuffer xItemSize

def somethingToRead : Prop := rb.xItemsWaiting > 0 ∧ (rb.pucRead ≠ rb.pucWrite ∨ rb.full)

instance : Decidable rb.somethingToRead := inferInstanceAs (Decidable (_ ∧ _))

def prvCheckItemAvail : Bool :=
  if rb.type = .byteBuf ∧ rb.pucRead ≠ rb.pucFree then false else rb.somethingToRead

def markFull : Ringbuffer := if rb.pucWrite = rb.pucFree then { rb with full := true } else rb

/-- An item behind its header at the write pointer, which then wraps around if no header fits behind it. -/
def writeItem (item : List (BitVec 8)) (xAlignedItemSize : Nat) : Ringbuffer :=
  let m := setItemLen rb.memory rb.pucWrite item.length
  let m := setItemFlags m rb.pucWrite 0
  let m := store m (rb.pucWrite + rbHEADER_SIZE) item
  let pucWrite := rb.pucWrite + rbHEADER_SIZE + xAlignedItemSize
  { rb with
    memory := m
    xItemsWaiting := rb.xItemsWaiting + 1
    pucWrite := if rb.pucTail - pucWrite < rbHEADER_SIZE then rb.pucHead else pucWrite }

def prvCopyItemNoSplit (item : List (BitVec 8)) : Option Ringbuffer :=
  let xAlignedItemSize := rbALIGN_SIZE item.length
  let xRemLen := rb.pucTail - rb.pucWrite
  configASSERT (rbAligned rb.pucWrite) <|
  configASSERT rb.writeInBounds <|
  configASSERT (xRemLen ≥ rbHEADER_SIZE) <|
  let rb :=
    if xRemLen < xAlignedItemSize + rbHEADER_SIZE then
      { rb with
        memory := setItemLen (setItemFlags rb.memory rb.pucWrite rbITEM_DUMMY_DATA_FLAG) rb.pucWrite 0
        pucWrite := rb.pucHead }
    else rb
  some (rb.writeItem item xAlignedItemSize).markFull

def writeFirstPart (item : List (BitVec 8)) : Ringbuffer :=
  let xRemLen := rb.pucTail - rb.pucWrite - rbHEADER_SIZE
  let m := setItemFlags rb.memory rb.pucWrite 0
  let m := setItemLen m rb.pucWrite xRemLen
  if xRemLen > 0 then
    let m := store m (rb.pucWrite + rbHEADER_SIZE) (item.take xRemLen)
    { rb with
      memory := setItemFlags m rb.pucWrite (uxItemFlags m rb.pucWrite ||| rbITEM_SPLIT_FLAG)
      xItemsWaiting := rb.xItemsWaiting + 1
      pucWrite := rb.pucHead }
  else
    { rb with
      memory := setItemFlags m rb.pucWrite (uxItemFlags m rb.pucWrite ||| rbITEM_DUMMY_DATA_FLAG)
      pucWrite := rb.pucHead }

def prvCopyItemAllowSplit (item : List (BitVec 8)) : Option Ringbuffer :=
  let xAlignedItemSize := rbALIGN_SIZE item.length
  let xRemLen := rb.pucTail - rb.pucWrite
  configASSERT (rbAligned rb.pucWrite) <|
  configASSERT rb.writeInBounds <|
  configASSERT (xRemLen ≥ rbHEADER_SIZE) <|
  some <|
    if xRemLen < xAlignedItemSize + rbHEADER_SIZE then
      ((rb.writeFirstPart item).writeItem (item.drop (xRemLen - rbHEADER_SIZE))
        (xAlignedItemSize - (xRemLen - rbHEADER_SIZE))).markFull
    else (rb.writeItem item xAlignedItemSize).markFull

def writeBytes (bytes : List (BitVec 8)) : Ringbuffer :=
  { rb with
    memory := store rb.memory rb.pucWrite bytes
    xItemsWaiting := rb.xItemsWaiting + bytes.length
    pucWrite := rb.pucWrite + bytes.length }

def prvCopyItemByteBuf (item : List (BitVec 8)) : Option Ringbuffer :=
  configASSERT rb.writeInBounds <|
  let xRemLen := rb.pucTail - rb.pucWrite
  let rb :=
    if xRemLen < item.length then
      { rb.writeBytes (item.take xRemLen) with pucWrite := rb.pucHead }.writeBytes (item.drop xRemLen)
    else rb.writeBytes item
  let rb := if rb.pucWrite = rb.pucTail then { rb with pucWrite := rb.pucHead } else rb
  some rb.markFull

def vCopyItem (item : List (BitVec 8)) : Option Ringbuffer :=
  match rb.type with
  | .noSplit => rb.prvCopyItemNoSplit item
  | .allowSplit => rb.prvCopyItemAllowSplit item
  | .byteBuf => rb.prvCopyItemByteBuf item

/-- One round of `xRingbufferSend`, and all that `xRingbufferSendFromISR` does: whether the item was sent. -/
def xRingbufferSend (item : List (BitVec 8)) : Option (Bool × Ringbuffer) :=
  if item.length > rb.xMaxItemSize then some (false, rb)
  else if rb.type = .byteBuf ∧ item.length = 0 then some (true, rb)
  else
    (rb.xCheckItemFits item.length).bind fun fits =>
    if fits then (rb.vCopyItem item).bind fun rb => rb.prvGetFreeSize.map fun _ => (true, rb)
    else some (false, rb)

def prvGetItemDefault : Option (Part × Ringbuffer) :=
  configASSERT rb.somethingToRead <|
  configASSERT (rbAligned rb.pucRead) <|
  configASSERT rb.readInBounds <|
  configASSERT (xItemLen rb.memory rb.pucRead ≤ rb.xMaxItemSize ∨
    uxItemFlags rb.memory rb.pucRead &&& rbITEM_DUMMY_DATA_FLAG ≠ 0) <|
  let dummy := uxItemFlags rb.memory rb.pucRead &&& rbITEM_DUMMY_DATA_FLAG ≠ 0
  let header := if dummy then rb.pucHead else rb.pucRead
  configASSERT (¬ dummy ∨ xItemLen rb.memory header ≤ rb.xMaxItemSize) <|
  let pcReturn := header + rbHEADER_SIZE
  let len := xItemLen rb.memory header
  configASSERT (rb.pucHead ≤ pcReturn ∧ if len = 0 then pcReturn ≤ rb.pucTail else pcReturn < rb.pucTail) <|
  let pucRead := header + (rbHEADER_SIZE + rbALIGN_SIZE len)
  some (⟨pcReturn, len, uxItemFlags rb.memory header &&& rbITEM_SPLIT_FLAG ≠ 0⟩,
    { rb with
      xItemsWaiting := rb.xItemsWaiting - 1
      pucRead := if rb.pucTail - pucRead < rbHEADER_SIZE then rb.pucHead else pucRead })

def prvGetItemByteBuf (xMaxSize : Nat) : Option (Part × Ringbuffer) :=
  configASSERT rb.somethingToRead <|
  configASSERT rb.readInBounds <|
  configASSERT (rb.pucRead = rb.pucFree) <|
  let wraps := rb.pucRead > rb.pucWrite ∨ rb.full
  let contiguous := (if wraps then rb.pucTail else rb.pucWrite) - rb.pucRead
  if xMaxSize = 0 ∨ contiguous ≤ xMaxSize then
    some (⟨rb.pucRead, contiguous, false⟩,
      { rb with
        xItemsWaiting := rb.xItemsWaiting - contiguous
        pucRead := if wraps then rb.pucHead else rb.pucWrite })
  else
    some (⟨rb.pucRead, xMaxSize, false⟩,
      { rb with xItemsWaiting := rb.xItemsWaiting - xMaxSize, pucRead := rb.pucRead + xMaxSize })

def pvGetItem (xMaxSize : Nat) : Option (Part × Ringbuffer) :=
  match rb.type with
  | .noSplit | .allowSplit => rb.prvGetItemDefault
  | .byteBuf => rb.prvGetItemByteBuf xMaxSize

def getSecondPart (both : Bool) (first : Part) : Option (List Part × Ringbuffer) :=
  if rb.type = .allowSplit ∧ both ∧ first.split then
    rb.prvGetItemDefault.bind fun (second, rb) =>
    configASSERT (second.ptr < first.ptr) <|
    configASSERT (second.split = false) <|
    some ([first, second], rb)
  else some ([first], rb)

/-- One round of `prvReceiveGeneric`, and all that `prvReceiveGenericFromISR` does: the parts of the item. -/
def prvReceiveGeneric (both : Bool) (xMaxSize : Nat) : Option (List Part × Ringbuffer) :=
  if rb.prvCheckItemAvail then (rb.pvGetItem xMaxSize).bind fun (first, rb) => rb.getSecondPart both first
  else some ([], rb)

def xRingbufferReceive : Option (List Part × Ringbuffer) := rb.prvReceiveGeneric false 0

def xRingbufferReceiveSplit : Option (List Part × Ringbuffer) :=
  configASSERT (rb.type = .allowSplit) (rb.prvReceiveGeneric true 0)

def xRingbufferReceiveUpTo (xMaxSize : Nat) : Option (List Part × Ringbuffer) :=
  configASSERT (rb.type = .byteBuf) <|
  if xMaxSize = 0 then some ([], rb) else rb.prvReceiveGeneric false xMaxSize

def headerFree (flags : BitVec 32) : Bool := flags &&& rbITEM_FREE_FLAG ≠ 0

def headerDummy (flags : BitVec 32) : Bool := flags &&& rbITEM_DUMMY_DATA_FLAG ≠ 0

/-- The loop of `prvReturnItemDefault`; `none` if the free pointer never gets to where it stops. -/
def moveFree : Nat → Ringbuffer → Option Ringbuffer
  | 0, _ => none
  | fuel + 1, rb =>
      let flags := uxItemFlags rb.memory rb.pucFree
      if (headerFree flags ∨ headerDummy flags) ∧ rb.pucFree ≠ rb.pucRead then
        if headerDummy flags then
          moveFree fuel { rb with
            memory := setItemFlags rb.memory rb.pucFree (flags ||| rbITEM_FREE_FLAG)
            pucFree := rb.pucHead }
        else
          let pucFree := rb.pucFree + (rbALIGN_SIZE (xItemLen rb.memory rb.pucFree) + rbHEADER_SIZE)
          configASSERT (pucFree ≤ rb.pucHead + rb.xSize) <|
          moveFree fuel { rb with
            pucFree := if rb.pucTail - pucFree < rbHEADER_SIZE then rb.pucHead else pucFree }
      else some rb

def prvReturnItemDefault (pucItem : Nat) : Option Ringbuffer :=
  configASSERT (rbAligned pucItem) <|
  configASSERT (rb.pucHead ≤ pucItem) <|
  configASSERT (pucItem ≤ rb.pucTail) <|
  let header := pucItem - rbHEADER_SIZE
  let flags := uxItemFlags rb.memory header
  configASSERT (xItemLen rb.memory header ≤ rb.xMaxItemSize) <|
  configASSERT (¬ headerDummy flags) <|
  configASSERT (¬ headerFree flags) <|
  (moveFree (rb.xSize + 1)
    { rb with memory := setItemFlags rb.memory header ((flags &&& ~~~ rbITEM_SPLIT_FLAG) ||| rbITEM_FREE_FLAG) }).map
    fun rb =>
      if rb.full ∧ (rb.pucFree ≠ rb.pucWrite ∨ rb.pucFree = rb.pucRead) then { rb with full := false } else rb

def prvReturnItemByteBuf (pucItem : Nat) : Option Ringbuffer :=
  configASSERT (rb.pucHead ≤ pucItem) <|
  configASSERT (pucItem < rb.pucTail) <|
  some { rb with pucFree := rb.pucRead, full := false }

def vReturnItem (pvItem : Nat) : Option Ringbuffer :=
  match rb.type with
  | .noSplit | .allowSplit => rb.prvReturnItemDefault pvItem
  | .byteBuf => rb.prvReturnItemByteBuf pvItem

/-- The end of `prvGetCurMaxSizeNoSplit` and `prvGetCurMaxSizeAllowSplit`. The comparison with the maximum is one of
unsigned numbers. -/
def limitFreeSize (xFreeSize : Int) : Nat :=
  if (xFreeSize % 2 ^ 32).toNat > rb.xMaxItemSize then rb.xMaxItemSize
  else if xFreeSize < 0 then 0
  else xFreeSize.toNat

def prvGetCurMaxSizeNoSplit : Nat :=
  if rb.full then 0
  else
    let xFreeSize :=
      if rb.pucWrite < rb.pucFree then rb.pucFree - rb.pucWrite
      else
        let xSize1 := rb.pucTail - rb.pucWrite
        let xSize2 := rb.pucFree - rb.pucHead
        if xSize1 > xSize2 then xSize1 else xSize2
    rb.limitFreeSize (xFreeSize - rbHEADER_SIZE)

def prvGetCurMaxSizeAllowSplit : Nat :=
  if rb.full then 0
  else
    let xFreeSize : Int :=
      if rb.pucWrite = rb.pucHead ∧ rb.pucFree = rb.pucHead then rb.xSize - rbHEADER_SIZE
      else if rb.pucWrite < rb.pucFree then rb.pucFree - rb.pucWrite - rbHEADER_SIZE
      else rb.pucFree - rb.pucHead + (rb.pucTail - rb.pucWrite) - rbHEADER_SIZE * 2
    rb.limitFreeSize xFreeSize

def prvGetCurMaxSizeByteBuf : Nat :=
  if rb.full then 0
  else
    let xFreeSize : Int := rb.pucFree - rb.pucWrite
    if xFreeSize ≤ 0 then (xFreeSize + rb.xSize).toNat else xFreeSize.toNat

def xRingbufferGetCurFreeSize : Nat :=
  match rb.type with
  | .noSplit => rb.prvGetCurMaxSizeNoSplit
  | .allowSplit => rb.prvGetCurMaxSizeAllowSplit
  | .byteBuf => rb.prvGetCurMaxSizeByteBuf

end Ringbuffer

structure RingbufHandle where
  rb : Ringbuffer
  xFreeSpaceSemaphore : Bool
  xItemsBufferedSemaphore : Bool

namespace RingbufHandle

/-- The loop of `xRingbufferSend` with a timeout of 0 in a task that nothing interrupts, where at most `rounds` rounds
begin before the next tick. A semaphore that is not available is not waited for. -/
def sendLoop (item : List (BitVec 8)) : (rounds : Nat) → RingbufHandle → Option (Bool × RingbufHandle)
  | 0, h => some (false, h)
  | rounds + 1, h =>
      if h.xFreeSpaceSemaphore then
        let h := { h with xFreeSpaceSemaphore := false }
        (h.rb.xCheckItemFits item.length).bind fun fits =>
        if fits then
          (h.rb.vCopyItem item).bind fun rb =>
          rb.prvGetFreeSize.map fun xFreeSize => (true, ⟨rb, 0 < xFreeSize, true⟩)
        else sendLoop item rounds h
      else some (false, h)

def xRingbufferSend (h : RingbufHandle) (rounds : Nat) (item : List (BitVec 8)) : Option (Bool × RingbufHandle) :=
  if item.length > h.rb.xMaxItemSize then some (false, h)
  else if h.rb.type = .byteBuf ∧ item.length = 0 then some (true, h)
  else sendLoop item (rounds + 1) h

/-- The loop of `prvReceiveGeneric` for `xRingbufferReceive`. Where the semaphore is not available the call fails, now or
when its timeout ends. -/
def receiveLoop : (rounds : Nat) → RingbufHandle → Option (List Part × RingbufHandle)
  | 0, h => some ([], h)
  | rounds + 1, h =>
      if h.xItemsBufferedSemaphore then
        let h := { h with xItemsBufferedSemaphore := false }
        if h.rb.prvCheckItemAvail then
          (h.rb.pvGetItem 0).map fun (part, rb) =>
            ([part], { h with rb := rb, xItemsBufferedSemaphore := 0 < rb.xItemsWaiting })
        else receiveLoop rounds h
      else some ([], h)

def xRingbufferReceive (h : RingbufHandle) (rounds : Nat) : Option (List Part × RingbufHandle) :=
  receiveLoop (rounds + 1) h

def vRingbufferReturnItem (h : RingbufHandle) (pvItem : Nat) : Option RingbufHandle :=
  (h.rb.vReturnItem pvItem).map fun rb => { h with rb := rb, xFreeSpaceSemaphore := true }

end RingbufHandle

def xRingbufferCreate (xBufferSize : Nat) (xBufferType : RingbufType) (pucHead : Nat) (memory : Memory) : Ringbuffer :=
  let xSize := if xBufferType = .byteBuf then xBufferSize else rbALIGN_SIZE xBufferSize
  { type := xBufferType
    xSize := xSize
    full := false
    xMaxItemSize :=
      match xBufferType with
      | .noSplit => rbALIGN_SIZE (xSize / 2) - rbHEADER_SIZE
      | .allowSplit => xSize - rbHEADER_SIZE * 2
      | .byteBuf => xSize
    pucWrite := pucHead
    pucRead := pucHead
    pucFree := pucHead
    pucHead := pucHead
    pucTail := pucHead + xSize
    xItemsWaiting := 0
    memory := memory }

def RingbufHandle.create (rb : Ringbuffer) : RingbufHandle := ⟨rb, true, false⟩

end EspFirmware.Rtos

/-!
Tasks that share a byte buffer (`ringbuf.c`): a step of a task takes or gives a semaphore, or is one critical section.
-/

namespace EspFirmware.Rtos

inductive Pc where
  | idle
  /-- `xRingbufferSend` -/
  | takeFreeSpace (item : List (BitVec 8))
  | copyItem (item : List (BitVec 8))
  | giveItemsBuffered (xReturnSemaphore : Bool)
  /-- also the end of `vRingbufferReturnItem` -/
  | giveFreeSpace
  /-- `prvReceiveGeneric` -/
  | takeItemsBuffered (xMaxSize : Nat)
  | getItem (xMaxSize : Nat)
  | returnSemaphore (part : Part)
  /-- `vRingbufferReturnItem` -/
  | returnItem (part : Part)
  deriving DecidableEq, Repr

/-- The buffer with its two binary semaphores, the tasks, and the data that was retrieved and not given back yet. -/
structure Tasks (n : Nat) where
  rb : Ringbuffer
  xItemsBufferedSemaphore : Bool
  xFreeSpaceSemaphore : Bool
  pc : Fin n → Pc
  held : List Part

/-- The calls that tasks make, the end of a wait for a semaphore that does not come, and the steps in between. -/
inductive TaskEvent (n : Nat) where
  | send (i : Fin n) (item : List (BitVec 8))
  /-- `xRingbufferReceiveUpTo`, or `xRingbufferReceive` if the number is 0 -/
  | receive (i : Fin n) (xMaxSize : Nat)
  | giveBack (i : Fin n) (part : Part)
  | timeout (i : Fin n)
  | step (i : Fin n)
  deriving DecidableEq, Repr

namespace Tasks
variable {n : Nat} (s : Tasks n)

def start (n : Nat) (rb : Ringbuffer) : Tasks n where
  rb := rb
  xItemsBufferedSemaphore := false
  xFreeSpaceSemaphore := true
  pc _ := .idle
  held := []

def goto (i : Fin n) (pc : Pc) : Tasks n := { s with pc := fun j => if j = i then pc else s.pc j }

def copyItem (i : Fin n) (item : List (BitVec 8)) : Option (Tasks n) :=
  (s.rb.xRingbufferSend item).bind fun (sent, rb) =>
    if sent then
      rb.prvGetFreeSize.map fun xFreeSize => { s with rb := rb }.goto i (.giveItemsBuffered (0 < xFreeSize))
    else some (s.goto i (.takeFreeSpace item))

def getItem (i : Fin n) (xMaxSize : Nat) : Option (Tasks n) :=
  (s.rb.prvReceiveGeneric false xMaxSize).map fun (parts, rb) =>
    match parts with
    | [] => s.goto i (.takeItemsBuffered xMaxSize)
    | part :: _ =>
        if rb.xItemsWaiting > 0 then { s with rb := rb }.goto i (.returnSemaphore part)
        else { s with rb := rb, held := part :: s.held }.goto i .idle

def next (i : Fin n) : Option (Tasks n) :=
  match s.pc i with
  | .idle => none
  | .takeFreeSpace item =>
      if s.xFreeSpaceSemaphore then some ({ s with xFreeSpaceSemaphore := false }.goto i (.copyItem item)) else none
  | .copyItem item => s.copyItem i item
  | .giveItemsBuffered xReturnSemaphore =>
      some ({ s with xItemsBufferedSemaphore := true }.goto i (if xReturnSemaphore then .giveFreeSpace else .idle))
  | .giveFreeSpace => some ({ s with xFreeSpaceSemaphore := true }.goto i .idle)
  | .takeItemsBuffered xMaxSize =>
      if s.xItemsBufferedSemaphore then some ({ s with xItemsBufferedSemaphore := false }.goto i (.getItem xMaxSize))
      else none
  | .getItem xMaxSize => s.getItem i xMaxSize
  | .returnSemaphore part => some ({ s with xItemsBufferedSemaphore := true, held := part :: s.held }.goto i .idle)
  | .returnItem part => (s.rb.vReturnItem part.ptr).map fun rb => { s with rb := rb }.goto i .giveFreeSpace

end Tasks

def TaskEvent.run {n : Nat} (s : Tasks n) : TaskEvent n → Option (Tasks n)
  | .send i item =>
      if s.pc i ≠ .idle then none
      else if item.length > s.rb.xMaxItemSize ∨ item.length = 0 then some s
      else some (s.goto i (.takeFreeSpace item))
  | .receive i xMaxSize => if s.pc i = .idle then some (s.goto i (.takeItemsBuffered xMaxSize)) else none
  | .giveBack i part =>
      if s.pc i = .idle ∧ part ∈ s.held then some ({ s with held := s.held.erase part }.goto i (.returnItem part))
      else none
  | .timeout i =>
      match s.pc i with
      | .takeFreeSpace _ | .takeItemsBuffered _ => some (s.goto i .idle)
      | _ => none
  | .step i => s.next i

end EspFirmware.Rtos
