import EspFirmware.Rtos.Ringbuf
import EspFirmware.Lib.Run

/-!
What a ring buffer promises: it is a queue, and a reader keeps what it was given until it gives it back. The space that
it reports can be used, and no reader of a byte buffer sleeps while there is something for it.
-/

namespace EspFirmware.Spec
open EspFirmware.Lib Lib.Memory EspFirmware.Rtos Ringbuffer

/-- Storage for a buffer of at least 32 bytes, below the top of the memory that `malloc` gives out. -/
structure Storage where
  size : Nat
  head : Nat
  memory : Lib.Memory
  enough : 32 ≤ size
  aligned : head % 4 = 0
  positive : 0 < head
  below : head + size < 2 ^ 31

def Storage.small : Storage where
  size := 32
  head := 64
  memory := fun _ => 0
  enough := by decide
  aligned := by decide
  positive := by decide
  below := by decide

def Storage.create (s : Storage) (type : RingbufType) : Ringbuffer := xRingbufferCreate s.size type s.head s.memory

def partBytes (m : Lib.Memory) (p : Part) : List (BitVec 8) := load m p.ptr p.size

inductive RingEvent where
  | send (item : List (BitVec 8))
  /-- of at most so many bytes from a byte buffer, or all there are if the number is 0 -/
  | receive (xMaxSize : Nat)
  | giveBack
  deriving DecidableEq, Repr

structure RingRun where
  rb : Ringbuffer
  held : List Part
  sent : List (List (BitVec 8))
  received : List (List (BitVec 8))

def RingRun.start (rb : Ringbuffer) : RingRun := ⟨rb, [], [], []⟩

def receiveItem (rb : Ringbuffer) (xMaxSize : Nat) : Option (List Part × Ringbuffer) :=
  match rb.type with
  | .noSplit => rb.xRingbufferReceive
  | .allowSplit => rb.xRingbufferReceiveSplit
  | .byteBuf => if xMaxSize = 0 then rb.xRingbufferReceive else rb.xRingbufferReceiveUpTo xMaxSize

def returnParts : List Part → Ringbuffer → Option Ringbuffer
  | [], rb => some rb
  | p :: rest, rb => (rb.vReturnItem p.ptr).bind (returnParts rest)

def RingEvent.run (r : RingRun) : RingEvent → Option RingRun
  | .send item =>
      (r.rb.xRingbufferSend item).map fun (ok, rb) =>
        { r with rb := rb, sent := if ok then r.sent ++ [item] else r.sent }
  | .receive xMaxSize =>
      (receiveItem r.rb xMaxSize).map fun (parts, rb) =>
        { r with
          rb := rb
          held := parts
          received := if parts = [] then r.received
            else r.received ++ [parts.flatMap (partBytes rb.memory)] }
  | .giveBack => (returnParts r.held r.rb).map fun rb => { r with rb := rb, held := [] }

def RingEvent.Allowed (r : RingRun) : RingEvent → Prop
  | .receive _ => r.held = []
  | _ => True

instance (r : RingRun) (e : RingEvent) : Decidable (e.Allowed r) :=
  match e with
  | .receive _ => inferInstanceAs (Decidable (_ = _))
  | .send _ | .giveBack => isTrue trivial

abbrev runRing : List RingEvent → RingRun → Option RingRun := runSteps RingEvent.run

def units (type : RingbufType) (items : List (List (BitVec 8))) : List (List (BitVec 8)) :=
  if type = .byteBuf then items.flatten.map fun b => [b] else items

def drain : Nat → List RingEvent
  | 0 => []
  | n + 1 => .receive 0 :: .giveBack :: drain n

/-- The units received are the first of those sent, the reader's parts still hold the last item received, and
what remains comes when it is asked for. -/
structure QueueOk (r : RingRun) : Prop where
  received : (units r.rb.type r.received).IsPrefix (units r.rb.type r.sent)
  held : r.held ≠ [] → r.received.getLast? = some (r.held.flatMap (partBytes r.rb.memory))
  remaining : r.held = [] → ∃ n r', runRing (drain n) r = some r' ∧
    units r.rb.type r'.received = units r.rb.type r.sent

structure Holding where
  part : Part
  bytes : List (BitVec 8)
  deriving DecidableEq, Repr

inductive HoldEvent where
  | send (item : List (BitVec 8))
  | receive
  | receiveSplit
  | giveBack (ptr : Nat)
  deriving DecidableEq, Repr

structure HoldRun where
  rb : Ringbuffer
  held : List Holding

def HoldRun.start (rb : Ringbuffer) : HoldRun := ⟨rb, []⟩

def holding (m : Lib.Memory) (p : Part) : Holding := ⟨p, load m (p.ptr - rbHEADER_SIZE) (rbHEADER_SIZE + p.size)⟩

def HoldRun.take (r : HoldRun) : List Part × Ringbuffer → HoldRun
  | (parts, rb) => ⟨rb, r.held ++ parts.map (holding rb.memory)⟩

def HoldEvent.run (r : HoldRun) : HoldEvent → Option HoldRun
  | .send item => (r.rb.xRingbufferSend item).map fun (_, rb) => { r with rb := rb }
  | .receive => r.rb.xRingbufferReceive.map r.take
  | .receiveSplit => r.rb.xRingbufferReceiveSplit.map r.take
  | .giveBack ptr =>
      (r.rb.vReturnItem ptr).map fun rb => ⟨rb, r.held.filter fun h => h.part.ptr ≠ ptr⟩

/-- Both parts can be asked for only where items are split, and only what is held is given back. -/
def HoldEvent.Allowed (r : HoldRun) : HoldEvent → Prop
  | .receiveSplit => r.rb.type = .allowSplit
  | .giveBack ptr => ptr ∈ r.held.map fun h => h.part.ptr
  | _ => True

/-- Nothing is given back from a full buffer that has been read to its end, unless it is the only thing held. -/
def HoldEvent.Safe (r : HoldRun) : HoldEvent → Prop
  | .giveBack _ => r.rb.full = true → r.rb.pucRead = r.rb.pucFree → r.held.length = 1
  | _ => True

section
variable (r : HoldRun)

instance (e : HoldEvent) : Decidable (e.Allowed r) :=
  match e with
  | .send _ | .receive => isTrue trivial
  | .receiveSplit => inferInstanceAs (Decidable (_ = _))
  | .giveBack _ => inferInstanceAs (Decidable (_ ∈ _))

instance (e : HoldEvent) : Decidable (e.Safe r) :=
  match e with
  | .giveBack _ => inferInstanceAs (Decidable (_ → _ → _))
  | .send _ | .receive | .receiveSplit => isTrue trivial

end

abbrev runHold : List HoldEvent → HoldRun → Option HoldRun := runSteps HoldEvent.run

structure HoldOk (r : HoldRun) : Prop where
  kept : ∀ h ∈ r.held, load r.rb.memory (h.part.ptr - rbHEADER_SIZE) (rbHEADER_SIZE + h.part.size) = h.bytes
  empty : r.held = [] → r.rb.xItemsWaiting = 0 →
    r.rb.full = false ∧ r.rb.xCheckItemFits r.rb.xMaxItemSize = some true

/-- Storage for a buffer of its type, of a size from which the largest item is computed without going below 0. -/
structure StorageOf (type : RingbufType) where
  size : Nat
  head : Nat
  memory : Lib.Memory
  enough :
    match type with
    | .noSplit => 12 ≤ rbALIGN_SIZE size
    | .allowSplit => 16 ≤ rbALIGN_SIZE size
    | .byteBuf => 0 < size
  aligned : head % 4 = 0
  positive : 0 < head
  below : head + rbALIGN_SIZE size < 2 ^ 31

def StorageOf.create {type : RingbufType} (s : StorageOf type) : Ringbuffer :=
  xRingbufferCreate s.size type s.head s.memory

inductive RingOp where
  | send (item : List (BitVec 8))
  | receive
  | receiveSplit
  | receiveUpTo (xMaxSize : Nat)
  | returnItem (pvItem : Nat)
  deriving DecidableEq, Repr

def RingOp.run (rb : Ringbuffer) : RingOp → Option Ringbuffer
  | .send item => (rb.xRingbufferSend item).map Prod.snd
  | .receive => rb.xRingbufferReceive.map Prod.snd
  | .receiveSplit => rb.xRingbufferReceiveSplit.map Prod.snd
  | .receiveUpTo xMaxSize => (rb.xRingbufferReceiveUpTo xMaxSize).map Prod.snd
  | .returnItem pvItem => rb.vReturnItem pvItem

abbrev runOps : List RingOp → Ringbuffer → Option Ringbuffer := runSteps RingOp.run

/-- An item of the reported size fits and is sent, and the size is no more than the largest. -/
def FreeSizeUsable (rb : Ringbuffer) : Prop :=
  rb.xRingbufferGetCurFreeSize ≤ rb.xMaxItemSize ∧
    (0 < rb.xRingbufferGetCurFreeSize →
      rb.xCheckItemFits rb.xRingbufferGetCurFreeSize = some true ∧
        ∀ item : List (BitVec 8), item.length = rb.xRingbufferGetCurFreeSize →
          ∃ rb', rb.xRingbufferSend item = some (true, rb'))

/-- The headers of an item fit into the free space: one where it is in one piece, two in a buffer of split items where
it is in two, unless the largest item fits in front of the end. -/
structure HeadersFit (rb : Ringbuffer) : Prop where
  onePiece : rb.pucWrite < rb.pucFree → rb.pucWrite + rbHEADER_SIZE ≤ rb.pucFree
  twoPieces : rb.type = .allowSplit → rb.pucFree < rb.pucWrite →
    rb.pucWrite + rbHEADER_SIZE * 2 ≤ rb.pucFree + rb.xSize ∨
      rb.pucWrite + rbALIGN_SIZE rb.xMaxItemSize + rbHEADER_SIZE ≤ rb.pucTail

def ReportsFreeSize (rb : Ringbuffer) : Prop :=
  rb.type = .byteBuf ∨ rb.full = true ∨ rb.xMaxItemSize = 0 ∨ HeadersFit rb

/-- The calls of one task; `rounds` is how often a loop can go round before the next tick. -/
inductive HandleCall where
  | send (rounds : Nat) (item : List (BitVec 8))
  | receive (rounds : Nat)
  | returnItem (pvItem : Nat)
  deriving DecidableEq, Repr

def HandleCall.run (h : RingbufHandle) : HandleCall → Option RingbufHandle
  | .send rounds item => (h.xRingbufferSend rounds item).map Prod.snd
  | .receive rounds => (h.xRingbufferReceive rounds).map Prod.snd
  | .returnItem pvItem => h.vRingbufferReturnItem pvItem

abbrev runCalls : List HandleCall → RingbufHandle → Option RingbufHandle := runSteps HandleCall.run

def SendsWhatFits (h : RingbufHandle) (rounds : Nat) (item : List (BitVec 8)) : Prop :=
  ∃ ok h', h.xRingbufferSend rounds item = some (ok, h') ∧
    (ok = true ↔ h.rb.xCheckItemFits item.length = some true)

def HandleCall.Refused (h : RingbufHandle) : HandleCall → Prop
  | .send _ item => item.length ≤ h.rb.xMaxItemSize ∧ ¬ (h.rb.type = .byteBuf ∧ item = []) ∧
      h.rb.xCheckItemFits item.length = some false
  | _ => False

def RefusedSinceReturn (start : RingbufHandle) (calls : List HandleCall) : Prop :=
  ∃ before call after h, calls = before ++ call :: after ∧ runCalls before start = some h ∧ call.Refused h ∧
    ∀ pvItem, .returnItem pvItem ∉ after

/-- The item fits, or no send was refused before and the item is not an empty one for a byte buffer. -/
def SendOutcomeKept (start : RingbufHandle) (calls : List HandleCall) (h : RingbufHandle) (item : List (BitVec 8)) :
    Prop :=
  if h.rb.type = .byteBuf ∧ item = [] then h.rb.full = false
  else h.rb.xCheckItemFits item.length = some false ∨ ¬ RefusedSinceReturn start calls

abbrev runTasks {n : Nat} : List (TaskEvent n) → Tasks n → Option (Tasks n) := runSteps TaskEvent.run

end EspFirmware.Spec

namespace EspFirmware.Rtos

/-- The data that a task has retrieved, in a call that has not returned, or is giving back. -/
def Pc.part? : Pc → Option Part
  | .returnSemaphore part | .returnItem part => some part
  | _ => none

def Pc.checks : Pc → Bool
  | .getItem _ => true
  | _ => false

def Pc.gives : Pc → Bool
  | .giveItemsBuffered _ | .returnSemaphore _ => true
  | _ => false

namespace Tasks
variable {n : Nat} (s : Tasks n)

def Outstanding : Prop := s.held ≠ [] ∨ ∃ i, (s.pc i).part? ≠ none

/-- A receiver that blocks now is woken: the semaphore is available, or a task holds it that is going to check the
buffer, or a task is about to give it. -/
def Wakes : Prop := s.xItemsBufferedSemaphore = true ∨ (∃ i, (s.pc i).checks = true) ∨ ∃ i, (s.pc i).gives = true

def NoneAsleep : Prop := 0 < s.rb.xItemsWaiting → ¬ s.Outstanding → s.Wakes

instance : Decidable s.Outstanding := inferInstanceAs (Decidable (_ ∨ _))

instance : Decidable s.Wakes := inferInstanceAs (Decidable (_ ∨ _))

instance : Decidable s.NoneAsleep := inferInstanceAs (Decidable (_ → _ → _))

end Tasks

def TaskEvent.Safe {n : Nat} (s : Tasks n) : TaskEvent n → Prop
  | .step i => (s.pc i).checks = true → s.Outstanding → s.rb.xItemsWaiting = 0
  | _ => True

instance {n : Nat} (s : Tasks n) (e : TaskEvent n) : Decidable (e.Safe s) :=
  match e with
  | .step _ => inferInstanceAs (Decidable (_ → _ → _))
  | .send _ _ | .receive _ _ | .giveBack _ _ | .timeout _ => isTrue trivial

end EspFirmware.Rtos
