import Mathlib.Algebra.GroupWithZero.Nat

/-!
Time in the kernel (`list.c`, `tasks.c`): tasks that wait for a time, the tick that ends their waits, and time-outs. A task
is a number; which of the ready tasks runs is left out, and so is what an event is.
-/

namespace EspFirmware.Rtos

abbrev TickType := BitVec 32

abbrev UBaseType_t := BitVec 32

def portMAX_DELAY : TickType := 0xFFFFFFFF

structure ListItem where
  owner : Nat
  xItemValue : TickType
  deriving DecidableEq, Repr

def vListInsert (pxList : List ListItem) (pxNewListItem : ListItem) : List ListItem :=
  if pxNewListItem.xItemValue = portMAX_DELAY then pxList ++ [pxNewListItem]
  else
    pxList.takeWhile (fun item => item.xItemValue ≤ pxNewListItem.xItemValue) ++
      pxNewListItem :: pxList.dropWhile fun item => item.xItemValue ≤ pxNewListItem.xItemValue

/-- The two delayed lists are told apart by which of the pointers they are behind. -/
structure Kernel where
  xTickCount : TickType
  xNumOfOverflows : BitVec 32
  pxDelayedTaskList : List ListItem
  pxOverflowDelayedTaskList : List ListItem
  xSuspendedTaskList : List Nat
  /-- tasks on a list of tasks that wait for an event -/
  onEventList : List Nat
  xPendingReadyList : List Nat
  xNextTaskUnblockTime : TickType
  uxSchedulerSuspended : UBaseType_t
  uxPendedTicks : UBaseType_t
  /-- the tasks that were put on a ready list, one after the other -/
  readied : List Nat
  deriving DecidableEq, Repr

namespace Kernel
variable (k : Kernel)

def start : Kernel where
  xTickCount := 0
  xNumOfOverflows := 0
  pxDelayedTaskList := []
  pxOverflowDelayedTaskList := []
  xSuspendedTaskList := []
  onEventList := []
  xPendingReadyList := []
  xNextTaskUnblockTime := portMAX_DELAY
  uxSchedulerSuspended := 0
  uxPendedTicks := 0
  readied := []

def blocked (task : Nat) : Bool :=
  (k.pxDelayedTaskList ++ k.pxOverflowDelayedTaskList).any (fun item => item.owner = task) ||
    k.xSuspendedTaskList.contains task

def removeStateItem (task : Nat) : Kernel :=
  { k with
    pxDelayedTaskList := k.pxDelayedTaskList.filter fun item => item.owner ≠ task
    pxOverflowDelayedTaskList := k.pxOverflowDelayedTaskList.filter fun item => item.owner ≠ task
    xSuspendedTaskList := k.xSuspendedTaskList.filter fun t => t ≠ task }

def removeEventItem (task : Nat) : Kernel :=
  { k with
    onEventList := k.onEventList.filter fun t => t ≠ task
    xPendingReadyList := k.xPendingReadyList.filter fun t => t ≠ task }

def prvAddTaskToReadyList (task : Nat) : Kernel := { k with readied := k.readied ++ [task] }

def headValue : List ListItem → TickType
  | [] => portMAX_DELAY
  | item :: _ => item.xItemValue

def prvResetNextTaskUnblockTime : Kernel := { k with xNextTaskUnblockTime := headValue k.pxDelayedTaskList }

def prvAddCurrentTaskToDelayedList (task : Nat) (xTicksToWait : TickType) (xCanBlockIndefinitely : Bool) : Kernel :=
  if xTicksToWait = portMAX_DELAY ∧ xCanBlockIndefinitely then
    { k with xSuspendedTaskList := k.xSuspendedTaskList ++ [task] }
  else
    let xTimeToWake := k.xTickCount + xTicksToWait
    if xTimeToWake < k.xTickCount then
      { k with pxOverflowDelayedTaskList := vListInsert k.pxOverflowDelayedTaskList ⟨task, xTimeToWake⟩ }
    else
      { k with
        pxDelayedTaskList := vListInsert k.pxDelayedTaskList ⟨task, xTimeToWake⟩
        xNextTaskUnblockTime :=
          if xTimeToWake < k.xNextTaskUnblockTime then xTimeToWake else k.xNextTaskUnblockTime }

/-- `taskSWITCH_DELAYED_LISTS`; its `configASSERT` is empty in this configuration. -/
def switchDelayedLists : Kernel :=
  { k with
    pxDelayedTaskList := k.pxOverflowDelayedTaskList
    pxOverflowDelayedTaskList := k.pxDelayedTaskList
    xNumOfOverflows := k.xNumOfOverflows + 1 }.prvResetNextTaskUnblockTime

def unblock (k : Kernel) : List ListItem → Kernel
  | [] => { k with pxDelayedTaskList := [], xNextTaskUnblockTime := portMAX_DELAY }
  | item :: rest =>
      if k.xTickCount < item.xItemValue then
        { k with pxDelayedTaskList := item :: rest, xNextTaskUnblockTime := item.xItemValue }
      else unblock ((k.removeEventItem item.owner).prvAddTaskToReadyList item.owner) rest

def xTaskIncrementTick : Kernel :=
  if k.uxSchedulerSuspended = 0 then
    let k := { k with xTickCount := k.xTickCount + 1 }
    let k := if k.xTickCount = 0 then k.switchDelayedLists else k
    if k.xNextTaskUnblockTime ≤ k.xTickCount then k.unblock k.pxDelayedTaskList else k
  else { k with uxPendedTicks := k.uxPendedTicks + 1 }

def vTaskSuspendAll : Kernel := { k with uxSchedulerSuspended := k.uxSchedulerSuspended + 1 }

def readyPending (k : Kernel) : List Nat → Kernel
  | [] => k
  | task :: rest => readyPending (((k.removeEventItem task).removeStateItem task).prvAddTaskToReadyList task) rest

def unwindTicks (k : Kernel) : Nat → Kernel
  | 0 => k
  | count + 1 => unwindTicks k.xTaskIncrementTick count

def xTaskResumeAll : Kernel :=
  let k := { k with uxSchedulerSuspended := k.uxSchedulerSuspended - 1 }
  if k.uxSchedulerSuspended = 0 then
    let readied := k.readyPending k.xPendingReadyList
    let k := if k.xPendingReadyList = [] then readied else readied.prvResetNextTaskUnblockTime
    { k.unwindTicks k.uxPendedTicks.toNat with uxPendedTicks := 0 }
  else k

def xTaskRemoveFromEventList (task : Nat) : Kernel :=
  let k := k.removeEventItem task
  let k :=
    if k.uxSchedulerSuspended = 0 then (k.removeStateItem task).prvAddTaskToReadyList task
    else { k with xPendingReadyList := k.xPendingReadyList ++ [task] }
  k.prvResetNextTaskUnblockTime

def unblockNotified (task : Nat) : Kernel :=
  ((k.removeStateItem task).prvAddTaskToReadyList task).prvResetNextTaskUnblockTime

def vTaskPlaceOnEventList (task : Nat) (xTicksToWait : TickType) : Kernel :=
  { k with onEventList := k.onEventList ++ [task] }.prvAddCurrentTaskToDelayedList task xTicksToWait true

end Kernel

inductive KernelEvent where
  | xTaskIncrementTick
  | vTaskSuspendAll
  | xTaskResumeAll
  | prvAddCurrentTaskToDelayedList (task : Nat) (xTicksToWait : TickType) (xCanBlockIndefinitely : Bool)
  | vTaskPlaceOnEventList (task : Nat) (xTicksToWait : TickType)
  | xTaskRemoveFromEventList (task : Nat)
  | xTaskGenericNotify (task : Nat)
  deriving DecidableEq, Repr

/-- `none` where the event cannot be: a blocked task does nothing, nobody waits for no ticks, and only a task that waits
for an event is taken from the tasks that wait for it. -/
def KernelEvent.run (k : Kernel) : KernelEvent → Option Kernel
  | .xTaskIncrementTick => some k.xTaskIncrementTick
  | .vTaskSuspendAll => some k.vTaskSuspendAll
  | .xTaskResumeAll => if k.uxSchedulerSuspended = 0 then none else some k.xTaskResumeAll
  | .prvAddCurrentTaskToDelayedList task xTicksToWait xCanBlockIndefinitely =>
      if k.blocked task ∨ xTicksToWait = 0 then none
      else some (k.prvAddCurrentTaskToDelayedList task xTicksToWait xCanBlockIndefinitely)
  | .vTaskPlaceOnEventList task xTicksToWait =>
      if k.blocked task ∨ xTicksToWait = 0 then none else some (k.vTaskPlaceOnEventList task xTicksToWait)
  | .xTaskRemoveFromEventList task =>
      if task ∈ k.onEventList then some (k.xTaskRemoveFromEventList task) else none
  | .xTaskGenericNotify task =>
      if k.blocked task ∧ task ∉ k.onEventList ∧ task ∉ k.xPendingReadyList then some (k.unblockNotified task) else none

def vTaskDelayUntil (xTickCount pxPreviousWakeTime xTimeIncrement : TickType) : TickType × Option TickType :=
  let xTimeToWake := pxPreviousWakeTime + xTimeIncrement
  let xShouldDelay :=
    if xTickCount < pxPreviousWakeTime then xTimeToWake < pxPreviousWakeTime ∧ xTickCount < xTimeToWake
    else xTimeToWake < pxPreviousWakeTime ∨ xTickCount < xTimeToWake
  (xTimeToWake, if xShouldDelay then some (xTimeToWake - xTickCount) else none)

structure TimeOut where
  xOverflowCount : BitVec 32
  xTimeOnEntering : TickType
  deriving DecidableEq, Repr

def vTaskSetTimeOutState (k : Kernel) : TimeOut := ⟨k.xNumOfOverflows, k.xTickCount⟩

def xTaskCheckForTimeOut (k : Kernel) (pxTimeOut : TimeOut) (pxTicksToWait : TickType) : Bool × TimeOut × TickType :=
  let xElapsedTime := k.xTickCount - pxTimeOut.xTimeOnEntering
  if pxTicksToWait = portMAX_DELAY then (false, pxTimeOut, pxTicksToWait)
  else if k.xNumOfOverflows ≠ pxTimeOut.xOverflowCount ∧ pxTimeOut.xTimeOnEntering ≤ k.xTickCount then
    (true, pxTimeOut, pxTicksToWait)
  else if xElapsedTime < pxTicksToWait then (false, vTaskSetTimeOutState k, pxTicksToWait - xElapsedTime)
  else (true, pxTimeOut, 0)

end EspFirmware.Rtos
