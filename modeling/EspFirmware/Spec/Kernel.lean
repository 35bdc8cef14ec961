import EspFirmware.Rtos.Tick

/-!
What the kernel's lists are for: tasks that wait until a moment, on a clock that never wraps.
-/

namespace EspFirmware.Spec
open EspFirmware.Rtos

structure Timed where
  task : Nat
  due : Nat
  deriving DecidableEq, Repr

structure TickClock where
  now : Nat
  timed : List Timed
  forever : List Nat
  called : List Nat
  suspended : Nat
  owed : Nat
  readied : List Nat
  deriving DecidableEq, Repr

namespace TickClock
variable (c : TickClock)

def start : TickClock := ⟨0, [], [], [], 0, 0, []⟩

def waits (task : Nat) : Prop := (∃ x ∈ c.timed, x.task = task) ∨ task ∈ c.forever

def wait (task : Nat) (ticks : Option Nat) : TickClock :=
  match ticks with
  | some ticks => { c with timed := c.timed ++ [⟨task, c.now + ticks⟩] }
  | none => { c with forever := c.forever ++ [task] }

def ready (task : Nat) : TickClock :=
  { c with
    timed := c.timed.filter fun x => x.task ≠ task
    forever := c.forever.filter fun t => t ≠ task
    called := c.called.filter fun t => t ≠ task
    readied := c.readied ++ [task] }

def dueTasks : List Nat := (c.timed.filter fun x => x.due = c.now + 1).map Timed.task

/-- The tasks whose moment has come are ready, in the order in which they began to wait. -/
def advance : TickClock :=
  { c with
    now := c.now + 1
    timed := c.timed.filter fun x => x.due ≠ c.now + 1
    readied := c.readied ++ c.dueTasks }

def advances (c : TickClock) : Nat → TickClock
  | 0 => c
  | count + 1 => advances c.advance count

def resume : TickClock :=
  let c := { c with suspended := c.suspended - 1 }
  if c.suspended = 0 then
    let c := c.called.foldl ready c
    { c.advances c.owed with owed := 0 }
  else c

def asked (xTicksToWait : TickType) (xCanBlockIndefinitely : Bool) : Option Nat :=
  if xTicksToWait = portMAX_DELAY ∧ xCanBlockIndefinitely then none else some xTicksToWait.toNat

def step : KernelEvent → TickClock
  | .xTaskIncrementTick => if c.suspended = 0 then c.advance else { c with owed := c.owed + 1 }
  | .vTaskSuspendAll => { c with suspended := c.suspended + 1 }
  | .xTaskResumeAll => c.resume
  | .prvAddCurrentTaskToDelayedList task xTicksToWait xCanBlockIndefinitely =>
      c.wait task (asked xTicksToWait xCanBlockIndefinitely)
  | .vTaskPlaceOnEventList task xTicksToWait => c.wait task (asked xTicksToWait true)
  | .xTaskRemoveFromEventList task =>
      if c.suspended = 0 then c.ready task else { c with called := c.called ++ [task] }
  | .xTaskGenericNotify task => c.ready task

end TickClock

def taskOf : KernelEvent → Option Nat
  | .xTaskIncrementTick | .vTaskSuspendAll | .xTaskResumeAll => none
  | .prvAddCurrentTaskToDelayedList task _ _ | .vTaskPlaceOnEventList task _ | .xTaskRemoveFromEventList task
  | .xTaskGenericNotify task => some task

def CountersFit (k : Kernel) : KernelEvent → Prop
  | .xTaskIncrementTick => k.uxSchedulerSuspended = 0 ∨ k.uxPendedTicks ≠ 0xFFFFFFFF
  | .vTaskSuspendAll => k.uxSchedulerSuspended ≠ 0xFFFFFFFF
  | _ => True

instance (k : Kernel) : (e : KernelEvent) → Decidable (CountersFit k e)
  | .xTaskIncrementTick =>
      inferInstanceAs (Decidable (k.uxSchedulerSuspended = 0 ∨ k.uxPendedTicks ≠ 0xFFFFFFFF))
  | .vTaskSuspendAll => inferInstanceAs (Decidable (k.uxSchedulerSuspended ≠ 0xFFFFFFFF))
  | .xTaskResumeAll | .prvAddCurrentTaskToDelayedList .. | .vTaskPlaceOnEventList .. | .xTaskRemoveFromEventList _
  | .xTaskGenericNotify _ => isTrue trivial

def epoch (moment : Nat) : Nat := moment / 2 ^ 32

def KernelAt (k : Kernel) (now : Nat) : Prop :=
  k.xTickCount = BitVec.ofNat 32 now ∧ k.xNumOfOverflows = BitVec.ofNat 32 (epoch now)

/-- The previous wake time of a task that calls `vTaskDelayUntil` at these times, one after the other. -/
def previousWake (start : Nat) (xTimeIncrement : TickType) (calls : Nat → Nat) : Nat → TickType
  | 0 => BitVec.ofNat 32 start
  | n + 1 =>
      (vTaskDelayUntil (BitVec.ofNat 32 (calls n)) (previousWake start xTimeIncrement calls n) xTimeIncrement).1

def givesUp (kernelAt : Nat → Kernel) : TimeOut → TickType → List Nat → Option Nat
  | _, _, [] => none
  | xTimeOut, xTicksToWait, t :: rest =>
      let check := xTaskCheckForTimeOut (kernelAt t) xTimeOut xTicksToWait
      if check.1 then some t else givesUp kernelAt check.2.1 check.2.2 rest

end EspFirmware.Spec
