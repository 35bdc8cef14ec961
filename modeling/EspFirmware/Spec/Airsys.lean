import EspFirmware.App.Airsys
import EspFirmware.App.Motor
import EspFirmware.Lib.Run

/-!
What the interlock and the timer of a motor are for.
-/

namespace EspFirmware.Spec
open EspFirmware.App

def Driven (mtr : CsroMotor) : Prop := mtr.stateNow = .UP ∨ mtr.stateNow = .DOWN

instance (mtr : CsroMotor) : Decidable (Driven mtr) := inferInstanceAs (Decidable (_ ∨ _))

structure OnTimer (mtr : CsroMotor) : Prop where
  stopped : mtr.stateNow = .STOP ↔ mtr.countDown = 0
  driven : Driven mtr → 1 ≤ mtr.countDown ∧ mtr.countDown ≤ 1200
  reversing : mtr.stateNow = .TOUP ∨ mtr.stateNow = .TODOWN → 1 ≤ mtr.countDown ∧ mtr.countDown ≤ 5

variable {MOTOR : Nat}

def MotorsEvent.isTick : MotorsEvent MOTOR → Bool
  | .tick => true
  | .command _ _ _ _ => false

def MotorsEvent.commands (i : Fin MOTOR) : MotorsEvent MOTOR → Prop
  | .tick => False
  | .command j cmd _ _ => j = i ∧ (cmd = .UP ∨ cmd = .DOWN ∨ cmd = .STOP)

/-- While the motor is driven all the time and takes no command, fewer ticks pass than the drive
lasts. -/
def DriveBounded (motor : Motors MOTOR) (i : Fin MOTOR) : Prop :=
  ∀ events : List (MotorsEvent MOTOR), (∀ e ∈ events, ¬ MotorsEvent.commands i e) →
    (∀ k, k ≤ events.length → Driven (runMotors (events.take k) motor i)) →
    events.countP MotorsEvent.isTick < 1200

def MotorEvent.asks (wanted : MotorState) : MotorEvent → Prop
  | .tick => False
  | .command cmd _ _ => cmd = wanted

def MotorEvent.isTick : MotorEvent → Bool
  | .tick => true
  | .command _ _ _ => false

def ticks (events : List MotorEvent) : Nat := events.countP MotorEvent.isTick

def opposite : MotorState → MotorState
  | .UP => .DOWN
  | .DOWN => .UP
  | state => state

/-- From the last moment in one driving state to the first in the other there are at least five ticks. -/
def Pauses (MOTOR : Nat) (mtr : CsroMotor) (events : List MotorEvent) : Prop :=
  ∀ before between after, events = before ++ between ++ after →
    Driven (runMotor MOTOR before mtr) →
    (runMotor MOTOR (before ++ between) mtr).stateNow = opposite (runMotor MOTOR before mtr).stateNow →
    (∀ k, 0 < k → k < between.length → ¬ Driven (runMotor MOTOR (before ++ between.take k) mtr)) →
    5 ≤ ticks between

def RepeatedUp (mtr : CsroMotor) (events : List MotorEvent) : Prop :=
  mtr.stateNow = .DOWN ∧ ∃ first second count, MotorEvent.asks .UP first ∧ MotorEvent.asks .UP second ∧
    count < 5 ∧ events = first :: List.replicate count .tick ++ [second]

/-- The time of a drive runs out, and a command for the other direction comes before the fifth tick. -/
def RestartedBack (mtr : CsroMotor) (events : List MotorEvent) : Prop :=
  Driven mtr ∧ mtr.countDown = 1 ∧ ∃ count restart, MotorEvent.asks (opposite mtr.stateNow) restart ∧
    0 < count ∧ count < 5 ∧ events = List.replicate count .tick ++ [restart]

def Unhurried (MOTOR : Nat) (mtr : CsroMotor) (events : List MotorEvent) : Prop :=
  ∀ before between after, events = before ++ between ++ after →
    ¬ RepeatedUp (runMotor MOTOR before mtr) between ∧ ¬ RestartedBack (runMotor MOTOR before mtr) between

end EspFirmware.Spec

/-!
What the shadow registers of `csro_airsys.c` are for: a requested write reaches its register, and what is shown of a
register is real.
-/

namespace EspFirmware.Spec
open EspFirmware.Lib EspFirmware.App EspFirmware.Modbus

abbrev runAirsys : List AirEvent → AirSystem → Option AirSystem := runSteps AirEvent.run

def Writable (register : Register) (value : BitVec 16) : Bool :=
  writeCalls.any fun call => call.register == register && call.rangeCheck value

/-- The in-range value that was requested last, if no write transaction that carries it has succeeded since. -/
def owed (register : Register) : List Happening → Option (BitVec 16)
  | [] => none
  | .requested r value :: earlier =>
      if r = register ∧ Writable r value = true then some value else owed register earlier
  | .wrote r value :: earlier =>
      if r = register ∧ owed register earlier = some value then none else owed register earlier
  | .cleared _ :: earlier => owed register earlier
  | .returned _ _ :: earlier => owed register earlier

def NothingLost (history : List Happening) : Prop :=
  ∀ register earlier, .cleared register :: earlier <:+ history → owed register earlier = none

/-- The value may be stored: the write task is not carrying another value of the register, and not about to clear its
flag. -/
def MayStore (register : Register) (value : BitVec 16) : WritePc → Prop
  | .transaction call carried _ => call.register = register → carried = value
  | .clearFlag call _ => call.register ≠ register
  | _ => True

instance (register : Register) (value : BitVec 16) : (pc : WritePc) → Decidable (MayStore register value pc)
  | .transaction _ _ _ => inferInstanceAs (Decidable (_ → _))
  | .clearFlag _ _ => inferInstanceAs (Decidable (_ ≠ _))
  | .takeSemaphore | .takeMutex | .testFlag _ _ | .rangeCheck _ _ | .send _ _ | .giveMutex => isTrue trivial

/-- The transaction of the write task succeeds, if it ends one for a register to which a write is owed. -/
def TransactionSucceeds (line : Line) (s : AirSystem) : WritePc → Prop
  | .transaction call value _ =>
      owed call.register s.history ≠ none →
        (((call.command value).run line s.master).bind (·.result)).isSome = true
  | _ => True

instance (line : Line) (s : AirSystem) : (pc : WritePc) → Decidable (TransactionSucceeds line s pc)
  | .transaction _ _ _ => inferInstanceAs (Decidable (_ → _))
  | .takeSemaphore | .takeMutex | .testFlag _ _ | .rangeCheck _ _ | .send _ _ | .clearFlag _ _ | .giveMutex =>
      isTrue trivial

def CopiesSettled (history : List Happening) : ReadPc → Prop
  | .copy half _ _ i => owed (half.register i) history = none
  | _ => True

instance (history : List Happening) : (pc : ReadPc) → Decidable (CopiesSettled history pc)
  | .copy _ _ _ _ => inferInstanceAs (Decidable (_ = _))
  | .takeMutex _ | .transaction _ | .testFlag _ _ _ _ | .giveMutex _ => isTrue trivial

def Undisturbed (s : AirSystem) : AirEvent → Prop
  | .modify _ call =>
      call.stores = true →
        if Writable call.register call.value then MayStore call.register call.value s.writeTask
        else owed call.register s.history = none
  | .resume _ => True
  | .write line => TransactionSucceeds line s s.writeTask
  | .read _ _ => CopiesSettled s.history s.readTask

instance (s : AirSystem) : (e : AirEvent) → Decidable (Undisturbed s e)
  | .modify _ _ => inferInstanceAs (Decidable (_ → _))
  | .resume _ => isTrue trivial
  | .write line => inferInstanceAs (Decidable (TransactionSucceeds line s s.writeTask))
  | .read _ _ => inferInstanceAs (Decidable (CopiesSettled s.history s.readTask))

def HasSource (history : List Happening) (register : Register) (value : BitVec 16) : Prop :=
  value = 0 ∨ .requested register value ∈ history ∨ .returned register value ∈ history

def RealValues (s : AirSystem) : Prop := ∀ register, HasSource s.history register (s.airsysReg.value register)

/-- The read task is about to store into a register what its local array holds after a transaction that failed. -/
def CopiesFailed : ReadPc → Prop
  | .copy _ _ result _ => result = false
  | _ => False

instance : (pc : ReadPc) → Decidable (CopiesFailed pc)
  | .copy _ _ _ _ => inferInstanceAs (Decidable (_ = _))
  | .takeMutex _ | .transaction _ | .testFlag _ _ _ _ | .giveMutex _ => isFalse id

def AirEvent.reads : AirEvent → Bool
  | .read _ _ => true
  | .modify _ _ | .resume _ | .write _ => false

/-- A step of the read task after a transaction that failed leaves the registers as they are. -/
def FailedReadKeeps (s : AirSystem) (e : AirEvent) : Prop :=
  AirEvent.reads e = true → CopiesFailed s.readTask → ∀ s', e.run s = some s' → s'.airsysReg = s.airsysReg

def CopiesReceived (s : AirSystem) (e : AirEvent) : Prop := AirEvent.reads e = true → ¬ CopiesFailed s.readTask

instance (s : AirSystem) (e : AirEvent) : Decidable (CopiesReceived s e) := inferInstanceAs (Decidable (_ → _))

end EspFirmware.Spec
