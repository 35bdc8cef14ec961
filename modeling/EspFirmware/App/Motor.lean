import Mathlib.Logic.Function.Basic

/-!
The motors of `csro_motor.c`, with as many of them as the macro `MOTOR` says. The status message that
`motor_do_action` triggers is left out.
-/

namespace EspFirmware.App

inductive MotorState where
  | STOP
  | UP
  | DOWN
  | TOUP
  | TODOWN
  deriving DecidableEq, Repr

structure CsroMotor where
  index : Nat
  stateNow : MotorState
  command : MotorState
  commandTim : BitVec 32
  commandSource : BitVec 8
  countDown : Nat
  deriving DecidableEq, Repr

def MOTOR_MAX_ON_SEC : Nat := 120

section
variable (MOTOR : Nat)

def motorDoAction (mtr : CsroMotor) (action : MotorState) : CsroMotor :=
  if MOTOR < mtr.index + 1 then mtr
  else
    let countDown :=
      match action with
      | .UP => MOTOR_MAX_ON_SEC * 10
      | .DOWN => MOTOR_MAX_ON_SEC * 10
      | .STOP => 0
      | .TOUP | .TODOWN => 5
    { mtr with countDown := countDown, stateNow := action }

def motorProcessCommand (mtr : CsroMotor) (command : MotorState) (source : BitVec 8) (timeNow : BitVec 32) :
    CsroMotor :=
  if MOTOR < mtr.index + 1 then mtr
  else if command = .UP ∨ command = .DOWN ∨ command = .STOP then
    let mtr : CsroMotor :=
      match mtr.stateNow with
      | .STOP => motorDoAction MOTOR mtr command
      | .UP => motorDoAction MOTOR mtr (if command = MotorState.DOWN then .TODOWN else command)
      | .DOWN => motorDoAction MOTOR mtr (if command = MotorState.UP then .TOUP else command)
      | .TODOWN => if command ≠ .DOWN then motorDoAction MOTOR mtr command else mtr
      -- the branch for `TOUP` compares with `TOUP`, which no command is
      | .TOUP => if command ≠ .TOUP then motorDoAction MOTOR mtr command else mtr
    { mtr with command := command, commandTim := timeNow, commandSource := source }
  else mtr

def motorTick (mtr : CsroMotor) : CsroMotor :=
  if 0 < mtr.countDown then
    let mtr := { mtr with countDown := mtr.countDown - 1 }
    if mtr.countDown = 0 then
      match mtr.stateNow with
      | .TOUP => motorDoAction MOTOR mtr .UP
      | .TODOWN => motorDoAction MOTOR mtr .DOWN
      | _ => motorDoAction MOTOR mtr .STOP
    else mtr
  else mtr

inductive MotorEvent where
  | command (command : MotorState) (source : BitVec 8) (timeNow : BitVec 32)
  | tick
  deriving DecidableEq, Repr

def MotorEvent.run : MotorEvent → CsroMotor → CsroMotor
  | .command cmd source timeNow, mtr => motorProcessCommand MOTOR mtr cmd source timeNow
  | .tick, mtr => motorTick MOTOR mtr

def runMotor (events : List MotorEvent) (mtr : CsroMotor) : CsroMotor :=
  events.foldl (fun mtr e => e.run MOTOR mtr) mtr

end

variable {MOTOR : Nat}

abbrev Motors (MOTOR : Nat) := Fin MOTOR → CsroMotor

def csroMotorInit : Motors MOTOR := fun i => ⟨i.val, .STOP, .STOP, 0, 0, 0⟩

def mtrTimerCallback (motor : Motors MOTOR) : Motors MOTOR := fun i => motorTick MOTOR (motor i)

inductive MotorsEvent (MOTOR : Nat) where
  | command (i : Fin MOTOR) (command : MotorState) (source : BitVec 8) (timeNow : BitVec 32)
  | tick
  deriving DecidableEq, Repr

def MotorsEvent.run : MotorsEvent MOTOR → Motors MOTOR → Motors MOTOR
  | .command i cmd source timeNow, motor =>
      Function.update motor i (motorProcessCommand MOTOR (motor i) cmd source timeNow)
  | .tick, motor => mtrTimerCallback motor

def runMotors (events : List (MotorsEvent MOTOR)) (motor : Motors MOTOR) : Motors MOTOR :=
  events.foldl (fun motor e => e.run motor) motor

end EspFirmware.App
