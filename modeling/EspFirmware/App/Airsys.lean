import EspFirmware.Modbus.Master

/-!
The shadow registers of `csro_airsys.c` and the tasks that share them. A step of a task looks at or stores one register
or flag, takes or gives a semaphore, or is the end of a Modbus transaction; a range check looks at its register once.
The state message that the write task triggers and the delay of the read task are left out.
-/

namespace EspFirmware.App
open EspFirmware.Modbus

structure AirSysRegister where
  coil : Nat → BitVec 8
  coilFlag : Nat → Bool
  holding : Nat → BitVec 16
  holdingFlag : Nat → Bool

def REGISTERS : Nat := 100

inductive Register where
  | coil (index : Nat)
  | holding (index : Nat)
  deriving DecidableEq, Repr

namespace AirSysRegister
variable (reg : AirSysRegister)

def value : Register → BitVec 16
  | .coil index => (reg.coil index).setWidth 16
  | .holding index => reg.holding index

def flag : Register → Bool
  | .coil index => reg.coilFlag index
  | .holding index => reg.holdingFlag index

def store (value : BitVec 16) : Register → AirSysRegister
  | .coil index => { reg with coil := Function.update reg.coil index (value.setWidth 8) }
  | .holding index => { reg with holding := Function.update reg.holding index value }

def setFlag (flag : Bool) : Register → AirSysRegister
  | .coil index => { reg with coilFlag := Function.update reg.coilFlag index flag }
  | .holding index => { reg with holdingFlag := Function.update reg.holdingFlag index flag }

end AirSysRegister

inductive ModifyCall where
  | coil (index value : BitVec 8)
  | holding (index value : BitVec 8)
  deriving DecidableEq, Repr

def ModifyCall.register : ModifyCall → Register
  | .coil index _ => .coil index.toNat
  | .holding index _ => .holding index.toNat

def ModifyCall.value : ModifyCall → BitVec 16
  | .coil _ value => value.setWidth 16
  | .holding _ value => value.setWidth 16

def ModifyCall.stores : ModifyCall → Bool
  | .coil _ value => value == 1 || value == 0
  | .holding _ _ => true

def ModifyCall.index : ModifyCall → BitVec 8
  | .coil index _ => index
  | .holding index _ => index

inductive ModifyPc where
  | setFlag (register : Register)
  | giveSemaphore
  deriving DecidableEq, Repr

inductive WriteCall where
  | coil (index : BitVec 8)
  | holding (index : BitVec 8) (min max : BitVec 16)
  deriving DecidableEq, Repr

namespace WriteCall

def register : WriteCall → Register
  | .coil index => .coil index.toNat
  | .holding index _ _ => .holding index.toNat

def rangeCheck (value : BitVec 16) : WriteCall → Bool
  | .coil _ => value == 1 || value == 0
  | .holding _ min max => min ≤ value && value ≤ max

def command (value : BitVec 16) : WriteCall → Call
  | .coil index => .writeSingleCoil 1 index (value.setWidth 8)
  | .holding index _ _ => .writeSingleHoldingReg 1 index value

end WriteCall

def writeCalls : List WriteCall := [.coil 40, .coil 41, .holding 21 1 2]

inductive WritePc where
  | takeSemaphore
  | takeMutex
  | testFlag (call : WriteCall) (rest : List WriteCall)
  | rangeCheck (call : WriteCall) (rest : List WriteCall)
  | send (call : WriteCall) (rest : List WriteCall)
  /-- in the transaction, which was started with the value -/
  | transaction (call : WriteCall) (value : BitVec 16) (rest : List WriteCall)
  | clearFlag (call : WriteCall) (rest : List WriteCall)
  | giveMutex
  deriving DecidableEq, Repr

def WritePc.next : List WriteCall → WritePc
  | [] => .giveMutex
  | call :: rest => .testFlag call rest

inductive ReadHalf where
  | coils
  | holdings
  deriving DecidableEq, Repr

namespace ReadHalf

def register : ReadHalf → Nat → Register
  | .coils => .coil
  | .holdings => .holding

def qty : ReadHalf → Nat
  | .coils => 79
  | .holdings => 42

def command : ReadHalf → Call
  | .coils => .readCoils 1 1 79
  | .holdings => .readHoldingRegs 1 1 42

def other : ReadHalf → ReadHalf
  | .coils => .holdings
  | .holdings => .coils

end ReadHalf

/-- The task keeps the local array `temp_coil` or `temp_holding`; it does not look at the result of the transaction. -/
inductive ReadPc where
  | takeMutex (half : ReadHalf)
  | transaction (half : ReadHalf)
  | testFlag (half : ReadHalf) (temp : Nat → BitVec 16) (result : Bool) (i : Nat)
  | copy (half : ReadHalf) (temp : Nat → BitVec 16) (result : Bool) (i : Nat)
  | giveMutex (half : ReadHalf)

def ReadPc.next (half : ReadHalf) (temp : Nat → BitVec 16) (result : Bool) (i : Nat) : ReadPc :=
  if i < half.qty + 1 then .testFlag half temp result i else .giveMutex half

def answerValues : Answer → List (BitVec 16)
  | .coils result => result.map (BitVec.setWidth 16)
  | .registers holdingregs => holdingregs
  | .written => []

inductive Happening where
  | requested (register : Register) (value : BitVec 16)
  /-- a write transaction that carries the value has succeeded -/
  | wrote (register : Register) (value : BitVec 16)
  | cleared (register : Register)
  /-- a read transaction that returns the value has succeeded -/
  | returned (register : Register) (value : BitVec 16)
  deriving DecidableEq, Repr

/-- The latest of what has happened comes first; no task looks at it. -/
structure AirSystem where
  airsysReg : AirSysRegister
  masterMutex : Bool
  writeSemaphore : Bool
  master : ModbusMaster
  calls : Nat → Option ModifyPc
  writeTask : WritePc
  readTask : ReadPc
  history : List Happening

inductive AirEvent where
  | modify (task : Nat) (call : ModifyCall)
  | resume (task : Nat)
  /-- the next step of the write task, and the line at the end of a transaction -/
  | write (line : Line)
  /-- the next step of the read task, the line, and what is in a local array that was not filled -/
  | read (line : Line) (stack : Nat → BitVec 16)

namespace AirSystem
variable (s : AirSystem)

def start (master : ModbusMaster) : AirSystem where
  airsysReg := ⟨fun _ => 0, fun _ => false, fun _ => 0, fun _ => false⟩
  masterMutex := true
  writeSemaphore := false
  master := master
  calls _ := none
  writeTask := .takeSemaphore
  readTask := .takeMutex .coils
  history := []

/-- The call up to its store; none beyond the arrays, where the store overwrites something else. -/
def modify (task : Nat) (call : ModifyCall) : Option AirSystem :=
  if s.calls task ≠ none then none
  else if call.stores = false then some s
  else if call.index.toNat < REGISTERS then
    some { s with
      airsysReg := s.airsysReg.store call.value call.register
      calls := Function.update s.calls task (some (.setFlag call.register))
      history := .requested call.register call.value :: s.history }
  else none

def resume (task : Nat) : Option AirSystem :=
  match s.calls task with
  | none => none
  | some (.setFlag register) =>
      some { s with
        airsysReg := s.airsysReg.setFlag true register
        calls := Function.update s.calls task (some .giveSemaphore) }
  | some .giveSemaphore => some { s with writeSemaphore := true, calls := Function.update s.calls task none }

/-- The result of the transaction is not looked at. -/
def endWrite (line : Line) (call : WriteCall) (value : BitVec 16) (rest : List WriteCall) : Option AirSystem :=
  ((call.command value).run line s.master).map fun t =>
    { s with
      master := t.master
      writeTask := .clearFlag call rest
      history := if t.result.isSome then .wrote call.register value :: s.history else s.history }

def write (line : Line) : Option AirSystem :=
  match s.writeTask with
  | .takeSemaphore =>
      if s.writeSemaphore then some { s with writeSemaphore := false, writeTask := .takeMutex } else none
  | .takeMutex => if s.masterMutex then some { s with masterMutex := false, writeTask := .next writeCalls } else none
  | .testFlag call rest =>
      some { s with writeTask := if s.airsysReg.flag call.register then .rangeCheck call rest else .next rest }
  | .rangeCheck call rest =>
      let value := s.airsysReg.value call.register
      some { s with writeTask := if call.rangeCheck value then .send call rest else .clearFlag call rest }
  | .send call rest => some { s with writeTask := .transaction call (s.airsysReg.value call.register) rest }
  | .transaction call value rest => s.endWrite line call value rest
  | .clearFlag call rest =>
      some { s with
        airsysReg := s.airsysReg.setFlag false call.register
        writeTask := .next rest
        history := .cleared call.register :: s.history }
  | .giveMutex => some { s with masterMutex := true, writeTask := .takeSemaphore }

def endRead (line : Line) (stack : Nat → BitVec 16) (half : ReadHalf) : Option AirSystem :=
  (half.command.run line s.master).map fun t =>
    let values := (t.result.map answerValues).getD []
    let temp i := if 1 ≤ i then values.getD (i - 1) (stack i) else stack i
    { s with
      master := t.master
      readTask := .next half temp t.result.isSome 1
      history :=
        (List.range values.length).map (fun i => .returned (half.register (1 + i)) (values.getD i 0)) ++ s.history }

def read (line : Line) (stack : Nat → BitVec 16) : Option AirSystem :=
  match s.readTask with
  | .takeMutex half =>
      if s.masterMutex then some { s with masterMutex := false, readTask := .transaction half } else none
  | .transaction half => s.endRead line stack half
  | .testFlag half temp result i =>
      some { s with
        readTask :=
          if s.airsysReg.flag (half.register i) = false then .copy half temp result i
          else .next half temp result (i + 1) }
  | .copy half temp result i =>
      some { s with
        airsysReg := s.airsysReg.store (temp i) (half.register i)
        readTask := .next half temp result (i + 1) }
  | .giveMutex half => some { s with masterMutex := true, readTask := .takeMutex half.other }

end AirSystem

def AirEvent.run (s : AirSystem) : AirEvent → Option AirSystem
  | .modify task call => s.modify task call
  | .resume task => s.resume task
  | .write line => s.write line
  | .read line stack => s.read line stack

end EspFirmware.App
