import Mathlib.Algebra.GroupWithZero.Nat
import Mathlib.Data.Fin.Basic
import Mathlib.Data.List.OfFn

/-!
The alarm table of `csro_datetime.c`: twenty slots in RAM, saved to and loaded from the NVS
namespace `alarms`. The namespace is a map from keys to typed values: a getter of another type
than the stored one fails and leaves its destination as it was.
-/

namespace EspFirmware.App

abbrev ALARM_NUMBER : Nat := 20

structure AlarmStruct where
  valid : Bool
  weekday : BitVec 8
  minutes : BitVec 16
  action : BitVec 16
  deriving DecidableEq, Repr

abbrev Alarms := Fin ALARM_NUMBER → AlarmStruct

inductive NvsValue where
  | u8 (value : BitVec 8)
  | u16 (value : BitVec 16)
  | u32 (value : BitVec 32)
  | other
  deriving DecidableEq, Repr

abbrev Namespace := String → Option NvsValue

def nvsGetU8 (nvs : Namespace) (key : String) (dest : BitVec 8) : BitVec 8 :=
  match nvs key with | some (.u8 v) => v | _ => dest

def nvsGetU32 (nvs : Namespace) (key : String) (dest : BitVec 32) : BitVec 32 :=
  match nvs key with | some (.u32 v) => v | _ => dest

def nvsSet (nvs : Namespace) (key : String) (value : NvsValue) : Namespace :=
  fun k => if k = key then some value else nvs k

def alarmKey (i : Nat) : String := "alarm" ++ toString i

structure AlarmState where
  alarms : Alarms
  nvs : Namespace

def packAlarm (a : AlarmStruct) : BitVec 32 :=
  (a.weekday.setWidth 32 <<< 25) + (a.minutes.setWidth 32 <<< 14) + a.action.setWidth 32

def unpackAlarm (value : BitVec 32) : AlarmStruct where
  valid := true
  weekday := ((value &&& 0xFE000000#32) >>> 25).setWidth 8
  minutes := ((value &&& 0x01FFC000#32) >>> 14).setWidth 16
  action := (value &&& 0x00003FFF#32).setWidth 16

/-- The slots at and above `alarm_count` keep their old fields and only lose `valid`. -/
def loadAlarmFromNvs (s : AlarmState) : AlarmState :=
  let alarmCount := nvsGetU8 s.nvs "alarm_count" 0#8
  { s with alarms := fun i =>
      if i.val < alarmCount.toNat then unpackAlarm (nvsGetU32 s.nvs (alarmKey i) 0#32)
      else { s.alarms i with valid := false } }

/-- The loop of `save_alarm_to_nvs` over the slots still to visit: it stops at the first invalid
one. -/
def saveLoop (alarms : Alarms) : List (Fin ALARM_NUMBER) → BitVec 8 → Namespace → BitVec 8 × Namespace
  | [], count, nvs => (count, nvs)
  | i :: rest, count, nvs =>
      if (alarms i).valid then
        saveLoop alarms rest (count + 1) (nvsSet nvs (alarmKey i) (.u32 (packAlarm (alarms i))))
      else (count, nvs)

def saveAlarmToNvs (s : AlarmState) : AlarmState :=
  let (alarmCount, nvs) := saveLoop s.alarms (List.finRange ALARM_NUMBER) 0#8 s.nvs
  { s with nvs := nvsSet nvs "alarm_count" (.u8 alarmCount) }

def csroAlarmAdd (weekday : BitVec 8) (minutes action : BitVec 16) (s : AlarmState) : AlarmState :=
  match (List.finRange ALARM_NUMBER).find? fun i =>
      (s.alarms i).valid && (s.alarms i).weekday == weekday && (s.alarms i).minutes == minutes with
  | some i =>
      saveAlarmToNvs
        { s with alarms := Function.update s.alarms i { s.alarms i with action := action } }
  | none =>
      match (List.finRange ALARM_NUMBER).find? fun i => !(s.alarms i).valid with
      | some i =>
          saveAlarmToNvs
            { s with alarms := Function.update s.alarms i ⟨true, weekday, minutes, action⟩ }
      | none => s

def csroAlarmModify (index : BitVec 8) (weekday : BitVec 8) (minutes action : BitVec 16)
    (s : AlarmState) : AlarmState :=
  if h : index.toNat < ALARM_NUMBER then
    if (s.alarms ⟨index.toNat, h⟩).valid then
      let changed : AlarmStruct :=
        { s.alarms ⟨index.toNat, h⟩ with weekday := weekday, minutes := minutes, action := action }
      saveAlarmToNvs { s with alarms := Function.update s.alarms ⟨index.toNat, h⟩ changed }
    else s
  else s

def deleteStep (index : Nat) (alarms : Alarms) (i : Fin (ALARM_NUMBER - 1)) : Alarms :=
  if index ≤ i.val ∧ (alarms i.succ).valid then
    let moved := Function.update alarms i.castSucc (alarms i.succ)
    Function.update moved i.succ { moved i.succ with valid := false }
  else alarms

def csroAlarmDelete (index : BitVec 8) (s : AlarmState) : AlarmState :=
  if h : index.toNat < ALARM_NUMBER then
    if (s.alarms ⟨index.toNat, h⟩).valid then
      let cleared := Function.update s.alarms ⟨index.toNat, h⟩
        { s.alarms ⟨index.toNat, h⟩ with valid := false }
      saveAlarmToNvs { s with alarms :=
        (List.finRange (ALARM_NUMBER - 1)).foldl (deleteStep index.toNat) cleared }
    else s
  else s

def csroAlarmClear (s : AlarmState) : AlarmState :=
  saveAlarmToNvs { s with alarms := fun i => { s.alarms i with valid := false } }

inductive AlarmCommand where
  | add (weekday : BitVec 8) (minutes action : BitVec 16)
  | modify (index weekday : BitVec 8) (minutes action : BitVec 16)
  | delete (index : BitVec 8)
  | clear
  deriving DecidableEq, Repr

def AlarmCommand.run : AlarmCommand → AlarmState → AlarmState
  | .add weekday minutes action => csroAlarmAdd weekday minutes action
  | .modify index weekday minutes action => csroAlarmModify index weekday minutes action
  | .delete index => csroAlarmDelete index
  | .clear => csroAlarmClear

def runCommands (commands : List AlarmCommand) (s : AlarmState) : AlarmState :=
  commands.foldl (fun s c => c.run s) s

end EspFirmware.App
