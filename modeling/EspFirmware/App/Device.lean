import EspFirmware.App.Alarm
import EspFirmware.App.Json

/-!
The message handlers of `csro_device.c`, `csro_nlight.c` and `csro_system.c` for a device built
with `NLIGHT` 3. The three binary semaphores that wake the publishing task are the flags
`statusTrigger`, `systemTrigger` and `alarmTrigger`; `esp_restart` does not return, so a handler
that reaches it ends there.
-/

namespace EspFirmware.App
open EspFirmware.Lib (cString)

abbrev NLIGHT : Nat := 3

structure Switch where
  index : BitVec 8
  state : BitVec 8
  onSource : BitVec 8
  onTim : BitVec 32
  offSource : BitVec 8
  offTim : BitVec 32
  deriving DecidableEq, Repr

structure Device where
  alarm : AlarmState
  channel : Fin NLIGHT → Switch
  timeNow : BitVec 32
  interval : BitVec 16
  nvsInterval : Option NvsValue
  statusPeriod : Nat
  statusTrigger : Bool
  systemTrigger : Bool
  alarmTrigger : Bool
  restarted : Bool

namespace Device

def triggerStatus (d : Device) : Device := { d with statusTrigger := true }
def triggerSystem (d : Device) : Device := { d with systemTrigger := true }
def triggerAlarm (d : Device) : Device := { d with alarmTrigger := true }
def espRestart (d : Device) : Device := { d with restarted := true }

end Device

def csroSystemSetInterval (interval : BitVec 16) (d : Device) : Device :=
  if 2 ≤ interval.toNat ∧ interval.toNat ≤ 120 then
    { d with nvsInterval := some (.u16 interval), interval := interval,
             statusPeriod := interval.toNat * 1000 }
  else d

def switchSet (ch : Switch) (value source : BitVec 8) (now : BitVec 32) : Option Switch :=
  if NLIGHT < ch.index.toNat + 1 ∨ 2 < value.toNat then none
  else
    let state : BitVec 8 := if value = 2 then (if ch.state = 0 then 1 else 0) else value
    if state = 1 then some { ch with state := state, onSource := source, onTim := now }
    else some { ch with state := state, offSource := source, offTim := now }

def nlightChannelSet (i : Fin NLIGHT) (value source : BitVec 8) (d : Device) : Device :=
  match switchSet (d.channel i) value source d.timeNow with
  | some ch => { d with channel := Function.update d.channel i ch }.triggerStatus
  | none => d

section
variable (msg : Option Json)

def commandInterval (d : Device) : Device :=
  match parseLevel1JsonNumber msg "interval" with
  | some value => csroSystemSetInterval (value.setWidth 16) d
  | none => d

def commandSysinfo (d : Device) : Device :=
  if parseLevel1JsonNumber msg "sysinfo" = some 1 then d.triggerSystem else d

def commandAlarminfo (d : Device) : Device :=
  if parseLevel1JsonNumber msg "alarminfo" = some 1 then d.triggerAlarm else d

/-- The command an `alarm_add` member stands for, once all of its numbers are there. -/
def alarmAddCommand : Option AlarmCommand :=
  if parseLevel1JsonObject msg "alarm_add" then do
    let weekday ← parseLevel2JsonNumber msg "alarm_add" "weekday"
    let minutes ← parseLevel2JsonNumber msg "alarm_add" "minutes"
    let action ← parseLevel2JsonNumber msg "alarm_add" "action"
    some (.add (weekday.setWidth 8) (minutes.setWidth 16) (action.setWidth 16))
  else none

def alarmModifyCommand : Option AlarmCommand :=
  if parseLevel1JsonObject msg "alarm_modify" then do
    let index ← parseLevel2JsonNumber msg "alarm_modify" "index"
    let weekday ← parseLevel2JsonNumber msg "alarm_modify" "weekday"
    let minutes ← parseLevel2JsonNumber msg "alarm_modify" "minutes"
    let action ← parseLevel2JsonNumber msg "alarm_modify" "action"
    some (.modify (index.setWidth 8) (weekday.setWidth 8) (minutes.setWidth 16)
      (action.setWidth 16))
  else none

/-- Unlike modify, delete takes one off the index that was sent. -/
def alarmDeleteCommand : Option AlarmCommand :=
  if parseLevel1JsonObject msg "alarm_delete" then do
    let index ← parseLevel2JsonNumber msg "alarm_delete" "index"
    some (.delete ((index - 1).setWidth 8))
  else none

def alarmClearCommand : Option AlarmCommand :=
  if parseLevel1JsonObject msg "alarm_clear" then do
    let value ← parseLevel2JsonNumber msg "alarm_clear" "value"
    if value = 1 then some .clear else none
  else none

def alarmCommands : List AlarmCommand :=
  [alarmAddCommand msg, alarmModifyCommand msg,
    alarmDeleteCommand msg, alarmClearCommand msg].filterMap id

def commandAlarms (d : Device) : Device :=
  let commands := alarmCommands msg
  let d := { d with alarm := runCommands commands d.alarm }
  if commands = [] then d else d.triggerAlarm

def channelName (i : Fin NLIGHT) : String := "channel" ++ toString (i.val + 1)

def commandChannel (i : Fin NLIGHT) (d : Device) : Device :=
  match parseLevel1JsonNumber msg (channelName i) with
  | some value => nlightChannelSet i (value.setWidth 8) 1 d
  | none => d

def csroNlightHandleSelfMessage (d : Device) : Device :=
  let valid := (List.finRange NLIGHT).any fun i =>
    (parseLevel1JsonNumber msg (channelName i)).isSome
  let d := (List.finRange NLIGHT).foldl (fun d i => commandChannel msg i d) d
  if valid then d.triggerStatus else d

def csroDeviceHandleSelfMessage (d : Device) : Device :=
  let d := commandAlarminfo msg
    (commandSysinfo msg (commandInterval msg d))
  if parseLevel1JsonNumber msg "restart" = some 1 then d.espRestart
  else csroNlightHandleSelfMessage msg (commandAlarms msg d)

def csroDeviceHandleGroupMessage (d : Device) : Device :=
  if parseLevel1JsonNumber msg "update" = some 1 then d.triggerStatus else d

end

/-! ## Home Assistant messages

`none` is the result of a copy that runs out of its buffer. -/

def strncpyBytes (source : List Byte) : List Byte :=
  cString source ++ List.replicate (source.length - (cString source).length) 0

def segments (topic : List Byte) : List (List Byte) :=
  (topic.splitOn 47).filter (· ≠ [])

def getHassMessageSubTopic (topicName stack : List Byte) : Option (List Byte) :=
  if 200 < topicName.length ∨ 200 ≤ (cString topicName).length then none
  else
    let found := segments (cString topicName)
    if found.any fun s => 50 ≤ s.length then none
    else some (found.getLast?.getD (cString stack))

def hassCommand (payload : List Byte) : Option (BitVec 8) :=
  if payload = ascii "on" then some 1
  else if payload = ascii "off" then some 0
  else none

def csroNlightHandleHassMessage (topicName payload payloadStack subTopicStack : List Byte)
    (d : Device) : Option Device :=
  if 200 < payload.length then none
  else
    let text := cString (strncpyBytes payload ++ payloadStack)
    match getHassMessageSubTopic topicName subTopicStack with
    | none => none
    | some subTopic =>
        match (List.finRange NLIGHT).find? fun i => subTopic = ascii (channelName i) with
        | none => some d
        | some i =>
            match hassCommand text with
            | some value => some (nlightChannelSet i value 2 d).triggerStatus
            | none => some d

def timerMembers (alarms : Alarms) :
    List (Fin ALARM_NUMBER) → Nat → List (List Byte × Json)
  | [], _ => []
  | i :: rest, timerCount =>
      if (alarms i).valid then
        (ascii (alarmKey (timerCount + 1)), Json.object
          [(ascii "weekday", .number ((alarms i).weekday.setWidth 32)),
           (ascii "minutes", .number ((alarms i).minutes.setWidth 32)),
           (ascii "action", .number ((alarms i).action.setWidth 32))]) ::
          timerMembers alarms rest (timerCount + 1)
      else [(ascii "count", .number (BitVec.ofNat 32 timerCount))]

def csroDevicePrepareTimerMessage (alarms : Alarms) : Json :=
  .object (timerMembers alarms (List.finRange ALARM_NUMBER) 0)

end EspFirmware.App
