import EspFirmware.App.Alarm
import EspFirmware.App.Json

/-!
The clock of `csro_datetime.c`. `mktime` and `localtime_r` are those of the C library, so they come
in as a parameter; times are whole seconds. The calls of `datetime_check_alarm` are kept in a trace.
-/

namespace EspFirmware.App

structure Tm where
  year : Int
  mon : Int
  mday : Int
  hour : Int
  min : Int
  sec : Int
  wday : Int
  yday : Int
  isdst : Int
  deriving DecidableEq, Repr

structure TimeLib where
  mktime : Tm → Int × Tm
  localtimeR : Int → Tm

def isWhite (c : Byte) : Bool := c = 32 || (9 ≤ c.toNat && c.toNat ≤ 13)

def scanDecimal (text : List Byte) : Option (Int × List Byte) :=
  let text := text.dropWhile isWhite
  let negative := text.head? = some 45
  let text := if negative ∨ text.head? = some 43 then text.tail else text
  let digits := text.takeWhile isDigit
  if digits = [] then none
  else
    let number := digits.foldl (fun n c => 10 * n + (c.toNat - 48 : Int)) 0
    some (if negative then -number else number, text.drop digits.length)

inductive Directive where
  | decimal
  | white
  | literal (c : Byte)
  deriving DecidableEq, Repr

def sscanf : List Directive → List Byte → List (BitVec 32)
  | [], _ => []
  | .decimal :: rest, text =>
      match scanDecimal text with
      | some (number, text) => saturate number :: sscanf rest text
      | none => []
  | .white :: rest, text => sscanf rest (text.dropWhile isWhite)
  | .literal _ :: _, [] => []
  | .literal c :: rest, d :: text => if c = d then sscanf rest text else []

def timeFormat : List Directive :=
  [.decimal, .literal 45, .decimal, .literal 45, .decimal, .white,
    .decimal, .literal 58, .decimal, .literal 58, .decimal]

/-- The array `tim`, whose entries `sscanf` leaves as `stack` has them when it stops early. -/
def scanTime (timeStr : List Byte) (stack : Fin 6 → BitVec 32) : Fin 6 → BitVec 32 :=
  fun i => (sscanf timeFormat timeStr)[i.val]?.getD (stack i)

structure Check where
  time : Int
  timeInfo : Tm
  actions : List (BitVec 16)
  deriving DecidableEq, Repr

structure Clock where
  timeSync : Bool
  timeOn : Int
  timeNow : Int
  timeRun : Int
  timeInfo : Tm
  alarms : Alarms
  checks : List Check

def dueActions (alarms : Alarms) (timeInfo : Tm) : List (BitVec 16) :=
  let nowMinutes := BitVec.ofInt 16 (timeInfo.hour * 60 + timeInfo.min)
  let day : BitVec 32 := 1 <<< (BitVec.ofInt 8 timeInfo.wday).toNat
  ((List.finRange ALARM_NUMBER).filter fun i =>
    (alarms i).valid && (alarms i).minutes == nowMinutes &&
      ((alarms i).weekday.setWidth 32 &&& day) == day).map fun i => (alarms i).action

def datetimeCheckAlarm (c : Clock) : Clock :=
  { c with checks := c.checks ++ [⟨c.timeNow, c.timeInfo, dueActions c.alarms c.timeInfo⟩] }

def timeOutOfRange (tim : Fin 6 → BitVec 32) : Bool :=
  (tim 0).toNat < 2018 || 12 < (tim 1).toNat || 31 < (tim 2).toNat || 23 < (tim 3).toNat ||
    59 < (tim 4).toNat || 59 < (tim 5).toNat

def setTimeInfo (tim : Fin 6 → BitVec 32) (timeInfo : Tm) : Tm :=
  { timeInfo with
    year := (tim 0 - 1900).toInt, mon := (tim 1 - 1).toInt, mday := (tim 2).toInt,
    hour := (tim 3).toInt, min := (tim 4).toInt, sec := (tim 5).toInt }

section
variable (lib : TimeLib)

def csroDatetimeSet (timeStr : List Byte) (stack : Fin 6 → BitVec 32) (c : Clock) : Clock :=
  let tim := scanTime timeStr stack
  if timeOutOfRange tim then c
  else if c.timeSync = false ∨ tim 5 = 30 then
    let (timeNow, timeInfo) := lib.mktime (setTimeInfo tim c.timeInfo)
    let timeOn := if c.timeSync = false then timeNow - c.timeRun else c.timeOn
    { c with timeSync := true, timeInfo := timeInfo, timeNow := timeNow, timeOn := timeOn,
             timeRun := timeNow - timeOn }
  else c

def secondTimerCallback (c : Clock) : Clock :=
  let c := { c with timeRun := c.timeRun + 1 }
  if c.timeSync then
    let c := { c with timeNow := c.timeNow + 1, timeInfo := lib.localtimeR (c.timeNow + 1) }
    if c.timeInfo.sec = 0 then datetimeCheckAlarm c else c
  else c

inductive ClockEvent where
  | tick
  | set (timeStr : List Byte) (stack : Fin 6 → BitVec 32)

def ClockEvent.run : ClockEvent → Clock → Clock
  | .tick, c => secondTimerCallback lib c
  | .set timeStr stack, c => csroDatetimeSet lib timeStr stack c

def runClock (events : List ClockEvent) (c : Clock) : Clock :=
  events.foldl (fun c e => e.run lib c) c

end

end EspFirmware.App
