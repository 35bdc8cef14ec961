import EspFirmware.App.Print

/-!
What the alarm table is for: a list of at most twenty entries, edited by position, that is published in one message.
-/

namespace EspFirmware.Spec
open EspFirmware.App

structure AlarmEntry where
  weekday : BitVec 8
  minutes : BitVec 16
  action : BitVec 16
  deriving DecidableEq, Repr

def entryOf (a : AlarmStruct) : AlarmEntry := ⟨a.weekday, a.minutes, a.action⟩

def alarmList (alarms : Alarms) : List AlarmEntry :=
  ((List.finRange ALARM_NUMBER).takeWhile fun i => (alarms i).valid).map fun i => entryOf (alarms i)

def Contiguous (alarms : Alarms) : Prop :=
  ∀ i j, i ≤ j → (alarms j).valid = true → (alarms i).valid = true

def AlarmEntry.slot (e : AlarmEntry) : BitVec 8 × BitVec 16 := (e.weekday, e.minutes)

def addEntry (e : AlarmEntry) (l : List AlarmEntry) : List AlarmEntry :=
  match l.findIdx? fun x => x.slot == e.slot with
  | some i => l.set i e
  | none => if l.length < ALARM_NUMBER then l ++ [e] else l

def editList : AlarmCommand → List AlarmEntry → List AlarmEntry
  | .add weekday minutes action, l => addEntry ⟨weekday, minutes, action⟩ l
  | .modify index weekday minutes action, l =>
      if index.toNat < l.length then l.set index.toNat ⟨weekday, minutes, action⟩ else l
  | .delete index, l => if index.toNat < l.length then l.eraseIdx index.toNat else l
  | .clear, _ => []

def AlarmEntry.Fits (e : AlarmEntry) : Prop :=
  e.weekday.toNat < 2 ^ 7 ∧ e.minutes.toNat < 2 ^ 11 ∧ e.action.toNat < 2 ^ 14

instance (e : AlarmEntry) : Decidable e.Fits := inferInstanceAs (Decidable (_ ∧ _ ∧ _))

def CommandFits : AlarmCommand → Prop
  | .add weekday minutes action => AlarmEntry.Fits ⟨weekday, minutes, action⟩
  | .modify _ weekday minutes action => AlarmEntry.Fits ⟨weekday, minutes, action⟩
  | .delete _ => True
  | .clear => True

def DistinctSlots (l : List AlarmEntry) : Prop := (l.map AlarmEntry.slot).Nodup

/-- A modify command does not move its entry onto the weekday and minutes of another one. -/
def SlotIsFree (l : List AlarmEntry) : AlarmCommand → Prop
  | .modify index weekday minutes _ =>
      ∀ k, k < l.length → index.toNat < l.length → k ≠ index.toNat →
        (l.map AlarmEntry.slot)[k]? ≠ some (weekday, minutes)
  | _ => True

structure MessagesFit (lib : TimeLib) (alarms : Alarms) : Prop where
  timer : (copyContent (csroDevicePrepareTimerMessage alarms).item).isSome
  status : ∀ channel, (copyContent (csroNlightPrepareStatusMessage channel)).isSome
  system : ∀ s timeOn heap interval, (copyContent (csroSystemPrepareMessage lib s timeOn heap interval)).isSome

def digitCount (n : Nat) : Nat := (Nat.toDigits 10 n).length

def AlarmEntry.digitCount (e : AlarmEntry) : Nat :=
  Spec.digitCount e.weekday.toNat + Spec.digitCount e.minutes.toNat + Spec.digitCount e.action.toNat

def AlarmsShort (l : List AlarmEntry) : Prop :=
  l.length ≤ 17 ∨ l.length = 18 ∧ (l.map AlarmEntry.digitCount).sum ≤ 204 ∨
    l.length = 19 ∧ (l.map AlarmEntry.digitCount).sum ≤ 160 ∨ l.length = 20 ∧ (l.map AlarmEntry.digitCount).sum ≤ 127

end EspFirmware.Spec

/-!
Times that exist, as texts and as counters, and the alarm checks that are made at them.
-/

namespace EspFirmware.Spec
open EspFirmware.App

/-- The numbers that a text has at the conversions of a format, up to the first one that is not there. -/
def scanNumbers : List Directive → List Byte → List Int
  | [], _ => []
  | .decimal :: rest, text =>
      match scanDecimal text with
      | some (number, text) => number :: scanNumbers rest text
      | none => []
  | .white :: rest, text => scanNumbers rest (text.dropWhile isWhite)
  | .literal _ :: _, [] => []
  | .literal c :: rest, d :: text => if c = d then scanNumbers rest text else []

def isLeapYear (year : Int) : Bool := year % 4 = 0 ∧ (year % 100 ≠ 0 ∨ year % 400 = 0)

def daysInMonth (year month : Int) : Int :=
  if month = 2 then if isLeapYear year then 29 else 28
  else if month = 4 ∨ month = 6 ∨ month = 9 ∨ month = 11 then 30
  else 31

def IsDateTime : List Int → Prop
  | [year, month, day, hour, minute, second] =>
      2018 ≤ year ∧ (1 ≤ month ∧ month ≤ 12) ∧ (1 ≤ day ∧ day ≤ daysInMonth year month) ∧ (0 ≤ hour ∧ hour ≤ 23) ∧
        (0 ≤ minute ∧ minute ≤ 59) ∧ 0 ≤ second ∧ second ≤ 59
  | _ => False

def Complete : List Int → Prop
  | [year, month, day, _, _, _] => 0 ≤ year ∧ 1 ≤ month ∧ 1 ≤ day ∧ day ≤ daysInMonth year month
  | _ => False

def TimeGuarded (timeStr : List Byte) (stack : Fin 6 → BitVec 32) : Prop :=
  timeOutOfRange (scanTime timeStr stack) = true ∨ Complete (scanNumbers timeFormat timeStr)

def clockAtBoot (alarms : Alarms) : Clock := ⟨false, 0, 0, 0, ⟨0, 0, 0, 0, 0, 0, 0, 0, 0⟩, alarms, []⟩

def ClockEvent.isTick : ClockEvent → Bool
  | .tick => true
  | .set _ _ => false

/-- Seconds are counted until the time is known, and from then on the time is that of the start and the seconds since. -/
structure UptimeConsistent (lib : TimeLib) (alarms : Alarms) (events : List ClockEvent) : Prop where
  before : (runClock lib events (clockAtBoot alarms)).timeSync = false →
    (runClock lib events (clockAtBoot alarms)).timeRun = events.countP ClockEvent.isTick
  after : (runClock lib events (clockAtBoot alarms)).timeSync = true →
    (runClock lib events (clockAtBoot alarms)).timeNow =
      (runClock lib events (clockAtBoot alarms)).timeOn + (runClock lib events (clockAtBoot alarms)).timeRun
  start : (runClock lib events (clockAtBoot alarms)).timeSync = true → ∀ later,
    (runClock lib (events ++ later) (clockAtBoot alarms)).timeOn = (runClock lib events (clockAtBoot alarms)).timeOn

/-- The zone is off by whole minutes, and breaking a time down gives back the seconds it was made
from. -/
structure WholeMinuteZone (lib : TimeLib) : Prop where
  offset : ∀ t, (lib.localtimeR t).sec = t % 60
  inverse : ∀ tm, 0 ≤ tm.sec → tm.sec < 60 → (lib.localtimeR (lib.mktime tm).1).sec = tm.sec

def resyncTime (lib : TimeLib) (timeStr : List Byte) (stack : Fin 6 → BitVec 32) (c : Clock) :
    Option Int :=
  let tim := scanTime timeStr stack
  if ¬ timeOutOfRange tim ∧ tim (Fin.last 5) = 30 then some (lib.mktime (setTimeInfo tim c.timeInfo)).1 else none

def SmallCorrection (lib : TimeLib) (c : Clock) : ClockEvent → Prop
  | .tick => True
  | .set timeStr stack => ∀ t ∈ resyncTime lib timeStr stack c, t - c.timeNow ≤ 30 ∧ c.timeNow - t < 30

def SmallCorrections (lib : TimeLib) : Clock → List ClockEvent → Prop
  | _, [] => True
  | c, e :: rest => SmallCorrection lib c e ∧ SmallCorrections lib (e.run lib c) rest

/-- The checks made so far are one for each minute that began after `sync`, up to now. -/
structure MinutesChecked (lib : TimeLib) (sync : Int) (c : Clock) : Prop where
  once : (c.checks.map Check.time).Nodup
  minutes : ∀ t, t ∈ c.checks.map Check.time ↔ t % 60 = 0 ∧ sync < t ∧ t ≤ c.timeNow
  wallClock : ∀ check ∈ c.checks, check.timeInfo = lib.localtimeR check.time

end EspFirmware.Spec
