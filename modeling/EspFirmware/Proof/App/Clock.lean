import Mathlib.Data.List.Nodup
import EspFirmware.Spec.Time

namespace EspFirmware.Proof.App
open EspFirmware.App EspFirmware.Spec

def Counted (ticks : Nat) (c : Clock) : Prop :=
  (c.timeSync = false → c.timeRun = ticks) ∧ (c.timeSync = true → c.timeNow = c.timeOn + c.timeRun)

variable {lib : TimeLib}

theorem counted_tick {ticks : Nat} {c : Clock} (counted : Counted ticks c) :
    Counted (ticks + 1) (secondTimerCallback lib c) := by
  obtain ⟨before, after⟩ := counted
  unfold secondTimerCallback
  dsimp only
  by_cases synced : c.timeSync = true
  · have sum := after synced
    rw [if_pos synced]
    split
    · refine ⟨fun unsynced => absurd synced (by rw [show c.timeSync = false from unsynced]; decide), fun _ => ?_⟩
      show c.timeNow + 1 = c.timeOn + (c.timeRun + 1)
      omega
    · refine ⟨fun unsynced => absurd synced (by rw [show c.timeSync = false from unsynced]; decide), fun _ => ?_⟩
      show c.timeNow + 1 = c.timeOn + (c.timeRun + 1)
      omega
  · rw [if_neg synced]
    refine ⟨fun unsynced => ?_, fun synced' => absurd synced' synced⟩
    have count := before unsynced
    show c.timeRun + 1 = ((ticks + 1 : Nat) : Int)
    omega

theorem counted_set {ticks : Nat} {c : Clock} (counted : Counted ticks c) (timeStr : List Byte)
    (stack : Fin 6 → BitVec 32) : Counted ticks (csroDatetimeSet lib timeStr stack c) := by
  unfold csroDatetimeSet
  dsimp only
  split
  · exact counted
  · split
    · refine ⟨nofun, fun _ => ?_⟩
      dsimp only
      omega
    · exact counted

theorem counted_run {ticks : Nat} {c : Clock} (counted : Counted ticks c) (events : List ClockEvent) :
    Counted (ticks + events.countP ClockEvent.isTick) (runClock lib events c) := by
  induction events generalizing ticks c with
  | nil => exact counted
  | cons e rest ih =>
      cases e with
      | tick =>
          have next : ticks + (ClockEvent.tick :: rest).countP ClockEvent.isTick =
              ticks + 1 + rest.countP ClockEvent.isTick := by
            rw [List.countP_cons_of_pos rfl]
            omega
          rw [next]
          exact ih (counted_tick counted)
      | set timeStr stack =>
          have next : (ClockEvent.set timeStr stack :: rest).countP ClockEvent.isTick =
              rest.countP ClockEvent.isTick := List.countP_cons_of_neg nofun
          rw [next]
          exact ih (counted_set counted timeStr stack)

theorem timeOn_kept {c : Clock} (synced : c.timeSync = true) (events : List ClockEvent) :
    (runClock lib events c).timeOn = c.timeOn := by
  induction events generalizing c with
  | nil => rfl
  | cons e rest ih =>
      have one : (e.run lib c).timeSync = true ∧ (e.run lib c).timeOn = c.timeOn := by
        cases e with
        | tick =>
            show (secondTimerCallback lib c).timeSync = true ∧ (secondTimerCallback lib c).timeOn = c.timeOn
            unfold secondTimerCallback
            dsimp only
            rw [if_pos synced]
            split <;> exact ⟨synced, rfl⟩
        | set timeStr stack =>
            show (csroDatetimeSet lib timeStr stack c).timeSync = true ∧
              (csroDatetimeSet lib timeStr stack c).timeOn = c.timeOn
            unfold csroDatetimeSet
            dsimp only
            split
            · exact ⟨synced, rfl⟩
            · split
              · exact ⟨rfl, if_neg (by rw [synced]; decide)⟩
              · exact ⟨synced, rfl⟩
      exact (ih one.1).trans one.2

theorem uptime_consistent (lib : TimeLib) (alarms : Alarms) (events : List ClockEvent) :
    UptimeConsistent lib alarms events := by
  have boot : Counted 0 (clockAtBoot alarms) := ⟨fun _ => rfl, nofun⟩
  have counted := (counted_run boot events : Counted _ (runClock lib events _))
  rw [Nat.zero_add] at counted
  refine ⟨counted.1, counted.2, fun synced later => ?_⟩
  have split : runClock lib (events ++ later) (clockAtBoot alarms) =
      runClock lib later (runClock lib events (clockAtBoot alarms)) := List.foldl_append
  rw [split]
  exact timeOn_kept synced later

end EspFirmware.Proof.App

namespace EspFirmware.Proof.App
open EspFirmware.App EspFirmware.Spec

variable {lib : TimeLib}

theorem resyncTime_eq (lib : TimeLib) (timeStr : List Byte) (stack : Fin 6 → BitVec 32) (c : Clock) :
    resyncTime lib timeStr stack c =
      if ¬ timeOutOfRange (scanTime timeStr stack) ∧ scanTime timeStr stack 5 = 30 then
        some (lib.mktime (setTimeInfo (scanTime timeStr stack) c.timeInfo)).1
      else none := rfl

theorem csroDatetimeSet_synced (lib : TimeLib) {c : Clock} (synced : c.timeSync = true) (timeStr : List Byte)
    (stack : Fin 6 → BitVec 32) :
    (csroDatetimeSet lib timeStr stack c).timeSync = true ∧
      (csroDatetimeSet lib timeStr stack c).checks = c.checks ∧
      (csroDatetimeSet lib timeStr stack c).timeNow =
        (resyncTime lib timeStr stack c).getD c.timeNow := by
  rw [resyncTime_eq]
  unfold csroDatetimeSet
  dsimp only
  by_cases range : timeOutOfRange (scanTime timeStr stack)
  · simp [range, synced]
  · by_cases gate : scanTime timeStr stack 5 = 30
    · have open_ : c.timeSync = false ∨ scanTime timeStr stack 5 = 30 := .inr gate
      have accepted : ¬ timeOutOfRange (scanTime timeStr stack) = true ∧
          scanTime timeStr stack 5 = 30 := ⟨range, gate⟩
      rw [if_neg range, if_pos open_, if_pos accepted]
      exact ⟨rfl, rfl, rfl⟩
    · have closed : ¬ (c.timeSync = false ∨ scanTime timeStr stack 5 = 30) :=
        not_or.mpr ⟨by rw [synced]; decide, gate⟩
      have refused : ¬ (¬ timeOutOfRange (scanTime timeStr stack) = true ∧
          scanTime timeStr stack 5 = 30) := fun both => gate both.2
      rw [if_neg range, if_neg closed, if_neg refused]
      exact ⟨synced, rfl, rfl⟩

theorem resyncTime_second (zone : WholeMinuteZone lib) {c : Clock} {timeStr : List Byte}
    {stack : Fin 6 → BitVec 32} {t : Int} (set : resyncTime lib timeStr stack c = some t) :
    t % 60 = 30 := by
  rw [resyncTime_eq] at set
  split at set
  · rename_i gate
    cases set
    have sec : (setTimeInfo (scanTime timeStr stack) c.timeInfo).sec = 30 := by
      change (scanTime timeStr stack 5).toInt = 30
      rw [gate.2]
      rfl
    rw [← zone.offset, zone.inverse _ (by omega) (by omega), sec]
  · contradiction

structure ClockInvariant (lib : TimeLib) (sync : Int) (c : Clock) : Prop
    extends MinutesChecked lib sync c where
  synced : c.timeSync = true
  sameMinute : sync / 60 ≤ c.timeNow / 60

section
variable (zone : WholeMinuteZone lib) {sync : Int} {c : Clock}
include zone

theorem clockInvariant_tick (inv : ClockInvariant lib sync c) :
    ClockInvariant lib sync (secondTimerCallback lib c) := by
  have minute := inv.sameMinute
  unfold secondTimerCallback
  dsimp only
  rw [if_pos inv.synced, zone.offset]
  by_cases begins : (c.timeNow + 1) % 60 = 0
  · rw [if_pos begins]
    have fresh : c.timeNow + 1 ∉ c.checks.map Check.time := by
      rw [inv.minutes]
      omega
    refine { once := ?_, minutes := fun t => ?_, wallClock := ?_, synced := inv.synced, sameMinute := ?_ }
    · simp only [datetimeCheckAlarm, List.map_append, List.map_cons, List.map_nil]
      exact List.Nodup.append inv.once (List.nodup_singleton _) (by simpa using fresh)
    · simp only [datetimeCheckAlarm, List.map_append, List.mem_append, inv.minutes, List.map_cons,
        List.map_nil, List.mem_singleton]
      omega
    · intro check made
      rcases List.mem_append.mp made with old | new
      · exact inv.wallClock check old
      · rw [List.mem_singleton.mp new]
    · change sync / 60 ≤ (c.timeNow + 1) / 60
      omega
  · rw [if_neg begins]
    refine { once := inv.once, minutes := fun t => ?_, wallClock := inv.wallClock,
             synced := inv.synced, sameMinute := ?_ }
    · rw [inv.minutes]
      dsimp only
      omega
    · dsimp only
      omega

theorem clockInvariant_set (inv : ClockInvariant lib sync c) (timeStr : List Byte)
    (stack : Fin 6 → BitVec 32) (small : SmallCorrection lib c (.set timeStr stack)) :
    ClockInvariant lib sync (csroDatetimeSet lib timeStr stack c) := by
  obtain ⟨synced, checks, now⟩ := csroDatetimeSet_synced lib inv.synced timeStr stack
  have minute := inv.sameMinute
  -- the correction stays within the minute, so no minute begins or is taken back
  have within : (csroDatetimeSet lib timeStr stack c).timeNow / 60 = c.timeNow / 60 := by
    rw [now]
    cases set : resyncTime lib timeStr stack c with
    | none => rfl
    | some t =>
        have second := resyncTime_second zone set
        have bound := small t set
        rw [Option.getD_some]
        omega
  refine { once := ?_, minutes := fun t => ?_, wallClock := ?_, synced := synced, sameMinute := ?_ }
  · rw [checks]
    exact inv.once
  · rw [checks, inv.minutes]
    omega
  · rw [checks]
    exact inv.wallClock
  · omega

theorem clockInvariant_run (events : List ClockEvent) (inv : ClockInvariant lib sync c)
    (small : SmallCorrections lib c events) : ClockInvariant lib sync (runClock lib events c) := by
  induction events generalizing c with
  | nil => exact inv
  | cons e rest ih =>
      refine ih ?_ small.2
      cases e with
      | tick => exact clockInvariant_tick zone inv
      | set timeStr stack => exact clockInvariant_set zone inv timeStr stack small.1

end

theorem csroDatetimeSet_checks (timeStr : List Byte) (stack : Fin 6 → BitVec 32) (c : Clock) :
    (csroDatetimeSet lib timeStr stack c).checks = c.checks := by
  unfold csroDatetimeSet
  dsimp only
  split
  · rfl
  · split <;> rfl

/-- From the first synchronisation on, whatever ticks and small corrections follow. -/
theorem every_minute_checked_once (zone : WholeMinuteZone lib) (boot : Clock)
    (unchecked : boot.checks = []) (timeStr : List Byte) (stack : Fin 6 → BitVec 32)
    (events : List ClockEvent) :
    let start := csroDatetimeSet lib timeStr stack boot
    start.timeSync = true → SmallCorrections lib start events →
      MinutesChecked lib start.timeNow (runClock lib events start) := by
  intro start synced small
  have checks : start.checks = [] := (csroDatetimeSet_checks timeStr stack boot).trans unchecked
  suffices inv : ClockInvariant lib start.timeNow start from
    (clockInvariant_run zone events inv small).toMinutesChecked
  exact
    { once := by simp [checks]
      minutes := fun t => by
        simp only [checks, List.map_nil, List.not_mem_nil, false_iff]
        omega
      wallClock := by simp [checks]
      synced := synced
      sameMinute := le_rfl }

def daysFromCivil (year month day : Int) : Int :=
  let y := if month ≤ 2 then year - 1 else year
  let m := if month ≤ 2 then month + 9 else month - 3
  365 * y + y / 4 - y / 100 + y / 400 + (153 * m + 2) / 5 + day - 1 - 719468

def utc : TimeLib where
  mktime tm :=
    ((((daysFromCivil (tm.year + 1900) (tm.mon + 1) tm.mday * 24 + tm.hour) * 60 + tm.min) * 60 + tm.sec), tm)
  localtimeR t :=
    let days := t / 86400 + 719468
    let dayOfEra := days % 146097
    let yearOfEra := (dayOfEra - dayOfEra / 1460 + dayOfEra / 36524 - dayOfEra / 146096) / 365
    let dayOfYear := dayOfEra - (365 * yearOfEra + yearOfEra / 4 - yearOfEra / 100)
    let m := (5 * dayOfYear + 2) / 153
    let month := if m < 10 then m + 3 else m - 9
    let year := days / 146097 * 400 + yearOfEra + if month ≤ 2 then 1 else 0
    { year := year - 1900, mon := month - 1, mday := dayOfYear - (153 * m + 2) / 5 + 1,
      hour := t % 86400 / 3600, min := t % 3600 / 60, sec := t % 60, wday := (t / 86400 + 4) % 7,
      yday := t / 86400 - daysFromCivil year 1 1, isdst := 0 }

theorem utc_wholeMinuteZone : WholeMinuteZone utc where
  offset _ := rfl
  inverse tm low high := by
    change (_ * 60 + tm.sec) % 60 = tm.sec
    omega

/-- Synchronised two seconds before 12:01 and corrected once in the minute that follows:
the minute that began in between is checked, and no other. -/
theorem minute_checked_at_noon :
    let boot : Clock := ⟨false, 0, 0, 7, utc.localtimeR 0, fun _ => ⟨false, 0, 0, 0⟩, []⟩
    let start := csroDatetimeSet utc (ascii "2019-03-30 12:00:58") (fun _ => 0) boot
    let events := [.tick, .tick, .tick, .set (ascii "2019-03-30 12:01:30") (fun _ => 0), .tick]
    (runClock utc events start).checks.map Check.time = [1553947260] ∧
      MinutesChecked utc start.timeNow (runClock utc events start) := by
  intro boot start events
  refine ⟨by decide, every_minute_checked_once utc_wholeMinuteZone boot rfl _ _ events
    (by decide) ⟨trivial, trivial, trivial, fun t set => ?_, trivial, trivial⟩⟩
  have time : resyncTime utc (ascii "2019-03-30 12:01:30") (fun _ => 0)
      (runClock utc [.tick, .tick, .tick] start) = some 1553947290 := by decide
  have now : (runClock utc [.tick, .tick, .tick] start).timeNow = 1553947261 := by decide
  obtain rfl : t = 1553947290 := Option.some.inj (set.symm.trans time)
  change 1553947290 - (runClock utc [.tick, .tick, .tick] start).timeNow ≤ 30 ∧
    (runClock utc [.tick, .tick, .tick] start).timeNow - 1553947290 < 30
  rw [now]
  decide

end EspFirmware.Proof.App

namespace EspFirmware.Proof.App
open EspFirmware.App EspFirmware.Spec

theorem sscanf_eq (format : List Directive) (text : List Byte) :
    sscanf format text = (scanNumbers format text).map saturate := by
  induction format generalizing text with
  | nil => rfl
  | cons directive rest ih =>
      cases directive with
      | decimal =>
          rw [sscanf, scanNumbers]
          cases scanDecimal text with
          | none => rfl
          | some found => exact congrArg (saturate found.1 :: ·) (ih found.2)
      | white => exact ih _
      | literal c =>
          cases text with
          | nil => rfl
          | cons d text =>
              rw [sscanf, scanNumbers]
              split
              · exact ih text
              · rfl

theorem saturate_small {n : Int} {bound : Nat} (small : (saturate n).toNat ≤ bound) (fits : bound < 2147483647) :
    0 ≤ n ∧ n ≤ bound := by
  have max : INT_MAX = 2147483647 := rfl
  have min : INT_MIN = -2147483648 := rfl
  unfold saturate at small
  split at small
  · exact absurd small (by rw [max]; exact Nat.not_le.mpr fits)
  · split at small
    · rw [min] at small
      have big : (BitVec.ofInt 32 (-2147483648)).toNat = 2147483648 := rfl
      omega
    · rw [BitVec.toNat_ofInt] at small
      omega

theorem saturate_large {n : Int} {bound : Nat} (large : bound ≤ (saturate n).toNat) (positive : 0 ≤ n)
    (fits : bound < 2147483647) : (bound : Int) ≤ n := by
  have max : INT_MAX = 2147483647 := rfl
  have min : INT_MIN = -2147483648 := rfl
  unfold saturate at large
  split at large
  · omega
  · split at large
    · omega
    · rw [BitVec.toNat_ofInt] at large
      omega

theorem complete_iff {timeStr : List Byte} {stack : Fin 6 → BitVec 32}
    (inRange : timeOutOfRange (scanTime timeStr stack) = false) :
    IsDateTime (scanNumbers timeFormat timeStr) ↔ Complete (scanNumbers timeFormat timeStr) := by
  unfold timeOutOfRange scanTime at inRange
  rw [sscanf_eq] at inRange
  cases found : scanNumbers timeFormat timeStr with
  | nil => rfl
  | cons year l => cases l with
  | nil => rfl
  | cons month l => cases l with
  | nil => rfl
  | cons day l => cases l with
  | nil => rfl
  | cons hour l => cases l with
  | nil => rfl
  | cons minute l => cases l with
  | nil => rfl
  | cons second l => cases l with
  | cons more l => rfl
  | nil =>
      rw [found] at inRange
      simp only [Bool.or_eq_false_iff, decide_eq_false_iff_not, Nat.not_lt] at inRange
      obtain ⟨⟨⟨⟨⟨years, months⟩, days⟩, hours⟩, minutes⟩, seconds⟩ := inRange
      have monthRange := saturate_small months (by decide)
      have hourRange := saturate_small hours (by decide)
      have minuteRange := saturate_small minutes (by decide)
      have secondRange := saturate_small seconds (by decide)
      constructor
      · rintro ⟨from2018, month12, dayRange, -⟩
        exact ⟨by omega, month12.1, dayRange.1, dayRange.2⟩
      · rintro ⟨positive, first, some_, last⟩
        exact ⟨saturate_large years positive (by decide), ⟨first, monthRange.2⟩, ⟨some_, last⟩, hourRange, minuteRange,
          secondRange⟩

theorem complete_of_isDateTime {numbers : List Int} (is : IsDateTime numbers) : Complete numbers := by
  unfold IsDateTime at is
  split at is
  · exact ⟨by omega, is.2.1.1, is.2.2.1.1, is.2.2.1.2⟩
  · exact is.elim

/-- Nothing but a time is set, whatever the clock is, if and only if the range test and the numbers guard it. -/
theorem time_guarded_iff (lib : TimeLib) (timeStr : List Byte) (stack : Fin 6 → BitVec 32) :
    (∀ c, ¬ IsDateTime (scanNumbers timeFormat timeStr) → csroDatetimeSet lib timeStr stack c = c) ↔
      TimeGuarded timeStr stack := by
  have refuse (c : Clock) (refused : timeOutOfRange (scanTime timeStr stack) = true) :
      csroDatetimeSet lib timeStr stack c = c := if_pos refused
  constructor
  · intro unchanged
    by_cases refused : timeOutOfRange (scanTime timeStr stack) = true
    · exact .inl refused
    · refine .inr (by_contra fun incomplete => ?_)
      have same := unchanged (clockAtBoot fun _ => ⟨false, 0, 0, 0⟩)
        fun is => incomplete (complete_of_isDateTime is)
      -- the first time that is accepted sets `time_sync`
      have set : (csroDatetimeSet lib timeStr stack (clockAtBoot fun _ => ⟨false, 0, 0, 0⟩)).timeSync = true := by
        unfold csroDatetimeSet
        dsimp only
        rw [if_neg refused, if_pos (.inl rfl)]
      rw [same] at set
      cases set
  · intro guarded c isNot
    rcases guarded with refused | complete
    · exact refuse c refused
    · by_cases refused : timeOutOfRange (scanTime timeStr stack) = true
      · exact refuse c refused
      · exact absurd ((complete_iff (Bool.not_eq_true _ ▸ refused)).mpr complete) isNot

theorem thirtyfirst_of_february_set :
    ¬ ∀ c, ¬ IsDateTime (scanNumbers timeFormat (ascii "2019-02-31 12:00:00")) →
      csroDatetimeSet utc (ascii "2019-02-31 12:00:00") (fun _ => 0) c = c := by
  intro unchanged
  have numbers : scanNumbers timeFormat (ascii "2019-02-31 12:00:00") = [2019, 2, 31, 12, 0, 0] := by decide
  have same := unchanged (clockAtBoot fun _ => ⟨false, 0, 0, 0⟩)
    (by rw [numbers]; exact fun is => absurd is.2.2.1.2 (by decide))
  have synced := congrArg Clock.timeSync same
  revert synced
  decide

end EspFirmware.Proof.App
