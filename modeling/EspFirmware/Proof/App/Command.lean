import EspFirmware.Proof.App.AlarmTable
import EspFirmware.Proof.App.Message
import EspFirmware.Spec.Message

namespace EspFirmware.Proof.App
open EspFirmware.App EspFirmware.Spec EspFirmware.Lib

section
variable {msg : Option Json}

def afterSystem (msg : Option Json) (d : App.Device) : App.Device :=
  commandAlarminfo msg (commandSysinfo msg (commandInterval msg d))

theorem afterSystem_interval (d : App.Device) :
    (afterSystem msg d).interval = (commandInterval msg d).interval ∧
      (afterSystem msg d).nvsInterval = (commandInterval msg d).nvsInterval := by
  unfold afterSystem commandAlarminfo commandSysinfo
  split <;> split <;> exact ⟨rfl, rfl⟩

theorem afterSystem_rest (d : App.Device) : (afterSystem msg d).alarm = d.alarm ∧
    (afterSystem msg d).channel = d.channel ∧ (afterSystem msg d).timeNow = d.timeNow := by
  unfold afterSystem commandAlarminfo commandSysinfo commandInterval csroSystemSetInterval
  split <;> split <;> split <;> first | (split <;> exact ⟨rfl, rfl, rfl⟩) | exact ⟨rfl, rfl, rfl⟩

theorem handle_restart (restart : parseLevel1JsonNumber msg "restart" = some 1) (d : App.Device) :
    csroDeviceHandleSelfMessage msg d = (afterSystem msg d).espRestart :=
  if_pos restart

theorem handle_stays (stays : parseLevel1JsonNumber msg "restart" ≠ some 1) (d : App.Device) :
    csroDeviceHandleSelfMessage msg d =
      csroNlightHandleSelfMessage msg (commandAlarms msg (afterSystem msg d)) :=
  if_neg stays

theorem handle_interval (d : App.Device) :
    (csroDeviceHandleSelfMessage msg d).interval = (commandInterval msg d).interval ∧
      (csroDeviceHandleSelfMessage msg d).nvsInterval = (commandInterval msg d).nvsInterval := by
  rw [← (afterSystem_interval d).1, ← (afterSystem_interval d).2]
  by_cases restart : parseLevel1JsonNumber msg "restart" = some 1
  · rw [handle_restart restart]
    exact ⟨rfl, rfl⟩
  · rw [handle_stays restart, csroNlightHandleSelfMessage_keeps (f := App.Device.interval) fun _ _ _ => rfl,
      csroNlightHandleSelfMessage_keeps (f := App.Device.nvsInterval) fun _ _ _ => rfl]
    unfold commandAlarms
    dsimp only
    split <;> exact ⟨rfl, rfl⟩

theorem commandAlarms_alarm (d : App.Device) :
    (commandAlarms msg d).alarm = runCommands (alarmCommands msg) d.alarm := by
  unfold commandAlarms
  dsimp only
  split <;> rfl

theorem handle_alarm (stays : parseLevel1JsonNumber msg "restart" ≠ some 1) (d : App.Device) :
    (csroDeviceHandleSelfMessage msg d).alarm = runCommands (alarmCommands msg) d.alarm := by
  rw [handle_stays stays, csroNlightHandleSelfMessage_keeps (f := App.Device.alarm) fun _ _ _ => rfl,
    commandAlarms_alarm, (afterSystem_rest d).1]

def channelAfter (msg : Option Json) (i : Fin NLIGHT) (ch : Switch) (now : BitVec 32) : Switch :=
  match parseLevel1JsonNumber msg (channelName i) with
  | some value => (switchSet ch (value.setWidth 8) 1 now).getD ch
  | none => ch

theorem commandChannel_channel (i j : Fin NLIGHT) (d : App.Device) :
    (commandChannel msg i d).channel j =
      if j = i then channelAfter msg i (d.channel i) d.timeNow else d.channel j := by
  unfold commandChannel channelAfter nlightChannelSet
  cases parseLevel1JsonNumber msg (channelName i) with
  | none => by_cases same : j = i <;> simp [same]
  | some value =>
      dsimp only
      cases switchSet (d.channel i) (value.setWidth 8) 1 d.timeNow with
      | none => by_cases same : j = i <;> simp [same]
      | some ch => by_cases same : j = i <;> simp [same, App.Device.triggerStatus]

theorem handle_channel (stays : parseLevel1JsonNumber msg "restart" ≠ some 1) (i : Fin NLIGHT)
    (d : App.Device) :
    (csroDeviceHandleSelfMessage msg d).channel i = channelAfter msg i (d.channel i) d.timeNow := by
  have alarms : (commandAlarms msg (afterSystem msg d)).channel = d.channel ∧
      (commandAlarms msg (afterSystem msg d)).timeNow = d.timeNow := by
    obtain ⟨-, channel, time⟩ : _ ∧ (afterSystem msg d).channel = _ ∧ (afterSystem msg d).timeNow = _ :=
      afterSystem_rest d
    rw [← channel, ← time]
    unfold commandAlarms
    dsimp only
    split <;> exact ⟨rfl, rfl⟩
  have time (j : Fin NLIGHT) (e : App.Device) : (commandChannel msg j e).timeNow = e.timeNow :=
    commandChannel_keeps (f := App.Device.timeNow) (fun _ _ _ => rfl) j e
  have folded (e : App.Device) : (csroNlightHandleSelfMessage msg e).channel i =
      ([0, 1, 2].foldl (fun e i => commandChannel msg i e) e).channel i := by
    unfold csroNlightHandleSelfMessage
    dsimp only
    split <;> rfl
  rw [handle_stays stays, folded, ← alarms.1, ← alarms.2]
  generalize commandAlarms msg (afterSystem msg d) = e
  simp only [List.foldl_cons, List.foldl_nil, commandChannel_channel, time]
  have which : ∀ i : Fin NLIGHT, i = 0 ∨ i = 1 ∨ i = 2 := by decide
  rcases which i with rfl | rfl | rfl <;> rfl

theorem intervalChecked_iff : IntervalChecked msg ↔
    ∀ n, parseLevel1JsonNumber msg "interval" = some n →
      (2 ≤ n.toNat ∧ n.toNat ≤ 120) ∨ ¬ (2 ≤ n.toNat % 2 ^ 16 ∧ n.toNat % 2 ^ 16 ≤ 120) := by
  refine forall₂_congr fun n found => ?_
  have narrowed : (n.setWidth 16).toNat = n.toNat % 2 ^ 16 := BitVec.toNat_setWidth ..
  simp only [handle_interval, commandInterval, found, csroSystemSetInterval, narrowed]
  by_cases inside : 2 ≤ n.toNat % 2 ^ 16 ∧ n.toNat % 2 ^ 16 ≤ 120
  · rw [or_iff_left (not_not.mpr inside)]
    simp only [if_pos inside]
    refine ⟨fun checked => ?_, fun good bad => absurd good bad⟩
    by_contra outside
    have same : n.setWidth 16 = 0#16 := (checked outside idleDevice).1
    rw [same, BitVec.toNat_ofNat, Nat.zero_mod] at narrowed
    omega
  · simp only [if_neg inside]
    exact ⟨fun _ => .inr inside, fun _ _ _ => ⟨trivial, trivial⟩⟩

theorem switchSet_none_of_gt {value : BitVec 8} (big : 2 < value.toNat) (ch : Switch)
    (source : BitVec 8) (now : BitVec 32) : switchSet ch value source now = none :=
  if_pos (.inr big)

theorem switchSet_idle_ne : ∀ (i : Fin NLIGHT) (value : BitVec 8), value.toNat ≤ 2 →
    (switchSet (idleDevice.channel i) value 1 0).getD (idleDevice.channel i) ≠ idleDevice.channel i := by
  decide

theorem channelChecked_iff (i : Fin NLIGHT) : ChannelChecked msg i ↔
    (parseLevel1JsonNumber msg "restart" ≠ some 1 →
      ∀ n, parseLevel1JsonNumber msg (channelName i) = some n → n.toNat ≤ 2 ∨ 2 < n.toNat % 2 ^ 8) := by
  by_cases restart : parseLevel1JsonNumber msg "restart" = some 1
  · refine ⟨fun _ stays => absurd restart stays, fun _ n _ _ d => ?_⟩
    rw [handle_restart restart]
    exact congrFun (afterSystem_rest d).2.1 i
  rw [forall_prop_of_true restart]
  refine forall₂_congr fun n found => ?_
  have narrowed : (n.setWidth 8).toNat = n.toNat % 2 ^ 8 := BitVec.toNat_setWidth ..
  simp only [handle_channel restart, channelAfter, found]
  constructor
  · intro checked
    by_contra outside
    rw [not_or, not_lt, ← narrowed] at outside
    exact switchSet_idle_ne i (n.setWidth 8) outside.2 (checked outside.1 idleDevice)
  · rintro (inside | big) outside d
    · exact absurd inside outside
    · rw [switchSet_none_of_gt (narrowed ▸ big)]
      rfl

theorem alarmCommands_of_onlyDeletes {n : BitVec 32} (only : OnlyDeletes msg n) :
    alarmCommands msg = [.delete ((n - 1).setWidth 8)] := by
  have command : alarmDeleteCommand msg = some (.delete ((n - 1).setWidth 8)) := by
    simp [alarmDeleteCommand, only.object, only.index]
  simp [alarmCommands, only.noAdd, only.noModify, only.noClear, command]

theorem alarmCommands_of_onlyModifies {n : BitVec 32} {e : AlarmEntry} (only : OnlyModifies msg n e) :
    alarmCommands msg = [.modify (n.setWidth 8) e.weekday e.minutes e.action] := by
  obtain ⟨weekday, foundWeekday, weekdayEq⟩ := Option.map_eq_some_iff.mp only.weekday
  obtain ⟨minutes, foundMinutes, minutesEq⟩ := Option.map_eq_some_iff.mp only.minutes
  obtain ⟨action, foundAction, actionEq⟩ := Option.map_eq_some_iff.mp only.action
  have command : alarmModifyCommand msg =
      some (.modify (n.setWidth 8) e.weekday e.minutes e.action) := by
    simp [alarmModifyCommand, only.object, only.index, foundWeekday, foundMinutes, foundAction,
      weekdayEq, minutesEq, actionEq]
  simp [alarmCommands, only.noAdd, only.noDelete, only.noClear, command]

theorem handle_onlyDeletes {n : BitVec 32} (only : OnlyDeletes msg n) (d : App.Device) :
    (csroDeviceHandleSelfMessage msg d).alarm = csroAlarmDelete ((n - 1).setWidth 8) d.alarm := by
  rw [handle_alarm only.stays, alarmCommands_of_onlyDeletes only]
  rfl

theorem handle_onlyModifies {n : BitVec 32} {e : AlarmEntry} (only : OnlyModifies msg n e) (d : App.Device) :
    (csroDeviceHandleSelfMessage msg d).alarm =
      csroAlarmModify (n.setWidth 8) e.weekday e.minutes e.action d.alarm := by
  rw [handle_alarm only.stays, alarmCommands_of_onlyModifies only]
  rfl

theorem Filled.invalid {count : Nat} {alarms : Alarms} (filled : Filled count alarms)
    {i : Fin ALARM_NUMBER} (above : count ≤ i.val) : (alarms i).valid = false := by
  rw [filled.2, decide_eq_false (not_lt.mpr above)]

theorem delete_above {count : Nat} {s : AlarmState} (filled : Filled count s.alarms) {index : BitVec 8}
    (above : count ≤ index.toNat) : csroAlarmDelete index s = s := by
  unfold csroAlarmDelete
  split
  · rename_i below
    rw [filled.invalid (i := ⟨index.toNat, below⟩) above]
    rfl
  · rfl

theorem modify_above {count : Nat} {s : AlarmState} (filled : Filled count s.alarms) {index : BitVec 8}
    (above : count ≤ index.toNat) (weekday : BitVec 8) (minutes action : BitVec 16) :
    csroAlarmModify index weekday minutes action s = s := by
  unfold csroAlarmModify
  split
  · rename_i below
    rw [filled.invalid (i := ⟨index.toNat, below⟩) above]
    rfl
  · rfl

def sampleDevice (count : Nat) (action : BitVec 16) : App.Device :=
  { idleDevice with
    alarm := ⟨fun i => ⟨decide (i.val < count), 127, BitVec.ofNat 16 i.val, action + 1⟩, fun _ => none⟩ }

theorem sampleDevice_filled {count : Nat} (small : count ≤ ALARM_NUMBER) (action : BitVec 16) :
    Filled count (sampleDevice count action).alarm.alarms := ⟨small, fun _ => rfl⟩

theorem delete_index_checked_iff {n : BitVec 32} (only : OnlyDeletes msg n) (first : Nat) {count : Nat}
    (small : count ≤ ALARM_NUMBER) : IndexChecked msg first count n ↔
      Denotes first count n ∨ count ≤ (n - 1).toNat % 2 ^ 8 := by
  have narrowed : ((n - 1).setWidth 8).toNat = (n - 1).toNat % 2 ^ 8 := BitVec.toNat_setWidth ..
  rw [← narrowed]
  constructor
  · intro checked
    by_contra outside
    rw [not_or, not_le] at outside
    have filled := sampleDevice_filled small 0
    have same := checked outside.1 (sampleDevice count 0) filled.2
    rw [handle_onlyDeletes only] at same
    have edited := (delete_refines (s := (sampleDevice count 0).alarm) filled ((n - 1).setWidth 8)).2
    rw [same, editList, if_pos (by rw [filled.length]; exact outside.2)] at edited
    have lengths := congrArg List.length edited
    rw [List.length_eraseIdx_of_lt (by rw [filled.length]; exact outside.2), filled.length] at lengths
    omega
  · rintro (denotes | above) outside d filled
    · exact absurd denotes outside
    · rw [handle_onlyDeletes only, delete_above ⟨small, filled⟩ above]

theorem modify_index_checked_iff {n : BitVec 32} {e : AlarmEntry} (only : OnlyModifies msg n e)
    (first : Nat) {count : Nat} (small : count ≤ ALARM_NUMBER) : IndexChecked msg first count n ↔
      Denotes first count n ∨ count ≤ n.toNat % 2 ^ 8 := by
  have narrowed : (n.setWidth 8).toNat = n.toNat % 2 ^ 8 := BitVec.toNat_setWidth ..
  rw [← narrowed]
  constructor
  · intro checked
    by_contra outside
    rw [not_or, not_le] at outside
    have filled := sampleDevice_filled small e.action
    have same := checked outside.1 (sampleDevice count e.action) filled.2
    rw [handle_onlyModifies only] at same
    have edited := (modify_refines (s := (sampleDevice count e.action).alarm) filled (n.setWidth 8)
      e.weekday e.minutes e.action).2
    have inside : (n.setWidth 8).toNat <
        (alarmList (sampleDevice count e.action).alarm.alarms).length := by
      rw [filled.length]; exact outside.2
    rw [same, editList, if_pos inside] at edited
    have entry := congrArg (·[(n.setWidth 8).toNat]?) edited
    simp only [List.getElem?_set_self inside, List.getElem?_eq_getElem inside, Option.some.injEq,
      filled.getElem _ inside] at entry
    have actions : e.action + 1 = e.action := congrArg AlarmEntry.action entry
    simp at actions
  · rintro (denotes | above) outside d filled
    · exact absurd denotes outside
    · rw [handle_onlyModifies only, modify_above ⟨small, filled⟩ above]

/-- Every number of a message is checked on the value that was sent exactly when cutting it off
does not bring it into range. -/
theorem fields_checked_iff (msg : Option Json) (first : Nat) (count : Fin (ALARM_NUMBER + 1)) :
    FieldsChecked msg first count ↔ SurvivesNarrowing msg first count := by
  have small : count.val ≤ ALARM_NUMBER := Nat.le_of_lt_succ count.isLt
  constructor
  · intro checked
    exact
      { interval := intervalChecked_iff.mp checked.interval
        channel := fun stays i => (channelChecked_iff i).mp (checked.channel i) stays
        delete := fun n only => (delete_index_checked_iff only first small).mp (checked.delete n only)
        modify := fun n e only =>
          (modify_index_checked_iff only first small).mp (checked.modify n e only) }
  · intro survives
    exact
      { interval := intervalChecked_iff.mpr survives.interval
        channel := fun i => (channelChecked_iff i).mpr fun stays => survives.channel stays i
        delete := fun n only =>
          (delete_index_checked_iff only first small).mpr (survives.delete n only)
        modify := fun n e only =>
          (modify_index_checked_iff only first small).mpr (survives.modify n e only) }

/-- An interval of 65541 seconds sets one of 5 seconds, and 257 switches a channel on. -/
theorem narrowed_into_range :
    let msg := cJSONParse decimal (ascii "\x7b\"interval\":65541,\"channel1\":257\x7d")
    (parseLevel1JsonNumber msg "interval" = some 65541 ∧
      parseLevel1JsonNumber msg "channel1" = some 257 ∧
      (csroDeviceHandleSelfMessage msg idleDevice).interval = 5 ∧
      ((csroDeviceHandleSelfMessage msg idleDevice).channel 0).state = 1) ∧
      ¬ FieldsChecked msg 1 0 := by
  intro msg
  have facts : parseLevel1JsonNumber msg "interval" = some 65541 ∧
      parseLevel1JsonNumber msg "channel1" = some 257 ∧
      (csroDeviceHandleSelfMessage msg idleDevice).interval = 5 ∧
      ((csroDeviceHandleSelfMessage msg idleDevice).channel 0).state = 1 := by decide +kernel
  refine ⟨facts, fun checked => ?_⟩
  have same := (checked.interval 65541 facts.1 (by decide) idleDevice).1
  rw [facts.2.2.1] at same
  exact absurd same (by decide)

theorem timerMembers_filled {count : Nat} {alarms : Alarms} (filled : Filled count alarms) (k left : Nat)
    (total : k + left = count) :
    timerMembers alarms ((List.finRange ALARM_NUMBER).drop k) k =
      ((alarmList alarms).drop k).mapIdx
          (fun i e => (ascii (alarmKey (k + i + 1)), entryJson e)) ++
        if count < ALARM_NUMBER then [(ascii "count", .number (BitVec.ofNat 32 count))] else [] := by
  have length : (List.finRange ALARM_NUMBER).length = ALARM_NUMBER := List.length_finRange
  induction left generalizing k with
  | zero =>
      obtain rfl : k = count := total
      have empty : (alarmList alarms).drop k = [] := List.drop_of_length_le filled.length.le
      rw [empty]
      by_cases room : k < ALARM_NUMBER
      · rw [List.drop_eq_getElem_cons (by rw [length]; exact room), if_pos room]
        simp [timerMembers, filled.2]
      · rw [List.drop_of_length_le (by rw [length]; omega), if_neg room]
        rfl
  | succ left ih =>
      have below : k < count := by omega
      have inside : k < (alarmList alarms).length := by rw [filled.length]; exact below
      rw [List.drop_eq_getElem_cons (by rw [length]; exact below.trans_le filled.1),
        List.drop_eq_getElem_cons inside, List.mapIdx_cons, filled.getElem k inside]
      simp only [timerMembers, List.getElem_finRange, Fin.cast_mk, filled.2, below, decide_true, if_true,
        ih (k + 1) (by omega), List.cons_append, Nat.add_zero]
      simp only [entryJson, entryOf, Nat.add_assoc, Nat.add_comm 1]

theorem publishesList_iff {count : Nat} {alarms : Alarms} (filled : Filled count alarms) :
    PublishesList alarms ↔ count < ALARM_NUMBER := by
  have members := timerMembers_filled filled 0 count (Nat.zero_add _)
  simp only [List.drop_zero, Nat.zero_add] at members
  unfold PublishesList publishedMembers
  simp only [csroDevicePrepareTimerMessage, Json.object.injEq, exists_eq_left', members, filled.length]
  by_cases room : count < ALARM_NUMBER
  · simp [room]
  · simp only [room, if_false, List.append_nil, iff_false]
    intro same
    have lengths := same.length_eq
    simp at lengths

theorem deletesByNumber {count : Nat} {d : App.Device} (filled : Filled count d.alarm.alarms) :
    DeletesByNumber d := by
  intro msg n only low high
  have small : count ≤ 20 := filled.1
  rw [filled.length] at high
  have before : ((n - 1).setWidth 8).toNat = n.toNat - 1 := by
    rw [BitVec.toNat_setWidth, BitVec.toNat_sub, show (1 : BitVec 32).toNat = 1 from rfl]
    omega
  rw [handle_onlyDeletes only, (delete_refines filled _).2, editList, before,
    if_pos (by rw [filled.length]; omega)]

def modifyMessage (n : BitVec 32) (e : AlarmEntry) : Json :=
  .object [(ascii "alarm_modify", .object [(ascii "index", .number n),
    (ascii "weekday", .number (e.weekday.setWidth 32)),
    (ascii "minutes", .number (e.minutes.setWidth 32)),
    (ascii "action", .number (e.action.setWidth 32))])]

theorem modifyMessage_onlyModifies (n : BitVec 32) (e : AlarmEntry) :
    OnlyModifies (some (modifyMessage n e)) n e where
  stays := nofun
  noAdd := rfl
  noDelete := rfl
  noClear := rfl
  object := rfl
  index := rfl
  weekday := by
    change some ((e.weekday.setWidth 32).setWidth 8) = some e.weekday
    simp
  minutes := by
    change some ((e.minutes.setWidth 32).setWidth 16) = some e.minutes
    simp
  action := by
    change some ((e.action.setWidth 32).setWidth 16) = some e.action
    simp

theorem modifiesByNumber_iff {count : Nat} {d : App.Device} (filled : Filled count d.alarm.alarms) :
    ModifiesByNumber d ↔ count = 0 := by
  constructor
  · intro byNumber
    by_contra some_alarm
    have small : count ≤ 20 := filled.1
    have number : (BitVec.ofNat 32 count).toNat = count := by
      rw [BitVec.toNat_ofNat]
      omega
    have slot : ((BitVec.ofNat 32 count).setWidth 8).toNat = count := by
      rw [BitVec.toNat_setWidth, number]
      omega
    have inside : count - 1 < (alarmList d.alarm.alarms).length := by
      rw [filled.length]
      omega
    -- the last alarm by its own number: the slot of that number is free, so nothing happens
    let last := (alarmList d.alarm.alarms)[count - 1]
    let changed : AlarmEntry := { last with action := last.action + 1 }
    have only := modifyMessage_onlyModifies (BitVec.ofNat 32 count) changed
    have modified := byNumber _ _ changed only (by omega) (by rw [filled.length]; omega)
    rw [handle_onlyModifies only, modify_above filled slot.ge, number] at modified
    have entry := congrArg (·[count - 1]?) modified
    simp only [List.getElem?_set_self inside, List.getElem?_eq_getElem inside, Option.some.injEq] at entry
    have actions : last.action = last.action + 1 := congrArg AlarmEntry.action entry
    simp at actions
  · rintro rfl msg n e only low high
    rw [filled.length] at high
    omega

end

/-- Which parts of the numbering agree, for every table the device can reach: the timer message is
complete unless the table is full, delete goes by the published numbers, and modify only does so
where there is nothing to modify. -/
theorem numbering_consistent_iff (ram : Alarms) (nvs : Namespace) (commands : List AlarmCommand)
    (rest : App.Device) :
    let d := { rest with alarm := runCommands commands (loadAlarmFromNvs ⟨ram, nvs⟩) }
    let count := (alarmList d.alarm.alarms).length
    ((PublishesList d.alarm.alarms ∧ DeletesByNumber d ∧ ModifiesByNumber d) ↔ count = 0) ∧
      (PublishesList d.alarm.alarms ↔ count < ALARM_NUMBER) ∧ DeletesByNumber d ∧
      (ModifiesByNumber d ↔ count = 0) := by
  intro d count
  obtain ⟨⟨n, filled⟩, -⟩ := runCommands_filled ⟨_, load_filled ⟨ram, nvs⟩⟩ commands
  have level : Filled n d.alarm.alarms := filled
  have same : count = n := level.length
  have publishes := publishesList_iff level
  have modifies := modifiesByNumber_iff level
  rw [← same] at publishes modifies
  refine ⟨⟨fun all => modifies.mp all.2.2, fun empty => ?_⟩, publishes, deletesByNumber level, modifies⟩
  exact ⟨publishes.mpr (by rw [empty]; decide), deletesByNumber level, modifies.mpr empty⟩

/-- With two alarms, the command to modify alarm 1 changes alarm 2. -/
theorem modify_hits_the_next :
    let adds := [AlarmCommand.add 62 420 1, .add 65 540 2]
    let d := { idleDevice with alarm := runCommands adds (loadAlarmFromNvs idleDevice.alarm) }
    let msg := some (modifyMessage 1 ⟨127, 60, 3⟩)
    OnlyModifies msg 1 ⟨127, 60, 3⟩ ∧ alarmList d.alarm.alarms = [⟨62, 420, 1⟩, ⟨65, 540, 2⟩] ∧
      alarmList (csroDeviceHandleSelfMessage msg d).alarm.alarms = [⟨62, 420, 1⟩, ⟨127, 60, 3⟩] ∧
      ¬ ModifiesByNumber d := by
  intro adds d msg
  have only : OnlyModifies msg 1 ⟨127, 60, 3⟩ := modifyMessage_onlyModifies 1 _
  have before : alarmList d.alarm.alarms = [⟨62, 420, 1⟩, ⟨65, 540, 2⟩] := by decide
  have after : alarmList (csroDeviceHandleSelfMessage msg d).alarm.alarms =
      [⟨62, 420, 1⟩, ⟨127, 60, 3⟩] := by decide
  refine ⟨only, before, after, fun byNumber => ?_⟩
  have expected := byNumber msg 1 _ only (by decide) (by rw [before]; decide)
  rw [after, before] at expected
  exact absurd expected (by decide)

end EspFirmware.Proof.App
