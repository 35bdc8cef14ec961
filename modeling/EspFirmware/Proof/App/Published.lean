import Mathlib.Algebra.Order.BigOperators.Group.List
import Mathlib.Algebra.Order.Ring.Nat
import EspFirmware.Proof.App.Clock
import EspFirmware.Proof.App.Command

/-!
How long the texts are that are printed.
-/

namespace EspFirmware.Proof.App
open EspFirmware.App EspFirmware.Lib EspFirmware.Spec

theorem ascii_append (s t : String) : ascii (s ++ t) = ascii s ++ ascii t := by
  unfold ascii
  rw [String.toList_append, List.map_append]

theorem ascii_toString (n : Nat) :
    ascii (toString n) = (Nat.toDigits 10 n).map fun c => BitVec.ofNat 8 c.toNat := by
  unfold ascii
  rw [show toString n = n.repr from rfl, Nat.toList_repr]

theorem isDigit_toString {n : Nat} {c : Byte} (mem : c ∈ ascii (toString n)) : isDigit c = true := by
  rw [ascii_toString] at mem
  obtain ⟨digit, member, rfl⟩ := List.mem_map.mp mem
  have range := Nat.isDigit_of_mem_toDigits (by decide) (by decide) member
  rw [Char.isDigit_iff_toNat, show '0'.toNat = 48 from rfl, show '9'.toNat = 57 from rfl] at range
  rw [isDigit, BitVec.toNat_ofNat, Bool.and_eq_true, decide_eq_true_eq, decide_eq_true_eq]
  omega

theorem length_ascii_toString (n : Nat) : (ascii (toString n)).length = digitCount n := by
  rw [ascii_toString, List.length_map]
  rfl

theorem length_decimalText_nat (n : Nat) : (decimalText n).length = digitCount n := by
  unfold decimalText
  rw [if_neg (by omega), Int.natAbs_natCast, length_ascii_toString]

theorem digitCount_le {n k : Nat} (positive : 0 < k) (small : n < 10 ^ k) : digitCount n ≤ k :=
  (Nat.length_toDigits_le_iff (by decide) positive).mpr small

theorem length_decimalText_le {n : Int} {k : Nat} (positive : 0 < k) (small : n.natAbs < 10 ^ k) :
    (decimalText n).length ≤ k + 1 := by
  have digits := digitCount_le positive small
  unfold decimalText
  split
  · rw [List.length_cons, length_ascii_toString]
    omega
  · rw [length_ascii_toString]
    omega

def Plain (s : List Byte) : Prop := ∀ c ∈ s, 31 < c.toNat ∧ c ≠ 34 ∧ c ≠ 92

instance decidablePlain (s : List Byte) : Decidable (Plain s) := List.decidableBAll _ s

theorem plain_append {s t : List Byte} (first : Plain s) (second : Plain t) : Plain (s ++ t) :=
  List.forall_mem_append.mpr ⟨first, second⟩

theorem plain_toString (n : Nat) : Plain (ascii (toString n)) := by
  intro c mem
  have digit := isDigit_toString mem
  rw [isDigit, Bool.and_eq_true, decide_eq_true_eq, decide_eq_true_eq] at digit
  refine ⟨by omega, ?_, ?_⟩
  · rintro rfl
    exact absurd digit.1 (by decide)
  · rintro rfl
    exact absurd digit.2 (by decide)

theorem flatMap_escapeChar_plain {s : List Byte} (plain : Plain s) : s.flatMap escapeChar = s := by
  induction s with
  | nil => rfl
  | cons c s ih =>
      rw [List.flatMap_cons, escapeChar, if_pos (plain c List.mem_cons_self),
        ih fun d mem => plain d (List.mem_cons_of_mem c mem)]
      rfl

theorem printString_plain {s : List Byte} (plain : Plain s) : printString s = [34] ++ s ++ [34] := by
  have noNul : 0 ∉ s := fun mem => absurd (plain 0 mem).1 (by decide)
  rw [printString, cString_of_not_mem noNul, flatMap_escapeChar_plain plain]

theorem length_printString {s : List Byte} (plain : Plain s) : (printString s).length = s.length + 2 := by
  rw [printString_plain plain]
  simp

theorem length_escapeChar_le (c : Byte) : (escapeChar c).length ≤ 6 := by
  revert c
  decide

theorem length_printString_le (s : List Byte) : (printString s).length ≤ 6 * s.length + 2 := by
  have escaped (l : List Byte) : (l.flatMap escapeChar).length ≤ 6 * l.length := by
    induction l with
    | nil => exact Nat.le_refl 0
    | cons c l ih =>
        have head := length_escapeChar_le c
        rw [List.flatMap_cons, List.length_append, List.length_cons]
        omega
  have cut : (cString s).length ≤ s.length := (List.takeWhile_sublist _).length_le
  have bound := escaped (cString s)
  rw [printString, List.length_append, List.length_append]
  simp only [List.length_cons, List.length_nil]
  omega

def memberLength (m : List Byte × Item) : Nat := (printString m.1).length + 1 + (printValue m.2).length

theorem length_printMembers (first : List Byte × Item) (rest : List (List Byte × Item)) :
    (printMembers (first :: rest)).length + 1 = ((first :: rest).map fun m => memberLength m + 1).sum := by
  induction rest generalizing first with
  | nil =>
      obtain ⟨name, value⟩ := first
      simp only [printMembers, memberLength, List.length_append, List.length_cons, List.length_nil, List.map_cons,
        List.map_nil, List.sum_cons, List.sum_nil]
      omega
  | cons second rest ih =>
      obtain ⟨name, value⟩ := first
      have tail := ih second
      rw [List.map_cons, List.sum_cons, ← tail, printMembers]
      · simp only [List.length_append, List.length_cons, List.length_nil, memberLength]
        omega
      · intro empty
        cases empty

theorem length_printObject (first : List Byte × Item) (rest : List (List Byte × Item)) :
    (printValue (.object (first :: rest))).length = ((first :: rest).map fun m => memberLength m + 1).sum + 1 := by
  have members := length_printMembers first rest
  rw [printValue, List.length_append, List.length_append, ← members]
  simp only [List.length_cons, List.length_nil]
  omega

theorem itemMembers_eq_map (members : List (List Byte × Json)) :
    itemMembers members = members.map fun m => (m.1, m.2.item) := by
  induction members with
  | nil => rfl
  | cons m rest ih =>
      obtain ⟨name, value⟩ := m
      rw [itemMembers, ih, List.map_cons]

end EspFirmware.Proof.App

/-!
Which messages fit the buffer they are published from: the text of the timer message is as long as
the numbers of the alarms make it, and that of the others is always short enough.
-/

namespace EspFirmware.Proof.App
open EspFirmware.App EspFirmware.Lib EspFirmware.Spec

theorem copyContent_isSome_iff {item : Item} : (copyContent item).isSome = true ↔ (printValue item).length < 1000 :=
  strcpy_isSome_iff

theorem toInt_setWidth_32 {w : Nat} (narrow : w < 32) (v : BitVec w) : (v.setWidth 32).toInt = (v.toNat : Int) := by
  have small : v.toNat < 2 ^ 31 := v.isLt.trans_le (Nat.pow_le_pow_right (by decide) (by omega))
  have same : (v.setWidth 32).toNat = v.toNat := by
    rw [BitVec.toNat_setWidth]
    exact Nat.mod_eq_of_lt (by omega)
  rw [BitVec.toInt_eq_toNat_of_lt (by omega), same]

theorem length_entryJson (e : AlarmEntry) : (printValue (entryJson e).item).length = e.digitCount + 33 := by
  have weekday := toInt_setWidth_32 (show 8 < 32 by decide) e.weekday
  have minutes := toInt_setWidth_32 (show 16 < 32 by decide) e.minutes
  have action := toInt_setWidth_32 (show 16 < 32 by decide) e.action
  have names : (printString (ascii "weekday")).length = 9 ∧ (printString (ascii "minutes")).length = 9 ∧
      (printString (ascii "action")).length = 8 := by decide
  simp only [entryJson, Json.item, itemMembers, weekday, minutes, action]
  rw [length_printObject]
  simp only [List.map_cons, List.map_nil, List.sum_cons, List.sum_nil, memberLength, printValue,
    length_decimalText_nat, names, AlarmEntry.digitCount]
  omega

theorem length_alarmMember (i : Nat) (e : AlarmEntry) :
    memberLength (ascii (alarmKey (i + 1)), (entryJson e).item) + 1 = 42 + digitCount (i + 1) + e.digitCount := by
  have plain : Plain (ascii (alarmKey (i + 1))) := by
    rw [alarmKey, ascii_append]
    exact plain_append (by decide) (plain_toString (i + 1))
  have key : (ascii (alarmKey (i + 1))).length = 5 + digitCount (i + 1) := by
    rw [alarmKey, ascii_append, List.length_append, length_ascii_toString]
    rfl
  simp only [memberLength, length_printString plain, key, length_entryJson]
  omega

theorem length_countMember {n : Nat} (small : n < 2 ^ 31) :
    memberLength (ascii "count", (Json.number (BitVec.ofNat 32 n)).item) + 1 = 9 + digitCount n := by
  have name : (printString (ascii "count")).length = 7 := by decide
  have value : (BitVec.ofNat 32 n).toInt = (n : Int) := by
    have same : (BitVec.ofNat 32 n).toNat = n := by
      rw [BitVec.toNat_ofNat]
      exact Nat.mod_eq_of_lt (by omega)
    rw [BitVec.toInt_eq_toNat_of_lt (by omega), same]
  simp only [memberLength, Json.item, printValue, name, value, length_decimalText_nat]
  omega

def keyDigits (k n : Nat) : Nat := ((List.range n).map fun i => digitCount (k + i + 1)).sum

theorem sum_alarmMembers (l : List AlarmEntry) (k : Nat) :
    ((l.mapIdx fun i e => (ascii (alarmKey (k + i + 1)), entryJson e)).map fun m =>
        memberLength (m.1, m.2.item) + 1).sum =
      42 * l.length + keyDigits k l.length + (l.map AlarmEntry.digitCount).sum := by
  induction l generalizing k with
  | nil => rfl
  | cons e l ih =>
      have shift : (fun i e => (ascii (alarmKey (k + (i + 1) + 1)), entryJson e)) =
          fun i e => (ascii (alarmKey (k + 1 + i + 1)), entryJson e) := by
        funext i e
        rw [Nat.add_right_comm k 1 i, Nat.add_assoc k i 1]
      have digits : keyDigits k (l.length + 1) = digitCount (k + 1) + keyDigits (k + 1) l.length := by
        unfold keyDigits
        rw [List.range_succ_eq_map, List.map_cons, List.sum_cons, List.map_map]
        congr 2
        refine List.map_congr_left fun i _ => ?_
        rw [Function.comp_apply, Nat.add_right_comm k 1 i, Nat.add_assoc k i 1]
      rw [List.mapIdx_cons, shift, List.map_cons, List.sum_cons, ih (k + 1), length_alarmMember, List.length_cons,
        digits, List.map_cons, List.sum_cons]
      omega

theorem length_timerMessage {count : Nat} {alarms : Alarms} (filled : Filled count alarms) :
    (printValue (csroDevicePrepareTimerMessage alarms).item).length =
      42 * count + keyDigits 0 count + ((alarmList alarms).map AlarmEntry.digitCount).sum + 1 +
        if count < ALARM_NUMBER then 9 + digitCount count else 0 := by
  have members := timerMembers_filled filled 0 count (Nat.zero_add count)
  have alarmMembers := sum_alarmMembers (alarmList alarms) 0
  have small : count < 2 ^ 31 := filled.1.trans_lt (by decide)
  rw [filled.length] at alarmMembers
  rw [List.drop_zero, List.drop_zero] at members
  have sum : ((itemMembers (timerMembers alarms (List.finRange ALARM_NUMBER) 0)).map fun m => memberLength m + 1).sum =
      42 * count + keyDigits 0 count + ((alarmList alarms).map AlarmEntry.digitCount).sum +
        if count < ALARM_NUMBER then 9 + digitCount count else 0 := by
    rw [members, itemMembers_eq_map, List.map_map, List.map_append, List.sum_append]
    have alarms_ := alarmMembers
    rw [show ((fun m => memberLength m + 1) ∘ fun m : List Byte × Json => (m.1, m.2.item)) =
      fun m => memberLength (m.1, m.2.item) + 1 from rfl, alarms_]
    split
    · rw [← length_countMember small]
      rfl
    · rfl
  -- there is always a member: the alarms, or their number when there are none
  cases found : itemMembers (timerMembers alarms (List.finRange ALARM_NUMBER) 0) with
  | nil =>
      rw [found, List.map_nil, List.sum_nil] at sum
      have full : ALARM_NUMBER = 20 := rfl
      split at sum <;> omega
  | cons first rest =>
      rw [csroDevicePrepareTimerMessage, Json.item, found, length_printObject, ← found, sum]
      omega

theorem sum_map_le {α : Type} {l : List α} {f : α → Nat} {b : Nat} (bounded : ∀ x ∈ l, f x ≤ b) :
    (l.map f).sum ≤ l.length * b := by
  have bound := List.sum_le_card_nsmul (l.map f) b (List.forall_mem_map.mpr bounded)
  rw [List.length_map] at bound
  exact bound

theorem digitCount_entry_le (e : AlarmEntry) : e.digitCount ≤ 13 := by
  have weekday : digitCount e.weekday.toNat ≤ 3 := digitCount_le (by decide) (by omega)
  have minutes : digitCount e.minutes.toNat ≤ 5 := digitCount_le (by decide) (by omega)
  have action : digitCount e.action.toNat ≤ 5 := digitCount_le (by decide) (by omega)
  unfold AlarmEntry.digitCount
  omega

theorem timer_fits_iff {count : Nat} {alarms : Alarms} (filled : Filled count alarms) :
    (copyContent (csroDevicePrepareTimerMessage alarms).item).isSome = true ↔ AlarmsShort (alarmList alarms) := by
  rw [copyContent_isSome_iff, length_timerMessage filled, AlarmsShort, filled.length]
  have entries : ((alarmList alarms).map AlarmEntry.digitCount).sum ≤ count * 13 := by
    have bound := sum_map_le (l := alarmList alarms) fun e _ => digitCount_entry_le e
    rwa [filled.length] at bound
  have most : count ≤ 20 := filled.1
  generalize ((alarmList alarms).map AlarmEntry.digitCount).sum = digits at entries ⊢
  by_cases few : count ≤ 17
  · have keys : keyDigits 0 count ≤ count * 2 := by
      have bound := sum_map_le (l := List.range count) (f := fun i => digitCount (0 + i + 1)) (b := 2)
        fun i mem => digitCount_le (by decide) (by have := List.mem_range.mp mem; omega)
      rwa [List.length_range] at bound
    have number : digitCount count ≤ 2 := digitCount_le (by decide) (by omega)
    refine iff_of_true ?_ (.inl few)
    split <;> omega
  · obtain rfl | rfl | rfl : count = 18 ∨ count = 19 ∨ count = 20 := by omega
    · have keys : keyDigits 0 18 = 27 := by decide
      have number : digitCount 18 = 2 := by decide
      rw [keys, number, if_pos (by decide)]
      omega
    · have keys : keyDigits 0 19 = 29 := by decide
      have number : digitCount 19 = 2 := by decide
      rw [keys, number, if_pos (by decide)]
      omega
    · have keys : keyDigits 0 20 = 31 := by decide
      rw [keys, if_neg (by decide)]
      omega

theorem digitCount_toNat_le {w k : Nat} (v : BitVec w) (positive : 0 < k) (width : 2 ^ w ≤ 10 ^ k) :
    digitCount v.toNat ≤ k := digitCount_le positive (v.isLt.trans_le width)

theorem length_channelMember (channel : Switch) : memberLength (nlightAddChannelJson channel) + 1 ≤ 100 := by
  have plain : Plain (ascii ("channel" ++ toString (channel.index.toNat + 1))) := by
    rw [ascii_append]
    exact plain_append (by decide) (plain_toString _)
  have index : digitCount (channel.index.toNat + 1) ≤ 3 := digitCount_le (by decide) (by omega)
  have key : (ascii ("channel" ++ toString (channel.index.toNat + 1))).length =
      7 + digitCount (channel.index.toNat + 1) := by
    rw [ascii_append, List.length_append, length_ascii_toString]
    rfl
  have names : (printString (ascii "state")).length = 7 ∧ (printString (ascii "onsource")).length = 10 ∧
      (printString (ascii "ontim")).length = 7 ∧ (printString (ascii "offsource")).length = 11 ∧
      (printString (ascii "offtim")).length = 8 := by decide
  have state : (printString (ascii (if channel.state = 1 then "on" else "off"))).length ≤ 5 := by
    split <;> decide
  have onSource := digitCount_toNat_le channel.onSource (show 0 < 3 by decide) (by decide)
  have onTim := digitCount_toNat_le channel.onTim (show 0 < 10 by decide) (by decide)
  have offSource := digitCount_toNat_le channel.offSource (show 0 < 3 by decide) (by decide)
  have offTim : (decimalText channel.offTim.toInt).length ≤ 11 := by
    refine length_decimalText_le (by decide) ?_
    have low := BitVec.le_toInt channel.offTim
    have high := BitVec.toInt_lt (x := channel.offTim)
    omega
  rw [nlightAddChannelJson, memberLength, length_printObject, length_printString plain, key]
  simp only [List.map_cons, List.map_nil, List.sum_cons, List.sum_nil, memberLength, printValue,
    length_decimalText_nat, names]
  omega

theorem status_fits (channel : Fin NLIGHT → Switch) :
    (copyContent (csroNlightPrepareStatusMessage channel)).isSome = true := by
  have first := length_channelMember (channel 0)
  have second := length_channelMember (channel 1)
  have third := length_channelMember (channel 2)
  rw [copyContent_isSome_iff, csroNlightPrepareStatusMessage, show List.finRange NLIGHT = [0, 1, 2] from rfl,
    List.map_cons, length_printObject]
  simp only [List.map_cons, List.map_nil, List.sum_cons, List.sum_nil]
  omega

theorem length_macStr (s : SystemStruct) : s.macStr.length = 12 := by
  simp [SystemStruct.macStr, hexByte, List.ofFn_succ]

theorem plain_hexByte (b : Byte) : Plain (hexByte b) := by
  have digit : ∀ n < 16, Plain [hexChar n] := by decide
  exact plain_append (digit (b.toNat / 16) (by omega)) (digit (b.toNat % 16) (by omega))

theorem plain_macStr (s : SystemStruct) : Plain s.macStr := by
  intro c mem
  obtain ⟨b, -, digit⟩ := List.mem_flatMap.mp mem
  exact plain_hexByte b c digit

theorem length_ipStr_le (s : SystemStruct) : s.ipStr.length ≤ 15 := by
  unfold SystemStruct.ipStr
  split
  · rename_i ip _
    have part (i : Fin 4) := digitCount_toNat_le (ip i) (show 0 < 3 by decide) (by decide)
    have part0 := part 0
    have part1 := part 1
    have part2 := part 2
    have part3 := part 3
    have dot : (ascii ".").length = 1 := by decide
    simp only [List.length_append, length_decimalText_nat, dot]
    omega
  · decide

theorem system_fits (lib : TimeLib) (s : SystemStruct) (timeOn : Int) (heap : BitVec 32) (interval : BitVec 16) :
    (copyContent (csroSystemPrepareMessage lib s timeOn heap interval)).isSome = true := by
  have names : (printString (ascii "power")).length = 7 ∧ (printString (ascii "router")).length = 8 ∧
      (printString (ascii "broker")).length = 8 ∧ (printString (ascii "heap")).length = 6 ∧
      (printString (ascii "on")).length = 4 ∧ (printString (ascii "ip")).length = 4 ∧
      (printString (ascii "mac")).length = 5 ∧ (printString (ascii "name")).length = 6 ∧
      (printString (ascii "type")).length = 6 ∧ (printString (ascii "interval")).length = 10 ∧
      (printString devType).length = 9 := by decide
  have power := digitCount_toNat_le s.powerOnCount (show 0 < 10 by decide) (by decide)
  have router := digitCount_toNat_le s.wifiConnCount (show 0 < 10 by decide) (by decide)
  have broker := digitCount_toNat_le s.servConnCount (show 0 < 10 by decide) (by decide)
  have free := digitCount_toNat_le heap (show 0 < 10 by decide) (by decide)
  have seconds := digitCount_toNat_le interval (show 0 < 5 by decide) (by decide)
  have on := length_printString_le (timeStr (lib.localtimeR timeOn)).text
  have time := (timeStr (lib.localtimeR timeOn)).fits
  have ip := length_printString_le s.ipStr
  have address := length_ipStr_le s
  have mac := length_printString (plain_macStr s)
  have name : (printString s.hostName).length = 19 := by
    rw [SystemStruct.hostName, length_printString (plain_append (by decide) (plain_macStr s)), List.length_append,
      length_macStr]
    rfl
  rw [length_macStr] at mac
  rw [copyContent_isSome_iff, csroSystemPrepareMessage, length_printObject]
  simp only [List.map_cons, List.map_nil, List.sum_cons, List.sum_nil, memberLength, printValue,
    length_decimalText_nat, names]
  omega

/-- The messages of a device fit, whatever it has been told, if and only if its alarms are short. -/
theorem messages_fit_iff (lib : TimeLib) (ram : Alarms) (nvs : Namespace) (commands : List AlarmCommand) :
    MessagesFit lib (runCommands commands (loadAlarmFromNvs ⟨ram, nvs⟩)).alarms ↔
      AlarmsShort (alarmList (runCommands commands (loadAlarmFromNvs ⟨ram, nvs⟩)).alarms) := by
  obtain ⟨count, filled⟩ := (runCommands_filled ⟨_, load_filled ⟨ram, nvs⟩⟩ commands).1
  constructor
  · intro fit
    exact (timer_fits_iff filled).mp fit.timer
  · intro short
    exact ⟨(timer_fits_iff filled).mpr short, status_fits, system_fits lib⟩

def longAlarms : List AlarmCommand :=
  (List.range 20).map fun i => .add 127 (BitVec.ofNat 16 (10000 + i)) 10000

theorem twenty_alarms_overrun :
    ¬ MessagesFit utc
      (runCommands longAlarms (loadAlarmFromNvs ⟨fun _ => ⟨false, 0, 0, 0⟩, fun _ => none⟩)).alarms := by
  intro fit
  have timer := fit.timer
  revert timer
  decide +kernel

end EspFirmware.Proof.App
