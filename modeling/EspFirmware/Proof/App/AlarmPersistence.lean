import EspFirmware.Proof.App.AlarmTable
import Mathlib.Tactic.IntervalCases

namespace EspFirmware.Proof.App
open EspFirmware.App EspFirmware.Spec EspFirmware.Lib

theorem unpack_weekday (v : BitVec 32) : (unpackAlarm v).weekday.toNat = v.toNat / 2 ^ 25 := by
  have mask : ((v &&& 0xFE000000#32) >>> 25).setWidth 8 = (v >>> 25).setWidth 8 := by
    ext i bound
    simp only [BitVec.getElem_setWidth, BitVec.getLsbD_ushiftRight, BitVec.getLsbD_and]
    interval_cases i <;> simp
  have := v.isLt
  simp only [unpackAlarm, mask, BitVec.toNat_setWidth, BitVec.toNat_ushiftRight,
    Nat.shiftRight_eq_div_pow]
  omega

theorem unpack_minutes (v : BitVec 32) :
    (unpackAlarm v).minutes.toNat = v.toNat / 2 ^ 14 % 2 ^ 11 := by
  have mask : (v &&& 0x01FFC000#32) >>> 14 = (v >>> 14) &&& 0x7FF#32 := by
    ext i bound
    simp only [BitVec.getElem_ushiftRight, BitVec.getElem_and, BitVec.getLsbD_and]
    interval_cases i <;> simp
  have low : (0x7FF#32).toNat = 2 ^ 11 - 1 := rfl
  simp only [unpackAlarm, mask, BitVec.toNat_setWidth, BitVec.toNat_and, BitVec.toNat_ushiftRight,
    Nat.shiftRight_eq_div_pow, low, Nat.and_two_pow_sub_one_eq_mod]
  omega

theorem unpack_action (v : BitVec 32) : (unpackAlarm v).action.toNat = v.toNat % 2 ^ 14 := by
  have low : (0x3FFF#32).toNat = 2 ^ 14 - 1 := rfl
  simp only [unpackAlarm, BitVec.toNat_setWidth, BitVec.toNat_and, low,
    Nat.and_two_pow_sub_one_eq_mod]
  omega

theorem unpack_fits (v : BitVec 32) : (entryOf (unpackAlarm v)).Fits := by
  have := v.isLt
  simp only [AlarmEntry.Fits, entryOf, unpack_weekday, unpack_minutes, unpack_action]
  omega

theorem pack_toNat (a : AlarmStruct) :
    (packAlarm a).toNat =
      (a.weekday.toNat * 2 ^ 25 + a.minutes.toNat * 2 ^ 14 + a.action.toNat) % 2 ^ 32 := by
  have := a.weekday.isLt
  have := a.minutes.isLt
  have := a.action.isLt
  simp only [packAlarm, BitVec.toNat_add, BitVec.toNat_shiftLeft, BitVec.toNat_setWidth,
    Nat.shiftLeft_eq]
  omega

theorem unpack_pack_iff (a : AlarmStruct) :
    entryOf (unpackAlarm (packAlarm a)) = entryOf a ↔ (entryOf a).Fits := by
  constructor
  · intro same
    rw [← same]
    exact unpack_fits _
  · rintro ⟨weekday, minutes, action⟩
    simp only [entryOf] at weekday minutes action
    simp only [entryOf, AlarmEntry.mk.injEq, ← BitVec.toNat_inj, unpack_weekday, unpack_minutes,
      unpack_action, pack_toNat]
    omega

theorem alarmKey_ne_count : ∀ i : Fin ALARM_NUMBER, alarmKey i ≠ "alarm_count" := by decide

theorem alarmKey_injective : ∀ i j : Fin ALARM_NUMBER, alarmKey i = alarmKey j → i = j := by decide

theorem nvsGetU32_set (nvs : Namespace) (key key' : String) (value : NvsValue) (dest : BitVec 32)
    (ne : key ≠ key') : nvsGetU32 (nvsSet nvs key' value) key dest = nvsGetU32 nvs key dest := by
  simp [nvsGetU32, nvsSet, ne]

theorem saveLoop_spec {n : Nat} {alarms : Alarms} (filled : Filled n alarms) (i : Nat)
    (le : i ≤ n) (nvs : Namespace) :
    let result := saveLoop alarms ((List.finRange ALARM_NUMBER).drop i) (BitVec.ofNat 8 i) nvs
    result.1 = BitVec.ofNat 8 n ∧
      ∀ k : Fin ALARM_NUMBER, nvsGetU32 result.2 (alarmKey k) 0#32 =
        if i ≤ k.val ∧ k.val < n then packAlarm (alarms k) else nvsGetU32 nvs (alarmKey k) 0#32 := by
  induction gap : ALARM_NUMBER - i generalizing i nvs with
  | zero =>
      have upper := filled.1
      have eq : i = n := by omega
      subst eq
      have skip : ∀ k : Fin ALARM_NUMBER, ¬ (i ≤ k.val ∧ k.val < i) := fun k => by omega
      rw [List.drop_eq_nil_of_le (by simp; omega)]
      simp [saveLoop, skip]
  | succ d ih =>
      have inside : i < ALARM_NUMBER := by omega
      rw [List.drop_eq_getElem_cons (by simpa using inside), List.getElem_finRange]
      simp only [saveLoop, filled.2, decide_eq_true_eq, Fin.val_cast]
      by_cases lt : i < n
      · rw [if_pos lt]
        have next : BitVec.ofNat 8 i + 1 = BitVec.ofNat 8 (i + 1) := by
          rw [BitVec.ofNat_add]
          rfl
        rw [next]
        obtain ⟨count, stored⟩ := ih (i + 1) lt
          (nvsSet nvs (alarmKey i) (.u32 (packAlarm (alarms ⟨i, inside⟩)))) (by omega)
        refine ⟨count, fun k => (stored k).trans ?_⟩
        by_cases here : k = ⟨i, inside⟩
        · subst here
          simp [lt, nvsGetU32, nvsSet]
        · have ne : alarmKey k ≠ alarmKey i := fun e => here (alarmKey_injective k ⟨i, inside⟩ e)
          have kne : k.val ≠ i := fun e => here (Fin.ext e)
          rw [nvsGetU32_set _ _ _ _ _ ne]
          exact if_congr (by omega) rfl rfl
      · rw [if_neg lt]
        have eq : i = n := by omega
        simp [eq]

structure Saved (s : AlarmState) : Prop where
  filled : Filled (min (nvsGetU8 s.nvs "alarm_count" 0#8).toNat ALARM_NUMBER) s.alarms
  slots : ∀ k : Fin ALARM_NUMBER, k.val < (nvsGetU8 s.nvs "alarm_count" 0#8).toNat →
    entryOf (unpackAlarm (nvsGetU32 s.nvs (alarmKey k) 0#32)) =
      entryOf (unpackAlarm (packAlarm (s.alarms k)))

theorem saved_save {n : Nat} {s : AlarmState} (filled : Filled n s.alarms) :
    Saved (saveAlarmToNvs s) := by
  obtain ⟨count, stored⟩ := saveLoop_spec filled 0 (Nat.zero_le n) s.nvs
  rw [List.drop_zero] at count stored
  have upper : n ≤ 20 := filled.1
  have level : (nvsGetU8 (saveAlarmToNvs s).nvs "alarm_count" 0#8).toNat = n := by
    simp only [saveAlarmToNvs, nvsGetU8, nvsSet, if_true, count, BitVec.toNat_ofNat]
    omega
  refine ⟨?_, fun k below => ?_⟩
  · rw [level, Nat.min_eq_left filled.1]
    exact filled
  · rw [level] at below
    have here := stored k
    rw [if_pos ⟨Nat.zero_le _, below⟩] at here
    have kept : nvsGetU32 (saveAlarmToNvs s).nvs (alarmKey k) 0#32 = packAlarm (s.alarms k) :=
      (nvsGetU32_set _ _ _ _ _ (alarmKey_ne_count k)).trans here
    rw [kept]
    rfl

theorem saved_load (s : AlarmState) : Saved (loadAlarmFromNvs s) := by
  refine ⟨load_filled s, fun k below => ?_⟩
  have below' : k.val < (nvsGetU8 s.nvs "alarm_count" 0#8).toNat := below
  have entry : (loadAlarmFromNvs s).alarms k = unpackAlarm (nvsGetU32 s.nvs (alarmKey k) 0#32) := by
    simp [loadAlarmFromNvs, below']
  rw [entry]
  exact ((unpack_pack_iff _).mpr (unpack_fits _)).symm

theorem run_saved_or_same (c : AlarmCommand) (s : AlarmState) :
    c.run s = s ∨ ∃ t, c.run s = saveAlarmToNvs t := by
  cases c with
  | add weekday minutes action =>
      simp only [AlarmCommand.run, csroAlarmAdd]
      split
      · exact Or.inr ⟨_, rfl⟩
      · split
        · exact Or.inr ⟨_, rfl⟩
        · exact Or.inl rfl
  | modify index weekday minutes action =>
      simp only [AlarmCommand.run, csroAlarmModify]
      split_ifs
      · exact Or.inr ⟨_, rfl⟩
      · exact Or.inl rfl
      · exact Or.inl rfl
  | delete index =>
      simp only [AlarmCommand.run, csroAlarmDelete]
      split_ifs
      · exact Or.inr ⟨_, rfl⟩
      · exact Or.inl rfl
      · exact Or.inl rfl
  | clear => exact Or.inr ⟨_, rfl⟩

theorem saved_run {s : AlarmState} (saved : Saved s) (c : AlarmCommand) : Saved (c.run s) := by
  obtain ⟨n, filled⟩ := (run_refines ⟨_, saved.filled⟩ c).1
  rcases run_saved_or_same c s with same | ⟨t, stored⟩
  · rw [same]; exact saved
  · rw [stored] at filled ⊢
    exact saved_save filled

theorem saved_runCommands {s : AlarmState} (saved : Saved s) (commands : List AlarmCommand) :
    Saved (runCommands commands s) := by
  induction commands generalizing s with
  | nil => exact saved
  | cons c rest ih => exact ih (saved_run saved c)

theorem reload_eq_iff {s : AlarmState} (saved : Saved s) (ram : Alarms) :
    alarmList (loadAlarmFromNvs ⟨ram, s.nvs⟩).alarms = alarmList s.alarms ↔
      ∀ e ∈ alarmList s.alarms, e.Fits := by
  have loaded := load_filled ⟨ram, s.nvs⟩
  have bound (k : Fin ALARM_NUMBER) := k.isLt
  have slot (k : Fin ALARM_NUMBER)
      (below : k.val < min (nvsGetU8 s.nvs "alarm_count" 0#8).toNat ALARM_NUMBER) :
      entryOf ((loadAlarmFromNvs ⟨ram, s.nvs⟩).alarms k) =
        entryOf (unpackAlarm (packAlarm (s.alarms k))) := by
    have below' : k.val < (nvsGetU8 s.nvs "alarm_count" 0#8).toNat := by omega
    rw [← saved.slots k below']
    simp [loadAlarmFromNvs, below']
  constructor
  · intro same e mem
    obtain ⟨k, inside, rfl⟩ := List.getElem_of_mem mem
    have below := saved.filled.length ▸ inside
    have here := congrArg (fun l => l[k]?) same
    simp only [loaded.getElem?, saved.filled.getElem?, dif_pos below] at here
    rw [saved.filled.getElem, ← unpack_pack_iff, ← slot _ below]
    exact Option.some.inj here
  · intro fits
    refine loaded.eq_of_slots _ saved.filled.length fun k below => ?_
    rw [saved.filled.getElem?, dif_pos below, slot _ below]
    refine congrArg some ((unpack_pack_iff _).mpr (fits _ ?_)).symm
    have located := saved.filled.getElem? k
    rw [dif_pos below] at located
    exact List.mem_of_getElem? located

theorem addEntry_forall {P : AlarmEntry → Prop} {e : AlarmEntry} {l : List AlarmEntry}
    (all : ∀ x ∈ l, P x) (new : P e) : ∀ x ∈ addEntry e l, P x := by
  intro x mem
  unfold addEntry at mem
  split at mem
  · exact (List.mem_or_eq_of_mem_set mem).elim (all x) fun h => h ▸ new
  · split_ifs at mem
    · rcases List.mem_append.mp mem with h | h
      · exact all x h
      · exact List.mem_singleton.mp h ▸ new
    · exact all x mem

theorem editList_fits {c : AlarmCommand} {l : List AlarmEntry} (all : ∀ e ∈ l, e.Fits)
    (new : CommandFits c) : ∀ e ∈ editList c l, e.Fits := by
  cases c with
  | add weekday minutes action => exact addEntry_forall all new
  | modify index weekday minutes action =>
      intro e mem
      simp only [editList] at mem
      split_ifs at mem
      · exact (List.mem_or_eq_of_mem_set mem).elim (all e) fun h => h ▸ new
      · exact all e mem
  | delete index =>
      intro e mem
      simp only [editList] at mem
      split_ifs at mem
      · exact all e (List.mem_of_mem_eraseIdx mem)
      · exact all e mem
  | clear => intro e mem; simp [editList] at mem

theorem runCommands_fits {s : AlarmState} (saved : Saved s) (all : ∀ e ∈ alarmList s.alarms, e.Fits)
    (commands : List AlarmCommand) (new : ∀ c ∈ commands, CommandFits c) :
    ∀ e ∈ alarmList (runCommands commands s).alarms, e.Fits := by
  induction commands generalizing s with
  | nil => exact all
  | cons c rest ih =>
      refine ih (saved_run saved c) ?_ fun d mem => new d (List.mem_cons_of_mem c mem)
      rw [(run_refines ⟨_, saved.filled⟩ c).2]
      exact editList_fits all (new c List.mem_cons_self)

theorem load_fits (s : AlarmState) : ∀ e ∈ alarmList (loadAlarmFromNvs s).alarms, e.Fits := by
  intro e mem
  obtain ⟨k, inside, rfl⟩ := List.getElem_of_mem mem
  have below := (load_filled s).length ▸ inside
  have below' : k < (nvsGetU8 s.nvs "alarm_count" 0#8).toNat := by omega
  rw [(load_filled s).getElem]
  simp only [loadAlarmFromNvs, below', if_true]
  exact unpack_fits _

/-- After any commands, a reboot gives back the same list exactly when every entry of it fits the
packed word; commands that all fit never leave another list. -/
theorem alarms_survive_reboot (ram ram' : Alarms) (nvs : Namespace) (commands : List AlarmCommand) :
    let s := runCommands commands (loadAlarmFromNvs ⟨ram, nvs⟩)
    (alarmList (loadAlarmFromNvs ⟨ram', s.nvs⟩).alarms = alarmList s.alarms ↔
        ∀ e ∈ alarmList s.alarms, e.Fits) ∧
      ((∀ c ∈ commands, CommandFits c) → ∀ e ∈ alarmList s.alarms, e.Fits) := by
  intro s
  have saved := saved_runCommands (saved_load ⟨ram, nvs⟩) commands
  exact ⟨reload_eq_iff saved ram',
    runCommands_fits (saved_load ⟨ram, nvs⟩) (load_fits ⟨ram, nvs⟩) commands⟩

/-- Weekday mask 128 is lost: the table holds it, the reboot reads 0. -/
theorem alarm_lost_at_reboot :
    let boot := loadAlarmFromNvs ⟨fun _ => ⟨false, 0, 0, 0⟩, fun _ => none⟩
    let s := runCommands [.add 128 0 0] boot
    alarmList s.alarms = [⟨128, 0, 0⟩] ∧
      alarmList (loadAlarmFromNvs ⟨s.alarms, s.nvs⟩).alarms = [⟨0, 0, 0⟩] := by
  decide

end EspFirmware.Proof.App
