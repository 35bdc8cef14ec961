import Mathlib.Data.List.Induction
import Mathlib.Data.List.Nodup
import Mathlib.Data.List.TakeWhile
import EspFirmware.Lib.Loop
import EspFirmware.Spec.Time

namespace EspFirmware.Proof.App
open EspFirmware.App EspFirmware.Spec EspFirmware.Lib

def Filled (n : Nat) (alarms : Alarms) : Prop :=
  n ≤ ALARM_NUMBER ∧ ∀ i, (alarms i).valid = decide (i.val < n)

theorem Filled.contiguous {n : Nat} {alarms : Alarms} (filled : Filled n alarms) :
    Contiguous alarms := by
  intro i j le valid
  rw [filled.2, decide_eq_true_eq] at valid ⊢
  exact lt_of_le_of_lt le valid

theorem Filled.takeWhile {n : Nat} {alarms : Alarms} (filled : Filled n alarms) :
    ((List.finRange ALARM_NUMBER).takeWhile fun i => (alarms i).valid) =
      (List.finRange ALARM_NUMBER).take n := by
  rw [show (fun i => (alarms i).valid) = fun i => decide (i.val < n) from funext filled.2]
  have split := List.take_append_drop n (List.finRange ALARM_NUMBER)
  conv_lhs => rw [← split]
  rw [List.takeWhile_append_of_pos]
  · suffices h : ((List.finRange ALARM_NUMBER).drop n).takeWhile (fun i => decide (i.val < n)) = [] by
      simp [h]
    rw [List.takeWhile_eq_nil_iff]
    intro nonempty
    simp
  · intro i mem
    obtain ⟨k, bound, located⟩ := List.getElem_of_mem mem
    have kn : k < n := by simp at bound; omega
    rw [← located]
    simpa using kn

theorem Filled.getElem? {n : Nat} {alarms : Alarms} (filled : Filled n alarms) (k : Nat) :
    (alarmList alarms)[k]? =
      if h : k < n then some (entryOf (alarms ⟨k, h.trans_le filled.1⟩)) else none := by
  rw [alarmList, filled.takeWhile, List.getElem?_map, List.getElem?_take]
  by_cases h : k < n
  · have bound : k < ALARM_NUMBER := h.trans_le filled.1
    simp [h, bound]
  · simp [h]

theorem Filled.length {n : Nat} {alarms : Alarms} (filled : Filled n alarms) :
    (alarmList alarms).length = n := by
  rw [alarmList, filled.takeWhile]
  simpa using filled.1

theorem Filled.getElem {n : Nat} {alarms : Alarms} (filled : Filled n alarms) (k : Nat)
    (h : k < (alarmList alarms).length) :
    (alarmList alarms)[k] =
      entryOf (alarms ⟨k, (filled.length ▸ h : k < n).trans_le filled.1⟩) := by
  have kn : k < n := filled.length ▸ h
  have := filled.getElem? k
  rw [List.getElem?_eq_getElem h, dif_pos kn] at this
  exact Option.some.inj this

theorem Filled.eq_of_slots {n : Nat} {alarms : Alarms} (filled : Filled n alarms)
    (l : List AlarmEntry) (len : l.length = n)
    (slots : ∀ k (h : k < n), l[k]? = some (entryOf (alarms ⟨k, h.trans_le filled.1⟩))) :
    alarmList alarms = l := by
  apply List.ext_getElem?
  intro k
  rw [filled.getElem?]
  by_cases h : k < n
  · rw [dif_pos h, slots k h]
  · rw [dif_neg h, List.getElem?_eq_none (by omega)]

@[simp] theorem saveAlarmToNvs_alarms (s : AlarmState) : (saveAlarmToNvs s).alarms = s.alarms := rfl

theorem load_filled (s : AlarmState) :
    Filled (min (nvsGetU8 s.nvs "alarm_count" 0#8).toNat ALARM_NUMBER)
      (loadAlarmFromNvs s).alarms := by
  refine ⟨Nat.min_le_right _ _, fun i => ?_⟩
  have bound := i.isLt
  by_cases h : i.val < (nvsGetU8 s.nvs "alarm_count" 0#8).toNat
  · have : i.val < min (nvsGetU8 s.nvs "alarm_count" 0#8).toNat ALARM_NUMBER := by omega
    simp [loadAlarmFromNvs, h, unpackAlarm, this]
  · have : ¬ i.val < min (nvsGetU8 s.nvs "alarm_count" 0#8).toNat ALARM_NUMBER := by omega
    simp [loadAlarmFromNvs, h, this]

theorem add_refines {n : Nat} {s : AlarmState} (filled : Filled n s.alarms)
    (weekday : BitVec 8) (minutes action : BitVec 16) :
    (∃ n', Filled n' (csroAlarmAdd weekday minutes action s).alarms) ∧
      alarmList (csroAlarmAdd weekday minutes action s).alarms =
        addEntry ⟨weekday, minutes, action⟩ (alarmList s.alarms) := by
  have hit (i : Fin ALARM_NUMBER) :
      ((s.alarms i).valid && (s.alarms i).weekday == weekday && (s.alarms i).minutes == minutes) =
        true ↔ i.val < n ∧ (entryOf (s.alarms i)).slot = (weekday, minutes) := by
    simp [filled.2 i, entryOf, AlarmEntry.slot, and_assoc]
  unfold csroAlarmAdd addEntry
  split
  · rename_i i found
    obtain ⟨hitsHere, before⟩ := find?_finRange_eq_some.mp found
    obtain ⟨below, slot⟩ := (hit i).mp hitsHere
    have index : (alarmList s.alarms).findIdx? (fun x => x.slot ==
        AlarmEntry.slot ⟨weekday, minutes, action⟩) = some i.val := by
      rw [List.findIdx?_eq_some_iff_getElem]
      refine ⟨by rw [filled.length]; exact below, ?_, fun j lt => ?_⟩
      · simpa [filled.getElem, AlarmEntry.slot] using slot
      · have jn : j < n := lt.trans below
        have miss := before ⟨j, jn.trans_le filled.1⟩ lt
        intro same
        have := (hit ⟨j, jn.trans_le filled.1⟩).mpr ⟨jn, by simpa [filled.getElem, AlarmEntry.slot] using same⟩
        rw [miss] at this
        exact Bool.false_ne_true this
    have filled' : Filled n (Function.update s.alarms i { s.alarms i with action := action }) := by
      refine ⟨filled.1, fun j => ?_⟩
      by_cases eq : j = i
      · subst eq; simp [filled.2]
      · simp [Function.update_of_ne eq, filled.2]
    rw [index]
    refine ⟨⟨n, filled'⟩, filled'.eq_of_slots _ (by simp [filled.length]) fun k h => ?_⟩
    rw [List.getElem?_set, filled.length]
    by_cases eq : i.val = k
    · subst eq
      simp only [entryOf, AlarmEntry.slot, Prod.mk.injEq] at slot
      simp [h, entryOf, slot]
    · have ne : (⟨k, h.trans_le filled.1⟩ : Fin ALARM_NUMBER) ≠ i := fun e => eq (by rw [← e])
      simp only [eq, if_false, Function.update_of_ne ne]
      rw [filled.getElem?, dif_pos h]
  · rename_i missing
    have absent : (alarmList s.alarms).findIdx? (fun x => x.slot ==
        AlarmEntry.slot ⟨weekday, minutes, action⟩) = none := by
      rw [List.findIdx?_eq_none_iff]
      intro x mem
      obtain ⟨k, bound, rfl⟩ := List.getElem_of_mem mem
      have kn : k < n := filled.length ▸ bound
      have miss := find?_finRange_eq_none.mp missing ⟨k, kn.trans_le filled.1⟩
      rw [filled.getElem]
      rw [Bool.eq_false_iff] at miss ⊢
      intro same
      exact miss ((hit _).mpr ⟨kn, by simpa [AlarmEntry.slot] using same⟩)
    rw [absent]
    split
    · rename_i i found
      obtain ⟨invalid, before⟩ := find?_finRange_eq_some.mp found
      have level : i.val = n := by
        have above : ¬ i.val < n := by simpa [filled.2] using invalid
        by_contra ne
        have nlt : n < ALARM_NUMBER := by omega
        have := before ⟨n, nlt⟩ (by rw [Fin.lt_def]; simp; omega)
        simp [filled.2] at this
      have room : n < ALARM_NUMBER := level ▸ i.isLt
      have filled' : Filled (n + 1)
          (Function.update s.alarms i ⟨true, weekday, minutes, action⟩) := by
        refine ⟨room, fun j => ?_⟩
        by_cases eq : j = i
        · subst eq; simp [level]
        · have ne : j.val ≠ n := fun e => eq (Fin.ext (e.trans level.symm))
          rw [Function.update_of_ne eq, filled.2]
          exact decide_eq_decide.mpr (by omega)
      rw [if_pos (by rw [filled.length]; exact room)]
      refine ⟨⟨n + 1, filled'⟩, filled'.eq_of_slots _ (by simp [filled.length]) fun k h => ?_⟩
      rw [List.getElem?_append, filled.length]
      by_cases lt : k < n
      · have ne : (⟨k, h.trans_le filled'.1⟩ : Fin ALARM_NUMBER) ≠ i := fun e => by
          have := congrArg Fin.val e
          simp at this
          omega
        rw [if_pos lt, filled.getElem?, dif_pos lt]
        simp only [Function.update_of_ne ne]
      · have eq : (⟨k, h.trans_le filled'.1⟩ : Fin ALARM_NUMBER) = i := Fin.ext (by simp; omega)
        have zero : k - n = 0 := by omega
        simp [lt, eq, zero, entryOf]
    · rename_i full
      have level : n = ALARM_NUMBER := by
        by_contra ne
        have nlt : n < ALARM_NUMBER := lt_of_le_of_ne filled.1 ne
        have := find?_finRange_eq_none.mp full ⟨n, nlt⟩
        simp [filled.2] at this
      rw [if_neg (by rw [filled.length]; omega)]
      exact ⟨⟨n, filled⟩, rfl⟩

theorem modify_refines {n : Nat} {s : AlarmState} (filled : Filled n s.alarms)
    (index weekday : BitVec 8) (minutes action : BitVec 16) :
    Filled n (csroAlarmModify index weekday minutes action s).alarms ∧
      alarmList (csroAlarmModify index weekday minutes action s).alarms =
        editList (.modify index weekday minutes action) (alarmList s.alarms) := by
  unfold csroAlarmModify
  simp only [editList, filled.length]
  by_cases inside : index.toNat < ALARM_NUMBER
  · simp only [dif_pos inside, filled.2, decide_eq_true_eq]
    by_cases below : index.toNat < n
    · simp only [if_pos below, saveAlarmToNvs_alarms]
      have filled' : Filled n (Function.update s.alarms ⟨index.toNat, inside⟩
          ⟨decide (index.toNat < n), weekday, minutes, action⟩) := by
        refine ⟨filled.1, fun j => ?_⟩
        by_cases eq : j = ⟨index.toNat, inside⟩
        · subst eq; simp
        · rw [Function.update_of_ne eq, filled.2]
      refine ⟨filled', filled'.eq_of_slots _ (by simp [filled.length]) fun k h => ?_⟩
      rw [List.getElem?_set, filled.length]
      by_cases eq : index.toNat = k
      · subst eq
        simp [below, entryOf]
      · have ne : (⟨k, h.trans_le filled.1⟩ : Fin ALARM_NUMBER) ≠ ⟨index.toNat, inside⟩ :=
          fun e => eq (Fin.val_eq_of_eq e).symm
        rw [if_neg eq, Function.update_of_ne ne, filled.getElem?, dif_pos h]
    · simp only [if_neg below]
      exact ⟨filled, trivial⟩
  · have below : ¬ index.toNat < n := fun h => inside (h.trans_le filled.1)
    simp only [dif_neg inside, if_neg below]
    exact ⟨filled, trivial⟩

def hole (n index k : Nat) : Nat := if k ≤ index then index else min k (n - 1)

def Shifted (n index k : Nat) (before alarms : Alarms) : Prop :=
  ∀ i, (alarms i).valid = decide (i.val < n ∧ i.val ≠ hole n index k) ∧
    (i.val < n → i.val ≠ hole n index k → ∀ j : Fin ALARM_NUMBER,
      j.val = (if index ≤ i.val ∧ i.val < hole n index k then i.val + 1 else i.val) →
        entryOf (alarms i) = entryOf (before j))

theorem deleteStep_shifted {n index : Nat} {before alarms : Alarms} (below : index < n)
    (i : Fin (ALARM_NUMBER - 1))
    (inv : Shifted n index i before alarms) :
    Shifted n index (i + 1) before (deleteStep index alarms i) := by
  have ilt := i.isLt
  unfold deleteStep
  by_cases moves : index ≤ i.val ∧ (alarms i.succ).valid = true
  · rw [if_pos moves]
    have next := moves.2
    rw [(inv i.succ).1, decide_eq_true_eq] at next
    have here : hole n index i = i.val := by
      simp only [hole, Fin.val_succ] at next ⊢
      split_ifs <;> omega
    have there : hole n index (i + 1) = i.val + 1 := by
      simp only [hole, Fin.val_succ] at next ⊢
      split_ifs <;> omega
    intro j
    by_cases top : j = i.succ
    · subst top
      simp [there]
    · have topv : j.val ≠ i.val + 1 := fun e => top (Fin.ext e)
      dsimp only
      rw [Function.update_of_ne top]
      by_cases bottom : j = i.castSucc
      · subst bottom
        rw [Function.update_self]
        refine ⟨?_, fun _ _ m located => ?_⟩
        · rw [(inv i.succ).1, there]
          simp only [Fin.val_succ, Fin.val_castSucc, here]
          exact decide_eq_decide.mpr (by simp only [Fin.val_succ] at next; omega)
        · refine (inv i.succ).2 next.1 next.2 m ?_
          simp only [Fin.val_succ, Fin.val_castSucc, here, there] at located ⊢
          rw [located]
          split_ifs <;> omega
      · have botv : j.val ≠ i.val := fun e => bottom (Fin.ext e)
        rw [Function.update_of_ne bottom, there]
        have old := inv j
        rw [here] at old
        refine ⟨?_, fun lt _ m located => old.2 lt botv m ?_⟩
        · rw [old.1]
          exact decide_eq_decide.mpr (by omega)
        · rw [located]
          split_ifs <;> omega
  · rw [if_neg moves]
    have same : hole n index (i + 1) = hole n index i := by
      by_cases early : index ≤ i.val
      · have invalid : ¬ (alarms i.succ).valid = true := fun v => moves ⟨early, v⟩
        rw [(inv i.succ).1, decide_eq_true_eq] at invalid
        simp only [hole, Fin.val_succ] at invalid ⊢
        split_ifs at invalid ⊢ <;> omega
      · simp only [hole]
        split_ifs <;> omega
    unfold Shifted at inv ⊢
    rw [same]
    exact inv

theorem delete_refines {n : Nat} {s : AlarmState} (filled : Filled n s.alarms) (index : BitVec 8) :
    (∃ n', Filled n' (csroAlarmDelete index s).alarms) ∧
      alarmList (csroAlarmDelete index s).alarms =
        editList (.delete index) (alarmList s.alarms) := by
  unfold csroAlarmDelete
  simp only [editList, filled.length]
  by_cases inside : index.toNat < ALARM_NUMBER
  · simp only [dif_pos inside, filled.2, decide_eq_true_eq]
    by_cases below : index.toNat < n
    · simp only [if_pos below, saveAlarmToNvs_alarms]
      have start : Shifted n index.toNat 0 s.alarms (Function.update s.alarms ⟨index.toNat, inside⟩
          { s.alarms ⟨index.toNat, inside⟩ with valid := false }) := by
        intro i
        have holeZero : hole n index.toNat 0 = index.toNat := by simp [hole]
        rw [holeZero]
        by_cases eq : i = ⟨index.toNat, inside⟩
        · subst eq; simp
        · have ne : i.val ≠ index.toNat := fun e => eq (Fin.ext e)
          rw [Function.update_of_ne eq]
          refine ⟨?_, fun _ _ j located => ?_⟩
          · rw [filled.2]
            exact decide_eq_decide.mpr (by omega)
          · have : j = i := Fin.ext (by rw [located]; split_ifs <;> omega)
            rw [this]
      have final := foldl_finRange_invariant (fun k a => Shifted n index.toNat k s.alarms a) _ _ start
        (fun i a inv => deleteStep_shifted below i inv)
      have last : hole n index.toNat (ALARM_NUMBER - 1) = n - 1 := by
        have := filled.1
        simp only [hole]
        split_ifs <;> omega
      rw [Shifted, last] at final
      generalize (List.finRange (ALARM_NUMBER - 1)).foldl (deleteStep index.toNat) _ = after at final ⊢
      have filled' : Filled (n - 1) after := by
        refine ⟨by have := filled.1; omega, fun i => ?_⟩
        rw [(final i).1]
        exact decide_eq_decide.mpr (by omega)
      refine ⟨⟨n - 1, filled'⟩, filled'.eq_of_slots _ ?_ fun k h => ?_⟩
      · rw [List.length_eraseIdx, filled.length, if_pos below]
      · have upper : n ≤ ALARM_NUMBER := filled.1
        rw [List.getElem?_eraseIdx]
        by_cases lt : k < index.toNat
        · rw [if_pos lt, filled.getElem?, dif_pos (by omega)]
          exact congrArg some ((final ⟨k, by omega⟩).2 (by simp; omega) (by simp; omega) ⟨k, by omega⟩
            (by simp; omega)).symm
        · rw [if_neg lt, filled.getElem?, dif_pos (by omega)]
          exact congrArg some ((final ⟨k, by omega⟩).2 (by simp; omega) (by simp; omega)
            ⟨k + 1, by omega⟩ (by simp; omega)).symm
    · simp only [if_neg below]
      exact ⟨⟨n, filled⟩, trivial⟩
  · have below : ¬ index.toNat < n := fun h => inside (h.trans_le filled.1)
    simp only [dif_neg inside, if_neg below]
    exact ⟨⟨n, filled⟩, trivial⟩

theorem clear_refines (s : AlarmState) :
    Filled 0 (csroAlarmClear s).alarms ∧ alarmList (csroAlarmClear s).alarms = [] := by
  have filled : Filled 0 (csroAlarmClear s).alarms := ⟨Nat.zero_le _, fun i => by simp [csroAlarmClear]⟩
  exact ⟨filled, filled.eq_of_slots [] rfl fun k h => absurd h (Nat.not_lt_zero k)⟩

/-- One command keeps the valid slots a prefix and acts on its list as `editList` says. -/
theorem run_refines {s : AlarmState} (filled : ∃ n, Filled n s.alarms) (c : AlarmCommand) :
    (∃ n, Filled n (c.run s).alarms) ∧
      alarmList (c.run s).alarms = editList c (alarmList s.alarms) := by
  obtain ⟨n, filled⟩ := filled
  cases c with
  | add weekday minutes action => exact add_refines filled weekday minutes action
  | modify index weekday minutes action =>
      exact (modify_refines filled index weekday minutes action).imp_left fun h => ⟨n, h⟩
  | delete index => exact delete_refines filled index
  | clear => exact (clear_refines s).imp_left fun h => ⟨0, h⟩

theorem runCommands_filled {s : AlarmState} (filled : ∃ n, Filled n s.alarms)
    (commands : List AlarmCommand) :
    (∃ n, Filled n (runCommands commands s).alarms) ∧
      alarmList (runCommands commands s).alarms =
        commands.foldl (fun l c => editList c l) (alarmList s.alarms) := by
  induction commands generalizing s with
  | nil => exact ⟨filled, rfl⟩
  | cons c rest ih =>
      obtain ⟨next, edited⟩ := run_refines filled c
      have := ih next
      rw [edited] at this
      exact this

/-- The table boots into a list and stays one: every command is the list edit it names. -/
theorem alarm_table_is_a_list (ram : Alarms) (nvs : Namespace) (commands : List AlarmCommand) :
    let s := runCommands commands (loadAlarmFromNvs ⟨ram, nvs⟩)
    Contiguous s.alarms ∧ (alarmList s.alarms).length ≤ ALARM_NUMBER ∧
      (∀ i, (s.alarms i).valid = true ↔ i.val < (alarmList s.alarms).length) ∧
      ∀ c : AlarmCommand, Contiguous (c.run s).alarms ∧
        alarmList (c.run s).alarms = editList c (alarmList s.alarms) := by
  intro s
  have filled := (runCommands_filled ⟨_, load_filled ⟨ram, nvs⟩⟩ commands).1
  obtain ⟨n, level⟩ := filled
  refine ⟨level.contiguous, by rw [level.length]; exact level.1, fun i => ?_, fun c => ?_⟩
  · rw [level.length, level.2, decide_eq_true_eq]
  · obtain ⟨⟨m, after⟩, edited⟩ := run_refines ⟨n, level⟩ c
    exact ⟨after.contiguous, edited⟩

end EspFirmware.Proof.App

namespace EspFirmware.Proof.App
open EspFirmware.App EspFirmware.Spec EspFirmware.Lib

theorem map_slot_addEntry (e : AlarmEntry) (l : List AlarmEntry) :
    (addEntry e l).map AlarmEntry.slot =
      if e.slot ∈ l.map AlarmEntry.slot ∨ ALARM_NUMBER ≤ l.length then l.map AlarmEntry.slot
      else l.map AlarmEntry.slot ++ [e.slot] := by
  unfold addEntry
  split
  · rename_i i found
    obtain ⟨bound, hit, -⟩ := List.findIdx?_eq_some_iff_getElem.mp found
    have same : l[i].slot = e.slot := by simpa using hit
    have mem : e.slot ∈ l.map AlarmEntry.slot :=
      List.mem_map.mpr ⟨l[i], List.getElem_mem bound, same⟩
    rw [if_pos (Or.inl mem), List.map_set, ← same]
    have inside : i < (l.map AlarmEntry.slot).length := by simpa using bound
    have unchanged : (l.map AlarmEntry.slot).set i (l.map AlarmEntry.slot)[i] = l.map AlarmEntry.slot :=
      List.set_getElem_self inside
    simpa using unchanged
  · rename_i missing
    have absent : e.slot ∉ l.map AlarmEntry.slot := by
      rw [List.findIdx?_eq_none_iff] at missing
      simp only [List.mem_map, not_exists, not_and]
      intro x mem same
      simpa [same] using missing x mem
    by_cases room : l.length < ALARM_NUMBER
    · rw [if_pos room, if_neg (by rw [not_or]; exact ⟨absent, by omega⟩), List.map_append]
      rfl
    · rw [if_neg room, if_pos (Or.inr (by omega))]

theorem nodup_set_iff {α : Type*} {l : List α} (distinct : l.Nodup) (i : Nat) (inside : i < l.length)
    (a : α) : (l.set i a).Nodup ↔ ∀ k, k < l.length → k ≠ i → l[k]? ≠ some a := by
  rw [List.nodup_iff_injective_getElem] at distinct
  rw [List.nodup_iff_injective_getElem]
  constructor
  · intro injective k bound ne found
    have bound' : k < (l.set i a).length := by simpa using bound
    have inside' : i < (l.set i a).length := by simpa using inside
    have eq : l[k] = a := by simpa [bound] using found
    have clash : (l.set i a)[k] = (l.set i a)[i] := by
      simp [eq, Ne.symm ne]
    have same : (⟨k, bound'⟩ : Fin _) = ⟨i, inside'⟩ := injective clash
    exact ne (congrArg Fin.val same)
  · rintro free ⟨j, hj⟩ ⟨k, hk⟩ same
    simp only [List.length_set] at hj hk
    simp only [List.getElem_set] at same
    by_cases ji : i = j <;> by_cases ki : i = k
    · simp [← ji, ← ki]
    · rw [if_pos ji, if_neg ki] at same
      exact absurd (by simp [hk, ← same]) (free k hk (Ne.symm ki))
    · rw [if_neg ji, if_pos ki] at same
      exact absurd (by simp [hj, same]) (free j hj (Ne.symm ji))
    · rw [if_neg ji, if_neg ki] at same
      have equal : (⟨j, hj⟩ : Fin l.length) = ⟨k, hk⟩ := distinct same
      simpa using equal

theorem editList_distinct_iff {l : List AlarmEntry} (distinct : DistinctSlots l) (c : AlarmCommand) :
    DistinctSlots (editList c l) ↔ SlotIsFree l c := by
  unfold DistinctSlots at distinct ⊢
  cases c with
  | add weekday minutes action =>
      simp only [editList, map_slot_addEntry, SlotIsFree, iff_true]
      split_ifs with kept
      · exact distinct
      · rw [not_or] at kept
        exact List.Nodup.append distinct (by simp) (by simpa using kept.1)
  | modify index weekday minutes action =>
      simp only [editList, SlotIsFree]
      by_cases inside : index.toNat < l.length
      · rw [if_pos inside, List.map_set, nodup_set_iff distinct _ (by simpa using inside)]
        simp only [List.length_map, inside, true_implies, AlarmEntry.slot]
      · rw [if_neg inside]
        exact ⟨fun _ k _ inside' => absurd inside' inside, fun _ => distinct⟩
  | delete index =>
      simp only [editList, SlotIsFree, iff_true]
      split_ifs
      · exact distinct.sublist ((List.eraseIdx_sublist l index.toNat).map AlarmEntry.slot)
      · exact distinct
  | clear => simp [editList, SlotIsFree]

/-- In a run from an empty table no two entries ever share a slot exactly when every modify
command of the run finds its new slot free in the table it meets. -/
theorem slots_stay_distinct_iff (s : AlarmState) (empty : ∀ i, (s.alarms i).valid = false)
    (commands : List AlarmCommand) :
    (∀ done, done <+: commands → DistinctSlots (alarmList (runCommands done s).alarms)) ↔
      ∀ done c, done ++ [c] <+: commands → SlotIsFree (alarmList (runCommands done s).alarms) c := by
  have filled : Filled 0 s.alarms := ⟨Nat.zero_le _, fun i => by simp [empty i]⟩
  have edited (done : List AlarmCommand) (c : AlarmCommand) :
      alarmList (runCommands (done ++ [c]) s).alarms =
        editList c (alarmList (runCommands done s).alarms) := by
    rw [runCommands, List.foldl_append]
    exact (run_refines (runCommands_filled ⟨0, filled⟩ done).1 c).2
  constructor
  · intro distinct done c within
    have before := distinct done ((List.prefix_append done [c]).trans within)
    have after := distinct (done ++ [c]) within
    rw [edited] at after
    exact (editList_distinct_iff before c).mp after
  · intro free done
    induction done using List.reverseRecOn with
    | nil =>
        intro _
        have none : alarmList (runCommands [] s).alarms = [] :=
          List.eq_nil_of_length_eq_zero filled.length
        rw [none]
        exact List.nodup_nil
    | append_singleton done c ih =>
        intro within
        rw [edited]
        exact (editList_distinct_iff (ih ((List.prefix_append done [c]).trans within)) c).mpr
          (free done c within)

/-- Two adds and a modify that moves the second entry onto the first one's slot. -/
theorem modify_shares_slot :
    let s := runCommands [.add 1 60 1, .add 1 120 2, .modify 1 1 60 2]
      ⟨fun _ => ⟨false, 0, 0, 0⟩, fun _ => none⟩
    alarmList s.alarms = [⟨1, 60, 1⟩, ⟨1, 60, 2⟩] ∧ ¬ DistinctSlots (alarmList s.alarms) := by
  have table : alarmList (runCommands [.add 1 60 1, .add 1 120 2, .modify 1 1 60 2]
      ⟨fun _ => ⟨false, 0, 0, 0⟩, fun _ => none⟩).alarms = [⟨1, 60, 1⟩, ⟨1, 60, 2⟩] := by
    decide
  refine ⟨table, ?_⟩
  rw [table]
  simp [DistinctSlots, AlarmEntry.slot]

/-- An alarm is added and deleted again; no command of the run moves an entry. -/
theorem slots_stay_distinct_here :
    DistinctSlots (alarmList (runCommands [.add 1 60 1, .add 1 120 2, .delete 0]
      ⟨fun _ => ⟨false, 0, 0, 0⟩, fun _ => none⟩).alarms) := by
  refine (slots_stay_distinct_iff _ (fun _ => rfl) _).mpr (fun done c within => ?_) _ List.prefix_rfl
  have member : c ∈ [AlarmCommand.add 1 60 1, .add 1 120 2, .delete 0] :=
    within.subset (List.mem_append_right done (List.mem_singleton_self c))
  simp only [List.mem_cons, List.not_mem_nil, or_false] at member
  rcases member with rfl | rfl | rfl <;> trivial

end EspFirmware.Proof.App
