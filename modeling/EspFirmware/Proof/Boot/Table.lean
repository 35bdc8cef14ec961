import Mathlib.Data.List.Nodup
import EspFirmware.Proof.Boot.Loader

/-!
The list of the application beside the records of the table: what is found first there, and how many OTA
slots are counted.
-/

namespace EspFirmware.Proof.Boot
open EspFirmware.Boot EspFirmware.Spec EspFirmware.Lib
open EspFirmware.Nvs (Byte Word)

def EndsFrom (chipSize : Word) (table : RawTable) (num left i : Nat) : Prop :=
  i ≤ num ∧ num < i + left ∧ (∀ j, i ≤ j → j < num → PassesOver chipSize (table j)) ∧ IsEndMark (table num)

section
variable {chipSize : Word} {table : RawTable} {num left i : Nat}

theorem endMark_refused {part : EspPartitionInfo} (ends : IsEndMark part) : ¬ PassesOver chipSize part := by
  rintro (⟨magic, -⟩ | magic)
  · exact absurd (ends.1.symm.trans magic) (by decide)
  · exact absurd (ends.1.symm.trans magic) (by decide)

theorem endsFrom_succ (passes : PassesOver chipSize (table i)) :
    EndsFrom chipSize table num left (i + 1) ↔ EndsFrom chipSize table num (left + 1) i := by
  constructor
  · rintro ⟨from_, inside, rest, ends⟩
    refine ⟨by omega, by omega, ?_, ends⟩
    intro j here before
    by_cases first : j = i
    · exact first ▸ passes
    · exact rest j (by omega) before
  · rintro ⟨from_, inside, rest, ends⟩
    have further : i ≠ num := fun same => endMark_refused (same ▸ ends) passes
    exact ⟨by omega, by omega, fun j here before => rest j (by omega) before, ends⟩

theorem endsFrom_refused (refused : ¬ PassesOver chipSize (table i)) :
    EndsFrom chipSize table num (left + 1) i ↔ i = num ∧ IsEndMark (table i) := by
  constructor
  · rintro ⟨from_, inside, rest, ends⟩
    have here : i = num := by
      by_contra further
      exact refused (rest i (Nat.le_refl i) (by omega))
    exact ⟨here, here ▸ ends⟩
  · rintro ⟨rfl, ends⟩
    exact ⟨Nat.le_refl i, by omega, fun j here before => absurd here (by omega), ends⟩

theorem basicVerifyFrom_iff : basicVerifyFrom chipSize table left i = .ok num ↔ EndsFrom chipSize table num left i := by
  induction left generalizing i with
  | zero =>
      refine iff_of_false (fun accepted => by cases accepted) ?_
      rintro ⟨from_, inside, -⟩
      omega
  | succ left ih =>
      unfold basicVerifyFrom
      simp only
      by_cases partition : (table i).magic = ESP_PARTITION_MAGIC
      · rw [if_pos partition]
        have notEnd : ¬ IsEndMark (table i) := fun ends => absurd (partition.symm.trans ends.1) (by decide)
        have notMd5 : (table i).magic ≠ ESP_PARTITION_MAGIC_MD5 := fun md5 => absurd (partition.symm.trans md5) (by decide)
        by_cases outside : (table i).pos.offset > chipSize ∨ (table i).pos.offset + (table i).pos.size > chipSize
        · rw [if_pos outside, endsFrom_refused]
          · exact iff_of_false (fun accepted => by cases accepted) fun both => notEnd both.2
          · rintro (⟨-, offset, size⟩ | md5)
            · exact outside.elim (BitVec.not_lt.mpr offset) (BitVec.not_lt.mpr size)
            · exact notMd5 md5
        · rw [if_neg outside, ih, endsFrom_succ]
          have within := not_or.mp outside
          exact Or.inl ⟨partition, BitVec.not_lt.mp within.1, BitVec.not_lt.mp within.2⟩
      · rw [if_neg partition]
        by_cases md5 : (table i).magic = ESP_PARTITION_MAGIC_MD5
        · rw [if_pos md5, ih, endsFrom_succ (Or.inr md5)]
        · rw [if_neg md5, endsFrom_refused (not_or.mpr ⟨fun both => partition both.1, md5⟩)]
          split
          · rename_i ends
            rw [Except.ok.injEq]
            exact (and_iff_left ends).symm
          · rename_i notEnd
            exact iff_of_false (fun accepted => by cases accepted) fun both => notEnd both.2

end

theorem basicVerifyFrom_ok {chipSize : Word} {table : RawTable} {num : Nat} (left i : Nat)
    (accepted : basicVerifyFrom chipSize table left i = .ok num) :
    i ≤ num ∧ num < i + left ∧ (table num).magic = 0xFFFF := by
  obtain ⟨from_, inside, -, ends⟩ := basicVerifyFrom_iff.mp accepted
  exact ⟨from_, inside, ends.1⟩

/-- A table that is verified has only partitions on the chip exactly under the condition. -/
theorem verified_on_chip_iff (chipSize : Word) (table : RawTable) :
    (∀ num, espPartitionTableBasicVerify chipSize table = .ok num → TableOnChip chipSize table num) ↔
      OnChipWhen chipSize table := by
  constructor
  · intro onChip n inside ends passed i before
    have accepted : espPartitionTableBasicVerify chipSize table = .ok n :=
      basicVerifyFrom_iff.mpr ⟨Nat.zero_le n, by omega, fun j _ less => passed j less, ends⟩
    obtain ⟨magic, exact_⟩ := (onChip n accepted).2 i before
    have bound := chipSize.isLt
    exact ⟨fun md5 => absurd (magic.symm.trans md5) (by decide), by omega⟩
  · intro condition num accepted
    obtain ⟨-, inside, passed, ends⟩ := basicVerifyFrom_iff.mp accepted
    have within : num < ESP_PARTITION_TABLE_MAX_ENTRIES := by omega
    refine ⟨within, ?_⟩
    intro i before
    obtain ⟨notMd5, small⟩ := condition num within ends (fun j less => passed j (Nat.zero_le j) less) i before
    obtain ⟨magic, -, size⟩ := (passed i (Nat.zero_le i) before).resolve_right notMd5
    rw [BitVec.le_def, BitVec.toNat_add, Nat.mod_eq_of_lt small] at size
    exact ⟨magic, size⟩

def overrunRecord : EspPartitionInfo := ⟨ESP_PARTITION_MAGIC, PART_TYPE_APP, 0x10, ⟨0x10000, 0xFFFF0000⟩, .replicate 16 0, 0⟩

theorem overrun_accepted :
    ¬ ∀ (chipSize : Word) (table : RawTable) (num : Nat), espPartitionTableBasicVerify chipSize table = .ok num →
      TableOnChip chipSize table num := by
  intro claim
  have onChip := claim 0x100000 (tableOf [overrunRecord]) 1 rfl
  exact absurd (onChip.2 0 Nat.zero_lt_one).2 (by decide)

theorem loadPartitionsFrom_eq (memory : Nat → Bool) {table : RawTable} {num : Nat}
    (last : (table num).magic ≠ ESP_PARTITION_MAGIC) (left i : Nat) (before : i ≤ num) (inside : num < i + left) :
    loadPartitionsFrom memory table left i =
      ((List.range' i (num - i)).takeWhile fun j => decide ((table j).magic = ESP_PARTITION_MAGIC)).map
        fun j => listItem (memory j) (table j) := by
  induction left generalizing i with
  | zero => omega
  | succ left ih =>
      unfold loadPartitionsFrom
      by_cases here : (table i).magic = ESP_PARTITION_MAGIC
      · have further : i ≠ num := fun same => last (same ▸ here)
        have rounds : num - i = (num - (i + 1)) + 1 := by omega
        rw [if_neg (not_not_intro here), ih (i + 1) (by omega) (by omega), rounds, List.range'_succ]
        simp [here]
      · rw [if_pos here]
        cases rounds : num - i with
        | zero => rfl
        | succ rest => simp [List.range'_succ, here]

def listed (table : RawTable) (num : Nat) : List Nat :=
  (List.range num).takeWhile fun j => decide ((table j).magic = ESP_PARTITION_MAGIC)

theorem loadPartitions_eq (memory : Nat → Bool) {chipSize : Word} {table : RawTable} {num : Nat}
    (accepted : espPartitionTableBasicVerify chipSize table = .ok num) :
    loadPartitions memory table = (listed table num).map fun j => listItem (memory j) (table j) := by
  obtain ⟨-, inside, last⟩ := basicVerifyFrom_ok _ _ accepted
  have ends : (table num).magic ≠ ESP_PARTITION_MAGIC := by
    rw [last]
    decide
  have room : num < 0 + SPI_FLASH_SEC_SIZE / 32 := Nat.lt_of_lt_of_le inside (by decide)
  rw [loadPartitions, loadPartitionsFrom_eq memory ends _ _ (Nat.zero_le num) room, listed, List.range_eq_range',
    Nat.sub_zero]

theorem entries_partitions (table : RawTable) (num : Nat) :
    entries (partitions table num) = (listed table num).map table := by
  rw [entries, partitions, List.takeWhile_map]
  rfl

theorem entries_subset {parts : List EspPartitionInfo} {part : EspPartitionInfo} (member : part ∈ entries parts) :
    part ∈ parts :=
  (List.takeWhile_prefix _).subset member

def posOf (p : EspPartition) : EspPartitionPos := ⟨p.address, p.size⟩

def Matches (type : Byte) (subtype : Nat) (part : EspPartitionInfo) : Prop :=
  part.type = type ∧ part.subtype.toNat = subtype

instance (type : Byte) (subtype : Nat) : DecidablePred (Matches type subtype) := fun _ =>
  inferInstanceAs (Decidable (_ ∧ _))

def Lists (list : List EspPartition) (parts : List EspPartitionInfo) : Prop :=
  ∃ (places : List Nat) (memory : Nat → Bool) (table : RawTable),
    list = places.map (fun j => listItem (memory j) (table j)) ∧ entries parts = places.map table

theorem lists_loaded (memory : Nat → Bool) {chipSize : Word} {table : RawTable} {num : Nat}
    (accepted : espPartitionTableBasicVerify chipSize table = .ok num) :
    Lists (loadPartitions memory table) (partitions table num) :=
  ⟨listed table num, memory, table, loadPartitions_eq memory accepted, entries_partitions table num⟩

section
variable {list : List EspPartition} {parts : List EspPartitionInfo}

theorem Lists.findFirst (lists : Lists list parts) (type : Byte) {subtype : Nat} (specific : subtype ≠ 0xff) :
    (∃ partition part, espPartitionFindFirst list type subtype = some partition ∧ part ∈ entries parts ∧
        Matches type subtype part ∧ posOf partition = part.pos ∧ partition.type = part.type ∧
        partition.subtype = part.subtype) ∨
      espPartitionFindFirst list type subtype = none ∧ ∀ part ∈ entries parts, ¬ Matches type subtype part := by
  obtain ⟨places, memory, table, rfl, same⟩ := lists
  rw [same]
  unfold espPartitionFindFirst
  rw [List.find?_map]
  have alike : ((fun p : EspPartition => decide (p.type = type ∧ (subtype = 0xff ∨ p.subtype.toNat = subtype))) ∘
      fun j => listItem (memory j) (table j)) = fun j => decide (Matches type subtype (table j)) := by
    funext j
    rw [Function.comp_apply, decide_eq_decide]
    simp [listItem, Matches, specific]
  rw [alike]
  cases found : places.find? fun j => decide (Matches type subtype (table j)) with
  | some j =>
      left
      have hit := List.find?_some found
      exact ⟨_, table j, rfl, List.mem_map_of_mem (List.mem_of_find?_eq_some found), of_decide_eq_true hit, rfl, rfl, rfl⟩
  | none =>
      right
      refine ⟨rfl, ?_⟩
      intro part member
      obtain ⟨j, inside, rfl⟩ := List.mem_map.mp member
      have miss := List.find?_eq_none.mp found j inside
      simpa using miss

theorem Lists.findFirst_placed (lists : Lists list parts) {type : Byte} {subtype : Nat} (specific : subtype ≠ 0xff)
    {p : EspPartitionInfo → Prop} {pos : EspPartitionPos} (placed : PlacedAt parts p pos)
    (alike : ∀ part, p part ↔ Matches type subtype part) :
    ∃ partition, espPartitionFindFirst list type subtype = some partition ∧ posOf partition = pos := by
  rcases lists.findFirst type specific with ⟨partition, part, found, member, matching, place, -⟩ | ⟨-, missing⟩
  · exact ⟨partition, found, place.trans (placed.2 part (entries_subset member) ((alike part).mpr matching))⟩
  · obtain ⟨part, member, here⟩ := placed.1
    exact absurd ((alike part).mp here) (missing part member)

end

theorem isOtaData_iff (part : EspPartitionInfo) :
    isOtaData part ↔ Matches ESP_PARTITION_TYPE_DATA ESP_PARTITION_SUBTYPE_DATA_OTA part := by
  have blank : part.subtype = PART_SUBTYPE_DATA_OTA ↔ part.subtype.toNat = 0 := by
    rw [BitVec.toNat_eq]
    rfl
  simp only [isOtaData, Matches, decide_eq_true_eq, blank]
  rfl

theorem bootIndex_app {part : EspPartitionInfo} (app : part.type = PART_TYPE_APP) :
    bootIndex part =
      if part.subtype.toNat = 0 then some (-1 : Int)
      else if part.subtype.toNat = 0x20 then some (-2)
      else if 0x10 ≤ part.subtype.toNat ∧ part.subtype.toNat < 0x20 then some (part.subtype.toNat - 0x10 : Nat)
      else none := by
  have factory : part.subtype = PART_SUBTYPE_FACTORY ↔ part.subtype.toNat = 0 := by
    rw [BitVec.toNat_eq]
    rfl
  have test : part.subtype = PART_SUBTYPE_TEST ↔ part.subtype.toNat = 0x20 := by
    rw [BitVec.toNat_eq]
    rfl
  unfold bootIndex
  rw [if_neg (not_not_intro app)]
  simp only [factory, test]

theorem bootIndex_notApp {part : EspPartitionInfo} (other : part.type ≠ PART_TYPE_APP) : bootIndex part = none := by
  rw [bootIndex, if_pos other]

theorem indexed_iff {index : Int} {subtype : Nat}
    (pair : index = -1 ∧ subtype = 0 ∨ index = -2 ∧ subtype = 0x20 ∨
      0 ≤ index ∧ index < 16 ∧ (subtype : Int) = 0x10 + index) (part : EspPartitionInfo) :
    Indexed index part ↔ Matches ESP_PARTITION_TYPE_APP subtype part := by
  unfold Indexed Matches
  by_cases app : part.type = PART_TYPE_APP
  · have same : part.type = ESP_PARTITION_TYPE_APP := app
    rw [bootIndex_app app]
    simp only [same, true_and]
    split_ifs with factory test slot
    · simp only [Option.some.injEq]
      omega
    · simp only [Option.some.injEq]
      omega
    · simp only [Option.some.injEq]
      omega
    · simp only [false_iff]
      omega
  · have other : part.type ≠ ESP_PARTITION_TYPE_APP := app
    simp only [bootIndex_notApp app, other, false_and, reduceCtorEq]

theorem indexed_factory_iff (part : EspPartitionInfo) :
    Indexed FACTORY_INDEX part ↔ Matches ESP_PARTITION_TYPE_APP ESP_PARTITION_SUBTYPE_APP_FACTORY part :=
  indexed_iff (.inl ⟨rfl, rfl⟩) part

theorem indexed_test_iff (part : EspPartitionInfo) :
    Indexed TEST_APP_INDEX part ↔ Matches ESP_PARTITION_TYPE_APP ESP_PARTITION_SUBTYPE_APP_TEST part :=
  indexed_iff (.inr (.inl ⟨rfl, rfl⟩)) part

theorem indexed_slot_iff {k : Nat} (small : k < 16) (part : EspPartitionInfo) :
    Indexed k part ↔ Matches ESP_PARTITION_TYPE_APP (ESP_PARTITION_SUBTYPE_APP_OTA_MIN + k) part :=
  indexed_iff (.inr (.inr ⟨by omega, by omega, by push_cast; rfl⟩)) part

theorem isOtaApp_iff (part : EspPartitionInfo) : isOtaApp part ↔ ∃ k : Nat, k < 16 ∧ Indexed k part := by
  simp only [isOtaApp, decide_eq_true_eq]
  constructor
  · rintro ⟨app, low, high⟩
    refine ⟨part.subtype.toNat - 0x10, by omega, (indexed_slot_iff (by omega) part).mpr ⟨app, ?_⟩⟩
    simp only [ESP_PARTITION_SUBTYPE_APP_OTA_MIN]
    omega
  · rintro ⟨k, small, here⟩
    obtain ⟨app, slot⟩ := (indexed_slot_iff small part).mp here
    simp only [ESP_PARTITION_SUBTYPE_APP_OTA_MIN] at slot
    exact ⟨app, by omega, by omega⟩

def slotOf (part : EspPartitionInfo) : Nat := part.subtype.toNat - 0x10

theorem indexed_slot {part : EspPartitionInfo} {k : Nat} (here : Indexed k part) :
    k < 16 ∧ isOtaApp part ∧ slotOf part = k := by
  have small : k < 16 := by
    have range := bootIndex_range here
    omega
  refine ⟨small, (isOtaApp_iff part).mpr ⟨k, small, here⟩, ?_⟩
  have slot := ((indexed_slot_iff small part).mp here).2
  simp only [ESP_PARTITION_SUBTYPE_APP_OTA_MIN] at slot
  rw [slotOf]
  omega

section
variable {parts : List EspPartitionInfo} {n : Nat}

theorem numbered_countP (numbered : Numbered parts n) : parts.countP isOtaApp = n := by
  have length := numbered.1.length_eq
  rwa [List.length_map, List.length_range, ← List.countP_eq_length_filter] at length

theorem numbered_mem_iff (numbered : Numbered parts n) {k : Nat} :
    k < n ↔ ∃ part ∈ parts, isOtaApp part ∧ slotOf part = k := by
  rw [← List.mem_range, ← numbered.1.mem_iff, List.mem_map]
  simp only [List.mem_filter, and_assoc]
  rfl

theorem numbered_listed (numbered : Numbered parts n) {k : Nat} (inside : k < n) :
    ∃ part ∈ entries parts, Indexed k part := by
  obtain ⟨part, member, app, rfl⟩ := (numbered_mem_iff numbered).mp inside
  obtain ⟨k, -, here⟩ := (isOtaApp_iff part).mp app
  refine ⟨part, numbered.2 part member app, ?_⟩
  rwa [(indexed_slot here).2.2]

theorem numbered_bounded (numbered : Numbered parts n) {part : EspPartitionInfo} (member : part ∈ parts) {k : Nat}
    (here : Indexed k part) : k < n :=
  (numbered_mem_iff numbered).mpr ⟨part, member, (indexed_slot here).2⟩

theorem numbered_unique (numbered : Numbered parts n) {part other : EspPartitionInfo} (member : part ∈ parts)
    (otherMember : other ∈ parts) {k : Nat} (here : Indexed k part) (there : Indexed k other) : part = other := by
  have nodup := numbered.1.nodup_iff.mpr List.nodup_range
  apply List.inj_on_of_nodup_map nodup
  · exact List.mem_filter.mpr ⟨member, (indexed_slot here).2.1⟩
  · exact List.mem_filter.mpr ⟨otherMember, (indexed_slot there).2.1⟩
  · exact (indexed_slot here).2.2.trans (indexed_slot there).2.2.symm

theorem numbered_placed (numbered : Numbered parts n) {k : Nat} (inside : k < n) :
    k < 16 ∧ ∃ pos, PlacedAt parts (Indexed k) pos := by
  obtain ⟨part, member, here⟩ := numbered_listed numbered inside
  refine ⟨(indexed_slot here).1, part.pos, ⟨part, member, here⟩, ?_⟩
  intro other otherMember there
  rw [numbered_unique numbered (entries_subset member) otherMember here there]

end

section
variable {list : List EspPartition} {parts : List EspPartitionInfo}

def HasSlot (parts : List EspPartitionInfo) (k : Nat) : Prop :=
  ∃ part ∈ entries parts, Matches ESP_PARTITION_TYPE_APP (ESP_PARTITION_SUBTYPE_APP_OTA_MIN + k) part

theorem Lists.findSlot (lists : Lists list parts) {k : Nat} (small : k ≤ 16) :
    (espPartitionFindFirst list ESP_PARTITION_TYPE_APP (ESP_PARTITION_SUBTYPE_APP_OTA_MIN + k)).isSome ↔
      HasSlot parts k := by
  have specific : ESP_PARTITION_SUBTYPE_APP_OTA_MIN + k ≠ 0xff := by
    simp only [ESP_PARTITION_SUBTYPE_APP_OTA_MIN]
    omega
  rcases lists.findFirst ESP_PARTITION_TYPE_APP specific with ⟨partition, part, found, member, matching, -⟩ | ⟨found, missing⟩
  · simp only [found, Option.isSome_some, true_iff]
    exact ⟨part, member, matching⟩
  · simp only [found, Option.isSome_none, Bool.false_eq_true, false_iff]
    rintro ⟨part, member, matching⟩
    exact missing part member matching

theorem Lists.countFrom (lists : Lists list parts) (left : Nat) (most : left ≤ 16)
    (before : ∀ k < 16 - left, HasSlot parts k) :
    (∃ n, n ≤ 16 ∧ (∀ k < n, HasSlot parts k) ∧ ¬ HasSlot parts n ∧ otaPartitionCountFrom list left = some n) ∨
      (∀ k < 17, HasSlot parts k) ∧ otaPartitionCountFrom list left = none := by
  induction left with
  | zero =>
      unfold otaPartitionCountFrom
      by_cases test : HasSlot parts 16
      · right
        rw [if_pos ((lists.findSlot (Nat.le_refl 16)).mpr test)]
        refine ⟨?_, rfl⟩
        intro k inside
        by_cases last : k = 16
        · rw [last]
          exact test
        · exact before k (by omega)
      · left
        rw [if_neg (mt (lists.findSlot (Nat.le_refl 16)).mp test)]
        exact ⟨16, Nat.le_refl 16, before, test, rfl⟩
  | succ left ih =>
      unfold otaPartitionCountFrom
      by_cases here : HasSlot parts (16 - (left + 1))
      · rw [if_pos ((lists.findSlot (by omega)).mpr here)]
        apply ih (by omega)
        intro k inside
        by_cases last : k = 16 - (left + 1)
        · rw [last]
          exact here
        · exact before k (by omega)
      · left
        rw [if_neg (mt (lists.findSlot (by omega)).mp here)]
        exact ⟨16 - (left + 1), by omega, before, here, rfl⟩

theorem Lists.count (lists : Lists list parts) :
    (∃ n, n ≤ 16 ∧ (∀ k < n, HasSlot parts k) ∧ ¬ HasSlot parts n ∧ getOtaPartitionCount list = some n) ∨
      SlotsRunOn parts ∧ getOtaPartitionCount list = none :=
  lists.countFrom 16 (Nat.le_refl 16) fun k inside => absurd inside (by omega)

theorem numbered_hasSlot {n : Nat} (numbered : Numbered parts n) {k : Nat} (small : k < 16) : HasSlot parts k ↔ k < n := by
  constructor
  · rintro ⟨part, member, matching⟩
    exact numbered_bounded numbered (entries_subset member) ((indexed_slot_iff small part).mpr matching)
  · intro inside
    obtain ⟨part, member, here⟩ := numbered_listed numbered inside
    exact ⟨part, member, (indexed_slot_iff small part).mp here⟩

theorem numbered_le {n : Nat} (numbered : Numbered parts n) : n ≤ 16 := by
  by_contra large
  have last := (numbered_placed numbered (show 16 < n by omega)).1
  omega

theorem Lists.count_numbered (lists : Lists list parts) {n : Nat} (numbered : Numbered parts n)
    (bounded : ¬ SlotsRunOn parts) : getOtaPartitionCount list = some n := by
  rcases lists.count with ⟨m, most, slots, ends, counted⟩ | ⟨runOn, -⟩
  · have le := numbered_le numbered
    have same : m = n := by
      by_contra differ
      rcases Nat.lt_or_gt_of_ne differ with less | more
      · exact ends ((numbered_hasSlot numbered (by omega)).mpr less)
      · have extra := (numbered_hasSlot numbered (by omega)).mp (slots n more)
        omega
    rwa [← same]
  · exact absurd runOn bounded

end

end EspFirmware.Proof.Boot
