import EspFirmware.Proof.Boot.Table

/-!
The application and the bootloader on the same table and the same OTA data.
-/

namespace EspFirmware.Proof.Boot
open EspFirmware.Boot EspFirmware.Spec EspFirmware.Lib
open EspFirmware.Nvs (Byte Word)

section
variable {list : List EspPartition} {parts : List EspPartitionInfo} {flash : Flash} (unmapped : Memory)

theorem lastPos_append (p : EspPartitionInfo → Bool) (parts : List EspPartitionInfo) (part : EspPartitionInfo) :
    lastPos p (parts ++ [part]) = if p part then part.pos else lastPos p parts := by
  simp [lastPos]

theorem lastPos_placed {p : EspPartitionInfo → Bool} {pos : EspPartitionPos} (parts : List EspPartitionInfo)
    (present : ∃ part ∈ parts, p part) (placed : ∀ part ∈ parts, p part → part.pos = pos) : lastPos p parts = pos := by
  induction parts using List.reverseRecOn with
  | nil =>
      obtain ⟨part, member, -⟩ := present
      cases member
  | append_singleton parts last ih =>
      rw [lastPos_append]
      by_cases here : p last
      · rw [if_pos here]
        exact placed last (by simp) here
      · rw [if_neg here]
        apply ih
        · obtain ⟨part, member, holds⟩ := present
          rcases List.mem_append.mp member with member | member
          · exact ⟨part, member, holds⟩
          · rw [List.mem_singleton.mp member] at holds
            exact absurd holds here
        · intro part member holds
          exact placed part (List.mem_append_left _ member) holds

theorem placed_otaInfo {info : EspPartitionPos} (placed : PlacedAt parts (fun part => isOtaData part) info) :
    (loaded parts).otaInfo = info := by
  rw [loaded_otaInfo]
  obtain ⟨part, member, here⟩ := placed.1
  exact lastPos_placed parts ⟨part, entries_subset member, here⟩ placed.2

theorem placed_placeOf {index : Int} {pos : EspPartitionPos} (least : -2 ≤ index)
    (placed : PlacedAt parts (Indexed index) pos) : placeOf (loaded parts) index = pos := by
  rcases placeOf_loaded parts least with ⟨part, kept, here, place⟩ | ⟨missing, -⟩
  · rw [place]
    exact placed.2 part (Kept.mem kept) here
  · obtain ⟨part, member, here⟩ := placed.1
    exact absurd here (missing part (entries_subset member))

theorem missing_placeOf {index : Int} (least : -2 ≤ index) (missing : ∀ part ∈ parts, ¬ Indexed index part) :
    placeOf (loaded parts) index = ⟨0, 0⟩ := by
  rcases placeOf_loaded parts least with ⟨part, kept, here, -⟩ | ⟨-, place⟩
  · exact absurd here (missing part (Kept.mem kept))
  · exact place

theorem indexToPartition_factory : indexToPartition (loaded parts) FACTORY_INDEX = placeOf (loaded parts) FACTORY_INDEX :=
  rfl

theorem placed_slot {k : Nat} {pos : EspPartitionPos} (placed : PlacedAt parts (Indexed k) pos)
    (counted : k < parts.countP isOtaApp) : indexToPartition (loaded parts) k = pos := by
  obtain ⟨part, -, here⟩ := placed.1
  have small := (indexed_slot here).1
  rw [indexToPartition_eq (by omega) (by omega) (by rw [loaded_appCount]; omega)]
  exact placed_placeOf (by omega) placed

theorem getBoot_eq {otaData : EspPartition} {count : Nat}
    (found : espPartitionFindFirst list ESP_PARTITION_TYPE_DATA ESP_PARTITION_SUBTYPE_DATA_OTA = some otaData)
    (counted : getOtaPartitionCount list = some count) :
    espOtaGetBootPartition list flash =
      match topSeq (readSelects flash otaData.address) with
      | some seq => partitionOfSeq list count seq
      | none => some (findDefaultBootPartition list) := by
  unfold espOtaGetBootPartition
  rw [found, counted]
  simp only
  generalize readSelects flash otaData.address = selects
  cases selects with
  | mk s0 s1 =>
      by_cases unnumbered : Unnumbered (s0, s1)
      · have blank : s0.otaSeq = UINT32_MAX ∧ s1.otaSeq = UINT32_MAX := unnumbered
        simp only [topSeq_unnumbered unnumbered, blank, and_self, if_true]
      · have numbered : ¬ (s0.otaSeq = UINT32_MAX ∧ s1.otaSeq = UINT32_MAX) := unnumbered
        by_cases first : s0.Valid <;> by_cases second : s1.Valid <;>
          simp only [topSeq, numbered, first, second, and_self, and_true, and_false, if_true, if_false]

inductive Fallback (list : List EspPartition) (parts : List EspPartitionInfo) : Prop where
  | factory (partition : EspPartition) (part : EspPartitionInfo) (member : part ∈ entries parts)
      (index : Indexed FACTORY_INDEX part) (place : posOf partition = part.pos)
      (result : findDefaultBootPartition list = some partition)
  | slot (missing : ∀ part ∈ entries parts, ¬ Indexed FACTORY_INDEX part) (k : Nat) (partition : EspPartition)
      (part : EspPartitionInfo) (member : part ∈ entries parts) (index : Indexed k part)
      (lowest : ∀ j < k, ∀ part ∈ entries parts, ¬ Indexed j part) (place : posOf partition = part.pos)
      (result : findDefaultBootPartition list = some partition)
  | test (missing : ∀ part ∈ entries parts, ¬ Indexed FACTORY_INDEX part)
      (noSlot : ∀ k : Nat, ∀ part ∈ entries parts, ¬ Indexed k part) (partition : EspPartition)
      (part : EspPartitionInfo) (member : part ∈ entries parts) (index : Indexed TEST_APP_INDEX part)
      (place : posOf partition = part.pos) (result : findDefaultBootPartition list = some partition)
  | nothing (noApp : NoApp parts) (result : findDefaultBootPartition list = none)

theorem slot_specific {k : Nat} (small : k < 16) : ESP_PARTITION_SUBTYPE_APP_OTA_MIN + k ≠ 0xff := by
  simp only [ESP_PARTITION_SUBTYPE_APP_OTA_MIN]
  omega

theorem Lists.fallback (lists : Lists list parts) : Fallback list parts := by
  rcases lists.findFirst ESP_PARTITION_TYPE_APP (show ESP_PARTITION_SUBTYPE_APP_FACTORY ≠ 0xff by decide) with
    ⟨partition, part, found, member, matching, place, -⟩ | ⟨factory, noFactory⟩
  · refine .factory partition part member ((indexed_factory_iff part).mpr matching) place ?_
    rw [findDefaultBootPartition, found]
    rfl
  · have missing : ∀ part ∈ entries parts, ¬ Indexed FACTORY_INDEX part := fun part member here =>
      noFactory part member ((indexed_factory_iff part).mp here)
    have start : findDefaultBootPartition list =
        ((List.range' ESP_PARTITION_SUBTYPE_APP_OTA_MIN 16).findSome? (espPartitionFindFirst list ESP_PARTITION_TYPE_APP) <|>
          espPartitionFindFirst list ESP_PARTITION_TYPE_APP ESP_PARTITION_SUBTYPE_APP_TEST) := by
      rw [findDefaultBootPartition, factory]
      rfl
    cases slots : (List.range' ESP_PARTITION_SUBTYPE_APP_OTA_MIN 16).findSome?
        (espPartitionFindFirst list ESP_PARTITION_TYPE_APP) with
    | some partition =>
        obtain ⟨before, subtype, after, split, found, misses⟩ := List.findSome?_eq_some_iff.mp slots
        obtain ⟨k, -, rfl, rest⟩ := List.range'_eq_append_iff.mp split
        have small : k < 16 := by
          by_contra large
          rw [show 16 - k = 0 by omega] at rest
          cases rest
        rw [show 16 - k = (16 - k - 1) + 1 by omega, List.range'_succ, Nat.mul_one] at rest
        cases rest
        rcases lists.findFirst ESP_PARTITION_TYPE_APP (slot_specific small) with
          ⟨partition', part, found', member, matching, place, -⟩ | ⟨none, -⟩
        · rw [found] at found'
          cases found'
          refine .slot missing k partition part member ((indexed_slot_iff small part).mpr matching) ?_ place ?_
          · intro j below other otherMember here
            have nothing := misses (ESP_PARTITION_SUBTYPE_APP_OTA_MIN + j) (List.mem_range'_1.mpr ⟨by omega, by omega⟩)
            have found := (lists.findSlot (by omega)).mpr ⟨other, otherMember, (indexed_slot_iff (by omega) other).mp here⟩
            rw [nothing] at found
            cases found
          · rw [start, slots]
            rfl
        · rw [found] at none
          cases none
    | none =>
        have noSlot : ∀ k : Nat, ∀ part ∈ entries parts, ¬ Indexed k part := by
          intro k part member here
          have small := (indexed_slot here).1
          have nothing := List.findSome?_eq_none_iff.mp slots (ESP_PARTITION_SUBTYPE_APP_OTA_MIN + k)
            (List.mem_range'_1.mpr ⟨by omega, by omega⟩)
          have found := (lists.findSlot (by omega)).mpr ⟨part, member, (indexed_slot_iff small part).mp here⟩
          rw [nothing] at found
          cases found
        rw [slots] at start
        rcases lists.findFirst ESP_PARTITION_TYPE_APP (show ESP_PARTITION_SUBTYPE_APP_TEST ≠ 0xff by decide) with
          ⟨partition, part, found, member, matching, place, -⟩ | ⟨test, noTest⟩
        · refine .test missing noSlot partition part member ((indexed_test_iff part).mpr matching) place ?_
          rw [start, found]
          rfl
        · refine .nothing ?_ (by rw [start, test]; rfl)
          intro part member
          cases here : bootIndex part with
          | none => rfl
          | some index =>
              have range := bootIndex_range here
              rcases (show index = -1 ∨ index = -2 ∨ index = (index.toNat : Int) by omega) with rfl | rfl | slot
              · exact absurd here (missing part member)
              · exact absurd ((indexed_test_iff part).mp here) (noTest part member)
              · rw [slot] at here
                exact absurd here (noSlot _ part member)

theorem agrees_default (lists : Lists list parts) {info : EspPartitionPos}
    (placed : PlacedAt parts (fun part => isOtaData part) info) (used : info.offset ≠ 0)
    (enough : 2 * 0x1000 ≤ info.size) (mapped : OtaDataMapped info.offset)
    (invalid : ¬ OtaDataValid (readSelects flash info.offset))
    (agrees : DefaultAgrees parts (readSelects flash info.offset)) {partition : EspPartition}
    (result : findDefaultBootPartition list = some partition) :
    ∃ index, bootloaderUtilityGetSelectedBootPartition unmapped (loaded parts) flash = some index ∧
      indexToPartition (loaded parts) index = posOf partition := by
  have here := placed_otaInfo placed
  rw [selected_mapped unmapped flash (by rwa [here]) (by rwa [here]) (by rwa [here]), here, topSeq_eq_none.mpr invalid]
  rcases agrees with noApp | ⟨pos, factory, offset⟩ | ⟨unnumbered, noFactory, pos, slot⟩
  · cases lists.fallback with
    | factory _ part member index _ _ | slot _ _ _ part member index _ _ _ | test _ _ _ part member index _ _ =>
        rw [Indexed, noApp part member] at index
        cases index
    | nothing _ none =>
        rw [result] at none
        cases none
  · have kept := placed_placeOf (by decide) factory
    have chosen : ¬ (Unnumbered (readSelects flash info.offset) ∧ (loaded parts).factory.offset = 0) := by
      rintro ⟨unnumbered, zero⟩
      apply offset unnumbered
      rw [← kept]
      exact zero
    refine ⟨FACTORY_INDEX, if_neg chosen, ?_⟩
    rw [indexToPartition_factory, kept]
    cases lists.fallback with
    | factory other part member index place found =>
        rw [result] at found
        cases found
        rw [place]
        exact (factory.2 part (entries_subset member) index).symm
    | slot missing | test missing =>
        obtain ⟨part, member, index⟩ := factory.1
        exact absurd index (missing part member)
    | nothing _ none =>
        rw [result] at none
        cases none
  · have zero : (loaded parts).factory.offset = 0 := by
      have nothing := missing_placeOf (show -2 ≤ FACTORY_INDEX by decide) noFactory
      exact congrArg EspPartitionPos.offset nothing
    refine ⟨0, if_pos ⟨unnumbered, zero⟩, ?_⟩
    obtain ⟨first, firstMember, firstIndex⟩ := slot.1
    have counted : 0 < parts.countP isOtaApp :=
      Nat.pos_of_ne_zero (countP_otaApp_pos.mpr ⟨first, entries_subset firstMember, (indexed_slot firstIndex).2.1⟩)
    rw [show (0 : Int) = ((0 : Nat) : Int) from rfl, placed_slot slot counted]
    cases lists.fallback with
    | factory _ part member index _ _ => exact absurd index (noFactory part (entries_subset member))
    | slot _ k other part member index lowest place found =>
        rw [result] at found
        cases found
        have least : k = 0 := by
          by_contra positive
          exact lowest 0 (by omega) first firstMember firstIndex
        subst least
        rw [place]
        exact (slot.2 part (entries_subset member) index).symm
    | test _ noSlot => exact absurd firstIndex (noSlot 0 first firstMember)
    | nothing _ none =>
        rw [result] at none
        cases none

theorem agrees_valid (lists : Lists list parts) {info : EspPartitionPos}
    (placed : PlacedAt parts (fun part => isOtaData part) info) (used : info.offset ≠ 0)
    (enough : 2 * 0x1000 ≤ info.size) (mapped : OtaDataMapped info.offset) {seq : Word}
    (top : topSeq (readSelects flash info.offset) = some seq)
    {n : Nat} (positive : n ≠ 0) (numbered : Numbered parts n) :
    ∃ partition index, partitionOfSeq list n seq = some (some partition) ∧
      bootloaderUtilityGetSelectedBootPartition unmapped (loaded parts) flash = some index ∧
      indexToPartition (loaded parts) index = posOf partition := by
  have inside : (seq - 1).toNat % n < n := Nat.mod_lt _ (Nat.pos_of_ne_zero positive)
  obtain ⟨small, pos, slot⟩ := numbered_placed numbered inside
  obtain ⟨partition, found, place⟩ := lists.findFirst_placed (slot_specific small) slot (indexed_slot_iff small)
  have here := placed_otaInfo placed
  refine ⟨partition, ((seq - 1).toNat % n : Nat), ?_, ?_, ?_⟩
  · rw [partitionOfSeq, if_neg positive, found]
  · rw [selected_mapped unmapped flash (by rwa [here]) (by rwa [here]) (by rwa [here]), here, top]
    simp only [otaSlot, loaded_appCount, numbered_countP numbered, if_neg positive]
  · rw [place]
    exact placed_slot slot (by rwa [numbered_countP numbered])

theorem agrees_of_condition (lists : Lists list parts) (condition : AgreesWhen parts flash) :
    BootAgrees unmapped list (loaded parts) flash := by
  obtain ⟨info, placed, used, enough, mapped, bounded, valid, invalid⟩ := condition
  obtain ⟨otaData, found, place⟩ := lists.findFirst_placed (by decide) placed isOtaData_iff
  have address : otaData.address = info.offset := congrArg EspPartitionPos.offset place
  cases top : topSeq (readSelects flash info.offset) with
  | some seq =>
      have isValid : OtaDataValid (readSelects flash info.offset) := by
        by_contra none
        rw [topSeq_eq_none.mpr none] at top
        cases top
      obtain ⟨n, positive, numbered⟩ := valid isValid
      obtain ⟨partition, index, result, selected, agree⟩ := agrees_valid unmapped lists placed used enough mapped top positive numbered
      refine ⟨some partition, ?_, ?_⟩
      · rw [getBoot_eq found (lists.count_numbered numbered bounded), address, top]
        exact result
      · intro other same
        cases same
        exact ⟨index, selected, agree⟩
  | none =>
      have notValid := topSeq_eq_none.mp top
      rcases lists.count with ⟨n, -, -, -, counted⟩ | ⟨runOn, -⟩
      · refine ⟨findDefaultBootPartition list, ?_, ?_⟩
        · rw [getBoot_eq found counted, address, top]
        · intro partition result
          exact agrees_default unmapped lists placed used enough mapped notValid (invalid notValid) result
      · exact absurd runOn bounded

theorem BootAgrees.bounded (lists : Lists list parts) {info : EspPartitionPos}
    (placed : PlacedAt parts (fun part => isOtaData part) info) {bs : BootloaderState}
    (agrees : BootAgrees unmapped list bs flash) : ¬ SlotsRunOn parts := by
  intro runOn
  obtain ⟨otaData, found, -⟩ := lists.findFirst_placed (by decide) placed isOtaData_iff
  obtain ⟨result, returns, -⟩ := agrees
  rcases lists.count with ⟨n, most, -, missing, -⟩ | ⟨-, none⟩
  · exact missing (runOn n (by omega))
  · unfold espOtaGetBootPartition at returns
    rw [found, none] at returns
    cases returns

theorem plain_default (lists : Lists list parts) (plain : PlainTable parts) {info : EspPartitionPos}
    (placed : PlacedAt parts (fun part => isOtaData part) info) (used : info.offset ≠ 0)
    (enough : 2 * 0x1000 ≤ info.size) (mapped : OtaDataMapped info.offset)
    (invalid : ¬ OtaDataValid (readSelects flash info.offset))
    (agrees : ∀ partition, findDefaultBootPartition list = some partition →
      ∃ index, bootloaderUtilityGetSelectedBootPartition unmapped (loaded parts) flash = some index ∧
        indexToPartition (loaded parts) index = posOf partition) :
    DefaultAgrees parts (readSelects flash info.offset) := by
  obtain ⟨n, numbered⟩ := plain.numbered
  rcases plain.factory with noFactory | ⟨pos, factory⟩
  · have nothing := missing_placeOf (show -2 ≤ FACTORY_INDEX by decide) noFactory
    have zero : (loaded parts).factory.offset = 0 := congrArg EspPartitionPos.offset nothing
    have here := placed_otaInfo placed
    have selected := @selected_mapped (loaded parts) unmapped flash (by rwa [here]) (by rwa [here]) (by rwa [here])
    rw [here, topSeq_eq_none.mpr invalid] at selected
    simp only [zero, and_true] at selected
    -- An app at offset zero is what a place without a partition looks like.
    have offset (part : EspPartitionInfo) (member : part ∈ entries parts) {index : Int} (here : Indexed index part)
        {partition : EspPartition} (place : posOf partition = part.pos) (same : (⟨0, 0⟩ : EspPartitionPos) = posOf partition) :
        False := by
      apply plain.offsets part (entries_subset member) (by rw [show bootIndex part = some index from here]; rfl)
      rw [← place, ← same]
    cases lists.fallback with
    | factory _ part member index _ _ => exact absurd index (noFactory part (entries_subset member))
    | slot _ k partition part member index lowest place result =>
        by_cases unnumbered : Unnumbered (readSelects flash info.offset)
        · right
          right
          have inside := numbered_bounded numbered (entries_subset member) index
          obtain ⟨-, pos, first⟩ := numbered_placed numbered (show 0 < n by omega)
          exact ⟨unnumbered, noFactory, pos, first⟩
        · obtain ⟨chosen, selects, same⟩ := agrees partition result
          rw [selected, if_neg unnumbered] at selects
          cases selects
          rw [indexToPartition_factory, nothing] at same
          exact (offset part member index place same).elim
    | test _ noSlot partition part member index place result =>
        obtain ⟨chosen, selects, same⟩ := agrees partition result
        have none : n = 0 := by
          by_contra positive
          obtain ⟨other, otherMember, otherIndex⟩ := numbered_listed numbered (show 0 < n by omega)
          exact noSlot 0 other otherMember otherIndex
        rw [selected] at selects
        by_cases unnumbered : Unnumbered (readSelects flash info.offset)
        · rw [if_pos unnumbered] at selects
          cases selects
          have empty : indexToPartition (loaded parts) 0 = ⟨0, 0⟩ := by
            unfold indexToPartition
            rw [if_neg (by decide), if_neg (by decide), if_neg]
            rintro ⟨-, -, counted⟩
            rw [loaded_appCount, numbered_countP numbered, none] at counted
            omega
          rw [empty] at same
          exact (offset part member index place same).elim
        · rw [if_neg unnumbered] at selects
          cases selects
          rw [indexToPartition_factory, nothing] at same
          exact (offset part member index place same).elim
    | nothing noApp _ => exact .inl noApp
  · obtain ⟨part, member, index⟩ := factory.1
    refine .inr (.inl ⟨pos, factory, fun _ => ?_⟩)
    rw [← factory.2 part (entries_subset member) index]
    exact plain.offsets part (entries_subset member) (by rw [show bootIndex part = some _ from index]; rfl)

theorem condition_of_agrees (lists : Lists list parts) (plain : PlainTable parts)
    (agrees : BootAgrees unmapped list (loaded parts) flash) : AgreesWhen parts flash := by
  obtain ⟨info, placed, used, enough, mapped⟩ := plain.otaData
  obtain ⟨n, numbered⟩ := plain.numbered
  have bounded := BootAgrees.bounded unmapped lists placed agrees
  have counted := lists.count_numbered numbered bounded
  obtain ⟨otaData, found, place⟩ := lists.findFirst_placed (by decide) placed isOtaData_iff
  have address : otaData.address = info.offset := congrArg EspPartitionPos.offset place
  obtain ⟨result, returns, same⟩ := agrees
  rw [getBoot_eq found counted, address] at returns
  refine ⟨info, placed, used, enough, mapped, bounded, ?_, ?_⟩
  · intro valid
    refine ⟨n, ?_, numbered⟩
    intro none
    cases top : topSeq (readSelects flash info.offset) with
    | some seq =>
        rw [top, none] at returns
        cases returns
    | none => exact topSeq_eq_none.mp top valid
  · intro invalid
    rw [topSeq_eq_none.mpr invalid] at returns
    cases returns
    exact plain_default unmapped lists plain placed used enough mapped invalid same

end

/-- The application and the bootloader agree on the boot partition when the OTA data partition is in one
place that the bootloader maps, the subtypes do not run on into the test app, the slots are numbered through
where a record is valid, and the defaults agree where none is. For a plain table they agree only then. -/
theorem boot_agrees (memory : Nat → Bool) (chipSize : Word) (table : RawTable) (num : Nat) (bs : BootloaderState)
    (unmapped : Memory) (flash : Flash) (accepted : espPartitionTableBasicVerify chipSize table = .ok num)
    (state : bootloaderUtilityLoadPartitionTable chipSize table = .ok bs) :
    (AgreesWhen (partitions table num) flash → BootAgrees unmapped (loadPartitions memory table) bs flash) ∧
      (PlainTable (partitions table num) →
        BootAgrees unmapped (loadPartitions memory table) bs flash → AgreesWhen (partitions table num) flash) := by
  have lists := lists_loaded memory accepted
  rw [verified_loaded accepted] at state
  cases state
  exact ⟨agrees_of_condition unmapped lists, condition_of_agrees unmapped lists⟩

def otaDataRecord : EspPartitionInfo :=
  ⟨ESP_PARTITION_MAGIC, PART_TYPE_DATA, PART_SUBTYPE_DATA_OTA, ⟨0x9000, 0x2000⟩, .replicate 16 0, 0⟩

def recordFlash (seq : Word) : Flash :=
  Memory.store32 (Memory.store32 (fun _ => 0xFF) 0x9000 seq) 0x901C (OtaSelect.selectCrc ⟨seq, [], 0⟩)

def gapRecords : List EspPartitionInfo := [otaDataRecord, appRecord 0x10 0x10000, appRecord 0x12 0x20000]

theorem gap_in_slots_disagrees :
    ¬ ∀ (memory : Nat → Bool) (chipSize : Word) (table : RawTable) (num : Nat) (bs : BootloaderState) (unmapped : Memory)
      (flash : Flash),
      espPartitionTableBasicVerify chipSize table = .ok num → bootloaderUtilityLoadPartitionTable chipSize table = .ok bs →
      (∃ part ∈ entries (partitions table num), isOtaData part ∧ 2 * 0x1000 ≤ part.pos.size) →
      BootAgrees unmapped (loadPartitions memory table) bs flash := by
  intro claim
  obtain ⟨result, returns, same⟩ := claim (fun _ => false) 0x100000 (tableOf gapRecords) 3 (loaded gapRecords)
    (fun _ => 0) (recordFlash 2) rfl rfl ⟨otaDataRecord, by decide, by decide, by decide⟩
  have app : espOtaGetBootPartition (loadPartitions (fun _ => false) (tableOf gapRecords)) (recordFlash 2) =
      some (some ⟨0, 0x10, 0x10000, 0x10000, [], false⟩) := by decide +kernel
  have boot : bootloaderUtilityGetSelectedBootPartition (fun _ => 0) (loaded gapRecords) (recordFlash 2) = some 1 := by
    decide +kernel
  rw [app] at returns
  cases returns
  obtain ⟨index, selected, place⟩ := same _ rfl
  rw [boot] at selected
  cases selected
  exact absurd place (by decide)

def factoryRecords : List EspPartitionInfo := [otaDataRecord, appRecord 0x00 0x10000, appRecord 0x10 0x20000]

theorem erased_factory_agrees :
    AgreesWhen (partitions (tableOf factoryRecords) 3) (fun _ => 0xFF) ∧
      BootAgrees (fun _ => 0) (loadPartitions (fun _ => false) (tableOf factoryRecords)) (loaded factoryRecords)
        (fun _ => 0xFF) := by
  have condition : AgreesWhen (partitions (tableOf factoryRecords) 3) (fun _ => 0xFF) := by
    refine ⟨⟨0x9000, 0x2000⟩, ⟨⟨otaDataRecord, by decide, by decide⟩, by decide⟩, by decide, by decide, by decide,
      ?_, ?_, ?_⟩
    · intro runOn
      obtain ⟨part, member, -, second⟩ := runOn 1 (by decide)
      revert part
      decide
    · intro valid
      exact absurd valid (by rw [OtaDataValid]; decide)
    · intro _
      refine .inr (.inl ⟨⟨0x10000, 0x10000⟩, ⟨⟨appRecord 0x00 0x10000, by decide, rfl⟩, ?_⟩, fun _ => by decide⟩)
      unfold Indexed
      decide
  exact ⟨condition, (boot_agrees (fun _ => false) 0x100000 (tableOf factoryRecords) 3 (loaded factoryRecords) (fun _ => 0)
    (fun _ => 0xFF) rfl rfl).1 condition⟩

end EspFirmware.Proof.Boot
