import Mathlib.Data.List.Induction
import EspFirmware.Proof.Boot.OtaFlash
import EspFirmware.Spec.Boot

/-!
The records of the OTA data as the bootloader reads them: those in flash when they lie in a megabyte that it maps,
and nothing of the flash when they lie behind both.
-/

namespace EspFirmware.Proof.Boot
open EspFirmware.Boot EspFirmware.Spec EspFirmware.Lib
open EspFirmware.Nvs (Byte Word)

section
variable {unmapped : Memory} {flash flash' : Flash} {address : Word}

theorem cacheReadEnable_window {map a : Nat} (inside : a < 0x100000) :
    cacheReadEnable unmapped flash map (0x40200000 + a) = flash (map * 0x100000 + a) := by
  unfold cacheReadEnable
  rw [if_pos (by omega), Nat.add_sub_cancel_left]

theorem cacheReadEnable_outside {map a : Nat} (outside : a < 0x40200000 ∨ 0x40300000 ≤ a) :
    cacheReadEnable unmapped flash map a = unmapped a := by
  unfold cacheReadEnable
  rw [if_neg (by omega)]

theorem mmap_null (unmapped : Memory) (flash : Flash) (address : Word) :
    (bootloaderMmap unmapped flash address).2 = 0 ↔ address = NULL_MAPPED := by
  unfold bootloaderMmap
  by_cases low : address < 0x100000
  · rw [if_pos low]
    simp only
    bv_omega
  · rw [if_neg low]
    simp only
    bv_omega

theorem read_window {map a : Nat} (inside : a + 32 ≤ 0x100000) :
    OtaSelect.read (cacheReadEnable unmapped flash map) (0x40200000 + a) = OtaSelect.read flash (map * 0x100000 + a) := by
  apply read_shifted
  intro i small
  rw [Nat.add_assoc, Nat.add_assoc]
  exact cacheReadEnable_window (by omega)

theorem mappedSelects_eq (unmapped : Memory) (flash : Flash) (mapped : OtaDataMapped address) :
    mappedSelects unmapped flash address = readSelects flash address := by
  have second : (address + 0x1000).toNat = address.toNat + 0x1000 := by
    unfold OtaDataMapped at mapped
    bv_omega
  unfold mappedSelects bootloaderMmap readSelects
  by_cases low : address < 0x100000
  · have inside : address.toNat + 0x1020 ≤ 0x100000 := by
      unfold OtaDataMapped at mapped
      bv_omega
    have first : (0x40200000 + address).toNat = 0x40200000 + address.toNat := by bv_omega
    have next : (0x40200000 + address + 0x1000).toNat = 0x40200000 + (address.toNat + 0x1000) := by bv_omega
    rw [if_pos low]
    simp only
    rw [first, next, second, read_window (by omega), read_window (by omega), Nat.zero_mul, Nat.zero_add, Nat.zero_add]
  · have inside : 0x100000 ≤ address.toNat ∧ address.toNat + 0x1020 ≤ 0x200000 := by
      unfold OtaDataMapped at mapped
      bv_omega
    have first : (0x40200000 + (address - 0x100000)).toNat = 0x40200000 + (address.toNat - 0x100000) := by bv_omega
    have next : (0x40200000 + (address - 0x100000) + 0x1000).toNat =
        0x40200000 + (address.toNat - 0x100000 + 0x1000) := by
      bv_omega
    rw [if_neg low]
    simp only
    rw [first, next, second, read_window (by omega), read_window (by omega),
      show 1 * 0x100000 + (address.toNat - 0x100000) = address.toNat by omega,
      show 1 * 0x100000 + (address.toNat - 0x100000 + 0x1000) = address.toNat + 0x1000 by omega]

theorem mapped_not_null (mapped : OtaDataMapped address) : address ≠ NULL_MAPPED := by
  rintro rfl
  revert mapped
  decide

theorem mappedSelects_hidden (unmapped : Memory) (flash flash' : Flash) (hidden : 0x200000 ≤ address.toNat) :
    mappedSelects unmapped flash' address = mappedSelects unmapped flash address := by
  have high : ¬ address < 0x100000 := by bv_omega
  have apart {a : Nat} (outside : a + 32 ≤ 0x40200000 ∨ 0x40300000 ≤ a) :
      OtaSelect.read (cacheReadEnable unmapped flash' 1) a = OtaSelect.read (cacheReadEnable unmapped flash 1) a := by
    apply read_congr
    intro x from_ below
    rw [cacheReadEnable_outside (by omega), cacheReadEnable_outside (by omega)]
  unfold mappedSelects bootloaderMmap readSelects
  rw [if_neg high, if_neg high]
  simp only
  rw [apart, apart]
  · bv_omega
  · bv_omega

end

end EspFirmware.Proof.Boot

/-!
The bootloader's search: it finds an image exactly when one is kept in a place it looks at.
-/

namespace EspFirmware.Proof.Boot
open EspFirmware.Boot EspFirmware.Spec EspFirmware.Lib
open EspFirmware.Nvs (Byte Word)

theorem otaFlag_iff (subtype : Byte) :
    subtype &&& ~~~ PART_SUBTYPE_OTA_MASK = PART_SUBTYPE_OTA_FLAG ↔ 0x10 ≤ subtype.toNat ∧ subtype.toNat < 0x20 := by
  revert subtype
  decide

theorem otaMask_toNat (subtype : Byte) (low : 0x10 ≤ subtype.toNat) (high : subtype.toNat < 0x20) :
    (subtype &&& PART_SUBTYPE_OTA_MASK).toNat = subtype.toNat - 0x10 := by
  revert subtype
  decide

inductive Loads (bs : BootloaderState) (part : EspPartitionInfo) : BootloaderState → Prop where
  | factory (index : bootIndex part = some FACTORY_INDEX) (app : isOtaApp part = false) (data : isOtaData part = false) :
      Loads bs part { bs with factory := part.pos }
  | test (index : bootIndex part = some TEST_APP_INDEX) (app : isOtaApp part = false) (data : isOtaData part = false) :
      Loads bs part { bs with test := part.pos }
  | ota (k : Nat) (small : k < 16) (index : bootIndex part = some (k : Int)) (app : isOtaApp part = true)
      (data : isOtaData part = false) :
      Loads bs part { bs with ota := Function.update bs.ota k part.pos, appCount := bs.appCount + 1 }
  | otaData (index : bootIndex part = none) (app : isOtaApp part = false) (data : isOtaData part = true) :
      Loads bs part { bs with otaInfo := part.pos }
  | other (index : bootIndex part = none) (app : isOtaApp part = false) (data : isOtaData part = false) :
      Loads bs part bs

theorem loads (bs : BootloaderState) (part : EspPartitionInfo) : Loads bs part (bs.load part) := by
  unfold BootloaderState.load
  by_cases app : part.type = PART_TYPE_APP
  · have notData : isOtaData part = false := by simp [isOtaData, app, PART_TYPE_APP, PART_TYPE_DATA]
    rw [if_pos app]
    by_cases factory : part.subtype = PART_SUBTYPE_FACTORY
    · rw [if_pos factory]
      exact .factory (by simp [bootIndex, app, factory])
        (by simp [isOtaApp, factory, PART_SUBTYPE_FACTORY]) notData
    · rw [if_neg factory]
      by_cases test : part.subtype = PART_SUBTYPE_TEST
      · rw [if_pos test]
        exact .test (by simp [bootIndex, app, test, PART_SUBTYPE_TEST, PART_SUBTYPE_FACTORY])
          (by simp [isOtaApp, test, PART_SUBTYPE_TEST]) notData
      · rw [if_neg test]
        by_cases slot : 0x10 ≤ part.subtype.toNat ∧ part.subtype.toNat < 0x20
        · rw [if_pos ((otaFlag_iff part.subtype).mpr slot), otaMask_toNat part.subtype slot.1 slot.2]
          exact .ota _ (by omega) (by simp [bootIndex, app, factory, test, slot]) (by simp [isOtaApp, app, slot]) notData
        · rw [if_neg (mt (otaFlag_iff part.subtype).mp slot)]
          refine .other ?_ ?_ notData
          · unfold bootIndex
            rw [if_neg (not_not_intro app), if_neg factory, if_neg test, if_neg slot]
          · simp only [isOtaApp, slot, and_false, decide_false]
  · have noIndex : bootIndex part = none := by simp [bootIndex, app]
    have notApp : isOtaApp part = false := by simp [isOtaApp, app]
    rw [if_neg app]
    by_cases data : part.type = PART_TYPE_DATA
    · rw [if_pos data]
      by_cases ota : part.subtype = PART_SUBTYPE_DATA_OTA
      · rw [if_pos ota]
        exact .otaData noIndex notApp (by simp [isOtaData, data, ota])
      · rw [if_neg ota]
        exact .other noIndex notApp (by simp [isOtaData, ota])
    · rw [if_neg data]
      exact .other noIndex notApp (by simp [isOtaData, data])

def placeOf (bs : BootloaderState) (index : Int) : EspPartitionPos :=
  if index = FACTORY_INDEX then bs.factory
  else if index = TEST_APP_INDEX then bs.test
  else bs.ota index.toNat

theorem placeOf_load (bs : BootloaderState) (part : EspPartitionInfo) {index : Int} (least : -2 ≤ index) :
    placeOf (bs.load part) index = if bootIndex part = some index then part.pos else placeOf bs index := by
  have step := loads bs part
  generalize bs.load part = after at step
  cases step with
  | factory here _ _ =>
      by_cases same : index = FACTORY_INDEX
      · simp [placeOf, here, same]
      · simp [placeOf, here, same, Ne.symm same]
  | test here _ _ =>
      by_cases same : index = TEST_APP_INDEX
      · simp [placeOf, here, same]
      · simp [placeOf, here, same, Ne.symm same]
  | ota k small here _ _ =>
      by_cases same : index = k
      · subst same
        have positive : (k : Int) ≠ -1 ∧ (k : Int) ≠ -2 := by omega
        simp [placeOf, here, positive]
      · have other : index.toNat ≠ k ∨ index < 0 := by omega
        rcases other with other | negative
        · simp [placeOf, here, Ne.symm same, Function.update_of_ne other]
        · have special : index = -1 ∨ index = -2 := by omega
          rcases special with rfl | rfl <;> simp [placeOf, here, Ne.symm same]
  | otaData here _ _ => simp [placeOf, here]
  | other here _ _ => simp [here]

def loaded (parts : List EspPartitionInfo) : BootloaderState := parts.foldl BootloaderState.load .zero

theorem loaded_append (parts : List EspPartitionInfo) (part : EspPartitionInfo) :
    loaded (parts ++ [part]) = (loaded parts).load part := by
  simp [loaded]

theorem loaded_appCount (parts : List EspPartitionInfo) : (loaded parts).appCount = parts.countP isOtaApp := by
  induction parts using List.reverseRecOn with
  | nil => rfl
  | append_singleton parts part ih =>
      have step := loads (loaded parts) part
      rw [loaded_append]
      generalize (loaded parts).load part = after at step
      cases step with
      | ota _ _ _ app _ => simp [app, ih]
      | factory _ app _ | test _ app _ | otaData _ app _ | other _ app _ => simp [app, ih]

theorem loaded_otaInfo (parts : List EspPartitionInfo) : (loaded parts).otaInfo = lastPos isOtaData parts := by
  induction parts using List.reverseRecOn with
  | nil => rfl
  | append_singleton parts part ih =>
      have step := loads (loaded parts) part
      rw [loaded_append]
      generalize (loaded parts).load part = after at step
      cases step with
      | otaData _ _ data => simp [lastPos, data]
      | factory _ _ data | test _ _ data | ota _ _ _ _ data | other _ _ data => simp [lastPos, data, ih]

theorem Kept.mem {parts : List EspPartitionInfo} {part : EspPartitionInfo} (kept : Kept parts part) : part ∈ parts := by
  obtain ⟨before, after, rfl, -⟩ := kept
  simp

theorem placeOf_loaded (parts : List EspPartitionInfo) {index : Int} (least : -2 ≤ index) :
    (∃ part, Kept parts part ∧ bootIndex part = some index ∧ placeOf (loaded parts) index = part.pos) ∨
      (∀ part ∈ parts, bootIndex part ≠ some index) ∧ placeOf (loaded parts) index = ⟨0, 0⟩ := by
  induction parts using List.reverseRecOn with
  | nil =>
      right
      exact ⟨by simp, by simp [placeOf, loaded, BootloaderState.zero]⟩
  | append_singleton parts last ih =>
      rw [loaded_append, placeOf_load _ _ least]
      by_cases here : bootIndex last = some index
      · left
        exact ⟨last, ⟨parts, [], rfl, by simp⟩, here, if_pos here⟩
      · rw [if_neg here]
        rcases ih with ⟨part, ⟨before, after, rfl, later⟩, found, place⟩ | ⟨missing, place⟩
        · left
          refine ⟨part, ⟨before, after ++ [last], by simp, ?_⟩, found, place⟩
          intro other member
          rcases List.mem_append.mp member with member | member
          · exact later other member
          · rw [List.mem_singleton.mp member, found]
            exact here
        · right
          refine ⟨?_, place⟩
          intro part member
          rcases List.mem_append.mp member with member | member
          · exact missing part member
          · rw [List.mem_singleton.mp member]
            exact here

theorem Kept.place {parts : List EspPartitionInfo} {part : EspPartitionInfo} (kept : Kept parts part) {index : Int}
    (least : -2 ≤ index) (here : bootIndex part = some index) : placeOf (loaded parts) index = part.pos := by
  obtain ⟨before, after, rfl, later⟩ := kept
  induction after using List.reverseRecOn with
  | nil => rw [loaded_append, placeOf_load _ _ least, if_pos here]
  | append_singleton after last ih =>
      have elsewhere := later last (by simp)
      rw [here] at elsewhere
      rw [← List.cons_append, ← List.append_assoc, loaded_append, placeOf_load _ _ least, if_neg elsewhere]
      exact ih fun other member => later other (by simp [member])

theorem bootIndex_range {part : EspPartitionInfo} {index : Int} (here : bootIndex part = some index) :
    -2 ≤ index ∧ index < 16 := by
  have step := loads .zero part
  generalize BootloaderState.zero.load part = after at step
  cases step with
  | factory found _ _ | test found _ _ =>
      rw [here] at found
      cases found
      decide
  | ota k small found _ _ =>
      rw [here] at found
      cases found
      omega
  | otaData found _ _ | other found _ _ =>
      rw [here] at found
      cases found

section
variable {Metadata : Type} {load : EspPartitionPos → Option Metadata} {bs : BootloaderState}

theorem tryIndex_eq (load : EspPartitionPos → Option Metadata) (bs : BootloaderState) (index : Int) :
    tryIndex load bs index = tryLoadPartition load (indexToPartition bs index) := by
  unfold tryIndex tryLoadPartition
  by_cases empty : (indexToPartition bs index).size = 0
  · rw [if_pos empty, if_pos empty]
  · rw [if_neg empty]

theorem indexToPartition_eq {index : Int} (least : -1 ≤ index) (slot : index < 16) (counted : index < bs.appCount) :
    indexToPartition bs index = placeOf bs index := by
  unfold indexToPartition placeOf
  by_cases factory : index = FACTORY_INDEX
  · rw [if_pos factory, if_pos factory]
  · have positive : 0 ≤ index := by
      have low : index ≠ -1 := factory
      omega
    have notTest : index ≠ TEST_APP_INDEX := by
      intro test
      rw [test] at positive
      exact absurd positive (by decide)
    rw [if_neg factory, if_neg factory, if_neg notTest, if_neg notTest, if_pos ⟨positive, slot, counted⟩]

theorem tryIndex_none {index : Int} (least : -1 < index) (outside : 16 ≤ index ∨ bs.appCount ≤ index) :
    tryIndex load bs index = none := by
  have nothing : indexToPartition bs index = ⟨0, 0⟩ := by
    unfold indexToPartition
    rw [if_neg (by intro same; rw [same] at least; exact absurd least (by decide)),
      if_neg (by intro same; rw [same] at least; exact absurd least (by decide)), if_neg]
    rintro ⟨-, slot, counted⟩
    have slots : (MAX_OTA_SLOTS : Int) = 16 := rfl
    omega
  rw [tryIndex, nothing, if_pos rfl]

theorem backwards_eq_some {start : Int} {data : Metadata} (found : backwards load bs start = some data) :
    ∃ index, -1 ≤ index ∧ index ≤ start ∧ tryIndex load bs index = some data := by
  obtain ⟨k, inside, hit⟩ := List.exists_of_findSome?_eq_some found
  have factory : FACTORY_INDEX = -1 := rfl
  rw [List.mem_range] at inside
  exact ⟨start - k, by omega, by omega, hit⟩

theorem backwards_eq_none {start : Int} (missed : backwards load bs start = none) {index : Int} (least : -1 ≤ index)
    (most : index ≤ start) : tryIndex load bs index = none := by
  have factory : FACTORY_INDEX = -1 := rfl
  have all := List.findSome?_eq_none_iff.mp missed (start - index).toNat (by rw [List.mem_range]; omega)
  rwa [show start - ((start - index).toNat : Nat) = index by omega] at all

theorem forwards_eq_some {start : Int} {data : Metadata} (found : forwards load bs start = some data) :
    -1 ≤ start ∧ ∃ index, start < index ∧ tryIndex load bs index = some data := by
  unfold forwards at found
  by_cases negative : start + 1 < 0
  · rw [if_pos negative] at found
    cases found
  · rw [if_neg negative] at found
    obtain ⟨k, inside, hit⟩ := List.exists_of_findSome?_eq_some found
    rw [List.mem_range] at inside
    exact ⟨by omega, start + 1 + k, by omega, hit⟩

theorem forwards_eq_none {start : Int} (least : -1 ≤ start) (missed : forwards load bs start = none) {index : Int}
    (above : start < index) (most : index < bs.appCount) : tryIndex load bs index = none := by
  unfold forwards at missed
  rw [if_neg (by omega)] at missed
  have all := List.findSome?_eq_none_iff.mp missed (index - (start + 1)).toNat (by rw [List.mem_range]; omega)
  rwa [show start + 1 + ((index - (start + 1)).toNat : Nat) = index by omega] at all

end

section
variable {Metadata : Type} {load : EspPartitionPos → Option Metadata} {parts : List EspPartitionInfo}

theorem tryLoad_placeOf (index : Int) (least : -2 ≤ index) {data : Metadata}
    (found : tryLoadPartition load (placeOf (loaded parts) index) = some data) :
    ∃ part, Kept parts part ∧ bootIndex part = some index ∧ HoldsImage load part data := by
  rcases placeOf_loaded parts least with ⟨part, kept, here, place⟩ | ⟨-, place⟩
  · rw [place] at found
    unfold tryLoadPartition at found
    by_cases empty : part.pos.size = 0
    · rw [if_pos empty] at found
      cases found
    · rw [if_neg empty] at found
      exact ⟨part, kept, here, by rw [here]; rfl, empty, found⟩
  · rw [place] at found
    cases found

theorem HoldsImage.tryLoad {part : EspPartitionInfo} {data : Metadata} (image : HoldsImage load part data) :
    tryLoadPartition load part.pos = some data := by
  rw [tryLoadPartition, if_neg image.2.1]
  exact image.2.2

theorem tryIndex_eq_some {index : Int} (least : -1 ≤ index) {data : Metadata}
    (found : tryIndex load (loaded parts) index = some data) :
    index < parts.countP isOtaApp ∧ ∃ part, Kept parts part ∧ bootIndex part = some index ∧ HoldsImage load part data := by
  rw [← loaded_appCount]
  by_cases inside : index < 16 ∧ index < (loaded parts).appCount
  · rw [tryIndex_eq, indexToPartition_eq least inside.1 inside.2] at found
    exact ⟨inside.2, tryLoad_placeOf index (by omega) found⟩
  · by_cases factory : index = -1
    · subst factory
      exact ⟨by omega, tryLoad_placeOf (-1) (by decide) (by rwa [tryIndex_eq] at found)⟩
    · rw [tryIndex_none (by omega) (by omega)] at found
      cases found

theorem KeptAt.counted {part : EspPartitionInfo} {index : Int} (here : bootIndex part = some index) {count : Nat}
    (counted : index < count) : ∀ other ∈ bootIndex part, other < (count : Int) := by
  intro other same
  rw [here, Option.mem_some] at same
  omega

theorem loadBootImage_eq_some {start : Int} (regular : start ≠ -2) {data : Metadata}
    (found : bootloaderUtilityLoadBootImage load (loaded parts) start = some data) :
    ∃ part, Kept parts part ∧ HoldsImage load part data ∧
      (bootIndex part = some TEST_APP_INDEX ∨
        -1 ≤ start ∧ ∀ index ∈ bootIndex part, index < (parts.countP isOtaApp : Nat)) := by
  unfold bootloaderUtilityLoadBootImage at found
  rw [if_neg regular] at found
  cases behind : backwards load (loaded parts) start with
  | some first =>
      rw [behind] at found
      cases found
      obtain ⟨index, least, most, hit⟩ := backwards_eq_some behind
      obtain ⟨counted, part, kept, here, image⟩ := tryIndex_eq_some least hit
      exact ⟨part, kept, image, .inr ⟨by omega, KeptAt.counted here counted⟩⟩
  | none =>
      rw [behind] at found
      cases ahead : forwards load (loaded parts) start with
      | some first =>
          rw [ahead] at found
          cases found
          obtain ⟨least, index, above, hit⟩ := forwards_eq_some ahead
          obtain ⟨counted, part, kept, here, image⟩ := tryIndex_eq_some (by omega) hit
          exact ⟨part, kept, image, .inr ⟨least, KeptAt.counted here counted⟩⟩
      | none =>
          rw [ahead] at found
          have test : tryLoadPartition load (placeOf (loaded parts) (-2)) = some data := found
          obtain ⟨part, kept, here, image⟩ := tryLoad_placeOf (-2) (by decide) test
          exact ⟨part, kept, image, .inl here⟩

theorem loadBootImage_selected {start : Int} (least : -1 ≤ start) {data : Metadata}
    (image : tryLoadPartition load (indexToPartition (loaded parts) start) = some data) :
    bootloaderUtilityLoadBootImage load (loaded parts) start = some data := by
  have regular : start ≠ TEST_APP_INDEX := by
    intro test
    rw [test] at least
    exact absurd least (by decide)
  have factory : FACTORY_INDEX = -1 := rfl
  have rounds : (start - FACTORY_INDEX + 1).toNat = (start + 1).toNat + 1 := by omega
  have first : backwards load (loaded parts) start = some data := by
    unfold backwards
    rw [rounds, List.range_succ_eq_map, List.findSome?_cons]
    have here : tryIndex load (loaded parts) (start - (0 : Nat)) = some data := by
      rw [show start - ((0 : Nat) : Int) = start by omega, tryIndex_eq]
      exact image
    rw [here]
  unfold bootloaderUtilityLoadBootImage
  rw [if_neg regular, first]
  rfl

theorem loadBootImage_isSome {start : Int} (regular : start ≠ -2) {part : EspPartitionInfo} {data : Metadata}
    (kept : Kept parts part) (image : HoldsImage load part data)
    (place : bootIndex part = some TEST_APP_INDEX ∨
      -1 ≤ start ∧ ∀ index ∈ bootIndex part, index < (parts.countP isOtaApp : Nat)) :
    ∃ found, bootloaderUtilityLoadBootImage load (loaded parts) start = some found := by
  obtain ⟨index, here⟩ := Option.isSome_iff_exists.mp image.1
  have range := bootIndex_range here
  have hit := Kept.place kept range.1 here
  unfold bootloaderUtilityLoadBootImage
  rw [if_neg regular]
  cases behind : backwards load (loaded parts) start with
  | some first => exact ⟨first, rfl⟩
  | none =>
      cases ahead : forwards load (loaded parts) start with
      | some first => exact ⟨first, rfl⟩
      | none =>
          have image := HoldsImage.tryLoad image
          rw [← hit] at image
          by_cases test : index = -2
          · subst test
            exact ⟨data, image⟩
          · rw [here] at place
            have reach : -1 ≤ start ∧ index < parts.countP isOtaApp := by
              rcases place with atTest | reach
              · exact absurd (Option.some.inj atTest) test
              · exact ⟨reach.1, reach.2 index rfl⟩
            have tried : tryIndex load (loaded parts) index = some data := by
              rw [tryIndex_eq, indexToPartition_eq (by omega) range.2 (by rw [loaded_appCount]; exact reach.2)]
              exact image
            by_cases before : index ≤ start
            · rw [backwards_eq_none behind (by omega) before] at tried
              cases tried
            · rw [forwards_eq_none reach.1 ahead (by omega) (by rw [loaded_appCount]; exact reach.2)] at tried
              cases tried

end

theorem topSeq_eq_none {selects : OtaSelect × OtaSelect} :
    topSeq selects = none ↔ ¬ (selects.1.Valid ∨ selects.2.Valid) := by
  unfold topSeq
  by_cases first : selects.1.Valid <;> by_cases second : selects.2.Valid <;> simp [first, second]

theorem topSeq_unnumbered {selects : OtaSelect × OtaSelect} (unnumbered : Unnumbered selects) :
    topSeq selects = none := by
  rw [topSeq_eq_none]
  rintro (valid | valid)
  · exact valid.1 unnumbered.1
  · exact valid.1 unnumbered.2

theorem max_eq_OTA_MAX (a b : Word) : (if a > b then a else b) = OTA_MAX a b := by
  unfold OTA_MAX
  by_cases above : a > b
  · rw [if_pos above, if_pos (BitVec.le_of_lt above)]
  · rw [if_neg above]
    by_cases same : a ≥ b
    · rw [if_pos same]
      exact BitVec.le_antisymm same (BitVec.not_lt.mp above)
    · rw [if_neg same]

theorem selected_eq {bs : BootloaderState} (unmapped : Memory) (flash : Flash) (used : bs.otaInfo.offset ≠ 0)
    (enough : 2 * 0x1000 ≤ bs.otaInfo.size) (notNull : bs.otaInfo.offset ≠ NULL_MAPPED) :
    bootloaderUtilityGetSelectedBootPartition unmapped bs flash =
      match topSeq (mappedSelects unmapped flash bs.otaInfo.offset) with
      | some seq => otaSlot bs seq
      | none =>
          if Unnumbered (mappedSelects unmapped flash bs.otaInfo.offset) ∧ bs.factory.offset = 0 then some 0
          else some FACTORY_INDEX := by
  have pointer : (bootloaderMmap unmapped flash bs.otaInfo.offset).2 ≠ 0 := mt (mmap_null _ _ _).mp notNull
  have records : mappedSelects unmapped flash bs.otaInfo.offset =
      readSelects (bootloaderMmap unmapped flash bs.otaInfo.offset).1 (bootloaderMmap unmapped flash bs.otaInfo.offset).2 :=
    rfl
  unfold bootloaderUtilityGetSelectedBootPartition
  rw [if_pos used, if_neg (BitVec.not_lt.mpr enough), records]
  simp only [if_neg pointer]
  generalize readSelects (bootloaderMmap unmapped flash bs.otaInfo.offset).1
    (bootloaderMmap unmapped flash bs.otaInfo.offset).2 = selects
  cases selects with
  | mk sa sb =>
      by_cases unnumbered : Unnumbered (sa, sb)
      · have blank : sa.otaSeq = UINT32_MAX ∧ sb.otaSeq = UINT32_MAX := unnumbered
        rw [topSeq_unnumbered unnumbered]
        by_cases factory : bs.factory.offset = 0
        · simp only [blank, unnumbered, factory, ne_eq, not_true_eq_false, and_self, if_true, if_false]
        · simp only [blank, factory, ne_eq, not_false_eq_true, and_self, and_false, if_true, if_false]
      · have numbered : ¬ (sa.otaSeq = UINT32_MAX ∧ sb.otaSeq = UINT32_MAX) := unnumbered
        by_cases first : sa.Valid <;> by_cases second : sb.Valid <;>
          simp only [topSeq, numbered, unnumbered, first, second, max_eq_OTA_MAX, and_self, and_true,
            and_false, false_and, if_true, if_false]

theorem selected_mapped {bs : BootloaderState} (unmapped : Memory) (flash : Flash) (used : bs.otaInfo.offset ≠ 0)
    (enough : 2 * 0x1000 ≤ bs.otaInfo.size) (mapped : OtaDataMapped bs.otaInfo.offset) :
    bootloaderUtilityGetSelectedBootPartition unmapped bs flash =
      match topSeq (readSelects flash bs.otaInfo.offset) with
      | some seq => otaSlot bs seq
      | none =>
          if Unnumbered (readSelects flash bs.otaInfo.offset) ∧ bs.factory.offset = 0 then some 0
          else some FACTORY_INDEX := by
  rw [selected_eq unmapped flash used enough (mapped_not_null mapped), mappedSelects_eq unmapped flash mapped]

theorem selected_refused {bs : BootloaderState} (unmapped : Memory) (flash : Flash) (used : bs.otaInfo.offset ≠ 0)
    (refused : bs.otaInfo.size < 2 * 0x1000 ∨ bs.otaInfo.offset = NULL_MAPPED) :
    bootloaderUtilityGetSelectedBootPartition unmapped bs flash = some INVALID_INDEX := by
  unfold bootloaderUtilityGetSelectedBootPartition
  rw [if_pos used]
  by_cases small : bs.otaInfo.size < 2 * 0x1000
  · rw [if_pos small]
  · rw [if_neg small]
    simp only
    rw [if_pos ((mmap_null _ _ _).mpr (refused.resolve_left small))]

theorem selected_congr {bs : BootloaderState} {unmapped : Memory} {flash flash' : Flash}
    (same : mappedSelects unmapped flash' bs.otaInfo.offset = mappedSelects unmapped flash bs.otaInfo.offset) :
    bootloaderUtilityGetSelectedBootPartition unmapped bs flash' =
      bootloaderUtilityGetSelectedBootPartition unmapped bs flash := by
  by_cases used : bs.otaInfo.offset ≠ 0
  · by_cases refused : bs.otaInfo.size < 2 * 0x1000 ∨ bs.otaInfo.offset = NULL_MAPPED
    · rw [selected_refused unmapped flash' used refused, selected_refused unmapped flash used refused]
    · obtain ⟨enough, notNull⟩ := not_or.mp refused
      rw [selected_eq unmapped flash' used (BitVec.not_lt.mp enough) notNull,
        selected_eq unmapped flash used (BitVec.not_lt.mp enough) notNull, same]
  · unfold bootloaderUtilityGetSelectedBootPartition
    rw [if_neg used, if_neg used]

section
variable (parts : List EspPartitionInfo) (unmapped : Memory) (flash : Flash)

def NoSlot : Prop :=
  OtaDataUsed parts ∧ OtaDataValid (mappedSelects unmapped flash (lastPos isOtaData parts).offset) ∧
    parts.countP isOtaApp = 0

theorem OtaDataUsed.taken {parts : List EspPartitionInfo} (used : OtaDataUsed parts) :
    ¬ ((lastPos isOtaData parts).size < 2 * 0x1000 ∨ (lastPos isOtaData parts).offset = NULL_MAPPED) :=
  fun refused => refused.elim (BitVec.not_lt.mpr used.2.1) used.2.2

theorem used_or_refused (offset : (lastPos isOtaData parts).offset ≠ 0) (notRefused : ¬ OtaDataRefused parts) :
    OtaDataUsed parts := by
  have large := not_or.mp fun refused => notRefused ⟨offset, refused⟩
  exact ⟨offset, BitVec.not_lt.mp large.1, large.2⟩

theorem selected_cases :
    OtaDataRefused parts ∧
      bootloaderUtilityGetSelectedBootPartition unmapped (loaded parts) flash = some INVALID_INDEX ∨
    NoSlot parts unmapped flash ∧ bootloaderUtilityGetSelectedBootPartition unmapped (loaded parts) flash = none ∨
    ¬ OtaDataRefused parts ∧ ¬ NoSlot parts unmapped flash ∧
      ∃ index, -1 ≤ index ∧ bootloaderUtilityGetSelectedBootPartition unmapped (loaded parts) flash = some index := by
  by_cases offset : (lastPos isOtaData parts).offset ≠ 0
  · by_cases refused : OtaDataRefused parts
    · left
      exact ⟨refused, selected_refused unmapped flash (by rwa [loaded_otaInfo]) (by rw [loaded_otaInfo]; exact refused.2)⟩
    · right
      have used := used_or_refused parts offset refused
      rw [selected_eq unmapped flash (by rwa [loaded_otaInfo]) (by rw [loaded_otaInfo]; exact used.2.1)
        (by rw [loaded_otaInfo]; exact used.2.2), loaded_otaInfo]
      cases top : topSeq (mappedSelects unmapped flash (lastPos isOtaData parts).offset) with
      | some seq =>
          have valid : OtaDataValid (mappedSelects unmapped flash (lastPos isOtaData parts).offset) := by
            by_contra invalid
            rw [topSeq_eq_none.mpr invalid] at top
            cases top
          simp only [otaSlot, loaded_appCount]
          by_cases none : parts.countP isOtaApp = 0
          · left
            exact ⟨⟨used, valid, none⟩, if_pos none⟩
          · right
            exact ⟨refused, fun h => none h.2.2, _, by omega, if_neg none⟩
      | none =>
          right
          have invalid := topSeq_eq_none.mp top
          refine ⟨refused, fun h => invalid h.2.1, ?_⟩
          by_cases first : Unnumbered (mappedSelects unmapped flash (lastPos isOtaData parts).offset) ∧
              (loaded parts).factory.offset = 0
          · exact ⟨0, by decide, if_pos first⟩
          · exact ⟨-1, by decide, if_neg first⟩
  · right
    right
    refine ⟨fun h => offset h.1, fun h => offset h.1.1, -1, by decide, ?_⟩
    unfold bootloaderUtilityGetSelectedBootPartition
    rw [loaded_otaInfo, if_neg offset]

end

theorem verified_loaded {chipSize : Word} {table : RawTable} {num : Nat}
    (accepted : espPartitionTableBasicVerify chipSize table = .ok num) :
    bootloaderUtilityLoadPartitionTable chipSize table = .ok (loaded (partitions table num)) := by
  unfold bootloaderUtilityLoadPartitionTable
  rw [accepted]
  rfl

theorem countP_otaApp_pos {parts : List EspPartitionInfo} :
    parts.countP isOtaApp ≠ 0 ↔ ∃ part ∈ parts, isOtaApp part := by
  rw [← Nat.pos_iff_ne_zero, List.countP_pos_iff]

theorem boots_of_found {Metadata : Type} {load : EspPartitionPos → Option Metadata} {parts : List EspPartitionInfo}
    {unmapped : Memory} {flash : Flash} {start : Int}
    (selected : bootloaderUtilityGetSelectedBootPartition unmapped (loaded parts) flash = some start)
    (regular : start = -99 ∨ -1 ≤ start) {found : Metadata}
    (loads : bootloaderUtilityLoadBootImage load (loaded parts) start = some found) :
    BootsImage load unmapped (loaded parts) parts flash := by
  intro _
  obtain ⟨part, kept, image, -⟩ := loadBootImage_eq_some (by omega) loads
  refine ⟨start, found, selected, loads, ⟨part, Kept.mem kept, image⟩, ?_⟩
  intro data first
  rcases regular with rfl | least
  · cases first
  · rw [loadBootImage_selected least first] at loads
    exact (Option.some.inj loads).symm

/-- The bootloader boots whatever is bootable exactly when some image is kept within its reach, and no
record selects a slot of a table without slots. -/
theorem boots_image_iff {Metadata : Type} (load : EspPartitionPos → Option Metadata) (chipSize : Word)
    (table : RawTable) (num : Nat) (bs : BootloaderState) (unmapped : Memory) (flash : Flash)
    (accepted : espPartitionTableBasicVerify chipSize table = .ok num)
    (state : bootloaderUtilityLoadPartitionTable chipSize table = .ok bs) :
    BootsImage load unmapped bs (partitions table num) flash ↔
      BootsWhen load unmapped (partitions table num) flash := by
  rw [verified_loaded accepted] at state
  cases state
  generalize partitions table num = parts
  constructor
  · intro boots present
    obtain ⟨index, data, selected, loads, -, -⟩ := boots present
    rcases selected_cases parts unmapped flash with ⟨refused, invalid⟩ | ⟨-, stuck⟩ | ⟨large, slots, start, least, chosen⟩
    · rw [selected] at invalid
      cases invalid
      obtain ⟨part, kept, image, place⟩ := loadBootImage_eq_some (by decide) loads
      refine ⟨fun used => absurd refused.2 (OtaDataUsed.taken used), part, ⟨kept, ?_⟩, data, image⟩
      exact place.imp id fun far => absurd far.1 (by decide)
    · rw [selected] at stuck
      cases stuck
    · rw [selected] at chosen
      cases chosen
      obtain ⟨part, kept, image, place⟩ := loadBootImage_eq_some (by omega) loads
      refine ⟨?_, part, ⟨kept, place.imp id fun near => ⟨large, near.2⟩⟩, data, image⟩
      intro used valid
      rw [← countP_otaApp_pos]
      exact fun none => slots ⟨used, valid, none⟩
  · intro condition present
    obtain ⟨hasSlot, part, ⟨kept, place⟩, data, image⟩ := condition present
    rcases selected_cases parts unmapped flash with ⟨refused, invalid⟩ | ⟨noSlot, -⟩ | ⟨-, -, start, least, chosen⟩
    · have test := place.resolve_right fun far => far.1 refused
      have regular : INVALID_INDEX ≠ -2 := by decide
      obtain ⟨found, loads⟩ := loadBootImage_isSome regular kept image (.inl test)
      exact boots_of_found invalid (.inl rfl) loads present
    · exact absurd noSlot.2.2 (countP_otaApp_pos.mpr (hasSlot noSlot.1 noSlot.2.1))
    · obtain ⟨found, loads⟩ := loadBootImage_isSome (by omega) kept image (place.imp id fun near => ⟨least, near.2⟩)
      exact boots_of_found chosen (.inr least) loads present

def endRecord : EspPartitionInfo :=
  ⟨0xFFFF, PART_TYPE_END, PART_SUBTYPE_END, ⟨0xFFFFFFFF, 0xFFFFFFFF⟩, .replicate 16 0xFF, 0xFFFFFFFF⟩

def appRecord (subtype : Byte) (offset : Word) : EspPartitionInfo :=
  ⟨ESP_PARTITION_MAGIC, PART_TYPE_APP, subtype, ⟨offset, 0x10000⟩, .replicate 16 0, 0⟩

def tableOf (records : List EspPartitionInfo) : RawTable := fun i => records.getD i endRecord

/-- A table whose only app is `ota_1`: it is never tried, as the slots end at the number of OTA apps. -/
theorem sole_ota_1_not_booted :
    ¬ ∀ (load : EspPartitionPos → Option Unit) (chipSize : Word) (table : RawTable) (num : Nat) (bs : BootloaderState)
      (unmapped : Memory) (flash : Flash), espPartitionTableBasicVerify chipSize table = .ok num →
      bootloaderUtilityLoadPartitionTable chipSize table = .ok bs →
      BootsImage load unmapped bs (partitions table num) flash := by
  intro claim
  have boots := claim (fun _ => some ()) 0x100000 (tableOf [appRecord 0x11 0x10000]) 1
    (loaded [appRecord 0x11 0x10000]) (fun _ => 0) (fun _ => 0xFF) rfl rfl
    ⟨appRecord 0x11 0x10000, by decide, (), by decide, by decide, rfl⟩
  obtain ⟨index, data, selected, loads, -⟩ := boots
  have start : bootloaderUtilityGetSelectedBootPartition (fun _ => 0) (loaded [appRecord 0x11 0x10000]) (fun _ => 0xFF) =
      some (-1) := rfl
  rw [start] at selected
  cases selected
  have misses : bootloaderUtilityLoadBootImage (fun _ => some ()) (loaded [appRecord 0x11 0x10000]) (-1) = none := rfl
  rw [misses] at loads
  cases loads

theorem boots_sole_ota_0 :
    BootsImage (fun _ => some ()) (fun _ => 0) (loaded [appRecord 0x10 0x10000])
      (partitions (tableOf [appRecord 0x10 0x10000]) 1) (fun _ => 0xFF) := by
  refine (boots_image_iff (fun _ => some ()) 0x100000 (tableOf [appRecord 0x10 0x10000]) 1 _ (fun _ => 0) (fun _ => 0xFF)
    rfl rfl).mpr ?_
  intro _
  refine ⟨fun used => absurd used.1 (by decide), appRecord 0x10 0x10000, ⟨⟨[], [], rfl, by simp⟩, .inr ⟨?_, ?_⟩⟩, (), ?_⟩
  · intro refused
    exact absurd refused.1 (by decide)
  · intro index here
    cases here
    decide
  · exact ⟨by decide, by decide, rfl⟩

end EspFirmware.Proof.Boot
