import EspFirmware.Proof.Boot.OtaFlash
import EspFirmware.Proof.Boot.OtaSeq
import EspFirmware.Proof.Boot.Agree

/-!
`esp_ota_set_boot_partition` on the records of the OTA data: what a call can leave behind wherever it
stops, and what the application and the bootloader then select.
-/

namespace EspFirmware.Proof.Boot
open EspFirmware.Boot EspFirmware.Spec EspFirmware.Lib EspFirmware.Lib.Prog
open EspFirmware.Nvs (Byte Word)

theorem second_aligned (address : Word) : (address + 0x1000).toNat % 4096 = address.toNat % 4096 := by
  rw [BitVec.toNat_add]
  simp

theorem sectors_apart (address : Word) : address.toNat ≠ (address + 0x1000).toNat := by
  rw [BitVec.toNat_add]
  have := address.isLt
  simp
  omega

theorem subTypeId {k : Nat} (small : k < 16) : SUB_TYPE_ID (ESP_PARTITION_SUBTYPE_APP_OTA_MIN + k) = k := by
  have all : ∀ k < 16, SUB_TYPE_ID (ESP_PARTITION_SUBTYPE_APP_OTA_MIN + k) = k := by decide
  exact all k small

def rewritePlan (chipSize : Word) (otaData : EspPartition) (s : OtaSelect × OtaSelect) (x count : Nat) : FlashProg Unit :=
  match plan s x count with
  | none => .fault
  | some (secId, v) => rewriteOtaSeq chipSize v secId (if secId = 0 then s.1 else s.2) otaData

theorem rewriteAbove_plan {chipSize seq : Word} {x count secId : Nat} {s : OtaSelect × OtaSelect} {otaData : EspPartition}
    (planned : plan s x count = (nextSeq seq x count).map fun v => (secId, v)) :
    rewriteAbove chipSize seq x count secId (if secId = 0 then s.1 else s.2) otaData =
      rewritePlan chipSize otaData s x count := by
  unfold rewriteAbove rewritePlan
  rw [planned]
  cases nextSeq seq x count with
  | none => rfl
  | some v => rfl

theorem espRewriteOtaData_ran {chipSize : Word} {list : List EspPartition} {otaData : EspPartition}
    {count subtype : Nat}
    (found : espPartitionFindFirst list ESP_PARTITION_TYPE_DATA ESP_PARTITION_SUBTYPE_DATA_OTA = some otaData)
    (counted : getOtaPartitionCount list = some count) (inside : SUB_TYPE_ID subtype < count) (flash : Flash) :
    espRewriteOtaData chipSize list subtype () flash =
      rewritePlan chipSize otaData (readSelects flash otaData.address) (SUB_TYPE_ID subtype) count () flash := by
  have quiet : (Prog.read : FlashProg Flash) () flash = ⟨.ok flash, (), flash, []⟩ := rfl
  unfold espRewriteOtaData
  rw [found, counted]
  simp only [if_neg (Nat.not_le.mpr inside)]
  rw [Prog.bind_quiet quiet]
  generalize SUB_TYPE_ID subtype = k
  generalize readSelects flash otaData.address = s
  obtain ⟨s0, s1⟩ := s
  apply congrArg (fun p : FlashProg Unit => p () flash)
  dsimp only
  by_cases first : s0.Valid
  · by_cases second : s1.Valid
    · rw [if_pos ⟨first, second⟩]
      by_cases above : s0.otaSeq ≥ s1.otaSeq
      · rw [if_pos above]
        exact @rewriteAbove_plan _ _ _ _ 1 (s0, s1) _ (by simp [plan, first, second, above])
      · rw [if_neg above]
        exact @rewriteAbove_plan _ _ _ _ 0 (s0, s1) _ (by simp only [plan, first, second, above, and_self, if_true, if_false])
    · rw [if_neg (fun both => second both.2), if_pos first]
      exact @rewriteAbove_plan _ _ _ _ 1 (s0, s1) _ (by simp [plan, first, second])
  · rw [if_neg (fun both => first both.1), if_neg first]
    by_cases second : s1.Valid
    · rw [if_pos second]
      exact @rewriteAbove_plan _ _ _ _ 0 (s0, s1) _ (by simp [plan, first, second])
    · rw [if_neg second]
      unfold rewritePlan
      rw [show plan (s0, s1) k count = some (0, BitVec.ofNat 32 (k + 1)) by simp [plan, first, second]]
      rfl

def Complete (r : OtaSelect) (v : Word) : Prop := r.otaSeq = v ∧ r.crc = r.selectCrc

def Written (secId : Nat) (v : Word) (t : OtaSelect × OtaSelect) : Prop :=
  Complete (if secId = 0 then t.1 else t.2) v

theorem wp_rewritePlan {chipSize : Word} {otaData : EspPartition} (x count : Nat) (flash : Flash) :
    flashWp (rewritePlan chipSize otaData (readSelects flash otaData.address) x count)
      (fun o d =>
        (o = .ok () → ∃ secId v, plan (readSelects flash otaData.address) x count = some (secId, v) ∧
          Writing (readSelects flash otaData.address) secId v (readSelects d otaData.address) ∧
          Written secId v (readSelects d otaData.address)) ∧
        (d = flash ∨ ∃ secId v, plan (readSelects flash otaData.address) x count = some (secId, v) ∧
          Writing (readSelects flash otaData.address) secId v (readSelects d otaData.address)))
      (fun d => ∃ secId v, plan (readSelects flash otaData.address) x count = some (secId, v) ∧
          Writing (readSelects flash otaData.address) secId v (readSelects d otaData.address)) flash := by
  have labels (a : Nat) : (OtaSelect.read flash a).seqLabel.length = 6 := by simp [OtaSelect.read]
  have apart := sectors_apart otaData.address
  have aligned := second_aligned otaData.address
  unfold rewritePlan
  cases planned : plan (readSelects flash otaData.address) x count with
  | none => exact wp_still rfl ⟨(by intro ok; cases ok), .inl rfl⟩
  | some pair =>
      obtain ⟨secId, v⟩ := pair
      have sector : secId = 0 ∨ secId = 1 := by
        rcases plan_cases planned with ⟨rfl, -⟩ | ⟨rfl, -⟩ | ⟨rfl, -⟩
        · exact .inr rfl
        · exact .inl rfl
        · exact .inl rfl
      rcases sector with rfl | rfl
      · have here : (otaData.address + BitVec.ofNat 32 (0 * 4096)).toNat = otaData.address.toNat := by simp
        have run := wp_rewriteOtaSeq chipSize v (.inl rfl) (labels otaData.address.toNat) otaData flash here aligned apart
        apply wp_mono run
        · rintro o _ d ⟨done, during⟩
          refine ⟨fun ok => ⟨0, v, rfl, ?_, (done ok).2⟩, ?_⟩
          · exact .inl ⟨rfl, (done ok).1, .inr (done ok).2.1⟩
          · exact during.imp id fun during => ⟨0, v, rfl, .inl ⟨rfl, during.1, during.2⟩⟩
        · rintro d during
          exact ⟨0, v, rfl, .inl ⟨rfl, during.1, during.2⟩⟩
      · have here : (otaData.address + BitVec.ofNat 32 (1 * 4096)).toNat = (otaData.address + 0x1000).toNat := rfl
        have run := wp_rewriteOtaSeq chipSize v (.inr rfl) (labels (otaData.address + 0x1000).toNat) otaData flash here
          aligned.symm apart.symm
        apply wp_mono run
        · rintro o _ d ⟨done, during⟩
          refine ⟨fun ok => ⟨1, v, rfl, ?_, (done ok).2⟩, ?_⟩
          · exact .inr ⟨rfl, (done ok).1, .inr (done ok).2.1⟩
          · exact during.imp id fun during => ⟨1, v, rfl, .inr ⟨rfl, during.1, during.2⟩⟩
        · rintro d during
          exact ⟨1, v, rfl, .inr ⟨rfl, during.1, during.2⟩⟩

def Erasing (s t : OtaSelect × OtaSelect) : Prop :=
  t.1.otaSeq = UINT32_MAX ∧ (t.2 = s.2 ∨ t.2.otaSeq = UINT32_MAX)

section
variable {address : Word} {flash d : Flash} {m : Nat}

theorem read_erased {sec a : Nat} (here : 4096 * sec ≤ a) (inside : a + 4096 ≤ 4096 * (sec + m))
    (erased : SectorsErased m sec flash d) : (OtaSelect.read d a).otaSeq = UINT32_MAX := by
  apply load32_blank
  intro x low high
  rw [erased x, if_pos (by omega)]

theorem erasing_sectors (aligned : address.toNat % 4096 = 0) {chipSize : Word}
    (inside : address.toNat / 4096 < chipSize.toNat / 4096) (some_ : 0 < m)
    (erased : SectorsErased m (address.toNat / 4096) flash d) :
    Erasing (readSelects flash address) (readSelects d address) ∧
      (2 ≤ m → (readSelects d address).2.otaSeq = UINT32_MAX) := by
  have limit := chipSize.isLt
  have second : (address + 0x1000).toNat = address.toNat + 4096 := by
    rw [BitVec.toNat_add]
    simp
    omega
  have more (two : 2 ≤ m) : (readSelects d address).2.otaSeq = UINT32_MAX := by
    apply read_erased _ _ erased <;> omega
  refine ⟨⟨?_, ?_⟩, more⟩
  · apply read_erased _ _ erased <;> omega
  · by_cases one : m = 1
    · left
      apply read_congr
      intro x low high
      rw [erased x, if_neg (by omega)]
    · right
      exact more (by omega)

end

theorem wp_eraseOtaData {chipSize : Word} {otaData : EspPartition} (enough : 2 * 0x1000 ≤ otaData.size) (flash : Flash) :
    flashWp (espPartitionEraseRange chipSize otaData 0 otaData.size)
      (fun o d =>
        (o = .ok () → (readSelects d otaData.address).1.otaSeq = UINT32_MAX ∧
          (readSelects d otaData.address).2.otaSeq = UINT32_MAX) ∧
        (d = flash ∨ Erasing (readSelects flash otaData.address) (readSelects d otaData.address)))
      (fun d => Erasing (readSelects flash otaData.address) (readSelects d otaData.address)) flash := by
  unfold espPartitionEraseRange
  split_ifs with first second third fourth
  · exact wp_throw _ ⟨nofun, .inl rfl⟩
  · exact wp_throw _ ⟨nofun, .inl rfl⟩
  · exact wp_throw _ ⟨nofun, .inl rfl⟩
  · exact wp_throw _ ⟨nofun, .inl rfl⟩
  · unfold spiFlashEraseRange
    have start : otaData.address + 0 = otaData.address := BitVec.add_zero _
    rw [start]
    split_ifs with unaligned
    · exact wp_throw _ ⟨nofun, .inl rfl⟩
    · have aligned : otaData.address.toNat % 4096 = 0 := by
        by_contra odd
        exact unaligned (.inl odd)
      have size : 2 * 4096 ≤ otaData.size.toNat := enough
      have sectors : 2 ≤ otaData.size.toNat / SPI_FLASH_SEC_SIZE := by
        rw [show SPI_FLASH_SEC_SIZE = 4096 from rfl]
        omega
      simp only [if_neg (show otaData.size.toNat / SPI_FLASH_SEC_SIZE ≠ 0 by omega)]
      apply wp_mono (wp_eraseSectors chipSize _ _ flash)
      · rintro o _ d ⟨done, during⟩
        constructor
        · intro ok
          obtain ⟨erased, inside⟩ := done ok
          have both := erasing_sectors aligned (inside (by omega)) (by omega) erased
          exact ⟨both.1.1, both.2 sectors⟩
        · rcases during with rfl | ⟨inside, m, some_, erased⟩
          · exact .inl rfl
          · exact .inr (erasing_sectors aligned inside some_ erased).1
      · rintro d ⟨inside, m, some_, erased⟩
        exact (erasing_sectors aligned inside some_ erased).1

inductive Leaves (n : Nat) (index : Int) (s t : OtaSelect × OtaSelect) : Prop where
  | kept (same : t = s)
  | slot (k : Nat) (here : index = k) (inside : k < n) (secId : Nat) (v : Word) (planned : plan s k n = some (secId, v))
      (writing : Writing s secId v t)
  | factory (here : index = FACTORY_INDEX) (erasing : Erasing s t)

inductive Ends (n : Nat) (index : Int) (s t : OtaSelect × OtaSelect) : Prop where
  | slot (k : Nat) (here : index = k) (inside : k < n) (secId : Nat) (v : Word) (planned : plan s k n = some (secId, v))
      (writing : Writing s secId v t) (written : Written secId v t)
  | factory (here : index = FACTORY_INDEX) (erased : Unnumbered t)

section
variable {dev : Device} {parts : List EspPartitionInfo} {n : Nat} {info : EspPartitionPos} {bs : BootloaderState}

theorem OtaTable.lists (table : OtaTable dev parts n info bs) : Lists dev.list parts := by
  obtain ⟨num, accepted, rfl⟩ := table.accepted
  exact lists_loaded dev.memory accepted

theorem OtaTable.loaded (table : OtaTable dev parts n info bs) : bs = loaded parts := by
  obtain ⟨num, accepted, rfl⟩ := table.accepted
  have state := table.state
  rw [verified_loaded accepted] at state
  exact (Except.ok.inj state).symm

theorem OtaTable.bounded (table : OtaTable dev parts n info bs) : ¬ SlotsRunOn parts := by
  intro runOn
  have last := (numbered_hasSlot table.numbered (show 15 < 16 by decide)).mp (runOn 15 (by decide))
  have most := table.most
  omega

theorem OtaTable.count (table : OtaTable dev parts n info bs) : getOtaPartitionCount dev.list = some n :=
  (OtaTable.lists table).count_numbered table.numbered (OtaTable.bounded table)

theorem OtaTable.found (table : OtaTable dev parts n info bs) :
    ∃ otaData, espPartitionFindFirst dev.list ESP_PARTITION_TYPE_DATA ESP_PARTITION_SUBTYPE_DATA_OTA = some otaData ∧
      otaData.address = info.offset ∧ otaData.size = info.size := by
  obtain ⟨otaData, found, place⟩ := (OtaTable.lists table).findFirst_placed (by decide) table.otaData isOtaData_iff
  exact ⟨otaData, found, congrArg EspPartitionPos.offset place, congrArg EspPartitionPos.size place⟩

theorem Lists.member {list : List EspPartition} (lists : Lists list parts) {partition : EspPartition}
    (member : partition ∈ list) : ∃ part ∈ entries parts, part.type = partition.type ∧ part.subtype = partition.subtype := by
  obtain ⟨places, memory, table, rfl, same⟩ := lists
  obtain ⟨j, inside, rfl⟩ := List.mem_map.mp member
  exact ⟨table j, by rw [same]; exact List.mem_map_of_mem inside, rfl, rfl⟩

theorem wp_setBoot (table : OtaTable dev parts n info bs) {partition : EspPartition} {index : Int}
    (target : dev.Target partition index) (flash : Flash) :
    flashWp (dev.setBoot partition)
      (fun o d =>
        (o = .ok () → Ends n index (readSelects flash info.offset) (readSelects d info.offset)) ∧
        Leaves n index (readSelects flash info.offset) (readSelects d info.offset))
      (fun d => Leaves n index (readSelects flash info.offset) (readSelects d info.offset)) flash := by
  obtain ⟨otaData, found, address, size⟩ := OtaTable.found table
  obtain ⟨member, app, kind⟩ := target
  unfold Device.setBoot espOtaSetBootPartition
  simp only
  by_cases fails : dev.verifies ⟨partition.address, partition.size⟩ = false
  · rw [if_pos fails]
    exact wp_throw _ ⟨nofun, .kept rfl⟩
  · rw [if_neg fails, if_pos app, found]
    simp only
    rcases kind with ⟨rfl, factory⟩ | ⟨k, small, rfl, slot⟩
    · rw [if_pos factory, ← address]
      apply wp_mono (wp_eraseOtaData (by rw [size]; exact table.enough) flash)
      · rintro o _ d ⟨done, during⟩
        refine ⟨fun ok => .factory rfl (done ok), ?_⟩
        rcases during with rfl | erasing
        · exact .kept rfl
        · exact .factory rfl erasing
      · intro d erasing
        exact .factory rfl erasing
    · have other : partition.subtype.toNat ≠ ESP_PARTITION_SUBTYPE_APP_FACTORY := by
        rw [slot]
        simp
      have inside : k < n := by
        obtain ⟨part, partMember, type, subtype⟩ := (OtaTable.lists table).member member
        apply numbered_bounded table.numbered (entries_subset partMember)
        rw [indexed_slot_iff small]
        exact ⟨type.trans app, by rw [subtype, slot]⟩
      rw [if_neg other, slot, ← address]
      have ran := @espRewriteOtaData_ran dev.chipSize dev.list otaData n (ESP_PARTITION_SUBTYPE_APP_OTA_MIN + k) found
        (OtaTable.count table) (by rw [subTypeId small]; exact inside) flash
      rw [subTypeId small] at ran
      apply wp_congr ran
      apply wp_mono (wp_rewritePlan k n flash)
      · rintro o _ d ⟨done, during⟩
        constructor
        · intro ok
          obtain ⟨secId, v, planned, writing, written⟩ := done ok
          exact .slot k rfl inside secId v planned writing written
        · rcases during with rfl | ⟨secId, v, planned, writing⟩
          · exact .kept rfl
          · exact .slot k rfl inside secId v planned writing
      · rintro d ⟨secId, v, planned, writing⟩
        exact .slot k rfl inside secId v planned writing

theorem Leaves.positive {index : Int} {s t : OtaSelect × OtaSelect} (few : n ≤ 15) (leaves : Leaves n index s t)
    (positive : PositiveSeqs s) : PositiveSeqs t := by
  cases leaves with
  | kept same => rwa [same]
  | slot k _ inside secId v planned writing => exact writing_positive (by omega) positive planned writing
  | factory _ erasing =>
      refine ⟨fun valid => absurd erasing.1 valid.1, ?_⟩
      rcases erasing.2 with kept | erased
      · rw [kept]
        exact positive.2
      · exact fun valid => absurd erased valid.1

theorem erased_positive {flash : Flash} (erased : OtaErased info flash) : PositiveSeqs (readSelects flash info.offset) := by
  have first : (readSelects flash info.offset).1.otaSeq = UINT32_MAX := by
    apply load32_blank
    intro x low high
    have here := (erased (x - info.offset.toNat) (by omega)).1
    rwa [show info.offset.toNat + (x - info.offset.toNat) = x by omega] at here
  have second : (readSelects flash info.offset).2.otaSeq = UINT32_MAX := by
    apply load32_blank
    intro x low high
    have here := (erased (x - (info.offset + 0x1000).toNat) (by omega)).2
    rwa [show (info.offset + 0x1000).toNat + (x - (info.offset + 0x1000).toNat) = x by omega] at here
  exact ⟨fun valid => absurd first valid.1, fun valid => absurd second valid.1⟩

theorem SetRun.positive (table : OtaTable dev parts n info bs) {flash : Flash} (run : SetRun dev info flash) :
    PositiveSeqs (readSelects flash info.offset) := by
  induction run with
  | erased flash erased => exact erased_positive erased
  | set _ partition index target _ ih => exact Leaves.positive table.most (wp_setBoot table target _).ends.2 ih

theorem CutRun.positive (table : OtaTable dev parts n info bs) {flash : Flash} (run : CutRun dev info flash) :
    PositiveSeqs (readSelects flash info.offset) := by
  induction run with
  | erased flash erased => exact erased_positive erased
  | cut _ partition index target count after stopped ih =>
      exact Leaves.positive table.most (wp_cutAfter (wp_setBoot table target _) (.kept rfl) stopped) ih

theorem OtaTable.otaInfo (table : OtaTable dev parts n info bs) : bs.otaInfo = info := by
  rw [OtaTable.loaded table]
  exact placed_otaInfo table.otaData

theorem OtaTable.selected (table : OtaTable dev parts n info bs) (mapped : OtaDataMapped info.offset)
    (unmapped : Memory) (flash : Flash) :
    bootloaderUtilityGetSelectedBootPartition unmapped bs flash =
      match topSeq (readSelects flash info.offset) with
      | some seq => some (((seq - 1).toNat % n : Nat) : Int)
      | none =>
          if Unnumbered (readSelects flash info.offset) ∧ bs.factory.offset = 0 then some 0 else some FACTORY_INDEX := by
  have least := table.least
  have here := OtaTable.otaInfo table
  have count : bs.appCount = n := by
    rw [OtaTable.loaded table, loaded_appCount, numbered_countP table.numbered]
  rw [selected_mapped unmapped flash (by rw [here]; exact table.used) (by rw [here]; exact table.enough) (by rwa [here]),
    here]
  cases topSeq (readSelects flash info.offset) with
  | some seq => simp only [otaSlot, count, if_neg (show n ≠ 0 by omega)]
  | none => rfl

theorem OtaTable.selected_hidden (table : OtaTable dev parts n info bs) (hidden : 0x200000 ≤ info.offset.toNat)
    (unmapped : Memory) (flash flash' : Flash) :
    bootloaderUtilityGetSelectedBootPartition unmapped bs flash' =
      bootloaderUtilityGetSelectedBootPartition unmapped bs flash := by
  apply selected_congr
  rw [OtaTable.otaInfo table]
  exact mappedSelects_hidden unmapped flash flash' hidden

theorem Lists.findFirst_slot {list : List EspPartition} (lists : Lists list parts) (numbered : Numbered parts n)
    {partition : EspPartition} (member : partition ∈ list) (app : partition.type = ESP_PARTITION_TYPE_APP) {k : Nat}
    (small : k < 16) (slot : partition.subtype.toNat = ESP_PARTITION_SUBTYPE_APP_OTA_MIN + k) :
    espPartitionFindFirst list ESP_PARTITION_TYPE_APP (ESP_PARTITION_SUBTYPE_APP_OTA_MIN + k) = some partition := by
  obtain ⟨places, memory, table, rfl, same⟩ := lists
  obtain ⟨j, inside, rfl⟩ := List.mem_map.mp member
  have nodup : ((places.filter fun j => isOtaApp (table j)).map fun j => slotOf (table j)).Nodup := by
    have all := numbered.1.nodup_iff.mpr List.nodup_range
    have initial : (entries parts).Sublist parts := (List.takeWhile_prefix _).sublist
    have fewer := ((initial.filter isOtaApp).map slotOf).nodup all
    rw [same, List.filter_map, List.map_map] at fewer
    exact fewer
  have slotOfPlace {i : Nat} (hit : Matches ESP_PARTITION_TYPE_APP (ESP_PARTITION_SUBTYPE_APP_OTA_MIN + k) (table i)) :
      isOtaApp (table i) ∧ slotOf (table i) = k :=
    (indexed_slot ((indexed_slot_iff small (table i)).mpr hit)).2
  unfold espPartitionFindFirst
  rw [List.find?_map]
  cases found : places.find? _ with
  | none =>
      have miss := List.find?_eq_none.mp found j inside
      exact absurd (decide_eq_true ⟨app, .inr slot⟩) miss
  | some i =>
      have passes := List.find?_some found
      have hit := of_decide_eq_true passes
      have here := slotOfPlace ⟨hit.1, hit.2.resolve_left (slot_specific small)⟩
      have there := slotOfPlace ⟨app, slot⟩
      have equal : i = j := by
        apply List.inj_on_of_nodup_map nodup
        · exact List.mem_filter.mpr ⟨List.mem_of_find?_eq_some found, here.1⟩
        · exact List.mem_filter.mpr ⟨inside, there.1⟩
        · exact here.2.trans there.2.symm
      rw [equal]
      rfl

/-- After `esp_ota_set_boot_partition` of slot `k` has succeeded, the application and the bootloader both
select that slot, whatever calls came before, if the bootloader maps the OTA data. -/
theorem set_boot_selects (table : OtaTable dev parts n info bs) (mapped : OtaDataMapped info.offset) (unmapped : Memory)
    {flash : Flash} (run : SetRun dev info flash)
    (small : SeqsBelow (2 ^ 31) (readSelects flash info.offset)) (partition : EspPartition) (k : Nat)
    (target : dev.Target partition k) (ok : (dev.setBoot partition () flash).outcome = .ok ()) :
    espOtaGetBootPartition dev.list (dev.setBoot partition () flash).durable = some (some partition) ∧
      bootloaderUtilityGetSelectedBootPartition unmapped bs (dev.setBoot partition () flash).durable = some (k : Int) := by
  have few := table.most
  have positive := SetRun.positive table run
  have below : SeqsBelow (2 ^ 32 - n) (readSelects flash info.offset) :=
    ⟨fun valid => by have := small.1 valid; omega, fun valid => by have := small.2 valid; omega⟩
  have ends := (wp_setBoot table target flash).ends.1 ok
  generalize (dev.setBoot partition () flash).durable = after at ends
  cases ends with
  | factory here _ =>
      have : (k : Int) = -1 := here
      omega
  | slot j here inside secId v planned writing written =>
      have same : j = k := by omega
      subst same
      obtain ⟨secId', v', planned', number, residue⟩ := plan_spec inside (by omega) positive below
      rw [planned] at planned'
      cases planned'
      have valid : (if secId = 0 then (readSelects after info.offset).1 else (readSelects after info.offset).2).Valid :=
        ⟨by rw [written.1]; exact number, written.2⟩
      have top := writing_topSeq planned writing
      rw [if_pos valid] at top
      constructor
      · obtain ⟨member, app, factory | ⟨i, slot, index, subtype⟩⟩ := target
        · have : (j : Int) = -1 := factory.1
          omega
        · have equal : i = j := by omega
          subst equal
          obtain ⟨otaData, found, address, -⟩ := OtaTable.found table
          rw [getBoot_eq found (OtaTable.count table), address, top]
          simp only [partitionOfSeq, if_neg (show n ≠ 0 by omega), residue]
          rw [(OtaTable.lists table).findFirst_slot table.numbered member app slot subtype]
      · rw [OtaTable.selected table mapped, top]
        simp only [residue]

theorem switch_mapped (table : OtaTable dev parts n info bs) (mapped : OtaDataMapped info.offset) (unmapped : Memory)
    {flash : Flash} (run : CutRun dev info flash) (partition : EspPartition) (index : Int)
    (target : dev.Target partition index) (condition : SwitchesMapped n bs (readSelects flash info.offset) index) :
    AtomicSwitch unmapped dev bs flash partition index := by
  have few := table.most
  have positive := CutRun.positive table run
  intro count after stopped
  have leaves : Leaves n index (readSelects flash info.offset) (readSelects after info.offset) :=
    wp_cutAfter (wp_setBoot table target flash) (.kept rfl) stopped
  simp only [OtaTable.selected table mapped]
  generalize readSelects flash info.offset = s at *
  generalize readSelects after info.offset = t at *
  cases leaves with
  | kept same =>
      left
      rw [same]
  | slot k here inside secId v planned writing =>
      have other : index ≠ FACTORY_INDEX := by
        intro same
        have : (k : Int) = -1 := here.symm.trans same
        omega
      rw [SwitchesMapped, if_neg other] at condition
      obtain ⟨secId', v', planned', -, residue⟩ := plan_spec inside (by omega) positive condition.2
      rw [planned] at planned'
      cases planned'
      have top := writing_topSeq planned writing
      by_cases valid : (if secId = 0 then t.1 else t.2).Valid
      · right
        rw [if_pos valid] at top
        rw [top, here]
        simp only [residue]
      · left
        rw [if_neg valid] at top
        rw [top]
        cases before : topSeq s with
        | some seq => rfl
        | none =>
            have none := topSeq_eq_none.mp before
            have offset : bs.factory.offset ≠ 0 := by
              rcases condition.1 with first | second | offset
              · exact absurd (.inl first) none
              · exact absurd (.inr second) none
              · exact offset
            simp only [offset, and_false, if_false]
  | factory here erasing =>
      rw [SwitchesMapped, if_pos here] at condition
      obtain ⟨offset, slots⟩ := condition
      have first : ¬ t.1.Valid := fun valid => valid.1 erasing.1
      simp only [offset, and_false, if_false]
      by_cases second : t.2.Valid
      · left
        have kept : t.2 = s.2 := erasing.2.resolve_right second.1
        have stays : s.2.Valid := by rwa [← kept]
        rw [topSeq_second_only first second, kept]
        by_cases both : s.1.Valid
        · rw [topSeq_both both stays]
          rcases OTA_MAX_cases s.1.otaSeq s.2.otaSeq with ⟨top, above⟩ | ⟨top, -⟩
          · have same : (s.1.otaSeq - 1).toNat % n = (s.2.otaSeq - 1).toNat % n := slots both stays above
            simp only [top, same]
          · simp only [top]
        · rw [topSeq_second_only both stays]
      · right
        have none : topSeq t = none := topSeq_eq_none.mpr fun valid => valid.elim first second
        rw [none, here]

/-- The bootloader selects what it did before or the new target wherever the power goes out, when the call
meets the condition. -/
theorem switch_atomic (table : OtaTable dev parts n info bs) (unmapped : Memory) {flash : Flash}
    (run : CutRun dev info flash) (partition : EspPartition) (index : Int) (target : dev.Target partition index)
    (condition : SwitchesWhen n bs info flash index) : AtomicSwitch unmapped dev bs flash partition index := by
  rcases condition with hidden | ⟨mapped, condition⟩
  · intro count after _
    exact .inl (OtaTable.selected_hidden table hidden unmapped flash after)
  · exact switch_mapped table mapped unmapped run partition index target condition

end

def otaRecords : List EspPartitionInfo :=
  [otaDataRecord, appRecord 0x00 0x10000, appRecord 0x10 0x20000, appRecord 0x11 0x30000]

def otaDevice : Device := ⟨0x100000, fun _ => true, fun _ => false, tableOf otaRecords⟩

def appPartition (subtype : Byte) (address : Word) : EspPartition := ⟨0x00, subtype, address, 0x10000, [], false⟩

def blankFlash : Flash := fun _ => 0xFF

theorem otaTable : OtaTable otaDevice otaRecords 2 ⟨0x9000, 0x2000⟩ (loaded otaRecords) where
  accepted := ⟨4, rfl, rfl⟩
  state := rfl
  numbered := ⟨List.Perm.refl _, by decide⟩
  least := by decide
  most := by decide
  otaData := ⟨⟨otaDataRecord, by decide, by decide⟩, by decide⟩
  used := by decide
  enough := by decide

theorem factoryTarget : otaDevice.Target (appPartition 0x00 0x10000) FACTORY_INDEX :=
  ⟨by decide, rfl, .inl ⟨rfl, rfl⟩⟩

theorem slotTarget0 : otaDevice.Target (appPartition 0x10 0x20000) (0 : Nat) :=
  ⟨by decide, rfl, .inr ⟨0, by decide, rfl, rfl⟩⟩

theorem slotTarget1 : otaDevice.Target (appPartition 0x11 0x30000) (1 : Nat) :=
  ⟨by decide, rfl, .inr ⟨1, by decide, rfl, rfl⟩⟩

theorem erasedRun : SetRun otaDevice ⟨0x9000, 0x2000⟩ blankFlash := .erased _ fun _ _ => ⟨rfl, rfl⟩

def backFlash : Flash :=
  let first := (otaDevice.setBoot (appPartition 0x10 0x20000) () blankFlash).durable
  (otaDevice.setBoot (appPartition 0x00 0x10000) () first).durable

theorem backRun : SetRun otaDevice ⟨0x9000, 0x2000⟩ backFlash :=
  .set (.set erasedRun _ _ slotTarget0 (by decide +kernel)) _ _ factoryTarget (by decide +kernel)

/-- Then `ota_0` again, and `ota_1`. -/
theorem set_boot_selects_ota_1 :
    let flash := (otaDevice.setBoot (appPartition 0x10 0x20000) () backFlash).durable
    let after := (otaDevice.setBoot (appPartition 0x11 0x30000) () flash).durable
    espOtaGetBootPartition otaDevice.list after = some (some (appPartition 0x11 0x30000)) ∧
      bootloaderUtilityGetSelectedBootPartition (fun _ => 0) (loaded otaRecords) after = some ((1 : Nat) : Int) := by
  intro flash after
  have run : SetRun otaDevice ⟨0x9000, 0x2000⟩ flash := .set backRun _ _ slotTarget0 (by decide +kernel)
  have below : SeqsBelow (2 ^ 31) (readSelects flash (0x9000 : Word)) := by decide +kernel
  exact set_boot_selects otaTable (by decide) _ run below _ 1 slotTarget1 (by decide +kernel)

def farRecords : List EspPartitionInfo :=
  [{ otaDataRecord with pos := ⟨0x200000, 0x2000⟩ }, appRecord 0x10 0x20000, appRecord 0x11 0x30000]

def farDevice : Device := ⟨0x400000, fun _ => true, fun _ => false, tableOf farRecords⟩

theorem farTable : OtaTable farDevice farRecords 2 ⟨0x200000, 0x2000⟩ (loaded farRecords) where
  accepted := ⟨3, rfl, rfl⟩
  state := rfl
  numbered := ⟨List.Perm.refl _, by decide⟩
  least := by decide
  most := by decide
  otaData := ⟨⟨_, List.mem_cons_self, by decide⟩, by decide⟩
  used := by decide
  enough := by decide

/-- `ota_1` is set, and the bootloader goes on with `ota_0`: it reads no byte of the OTA data. -/
theorem far_otadata_not_selected :
    ¬ ∀ (dev : Device) (parts : List EspPartitionInfo) (n : Nat) (info : EspPartitionPos) (bs : BootloaderState)
      (unmapped : Memory) (flash : Flash) (partition : EspPartition) (k : Nat), OtaTable dev parts n info bs →
      SetRun dev info flash → SeqsBelow (2 ^ 31) (readSelects flash info.offset) → dev.Target partition k →
      (dev.setBoot partition () flash).outcome = .ok () →
      espOtaGetBootPartition dev.list (dev.setBoot partition () flash).durable = some (some partition) ∧
        bootloaderUtilityGetSelectedBootPartition unmapped bs (dev.setBoot partition () flash).durable = some (k : Int) := by
  intro claim
  have selects := claim farDevice farRecords 2 ⟨0x200000, 0x2000⟩ (loaded farRecords) (fun _ => 0xFF) blankFlash
    (appPartition 0x11 0x30000) 1 farTable (.erased _ fun _ _ => ⟨rfl, rfl⟩) (by decide)
    ⟨by decide, rfl, .inr ⟨1, by decide, rfl, rfl⟩⟩ (by decide)
  rw [OtaTable.selected_hidden farTable (by decide) (fun _ => 0xFF) blankFlash] at selects
  exact absurd selects.2 (by decide)

theorem CutRun.set {partition : EspPartition} {index : Int} {flash : Flash} (run : CutRun otaDevice ⟨0x9000, 0x2000⟩ flash)
    (target : otaDevice.Target partition index) :
    CutRun otaDevice ⟨0x9000, 0x2000⟩ (otaDevice.setBoot partition () flash).durable :=
  .cut run partition index target _ _ (wp_cutAfter_end (wp_setBoot otaTable target flash))

def switchedFlash : Flash :=
  let first := (otaDevice.setBoot (appPartition 0x10 0x20000) () blankFlash).durable
  let second := (otaDevice.setBoot (appPartition 0x11 0x30000) () first).durable
  (otaDevice.setBoot (appPartition 0x10 0x20000) () second).durable

theorem switchedRun : CutRun otaDevice ⟨0x9000, 0x2000⟩ switchedFlash := by
  have start : CutRun otaDevice ⟨0x9000, 0x2000⟩ blankFlash := .erased _ fun _ _ => ⟨rfl, rfl⟩
  exact CutRun.set (CutRun.set (CutRun.set start slotTarget0) slotTarget1) slotTarget0

/-- Back to the factory app with the power cut after the first sector: the bootloader selects `ota_1`. -/
theorem factory_switch_not_atomic :
    ¬ ∀ (unmapped : Memory) (dev : Device) (parts : List EspPartitionInfo) (n : Nat) (info : EspPartitionPos)
      (bs : BootloaderState) (flash : Flash) (partition : EspPartition) (index : Int), OtaTable dev parts n info bs →
      CutRun dev info flash → dev.Target partition index → AtomicSwitch unmapped dev bs flash partition index := by
  intro claim
  have atomic := claim (fun _ => 0) otaDevice otaRecords 2 ⟨0x9000, 0x2000⟩ (loaded otaRecords) switchedFlash _ _ otaTable
    switchedRun factoryTarget 1
  have before : bootloaderUtilityGetSelectedBootPartition (fun _ => 0) (loaded otaRecords) switchedFlash = some 0 := by
    decide +kernel
  have cut : ((otaDevice.setBoot (appPartition 0x00 0x10000)).cutAfter 1 () switchedFlash).map
      (bootloaderUtilityGetSelectedBootPartition (fun _ => 0) (loaded otaRecords)) = some (some 1) := by
    decide +kernel
  obtain ⟨after, stopped, selected⟩ := Option.map_eq_some_iff.mp cut
  rcases atomic after stopped with same | new
  · rw [selected, before] at same
    cases same
  · rw [selected] at new
    cases new

theorem switch_back_atomic :
    SwitchesWhen 2 (loaded otaRecords) ⟨0x9000, 0x2000⟩ switchedFlash (1 : Nat) ∧
      AtomicSwitch (fun _ => 0) otaDevice (loaded otaRecords) switchedFlash (appPartition 0x11 0x30000) (1 : Nat) := by
  have valid : (readSelects switchedFlash (0x9000 : Word)).1.Valid := by decide +kernel
  have below : SeqsBelow (2 ^ 32 - 2) (readSelects switchedFlash (0x9000 : Word)) := by decide +kernel
  have condition : SwitchesWhen 2 (loaded otaRecords) ⟨0x9000, 0x2000⟩ switchedFlash (1 : Nat) :=
    .inr ⟨by decide, .inl valid, below⟩
  exact ⟨condition, switch_atomic otaTable _ switchedRun _ _ slotTarget1 condition⟩

end EspFirmware.Proof.Boot
