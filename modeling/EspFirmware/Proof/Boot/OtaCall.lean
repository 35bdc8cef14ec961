import EspFirmware.Proof.Boot.OtaRun

/-!
One call of `esp_ota_set_boot_partition` on any OTA data, and what `esp_ota_get_boot_partition` says after it.
-/

namespace EspFirmware.Proof.Boot
open EspFirmware.Boot EspFirmware.Spec EspFirmware.Lib EspFirmware.Lib.Prog
open EspFirmware.Nvs (Byte Word)

abbrev OkOrFlashFails (p : FlashProg Unit) (flash : Flash) : Prop :=
  flashWp p (fun o _ => o = .ok () ∨ o = .err .flashOpFail) (fun _ => True) flash

theorem okOrFails_eraseSectors (chipSize : Word) (num sec : Nat) (flash : Flash) :
    OkOrFlashFails (eraseSectors chipSize num sec) flash := by
  induction num generalizing sec flash with
  | zero => exact wp_pure _ (Or.inl rfl)
  | succ num ih =>
      refine wp_bind ?_
      unfold spiFlashEraseSector
      split
      · exact wp_throw _ (Or.inr rfl)
      · exact wp_write trivial (ih (sec + 1) _) trivial

theorem okOrFails_eraseRange (chipSize startAddress size : Word) (flash : Flash) :
    OkOrFlashFails (spiFlashEraseRange chipSize startAddress size) flash := by
  unfold spiFlashEraseRange
  split
  · exact wp_throw _ (Or.inr rfl)
  · exact okOrFails_eraseSectors _ _ _ _

theorem okOrFails_writeWords (words : List Word) (a : Nat) (flash : Flash) :
    OkOrFlashFails (writeWords words a) flash := by
  induction words generalizing a flash with
  | nil => exact wp_pure _ (Or.inl rfl)
  | cons w words ih => exact wp_bind (wp_write trivial (ih (a + 4) _) trivial)

theorem okOrFails_write (chipSize destAddr : Word) (src : List Word) (flash : Flash) :
    OkOrFlashFails (spiFlashWrite chipSize destAddr src) flash := by
  unfold spiFlashWrite
  split
  · exact wp_pure _ (Or.inl rfl)
  · split
    · exact wp_throw _ (Or.inr rfl)
    · exact okOrFails_writeWords _ _ _

theorem okOrFails_bind {p q : FlashProg Unit} {flash : Flash} (first : OkOrFlashFails p flash)
    (later : ∀ flash, OkOrFlashFails q flash) : OkOrFlashFails (p >>= fun _ => q) flash := by
  refine wp_bind (wp_mono first ?_ fun _ stop => stop)
  rintro o _ d (rfl | rfl)
  · exact later d
  · exact Or.inr rfl

section
variable {chipSize : Word} {otaData : EspPartition}

theorem okOrFails_eraseOne (enough : 2 * 0x1000 ≤ otaData.size) {start : Word} (inside : start.toNat ≤ 4096)
    (aligned : start.toNat % 4096 = 0) (flash : Flash) :
    OkOrFlashFails (espPartitionEraseRange chipSize otaData start 4096) flash := by
  have size : 2 * 4096 ≤ otaData.size.toNat := enough
  have notBeyond : ¬ start > otaData.size := by
    rw [gt_iff_lt, BitVec.lt_def]
    omega
  have fits : ¬ start + 4096 > otaData.size := by
    rw [gt_iff_lt, BitVec.lt_def, BitVec.toNat_add]
    simp
    omega
  have sectors : (4096 : Word).toNat % SPI_FLASH_SEC_SIZE = 0 := by decide
  unfold espPartitionEraseRange
  rw [if_neg notBeyond, if_neg fits, if_neg (not_not_intro sectors), if_neg (not_not_intro aligned)]
  exact okOrFails_eraseRange _ _ _ _

theorem okOrFails_writeRecord (enough : 2 * 0x1000 ≤ otaData.size) {start : Word} (inside : start.toNat ≤ 4096)
    {words : List Word} (short : words.length = 8) (flash : Flash) :
    OkOrFlashFails (espPartitionWrite chipSize otaData start words) flash := by
  have size : 2 * 4096 ≤ otaData.size.toNat := enough
  have notBeyond : ¬ start > otaData.size := by
    rw [gt_iff_lt, BitVec.lt_def]
    omega
  have fits : ¬ start + BitVec.ofNat 32 (4 * words.length) > otaData.size := by
    rw [short, gt_iff_lt, BitVec.lt_def, BitVec.toNat_add]
    simp
    omega
  unfold espPartitionWrite
  rw [if_neg notBeyond, if_neg fits]
  exact okOrFails_write _ _ _ _

theorem okOrFails_rewriteOtaSeq (enough : 2 * 0x1000 ≤ otaData.size) {seq : Word} {secId : Nat}
    (sector : secId = 0 ∨ secId = 1) {s : OtaSelect} (labels : s.seqLabel.length = 6) (flash : Flash) :
    OkOrFlashFails (rewriteOtaSeq chipSize seq secId s otaData) flash := by
  have place (i : Nat) (eq : i = secId * 4096) :
      (BitVec.ofNat 32 i).toNat ≤ 4096 ∧ (BitVec.ofNat 32 i).toNat % 4096 = 0 := by
    rcases sector with rfl | rfl <;> subst eq <;> decide
  unfold rewriteOtaSeq
  rw [if_pos sector]
  have first := place (secId * 4096) rfl
  have second := place (4096 * secId) (Nat.mul_comm _ _)
  refine okOrFails_bind (okOrFails_eraseOne enough first.1 first.2 flash) fun flash => ?_
  refine okOrFails_writeRecord enough second.1 ?_ flash
  exact words_length labels

theorem okOrFails_rewritePlan (enough : 2 * 0x1000 ≤ otaData.size) {x count secId : Nat} {v : Word} (flash : Flash)
    (planned : plan (readSelects flash otaData.address) x count = some (secId, v)) :
    OkOrFlashFails (rewritePlan chipSize otaData (readSelects flash otaData.address) x count) flash := by
  have labels (a : Nat) : (OtaSelect.read flash a).seqLabel.length = 6 := by simp [OtaSelect.read]
  unfold rewritePlan
  rw [planned]
  dsimp only
  rcases plan_cases planned with ⟨rfl, -⟩ | ⟨rfl, -⟩ | ⟨rfl, -⟩
  · exact okOrFails_rewriteOtaSeq enough (Or.inr rfl) (labels _) flash
  · exact okOrFails_rewriteOtaSeq enough (Or.inl rfl) (labels _) flash
  · exact okOrFails_rewriteOtaSeq enough (Or.inl rfl) (labels _) flash

end

section
variable {chipSize : Word} {verifies : EspPartitionPos → Bool} {list : List EspPartition} {flash : Flash}
  {partition otaData : EspPartition}

theorem asked_of_err {e : EspErr} (ran : setBootRan chipSize verifies list flash partition = Prog.throw e () flash) :
    SetsWhatWasAsked chipSize verifies list flash partition :=
  Or.inl ⟨e, by rw [ran]; rfl, by rw [ran]; rfl⟩

theorem not_asked_of_fault (ran : setBootRan chipSize verifies list flash partition = Prog.fault () flash) :
    ¬ SetsWhatWasAsked chipSize verifies list flash partition := by
  intro asked
  rcases asked with ⟨e, failed, -⟩ | ⟨ok, -⟩
  · rw [ran] at failed
    cases failed
  · rw [ran] at ok
    cases ok

theorem asked_of_ok (ok : (setBootRan chipSize verifies list flash partition).outcome = .ok ()) :
    SetsWhatWasAsked chipSize verifies list flash partition ↔
      espOtaGetBootPartition list (setBootRan chipSize verifies list flash partition).durable = some (some partition) := by
  constructor
  · intro asked
    rcases asked with ⟨e, failed, -⟩ | ⟨-, boots⟩
    · rw [ok] at failed
      cases failed
    · exact boots
  · intro boots
    exact Or.inr ⟨ok, boots⟩

theorem getBoot_uncounted
    (found : espPartitionFindFirst list ESP_PARTITION_TYPE_DATA ESP_PARTITION_SUBTYPE_DATA_OTA = some otaData)
    (uncounted : getOtaPartitionCount list = none) : espOtaGetBootPartition list flash = none := by
  unfold espOtaGetBootPartition
  rw [found, uncounted]

theorem findFirst_subtype {type : Byte} {subtype : Nat} (specific : subtype ≠ 0xff)
    (found : espPartitionFindFirst list type subtype = some partition) :
    partition.type = type ∧ partition.subtype.toNat = subtype := by
  have holds := List.find?_some found
  rw [decide_eq_true_iff] at holds
  exact ⟨holds.1, holds.2.resolve_left specific⟩

theorem findDefault_or (list : List EspPartition) :
    findDefaultBootPartition list =
      (espPartitionFindFirst list ESP_PARTITION_TYPE_APP ESP_PARTITION_SUBTYPE_APP_FACTORY).or
        (((List.range' ESP_PARTITION_SUBTYPE_APP_OTA_MIN 16).findSome?
          (espPartitionFindFirst list ESP_PARTITION_TYPE_APP)).or
            (espPartitionFindFirst list ESP_PARTITION_TYPE_APP ESP_PARTITION_SUBTYPE_APP_TEST)) := by
  unfold findDefaultBootPartition
  simp only [Option.orElse_eq_orElse, Option.orElse_eq_or]

theorem default_factory (factory : partition.subtype.toNat = ESP_PARTITION_SUBTYPE_APP_FACTORY) :
    findDefaultBootPartition list = some partition ↔
      espPartitionFindFirst list ESP_PARTITION_TYPE_APP ESP_PARTITION_SUBTYPE_APP_FACTORY = some partition := by
  rw [findDefault_or]
  cases first : espPartitionFindFirst list ESP_PARTITION_TYPE_APP ESP_PARTITION_SUBTYPE_APP_FACTORY with
  | some other => exact Iff.rfl
  | none =>
      refine iff_of_false ?_ (Option.some_ne_none _ ·.symm)
      intro result
      rw [Option.none_or, Option.or_eq_some_iff] at result
      have other : partition.subtype.toNat ≠ ESP_PARTITION_SUBTYPE_APP_FACTORY := by
        rcases result with slot | ⟨-, test⟩
        · obtain ⟨k, member, found⟩ := List.exists_of_findSome?_eq_some slot
          have bounds : 0x10 ≤ k ∧ k < 0x20 := List.mem_range'_1.mp member
          rw [(findFirst_subtype (by omega) found).2]
          change k ≠ 0
          omega
        · rw [(findFirst_subtype (by decide) test).2]
          decide
      exact other factory

theorem pred_mod {m n : Nat} (least : 0 < m) (positive : 0 < n) : (m - 1) % n = n - 1 ↔ n ∣ m := by
  have split : n * ((m - 1) / n) + ((m - 1) % n + 1) = m := by
    have := Nat.div_add_mod (m - 1) n
    omega
  have bound := Nat.mod_lt (m - 1) positive
  have rest : n ∣ m ↔ n ∣ (m - 1) % n + 1 := by
    conv_lhs => rw [← split]
    exact Nat.dvd_add_right (Nat.dvd_mul_right _ _)
  rw [rest]
  constructor
  · intro highest
    rw [highest, Nat.sub_add_cancel positive]
  · intro divides
    have := Nat.le_of_dvd (Nat.succ_pos _) divides
    omega

theorem last_slot {x n : Nat} (last : x + 1 = n) : ((0 : Word) - 1).toNat % n = x ↔ n ∣ 2 ^ 32 := by
  have value : ((0 : Word) - 1).toNat = 2 ^ 32 - 1 := by decide
  rw [value, ← pred_mod (by decide) (by omega)]
  omega

theorem last_of_residue {x n : Nat} (inside : x < n) (residue : 0 % n = (x + 1) % n) : x + 1 = n := by
  rw [Nat.zero_mod] at residue
  have := Nat.le_of_dvd (Nat.succ_pos x) (Nat.dvd_of_mod_eq_zero residue.symm)
  omega

theorem next_of_fits {seq : Word} {x n : Nat} (inside : x < n) (fits : SeqFits (some seq) x n) :
    ∃ v, nextSeq seq x n = some v ∧ v ≠ UINT32_MAX ∧ (v - 1).toNat % n = x := by
  obtain ⟨⟨number, above, small, residue⟩, zero⟩ := fits seq rfl
  obtain ⟨v, picked, least, most, slot⟩ := nextSeq_least above (by omega) residue
  refine ⟨v, picked, ?_, ?_⟩
  · rintro rfl
    have value : UINT32_MAX.toNat = 2 ^ 32 - 1 := rfl
    omega
  · by_cases positive : v = 0
    · subst positive
      have first : seq = 0 := BitVec.eq_of_toNat_eq (by simpa using least)
      have last := last_of_residue inside slot
      exact (last_slot last).mpr (zero first last)
    · exact slot_of_next inside slot positive

theorem next_of_slot {v : Word} {x n : Nat} (positive : v ≠ 0) (slot : (v - 1).toNat % n = x) :
    v.toNat % n = (x + 1) % n := by
  have least : 0 < v.toNat := by
    by_contra none
    exact positive (BitVec.eq_of_toNat_eq (by simp; omega))
  have less : (v - 1).toNat = v.toNat - 1 := by
    rw [BitVec.toNat_sub]
    have := v.isLt
    simp
    omega
  rw [← slot, less, Nat.mod_add_mod, Nat.sub_add_cancel least]

theorem fits_of_next {seq v : Word} {x n : Nat} (inside : x < n) (few : n ≤ 16) (picked : nextSeq seq x n = some v)
    (number : v ≠ UINT32_MAX) (slot : (v - 1).toNat % n = x) : SeqFits (some seq) x n := by
  intro seq' same
  cases same
  have above : seq.toNat ≤ v.toNat := nextSeq_ge picked
  have positive : 0 < n := by omega
  by_cases zero : v = 0
  · subst zero
    have first : seq = 0 := BitVec.eq_of_toNat_eq (by simpa using above)
    subst first
    have fromZero : (0 : Word).toNat ≤ x + 1 := Nat.zero_le _
    obtain ⟨v, picked', -, -, residue⟩ := nextSeq_least fromZero (by omega) rfl
    rw [picked] at picked'
    cases picked'
    have last := last_of_residue inside residue
    refine ⟨⟨0, Nat.zero_le _, by decide, residue⟩, fun _ _ => (last_slot last).mp slot⟩
  · constructor
    · refine ⟨v.toNat, above, ?_, next_of_slot zero slot⟩
      by_contra large
      have value : UINT32_MAX.toNat = 2 ^ 32 - 1 := rfl
      have := v.isLt
      exact number (BitVec.eq_of_toNat_eq (by omega))
    · intro first last
      subst first
      have residue : 0 % n = (x + 1) % n := by rw [last, Nat.mod_self, Nat.zero_mod]
      have fromZero : (0 : Word).toNat ≤ 0 := Nat.le_refl _
      obtain ⟨v, picked', -, most, -⟩ := nextSeq_least fromZero (by decide) residue
      rw [picked] at picked'
      cases picked'
      exact absurd (BitVec.eq_of_toNat_eq (by simpa using most)) zero

theorem next_not_erased {seq v : Word} {x n : Nat} (inside : x < n) (few : n ≤ 16) (picked : nextSeq seq x n = some v)
    (number : seq ≠ UINT32_MAX) (slot : (seq - 1).toNat % n = x) : v ≠ UINT32_MAX := by
  have value : UINT32_MAX.toNat = 2 ^ 32 - 1 := rfl
  rintro rfl
  have := seq.isLt
  by_cases zero : seq = 0
  · subst zero
    have fromZero : (0 : Word).toNat ≤ x + 1 := Nat.zero_le _
    obtain ⟨v, picked', -, most, -⟩ := nextSeq_least fromZero (show x + 1 < 2 ^ 32 by omega) rfl
    rw [picked] at picked'
    cases picked'
    omega
  · obtain ⟨v, picked', -, most, -⟩ :=
      nextSeq_least (Nat.le_refl _) seq.isLt (next_of_slot zero slot)
    rw [picked] at picked'
    cases picked'
    exact number (BitVec.eq_of_toNat_eq (by omega))

theorem plan_none {s : OtaSelect × OtaSelect} {x n : Nat} (planned : plan s x n = none) :
    ∃ seq, topSeq s = some seq ∧ nextSeq seq x n = none := by
  unfold plan at planned
  unfold topSeq
  split at planned
  · rename_i both
    exact ⟨_, if_pos both, Option.map_eq_none_iff.mp planned⟩
  · rename_i notBoth
    rw [if_neg notBoth]
    split at planned
    · rename_i first
      exact ⟨_, if_pos first, Option.map_eq_none_iff.mp planned⟩
    · rename_i notFirst
      rw [if_neg notFirst]
      split at planned
      · rename_i second
        exact ⟨_, if_pos second, Option.map_eq_none_iff.mp planned⟩
      · cases planned

theorem plan_fits {s : OtaSelect × OtaSelect} {x n secId : Nat} {v : Word} (inside : x < n) (few : n ≤ 16)
    (planned : plan s x n = some (secId, v)) :
    v ≠ UINT32_MAX ∧ (v - 1).toNat % n = x ↔ SeqFits (topSeq s) x n := by
  have onRecord {seq : Word} (picked : nextSeq seq x n = some v) :
      v ≠ UINT32_MAX ∧ (v - 1).toNat % n = x ↔ SeqFits (some seq) x n := by
    constructor
    · rintro ⟨number, slot⟩
      exact fits_of_next inside few picked number slot
    · intro fits
      obtain ⟨v', picked', number, slot⟩ := next_of_fits inside fits
      rw [picked] at picked'
      cases picked'
      exact ⟨number, slot⟩
  rcases plan_cases planned with ⟨-, -, top, picked⟩ | ⟨-, -, top, picked⟩ | ⟨-, -, -, top, rfl⟩
  · rw [top]
    exact onRecord picked
  · rw [top]
    exact onRecord picked
  · rw [top]
    have value : (BitVec.ofNat 32 (x + 1)).toNat = x + 1 := by
      rw [BitVec.toNat_ofNat, Nat.mod_eq_of_lt (by omega)]
    have erased : UINT32_MAX.toNat = 2 ^ 32 - 1 := rfl
    refine iff_of_true ⟨?_, slot_of_next inside (by rw [value]) ?_⟩ ?_
    · intro same
      rw [same] at value
      omega
    · intro same
      rw [same] at value
      simp at value
    · intro seq none
      cases none

section
variable {chipSize : Word} {verifies : EspPartitionPos → Bool} {list : List EspPartition} {flash : Flash}
  {partition otaData : EspPartition} {n : Nat}

theorem partitionOfSeq_iff (positive : 0 < n) (few : n ≤ 16) {seq : Word} :
    partitionOfSeq list n seq = some (some partition) ↔
      (seq - 1).toNat % n = SUB_TYPE_ID partition.subtype.toNat ∧
        espPartitionFindFirst list ESP_PARTITION_TYPE_APP
          (ESP_PARTITION_SUBTYPE_APP_OTA_MIN + SUB_TYPE_ID partition.subtype.toNat) = some partition := by
  have bound := Nat.mod_lt (seq - 1).toNat positive
  unfold partitionOfSeq
  rw [if_neg (by omega), Option.some_inj]
  constructor
  · intro found
    have here := (findFirst_subtype (show 0x10 + _ ≠ 0xff by omega) found).2
    have slot : SUB_TYPE_ID partition.subtype.toNat = (seq - 1).toNat % n := by
      rw [here]
      exact subTypeId (by omega)
    rw [slot]
    exact ⟨rfl, found⟩
  · rintro ⟨slot, found⟩
    rw [slot]
    exact found

theorem setBootRan_eq (image : verifies ⟨partition.address, partition.size⟩ = true)
    (app : partition.type = ESP_PARTITION_TYPE_APP)
    (found : espPartitionFindFirst list ESP_PARTITION_TYPE_DATA ESP_PARTITION_SUBTYPE_DATA_OTA = some otaData) :
    setBootRan chipSize verifies list flash partition =
      (if partition.subtype.toNat = ESP_PARTITION_SUBTYPE_APP_FACTORY then
        espPartitionEraseRange chipSize otaData 0 otaData.size
      else espRewriteOtaData chipSize list partition.subtype.toNat) () flash := by
  unfold setBootRan espOtaSetBootPartition
  simp only [image, Bool.true_eq_false, if_false, app, if_true, found]

end

theorem countFrom_le {left : Nat} (counted : otaPartitionCountFrom list left = some n) : n ≤ 16 := by
  induction left with
  | zero =>
      unfold otaPartitionCountFrom at counted
      split at counted <;> cases counted
      exact Nat.le_refl 16
  | succ left ih =>
      unfold otaPartitionCountFrom at counted
      split at counted
      · exact ih counted
      · cases counted
        omega

theorem asked_factory (image : verifies ⟨partition.address, partition.size⟩ = true)
    (app : partition.type = ESP_PARTITION_TYPE_APP)
    (found : espPartitionFindFirst list ESP_PARTITION_TYPE_DATA ESP_PARTITION_SUBTYPE_DATA_OTA = some otaData)
    (enough : 2 * 0x1000 ≤ otaData.size)
    (flashWorks : (setBootRan chipSize verifies list flash partition).outcome ≠ .err .flashOpFail)
    (factory : partition.subtype.toNat = ESP_PARTITION_SUBTYPE_APP_FACTORY) :
    SetsWhatWasAsked chipSize verifies list flash partition ↔
      otaData.size.toNat % SPI_FLASH_SEC_SIZE ≠ 0 ∨ getOtaPartitionCount list ≠ none ∧
        espPartitionFindFirst list ESP_PARTITION_TYPE_APP ESP_PARTITION_SUBTYPE_APP_FACTORY = some partition := by
  have ran : setBootRan chipSize verifies list flash partition = _ := setBootRan_eq image app found
  rw [if_pos factory] at ran
  have notBeyond : ¬ (0 : Word) > otaData.size := by simp
  have fits : ¬ (0 : Word) + otaData.size > otaData.size := by simp
  by_cases sectors : otaData.size.toNat % SPI_FLASH_SEC_SIZE ≠ 0
  · refine iff_of_true (asked_of_err (e := .invalidSize) ?_) (Or.inl sectors)
    rw [ran, espPartitionEraseRange, if_neg notBeyond, if_neg fits, if_pos sectors]
  · have ok : (setBootRan chipSize verifies list flash partition).outcome = .ok () := by
      have ends := (okOrFails_eraseRange chipSize (otaData.address + 0) otaData.size flash).ends
      rw [ran, espPartitionEraseRange, if_neg notBeyond, if_neg fits, if_neg sectors, if_neg (by decide)] at flashWorks ⊢
      exact ends.resolve_right flashWorks
    have after := (wp_eraseOtaData enough flash).ends.1 (ran ▸ ok)
    rw [asked_of_ok ok, ran]
    cases counted : getOtaPartitionCount list with
    | none =>
        rw [getBoot_uncounted found counted]
        simp [sectors]
    | some n =>
        rw [getBoot_eq found counted, topSeq_unnumbered after]
        simp only [sectors, false_or, ne_eq, reduceCtorEq, not_false_eq_true, true_and, Option.some_inj]
        exact default_factory factory

theorem planned_boots
    (found : espPartitionFindFirst list ESP_PARTITION_TYPE_DATA ESP_PARTITION_SUBTYPE_DATA_OTA = some otaData)
    (counted : getOtaPartitionCount list = some n) (inside : SUB_TYPE_ID partition.subtype.toNat < n) {d : Flash}
    {secId : Nat} {v : Word}
    (planned : plan (readSelects flash otaData.address) (SUB_TYPE_ID partition.subtype.toNat) n = some (secId, v))
    (writing : Writing (readSelects flash otaData.address) secId v (readSelects d otaData.address))
    (written : Written secId v (readSelects d otaData.address)) :
    espOtaGetBootPartition list d = some (some partition) ↔
      espPartitionFindFirst list ESP_PARTITION_TYPE_APP
          (ESP_PARTITION_SUBTYPE_APP_OTA_MIN + SUB_TYPE_ID partition.subtype.toNat) = some partition ∧
        SeqFits (topSeq (readSelects flash otaData.address)) (SUB_TYPE_ID partition.subtype.toNat) n := by
  have few := countFrom_le counted
  have positive : 0 < n := by omega
  have top := writing_topSeq planned writing
  rw [getBoot_eq found counted, ← plan_fits inside few planned]
  by_cases number : v = UINT32_MAX
  · have invalid : ¬ (if secId = 0 then (readSelects d otaData.address).1 else (readSelects d otaData.address).2).Valid := by
      intro valid
      exact valid.1 (written.1.trans number)
    rw [if_neg invalid] at top
    rw [top]
    refine iff_of_false ?_ (fun both => both.2.1 number)
    rcases plan_cases planned with ⟨-, valid, same, picked⟩ | ⟨-, valid, same, picked⟩ | ⟨-, -, -, -, next⟩
    · rw [same]
      intro boots
      exact next_not_erased inside few picked valid.1 ((partitionOfSeq_iff positive few).mp boots).1 number
    · rw [same]
      intro boots
      exact next_not_erased inside few picked valid.1 ((partitionOfSeq_iff positive few).mp boots).1 number
    · have value : (BitVec.ofNat 32 (SUB_TYPE_ID partition.subtype.toNat + 1)).toNat = 2 ^ 32 - 1 := by
        rw [← next, number]
        rfl
      rw [BitVec.toNat_ofNat, Nat.mod_eq_of_lt (by omega)] at value
      omega
  · have valid : (if secId = 0 then (readSelects d otaData.address).1 else (readSelects d otaData.address).2).Valid :=
      ⟨by rw [written.1]; exact number, written.2⟩
    rw [if_pos valid] at top
    rw [top]
    refine (partitionOfSeq_iff positive few).trans ?_
    constructor
    · rintro ⟨slot, first⟩
      exact ⟨first, number, slot⟩
    · rintro ⟨first, -, slot⟩
      exact ⟨slot, first⟩

theorem asked_slot (image : verifies ⟨partition.address, partition.size⟩ = true)
    (app : partition.type = ESP_PARTITION_TYPE_APP)
    (found : espPartitionFindFirst list ESP_PARTITION_TYPE_DATA ESP_PARTITION_SUBTYPE_DATA_OTA = some otaData)
    (enough : 2 * 0x1000 ≤ otaData.size)
    (flashWorks : (setBootRan chipSize verifies list flash partition).outcome ≠ .err .flashOpFail)
    (other : partition.subtype.toNat ≠ ESP_PARTITION_SUBTYPE_APP_FACTORY) :
    SetsWhatWasAsked chipSize verifies list flash partition ↔
      ∃ count, getOtaPartitionCount list = some count ∧
        (count ≤ SUB_TYPE_ID partition.subtype.toNat ∨
          espPartitionFindFirst list ESP_PARTITION_TYPE_APP
              (ESP_PARTITION_SUBTYPE_APP_OTA_MIN + SUB_TYPE_ID partition.subtype.toNat) = some partition ∧
            SeqFits (topSeq (readSelects flash otaData.address)) (SUB_TYPE_ID partition.subtype.toNat) count) := by
  have ran : setBootRan chipSize verifies list flash partition = _ := setBootRan_eq image app found
  rw [if_neg other] at ran
  cases counted : getOtaPartitionCount list with
  | none =>
      refine iff_of_false (not_asked_of_fault ?_) (by simp)
      rw [ran, espRewriteOtaData, found]
      dsimp only
      rw [counted]
  | some n =>
      simp only [Option.some_inj, exists_eq_left']
      by_cases inside : SUB_TYPE_ID partition.subtype.toNat < n
      · rw [espRewriteOtaData_ran found counted inside] at ran
        rw [or_iff_right (Nat.not_le.mpr inside)]
        cases planned : plan (readSelects flash otaData.address) (SUB_TYPE_ID partition.subtype.toNat) n with
        | none =>
            refine iff_of_false (not_asked_of_fault (by rw [ran, rewritePlan, planned])) ?_
            rintro ⟨-, fits⟩
            obtain ⟨seq, top, picked⟩ := plan_none planned
            rw [top] at fits
            obtain ⟨v, picked', -⟩ := next_of_fits inside fits
            rw [picked] at picked'
            cases picked'
        | some chosen =>
            obtain ⟨secId, v⟩ := chosen
            have ok : (setBootRan chipSize verifies list flash partition).outcome = .ok () := by
              rw [ran] at flashWorks ⊢
              refine Or.resolve_right ?_ flashWorks
              exact (okOrFails_rewritePlan enough flash planned).ends
            obtain ⟨secId', v', planned', writing, written⟩ :=
              (wp_rewritePlan (SUB_TYPE_ID partition.subtype.toNat) n flash).ends.1 (ran ▸ ok)
            rw [planned] at planned'
            cases planned'
            rw [asked_of_ok ok, ran]
            exact planned_boots found counted inside planned writing written
      · have beyond := Nat.not_lt.mp inside
        refine iff_of_true (asked_of_err (e := .invalidArg) ?_) (Or.inl beyond)
        rw [ran, espRewriteOtaData, found]
        dsimp only
        rw [counted]
        dsimp only
        rw [if_pos beyond]

/-- `esp_ota_set_boot_partition` of an app with a valid image sets what was asked for, or fails and leaves the OTA
data as it was, where nothing but the flash can fail: exactly under the condition. -/
theorem set_boot_asked_iff (image : verifies ⟨partition.address, partition.size⟩ = true)
    (app : partition.type = ESP_PARTITION_TYPE_APP)
    (sectors : ∀ otaData, espPartitionFindFirst list ESP_PARTITION_TYPE_DATA ESP_PARTITION_SUBTYPE_DATA_OTA =
      some otaData → 2 * 0x1000 ≤ otaData.size)
    (flashWorks : (setBootRan chipSize verifies list flash partition).outcome ≠ .err .flashOpFail) :
    SetsWhatWasAsked chipSize verifies list flash partition ↔ AskedRight list flash partition := by
  unfold AskedRight
  cases found : espPartitionFindFirst list ESP_PARTITION_TYPE_DATA ESP_PARTITION_SUBTYPE_DATA_OTA with
  | none =>
      refine iff_of_true (asked_of_err (e := .notFound) ?_) (fun _ none => by cases none)
      unfold setBootRan espOtaSetBootPartition
      simp only [image, Bool.true_eq_false, if_false, app, if_true, found]
  | some otaData =>
      simp only [Option.some_inj, forall_eq']
      by_cases factory : partition.subtype.toNat = ESP_PARTITION_SUBTYPE_APP_FACTORY
      · rw [if_pos factory]
        exact asked_factory image app found (sectors otaData found) flashWorks factory
      · rw [if_neg factory]
        exact asked_slot image app found (sectors otaData found) flashWorks factory

end

theorem set_boot_asked_ota_1 :
    SetsWhatWasAsked 0x100000 (fun _ => true) otaDevice.list blankFlash (appPartition 0x11 0x30000) ↔
      AskedRight otaDevice.list blankFlash (appPartition 0x11 0x30000) := by
  refine set_boot_asked_iff rfl rfl ?_ (by decide)
  intro otaData found
  have here : espPartitionFindFirst otaDevice.list ESP_PARTITION_TYPE_DATA ESP_PARTITION_SUBTYPE_DATA_OTA =
      some ⟨0x01, 0x00, 0x9000, 0x2000, [], false⟩ := by decide
  rw [here] at found
  cases found
  decide

def testAppTable : RawTable := tableOf [otaDataRecord, appRecord 0x10 0x10000, appRecord 0x20 0x20000]

def testAppPartition : EspPartition := appPartition 0x20 0x20000

/-- The test app is set to boot with success: `ota_0` boots. -/
theorem test_app_boots_ota_0 :
    ¬ ∀ (memory : Nat → Bool) (table : RawTable) (chipSize : Word) (verifies : EspPartitionPos → Bool) (flash : Flash)
      (partition : EspPartition), partition ∈ loadPartitions memory table → partition.type = ESP_PARTITION_TYPE_APP →
      verifies ⟨partition.address, partition.size⟩ = true →
      (∀ otaData, espPartitionFindFirst (loadPartitions memory table) ESP_PARTITION_TYPE_DATA
        ESP_PARTITION_SUBTYPE_DATA_OTA = some otaData → 2 * 0x1000 ≤ otaData.size) →
      (setBootRan chipSize verifies (loadPartitions memory table) flash partition).outcome ≠ .err .flashOpFail →
      SetsWhatWasAsked chipSize verifies (loadPartitions memory table) flash partition := by
  intro claim
  have found : espPartitionFindFirst (loadPartitions (fun _ => false) testAppTable) ESP_PARTITION_TYPE_DATA
      ESP_PARTITION_SUBTYPE_DATA_OTA = some ⟨0x01, 0x00, 0x9000, 0x2000, [], false⟩ := by decide
  have enough : ∀ otaData, espPartitionFindFirst (loadPartitions (fun _ => false) testAppTable) ESP_PARTITION_TYPE_DATA
      ESP_PARTITION_SUBTYPE_DATA_OTA = some otaData → 2 * 0x1000 ≤ otaData.size := by
    intro otaData here
    rw [found] at here
    cases here
    decide
  have ok : (setBootRan 0x100000 (fun _ => true) (loadPartitions (fun _ => false) testAppTable) blankFlash
      testAppPartition).outcome = .ok () := by decide
  have asked := claim (fun _ => false) testAppTable 0x100000 (fun _ => true) blankFlash testAppPartition (by decide) rfl rfl
    enough (by rw [ok]; simp)
  have boots := (asked_of_ok ok).mp asked
  have selected : espOtaGetBootPartition (loadPartitions (fun _ => false) testAppTable)
      (setBootRan 0x100000 (fun _ => true) (loadPartitions (fun _ => false) testAppTable) blankFlash
        testAppPartition).durable = some (some (appPartition 0x10 0x10000)) := by decide +kernel
  rw [selected] at boots
  exact absurd boots (by decide)

end EspFirmware.Proof.Boot
