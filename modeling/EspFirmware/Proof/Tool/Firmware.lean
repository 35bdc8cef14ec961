import EspFirmware.Proof.Boot.Table
import EspFirmware.Proof.Tool.Binary

/-!
The binary form of a partition table as the firmware reads it.
-/

namespace EspFirmware.Proof.Tool
open EspFirmware.Tool EspFirmware.Spec EspFirmware.Lib
open EspFirmware.Boot (EspPartitionInfo EspPartition RawTable listItem loadPartitions basicVerifyFrom
  espPartitionTableBasicVerify ESP_PARTITION_MAGIC ESP_PARTITION_MAGIC_MD5)
open EspFirmware.Nvs (Byte Word wordBytes wordOf byteOf)
open PartitionDefinition (encode decode packName packUnsigned byteAt wordAt)

variable {m : Lib.Memory} {chipSize : Word} {raw : RawTable}

def RecordAt (m : Lib.Memory) (a : Nat) (r : List Byte) : Prop := ∀ j < 32, m (a + j) = byteAt r j

theorem recordAt_of_startsWith {records : List (List Byte)} {rest : List Byte}
    (whole : ∀ r ∈ records, r.length = 32) (held : StartsWith m (records.flatten ++ rest)) {i : Nat} {r : List Byte}
    (here : records[i]? = some r) : RecordAt m (32 * i) r := by
  obtain ⟨inside, rfl⟩ := List.getElem?_eq_some_iff.mp here
  intro j small
  have parts : records.flatten ++ rest =
      (records.take i).flatten ++ (records[i] ++ ((records.drop (i + 1)).flatten ++ rest)) := by
    conv_lhs => rw [← List.take_append_drop i records, List.drop_eq_getElem_cons inside]
    rw [List.flatten_append, List.flatten_cons, List.append_assoc, List.append_assoc]
  have front : (records.take i).flatten.length = 32 * i := by
    rw [flatten_length fun r member => whole r (List.mem_of_mem_take member), List.length_take, Nat.min_eq_left (by omega)]
  have size : records[i].length = 32 := whole _ (List.getElem_mem inside)
  rw [held (32 * i + j) (by rw [parts, List.length_append, List.length_append, front, size]; omega), parts,
    List.getD_append_right _ _ _ _ (by omega), front, Nat.add_sub_cancel_left, List.getD_append _ _ _ _ (by omega)]
  rfl

theorem whole_concat {records : List (List Byte)} {r : List Byte} (whole : ∀ r ∈ records, r.length = 32)
    (size : r.length = 32) : ∀ s ∈ records ++ [r], s.length = 32 := by
  intro s member
  rcases List.mem_append.mp member with member | member
  · exact whole s member
  · rw [List.mem_singleton.mp member, size]

theorem recordAt_next {records : List (List Byte)} {r rest : List Byte} (whole : ∀ r ∈ records, r.length = 32)
    (size : r.length = 32) (held : StartsWith m (records.flatten ++ (r ++ rest))) :
    RecordAt m (32 * records.length) r := by
  rw [← List.append_assoc, ← List.flatten_concat] at held
  exact recordAt_of_startsWith (whole_concat whole size) held (List.getElem?_concat_length ..)

theorem load32_recordAt {a : Nat} {r : List Byte} (held : RecordAt m a r) {k : Nat} (inside : k + 4 ≤ 32) :
    m.load32 (a + k) = wordAt r k := by
  have zero := held k (by omega)
  have one := held (k + 1) (by omega)
  have two := held (k + 2) (by omega)
  have three := held (k + 3) (by omega)
  rw [← Nat.add_assoc] at one two three
  rw [Lib.Memory.load32, zero, one, two, three]
  rfl

theorem read_magic {a : Nat} {r : List Byte} (held : RecordAt m a r) :
    (EspPartitionInfo.read m a).magic = byteAt r 1 ++ byteAt r 0 := by
  rw [EspPartitionInfo.read, held 1 (by omega)]
  rw [← held 0 (by omega)]
  rfl

structure ReadsEntry (p : PartitionDefinition) (info : EspPartitionInfo) : Prop where
  magic : info.magic = ESP_PARTITION_MAGIC
  type : p.type = some (info.type.toNat : Int)
  subtype : p.subtype = some (info.subtype.toNat : Int)
  offset : p.offset = some (info.pos.offset.toNat : Int)
  size : p.size = some (info.pos.size.toNat : Int)
  label : info.label.toList = packName (encode p.name)

theorem readsEntry {p : PartitionDefinition} {r : List Byte} (packed : p.toBinary = .ok r) {a : Nat}
    (held : RecordAt m a r) : ReadsEntry p (EspPartitionInfo.read m a) := by
  obtain ⟨type, subtype, offset, size, isType, isSubtype, isOffset, isSize, rfl⟩ := toBinary_ok packed
  have magic := read_magic held
  have readType := held 2 (by omega)
  have readSubtype := held 3 (by omega)
  have readOffset := load32_recordAt held (show 4 + 4 ≤ 32 by omega)
  have readSize := load32_recordAt held (show 8 + 4 ≤ 32 by omega)
  rw [record_head] at magic readType readSubtype readOffset readSize
  have labels : (EspPartitionInfo.read m a).label.toList = packName (encode p.name) := by
    apply List.ext_getElem
    · simp [packName_length]
    · intro j left right
      have small : j < 16 := by simpa using left
      have byte := held (12 + j) (by omega)
      rw [record_head, byteAt, List.getD_append_right _ _ _ _ (by simp), List.getD_append _ _ _ _ (by simp; omega)] at byte
      simp only [EspPartitionInfo.read, Vector.toList_ofFn, List.getElem_ofFn]
      rw [Nat.add_assoc, byte]
      simp [List.getD_eq_getElem?_getD, List.getElem?_eq_getElem right]
  have magicBytes : (0x50 : Byte) ++ (0xAA : Byte) = ESP_PARTITION_MAGIC := by
    decide
  refine ⟨magic.trans magicBytes, ?_, ?_, ?_, ?_, labels⟩
  · rw [isType]
    exact congrArg (fun b : Byte => some (b.toNat : Int)) readType.symm
  · rw [isSubtype]
    exact congrArg (fun b : Byte => some (b.toNat : Int)) readSubtype.symm
  · rw [isOffset]
    exact congrArg (fun w : Word => some (w.toNat : Int)) ((Nvs.wordOf_wordBytes offset).symm.trans readOffset.symm)
  · rw [isSize]
    exact congrArg (fun w : Word => some (w.toNat : Int)) ((Nvs.wordOf_wordBytes size).symm.trans readSize.symm)

theorem sameEntry_iff {p : PartitionDefinition} {info : EspPartitionInfo} (reads : ReadsEntry p info) (memory : Bool) :
    SameEntry p (listItem memory info) ↔ NameFits p.name ∧ memory = p.encrypted := by
  have label : (listItem memory info).label = cut (encode p.name) := by
    rw [← packName_cut, ← reads.label]
    rfl
  rw [NameFits, ← cut_eq_iff]
  constructor
  · intro same
    exact ⟨label.symm.trans same.label.symm, same.encrypted.symm⟩
  · rintro ⟨fits, flag⟩
    exact ⟨reads.type, reads.subtype, reads.offset, reads.size, fits.symm.trans label.symm, flag.symm⟩

theorem basicVerifyFrom_accepts {num : Nat} (left i : Nat) (before : i ≤ num) (inside : num < i + left)
    (each : ∀ j, i ≤ j → j < num →
      (raw j).magic = ESP_PARTITION_MAGIC ∧ (raw j).pos.offset.toNat + (raw j).pos.size.toNat ≤ chipSize.toNat ∨
        (raw j).magic = ESP_PARTITION_MAGIC_MD5)
    (last : (raw num).magic = 0xFFFF ∧ (raw num).type = 0xFF ∧ (raw num).subtype = 0xFF) :
    basicVerifyFrom chipSize raw left i = .ok num := by
  induction left generalizing i with
  | zero => omega
  | succ left ih =>
      unfold basicVerifyFrom
      simp only
      rcases Nat.eq_or_lt_of_le before with rfl | before
      · have noEntry : ¬ (raw i).magic = ESP_PARTITION_MAGIC := by
          rw [last.1]
          decide
        have noSum : ¬ (raw i).magic = ESP_PARTITION_MAGIC_MD5 := by
          rw [last.1]
          decide
        rw [if_neg noEntry, if_neg noSum]
        exact if_pos last
      · have rest := ih (i + 1) (by omega) (by omega) fun j above below => each j (by omega) below
        rcases each i (Nat.le_refl i) before with ⟨entry, fits⟩ | sum
        · have room : ¬ ((raw i).pos.offset > chipSize ∨ (raw i).pos.offset + (raw i).pos.size > chipSize) := by
            have bound := chipSize.isLt
            simp only [gt_iff_lt, BitVec.lt_def, BitVec.toNat_add]
            rw [Nat.mod_eq_of_lt (by omega)]
            omega
          rw [if_pos entry, if_neg room, rest]
        · have noEntry : ¬ (raw i).magic = ESP_PARTITION_MAGIC := by
            rw [sum]
            decide
          rw [if_neg noEntry, if_pos sum, rest]

structure ReadsTable (cfg : Settings) (table : PartitionTable) (raw : RawTable) : Prop where
  entries : ∀ i p, table[i]? = some p → ReadsEntry p (raw i)
  sum : cfg.md5sum → (raw table.length).magic = ESP_PARTITION_MAGIC_MD5
  last : (raw (table.length + if cfg.md5sum then 1 else 0)).magic = 0xFFFF ∧
    (raw (table.length + if cfg.md5sum then 1 else 0)).type = 0xFF ∧
    (raw (table.length + if cfg.md5sum then 1 else 0)).subtype = 0xFF
  room : table.length + (if cfg.md5sum then 1 else 0) < 96

theorem recordAt_marker {a : Nat} (held : RecordAt m a (List.replicate 32 0xFF)) :
    (EspPartitionInfo.read m a).magic = 0xFFFF ∧ (EspPartitionInfo.read m a).type = 0xFF ∧
      (EspPartitionInfo.read m a).subtype = 0xFF := by
  refine ⟨?_, held 2 (by omega), held 3 (by omega)⟩
  rw [read_magic held]
  decide

theorem readsTable {cfg : Settings} {table : PartitionTable} {b : List Byte}
    (packed : PartitionTable.toBinary cfg table = .ok b) (held : StartsWith m b) :
    ReadsTable cfg table (rawTable m) := by
  obtain ⟨records, filler, entries, some_, rfl, count⟩ := table_toBinary_ok packed
  obtain ⟨filler, rfl⟩ := Nat.exists_eq_succ_of_ne_zero (Nat.ne_of_gt some_)
  have whole := records_whole entries
  have same := entries.length_eq
  have each : ∀ i p, table[i]? = some p → ReadsEntry p (rawTable m i) := by
    intro i p here
    obtain ⟨inside, rfl⟩ := List.getElem?_eq_some_iff.mp here
    have there : records[i]? = some records[i] := List.getElem?_eq_getElem (by omega)
    exact readsEntry (List.forall₂_iff_get.mp entries |>.2 i inside (by omega))
      (recordAt_of_startsWith whole held there)
  have filling : List.replicate (32 * (filler + 1)) (0xFF : Byte) =
      List.replicate 32 0xFF ++ List.replicate (32 * filler) 0xFF := by
    rw [← List.replicate_add]
    congr 1
    omega
  rw [endOf, Nat.succ_eq_add_one, filling] at held
  cases hashing : cfg.md5sum with
  | false =>
      simp only [hashing, Bool.false_eq_true, if_false, List.nil_append] at held count
      have marker := recordAt_next whole List.length_replicate held
      rw [← same] at marker
      refine ⟨each, by simp [hashing], ?_, by simp [hashing]; omega⟩
      simp only [hashing, Bool.false_eq_true, if_false, Nat.add_zero]
      exact recordAt_marker marker
  | true =>
      simp only [hashing, if_true] at held count
      have digest := cfg.digest records.flatten
      have size : (MD5_PARTITION_BEGIN ++ cfg.md5 records.flatten).length = 32 := by
        rw [List.length_append, digest]
        rfl
      have sum := recordAt_next whole size held
      rw [← List.append_assoc, ← List.flatten_concat] at held
      have marker := recordAt_next (whole_concat whole size) List.length_replicate held
      rw [List.length_append, List.length_singleton, ← same] at marker
      rw [← same] at sum
      refine ⟨each, ?_, ?_, by simp [hashing]; omega⟩
      · intro _
        have magicBytes : (0xEB : Byte) ++ (0xEB : Byte) = ESP_PARTITION_MAGIC_MD5 := by
          decide
        exact (read_magic sum).trans magicBytes
      · simp only [hashing, if_true]
        exact recordAt_marker marker

theorem ReadsTable.verified {cfg : Settings} {table : PartitionTable} (reads : ReadsTable cfg table raw)
    (fits : FitsChip table chipSize) :
    espPartitionTableBasicVerify chipSize raw = .ok (table.length + if cfg.md5sum then 1 else 0) := by
  apply basicVerifyFrom_accepts _ _ (Nat.zero_le _) (by simpa using reads.room) _ reads.last
  intro j _ below
  rcases Nat.lt_or_ge j table.length with entry | sum
  · left
    have here := reads.entries j _ (List.getElem?_eq_getElem entry)
    refine ⟨here.magic, ?_⟩
    have ends := fits _ (List.getElem_mem entry) _ here.offset _ here.size
    exact_mod_cast ends
  · right
    cases hashing : cfg.md5sum with
    | false =>
        simp only [hashing, Bool.false_eq_true, if_false] at below
        omega
    | true =>
        simp only [hashing, if_true] at below
        obtain rfl : j = table.length := by omega
        exact reads.sum hashing

theorem ReadsTable.stops {cfg : Settings} {table : PartitionTable} (reads : ReadsTable cfg table raw) :
    (raw table.length).magic ≠ ESP_PARTITION_MAGIC := by
  cases hashing : cfg.md5sum with
  | false =>
      have last := reads.last.1
      simp only [hashing, Bool.false_eq_true, if_false, Nat.add_zero] at last
      rw [last]
      decide
  | true =>
      rw [reads.sum hashing]
      decide

theorem ReadsTable.loaded {cfg : Settings} {table : PartitionTable} (reads : ReadsTable cfg table raw)
    (memory : Nat → Bool) :
    loadPartitions memory raw = (List.range table.length).map fun j => listItem (memory j) (raw j) := by
  have inside : table.length < 0 + Boot.SPI_FLASH_SEC_SIZE / 32 := by
    have room := reads.room
    change _ < 0 + 4096 / 32
    omega
  have all : (List.range table.length).takeWhile (fun j => decide ((raw j).magic = ESP_PARTITION_MAGIC)) =
      List.range table.length := by
    apply List.takeWhile_eq_self_iff.mpr
    intro j member
    have inside := List.mem_range.mp member
    exact decide_eq_true (reads.entries j _ (List.getElem?_eq_getElem inside)).magic
  rw [loadPartitions, Proof.Boot.loadPartitionsFrom_eq memory reads.stops _ _ (Nat.zero_le _) inside,
    Nat.sub_zero, ← List.range_eq_range', all]

theorem ReadsTable.alike_iff {cfg : Settings} {table : PartitionTable} (reads : ReadsTable cfg table raw)
    (memory : Nat → Bool) :
    List.Forall₂ SameEntry table (loadPartitions memory raw) ↔
      ∀ i p, table[i]? = some p → NameFits p.name ∧ memory i = p.encrypted := by
  rw [reads.loaded, List.forall₂_iff_get]
  constructor
  · rintro ⟨-, same⟩ i p here
    obtain ⟨inside, rfl⟩ := List.getElem?_eq_some_iff.mp here
    have entry := same i inside (by simpa using inside)
    simp only [List.get_eq_getElem, List.getElem_map, List.getElem_range] at entry
    exact (sameEntry_iff (reads.entries i _ here) (memory i)).mp entry
  · intro each
    refine ⟨by simp, ?_⟩
    intro i inside _
    have here : table[i]? = some table[i] := List.getElem?_eq_getElem inside
    simp only [List.get_eq_getElem, List.getElem_map, List.getElem_range]
    exact (sameEntry_iff (reads.entries i _ here) (memory i)).mpr (each i _ here)

/-- The firmware reads a written table that fits the chip exactly as it is if it was written without an MD5
sum, every name fits, and the memory for each list item happens to hold the flag. -/
theorem read_alike_iff (cfg : Settings) (table : PartitionTable) (b : List Byte) (m : Lib.Memory) (chipSize : Word)
    (memory : Nat → Bool) (packed : PartitionTable.toBinary cfg table = .ok b) (held : StartsWith m b)
    (fits : FitsChip table chipSize) :
    ReadAlike table chipSize memory (rawTable m) ↔
      cfg.md5sum = false ∧ ∀ i p, table[i]? = some p → NameFits p.name ∧ memory i = p.encrypted := by
  have reads := readsTable packed held
  rw [ReadAlike, reads.verified fits, reads.alike_iff]
  have counted : (Except.ok (table.length + if cfg.md5sum then 1 else 0) : Except Boot.EspErr Nat) =
      .ok table.length ↔ cfg.md5sum = false := by
    cases cfg.md5sum with
    | false => simp
    | true => simp
  rw [counted]

def memoryOf (b : List Byte) : Lib.Memory := fun a => b.getD a 0

theorem single_app_read_alike :
    ∃ b, PartitionTable.toBinary plainSettings singleAppEntries = .ok b ∧
      ReadAlike singleAppEntries 0x400000 (fun _ => false) (rawTable (memoryOf b)) := by
  refine ⟨_, rfl, (read_alike_iff plainSettings _ _ _ _ _ rfl (fun _ _ => rfl) ?_).mpr ⟨rfl, ?_⟩⟩
  · simp only [FitsChip, singleAppEntries, List.forall_mem_cons]
    exact ⟨by decide, by decide, by decide, fun p none => by cases none⟩
  · intro i p here
    have listed := List.mem_of_getElem? here
    have plain : ∀ q ∈ singleAppEntries, q.encrypted = false := by decide
    exact ⟨singleApp_namesFit p listed, (plain p listed).symm⟩

def md5Settings : Settings :=
  { plainSettings with
    md5sum := true
    md5 := fun _ => [0xD4, 0x1D, 0x8C, 0xD9, 0x8F, 0x00, 0xB2, 0x04, 0xE9, 0x80, 0x09, 0x98, 0xEC, 0xF8, 0x42, 0x7E]
    digest := fun _ => rfl }

theorem md5_record_counted :
    PartitionTable.verify md5Settings [] = .ok () ∧ FitsChip [] 0x400000 ∧
      ∃ b, PartitionTable.toBinary md5Settings [] = .ok b ∧
        espPartitionTableBasicVerify 0x400000 (rawTable (memoryOf b)) = .ok 1 ∧
        ¬ ReadAlike [] 0x400000 (fun _ => false) (rawTable (memoryOf b)) := by
  have reads : ReadsTable md5Settings [] (rawTable (memoryOf _)) := readsTable rfl fun _ _ => rfl
  have fits : FitsChip [] 0x400000 := by
    intro p member
    cases member
  have verified := reads.verified fits
  refine ⟨?_, fits, _, rfl, verified, ?_⟩
  · rw [PartitionTable.verify, List.map_nil, List.mergeSort_nil]
    rfl
  · rintro ⟨counted, -⟩
    rw [verified] at counted
    cases counted

end EspFirmware.Proof.Tool
