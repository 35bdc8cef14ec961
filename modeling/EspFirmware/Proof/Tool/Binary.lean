import EspFirmware.Lib.Except
import EspFirmware.Proof.Nvs.Item
import EspFirmware.Spec.GenPart
import Mathlib.Data.List.GetD

/-!
The binary form of a partition table: the records of its entries, and what is read back from them.
-/

namespace EspFirmware.Proof.Tool
open EspFirmware.Tool EspFirmware.Spec EspFirmware.Lib
open EspFirmware.Nvs (Byte Word wordBytes wordOf byteOf)
open PartitionDefinition (encode decode packName packUnsigned byteAt wordAt)

theorem decode_encode (name : Text) : decode (encode name) = .ok name := by
  have bytes : (encode name).map UInt8.ofBitVec = name.flatMap String.utf8EncodeChar := by
    simp [encode, Function.comp_def]
  have array : (⟨(name.flatMap String.utf8EncodeChar).toArray⟩ : ByteArray) = name.utf8Encode := by
    rw [List.utf8Encode, ← List.data_toByteArray]
  rw [decode, bytes, array, List.utf8Decode?_utf8Encode]

theorem encode_decode {b : List Byte} {name : Text} (decoded : decode b = .ok name) : encode name = b := by
  unfold decode at decoded
  cases chars : ByteArray.utf8Decode? ⟨(b.map UInt8.ofBitVec).toArray⟩ with
  | none =>
      rw [chars] at decoded
      cases decoded
  | some s =>
      rw [chars] at decoded
      cases decoded
      have back := @ByteArray.utf8Encode_get_utf8Decode? ⟨(b.map UInt8.ofBitVec).toArray⟩ (by rw [chars]; rfl)
      simp only [chars, Option.get_some] at back
      have lists := congrArg (fun a : ByteArray => a.data.toList.map UInt8.toBitVec) back
      simpa [List.utf8Encode, encode, Function.comp_def] using lists

theorem takeWhile_zeros {b : List Byte} (count : Nat) :
    (b ++ List.replicate count 0).takeWhile (· ≠ 0) = b.takeWhile (· ≠ 0) := by
  have none : (List.replicate count (0 : Byte)).takeWhile (· ≠ 0) = [] := by
    rw [List.takeWhile_replicate]
    rfl
  rw [List.takeWhile_append, none, List.append_nil]
  by_cases whole : (b.takeWhile (· ≠ 0)).length = b.length
  · rw [if_pos whole]
    exact ((List.takeWhile_prefix _).eq_of_length whole).symm
  · rw [if_neg whole]

def cut (b : List Byte) : List Byte := (b.take 16).takeWhile (· ≠ 0)

theorem cut_eq_iff (b : List Byte) : cut b = b ↔ b.length ≤ 16 ∧ 0 ∉ b := by
  constructor
  · intro same
    have short : b.length ≤ 16 := by
      have le := (List.takeWhile_prefix (fun x : Byte => decide (x ≠ 0)) (l := b.take 16)).length_le
      rw [cut] at same
      rw [same, List.length_take] at le
      omega
    refine ⟨short, ?_⟩
    intro zero
    rw [← same] at zero
    have nonzero := List.mem_takeWhile_imp zero
    simp at nonzero
  · rintro ⟨short, nonzero⟩
    rw [cut, List.take_of_length_le short]
    apply List.takeWhile_eq_self_iff.mpr
    intro x member
    simp only [ne_eq, decide_not, Bool.not_eq_eq_eq_not, Bool.not_true, decide_eq_false_iff_not]
    rintro rfl
    exact nonzero member

theorem decode_cut_iff (name : Text) : decode (cut (encode name)) = .ok name ↔ NameFits name := by
  rw [NameFits, ← cut_eq_iff]
  constructor
  · intro decoded
    exact (encode_decode decoded).symm
  · intro same
    rw [same]
    exact decode_encode name

def record (type subtype : Byte) (offset size : Word) (name : List Byte) (flags : Word) : List Byte :=
  MAGIC_BYTES ++ [type, subtype] ++ wordBytes offset ++ wordBytes size ++ packName name ++ wordBytes flags

def flagsOf (encrypted : Bool) : Word := if encrypted then 1 else 0

theorem packName_length (name : List Byte) : (packName name).length = 16 := by
  simp only [packName, List.length_append, List.length_take, List.length_replicate]
  omega

theorem record_length (type subtype : Byte) (offset size : Word) (name : List Byte) (flags : Word) :
    (record type subtype offset size name flags).length = 32 := by
  simp [record, packName_length, MAGIC_BYTES, wordBytes]

theorem packUnsigned_ok {width : Nat} {n : Option Int} {v : BitVec width} (packed : packUnsigned width n = .ok v) :
    n = some (v.toNat : Int) := by
  unfold packUnsigned at packed
  cases n with
  | none => cases packed
  | some n =>
      simp only at packed
      split at packed
      · rename_i range
        cases packed
        rw [BitVec.toNat_ofInt, Int.emod_eq_of_lt range.1 (by exact_mod_cast range.2), Int.toNat_of_nonneg range.1]
      · cases packed

theorem toBinary_ok {p : PartitionDefinition} {b : List Byte} (packed : p.toBinary = .ok b) :
    ∃ (type subtype : Byte) (offset size : Word), p.type = some (type.toNat : Int) ∧
      p.subtype = some (subtype.toNat : Int) ∧ p.offset = some (offset.toNat : Int) ∧ p.size = some (size.toNat : Int) ∧
      b = record type subtype offset size (encode p.name) (flagsOf p.encrypted) := by
  unfold PartitionDefinition.toBinary at packed
  obtain ⟨type, packedType, packed⟩ := bind_eq_ok.mp packed
  obtain ⟨subtype, packedSubtype, packed⟩ := bind_eq_ok.mp packed
  obtain ⟨offset, packedOffset, packed⟩ := bind_eq_ok.mp packed
  obtain ⟨size, packedSize, packed⟩ := bind_eq_ok.mp packed
  cases packed
  exact ⟨type, subtype, offset, size, packUnsigned_ok packedType, packUnsigned_ok packedSubtype,
    packUnsigned_ok packedOffset, packUnsigned_ok packedSize, rfl⟩

theorem record_head (type subtype : Byte) (offset size : Word) (name : List Byte) (flags : Word) :
    record type subtype offset size name flags =
      [0xAA, 0x50, type, subtype, byteOf offset 0, byteOf offset 1, byteOf offset 2, byteOf offset 3,
        byteOf size 0, byteOf size 1, byteOf size 2, byteOf size 3] ++ (packName name ++ wordBytes flags) := by
  simp [record, MAGIC_BYTES, wordBytes]

theorem record_name (type subtype : Byte) (offset size : Word) (name : List Byte) (flags : Word) :
    ((record type subtype offset size name flags).drop 12).take 16 = packName name := by
  rw [record_head]
  exact List.take_left' (packName_length name)

theorem record_flags (type subtype : Byte) (offset size : Word) (name : List Byte) (flags : Word) :
    wordAt (record type subtype offset size name flags) 28 = flags := by
  have tail (i : Nat) : byteAt (record type subtype offset size name flags) (28 + i) = byteAt (wordBytes flags) i := by
    have front : (MAGIC_BYTES ++ [type, subtype] ++ wordBytes offset ++ wordBytes size ++ packName name).length = 28 := by
      simp [packName_length, MAGIC_BYTES, wordBytes]
    rw [byteAt, byteAt, record, List.getD_append_right _ _ _ _ (by omega), front, Nat.add_sub_cancel_left]
  rw [wordAt, tail 0, tail 1, tail 2, tail 3]
  exact Nvs.wordOf_wordBytes flags

theorem packName_cut (name : List Byte) : (packName name).takeWhile (· ≠ 0) = cut name :=
  takeWhile_zeros _

theorem fromBinary_record (type subtype : Byte) (offset size : Word) (name : List Byte) (encrypted : Bool) :
    PartitionDefinition.fromBinary (record type subtype offset size name (flagsOf encrypted)) =
      (decode (cut name)).map fun text => ⟨text, some type.toNat, some subtype.toNat, some offset.toNat,
        some size.toNat, encrypted⟩ := by
  have magic : (record type subtype offset size name (flagsOf encrypted)).take 2 = MAGIC_BYTES := by
    rw [record_head]
    rfl
  have flag : (flagsOf encrypted).getLsbD 0 = encrypted := by
    cases encrypted <;> rfl
  have types : byteAt (record type subtype offset size name (flagsOf encrypted)) 2 = type ∧
      byteAt (record type subtype offset size name (flagsOf encrypted)) 3 = subtype := by
    rw [record_head]
    exact ⟨rfl, rfl⟩
  have places : wordAt (record type subtype offset size name (flagsOf encrypted)) 4 = offset ∧
      wordAt (record type subtype offset size name (flagsOf encrypted)) 8 = size := by
    rw [record_head]
    exact ⟨Nvs.wordOf_wordBytes offset, Nvs.wordOf_wordBytes size⟩
  rw [PartitionDefinition.fromBinary, if_neg (by simp [record_length]), record_name, packName_cut, types.1, types.2,
    places.1, places.2, record_flags, flag, magic]
  cases decode (cut name) with
  | error e => rfl
  | ok text => rfl

theorem entry_survives_iff {p : PartitionDefinition} {b : List Byte} (packed : p.toBinary = .ok b) :
    PartitionDefinition.fromBinary b = .ok p ↔ NameFits p.name := by
  obtain ⟨type, subtype, offset, size, isType, isSubtype, isOffset, isSize, rfl⟩ := toBinary_ok packed
  rw [fromBinary_record, ← decode_cut_iff]
  cases decoded : decode (cut (encode p.name)) with
  | error e => simp [Except.map]
  | ok text =>
      obtain ⟨name, _, _, _, _, encrypted⟩ := p
      simp_all [Except.map]

theorem recordsOf_cons {r : List Byte} (whole : r.length = 32) (b : List Byte) :
    PartitionTable.recordsOf (r ++ b) = r :: PartitionTable.recordsOf b := by
  have count : ((r ++ b).length + 31) / 32 = (b.length + 31) / 32 + 1 := by
    rw [List.length_append]
    omega
  rw [PartitionTable.recordsOf, count, List.range_succ_eq_map, List.map_cons, List.map_map]
  have first : ((r ++ b).drop (32 * 0)).take 32 = r := List.take_left' whole
  rw [first]
  congr 1
  apply List.map_congr_left
  intro o _
  have later : (r ++ b).drop (32 * (o + 1)) = b.drop (32 * o) := by
    rw [List.drop_append, whole, List.drop_of_length_le (by omega), List.nil_append]
    congr 1
  rw [Function.comp_apply, later]

def endOf (cfg : Settings) (records : List Byte) (filler : Nat) : List Byte :=
  (if cfg.md5sum then MD5_PARTITION_BEGIN ++ cfg.md5 records else []) ++ List.replicate (32 * filler) 0xFF

theorem flatten_length {records : List (List Byte)} (whole : ∀ r ∈ records, r.length = 32) :
    records.flatten.length = 32 * records.length := by
  induction records with
  | nil => rfl
  | cons r records ih =>
      rw [List.flatten_cons, List.length_append, whole r List.mem_cons_self,
        ih fun r member => whole r (List.mem_cons_of_mem _ member), List.length_cons]
      omega

theorem records_whole {table : PartitionTable} {records : List (List Byte)}
    (packed : List.Forall₂ (fun p r => PartitionDefinition.toBinary p = .ok r) table records) :
    ∀ r ∈ records, r.length = 32 := by
  intro r member
  induction packed with
  | nil => cases member
  | cons first _ ih =>
      cases member with
      | head =>
          obtain ⟨type, subtype, offset, size, -, -, -, -, rfl⟩ := toBinary_ok first
          exact record_length _ _ _ _ _ _
      | tail _ member => exact ih member

theorem table_toBinary_ok {cfg : Settings} {table : PartitionTable} {b : List Byte}
    (packed : PartitionTable.toBinary cfg table = .ok b) :
    ∃ records filler, List.Forall₂ (fun p r => PartitionDefinition.toBinary p = .ok r) table records ∧
      0 < filler ∧ b = records.flatten ++ endOf cfg records.flatten filler ∧
      table.length + (if cfg.md5sum then 1 else 0) + filler = 96 := by
  unfold PartitionTable.toBinary at packed
  obtain ⟨records, made, packed⟩ := bind_eq_ok.mp packed
  have entries := mapM_eq_ok.mp made
  have size := flatten_length (records_whole entries)
  have count := entries.length_eq
  have digest := cfg.digest records.flatten
  simp only at packed
  cases hashing : cfg.md5sum with
  | false =>
      simp only [hashing, Bool.false_eq_true, if_false] at packed
      split at packed
      · cases packed
      · rename_i room
        cases packed
        rw [size] at room
        have filling : MAX_PARTITION_LENGTH - records.flatten.length = 32 * (96 - records.length) := by
          rw [size]
          change 0xC00 - _ = _
          omega
        refine ⟨records, 96 - records.length, entries, by omega, ?_, by simp; omega⟩
        rw [endOf, hashing, filling]
        rfl
  | true =>
      simp only [hashing, if_true] at packed
      split at packed
      · cases packed
      · rename_i room
        cases packed
        have whole : (records.flatten ++ MD5_PARTITION_BEGIN ++ cfg.md5 records.flatten).length =
            32 * (records.length + 1) := by
          rw [List.length_append, List.length_append, size, digest]
          rfl
        rw [whole] at room ⊢
        have filling : MAX_PARTITION_LENGTH - 32 * (records.length + 1) = 32 * (95 - records.length) := by
          change 0xC00 - _ = _
          omega
        refine ⟨records, 95 - records.length, entries, by omega, ?_, by simp; omega⟩
        rw [endOf, hashing, filling]
        simp only [if_true, List.append_assoc]

theorem fromRecords_end {cfg : Settings} {filler : Nat} (some_ : 0 < filler) (hashed : List Byte) :
    PartitionTable.fromRecords cfg (PartitionTable.recordsOf (endOf cfg hashed filler)) hashed = .ok [] := by
  obtain ⟨filler, rfl⟩ := Nat.exists_eq_succ_of_ne_zero (Nat.ne_of_gt some_)
  have marker : PartitionTable.fromRecords cfg (PartitionTable.recordsOf (List.replicate (32 * (filler + 1)) 0xFF))
      hashed = .ok [] := by
    rw [show 32 * (filler + 1) = 32 + 32 * filler by omega, List.replicate_add,
      recordsOf_cons (List.length_replicate), PartitionTable.fromRecords, if_neg (by simp), if_pos rfl]
  rw [endOf]
  cases hashing : cfg.md5sum with
  | false => exact marker
  | true =>
      have digest := cfg.digest hashed
      have whole : (MD5_PARTITION_BEGIN ++ cfg.md5 hashed).length = 32 := by
        rw [List.length_append, digest]
        rfl
      have sum : (MD5_PARTITION_BEGIN ++ cfg.md5 hashed).drop 16 = cfg.md5 hashed := List.drop_left' rfl
      have noEnd : MD5_PARTITION_BEGIN ++ cfg.md5 hashed ≠ List.replicate 32 0xFF := by
        intro same
        have first := congrArg List.head? same
        simp [MD5_PARTITION_BEGIN] at first
      rw [if_pos rfl, recordsOf_cons whole, PartitionTable.fromRecords, if_neg (by simp [whole]), if_neg noEnd,
        if_pos ⟨hashing, rfl⟩, if_pos sum]
      exact marker

theorem fromRecords_entry {cfg : Settings} {p : PartitionDefinition} {r : List Byte} (packed : p.toBinary = .ok r)
    (rest : List (List Byte)) (hashed : List Byte) :
    PartitionTable.fromRecords cfg (r :: rest) hashed = (do
      let e ← PartitionDefinition.fromBinary r
      let more ← PartitionTable.fromRecords cfg rest (hashed ++ r)
      return e :: more) := by
  obtain ⟨type, subtype, offset, size, -, -, -, -, rfl⟩ := toBinary_ok packed
  have noEnd : record type subtype offset size (encode p.name) (flagsOf p.encrypted) ≠ List.replicate 32 0xFF := by
    intro same
    have first := congrArg List.head? same
    simp [record_head] at first
  have noSum : (record type subtype offset size (encode p.name) (flagsOf p.encrypted)).take 2 ≠
      MD5_PARTITION_BEGIN.take 2 := by
    rw [record_head]
    simp [MD5_PARTITION_BEGIN]
  rw [PartitionTable.fromRecords, if_neg (by simp [record_length]), if_neg noEnd, if_neg fun both => noSum both.2]

theorem fromRecords_iff {cfg : Settings} {filler : Nat} (some_ : 0 < filler) {table : PartitionTable}
    {records : List (List Byte)}
    (packed : List.Forall₂ (fun p r => PartitionDefinition.toBinary p = .ok r) table records) (hashed : List Byte) :
    PartitionTable.fromRecords cfg
        (PartitionTable.recordsOf (records.flatten ++ endOf cfg (hashed ++ records.flatten) filler)) hashed = .ok table ↔
      ∀ p ∈ table, NameFits p.name := by
  induction packed generalizing hashed with
  | nil => simp [fromRecords_end some_]
  | @cons p r table records first others ih =>
      have whole : r.length = 32 := records_whole (.cons first others) r List.mem_cons_self
      have more := ih (hashed ++ r)
      rw [List.append_assoc, ← List.flatten_cons] at more
      rw [List.flatten_cons, List.append_assoc, recordsOf_cons whole, ← List.flatten_cons, fromRecords_entry first,
        List.forall_mem_cons, ← entry_survives_iff first, ← more, bind_eq_ok]
      constructor
      · rintro ⟨e, read, rest⟩
        obtain ⟨es, reads, done⟩ := bind_eq_ok.mp rest
        cases done
        exact ⟨read, reads⟩
      · rintro ⟨read, reads⟩
        refine ⟨p, read, ?_⟩
        rw [reads]
        rfl

def plainSettings : Settings where
  md5sum := false
  secure := false
  offsetPartTable := 0x8000
  md5 _ := List.replicate 16 0
  digest _ := rfl
  expandvars s := s
  noDollar _ _ := rfl

def entryNamed (name : Text) : PartitionDefinition :=
  ⟨name, some 1, some 2, some 0x9000, some 0x4000, false⟩

theorem verify_entryNamed (name : Text) : PartitionTable.verify plainSettings [entryNamed name] = .ok () := by
  rw [PartitionTable.verify, List.map_singleton, List.mergeSort_singleton]
  rfl

/-- A table that can be written comes back from the binary form exactly if every name takes at most 16
bytes, none of them zero. -/
theorem binary_survives_iff (cfg : Settings) (table : PartitionTable) (b : List Byte)
    (packed : PartitionTable.toBinary cfg table = .ok b) :
    PartitionTable.fromBinary cfg b = .ok table ↔ ∀ p ∈ table, NameFits p.name := by
  obtain ⟨records, filler, entries, some_, rfl, -⟩ := table_toBinary_ok packed
  exact fromRecords_iff some_ entries []

def singleAppEntries : PartitionTable :=
  [⟨"nvs".toList, some 1, some 2, some 0x9000, some 0x6000, false⟩,
    ⟨"phy_init".toList, some 1, some 1, some 0xF000, some 0x1000, false⟩,
    ⟨"factory".toList, some 0, some 0, some 0x10000, some 0xF0000, false⟩]

theorem singleApp_namesFit : ∀ p ∈ singleAppEntries, NameFits p.name := by
  simp only [singleAppEntries, List.forall_mem_cons]
  exact ⟨⟨by decide, by decide⟩, ⟨by decide, by decide⟩, ⟨by decide, by decide⟩, fun p none => by cases none⟩

theorem single_app_read_back :
    ∃ b, PartitionTable.toBinary plainSettings singleAppEntries = .ok b ∧
      PartitionTable.fromBinary plainSettings b = .ok singleAppEntries :=
  ⟨_, rfl, (binary_survives_iff plainSettings _ _ rfl).mpr singleApp_namesFit⟩

theorem long_name_not_read_back :
    PartitionTable.verify plainSettings [entryNamed "configuration_log".toList] = .ok () ∧
      ∃ b, PartitionTable.toBinary plainSettings [entryNamed "configuration_log".toList] = .ok b ∧
        PartitionTable.fromBinary plainSettings b ≠ .ok [entryNamed "configuration_log".toList] := by
  refine ⟨verify_entryNamed _, _, rfl, ?_⟩
  decide +kernel

end EspFirmware.Proof.Tool
