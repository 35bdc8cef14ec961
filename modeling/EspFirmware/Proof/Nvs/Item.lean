import EspFirmware.Spec.Layout
import Mathlib.Data.List.FinRange
import Mathlib.Data.List.TakeWhile

/-!
What the fields of an item say when it was made for a key and a value, and how the value is read back.
-/

namespace EspFirmware.Proof.Nvs
open EspFirmware.Nvs EspFirmware.Spec EspFirmware.Lib

variable {env : Env}

theorem getLsbD_wordOf (b0 b1 b2 b3 : Byte) (i : Nat) : (wordOf b0 b1 b2 b3).getLsbD i =
    if i < 8 then b0.getLsbD i else if i < 16 then b1.getLsbD (i - 8)
      else if i < 24 then b2.getLsbD (i - 16) else b3.getLsbD (i - 24) := by
  simp only [wordOf]
  grind

theorem byteOf_wordOf (b0 b1 b2 b3 : Byte) :
    byteOf (wordOf b0 b1 b2 b3) 0 = b0 ∧ byteOf (wordOf b0 b1 b2 b3) 1 = b1 ∧
      byteOf (wordOf b0 b1 b2 b3) 2 = b2 ∧ byteOf (wordOf b0 b1 b2 b3) 3 = b3 := by
  refine ⟨?_, ?_, ?_, ?_⟩ <;> apply BitVec.eq_of_getLsbD_eq <;> intro i inside <;>
    simp only [byteOf, BitVec.getLsbD_setWidth, BitVec.getLsbD_ushiftRight, getLsbD_wordOf]
  · grind
  · grind
  · grind
  · grind
theorem wordOf_wordBytes (w : Word) : wordOf (byteOf w 0) (byteOf w 1) (byteOf w 2) (byteOf w 3) = w := by
  apply BitVec.eq_of_getLsbD_eq
  intro i inside
  simp only [getLsbD_wordOf, byteOf, BitVec.getLsbD_setWidth, BitVec.getLsbD_ushiftRight]
  grind
theorem wordBytes_wordOf (b0 b1 b2 b3 : Byte) : wordBytes (wordOf b0 b1 b2 b3) = [b0, b1, b2, b3] := by
  obtain ⟨zero, one, two, three⟩ := byteOf_wordOf b0 b1 b2 b3
  rw [wordBytes, zero, one, two, three]

theorem wordBytes_entryOfBytes (bytes : List Byte) (k : Fin 8) (enough : 4 * k.val + 4 ≤ bytes.length) :
    wordBytes (entryOfBytes bytes k) = (bytes.drop (4 * k.val)).take 4 := by
  have at_ (j : Nat) (inside : j < bytes.length) : bytes.getD j 0 = bytes[j] := by
    rw [List.getD_eq_getElem?_getD, List.getElem?_eq_getElem inside, Option.getD_some]
  have four : bytes.drop (4 * k.val) = bytes[4 * k.val] :: bytes[4 * k.val + 1] :: bytes[4 * k.val + 2] ::
      bytes[4 * k.val + 3] :: bytes.drop (4 * k.val + 4) := by
    rw [List.drop_eq_getElem_cons (by omega), List.drop_eq_getElem_cons (by omega),
      List.drop_eq_getElem_cons (by omega), List.drop_eq_getElem_cons (by omega)]
  rw [entryOfBytes, wordBytes_wordOf, at_ _ (by omega), at_ _ (by omega), at_ _ (by omega), at_ _ (by omega), four]
  rfl

theorem rawData_eq (item : Item) : item.rawData = wordBytes (item 0) ++ wordBytes (item 1) ++ item.key ++ item.data := by
  rfl

theorem rawData_entryOfBytes {bytes : List Byte} (whole : bytes.length = 32) :
    (entryOfBytes bytes).rawData = bytes := by
  have piece (k : Fin 8) := wordBytes_entryOfBytes bytes k (by omega)
  have all : (entryOfBytes bytes).rawData =
      (List.finRange 8).flatMap fun k => (bytes.drop (4 * k.val)).take 4 := by
    unfold Item.rawData
    congr 1
    exact funext piece
  rw [all]
  change (bytes.drop 0).take 4 ++ ((bytes.drop 4).take 4 ++ ((bytes.drop 8).take 4 ++ ((bytes.drop 12).take 4 ++
    ((bytes.drop 16).take 4 ++ ((bytes.drop 20).take 4 ++ ((bytes.drop 24).take 4 ++ ((bytes.drop 28).take 4 ++ []))))))) = bytes
  have step (n : Nat) : (bytes.drop n).take 4 ++ bytes.drop (n + 4) = bytes.drop n := by
    rw [← List.drop_drop, List.take_append_drop]
  have last_ : (bytes.drop 28).take 4 = bytes.drop 28 := List.take_of_length_le (by simp [whole])
  rw [List.append_nil, last_, step 24, step 20, step 16, step 12, step 8, step 4, step 0, List.drop_zero]

theorem fields_entryOfBytes (bytes : List Byte) :
    (entryOfBytes bytes).nsIndex = bytes.getD 0 0 ∧ (entryOfBytes bytes).datatype = bytes.getD 1 0 ∧
      (entryOfBytes bytes).span = (bytes.getD 2 0).toNat := by
  obtain ⟨zero, one, two, -⟩ := byteOf_wordOf (bytes.getD 0 0) (bytes.getD 1 0) (bytes.getD 2 0) (bytes.getD 3 0)
  exact ⟨zero, one, congrArg BitVec.toNat two⟩

theorem key_entryOfBytes {bytes : List Byte} (whole : bytes.length = 32) :
    (entryOfBytes bytes).key = (bytes.drop 8).take 16 := by
  have raw := rawData_entryOfBytes whole
  rw [rawData_eq] at raw
  have drop := congrArg (fun l => (List.drop 8 l).take 16) raw
  rw [← drop]
  rfl

theorem data_entryOfBytes {bytes : List Byte} (whole : bytes.length = 32) :
    (entryOfBytes bytes).data = bytes.drop 24 := by
  have raw := rawData_entryOfBytes whole
  rw [rawData_eq] at raw
  have drop := congrArg (List.drop 24) raw
  rw [← drop]
  rfl

theorem length_keyField (key : List Byte) : (keyField (some key)).length = 16 := by
  rw [keyField, List.length_append, List.length_replicate, List.length_take, MAX_KEY_LENGTH]
  omega

theorem cString_keyField (key : List Byte) :
    cString (keyField (some key)) = (cString key).take MAX_KEY_LENGTH := by
  have short : ((cString key).take MAX_KEY_LENGTH).length < 16 := by
    rw [List.length_take, MAX_KEY_LENGTH]
    omega
  have zero : List.replicate (16 - ((cString key).take MAX_KEY_LENGTH).length) (0 : Byte) =
      0 :: List.replicate (15 - ((cString key).take MAX_KEY_LENGTH).length) 0 := by
    rw [← List.replicate_succ]
    congr 1
    omega
  rw [keyField, cString, zero, List.takeWhile_append_of_pos, List.takeWhile_cons_of_neg (by simp), List.append_nil]
  intro b member
  simpa using cString_nonzero (List.mem_of_mem_take member)

theorem keyField_idem (key : List Byte) : keyField (some (keyField (some key))) = keyField (some key) := by
  conv_lhs => rw [keyField, cString_keyField, List.take_take, Nat.min_self]
  rfl

section
variable (nsIndex : Byte) (datatype : ItemType) (span : Byte) (key : List Byte)

def madeBytes : List Byte :=
  [nsIndex, datatype, span, 0xFF] ++ [0, 0, 0, 0] ++ keyField (some key) ++ List.replicate 8 0xFF

theorem length_madeBytes : (madeBytes nsIndex datatype span key).length = 32 := by
  simp [madeBytes, length_keyField]

theorem make_fields : (Item.make nsIndex datatype span (some key)).nsIndex = nsIndex ∧
    (Item.make nsIndex datatype span (some key)).datatype = datatype ∧
    (Item.make nsIndex datatype span (some key)).span = span.toNat ∧
    (Item.make nsIndex datatype span (some key)).key = keyField (some key) := by
  obtain ⟨ns, type, span_⟩ := fields_entryOfBytes (madeBytes nsIndex datatype span key)
  refine ⟨ns, type, span_, ?_⟩
  change (entryOfBytes (madeBytes nsIndex datatype span key)).key = _
  rw [key_entryOfBytes (length_madeBytes ..)]
  have eight : (madeBytes nsIndex datatype span key).drop 8 = keyField (some key) ++ List.replicate 8 0xFF := rfl
  rw [eight, List.take_append_of_le_length (by rw [length_keyField]), List.take_of_length_le (by rw [length_keyField])]

end

def SameHead (item item' : Item) : Prop := ∀ k : Fin 8, k.val < 6 → k.val ≠ 1 → item' k = item k

section
variable {item item' : Item}

theorem SameHead.fields (same : SameHead item item') : item'.nsIndex = item.nsIndex ∧
    item'.datatype = item.datatype ∧ item'.span = item.span ∧ item'.key = item.key := by
  have zero := same 0 (by decide) (by decide)
  refine ⟨?_, ?_, ?_, ?_⟩
  · rw [Item.nsIndex, zero, Item.nsIndex]
  · rw [Item.datatype, zero, Item.datatype]
  · rw [Item.span, zero, Item.span]
  · rw [Item.key, same 2 (by decide) (by decide), same 3 (by decide) (by decide), same 4 (by decide) (by decide),
      same 5 (by decide) (by decide), Item.key]

theorem sealItem_word (item : Item) {k : Fin 8} (other : k ≠ 1) : env.sealItem item k = item k :=
  Function.update_of_ne other _ _

theorem sealItem_crc (item : Item) : env.calculateCrc32 (env.sealItem item) = (env.sealItem item).crc32 := by
  have key : (env.sealItem item).key = item.key := rfl
  have data : (env.sealItem item).data = item.data := rfl
  have crc : (env.sealItem item).crc32 = env.calculateCrc32 item := rfl
  rw [crc, Env.calculateCrc32, key, data, sealItem_word item (by decide), Env.calculateCrc32]

theorem sameHead_seal (item : Item) : SameHead item (env.sealItem item) := by
  intro k _ other
  exact sealItem_word item fun same => other (congrArg Fin.val same)

theorem sameHead_setVarLength (item : Item) (size : Nat) (crc : Word) :
    SameHead item (item.setVarLength size crc) := by
  intro k low _
  have six : k ≠ 6 := fun same => by rw [same] at low; exact absurd low (by decide)
  have seven : k ≠ 7 := fun same => by rw [same] at low; exact absurd low (by decide)
  rw [Item.setVarLength, Function.update_of_ne seven, Function.update_of_ne six]

end

theorem length_rawData (item : Item) : item.rawData.length = 32 := rfl

theorem length_setDataBytes (item : Item) {data : List Byte} (small : data.length ≤ 8) :
    (item.rawData.take 24 ++ data ++ item.rawData.drop (24 + data.length)).length = 32 := by
  rw [List.length_append, List.length_append, List.length_take, List.length_drop, length_rawData]
  omega

theorem wordBytes_inj {v w : Word} (same : wordBytes v = wordBytes w) : v = w := by
  rw [wordBytes, wordBytes] at same
  injection same with zero rest
  injection rest with one rest
  injection rest with two rest
  injection rest with three
  rw [← wordOf_wordBytes v, ← wordOf_wordBytes w, zero, one, two, three]

theorem wordBytes_rawData (item : Item) (k : Fin 8) : wordBytes (item k) = (item.rawData.drop (4 * k.val)).take 4 := by
  match k with
  | 0 => rfl
  | 1 => rfl
  | 2 => rfl
  | 3 => rfl
  | 4 => rfl
  | 5 => rfl
  | 6 => rfl
  | 7 => rfl

theorem sameHead_setData (item : Item) {data : List Byte} (small : data.length ≤ 8) :
    SameHead item (item.setData data) := by
  intro k low _
  apply wordBytes_inj
  have whole := length_setDataBytes item small
  rw [Item.setData, wordBytes_entryOfBytes _ k (by omega), wordBytes_rawData, List.append_assoc,
    List.drop_append_of_le_length (by rw [List.length_take, length_rawData]; omega),
    List.take_append_of_le_length (by rw [List.length_drop, List.length_take, length_rawData]; omega),
    List.drop_take, List.take_take]
  congr 1
  omega

theorem data_setData (item : Item) {data : List Byte} (small : data.length ≤ 8) :
    (item.setData data).data.take data.length = data := by
  have whole := length_setDataBytes item small
  rw [Item.setData, data_entryOfBytes whole, List.append_assoc]
  have length : (item.rawData.take 24).length = 24 := by rw [List.length_take, length_rawData]; omega
  rw [List.drop_append, length, Nat.sub_self, List.drop_zero, List.drop_of_length_le (by omega), List.nil_append,
    List.take_append_of_le_length (Nat.le_refl _), List.take_length]

section
variable {nsIndex : Byte} {datatype : ItemType} {key data : List Byte}

theorem length_filled (data : List Byte) : (data.take (filled data)).length = filled data := by
  rw [List.length_take, filled, ENTRY_SIZE]
  omega

theorem length_dataEntries (data : List Byte) : (Page.dataEntries data).length = data.length / ENTRY_SIZE := by
  rw [Page.dataEntries, List.length_map, List.length_range]

theorem length_bodyFor :
    (bodyFor env nsIndex datatype key data).length + 1 = Page.entriesCount datatype data.length := by
  unfold bodyFor Page.entriesCount
  by_cases variable_ : datatype.isVariable = true
  · rw [if_pos variable_, if_pos variable_, List.length_append, length_dataEntries, length_filled, filled, ENTRY_SIZE]
    split
    · rw [List.length_singleton]
      omega
    · rw [List.length_nil]
      omega
  · rw [if_neg variable_, if_neg variable_]
    rfl

theorem itemFor_head (env : Env) (nsIndex : Byte) (key : List Byte) (small : datatype.isVariable = false → data.length ≤ 8) :
    SameHead (Item.make nsIndex datatype (BitVec.ofNat 8 (Page.entriesCount datatype data.length)) (some key))
      (Page.itemFor env nsIndex datatype key data) := by
  intro k low other
  unfold Page.itemFor
  by_cases variable_ : datatype.isVariable = true
  · rw [if_pos variable_, sameHead_seal _ k low other, sameHead_setVarLength _ _ _ k low other]
  · rw [if_neg variable_, sameHead_seal _ k low other,
      sameHead_setData _ (small (Bool.eq_false_iff.mpr variable_)) k low other]

theorem itemFor_fields (env : Env) (nsIndex : Byte) (key : List Byte) (small : datatype.isVariable = false → data.length ≤ 8)
    (few : Page.entriesCount datatype data.length < 256) :
    (Page.itemFor env nsIndex datatype key data).nsIndex = nsIndex ∧
      (Page.itemFor env nsIndex datatype key data).datatype = datatype ∧
      (Page.itemFor env nsIndex datatype key data).span = Page.entriesCount datatype data.length ∧
      (Page.itemFor env nsIndex datatype key data).key = keyField (some key) := by
  obtain ⟨ns, type, span, key_⟩ := (itemFor_head env nsIndex key small).fields
  obtain ⟨ns', type', span', key'⟩ := make_fields nsIndex datatype
    (BitVec.ofNat 8 (Page.entriesCount datatype data.length)) key
  refine ⟨ns.trans ns', type.trans type', ?_, key_.trans key'⟩
  rw [span, span', BitVec.toNat_ofNat, Nat.mod_eq_of_lt few]

theorem sound_recordFor (named : nsIndex ≠ NS_ANY) (small : datatype.isVariable = false → data.length ≤ 8)
    (few : Page.entriesCount datatype data.length < 256) :
    Sound env (recordFor env nsIndex datatype key data).head (recordFor env nsIndex datatype key data).body.length := by
  obtain ⟨ns, type, span, key_⟩ := itemFor_fields env nsIndex key small few
  refine ⟨?_, ?_, ?_, ?_, ?_⟩
  · rw [recordFor, Page.itemFor]
    dsimp only
    split
    · exact sealItem_crc _
    · exact sealItem_crc _
  · rw [recordFor]
    dsimp only
    rw [span, length_bodyFor]
  · rw [recordFor]
    dsimp only
    rw [type]
    intro fixed
    rw [bodyFor, fixed]
    rfl
  · rw [recordFor]
    dsimp only
    rw [key_, keyField_idem]
  · rw [recordFor]
    dsimp only
    rw [ns]
    exact named

theorem rawData_dataEntries (data : List Byte) (whole : data.length % ENTRY_SIZE = 0) :
    (Page.dataEntries data).flatMap Item.rawData = data := by
  rw [ENTRY_SIZE] at whole
  have piece (k : Nat) (inside : k < data.length / 32) :
      (entryOfBytes ((data.drop (32 * k)).take 32)).rawData = (data.drop (32 * k)).take 32 := by
    apply rawData_entryOfBytes
    rw [List.length_take, List.length_drop]
    omega
  have pieces (count : Nat) (inside : count ≤ data.length / 32) :
      ((List.range count).map fun k => entryOfBytes ((data.drop (32 * k)).take 32)).flatMap Item.rawData =
        data.take (32 * count) := by
    induction count with
    | zero => rfl
    | succ count ih =>
        rw [List.range_succ, List.map_append, List.flatMap_append, ih (by omega), List.map_singleton,
          List.flatMap_singleton, piece count (by omega), Nat.mul_succ, List.take_add]
  rw [Page.dataEntries, ENTRY_SIZE, pieces _ (Nat.le_refl _), List.take_of_length_le (by omega)]

theorem rawData_bodyFor (variable_ : datatype.isVariable = true) :
    ((bodyFor env nsIndex datatype key data).flatMap Item.rawData).take data.length = data := by
  have pieces : filled data % ENTRY_SIZE = 0 := by rw [filled, Nat.mul_mod_left]
  have front := rawData_dataEntries (data.take (filled data)) (by rw [length_filled, pieces])
  unfold bodyFor
  rw [if_pos variable_, List.flatMap_append, front]
  split
  · rename_i more
    have rest : (data.drop (filled data)).length < 32 := by
      rw [List.length_drop, filled, ENTRY_SIZE]
      omega
    rw [List.flatMap_singleton, Page.tailEntry, rawData_entryOfBytes, ← List.append_assoc, List.take_append_drop,
      List.take_append_of_le_length (Nat.le_refl _), List.take_length]
    simp only [List.length_append, List.length_drop, List.length_replicate, length_rawData] at rest ⊢
    omega
  · rename_i none_
    have all : data.take (filled data) = data := List.take_of_length_le (by omega)
    rw [List.flatMap_nil, List.append_nil, all, List.take_length]

end

end EspFirmware.Proof.Nvs
