import EspFirmware.Spec.OtaUpdate
import EspFirmware.Proof.Boot.OtaCall

/-!
The slots an update goes to, one call after the other.
-/

namespace EspFirmware.Proof.Boot
open EspFirmware.Boot EspFirmware.Spec
open EspFirmware.Nvs (Byte Word)

def pickNext (start : Nat) : List Nat → Option Nat → Bool → Option Nat
  | [], defaultOta, _ => defaultOta
  | p :: rest, defaultOta, nextIsResult =>
      let defaultOta := if defaultOta = none then some p else defaultOta
      if p = start then pickNext start rest defaultOta true
      else if nextIsResult then some p
      else pickNext start rest defaultOta nextIsResult

theorem nextUpdateLoop_eq (list : List EspPartition) (start : Nat) (ts : List Nat) (defaultOta : Option Nat) (flag : Bool) :
    nextUpdateLoop list start ts defaultOta flag =
      pickNext start (ts.filterMap fun t => (espPartitionFind list ESP_PARTITION_TYPE_APP t none).head?) defaultOta flag := by
  induction ts generalizing defaultOta flag with
  | nil => rfl
  | cons t rest ih =>
      unfold nextUpdateLoop
      rw [List.filterMap_cons]
      split
      · rename_i none
        rw [none]
        exact ih _ _
      · rename_i p found
        rw [found]
        simp only [ih]
        rfl

theorem pickNext_cons (start p : Nat) (rest : List Nat) (defaultOta : Option Nat) (nextIsResult : Bool) :
    pickNext start (p :: rest) defaultOta nextIsResult =
      let defaultOta := if defaultOta = none then some p else defaultOta
      if p = start then pickNext start rest defaultOta true
      else if nextIsResult then some p
      else pickNext start rest defaultOta nextIsResult := rfl

theorem pickNext_before {start : Nat} {pre : List Nat} (absent : start ∉ pre) (rest : List Nat) (defaultOta : Option Nat) :
    pickNext start (pre ++ rest) defaultOta false = pickNext start rest (defaultOta.or pre.head?) false := by
  induction pre generalizing defaultOta with
  | nil => rw [List.nil_append, List.head?_nil, Option.or_none]
  | cons p pre ih =>
      have other : p ≠ start := fun same => absent (same ▸ List.mem_cons_self)
      rw [List.cons_append, pickNext_cons]
      rw [if_neg other, if_neg Bool.false_ne_true, ih fun member => absent (List.mem_cons_of_mem _ member)]
      cases defaultOta with
      | none => rfl
      | some d => rfl

theorem pickNext_after {start : Nat} {post : List Nat} (absent : start ∉ post) (defaultOta : Option Nat) :
    pickNext start post defaultOta true = post.head?.or defaultOta := by
  cases post with
  | nil => rfl
  | cons p post =>
      have other : p ≠ start := fun same => absent (same ▸ List.mem_cons_self)
      rw [pickNext_cons, if_neg other, if_pos rfl]
      rfl

theorem pickNext_split {start : Nat} {pre post : List Nat} (before : start ∉ pre) (after : start ∉ post) :
    pickNext start (pre ++ start :: post) none false = (post ++ (pre ++ [start])).head? := by
  rw [pickNext_before before, pickNext_cons, if_pos rfl, pickNext_after after, List.head?_append, List.head?_append]
  cases pre with
  | nil => rfl
  | cons p pre => rfl

theorem pickNext_absent {start : Nat} {slots : List Nat} (absent : start ∉ slots) :
    pickNext start slots none false = slots.head? := by
  have ran := pickNext_before absent [] none
  rw [List.append_nil] at ran
  rw [ran]
  rfl

section
variable {list : List EspPartition} {type : Byte} {subtype : Nat} {label : Option (List Byte)}

theorem mem_find {i : Nat} :
    i ∈ espPartitionFind list type subtype label ↔ ∃ p, list[i]? = some p ∧ matchesItem type subtype label p = true := by
  unfold espPartitionFind
  rw [List.mem_filter, List.mem_range, Option.any_eq_true]
  constructor
  · rintro ⟨-, p, here, matching⟩
    exact ⟨p, here, matching⟩
  · rintro ⟨p, here, matching⟩
    exact ⟨(List.getElem?_eq_some_iff.mp here).1, p, here, matching⟩

theorem matchesItem_iff {p : EspPartition} :
    matchesItem type subtype label p = true ↔
      p.type = type ∧ (subtype = ESP_PARTITION_SUBTYPE_ANY ∨ p.subtype.toNat = subtype) ∧
        (label = none ∨ label = some p.label) :=
  decide_eq_true_iff

theorem slot_unique (distinct : DistinctOtaSlots list) {i j : Nat} {p q : EspPartition} (first : list[i]? = some p)
    (second : list[j]? = some q) (slot : IsOtaSlot p) (other : IsOtaSlot q) (same : p.subtype = q.subtype) : i = j := by
  obtain ⟨insideI, atI⟩ := List.getElem?_eq_some_iff.mp first
  obtain ⟨insideJ, atJ⟩ := List.getElem?_eq_some_iff.mp second
  rcases Nat.lt_trichotomy i j with less | equal | greater
  · have apart := List.pairwise_iff_getElem.mp distinct i j insideI insideJ less
    rw [atI, atJ] at apart
    exact absurd same (apart slot other)
  · exact equal
  · have apart := List.pairwise_iff_getElem.mp distinct j i insideJ insideI greater
    rw [atI, atJ] at apart
    exact absurd same.symm (apart other slot)

theorem slot_of_subtype {p : EspPartition} {t : Nat} (app : p.type = ESP_PARTITION_TYPE_APP) (here : p.subtype.toNat = t)
    (least : 0x10 ≤ t) (most : t < 0x20) : IsOtaSlot p :=
  ⟨app, by rw [here]; exact least, by rw [here]; exact most⟩

theorem find_slot (distinct : DistinctOtaSlots list) {t i : Nat} (least : 0x10 ≤ t) (most : t < 0x20) :
    (espPartitionFind list ESP_PARTITION_TYPE_APP t none).head? = some i ↔
      ∃ p, list[i]? = some p ∧ p.type = ESP_PARTITION_TYPE_APP ∧ p.subtype.toNat = t := by
  have member (j : Nat) : j ∈ espPartitionFind list ESP_PARTITION_TYPE_APP t none ↔
      ∃ p, list[j]? = some p ∧ p.type = ESP_PARTITION_TYPE_APP ∧ p.subtype.toNat = t := by
    rw [mem_find]
    simp only [matchesItem_iff, show t ≠ 0xff by omega, false_or, true_or, and_true]
  constructor
  · intro found
    exact (member i).mp (List.mem_of_head? found)
  · intro here
    have some_ : espPartitionFind list ESP_PARTITION_TYPE_APP t none ≠ [] := List.ne_nil_of_mem ((member i).mpr here)
    have found := List.head?_eq_some_head some_
    obtain ⟨p, atI, app, subtype⟩ := here
    obtain ⟨q, atJ, app', subtype'⟩ := (member _).mp (List.head_mem some_)
    have same := slot_unique distinct atI atJ (slot_of_subtype app subtype least most)
      (slot_of_subtype app' subtype' least most) (BitVec.eq_of_toNat_eq (subtype.trans subtype'.symm))
    rw [found, same]

theorem verify_some {p : EspPartition} (member : p ∈ list) :
    ∃ j q, espPartitionVerify list p = some j ∧ list[j]? = some q ∧ q.type = p.type ∧
      (p.subtype.toNat = ESP_PARTITION_SUBTYPE_ANY ∨ q.subtype.toNat = p.subtype.toNat) ∧
      (p.label = [] ∨ p.label = q.label) ∧ q.address = p.address ∧ q.size = p.size := by
  obtain ⟨i, here⟩ := List.mem_iff_getElem?.mp member
  unfold espPartitionVerify
  generalize labelled : (if p.label.length > 0 then some p.label else none) = label
  have own : label = none ∨ label = some p.label := by
    rw [← labelled]
    split
    · exact Or.inr rfl
    · exact Or.inl rfl
  cases found : (espPartitionFind list p.type p.subtype.toNat label).find? _ with
  | none =>
      have refused := List.find?_eq_none.mp found i (mem_find.mpr ⟨p, here, matchesItem_iff.mpr ⟨rfl, Or.inr rfl, own⟩⟩)
      rw [here] at refused
      simp at refused
  | some j =>
      obtain ⟨q, there, matching⟩ := mem_find.mp (List.mem_of_find?_eq_some found)
      obtain ⟨type, subtype, named⟩ := matchesItem_iff.mp matching
      have place := List.find?_some found
      rw [there, Option.any_some, decide_eq_true_iff] at place
      refine ⟨j, q, rfl, there, type, subtype, ?_, place.1, place.2.symm⟩
      rw [← labelled] at named
      split at named
      · simp only [reduceCtorEq, Option.some_inj, false_or] at named
        exact Or.inr named
      · exact Or.inl (List.eq_nil_of_length_eq_zero (by omega))

theorem verify_slot (distinct : DistinctOtaSlots list) {i : Nat} {p : EspPartition} (here : list[i]? = some p)
    (slot : IsOtaSlot p) : espPartitionVerify list p = some i := by
  have specific : p.subtype.toNat ≠ ESP_PARTITION_SUBTYPE_ANY := by
    have upper : p.subtype.toNat < 0x20 := slot.2.2
    change p.subtype.toNat ≠ 0xff
    omega
  obtain ⟨j, q, found, there, type, subtype, -⟩ := verify_some (List.mem_of_getElem? here)
  have same := subtype.resolve_left specific
  have other : IsOtaSlot q := by
    unfold IsOtaSlot
    rw [type, same]
    exact slot
  rw [found, slot_unique distinct here there slot other (BitVec.eq_of_toNat_eq same.symm)]

theorem filterMap_range (list : List EspPartition) :
    (List.range list.length).filterMap (fun i => list[i]?) = list := by
  have places : (List.range list.length).map (fun i => list[i]?) = list.map some := by
    apply List.ext_getElem
    · simp
    · intro i _ _
      simp
  have kept := congrArg (List.filterMap id) places
  rw [List.filterMap_map, List.filterMap_map] at kept
  exact kept.trans List.filterMap_some

theorem verify_wildcard {p : EspPartition} (wildcard : p.subtype.toNat = ESP_PARTITION_SUBTYPE_ANY) :
    firstInPlace list p = (espPartitionVerify list p).bind fun j => list[j]? := by
  unfold firstInPlace espPartitionVerify espPartitionFind
  conv_lhs => rw [← filterMap_range list]
  rw [List.find?_filterMap, List.find?_filter]
  congr 2
  funext i
  cases list[i]? with
  | none => rfl
  | some q =>
      have named : (if p.label.length > 0 then some p.label else none) = none ∨
          (if p.label.length > 0 then some p.label else none) = some q.label ↔ p.label = [] ∨ p.label = q.label := by
        cases p.label with
        | nil => simp
        | cons b rest => simp
      rw [Option.any_some, Option.any_some, Option.any_some, decide_eq_decide]
      simp only [matchesItem, decide_eq_true_iff, wildcard, true_or, true_and, named, @eq_comm _ p.size]
      tauto

theorem verify_other {p : EspPartition} (member : p ∈ list) (noSlot : ¬ IsOtaSlot p) :
    ∃ j q, espPartitionVerify list p = some j ∧ list[j]? = some q ∧
      (IsOtaSlot q → p.subtype.toNat = ESP_PARTITION_SUBTYPE_ANY ∧ firstInPlace list p = some q) := by
  obtain ⟨j, q, found, there, type, subtype, -⟩ := verify_some member
  refine ⟨j, q, found, there, fun slot => ?_⟩
  rcases subtype with wildcard | same
  · refine ⟨wildcard, ?_⟩
    rw [verify_wildcard wildcard, found, Option.bind_some, there]
  · unfold IsOtaSlot at noSlot slot
    rw [type, same] at slot
    exact absurd slot noSlot

def slotsOf (list : List EspPartition) : List Nat :=
  (List.range' ESP_PARTITION_SUBTYPE_APP_OTA_MIN 16).filterMap fun t =>
    (espPartitionFind list ESP_PARTITION_TYPE_APP t none).head?

theorem slotsOf_order (distinct : DistinctOtaSlots list) : SlotOrder list (slotsOf list) where
  slots i := by
    unfold slotsOf
    rw [List.mem_filterMap]
    constructor
    · rintro ⟨t, range, found⟩
      obtain ⟨least, most⟩ : 0x10 ≤ t ∧ t < 0x20 := List.mem_range'_1.mp range
      obtain ⟨p, here, app, rfl⟩ := (find_slot distinct least most).mp found
      exact ⟨p, here, app, least, most⟩
    · rintro ⟨p, here, app, least, most⟩
      exact ⟨p.subtype.toNat, List.mem_range'_1.mpr ⟨least, most⟩, (find_slot distinct least most).mpr ⟨p, here, app, rfl⟩⟩
  ascending := by
    unfold slotsOf
    rw [List.pairwise_filterMap]
    have ascending : (List.range' ESP_PARTITION_SUBTYPE_APP_OTA_MIN 16).Pairwise (· < ·) := List.pairwise_lt_range'
    refine List.Pairwise.imp_of_mem ?_ ascending
    intro t u ranged ranged' less i found j found' p q here there
    obtain ⟨least, most⟩ : 0x10 ≤ t ∧ t < 0x20 := List.mem_range'_1.mp ranged
    obtain ⟨least', most'⟩ : 0x10 ≤ u ∧ u < 0x20 := List.mem_range'_1.mp ranged'
    obtain ⟨p', here', -, rfl⟩ := (find_slot distinct least most).mp found
    obtain ⟨q', there', -, rfl⟩ := (find_slot distinct least' most').mp found'
    rw [here] at here'
    rw [there] at there'
    cases here'
    cases there'
    exact less

theorem slotsOf_nodup (distinct : DistinctOtaSlots list) : (slotsOf list).Nodup := by
  have order := slotsOf_order distinct
  refine List.Pairwise.imp_of_mem ?_ order.ascending
  intro i j member _ ascending same
  subst same
  obtain ⟨p, here, -⟩ := (order.slots i).mp member
  exact absurd (ascending p p here here) (by simp)

theorem pickNext_at {slots : List Nat} (nodup : slots.Nodup) {i : Nat} (inside : i < slots.length) :
    pickNext slots[i] slots none false = slots[(i + 1) % slots.length]? := by
  have split : slots.take i ++ slots[i] :: slots.drop (i + 1) = slots := by
    rw [← List.drop_eq_getElem_cons inside, List.take_append_drop]
  have parts := nodup
  rw [← split, List.nodup_append, List.nodup_cons] at parts
  obtain ⟨-, ⟨after, -⟩, apart⟩ := parts
  have before : slots[i] ∉ slots.take i := fun member => apart _ member _ List.mem_cons_self rfl
  have turned := pickNext_split before after
  rw [split, List.take_concat_get' slots i inside, ← List.rotate_eq_drop_append_take inside] at turned
  rw [turned, List.head?_eq_getElem?, List.getElem?_rotate (by omega), Nat.zero_add]

theorem pickNext_mem {start r : Nat} {slots : List Nat} {defaultOta : Option Nat} {flag : Bool}
    (picked : pickNext start slots defaultOta flag = some r) : r ∈ slots ∨ defaultOta = some r := by
  induction slots generalizing defaultOta flag with
  | nil => exact Or.inr picked
  | cons p rest ih =>
      have first {flag : Bool} (later : pickNext start rest (if defaultOta = none then some p else defaultOta) flag = some r) :
          r ∈ p :: rest ∨ defaultOta = some r := by
        rcases ih later with member | default
        · exact Or.inl (List.mem_cons_of_mem _ member)
        · split at default
          · cases default
            exact Or.inl List.mem_cons_self
          · exact Or.inr default
      by_cases here : p = start
      · rw [pickNext_cons, if_pos here] at picked
        exact first picked
      · rw [pickNext_cons, if_neg here] at picked
        cases flag with
        | true =>
            cases picked
            exact Or.inl List.mem_cons_self
        | false => exact first picked

theorem next_eq {physOffs : Word} {p : EspPartition} {j : Nat} (verified : espPartitionVerify list p = some j) :
    espOtaGetNextUpdatePartition list physOffs (some p) = some (pickNext j (slotsOf list) none false) := by
  unfold espOtaGetNextUpdatePartition
  dsimp only
  rw [verified, Option.map_some, nextUpdateLoop_eq]
  rfl

theorem next_at (distinct : DistinctOtaSlots list) (physOffs : Word) {i : Nat} (inside : i < (slotsOf list).length) :
    ∃ p, list[(slotsOf list)[i]]? = some p ∧ IsOtaSlot p ∧
      espOtaGetNextUpdatePartition list physOffs (some p) = some (slotsOf list)[(i + 1) % (slotsOf list).length]? := by
  obtain ⟨p, here, slot⟩ := ((slotsOf_order distinct).slots _).mp (List.getElem_mem inside)
  exact ⟨p, here, slot, by rw [next_eq (verify_slot distinct here slot), pickNext_at (slotsOf_nodup distinct) inside]⟩

theorem first_iff_last {slots : List Nat} (nodup : slots.Nodup) {i : Nat} (inside : i < slots.length) :
    slots[(i + 1) % slots.length]? = slots.head? ↔ ¬ i + 1 < slots.length := by
  rw [List.head?_eq_getElem?]
  constructor
  · intro same less
    rw [Nat.mod_eq_of_lt less, List.getElem?_eq_getElem less, List.getElem?_eq_getElem (by omega), Option.some_inj] at same
    have equal := nodup.getElem_inj_iff.mp same
    omega
  · intro last
    rw [show i + 1 = slots.length by omega, Nat.mod_self]

theorem higher_iff (distinct : DistinctOtaSlots list) {i : Nat} (inside : i < (slotsOf list).length) {q : EspPartition}
    (there : list[(slotsOf list)[i]]? = some q) :
    (∃ higher ∈ list, IsOtaSlot higher ∧ q.subtype < higher.subtype) ↔ i + 1 < (slotsOf list).length := by
  have order := slotsOf_order distinct
  have ascending := List.pairwise_iff_getElem.mp order.ascending
  constructor
  · rintro ⟨higher, member, slot, above⟩
    obtain ⟨j, place⟩ := List.mem_iff_getElem?.mp member
    obtain ⟨k, insideK, rfl⟩ := List.mem_iff_getElem.mp ((order.slots j).mpr ⟨higher, place, slot⟩)
    rcases Nat.lt_trichotomy i k with before | rfl | after
    · omega
    · rw [there, Option.some_inj] at place
      rw [place] at above
      exact absurd above (BitVec.lt_irrefl _)
    · exact absurd (BitVec.lt_trans above (ascending k i insideK inside after higher q place there)) (BitVec.lt_irrefl _)
  · intro next
    obtain ⟨higher, place, slot⟩ := (order.slots _).mp (List.getElem_mem next)
    exact ⟨higher, List.mem_of_getElem? place, slot, ascending i (i + 1) inside next (by omega) q higher there place⟩

theorem updates_at (distinct : DistinctOtaSlots list) {physOffs : Word} {i : Nat} (inside : i < (slotsOf list).length)
    (k : Nat) : updates list physOffs (slotsOf list)[i] k = (slotsOf list)[(i + k) % (slotsOf list).length]? := by
  induction k with
  | zero => rw [updates, Nat.add_zero, Nat.mod_eq_of_lt inside, List.getElem?_eq_getElem inside]
  | succ k ih =>
      have here : (i + k) % (slotsOf list).length < (slotsOf list).length := Nat.mod_lt _ (by omega)
      obtain ⟨p, place, -, next⟩ := next_at distinct physOffs here
      rw [updates, ih, List.getElem?_eq_getElem here, Option.bind_some, place, Option.bind_some, next, Nat.mod_add_mod]
      rfl

theorem slotsOf_rotate (distinct : DistinctOtaSlots list) (physOffs : Word) : UpdatesRotate list physOffs (slotsOf list) where
  visits i inside := by
    constructor
    · apply List.ext_getElem
      · simp
      · intro k first second
        rw [List.getElem_map, List.getElem_map, List.getElem_range, updates_at distinct inside, List.getElem_rotate,
          Nat.add_comm i k]
        exact List.getElem?_eq_getElem _
    · rw [updates_at distinct inside, Nat.add_mod_right, Nat.mod_eq_of_lt inside, List.getElem?_eq_getElem inside]
  lowest p member noSlot := by
    obtain ⟨j, q, verified, there, taken⟩ := verify_other member noSlot
    rw [next_eq verified, Option.some_inj]
    by_cases slot : IsOtaSlot q
    · obtain ⟨wildcard, first⟩ := taken slot
      obtain ⟨i, inside, rfl⟩ := List.mem_iff_getElem.mp (((slotsOf_order distinct).slots j).mpr ⟨q, there, slot⟩)
      rw [pickNext_at (slotsOf_nodup distinct) inside, first_iff_last (slotsOf_nodup distinct) inside,
        ← higher_iff distinct inside there]
      constructor
      · rintro top ⟨-, q', first', -, higher⟩
        rw [first, Option.some_inj] at first'
        exact top (first' ▸ higher)
      · exact fun notTaken higher => notTaken ⟨wildcard, q, first, slot, higher⟩
    · have absent : j ∉ slotsOf list := by
        intro listed
        obtain ⟨q', there', isSlot⟩ := ((slotsOf_order distinct).slots j).mp listed
        rw [there] at there'
        cases there'
        exact slot isSlot
      rw [pickNext_absent absent]
      refine iff_of_true rfl ?_
      rintro ⟨wildcard, q', first, isSlot, -⟩
      rw [verify_wildcard wildcard, verified, Option.bind_some, there] at first
      cases first
      exact slot isSlot
  moves two i p here same := by
    by_cases slot : IsOtaSlot p
    · obtain ⟨k, inside, rfl⟩ := List.mem_iff_getElem.mp (((slotsOf_order distinct).slots i).mpr ⟨p, here, slot⟩)
      rw [next_eq (verify_slot distinct here slot), pickNext_at (slotsOf_nodup distinct) inside, Option.some_inj] at same
      obtain ⟨inside', equal⟩ := List.getElem?_eq_some_iff.mp same
      have turned := (slotsOf_nodup distinct).getElem_inj_iff.mp equal
      by_cases last : k + 1 = (slotsOf list).length
      · rw [last, Nat.mod_self] at turned
        omega
      · rw [Nat.mod_eq_of_lt (by omega)] at turned
        omega
    · obtain ⟨j, q, verified, -⟩ := verify_some (List.mem_of_getElem? here)
      rw [next_eq verified, Option.some_inj] at same
      rcases pickNext_mem same with member | default
      · obtain ⟨p', here', isSlot⟩ := ((slotsOf_order distinct).slots i).mp member
        rw [here] at here'
        cases here'
        exact slot isSlot
      · cases default

end

/-- With distinct OTA subtypes the slots are updated in turn, by ascending subtype. Any other partition leads to the
lowest slot exactly if it is no app of the wildcard subtype that is taken for a slot. -/
theorem update_slots_rotate (list : List EspPartition) (physOffs : Word) (distinct : DistinctOtaSlots list)
    (some_ : ∃ p ∈ list, IsOtaSlot p) :
    ∃ order, order ≠ [] ∧ SlotOrder list order ∧ UpdatesRotate list physOffs order := by
  refine ⟨slotsOf list, ?_, slotsOf_order distinct, slotsOf_rotate distinct physOffs⟩
  obtain ⟨p, member, slot⟩ := some_
  obtain ⟨i, here⟩ := List.mem_iff_getElem?.mp member
  exact List.ne_nil_of_mem (((slotsOf_order distinct).slots i).mpr ⟨p, here, slot⟩)

def wildcardTable : RawTable := tableOf [appRecord 0x10 0x10000, appRecord 0x11 0x20000, appRecord 0xff 0x10000]

theorem update_slots_rotate_two :
    ∃ order, order ≠ [] ∧ SlotOrder otaDevice.list order ∧ UpdatesRotate otaDevice.list 0x10000 order :=
  update_slots_rotate otaDevice.list 0x10000 (by decide) (by decide)

/-- The app of subtype `0xff` is no slot and leads to `ota_1`. -/
theorem wildcard_leads_to_ota_1 :
    ¬ ∀ (memory : Nat → Bool) (table : RawTable) (physOffs : Word) (order : List Nat),
      DistinctOtaSlots (loadPartitions memory table) → order ≠ [] → SlotOrder (loadPartitions memory table) order →
      ∀ p ∈ loadPartitions memory table, ¬ IsOtaSlot p →
        espOtaGetNextUpdatePartition (loadPartitions memory table) physOffs (some p) = some order.head? := by
  intro claim
  have lowest := claim (fun _ => false) wildcardTable 0x10000 (slotsOf (loadPartitions (fun _ => false) wildcardTable))
    (by decide) (by decide) (slotsOf_order (by decide)) (appPartition 0xff 0x10000) (by decide) (by decide)
  exact absurd lowest (by decide)

end EspFirmware.Proof.Boot
