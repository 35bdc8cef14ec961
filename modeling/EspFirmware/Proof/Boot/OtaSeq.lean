import Mathlib.Data.Nat.ModEq
import EspFirmware.Spec.OtaUpdate
import EspFirmware.Proof.Boot.Loader

/-!
Sequence numbers: the one that is written for a slot, and what a pair of records selects before, during
and after it is written.
-/

namespace EspFirmware.Proof.Boot
open EspFirmware.Boot EspFirmware.Spec
open EspFirmware.Nvs (Word)

theorem seqLoop_some {seq residue count : Word} (fuel : Nat) (i : Word) {j : Word}
    (found : seqLoop seq residue count fuel i = some j) : seq ≤ residue + j * count := by
  induction fuel generalizing i with
  | zero => cases found
  | succ fuel ih =>
      unfold seqLoop at found
      by_cases less : seq > residue + i * count
      · rw [if_pos less] at found
        exact ih (i + 1) found
      · rw [if_neg less] at found
        cases found
        exact BitVec.not_lt.mp less

theorem nextSeq_ge {seq v : Word} {x count : Nat} (picked : nextSeq seq x count = some v) : seq ≤ v := by
  unfold nextSeq at picked
  obtain ⟨j, found, rfl⟩ := Option.map_eq_some_iff.mp picked
  exact seqLoop_some _ _ found

theorem candidate_toNat {residue count i : Nat} (fits : residue + i * count < 2 ^ 32) :
    (BitVec.ofNat 32 residue + BitVec.ofNat 32 i * BitVec.ofNat 32 count).toNat = residue + i * count := by
  rw [← BitVec.ofNat_mul, ← BitVec.ofNat_add, BitVec.toNat_ofNat, Nat.mod_eq_of_lt fits]

theorem seqLoop_ends {seq : Word} {residue count last : Nat} (small : residue + last * count < 2 ^ 32)
    (reached : seq.toNat ≤ residue + last * count) (fuel i : Nat) (before : i ≤ last) (enough : last < i + fuel) :
    ∃ j : Nat, seqLoop seq (BitVec.ofNat 32 residue) (BitVec.ofNat 32 count) fuel (BitVec.ofNat 32 i) =
        some (BitVec.ofNat 32 j) ∧ j ≤ last ∧ seq.toNat ≤ residue + j * count := by
  induction fuel generalizing i with
  | zero => omega
  | succ fuel ih =>
      have rounds : i * count ≤ last * count := Nat.mul_le_mul_right count before
      have value := @candidate_toNat residue count i (by omega)
      unfold seqLoop
      by_cases less : seq > BitVec.ofNat 32 residue + BitVec.ofNat 32 i * BitVec.ofNat 32 count
      · have lower : residue + i * count < seq.toNat := by
          rw [← value]
          exact less
        have later : i ≠ last := by
          rintro rfl
          omega
        rw [if_pos less]
        have next := ih (i + 1) (by omega) (by omega)
        rwa [BitVec.ofNat_add] at next
      · have here : seq.toNat ≤ residue + i * count := by
          rw [← value]
          exact Nat.le_of_not_lt less
        exact ⟨i, if_neg less, before, here⟩

theorem nextSeq_least {seq : Word} {x count other : Nat} (above : seq.toNat ≤ other)
    (small : other < 2 ^ 32) (residue : other % count = (x + 1) % count) :
    ∃ v, nextSeq seq x count = some v ∧ seq.toNat ≤ v.toNat ∧ v.toNat ≤ other ∧ v.toNat % count = (x + 1) % count := by
  have parts : (x + 1) % count + other / count * count = other := by
    rw [← residue, Nat.mul_comm, Nat.add_comm]
    exact Nat.div_add_mod other count
  have quotient : other / count ≤ other := Nat.div_le_self other count
  obtain ⟨j, found, inside, reached⟩ := @seqLoop_ends seq ((x + 1) % count) count (other / count) (by omega) (by omega)
    (2 ^ 32) 0 (Nat.zero_le _) (by omega)
  have rounds : j * count ≤ other / count * count := Nat.mul_le_mul_right count inside
  have start : (0 : Word) = BitVec.ofNat 32 0 := rfl
  have value := @candidate_toNat ((x + 1) % count) count j (by omega)
  refine ⟨BitVec.ofNat 32 ((x + 1) % count) + BitVec.ofNat 32 j * BitVec.ofNat 32 count, ?_, by omega, by omega, ?_⟩
  · rw [nextSeq, start, found]
    rfl
  · rw [value, Nat.add_mul_mod_self_right, Nat.mod_mod]

theorem nextSeq_spec {seq : Word} {x count : Nat} (positive : 0 < count) (small : seq.toNat + count ≤ 2 ^ 32) :
    ∃ v, nextSeq seq x count = some v ∧ seq.toNat ≤ v.toNat ∧ v.toNat < seq.toNat + count ∧
      v.toNat % count = (x + 1) % count := by
  have bounded : (x + 1) % count < count := Nat.mod_lt _ positive
  obtain ⟨other, above, below, residue⟩ : ∃ other, seq.toNat ≤ other ∧ other < seq.toNat + count ∧
      other % count = (x + 1) % count := by
    by_cases first : seq.toNat ≤ (x + 1) % count
    · exact ⟨(x + 1) % count, first, by omega, Nat.mod_mod _ _⟩
    · have rounded := Nat.div_add_mod (seq.toNat - (x + 1) % count + (count - 1)) count
      have remainder := Nat.mod_lt (seq.toNat - (x + 1) % count + (count - 1)) positive
      generalize (seq.toNat - (x + 1) % count + (count - 1)) / count = rounds at rounded
      rw [Nat.mul_comm] at rounded
      exact ⟨(x + 1) % count + rounds * count, by omega, by omega, by rw [Nat.add_mul_mod_self_right, Nat.mod_mod]⟩
  obtain ⟨v, picked, reached, least, same⟩ := nextSeq_least above (by omega) residue
  exact ⟨v, picked, reached, by omega, same⟩

theorem slot_of_next {v : Word} {x count : Nat} (inside : x < count) (residue : v.toNat % count = (x + 1) % count)
    (positive : v ≠ 0) : (v - 1).toNat % count = x := by
  have least : 1 ≤ v.toNat := by
    by_contra none
    exact positive (BitVec.eq_of_toNat_eq (by simp; omega))
  have less : (v - 1).toNat = v.toNat - 1 := by
    rw [BitVec.toNat_sub]
    have := v.isLt
    simp
    omega
  have same : (v.toNat - 1) + 1 ≡ x + 1 [MOD count] := by
    rw [Nat.sub_add_cancel least]
    exact residue
  rw [less, ← Nat.mod_eq_of_lt inside]
  exact Nat.ModEq.add_right_cancel' 1 same

section
variable {s t : OtaSelect × OtaSelect} {n : Nat}

def PositiveSeqs (s : OtaSelect × OtaSelect) : Prop :=
  (s.1.Valid → s.1.otaSeq ≠ 0) ∧ (s.2.Valid → s.2.otaSeq ≠ 0)

theorem OTA_MAX_cases (a b : Word) : OTA_MAX a b = a ∧ b ≤ a ∨ OTA_MAX a b = b ∧ a ≤ b ∧ a ≠ b := by
  unfold OTA_MAX
  by_cases above : a ≥ b
  · exact .inl ⟨if_pos above, above⟩
  · refine .inr ⟨if_neg above, BitVec.le_of_lt (BitVec.not_le.mp above), ?_⟩
    rintro rfl
    exact above (BitVec.le_refl a)

def plan (s : OtaSelect × OtaSelect) (x count : Nat) : Option (Nat × Word) :=
  if s.1.Valid ∧ s.2.Valid then
    (nextSeq (OTA_MAX s.1.otaSeq s.2.otaSeq) x count).map fun v => (if s.1.otaSeq ≥ s.2.otaSeq then 1 else 0, v)
  else if s.1.Valid then (nextSeq s.1.otaSeq x count).map fun v => (1, v)
  else if s.2.Valid then (nextSeq s.2.otaSeq x count).map fun v => (0, v)
  else some (0, BitVec.ofNat 32 (x + 1))

def Writing (s : OtaSelect × OtaSelect) (secId : Nat) (v : Word) (t : OtaSelect × OtaSelect) : Prop :=
  secId = 0 ∧ t.2 = s.2 ∧ (t.1.otaSeq = UINT32_MAX ∨ t.1.otaSeq = v) ∨
    secId = 1 ∧ t.1 = s.1 ∧ (t.2.otaSeq = UINT32_MAX ∨ t.2.otaSeq = v)

theorem plan_cases {x count secId : Nat} {v : Word} (planned : plan s x count = some (secId, v)) :
    (secId = 1 ∧ s.1.Valid ∧ topSeq s = some s.1.otaSeq ∧ nextSeq s.1.otaSeq x count = some v) ∨
    (secId = 0 ∧ s.2.Valid ∧ topSeq s = some s.2.otaSeq ∧ nextSeq s.2.otaSeq x count = some v) ∨
    (secId = 0 ∧ ¬ s.1.Valid ∧ ¬ s.2.Valid ∧ topSeq s = none ∧ v = BitVec.ofNat 32 (x + 1)) := by
  unfold plan at planned
  by_cases first : s.1.Valid <;> by_cases second : s.2.Valid <;>
    simp only [first, second, and_self, and_true, and_false, if_true, if_false] at planned
  · obtain ⟨w, next, same⟩ := Option.map_eq_some_iff.mp planned
    have both : topSeq s = some (OTA_MAX s.1.otaSeq s.2.otaSeq) := if_pos ⟨first, second⟩
    rcases OTA_MAX_cases s.1.otaSeq s.2.otaSeq with ⟨top, above⟩ | ⟨top, below, differ⟩
    · rw [if_pos above] at same
      cases same
      rw [top] at both next
      exact .inl ⟨rfl, first, both, next⟩
    · have less : ¬ s.1.otaSeq ≥ s.2.otaSeq := fun above => differ (BitVec.le_antisymm below above)
      rw [if_neg less] at same
      cases same
      rw [top] at both next
      exact .inr (.inl ⟨rfl, second, both, next⟩)
  · obtain ⟨w, next, same⟩ := Option.map_eq_some_iff.mp planned
    cases same
    exact .inl ⟨rfl, first, by simp [topSeq, first, second], next⟩
  · obtain ⟨w, next, same⟩ := Option.map_eq_some_iff.mp planned
    cases same
    exact .inr (.inl ⟨rfl, second, by simp [topSeq, first, second], next⟩)
  · cases planned
    exact .inr (.inr ⟨rfl, first, second, by simp [topSeq, first, second], rfl⟩)

theorem topSeq_first_only (first : s.1.Valid) (second : ¬ s.2.Valid) : topSeq s = some s.1.otaSeq := by
  simp [topSeq, first, second]

theorem topSeq_second_only (first : ¬ s.1.Valid) (second : s.2.Valid) : topSeq s = some s.2.otaSeq := by
  simp [topSeq, first, second]

theorem topSeq_both (first : s.1.Valid) (second : s.2.Valid) : topSeq s = some (OTA_MAX s.1.otaSeq s.2.otaSeq) :=
  if_pos ⟨first, second⟩

theorem OTA_MAX_of_le {a b : Word} (below : a ≤ b) : OTA_MAX a b = b := by
  rcases OTA_MAX_cases a b with ⟨top, above⟩ | ⟨top, -⟩
  · rw [top]
    exact BitVec.le_antisymm below above
  · exact top

theorem OTA_MAX_of_ge {a b : Word} (above : b ≤ a) : OTA_MAX a b = a := if_pos above

theorem valid_seq {r : OtaSelect} {v : Word} (valid : r.Valid) (seq : r.otaSeq = UINT32_MAX ∨ r.otaSeq = v) : r.otaSeq = v :=
  seq.resolve_left valid.1

theorem writing_topSeq {x count secId : Nat} {v : Word} (planned : plan s x count = some (secId, v))
    (writing : Writing s secId v t) :
    if (if secId = 0 then t.1 else t.2).Valid then topSeq t = some v else topSeq t = topSeq s := by
  rcases plan_cases planned with ⟨rfl, valid, top, next⟩ | ⟨rfl, valid, top, next⟩ | ⟨rfl, first, second, top, -⟩
  · rcases writing with ⟨other, -⟩ | ⟨-, kept, number⟩
    · cases other
    · have stays : t.1.Valid := by rwa [kept]
      rw [if_neg Nat.one_ne_zero]
      by_cases done : t.2.Valid
      · rw [if_pos done, topSeq_both stays done, kept, valid_seq done number, OTA_MAX_of_le (nextSeq_ge next)]
      · rw [if_neg done, topSeq_first_only stays done, kept, top]
  · rcases writing with ⟨-, kept, number⟩ | ⟨other, -⟩
    · have stays : t.2.Valid := by rwa [kept]
      rw [if_pos rfl]
      by_cases done : t.1.Valid
      · rw [if_pos done, topSeq_both done stays, kept, valid_seq done number, OTA_MAX_of_ge (nextSeq_ge next)]
      · rw [if_neg done, topSeq_second_only done stays, kept, top]
    · cases other
  · rcases writing with ⟨-, kept, number⟩ | ⟨other, -⟩
    · have stays : ¬ t.2.Valid := by rwa [kept]
      rw [if_pos rfl]
      by_cases done : t.1.Valid
      · rw [if_pos done, topSeq_first_only done stays, valid_seq done number]
      · rw [if_neg done, top, topSeq_eq_none]
        exact fun valid => valid.elim done stays
    · cases other

theorem plan_positive {x count secId : Nat} {v : Word} (small : x < 16) (positive : PositiveSeqs s)
    (planned : plan s x count = some (secId, v)) : v ≠ 0 := by
  have above {seq : Word} (next : nextSeq seq x count = some v) (number : seq ≠ 0) : v ≠ 0 := by
    rintro rfl
    exact number (BitVec.le_antisymm (nextSeq_ge next) (Nat.zero_le _))
  rcases plan_cases planned with ⟨-, valid, -, next⟩ | ⟨-, valid, -, next⟩ | ⟨-, -, -, -, rfl⟩
  · exact above next (positive.1 valid)
  · exact above next (positive.2 valid)
  · intro zero
    have value := congrArg BitVec.toNat zero
    rw [BitVec.toNat_ofNat, Nat.mod_eq_of_lt (by omega)] at value
    exact absurd value (by simp)

theorem writing_positive {x count secId : Nat} {v : Word} (small : x < 16) (positive : PositiveSeqs s)
    (planned : plan s x count = some (secId, v)) (writing : Writing s secId v t) : PositiveSeqs t := by
  have number := plan_positive small positive planned
  rcases writing with ⟨-, kept, seq⟩ | ⟨-, kept, seq⟩
  · exact ⟨fun valid => by rwa [valid_seq valid seq], by rw [kept]; exact positive.2⟩
  · exact ⟨by rw [kept]; exact positive.1, fun valid => by rwa [valid_seq valid seq]⟩

theorem plan_isSome {x count : Nat} (inside : x < count) (below : SeqsBelow (2 ^ 32 - count) s) :
    ∃ pair, plan s x count = some pair := by
  have found {seq : Word} (small : seq.toNat < 2 ^ 32 - count) : ∃ v, nextSeq seq x count = some v := by
    obtain ⟨v, next, -⟩ := @nextSeq_spec seq x count (by omega) (by omega)
    exact ⟨v, next⟩
  unfold plan
  by_cases first : s.1.Valid
  · by_cases second : s.2.Valid
    · have small : (OTA_MAX s.1.otaSeq s.2.otaSeq).toNat < 2 ^ 32 - count := by
        rcases OTA_MAX_cases s.1.otaSeq s.2.otaSeq with ⟨top, -⟩ | ⟨top, -⟩
        · rw [top]
          exact below.1 first
        · rw [top]
          exact below.2 second
      obtain ⟨v, next⟩ := found small
      rw [if_pos ⟨first, second⟩, next]
      exact ⟨_, rfl⟩
    · obtain ⟨v, next⟩ := found (below.1 first)
      rw [if_neg (fun both => second both.2), if_pos first, next]
      exact ⟨_, rfl⟩
  · rw [if_neg (fun both => first both.1), if_neg first]
    by_cases second : s.2.Valid
    · obtain ⟨v, next⟩ := found (below.2 second)
      rw [if_pos second, next]
      exact ⟨_, rfl⟩
    · rw [if_neg second]
      exact ⟨_, rfl⟩

theorem plan_spec {x count : Nat} (inside : x < count) (few : count ≤ 16) (positive : PositiveSeqs s)
    (below : SeqsBelow (2 ^ 32 - count) s) :
    ∃ secId v, plan s x count = some (secId, v) ∧ v ≠ UINT32_MAX ∧ (v - 1).toNat % count = x := by
  have highest {v : Word} (less : v.toNat < 2 ^ 32 - 1) : v ≠ UINT32_MAX := by
    rintro rfl
    exact absurd less (by decide)
  obtain ⟨⟨secId, v⟩, planned⟩ := plan_isSome inside below
  have number := plan_positive (by omega) positive planned
  have spec {seq : Word} (next : nextSeq seq x count = some v) (small : seq.toNat < 2 ^ 32 - count) :
      v ≠ UINT32_MAX ∧ (v - 1).toNat % count = x := by
    obtain ⟨w, found, -, less, residue⟩ := @nextSeq_spec seq x count (by omega) (by omega)
    rw [next] at found
    cases found
    exact ⟨highest (by omega), slot_of_next inside residue number⟩
  refine ⟨secId, v, planned, ?_⟩
  rcases plan_cases planned with ⟨-, valid, -, next⟩ | ⟨-, valid, -, next⟩ | ⟨-, -, -, -, rfl⟩
  · exact spec next (below.1 valid)
  · exact spec next (below.2 valid)
  · have value : (BitVec.ofNat 32 (x + 1)).toNat = x + 1 := by
      rw [BitVec.toNat_ofNat, Nat.mod_eq_of_lt (by omega)]
    exact ⟨highest (by omega), slot_of_next inside (by rw [value]) number⟩

end

end EspFirmware.Proof.Boot
