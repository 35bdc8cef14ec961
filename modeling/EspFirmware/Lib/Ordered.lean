import Mathlib.Order.Lattice
import Mathlib.Data.List.Basic
import Mathlib.Data.List.TakeWhile

/-!
Lists in the order of a key, where what is new goes behind all that have the same key.
-/

namespace EspFirmware.Lib

section
variable {α β : Type} {f : α → β} {p : β → Bool} {q : α → Bool} {l : List α}

theorem takeWhile_map_of (same : ∀ x ∈ l, p (f x) = q x) : (l.map f).takeWhile p = (l.takeWhile q).map f := by
  induction l with
  | nil => rfl
  | cons x rest ih =>
      rw [List.forall_mem_cons] at same
      cases h : q x <;> simp [same.1, h, ih same.2]

theorem dropWhile_map_of (same : ∀ x ∈ l, p (f x) = q x) : (l.map f).dropWhile p = (l.dropWhile q).map f := by
  induction l with
  | nil => rfl
  | cons x rest ih =>
      rw [List.forall_mem_cons] at same
      cases h : q x <;> simp [same.1, h, ih same.2]

end

section
variable {α κ : Type} [LinearOrder κ] (key : α → κ)

def insertBehind (x : α) (l : List α) : List α :=
  l.takeWhile (fun y => key y ≤ key x) ++ x :: l.dropWhile fun y => key y ≤ key x

/-- The list has the same elements as the other one, in the order of their keys; elements with one key come as they came. -/
structure Arranged (l arrived : List α) : Prop where
  sorted : l.Pairwise fun x y => key x ≤ key y
  same : ∀ k, l.filter (fun x => key x = k) = arrived.filter fun x => key x = k

variable {key} {l arrived : List α}

theorem takeWhile_sorted (sorted : l.Pairwise fun x y => key x ≤ key y) (k : κ) :
    l.takeWhile (fun x => key x ≤ k) = l.filter fun x => key x ≤ k := by
  induction sorted with
  | nil => rfl
  | @cons x rest later _ ih =>
      by_cases h : key x ≤ k
      · simp [h, ih]
      · have none_ : ∀ y ∈ rest, ¬ key y ≤ k := fun y listed low => h ((later y listed).trans low)
        simpa [h] using none_

theorem dropWhile_sorted (sorted : l.Pairwise fun x y => key x ≤ key y) (k : κ) :
    l.dropWhile (fun x => key x ≤ k) = l.filter fun x => k < key x := by
  induction sorted with
  | nil => rfl
  | @cons x rest later _ ih =>
      by_cases h : key x ≤ k
      · simp [h, ih, not_lt.mpr h]
      · have all : rest.filter (fun y => k < key y) = rest :=
          List.filter_eq_self.mpr fun y listed => by simpa using (not_le.mp h).trans_le (later y listed)
        simp [h, not_le.mp h, all]

theorem insertBehind_sorted (sorted : l.Pairwise fun x y => key x ≤ key y) (x : α) :
    (insertBehind key x l).Pairwise fun x y => key x ≤ key y := by
  rw [insertBehind, takeWhile_sorted sorted, dropWhile_sorted sorted, List.pairwise_append, List.pairwise_cons]
  refine ⟨sorted.filter _, ⟨?_, sorted.filter _⟩, ?_⟩
  · intro y listed
    simp only [List.mem_filter, decide_eq_true_eq] at listed
    exact listed.2.le
  · intro y low z high
    simp only [List.mem_filter, List.mem_cons, decide_eq_true_eq] at low high
    rcases high with rfl | high
    · exact low.2
    · exact low.2.trans high.2.le

theorem insertBehind_filter (sorted : l.Pairwise fun x y => key x ≤ key y) (x : α) (k : κ) :
    (insertBehind key x l).filter (fun y => key y = k) = (l ++ [x]).filter fun y => key y = k := by
  rw [insertBehind, takeWhile_sorted sorted, dropWhile_sorted sorted]
  by_cases below : k ≤ key x
  · have low : (l.filter fun y => key y ≤ key x).filter (fun y => key y = k) = l.filter fun y => key y = k := by
      rw [List.filter_filter]
      refine List.filter_congr fun y _ => ?_
      by_cases same : key y = k <;> simp [same, below]
    have high : (l.filter fun y => key x < key y).filter (fun y => key y = k) = [] := by
      rw [List.filter_filter, List.filter_eq_nil_iff]
      intro y _
      by_cases same : key y = k <;> simp [same, below]
    simp [List.filter_append, List.filter_cons, low, high]
  · have low : (l.filter fun y => key y ≤ key x).filter (fun y => key y = k) = [] := by
      rw [List.filter_filter, List.filter_eq_nil_iff]
      intro y _
      by_cases same : key y = k <;> simp [same, below]
    have high : (l.filter fun y => key x < key y).filter (fun y => key y = k) = l.filter fun y => key y = k := by
      rw [List.filter_filter]
      refine List.filter_congr fun y _ => ?_
      by_cases same : key y = k <;> simp [same, not_le.mp below]
    have other : key x ≠ k := fun same => below same.ge
    simp [List.filter_append, low, high, other]

namespace Arranged

theorem nil : Arranged key ([] : List α) [] := ⟨.nil, fun _ => rfl⟩

theorem mem (arranged : Arranged key l arrived) (x : α) : x ∈ l ↔ x ∈ arrived := by
  have := congrArg (x ∈ ·) (arranged.same (key x))
  simpa using this

theorem insert (arranged : Arranged key l arrived) (x : α) : Arranged key (insertBehind key x l) (arrived ++ [x]) := by
  refine ⟨insertBehind_sorted arranged.sorted x, fun k => ?_⟩
  rw [insertBehind_filter arranged.sorted, List.filter_append, List.filter_append, arranged.same]

theorem filter (arranged : Arranged key l arrived) (p : α → Bool) : Arranged key (l.filter p) (arrived.filter p) := by
  refine ⟨arranged.sorted.filter p, fun k => ?_⟩
  rw [List.filter_comm, arranged.same, List.filter_comm]

theorem takeWhile_least (arranged : Arranged key l arrived) {k : κ} (least : ∀ x ∈ arrived, k ≤ key x) :
    l.takeWhile (fun x => key x ≤ k) = arrived.filter fun x => key x = k := by
  rw [takeWhile_sorted arranged.sorted, ← arranged.same]
  refine List.filter_congr fun x listed => ?_
  have := least x ((arranged.mem x).mp listed)
  simp [le_antisymm_iff, this]

theorem dropWhile_least (arranged : Arranged key l arrived) {k : κ} (least : ∀ x ∈ arrived, k ≤ key x) :
    Arranged key (l.dropWhile fun x => key x ≤ k) (arrived.filter fun x => key x ≠ k) := by
  have others : l.dropWhile (fun x => key x ≤ k) = l.filter fun x => key x ≠ k := by
    rw [dropWhile_sorted arranged.sorted]
    refine List.filter_congr fun x listed => ?_
    have := least x ((arranged.mem x).mp listed)
    simp [lt_iff_le_and_ne, this, ne_comm]
  rw [others]
  exact arranged.filter _

end Arranged

end

end EspFirmware.Lib
