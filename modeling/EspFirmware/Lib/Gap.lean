import Mathlib.Data.List.Basic

/-!
Free numbers of an increasing list: from a cursor that steps over the numbers it meets, and from the bottom of
the range upwards.
-/

namespace EspFirmware.Lib

def skip : List Nat → Nat → Nat
  | [], c => c
  | x :: xs, c => skip xs (if x = c then c + 1 else c)

theorem skip_cons (x : Nat) (xs : List Nat) (c : Nat) : skip (x :: xs) c = skip xs (if x = c then c + 1 else c) := rfl

theorem le_skip (xs : List Nat) (c : Nat) : c ≤ skip xs c := by
  induction xs generalizing c with
  | nil => exact Nat.le_refl c
  | cons x xs ih =>
      rw [skip_cons]
      split
      · have rest := ih (c + 1)
        omega
      · exact ih c

theorem skip_of_lt {xs : List Nat} {c : Nat} (above : ∀ x ∈ xs, c < x) : skip xs c = c := by
  induction xs with
  | nil => rfl
  | cons x xs ih =>
      have here := above x List.mem_cons_self
      rw [skip_cons, if_neg (by omega)]
      apply ih
      intro y member
      exact above y (List.mem_cons_of_mem x member)

theorem skip_not_mem {xs : List Nat} (increasing : xs.Pairwise (· < ·)) (c : Nat) : skip xs c ∉ xs := by
  induction xs generalizing c with
  | nil => exact List.not_mem_nil
  | cons x xs ih =>
      obtain ⟨first, rest⟩ := List.pairwise_cons.mp increasing
      intro member
      rw [skip_cons] at member
      rcases List.mem_cons.mp member with here | later
      · by_cases met : x = c
        · have beyond := le_skip xs (c + 1)
          rw [if_pos met] at here
          omega
        · rw [if_neg met] at here
          have beyond := le_skip xs c
          have still : skip xs c = c := by
            apply skip_of_lt
            intro y above
            have := first y above
            omega
          omega
      · exact ih rest _ later

def firstGap : List Nat → Nat → Nat
  | [], g => g
  | x :: xs, g => if g < x then g else firstGap xs (g + 1)

theorem firstGap_cons (x : Nat) (xs : List Nat) (g : Nat) :
    firstGap (x :: xs) g = if g < x then g else firstGap xs (g + 1) := rfl

theorem le_firstGap (xs : List Nat) (g : Nat) : g ≤ firstGap xs g := by
  induction xs generalizing g with
  | nil => exact Nat.le_refl g
  | cons x xs ih =>
      have rest := ih (g + 1)
      rw [firstGap_cons]
      split <;> omega

theorem firstGap_le {xs : List Nat} {g top : Nat} (increasing : xs.Pairwise (· < ·)) (above : ∀ x ∈ xs, g ≤ x)
    (below : ∀ x ∈ xs, x < top) (start : g ≤ top) : firstGap xs g ≤ top := by
  induction xs generalizing g with
  | nil => exact start
  | cons x xs ih =>
      obtain ⟨first, rest⟩ := List.pairwise_cons.mp increasing
      have low := above x List.mem_cons_self
      have high := below x List.mem_cons_self
      rw [firstGap_cons]
      split
      · exact start
      · apply ih rest
        · intro y member
          have := first y member
          omega
        · intro y member
          exact below y (List.mem_cons_of_mem x member)
        · omega

theorem firstGap_not_mem {xs : List Nat} {g : Nat} (increasing : xs.Pairwise (· < ·)) (above : ∀ x ∈ xs, g ≤ x) :
    firstGap xs g ∉ xs := by
  induction xs generalizing g with
  | nil => exact List.not_mem_nil
  | cons x xs ih =>
      obtain ⟨first, rest⟩ := List.pairwise_cons.mp increasing
      have low := above x List.mem_cons_self
      intro member
      rw [firstGap_cons] at member
      split at member
      · rcases List.mem_cons.mp member with here | later
        · omega
        · have := first g later
          omega
      · have aboveRest : ∀ y ∈ xs, g + 1 ≤ y := by
          intro y later
          have := first y later
          omega
        rcases List.mem_cons.mp member with here | later
        · have beyond := le_firstGap xs (g + 1)
          omega
        · exact ih rest aboveRest later

/-- Everything below the first gap is taken. -/
theorem mem_of_lt_firstGap {xs : List Nat} {g y : Nat} (increasing : xs.Pairwise (· < ·)) (above : ∀ x ∈ xs, g ≤ x)
    (low : g ≤ y) (high : y < firstGap xs g) : y ∈ xs := by
  induction xs generalizing g with
  | nil => exact absurd high (Nat.not_lt.mpr low)
  | cons x xs ih =>
      obtain ⟨first, rest⟩ := List.pairwise_cons.mp increasing
      have bottom := above x List.mem_cons_self
      rw [firstGap_cons] at high
      split at high
      · omega
      · by_cases here : y = x
        · rw [here]
          exact List.mem_cons_self
        · apply List.mem_cons_of_mem
          apply ih rest _ (by omega) high
          intro z later
          have := first z later
          omega

end EspFirmware.Lib
