/-!
Positions on a ring: going forward from one of them wraps around at the end.
-/

namespace EspFirmware.Lib

def advance (size p k : Nat) : Nat := if p + k < size then p + k else p + k - size

section
variable {size p j k : Nat}

theorem advance_zero (inside : p < size) : advance size p 0 = p := by
  rw [advance, if_pos (by omega), Nat.add_zero]

theorem advance_size (size p : Nat) : advance size p size = p := by
  rw [advance, if_neg (by omega), Nat.add_sub_cancel]

theorem advance_of_lt (before : p + k < size) : advance size p k = p + k := if_pos before

theorem advance_lt (inside : p < size) (most : k ≤ size) : advance size p k < size := by
  unfold advance
  split <;> omega

theorem advance_advance (inside : p < size) (most : j + k ≤ size) :
    advance size (advance size p j) k = advance size p (j + k) := by
  unfold advance
  split <;> split <;> split <;> omega

theorem advance_inj (first : j < size) (second : k < size)
    (same : advance size p j = advance size p k) : j = k := by
  unfold advance at same
  split at same <;> split at same <;> omega

theorem advance_eq_self (inside : p < size) (most : k ≤ size) : advance size p k = p ↔ k = 0 ∨ k = size := by
  unfold advance
  split <;> omega

end

end EspFirmware.Lib
