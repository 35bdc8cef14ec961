import Mathlib.Data.List.TakeWhile

/-!
Strings of C: their bytes up to the terminating zero.
-/

namespace EspFirmware.Lib

abbrev CString := List (BitVec 8)

def tolower (c : BitVec 8) : BitVec 8 := if 65 ≤ c.toNat ∧ c.toNat ≤ 90 then c + 32 else c

def lowercase (s : CString) : CString := s.map tolower

def strcasecmp (a b : CString) : Bool := lowercase a == lowercase b

/-- The string that starts at a stretch of memory: the bytes before the first zero. -/
def cString (memory : List (BitVec 8)) : CString := memory.takeWhile (· ≠ 0)

def strndup (s : CString) (n : Nat) : CString := s.take n

theorem strcasecmp_iff {a b : CString} : strcasecmp a b = true ↔ lowercase a = lowercase b := beq_iff_eq

theorem strcasecmp_comm (a b : CString) : strcasecmp a b = strcasecmp b a := by
  unfold strcasecmp
  exact Bool.beq_comm

theorem strndup_short {s : CString} {n : Nat} (short : s.length ≤ n) : strndup s n = s := List.take_of_length_le short

theorem cString_nonzero {memory : List (BitVec 8)} {b : BitVec 8} (member : b ∈ cString memory) : b ≠ 0 := by
  have := List.mem_takeWhile_imp member
  simpa using this

theorem cString_append_of_mem {memory : List (BitVec 8)} (nul : 0 ∈ memory) (tail : List (BitVec 8)) :
    cString (memory ++ tail) = cString memory := by
  induction memory with
  | nil => contradiction
  | cons c rest ih =>
      simp only [cString, List.cons_append, List.takeWhile_cons] at ih ⊢
      split
      · rename_i visible
        rcases List.mem_cons.mp nul with same | later
        · simp [← same] at visible
        · rw [ih later]
      · rfl

theorem cString_append_of_not_mem {memory : List (BitVec 8)} (noNul : 0 ∉ memory) (tail : List (BitVec 8)) :
    cString (memory ++ tail) = memory ++ cString tail := by
  refine List.takeWhile_append_of_pos fun c member => ?_
  simpa using fun same : c = 0 => noNul (same ▸ member)

theorem cString_of_not_mem {memory : List (BitVec 8)} (noNul : 0 ∉ memory) :
    cString memory = memory := by
  simpa [cString] using cString_append_of_not_mem noNul []

theorem nul_not_mem_cString (memory : List (BitVec 8)) : 0 ∉ cString memory := by
  intro member
  have visible := List.all_eq_true.mp List.all_takeWhile 0 member
  contradiction

theorem length_cString_le (memory : List (BitVec 8)) : (cString memory).length ≤ memory.length :=
  (List.takeWhile_prefix _).length_le

theorem cString_eq_self_iff {memory : List (BitVec 8)} : cString memory = memory ↔ 0 ∉ memory :=
  ⟨fun same => same ▸ nul_not_mem_cString memory, cString_of_not_mem⟩

theorem length_cString_lt {memory : List (BitVec 8)} (nul : 0 ∈ memory) :
    (cString memory).length < memory.length := by
  induction memory with
  | nil => contradiction
  | cons c rest ih =>
      simp only [cString, List.takeWhile_cons] at ih ⊢
      split
      · rename_i visible
        rcases List.mem_cons.mp nul with same | later
        · simp [← same] at visible
        · simpa using ih later
      · simp

end EspFirmware.Lib

/-!
Arrays of characters with a string in them. A copy into an array has no result when the string and
its terminating zero are longer than the array.
-/

namespace EspFirmware.Lib

structure CharArray (size : Nat) where
  text : CString
  fits : text.length < size
  deriving DecidableEq

def strcpy (size : Nat) (s : CString) : Option (CharArray size) :=
  if fits : s.length < size then some ⟨s, fits⟩ else none

def CharArray.empty (size : Nat) (room : 0 < size) : CharArray size := ⟨[], room⟩

variable {size : Nat} {s : CString}

theorem strcpy_fits (fits : s.length < size) : strcpy size s = some ⟨s, fits⟩ := dif_pos fits

theorem strcpy_overrun (long : size ≤ s.length) : strcpy size s = none := dif_neg (Nat.not_lt.mpr long)

theorem strcpy_isSome_iff : (strcpy size s).isSome = true ↔ s.length < size := by
  unfold strcpy
  split
  · exact iff_of_true rfl (by assumption)
  · exact iff_of_false Bool.false_ne_true (by assumption)

end EspFirmware.Lib
