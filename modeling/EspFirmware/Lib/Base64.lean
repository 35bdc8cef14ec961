import Mathlib.Tactic.IntervalCases

/-!
The base64 encoding with padding: 24 bits at a time are written as four characters of 6 bits.
-/

namespace EspFirmware.Lib.Base64

def code (c : Char) : BitVec 8 := BitVec.ofNat 8 c.toNat

def alphabet (s : BitVec 6) : BitVec 8 :=
  if s < 26 then code 'A' + s.setWidth 8
  else if s < 52 then code 'a' + (s.setWidth 8 - 26)
  else if s < 62 then code '0' + (s.setWidth 8 - 52)
  else if s = 62 then code '+'
  else code '/'

def padding : BitVec 8 := code '='

def sextet (group : BitVec 24) (i : Nat) : BitVec 6 := group.extractLsb' (18 - 6 * i) 6

/-- Bits that are missing at the end are zeros, and characters that would hold nothing else are padding. -/
def encode : List (BitVec 8) → List (BitVec 8)
  | a :: b :: c :: rest =>
      let group := a ++ b ++ c
      alphabet (sextet group 0) :: alphabet (sextet group 1) :: alphabet (sextet group 2) ::
        alphabet (sextet group 3) :: encode rest
  | [a, b] =>
      let group := a ++ b ++ 0#8
      [alphabet (sextet group 0), alphabet (sextet group 1), alphabet (sextet group 2), padding]
  | [a] =>
      let group := a ++ 0#8 ++ 0#8
      [alphabet (sextet group 0), alphabet (sextet group 1), padding, padding]
  | [] => []

theorem length_encode (bytes : List (BitVec 8)) : (encode bytes).length = 4 * ((bytes.length + 2) / 3) := by
  induction bytes using encode.induct with
  | case1 a b c rest ih =>
      rw [encode]
      simp only [List.length_cons]
      rw [ih]
      omega
  | case2 a b =>
      rw [encode]
      simp only [List.length_cons, List.length_nil]
  | case3 a =>
      rw [encode]
      simp only [List.length_cons, List.length_nil]
  | case4 => rfl

section
variable (a b c : BitVec 8)

theorem sextet_first : sextet (a ++ b ++ c) 0 = (a >>> 2).setWidth 6 := by
  unfold sextet
  apply BitVec.eq_of_getLsbD_eq
  intro i inside
  simp only [BitVec.getLsbD_append, BitVec.getLsbD_extractLsb', BitVec.getLsbD_setWidth, BitVec.getLsbD_ushiftRight]
  interval_cases i <;> rfl

theorem sextet_second : sextet (a ++ b ++ c) 1 = a.setWidth 2 ++ (b >>> 4).setWidth 4 := by
  unfold sextet
  apply BitVec.eq_of_getLsbD_eq
  intro i inside
  simp only [BitVec.getLsbD_append, BitVec.getLsbD_extractLsb', BitVec.getLsbD_setWidth, BitVec.getLsbD_ushiftRight]
  interval_cases i <;> rfl

theorem sextet_third : sextet (a ++ b ++ c) 2 = b.setWidth 4 ++ (c >>> 6).setWidth 2 := by
  unfold sextet
  apply BitVec.eq_of_getLsbD_eq
  intro i inside
  simp only [BitVec.getLsbD_append, BitVec.getLsbD_extractLsb', BitVec.getLsbD_setWidth, BitVec.getLsbD_ushiftRight]
  interval_cases i <;> rfl

theorem sextet_fourth : sextet (a ++ b ++ c) 3 = c.setWidth 6 := by
  unfold sextet
  apply BitVec.eq_of_getLsbD_eq
  intro i inside
  simp only [BitVec.getLsbD_append, BitVec.getLsbD_extractLsb', BitVec.getLsbD_setWidth]
  interval_cases i <;> rfl

end

end EspFirmware.Lib.Base64
