/-!
Cyclic redundancy checks that shift to the right, one bit after the other: what a table of 256 entries computes, and which
changes of a message they notice.
-/

namespace EspFirmware.Lib.Crc

section
variable {w : Nat} (poly : BitVec w)

def bitStep (reg : BitVec w) : BitVec w := if reg.getLsbD 0 then reg >>> 1 ^^^ poly else reg >>> 1

def bitSteps : Nat → BitVec w → BitVec w
  | 0, reg => reg
  | n + 1, reg => bitSteps n (bitStep poly reg)

theorem bitSteps_succ (n : Nat) (reg : BitVec w) :
    bitSteps poly (n + 1) reg = bitSteps poly n (bitStep poly reg) := rfl

def byteStep (reg : BitVec w) (b : BitVec 8) : BitVec w := bitSteps poly 8 (reg ^^^ b.setWidth w)

def crc (init : BitVec w) (bytes : List (BitVec 8)) : BitVec w := bytes.foldl (byteStep poly) init

variable {poly}

theorem bitStep_xor (a b : BitVec w) : bitStep poly (a ^^^ b) = bitStep poly a ^^^ bitStep poly b := by
  unfold bitStep
  rw [BitVec.getLsbD_xor, BitVec.ushiftRight_xor_distrib]
  cases a.getLsbD 0 with
  | false =>
      cases b.getLsbD 0 with
      | false => rfl
      | true => exact BitVec.xor_assoc _ _ _
  | true =>
      cases b.getLsbD 0 with
      | false =>
          show a >>> 1 ^^^ b >>> 1 ^^^ poly = a >>> 1 ^^^ poly ^^^ b >>> 1
          rw [BitVec.xor_assoc, BitVec.xor_comm (b >>> 1), BitVec.xor_assoc]
      | true =>
          show a >>> 1 ^^^ b >>> 1 = a >>> 1 ^^^ poly ^^^ (b >>> 1 ^^^ poly)
          rw [BitVec.xor_comm (b >>> 1) poly, BitVec.xor_assoc, ← BitVec.xor_assoc poly, BitVec.xor_self,
            BitVec.zero_xor]

theorem bitSteps_xor (n : Nat) (a b : BitVec w) :
    bitSteps poly n (a ^^^ b) = bitSteps poly n a ^^^ bitSteps poly n b := by
  induction n generalizing a b with
  | zero => rfl
  | succ n ih =>
      simp only [bitSteps_succ, bitStep_xor]
      exact ih _ _

theorem bitSteps_zeros (n : Nat) (a : BitVec w) (zeros : ∀ i < n, a.getLsbD i = false) :
    bitSteps poly n a = a >>> n := by
  induction n generalizing a with
  | zero => exact (BitVec.ushiftRight_zero a).symm
  | succ n ih =>
      have first : bitStep poly a = a >>> 1 := by
        unfold bitStep
        rw [if_neg (by rw [zeros 0 (Nat.succ_pos n)]; exact Bool.false_ne_true)]
      have later : ∀ i < n, (a >>> 1).getLsbD i = false := by
        intro i below
        rw [BitVec.getLsbD_ushiftRight]
        exact zeros (1 + i) (by omega)
      rw [bitSteps_succ, first, ih _ later, ← BitVec.shiftRight_add, Nat.add_comm]

theorem split_low (a : BitVec w) : a = (a.setWidth 8).setWidth w ^^^ (a >>> 8) <<< 8 := by
  apply BitVec.eq_of_getLsbD_eq
  intro i inside
  rw [BitVec.getLsbD_xor, BitVec.getLsbD_setWidth, BitVec.getLsbD_setWidth, BitVec.getLsbD_shiftLeft,
    BitVec.getLsbD_ushiftRight]
  by_cases low : i < 8
  · simp [low, inside]
  · have back : 8 + (i - 8) = i := by omega
    simp [low, inside, back]

theorem byteStep_table (reg : BitVec w) (b : BitVec 8) :
    byteStep poly reg b = bitSteps poly 8 (((reg ^^^ b.setWidth w).setWidth 8).setWidth w) ^^^ reg >>> 8 := by
  have zeros : ∀ i < 8, ((reg ^^^ b.setWidth w) >>> 8 <<< 8).getLsbD i = false := by
    intro i below
    rw [BitVec.getLsbD_shiftLeft]
    simp [below]
  have rest : (reg ^^^ b.setWidth w) >>> 8 <<< 8 >>> 8 = reg >>> 8 := by
    apply BitVec.eq_of_getLsbD_eq
    intro i inside
    simp only [BitVec.getLsbD_ushiftRight, BitVec.getLsbD_shiftLeft, BitVec.getLsbD_xor, BitVec.getLsbD_setWidth]
    by_cases here : 8 + i < w
    · simp [here]
    · have beyond : reg.getLsbD (8 + i) = false := BitVec.getLsbD_of_ge reg _ (by omega)
      simp [here, beyond]
  calc byteStep poly reg b
      = bitSteps poly 8 (((reg ^^^ b.setWidth w).setWidth 8).setWidth w ^^^ (reg ^^^ b.setWidth w) >>> 8 <<< 8) := by
        rw [← split_low]
        rfl
    _ = _ := by rw [bitSteps_xor, bitSteps_zeros 8 _ zeros, rest]

def table (poly : BitVec w) : List (BitVec w) := (List.range 256).map fun i => bitSteps poly 8 (BitVec.ofNat w i)

theorem get_of_toList_eq {entries : Vector (BitVec w) 256} (is : entries.toList = table poly) (b : BitVec 8) :
    entries.get b.toFin = bitSteps poly 8 (b.setWidth w) := by
  have value : b.setWidth w = BitVec.ofNat w b.toNat := by
    rw [← BitVec.toNat_inj, BitVec.toNat_setWidth, BitVec.toNat_ofNat]
  have listed : entries.toList[b.toNat]? = (table poly)[b.toNat]? := congrArg (fun l => l[b.toNat]?) is
  unfold table at listed
  rw [List.getElem?_map, List.getElem?_range b.isLt, Option.map_some, Vector.getElem?_toList,
    Vector.getElem?_eq_getElem b.isLt] at listed
  rw [value]
  exact Option.some.inj listed

section
variable (top : poly.getLsbD (w - 1) = true)
include top

theorem bitStep_injective {a b : BitVec w} (same : bitStep poly a = bitStep poly b) : a = b := by
  have bit (x : BitVec w) : (bitStep poly x).getLsbD (w - 1) = x.getLsbD 0 := by
    have out : (x >>> 1).getLsbD (w - 1) = false := by
      rw [BitVec.getLsbD_ushiftRight]
      exact BitVec.getLsbD_of_ge x _ (by omega)
    unfold bitStep
    cases x.getLsbD 0 with
    | false => exact out
    | true =>
        show (x >>> 1 ^^^ poly).getLsbD (w - 1) = true
        rw [BitVec.getLsbD_xor, out, top]
        rfl
  have low : a.getLsbD 0 = b.getLsbD 0 := (bit a).symm.trans ((congrArg (BitVec.getLsbD · (w - 1)) same).trans (bit b))
  have shifted : a >>> 1 = b >>> 1 := by
    unfold bitStep at same
    rw [low] at same
    split at same
    · exact (BitVec.xor_left_inj _).mp same
    · exact same
  apply BitVec.eq_of_getLsbD_eq
  intro i inside
  cases i with
  | zero => exact low
  | succ i =>
      have bits := congrArg (fun x => x.getLsbD i) shifted
      rw [BitVec.getLsbD_ushiftRight, BitVec.getLsbD_ushiftRight, Nat.add_comm] at bits
      exact bits

theorem bitSteps_injective {n : Nat} {a b : BitVec w} (same : bitSteps poly n a = bitSteps poly n b) : a = b := by
  induction n generalizing a b with
  | zero => exact same
  | succ n ih => exact bitStep_injective top (ih same)

theorem byteStep_left_injective {a b : BitVec w} {x : BitVec 8} (same : byteStep poly a x = byteStep poly b x) :
    a = b := (BitVec.xor_left_inj _).mp (bitSteps_injective top same)

theorem byteStep_right_injective (wide : 8 ≤ w) {a : BitVec w} {x y : BitVec 8}
    (same : byteStep poly a x = byteStep poly a y) : x = y := by
  have widened := (BitVec.xor_right_inj _).mp (bitSteps_injective top same)
  have narrow := congrArg (BitVec.setWidth 8) widened
  rwa [BitVec.setWidth_setWidth_of_le _ wide, BitVec.setWidth_setWidth_of_le _ wide, BitVec.setWidth_eq,
    BitVec.setWidth_eq] at narrow

theorem crc_left_injective {a b : BitVec w} {bytes : List (BitVec 8)} (same : crc poly a bytes = crc poly b bytes) :
    a = b := by
  induction bytes generalizing a b with
  | nil => exact same
  | cons x rest ih => exact byteStep_left_injective top (ih same)

theorem crc_set_ne (wide : 8 ≤ w) {init : BitVec w} {bytes : List (BitVec 8)} {i : Nat} (inside : i < bytes.length)
    {b : BitVec 8} (other : b ≠ bytes[i]) : crc poly init (bytes.set i b) ≠ crc poly init bytes := by
  induction bytes generalizing init i with
  | nil => exact absurd inside (Nat.not_lt_zero i)
  | cons x rest ih =>
      intro same
      cases i with
      | zero => exact other (byteStep_right_injective top wide (crc_left_injective top same))
      | succ i => exact ih (Nat.lt_of_succ_lt_succ inside) other same

end

end

end EspFirmware.Lib.Crc
