import EspFirmware.Proof.Util.Decode

namespace EspFirmware.Proof.Util
open EspFirmware.Lib.Base64 EspFirmware.Util

theorem alphabet_plain (s : BitVec 6) :
    ¬ 127 < alphabet s ∧ alphabet s ≠ 0x3D ∧ isBlank (alphabet s) = false ∧ s.setWidth 8 < 64#8 := by
  revert s
  decide

theorem checkPass_alphabet (s : BitVec 6) (src : List (BitVec 8)) (n : BitVec 32) :
    checkPass (alphabet s :: src) 0 0 n = checkPass src 0 0 (n + 1) := by
  obtain ⟨ascii, notPad, visible, small⟩ := alphabet_plain s
  have shown := of_decide_eq_false visible
  rw [not_or, not_or] at shown
  have valid : s.setWidth 8 ≠ (127 : BitVec 8) := by
    intro same
    rw [same] at small
    exact absurd small (by decide)
  rw [checkPass]
  dsimp only
  rw [if_neg shown.2.2, if_neg (fun both => shown.1 both.1), if_neg shown.2.1, if_neg (fun no => no rfl), if_neg notPad,
    if_neg (fun both => notPad both.1), if_neg ascii, mapBase64DecData_alphabet, Option.bind_some, if_neg valid,
    if_neg (fun both => both.2 rfl)]

theorem checkPass_padding {j : BitVec 32} (few : ¬ 2 < j + 1) (src : List (BitVec 8)) (n : BitVec 32) :
    checkPass (padding :: src) 0 j n = checkPass src 0 (j + 1) (n + 1) := by
  have is : padding = 0x3D := rfl
  rw [is, checkPass]
  dsimp only
  rw [if_neg (by decide), if_neg (fun both => absurd both.1 (by decide)), if_neg (by decide), if_neg (fun no => no rfl),
    if_pos rfl, if_neg (fun both => few both.2), if_neg (by decide), mapBase64DecData_padding, Option.bind_some,
    if_neg (by decide), if_neg (fun both => absurd both.1 (by decide))]

def pads (bytes : List (BitVec 8)) : Nat := (3 - bytes.length % 3) % 3

theorem checkPass_encode (bytes : List (BitVec 8)) (n : BitVec 32) :
    checkPass (encode bytes) 0 0 n =
      some (.ok (BitVec.ofNat 32 (pads bytes), n + BitVec.ofNat 32 (encode bytes).length)) := by
  induction bytes using encode.induct generalizing n with
  | case1 a b c rest ih =>
      have same : pads (a :: b :: c :: rest) = pads rest := by
        unfold pads
        simp only [List.length_cons]
        omega
      rw [encode, checkPass_alphabet, checkPass_alphabet, checkPass_alphabet, checkPass_alphabet, ih, same]
      simp only [List.length_cons, BitVec.ofNat_add, BitVec.add_assoc]
      simp only [BitVec.add_comm (BitVec.ofNat 32 (encode rest).length), BitVec.add_assoc]
      rfl
  | case2 a b =>
      rw [encode, checkPass_alphabet, checkPass_alphabet, checkPass_alphabet, checkPass_padding (by decide)]
      simp only [List.length_cons, List.length_nil, BitVec.add_assoc]
      rfl
  | case3 a =>
      rw [encode, checkPass_alphabet, checkPass_alphabet, checkPass_padding (by decide), checkPass_padding (by decide)]
      simp only [List.length_cons, List.length_nil, BitVec.add_assoc]
      rfl
  | case4 => simp [encode, checkPass, pads]

theorem writePass_alphabet (s : BitVec 6) (src : List (BitVec 8)) (j x : BitVec 32) (n : Nat) :
    writePass (alphabet s :: src) j n x =
      let x := x <<< 6 ||| s.setWidth 32
      if n + 1 = 4 then (writePass src j 0 x).map (emit j x ++ ·) else writePass src j (n + 1) x := by
  have bits : ∀ s : BitVec 6, (s.setWidth 8 &&& 0x3F : BitVec 8).setWidth 32 = s.setWidth 32 := by decide
  rw [writePass_datum (mapBase64DecData_alphabet s) (alphabet_plain s).2.2.2, bits]

def collect (x : BitVec 32) (s₀ s₁ s₂ s₃ : BitVec 6) : BitVec 32 :=
  (((x <<< 6 ||| s₀.setWidth 32) <<< 6 ||| s₁.setWidth 32) <<< 6 ||| s₂.setWidth 32) <<< 6 ||| s₃.setWidth 32

theorem emit_collect (x : BitVec 32) (a b c : BitVec 8) (j : BitVec 32) :
    let g := a ++ b ++ c
    emit j (collect x (sextet g 0) (sextet g 1) (sextet g 2) (sextet g 3)) =
      (if 0 < j then [a] else []) ++ (if 1 < j then [b] else []) ++ (if 2 < j then [c] else []) := by
  intro g
  have first : (collect x (sextet g 0) (sextet g 1) (sextet g 2) (sextet g 3) >>> 16).setWidth 8 = a := by
    rw [sextet_first, sextet_second, sextet_third, sextet_fourth]
    unfold collect
    apply BitVec.eq_of_getLsbD_eq
    intro i inside
    simp only [BitVec.getLsbD_append, BitVec.getLsbD_setWidth, BitVec.getLsbD_or, BitVec.getLsbD_shiftLeft,
      BitVec.getLsbD_ushiftRight]
    interval_cases i <;> simp
  have second : (collect x (sextet g 0) (sextet g 1) (sextet g 2) (sextet g 3) >>> 8).setWidth 8 = b := by
    rw [sextet_first, sextet_second, sextet_third, sextet_fourth]
    unfold collect
    apply BitVec.eq_of_getLsbD_eq
    intro i inside
    simp only [BitVec.getLsbD_append, BitVec.getLsbD_setWidth, BitVec.getLsbD_or, BitVec.getLsbD_shiftLeft,
      BitVec.getLsbD_ushiftRight]
    interval_cases i <;> simp
  have third : (collect x (sextet g 0) (sextet g 1) (sextet g 2) (sextet g 3)).setWidth 8 = c := by
    rw [sextet_first, sextet_second, sextet_third, sextet_fourth]
    unfold collect
    apply BitVec.eq_of_getLsbD_eq
    intro i inside
    simp only [BitVec.getLsbD_append, BitVec.getLsbD_setWidth, BitVec.getLsbD_or, BitVec.getLsbD_shiftLeft,
      BitVec.getLsbD_ushiftRight]
    interval_cases i <;> simp
  unfold emit
  rw [first, second, third]

theorem writePass_group (x : BitVec 32) (a b c : BitVec 8) (src : List (BitVec 8)) :
    let g := a ++ b ++ c
    ∃ x', writePass (alphabet (sextet g 0) :: alphabet (sextet g 1) :: alphabet (sextet g 2) :: alphabet (sextet g 3) :: src)
      3 0 x = (writePass src 3 0 x').map ([a, b, c] ++ ·) := by
  intro g
  refine ⟨collect x (sextet g 0) (sextet g 1) (sextet g 2) (sextet g 3), ?_⟩
  have bytes := emit_collect x a b c 3
  rw [writePass_alphabet]
  dsimp only
  rw [if_neg (by decide), writePass_alphabet]
  dsimp only
  rw [if_neg (by decide), writePass_alphabet]
  dsimp only
  rw [if_neg (by decide), writePass_alphabet]
  dsimp only
  rw [if_pos rfl]
  exact congrArg (fun out => (writePass src 3 0 _).map (out ++ ·)) bytes

theorem writePass_encode (bytes : List (BitVec 8)) (x : BitVec 32) :
    writePass (encode bytes) 3 0 x = some bytes := by
  induction bytes using encode.induct generalizing x with
  | case1 a b c rest ih =>
      obtain ⟨x', group⟩ := writePass_group x a b c (encode rest)
      rw [encode, group, ih x']
      rfl
  | case2 a b =>
      have bytes := emit_collect x a b 0#8 2
      have low : sextet (a ++ b ++ 0#8) 3 = 0 := sextet_fourth a b 0#8
      dsimp only at bytes
      rw [low] at bytes
      rw [encode, writePass_alphabet]
      dsimp only
      rw [if_neg (by decide), writePass_alphabet]
      dsimp only
      rw [if_neg (by decide), writePass_alphabet]
      dsimp only
      rw [if_neg (by decide), show padding = 0x3D from rfl, writePass_pad, if_pos rfl]
      refine congrArg (fun out => some (out ++ [])) (Eq.trans ?_ bytes)
      unfold collect
      rw [show (0 : BitVec 6).setWidth 32 = 0#32 from rfl, BitVec.or_zero]
      rfl
  | case3 a =>
      have bytes := emit_collect x a 0#8 0#8 1
      have low : sextet (a ++ 0#8 ++ 0#8) 3 = 0 := sextet_fourth a 0#8 0#8
      have low' : sextet (a ++ 0#8 ++ 0#8) 2 = 0 := sextet_third a 0#8 0#8
      dsimp only at bytes
      rw [low, low'] at bytes
      rw [encode, writePass_alphabet]
      dsimp only
      rw [if_neg (by decide), writePass_alphabet]
      dsimp only
      rw [if_neg (by decide), show padding = 0x3D from rfl, writePass_pad, if_neg (by decide), writePass_pad, if_pos rfl]
      refine congrArg (fun out => some (out ++ [])) (Eq.trans ?_ bytes)
      unfold collect
      rw [show (0 : BitVec 6).setWidth 32 = 0#32 from rfl, BitVec.or_zero, BitVec.or_zero]
      rfl
  | case4 => rfl

theorem toNat_encodedLength (n : Nat) (fits : 4 * ((n + 2) / 3) < 2 ^ 32) :
    ((BitVec.ofNat 32 n / 3 + (if BitVec.ofNat 32 n % 3 ≠ 0 then 1 else 0)) * 4).toNat = 4 * ((n + 2) / 3) := by
  have small : (BitVec.ofNat 32 n).toNat = n := by
    rw [BitVec.toNat_ofNat, Nat.mod_eq_of_lt (by omega)]
  have rest : BitVec.ofNat 32 n % 3 = 0 ↔ n % 3 = 0 := by
    rw [← BitVec.toNat_inj, BitVec.toNat_umod, small]
    rfl
  have third : (BitVec.ofNat 32 n / 3).toNat = n / 3 := by
    rw [BitVec.toNat_udiv, small]
    rfl
  rw [BitVec.toNat_mul, BitVec.toNat_add, third]
  by_cases whole : n % 3 = 0
  · rw [if_neg (fun no => no (rest.mpr whole))]
    show (n / 3 + 0) % 2 ^ 32 * 4 % 2 ^ 32 = _
    omega
  · rw [if_pos (fun zero => whole (rest.mp zero))]
    show (n / 3 + 1) % 2 ^ 32 * 4 % 2 ^ 32 = _
    omega

theorem base64_round_trip (asserts : Bool) (src : Buffer) (nonempty : src.val ≠ [])
    (fits : 4 * ((src.val.length + 2) / 3) < 2 ^ 32) :
    ∃ text : Buffer, text.val = encode src.val ∧ text.val.length = 4 * ((src.val.length + 2) / 3) ∧
      (∀ dlen : BitVec 32, text.val.length < dlen.toNat →
        espBase64Encode asserts src dlen = .returns (BitVec.ofNat 32 text.val.length) (text.val ++ [0])) ∧
      ∀ dlen : BitVec 32, src.val.length ≤ dlen.toNat →
        espBase64Decode asserts text dlen = .returns (BitVec.ofNat 32 src.val.length) src.val := by
  have size := length_encode src.val
  have some_ : 0 < src.val.length := List.length_pos_iff.mpr nonempty
  have notZero {n : Nat} (pos : 0 < n) (small : n < 2 ^ 32) : BitVec.ofNat 32 n ≠ 0 := by
    intro zero
    have value := congrArg BitVec.toNat zero
    rw [BitVec.toNat_ofNat, Nat.mod_eq_of_lt small] at value
    exact absurd value (Nat.pos_iff_ne_zero.mp pos)
  have room {dlen : BitVec 32} {n : Nat} (large : n < dlen.toNat) : dlen ≠ 0 := by
    rintro rfl
    exact absurd large (Nat.not_lt_zero n)
  refine ⟨⟨encode src.val, by omega⟩, rfl, size, fun dlen large => ?_, fun dlen large => ?_⟩
  · have enough : ¬ dlen < (BitVec.ofNat 32 src.val.length / 3 +
        (if BitVec.ofNat 32 src.val.length % 3 ≠ 0 then 1 else 0)) * 4 + 1 := by
      have bound := dlen.isLt
      have longer : (encode src.val).length < dlen.toNat := large
      rw [BitVec.lt_def, BitVec.toNat_add, toNat_encodedLength _ fits]
      show ¬ dlen.toNat < (_ + 1) % 2 ^ 32
      rw [Nat.mod_eq_of_lt (by omega)]
      omega
    unfold espBase64Encode
    dsimp only
    rw [if_neg (fun refused => refused.2.elim (room large) (notZero some_ src.property)), if_neg enough, encodeGroups_eq]
  · have shown := checkPass_encode src.val 0
    have zero (x : BitVec 32) : 0 + x = x := BitVec.zero_add x
    have few : pads src.val ≤ 2 := by
      unfold pads
      omega
    have length : (outputLength (BitVec.ofNat 32 (encode src.val).length) - BitVec.ofNat 32 (pads src.val)).toNat =
        src.val.length := by
      have count : (outputLength (BitVec.ofNat 32 (encode src.val).length)).toNat = (6 * (encode src.val).length + 7) / 8 := by
        rw [toNat_outputLength, BitVec.toNat_ofNat, Nat.mod_eq_of_lt (by omega)]
      have padding : (BitVec.ofNat 32 (pads src.val)).toNat = pads src.val := by
        rw [BitVec.toNat_ofNat, Nat.mod_eq_of_lt (by omega)]
      have exact_ : (6 * (encode src.val).length + 7) / 8 = src.val.length + pads src.val := by
        rw [size]
        unfold pads
        omega
      rw [BitVec.toNat_sub_of_le (by rw [BitVec.le_def, count, padding]; omega), count, padding, exact_]
      omega
    have enough : ¬ dlen < outputLength (BitVec.ofNat 32 (encode src.val).length) - BitVec.ofNat 32 (pads src.val) := by
      rw [BitVec.lt_def, length]
      omega
    rw [zero] at shown
    unfold espBase64Decode
    dsimp only
    rw [if_neg (fun refused => refused.2.elim (room (Nat.lt_of_lt_of_le some_ large)) (notZero (by omega) (by omega))),
      shown]
    dsimp only
    rw [if_neg (notZero (by omega) (by omega)), if_neg enough, writePass_encode]

theorem base64_round_trip_two_bytes :
    ∃ text : Buffer, text.val = [0x54, 0x57, 0x45, 0x3D] ∧
      espBase64Encode true ⟨[0x4D, 0x61], by decide⟩ 5 = .returns 4 [0x54, 0x57, 0x45, 0x3D, 0] ∧
      espBase64Decode true text 2 = .returns 2 [0x4D, 0x61] := by
  obtain ⟨text, is, -, encodes, decodes⟩ := base64_round_trip true ⟨[0x4D, 0x61], by decide⟩ (by decide) (by decide)
  have chars : text.val = [0x54, 0x57, 0x45, 0x3D] := is.trans (by decide)
  rw [chars] at encodes
  exact ⟨text, chars, encodes 5 (by decide), decodes 2 (by decide)⟩

end EspFirmware.Proof.Util
