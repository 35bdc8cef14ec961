import EspFirmware.Lib.Base64
import EspFirmware.Util.Base64

namespace EspFirmware.Proof.Util
open EspFirmware.Lib.Base64 EspFirmware.Util

theorem mapBase64EncData_sextet (s : BitVec 6) : mapBase64EncData (s.setWidth 8) = some (alphabet s) := by
  revert s
  decide

theorem mapBase64DecData_alphabet (s : BitVec 6) : mapBase64DecData (alphabet s) = some (s.setWidth 8) := by
  revert s
  decide

theorem mapBase64DecData_eq_none (c : BitVec 8) : mapBase64DecData c = none ↔ 128 ≤ c.toNat := by
  unfold mapBase64DecData
  rw [Option.map_eq_none_iff, Vector.getElem?_eq_none_iff]
  omega

section
variable (a b c : BitVec 8)

theorem firstIndex_eq : firstIndex a = (sextet (a ++ b ++ c) 0).setWidth 8 := by
  rw [sextet_first]
  unfold firstIndex encIndex
  apply BitVec.eq_of_getLsbD_eq
  intro i inside
  simp only [BitVec.getLsbD_setWidth, BitVec.getLsbD_and, BitVec.getLsbD_ushiftRight]
  interval_cases i <;> simp

theorem secondIndex_eq : secondIndex a b = (sextet (a ++ b ++ c) 1).setWidth 8 := by
  have parts : ((a.setWidth 32 &&& 3) <<< 4) + (b.setWidth 32 >>> 4) =
      ((a.setWidth 32 &&& 3) <<< 4) ||| (b.setWidth 32 >>> 4) := by
    apply BitVec.add_eq_or_of_and_eq_zero
    apply BitVec.eq_of_getLsbD_eq
    intro i inside
    simp only [BitVec.getLsbD_and, BitVec.getLsbD_shiftLeft, BitVec.getLsbD_ushiftRight, BitVec.getLsbD_setWidth]
    interval_cases i <;> simp
  rw [sextet_second]
  unfold secondIndex encIndex
  rw [parts]
  apply BitVec.eq_of_getLsbD_eq
  intro i inside
  simp only [BitVec.getLsbD_append, BitVec.getLsbD_setWidth, BitVec.getLsbD_and, BitVec.getLsbD_or,
    BitVec.getLsbD_shiftLeft, BitVec.getLsbD_ushiftRight]
  interval_cases i <;> simp

theorem thirdIndex_eq : thirdIndex b c = (sextet (a ++ b ++ c) 2).setWidth 8 := by
  have parts : ((b.setWidth 32 &&& 15) <<< 2) + (c.setWidth 32 >>> 6) =
      ((b.setWidth 32 &&& 15) <<< 2) ||| (c.setWidth 32 >>> 6) := by
    apply BitVec.add_eq_or_of_and_eq_zero
    apply BitVec.eq_of_getLsbD_eq
    intro i inside
    simp only [BitVec.getLsbD_and, BitVec.getLsbD_shiftLeft, BitVec.getLsbD_ushiftRight, BitVec.getLsbD_setWidth]
    interval_cases i <;> simp
  rw [sextet_third]
  unfold thirdIndex encIndex
  rw [parts]
  apply BitVec.eq_of_getLsbD_eq
  intro i inside
  simp only [BitVec.getLsbD_append, BitVec.getLsbD_setWidth, BitVec.getLsbD_and, BitVec.getLsbD_or,
    BitVec.getLsbD_shiftLeft, BitVec.getLsbD_ushiftRight]
  interval_cases i <;> simp

theorem fourthIndex_eq : fourthIndex c = (sextet (a ++ b ++ c) 3).setWidth 8 := by
  rw [sextet_fourth]
  unfold fourthIndex encIndex
  apply BitVec.eq_of_getLsbD_eq
  intro i inside
  simp only [BitVec.getLsbD_setWidth, BitVec.getLsbD_and]
  interval_cases i <;> simp

end

theorem lastIndex_eq (a b : BitVec 8) :
    encIndex ((b.setWidth 32 &&& 15) <<< 2) = (sextet (a ++ b ++ 0#8) 2).setWidth 8 := by
  rw [← thirdIndex_eq]
  unfold thirdIndex
  congr 1
  exact (BitVec.add_zero _).symm

theorem encodeGroups_eq (bytes : List (BitVec 8)) : encodeGroups bytes = some (encode bytes) := by
  induction bytes using encode.induct with
  | case1 a b c rest ih =>
      unfold encodeGroups
      rw [firstIndex_eq a b c, secondIndex_eq a b c, thirdIndex_eq a b c, fourthIndex_eq a b c, ih, encode]
      simp [mapBase64EncData_sextet]
  | case2 a b =>
      unfold encodeGroups
      rw [firstIndex_eq a b 0, secondIndex_eq a b 0, lastIndex_eq a b, encode]
      simp [mapBase64EncData_sextet]
      rfl
  | case3 a =>
      unfold encodeGroups
      rw [firstIndex_eq a 0 0, secondIndex_eq a 0 0, encode]
      simp [mapBase64EncData_sextet]
      rfl
  | case4 => rfl

theorem encode_not_outside (asserts : Bool) (src : Buffer) (dlen : BitVec 32) :
    espBase64Encode asserts src dlen ≠ .outside := by
  unfold espBase64Encode
  rw [encodeGroups_eq]
  dsimp only
  by_cases refused : asserts = true ∧ (dlen = 0 ∨ BitVec.ofNat 32 src.val.length = 0)
  · rw [if_pos refused]
    simp
  rw [if_neg refused]
  generalize (BitVec.ofNat 32 src.val.length / 3 + _) * 4 + 1 = n
  by_cases small : dlen < n
  · rw [if_pos small]
    simp
  · rw [if_neg small]
    simp

end EspFirmware.Proof.Util

namespace EspFirmware.Proof.Util
open EspFirmware.Lib.Base64 EspFirmware.Util

def IsDatum (c : BitVec 8) : Prop := ∃ d, mapBase64DecData c = some d ∧ d < 64

def isBlank (c : BitVec 8) : Bool := c = 0x0D ∨ c = 0x0A ∨ c = 0x20

theorem mapBase64DecData_padding : mapBase64DecData 0x3D = some 64 := by decide

theorem mapBase64DecData_cases (c : BitVec 8) (ascii : ¬ 127 < c) :
    ∃ d, mapBase64DecData c = some d ∧
      (d = 127 ∨ (d = 64 ∧ c = 0x3D) ∨ (d < 64 ∧ c ≠ 0x3D ∧ isBlank c = false)) := by
  have all : ∀ c : BitVec 8, 127 < c ∨ (mapBase64DecData c).any (fun d =>
      d = 127 ∨ (d = 64 ∧ c = 0x3D) ∨ (d < 64 ∧ c ≠ 0x3D ∧ isBlank c = false)) = true := by
    decide
  rcases all c with beyond | some_
  · exact absurd beyond ascii
  · obtain ⟨d, value, kind⟩ := (Option.any_eq_true _ _).mp some_
    exact ⟨d, value, of_decide_eq_true kind⟩

theorem checkPass_cons (c : BitVec 8) (src : List (BitVec 8)) (x j n : BitVec 32) :
    checkPass (c :: src) x j n = some (.error .EINVAL) ∨
      (isBlank c = true ∧ ∃ x', checkPass (c :: src) x j n = checkPass src x' j n) ∨
      (c = 0x3D ∧ ¬ 2 < j + 1 ∧ checkPass (c :: src) x j n = checkPass src 0 (j + 1) (n + 1)) ∨
      (IsDatum c ∧ isBlank c = false ∧ j = 0 ∧ checkPass (c :: src) x j n = checkPass src 0 0 (n + 1)) := by
  rw [checkPass]
  dsimp only
  by_cases space : c = 0x20
  · exact .inr (.inl ⟨by rw [space]; rfl, x + 1, if_pos space⟩)
  rw [if_neg space]
  by_cases crlf : c = 0x0D ∧ src.head? = some 0x0A
  · exact .inr (.inl ⟨by rw [crlf.1]; rfl, 0, if_pos crlf⟩)
  rw [if_neg crlf]
  by_cases lf : c = 0x0A
  · exact .inr (.inl ⟨by rw [lf]; rfl, 0, if_pos lf⟩)
  rw [if_neg lf]
  by_cases skipped : x ≠ 0
  · exact .inl (if_pos skipped)
  rw [if_neg skipped]
  by_cases isPad : c = 0x3D
  · subst isPad
    rw [if_pos rfl]
    by_cases many : 2 < j + 1
    · exact .inl (if_pos ⟨rfl, many⟩)
    · rw [if_neg (fun both => many both.2), if_neg (by decide), mapBase64DecData_padding, Option.bind_some,
        if_neg (by decide), if_neg (fun both => absurd both.1 (by decide))]
      exact .inr (.inr (.inl ⟨rfl, many, rfl⟩))
  · rw [if_neg isPad, if_neg (fun both => isPad both.1)]
    by_cases beyond : 127 < c
    · exact .inl (if_pos beyond)
    obtain ⟨d, value, kind⟩ := mapBase64DecData_cases c beyond
    rw [if_neg beyond, value, Option.bind_some]
    rcases kind with invalid | ⟨-, pad⟩ | ⟨datum, -, visible⟩
    · exact .inl (if_pos invalid)
    · exact absurd pad isPad
    · have valid : d ≠ 127 := by
        rintro rfl
        exact absurd datum (by decide)
      rw [if_neg valid]
      by_cases padded : j ≠ 0
      · exact .inl (if_pos ⟨datum, padded⟩)
      · have none_ : j = 0 := not_not.mp padded
        rw [if_neg (fun both => padded both.2), none_]
        exact .inr (.inr (.inr ⟨⟨d, value, datum⟩, visible, rfl, rfl⟩))

theorem checkPass_cases (src : List (BitVec 8)) (x j n : BitVec 32) (few : j.toNat ≤ 2) :
    checkPass src x j n = some (.error .EINVAL) ∨
      ∃ data p, src.filter (! isBlank ·) = data ++ List.replicate p 0x3D ∧ (∀ c ∈ data, IsDatum c) ∧
        (j ≠ 0 → data = []) ∧ j.toNat + p ≤ 2 ∧
        checkPass src x j n = some (.ok (j + BitVec.ofNat 32 p, n + BitVec.ofNat 32 (data.length + p))) := by
  induction src generalizing x j n with
  | nil => exact .inr ⟨[], 0, rfl, by simp, fun _ => rfl, few, by simp [checkPass]⟩
  | cons c src ih =>
      rcases checkPass_cons c src x j n with fails | ⟨blank, x', skips⟩ | ⟨pad, ends, steps⟩ | ⟨datum, visible, none_, steps⟩
      · exact .inl fails
      · rw [skips, List.filter_cons_of_neg (by simp [blank])]
        exact ih x' j n few
      · subst pad
        have up : (j + 1).toNat = j.toNat + 1 := by
          rw [BitVec.toNat_add]
          show (j.toNat + 1) % 2 ^ 32 = _
          omega
        have more : (j + 1).toNat ≤ 2 := by
          rw [BitVec.lt_def, Nat.not_lt] at ends
          exact ends
        rw [steps]
        rcases ih 0 (j + 1) (n + 1) more with fails | ⟨data, p, shape, -, noData, total, result⟩
        · exact .inl fails
        · have padded : j + 1 ≠ 0 := by
            intro zero
            rw [zero] at up
            exact absurd up (by simp)
          have empty := noData padded
          subst empty
          refine .inr ⟨[], p + 1, ?_, by simp, fun _ => rfl, by omega, ?_⟩
          · rw [List.filter_cons_of_pos (by decide), shape]
            rfl
          · rw [result]
            simp only [List.length_nil, Nat.zero_add, BitVec.ofNat_add, BitVec.add_assoc,
              BitVec.add_comm (BitVec.ofNat 32 p)]
            rfl
      · subst none_
        rw [steps]
        rcases ih 0 0 (n + 1) few with fails | ⟨data, p, shape, isData, -, total, result⟩
        · exact .inl fails
        · refine .inr ⟨c :: data, p, ?_, ?_, fun padded => absurd rfl padded, total, ?_⟩
          · rw [List.filter_cons_of_pos (by simp [visible]), shape]
            rfl
          · intro c' member
            rcases List.mem_cons.mp member with rfl | later
            · exact datum
            · exact isData c' later
          · rw [result, List.length_cons, Nat.add_right_comm, Nat.add_comm _ 1, BitVec.ofNat_add 1, BitVec.add_assoc]
            rfl

theorem toNat_outputLength (n : BitVec 32) : (outputLength n).toNat = (6 * n.toNat + 7) / 8 := by
  have bound := n.isLt
  have eighths : (n >>> 3).toNat = n.toNat / 8 := by
    rw [BitVec.toNat_ushiftRight, Nat.shiftRight_eq_div_pow]
  have rest : (n &&& 0x7).toNat = n.toNat % 8 := by
    rw [BitVec.toNat_and]
    exact Nat.and_two_pow_sub_one_eq_mod n.toNat 3
  unfold outputLength
  rw [BitVec.toNat_add, BitVec.toNat_mul, eighths, BitVec.toNat_ushiftRight, Nat.shiftRight_eq_div_pow,
    BitVec.toNat_add, BitVec.toNat_mul, rest]
  show ((6 * (n.toNat / 8)) % 2 ^ 32 + ((6 * (n.toNat % 8)) % 2 ^ 32 + 7) % 2 ^ 32 / 2 ^ 3) % 2 ^ 32 = _
  have small : n.toNat % 8 < 8 := Nat.mod_lt _ (by decide)
  rw [Nat.mod_eq_of_lt (a := 6 * (n.toNat / 8)) (by omega), Nat.mod_eq_of_lt (a := 6 * (n.toNat % 8)) (by omega),
    Nat.mod_eq_of_lt (a := 6 * (n.toNat % 8) + 7) (by omega), Nat.mod_eq_of_lt (by omega)]
  omega

theorem IsDatum.visible {c : BitVec 8} (datum : IsDatum c) : isBlank c = false := by
  obtain ⟨d, value, small⟩ := datum
  have blanks : ∀ c : BitVec 8, isBlank c = true → mapBase64DecData c = some 127 := by decide
  cases blank : isBlank c with
  | false => rfl
  | true =>
      rw [blanks c blank] at value
      cases value
      exact absurd small (by decide)

theorem writePass_blank {c : BitVec 8} (blank : isBlank c = true) (src : List (BitVec 8)) (j x : BitVec 32) (n : Nat) :
    writePass (c :: src) j n x = writePass src j n x := by
  rw [writePass, if_pos (of_decide_eq_true blank)]

theorem writePass_visible {c d : BitVec 8} (visible : isBlank c = false) (value : mapBase64DecData c = some d)
    (src : List (BitVec 8)) (j x : BitVec 32) (n : Nat) :
    writePass (c :: src) j n x =
      let j := j - (if d = 64 then 1 else 0)
      let x := x <<< 6 ||| (d &&& 0x3F).setWidth 32
      if n + 1 = 4 then (writePass src j 0 x).map (emit j x ++ ·) else writePass src j (n + 1) x := by
  rw [writePass, if_neg (of_decide_eq_false visible), value, Option.bind_some]

theorem writePass_datum {c d : BitVec 8} (value : mapBase64DecData c = some d) (small : d < 64)
    (src : List (BitVec 8)) (j x : BitVec 32) (n : Nat) :
    writePass (c :: src) j n x =
      let x := x <<< 6 ||| (d &&& 0x3F).setWidth 32
      if n + 1 = 4 then (writePass src j 0 x).map (emit j x ++ ·) else writePass src j (n + 1) x := by
  have notPad : d ≠ 64 := by
    rintro rfl
    exact absurd small (by decide)
  have kept : j - (if d = 64 then 1 else 0) = j := by
    rw [if_neg notPad]
    exact BitVec.sub_zero j
  rw [writePass_visible (IsDatum.visible ⟨d, value, small⟩) value, kept]

theorem writePass_filter (src : List (BitVec 8)) (j x : BitVec 32) (n : Nat) :
    writePass (src.filter (! isBlank ·)) j n x = writePass src j n x := by
  induction src generalizing j x n with
  | nil => rfl
  | cons c src ih =>
      cases blank : isBlank c with
      | true => rw [List.filter_cons_of_neg (by simp [blank]), writePass_blank blank, ih]
      | false =>
          rw [List.filter_cons_of_pos (by simp [blank]), writePass, writePass, if_neg (of_decide_eq_false blank),
            if_neg (of_decide_eq_false blank)]
          simp only [ih]

theorem length_emit_three (x : BitVec 32) : (emit 3 x).length = 3 := rfl

theorem writePass_data (data : List (BitVec 8)) (isData : ∀ c ∈ data, IsDatum c) (n : Nat) (x : BitVec 32)
    (inGroup : n < 4) :
    ∃ out x', out.length = 3 * ((n + data.length) / 4) ∧ ∀ rest,
      writePass (data ++ rest) 3 n x = (writePass rest 3 ((n + data.length) % 4) x').map (out ++ ·) := by
  induction data generalizing n x with
  | nil =>
      refine ⟨[], x, ?_, fun rest => ?_⟩
      · rw [List.length_nil, Nat.add_zero, Nat.div_eq_of_lt inGroup]
      · simp [Nat.mod_eq_of_lt inGroup]
  | cons c data ih =>
      obtain ⟨d, value, small⟩ := isData c List.mem_cons_self
      have later : ∀ c ∈ data, IsDatum c := fun c member => isData c (List.mem_cons_of_mem _ member)
      by_cases full : n + 1 = 4
      · obtain ⟨out, x', length, ends⟩ := ih later 0 (x <<< 6 ||| (d &&& 0x3F).setWidth 32) (by decide)
        refine ⟨emit 3 (x <<< 6 ||| (d &&& 0x3F).setWidth 32) ++ out, x', ?_, fun rest => ?_⟩
        · rw [List.length_append, length, length_emit_three, List.length_cons]
          omega
        · rw [List.cons_append, writePass_datum value small]
          dsimp only
          have same : (0 + data.length) % 4 = (n + (c :: data).length) % 4 := by
            rw [List.length_cons]
            omega
          rw [if_pos full, ends rest, Option.map_map, same]
          congr 1
      · obtain ⟨out, x', length, ends⟩ := ih later (n + 1) (x <<< 6 ||| (d &&& 0x3F).setWidth 32) (by omega)
        have same : n + 1 + data.length = n + (c :: data).length := by
          rw [List.length_cons]
          omega
        rw [same] at length ends
        refine ⟨out, x', length, fun rest => ?_⟩
        rw [List.cons_append, writePass_datum value small]
        dsimp only
        rw [if_neg full, ends rest]

theorem writePass_pad (src : List (BitVec 8)) (j x : BitVec 32) (n : Nat) :
    writePass (0x3D :: src) j n x =
      if n + 1 = 4 then (writePass src (j - 1) 0 (x <<< 6)).map (emit (j - 1) (x <<< 6) ++ ·)
      else writePass src (j - 1) (n + 1) (x <<< 6) := by
  have nothing : x <<< 6 ||| ((64 : BitVec 8) &&& 0x3F).setWidth 32 = x <<< 6 := BitVec.or_zero
  rw [writePass_visible rfl mapBase64DecData_padding, if_pos rfl, nothing]

theorem writePass_padding (p n : Nat) (x : BitVec 32) (few : p ≤ 2) (inGroup : n < 4) :
    ∃ out, writePass (List.replicate p 0x3D) 3 n x = some out ∧ out.length + p ≤ (6 * (n + p) + 7) / 8 := by
  have cases_ : p = 0 ∨ p = 1 ∨ p = 2 := by omega
  rcases cases_ with rfl | rfl | rfl
  · exact ⟨[], rfl, by simp⟩
  · rw [List.replicate_one, writePass_pad]
    interval_cases n
    · exact ⟨[], rfl, by decide⟩
    · exact ⟨[], rfl, by decide⟩
    · exact ⟨[], rfl, by decide⟩
    · exact ⟨emit 2 (x <<< 6) ++ [], rfl, Nat.le_refl 3⟩
  · rw [List.replicate_succ, List.replicate_one, writePass_pad, writePass_pad, writePass_pad]
    interval_cases n
    · exact ⟨[], rfl, by decide⟩
    · exact ⟨[], rfl, by decide⟩
    · exact ⟨emit 1 (x <<< 6 <<< 6) ++ [], rfl, Nat.le_refl 3⟩
    · exact ⟨emit 2 (x <<< 6) ++ [], rfl, Nat.le_refl 4⟩

theorem writePass_fits {src data : List (BitVec 8)} {p : Nat}
    (shape : src.filter (! isBlank ·) = data ++ List.replicate p 0x3D) (isData : ∀ c ∈ data, IsDatum c) (few : p ≤ 2) :
    ∃ written, writePass src 3 0 0 = some written ∧ written.length + p ≤ (6 * (data.length + p) + 7) / 8 := by
  obtain ⟨out, x, length, rest⟩ := writePass_data data isData 0 0 (by decide)
  obtain ⟨last, ends, fits⟩ := writePass_padding p ((0 + data.length) % 4) x few (Nat.mod_lt _ (by decide))
  refine ⟨out ++ last, ?_, ?_⟩
  · rw [← writePass_filter, shape, rest, ends, Option.map_some]
  · rw [List.length_append, length]
    omega

/-- The table is read below its end, and what is written is what is returned, at most `dlen` bytes. -/
theorem decode_stays_inside (asserts : Bool) (src : Buffer) (dlen : BitVec 32) :
    (∀ c, mapBase64DecData c = none ↔ 128 ≤ c.toNat) ∧ espBase64Encode asserts src dlen ≠ .outside ∧
      ((asserts = true ∧ (dlen = 0 ∨ src.val = []) ∧ espBase64Decode asserts src dlen = .assertFails) ∨
        espBase64Decode asserts src dlen = .returns (-Errno.EINVAL.value) [] ∨
        espBase64Decode asserts src dlen = .returns (-Errno.ENOBUFS.value) [] ∨
        ∃ value written, espBase64Decode asserts src dlen = .returns value written ∧
          value.toNat = written.length ∧ written.length ≤ dlen.toNat) := by
  refine ⟨mapBase64DecData_eq_none, encode_not_outside asserts src dlen, ?_⟩
  have length : BitVec.ofNat 32 src.val.length = 0 ↔ src.val = [] := by
    rw [← BitVec.toNat_inj, BitVec.toNat_ofNat, Nat.mod_eq_of_lt src.property, ← List.length_eq_zero_iff]
    rfl
  unfold espBase64Decode
  by_cases refused : asserts = true ∧ (dlen = 0 ∨ BitVec.ofNat 32 src.val.length = 0)
  · exact .inl ⟨refused.1, refused.2.imp_right length.mp, if_pos refused⟩
  rw [if_neg refused]
  right
  rcases checkPass_cases src.val 0 0 0 (by decide) with fails | ⟨data, p, shape, isData, -, few, result⟩
  · rw [fails]
    exact .inl rfl
  have zero (x : BitVec 32) : 0 + x = x := BitVec.zero_add x
  rw [zero, zero] at result
  rw [result]
  dsimp only
  by_cases none_ : BitVec.ofNat 32 (data.length + p) = 0
  · exact .inl (if_pos none_)
  rw [if_neg none_]
  by_cases small : dlen < outputLength (BitVec.ofNat 32 (data.length + p)) - BitVec.ofNat 32 p
  · exact .inr (.inl (if_pos small))
  rw [if_neg small]
  obtain ⟨written, writes, fits⟩ := writePass_fits shape isData (by simpa using few)
  rw [writes]
  refine .inr (.inr ⟨_, written, rfl, ?_⟩)
  have seen : data.length + p ≤ src.val.length := by
    have parts := congrArg List.length shape
    rw [List.length_append, List.length_replicate] at parts
    rw [← parts]
    exact List.length_filter_le ..
  have bound := src.property
  have pads : (BitVec.ofNat 32 p).toNat = p := by
    rw [BitVec.toNat_ofNat, Nat.mod_eq_of_lt (by omega)]
  have count : (outputLength (BitVec.ofNat 32 (data.length + p))).toNat = (6 * (data.length + p) + 7) / 8 := by
    rw [toNat_outputLength, BitVec.toNat_ofNat, Nat.mod_eq_of_lt (by omega)]
  have room : (outputLength (BitVec.ofNat 32 (data.length + p)) - BitVec.ofNat 32 p).toNat =
      (6 * (data.length + p) + 7) / 8 - p := by
    rw [BitVec.toNat_sub_of_le (by rw [BitVec.le_def, count, pads]; omega), count, pads]
  rw [BitVec.lt_def, room] at small
  exact ⟨by rw [BitVec.toNat_ofNat, Nat.mod_eq_of_lt (by omega)], by omega⟩

end EspFirmware.Proof.Util
