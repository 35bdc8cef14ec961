import EspFirmware.Tool.GenPart
import Mathlib.Tactic.IntervalCases

/-!
The texts the tool writes and reads: numbers come back from their digits, rows from their fields and
lines from the whole text.
-/

namespace EspFirmware.Proof.Tool
open EspFirmware.Tool

theorem isBlank_of_isLineBreak {c : Char} (line : isLineBreak c) : isBlank c := by
  simp only [isLineBreak, isBlank, decide_eq_true_eq] at line ⊢
  omega

theorem dropWhile_head {p : Char → Bool} {c : Char} (rest : Text) (keep : p c = false) :
    (c :: rest).dropWhile p = c :: rest := by
  rw [List.dropWhile_cons_of_neg]
  simp [keep]

def NoMargin (s : Text) : Prop :=
  (∀ c, s.head? = some c → isBlank c = false) ∧ ∀ c, s.getLast? = some c → isBlank c = false

theorem dropWhile_isBlank {s : Text} (first : ∀ c, s.head? = some c → isBlank c = false) :
    s.dropWhile isBlank = s := by
  cases s with
  | nil => rfl
  | cons c rest => exact dropWhile_head rest (first c rfl)

theorem strip_eq_self {s : Text} (margin : NoMargin s) : strip s = s := by
  rw [strip, dropWhile_isBlank margin.1, dropWhile_isBlank, List.reverse_reverse]
  intro c last
  rw [List.head?_reverse] at last
  exact margin.2 c last

def Plain (s : Text) : Prop := ∀ c ∈ s, isBlank c = false ∧ c ≠ ',' ∧ c ≠ '#' ∧ c ≠ '$'

instance (s : Text) : Decidable (Plain s) := List.decidableBAll _ s

theorem Plain.noMargin {s : Text} (plain : Plain s) : NoMargin s :=
  ⟨fun c first => (plain c (List.mem_of_mem_head? first)).1, fun c last => (plain c (List.mem_of_getLast? last)).1⟩

theorem Plain.append {s t : Text} (left : Plain s) (right : Plain t) : Plain (s ++ t) := by
  intro c member
  rcases List.mem_append.mp member with member | member
  · exact left c member
  · exact right c member

theorem digitChar_plain {d : Nat} (small : d < 16) : Plain [Nat.digitChar d] := by
  interval_cases d <;> decide

theorem digitChar_letter {d : Nat} (small : d < 16) :
    (Nat.digitChar d).toLower ≠ 'k' ∧ (Nat.digitChar d).toLower ≠ 'm' ∧ Nat.digitChar d ≠ '_' ∧
      Nat.digitChar d ≠ '-' ∧ Nat.digitChar d ≠ '+' := by
  interval_cases d <;> decide

theorem digitValue_digitChar {base d : Nat} (digit : d < base) (small : d < 16) :
    digitValue base (Nat.digitChar d) = some d := by
  have value : ∀ d < 16, (if '0' ≤ Nat.digitChar d ∧ Nat.digitChar d ≤ '9' then (Nat.digitChar d).toNat - '0'.toNat
      else if 'a' ≤ Nat.digitChar d ∧ Nat.digitChar d ≤ 'f' then (Nat.digitChar d).toNat - 'a'.toNat + 10
      else if 'A' ≤ Nat.digitChar d ∧ Nat.digitChar d ≤ 'F' then (Nat.digitChar d).toNat - 'A'.toNat + 10
      else base) = d := by
    intro d small
    interval_cases d <;> rfl
  simp only [digitValue, value d small, if_pos digit]

theorem digitsFrom_digitChars {base : Nat} (sixteen : base ≤ 16) {ds : List Nat} (small : ∀ d ∈ ds, d < base)
    (value : Nat) :
    digitsFrom base value (ds.map Nat.digitChar) = some (ds.foldl (fun v d => v * base + d) value) := by
  induction ds generalizing value with
  | nil => rfl
  | cons d ds ih =>
      have digit := small d List.mem_cons_self
      have below : d < 16 := by omega
      rw [List.map_cons, digitsFrom.eq_def]
      simp only
      rw [if_neg (digitChar_letter below).2.2.1, digitValue_digitChar digit below, Option.bind_some,
        ih fun d member => small d (List.mem_cons_of_mem _ member)]
      rfl

theorem foldl_reverse_digits {base : Nat} (ds : List Nat) :
    ds.reverse.foldl (fun v d => v * base + d) 0 = Nat.ofDigits base ds := by
  rw [List.foldl_reverse, Nat.ofDigits_eq_foldr]
  congr 1
  funext d v
  simp [Nat.mul_comm, Nat.add_comm]

def digitList (base n : Nat) : List Nat := if n = 0 then [0] else (Nat.digits base n).reverse

theorem showNat_eq (base n : Nat) : showNat base n = (digitList base n).map Nat.digitChar := by
  rw [showNat, digitList]
  split
  · rfl
  · rw [List.map_reverse]

theorem digitList_cons (base n : Nat) : ∃ d ds, digitList base n = d :: ds ∧ (n ≠ 0 → d ≠ 0) := by
  rw [digitList]
  split
  · exact ⟨0, [], rfl, by omega⟩
  · rename_i positive
    have some_ : Nat.digits base n ≠ [] := Nat.digits_ne_nil_iff_ne_zero.mpr positive
    have top := Nat.getLast_digit_ne_zero base positive
    cases digits : (Nat.digits base n).reverse with
    | nil => exact absurd (List.reverse_eq_nil_iff.mp digits) some_
    | cons d ds =>
        have last := List.reverse_eq_cons_iff.mp digits
        simp only [last, List.getLast_append_singleton] at top
        exact ⟨d, ds, rfl, fun _ => top⟩

theorem digitList_value (base n : Nat) : (digitList base n).foldl (fun v d => v * base + d) 0 = n := by
  rw [digitList]
  split
  · rename_i zero
    simp [zero]
  · rw [foldl_reverse_digits, Nat.ofDigits_digits]

section
variable {base : Nat} (two : 2 ≤ base) (sixteen : base ≤ 16) (n : Nat)
include two sixteen

theorem digitList_lt : ∀ d ∈ digitList base n, d < base := by
  intro d member
  rw [digitList] at member
  split at member
  · rw [List.mem_singleton.mp member]
    omega
  · exact Nat.digits_lt_base (by omega) (List.mem_reverse.mp member)

theorem showNat_plain : Plain (showNat base n) := by
  intro c member
  rw [showNat_eq] at member
  obtain ⟨d, inside, rfl⟩ := List.mem_map.mp member
  have digit := digitList_lt two sixteen n d inside
  exact digitChar_plain (show d < 16 by omega) _ List.mem_cons_self

theorem digits_showNat : digits base (showNat base n) = some n := by
  obtain ⟨d, ds, list, -⟩ := digitList_cons base n
  have small := digitList_lt two sixteen n
  have value := digitList_value base n
  rw [list] at small value
  have digit := small d List.mem_cons_self
  have below : d < 16 := by omega
  rw [showNat_eq, list, List.map_cons, digits, digitValue_digitChar digit below, Option.bind_some,
    digitsFrom_digitChars sixteen fun d member => small d (List.mem_cons_of_mem _ member)]
  simpa using value

theorem showNat_concat : ∃ s d, d < 16 ∧ showNat base n = s ++ [Nat.digitChar d] := by
  obtain ⟨d, ds, list, -⟩ := digitList_cons base n
  have small := digitList_lt two sixteen n
  have some_ : d :: ds ≠ [] := by simp
  rw [showNat_eq, list]
  rw [list] at small
  have digit := small _ (List.getLast_mem some_)
  refine ⟨(d :: ds).dropLast.map Nat.digitChar, (d :: ds).getLast some_, by omega, ?_⟩
  conv_lhs => rw [← List.dropLast_append_getLast some_, List.map_append]
  rfl

end

theorem unsigned_cons {c : Char} (nonzero : c ≠ '0') (rest : Text) : unsigned (c :: rest) = digits 10 (c :: rest) := by
  unfold unsigned
  split <;> simp_all

theorem unsigned_showNat (n : Nat) : unsigned (showNat 10 n) = some n := by
  obtain ⟨d, ds, list, leading⟩ := digitList_cons 10 n
  have small := digitList_lt (show 2 ≤ 10 by omega) (by omega) n
  rcases Nat.eq_zero_or_pos n with rfl | positive
  · rfl
  · have digit : d < 10 := small d (by rw [list]; exact List.mem_cons_self)
    have nonzero : Nat.digitChar d ≠ '0' := by
      have := leading (by omega)
      interval_cases d <;> first | omega | decide
    have value := digits_showNat (show 2 ≤ 10 by omega) (by omega) n
    rw [showNat_eq, list, List.map_cons] at value ⊢
    rw [unsigned_cons nonzero, value]

theorem unsigned_showHex (n : Nat) : unsigned ('0' :: 'x' :: showNat 16 n) = some n := by
  obtain ⟨d, ds, list, -⟩ := digitList_cons 16 n
  have digit : d < 16 := digitList_lt (show 2 ≤ 16 by omega) (by omega) n d (by rw [list]; exact List.mem_cons_self)
  have value := digits_showNat (show 2 ≤ 16 by omega) (by omega) n
  change prefixed 16 (showNat 16 n) = some n
  rw [showNat_eq, list, List.map_cons] at value ⊢
  unfold prefixed
  split
  · rename_i same
    exact absurd (List.cons.inj same).1 (digitChar_letter digit).2.2.1
  · exact value

theorem showNat_head (n : Nat) : ∃ d rest, d < 16 ∧ showNat 10 n = Nat.digitChar d :: rest := by
  obtain ⟨d, ds, list, -⟩ := digitList_cons 10 n
  have digit := digitList_lt (show 2 ≤ 10 by omega) (by omega) n d (by rw [list]; exact List.mem_cons_self)
  exact ⟨d, ds.map Nat.digitChar, by omega, by rw [showNat_eq, list, List.map_cons]⟩

theorem showDec_plain (n : Int) : Plain (showDec n) := by
  have digits := showNat_plain (show 2 ≤ 10 by omega) (by omega) n.natAbs
  rw [showDec]
  split
  · exact Plain.append (s := ['-']) (by decide) digits
  · exact digits

theorem showHex_plain {n : Int} (natural : 0 ≤ n) : Plain (showHex n) := by
  rw [showHex, if_neg (by omega)]
  exact Plain.append (s := ['0', 'x']) (by decide) (showNat_plain (by omega) (by omega) _)

theorem parseInt0_showDec (n : Int) : parseInt0 (showDec n) = some n := by
  have same := strip_eq_self (showDec_plain n).noMargin
  have value := unsigned_showNat n.natAbs
  rw [parseInt0, same, showDec]
  split
  · rename_i rest negative
    split at negative
    · cases negative
      rw [value, Option.map_some]
      congr 1
      omega
    · obtain ⟨d, more, small, list⟩ := showNat_head n.natAbs
      rw [list] at negative
      exact absurd (List.cons.inj negative).1 (digitChar_letter small).2.2.2.1
  · rename_i rest positive
    split at positive
    · cases positive
    · obtain ⟨d, more, small, list⟩ := showNat_head n.natAbs
      rw [list] at positive
      exact absurd (List.cons.inj positive).1 (digitChar_letter small).2.2.2.2
  · rename_i noMinus noPlus
    split
    · rename_i negative
      rw [if_pos negative] at noMinus
      exact absurd rfl (noMinus _)
    · rw [value, Option.map_some]
      congr 1
      omega

theorem parseInt0_showHex {n : Int} (natural : 0 ≤ n) : parseInt0 (showHex n) = some n := by
  have same := strip_eq_self (showHex_plain natural).noMargin
  rw [parseInt0, same, showHex, if_neg (by omega)]
  change (unsigned ('0' :: 'x' :: showNat 16 n.natAbs)).map (fun n : Nat => (n : Int)) = some n
  rw [unsigned_showHex, Option.map_some]
  congr 1
  omega

theorem parseInt_number {s : Text} {d : Nat} (small : d < 16) {n : Int}
    (number : parseInt0 (s ++ [Nat.digitChar d]) = some n) (keywords : Keywords) :
    parseInt (s ++ [Nat.digitChar d]) keywords = .ok n := by
  obtain ⟨noK, noM, -⟩ := digitChar_letter small
  rw [parseInt, List.reverse_append]
  simp only [List.reverse_cons, List.reverse_nil, List.nil_append, List.cons_append, parseIntRev, List.reverse_reverse]
  rw [if_neg noK, if_neg noM, number]

theorem parseInt_showDec (n : Int) (keywords : Keywords) : parseInt (showDec n) keywords = .ok n := by
  obtain ⟨s, d, small, list⟩ := showNat_concat (show 2 ≤ 10 by omega) (by omega) n.natAbs
  have number := parseInt0_showDec n
  have shape : ∃ s, showDec n = s ++ [Nat.digitChar d] := by
    rw [showDec, list]
    split
    · exact ⟨'-' :: s, rfl⟩
    · exact ⟨s, rfl⟩
  obtain ⟨s, shape⟩ := shape
  rw [shape] at number ⊢
  exact parseInt_number small number keywords

theorem parseInt_showHex {n : Int} (natural : 0 ≤ n) (keywords : Keywords) : parseInt (showHex n) keywords = .ok n := by
  obtain ⟨s, d, small, list⟩ := showNat_concat (show 2 ≤ 16 by omega) (by omega) n.natAbs
  have number := parseInt0_showHex natural
  have shape : showHex n = ('0' :: 'x' :: s) ++ [Nat.digitChar d] := by
    rw [showHex, if_neg (by omega), list]
    rfl
  rw [shape] at number ⊢
  exact parseInt_number small number keywords

theorem parseInt_kilo (v : Text) (keywords : Keywords) :
    parseInt (v ++ ['K']) keywords = (parseInt v keywords).map (· * 1024) := by
  rw [parseInt, List.reverse_append]
  rfl

theorem parseInt_mega (v : Text) (keywords : Keywords) :
    parseInt (v ++ ['M']) keywords = (parseInt v keywords).map (· * (1024 * 1024)) := by
  rw [parseInt, List.reverse_append]
  rfl

theorem oneLine_of_all {s : Text} (none_ : (s.all fun c => !isLineBreak c) = true) : ∀ c ∈ s, isLineBreak c = false :=
  fun c member => Bool.not_eq_true' _ ▸ List.all_eq_true.mp none_ c member

theorem splitLinesFrom_row {row : Text} (one : ∀ c ∈ row, isLineBreak c = false) (line rest : Text) :
    splitLinesFrom line (row ++ '\n' :: rest) = (line.reverse ++ row) :: splitLinesFrom [] rest := by
  induction row generalizing line with
  | nil =>
      rw [List.nil_append, List.append_nil, splitLinesFrom.eq_def]
      simp only
      rw [if_neg fun both => absurd both.1 (by decide), if_pos (by decide)]
  | cons c row ih =>
      have inside := one c List.mem_cons_self
      have noReturn : c ≠ '\r' := by
        rintro rfl
        revert inside
        decide
      rw [List.cons_append, splitLinesFrom.eq_def]
      simp only
      rw [if_neg fun both => noReturn both.1, if_neg (by simp [inside]),
        ih fun c member => one c (List.mem_cons_of_mem _ member)]
      simp

theorem splitLines_rows {rows : List Text} (one : ∀ row ∈ rows, ∀ c ∈ row, isLineBreak c = false) :
    splitLines (rows.flatMap fun row => row ++ ['\n']) = rows := by
  induction rows with
  | nil => rfl
  | cons row rows ih =>
      have later := ih fun row member => one row (List.mem_cons_of_mem _ member)
      rw [List.flatMap_cons, List.append_assoc, splitLines, List.singleton_append,
        splitLinesFrom_row (one row List.mem_cons_self)]
      congr 1

end EspFirmware.Proof.Tool
