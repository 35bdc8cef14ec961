import Mathlib.Data.List.Nodup
import Mathlib.Data.List.TakeWhile
import EspFirmware.Spec.MdnsRecords

/-!
A name that loses gets the next number behind its base. The numbers go on, and so do the names, up to the largest `int`;
but nothing keeps a name from becoming longer than a label can be.
-/

namespace EspFirmware.Proof.Mdns
open EspFirmware.Lib EspFirmware.Mdns EspFirmware.Spec

theorem strrchr_cons (c x : BitVec 8) (rest : CString) :
    strrchr c (x :: rest) =
      match strrchr c rest with
      | some i => some (i + 1)
      | none => if x = c then some 0 else none := rfl

theorem strrchr_none {c : BitVec 8} {s : CString} (absent : c ∉ s) : strrchr c s = none := by
  induction s with
  | nil => rfl
  | cons x rest ih =>
      rw [strrchr_cons, ih fun inside => absent (List.mem_cons_of_mem _ inside)]
      refine if_neg ?_
      rintro rfl
      exact absent List.mem_cons_self

theorem strrchr_append {c : BitVec 8} {s rest : CString} (absent : c ∉ rest) :
    strrchr c (s ++ c :: rest) = some s.length := by
  induction s with
  | nil =>
      rw [List.nil_append, strrchr_cons, strrchr_none absent]
      exact if_pos rfl
  | cons x s ih =>
      rw [List.cons_append, strrchr_cons, ih]
      rfl

theorem strrchr_some {c : BitVec 8} {s : CString} {p : Nat} (found : strrchr c s = some p) :
    p < s.length ∧ c ∉ s.drop (p + 1) := by
  induction s generalizing p with
  | nil => cases found
  | cons x rest ih =>
      rw [strrchr_cons] at found
      cases later : strrchr c rest with
      | some i =>
          rw [later] at found
          cases found
          obtain ⟨inside, absent⟩ := ih later
          exact ⟨Nat.succ_lt_succ inside, absent⟩
      | none =>
          rw [later] at found
          dsimp only at found
          split at found
          · cases found
            refine ⟨Nat.succ_pos _, ?_⟩
            intro inside
            obtain ⟨front, behind, parts, other⟩ := List.eq_append_cons_of_mem (show c ∈ rest.reverse from
              List.mem_reverse.mpr inside)
            have rest_ : rest = behind.reverse ++ c :: front.reverse := by
              rw [← List.reverse_reverse rest, parts]
              simp only [List.reverse_append, List.reverse_cons, List.append_assoc, List.singleton_append]
            rw [rest_, strrchr_append fun inside => other (List.mem_reverse.mp inside)] at later
            cases later
          · cases found

theorem decimalDigits_digit {n : Nat} : ∀ c ∈ decimalDigits n, isdigit c = true := by
  intro c inside
  obtain ⟨digit, isDigit, rfl⟩ := List.mem_map.mp inside
  have range := Nat.isDigit_of_mem_toDigits (by decide) (by decide) isDigit
  rw [Char.isDigit_iff_toNat, show '0'.toNat = 48 from rfl, show '9'.toNat = 57 from rfl] at range
  have value : (BitVec.ofNat 8 digit.toNat).toNat = digit.toNat := by
    rw [BitVec.toNat_ofNat]
    omega
  unfold isdigit
  rw [value]
  exact Bool.and_eq_true_iff.mpr ⟨decide_eq_true range.1, decide_eq_true range.2⟩

theorem isdigit_range {c : BitVec 8} (digit : isdigit c = true) : 48 ≤ c.toNat ∧ c.toNat ≤ 57 := by
  obtain ⟨low, high⟩ := Bool.and_eq_true_iff.mp digit
  exact ⟨of_decide_eq_true low, of_decide_eq_true high⟩

theorem digitsValue_decimal (n : Nat) : digitsValue (decimalDigits n) = n := by
  have folds (l : List Char) (digits : ∀ c ∈ l, c.toNat < 256) (k : Nat) :
      (l.map fun c => BitVec.ofNat 8 c.toNat).foldl (fun n c => 10 * n + (c.toNat - 48)) k = Nat.ofDigitChars 10 l k := by
    induction l generalizing k with
    | nil => rfl
    | cons c rest ih =>
        have small := digits c List.mem_cons_self
        rw [List.map_cons, List.foldl_cons, ih fun d inside => digits d (List.mem_cons_of_mem _ inside),
          Nat.ofDigitChars_cons, BitVec.toNat_ofNat, Nat.mod_eq_of_lt small]
        rfl
  unfold digitsValue decimalDigits
  rw [folds]
  · exact Nat.ofDigitChars_ten_toDigits
  · intro c inside
    have range := Nat.isDigit_of_mem_toDigits (by decide) (by decide) inside
    rw [Char.isDigit_iff_toNat, show '9'.toNat = 57 from rfl] at range
    omega

theorem decimalDigits_some (n : Nat) : decimalDigits n ≠ [] := by
  intro none_
  exact Nat.toDigits_ne_nil (List.map_eq_nil_iff.mp none_)

theorem length_decimalDigits_le {n k : Nat} (positive : 0 < k) (small : n < 10 ^ k) : (decimalDigits n).length ≤ k := by
  unfold decimalDigits
  rw [List.length_map]
  exact (Nat.length_toDigits_le_iff (by decide) positive).mpr small

theorem digitsValue_small {digits : CString} (are : ∀ c ∈ digits, isdigit c = true) :
    digitsValue digits < 10 ^ digits.length := by
  have folds (k : Nat) : digits.foldl (fun n c => 10 * n + (c.toNat - 48)) k < (k + 1) * 10 ^ digits.length := by
    induction digits generalizing k with
    | nil => exact Nat.lt_of_lt_of_eq (Nat.lt_succ_self k) (Nat.mul_one _).symm
    | cons c rest ih =>
        have range := isdigit_range (are c List.mem_cons_self)
        have later := ih (fun d inside => are d (List.mem_cons_of_mem _ inside)) (10 * k + (c.toNat - 48))
        rw [List.foldl_cons, List.length_cons, Nat.pow_succ]
        refine Nat.lt_of_lt_of_le later ?_
        calc (10 * k + (c.toNat - 48) + 1) * 10 ^ rest.length
            ≤ (k + 1) * 10 * 10 ^ rest.length := Nat.mul_le_mul_right _ (by omega)
          _ = (k + 1) * (10 ^ rest.length * 10) := by rw [Nat.mul_assoc, Nat.mul_comm 10]
  have all := folds 0
  rw [Nat.zero_add, Nat.one_mul] at all
  exact all

theorem digits_monotone {a b : Nat} (less : a ≤ b) : (decimalDigits a).length ≤ (decimalDigits b).length := by
  have some_ := List.length_pos_iff.mpr (decimalDigits_some b)
  refine length_decimalDigits_le some_ ?_
  have value := digitsValue_small (decimalDigits_digit (n := b))
  rw [digitsValue_decimal] at value
  omega

theorem numbered_inj {base : CString} {a b : Nat} (same : numbered base a = numbered base b) : a = b := by
  have digits := List.append_cancel_left same
  rw [← digitsValue_decimal a, digits, digitsValue_decimal]

theorem length_numbered (base : CString) (n : Nat) :
    (numbered base n).length = base.length + 1 + (decimalDigits n).length := by
  unfold numbered
  rw [List.length_append, List.length_append]
  rfl

theorem strtol_decimal (n : Nat) : strtol (decimalDigits n) = (min (n : Int) (2 ^ 31 - 1), []) := by
  have value := digitsValue_decimal n
  have digits := decimalDigits_digit (n := n)
  generalize decimalDigits n = text at value digits
  cases text with
  | nil =>
      cases value
      rfl
  | cons c rest =>
      have range := isdigit_range (digits c List.mem_cons_self)
      have sign (b : BitVec 8) (low : b.toNat < 48) : c ≠ b := by
        rintro rfl
        omega
      have space : isspace c = false := by
        unfold isspace
        rw [decide_eq_false (sign 32 (by decide)), Bool.false_or, Bool.and_eq_false_iff]
        exact .inr (decide_eq_false (by omega))
      have body : (c :: rest).dropWhile isspace = c :: rest := by
        rw [List.dropWhile_cons, space]
        rfl
      have all : (c :: rest).takeWhile isdigit = c :: rest := List.takeWhile_eq_self_iff.mpr digits
      have minus : ¬ (c :: rest).head? = some 45 := fun is => sign 45 (by decide) (Option.some.inj is)
      have signs : ¬ ((c :: rest).head? = some 45 ∨ (c :: rest).head? = some 43) := by
        rintro (is | is)
        · exact minus is
        · exact sign 43 (by decide) (Option.some.inj is)
      unfold strtol
      rw [body]
      dsimp only
      rw [if_neg signs, all, if_neg (List.cons_ne_nil _ _), value, if_neg minus, List.drop_length]

theorem strtol_next {text : CString} (plain : 45 ∉ text) (all : (strtol text).2 = []) :
    0 ≤ (strtol text).1 ∧ (decimalDigits ((strtol text).1.toNat + 1)).length ≤ text.length + 1 := by
  have sub := (List.dropWhile_suffix (l := text) isspace).subset
  have shorter := (List.dropWhile_suffix (l := text) isspace).length_le
  unfold strtol at all ⊢
  generalize text.dropWhile isspace = body at *
  have minus : ¬ body.head? = some 45 := fun is => plain (sub (List.mem_of_mem_head? is))
  dsimp only at all ⊢
  have fewer : (if body.head? = some 45 ∨ body.head? = some 43 then body.tail else body).length ≤ body.length := by
    split
    · rw [List.length_tail]
      omega
    · exact Nat.le_refl _
  generalize (if body.head? = some 45 ∨ body.head? = some 43 then body.tail else body) = digitsText at *
  have count := (List.takeWhile_prefix (l := digitsText) isdigit).length_le
  have are : ∀ c ∈ digitsText.takeWhile isdigit, isdigit c = true := fun c inside => List.mem_takeWhile_imp inside
  generalize digitsText.takeWhile isdigit = digits at *
  by_cases none_ : digits = []
  · rw [if_pos none_] at all ⊢
    cases all
    exact ⟨Int.le_refl 0, by decide⟩
  · rw [if_neg none_, if_neg minus]
    have value := digitsValue_small are
    refine ⟨by omega, ?_⟩
    refine Nat.le_trans (digits_monotone (b := digitsValue digits + 1) (by dsimp only; omega)) ?_
    refine Nat.le_trans (length_decimalDigits_le (k := digits.length + 1) (Nat.succ_pos _) ?_) (by omega)
    rw [Nat.pow_succ]
    omega

theorem mangle_first (name : CString) :
    if (baseAndFirst name).2 < 2 ^ 31 then
      ∃ m, mdnsMangleName name = some m ∧ m.text = numbered (baseAndFirst name).1 (baseAndFirst name).2 ∧
        m.text.length + 1 ≤ m.size
    else mdnsMangleName name = none := by
  have appended : ∃ m, (some ⟨name.length + 3, name ++ [45, 50]⟩ : Option MangledName) = some m ∧
      m.text = numbered name 2 ∧ m.text.length + 1 ≤ m.size := by
    refine ⟨_, rfl, ?_, ?_⟩
    · exact (List.append_assoc name [45] [50]).symm
    · change (name ++ [45, 50]).length + 1 ≤ name.length + 3
      rw [List.length_append]
      exact Nat.le_refl _
  cases found : strrchr 45 name with
  | none =>
      have base : baseAndFirst name = (name, 2) := by
        unfold baseAndFirst
        rw [found]
      have made : mdnsMangleName name = some ⟨name.length + 3, name ++ [45, 50]⟩ := by
        unfold mdnsMangleName
        rw [found]
      rw [base, made, if_pos (by dsimp only; decide)]
      exact appended
  | some p =>
      obtain ⟨inside, plain⟩ := strrchr_some found
      cases read : strtol (name.drop (p + 1)) with
      | mk suffix endp =>
          cases endp with
          | cons c rest =>
              have base : baseAndFirst name = (name, 2) := by
                unfold baseAndFirst
                rw [found]
                dsimp only
                rw [read]
              have made : mdnsMangleName name = some ⟨name.length + 3, name ++ [45, 50]⟩ := by
                unfold mdnsMangleName
                rw [found]
                dsimp only
                rw [read]
                exact if_pos (List.cons_ne_nil _ _)
              rw [base, made, if_pos (by dsimp only; decide)]
              exact appended
          | nil =>
              obtain ⟨positive, short⟩ := strtol_next plain (by rw [read])
              rw [read] at positive short
              rw [List.length_drop] at short
              dsimp only at positive short
              have base : baseAndFirst name = (name.take p, suffix.toNat + 1) := by
                unfold baseAndFirst
                rw [found]
                dsimp only
                rw [read]
              have made : mdnsMangleName name = if suffix + 1 ≥ 2 ^ 31 then none
                  else some ⟨name.length + 2, name.take p ++ [45] ++ decimal (suffix + 1)⟩ := by
                unfold mdnsMangleName
                rw [found]
                dsimp only
                rw [read]
                exact if_neg fun other => other rfl
              rw [base, made]
              dsimp only
              by_cases small : suffix.toNat + 1 < 2 ^ 31
              · rw [if_pos small, if_neg (by omega)]
                have printed : decimal (suffix + 1) = decimalDigits (suffix.toNat + 1) := by
                  unfold decimal
                  rw [if_neg (by omega)]
                  exact congrArg decimalDigits (by omega)
                rw [printed]
                refine ⟨_, rfl, rfl, ?_⟩
                change (numbered (name.take p) (suffix.toNat + 1)).length + 1 ≤ name.length + 2
                rw [length_numbered, List.length_take, Nat.min_eq_left (Nat.le_of_lt inside)]
                omega
              · rw [if_neg small, if_pos (by omega)]

theorem base_numbered (base : CString) (k : Nat) :
    baseAndFirst (numbered base k) = (base, (min (k : Int) (2 ^ 31 - 1)).toNat + 1) := by
  have plain : (45 : BitVec 8) ∉ decimalDigits k := by
    intro inside
    exact absurd (decimalDigits_digit _ inside) (by decide)
  have parts : numbered base k = base ++ 45 :: decimalDigits k := List.append_assoc base [45] (decimalDigits k)
  have rest : (base ++ 45 :: decimalDigits k).drop (base.length + 1) = decimalDigits k := by
    rw [← List.drop_drop, List.drop_left]
    rfl
  unfold baseAndFirst
  rw [parts, strrchr_append plain]
  dsimp only
  rw [rest, strtol_decimal, List.take_left]

theorem mangle_numbered (base : CString) (k : Nat) :
    if k + 1 < 2 ^ 31 then
      ∃ m, mdnsMangleName (numbered base k) = some m ∧ m.text = numbered base (k + 1) ∧ m.text.length + 1 ≤ m.size
    else mdnsMangleName (numbered base k) = none := by
  have made := mangle_first (numbered base k)
  rw [base_numbered] at made
  dsimp only at made
  by_cases small : k + 1 < 2 ^ 31
  · have same : (min (k : Int) (2 ^ 31 - 1)).toNat = k := by omega
    rw [same] at made
    exact made
  · rw [if_neg (by omega)] at made
    rw [if_neg small]
    exact made

def RunGives (name base : CString) (first n : Nat) : Prop :=
  if n = 0 ∨ first + n - 1 < 2 ^ 31 then
    ∃ run, mangleRun n name = some run ∧ run.map MangledName.text = (List.range' first n).map (numbered base) ∧
      ∀ m ∈ run, m.text.length + 1 ≤ m.size
  else mangleRun n name = none

theorem run_zero (name base : CString) (first : Nat) : RunGives name base first 0 := by
  unfold RunGives
  rw [if_pos (.inl rfl)]
  exact ⟨[], rfl, rfl, fun _ none => absurd none List.not_mem_nil⟩

theorem run_step {name base : CString} {first n : Nat}
    (one : if first < 2 ^ 31 then
        ∃ m, mdnsMangleName name = some m ∧ m.text = numbered base first ∧ m.text.length + 1 ≤ m.size
      else mdnsMangleName name = none)
    (later : RunGives (numbered base first) base (first + 1) n) : RunGives name base first (n + 1) := by
  unfold RunGives at later ⊢
  unfold mangleRun
  by_cases small : first < 2 ^ 31
  · rw [if_pos small] at one
    obtain ⟨m, made, text, room⟩ := one
    rw [made]
    dsimp only [Option.bind_some]
    rw [text]
    by_cases rest : n = 0 ∨ first + 1 + n - 1 < 2 ^ 31
    · rw [if_pos rest] at later
      obtain ⟨run, runs, texts, rooms⟩ := later
      rw [if_pos (by omega), runs]
      refine ⟨m :: run, rfl, ?_, ?_⟩
      · rw [List.map_cons, text, texts, List.range'_succ, List.map_cons]
      · intro m' inside
        rcases List.mem_cons.mp inside with rfl | other
        · exact room
        · exact rooms m' other
    · rw [if_neg rest] at later
      rw [if_neg (by omega), later]
      rfl
  · rw [if_neg small] at one
    rw [if_neg (by omega), one]
    rfl

theorem run_numbered (base : CString) (k n : Nat) : RunGives (numbered base k) base (k + 1) n := by
  induction n generalizing k with
  | zero => exact run_zero _ _ _
  | succ n ih => exact run_step (mangle_numbered base k) (ih (k + 1))

theorem run_names (name : CString) (n : Nat) : RunGives name (baseAndFirst name).1 (baseAndFirst name).2 n := by
  cases n with
  | zero => exact run_zero _ _ _
  | succ n => exact run_step (mangle_first name) (run_numbered _ _ n)

theorem name_not_numbered {name : CString} {k : Nat} (later : (baseAndFirst name).2 ≤ k) (small : k < 2 ^ 31) :
    name ≠ numbered (baseAndFirst name).1 k := by
  intro is
  have first := congrArg Prod.snd (base_numbered (baseAndFirst name).1 k)
  rw [← is] at first
  dsimp only at first
  omega

theorem renames_iff (name : CString) (n : Nat) : RenamesProgress name n ↔ LastFits name n := by
  have names := run_names name n
  unfold RunGives at names
  by_cases none_ : n = 0
  · subst none_
    exact iff_of_true ⟨[], rfl, rfl, List.nodup_singleton name, fun _ none => absurd none List.not_mem_nil⟩ (.inl rfl)
  · constructor
    · rintro ⟨run, runs, count, _, each⟩
      by_cases small : n = 0 ∨ (baseAndFirst name).2 + n - 1 < 2 ^ 31
      · rw [if_pos small] at names
        obtain ⟨run', runs', texts, _⟩ := names
        rw [runs] at runs'
        cases runs'
        refine .inr ⟨Or.resolve_left small none_, ?_⟩
        have last : numbered (baseAndFirst name).1 ((baseAndFirst name).2 + n - 1) ∈ run.map MangledName.text := by
          rw [texts]
          exact List.mem_map_of_mem (List.mem_range'_1.mpr (by omega))
        obtain ⟨m, inside, is⟩ := List.mem_map.mp last
        rw [← is]
        exact (each m inside).2.2
      · rw [if_neg small, runs] at names
        cases names
    · rintro (zero | ⟨small, short⟩)
      · exact absurd zero none_
      · rw [if_pos (.inr small)] at names
        obtain ⟨run, runs, texts, rooms⟩ := names
        have count := congrArg List.length texts
        rw [List.length_map, List.length_map, List.length_range'] at count
        refine ⟨run, runs, count, ?_, ?_⟩
        · rw [texts, List.nodup_cons]
          refine ⟨?_, List.Nodup.map (fun _ _ same => numbered_inj same) List.nodup_range'⟩
          intro inside
          obtain ⟨k, among, is⟩ := List.mem_map.mp inside
          have range := List.mem_range'_1.mp among
          exact name_not_numbered range.1 (by omega) is.symm
        · intro m inside
          have text : m.text ∈ run.map MangledName.text := List.mem_map_of_mem inside
          rw [texts] at text
          obtain ⟨k, among, is⟩ := List.mem_map.mp text
          have range := List.mem_range'_1.mp among
          refine ⟨rooms m inside, ⟨k, is.symm⟩, ?_⟩
          have more := digits_monotone (show k ≤ (baseAndFirst name).2 + n - 1 by omega)
          rw [length_numbered] at short
          rw [← is, length_numbered]
          omega

/-- `esp-9` and its next two names -/
example : (mangleRun 2 [101, 115, 112, 45, 57]).map (fun run => run.map MangledName.text) =
    some [[101, 115, 112, 45, 49, 48], [101, 115, 112, 45, 49, 49]] := by decide

/-- A name of 62 characters is changed to one of 64, that no label can have. -/
theorem long_name_outgrows :
    (mdnsMangleName (List.replicate 62 97)).map (fun m => m.text.length) = some 64 ∧
      ¬ RenamesProgress (List.replicate 62 97) 1 := by
  refine ⟨by decide, ?_⟩
  rw [renames_iff]
  decide

end EspFirmware.Proof.Mdns
