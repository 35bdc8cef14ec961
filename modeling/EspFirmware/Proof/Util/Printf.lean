import EspFirmware.Spec.Output
import Mathlib.Data.List.Basic
import Mathlib.Algebra.Order.Ring.Nat

namespace EspFirmware.Util
open Lib Spec

theorem putDigit_eq {n : Nat} (small : n < 16) : putDigit n = chr n.digitChar := by
  have all : ∀ n : Fin 16, putDigit n = chr (Nat.digitChar n) := by decide
  exact all ⟨n, small⟩

theorem putDigits_eq {hex : Nat} (base : 1 < hex) (small : hex ≤ 16) {offset value : Nat} (buf : CString)
    (some_ : value ≠ 0) (fits : value < hex ^ offset) :
    putDigits hex offset value buf = some (Converted.digits hex value ++ buf) := by
  induction offset generalizing value buf with
  | zero =>
      rw [Nat.pow_zero] at fits
      omega
  | succ offset ih =>
      obtain ⟨n, rfl⟩ := Nat.exists_eq_succ_of_ne_zero some_
      have lower := Nat.mod_lt (n + 1) (Nat.zero_lt_of_lt base)
      rw [putDigits, Converted.digits, Nat.toDigits_eq_if base, putDigit_eq (lower.trans_le small)]
      by_cases last : n + 1 < hex
      · rw [if_pos last, Nat.div_eq_of_lt last, Nat.mod_eq_of_lt last]
        cases offset <;> rfl
      · have more : (n + 1) / hex ≠ 0 := (Nat.div_pos (Nat.le_of_not_lt last) (Nat.zero_lt_of_lt base)).ne'
        have less : (n + 1) / hex < hex ^ offset := Nat.div_lt_of_lt_mul (by rwa [Nat.pow_succ, Nat.mul_comm] at fits)
        rw [if_neg last, ih _ more less, Converted.digits, List.map_append, List.append_assoc]
        rfl

def padded (left zero : Bool) (width : Nat) (text : CString) : CString :=
  let fill := List.replicate (width - text.length) (if zero then chr '0' else chr ' ')
  if left then text ++ fill else fill ++ text

theorem padded_narrow {left zero : Bool} {width : Nat} {text : CString} (narrow : width ≤ text.length) :
    padded left zero width text = text := by
  rw [padded, Nat.sub_eq_zero_of_le narrow, List.replicate_zero, List.append_nil, List.nil_append, ite_self]

theorem padded_length (left zero : Bool) (width : Nat) (text : CString) :
    (padded left zero width text).length = max width text.length := by
  simp only [padded]
  split <;> rw [List.length_append, List.length_replicate] <;> omega

theorem filled_eq {attr : ValAttr} (some_ : attr.fillbytes ≠ 0) (zero : Bool) {left : Nat} {text : CString}
    (missing : left = attr.fillbytes - text.length) :
    filled attr (if zero then chr '0' else chr ' ') left text = padded attr.fillLeft zero attr.fillbytes text := by
  have aligned : attr.isfill_left = attr.fillLeft := by simp [ValAttr.isfill_left, some_]
  rw [filled, padded, aligned, missing, ets_printf_ch_mutlti]
  cases attr.fillLeft with
  | true => exact List.nil_append _
  | false => exact List.append_nil _

theorem printf_int {attr : ValAttr} (narrow : attr.fillbytes < 2 ^ 8) (value : BitVec 32) {hex : Nat}
    (base : hex = 10 ∨ hex = 16) : ets_printf_int attr value hex =
      some (padded attr.fillLeft attr.fill0 attr.fillbytes (Converted.digits hex value.toNat)) := by
  have digits : (if value.toNat ≠ 0 then putDigits hex VINT_STR_MAX value.toNat [] else some [chr '0']) =
      some (Converted.digits hex value.toNat) := by
    by_cases zero : value.toNat = 0
    · rw [if_neg (not_not_intro zero), zero, Converted.digits, Nat.toDigits_zero]
      rfl
    · have fits : value.toNat < hex ^ VINT_STR_MAX := by
        refine value.isLt.trans ?_
        rcases base with rfl | rfl <;> decide
      rw [if_pos zero, putDigits_eq (by omega) (by omega) [] zero fits, List.append_nil]
  rw [ets_printf_int, digits, Option.map_some]
  by_cases none_ : attr.fillbytes = 0
  · rw [if_neg (not_not_intro none_), padded_narrow (none_ ▸ Nat.zero_le _)]
  · have zero : attr.isfill_0 = attr.fill0 := by simp [ValAttr.isfill_0, none_]
    rw [if_pos none_, zero]
    refine congrArg some (filled_eq none_ _ ?_)
    split <;> omega

theorem printf_str {attr : ValAttr} (valcp : Option CString) : ets_printf_str attr valcp =
    if attr.fillbytes = 0 then some (valcp.getD ("<null>".toList.map chr))
    else valcp.map fun s => padded attr.fillLeft false attr.fillbytes (s.take (s.length % 2 ^ 8)) := by
  by_cases none_ : attr.fillbytes = 0
  · rw [ets_printf_str.eq_def, if_neg (not_not_intro none_), if_pos none_]
  · rw [ets_printf_str.eq_def, if_pos none_, if_neg none_]
    cases valcp with
    | none => rfl
    | some s =>
        refine congrArg some (filled_eq none_ false ?_)
        have long := Nat.mod_le s.length (2 ^ 8)
        rw [List.length_take, Nat.min_eq_left long]
        split <;> omega

variable {a : ValAttr} {rest : CString}

theorem readAttr_zero (started : a.start = true) (none_ : a.fillbytes = 0) (notPrecision : a.pointor = false) :
    readAttr false a (chr '0' :: rest) = readAttr false a rest := by
  have digit : { a.digit (chr '0') with start := true } = a := by
    obtain ⟨fill0, fillLeft, pointor, alternate, start, fillbytes, precision⟩ := a
    cases started
    cases none_
    cases notPrecision
    rfl
  rw [readAttr]
  simp only [show conversion (chr '0') = none from rfl, show ets_isdigit (chr '0') = true from rfl, Bool.false_eq_true,
    if_false, if_true, show ¬ chr '0' = chr '#' by decide, digit]

theorem readAttr_left : readAttr false a (chr '-' :: rest) =
    readAttr false { a with fillLeft := true, start := true } rest := by
  rw [readAttr]
  rfl

theorem readAttr_flags (flags : List Flag) (started : a.start = true) (none_ : a.fillbytes = 0)
    (notPrecision : a.pointor = false) (plain : .alternate ∉ flags) :
    readAttr false a (flags.map Flag.text ++ rest) =
      readAttr false { a with fillLeft := a.fillLeft || flags.contains .left } rest := by
  induction flags generalizing a with
  | nil => simp
  | cons flag flags ih =>
      have plain' := fun there => plain (List.mem_cons_of_mem flag there)
      cases flag with
      | alternate => exact absurd List.mem_cons_self plain
      | zero =>
          rw [List.map_cons, List.cons_append, Flag.text, readAttr_zero started none_ notPrecision,
            ih started none_ notPrecision plain']
          rfl
      | left =>
          rw [List.map_cons, List.cons_append, Flag.text, readAttr_left,
            ih (a := { a with fillLeft := true, start := true }) rfl none_ notPrecision plain']
          simp [started]

theorem readAttr_allFlags (flags : List Flag) (plain : .alternate ∉ flags) :
    ∃ start, readAttr false .initial (flags.map Flag.text ++ rest) =
      readAttr false { ValAttr.initial with
        fill0 := flags.head? == some .zero, fillLeft := flags.contains .left, start := start } rest := by
  cases flags with
  | nil => exact ⟨false, rfl⟩
  | cons flag flags =>
      have plain' := fun there => plain (List.mem_cons_of_mem flag there)
      rw [List.map_cons, List.cons_append]
      cases flag with
      | alternate => exact absurd List.mem_cons_self plain
      | zero =>
          have first : readAttr false .initial (Flag.zero.text :: (flags.map Flag.text ++ rest)) =
              readAttr false { ValAttr.initial with fill0 := true, start := true } (flags.map Flag.text ++ rest) := by
            rw [readAttr]
            rfl
          exact ⟨true, first.trans (readAttr_flags flags rfl rfl rfl plain')⟩
      | left => exact ⟨true, readAttr_left.trans (readAttr_flags flags rfl rfl rfl plain')⟩

theorem digit_kind {c : BitVec 8} (digit : ets_isdigit c = true) : conversion c = none ∧ c ≠ chr '#' := by
  have all : ∀ c : BitVec 8, ets_isdigit c = true → conversion c = none ∧ c ≠ chr '#' := by decide
  exact all c digit

theorem readAttr_digit {c : BitVec 8} (digit : ets_isdigit c = true) : readAttr false a (c :: rest) =
    readAttr false { a.digit c with start := true } rest := by
  rw [readAttr, if_neg Bool.false_ne_true, (digit_kind digit).1]
  simp only
  rw [if_neg (digit_kind digit).2, if_pos digit]

def addDigit (width : Nat) (c : BitVec 8) : Nat := (width * 10 + (c.toNat - 48)) % 2 ^ 8

theorem readAttr_widthDigit {c : BitVec 8} (digit : ets_isdigit c = true) (notFlag : a.start = true ∨ c ≠ chr '0')
    (notPrecision : a.pointor = false) : readAttr false a (c :: rest) =
      readAttr false { a with fillbytes := addDigit a.fillbytes c, start := true } rest := by
  have notZero : ¬ (!a.start && c == chr '0') = true := by
    rcases notFlag with started | other
    · simp [started]
    · simp [other]
  rw [readAttr_digit digit, ValAttr.digit, if_neg notZero, if_neg (by simp [notPrecision])]
  rfl

theorem readAttr_widthDigits (digits : CString) (allDigits : digits.all ets_isdigit = true)
    (notPrecision : a.pointor = false) (started : a.start = true) : readAttr false a (digits ++ rest) =
      readAttr false { a with fillbytes := digits.foldl addDigit a.fillbytes } rest := by
  induction digits generalizing a with
  | nil => rfl
  | cons c digits ih =>
      rw [List.all_cons, Bool.and_eq_true] at allDigits
      rw [List.cons_append, readAttr_widthDigit allDigits.1 (.inl started) notPrecision,
        ih (a := { a with fillbytes := addDigit a.fillbytes c, start := true }) allDigits.2 notPrecision rfl]
      simp [started]

theorem readAttr_width {width : Nat} (narrow : width < 2 ^ 8) (none_ : a.fillbytes = 0)
    (notPrecision : a.pointor = false) :
    ∃ start, readAttr false a ((if width = 0 then [] else Converted.digits 10 width) ++ rest) =
      readAttr false { a with fillbytes := width, start := start } rest := by
  by_cases zero : width = 0
  · exact ⟨a.start, by rw [if_pos zero, zero, ← none_]; rfl⟩
  · have all : ∀ width : Fin (2 ^ 8), width.val ≠ 0 → (Converted.digits 10 width).all ets_isdigit = true ∧
        (Converted.digits 10 width).foldl addDigit 0 = width ∧
        (Converted.digits 10 width).head?.all (· ≠ chr '0') ∧ Converted.digits 10 width ≠ [] := by
      decide +kernel
    obtain ⟨digits, value, notZero, some_⟩ := all ⟨width, narrow⟩ zero
    refine ⟨true, ?_⟩
    rw [if_neg zero]
    simp only at digits value notZero some_
    generalize Converted.digits 10 width = text at digits value notZero some_
    cases text with
    | nil => exact absurd rfl some_
    | cons c text =>
        rw [List.all_cons, Bool.and_eq_true] at digits
        rw [List.cons_append, readAttr_widthDigit digits.1 (.inr (of_decide_eq_true notZero)) notPrecision,
          readAttr_widthDigits (a := { a with fillbytes := addDigit a.fillbytes c, start := true }) text digits.2
            notPrecision rfl, none_]
        exact congrArg (fun width => readAttr false { a with fillbytes := width, start := true } rest) value

theorem readAttr_precisionDigits (precision : List (Fin 10)) (started : a.start = true) (behind : a.pointor = true) :
    ∃ value, readAttr false a ((precision.map fun n => BitVec.ofNat 8 (n.val + 48)) ++ rest) =
      readAttr false { a with precision := value } rest := by
  induction precision generalizing a with
  | nil => exact ⟨a.precision, rfl⟩
  | cons n precision ih =>
      have digit : ets_isdigit (BitVec.ofNat 8 (n.val + 48)) = true := by
        have all : ∀ n : Fin 10, ets_isdigit (BitVec.ofNat 8 (n.val + 48)) = true := by decide
        exact all n
      rw [List.map_cons, List.cons_append, readAttr_digit digit, ValAttr.digit, if_neg (by simp [started]), if_pos behind]
      obtain ⟨value, read⟩ := ih (a := { a with
        precision := (a.precision * 10 + ((BitVec.ofNat 8 (n.val + 48)).toNat - 48)) % 2 ^ 8, start := true }) rfl behind
      refine ⟨value, read.trans ?_⟩
      rw [started]

theorem readAttr_precision (rest : CString) (precision : Option (List (Fin 10))) :
    ∃ attr, readAttr false a ((match precision with
      | none => []
      | some precision => chr '.' :: precision.map fun n => BitVec.ofNat 8 (n.val + 48)) ++ rest) =
        readAttr false attr rest ∧
      attr.fillbytes = a.fillbytes ∧ attr.fillLeft = a.fillLeft ∧ attr.fill0 = a.fill0 := by
  cases precision with
  | none => exact ⟨a, rfl, rfl, rfl, rfl⟩
  | some precision =>
      have point (more : CString) : readAttr false a (chr '.' :: more) =
          readAttr false { a with pointor := true, start := true } more := by
        rw [readAttr]
        rfl
      obtain ⟨value, digits⟩ := readAttr_precisionDigits (a := { a with pointor := true, start := true }) precision rfl rfl
      exact ⟨_, (point _).trans digits, rfl, rfl, rfl⟩

def conversionType : Converted → Conversion
  | .d _ => .d
  | .i _ => .i
  | .u _ => .u
  | .x _ => .x
  | .c _ => .c
  | .s _ => .s
  | .p _ => .p

theorem conversion_text (converted : Converted) : conversion converted.text = some (conversionType converted) := by
  cases converted <;> rfl

theorem readAttr_directive (rest : CString) (d : Directive) (plain : .alternate ∉ d.flags) :
    ∃ attr, readAttr false .initial (d.text ++ rest) = some (some (conversionType d.converted), attr, rest) ∧
      attr.fillbytes = d.width ∧ attr.fillLeft = d.flags.contains .left ∧
      attr.fill0 = (d.flags.head? == some .zero) := by
  have ends (a : ValAttr) : readAttr false a (d.converted.text :: rest) =
      some (some (conversionType d.converted), a, rest) := by
    rw [readAttr, if_neg Bool.false_ne_true, conversion_text]
  rw [Directive.text, List.append_assoc, List.append_assoc, List.append_assoc]
  obtain ⟨started, flags⟩ := readAttr_allFlags d.flags plain
  obtain ⟨started', width⟩ := readAttr_width (a := { ValAttr.initial with
    fill0 := d.flags.head? == some .zero, fillLeft := d.flags.contains .left, start := started }) d.narrow rfl rfl
  obtain ⟨attr, precision, same⟩ := readAttr_precision ([d.converted.text] ++ rest) (a := { ValAttr.initial with
    fill0 := d.flags.head? == some .zero, fillLeft := d.flags.contains .left, start := started',
    fillbytes := d.width }) d.precision
  refine ⟨attr, ?_, same⟩
  exact flags.trans (width.trans (precision.trans (ends attr)))

theorem natAbs_toInt {value : BitVec 32} :
    value.toInt.natAbs = if value.toInt < 0 then (-value).toNat else value.toNat := by
  have bound := value.isLt
  rw [BitVec.toNat_neg, BitVec.toInt_eq_toNat_cond]
  split <;> split <;> omega

theorem number_printed {converted : Converted} (numeric : converted.numeric = true) (narrow : attr.fillbytes < 2 ^ 8) :
    printArg attr (conversionType converted) converted.arg =
      some (converted.sign false ++ padded attr.fillLeft attr.fill0 attr.fillbytes converted.body) := by
  have signed (value : BitVec 32) :
      (if value.toInt < 0 then (ets_printf_int attr (-value) 10).map (chr '-' :: ·) else ets_printf_int attr value 10) =
        some ((if value.toInt < 0 then [chr '-'] else []) ++
          padded attr.fillLeft attr.fill0 attr.fillbytes (Converted.digits 10 value.toInt.natAbs)) := by
    rw [natAbs_toInt, printf_int narrow _ (.inl rfl), printf_int narrow _ (.inl rfl)]
    split <;> rfl
  cases converted with
  | d value => exact signed value
  | i value => exact signed value
  | u value => exact printf_int narrow value (.inl rfl)
  | x value => exact printf_int narrow value (.inr rfl)
  | p value => exact printf_int narrow value (.inr rfl)
  | c value => cases numeric
  | s value => cases numeric

theorem zero_first {flags : List Flag} (plain : .alternate ∉ flags) (notLeft : .left ∉ flags) :
    flags.contains .zero = (flags.head? == some .zero) := by
  cases flags with
  | nil => rfl
  | cons flag flags =>
      cases flag with
      | zero => rfl
      | left => exact absurd List.mem_cons_self notLeft
      | alternate => exact absurd List.mem_cons_self plain

theorem number_iff {sign body : CString} {width : Nat} {flags : List Flag} (short : sign.length ≤ 1)
    (plain : .alternate ∉ flags) :
    sign ++ padded (flags.contains .left) (flags.head? == some .zero) width body =
      (let missing := width - (sign.length + body.length)
      if flags.contains .left then sign ++ body ++ List.replicate missing (chr ' ')
      else if flags.contains .zero then sign ++ List.replicate missing (chr '0') ++ body
      else List.replicate missing (chr ' ') ++ sign ++ body) ↔
    (body.length < width → sign = [] ∧ ¬ (flags.head? = some .zero ∧ .left ∈ flags)) := by
  by_cases wide : body.length < width
  · constructor
    · intro same _
      have lengths := congrArg List.length same
      have none_ : sign = [] := by
        rw [List.length_append, padded_length] at lengths
        refine List.length_eq_zero_iff.mp ?_
        simp only at lengths
        split at lengths
        · rw [List.length_append, List.length_append, List.length_replicate] at lengths
          omega
        · split at lengths <;> rw [List.length_append, List.length_append, List.length_replicate] at lengths <;> omega
      refine ⟨none_, fun both => ?_⟩
      have left : flags.contains .left = true := List.contains_iff_mem.mpr both.2
      have zero : (flags.head? == some Flag.zero) = true := beq_iff_eq.mpr both.1
      simp only [none_, left, zero, if_true, padded, List.nil_append, List.length_nil, Nat.zero_add] at same
      have fills := List.append_cancel_left same
      obtain ⟨missing, eq⟩ := Nat.exists_eq_succ_of_ne_zero (Nat.sub_ne_zero_of_lt wide)
      rw [eq, List.replicate_succ, List.replicate_succ, List.cons.injEq] at fills
      exact absurd fills.1 (by decide)
    · intro all
      obtain ⟨rfl, notBoth⟩ := all wide
      simp only [padded, List.nil_append, List.length_nil, Nat.zero_add, List.append_nil]
      cases left : flags.contains .left with
      | true =>
          have notZero : (flags.head? == some Flag.zero) = false := by
            rw [beq_eq_false_iff_ne]
            exact fun zero => notBoth ⟨zero, List.contains_iff_mem.mp left⟩
          rw [notZero, if_pos rfl, if_pos rfl, if_neg Bool.false_ne_true]
      | false =>
          have notLeft : .left ∉ flags := fun there => by
            rw [List.contains_iff_mem.mpr there] at left
            cases left
          rw [zero_first plain notLeft, if_neg Bool.false_ne_true, if_neg Bool.false_ne_true]
          cases flags.head? == some Flag.zero <;> rfl
  · have fits := Nat.le_of_not_lt wide
    refine iff_of_true ?_ fun less => absurd less wide
    rw [padded_narrow fits, Nat.sub_eq_zero_of_le (fits.trans (Nat.le_add_left ..))]
    simp

theorem sign_short (alternate : Bool) (converted : Converted) (plain : alternate = false) :
    (converted.sign alternate).length ≤ 1 := by
  subst plain
  have signed (value : BitVec 32) : (if value.toInt < 0 then [chr '-'] else [] : CString).length ≤ 1 := by
    split <;> decide
  cases converted with
  | d value => exact signed value
  | i value => exact signed value
  | u value => exact Nat.zero_le 1
  | x value => exact Nat.zero_le 1
  | c value => exact Nat.zero_le 1
  | s value => exact Nat.zero_le 1
  | p value => exact Nat.zero_le 1

theorem characters_output {d : Directive} (characters : d.converted.numeric = false) :
    d.output = padded (d.flags.contains .left) false d.width d.converted.body := by
  have noSign (alternate : Bool) : d.converted.sign alternate = [] := by
    cases kind : d.converted with
    | c value => rfl
    | s value => rfl
    | _ value => rw [kind] at characters; cases characters
  simp only [Directive.output, noSign, characters, Bool.and_false, padded, List.nil_append, List.length_nil,
    Nat.zero_add, Bool.false_eq_true, if_false, List.append_nil]

theorem string_iff {width : Nat} (narrow : width < 2 ^ 8) (left : Bool) (s : CString) :
    padded left false width (s.take (s.length % 2 ^ 8)) = padded left false width s ↔ s.length < 2 ^ 8 := by
  constructor
  · intro same
    have lengths := congrArg List.length same
    rw [padded_length, padded_length, List.length_take] at lengths
    omega
  · intro short
    rw [Nat.mod_eq_of_lt short, List.take_length]

theorem directive_iff (d : Directive) (plain : .alternate ∉ d.flags) (width : attr.fillbytes = d.width)
    (left : attr.fillLeft = d.flags.contains .left) (zero : attr.fill0 = (d.flags.head? == some .zero)) :
    printArg attr (conversionType d.converted) d.converted.arg = some d.output ↔ d.Plain := by
  have noAlternate : d.flags.contains .alternate = false :=
    Bool.eq_false_iff.mpr fun there => plain (List.contains_iff_mem.mp there)
  have narrow : attr.fillbytes < 2 ^ 8 := width ▸ d.narrow
  by_cases numeric : d.converted.numeric = true
  · rw [number_printed numeric narrow, Option.some_inj, Directive.output, noAlternate, numeric, width, left, zero,
      Bool.and_true, Directive.Plain]
    refine (number_iff (sign_short false d.converted rfl) plain).trans ?_
    cases kind : d.converted with
    | c value => rw [kind] at numeric; cases numeric
    | s value => rw [kind] at numeric; cases numeric
    | _ value => simp [plain, Converted.numeric]
  · have characters : d.converted.numeric = false := Bool.eq_false_iff.mpr numeric
    rw [characters_output characters, Directive.Plain, characters]
    simp only [plain, Bool.false_eq_true, false_imp_iff, not_false_eq_true, true_and]
    cases kind : d.converted with
    | c value =>
        simp only [printArg, conversionType, Converted.arg, Converted.body, Option.some_inj]
        constructor
        · intro same
          have lengths := congrArg List.length same
          rw [padded_length, List.length_singleton] at lengths
          exact (Nat.le_max_left ..).trans_eq lengths.symm
        · intro single
          exact (padded_narrow single).symm
    | s value =>
        simp only [printArg, conversionType, Converted.arg, Converted.body, printf_str, width, left]
        by_cases none_ : d.width = 0
        · rw [if_pos none_, none_, padded_narrow (Nat.zero_le _)]
          exact iff_of_true rfl fun some_ => absurd rfl some_
        · rw [if_neg none_]
          cases value with
          | none => exact iff_of_false (by simp) fun all => by obtain ⟨s, same, -⟩ := all none_; cases same
          | some s =>
              rw [Option.map_some, Option.some_inj, Option.getD_some, string_iff d.narrow]
              exact ⟨fun short _ => ⟨s, rfl, short⟩, fun all => by obtain ⟨_, ⟨⟩, short⟩ := all none_; exact short⟩
    | _ value => rw [kind] at characters; cases characters

theorem printf_literal {c : BitVec 8} (notPercent : c ≠ chr '%') (fmt : CString) (va : List VaArg) :
    ets_vprintf (c :: fmt) va = (ets_vprintf fmt va).map (c :: ·) := by
  rw [ets_vprintf, if_pos notPercent]

theorem printf_directive (d : Directive) (plain : .alternate ∉ d.flags) (fmt : CString) (va : List VaArg) :
    ∃ out, ets_vprintf ((Piece.directive d).text ++ fmt) ((Piece.directive d).args ++ va) =
        out.bind (fun out => (ets_vprintf fmt va).map (out ++ ·)) ∧
      (out = some d.output ↔ d.Plain) := by
  obtain ⟨attr, read, width, left, zero⟩ := readAttr_directive fmt d plain
  refine ⟨printArg attr (conversionType d.converted) d.converted.arg, ?_, directive_iff d plain width left zero⟩
  simp only [Piece.text, Piece.args, List.cons_append, List.nil_append]
  rw [ets_vprintf, if_neg (not_not_intro rfl)]
  split
  next missing => rw [read] at missing; cases missing
  next other => rw [read] at other; cases other
  next type attr' ps found =>
      rw [read] at found
      cases found
      rfl

theorem printf_pieces {pieces : List Piece} (plain : ∀ piece ∈ pieces, piece.Plain) (fmt : CString) (va : List VaArg) :
    ets_vprintf (pieces.flatMap Piece.text ++ fmt) (pieces.flatMap Piece.args ++ va) =
      (ets_vprintf fmt va).map (pieces.flatMap Piece.output ++ ·) := by
  induction pieces with
  | nil => exact Option.map_id'.symm
  | cons piece pieces ih =>
      have later := ih fun other there => plain other (List.mem_cons_of_mem piece there)
      have here := plain piece List.mem_cons_self
      simp only [List.flatMap_cons, List.append_assoc]
      cases piece with
      | literal c notPercent =>
          refine (printf_literal notPercent (pieces.flatMap Piece.text ++ fmt) _).trans ?_
          rw [Piece.args, List.nil_append, later, Option.map_map]
          rfl
      | directive d =>
          have here' : d.Plain := here
          obtain ⟨out, prints, exactly⟩ := printf_directive d here'.1
            (pieces.flatMap Piece.text ++ fmt) (pieces.flatMap Piece.args ++ va)
          rw [prints, exactly.mpr here, Option.bind_some, later, Option.map_map]
          rfl
      | percent => cases here
      | lone => cases here

/-- Pieces are printed right if all are plain, and after plain ones one without `#` is only if it is plain. -/
theorem printf_right (pieces : List Piece) :
    ((∀ piece ∈ pieces, piece.Plain) → PrintsAll pieces) ∧
    ∀ last : Piece, (∀ piece ∈ pieces, piece.Plain) → (∀ d, last = .directive d → .alternate ∉ d.flags) →
      (PrintsAll (pieces ++ [last]) ↔ last.Plain) := by
  have all (plain : ∀ piece ∈ pieces, piece.Plain) : PrintsAll pieces := by
    have printed := printf_pieces plain [] []
    rw [List.append_nil, List.append_nil, ets_vprintf, Option.map_some, List.append_nil] at printed
    exact printed
  refine ⟨all, fun last plain noAlternate => ?_⟩
  have prefixed : PrintsAll (pieces ++ [last]) ↔ ets_vprintf (last.text ++ []) (last.args ++ []) = some last.output := by
    rw [PrintsAll, List.flatMap_append, List.flatMap_append, List.flatMap_append, printf_pieces plain,
      List.flatMap_singleton, List.flatMap_singleton, List.flatMap_singleton, List.append_nil, List.append_nil]
    cases ets_vprintf last.text last.args with
    | none => simp
    | some out => simp
  rw [prefixed]
  cases last with
  | literal c notPercent =>
      refine iff_of_true ((printf_literal notPercent [] []).trans ?_) trivial
      rw [ets_vprintf]
      rfl
  | percent =>
      have overrun : ets_vprintf [chr '%', chr '%'] [] = none := by decide +kernel
      exact iff_of_false (fun same => by cases overrun.symm.trans same) not_false
  | lone =>
      have overrun : ets_vprintf [chr '%'] [] = none := by decide +kernel
      exact iff_of_false (fun same => by cases overrun.symm.trans same) not_false
  | directive d =>
      obtain ⟨out, prints, exactly⟩ := printf_directive d (noAlternate d rfl) [] []
      rw [prints, ets_vprintf]
      refine Iff.trans ?_ exactly
      cases out with
      | none => rfl
      | some out => rw [Option.bind_some, Option.map_some, List.append_nil]; rfl

def plainPieces : List Piece :=
  [.directive ⟨[.left], 5, by decide, none, .u 42⟩, .literal (chr '|') (by decide), .directive ⟨[], 0, by decide, none, .s none⟩,
    .directive ⟨[], 0, by decide, none, .d (-7)⟩]

theorem printf_right_plain : PrintsAll plainPieces := (printf_right plainPieces).1 (by
  intro piece there
  simp only [plainPieces, List.mem_cons, List.not_mem_nil, or_false] at there
  rcases there with rfl | rfl | rfl | rfl
  · exact ⟨by decide, fun _ _ => ⟨rfl, by decide⟩, trivial⟩
  · exact trivial
  · exact ⟨by decide, fun numeric => absurd numeric (by decide), fun wide => absurd rfl wide⟩
  · exact ⟨by decide, fun _ wide => absurd wide (Nat.not_lt_zero _), trivial⟩)

/-- `"%5d"` of -3: the minus is printed before the field. -/
theorem negative_wider : ¬ PrintsAll [.directive ⟨[], 5, by decide, none, .d (-3)⟩] ∧
    ets_vprintf ("%5d".toList.map chr) [.word (-3)] = some ("-    3".toList.map chr) := by
  constructor
  · unfold PrintsAll
    decide +kernel
  · decide +kernel

end EspFirmware.Util
