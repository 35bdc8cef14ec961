import EspFirmware.Proof.App.Json
import EspFirmware.Proof.App.Published

/-!
`cJSON_Parse` reads what `cJSON_PrintUnformatted` has printed.
-/

namespace EspFirmware.Proof.App
open EspFirmware.App EspFirmware.Spec EspFirmware.Lib EspFirmware.Lib.Parser

variable {strtod : Strtod}

theorem bind_done {α β : Type} {p : Parser Byte α} {input rest : List Byte} {a : α} (done : p input = .done a rest)
    (f : α → Parser Byte β) : (p >>= f) input = f a rest := by
  change Parser.bind p f input = _
  rw [Parser.bind, done]

theorem next_bind {β : Type} (f : Byte → Parser Byte β) (c : Byte) (rest : List Byte) :
    (next >>= f) (c :: rest) = f c rest := rfl

theorem peek_bind {β : Type} (f : Byte → Parser Byte β) (c : Byte) (rest : List Byte) :
    (peek >>= f) (c :: rest) = f c (c :: rest) := rfl

theorem skip_bind {β : Type} {c : Byte} (visible : isSpace c = false) (f : Unit → Parser Byte β) (rest : List Byte) :
    (skipWhitespace >>= f) (c :: rest) = f () (c :: rest) :=
  bind_done (by rw [skipWhitespace, skipWhile_cons, visible]; rfl) f

theorem parseLiteral_append (text rest : List Byte) : parseLiteral text (text ++ rest) = .done () rest := by
  induction text with
  | nil => rfl
  | cons c text ih =>
      rw [parseLiteral, List.cons_append, next_bind, if_pos rfl]
      exact ih

theorem lookWhile_token {keep : Byte → Bool} {token : List Byte} {c : Byte} {limit : Nat} (rest : List Byte)
    (all : ∀ d ∈ token, keep d = true) (stop : keep c = false) (short : token.length ≤ limit) :
    lookWhile keep limit (token ++ c :: rest) = .done token (token ++ c :: rest) := by
  induction token generalizing limit with
  | nil =>
      cases limit with
      | zero => rfl
      | succ limit => rw [List.nil_append, lookWhile_cons, if_neg (by rw [stop]; exact Bool.false_ne_true)]
  | cons d token ih =>
      cases limit with
      | zero => contradiction
      | succ limit =>
          have later := ih (fun e mem => all e (List.mem_cons_of_mem d mem)) (Nat.le_of_succ_le_succ short)
          rw [List.cons_append, lookWhile_cons, if_pos (all d List.mem_cons_self), later]

theorem parseHex4_hexChar : ∀ n < 32, parseHex4 48 48 (hexChar (n / 16)) (hexChar (n % 16)) = n := by decide

theorem hexChar_plain : ∀ n < 16, hexChar n ≠ 34 ∧ hexChar n ≠ 92 := by decide

theorem unescape_plain {c : Byte} (plain : c ≠ 92) (text : List Byte) :
    unescape (c :: text) = (unescape text).map (c :: ·) := by
  rw [unescape.eq_def]
  split <;> simp_all

theorem unescape_hex {a b c d : Byte} (low : parseHex4 a b c d < 0xD800) (text : List Byte) :
    unescape (92#8 :: 117#8 :: a :: b :: c :: d :: text) = (unescape text).map (utf8 (parseHex4 a b c d) ++ ·) := by
  have notLow : ¬ (0xDC00 ≤ parseHex4 a b c d ∧ parseHex4 a b c d ≤ 0xDFFF) := by omega
  have notHigh : ¬ (0xD800 ≤ parseHex4 a b c d ∧ parseHex4 a b c d ≤ 0xDBFF) := by omega
  rw [unescape.eq_def]
  exact (if_neg notLow).trans (if_neg notHigh)

theorem unescape_escapeChar (c : Byte) (text : List Byte) :
    unescape (escapeChar c ++ text) = (unescape text).map (c :: ·) := by
  rw [escapeChar]
  split
  · rename_i plain
    exact unescape_plain plain.2.2 text
  split
  · rename_i quoted
    rcases quoted with rfl | rfl <;> rfl
  split
  · subst_vars; rfl
  split
  · subst_vars; rfl
  split
  · subst_vars; rfl
  split
  · subst_vars; rfl
  split
  · subst_vars; rfl
  · rename_i hidden notQuoted notB notF notN notR notT
    have small : c.toNat < 32 := by
      by_contra large
      exact hidden ⟨by omega, fun same => notQuoted (.inr same), fun same => notQuoted (.inl same)⟩
    have code : parseHex4 48 48 (hexChar (c.toNat / 16)) (hexChar (c.toNat % 16)) = c.toNat :=
      parseHex4_hexChar c.toNat small
    have character : utf8 c.toNat = [c] := by
      rw [utf8, if_pos (by omega), BitVec.ofNat_toNat, BitVec.setWidth_eq]
    change unescape (92#8 :: 117#8 :: 48 :: 48 :: hexChar (c.toNat / 16) :: hexChar (c.toNat % 16) :: text) = _
    rw [unescape_hex (by omega), code, character]
    rfl

theorem unescape_escaped (s : List Byte) : unescape (s.flatMap escapeChar) = some s := by
  induction s with
  | nil => rfl
  | cons c s ih =>
      rw [List.flatMap_cons, unescape_escapeChar, ih]
      rfl

def Scans (text raw rest : List Byte) : Prop := ∀ fuel, raw.length < fuel → scanString fuel text = .done raw rest

theorem scans_quote (rest : List Byte) : Scans (34 :: rest) [] rest := by
  intro fuel enough
  cases fuel with
  | zero => contradiction
  | succ fuel => rfl

theorem Scans.plain {text raw rest : List Byte} (scans : Scans text raw rest) {c : Byte} (noQuote : c ≠ 34)
    (noEscape : c ≠ 92) : Scans (c :: text) (c :: raw) rest := by
  intro fuel enough
  cases fuel with
  | zero => contradiction
  | succ fuel =>
      rw [scanString, next_bind, if_neg noQuote, if_neg noEscape,
        bind_done (scans fuel (Nat.lt_of_succ_lt_succ enough))]
      rfl

theorem Scans.escape {text raw rest : List Byte} (scans : Scans text raw rest) (c : Byte) :
    Scans (92 :: c :: text) (92 :: c :: raw) rest := by
  intro fuel enough
  cases fuel with
  | zero => contradiction
  | succ fuel =>
      rw [List.length_cons, List.length_cons] at enough
      rw [scanString, next_bind, if_neg (by decide), if_pos rfl, next_bind, bind_done (scans fuel (by omega))]
      rfl

theorem Scans.escapeChar {text raw rest : List Byte} (scans : Scans text raw rest) (c : Byte) :
    Scans (escapeChar c ++ text) (escapeChar c ++ raw) rest := by
  rw [App.escapeChar]
  split
  · rename_i plain
    exact scans.plain plain.2.1 plain.2.2
  split
  · exact scans.escape c
  split
  · exact scans.escape 98
  split
  · exact scans.escape 102
  split
  · exact scans.escape 110
  split
  · exact scans.escape 114
  split
  · exact scans.escape 116
  · have high := hexChar_plain (c.toNat / 16) (by omega)
    have low := hexChar_plain (c.toNat % 16) (by omega)
    exact ((((scans.plain low.1 low.2).plain high.1 high.2).plain (by decide) (by decide)).plain (by decide)
      (by decide)).escape 117

theorem scans_escaped (s rest : List Byte) : Scans (s.flatMap escapeChar ++ 34 :: rest) (s.flatMap escapeChar) rest := by
  induction s with
  | nil => exact scans_quote rest
  | cons c s ih =>
      rw [List.flatMap_cons, List.append_assoc]
      exact ih.escapeChar c

theorem parseString_printString {s : List Byte} (noNul : 0 ∉ s) (fuel : Nat)
    (enough : (printString s).length ≤ fuel + 1) (rest : List Byte) : parseString fuel (printString s ++ rest) = .done s rest := by
  have text : printString s ++ rest = 34 :: (s.flatMap escapeChar ++ 34 :: rest) := by
    rw [printString, cString_of_not_mem noNul]
    simp
  have length : (printString s).length = (s.flatMap escapeChar).length + 2 := by
    rw [printString, cString_of_not_mem noNul]
    simp
  rw [text, parseString, next_bind, if_pos rfl, bind_done (scans_escaped s rest fuel (by omega)), unescape_escaped]
  rfl

theorem isNumberChar_decimalText {n : Int} {c : Byte} (mem : c ∈ decimalText n) : isNumberChar c = true := by
  rw [decimalText] at mem
  split at mem
  · rcases List.mem_cons.mp mem with rfl | digit
    · decide
    · rw [isNumberChar, isDigit_toString digit]
      rfl
  · rw [isNumberChar, isDigit_toString mem]
    rfl

theorem decimalText_starts (n : Int) : ∃ c rest, decimalText n = c :: rest ∧ (c = 45 ∨ isDigit c = true) := by
  rw [decimalText]
  split
  · exact ⟨45, _, rfl, .inl rfl⟩
  · cases text : ascii (toString n.natAbs) with
    | nil =>
        have positive := length_ascii_toString n.natAbs
        rw [text] at positive
        exact absurd positive.symm (Nat.ne_of_gt Nat.length_toDigits_pos)
    | cons c rest => exact ⟨c, rest, rfl, .inr (isDigit_toString (by rw [text]; exact List.mem_cons_self))⟩

def ReadsDecimal (strtod : Strtod) : Prop :=
  ∀ v : BitVec 32, strtod (decimalText v.toInt) = some (v.toInt, (decimalText v.toInt).length)

theorem saturate_toInt (v : BitVec 32) : saturate v.toInt = v := by
  have low := BitVec.le_toInt v
  have high := BitVec.toInt_lt (x := v)
  rw [saturate, INT_MAX, INT_MIN]
  split
  · rename_i large
    rw [show (2147483647 : Int) = v.toInt by omega, BitVec.ofInt_toInt]
  split
  · rename_i small
    rw [show (-2147483648 : Int) = v.toInt by omega, BitVec.ofInt_toInt]
  · exact BitVec.ofInt_toInt

theorem parseNumber_decimalText (reads : ReadsDecimal strtod) (v : BitVec 32) {c : Byte}
    (stop : isNumberChar c = false) (rest : List Byte) :
    parseNumber strtod (decimalText v.toInt ++ c :: rest) = .done (.number v) (c :: rest) := by
  have low := BitVec.le_toInt v
  have high := BitVec.toInt_lt (x := v)
  have short : (decimalText v.toInt).length ≤ 63 :=
    (length_decimalText_le (k := 10) (by decide) (by omega)).trans (by decide)
  rw [parseNumber, bind_done (lookWhile_token rest (fun d mem => isNumberChar_decimalText mem) stop short), reads v]
  dsimp only
  have taken : Parser.advance (decimalText v.toInt).length (decimalText v.toInt ++ c :: rest) = .done () (c :: rest) := by
    rw [Parser.advance, if_pos (by simp), List.drop_left]
  rw [Nat.min_self, bind_done taken, saturate_toInt]
  rfl

mutual

def Printable (depth : Nat) : Json → Prop
  | .null | .bool _ | .number _ => True
  | .string valuestring => 0 ∉ valuestring
  | .array elements => depth < CJSON_NESTING_LIMIT ∧ PrintableElements (depth + 1) elements
  | .object members => depth < CJSON_NESTING_LIMIT ∧ PrintableMembers (depth + 1) members

def PrintableElements (depth : Nat) : List Json → Prop
  | [] => True
  | element :: rest => Printable depth element ∧ PrintableElements depth rest

def PrintableMembers (depth : Nat) : List (List Byte × Json) → Prop
  | [] => True
  | (name, value) :: rest => 0 ∉ name ∧ Printable depth value ∧ PrintableMembers depth rest

end

theorem printString_starts (s : List Byte) : ∃ rest, printString s = 34 :: rest := ⟨_, rfl⟩

theorem isSpace_digit {c : Byte} (digit : isDigit c = true) : isSpace c = false ∧ c ≠ 93 ∧ c.toNat < 128 := by
  rw [isDigit, Bool.and_eq_true, decide_eq_true_eq, decide_eq_true_eq] at digit
  refine ⟨decide_eq_false (by omega), fun same => ?_, by omega⟩
  rw [same] at digit
  exact absurd digit.2 (by decide)

theorem printValue_starts (j : Json) :
    ∃ c rest, printValue j.item = c :: rest ∧ isSpace c = false ∧ c ≠ 93 ∧ c.toNat < 128 := by
  cases j with
  | null => exact ⟨110, _, rfl, by decide⟩
  | bool value =>
      cases value with
      | false => exact ⟨102, _, rfl, by decide⟩
      | true => exact ⟨116, _, rfl, by decide⟩
  | number v =>
      obtain ⟨c, rest, text, sign | digit⟩ := decimalText_starts v.toInt
      · exact ⟨c, rest, text, by rw [sign]; decide⟩
      · exact ⟨c, rest, text, isSpace_digit digit⟩
  | string s => exact ⟨34, _, rfl, by decide⟩
  | array elements => exact ⟨91, _, rfl, by decide⟩
  | object members => exact ⟨123, _, rfl, by decide⟩

theorem printElements_starts (first : Json) (more : List Json) :
    ∃ c rest, printElements (itemElements (first :: more)) = c :: rest ∧ isSpace c = false ∧ c ≠ 93 := by
  obtain ⟨c, rest, text, visible, noEnd, _⟩ := printValue_starts first
  cases more with
  | nil => exact ⟨c, rest, text, visible, noEnd⟩
  | cons second more =>
      refine ⟨c, rest ++ [44] ++ printElements (itemElements (second :: more)), ?_, visible, noEnd⟩
      change printValue first.item ++ [44] ++ printElements (itemElements (second :: more)) = _
      rw [text]
      rfl

theorem printMembers_starts (first : List Byte × Json) (more : List (List Byte × Json)) :
    ∃ rest, printMembers (itemMembers (first :: more)) = 34 :: rest := by
  cases more with
  | nil => exact ⟨_, rfl⟩
  | cons second more => exact ⟨_, rfl⟩

def ValuesRead (strtod : Strtod) (n : Nat) : Prop :=
  ∀ depth j (c : Byte) rest, Printable depth j → isNumberChar c = false → (printValue j.item).length ≤ n →
    parseValue strtod depth n (printValue j.item ++ c :: rest) = .done j (c :: rest)

def ElementsRead (strtod : Strtod) (n : Nat) : Prop :=
  ∀ depth first more rest, PrintableElements depth (first :: more) →
    (printElements (itemElements (first :: more))).length < n →
    parseElements strtod depth n (printElements (itemElements (first :: more)) ++ 93 :: rest) =
      .done (first :: more) rest

def MembersRead (strtod : Strtod) (n : Nat) : Prop :=
  ∀ depth first more rest, PrintableMembers depth (first :: more) →
    (printMembers (itemMembers (first :: more))).length < n →
    parseMembers strtod depth n (printMembers (itemMembers (first :: more)) ++ 125 :: rest) =
      .done (first :: more) rest

variable {n : Nat}

theorem ElementsRead.array (elementsRead : ElementsRead strtod n) {depth : Nat} {first : Json} {more : List Json}
    (printable : Printable depth (.array (first :: more)))
    (enough : (printValue (Json.array (first :: more)).item).length ≤ n + 1) (c : Byte) (rest : List Byte) :
    parseValue strtod depth (n + 1) (printValue (Json.array (first :: more)).item ++ c :: rest) =
      .done (.array (first :: more)) (c :: rest) := by
  obtain ⟨d, tail, text, visible, noEnd⟩ := printElements_starts first more
  have begins : printElements (itemElements (first :: more)) ++ 93 :: c :: rest =
      d :: (tail ++ 93 :: c :: rest) := by rw [text]; rfl
  have whole : printValue (Json.array (first :: more)).item ++ c :: rest =
      91 :: (printElements (itemElements (first :: more)) ++ 93 :: c :: rest) := by
    simp [Json.item, printValue]
  have read := elementsRead (depth + 1) first more (c :: rest) printable.2 (by
    simp only [Json.item, printValue, List.length_append, List.length_singleton] at enough
    omega)
  rw [whole, parseValue, peek_bind, if_neg (by decide), if_neg (by decide), if_neg (by decide),
    if_neg (by decide), if_neg (by decide), if_pos rfl, if_neg (Nat.not_le.mpr printable.1), next_bind, begins,
    skip_bind visible, peek_bind, if_neg noEnd, ← begins, bind_done read]
  rfl

theorem MembersRead.object (membersRead : MembersRead strtod n) {depth : Nat} {first : List Byte × Json}
    {more : List (List Byte × Json)} (printable : Printable depth (.object (first :: more)))
    (enough : (printValue (Json.object (first :: more)).item).length ≤ n + 1) (c : Byte) (rest : List Byte) :
    parseValue strtod depth (n + 1) (printValue (Json.object (first :: more)).item ++ c :: rest) =
      .done (.object (first :: more)) (c :: rest) := by
  obtain ⟨tail, text⟩ := printMembers_starts first more
  have begins : printMembers (itemMembers (first :: more)) ++ 125 :: c :: rest =
      34 :: (tail ++ 125 :: c :: rest) := by rw [text]; rfl
  have whole : printValue (Json.object (first :: more)).item ++ c :: rest =
      123 :: (printMembers (itemMembers (first :: more)) ++ 125 :: c :: rest) := by
    simp [Json.item, printValue]
  have read := membersRead (depth + 1) first more (c :: rest) printable.2 (by
    simp only [Json.item, printValue, List.length_append, List.length_singleton] at enough
    omega)
  rw [whole, parseValue, peek_bind, if_neg (by decide), if_neg (by decide), if_neg (by decide),
    if_neg (by decide), if_neg (by decide), if_neg (by decide), if_pos rfl,
    if_neg (Nat.not_le.mpr printable.1), next_bind, begins, skip_bind (by decide), peek_bind,
    if_neg (by decide), ← begins, bind_done read]
  rfl

theorem ValuesRead.succ (reads : ReadsDecimal strtod) (elementsRead : ElementsRead strtod n)
    (membersRead : MembersRead strtod n) : ValuesRead strtod (n + 1) := by
  intro depth j c rest printable stop enough
  cases j with
  | null =>
      change parseValue strtod depth (n + 1) (110 :: (ascii "ull" ++ c :: rest)) = _
      rw [parseValue, peek_bind, if_pos rfl]
      exact bind_done (parseLiteral_append (ascii "null") (c :: rest)) _
  | bool value =>
      cases value with
      | false =>
          change parseValue strtod depth (n + 1) (102 :: (ascii "alse" ++ c :: rest)) = _
          rw [parseValue, peek_bind, if_neg (by decide), if_pos rfl]
          exact bind_done (parseLiteral_append (ascii "false") (c :: rest)) _
      | true =>
          change parseValue strtod depth (n + 1) (116 :: (ascii "rue" ++ c :: rest)) = _
          rw [parseValue, peek_bind, if_neg (by decide), if_neg (by decide), if_pos rfl]
          exact bind_done (parseLiteral_append (ascii "true") (c :: rest)) _
  | number v =>
      obtain ⟨d, tail, text, kind⟩ := decimalText_starts v.toInt
      have apart (e : Byte) (other : ¬ (e = 45 ∨ isDigit e = true)) : d ≠ e := fun same => other (same ▸ kind)
      have begins : decimalText v.toInt ++ c :: rest = d :: (tail ++ c :: rest) := by rw [text]; rfl
      change parseValue strtod depth (n + 1) (decimalText v.toInt ++ c :: rest) = _
      rw [parseValue, begins, peek_bind, if_neg (apart 110 (by decide)), if_neg (apart 102 (by decide)),
        if_neg (apart 116 (by decide)), if_neg (apart 34 (by decide)), if_pos kind, ← begins]
      exact parseNumber_decimalText reads v stop rest
  | string s =>
      have read := parseString_printString printable n enough (c :: rest)
      obtain ⟨tail, text⟩ := printString_starts s
      have begins : printString s ++ c :: rest = 34 :: (tail ++ c :: rest) := by rw [text]; rfl
      change parseValue strtod depth (n + 1) (printString s ++ c :: rest) = _
      rw [parseValue, begins, peek_bind, if_neg (by decide), if_neg (by decide), if_neg (by decide), if_pos rfl,
        ← begins, bind_done read]
      rfl
  | array elements =>
      cases elements with
      | nil =>
          change parseValue strtod depth (n + 1) (91 :: 93 :: c :: rest) = _
          rw [parseValue, peek_bind, if_neg (by decide), if_neg (by decide), if_neg (by decide), if_neg (by decide),
            if_neg (by decide), if_pos rfl, if_neg (Nat.not_le.mpr printable.1), next_bind, skip_bind (by decide),
            peek_bind, if_pos rfl]
          rfl
      | cons first more => exact elementsRead.array printable enough c rest
  | object members =>
      cases members with
      | nil =>
          change parseValue strtod depth (n + 1) (123 :: 125 :: c :: rest) = _
          rw [parseValue, peek_bind, if_neg (by decide), if_neg (by decide), if_neg (by decide), if_neg (by decide),
            if_neg (by decide), if_neg (by decide), if_pos rfl, if_neg (Nat.not_le.mpr printable.1), next_bind,
            skip_bind (by decide), peek_bind, if_pos rfl]
          rfl
      | cons first more => exact membersRead.object printable enough c rest

theorem ElementsRead.succ (valuesRead : ValuesRead strtod n) (elementsRead : ElementsRead strtod n) :
    ElementsRead strtod (n + 1) := by
  intro depth first more rest printable enough
  cases more with
  | nil =>
      have read := valuesRead depth first 93 rest printable.1 (by decide) (Nat.le_of_lt_succ enough)
      change parseElements strtod depth (n + 1) (printValue first.item ++ 93 :: rest) = _
      rw [parseElements, bind_done read, skip_bind (by decide), next_bind, if_neg (by decide), if_pos rfl]
      rfl
  | cons second more =>
      obtain ⟨d, tail, text, visible, _⟩ := printElements_starts second more
      have begins : printElements (itemElements (second :: more)) ++ 93 :: rest = d :: (tail ++ 93 :: rest) := by
        rw [text]; rfl
      have whole : printElements (itemElements (first :: second :: more)) =
          printValue first.item ++ 44 :: printElements (itemElements (second :: more)) := by
        rw [List.append_cons]
        rfl
      rw [whole, List.length_append, List.length_cons] at enough
      have read := valuesRead depth first 44 (printElements (itemElements (second :: more)) ++ 93 :: rest) printable.1
        (by decide) (by omega)
      have later := elementsRead depth second more rest printable.2 (by omega)
      rw [whole, List.append_assoc, List.cons_append, parseElements, bind_done read, skip_bind (by decide), next_bind,
        if_pos rfl, begins, skip_bind visible, ← begins, bind_done later]
      rfl

theorem MembersRead.succ (valuesRead : ValuesRead strtod n) (membersRead : MembersRead strtod n) :
    MembersRead strtod (n + 1) := by
  intro depth first more rest printable enough
  obtain ⟨name, value⟩ := first
  obtain ⟨d, tail, text, visible, _⟩ := printValue_starts value
  have begins (left : List Byte) : printValue value.item ++ left = d :: (tail ++ left) := by rw [text]; rfl
  cases more with
  | nil =>
      have whole : printMembers (itemMembers [(name, value)]) ++ 125 :: rest =
          printString name ++ 58 :: (printValue value.item ++ 125 :: rest) := by
        simp [itemMembers, printMembers]
      have size : (printMembers (itemMembers [(name, value)])).length =
          (printString name).length + 1 + (printValue value.item).length := by
        simp [itemMembers, printMembers]
        omega
      have named := parseString_printString printable.1 n (by omega)
        (58 :: (printValue value.item ++ 125 :: rest))
      have read := valuesRead depth value 125 rest printable.2.1 (by decide) (by omega)
      rw [whole, parseMembers, bind_done named, skip_bind (by decide), next_bind, if_pos rfl, begins, skip_bind visible,
        ← begins, bind_done read, skip_bind (by decide), next_bind, if_neg (by decide), if_pos rfl]
      rfl
  | cons second more =>
      obtain ⟨left, starts⟩ := printMembers_starts second more
      have goesOn : printMembers (itemMembers (second :: more)) ++ 125 :: rest = 34 :: (left ++ 125 :: rest) := by
        rw [starts]; rfl
      have whole : printMembers (itemMembers ((name, value) :: second :: more)) ++ 125 :: rest =
          printString name ++ 58 :: (printValue value.item ++
            44 :: (printMembers (itemMembers (second :: more)) ++ 125 :: rest)) := by
        simp [itemMembers, printMembers]
      have size : (printMembers (itemMembers ((name, value) :: second :: more))).length =
          (printString name).length + 1 + (printValue value.item).length + 1 +
            (printMembers (itemMembers (second :: more))).length := by
        simp [itemMembers, printMembers]
        omega
      have named := parseString_printString printable.1 n (by omega)
        (58 :: (printValue value.item ++ 44 :: (printMembers (itemMembers (second :: more)) ++ 125 :: rest)))
      have read := valuesRead depth value 44 (printMembers (itemMembers (second :: more)) ++ 125 :: rest)
        printable.2.1 (by decide) (by omega)
      have later := membersRead depth second more rest printable.2.2 (by omega)
      rw [whole, parseMembers, bind_done named, skip_bind (by decide), next_bind, if_pos rfl, begins, skip_bind visible,
        ← begins, bind_done read, skip_bind (by decide), next_bind, if_pos rfl, goesOn, skip_bind (by decide),
        ← goesOn, bind_done later]
      rfl

theorem all_read (reads : ReadsDecimal strtod) (n : Nat) :
    ValuesRead strtod n ∧ ElementsRead strtod n ∧ MembersRead strtod n := by
  induction n with
  | zero =>
      refine ⟨fun depth j c rest _ _ enough => ?_, nofun, nofun⟩
      obtain ⟨d, tail, text, _⟩ := printValue_starts j
      rw [text] at enough
      contradiction
  | succ n ih =>
      obtain ⟨values, elements, members⟩ := ih
      exact ⟨.succ reads elements members, .succ values elements, .succ values members⟩

/-- What was printed is read back whole, at any depth the parser goes to. -/
theorem printed_is_parsed (reads : ReadsDecimal strtod) {j : Json} (printable : Printable 0 j) :
    cJSONParse strtod (cJSONPrintUnformatted j.item) = some j := by
  have read := (all_read reads (textFuel (printValue j.item))).1 0 j 0 [] printable (by decide)
    (by rw [textFuel]; omega)
  obtain ⟨c, tail, text, visible, _, low⟩ := printValue_starts j
  have begins : printValue j.item ++ [0] = c :: (tail ++ [0]) := by rw [text]; rfl
  have unmarked : skipUtf8Bom (c :: (tail ++ [0])) = .done () (c :: (tail ++ [0])) := by
    have apart : c ≠ 0xEF := by
      rintro rfl
      exact absurd low (by decide)
    apply skipUtf8Bom_other
    · intro begun
      exact apart (List.cons_prefix_cons.mp begun).1
    · intro marked
      exact apart (List.cons_prefix_cons.mp marked).1.symm
  have parsed : parseText strtod (textFuel (printValue j.item)) (printValue j.item ++ [0]) = .done j [0] := by
    rw [parseText, begins, bind_done unmarked, skip_bind visible, ← begins]
    exact read
  rw [cJSONPrintUnformatted, cJSONParse, parsed]

theorem foldl_digits (digits : List Char) (decimal_ : ∀ d ∈ digits, d.isDigit = true) (start : Nat) :
    (digits.map fun d => BitVec.ofNat 8 d.toNat).foldl (fun (n : Int) c => 10 * n + (c.toNat - 48 : Int)) start =
      Nat.ofDigitChars 10 digits start := by
  induction digits generalizing start with
  | nil => rfl
  | cons d digits ih =>
      have range := decimal_ d List.mem_cons_self
      rw [Char.isDigit_iff_toNat, show '0'.toNat = 48 from rfl, show '9'.toNat = 57 from rfl] at range
      have value : (10 * (start : Int) + ((BitVec.ofNat 8 d.toNat).toNat - 48 : Int)) =
          ((10 * start + (d.toNat - '0'.toNat) : Nat) : Int) := by
        rw [BitVec.toNat_ofNat, show '0'.toNat = 48 from rfl]
        omega
      rw [List.map_cons, List.foldl_cons, value, ih fun e mem => decimal_ e (List.mem_cons_of_mem d mem),
        Nat.ofDigitChars_cons]

theorem decimal_toString (n : Nat) : decimal (ascii (toString n)) = some ((n : Int), (ascii (toString n)).length) := by
  have all : (ascii (toString n)).takeWhile isDigit = ascii (toString n) :=
    List.takeWhile_eq_self_iff.mpr fun c mem => isDigit_toString mem
  have nonempty : ascii (toString n) ≠ [] := by
    rw [ascii_toString]
    exact fun none_ => Nat.toDigits_ne_nil (List.map_eq_nil_iff.mp none_)
  unfold decimal
  rw [all, if_neg nonempty]
  have value := foldl_digits (Nat.toDigits 10 n)
    (fun d mem => Nat.isDigit_of_mem_toDigits (by decide) (by decide) mem) 0
  rw [Nat.ofDigitChars_ten_toDigits] at value
  rw [ascii_toString]
  exact congrArg (fun v : Int => some (v, _)) value

def signedDecimal : Strtod
  | 45#8 :: digits => (decimal digits).map fun read => (-read.1, read.2 + 1)
  | token => decimal token

theorem reads_signedDecimal : ReadsDecimal signedDecimal := by
  intro v
  rw [decimalText]
  split
  · rename_i negative
    change (decimal (ascii (toString v.toInt.natAbs))).map _ = _
    rw [decimal_toString, List.length_cons]
    change some (-(v.toInt.natAbs : Int), _) = _
    rw [show -(v.toInt.natAbs : Int) = v.toInt by omega]
  · rename_i notNegative
    cases text : ascii (toString v.toInt.natAbs) with
    | nil =>
        have nonempty := decimalText_starts v.toInt
        rw [decimalText, if_neg notNegative, text] at nonempty
        obtain ⟨_, _, none_, _⟩ := nonempty
        contradiction
    | cons c digits =>
        have digit : isDigit c = true := isDigit_toString (by rw [text]; exact List.mem_cons_self)
        have unsigned : signedDecimal (c :: digits) = decimal (c :: digits) := by
          rw [signedDecimal.eq_def]
          split
          · rename_i sign
            cases sign
            contradiction
          · rfl
        rw [unsigned, ← text, decimal_toString]
        rw [show (v.toInt.natAbs : Int) = v.toInt by omega]

def oddJson : Json := .object [(ascii "a\"\n", .array [.number (BitVec.intMin 32), .object [], .bool true]), ([1], .null)]

theorem printed_is_parsed_odd :
    cJSONPrintUnformatted oddJson.item = ascii "\x7b\"a\\\"\\n\":[-2147483648,\x7b\x7d,true],\"\\u0001\":null\x7d" ∧
      cJSONParse signedDecimal (cJSONPrintUnformatted oddJson.item) = some oddJson :=
  ⟨by decide, printed_is_parsed reads_signedDecimal (by
    simp [Printable, PrintableMembers, PrintableElements, oddJson]
    decide)⟩

end EspFirmware.Proof.App
