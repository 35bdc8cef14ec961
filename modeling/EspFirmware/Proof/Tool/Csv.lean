import EspFirmware.Proof.Tool.Binary
import EspFirmware.Proof.Tool.Text

/-!
The CSV form of a partition table: the rows of its entries, what is read back from them, and where
`from_csv` puts the entries.
-/

namespace EspFirmware.Proof.Tool
open EspFirmware.Tool EspFirmware.Spec EspFirmware.Lib
open PartitionDefinition (parseType parseSubtype parseAddress parseFlags addrFormat lookupKeyword alignment)

structure Reads (v : Text) (keywords : Keywords) (n : Int) : Prop where
  plain : Plain v
  filled : v ≠ []
  value : parseInt v keywords = .ok n

theorem showNat_ne_nil (base n : Nat) : showNat base n ≠ [] := by
  obtain ⟨d, ds, list, -⟩ := digitList_cons base n
  rw [showNat_eq, list]
  exact List.cons_ne_nil _ _

theorem reads_showDec (n : Int) (keywords : Keywords) : Reads (showDec n) keywords n := by
  refine ⟨showDec_plain n, ?_, parseInt_showDec n keywords⟩
  rw [showDec]
  split
  · exact List.cons_ne_nil _ _
  · exact showNat_ne_nil _ _

theorem reads_showHex {n : Int} (natural : 0 ≤ n) (keywords : Keywords) : Reads (showHex n) keywords n :=
  ⟨showHex_plain natural, List.cons_ne_nil _ _, parseInt_showHex natural keywords⟩

theorem reads_addrFormat (simpleFormatting : Bool) {a : Int} (natural : 0 ≤ a) (includeSizes : Bool) :
    Reads (addrFormat simpleFormatting a includeSizes) [] a := by
  have suffixed (n : Int) (letter : Char) (plain : Plain [letter])
      (value : parseInt (showDec n ++ [letter]) [] = .ok a) : Reads (showDec n ++ [letter]) [] a :=
    ⟨(showDec_plain n).append plain, by simp, value⟩
  unfold addrFormat
  split
  · split
    · rename_i mega
      refine suffixed _ _ (by decide) ?_
      rw [parseInt_mega, parseInt_showDec]
      exact congrArg Except.ok (Int.ediv_mul_cancel (Int.dvd_of_emod_eq_zero mega))
    · split
      · rename_i kilo
        refine suffixed _ _ (by decide) ?_
        rw [parseInt_kilo, parseInt_showDec]
        exact congrArg Except.ok (Int.ediv_mul_cancel (Int.dvd_of_emod_eq_zero kilo))
      · exact reads_showHex natural []
  · exact reads_showHex natural []

def Known (keywords : Keywords) : Prop :=
  ∀ kv ∈ keywords, Plain kv.1 ∧ kv.1 ≠ [] ∧ parseInt kv.1 keywords = .ok kv.2

theorem known_types : Known TYPES := by
  unfold Known
  decide

theorem known_subtypes (type : Int) : Known (SUBTYPES type) := by
  unfold SUBTYPES
  split
  · unfold Known
    decide
  · split
    · unfold Known
      decide
    · intro kv none
      cases none

theorem reads_lookupKeyword {keywords : Keywords} (known : Known keywords) (simpleFormatting : Bool) (t : Int) :
    Reads (lookupKeyword simpleFormatting t keywords) keywords t := by
  unfold lookupKeyword
  split
  · rename_i kv found
    have value := List.find?_some found
    simp only [decide_eq_true_eq] at value
    obtain ⟨plain, filled, number⟩ := known kv (List.mem_of_find?_eq_some found)
    rw [value.2]
    exact ⟨plain, filled, number⟩
  · exact reads_showDec t keywords

def flagField (encrypted : Bool) : Text := if encrypted then "encrypted".toList else []

theorem flagField_plain (encrypted : Bool) : Plain (flagField encrypted) := by
  cases encrypted <;> decide

theorem parseFlags_flagField (encrypted : Bool) :
    parseFlags ((flagField encrypted).splitOn ':') false = .ok encrypted := by
  cases encrypted <;> decide

structure Writable (p : PartitionDefinition) (type subtype offset size : Int) : Prop where
  name : CsvName p.name
  isType : p.type = some type
  isSubtype : p.subtype = some subtype
  isOffset : p.offset = some offset
  isSize : p.size = some size
  naturalOffset : 0 ≤ offset
  naturalSize : 0 ≤ size

def rowOf (name type subtype offset size flags : Text) : Text :=
  List.intercalate [','] [name, type, subtype, offset, size, flags]

theorem rowOf_eq (name type subtype offset size flags : Text) :
    rowOf name type subtype offset size flags =
      name ++ ',' :: (type ++ ',' :: (subtype ++ ',' :: (offset ++ ',' :: (size ++ ',' :: flags)))) := by
  simp [rowOf, List.intercalate, List.intersperse]

section
variable {name type subtype offset size flags : Text} (isName : CsvName name) (plainType : Plain type)
  (plainSubtype : Plain subtype) (plainOffset : Plain offset) (plainSize : Plain size) (plainFlags : Plain flags)
include isName plainType plainSubtype plainOffset plainSize plainFlags

theorem splitOn_row :
    ((rowOf name type subtype offset size flags ++ ",,,,".toList).splitOn ',').map strip =
      [name, type, subtype, offset, size, flags, [], [], [], []] := by
  have joined : rowOf name type subtype offset size flags ++ ",,,,".toList =
      List.intercalate [','] [name, type, subtype, offset, size, flags, [], [], [], []] := by
    simp [rowOf, List.intercalate, List.intersperse]
  have apart : ∀ field ∈ [name, type, subtype, offset, size, flags, [], [], [], []], ',' ∉ field := by
    have noComma {field : Text} (plain : Plain field) : ',' ∉ field := fun member => (plain _ member).2.1 rfl
    simp [isName.noComma, noComma plainType, noComma plainSubtype, noComma plainOffset, noComma plainSize,
      noComma plainFlags]
  have margin : NoMargin name := ⟨isName.first, isName.last⟩
  rw [joined, List.splitOn_intercalate ',' apart (List.cons_ne_nil _ _)]
  simp only [List.map_cons, List.map_nil, strip_eq_self margin, strip_eq_self plainType.noMargin,
    strip_eq_self plainSubtype.noMargin, strip_eq_self plainOffset.noMargin, strip_eq_self plainSize.noMargin,
    strip_eq_self plainFlags.noMargin]
  rfl

theorem row_chars : ∀ c ∈ rowOf name type subtype offset size flags,
    isLineBreak c = false ∧ c ≠ '#' ∧ c ≠ '$' := by
  have ofPlain {field : Text} (plain : Plain field) {c : Char} (member : c ∈ field) :
      isLineBreak c = false ∧ c ≠ '#' ∧ c ≠ '$' := by
    refine ⟨?_, (plain c member).2.2⟩
    cases line : isLineBreak c with
    | false => rfl
    | true => exact absurd (isBlank_of_isLineBreak line) (by simp [(plain c member).1])
  intro c member
  rw [rowOf_eq] at member
  simp only [List.mem_append, List.mem_cons] at member
  rcases member with inName | rfl | inType | rfl | inSubtype | rfl | inOffset | rfl | inSize | rfl | inFlags
  · exact ⟨isName.oneLine c inName, fun same => isName.noHash (same ▸ inName), fun same => isName.noDollar (same ▸ inName)⟩
  · decide
  · exact ofPlain plainType inType
  · decide
  · exact ofPlain plainSubtype inSubtype
  · decide
  · exact ofPlain plainOffset inOffset
  · decide
  · exact ofPlain plainSize inSize
  · decide
  · exact ofPlain plainFlags inFlags

end

theorem row_noMargin {name flags : Text} (isName : CsvName name) (plainFlags : Plain flags)
    (type subtype offset size : Text) : NoMargin (rowOf name type subtype offset size flags) := by
  constructor
  · intro c first
    rw [rowOf_eq] at first
    cases name with
    | nil =>
        cases first
        decide
    | cons d rest =>
        cases first
        exact isName.first _ rfl
  · intro c last
    rw [rowOf_eq] at last
    simp only [List.getLast?_append, List.getLast?_cons, Option.some_or, Option.some.injEq] at last
    rw [← last]
    cases end_ : flags.getLast? with
    | none => decide
    | some d => exact plainFlags.noMargin.2 d end_

structure Line (row : Text) : Prop where
  oneLine : ∀ c ∈ row, isLineBreak c = false
  noDollar : '$' ∉ row
  margin : NoMargin row

theorem expandVars_line {row : Text} (line : Line row) (cfg : Settings) : PartitionTable.expandVars cfg row = .ok row := by
  rw [PartitionTable.expandVars, cfg.noDollar row line.noDollar]
  split
  · exact absurd List.mem_cons_self line.noDollar
  · rfl

theorem row_line {p : PartitionDefinition} {type subtype offset size : Int}
    (writable : Writable p type subtype offset size) (simpleFormatting : Bool) :
    ∃ row, p.toCsv simpleFormatting = .ok row ∧ Line row ∧ row.head? ≠ some '#' ∧ row ≠ [] ∧
      PartitionDefinition.fromCsv row = .ok p := by
  have isType := reads_lookupKeyword known_types simpleFormatting type
  have isSubtype := reads_lookupKeyword (known_subtypes type) simpleFormatting subtype
  have isOffset := reads_addrFormat simpleFormatting writable.naturalOffset false
  have isSize := reads_addrFormat simpleFormatting writable.naturalSize true
  have flags := flagField_plain p.encrypted
  have chars := row_chars writable.name isType.plain isSubtype.plain isOffset.plain isSize.plain flags
  have split_ := splitOn_row writable.name isType.plain isSubtype.plain isOffset.plain isSize.plain flags
  refine ⟨_, ?_, ⟨fun c member => (chars c member).1, fun member => (chars _ member).2.2 rfl,
    row_noMargin writable.name flags _ _ _ _⟩, fun first => (chars _ (List.mem_of_mem_head? first)).2.1 rfl, ?_, ?_⟩
  · rw [PartitionDefinition.toCsv, writable.isType, writable.isSubtype, writable.isOffset, writable.isSize]
    rfl
  · rw [rowOf_eq]
    simp
  · unfold PartitionDefinition.fromCsv
    rw [split_]
    simp only [List.getD_cons_zero, List.getD_cons_succ, parseType, parseSubtype, parseAddress, if_neg isType.filled,
      if_neg isSubtype.filled, if_neg isOffset.filled, if_neg isSize.filled, isType.value, isOffset.value, isSize.value]
    have subtype := isSubtype.value
    have flagged := parseFlags_flagField p.encrypted
    change (do
      let subtype ← parseInt _ (SUBTYPES type)
      let encrypted ← parseFlags _ false
      return (⟨p.name, some type, some subtype, some offset, some size, encrypted⟩ : PartitionDefinition)) = .ok p
    rw [subtype, flagged]
    obtain ⟨_, _, _, _, _, _⟩ := p
    cases writable.isType
    cases writable.isSubtype
    cases writable.isOffset
    cases writable.isSize
    rfl

section
variable (cfg : Settings)

theorem parseLines_comment {row : Text} (line : Line row) (comment : row.head? = some '#') (rest : List Text)
    (lineNo : Nat) :
    PartitionTable.parseLines cfg (row :: rest) lineNo = PartitionTable.parseLines cfg rest (lineNo + 1) := by
  rw [PartitionTable.parseLines, expandVars_line line]
  change (if (strip row).head? = some '#' ∨ strip row = [] then _ else _) = _
  rw [strip_eq_self line.margin, if_pos (.inl comment)]

theorem parseLines_row {row : Text} (line : Line row) (noComment : row.head? ≠ some '#') (filled : row ≠ [])
    {p : PartitionDefinition} (read : PartitionDefinition.fromCsv row = .ok p) {rest : List Text} {lineNo : Nat}
    {table : PartitionTable} (others : PartitionTable.parseLines cfg rest (lineNo + 1) = .ok table) :
    PartitionTable.parseLines cfg (row :: rest) lineNo = .ok (p :: table) := by
  rw [PartitionTable.parseLines, expandVars_line line]
  change (if (strip row).head? = some '#' ∨ strip row = [] then _ else _) = _
  rw [strip_eq_self line.margin, if_neg (by simp [noComment, filled]), read, others]
  rfl

def RowsOf (simpleFormatting : Bool) (table : PartitionTable) (rows : List Text) : Prop :=
  List.Forall₂ (fun p row => PartitionDefinition.toCsv simpleFormatting p = .ok row ∧ Line row ∧
    row.head? ≠ some '#' ∧ row ≠ [] ∧ PartitionDefinition.fromCsv row = .ok p) table rows

theorem parseLines_rows {simpleFormatting : Bool} {table : PartitionTable} {rows : List Text}
    (written : RowsOf simpleFormatting table rows) (lineNo : Nat) :
    PartitionTable.parseLines cfg rows lineNo = .ok table := by
  induction written generalizing lineNo with
  | nil => rfl
  | cons first others ih =>
      obtain ⟨-, line, noComment, filled, read⟩ := first
      exact parseLines_row cfg line noComment filled read (ih (lineNo + 1))

end

theorem intercalate_concat {α : Type} (x : α) {ls : List (List α)} (filled : ls ≠ []) :
    List.intercalate [x] ls ++ [x] = ls.flatMap fun l => l ++ [x] := by
  induction ls with
  | nil => exact absurd rfl filled
  | cons l ls ih =>
      cases ls with
      | nil => simp [List.intercalate]
      | cons l' ls =>
          rw [List.flatMap_cons, ← ih (List.cons_ne_nil _ _)]
          simp [List.intercalate, List.intersperse]

theorem rowsOf_line {simpleFormatting : Bool} {table : PartitionTable} {rows : List Text}
    (written : RowsOf simpleFormatting table rows) : ∀ row ∈ rows, Line row := by
  induction written with
  | nil =>
      intro row none
      cases none
  | cons first others ih =>
      intro row member
      cases member with
      | head => exact first.2.1
      | tail _ member => exact ih row member

theorem parseLines_toCsv (cfg : Settings) {simpleFormatting : Bool} {table : PartitionTable} {rows : List Text}
    (written : RowsOf simpleFormatting table rows) :
    ∃ text, PartitionTable.toCsv simpleFormatting table = .ok text ∧
      PartitionTable.parseLines cfg (splitLines text) 0 = .ok table := by
  have made : table.mapM (PartitionDefinition.toCsv simpleFormatting) = .ok rows :=
    mapM_eq_ok.mpr (written.imp fun _ _ row => row.1)
  have title : Line "# Espressif ESP32 Partition Table".toList :=
    ⟨oneLine_of_all (by decide), by decide, fun c first => by cases first; decide, fun c last => by cases last; decide⟩
  have columns : Line "# Name, Type, SubType, Offset, Size, Flags".toList :=
    ⟨oneLine_of_all (by decide), by decide, fun c first => by cases first; decide, fun c last => by cases last; decide⟩
  refine ⟨_, by rw [PartitionTable.toCsv, made]; rfl, ?_⟩
  rw [intercalate_concat _ (List.cons_ne_nil _ _), splitLines_rows, parseLines_comment cfg title rfl,
    parseLines_comment cfg columns rfl, parseLines_rows cfg written]
  simp only [List.forall_mem_cons]
  exact ⟨title.oneLine, columns.oneLine, fun row member => (rowsOf_line written row member).oneLine⟩

def InPlace : (lastEnd : Int) → List (Int × Int) → Prop
  | _, [] => True
  | lastEnd, (offset, size) :: rest => lastEnd ≤ offset ∧ InPlace (offset + size) rest

theorem inPlace_above {lastEnd : Int} {spans : List (Int × Int)} (natural : ∀ x ∈ spans, 0 ≤ x.2)
    (placed : InPlace lastEnd spans) : ∀ x ∈ spans, lastEnd ≤ x.1 := by
  induction spans generalizing lastEnd with
  | nil =>
      intro x none
      cases none
  | cons span spans ih =>
      intro x member
      have size := natural span List.mem_cons_self
      cases member with
      | head => exact placed.1
      | tail _ member =>
          have later := ih (fun x member => natural x (List.mem_cons_of_mem _ member)) placed.2 x member
          have first := placed.1
          omega

theorem inPlace_sorted {lastEnd : Int} {spans : List (Int × Int)} (natural : ∀ x ∈ spans, 0 ≤ x.2)
    (placed : InPlace lastEnd spans) : spans.Pairwise fun x y => x.1 ≤ y.1 := by
  induction spans generalizing lastEnd with
  | nil => exact .nil
  | cons span spans ih =>
      have others : ∀ x ∈ spans, 0 ≤ x.2 := fun x member => natural x (List.mem_cons_of_mem _ member)
      refine .cons ?_ (ih others placed.2)
      intro y member
      have size := natural span List.mem_cons_self
      have above := inPlace_above others placed.2 y member
      omega

section
variable {cfg : Settings}

theorem checkPlaces_above {last : Option (Int × Int)} {spans : List (Int × Int)}
    (checked : PartitionTable.checkPlaces cfg last spans = .ok ()) :
    ∀ x ∈ spans, cfg.offsetPartTable + PARTITION_TABLE_SIZE ≤ x.1 := by
  induction spans generalizing last with
  | nil =>
      intro x none
      cases none
  | cons span spans ih =>
      rw [PartitionTable.checkPlaces.eq_def] at checked
      simp only at checked
      split at checked
      · cases checked
      · rename_i above
        have rest : PartitionTable.checkPlaces cfg (some span) spans = .ok () := by
          split at checked
          · split at checked
            · cases checked
            · exact checked
          · exact checked
        intro x member
        cases member with
        | head => exact Int.not_lt.mp above
        | tail _ member => exact ih rest x member

theorem checkPlaces_inPlace {last : Int × Int} {spans : List (Int × Int)}
    (checked : PartitionTable.checkPlaces cfg (some last) spans = .ok ()) : InPlace (last.1 + last.2) spans := by
  induction spans generalizing last with
  | nil => trivial
  | cons span spans ih =>
      rw [PartitionTable.checkPlaces.eq_def] at checked
      simp only at checked
      split at checked
      · cases checked
      · split at checked
        · cases checked
        · rename_i apart
          exact ⟨Int.not_lt.mp apart, ih checked⟩

theorem checkPlaces_first {spans : List (Int × Int)}
    (checked : PartitionTable.checkPlaces cfg none spans = .ok ()) :
    InPlace (cfg.offsetPartTable + PARTITION_TABLE_SIZE) spans := by
  cases spans with
  | nil => trivial
  | cons span spans =>
      refine ⟨checkPlaces_above checked span List.mem_cons_self, ?_⟩
      rw [PartitionTable.checkPlaces.eq_def] at checked
      simp only at checked
      split at checked
      · cases checked
      · exact checkPlaces_inPlace checked

section
variable {e : PartitionDefinition} {offset size lastEnd : Int} (isOffset : e.offset = some offset)
  (isSize : e.size = some size)
include isOffset isSize

theorem place_keeps (natural : 0 ≤ size) (after : lastEnd ≤ offset) :
    PartitionTable.place cfg lastEnd e = .ok (e, offset + size) := by
  obtain ⟨_, _, _, _, _, _⟩ := e
  cases isOffset
  cases isSize
  unfold PartitionTable.place
  simp only
  rw [if_neg (fun both : _ ∧ _ => by omega), if_neg (show ¬ size < 0 by omega)]

theorem place_moves (table : cfg.offsetPartTable ≠ 0) (before : offset < lastEnd) :
    ∃ e' end_, PartitionTable.place cfg lastEnd e = .ok (e', end_) ∧ e' ≠ e := by
  unfold PartitionTable.place
  rw [isOffset, isSize]
  simp only
  rw [if_pos ⟨table, before⟩]
  refine ⟨_, _, rfl, ?_⟩
  intro same
  have places := congrArg PartitionDefinition.offset same
  simp only [isOffset, Option.some.injEq] at places
  split at places
  · rename_i pad
    split at places
    · omega
    · omega
  · omega

end

theorem fixUp_iff (offset : cfg.offsetPartTable ≠ 0) {table : PartitionTable}
    (placed : ∀ p ∈ table, p.offset.isSome ∧ ∃ size, p.size = some size ∧ 0 ≤ size) (lastEnd : Int) :
    PartitionTable.fixUp cfg lastEnd table = .ok table ↔ InPlace lastEnd (table.map PartitionTable.span) := by
  induction table generalizing lastEnd with
  | nil => simp [PartitionTable.fixUp, InPlace]
  | cons e table ih =>
      obtain ⟨hasOffset, size, isSize, natural⟩ := placed e List.mem_cons_self
      obtain ⟨start, isOffset⟩ := Option.isSome_iff_exists.mp hasOffset
      have span : PartitionTable.span e = (start, size) := by
        rw [PartitionTable.span, isOffset, isSize]
        rfl
      have others := ih fun p member => placed p (List.mem_cons_of_mem _ member)
      rw [List.map_cons, span, InPlace, PartitionTable.fixUp, bind_eq_ok]
      constructor
      · rintro ⟨⟨e', end_⟩, here, rest⟩
        obtain ⟨more, fixed, done⟩ := bind_eq_ok.mp rest
        cases done
        rcases Int.lt_or_le start lastEnd with before | after
        · obtain ⟨moved, movedEnd, there, differs⟩ := place_moves isOffset isSize offset before
          rw [there] at here
          cases here
          exact absurd rfl differs
        · rw [place_keeps isOffset isSize natural after] at here
          cases here
          exact ⟨after, (others _).mp fixed⟩
      · rintro ⟨after, rest⟩
        refine ⟨_, place_keeps isOffset isSize natural after, ?_⟩
        simp only [(others _).mpr rest]
        rfl

end

theorem verify_fields {cfg : Settings} {p : PartitionDefinition} (verified : p.verify cfg = .ok ()) :
    ∃ type subtype offset size, p.type = some type ∧ p.subtype = some subtype ∧ p.offset = some offset ∧
      p.size = some size := by
  unfold PartitionDefinition.verify at verified
  split at verified
  · cases verified
  · cases verified
  · cases verified
  · rename_i type subtype offset isType isSubtype isOffset
    simp only at verified
    split at verified
    · cases verified
    · cases isSize : p.size with
      | none =>
          rw [isSize] at verified
          cases verified
      | some size => exact ⟨type, subtype, offset, size, isType, isSubtype, isOffset, rfl⟩

theorem table_verify_ok {cfg : Settings} {table : PartitionTable} (verified : PartitionTable.verify cfg table = .ok ()) :
    (∀ p ∈ table, p.verify cfg = .ok ()) ∧
      PartitionTable.checkPlaces cfg none ((table.map PartitionTable.span).mergeSort fun a b => a.1 ≤ b.1) = .ok () := by
  obtain ⟨_, each, places⟩ := bind_eq_ok.mp verified
  exact ⟨forM_eq_ok.mp each, places⟩

theorem rowsOf_exists {table : PartitionTable}
    (writable : ∀ p ∈ table, ∃ type subtype offset size, Writable p type subtype offset size) (simpleFormatting : Bool) :
    ∃ rows, RowsOf simpleFormatting table rows := by
  induction table with
  | nil => exact ⟨[], .nil⟩
  | cons p table ih =>
      obtain ⟨type, subtype, offset, size, entry⟩ := writable p List.mem_cons_self
      obtain ⟨row, written⟩ := row_line entry simpleFormatting
      obtain ⟨rows, others⟩ := ih fun p member => writable p (List.mem_cons_of_mem _ member)
      exact ⟨row :: rows, .cons written others⟩

section
variable {cfg : Settings} {table : PartitionTable} (verified : PartitionTable.verify cfg table = .ok ())
  (sizes : NaturalSizes table)
include verified

theorem offset_above {p : PartitionDefinition} (member : p ∈ table) {offset : Int} (isOffset : p.offset = some offset) :
    cfg.offsetPartTable + PARTITION_TABLE_SIZE ≤ offset := by
  have above := checkPlaces_above (table_verify_ok verified).2 (PartitionTable.span p)
    (List.mem_mergeSort.mpr (List.mem_map_of_mem member))
  rw [PartitionTable.span, isOffset] at above
  exact above

theorem sorted_iff : (table.map PartitionTable.span).Pairwise (fun x y => x.1 ≤ y.1) ↔ Ascending table := by
  rw [List.pairwise_map, Ascending]
  apply List.Pairwise.iff_of_mem
  intro p q inside inside'
  obtain ⟨-, -, offset, -, -, -, isOffset, -⟩ := verify_fields ((table_verify_ok verified).1 p inside)
  obtain ⟨-, -, offset', -, -, -, isOffset', -⟩ := verify_fields ((table_verify_ok verified).1 q inside')
  simp [PartitionTable.span, isOffset, isOffset']

include sizes

theorem spans_natural : ∀ x ∈ table.map PartitionTable.span, 0 ≤ x.2 := by
  intro x member
  obtain ⟨p, inside, rfl⟩ := List.mem_map.mp member
  obtain ⟨-, -, -, size, -, -, -, isSize⟩ := verify_fields ((table_verify_ok verified).1 p inside)
  have natural := sizes p inside size isSize
  rw [PartitionTable.span, isSize]
  exact natural

theorem inPlace_iff :
    InPlace (cfg.offsetPartTable + PARTITION_TABLE_SIZE) (table.map PartitionTable.span) ↔ Ascending table := by
  rw [← sorted_iff verified]
  constructor
  · exact inPlace_sorted (spans_natural verified sizes)
  · intro sorted
    have places := (table_verify_ok verified).2
    rw [List.mergeSort_of_pairwise (sorted.imp fun le => decide_eq_true le)] at places
    exact checkPlaces_first places

end

def nvsEntry : PartitionDefinition := entryNamed "nvs".toList

def factoryEntry : PartitionDefinition := ⟨"factory".toList, some 0, some 0, some 0x10000, some 0x100000, false⟩

def negativeEntry : PartitionDefinition := ⟨"log".toList, some 1, some 2, some 0x9000, some (-0x400), false⟩

theorem csvName_nvs : CsvName "nvs".toList :=
  ⟨by decide, by decide, by decide, oneLine_of_all (by decide), fun c first => by cases first; decide,
    fun c last => by cases last; decide⟩

theorem csvName_factory : CsvName "factory".toList :=
  ⟨by decide, by decide, by decide, oneLine_of_all (by decide), fun c first => by cases first; decide,
    fun c last => by cases last; decide⟩

theorem csvName_log : CsvName "log".toList :=
  ⟨by decide, by decide, by decide, oneLine_of_all (by decide), fun c first => by cases first; decide,
    fun c last => by cases last; decide⟩

theorem not_csvSurvives {cfg : Settings} {simpleFormatting : Bool} {table : PartitionTable}
    (lost : (PartitionTable.toCsv simpleFormatting table >>= PartitionTable.fromCsv cfg) ≠ .ok table) :
    ¬ CsvSurvives cfg simpleFormatting table := by
  rintro ⟨text, made, survived, -⟩
  exact lost (bind_eq_ok.mpr ⟨text, made, survived⟩)

end EspFirmware.Proof.Tool
