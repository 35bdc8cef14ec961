import Mathlib.Data.Nat.Digits.Lemmas
import EspFirmware.Nvs.Types

/-!
The Python strings and numbers `gen_esp32part.py` works with: lines, blanks, decimal and hexadecimal
numbers and `int(v, 0)`.
-/

namespace EspFirmware.Tool

abbrev Text := List Char

def isBlank (c : Char) : Bool :=
  decide (9 ≤ c.toNat ∧ c.toNat ≤ 13 ∨ 28 ≤ c.toNat ∧ c.toNat ≤ 32 ∨ c.toNat = 0x85 ∨ c.toNat = 0xA0 ∨
    c.toNat = 0x1680 ∨ 0x2000 ≤ c.toNat ∧ c.toNat ≤ 0x200A ∨ c.toNat = 0x2028 ∨ c.toNat = 0x2029 ∨
    c.toNat = 0x202F ∨ c.toNat = 0x205F ∨ c.toNat = 0x3000)

def isLineBreak (c : Char) : Bool :=
  decide (10 ≤ c.toNat ∧ c.toNat ≤ 13 ∨ 28 ≤ c.toNat ∧ c.toNat ≤ 30 ∨ c.toNat = 0x85 ∨ c.toNat = 0x2028 ∨
    c.toNat = 0x2029)

def strip (s : Text) : Text := ((s.dropWhile isBlank).reverse.dropWhile isBlank).reverse

def splitLinesFrom (line : Text) : Text → List Text
  | [] => if line = [] then [] else [line.reverse]
  | c :: rest =>
      if c = '\r' ∧ rest.head? = some '\n' then
        match rest with
        | [] => [line.reverse]
        | _ :: more => line.reverse :: splitLinesFrom [] more
      else if isLineBreak c then line.reverse :: splitLinesFrom [] rest
      else splitLinesFrom (c :: line) rest

def splitLines (s : Text) : List Text := splitLinesFrom [] s

def showNat (base n : Nat) : Text := if n = 0 then ['0'] else ((Nat.digits base n).map Nat.digitChar).reverse

def showDec (n : Int) : Text := if n < 0 then '-' :: showNat 10 n.natAbs else showNat 10 n.natAbs

def showHex (n : Int) : Text :=
  '0' :: 'x' :: (if n < 0 then '-' :: showNat 16 n.natAbs else showNat 16 n.natAbs)

def digitValue (base : Nat) (c : Char) : Option Nat :=
  let value :=
    if '0' ≤ c ∧ c ≤ '9' then c.toNat - '0'.toNat
    else if 'a' ≤ c ∧ c ≤ 'f' then c.toNat - 'a'.toNat + 10
    else if 'A' ≤ c ∧ c ≤ 'F' then c.toNat - 'A'.toNat + 10
    else base
  if value < base then some value else none

def digitsFrom (base : Nat) (value : Nat) : Text → Option Nat
  | [] => some value
  | c :: rest =>
      if c = '_' then
        match rest with
        | [] => none
        | d :: more => (digitValue base d).bind fun v => digitsFrom base (value * base + v) more
      else (digitValue base c).bind fun v => digitsFrom base (value * base + v) rest

def digits (base : Nat) : Text → Option Nat
  | [] => none
  | c :: rest => (digitValue base c).bind fun v => digitsFrom base v rest

def prefixed (base : Nat) : Text → Option Nat
  | '_' :: rest => digits base rest
  | s => digits base s

def unsigned : Text → Option Nat
  | '0' :: 'x' :: rest => prefixed 16 rest
  | '0' :: 'X' :: rest => prefixed 16 rest
  | '0' :: 'o' :: rest => prefixed 8 rest
  | '0' :: 'O' :: rest => prefixed 8 rest
  | '0' :: 'b' :: rest => prefixed 2 rest
  | '0' :: 'B' :: rest => prefixed 2 rest
  | '0' :: rest => (digits 10 ('0' :: rest)).filter (· = 0)
  | s => digits 10 s

/-- `int(v, 0)`, `none` where it raises a `ValueError`. -/
def parseInt0 (v : Text) : Option Int :=
  match strip v with
  | '-' :: rest => (unsigned rest).map fun n : Nat => -(n : Int)
  | '+' :: rest => (unsigned rest).map fun n : Nat => (n : Int)
  | s => (unsigned s).map fun n : Nat => (n : Int)

def lower (v : Text) : Text := v.map Char.toLower

end EspFirmware.Tool

/-!
`gen_esp32part.py`: partition tables as the tool holds them, and their CSV and binary forms.
-/

namespace EspFirmware.Tool
open Nvs (Byte Word wordBytes wordOf)

/-- The exceptions of the tool; `structError`, `typeError` and `unicodeError` are those of Python itself. -/
inductive InputError where
  | atLine (lineNo : Nat) (e : InputError)
  | unknownVariable (name : Text)
  | typeEmpty
  | sizeEmpty
  | unknownFlag (flag : Text)
  | invalidValue (v : Text)
  | unknownKeyword (v : Text)
  | notSet (name : Text) (field : String)
  | offsetAlignment (name : Text) (offset align : Int)
  | sizeAlignment (name : Text) (size align : Int)
  | offsetBelow (offset limit : Int)
  | overlap (offset lastOffset lastEnd : Int)
  | tableLength
  | definitionLength (length : Nat)
  | badMagic (magic : List Byte)
  | md5Mismatch (computed parsed : List Byte)
  | missingEnd
  | tooLong (length : Nat)
  | flashSize (tableSize size : Int)
  | structError
  | typeError
  | unicodeError
  deriving DecidableEq, Repr

/-- The module's settings, and what it takes from Python: MD5, and the expansion of variables in a text,
which leaves a text without a dollar sign as it is. -/
structure Settings where
  md5sum : Bool
  secure : Bool
  offsetPartTable : Int
  md5 : List Byte → List Byte
  digest : ∀ b, (md5 b).length = 16
  expandvars : Text → Text
  noDollar : ∀ s, '$' ∉ s → expandvars s = s

abbrev MAX_PARTITION_LENGTH : Nat := 0xC00
abbrev PARTITION_TABLE_SIZE : Int := 0x1000
def MD5_PARTITION_BEGIN : List Byte := [0xEB, 0xEB] ++ List.replicate 14 0xFF
def MAGIC_BYTES : List Byte := [0xAA, 0x50]

abbrev APP_TYPE : Int := 0x00
abbrev DATA_TYPE : Int := 0x01

abbrev Keywords := List (Text × Int)

def TYPES : Keywords := [("app".toList, APP_TYPE), ("data".toList, DATA_TYPE)]

def APP_SUBTYPES : Keywords :=
  [("factory".toList, 0x00), ("test".toList, 0x20)] ++
    (List.range 16).map fun slot => ("ota_".toList ++ showNat 10 slot, 0x10 + (slot : Int))

def DATA_SUBTYPES : Keywords :=
  [("ota".toList, 0x00), ("phy".toList, 0x01), ("nvs".toList, 0x02), ("coredump".toList, 0x03),
    ("nvs_keys".toList, 0x04), ("esphttpd".toList, 0x80), ("fat".toList, 0x81), ("spiffs".toList, 0x82)]

def SUBTYPES (type : Int) : Keywords :=
  if type = APP_TYPE then APP_SUBTYPES else if type = DATA_TYPE then DATA_SUBTYPES else []

structure PartitionDefinition where
  name : Text
  type : Option Int
  subtype : Option Int
  offset : Option Int
  size : Option Int
  encrypted : Bool
  deriving DecidableEq, Repr

abbrev PartitionTable := List PartitionDefinition

def parseIntRev (keywords : Keywords) : Text → Except InputError Int
  | [] => if keywords = [] then .error (.invalidValue []) else
      match keywords.lookup [] with
      | some value => .ok value
      | none => .error (.unknownKeyword [])
  | c :: rest =>
      if c.toLower = 'k' then (parseIntRev keywords rest).map (· * 1024)
      else if c.toLower = 'm' then (parseIntRev keywords rest).map (· * (1024 * 1024))
      else
        let v := (c :: rest).reverse
        match parseInt0 v with
        | some value => .ok value
        | none =>
            if keywords = [] then .error (.invalidValue v)
            else match keywords.lookup (lower v) with
              | some value => .ok value
              | none => .error (.unknownKeyword v)

def parseInt (v : Text) (keywords : Keywords) : Except InputError Int := parseIntRev keywords v.reverse

namespace PartitionDefinition

def parseType (strval : Text) : Except InputError Int :=
  if strval = [] then .error .typeEmpty else parseInt strval TYPES

def parseSubtype (type : Int) (strval : Text) : Except InputError Int :=
  if strval = [] then .ok 0 else parseInt strval (SUBTYPES type)

def parseAddress (strval : Text) : Except InputError (Option Int) :=
  if strval = [] then .ok none else (parseInt strval []).map some

def parseFlags : List Text → Bool → Except InputError Bool
  | [], encrypted => .ok encrypted
  | flag :: rest, encrypted =>
      if flag = "encrypted".toList then parseFlags rest true
      else if flag ≠ [] then .error (.unknownFlag flag)
      else parseFlags rest encrypted

def fromCsv (line : Text) : Except InputError PartitionDefinition := do
  let fields := ((line ++ ",,,,".toList).splitOn ',').map strip
  let type ← parseType (fields.getD 1 [])
  let subtype ← parseSubtype type (fields.getD 2 [])
  let offset ← parseAddress (fields.getD 3 [])
  let size ← parseAddress (fields.getD 4 [])
  if size = none then throw .sizeEmpty
  let encrypted ← parseFlags ((fields.getD 5 []).splitOn ':') false
  return ⟨fields.getD 0 [], some type, some subtype, offset, size, encrypted⟩

def alignment (type : Int) : Int := if type = APP_TYPE then 0x1000 else 4

def verify (cfg : Settings) (p : PartitionDefinition) : Except InputError Unit :=
  match p.type, p.subtype, p.offset with
  | none, _, _ => .error (.notSet p.name "Type")
  | _, none, _ => .error (.notSet p.name "Subtype")
  | _, _, none => .error (.notSet p.name "Offset")
  | some type, some _, some offset =>
      let align := alignment type
      if offset % align ≠ 0 then .error (.offsetAlignment p.name offset align)
      else match p.size with
        | none => .error .typeError
        | some size =>
            if size % align ≠ 0 ∧ cfg.secure then .error (.sizeAlignment p.name size align) else .ok ()

/-- `struct.pack` of an unsigned number of `width` bits. -/
def packUnsigned (width : Nat) (n : Option Int) : Except InputError (BitVec width) :=
  match n with
  | none => .error .structError
  | some n => if 0 ≤ n ∧ n < 2 ^ width then .ok (BitVec.ofInt width n) else .error .structError

def encode (s : Text) : List Byte := (s.flatMap String.utf8EncodeChar).map UInt8.toBitVec

def decode (b : List Byte) : Except InputError Text :=
  match ByteArray.utf8Decode? ⟨(b.map UInt8.ofBitVec).toArray⟩ with
  | some s => .ok s.toList
  | none => .error .unicodeError

def packName (b : List Byte) : List Byte := b.take 16 ++ List.replicate (16 - b.length) 0

def toBinary (p : PartitionDefinition) : Except InputError (List Byte) := do
  let type ← packUnsigned 8 p.type
  let subtype ← packUnsigned 8 p.subtype
  let offset ← packUnsigned 32 p.offset
  let size ← packUnsigned 32 p.size
  let flags : Word := if p.encrypted then 1 else 0
  return MAGIC_BYTES ++ [type, subtype] ++ wordBytes offset ++ wordBytes size ++ packName (encode p.name) ++
    wordBytes flags

def byteAt (b : List Byte) (i : Nat) : Byte := b.getD i 0

def wordAt (b : List Byte) (i : Nat) : Word :=
  wordOf (byteAt b i) (byteAt b (i + 1)) (byteAt b (i + 2)) (byteAt b (i + 3))

def fromBinary (b : List Byte) : Except InputError PartitionDefinition :=
  if b.length ≠ 32 then .error (.definitionLength b.length)
  else do
    let name ← decode (((b.drop 12).take 16).takeWhile (· ≠ 0))
    if b.take 2 ≠ MAGIC_BYTES then throw (.badMagic (b.take 2))
    return ⟨name, some (byteAt b 2).toNat, some (byteAt b 3).toNat, some (wordAt b 4).toNat, some (wordAt b 8).toNat,
      (wordAt b 28).getLsbD 0⟩

def addrFormat (simpleFormatting : Bool) (a : Int) (includeSizes : Bool) : Text :=
  if simpleFormatting = false ∧ includeSizes then
    if a % 0x100000 = 0 then showDec (a / 0x100000) ++ ['M']
    else if a % 0x400 = 0 then showDec (a / 0x400) ++ ['K']
    else showHex a
  else showHex a

def lookupKeyword (simpleFormatting : Bool) (t : Int) (keywords : Keywords) : Text :=
  match keywords.find? fun kv => simpleFormatting = false ∧ t = kv.2 with
  | some kv => kv.1
  | none => showDec t

/-- `to_csv`, where a number that is not set raises a `TypeError`. -/
def toCsv (simpleFormatting : Bool) (p : PartitionDefinition) : Except InputError Text :=
  match p.type, p.subtype, p.offset, p.size with
  | some type, some subtype, some offset, some size =>
      .ok (List.intercalate [','] [p.name, lookupKeyword simpleFormatting type TYPES,
        lookupKeyword simpleFormatting subtype (SUBTYPES type), addrFormat simpleFormatting offset false,
        addrFormat simpleFormatting size true, if p.encrypted then "encrypted".toList else []])
  | _, _, _, _ => .error .typeError

end PartitionDefinition

namespace PartitionTable

def expandVars (cfg : Settings) (f : Text) : Except InputError Text :=
  match cfg.expandvars f with
  | '$' :: c :: rest =>
      if c.isAlpha ∨ c = '_' then .error (.unknownVariable (c :: rest.takeWhile fun d => d.isAlphanum || d = '_'))
      else .ok ('$' :: c :: rest)
  | s => .ok s

def parseLines (cfg : Settings) : List Text → (lineNo : Nat) → Except InputError PartitionTable
  | [], _ => .ok []
  | line :: rest, lineNo => do
      let line := strip (← expandVars cfg line)
      if line.head? = some '#' ∨ line = [] then parseLines cfg rest (lineNo + 1)
      else
        let e ← match PartitionDefinition.fromCsv line with
          | .ok e => Except.ok e
          | .error e => .error (.atLine (lineNo + 1) e)
        let more ← parseLines cfg rest (lineNo + 1)
        return e :: more

def place (cfg : Settings) (lastEnd : Int) (e : PartitionDefinition) : Except InputError (PartitionDefinition × Int) :=
  let given := match e.offset with
    | some offset => if cfg.offsetPartTable ≠ 0 ∧ offset < lastEnd then none else some offset
    | none => none
  let offset := match given with
    | some offset => offset
    | none =>
        let padTo := if e.type = some APP_TYPE then 0x10000 else 4
        if lastEnd % padTo ≠ 0 then lastEnd + (padTo - lastEnd % padTo) else lastEnd
  match e.size with
  | none => .error .typeError
  | some size =>
      let size := if size < 0 then -size - offset else size
      .ok ({ e with offset := some offset, size := some size }, offset + size)

def fixUp (cfg : Settings) : (lastEnd : Int) → PartitionTable → Except InputError PartitionTable
  | _, [] => .ok []
  | lastEnd, e :: rest => do
      let (e, lastEnd) ← place cfg lastEnd e
      let more ← fixUp cfg lastEnd rest
      return e :: more

def fromCsv (cfg : Settings) (csvContents : Text) : Except InputError PartitionTable := do
  let res ← parseLines cfg (splitLines csvContents) 0
  fixUp cfg (cfg.offsetPartTable + PARTITION_TABLE_SIZE) res

def checkPlaces (cfg : Settings) : (last : Option (Int × Int)) → List (Int × Int) → Except InputError Unit
  | _, [] => .ok ()
  | last, (offset, size) :: rest =>
      if offset < cfg.offsetPartTable + PARTITION_TABLE_SIZE then
        .error (.offsetBelow offset (cfg.offsetPartTable + PARTITION_TABLE_SIZE))
      else match last with
        | some (lastOffset, lastSize) =>
            if offset < lastOffset + lastSize then .error (.overlap offset lastOffset (lastOffset + lastSize - 1))
            else checkPlaces cfg (some (offset, size)) rest
        | none => checkPlaces cfg (some (offset, size)) rest

def span (p : PartitionDefinition) : Int × Int := (p.offset.getD 0, p.size.getD 0)

def verify (cfg : Settings) (table : PartitionTable) : Except InputError Unit := do
  table.forM (PartitionDefinition.verify cfg)
  checkPlaces cfg none ((table.map span).mergeSort fun a b => a.1 ≤ b.1)

/-- `flash_size` of entries with offset and size: the first of those with the highest offset is looked at. -/
def flashSize (table : PartitionTable) : Int :=
  match (table.map span).mergeSort fun a b => b.1 ≤ a.1 with
  | [] => 0
  | last :: _ => last.1 + last.2

def recordsOf (b : List Byte) : List (List Byte) :=
  (List.range ((b.length + 31) / 32)).map fun o => (b.drop (32 * o)).take 32

def fromRecords (cfg : Settings) : List (List Byte) → (hashed : List Byte) → Except InputError PartitionTable
  | [], _ => .error .missingEnd
  | data :: rest, hashed =>
      if data.length ≠ 32 then .error .tableLength
      else if data = List.replicate 32 0xFF then .ok []
      else if cfg.md5sum ∧ data.take 2 = MD5_PARTITION_BEGIN.take 2 then
        if data.drop 16 = cfg.md5 hashed then fromRecords cfg rest hashed
        else .error (.md5Mismatch (cfg.md5 hashed) (data.drop 16))
      else do
        let e ← PartitionDefinition.fromBinary data
        let more ← fromRecords cfg rest (hashed ++ data)
        return e :: more

def fromBinary (cfg : Settings) (b : List Byte) : Except InputError PartitionTable := fromRecords cfg (recordsOf b) []

def toBinary (cfg : Settings) (table : PartitionTable) : Except InputError (List Byte) := do
  let entries ← table.mapM PartitionDefinition.toBinary
  let result := entries.flatten
  let result := if cfg.md5sum then result ++ MD5_PARTITION_BEGIN ++ cfg.md5 result else result
  if result.length ≥ MAX_PARTITION_LENGTH then throw (.tooLong result.length)
  return result ++ List.replicate (MAX_PARTITION_LENGTH - result.length) 0xFF

def convertCsv (cfg : Settings) (flashMegabytes : Option Int) (input : Text) : Except InputError (List Byte) := do
  let table ← fromCsv cfg input
  verify cfg table
  match flashMegabytes with
  | none => pure ()
  | some sizeMb =>
      let size := sizeMb * 1024 * 1024
      if size < flashSize table then throw (.flashSize (flashSize table) size)
  toBinary cfg table

def toCsv (simpleFormatting : Bool) (table : PartitionTable) : Except InputError Text := do
  let rows ← table.mapM (PartitionDefinition.toCsv simpleFormatting)
  return List.intercalate ['\n'] ("# Espressif ESP32 Partition Table".toList ::
    "# Name, Type, SubType, Offset, Size, Flags".toList :: rows) ++ ['\n']

end PartitionTable

end EspFirmware.Tool
