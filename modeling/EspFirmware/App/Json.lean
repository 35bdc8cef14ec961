import EspFirmware.Lib.CString
import EspFirmware.Lib.Parser
import Mathlib.Algebra.GroupWithZero.Nat
import Mathlib.Data.List.Basic

/-!
`cJSON_Parse` of the vendored cJSON, and the helpers of `csro_misc.c` that look up one member of
the parsed message. The parser reads the bytes of the C string and its terminator; where the C
code runs into the end of its buffer and fails, this one asks for more input, and `cJSONParse`
makes a failure of that. `strtod` stands for the C library: the integral part of the number read
from a token and how many of its characters were used.
-/

namespace EspFirmware.App
open EspFirmware.Lib Parser

abbrev Byte := BitVec 8

def ascii (s : String) : List Byte := s.toList.map fun c => BitVec.ofNat 8 c.toNat

inductive Json where
  | null
  | bool (value : Bool)
  | number (valueint : BitVec 32)
  | string (valuestring : List Byte)
  | array (elements : List Json)
  | object (members : List (List Byte × Json))

abbrev Strtod := List Byte → Option (Int × Nat)

def CJSON_NESTING_LIMIT : Nat := 1000

def INT_MAX : Int := 2147483647
def INT_MIN : Int := -2147483648

def saturate (number : Int) : BitVec 32 :=
  if INT_MAX ≤ number then BitVec.ofInt 32 INT_MAX
  else if number ≤ INT_MIN then BitVec.ofInt 32 INT_MIN
  else BitVec.ofInt 32 number

def isSpace (c : Byte) : Bool := c.toNat ≤ 32

def isDigit (c : Byte) : Bool := 48 ≤ c.toNat && c.toNat ≤ 57

def isNumberChar (c : Byte) : Bool := isDigit c || c ∈ ascii "+-eE."

def skipWhitespace : Parser Byte Unit := skipWhile isSpace

def parseLiteral : List Byte → Parser Byte Unit
  | [] => pure ()
  | c :: rest => do
      let d ← next
      if d = c then parseLiteral rest else reject

def parseNumber (strtod : Strtod) : Parser Byte Json := do
  let token ← lookWhile isNumberChar 63
  match strtod token with
  | some (number, used) => do
      advance (min used token.length)
      pure (.number (saturate number))
  | none => reject

def hexDigit (c : Byte) : Option Nat :=
  if 48 ≤ c.toNat ∧ c.toNat ≤ 57 then some (c.toNat - 48)
  else if 65 ≤ c.toNat ∧ c.toNat ≤ 70 then some (c.toNat - 55)
  else if 97 ≤ c.toNat ∧ c.toNat ≤ 102 then some (c.toNat - 87)
  else none

def parseHex4 (a b c d : Byte) : Nat :=
  match hexDigit a, hexDigit b, hexDigit c, hexDigit d with
  | some a, some b, some c, some d => ((a * 16 + b) * 16 + c) * 16 + d
  | _, _, _, _ => 0

def utf8 (codepoint : Nat) : List Byte :=
  let tail (k : Nat) : Byte := BitVec.ofNat 8 (0x80 + codepoint / 64 ^ k % 64)
  if codepoint < 0x80 then [BitVec.ofNat 8 codepoint]
  else if codepoint < 0x800 then [BitVec.ofNat 8 (0xC0 + codepoint / 64), tail 0]
  else if codepoint < 0x10000 then [BitVec.ofNat 8 (0xE0 + codepoint / 64 ^ 2), tail 1, tail 0]
  else [BitVec.ofNat 8 (0xF0 + codepoint / 64 ^ 3), tail 2, tail 1, tail 0]

def unescape : List Byte → Option (List Byte)
  | [] => some []
  | 92#8 :: 117#8 :: a :: b :: c :: d :: rest =>
      let first := parseHex4 a b c d
      if 0xDC00 ≤ first ∧ first ≤ 0xDFFF then none
      else if 0xD800 ≤ first ∧ first ≤ 0xDBFF then
        match rest with
        | 92#8 :: 117#8 :: a' :: b' :: c' :: d' :: rest' =>
            let second := parseHex4 a' b' c' d'
            if second < 0xDC00 ∨ 0xDFFF < second then none
            else (unescape rest').map
              (utf8 (0x10000 + (first % 0x400) * 0x400 + second % 0x400) ++ ·)
        | _ => none
      else (unescape rest).map (utf8 first ++ ·)
  | 92#8 :: c :: rest =>
      if c = 98 then (unescape rest).map (8#8 :: ·)
      else if c = 102 then (unescape rest).map (12#8 :: ·)
      else if c = 110 then (unescape rest).map (10#8 :: ·)
      else if c = 114 then (unescape rest).map (13#8 :: ·)
      else if c = 116 then (unescape rest).map (9#8 :: ·)
      else if c = 34 ∨ c = 92 ∨ c = 47 then (unescape rest).map (c :: ·)
      else none
  | [92#8] => none
  | c :: rest => (unescape rest).map (c :: ·)

def scanString : Nat → Parser Byte (List Byte)
  | 0 => undecided
  | fuel + 1 => do
      let c ← next
      if c = 34 then pure []
      else if c = 92 then do
        let escaped ← next
        let rest ← scanString fuel
        pure (c :: escaped :: rest)
      else do
        let rest ← scanString fuel
        pure (c :: rest)

def parseString (fuel : Nat) : Parser Byte (List Byte) := do
  let c ← next
  if c = 34 then do
    let raw ← scanString fuel
    match unescape raw with
    | some text => pure text
    | none => reject
  else reject

mutual

def parseValue (strtod : Strtod) (depth : Nat) : Nat → Parser Byte Json
  | 0 => undecided
  | fuel + 1 => do
      let c ← peek
      if c = 110 then do parseLiteral (ascii "null"); pure .null
      else if c = 102 then do parseLiteral (ascii "false"); pure (.bool false)
      else if c = 116 then do parseLiteral (ascii "true"); pure (.bool true)
      else if c = 34 then do
        let text ← parseString fuel
        pure (.string text)
      else if c = 45 ∨ isDigit c then parseNumber strtod
      else if c = 91 then
        if CJSON_NESTING_LIMIT ≤ depth then reject
        else do
          let _ ← next
          skipWhitespace
          let d ← peek
          if d = 93 then do let _ ← next; pure (.array [])
          else do
            let elements ← parseElements strtod (depth + 1) fuel
            pure (.array elements)
      else if c = 123 then
        if CJSON_NESTING_LIMIT ≤ depth then reject
        else do
          let _ ← next
          skipWhitespace
          let d ← peek
          if d = 125 then do let _ ← next; pure (.object [])
          else do
            let members ← parseMembers strtod (depth + 1) fuel
            pure (.object members)
      else reject

def parseElements (strtod : Strtod) (depth : Nat) : Nat → Parser Byte (List Json)
  | 0 => undecided
  | fuel + 1 => do
      let element ← parseValue strtod depth fuel
      skipWhitespace
      let c ← next
      if c = 44 then do
        skipWhitespace
        let rest ← parseElements strtod depth fuel
        pure (element :: rest)
      else if c = 93 then pure [element]
      else reject

def parseMembers (strtod : Strtod) (depth : Nat) : Nat → Parser Byte (List (List Byte × Json))
  | 0 => undecided
  | fuel + 1 => do
      let name ← parseString fuel
      skipWhitespace
      let colon ← next
      if colon = 58 then do
        skipWhitespace
        let value ← parseValue strtod depth fuel
        skipWhitespace
        let c ← next
        if c = 44 then do
          skipWhitespace
          let rest ← parseMembers strtod depth fuel
          pure ((name, value) :: rest)
        else if c = 125 then pure [(name, value)]
        else reject
      else reject

end

def skipUtf8Bom : Parser Byte Unit := fun input =>
  match input with
  | 0xEF#8 :: 0xBB#8 :: 0xBF#8 :: c :: d :: rest => .done () (c :: d :: rest)
  | [] | [0xEF#8] | [0xEF#8, 0xBB#8] | [0xEF#8, 0xBB#8, 0xBF#8] | [0xEF#8, 0xBB#8, 0xBF#8, _] => .more
  | _ => .done () input

def parseText (strtod : Strtod) (fuel : Nat) : Parser Byte Json := do
  skipUtf8Bom
  skipWhitespace
  parseValue strtod 0 fuel

/-- Every step of the parser that is counted uses up a character or enters a nested value, so
twice the length of the text is never used up. -/
def textFuel (text : List Byte) : Nat := 2 * text.length + 4

def cJSONParse (strtod : Strtod) (text : List Byte) : Option Json :=
  match parseText strtod (textFuel text) (text ++ [0]) with
  | .done value _ => some value
  | _ => none

def toLower (c : Byte) : Byte := if 65 ≤ c.toNat ∧ c.toNat ≤ 90 then c + 32 else c

def sameName (a b : List Byte) : Bool := (cString a).map toLower == (cString b).map toLower

/-- Only the children of an object carry names. -/
def cJSONGetObjectItem (json : Json) (name : String) : Option Json :=
  match json with
  | .object members => (members.find? fun m => sameName (ascii name) m.1).map Prod.snd
  | _ => none

def Json.number? : Json → Option (BitVec 32)
  | .number v => some v
  | _ => none

def Json.isObject : Json → Bool
  | .object _ => true
  | _ => false

/-!
The helpers take the message as the result of `cJSON_Parse`: each of them parses the same string
again and so sees the same value. -/

def parseLevel1JsonObject (msg : Option Json) (object : String) : Bool :=
  match msg with
  | some json => ((cJSONGetObjectItem json object).map Json.isObject).getD false
  | none => false

def parseLevel1JsonNumber (msg : Option Json) (object : String) : Option (BitVec 32) := do
  let json ← msg
  let item ← cJSONGetObjectItem json object
  item.number?

def parseLevel2JsonNumber (msg : Option Json) (object sub : String) : Option (BitVec 32) := do
  let json ← msg
  let item ← cJSONGetObjectItem json object
  let subItem ← cJSONGetObjectItem item sub
  subItem.number?

end EspFirmware.App
