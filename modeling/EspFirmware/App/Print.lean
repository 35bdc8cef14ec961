import EspFirmware.App.System

/-!
`cJSON_PrintUnformatted` of the vendored cJSON, and the messages the device publishes. An item that
is made to be printed keeps the whole `valuedouble` of a number, where one that was parsed is only
asked for its `valueint`.
-/

namespace EspFirmware.App
open EspFirmware.Lib

abbrev MQTT_BUFFER_LENGTH : Nat := 1000

inductive Item where
  | null
  | bool (value : Bool)
  | number (valuedouble : Int)
  | string (valuestring : List Byte)
  | array (elements : List Item)
  | object (members : List (List Byte × Item))

mutual

def Json.item : Json → Item
  | .null => .null
  | .bool value => .bool value
  | .number valueint => .number valueint.toInt
  | .string valuestring => .string valuestring
  | .array elements => .array (itemElements elements)
  | .object members => .object (itemMembers members)

def itemElements : List Json → List Item
  | [] => []
  | element :: rest => element.item :: itemElements rest

def itemMembers : List (List Byte × Json) → List (List Byte × Item)
  | [] => []
  | (name, value) :: rest => (name, value.item) :: itemMembers rest

end

def escapeChar (c : Byte) : List Byte :=
  if 31 < c.toNat ∧ c ≠ 34 ∧ c ≠ 92 then [c]
  else if c = 92 ∨ c = 34 then [92, c]
  else if c = 8 then ascii "\\b"
  else if c = 12 then ascii "\\f"
  else if c = 10 then ascii "\\n"
  else if c = 13 then ascii "\\r"
  else if c = 9 then ascii "\\t"
  else ascii "\\u00" ++ hexByte c

def printString (s : List Byte) : List Byte := [34] ++ (cString s).flatMap escapeChar ++ [34]

mutual

def printValue : Item → List Byte
  | .null => ascii "null"
  | .bool value => ascii (if value then "true" else "false")
  | .number valuedouble => decimalText valuedouble
  | .string valuestring => printString valuestring
  | .array elements => [91] ++ printElements elements ++ [93]
  | .object members => [123] ++ printMembers members ++ [125]

def printElements : List Item → List Byte
  | [] => []
  | [element] => printValue element
  | element :: rest => printValue element ++ [44] ++ printElements rest

def printMembers : List (List Byte × Item) → List Byte
  | [] => []
  | [(name, value)] => printString name ++ [58] ++ printValue value
  | (name, value) :: rest => printString name ++ [58] ++ printValue value ++ [44] ++ printMembers rest

end

def cJSONPrintUnformatted (item : Item) : List Byte := printValue item

def copyContent (item : Item) : Option (CharArray MQTT_BUFFER_LENGTH) :=
  strcpy MQTT_BUFFER_LENGTH (cJSONPrintUnformatted item)

def nlightAddChannelJson (channel : Switch) : List Byte × Item :=
  (ascii ("channel" ++ toString (channel.index.toNat + 1)), .object
    [(ascii "state", .string (ascii (if channel.state = 1 then "on" else "off"))),
     (ascii "onsource", .number channel.onSource.toNat),
     -- `on_tim` is a `timer_t`, which is unsigned, `off_tim` a `time_t`
     (ascii "ontim", .number channel.onTim.toNat),
     (ascii "offsource", .number channel.offSource.toNat),
     (ascii "offtim", .number channel.offTim.toInt)])

def csroNlightPrepareStatusMessage (channel : Fin NLIGHT → Switch) : Item :=
  .object ((List.finRange NLIGHT).map fun i => nlightAddChannelJson (channel i))

def csroSystemPrepareMessage (lib : TimeLib) (s : SystemStruct) (timeOn : Int) (heap : BitVec 32)
    (interval : BitVec 16) : Item :=
  .object
    [(ascii "power", .number s.powerOnCount.toNat),
     (ascii "router", .number s.wifiConnCount.toNat),
     (ascii "broker", .number s.servConnCount.toNat),
     (ascii "heap", .number heap.toNat),
     (ascii "on", .string (timeStr (lib.localtimeR timeOn)).text),
     (ascii "ip", .string s.ipStr),
     (ascii "mac", .string s.macStr),
     (ascii "name", .string s.hostName),
     (ascii "type", .string devType),
     (ascii "interval", .number interval.toNat)]

end EspFirmware.App
