import EspFirmware.Mdns.Dispatch
import Mathlib.Algebra.Ring.Int.Defs

/-!
What is made of records that are received (`mdns.c`): TXT data becomes a list of items, the data of a record under one
of our names is compared with our own, and a name that loses is changed.
-/

namespace EspFirmware.Mdns
open EspFirmware.Lib

/-- An `mdns_txt_item_t`, whose key and value are strings that end at their first zero. No memory is asked for a value
of no bytes. -/
structure TxtItem where
  key : CString
  value : Option CString
  deriving DecidableEq, Repr

/-- What `_mdns_result_txt_create` comes to: it reads outside of the data, writes behind the array, or gives items. -/
inductive TxtDecode where
  | outside
  | overrun
  | done (items : List TxtItem)
  deriving DecidableEq, Repr

section
variable (data : List (BitVec 8))

def bytesAt (i n : Nat) : Option (List (BitVec 8)) := if i + n ≤ data.length then some ((data.drop i).take n) else none

/-- The loop of `_mdns_txt_items_count_get`, whose index has 16 bits: -1 on error, and `none` where it reads outside or
does not end. -/
def txtCountFrom : Nat → Nat → Int → Option Int
  | 0, _, _ => none
  | fuel + 1, i, num_items =>
      if i < data.length then
        match data[i]? with
        | none => none
        | some b =>
            let partLen := b.toNat
            let i := (i + 1) % 65536
            if partLen = 0 then some num_items
            else if i + partLen > data.length then some (-1)
            else txtCountFrom fuel ((i + partLen) % 65536) (num_items + 1)
      else some num_items

def mdnsTxtItemsCountGet : Option Int := if data.length = 1 then some 0 else txtCountFrom data (data.length + 1) 0 0

def mdnsTxtItemNameGetLen (part : List (BitVec 8)) : Option Nat :=
  if part.head? = some 61 then none else some (part.takeWhile (· ≠ 61)).length

def txtCreateFrom (num_items : Nat) : Nat → Nat → List TxtItem → TxtDecode
  | 0, _, _ => .outside
  | fuel + 1, i, txt =>
      if i < data.length then
        match data[i]? with
        | none => .outside
        | some b =>
            let partLen := b.toNat
            let i := (i + 1) % 65536
            if partLen = 0 then .done txt
            else if i + partLen > data.length then .done []
            else
              match bytesAt data i partLen with
              | none => .outside
              | some part =>
                  match mdnsTxtItemNameGetLen part with
                  | none => txtCreateFrom num_items fuel ((i + partLen) % 65536) txt
                  | some name_len =>
                      if txt.length ≥ num_items then .overrun
                      else
                        let i := (i + (name_len + 1)) % 65536
                        let value_len := partLen - name_len - 1
                        if value_len > 0 then
                          match bytesAt data i value_len with
                          | none => .outside
                          | some value =>
                              txtCreateFrom num_items fuel ((i + value_len) % 65536)
                                (txt ++ [⟨cString (part.take name_len), some (cString value)⟩])
                        else txtCreateFrom num_items fuel i (txt ++ [⟨cString (part.take name_len), none⟩])
      else .done txt

def mdnsResultTxtCreate : TxtDecode :=
  match mdnsTxtItemsCountGet data with
  | none => .outside
  | some num_items =>
      if num_items < 0 then .done []
      else if num_items = 0 then .done []
      else txtCreateFrom data num_items.toNat (data.length + 1) 0 []

end

def memcmp : List (BitVec 8) → List (BitVec 8) → Int
  | a :: as, b :: bs => if a.toNat < b.toNat then -1 else if b.toNat < a.toNat then 1 else memcmp as bs
  | _, _ => 0

def winner (ret : Int) : Int := if ret > 0 then -1 else if ret < 0 then 1 else 0

def u16Bytes (value : BitVec 16) : List (BitVec 8) := [value.extractLsb' 8 8, value.extractLsb' 0 8]

def srvBytes (priority weight port : BitVec 16) (host domain : CString) : List (BitVec 8) :=
  u16Bytes priority ++ u16Bytes weight ++ u16Bytes port ++ (BitVec.ofNat 8 host.length :: host) ++
    (BitVec.ofNat 8 domain.length :: domain) ++ [0]

def mdnsCheckSrvCollision (server : WireServer) (service : WireService) (priority weight port : BitVec 16)
    (host domain : CString) : Int :=
  if server.hostname = [] then 0
  else
    let our_len := 14 + server.hostname.length
    let their_len := 9 + host.length + domain.length
    if their_len > our_len then 1
    else if their_len < our_len then -1
    else
      winner (memcmp (srvBytes service.priority service.weight service.port server.hostname MDNS_DEFAULT_DOMAIN)
        (srvBytes priority weight port host domain))

/-- The size of the first item, with the byte for its length, for every item of the list. -/
def txtDataLen (txt : List (CString × CString)) : Nat :=
  1 + txt.length * (2 + ((txt.head?.map fun item => item.1.length + item.2.length).getD 0))

/-- `stack` is what the array `ours` holds, and what is behind it; `none` where bytes are written there. -/
def mdnsCheckTxtCollision (service : WireService) (data : List (BitVec 8)) (stack : Memory) : Option Int :=
  if data.length = 1 ∧ service.txt ≠ [] then some (-1)
  else if data.length > 1 ∧ service.txt = [] then some 1
  else if data.length = 1 ∧ service.txt = [] then some 0
  else if data.length > txtDataLen service.txt then some 1
  else if data.length < txtDataLen service.txt then some (-1)
  else
    let ours := service.txt.foldl (fun (p : OutPacket) item => (p.mdnsAppendString (OutPacket.txtItem item)).2) ⟨stack, 0⟩
    if ours.index > data.length then none
    else some (winner (memcmp (Memory.load ours.mem 0 data.length) data))

def strrchr (c : BitVec 8) : CString → Option Nat
  | [] => none
  | x :: rest =>
      match strrchr c rest with
      | some i => some (i + 1)
      | none => if x = c then some 0 else none

def isspace (c : BitVec 8) : Bool := c = 32 || (9 ≤ c.toNat && c.toNat ≤ 13)

def isdigit (c : BitVec 8) : Bool := 48 ≤ c.toNat && c.toNat ≤ 57

def digitsValue (digits : CString) : Nat := digits.foldl (fun n c => 10 * n + (c.toNat - 48)) 0

def strtol (text : CString) : Int × CString :=
  let body := text.dropWhile isspace
  let negative := body.head? = some 45
  let body := if negative ∨ body.head? = some 43 then body.tail else body
  let digits := body.takeWhile isdigit
  if digits = [] then (0, text)
  else
    (if negative then max (-(digitsValue digits : Int)) (-2 ^ 31) else min (digitsValue digits : Int) (2 ^ 31 - 1),
      body.drop digits.length)

def decimalDigits (n : Nat) : CString := (Nat.toDigits 10 n).map fun c => BitVec.ofNat 8 c.toNat

def decimal (n : Int) : CString := if n < 0 then 45 :: decimalDigits n.natAbs else decimalDigits n.natAbs

structure MangledName where
  size : Nat
  text : CString
  deriving DecidableEq, Repr

/-- `none` where the sum is not an `int`. -/
def mdnsMangleName (name : CString) : Option MangledName :=
  match strrchr 45 name with
  | none => some ⟨name.length + 3, name ++ [45, 50]⟩
  | some p =>
      let (suffix, endp) := strtol (name.drop (p + 1))
      if endp ≠ [] then some ⟨name.length + 3, name ++ [45, 50]⟩
      else if suffix + 1 ≥ 2 ^ 31 then none
      else some ⟨name.length + 2, name.take p ++ [45] ++ decimal (suffix + 1)⟩

end EspFirmware.Mdns
