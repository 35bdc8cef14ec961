import EspFirmware.App.Datetime
import EspFirmware.App.Device
import EspFirmware.Lib.CString

/-!
The device's account of itself in `csro_system.c`: who it is, what it has counted since it was
started, and the strings that are made of these.
-/

namespace EspFirmware.App
open EspFirmware.Lib

def hexChar (n : Nat) : Byte := BitVec.ofNat 8 (if n < 10 then 48 + n else 87 + n)

def hexByte (b : Byte) : List Byte := [hexChar (b.toNat / 16), hexChar (b.toNat % 16)]

def decimalText (n : Int) : List Byte :=
  if n < 0 then 45 :: ascii (toString n.natAbs) else ascii (toString n.natAbs)

def decimalText2 (n : Int) : List Byte := if 0 ≤ n ∧ n < 10 then 48 :: decimalText n else decimalText n

structure SystemStruct where
  mac : Fin 6 → Byte
  ip : Option (Fin 4 → Byte)
  powerOnCount : BitVec 32
  wifiConnCount : BitVec 32
  servConnCount : BitVec 32

namespace SystemStruct

def macStr (s : SystemStruct) : List Byte := (List.ofFn s.mac).flatMap hexByte

def hostName (s : SystemStruct) : List Byte := ascii "csro_" ++ s.macStr

def ipStr (s : SystemStruct) : List Byte :=
  match s.ip with
  | some ip =>
      decimalText (ip 0).toNat ++ ascii "." ++ decimalText (ip 1).toNat ++ ascii "." ++ decimalText (ip 2).toNat ++
        ascii "." ++ decimalText (ip 3).toNat
  | none => []

end SystemStruct

def devType : List Byte := ascii ("nlight" ++ toString NLIGHT)

def timeText (tm : Tm) : List Byte :=
  decimalText (tm.year + 1900) ++ ascii "/" ++ decimalText2 (tm.mon + 1) ++ ascii "/" ++ decimalText2 tm.mday ++
    ascii " " ++ decimalText2 tm.hour ++ ascii ":" ++ decimalText2 tm.min ++ ascii ":" ++ decimalText2 tm.sec

/-- `time_str` after `strftime`, which is told the size of the array and keeps to it. -/
def timeStr (tm : Tm) : CharArray 100 :=
  ⟨(timeText tm).take 99, Nat.lt_succ_of_le (List.length_take_le 99 (timeText tm))⟩

end EspFirmware.App
