import EspFirmware.Lib.Crc
import EspFirmware.Modbus.Master

/-!
What goes over a Modbus line: frames with their checksum, one bit after the other, and what transactions say about them.
-/

namespace EspFirmware.Modbus
open EspFirmware.Lib

def modbusCrc (bytes : List (BitVec 8)) : BitVec 16 := Crc.crc 0xA001 0xFFFF bytes

def crcBytes (bytes : List (BitVec 8)) : List (BitVec 8) := [low (modbusCrc bytes), high (modbusCrc bytes)]

def frame (bytes : List (BitVec 8)) : List (BitVec 8) := bytes ++ crcBytes bytes

def flipBit (bytes : List (BitVec 8)) (place bit : Nat) : List (BitVec 8) :=
  bytes.set place (bytes.getD place 0 ^^^ 1 <<< bit)

def bitsNumber : List Bool → Nat
  | [] => 0
  | b :: rest => b.toNat + 2 * bitsNumber rest

/-- Eight coils in a byte, the first one in its lowest bit, and zeros behind the last one. -/
def packCoils (bits : List Bool) : List (BitVec 8) :=
  (List.range ((bits.length + 7) / 8)).map fun j => BitVec.ofNat 8 (bitsNumber ((bits.drop (8 * j)).take 8))

def coilValues (qty : BitVec 8) (values : Nat → BitVec 8) : List Bool :=
  (List.range qty.toNat).map fun i => values i = 1

def writeCoilsRequest (id start qty : BitVec 8) (values : Nat → BitVec 8) : List (BitVec 8) :=
  let data := packCoils (coilValues qty values)
  frame ([id, 15, 0, start, 0, qty, BitVec.ofNat 8 data.length] ++ data)

def coilsResponse (id : BitVec 8) (bits : List Bool) : List (BitVec 8) :=
  frame ([id, 1, BitVec.ofNat 8 (packCoils bits).length] ++ packCoils bits)

def registersResponse (id : BitVec 8) (registers : List (BitVec 16)) : List (BitVec 8) :=
  frame ([id, 3, BitVec.ofNat 8 (registerBytes registers).length] ++ registerBytes registers)

def SendsCoils (line : Line) (id start qty : BitVec 8) (values : Nat → BitVec 8) (m : ModbusMaster) : Prop :=
  ∃ t, modbusMasterWriteMultipleCoils line id start qty values m = some t ∧ t.sent = writeCoilsRequest id start qty values

/-- The values are sent in a frame of six bytes, the number of bytes that follow, the values, and the checksum. -/
structure RegistersFrame (values : List (BitVec 16)) (sent : List (BitVec 8)) : Prop where
  layout : ∃ (head : List (BitVec 8)) (count : BitVec 8), head.length = 6 ∧
    count.toNat = (registerBytes values).length ∧ sent = frame (head ++ [count] ++ registerBytes values)
  inside : sent.length ≤ BUFFER_SIZE

def SendsRegisters (line : Line) (id start qty : BitVec 8) (values : Nat → BitVec 16) (m : ModbusMaster) : Prop :=
  ∃ t, modbusMasterWriteMultipleHoldingRegs line id start qty values m = some t ∧
    RegistersFrame ((List.range qty.toNat).map values) t.sent

def registersRequest (id start qty : BitVec 8) (values : Nat → BitVec 16) : List (BitVec 8) :=
  [id, 16, 0, start, 0, qty, BitVec.ofNat 8 (2 * qty.toNat)] ++ registerBytes ((List.range qty.toNat).map values)

/-- At most 124 registers, or at most 127 where the checksum is that of the first few bytes: as many as remain of the
length of the request when eight bits are kept of it. -/
def RegistersFit (id start qty : BitVec 8) (values : Nat → BitVec 16) : Prop :=
  qty.toNat ≤ 124 ∨ qty.toNat ≤ 127 ∧
    modbusCrc ((registersRequest id start qty values).take (7 + 2 * qty.toNat - 256)) =
      modbusCrc (registersRequest id start qty values)

/-- What was compared and returned lies before the checksum of the frame that came in, the checksum that was accepted is
that of all bytes before it, and what was in the buffer earlier does not matter. -/
structure InFrame (line : Line) (call : Call) (m : ModbusMaster) (t : Transaction) : Prop where
  inside : ∀ place ∈ t.places, place < t.master.rxLen - 2
  checked : (BitVec.ofNat 8 (t.master.rxLen - 2)).toNat = t.master.rxLen - 2
  fresh : ∀ rxBuf, (call.run line { m with rxBuf := rxBuf }).map Transaction.result = some t.result

def Call.answerLength : Call → Nat
  | .readCoils _ _ qty => 3 + byteCount qty.toNat
  | .readHoldingRegs _ _ qty => 3 + qty.toNat * 2
  | .writeSingleCoil _ _ _ => 6
  | .writeMultipleCoils _ _ _ _ => 6
  | .writeSingleHoldingReg _ _ _ => 6
  | .writeMultipleHoldingRegs _ _ _ _ => 6

end EspFirmware.Modbus
