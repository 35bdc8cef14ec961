import Mathlib.Logic.Function.Basic
import EspFirmware.Lib.Parser

/-!
The checksum of `modbus.c`.
-/

namespace EspFirmware.Modbus
open EspFirmware.Lib

set_option maxRecDepth 4096 in
def CRCHi : Vector (BitVec 8) 256 :=
  #v[0x00, 0xC1, 0x81, 0x40, 0x01, 0xC0, 0x80, 0x41, 0x01, 0xC0, 0x80, 0x41, 0x00, 0xC1, 0x81, 0x40,
    0x01, 0xC0, 0x80, 0x41, 0x00, 0xC1, 0x81, 0x40, 0x00, 0xC1, 0x81, 0x40, 0x01, 0xC0, 0x80, 0x41,
    0x01, 0xC0, 0x80, 0x41, 0x00, 0xC1, 0x81, 0x40, 0x00, 0xC1, 0x81, 0x40, 0x01, 0xC0, 0x80, 0x41,
    0x00, 0xC1, 0x81, 0x40, 0x01, 0xC0, 0x80, 0x41, 0x01, 0xC0, 0x80, 0x41, 0x00, 0xC1, 0x81, 0x40,
    0x01, 0xC0, 0x80, 0x41, 0x00, 0xC1, 0x81, 0x40, 0x00, 0xC1, 0x81, 0x40, 0x01, 0xC0, 0x80, 0x41,
    0x00, 0xC1, 0x81, 0x40, 0x01, 0xC0, 0x80, 0x41, 0x01, 0xC0, 0x80, 0x41, 0x00, 0xC1, 0x81, 0x40,
    0x00, 0xC1, 0x81, 0x40, 0x01, 0xC0, 0x80, 0x41, 0x01, 0xC0, 0x80, 0x41, 0x00, 0xC1, 0x81, 0x40,
    0x01, 0xC0, 0x80, 0x41, 0x00, 0xC1, 0x81, 0x40, 0x00, 0xC1, 0x81, 0x40, 0x01, 0xC0, 0x80, 0x41,
    0x01, 0xC0, 0x80, 0x41, 0x00, 0xC1, 0x81, 0x40, 0x00, 0xC1, 0x81, 0x40, 0x01, 0xC0, 0x80, 0x41,
    0x00, 0xC1, 0x81, 0x40, 0x01, 0xC0, 0x80, 0x41, 0x01, 0xC0, 0x80, 0x41, 0x00, 0xC1, 0x81, 0x40,
    0x00, 0xC1, 0x81, 0x40, 0x01, 0xC0, 0x80, 0x41, 0x01, 0xC0, 0x80, 0x41, 0x00, 0xC1, 0x81, 0x40,
    0x01, 0xC0, 0x80, 0x41, 0x00, 0xC1, 0x81, 0x40, 0x00, 0xC1, 0x81, 0x40, 0x01, 0xC0, 0x80, 0x41,
    0x00, 0xC1, 0x81, 0x40, 0x01, 0xC0, 0x80, 0x41, 0x01, 0xC0, 0x80, 0x41, 0x00, 0xC1, 0x81, 0x40,
    0x01, 0xC0, 0x80, 0x41, 0x00, 0xC1, 0x81, 0x40, 0x00, 0xC1, 0x81, 0x40, 0x01, 0xC0, 0x80, 0x41,
    0x01, 0xC0, 0x80, 0x41, 0x00, 0xC1, 0x81, 0x40, 0x00, 0xC1, 0x81, 0x40, 0x01, 0xC0, 0x80, 0x41,
    0x00, 0xC1, 0x81, 0x40, 0x01, 0xC0, 0x80, 0x41, 0x01, 0xC0, 0x80, 0x41, 0x00, 0xC1, 0x81, 0x40]

set_option maxRecDepth 4096 in
def CRCLo : Vector (BitVec 8) 256 :=
  #v[0x00, 0xC0, 0xC1, 0x01, 0xC3, 0x03, 0x02, 0xC2, 0xC6, 0x06, 0x07, 0xC7, 0x05, 0xC5, 0xC4, 0x04,
    0xCC, 0x0C, 0x0D, 0xCD, 0x0F, 0xCF, 0xCE, 0x0E, 0x0A, 0xCA, 0xCB, 0x0B, 0xC9, 0x09, 0x08, 0xC8,
    0xD8, 0x18, 0x19, 0xD9, 0x1B, 0xDB, 0xDA, 0x1A, 0x1E, 0xDE, 0xDF, 0x1F, 0xDD, 0x1D, 0x1C, 0xDC,
    0x14, 0xD4, 0xD5, 0x15, 0xD7, 0x17, 0x16, 0xD6, 0xD2, 0x12, 0x13, 0xD3, 0x11, 0xD1, 0xD0, 0x10,
    0xF0, 0x30, 0x31, 0xF1, 0x33, 0xF3, 0xF2, 0x32, 0x36, 0xF6, 0xF7, 0x37, 0xF5, 0x35, 0x34, 0xF4,
    0x3C, 0xFC, 0xFD, 0x3D, 0xFF, 0x3F, 0x3E, 0xFE, 0xFA, 0x3A, 0x3B, 0xFB, 0x39, 0xF9, 0xF8, 0x38,
    0x28, 0xE8, 0xE9, 0x29, 0xEB, 0x2B, 0x2A, 0xEA, 0xEE, 0x2E, 0x2F, 0xEF, 0x2D, 0xED, 0xEC, 0x2C,
    0xE4, 0x24, 0x25, 0xE5, 0x27, 0xE7, 0xE6, 0x26, 0x22, 0xE2, 0xE3, 0x23, 0xE1, 0x21, 0x20, 0xE0,
    0xA0, 0x60, 0x61, 0xA1, 0x63, 0xA3, 0xA2, 0x62, 0x66, 0xA6, 0xA7, 0x67, 0xA5, 0x65, 0x64, 0xA4,
    0x6C, 0xAC, 0xAD, 0x6D, 0xAF, 0x6F, 0x6E, 0xAE, 0xAA, 0x6A, 0x6B, 0xAB, 0x69, 0xA9, 0xA8, 0x68,
    0x78, 0xB8, 0xB9, 0x79, 0xBB, 0x7B, 0x7A, 0xBA, 0xBE, 0x7E, 0x7F, 0xBF, 0x7D, 0xBD, 0xBC, 0x7C,
    0xB4, 0x74, 0x75, 0xB5, 0x77, 0xB7, 0xB6, 0x76, 0x72, 0xB2, 0xB3, 0x73, 0xB1, 0x71, 0x70, 0xB0,
    0x50, 0x90, 0x91, 0x51, 0x93, 0x53, 0x52, 0x92, 0x96, 0x56, 0x57, 0x97, 0x55, 0x95, 0x94, 0x54,
    0x9C, 0x5C, 0x5D, 0x9D, 0x5F, 0x9F, 0x9E, 0x5E, 0x5A, 0x9A, 0x9B, 0x5B, 0x99, 0x59, 0x58, 0x98,
    0x88, 0x48, 0x49, 0x89, 0x4B, 0x8B, 0x8A, 0x4A, 0x4E, 0x8E, 0x8F, 0x4F, 0x8D, 0x4D, 0x4C, 0x8C,
    0x44, 0x84, 0x85, 0x45, 0x87, 0x47, 0x46, 0x86, 0x82, 0x42, 0x43, 0x83, 0x41, 0x81, 0x80, 0x40]

def crcLoop (frame : Memory) : Nat → Nat → BitVec 8 → BitVec 8 → BitVec 16
  | _, 0, ucCRCHi, ucCRCLo => ucCRCHi ++ ucCRCLo
  | place, length + 1, ucCRCHi, ucCRCLo =>
      let index := (ucCRCLo ^^^ frame place).toFin
      crcLoop frame (place + 1) length (CRCLo.get index) (ucCRCHi ^^^ CRCHi.get index)

def modbusCrc16 (frame : Memory) (length : BitVec 8) : BitVec 16 := crcLoop frame 0 length.toNat 0xFF 0xFF

end EspFirmware.Modbus

/-!
The Modbus master of `modbus_master.c`, `modbus_master_coils.c` and `modbus_master_holdings.c`. A frame that grows beyond
`tx_buf` has no result: it overwrites what lies behind.
-/

namespace EspFirmware.Modbus
open EspFirmware.Lib

def FUNC_READ_COILS : BitVec 8 := 1
def FUNC_READ_HOLDING_REGISTER : BitVec 8 := 3
def FUNC_WRITE_SINGLE_COIL : BitVec 8 := 5
def FUNC_WRITE_REGISTER : BitVec 8 := 6
def FUNC_WRITE_MULTIPLE_COILS : BitVec 8 := 15
def FUNC_WRITE_MULTIPLE_REGISTERS : BitVec 8 := 16

def BUFFER_SIZE : Nat := 512

def low (x : BitVec 16) : BitVec 8 := x.setWidth 8

def high (x : BitVec 16) : BitVec 8 := (x >>> 8).setWidth 8

structure ModbusMaster where
  slaveId : BitVec 8
  funcCode : BitVec 8
  readAddr : BitVec 16
  readQty : BitVec 16
  writeAddr : BitVec 16
  writeQty : BitVec 16
  rxEnable : Bool
  rxBuf : Memory
  rxLen : Nat
  txBuf : Memory
  txLen : Nat

namespace ModbusMaster

def push (m : ModbusMaster) (b : BitVec 8) : Option ModbusMaster :=
  if m.txLen < BUFFER_SIZE then some { m with txBuf := Function.update m.txBuf m.txLen b, txLen := m.txLen + 1 }
  else none

def pushAll : List (BitVec 8) → ModbusMaster → Option ModbusMaster
  | [], m => some m
  | b :: rest, m => (m.push b).bind (pushAll rest)

end ModbusMaster

structure Line where
  received : List (BitVec 8)
  complete : Bool
  deriving DecidableEq, Repr

def uart0ReceiveOneByte (m : ModbusMaster) (data : BitVec 8) : ModbusMaster :=
  if m.rxEnable then
    { m with rxBuf := Function.update m.rxBuf m.rxLen data, rxLen := (m.rxLen + 1) % BUFFER_SIZE }
  else m

def masterSendReceive (line : Line) (m : ModbusMaster) : Option (List (BitVec 8) × Bool × ModbusMaster) :=
  let crc := modbusCrc16 m.txBuf (BitVec.ofNat 8 m.txLen)
  (m.pushAll [low crc, high crc]).map fun m =>
    let sent := Memory.load m.txBuf 0 m.txLen
    let m := line.received.foldl uart0ReceiveOneByte { m with rxEnable := true, rxLen := 0 }
    (sent, line.complete, { m with rxEnable := false })

def crcAccepts (rxBuf : Memory) (rxLen : Nat) : Bool :=
  let crc := modbusCrc16 rxBuf (BitVec.ofNat 8 (rxLen - 2))
  low crc == rxBuf (rxLen - 2) && high crc == rxBuf (rxLen - 1)

def modbusMasterValidateRx (m : ModbusMaster) : Look Bool :=
  if m.rxLen < 5 then pure false
  else if crcAccepts m.rxBuf m.rxLen = false then pure false
  else .expect [(0, m.slaveId.toNat), (1, m.funcCode.toNat)]

inductive Answer where
  | coils (result : List (BitVec 8))
  | registers (holdingregs : List (BitVec 16))
  | written
  deriving DecidableEq, Repr

/-- What a transaction has sent, its result if it is `true`, and the places of `rx_buf` that were compared or returned. -/
structure Transaction where
  sent : List (BitVec 8)
  result : Option Answer
  places : List Nat
  master : ModbusMaster

def transact (line : Line) (response : ModbusMaster → Look (Option Answer)) (m : ModbusMaster) : Option Transaction :=
  (masterSendReceive line m).map fun (sent, received, m) =>
    if received = false then ⟨sent, none, [], m⟩
    else
      let answer : Look (Option Answer) := do
        let valid ← modbusMasterValidateRx m
        if valid then response m else pure none
      ⟨sent, answer.value m.rxBuf, answer.places m.rxBuf, m⟩

def echo (fields : List (BitVec 8)) : Look (Option Answer) := do
  let same ← Look.expect ((List.range fields.length).map fun i => (2 + i, (fields.getD i 0).toNat))
  pure (if same then some .written else none)

def byteCount (qty : Nat) : Nat := if qty % 8 = 0 then qty / 8 else qty / 8 + 1

section
variable (line : Line) (id : BitVec 8)

def modbusMasterReadCoils (start qty : BitVec 8) (m : ModbusMaster) : Option Transaction :=
  let m := { m with
    slaveId := id, funcCode := FUNC_READ_COILS, readAddr := start.setWidth 16, readQty := qty.setWidth 16, txLen := 0 }
  (m.pushAll [m.slaveId, m.funcCode, high m.readAddr, low m.readAddr, high m.readQty, low m.readQty]).bind <|
    transact line fun m => do
      let count ← Look.byte 2
      if count.toNat ≠ byteCount m.readQty.toNat then pure none
      else do
        let result ← Look.each (fun i => do
          let value ← Look.byte (3 + i / 8)
          pure (0x01 &&& value >>> (i % 8))) (List.range qty.toNat)
        pure (some (.coils result))

def modbusMasterWriteSingleCoil (address value : BitVec 8) (m : ModbusMaster) : Option Transaction :=
  let m := { m with
    slaveId := id, funcCode := FUNC_WRITE_SINGLE_COIL, writeAddr := address.setWidth 16, txLen := 0 }
  let level : BitVec 8 := if value = 1 then 0xFF else 0x00
  (m.pushAll [m.slaveId, m.funcCode, high m.writeAddr, low m.writeAddr, level, 0x00]).bind <|
    transact line fun m => echo [high m.writeAddr, low m.writeAddr, level, 0x00]

def packValues (qty : BitVec 8) (values : Nat → BitVec 8) (data : Memory) : Memory :=
  (List.range (byteCount qty.toNat * 8)).foldl (fun data i =>
    let shifted := data (i / 8) >>> 1
    Function.update data (i / 8)
      (if i < qty.toNat then if values i = 1 then shifted ||| 0x80 else shifted &&& 0x7F else shifted)) data

def modbusMasterWriteMultipleCoils (start qty : BitVec 8) (values : Nat → BitVec 8) (m : ModbusMaster) :
    Option Transaction :=
  -- the array is not looked at again
  let _data := packValues qty values fun _ => 0
  let m := { m with
    slaveId := id, funcCode := FUNC_WRITE_MULTIPLE_COILS, writeAddr := start.setWidth 16, writeQty := qty.setWidth 16,
    txLen := 0 }
  (m.pushAll [m.slaveId, m.funcCode, high m.writeAddr, low m.writeAddr, high m.writeQty, low m.writeQty,
      BitVec.ofNat 8 (byteCount qty.toNat)]).bind <|
    transact line fun m => echo [high m.writeAddr, low m.writeAddr, high m.writeQty, low m.writeQty]

def modbusMasterReadHoldingRegs (start qty : BitVec 8) (m : ModbusMaster) : Option Transaction :=
  let m := { m with
    slaveId := id, funcCode := FUNC_READ_HOLDING_REGISTER, readAddr := start.setWidth 16, readQty := qty.setWidth 16,
    txLen := 0 }
  (m.pushAll [m.slaveId, m.funcCode, high m.readAddr, low m.readAddr, high m.readQty, low m.readQty]).bind <|
    transact line fun m => do
      let count ← Look.byte 2
      if count.toNat ≠ m.readQty.toNat * 2 then pure none
      else do
        let holdingregs ← Look.each (fun i => do
          let first ← Look.byte (3 + i * 2)
          let second ← Look.byte (4 + i * 2)
          pure (BitVec.ofNat 16 (first.toNat * 256 + second.toNat))) (List.range m.readQty.toNat)
        pure (some (.registers holdingregs))

def modbusMasterWriteSingleHoldingReg (address : BitVec 8) (value : BitVec 16) (m : ModbusMaster) :
    Option Transaction :=
  let m := { m with
    slaveId := id, funcCode := FUNC_WRITE_REGISTER, writeAddr := address.setWidth 16, txLen := 0 }
  (m.pushAll [m.slaveId, m.funcCode, high m.writeAddr, low m.writeAddr, high value, low value]).bind <|
    transact line fun m => echo [high m.writeAddr, low m.writeAddr, high value, low value]

def registerBytes (values : List (BitVec 16)) : List (BitVec 8) := values.flatMap fun v => [high v, low v]

def modbusMasterWriteMultipleHoldingRegs (start qty : BitVec 8) (values : Nat → BitVec 16) (m : ModbusMaster) :
    Option Transaction :=
  let m := { m with
    slaveId := id, funcCode := FUNC_WRITE_MULTIPLE_REGISTERS, writeAddr := start.setWidth 16,
    writeQty := qty.setWidth 16, txLen := 0 }
  (m.pushAll ([m.slaveId, m.funcCode, high m.writeAddr, low m.writeAddr, high m.writeQty, low m.writeQty,
      low (2 * m.writeQty)] ++ registerBytes ((List.range m.writeQty.toNat).map values))).bind <|
    transact line fun m => echo [high m.writeAddr, low m.writeAddr, high m.writeQty, low m.writeQty]

end

inductive Call where
  | readCoils (id start qty : BitVec 8)
  | writeSingleCoil (id address value : BitVec 8)
  | writeMultipleCoils (id start qty : BitVec 8) (values : Nat → BitVec 8)
  | readHoldingRegs (id start qty : BitVec 8)
  | writeSingleHoldingReg (id address : BitVec 8) (value : BitVec 16)
  | writeMultipleHoldingRegs (id start qty : BitVec 8) (values : Nat → BitVec 16)

def Call.run (line : Line) : Call → ModbusMaster → Option Transaction
  | .readCoils id start qty => modbusMasterReadCoils line id start qty
  | .writeSingleCoil id address value => modbusMasterWriteSingleCoil line id address value
  | .writeMultipleCoils id start qty values => modbusMasterWriteMultipleCoils line id start qty values
  | .readHoldingRegs id start qty => modbusMasterReadHoldingRegs line id start qty
  | .writeSingleHoldingReg id address value => modbusMasterWriteSingleHoldingReg line id address value
  | .writeMultipleHoldingRegs id start qty values => modbusMasterWriteMultipleHoldingRegs line id start qty values

end EspFirmware.Modbus
