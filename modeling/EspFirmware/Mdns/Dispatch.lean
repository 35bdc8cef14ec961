import EspFirmware.Mdns.Name
import EspFirmware.Mdns.Responder

/-!
How a packet is put into bytes and sent (`_mdns_dispatch_tx_packet` of `mdns.c`): questions and records are appended
piece by piece, and the length of a record's data is filled in when the data is there.
-/

namespace EspFirmware.Mdns
open EspFirmware.Lib

def MDNS_HEAD_LEN : Nat := 12

inductive WireType where
  | a
  | ptr
  | txt
  | aaaa
  | srv
  deriving DecidableEq, Repr

def WireType.code : WireType → BitVec 16
  | .a => 0x0001
  | .ptr => 0x000C
  | .txt => 0x0010
  | .aaaa => 0x001C
  | .srv => 0x0021

/-- An `mdns_service_t`; an instance that is not set is empty. -/
structure WireService where
  instanceName : CString
  service : CString
  proto : CString
  priority : BitVec 16
  weight : BitVec 16
  port : BitVec 16
  txt : List (CString × CString)
  deriving DecidableEq, Repr

structure WireQuestion where
  host : Option CString
  service : Option CString
  proto : Option CString
  domain : CString
  type : BitVec 16
  unicast : Bool
  deriving DecidableEq, Repr

inductive AnswerBody where
  | ptr (service : WireService)
  | customPtr (instanceName service proto : CString)
  | srv (service : WireService)
  | txt (service : WireService)
  | sdptr (service : WireService)
  | a
  | aaaa
  deriving DecidableEq, Repr

structure WireAnswer where
  body : AnswerBody
  flush : Bool
  bye : Bool
  deriving DecidableEq, Repr

structure WireIface where
  pcb4 : Bool
  dup4 : Bool
  pcb6 : Bool
  dup6 : Bool
  ip4 : Option (BitVec 32)
  ip6 : Option (Vector (BitVec 8) 16)
  deriving DecidableEq, Repr

/-- What the responder knows; names that are not set are empty. -/
structure WireServer where
  hostname : CString
  instanceName : CString
  ifaces : Iface → WireIface

structure WirePacket where
  tcpip_if : Iface
  flags : BitVec 16
  questions : List WireQuestion
  answers : List WireAnswer
  servers : List WireAnswer
  additional : List WireAnswer

def mdnsGetServiceInstanceName (server : WireServer) (service : WireService) : Option CString :=
  if service.instanceName ≠ [] then some service.instanceName
  else if server.instanceName ≠ [] then some server.instanceName
  else if server.hostname ≠ [] then some server.hostname
  else none

namespace OutPacket
variable (p : OutPacket)

def mdnsSetU16 (location : Nat) (value : BitVec 16) : OutPacket :=
  if location + 1 ≥ MDNS_MAX_PACKET_SIZE then p
  else { p with mem := Memory.store p.mem location [value.extractLsb' 8 8, value.extractLsb' 0 8] }

def mdnsAppendU32 (value : BitVec 32) : Nat × OutPacket :=
  if p.index + 3 ≥ MDNS_MAX_PACKET_SIZE then (0, p)
  else
    let p := (p.mdnsAppendU8 (value.extractLsb' 24 8)).2
    let p := (p.mdnsAppendU8 (value.extractLsb' 16 8)).2
    let p := (p.mdnsAppendU8 (value.extractLsb' 8 8)).2
    (4, (p.mdnsAppendU8 (value.extractLsb' 0 8)).2)

def mdnsAppendType (type : WireType) (flush : Bool) (ttl : BitVec 32) : Nat × OutPacket :=
  if p.index + 10 ≥ MDNS_MAX_PACKET_SIZE then (0, p)
  else
    let p := (p.mdnsAppendU16 type.code).2
    let p := (p.mdnsAppendU16 (if flush then 0x8001 else 0x0001)).2
    let p := (p.mdnsAppendU32 ttl).2
    (10, (p.mdnsAppendU16 0).2)

/-- What the records have in common: a name, a type, and data whose length is filled in. Lengths of parts are kept in
eight bits. -/
def appendRecord (name : List CString) (type : WireType) (flush : Bool) (ttl : BitVec 32)
    (data : OutPacket → Nat × OutPacket) (p : OutPacket) : Nat × OutPacket :=
  let (part, p) := mdnsAppendFqdn name p
  if part % 256 = 0 then (0, p)
  else
    let (head, p) := p.mdnsAppendType type flush ttl
    if head = 0 then (0, p)
    else
      let data_len_location := p.index - 2
      let (data_len, p) := data p
      if data_len = 0 then (0, p)
      else (part % 256 + head + data_len, p.mdnsSetU16 data_len_location (BitVec.ofNat 16 data_len))

def nameData (strings : List CString) (p : OutPacket) : Nat × OutPacket :=
  let (part, p) := mdnsAppendFqdn strings p
  (part % 256, p)

def mdnsAppendPtrRecord (instanceName service proto : CString) (bye : Bool) : Nat × OutPacket :=
  appendRecord [service, proto, MDNS_DEFAULT_DOMAIN] .ptr false (if bye then 0 else 4500)
    (nameData [instanceName, service, proto, MDNS_DEFAULT_DOMAIN]) p

def sdName : List CString :=
  [[95, 115, 101, 114, 118, 105, 99, 101, 115], [95, 100, 110, 115, 45, 115, 100], [95, 117, 100, 112],
    MDNS_DEFAULT_DOMAIN]

/-- Whether the name of the record was appended is not looked at. -/
def mdnsAppendSdptrRecord (service : WireService) (flush : Bool) : Nat × OutPacket :=
  let (part, p) := mdnsAppendFqdn sdName p
  let (head, p) := p.mdnsAppendType .ptr flush 4500
  if head = 0 then (0, p)
  else
    let data_len_location := p.index - 2
    let (data_len, p) := nameData [service.service, service.proto, MDNS_DEFAULT_DOMAIN] p
    if data_len = 0 then (0, p)
    else (part % 256 + head + data_len, p.mdnsSetU16 data_len_location (BitVec.ofNat 16 data_len))

def txtItem (item : CString × CString) : CString := item.1 ++ [61] ++ item.2

/-- The loop over the items of a TXT record; `none` when one of them cannot be appended. -/
def txtItems : List (CString × CString) → Nat → OutPacket → Option Nat × OutPacket
  | [], data_len, p => (some data_len, p)
  | item :: rest, data_len, p =>
      let (l, p) := p.mdnsAppendString (txtItem item)
      if l = 0 then (none, p) else txtItems rest (data_len + l) p

/-- The empty item is put without a look at the size of the packet. -/
def txtData (txt : List (CString × CString)) (p : OutPacket) : Nat × OutPacket :=
  match txtItems txt 0 p with
  | (none, p) => (0, p)
  | (some 0, p) => (1, ⟨Memory.store p.mem p.index [0], p.index + 1⟩)
  | (some data_len, p) => (data_len, p)

def mdnsAppendTxtRecord (server : WireServer) (service : WireService) (flush bye : Bool) : Nat × OutPacket :=
  match mdnsGetServiceInstanceName server service with
  | none => (0, p)
  | some name =>
      appendRecord [name, service.service, service.proto, MDNS_DEFAULT_DOMAIN] .txt flush (if bye then 0 else 4500)
        (txtData service.txt) p

def srvData (server : WireServer) (service : WireService) (p : OutPacket) : Nat × OutPacket :=
  let (first, p) := p.mdnsAppendU16 service.priority
  let (second, p) := p.mdnsAppendU16 service.weight
  let (third, p) := p.mdnsAppendU16 service.port
  if first + second + third ≠ 6 then (0, p)
  else if server.hostname = [] then (0, p)
  else
    let (part, p) := nameData [server.hostname, MDNS_DEFAULT_DOMAIN] p
    if part = 0 then (0, p) else (part + 6, p)

def mdnsAppendSrvRecord (server : WireServer) (service : WireService) (flush bye : Bool) : Nat × OutPacket :=
  match mdnsGetServiceInstanceName server service with
  | none => (0, p)
  | some name =>
      appendRecord [name, service.service, service.proto, MDNS_DEFAULT_DOMAIN] .srv flush (if bye then 0 else 120)
        (srvData server service) p

def addressData (bytes : List (BitVec 8)) (p : OutPacket) : Nat × OutPacket :=
  if p.index + (bytes.length - 1) ≥ MDNS_MAX_PACKET_SIZE then (0, p)
  else (bytes.length, ⟨Memory.store p.mem p.index bytes, p.index + bytes.length⟩)

def mdnsAppendARecord (server : WireServer) (ip : BitVec 32) (flush bye : Bool) : Nat × OutPacket :=
  if server.hostname = [] then (0, p)
  else
    appendRecord [server.hostname, MDNS_DEFAULT_DOMAIN] .a flush (if bye then 0 else 120)
      (addressData [ip.extractLsb' 0 8, ip.extractLsb' 8 8, ip.extractLsb' 16 8, ip.extractLsb' 24 8]) p

def mdnsAppendAaaaRecord (server : WireServer) (ipv6 : Vector (BitVec 8) 16) (flush bye : Bool) : Nat × OutPacket :=
  if server.hostname = [] then (0, p)
  else
    appendRecord [server.hostname, MDNS_DEFAULT_DOMAIN] .aaaa flush (if bye then 0 else 120) (addressData ipv6.toList) p

def questionStrings (q : WireQuestion) : List CString :=
  q.host.toList ++ q.service.toList ++ q.proto.toList ++ [q.domain]

def mdnsAppendQuestion (q : WireQuestion) : Nat × OutPacket :=
  let (part, p) := mdnsAppendFqdn (questionStrings q) p
  if part % 256 = 0 then (0, p)
  else
    let (first, p) := p.mdnsAppendU16 q.type
    let (second, p) := p.mdnsAppendU16 (if q.unicast then 0x8001 else 0x0001)
    ((part % 256 + first + second) % 256, p)

def countQuestion (q : WireQuestion) : Nat × OutPacket :=
  (if (p.mdnsAppendQuestion q).1 > 0 then 1 else 0, (p.mdnsAppendQuestion q).2)

def mdnsIfIsDup (server : WireServer) (tcpip_if : Iface) : Bool :=
  match mdnsGetOtherIf tcpip_if with
  | none => false
  | some other =>
      (server.ifaces tcpip_if).dup4 || (server.ifaces tcpip_if).dup6 || (server.ifaces other).dup4 ||
        (server.ifaces other).dup6

/-- The address of an interface, and of the other one on the same subnet. `record` appends one. -/
def appendAddresses {α : Type} (server : WireServer) (tcpip_if : Iface) (address : Iface → Option α) (ok : α → Bool)
    (record : OutPacket → α → Nat × OutPacket) (p : OutPacket) : Nat × OutPacket :=
  match address tcpip_if with
  | none => (0, p)
  | some ip =>
      if ok ip = false then (0, p)
      else
        let (length, p) := record p ip
        if length = 0 then (0, p)
        else if mdnsIfIsDup server tcpip_if = false then (1, p)
        else
          match (mdnsGetOtherIf tcpip_if).bind address with
          | none => (1, p)
          | some ip =>
              let (length, p) := record p ip
              (if length > 0 then 2 else 1, p)

/-- The number of records that are added. A service without a name is taken for one with the empty name. -/
def mdnsAppendAnswer (server : WireServer) (tcpip_if : Iface) (answer : WireAnswer) : Nat × OutPacket :=
  let one := fun (result : Nat × OutPacket) => (if result.1 > 0 then 1 else 0, result.2)
  match answer.body with
  | .ptr s =>
      one (p.mdnsAppendPtrRecord ((mdnsGetServiceInstanceName server s).getD []) s.service s.proto answer.bye)
  | .customPtr instanceName service proto => one (p.mdnsAppendPtrRecord instanceName service proto answer.bye)
  | .srv s => one (p.mdnsAppendSrvRecord server s answer.flush answer.bye)
  | .txt s => one (p.mdnsAppendTxtRecord server s answer.flush answer.bye)
  | .sdptr s => one (p.mdnsAppendSdptrRecord s answer.flush)
  | .a =>
      if (server.ifaces tcpip_if).pcb4 = false ∧ (server.ifaces tcpip_if).dup4 = false then (0, p)
      else
        appendAddresses server tcpip_if (fun i => (server.ifaces i).ip4) (fun _ => true)
          (fun p ip => p.mdnsAppendARecord server ip answer.flush answer.bye) p
  | .aaaa =>
      if (server.ifaces tcpip_if).pcb6 = false ∧ (server.ifaces tcpip_if).dup6 = false then (0, p)
      else
        appendAddresses server tcpip_if (fun i => (server.ifaces i).ip6) (fun ip => ip.toList.any (· ≠ 0))
          (fun p ip => p.mdnsAppendAaaaRecord server ip answer.flush answer.bye) p

def appendAll {α : Type} (append : OutPacket → α → Nat × OutPacket) : List α → Nat → OutPacket → Nat × OutPacket
  | [], count, p => (count, p)
  | x :: rest, count, p =>
      let (added, p) := append p x
      appendAll append rest ((count + added) % 256) p

def appendSection {α : Type} (append : OutPacket → α → Nat × OutPacket) (items : List α) (location : Nat)
    (p : OutPacket) : OutPacket :=
  let (count, p) := appendAll append items 0 p
  p.mdnsSetU16 location (BitVec.ofNat 16 count)

def ofStale (stale : Memory) : OutPacket := ⟨Memory.fill stale 0 MDNS_HEAD_LEN 0, MDNS_HEAD_LEN⟩

def mdnsDispatchTxPacket (server : WireServer) (t : WirePacket) (stale : Memory) : OutPacket :=
  let p := (ofStale stale).mdnsSetU16 2 t.flags
  let p := appendSection countQuestion t.questions 4 p
  let p := appendSection (fun p a => p.mdnsAppendAnswer server t.tcpip_if a) t.answers 6 p
  let p := appendSection (fun p a => p.mdnsAppendAnswer server t.tcpip_if a) t.servers 8 p
  appendSection (fun p a => p.mdnsAppendAnswer server t.tcpip_if a) t.additional 10 p

def sent (p : OutPacket) : List (BitVec 8) := Memory.load p.mem 0 p.index

end OutPacket

end EspFirmware.Mdns
