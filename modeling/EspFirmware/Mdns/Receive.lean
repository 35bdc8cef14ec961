import EspFirmware.Mdns.Actions
import EspFirmware.Mdns.Records

/-!
What is done with the records of a received message (`mdns_parse_packet` of `mdns.c`) that asks no questions: a record is
for a search that runs, or it is compared with what we have under its name. Memory is there whenever a search asks for
some.
-/

namespace EspFirmware.Mdns
open EspFirmware.Lib

def MDNS_FLAGS_AUTHORITATIVE : BitVec 16 := 0x8400
def MDNS_FLAGS_DISTRIBUTED : BitVec 16 := 0x0200
def MDNS_SERVICE_PORT : Nat := 5353
def MDNS_TYPE_OPT : BitVec 16 := 0x0029
def MDNS_TYPE_NSEC : BitVec 16 := 0x002F
def MDNS_TYPE_ANY : BitVec 16 := 0x00FF
def MDNS_DATA_OFFSET : Nat := 10
def MDNS_SRV_FQDN_OFFSET : Nat := 6

structure IpAddr where
  protocol : IpProtocol
  bytes : List (BitVec 8)
  deriving DecidableEq, Repr

/-- An `mdns_result_t`; without TXT items its array is not there. -/
structure RxResult where
  key : Key
  instance_name : Option CString
  hostname : Option CString
  port : BitVec 16
  txt : List TxtItem
  addr : List IpAddr
  deriving DecidableEq, Repr

structure RxSearch where
  id : Nat
  state : SearchState
  type : BitVec 16
  instanceName : Option CString
  service : Option CString
  proto : Option CString
  max_results : Nat
  num_results : Nat
  result : List RxResult
  deriving DecidableEq, Repr

namespace RxResult
variable (r : RxResult)

def named (field : Option CString) (host : CString) : Bool :=
  field.any fun name => name ≠ [] ∧ strcasecmp host name

def mdnsResultAddIp (ip : IpAddr) : RxResult := if ip ∈ r.addr then r else { r with addr := ip :: r.addr }

end RxResult

namespace RxSearch
variable (s : RxSearch)

def emptyResult (key : Key) : RxResult := ⟨key, none, none, 0, [], []⟩

def hasRoom : Bool := s.max_results = 0 ∨ s.num_results < s.max_results

def addResult (r : RxResult) : RxSearch := { s with result := r :: s.result, num_results := (s.num_results + 1) % 256 }

def mdnsSearchResultAddIp (hostname : CString) (ip : IpAddr) (key : Key) : RxSearch :=
  if (s.type = WireType.a.code ∧ ip.protocol = .v4) ∨ (s.type = WireType.aaaa.code ∧ ip.protocol = .v6) ∨
      s.type = MDNS_TYPE_ANY then
    match s.result.findIdx? fun r => r.key = key with
    | some i => { s with result := s.result.modify i fun r => r.mdnsResultAddIp ip }
    | none => if s.hasRoom then s.addResult { emptyResult key with addr := [ip] } else s
  else if s.type = WireType.ptr.code then
    match s.result.findIdx? fun r => r.key = key ∧ RxResult.named r.hostname hostname with
    | some i => { s with result := s.result.modify i fun r => r.mdnsResultAddIp ip }
    | none => s
  else s

def mdnsSearchResultAddPtr (instance_name : CString) (key : Key) : Option (RxSearch × Nat) :=
  match s.result.findIdx? fun r => r.key = key ∧ RxResult.named r.instance_name instance_name with
  | some i => some (s, i)
  | none => if s.hasRoom then some (s.addResult { emptyResult key with instance_name := some instance_name }, 0) else none

def mdnsSearchResultAddSrv (hostname : CString) (port : BitVec 16) (key : Key) : RxSearch :=
  if s.result.any fun r => r.key = key ∧ RxResult.named r.hostname hostname then s
  else if s.hasRoom then s.addResult { emptyResult key with hostname := some hostname, port := port }
  else s

def mdnsSearchResultAddTxt (txt : List TxtItem) (key : Key) : RxSearch :=
  match s.result.findIdx? fun r => r.key = key with
  | some i => { s with result := s.result.modify i fun r => if r.txt ≠ [] then r else { r with txt := txt } }
  | none => if s.hasRoom then s.addResult { emptyResult key with txt := txt } else s

def instanceResult (host : CString) (key : Key) : Option (RxSearch × Nat) :=
  match s.result.findIdx? fun r => r.key = key ∧ r.instance_name = some host with
  | some i => some (s, i)
  | none => s.mdnsSearchResultAddPtr host key

/-- `strcasecmp` with a name of the search; `none` where it is a null pointer. -/
def compare (name : CString) (field : Option CString) : Option Bool := field.map fun f => strcasecmp name f

def sameService (name : MdnsName) : Option Bool :=
  match compare name.service s.service with
  | some true => compare name.proto s.proto
  | other => other

def isFor (name : MdnsName) (type : BitVec 16) (key : Key) : Option Bool :=
  if s.state = .off then some false
  else if type = WireType.a.code ∨ type = WireType.aaaa.code then
    if (s.type = MDNS_TYPE_ANY ∧ s.service ≠ none) ∨
        (s.type ≠ MDNS_TYPE_ANY ∧ s.type ≠ type ∧ s.type ≠ WireType.ptr.code) then some false
    else if s.type ≠ WireType.ptr.code then compare name.host s.instanceName
    else some (s.result.any fun r => r.key = key ∧ RxResult.named r.hostname name.host)
  else if type = WireType.srv.code ∨ type = WireType.txt.code then
    if (s.type = MDNS_TYPE_ANY ∧ s.service = none) ∨
        (s.type ≠ MDNS_TYPE_ANY ∧ s.type ≠ type ∧ s.type ≠ WireType.ptr.code) then some false
    else
      match s.sameService name with
      | some true => if s.type ≠ WireType.ptr.code then compare name.host s.instanceName else some true
      | other => other
  else if type = WireType.ptr.code ∧ type = s.type then s.sameService name
  else some false

end RxSearch

inductive SearchFound where
  | fault
  | none
  | found (search : Nat)
  deriving DecidableEq, Repr

def mdnsSearchFindFrom (name : MdnsName) (type : BitVec 16) (key : Key) : List RxSearch → SearchFound
  | [] => .none
  | s :: rest =>
      match s.isFor name type key with
      | .none => .fault
      | some true => .found s.id
      | some false => mdnsSearchFindFrom name type key rest

structure ServiceItem where
  ptr : Nat
  service : WireService
  deriving DecidableEq, Repr

structure RxServer where
  names : WireServer
  services : List ServiceItem
  search_once : List RxSearch
  responder : Responder

/-- What is up to others while a record is handled: random numbers and memory for probes, and what is on the stack. -/
structure RxEnv where
  random : Key → Nat
  memory : Key → ProbeMemory
  stack : Memory

namespace RxServer
variable (s : RxServer)

def serviceItem (service proto : CString) : Option ServiceItem :=
  s.services.find? fun item => strcasecmp item.service.service service && strcasecmp item.service.proto proto

def mdnsNameIsOurs (name : MdnsName) : Bool :=
  if name.domain = [] ∨ strcasecmp name.domain MDNS_DEFAULT_DOMAIN = false then false
  else if name.service = [] ∧ name.proto = [] then
    name.host ≠ [] ∧ s.names.hostname ≠ [] ∧ strcasecmp name.host s.names.hostname
  else if name.service = [] ∨ name.proto = [] then false
  else
    match s.serviceItem name.service name.proto with
    | none => false
    | some item =>
        if name.host = [] then true
        else
          match mdnsGetServiceInstanceName s.names item.service with
          | none => false
          | some instanceName => strcasecmp name.host instanceName

/-- `_mdns_check_a_collision` and `_mdns_check_aaaa_collision`: 1 we have lost, -1 we have won, and 2 it is our own
address on the other interface. -/
def checkAddress (address : Iface → Option (List (BitVec 8))) (ip : List (BitVec 8)) (tcpip_if : Iface) : Int :=
  if ip.all (· = 0) then 1
  else
    match address tcpip_if with
    | none => 1
    | some if_ip =>
        let ret := memcmp if_ip ip
        if ret > 0 then -1
        else if ret < 0 then
          match (mdnsGetOtherIf tcpip_if).bind address with
          | none => 1
          | some other_ip => if ip ≠ other_ip then 1 else 2
        else 0

def mdnsCheckACollision (ip : List (BitVec 8)) (tcpip_if : Iface) : Int :=
  checkAddress (fun i => (s.names.ifaces i).ip4.map fun a =>
    [a.extractLsb' 0 8, a.extractLsb' 8 8, a.extractLsb' 16 8, a.extractLsb' 24 8]) ip tcpip_if

def mdnsCheckAaaaCollision (ip : List (BitVec 8)) (tcpip_if : Iface) : Int :=
  checkAddress (fun i => (s.names.ifaces i).ip6.map Vector.toList) ip tcpip_if

def withOps (f : Responder → Responder) : RxServer := { s with responder := f s.responder }

def probeRunning (k : Key) : Bool := (s.responder.pcbs k).probe_running

def initProbe (e : RxEnv) (k : Key) (services : List Nat) (probe_ip : Bool) : RxServer :=
  s.withOps fun r => r.mdnsInitPcbProbe k services probe_ip (e.random k) (e.memory k)

def removeAnswer (k : Key) (type : RecordType) (service : Option Nat) : RxServer :=
  s.withOps fun r => r.mdnsRemoveScheduledAnswer k type service

def failedProbe (k : Key) : RxServer :=
  s.withOps fun r => r.setPcb k { r.pcbs k with failed_probes := (r.pcbs k).failed_probes + 1 }

def mdnsProbeAllPcbs (e : RxEnv) (services : List Nat) (probe_ip clear_old_probe : Bool) : RxServer :=
  allKeys.foldl (fun (s : RxServer) k =>
    if (s.responder.pcbs k).pcb = false then s
    else
      let s := if clear_old_probe then
        s.withOps fun r => r.setPcb k { r.pcbs k with probe_services := [], probe_running := false } else s
      s.initProbe e k services probe_ip) s

def mdnsRestartAllPcbsNoInstance (e : RxEnv) : RxServer :=
  let services := (s.services.filter fun item => item.service.instanceName = []).map ServiceItem.ptr
  if services = [] then s else s.mdnsProbeAllPcbs e services false true

def mdnsRestartAllPcbs (e : RxEnv) : RxServer :=
  (s.withOps Responder.mdnsClearTxQueueHead).mdnsProbeAllPcbs e (s.services.map ServiceItem.ptr) true true

def mdnsDupInterface (e : RxEnv) (tcpip_if : Iface) : RxServer :=
  match mdnsGetOtherIf tcpip_if with
  | none => s
  | some other_if =>
      [IpProtocol.v4, .v6].foldl (fun (s : RxServer) i =>
        if (s.responder.pcbs ⟨other_if, i⟩).pcb = false then s
        else
          s.withOps fun r =>
            let r := if (r.pcbs ⟨tcpip_if, i⟩).pcb then
              (r.mdnsClearPcbTxQueueHead ⟨tcpip_if, i⟩).mdnsPcbDeinit ⟨tcpip_if, i⟩ else r
            (r.setState ⟨tcpip_if, i⟩ .dup).mdnsAnnouncePcb ⟨other_if, i⟩ [] true (e.random ⟨other_if, i⟩)
              (e.memory ⟨other_if, i⟩)) s

/-- The new name; `none` for a null pointer, or where the number in it is too large. -/
def newName (name : CString) : Option CString := if name = [] then none else (mdnsMangleName name).map MangledName.text

def renameHost (e : RxEnv) : Option RxServer :=
  (newName s.names.hostname).map fun new_host =>
    { s with names := { s.names with hostname := new_host } }.mdnsRestartAllPcbs e

def renameInstance (e : RxEnv) (item : ServiceItem) : Option RxServer :=
  if item.service.instanceName ≠ [] then
    (newName item.service.instanceName).map fun new_instance =>
      let renamed (i : ServiceItem) : ServiceItem :=
        if i.ptr = item.ptr then { i with service := { i.service with instanceName := new_instance } } else i
      { s with services := s.services.map renamed }.mdnsProbeAllPcbs e [item.ptr] false false
  else if s.names.instanceName ≠ [] then
    (newName s.names.instanceName).map fun new_instance =>
      { s with names := { s.names with instanceName := new_instance } }.mdnsRestartAllPcbsNoInstance e
  else s.renameHost e

def search (id : Nat) : Option RxSearch := s.search_once.find? fun x => x.id = id

def setSearch (x : RxSearch) : RxServer :=
  { s with search_once := s.search_once.map fun y => if y.id = x.id then x else y }

def searchesAfter (id : Nat) : List RxSearch := (s.search_once.dropWhile fun x => x.id ≠ id).tail

def findSearch (name : MdnsName) (type : BitVec 16) (key : Key) : SearchFound :=
  mdnsSearchFindFrom name type key s.search_once

/-- The address is given to the search, and to the ones behind it that the record is for as well: the searches, and
whether no null pointer is met. -/
def addIpFrom (name : MdnsName) (type : BitVec 16) (key : Key) (ip : IpAddr) :
    Nat → SearchFound → RxServer → List Nat × Option RxServer
  | 0, _, _ => ([], none)
  | _ + 1, .fault, _ => ([], none)
  | _ + 1, .none, s => ([], some s)
  | fuel + 1, .found id, s =>
      match s.search id with
      | none => ([], none)
      | some x =>
          let s := s.setSearch (x.mdnsSearchResultAddIp name.host ip key)
          let (more, s) := addIpFrom name type key ip fuel (mdnsSearchFindFrom name type key (s.searchesAfter id)) s
          (id :: more, s)

end RxServer

structure RxPacket where
  key : Key
  src_port : Nat
  mem : Memory
  len : Nat
  asksNothing : mem 4 = 0 ∧ mem 5 = 0

namespace RxPacket
variable (p : RxPacket)

def mdnsReadU16 (i : Nat) : BitVec 16 := p.mem i ++ p.mem (i + 1)

def mdnsReadU32 (i : Nat) : BitVec 32 := p.mem i ++ p.mem (i + 1) ++ p.mem (i + 2) ++ p.mem (i + 3)

def flags : BitVec 16 := p.mdnsReadU16 2
def answers : Nat := (p.mdnsReadU16 6).toNat
def servers : Nat := (p.mdnsReadU16 8).toNat
def additional : Nat := (p.mdnsReadU16 10).toNat

def authoritative : Bool := p.flags = MDNS_FLAGS_AUTHORITATIVE
def distributed : Bool := p.flags = MDNS_FLAGS_DISTRIBUTED

def parseName (start : Nat) : NameRead := mdnsParseFqdn p.mem p.len start

end RxPacket

inductive RecordSection where
  | answer
  | ns
  | extra
  deriving DecidableEq, Repr

structure RxRecord where
  name : MdnsName
  type : BitVec 16
  clas : BitVec 16
  ttl : BitVec 32
  data_ptr : Nat
  data_len : Nat
  part : RecordSection
  deriving DecidableEq, Repr

inductive RecordRead where
  | outside
  | stop
  | ok (content : Nat) (r : RxRecord)
  deriving DecidableEq, Repr

def RxPacket.readRecord (p : RxPacket) (content recordIndex : Nat) : RecordRead :=
  match p.parseName content with
  | .outside => .outside
  | .bad => .stop
  | .ok content name =>
      let data_len := (p.mdnsReadU16 (content + 8)).toNat
      let data_ptr := content + MDNS_DATA_OFFSET
      if data_ptr + data_len > p.len then .stop
      else
        .ok (data_ptr + data_len) {
          name := name
          type := p.mdnsReadU16 content
          clas := p.mdnsReadU16 (content + 2) &&& 0x7FFF
          ttl := p.mdnsReadU32 (content + 4)
          data_ptr := data_ptr
          data_len := data_len
          part :=
            if recordIndex ≥ p.answers + p.servers then .extra else if recordIndex ≥ p.answers then .ns else .answer }

/-- What comes of a record: the searches it is given to, whether it is compared with ours, and how the loop goes on with
`search_result`. -/
inductive RxNext where
  /-- a null pointer, or bytes that are not there -/
  | fault
  /-- `goto clear_rx_packet` -/
  | clear (s : RxServer)
  | go (s : RxServer) (search_result : Option Nat)

structure Handled where
  used : List Nat
  checked : Bool
  next : RxNext

def Handled.ignored (s : RxServer) (search_result : Option Nat) : Handled := ⟨[], false, .go s search_result⟩

def Handled.compared (s : Option RxServer) (search_result : Option Nat) : Handled :=
  ⟨[], true, match s with
    | none => .fault
    | some s => .go s search_result⟩

section
variable (e : RxEnv) (p : RxPacket) (s : RxServer) (search_result : Option Nat) (r : RxRecord) (ours : Bool)
  (service : Option ServiceItem)

def handlePtr : Handled :=
  match p.parseName r.data_ptr with
  | .outside => ⟨[], false, .fault⟩
  | .bad => .ignored s search_result
  | .ok _ name =>
      match search_result with
      | some id =>
          match s.search id with
          | none => ⟨[], false, .fault⟩
          | some x =>
              ⟨[id], false, .go (match x.mdnsSearchResultAddPtr name.host p.key with
                | some (x, _) => s.setSearch x
                | none => s) search_result⟩
      | none =>
          if ours ∧ name.sub = false ∧ s.mdnsNameIsOurs name then
            if r.ttl.toNat > 2250 then .ignored (s.removeAnswer p.key .ptr (service.map ServiceItem.ptr)) search_result
            else .ignored s search_result
          else .ignored s search_result

def srvCollided (col : Int) (port : BitVec 16) : Option RxServer :=
  if col ≠ 0 ∧ p.authoritative then
    if col > 0 ∨ port = 0 then
      match service with
      | none => none
      | some item =>
          if s.probeRunning p.key then (s.failedProbe p.key).renameInstance e item
          else some (s.initProbe e p.key [item.ptr] false)
    else some s
  else if r.ttl.toNat > 60 ∧ col = 0 ∧ p.authoritative = false then
    some (s.removeAnswer p.key .srv (service.map ServiceItem.ptr))
  else some s

def srvTarget (found : Option (RxSearch × Option Nat)) : Handled :=
  let used := (found.filter fun x => x.2.isSome).toList.map fun x => x.1.id
  match p.parseName (r.data_ptr + MDNS_SRV_FQDN_OFFSET) with
  | .outside => ⟨used, false, .fault⟩
  | .bad => ⟨used, false, .go s search_result⟩
  | .ok _ name =>
      let priority := p.mdnsReadU16 r.data_ptr
      let weight := p.mdnsReadU16 (r.data_ptr + 2)
      let port := p.mdnsReadU16 (r.data_ptr + 4)
      match found with
      | some (x, some i) =>
          let x := { x with result := x.result.modify i fun res => { res with port := port, hostname := some name.host } }
          ⟨[x.id], false, .go (s.setSearch x) search_result⟩
      | some (x, none) =>
          ⟨[x.id], false, .go (s.setSearch (x.mdnsSearchResultAddSrv name.host port p.key)) search_result⟩
      | none =>
          if ours = false then .ignored s search_result
          else if p.distributed then
            .ignored (s.removeAnswer p.key .srv (service.map ServiceItem.ptr)) search_result
          else if r.clas.toNat > 1 then .compared (srvCollided e p s r service 1 port) search_result
          else if r.clas = 0 then .compared (srvCollided e p s r service (-1) port) search_result
          else
            match service with
            | none => ⟨[], false, .fault⟩
            | some item =>
                .compared (srvCollided e p s r service
                  (mdnsCheckSrvCollision s.names item.service priority weight port name.host name.domain) port) search_result

def handleSrv : Handled :=
  match search_result with
  | none => srvTarget e p s search_result r ours service none
  | some id =>
      match s.search id with
      | none => ⟨[], false, .fault⟩
      | some x =>
          if x.type = WireType.ptr.code then
            match x.instanceResult r.name.host p.key with
            | none => .ignored s search_result
            | some (x, i) => srvTarget e p (s.setSearch x) search_result r ours service (some (x, some i))
          else srvTarget e p s search_result r ours service (some (x, none))

def txtCollided (col : Int) : Option RxServer :=
  if col ≠ 0 ∧ s.probeRunning p.key = false then
    match service with
    | none => none
    | some item => some (s.initProbe e p.key [item.ptr] true)
  else if r.ttl.toNat > 2250 ∧ col = 0 ∧ p.authoritative = false ∧ s.probeRunning p.key = false then
    some (s.removeAnswer p.key .txt (service.map ServiceItem.ptr))
  else some s

def txtFound (x : RxSearch) (txt : List TxtItem) : Handled :=
  if x.type = WireType.ptr.code then
    match x.instanceResult r.name.host p.key with
    | none => .ignored s search_result
    | some (x, i) =>
        let x := { x with
          result := x.result.modify i fun res => if res.txt ≠ [] then res else { res with txt := txt } }
        ⟨[x.id], false, .go (s.setSearch x) search_result⟩
  else ⟨[x.id], false, .go (s.setSearch (x.mdnsSearchResultAddTxt txt p.key)) search_result⟩

def handleTxt : Handled :=
  let data := Memory.load p.mem r.data_ptr r.data_len
  match search_result with
  | some id =>
      match mdnsResultTxtCreate data, s.search id with
      | .done [], some _ => .ignored s search_result
      | .done txt, some x => txtFound p s search_result r x txt
      | _, _ => ⟨[], false, .fault⟩
  | none =>
      if ours = false then .ignored s search_result
      else if r.clas.toNat > 1 then .compared (txtCollided e p s r service 1) search_result
      else if r.clas = 0 then .compared (txtCollided e p s r service (-1)) search_result
      else
        match service with
        | none => ⟨[], false, .fault⟩
        | some item =>
            .compared ((mdnsCheckTxtCollision item.service data e.stack).bind fun col => txtCollided e p s r service col)
              search_result

def handleAddress (protocol : IpProtocol) (type : RecordType) (size : Nat)
    (check : RxServer → List (BitVec 8) → Iface → Int) : Handled :=
  let ip := Memory.load p.mem r.data_ptr size
  match search_result with
  | some id =>
      let (used, s) := RxServer.addIpFrom r.name r.type p.key ⟨protocol, ip⟩ (s.search_once.length + 1) (.found id) s
      ⟨used, false, match s with
        | none => .fault
        | some s => .go s none⟩
  | none =>
      if ours = false then .ignored s search_result
      else
        let col : Int := if r.clas.toNat > 1 then 1 else if r.clas = 0 then -1 else check s ip p.key.tcpip_if
        if col = 2 then ⟨[], true, .clear (s.mdnsDupInterface e p.key.tcpip_if)⟩
        else if col = 1 then
          .compared (if s.probeRunning p.key then
              if p.authoritative then (s.failedProbe p.key).renameHost e else some s
            else some (s.initProbe e p.key [] true)) search_result
        else if r.ttl.toNat > 60 ∧ col = 0 ∧ p.authoritative = false ∧ s.probeRunning p.key = false then
          .compared (some (s.removeAnswer p.key type none)) search_result
        else .compared (some s) search_result

def handleRecord : Handled :=
  if r.type = WireType.ptr.code then handlePtr p s search_result r ours service
  else if r.type = WireType.srv.code then handleSrv e p s search_result r ours service
  else if r.type = WireType.txt.code then handleTxt e p s search_result r ours service
  else if r.type = WireType.aaaa.code then
    handleAddress e p s search_result r ours .v6 .aaaa 16 RxServer.mdnsCheckAaaaCollision
  else if r.type = WireType.a.code then
    handleAddress e p s search_result r ours .v4 .a 4 RxServer.mdnsCheckACollision
  else .ignored s search_result

/-- One turn of the loop. Nothing was asked, so that there is no discovery. -/
def judgeRecord : Handled :=
  if r.type = MDNS_TYPE_NSEC ∨ r.type = MDNS_TYPE_OPT then .ignored s search_result
  else if r.name.sub = false ∧ s.mdnsNameIsOurs r.name then
    handleRecord e p s search_result r true
      (if r.name.service ≠ [] ∧ r.name.proto ≠ [] then s.serviceItem r.name.service r.name.proto else none)
  else if p.authoritative = false ∨ r.part = .ns then .ignored s search_result
  else
    match s.findSearch r.name r.type p.key with
    | .fault => ⟨[], false, .fault⟩
    | .none => handleRecord e p s none r false none
    | .found id => handleRecord e p s (some id) r false none

end

structure RxStep where
  record : RxRecord
  server : RxServer
  handled : Handled

inductive RxEnd where
  | fault
  | clear (s : RxServer)
  | done (s : RxServer)

section
variable (e : Nat → RxEnv) (p : RxPacket)

def recordsFrom : Nat → Nat → Nat → RxServer → Option Nat → List RxStep × RxEnd
  | 0, _, _, _, _ => ([], .fault)
  | fuel + 1, content, recordIndex, s, search_result =>
      if content ≥ p.len then ([], .done s)
      else
        match p.readRecord content recordIndex with
        | .outside => ([], .fault)
        | .stop => ([], .clear s)
        | .ok content r =>
            let handled := judgeRecord (e recordIndex) p s search_result r
            let (steps, end_) := match handled.next with
              | .fault => ([], .fault)
              | .clear s => ([], .clear s)
              | .go s search_result => recordsFrom fuel content ((recordIndex + 1) % 65536) s search_result
            (⟨r, s, handled⟩ :: steps, end_)

def RxServer.finishDone (s : RxServer) : RxServer :=
  { s with search_once := s.search_once.filter fun x => x.max_results = 0 ∨ x.num_results < x.max_results }

/-- `mdns_parse_packet` of a message without questions: the records that it came to, and the server afterwards. -/
def mdnsParsePacket (s : RxServer) : List RxStep × RxEnd :=
  if p.authoritative ∧ p.src_port ≠ MDNS_SERVICE_PORT then ([], .clear s)
  else if p.answers ≠ 0 ∨ p.servers ≠ 0 ∨ p.additional ≠ 0 then
    match recordsFrom e p (p.len + 1) MDNS_HEAD_LEN 0 s none with
    | (steps, .done s) => (steps, .done (if p.authoritative then s.finishDone else s))
    | other => other
  else ([], .done s)

end

end EspFirmware.Mdns
