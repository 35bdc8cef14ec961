import EspFirmware.Lib.CString

/-!
The responder of mDNS (`mdns.c`): the interfaces with the states they are in, the packets that wait to be sent, and
what the actions of the service task and the timer do with them, operation by operation.
-/

namespace EspFirmware.Mdns

inductive Iface where
  | sta
  | ap
  | eth
  deriving DecidableEq, Repr

inductive IpProtocol where
  | v4
  | v6
  deriving DecidableEq, Repr

structure Key where
  tcpip_if : Iface
  ip_protocol : IpProtocol
  deriving DecidableEq, Repr

def allKeys : List Key :=
  [⟨.sta, .v4⟩, ⟨.sta, .v6⟩, ⟨.ap, .v4⟩, ⟨.ap, .v6⟩, ⟨.eth, .v4⟩, ⟨.eth, .v6⟩]

def mdnsGetOtherIf : Iface → Option Iface
  | .sta => some .eth
  | .eth => some .sta
  | .ap => none

inductive PcbState where
  | off
  | dup
  | init
  | probe1
  | probe2
  | probe3
  | announce1
  | announce2
  | announce3
  | running
  deriving DecidableEq, Repr

def PcbState.isProbing : PcbState → Bool
  | .dup | .init | .probe1 | .probe2 | .probe3 => true
  | _ => false

def PcbState.isAnnouncing : PcbState → Bool
  | .announce1 | .announce2 | .announce3 => true
  | _ => false

inductive RecordType where
  | a
  | aaaa
  | ptr
  | sdptr
  | srv
  | txt
  deriving DecidableEq, Repr

structure OutAnswer where
  type : RecordType
  service : Option Nat
  flush : Bool
  deriving DecidableEq, Repr

def mdnsAllocAnswer (destination : List OutAnswer) (type : RecordType) (service : Option Nat) (flush : Bool) :
    List OutAnswer :=
  if destination.any fun d => d.type = type ∧ d.service = service then destination
  else destination ++ [⟨type, service, flush⟩]

/-- A packet to send, with a number of its own and how often it has been dispatched. A question is for a service, or
for the host. -/
structure TxPacket where
  id : Nat
  key : Key
  send_at : Nat
  distributed : Bool
  questions : List (Option Nat)
  answers : List OutAnswer
  servers : List OutAnswer
  additional : List OutAnswer
  dispatched : Nat
  deriving DecidableEq, Repr

structure Pcb where
  state : PcbState
  pcb : Bool
  probe_services : List Nat
  probe_ip : Bool
  probe_running : Bool
  failed_probes : Nat
  probe : Option Nat
  deriving DecidableEq, Repr

/-- An interface that went on from its last probe: the packet that was handled, the packet of the latest probe, and
the answers of the announcement. -/
structure Announced where
  packet : TxPacket
  probe : Option Nat
  answers : List OutAnswer
  deriving DecidableEq, Repr

/-- `handed` are the packets that the timer has handed over and that have not been handled yet: those of the
`ACTION_TX_HANDLE` actions, oldest first. The clock does not come round after 32 bits as that of `Timing` does: the
order of the queue and the packets that are due are no part of what the invariants of the responder say. -/
structure Responder where
  hasHostname : Bool
  pcbs : Key → Pcb
  tx_queue : List TxPacket
  handed : List TxPacket
  now : Nat
  nextId : Nat
  announced : List Announced

inductive ProbeMemory where
  | all
  | noServices
  | noPacket
  deriving DecidableEq, Repr

namespace Responder
variable (r : Responder)

def setPcb (k : Key) (pcb : Pcb) : Responder := { r with pcbs := fun j => if j = k then pcb else r.pcbs j }

def insertPacket (packet : TxPacket) : List TxPacket → List TxPacket
  | [] => [packet]
  | q :: rest => if q.send_at > packet.send_at then packet :: q :: rest else q :: insertPacket packet rest

def mdnsScheduleTxPacket (packet : TxPacket) (ms_after : Nat) : Responder :=
  { r with tx_queue := insertPacket { packet with send_at := r.now + ms_after } r.tx_queue }

def mdnsClearTxQueueHead : Responder := { r with tx_queue := [] }

def mdnsClearPcbTxQueueHead (k : Key) : Responder := { r with tx_queue := r.tx_queue.filter fun q => q.key ≠ k }

def mdnsAllocPacketDefault (k : Key) : TxPacket := ⟨r.nextId, k, 0, false, [], [], [], [], 0⟩

def mdnsCreateProbePacket (k : Key) (services : List Nat) (include_ip : Bool) : TxPacket :=
  let packet := services.foldl (fun (packet : TxPacket) service =>
    { packet with
      questions := if some service ∈ packet.questions then packet.questions else packet.questions ++ [some service]
      servers := mdnsAllocAnswer packet.servers .srv (some service) false }) (r.mdnsAllocPacketDefault k)
  if include_ip ∧ r.hasHostname then
    let servers := if (r.pcbs ⟨k.tcpip_if, .v4⟩).pcb then mdnsAllocAnswer packet.servers .a none false else packet.servers
    { packet with
      questions := if none ∈ packet.questions then packet.questions else packet.questions ++ [none]
      servers := if (r.pcbs ⟨k.tcpip_if, .v6⟩).pcb then mdnsAllocAnswer servers .aaaa none false else servers }
  else packet

def announceService (answers : List OutAnswer) (service : Option Nat) : List OutAnswer :=
  let answers := mdnsAllocAnswer answers .sdptr service false
  let answers := mdnsAllocAnswer answers .ptr service false
  let answers := mdnsAllocAnswer answers .srv service true
  mdnsAllocAnswer answers .txt service true

def announceIp (answers : List OutAnswer) : List OutAnswer :=
  mdnsAllocAnswer (mdnsAllocAnswer answers .a none true) .aaaa none true

def mdnsCreateAnnouncePacket (k : Key) (services : List Nat) (include_ip : Bool) : TxPacket :=
  let answers := services.foldl (fun answers service => announceService answers (some service)) []
  { r.mdnsAllocPacketDefault k with answers := if include_ip then announceIp answers else answers }

def announceServer (answers : List OutAnswer) (s : OutAnswer) : List OutAnswer :=
  match s.type with
  | .srv => announceService answers s.service
  | .a | .aaaa => mdnsAllocAnswer answers s.type none true
  | _ => answers

def mdnsCreateAnnounceFromProbe (probe : TxPacket) : TxPacket :=
  { r.mdnsAllocPacketDefault probe.key with answers := probe.servers.foldl announceServer [] }

def mdnsInitPcbProbe (k : Key) (services : List Nat) (probe_ip : Bool) (random : Nat) (memory : ProbeMemory) :
    Responder :=
  let r := r.mdnsClearPcbTxQueueHead k
  let pcb := r.pcbs k
  if r.hasHostname = false then r.setPcb k { pcb with state := .running, probe := none }
  else
    let services := if pcb.state.isProbing then services ++ pcb.probe_services else services
    if memory = .noServices ∧ services ≠ [] then r.setPcb k { pcb with probe := none }
    else
      let probe_ip := pcb.probe_ip || probe_ip
      let pcb := { pcb with probe_ip := false, probe_services := [], probe_running := false, probe := none }
      if memory = .noPacket then r.setPcb k pcb
      else
        let packet := r.mdnsCreateProbePacket k services probe_ip
        let pcb := { pcb with
          probe_ip := probe_ip
          probe_services := services
          probe_running := true
          state := .probe1
          probe := some packet.id }
        ({ r with nextId := r.nextId + 1 }.setPcb k pcb).mdnsScheduleTxPacket packet
          ((if pcb.failed_probes > 5 then 1000 else 120) + random % 128)

def updateFirst (k : Key) (f : TxPacket → TxPacket) : List TxPacket → List TxPacket
  | [] => []
  | q :: rest => if q.key = k then f q :: rest else q :: updateFirst k f rest

def addAnnouncement (services : List Nat) (include_ip : Bool) (p : TxPacket) : TxPacket :=
  let answers := services.foldl (fun answers service => announceService answers (some service)) p.answers
  if include_ip then
    { p with
      answers := announceIp answers
      additional := (p.additional.eraseP fun d => d.type = .a ∧ d.service = none).eraseP
        fun d => d.type = .aaaa ∧ d.service = none }
  else { p with answers := answers }

def mdnsAnnouncePcb (k : Key) (services : List Nat) (include_ip : Bool) (random : Nat) (memory : ProbeMemory) :
    Responder :=
  let pcb := r.pcbs k
  if pcb.pcb = false then r
  else if pcb.state.isProbing then r.mdnsInitPcbProbe k services include_ip random memory
  else if pcb.state.isAnnouncing then
    if r.tx_queue.any fun q => q.key = k then
      { r with tx_queue := updateFirst k (addAnnouncement services include_ip) r.tx_queue }.setPcb k
        { pcb with state := .announce1 }
    else r
  else if pcb.state = .running ∧ r.hasHostname then
    let r' := r.setPcb k { pcb with state := .announce1 }
    if memory = .noPacket then r'
    else
      { r' with nextId := r'.nextId + 1 }.mdnsScheduleTxPacket (r'.mdnsCreateAnnouncePacket k services include_ip) 0
  else r

def scheduleAnswer (k : Key) (distributed : Bool) (answers additional : List OutAnswer) (ms_after : Nat) : Responder :=
  match (r.pcbs k).state with
  | .announce1 | .announce2 | .announce3 | .running =>
      { r with nextId := r.nextId + 1 }.mdnsScheduleTxPacket
        { r.mdnsAllocPacketDefault k with distributed := distributed, answers := answers, additional := additional }
        ms_after
  | _ => r

def mdnsRemoveScheduledAnswer (k : Key) (type : RecordType) (service : Option Nat) : Responder :=
  { r with tx_queue := r.tx_queue.map fun q =>
    if q.key = k ∧ q.distributed then
      { q with answers := q.answers.eraseP fun a => a.type = type ∧ a.service = service }
    else q }

def dropService (service : Nat) (q : TxPacket) : TxPacket :=
  let other := fun (d : OutAnswer) => d.service ≠ some service
  { q with
    answers := q.answers.filter other
    additional := q.additional.filter other
    servers := q.servers.filter other }

def dropFromPacket (service : Nat) (pcb : Pcb) (q : TxPacket) : Pcb × TxPacket :=
  let q' := dropService service q
  if pcb.pcb = false then (pcb, q')
  else if pcb.state.isProbing then
    if service ∈ pcb.probe_services then
      let pcb' :=
        if pcb.probe_services.length > 1 then { pcb with probe_services := pcb.probe_services.erase service }
        else if pcb.probe_ip then { pcb with probe_services := [] }
        else { pcb with probe_services := [], probe_running := false, state := .running }
      (pcb', { q' with questions := q'.questions.erase (some service) })
    else (pcb, q')
  else if pcb.state.isAnnouncing ∧ q.answers ≠ [] ∧ q'.answers = [] then ({ pcb with state := .running }, q')
  else (pcb, q')

def TxPacket.isEmpty (q : TxPacket) : Bool :=
  q.questions.isEmpty && q.answers.isEmpty && q.additional.isEmpty && q.servers.isEmpty

def dropFromQueue (service : Nat) : List TxPacket → (Key → Pcb) → (Key → Pcb) × List TxPacket
  | [], pcbs => (pcbs, [])
  | q :: rest, pcbs =>
      let (pcb, q') := dropFromPacket service (pcbs q.key) q
      let (pcbs, rest) := dropFromQueue service rest fun j => if j = q.key then pcb else pcbs j
      (pcbs, if TxPacket.isEmpty q' then rest else q' :: rest)

def mdnsRemoveScheduledServicePackets (service : Nat) : Responder :=
  let (pcbs, queue) := dropFromQueue service r.tx_queue r.pcbs
  { r with pcbs := pcbs, tx_queue := queue }

def mdnsPcbDeinit (k : Key) : Responder :=
  if (r.pcbs k).pcb then
    r.setPcb k { r.pcbs k with
      state := .off, pcb := false, probe_ip := false, probe_services := [], probe_running := false, failed_probes := 0 }
  else r

def setState (k : Key) (state : PcbState) : Responder := r.setPcb k { r.pcbs k with state := state }

def mdnsTxHandlePacket (p : TxPacket) (memory : Bool) : Responder :=
  let pcb := r.pcbs p.key
  let p := if pcb.state = .off then p else { p with dispatched := p.dispatched + 1 }
  match pcb.state with
  | .probe1 => (r.mdnsScheduleTxPacket p 250).setState p.key .probe2
  | .probe2 => (r.mdnsScheduleTxPacket p 250).setState p.key .probe3
  | .probe3 =>
      if memory then
        let a := r.mdnsCreateAnnounceFromProbe p
        let pcb := { pcb with
          probe_running := false, probe_ip := false, probe_services := [], failed_probes := 0, state := .announce1 }
        ({ r with
          nextId := r.nextId + 1
          announced := r.announced ++ [(⟨p, pcb.probe, a.answers⟩ : Announced)] }.setPcb p.key pcb).mdnsScheduleTxPacket a 250
      else r.mdnsScheduleTxPacket p 250
  | .announce1 => (r.mdnsScheduleTxPacket p 1000).setState p.key .announce2
  | .announce2 => (r.mdnsScheduleTxPacket p 1000).setState p.key .announce3
  | .announce3 => r.setState p.key .running
  | .off | .dup | .init | .running => r

def mdnsSchedulerRun (sent : Bool) : Responder :=
  match r.tx_queue with
  | [] => r
  | p :: rest => if p.send_at < r.now ∧ sent then { r with tx_queue := rest, handed := r.handed ++ [p] } else r

end Responder

inductive MdnsOp where
  | setHostname
  /-- `_mdns_clear_tx_queue_head` and `_mdns_clear_pcb_tx_queue_head` -/
  | clearAll
  | clearPcb (k : Key)
  /-- `clear_old_probe` of `_mdns_probe_all_pcbs` -/
  | clearOldProbe (k : Key)
  | initPcbProbe (k : Key) (services : List Nat) (probe_ip : Bool) (random : Nat) (memory : ProbeMemory)
  | announcePcb (k : Key) (services : List Nat) (include_ip : Bool) (random : Nat) (memory : ProbeMemory)
  | answer (k : Key) (distributed : Bool) (answers additional : List OutAnswer) (ms_after : Nat)
  | removeAnswer (k : Key) (type : RecordType) (service : Option Nat)
  | removeService (service : Nat)
  /-- `_mdns_pcb_init`, `_mdns_pcb_deinit`, and the states that are set by hand -/
  | pcbInit (k : Key)
  | pcbDeinit (k : Key)
  | pcbOff (k : Key)
  | pcbDup (k : Key)
  | failedProbe (k : Key)
  deriving DecidableEq, Repr

def MdnsOp.run (r : Responder) : MdnsOp → Responder
  | .setHostname => { r with hasHostname := true }
  | .clearAll => r.mdnsClearTxQueueHead
  | .clearPcb k => r.mdnsClearPcbTxQueueHead k
  | .clearOldProbe k => r.setPcb k { r.pcbs k with probe_services := [], probe_running := false }
  | .initPcbProbe k services probe_ip random memory => r.mdnsInitPcbProbe k services probe_ip random memory
  | .announcePcb k services include_ip random memory => r.mdnsAnnouncePcb k services include_ip random memory
  | .answer k distributed answers additional ms_after => r.scheduleAnswer k distributed answers additional ms_after
  | .removeAnswer k type service => r.mdnsRemoveScheduledAnswer k type service
  | .removeService service => r.mdnsRemoveScheduledServicePackets service
  | .pcbInit k => r.setPcb k { r.pcbs k with pcb := true, failed_probes := 0 }
  | .pcbDeinit k => r.mdnsPcbDeinit k
  | .pcbOff k => r.setState k .off
  | .pcbDup k => r.setState k .dup
  | .failedProbe k => r.setPcb k { r.pcbs k with failed_probes := (r.pcbs k).failed_probes + 1 }

inductive MdnsEvent where
  | op (o : MdnsOp)
  /-- time passes, and the timer runs -/
  | tick (ms : Nat)
  | scheduler (sent : Bool)
  /-- the next packet that was handed over is handled -/
  | txHandle (memory : Bool)
  deriving DecidableEq, Repr

def MdnsEvent.run (r : Responder) : MdnsEvent → Option Responder
  | .op o => some (o.run r)
  | .tick ms => some { r with now := r.now + ms }
  | .scheduler sent => some (r.mdnsSchedulerRun sent)
  | .txHandle memory =>
      match r.handed with
      | [] => none
      | p :: rest => some ({ r with handed := rest }.mdnsTxHandlePacket p memory)

end EspFirmware.Mdns
