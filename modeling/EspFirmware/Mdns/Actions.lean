import EspFirmware.Mdns.Responder
import EspFirmware.Mdns.Services

/-!
The actions of the mDNS responder (`mdns.c`) and the objects that they refer to: API calls look a service up or make a
search and queue bare pointers, the timer hands packets over and runs the searches, and the service task executes. An
object is told apart by the number of its allocation, so that an address that is used again is another object.
-/

namespace EspFirmware.Mdns
open EspFirmware.Lib

inductive SearchState where
  | off
  | init
  | running
  deriving DecidableEq, Repr

structure Search where
  id : Nat
  state : SearchState
  started_at : Nat
  sent_at : Int
  timeout : Nat
  num_results : Nat
  max_results : Nat
  deriving DecidableEq, Repr

inductive SrvSetter where
  | instanceSet
  | portSet
  | txtReplace
  | txtSet
  | txtDel
  deriving DecidableEq, Repr

inductive MdnsAction where
  | systemEvent
  | hostnameSet
  | instanceSet
  | serviceAdd (item : SrvItem)
  | serviceSet (setter : SrvSetter) (ptr : Nat)
  | serviceDel (ptr : Nat)
  | servicesClear
  | searchAdd (search : Search)
  | searchSend (search : Nat)
  | searchEnd (search : Nat)
  | txHandle (packet : TxPacket)
  | rxHandle
  deriving DecidableEq, Repr

inductive ApiPc where
  | idle
  /-- the action is made and not queued yet -/
  | send (action : MdnsAction)
  /-- `mdns_query`, before it queues its search, and when it waits for it -/
  | query (search : Search)
  | waiting (search : Nat)
  deriving DecidableEq, Repr

def Search.turn (x : Search) (now : Nat) (taken : Bool) : Search × Option MdnsAction :=
  if x.state = .off then (x, none)
  else if now > x.started_at + x.timeout then
    if taken then ({ x with state := .off }, some (.searchEnd x.id)) else ({ x with state := .running }, none)
  else if x.state = .init ∨ now - x.sent_at > 1000 then
    if taken then ({ x with state := .running, sent_at := now }, some (.searchSend x.id))
    else ({ x with state := .running, sent_at := now - 1000 }, none)
  else (x, none)

/-- The loop of `_mdns_search_run`; there is no memory for actions of the searches `noMemory`. -/
def searchRunFrom (now : Nat) (noMemory : List Nat) : List Search → List MdnsAction → List Search × List MdnsAction
  | [], queue => ([], queue)
  | x :: rest, queue =>
      let (x', action) := x.turn now (x.id ∉ noMemory ∧ queue.length < MDNS_ACTION_QUEUE_LEN)
      let (rest, queue) := searchRunFrom now noMemory rest (queue ++ action.toList)
      (x' :: rest, queue)

def addResult (searches : List Search) (id : Nat) : List Search :=
  searches.map fun x =>
    if x.id = id ∧ (x.max_results = 0 ∨ x.num_results < x.max_results) then { x with num_results := x.num_results + 1 }
    else x

def Search.done (x : Search) : Bool := x.max_results ≠ 0 ∧ x.num_results ≥ x.max_results

/-- `released`, `freedSearches` and `freedPackets` are the searches that were given back to their callers and what was
freed, and `stale` the actions that were executed and referred to what was gone. The packets that were handed over
are those of the actions. -/
structure MdnsState (n : Nat) where
  responder : Responder
  services : List SrvItem
  search_once : List Search
  action_queue : List MdnsAction
  /-- the action that the service task has received and not executed yet -/
  received : Option MdnsAction
  /-- the head of the tx queue that the timer has read before it takes the lock -/
  timer : Option TxPacket
  pc : Fin n → ApiPc
  nextObject : Nat
  released : List Nat
  freedSearches : List Nat
  freedPackets : List Nat
  stale : List MdnsAction

namespace MdnsState
variable {n : Nat} (s : MdnsState n)

def start (n : Nat) (responder : Responder) : MdnsState n where
  responder := responder
  services := []
  search_once := []
  action_queue := []
  received := none
  timer := none
  pc _ := .idle
  nextObject := 0
  released := []
  freedSearches := []
  freedPackets := []
  stale := []

def goto (i : Fin n) (pc : ApiPc) : MdnsState n := { s with pc := fun j => if j = i then pc else s.pc j }

def refersToLive : MdnsAction → Bool
  | .serviceSet _ ptr | .serviceDel ptr => s.services.any fun item => item.ptr = ptr
  | .searchAdd x => x.id ∉ s.released
  | .searchSend x | .searchEnd x => x ∉ s.released
  | .txHandle p => p.id ∉ s.freedPackets
  | .systemEvent | .hostnameSet | .instanceSet | .serviceAdd _ | .servicesClear | .rxHandle => true

def packetIds (r : Responder) : List Nat := r.tx_queue.map TxPacket.id

def withResponder (r : Responder) (before : List Nat) : MdnsState n :=
  { s with
    responder := r
    freedPackets := s.freedPackets ++ before.filter fun id => id ∉ packetIds r }

def runOp (o : MdnsOp) : MdnsState n := s.withResponder (o.run s.responder) (packetIds s.responder)

def runOps (ops : List MdnsOp) : MdnsState n := ops.foldl runOp s

def mdnsSearchFinish (id : Nat) : MdnsState n :=
  { s with
    search_once := s.search_once.filter fun x => x.id ≠ id
    released := s.released ++ [id] }

def mdnsSearchFinishDone : MdnsState n :=
  { s with
    search_once := s.search_once.filter fun x => x.done = false
    released := s.released ++ (s.search_once.filter Search.done).map Search.id }

def parseResults (found : List Nat) (authoritative : Bool) : MdnsState n :=
  let s := { s with search_once := found.foldl addResult s.search_once }
  if authoritative then s.mdnsSearchFinishDone else s

def mdnsExecuteAction (a : MdnsAction) (ops : List MdnsOp) (memory : Bool) (found : List Nat) (authoritative : Bool) :
    MdnsState n :=
  let s := if s.refersToLive a then s else { s with stale := s.stale ++ [a] }
  match a with
  | .systemEvent | .hostnameSet | .instanceSet | .serviceSet _ _ => s.runOps ops
  | .serviceAdd item => { s with services := item :: s.services }.runOps ops
  | .serviceDel ptr => { s with services := s.services.eraseP fun item => item.ptr = ptr }.runOps ops
  | .servicesClear => { s with services := [] }.runOps ops
  | .searchAdd x => { s with search_once := x :: s.search_once }
  | .searchSend _ => s
  | .searchEnd x => s.mdnsSearchFinish x
  | .txHandle p => s.withResponder (s.responder.mdnsTxHandlePacket p memory) (p.id :: packetIds s.responder)
  | .rxHandle => (s.parseResults found authoritative).runOps ops

/-- `_mdns_scheduler_run` from the lock on. The packet that was read is looked for in the queue: where it has been
freed, `seen` is what its memory shows, whether it is due and the packets that follow it. -/
def mdnsSchedulerRun (p : TxPacket) (memory : Bool) (seen : Bool × List TxPacket) : MdnsState n :=
  let room := s.action_queue.length < MDNS_ACTION_QUEUE_LEN
  match s.responder.tx_queue.dropWhile fun q => q.id ≠ p.id with
  | q :: rest =>
      if q.send_at < s.responder.now ∧ memory then
        if room then
          { s with
            responder := { s.responder with tx_queue := rest }
            action_queue := s.action_queue ++ [MdnsAction.txHandle q] }
        else { s with responder := { s.responder with tx_queue := q :: rest } }
      else s
  | [] =>
      if seen.1 ∧ memory then
        if room then
          { s with
            responder := { s.responder with tx_queue := seen.2 }
            action_queue := s.action_queue ++ [MdnsAction.txHandle p] }
        else { s with responder := { s.responder with tx_queue := p :: seen.2 } }
      else s

/-- A task queues its action, or `mdns_query` its search, unless there is no memory or no room for it. -/
def send (i : Fin n) (memory : Bool) : Option (MdnsState n) :=
  let taken := memory ∧ s.action_queue.length < MDNS_ACTION_QUEUE_LEN
  match s.pc i with
  | .send a => if taken then some ({ s with action_queue := s.action_queue ++ [a] }.goto i .idle) else some (s.goto i .idle)
  | .query x =>
      if taken then some ({ s with action_queue := s.action_queue ++ [MdnsAction.searchAdd x] }.goto i (.waiting x.id))
      else some ({ s with freedSearches := s.freedSearches ++ [x.id] }.goto i .idle)
  | .idle | .waiting _ => none

end MdnsState

inductive ActEvent (n : Nat) where
  /-- `mdns_service_add` up to the queueing of its action; its checks are left to the callers -/
  | addService (i : Fin n) (service proto : CString)
  /-- a setter or `mdns_service_remove` looks its service up -/
  | setService (i : Fin n) (setter : SrvSetter) (service proto : CString)
  | removeService (i : Fin n) (service proto : CString)
  | removeAll (i : Fin n)
  | query (i : Fin n) (timeout max_results : Nat)
  /-- `mdns_query` gets the lock of its search -/
  | queryDone (i : Fin n)
  | send (i : Fin n) (memory : Bool)
  /-- an action is queued by another task: a name is set, an event comes or a packet -/
  | post (a : MdnsAction)
  | tick (ms : Nat)
  | timerRead
  | timerLocked (memory : Bool) (seen : Bool × List TxPacket)
  | searchRun (noMemory : List Nat)
  | receive
  | execute (ops : List MdnsOp) (memory : Bool) (found : List Nat) (authoritative : Bool)
  deriving DecidableEq, Repr

def MdnsState.look {n : Nat} (s : MdnsState n) (i : Fin n) (service proto : CString) (action : Nat → MdnsAction) :
    Option (MdnsState n) :=
  if s.pc i ≠ .idle then none
  else
    match mdnsGetServiceItem s.services service proto with
    | none => some s
    | some item => some (s.goto i (.send (action item.ptr)))

def ActEvent.run {n : Nat} (s : MdnsState n) : ActEvent n → Option (MdnsState n)
  | .addService i service proto =>
      if s.pc i ≠ .idle then none
      else
        let item : SrvItem := ⟨s.nextObject, strndup service (MDNS_NAME_BUF_LEN - 1),
          strndup proto (MDNS_NAME_BUF_LEN - 1), s.nextObject⟩
        some ({ s with nextObject := s.nextObject + 1 }.goto i (.send (.serviceAdd item)))
  | .setService i setter service proto => s.look i service proto (.serviceSet setter)
  | .removeService i service proto => s.look i service proto .serviceDel
  | .removeAll i =>
      if s.pc i ≠ .idle then none
      else if s.services = [] then some s
      else some (s.goto i (.send .servicesClear))
  | .query i timeout max_results =>
      if s.pc i ≠ .idle then none
      else if timeout = 0 then some s
      else
        let search : Search := ⟨s.nextObject, .init, s.responder.now, 0, timeout, 0, max_results⟩
        some ({ s with nextObject := s.nextObject + 1 }.goto i (.query search))
  | .queryDone i =>
      match s.pc i with
      | .waiting x =>
          if x ∈ s.released then some ({ s with freedSearches := s.freedSearches ++ [x] }.goto i .idle) else none
      | _ => none
  | .send i memory => s.send i memory
  | .post a =>
      match a with
      | .systemEvent | .hostnameSet | .instanceSet | .rxHandle =>
          if s.action_queue.length < MDNS_ACTION_QUEUE_LEN then some { s with action_queue := s.action_queue ++ [a] }
          else some s
      | _ => none
  | .tick ms => some { s with responder := { s.responder with now := s.responder.now + ms } }
  | .timerRead =>
      match s.timer with
      | none => some { s with timer := s.responder.tx_queue.head? }
      | some _ => none
  | .timerLocked memory seen =>
      match s.timer with
      | none => none
      | some p => some ({ s with timer := none }.mdnsSchedulerRun p memory seen)
  | .searchRun noMemory =>
      match s.timer with
      | none =>
          let (searches, queue) := searchRunFrom s.responder.now noMemory s.search_once s.action_queue
          some { s with search_once := searches, action_queue := queue }
      | some _ => none
  | .receive =>
      match s.received, s.action_queue with
      | none, a :: rest => some { s with received := some a, action_queue := rest }
      | _, _ => none
  | .execute ops memory found authoritative =>
      match s.received with
      | some a => some ({ s with received := none }.mdnsExecuteAction a ops memory found authoritative)
      | none => none

end EspFirmware.Mdns
