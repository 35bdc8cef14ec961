import EspFirmware.Lib.CString

/-!
The services of the mDNS responder (`mdns.c`): tasks check and queue, and the service task executes. A step of a
task is one walk over the service list, or the sending of an action.
-/

namespace EspFirmware.Mdns
open EspFirmware.Lib

def MDNS_NAME_MAX_LEN : Nat := 64
def MDNS_NAME_BUF_LEN : Nat := MDNS_NAME_MAX_LEN + 1
def MDNS_ACTION_QUEUE_LEN : Nat := 16

structure SrvItem where
  ptr : Nat
  service : CString
  proto : CString
  call : Nat
  deriving DecidableEq, Repr

def SrvItem.matches (s : SrvItem) (service proto : CString) : Bool :=
  strcasecmp s.service service && strcasecmp s.proto proto

def mdnsGetServiceItem (services : List SrvItem) (service proto : CString) : Option SrvItem :=
  services.find? fun s => s.matches service proto

def canAddFrom (MDNS_MAX_SERVICES : Nat) : Nat → List SrvItem → Bool
  | _, [] => true
  | service_num, _ :: rest =>
      if service_num + 1 ≥ MDNS_MAX_SERVICES then false else canAddFrom MDNS_MAX_SERVICES (service_num + 1) rest

def mdnsCanAddMoreServices (MDNS_MAX_SERVICES : Nat) (services : List SrvItem) : Bool :=
  canAddFrom MDNS_MAX_SERVICES 0 services

inductive SrvAction where
  | serviceAdd (item : SrvItem)
  | serviceDel (ptr : Nat)
  | servicesClear
  deriving DecidableEq, Repr

inductive EspErr where
  | ok
  | fail
  | noMem
  | invalidArg
  | notFound
  deriving DecidableEq, Repr

structure AddCall where
  service : CString
  proto : CString
  id : Nat
  deriving DecidableEq, Repr

inductive SrvPc where
  | idle
  /-- `mdns_service_add`, before each of its walks over the list and before it queues its action -/
  | canAdd (call : AddCall)
  | lookUp (call : AddCall)
  | create (call : AddCall)
  | wait (call : AddCall) (i : Nat)
  /-- `mdns_service_remove` -/
  | find (service proto : CString)
  | sendDel (ptr : Nat)
  /-- `mdns_service_remove_all` -/
  | sendClear
  deriving DecidableEq, Repr

structure SrvState (n : Nat) where
  services : List SrvItem
  action_queue : List SrvAction
  /-- the action that the service task has received and not executed yet -/
  received : Option SrvAction
  pc : Fin n → SrvPc
  /-- the calls of `mdns_service_add` so far, those whose service was put in the list, and what they returned -/
  calls : Nat
  added : List Nat
  results : List (Nat × EspErr)

namespace SrvState
variable {n : Nat} (s : SrvState n)

def start (n : Nat) : SrvState n where
  services := []
  action_queue := []
  received := none
  pc _ := .idle
  calls := 0
  added := []
  results := []

def goto (i : Fin n) (pc : SrvPc) : SrvState n := { s with pc := fun j => if j = i then pc else s.pc j }

def finish (i : Fin n) (call : AddCall) (err : EspErr) : SrvState n :=
  { s with results := s.results ++ [(call.id, err)] }.goto i .idle

def live : List Nat :=
  (s.services.map SrvItem.ptr) ++ (s.received.toList ++ s.action_queue).filterMap fun
    | .serviceAdd item => some item.ptr
    | _ => none

def create (i : Fin n) (call : AddCall) (malloc : Option Nat) : Option (SrvState n) :=
  match malloc with
  | none => some (s.finish i call .noMem)
  | some ptr =>
      if ptr ∈ s.live then none
      else if s.action_queue.length ≥ MDNS_ACTION_QUEUE_LEN then some (s.finish i call .noMem)
      else
        let item : SrvItem :=
          ⟨ptr, strndup call.service (MDNS_NAME_BUF_LEN - 1), strndup call.proto (MDNS_NAME_BUF_LEN - 1), call.id⟩
        some ({ s with action_queue := s.action_queue ++ [SrvAction.serviceAdd item] }.goto i (.wait call 0))

def wait (call : AddCall) (i : Nat) (task : Fin n) : SrvState n :=
  match mdnsGetServiceItem s.services call.service call.proto with
  | some _ => s.finish task call (if i ≥ 200 then .fail else .ok)
  | none => if i < 200 then s.goto task (.wait call (i + 1)) else s.finish task call .fail

def send (i : Fin n) (action : SrvAction) (malloc : Option Nat) : SrvState n :=
  if malloc = none ∨ s.action_queue.length ≥ MDNS_ACTION_QUEUE_LEN then s.goto i .idle
  else { s with action_queue := s.action_queue ++ [action] }.goto i .idle

def next (MDNS_MAX_SERVICES : Nat) (i : Fin n) (malloc : Option Nat) : Option (SrvState n) :=
  match s.pc i with
  | .idle => none
  | .canAdd call =>
      if mdnsCanAddMoreServices MDNS_MAX_SERVICES s.services then some (s.goto i (.lookUp call))
      else some (s.finish i call .noMem)
  | .lookUp call =>
      match mdnsGetServiceItem s.services call.service call.proto with
      | some _ => some (s.finish i call .invalidArg)
      | none => some (s.goto i (.create call))
  | .create call => s.create i call malloc
  | .wait call k => some (s.wait call k i)
  | .find service proto =>
      match mdnsGetServiceItem s.services service proto with
      | none => some (s.goto i .idle)
      | some item => some (s.goto i (.sendDel item.ptr))
  | .sendDel ptr => some (s.send i (.serviceDel ptr) malloc)
  | .sendClear => some (s.send i .servicesClear malloc)

def execute : SrvAction → Option (SrvState n)
  | .serviceAdd item => some { s with services := item :: s.services, added := item.call :: s.added }
  | .serviceDel ptr =>
      match s.services with
      | [] => none
      | services => some { s with services := services.eraseP fun item => item.ptr = ptr }
  | .servicesClear => some { s with services := [] }

end SrvState

inductive SrvEvent (n : Nat) where
  | add (i : Fin n) (service proto : CString) (port : BitVec 16)
  | remove (i : Fin n) (service proto : CString)
  | removeAll (i : Fin n)
  /-- the next step of a task, with what `malloc` gives it -/
  | step (i : Fin n) (malloc : Option Nat)
  /-- the service task receives and executes an action -/
  | receive
  | execute
  deriving DecidableEq, Repr

def SrvEvent.run (MDNS_MAX_SERVICES : Nat) {n : Nat} (s : SrvState n) : SrvEvent n → Option (SrvState n)
  | .add i service proto port =>
      let call : AddCall := ⟨service, proto, s.calls⟩
      let s := { s with calls := s.calls + 1 }
      if s.pc i ≠ .idle then none
      else if service = [] ∨ proto = [] ∨ port = 0 then some (s.finish i call .invalidArg)
      else some (s.goto i (.canAdd call))
  | .remove i service proto =>
      if s.pc i ≠ .idle then none
      else if s.services = [] ∨ service = [] ∨ proto = [] then some s
      else some (s.goto i (.find service proto))
  | .removeAll i =>
      if s.pc i ≠ .idle then none
      else if s.services = [] then some s
      else some (s.goto i .sendClear)
  | .step i malloc => s.next MDNS_MAX_SERVICES i malloc
  | .receive =>
      match s.received, s.action_queue with
      | none, action :: rest => some { s with received := some action, action_queue := rest }
      | _, _ => none
  | .execute =>
      match s.received with
      | some action => { s with received := none }.execute action
      | none => none

end EspFirmware.Mdns
