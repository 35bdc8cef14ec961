import EspFirmware.Mdns.Services
import Mathlib.Algebra.GroupWithZero.Nat
import EspFirmware.Lib.Run
import EspFirmware.Mdns.Responder
import EspFirmware.Mdns.Actions
import EspFirmware.Mdns.Timing

/-!
What the mDNS responder promises: services are unique and bounded, names are probed three times before they are
announced, and actions touch only what is there.
-/

namespace EspFirmware.Mdns
open EspFirmware.Lib

structure ServicesOk (MDNS_MAX_SERVICES : Nat) {n : Nat} (s : SrvState n) : Prop where
  unique : s.services.Pairwise fun a b => a.matches b.service b.proto = false
  bounded : s.services.length ≤ MDNS_MAX_SERVICES
  added : ∀ id, (id, EspErr.ok) ∈ s.results → id ∈ s.added

def SrvAction.adds : SrvAction → Bool
  | .serviceAdd _ => true
  | _ => false

def SrvPc.checked : SrvPc → Bool
  | .lookUp _ | .create _ => true
  | _ => false

def SrvState.adding {n : Nat} (s : SrvState n) : Prop :=
  (∃ i, (s.pc i).checked = true) ∨ ∃ action ∈ s.received.toList ++ s.action_queue, action.adds = true

/-- A task that makes its first check does so when no other add is under way, for names that are not truncated. -/
def SrvPc.MayCheck {n : Nat} (s : SrvState n) : SrvPc → Prop
  | .canAdd call => ¬ s.adding ∧ call.service.length ≤ MDNS_NAME_MAX_LEN ∧ call.proto.length ≤ MDNS_NAME_MAX_LEN
  | _ => True

def SrvEvent.Safe {n : Nat} (s : SrvState n) : SrvEvent n → Prop
  | .step i _ => (s.pc i).MayCheck s
  | _ => True

section
variable {n : Nat} (s : SrvState n)

instance SrvState.decideAdding : Decidable s.adding := inferInstanceAs (Decidable (_ ∨ _))

instance SrvPc.decideMayCheck (pc : SrvPc) : Decidable (pc.MayCheck s) :=
  match pc with
  | .canAdd _ => inferInstanceAs (Decidable (_ ∧ _))
  | .idle | .lookUp _ | .create _ | .wait _ _ | .find _ _ | .sendDel _ | .sendClear => isTrue trivial

instance SrvEvent.decideSafe (e : SrvEvent n) : Decidable (e.Safe s) :=
  match e with
  | .step i _ => inferInstanceAs (Decidable ((s.pc i).MayCheck s))
  | .add _ _ _ _ | .remove _ _ _ | .removeAll _ | .receive | .execute => isTrue trivial

end

def Responder.start : Responder where
  hasHostname := false
  pcbs _ := ⟨.off, false, [], false, false, 0, none⟩
  tx_queue := []
  handed := []
  now := 0
  nextId := 0
  announced := []

def OutAnswer.announcedAs (s : OutAnswer) : List OutAnswer :=
  match s.type with
  | .srv => [⟨.sdptr, s.service, false⟩, ⟨.ptr, s.service, false⟩, ⟨.srv, s.service, true⟩, ⟨.txt, s.service, true⟩]
  | .a | .aaaa => [⟨s.type, none, true⟩]
  | _ => []

/-- The packet was made by the latest probe of its interface and has been dispatched three times, and the
announcement is for what it was for. -/
structure Announced.Ok (a : Announced) : Prop where
  latest : a.probe = some a.packet.id
  thrice : 3 ≤ a.packet.dispatched
  covers : ∀ x, x ∈ a.answers ↔ ∃ s ∈ a.packet.servers, x ∈ s.announcedAs

def Responder.ProbedThrice (r : Responder) : Prop := ∀ a ∈ r.announced, a.Ok

def Responder.NoneHanded (r : Responder) (k : Key) : Prop := ∀ p ∈ r.handed, p.key ≠ k

/-- No probe begins on an interface of which a packet has been handed over and not been handled. -/
def MdnsOp.Safe (r : Responder) : MdnsOp → Prop
  | .initPcbProbe k _ _ _ _ => r.NoneHanded k
  | .announcePcb k _ _ _ _ => (r.pcbs k).pcb = true → (r.pcbs k).state.isProbing = true → r.NoneHanded k
  | _ => True

def MdnsEvent.Safe (r : Responder) : MdnsEvent → Prop
  | .op o => o.Safe r
  | _ => True

section
variable (r : Responder)

instance Responder.decideNoneHanded (k : Key) : Decidable (r.NoneHanded k) := inferInstanceAs (Decidable (∀ p ∈ r.handed, p.key ≠ k))

instance MdnsOp.decideSafe (o : MdnsOp) : Decidable (o.Safe r) :=
  match o with
  | .initPcbProbe k _ _ _ _ => inferInstanceAs (Decidable (r.NoneHanded k))
  | .announcePcb _ _ _ _ _ => inferInstanceAs (Decidable (_ → _ → _))
  | .setHostname | .clearAll | .clearPcb _ | .clearOldProbe _ | .answer _ _ _ _ _ | .removeAnswer _ _ _
  | .removeService _ | .pcbInit _ | .pcbDeinit _ | .pcbOff _ | .pcbDup _ | .failedProbe _ => isTrue trivial

instance MdnsEvent.decideSafe (e : MdnsEvent) : Decidable (e.Safe r) :=
  match e with
  | .op o => inferInstanceAs (Decidable (o.Safe r))
  | .tick _ | .scheduler _ | .txHandle _ => isTrue trivial

end

def MdnsAction.service? : MdnsAction → Option Nat
  | .serviceSet _ ptr | .serviceDel ptr => some ptr
  | _ => none

def MdnsAction.search? : MdnsAction → Option Nat
  | .searchSend x | .searchEnd x => some x
  | _ => none

def ApiPc.service? : ApiPc → Option Nat
  | .send a => a.service?
  | _ => none

structure LiveOk {n : Nat} (s : MdnsState n) : Prop where
  live : s.stale = []
  packets : s.freedPackets.Nodup
  searches : s.freedSearches.Nodup

namespace MdnsState
variable {n : Nat} (s : MdnsState n)

def NoneRefers (ptr : Nat) : Prop :=
  (∀ a ∈ s.action_queue, a.service? ≠ some ptr) ∧ ∀ i, (s.pc i).service? ≠ some ptr

/-- What is to be removed is referred to by nothing else: a service by no action and no call, and a search that a
received packet fills by no action. -/
def MayExecute (found : List Nat) (authoritative : Bool) : MdnsAction → Prop
  | .serviceDel ptr => s.NoneRefers ptr
  | .servicesClear => ∀ item ∈ s.services, s.NoneRefers item.ptr
  | .rxHandle =>
      authoritative = true → ∀ x ∈ found.foldl addResult s.search_once, x.done = true →
        ∀ a ∈ s.action_queue, a.search? ≠ some x.id
  | _ => True

end MdnsState

/-- When the timer gets the lock, the packet that it read before is still in the queue. -/
def ActEvent.Safe {n : Nat} (s : MdnsState n) : ActEvent n → Prop
  | .execute _ _ found authoritative => ∀ a ∈ s.received, s.MayExecute found authoritative a
  | .timerLocked _ _ => ∀ p ∈ s.timer, p.id ∈ MdnsState.packetIds s.responder
  | _ => True

section
variable {n : Nat} (s : MdnsState n)

instance MdnsState.decideNoneRefers (ptr : Nat) : Decidable (s.NoneRefers ptr) := inferInstanceAs (Decidable (_ ∧ _))

instance MdnsState.decideMayExecute (found : List Nat) (authoritative : Bool) (a : MdnsAction) :
    Decidable (s.MayExecute found authoritative a) :=
  match a with
  | .serviceDel ptr => inferInstanceAs (Decidable (s.NoneRefers ptr))
  | .servicesClear => inferInstanceAs (Decidable (∀ item ∈ s.services, s.NoneRefers item.ptr))
  | .rxHandle =>
      inferInstanceAs (Decidable (authoritative = true → ∀ x ∈ found.foldl addResult s.search_once, x.done = true →
        ∀ a ∈ s.action_queue, a.search? ≠ some x.id))
  | .systemEvent | .hostnameSet | .instanceSet | .serviceAdd _ | .serviceSet _ _ | .searchAdd _ | .searchSend _
  | .searchEnd _ | .txHandle _ => isTrue trivial

instance ActEvent.decideSafe (e : ActEvent n) : Decidable (e.Safe s) :=
  match e with
  | .execute _ _ found authoritative =>
      inferInstanceAs (Decidable (∀ a ∈ s.received, s.MayExecute found authoritative a))
  | .timerLocked _ _ => inferInstanceAs (Decidable (∀ p ∈ s.timer, p.id ∈ MdnsState.packetIds s.responder))
  | .addService _ _ _ | .setService _ _ _ _ | .removeService _ _ _ | .removeAll _ | .query _ _ _ | .queryDone _
  | .send _ _ | .post _ | .tick _ | .timerRead | .searchRun _ | .receive => isTrue trivial

end

def TimingEvent.shift (c : BitVec 32) : TimingEvent → TimingEvent
  | .schedule packet ms_after now => .schedule packet ms_after (now + c)
  | .schedulerRun now memory sent => .schedulerRun (now + c) memory sent
  | .searchAdd search timeout now => .searchAdd search timeout (now + c)
  | .searchRun now taken => .searchRun (now + c) taken
  | .clear packets => .clear packets
  | .finish search => .finish search

def Together (c a b : BitVec 32) : Prop := a.toNat + c.toNat < 2 ^ 32 ↔ b.toNat + c.toNat < 2 ^ 32

instance (c a b : BitVec 32) : Decidable (Together c a b) := inferInstanceAs (Decidable (_ ↔ _))

/-- The packets that a new one is compared with: those that stay before it, and the one that follows. -/
def comparedWith (send_at : BitVec 32) : List TimedPacket → List TimedPacket
  | [] => []
  | q :: rest => if q.send_at > send_at then [q] else q :: comparedWith send_at rest

/-- No wrap of the second clock comes between two times that are compared, and no search is refused its end before it has
been sent. -/
def TimingEvent.Unwrapped (c : BitVec 32) (t : Timing) : TimingEvent → Prop
  | .schedule _ ms_after now => ∀ q ∈ comparedWith (now + ms_after) t.tx_queue, Together c q.send_at (now + ms_after)
  | .searchRun now taken => ∀ s ∈ t.search_once, s.state ≠ .off →
      Together c now (s.started_at + s.timeout) ∧
        (s.state = .init → now > s.started_at + s.timeout → s.id ∈ taken)
  | _ => True

instance TimingEvent.decideUnwrapped (c : BitVec 32) (t : Timing) : (e : TimingEvent) → Decidable (e.Unwrapped c t)
  | .schedule _ _ _ => inferInstanceAs (Decidable (∀ q ∈ _, _))
  | .searchRun _ _ => inferInstanceAs (Decidable (∀ s ∈ _, _))
  | .schedulerRun _ _ _ | .searchAdd _ _ _ | .clear _ | .finish _ => isTrue trivial

end EspFirmware.Mdns

namespace EspFirmware.Spec
open EspFirmware.Lib EspFirmware.Mdns

abbrev runServices (MDNS_MAX_SERVICES : Nat) {n : Nat} : List (SrvEvent n) → SrvState n → Option (SrvState n) :=
  runSteps (SrvEvent.run MDNS_MAX_SERVICES)

abbrev runMdns : List MdnsEvent → Responder → Option Responder := runSteps MdnsEvent.run

abbrev runActions {n : Nat} : List (ActEvent n) → MdnsState n → Option (MdnsState n) := runSteps ActEvent.run

/-- After every call the queue has the same packets in the same order, and the same has been handed over, sent again and
ended. -/
def SameAtShift (c : BitVec 32) (events : List TimingEvent) : Prop :=
  ∀ front, front <+: events → ∃ t t', runSteps TimingEvent.run front Timing.start = some t ∧
    runSteps TimingEvent.run (front.map (TimingEvent.shift c)) Timing.start = some t' ∧
    t'.tx_queue.map TimedPacket.id = t.tx_queue.map TimedPacket.id ∧ t'.log = t.log

end EspFirmware.Spec
