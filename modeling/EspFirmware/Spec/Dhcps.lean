import EspFirmware.Lib.Run
import EspFirmware.Net.Dhcps

/-!
What the DHCP server promises its clients, and the options of a DHCP message as the format has them.
-/

namespace EspFirmware.Spec
open EspFirmware.Lib Memory EspFirmware.Net

inductive DhcpsEvent where
  | message (p : Pbuf) (after : Memory)
  | tick

def DhcpsEvent.run (s : Dhcps) : DhcpsEvent → Dhcps
  | .message p after => (handleDhcp s p after).1
  | .tick => dhcpsCoarseTmr s

def runDhcps (events : List DhcpsEvent) (s : Dhcps) : Dhcps := events.foldl DhcpsEvent.run s

def addressOf (a : Ip4Addr) : Nat := (htonl a).toNat

def Leased (s : Dhcps) (mac : List (BitVec 8)) (ip : Ip4Addr) : Prop :=
  ∃ n ∈ s.plist, n.pnode.mac = mac ∧ n.pnode.ip = ip

def InRange (poll : DhcpsLease) (a : Ip4Addr) : Prop :=
  addressOf poll.startIp ≤ addressOf a ∧ addressOf a ≤ addressOf poll.endIp

def AllLeased (s : Dhcps) (poll : DhcpsLease) : Prop := ∀ a, InRange poll a → ∃ mac, Leased s mac a

def Accepted (p : Pbuf) (after : Memory) : Prop := 0 ≤ p.mallocLen ∧ load32 (p.message after) OPTIONS = MAGIC_COOKIE

/-- The value of the last message type option; it is the same whatever the client's address is. -/
def messageType (p : Pbuf) (after : Memory) : BitVec 8 :=
  (parseLoop (p.message after) 0 p.totLen.toInt (OPTIONS + 4) 0 .idle).1

def Sent.type (sent : Sent) : BitVec 8 := sent.message (OPTIONS + 6)

def Sent.yiaddr (sent : Sent) : Ip4Addr := load32 sent.message YIADDR

structure LeasesOk (start s : Dhcps) : Prop where
  sorted : (s.plist.map fun n => addressOf n.pnode.ip).Pairwise (· < ·)
  macs : (s.plist.map fun n => n.pnode.mac).Nodup
  inRange : ∀ n ∈ s.plist, InRange start.dhcpsPoll n.pnode.ip
  notServer : ∀ n ∈ s.plist, n.pnode.ip ≠ start.serverAddress

/-- How a packet is answered. A client without a lease gets one with any message other than a release, and an
offer if it asks for one, unless every address is leased. -/
structure AnswerOk (start s : Dhcps) (p : Pbuf) (after : Memory) : Prop where
  yiaddr : ∀ sent, (handleDhcp s p after).2 = some sent → Sent.type sent = DHCPOFFER ∨ Sent.type sent = DHCPACK →
    chaddrMac sent.message = chaddrMac (p.message after) ∧
      Leased (handleDhcp s p after).1 (chaddrMac (p.message after)) (Sent.yiaddr sent)
  refused : Accepted p after → messageType p after ≠ DHCPRELEASE → (∀ ip, ¬ Leased s (chaddrMac (p.message after)) ip) →
    (∀ ip, ¬ Leased (handleDhcp s p after).1 (chaddrMac (p.message after)) ip) → AllLeased s start.dhcpsPoll
  offered : Accepted p after → messageType p after = DHCPDISCOVER → ¬ AllLeased s start.dhcpsPoll →
    ∃ sent, (handleDhcp s p after).2 = some sent ∧ Sent.type sent = DHCPOFFER

def SameNetwork (a b : Ip4Addr) : Prop := htonl a >>> 8 = htonl b >>> 8

def RangeHonoured (poll : DhcpsLease) (ip : Ip4Addr) (s : Dhcps) : Prop :=
  ∀ n ∈ s.plist, InRange poll n.pnode.ip ∧ SameNetwork ip n.pnode.ip

/-- Where the range ends with its network, an address from the cursor on is free for a client that needs one. -/
def CursorStays (s : Dhcps) : DhcpsEvent → Prop
  | .message p after =>
      Accepted p after → (∀ ip, ¬ Leased s (chaddrMac (p.message after)) ip) → addressOf s.dhcpsPoll.endIp % 256 = 255 →
        ∃ a, addressOf s.clientAddressPlus ≤ addressOf a ∧ addressOf a ≤ addressOf s.dhcpsPoll.endIp ∧
          ∀ mac, ¬ Leased s mac a
  | .tick => True

abbrev EachDhcpsStep (may : Dhcps → DhcpsEvent → Prop) : List DhcpsEvent → Dhcps → Prop :=
  EachStep (fun s e => some (DhcpsEvent.run s e)) may

def tickedLease (n : ListNode) : Option ListNode :=
  if n.pnode.leaseTimer - 1 = 0 then none
  else some { n with pnode := { n.pnode with leaseTimer := n.pnode.leaseTimer - 1 } }

def remaining (s : Dhcps) : List ListNode := s.plist.filterMap tickedLease

/-- A tick leaves the leases that have time left, without one that has the least if there are too many. -/
def EvictsOldest (s : Dhcps) : Prop :=
  if (remaining s).length ≤ MAX_STATION_NUM then (dhcpsCoarseTmr s).plist = remaining s
  else ∃ before n after, remaining s = before ++ n :: after ∧
    (∀ m ∈ remaining s, n.pnode.leaseTimer ≤ m.pnode.leaseTimer) ∧ (dhcpsCoarseTmr s).plist = before ++ after

/-- The number of leases is one that a byte holds, up to a multiple of 256, and the first lease does not have less
time left than every other one. -/
def OldestBehindFirst (s : Dhcps) : Prop :=
  (remaining s).length ≤ MAX_STATION_NUM ∨
    MAX_STATION_NUM < (remaining s).length % 256 ∧
      ∀ first rest, remaining s = first :: rest → ∃ n ∈ rest, n.pnode.leaseTimer ≤ first.pnode.leaseTimer

inductive DhcpOption where
  | pad
  | field (code : BitVec 8) (value : List (BitVec 8))
  deriving DecidableEq, Repr

namespace DhcpOption

def bytes : DhcpOption → List (BitVec 8)
  | .pad => [0]
  | .field code value => code :: BitVec.ofNat 8 value.length :: value

def Valid : DhcpOption → Prop
  | .pad => True
  | .field code value => code ≠ 0 ∧ code ≠ DHCP_OPTION_END ∧ value.length < 256

def type? : DhcpOption → Option (BitVec 8)
  | .pad => none
  | .field code value => if code = DHCP_OPTION_MSG_TYPE then value.head? else none

def address? : DhcpOption → Option (List (BitVec 8))
  | .pad => none
  | .field code value => if code = DHCP_OPTION_REQ_IPADDR then some (value.take 4) else none

def Plain : DhcpOption → Prop
  | .pad => False
  | .field code value =>
      (code = DHCP_OPTION_MSG_TYPE → 1 ≤ value.length) ∧ (code = DHCP_OPTION_REQ_IPADDR → 4 ≤ value.length)

instance : (option : DhcpOption) → Decidable option.Valid
  | .pad => isTrue trivial
  | .field _ _ => inferInstanceAs (Decidable (_ ∧ _ ∧ _))

instance : (option : DhcpOption) → Decidable option.Plain
  | .pad => isFalse id
  | .field _ _ => inferInstanceAs (Decidable ((_ → _) ∧ (_ → _)))

end DhcpOption

def WellFormed (area : List (BitVec 8)) (options : List DhcpOption) : Prop :=
  (∀ option ∈ options, option.Valid) ∧ ∃ trailing, area = options.flatMap DhcpOption.bytes ++ DHCP_OPTION_END :: trailing

def typeOf (options : List DhcpOption) : Option (BitVec 8) := (options.filterMap DhcpOption.type?).getLast?

def addressAsked (options : List DhcpOption) : Option (List (BitVec 8)) :=
  (options.filterMap DhcpOption.address?).getLast?

structure StateRight (s : Dhcps) (options : List DhcpOption) (state : DhcpsState) : Prop where
  offer : state = .offer ↔ typeOf options = some DHCPDISCOVER
  answered : state = .ack ∨ state = .nak ↔ typeOf options = some DHCPREQUEST
  ack : typeOf options = some DHCPREQUEST →
    (state = .ack ↔
      addressAsked options = some (ip4Bytes s.clientAddress) ∨ addressAsked options = none ∧ s.renew = true)
  release : state = .release ↔ typeOf options = some DHCPRELEASE

def optionArea (m : Memory) (optptr : Nat) (len : BitVec 16) : List (BitVec 8) := load m optptr len.toInt.toNat

def optionReads (s : Dhcps) (m : Memory) (optptr : Nat) (len : BitVec 16) : List Nat :=
  (parseLook s.clientAddress (optptr + len.toInt) optptr 0 .idle).places m

structure OptionsRight (s : Dhcps) (m : Memory) (optptr : Nat) (len : BitVec 16) : Prop where
  reads : ∀ place ∈ optionReads s m optptr len, optptr ≤ place ∧ (place : Int) < optptr + len.toInt
  right : ∀ options, WellFormed (optionArea m optptr len) options →
    StateRight s options (parseOptions s m optptr len)

/-- Where the walk comes to an option, taking the byte after its code for a length whatever the code is. -/
def optionsMet (m : Memory) (end_ : Int) (optptr : Nat) : List Nat :=
  if inside : (optptr : Int) < end_ then
    if m optptr = DHCP_OPTION_END then [] else optptr :: optionsMet m end_ (optptr + ((m (optptr + 1)).toNat + 2))
  else []
termination_by (end_ - optptr).toNat
decreasing_by omega

def reach (code : BitVec 8) : Nat :=
  if code = DHCP_OPTION_REQ_IPADDR then 5 else if code = DHCP_OPTION_MSG_TYPE then 2 else 1

def Whole (m : Memory) (optptr : Nat) (len : BitVec 16) : Prop :=
  ∀ i ∈ optionsMet m (optptr + len.toInt) optptr, ((i + reach (m i) : Nat) : Int) < optptr + len.toInt

def AsksKnown (options : List DhcpOption) : Prop :=
  typeOf options ∈ [some DHCPDISCOVER, some DHCPREQUEST, some DHCPDECLINE, some DHCPRELEASE] ∨ addressAsked options = none

instance (m : Memory) (optptr : Nat) (len : BitVec 16) : Decidable (Whole m optptr len) :=
  inferInstanceAs (Decidable (∀ i ∈ optionsMet m (optptr + len.toInt) optptr, _ < _))

instance (options : List DhcpOption) : Decidable (AsksKnown options) := inferInstanceAs (Decidable (_ ∨ _))

end EspFirmware.Spec
