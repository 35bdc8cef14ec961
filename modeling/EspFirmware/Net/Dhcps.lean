import EspFirmware.Lib.Parser

/-!
The DHCP server of the access point (`dhcpserver.c`): the range it leases from, the list of leases, and its
answers. A message is memory from offset 0 on; what lies behind its buffer may be anything.
-/

namespace EspFirmware.Net
open EspFirmware.Lib Memory

/-- The word whose bytes in memory are those of the address, the first one lowest. -/
abbrev Ip4Addr := BitVec 32

def htonl (x : BitVec 32) : BitVec 32 :=
  ((x &&& 0x000000ff#32) <<< 24) ||| ((x &&& 0x0000ff00#32) <<< 8) |||
    ((x &&& 0x00ff0000#32) >>> 8) ||| ((x &&& 0xff000000#32) >>> 24)

def SECS : Nat := 8
def FLAGS : Nat := 10
def CIADDR : Nat := 12
def YIADDR : Nat := 16
def SIADDR : Nat := 20
def GIADDR : Nat := 24
def CHADDR : Nat := 28
def SNAME : Nat := 44
def FILE : Nat := 108
def OPTIONS : Nat := 236
def MSG_SIZE : Nat := 548

def MAGIC_COOKIE : BitVec 32 := 0x63538263

def DHCP_REPLY : BitVec 8 := 2
def DHCP_HTYPE_ETHERNET : BitVec 8 := 1

def DHCPDISCOVER : BitVec 8 := 1
def DHCPOFFER : BitVec 8 := 2
def DHCPREQUEST : BitVec 8 := 3
def DHCPDECLINE : BitVec 8 := 4
def DHCPACK : BitVec 8 := 5
def DHCPNAK : BitVec 8 := 6
def DHCPRELEASE : BitVec 8 := 7

def DHCP_OPTION_SUBNET_MASK : BitVec 8 := 1
def DHCP_OPTION_ROUTER : BitVec 8 := 3
def DHCP_OPTION_DNS_SERVER : BitVec 8 := 6
def DHCP_OPTION_INTERFACE_MTU : BitVec 8 := 26
def DHCP_OPTION_BROADCAST_ADDRESS : BitVec 8 := 28
def DHCP_OPTION_PERFORM_ROUTER_DISCOVERY : BitVec 8 := 31
def DHCP_OPTION_REQ_IPADDR : BitVec 8 := 50
def DHCP_OPTION_LEASE_TIME : BitVec 8 := 51
def DHCP_OPTION_MSG_TYPE : BitVec 8 := 53
def DHCP_OPTION_SERVER_ID : BitVec 8 := 54
def DHCP_OPTION_END : BitVec 8 := 255

def chaddrMac (m : Memory) : List (BitVec 8) := load m CHADDR 6

def DHCPS_MAX_LEASE : Nat := 0x64
def DHCPS_LEASE_UNIT : Nat := 60
def DHCPS_COARSE_TIMER_SECS : Nat := 1
def MAX_STATION_NUM : Nat := 8

structure DhcpsLease where
  enable : Bool
  startIp : Ip4Addr
  endIp : Ip4Addr
  deriving DecidableEq, Repr

structure DhcpsPool where
  ip : Ip4Addr
  mac : List (BitVec 8)
  leaseTimer : BitVec 32
  deriving DecidableEq, Repr

structure ListNode where
  address : Nat
  pnode : DhcpsPool
  deriving DecidableEq, Repr

structure Dhcps where
  serverAddress : Ip4Addr
  dnsServer : Ip4Addr
  clientAddress : Ip4Addr
  clientAddressPlus : Ip4Addr
  plist : List ListNode
  renew : Bool
  dhcpsPoll : DhcpsLease
  dhcpsLeaseTime : BitVec 32
  dhcpsOffer : BitVec 8
  dhcpsDns : BitVec 8
  /-- of the access point, as `tcpip_adapter_get_ip_info` tells it -/
  gateway : Ip4Addr
  /-- how many nodes `mem_malloc` has given; each one is at an address of its own -/
  allocated : Nat
  deriving DecidableEq, Repr

inductive DhcpsState where
  | offer
  | decline
  | ack
  | nak
  | idle
  | release
  deriving DecidableEq, Repr

def nodeInsertToList (pinsert : ListNode) : List ListNode → List ListNode
  | [] => [pinsert]
  | n :: rest => if pinsert.pnode.ip < n.pnode.ip then pinsert :: n :: rest else n :: nodeInsertToList pinsert rest

def nodeRemoveFromList (pdelete : Nat) : List ListNode → List ListNode
  | [] => []
  | n :: rest => if n.address = pdelete then rest else n :: nodeRemoveFromList pdelete rest

def setLeaseTimer (address : Nat) (timer : BitVec 32) (plist : List ListNode) : List ListNode :=
  plist.map fun n => if n.address = address then { n with pnode := { n.pnode with leaseTimer := timer } } else n

def ip4Bytes (a : Ip4Addr) : List (BitVec 8) :=
  [a.setWidth 8, (a >>> 8).setWidth 8, (a >>> 16).setWidth 8, (a >>> 24).setWidth 8]

def addMsgType (type : BitVec 8) : List (BitVec 8) := [DHCP_OPTION_MSG_TYPE, 1, type]

def OFFER_ROUTER : BitVec 8 := 1
def OFFER_DNS : BitVec 8 := 2

def addOfferOptions (s : Dhcps) : List (BitVec 8) :=
  let seconds := s.dhcpsLeaseTime * BitVec.ofNat 32 DHCPS_LEASE_UNIT
  [DHCP_OPTION_SUBNET_MASK, 4, 255, 255, 255, 0] ++
  [DHCP_OPTION_LEASE_TIME, 4] ++ (ip4Bytes seconds).reverse ++
  [DHCP_OPTION_SERVER_ID, 4] ++ ip4Bytes s.serverAddress ++
  (if s.dhcpsOffer &&& OFFER_ROUTER ≠ 0 ∧ s.gateway ≠ 0 then [DHCP_OPTION_ROUTER, 4] ++ ip4Bytes s.gateway else []) ++
  [DHCP_OPTION_DNS_SERVER, 4] ++
  (if s.dhcpsDns &&& OFFER_DNS ≠ 0 then ip4Bytes s.dnsServer else ip4Bytes s.serverAddress) ++
  [DHCP_OPTION_BROADCAST_ADDRESS, 4] ++ (ip4Bytes s.serverAddress).take 3 ++ [255] ++
  [DHCP_OPTION_INTERFACE_MTU, 2, 0x05, 0xdc] ++
  [DHCP_OPTION_PERFORM_ROUTER_DISCOVERY, 1, 0x00] ++
  [43, 6, 0x01, 4, 0x00, 0x00, 0x00, 0x02]

def addEnd : List (BitVec 8) := [DHCP_OPTION_END]

def createMsg (s : Dhcps) (m : Memory) : Memory :=
  let m := store m 0 [DHCP_REPLY, DHCP_HTYPE_ETHERNET, 6, 0]
  let m := store m SECS [0, 0]
  let m := store m FLAGS [0x80, 0x00]
  let m := store32 m YIADDR s.clientAddress
  let m := fill m CIADDR 4 0
  let m := fill m SIADDR 4 0
  let m := fill m GIADDR 4 0
  let m := fill m SNAME 64 0
  let m := fill m FILE 128 0
  let m := fill m OPTIONS 312 0
  store32 m OPTIONS MAGIC_COOKIE

structure Sent where
  message : Memory
  len : Nat

def dhcpsPbufAlloc (m : Memory) (len : Nat) : Sent := ⟨m, if MSG_SIZE < len then len else MSG_SIZE⟩

def sendOffer (s : Dhcps) (m : Memory) (len : Nat) : Sent :=
  dhcpsPbufAlloc (store (createMsg s m) (OPTIONS + 4) (addMsgType DHCPOFFER ++ addOfferOptions s ++ addEnd)) len

def sendNak (s : Dhcps) (m : Memory) (len : Nat) : Sent :=
  dhcpsPbufAlloc (store (createMsg s m) (OPTIONS + 4) (addMsgType DHCPNAK ++ addEnd)) len

def sendAck (s : Dhcps) (m : Memory) (len : Nat) : Sent :=
  dhcpsPbufAlloc (store (createMsg s m) (OPTIONS + 4) (addMsgType DHCPACK ++ addOfferOptions s ++ addEnd)) len

def parseLoop (m : Memory) (client : Ip4Addr) (end_ : Int) (optptr : Nat) (type : BitVec 8) (state : DhcpsState) :
    BitVec 8 × DhcpsState :=
  if inside : (optptr : Int) < end_ then
    if m optptr = DHCP_OPTION_END then (type, state)
    else
      parseLoop m client end_ (optptr + ((m (optptr + 1)).toNat + 2))
        (if m optptr = DHCP_OPTION_MSG_TYPE then m (optptr + 2) else type)
        (if m optptr = DHCP_OPTION_REQ_IPADDR then
          if client = load32 m (optptr + 2) then .ack else .nak
        else state)
  else (type, state)
termination_by (end_ - optptr).toNat
decreasing_by omega

def lookType (option : BitVec 8) (optptr : Nat) (type : BitVec 8) : Look (BitVec 8) :=
  if option = DHCP_OPTION_MSG_TYPE then Look.byte (optptr + 2) else pure type

def lookState (client : Ip4Addr) (option : BitVec 8) (optptr : Nat) (state : DhcpsState) : Look DhcpsState :=
  if option = DHCP_OPTION_REQ_IPADDR then do
    let address ← Look.each (fun i => Look.byte (optptr + 2 + i)) (List.range 4)
    pure (if ip4Bytes client = address then .ack else .nak)
  else pure state

def parseLook (client : Ip4Addr) (end_ : Int) (optptr : Nat) (type : BitVec 8) (state : DhcpsState) :
    Look (BitVec 8 × DhcpsState) :=
  if inside : (optptr : Int) < end_ then do
    let option ← Look.byte optptr
    if option = DHCP_OPTION_END then pure (type, state)
    else do
      let type ← lookType option optptr type
      let state ← lookState client option optptr state
      let length ← Look.byte (optptr + 1)
      parseLook client end_ (optptr + (length.toNat + 2)) type state
  else pure (type, state)
termination_by (end_ - optptr).toNat
decreasing_by omega

def parseOptions (s : Dhcps) (m : Memory) (optptr : Nat) (len : BitVec 16) : DhcpsState :=
  let (type, state) := parseLoop m s.clientAddress (optptr + len.toInt) optptr 0 .idle
  if type = DHCPDISCOVER then .offer
  else if type = DHCPREQUEST then
    if state = .ack ∨ state = .nak then state else if s.renew then .ack else .nak
  else if type = DHCPDECLINE then .idle
  else if type = DHCPRELEASE then .release
  else state

structure Search where
  clientAddress : Ip4Addr
  clientAddressPlus : Ip4Addr
  firstAddress : Ip4Addr
  flag : Bool
  deriving DecidableEq, Repr

def Search.moveCursor (search : Search) (pool : DhcpsPool) : Search :=
  if pool.ip = search.clientAddressPlus then
    let next := htonl (htonl search.clientAddressPlus + 1)
    { search with clientAddressPlus := next, clientAddress := next }
  else search

def Search.moveFirst (search : Search) (pool : DhcpsPool) : Search :=
  if search.flag then search
  else if search.firstAddress < pool.ip then { search with flag := true }
  else { search with firstAddress := htonl (htonl search.firstAddress + 1) }

def Search.pass (search : Search) (pool : DhcpsPool) : Search := (search.moveCursor pool).moveFirst pool

def searchPool (mac : List (BitVec 8)) : List ListNode → Search → Search × Option ListNode
  | [], search => (search, none)
  | n :: rest, search => if n.pnode.mac = mac then (search, some n) else searchPool mac rest (search.pass n.pnode)

def leaseTimer (s : Dhcps) : BitVec 32 :=
  s.dhcpsLeaseTime * BitVec.ofNat 32 DHCPS_LEASE_UNIT / BitVec.ofNat 32 DHCPS_COARSE_TIMER_SECS

def removeNode (s : Dhcps) (pnode : Option Nat) : Dhcps :=
  match pnode with
  | none => s
  | some address => { s with plist := nodeRemoveFromList address s.plist }

def poolCheck (s : Dhcps) (m : Memory) (len : BitVec 16) (pnode : Option Nat) : Dhcps × Option DhcpsState :=
  if s.clientAddress > s.dhcpsPoll.endIp ∨ s.clientAddress = 0 then (removeNode s pnode, some .nak)
  else
    let ret := parseOptions s m (OPTIONS + 4) len
    if ret = .release then ({ removeNode s pnode with clientAddress := 0 }, some ret) else (s, some ret)

/-- No state is returned for a message without the magic cookie. -/
def parseMsg (s : Dhcps) (m : Memory) (len : BitVec 16) : Dhcps × Option DhcpsState :=
  if load32 m OPTIONS = MAGIC_COOKIE then
    match searchPool (chaddrMac m) s.plist
        ⟨s.clientAddressPlus, s.clientAddressPlus, s.dhcpsPoll.startIp, false⟩ with
    | (search, some n) =>
        poolCheck
          { s with
            clientAddress := n.pnode.ip
            clientAddressPlus := search.clientAddressPlus
            renew := n.pnode.ip = load32 m CIADDR
            plist := setLeaseTimer n.address (leaseTimer s) s.plist }
          m len (some n.address)
    | (search, none) =>
        let client := if s.plist = [] then s.dhcpsPoll.startIp else search.clientAddress
        let client := if search.clientAddressPlus > s.dhcpsPoll.endIp then search.firstAddress else client
        if client > s.dhcpsPoll.endIp then
          poolCheck
            { s with clientAddress := client, clientAddressPlus := s.dhcpsPoll.startIp, renew := false } m len none
        else
          poolCheck
            { s with
              clientAddress := client
              clientAddressPlus :=
                if client = s.dhcpsPoll.endIp then s.dhcpsPoll.startIp else htonl (htonl client + 1)
              renew := false
              plist := nodeInsertToList ⟨s.allocated, client, chaddrMac m, leaseTimer s⟩ s.plist
              allocated := s.allocated + 1 }
            m len (some s.allocated)
  else (s, none)

/-- A received packet: the bytes of its first two buffers, and how long all of them are. -/
structure Pbuf where
  payload : List (BitVec 8)
  next : List (BitVec 8)
  totLen : BitVec 16
  counted : payload.length + next.length ≤ totLen.toNat

/-- `malloc_len`, a signed 16-bit number -/
def Pbuf.mallocLen (p : Pbuf) : Int := if MSG_SIZE < p.totLen.toNat then p.totLen.toInt else MSG_SIZE

def Pbuf.message (p : Pbuf) (after : Memory) : Memory := fun x =>
  if x < p.payload.length + p.next.length then (p.payload ++ p.next).getD x 0
  else if (x : Int) < p.mallocLen then 0
  else after x

/-- A negative length asks `mem_malloc` for nearly the whole address space, which it never has. -/
def handleDhcp (s : Dhcps) (p : Pbuf) (after : Memory) : Dhcps × Option Sent :=
  if p.mallocLen < 0 then (s, none)
  else
    let m := p.message after
    let len := p.mallocLen.toNat
    match parseMsg s m (BitVec.ofInt 16 (p.totLen.toInt - 240)) with
    | (s, some .offer) => (s, some (sendOffer s m len))
    | (s, some .ack) => (s, some (sendAck s m len))
    | (s, some .nak) => (s, some (sendNak s m len))
    | (s, _) => (s, none)

def dhcpsPollSet (poll : DhcpsLease) (ip : Ip4Addr) : DhcpsLease :=
  let softapIp := htonl ip
  let startIp := htonl poll.startIp
  let endIp := htonl poll.endIp
  let enable := poll.enable ∧ ¬ (startIp ≤ softapIp ∧ softapIp ≤ endIp) ∧
    ¬ ((startIp >>> 8 ≠ softapIp >>> 8 ∨ endIp >>> 8 ≠ softapIp >>> 8) ∨
      endIp - startIp > BitVec.ofNat 32 DHCPS_MAX_LEASE)
  if enable then poll
  else
    let localIp := softapIp &&& 0xFF#32
    let softapIp := softapIp &&& 0xFFFFFF00#32
    let localIp := if localIp ≥ 0x80#32 then localIp - BitVec.ofNat 32 DHCPS_MAX_LEASE else localIp + 1
    ⟨false, htonl (softapIp ||| localIp), htonl (softapIp ||| (localIp + BitVec.ofNat 32 DHCPS_MAX_LEASE - 1))⟩

def dhcpsStart (s : Dhcps) (ip : Ip4Addr) : Dhcps :=
  let poll := dhcpsPollSet s.dhcpsPoll ip
  { s with serverAddress := ip, dhcpsPoll := poll, clientAddressPlus := poll.startIp }

def oldest : ListNode → List ListNode → ListNode
  | minp, [] => minp
  | minp, p :: rest => oldest (if p.pnode.leaseTimer < minp.pnode.leaseTimer then p else minp) rest

def killOldestDhcpsPool (s : Dhcps) : Dhcps :=
  match s.plist with
  | first :: second :: rest =>
      { s with plist := first :: nodeRemoveFromList (oldest second (second :: rest)).address (second :: rest) }
  | _ => s

def tickNode (acc : List ListNode × BitVec 8) (n : ListNode) : List ListNode × BitVec 8 :=
  let timer := n.pnode.leaseTimer - 1
  if timer = 0 then (nodeRemoveFromList n.address acc.1, acc.2)
  else (setLeaseTimer n.address timer acc.1, acc.2 + 1)

def dhcpsCoarseTmr (s : Dhcps) : Dhcps :=
  let (plist, numDhcpsPool) := s.plist.foldl tickNode (s.plist, 0)
  let s := { s with plist := plist }
  if numDhcpsPool.toNat > MAX_STATION_NUM then killOldestDhcpsPool s else s

end EspFirmware.Net
