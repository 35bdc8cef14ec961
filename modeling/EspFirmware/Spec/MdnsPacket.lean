import EspFirmware.Mdns.Dispatch

/-!
Names that are appended to a packet can be read back.
-/

namespace EspFirmware.Mdns
open EspFirmware.Lib

inductive ApiName where
  | host (hostname : CString)
  | service (service proto : CString)
  | ofInstance (name service proto : CString)
  deriving DecidableEq, Repr

structure ApiString (s : CString) : Prop where
  nonempty : 0 < s.length
  short : s.length ≤ MDNS_NAME_MAX_LEN
  characters : ∀ c ∈ s, c ≠ 0

structure ApiType (s : CString) : Prop extends ApiString s where
  underscore : s.head? = some 95

namespace ApiName

def strings : ApiName → List CString
  | .host h => [h, MDNS_DEFAULT_DOMAIN]
  | .service s p => [s, p, MDNS_DEFAULT_DOMAIN]
  | .ofInstance i s p => [i, s, p, MDNS_DEFAULT_DOMAIN]

def Admitted : ApiName → Prop
  | .host h => ApiString h
  | .service s p => ApiType s ∧ ApiType p
  | .ofInstance i s p => ApiString i ∧ ApiType s ∧ ApiType p

def fields : ApiName → MdnsName
  | .host h => ⟨h, [], [], MDNS_DEFAULT_DOMAIN, 2, false⟩
  | .service s p => ⟨[], s, p, MDNS_DEFAULT_DOMAIN, 3, false⟩
  | .ofInstance i s p => ⟨i, s, p, MDNS_DEFAULT_DOMAIN, 4, false⟩

end ApiName

structure MdnsName.Same (a b : MdnsName) : Prop where
  parts : a.parts = b.parts
  host : strcasecmp a.host b.host = true
  service : strcasecmp a.service b.service = true
  proto : strcasecmp a.proto b.proto = true
  domain : strcasecmp a.domain b.domain = true

def nameSize (strings : List CString) : Nat := (strings.map fun s => s.length + 1).sum + 1

structure NameSurvives (p : OutPacket) (name : ApiName) : Prop where
  readBack : (OutPacket.mdnsAppendFqdn name.strings p).1 ≠ 0 →
    ∃ read, mdnsParseFqdn (OutPacket.mdnsAppendFqdn name.strings p).2.mem
        (OutPacket.mdnsAppendFqdn name.strings p).2.index p.index =
      .ok (OutPacket.mdnsAppendFqdn name.strings p).2.index read ∧ read.Same name.fields
  kept : (OutPacket.mdnsAppendFqdn name.strings p).1 ≠ 0 →
    ∀ x, x < p.index → (OutPacket.mdnsAppendFqdn name.strings p).2.mem x = p.mem x
  full : (OutPacket.mdnsAppendFqdn name.strings p).1 = 0 → p.index + nameSize name.strings ≥ MDNS_MAX_PACKET_SIZE

def labelsFrom (mem : Memory) (size : Nat) : Nat → Nat → Nat → Option (List CString)
  | 0, _, _ => none
  | fuel + 1, start, pos =>
      let len := (mem pos).toNat
      let address := (len % 64) * 256 + (mem (pos + 1)).toNat
      if pos ≥ size then none
      else if len = 0 then some []
      else if len < 0xC0 then
        if len > 63 ∨ pos + 1 + len > size then none
        else (labelsFrom mem size fuel start (pos + 1 + len)).map (Memory.load mem (pos + 1) len :: ·)
      else if pos + 1 ≥ size ∨ address ≥ start then none
      else
        match labelsFrom mem size fuel address address with
        | some (label :: more) => some (label :: more)
        | _ => none

def nameIn (mem : Memory) (size place : Nat) : Option (List CString) := labelsFrom mem size (readFuel size) place place

/-- The name that begins at `start` is written to its end: there is room, no part is too long, the search comes to
nothing that cannot be read, and what it finds is a whole name before `start`. -/
def Writes (start : Nat) : List CString → OutPacket → Prop
  | [], p => p.index < MDNS_MAX_PACKET_SIZE
  | s :: rest, p =>
      s.length < MDNS_NAME_MAX_LEN ∧
        match p.findName (s :: rest) s (List.range p.index) with
        | .unreadable => False
        | .found place => p.index + 1 < MDNS_MAX_PACKET_SIZE ∧ place < start ∧
            (nameIn p.mem start place).map (List.map lowercase) = some ((s :: rest).map lowercase)
        | .none => p.index + s.length + 1 < MDNS_MAX_PACKET_SIZE ∧ Writes start rest (p.mdnsAppendString s).2

def NoRoom (p : OutPacket) : List CString → Prop
  | [] => p.index ≥ MDNS_MAX_PACKET_SIZE
  | s :: rest =>
      match p.findName (s :: rest) s (List.range p.index) with
      | .unreadable => False
      | .found _ => p.index + 1 ≥ MDNS_MAX_PACKET_SIZE
      | .none => p.index + s.length + 1 ≥ MDNS_MAX_PACKET_SIZE

instance Writes.decide (start : Nat) : (strings : List CString) → (p : OutPacket) → Decidable (Writes start strings p)
  | [], p => inferInstanceAs (Decidable (p.index < MDNS_MAX_PACKET_SIZE))
  | s :: rest, p =>
      have : Decidable (match p.findName (s :: rest) s (List.range p.index) with
          | .unreadable => False
          | .found place => p.index + 1 < MDNS_MAX_PACKET_SIZE ∧ place < start ∧
              (nameIn p.mem start place).map (List.map lowercase) = some ((s :: rest).map lowercase)
          | .none => p.index + s.length + 1 < MDNS_MAX_PACKET_SIZE ∧ Writes start rest (p.mdnsAppendString s).2) :=
        match p.findName (s :: rest) s (List.range p.index) with
        | .unreadable => inferInstanceAs (Decidable False)
        | .found _ => inferInstanceAs (Decidable (_ ∧ _))
        | .none =>
            have := Writes.decide start rest (p.mdnsAppendString s).2
            inferInstanceAs (Decidable (_ ∧ _))
      inferInstanceAs (Decidable (_ ∧ _))

/-- There is no room for the name, or no part of it is `_sub` and it is written to its end. -/
def Encodable (p : OutPacket) (name : ApiName) : Prop :=
  NoRoom p name.strings ∨
    (∀ s ∈ name.strings, strcasecmp s MDNS_SUB_STR = false) ∧ Writes p.index name.strings p

end EspFirmware.Mdns

/-!
Packets that are sent are complete DNS messages.
-/

namespace EspFirmware.Mdns
open EspFirmware.Lib OutPacket

inductive WireName : List (BitVec 8) → Prop where
  | root : WireName [0]
  | reference (high low : BitVec 8) (is : 0xC0 ≤ high.toNat) : WireName [high, low]
  | label (s : CString) {rest : List (BitVec 8)} (nonempty : 0 < s.length) (short : s.length ≤ 63) (more : WireName rest) :
      WireName (BitVec.ofNat 8 s.length :: (s ++ rest))

def wireU16 (n : Nat) : List (BitVec 8) := [BitVec.ofNat 8 (n / 256), BitVec.ofNat 8 (n % 256)]

def IsQuestion (bytes : List (BitVec 8)) : Prop :=
  ∃ name fields, WireName name ∧ fields.length = 4 ∧ bytes = name ++ fields

def IsRecord (bytes : List (BitVec 8)) : Prop :=
  ∃ name fields data, WireName name ∧ fields.length = 8 ∧ data.length < 65536 ∧
    bytes = name ++ fields ++ wireU16 data.length ++ data

structure DnsMessage where
  flags : List (BitVec 8)
  questions : List (List (BitVec 8))
  answers : List (List (BitVec 8))
  servers : List (List (BitVec 8))
  additional : List (List (BitVec 8))

namespace DnsMessage

def header (m : DnsMessage) : List (BitVec 8) :=
  [0, 0] ++ m.flags ++ wireU16 m.questions.length ++ wireU16 m.answers.length ++ wireU16 m.servers.length ++
    wireU16 m.additional.length

def bytes (m : DnsMessage) : List (BitVec 8) :=
  m.header ++ (m.questions.flatten ++ (m.answers.flatten ++ (m.servers.flatten ++ m.additional.flatten)))

structure Ok (m : DnsMessage) : Prop where
  flags : m.flags.length = 2
  questions : ∀ q ∈ m.questions, IsQuestion q
  records : ∀ r ∈ m.answers ++ (m.servers ++ m.additional), IsRecord r
  counts : ∀ l ∈ [m.questions, m.answers, m.servers, m.additional], l.length < 65536

end DnsMessage

def WellFormed (bytes : List (BitVec 8)) : Prop :=
  bytes.length ≤ MDNS_MAX_PACKET_SIZE ∧ ∃ m : DnsMessage, m.Ok ∧ bytes = m.bytes

/-- The name is appended to its end, every part with as much of it as eight bits count. -/
def NameFits : List CString → OutPacket → Prop
  | [], p => p.index < MDNS_MAX_PACKET_SIZE
  | s :: rest, p =>
      match p.findName (s :: rest) s (List.range p.index) with
      | .unreadable => False
      | .found _ => p.index + 1 < MDNS_MAX_PACKET_SIZE
      | .none => 0 < s.length % 256 ∧ s.length % 256 < MDNS_NAME_MAX_LEN ∧
          p.index + s.length % 256 + 1 < MDNS_MAX_PACKET_SIZE ∧ NameFits rest (p.mdnsAppendString s).2

def NotBegun : List CString → OutPacket → Prop
  | [], p => p.index ≥ MDNS_MAX_PACKET_SIZE
  | s :: rest, p =>
      match p.findName (s :: rest) s (List.range p.index) with
      | .unreadable => True
      | .found _ => p.index + 1 ≥ MDNS_MAX_PACKET_SIZE
      | .none => p.index + s.length % 256 + 1 ≥ MDNS_MAX_PACKET_SIZE

/-- The items of a TXT record are appended to the last one, and none is as long as 255 characters. -/
def TxtFits : List (CString × CString) → OutPacket → Prop
  | [], _ => True
  | item :: rest, p =>
      (txtItem item).length % 256 ≠ 255 ∧ p.index + (txtItem item).length % 256 + 1 < MDNS_MAX_PACKET_SIZE ∧
        TxtFits rest (p.mdnsAppendString (txtItem item)).2

def SrvFits (server : WireServer) (service : WireService) (p : OutPacket) : Prop :=
  server.hostname ≠ [] ∧ p.index + 5 < MDNS_MAX_PACKET_SIZE ∧
    NameFits [server.hostname, MDNS_DEFAULT_DOMAIN]
      (((p.mdnsAppendU16 service.priority).2.mdnsAppendU16 service.weight).2.mdnsAppendU16 service.port).2

def RecordFits (name : List CString) (type : WireType) (flush : Bool) (ttl : BitVec 32) (data : OutPacket → Prop)
    (p : OutPacket) : Prop :=
  NameFits name p ∧ (mdnsAppendFqdn name p).2.index + 10 < MDNS_MAX_PACKET_SIZE ∧
    data ((mdnsAppendFqdn name p).2.mdnsAppendType type flush ttl).2

def RecordWhole (name : List CString) (type : WireType) (flush : Bool) (ttl : BitVec 32) (data : OutPacket → Prop)
    (p : OutPacket) : Prop :=
  NotBegun name p ∨ RecordFits name type flush ttl data p

def PtrWhole (instanceName service proto : CString) (bye : Bool) (p : OutPacket) : Prop :=
  RecordWhole [service, proto, MDNS_DEFAULT_DOMAIN] .ptr false (if bye then 0 else 4500)
    (NameFits [instanceName, service, proto, MDNS_DEFAULT_DOMAIN]) p

def ServiceWhole (server : WireServer) (service : WireService) (type : WireType) (flush : Bool) (ttl : BitVec 32)
    (data : OutPacket → Prop) (p : OutPacket) : Prop :=
  ∀ name ∈ mdnsGetServiceInstanceName server service,
    RecordWhole [name, service.service, service.proto, MDNS_DEFAULT_DOMAIN] type flush ttl data p

def AddressWhole (server : WireServer) (type : WireType) (length : Nat) (flush bye : Bool) (p : OutPacket) : Prop :=
  server.hostname ≠ [] →
    RecordWhole [server.hostname, MDNS_DEFAULT_DOMAIN] type flush (if bye then 0 else 120)
      (fun p => p.index + (length - 1) < MDNS_MAX_PACKET_SIZE) p

def AddressesWhole {α : Type} (server : WireServer) (tcpip_if : Iface) (address : Iface → Option α) (ok : α → Bool)
    (record : OutPacket → α → Nat × OutPacket) (whole : OutPacket → Prop) (p : OutPacket) : Prop :=
  ∀ ip ∈ address tcpip_if, ok ip = true → whole p ∧
    (mdnsIfIsDup server tcpip_if = true → ∀ other ∈ mdnsGetOtherIf tcpip_if, (address other).isSome = true →
      whole (record p ip).2)

/-- Where the name of the record is not begun, there is no room for its type either. -/
def SdptrWhole (service : WireService) (flush : Bool) (p : OutPacket) : Prop :=
  NotBegun sdName p ∧ p.index + 10 ≥ MDNS_MAX_PACKET_SIZE ∨
    RecordFits sdName .ptr flush 4500 (NameFits [service.service, service.proto, MDNS_DEFAULT_DOMAIN]) p

def AnswerWhole (server : WireServer) (tcpip_if : Iface) (answer : WireAnswer) (p : OutPacket) : Prop :=
  match answer.body with
  | .ptr s => PtrWhole ((mdnsGetServiceInstanceName server s).getD []) s.service s.proto answer.bye p
  | .customPtr instanceName service proto => PtrWhole instanceName service proto answer.bye p
  | .srv s => ServiceWhole server s .srv answer.flush (if answer.bye then 0 else 120) (SrvFits server s) p
  | .txt s => ServiceWhole server s .txt answer.flush (if answer.bye then 0 else 4500) (TxtFits s.txt) p
  | .sdptr s => SdptrWhole s answer.flush p
  | .a =>
      (server.ifaces tcpip_if).pcb4 = true ∨ (server.ifaces tcpip_if).dup4 = true →
      AddressesWhole server tcpip_if (fun i => (server.ifaces i).ip4) (fun _ => true)
        (fun p ip => p.mdnsAppendARecord server ip answer.flush answer.bye)
        (AddressWhole server .a 4 answer.flush answer.bye) p
  | .aaaa =>
      (server.ifaces tcpip_if).pcb6 = true ∨ (server.ifaces tcpip_if).dup6 = true →
      AddressesWhole server tcpip_if (fun i => (server.ifaces i).ip6) (fun ip => ip.toList.any (· ≠ 0))
        (fun p ip => p.mdnsAppendAaaaRecord server ip answer.flush answer.bye)
        (AddressWhole server .aaaa 16 answer.flush answer.bye) p

/-- A question is appended to its end, or not begun. Eight bits are not taken for empty when they count its name, or all
of it. -/
def QuestionWhole (q : WireQuestion) (p : OutPacket) : Prop :=
  NotBegun (questionStrings q) p ∨
    NameFits (questionStrings q) p ∧
      ((mdnsAppendFqdn (questionStrings q) p).2.index - p.index) % 256 ≠ 0 ∧
      ((mdnsAppendFqdn (questionStrings q) p).2.index - p.index) % 256 ≠ 252 ∧
      (mdnsAppendFqdn (questionStrings q) p).2.index + 3 < MDNS_MAX_PACKET_SIZE

def EachWhole {α : Type} (append : OutPacket → α → Nat × OutPacket) (whole : α → OutPacket → Prop) :
    List α → OutPacket → Prop
  | [], _ => True
  | x :: rest, p => whole x p ∧ EachWhole append whole rest (append p x).2

def PacketWhole (server : WireServer) (t : WirePacket) (stale : Memory) : Prop :=
  let answer := fun p (a : WireAnswer) => p.mdnsAppendAnswer server t.tcpip_if a
  let whole := AnswerWhole server t.tcpip_if
  let p := (ofStale stale).mdnsSetU16 2 t.flags
  let p₁ := appendSection countQuestion t.questions 4 p
  let p₂ := appendSection answer t.answers 6 p₁
  let p₃ := appendSection answer t.servers 8 p₂
  EachWhole countQuestion QuestionWhole t.questions p ∧ EachWhole answer whole t.answers p₁ ∧
    EachWhole answer whole t.servers p₂ ∧ EachWhole answer whole t.additional p₃

section

instance NameFits.decide : (strings : List CString) → (p : OutPacket) → Decidable (NameFits strings p)
  | [], p => inferInstanceAs (Decidable (p.index < MDNS_MAX_PACKET_SIZE))
  | s :: rest, p =>
      have := NameFits.decide rest (p.mdnsAppendString s).2
      have : Decidable (match p.findName (s :: rest) s (List.range p.index) with
          | .unreadable => False
          | .found _ => p.index + 1 < MDNS_MAX_PACKET_SIZE
          | .none => 0 < s.length % 256 ∧ s.length % 256 < MDNS_NAME_MAX_LEN ∧
              p.index + s.length % 256 + 1 < MDNS_MAX_PACKET_SIZE ∧ NameFits rest (p.mdnsAppendString s).2) :=
        match p.findName (s :: rest) s (List.range p.index) with
        | .unreadable => inferInstanceAs (Decidable False)
        | .found _ => inferInstanceAs (Decidable (_ < _))
        | .none => inferInstanceAs (Decidable (_ ∧ _))
      this

instance NotBegun.decide (p : OutPacket) : (strings : List CString) → Decidable (NotBegun strings p)
  | [] => inferInstanceAs (Decidable (p.index ≥ MDNS_MAX_PACKET_SIZE))
  | s :: rest =>
      have : Decidable (match p.findName (s :: rest) s (List.range p.index) with
          | .unreadable => True
          | .found _ => p.index + 1 ≥ MDNS_MAX_PACKET_SIZE
          | .none => p.index + s.length % 256 + 1 ≥ MDNS_MAX_PACKET_SIZE) :=
        match p.findName (s :: rest) s (List.range p.index) with
        | .unreadable => inferInstanceAs (Decidable True)
        | .found _ => inferInstanceAs (Decidable (_ ≥ _))
        | .none => inferInstanceAs (Decidable (_ ≥ _))
      this

instance TxtFits.decide : (txt : List (CString × CString)) → (p : OutPacket) → Decidable (TxtFits txt p)
  | [], _ => isTrue trivial
  | item :: rest, p =>
      have := TxtFits.decide rest (p.mdnsAppendString (txtItem item)).2
      inferInstanceAs (Decidable (_ ∧ _ ∧ _))

instance SrvFits.decide (server : WireServer) (service : WireService) (p : OutPacket) :
    Decidable (SrvFits server service p) := inferInstanceAs (Decidable (_ ∧ _ ∧ _))

variable (data : OutPacket → Prop) [DecidablePred data]

instance RecordWhole.decide (name : List CString) (type : WireType) (flush : Bool) (ttl : BitVec 32) (p : OutPacket) :
    Decidable (RecordWhole name type flush ttl data p) :=
  have : Decidable (RecordFits name type flush ttl data p) := inferInstanceAs (Decidable (_ ∧ _ ∧ _))
  inferInstanceAs (Decidable (_ ∨ _))

instance EachWhole.decide {α : Type} (append : OutPacket → α → Nat × OutPacket) (whole : α → OutPacket → Prop)
    [∀ x p, Decidable (whole x p)] : (items : List α) → (p : OutPacket) → Decidable (EachWhole append whole items p)
  | [], _ => isTrue trivial
  | x :: rest, p =>
      have := EachWhole.decide append whole rest (append p x).2
      inferInstanceAs (Decidable (_ ∧ _))

instance ServiceWhole.decide (server : WireServer) (service : WireService) (type : WireType) (flush : Bool)
    (ttl : BitVec 32) (p : OutPacket) : Decidable (ServiceWhole server service type flush ttl data p) :=
  Option.decidableForallMem _

instance AddressWhole.decide (server : WireServer) (type : WireType) (length : Nat) (flush bye : Bool) (p : OutPacket) :
    Decidable (AddressWhole server type length flush bye p) :=
  inferInstanceAs (Decidable (_ → _))

instance AddressesWhole.decide {α : Type} (server : WireServer) (tcpip_if : Iface) (address : Iface → Option α)
    (ok : α → Bool) (record : OutPacket → α → Nat × OutPacket) (p : OutPacket) :
    Decidable (AddressesWhole server tcpip_if address ok record data p) :=
  have (ip : α) : Decidable (∀ other ∈ mdnsGetOtherIf tcpip_if, (address other).isSome = true → data (record p ip).2) :=
    Option.decidableForallMem _
  Option.decidableForallMem _

instance AnswerWhole.decide (server : WireServer) (tcpip_if : Iface) (answer : WireAnswer) (p : OutPacket) :
    Decidable (AnswerWhole server tcpip_if answer p) :=
  match answer with
  | ⟨.ptr _, _, _⟩ => inferInstanceAs (Decidable (RecordWhole _ _ _ _ (NameFits _) p))
  | ⟨.customPtr _ _ _, _, _⟩ => inferInstanceAs (Decidable (RecordWhole _ _ _ _ (NameFits _) p))
  | ⟨.srv _, _, _⟩ => inferInstanceAs (Decidable (ServiceWhole _ _ _ _ _ (SrvFits _ _) p))
  | ⟨.txt _, _, _⟩ => inferInstanceAs (Decidable (ServiceWhole _ _ _ _ _ (TxtFits _) p))
  | ⟨.sdptr _, _, _⟩ => inferInstanceAs (Decidable (_ ∧ _ ∨ _ ∧ _ ∧ NameFits _ _))
  | ⟨.a, flush, bye⟩ =>
      inferInstanceAs (Decidable (_ → AddressesWhole server tcpip_if _ _ _ (AddressWhole server .a 4 flush bye) p))
  | ⟨.aaaa, flush, bye⟩ =>
      inferInstanceAs (Decidable (_ → AddressesWhole server tcpip_if _ _ _ (AddressWhole server .aaaa 16 flush bye) p))

instance QuestionWhole.decide (q : WireQuestion) (p : OutPacket) : Decidable (QuestionWhole q p) :=
  inferInstanceAs (Decidable (_ ∨ _ ∧ _))

instance PacketWhole.decide (server : WireServer) (t : WirePacket) (stale : Memory) :
    Decidable (PacketWhole server t stale) :=
  inferInstanceAs (Decidable (_ ∧ _ ∧ _ ∧ _))

end

end EspFirmware.Mdns
