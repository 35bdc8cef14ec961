import EspFirmware.Lib.CString
import EspFirmware.Lib.Memory
import EspFirmware.Mdns.Services

/-!
Names in mDNS packets (`mdns.c`): how a name is read, following the references in it, and how it is appended, searching
for an earlier occurrence to refer to.
-/

namespace EspFirmware.Mdns
open EspFirmware.Lib

def MDNS_MAX_PACKET_SIZE : Nat := 1460

def MDNS_DEFAULT_DOMAIN : CString := [108, 111, 99, 97, 108]

def MDNS_SUB_STR : CString := [95, 115, 117, 98]

structure MdnsName where
  host : CString
  service : CString
  proto : CString
  domain : CString
  parts : Nat
  sub : Bool
  deriving DecidableEq, Repr

namespace MdnsName

def empty : MdnsName := ⟨[], [], [], [], 0, false⟩

def store (name : MdnsName) (s : CString) : MdnsName :=
  match name.parts with
  | 0 => { name with host := s, parts := 1 }
  | 1 => { name with service := s, parts := 2 }
  | 2 => { name with proto := s, parts := 3 }
  | n => { name with domain := s, parts := n + 1 }

def strlcat (dst src : CString) : CString := dst ++ src.take (MDNS_NAME_BUF_LEN - 1 - dst.length)

def addLabel (name : MdnsName) (buf : List (BitVec 8)) : MdnsName :=
  let s := cString buf
  if name.parts = 1 ∧ buf.head? ≠ some 95 ∧ strcasecmp s MDNS_DEFAULT_DOMAIN = false ∧
      strcasecmp s [105, 112, 54] = false ∧ strcasecmp s [105, 110, 45, 97, 100, 100, 114] = false then
    { name with host := strlcat (strlcat name.host [46]) s }
  else if strcasecmp s MDNS_SUB_STR then { name with sub := true }
  else name.store s

end MdnsName

/-- A name is read outside of the memory that may be read, cannot be read, or ends before `next`. -/
inductive NameRead where
  | outside
  | bad
  | ok (next : Nat) (name : MdnsName)
  deriving DecidableEq, Repr

/-- The loop of `_mdns_read_fqdn`, at `pos` of the name that began at `start`; the bytes before `size` may be read. -/
def readFqdnFrom (mem : Memory) (size : Nat) : Nat → Nat → Nat → MdnsName → NameRead
  | 0, _, _, _ => .outside
  | fuel + 1, start, pos, name =>
      if pos ≥ size then .outside
      else
        let len := (mem pos).toNat
        if len = 0 then .ok (pos + 1) name
        else if name.parts = 4 then .bad
        else if len < 0xC0 then
          if len > 63 then .bad
          else if pos + 1 + len > size then .outside
          else readFqdnFrom mem size fuel start (pos + 1 + len) (name.addLabel (Memory.load mem (pos + 1) len))
        else if pos + 1 ≥ size then .outside
        else
          let address := (len % 64) * 256 + (mem (pos + 1)).toNat
          if address ≥ start then .bad
          else
            match readFqdnFrom mem size fuel address address name with
            | .ok _ name => .ok (pos + 2) name
            | other => other

/-- No name takes more steps: references lead to the front. -/
def readFuel (size : Nat) : Nat := (size + 1) * (size + 1)

def mdnsReadFqdn (mem : Memory) (size start : Nat) (name : MdnsName) : NameRead :=
  readFqdnFrom mem size (readFuel size) start start name

def MdnsName.arrange (name : MdnsName) : MdnsName :=
  match name.parts with
  | 3 => { name with host := [], service := name.host, proto := name.service, domain := name.proto }
  | 2 => { name with service := [], proto := [], domain := name.service }
  | _ => name

def mdnsParseFqdn (mem : Memory) (size start : Nat) : NameRead :=
  match mdnsReadFqdn mem size start .empty with
  | .ok next name =>
      if name.parts = 0 then .ok next name
      else
        let name := name.arrange
        if strcasecmp name.domain MDNS_DEFAULT_DOMAIN ∨ strcasecmp name.domain [97, 114, 112, 97] then .ok next name
        else .bad
  | other => other

structure OutPacket where
  mem : Memory
  index : Nat

inductive Occurrence where
  | none
  | unreadable
  | found (offset : Nat)
  deriving DecidableEq, Repr

namespace OutPacket
variable (p : OutPacket)

def mdnsAppendU8 (value : BitVec 8) : Nat × OutPacket :=
  if p.index ≥ MDNS_MAX_PACKET_SIZE then (0, p) else (1, ⟨Memory.store p.mem p.index [value], p.index + 1⟩)

def mdnsAppendU16 (value : BitVec 16) : Nat × OutPacket :=
  if p.index + 1 ≥ MDNS_MAX_PACKET_SIZE then (0, p)
  else
    let p := (p.mdnsAppendU8 (value.extractLsb' 8 8)).2
    (2, (p.mdnsAppendU8 (value.extractLsb' 0 8)).2)

def mdnsAppendString (string : CString) : Nat × OutPacket :=
  let len := string.length % 256
  if p.index + len + 1 ≥ MDNS_MAX_PACKET_SIZE then (0, p)
  else
    let p := (p.mdnsAppendU8 (BitVec.ofNat 8 len)).2
    ((len + 1) % 256, ⟨Memory.store p.mem p.index (string.take len), p.index + len⟩)

def sameParts (name : MdnsName) (strings : List CString) : Bool :=
  name.parts = strings.length ∧
    (strings.zip [name.host, name.service, name.proto, name.domain]).all fun (a, b) => strcasecmp a b

/-- The search of `_mdns_append_fqdn`, over the places that are left. What cannot be read, or lies behind the packet,
ends it. -/
def findName (strings : List CString) (s : CString) : List Nat → Occurrence
  | [] => .none
  | place :: later =>
      let len := s.length % 256
      if (p.mem place).toNat ≠ len ∨ Memory.load p.mem (place + 1) len ≠ s.take len then findName strings s later
      else
        match mdnsReadFqdn p.mem MDNS_MAX_PACKET_SIZE place .empty with
        | .ok _ name => if sameParts name strings then .found place else findName strings s later
        | _ => .unreadable

def mdnsAppendFqdn : List CString → OutPacket → Nat × OutPacket
  | [], p => p.mdnsAppendU8 0
  | s :: rest, p =>
      match p.findName (s :: rest) s (List.range p.index) with
      | .unreadable => (0, p)
      | .found offset => p.mdnsAppendU16 (BitVec.ofNat 16 offset ||| 0xC000)
      | .none =>
          let (written, p) := p.mdnsAppendString s
          if written = 0 then (0, p)
          else
            let (more, p) := mdnsAppendFqdn rest p
            (written + more, p)

end OutPacket

end EspFirmware.Mdns
