import EspFirmware.Mdns.Receive
import EspFirmware.Spec.MdnsPacket

/-!
What becomes of the records of a received message: each is judged as if it were the only one.
-/

namespace EspFirmware.Spec
open EspFirmware.Lib EspFirmware.Mdns

section
variable (p : RxPacket)

def BearsOurName (step : RxStep) : Prop :=
  step.record.name.sub = false ∧ step.server.mdnsNameIsOurs step.record.name = true

instance (step : RxStep) : Decidable (BearsOurName step) := inferInstanceAs (Decidable (_ ∧ _))

def IsSkipped (r : RxRecord) : Prop := r.type = MDNS_TYPE_NSEC ∨ r.type = MDNS_TYPE_OPT

instance (r : RxRecord) : Decidable (IsSkipped r) := inferInstanceAs (Decidable (_ ∨ _))

def IsAddress (r : RxRecord) : Prop := r.type = WireType.aaaa.code ∨ r.type = WireType.a.code

instance (r : RxRecord) : Decidable (IsAddress r) := inferInstanceAs (Decidable (_ ∨ _))

def SearchMatches (step : RxStep) (id : Nat) : Prop :=
  ∃ x ∈ step.server.search_once, x.id = id ∧ x.isFor step.record.name step.record.type p.key = some true

def HasClaim (r : RxRecord) : Prop := r.type = WireType.srv.code ∨ r.type = WireType.txt.code ∨ IsAddress r

def HasTarget (r : RxRecord) : Prop := ∃ next name, p.parseName (r.data_ptr + MDNS_SRV_FQDN_OFFSET) = .ok next name

instance (r : RxRecord) : Decidable (HasTarget p r) :=
  match read : p.parseName (r.data_ptr + MDNS_SRV_FQDN_OFFSET) with
  | .ok next name => isTrue ⟨next, name, read⟩
  | .bad => isFalse fun ⟨_, _, is⟩ => nomatch read.symm.trans is
  | .outside => isFalse fun ⟨_, _, is⟩ => nomatch read.symm.trans is

/-- What is done with the record depends on nothing that was carried over from the ones before. -/
structure JudgedAlone (step : RxStep) : Prop where
  alone : ∀ e, step.handled.used = (judgeRecord e p step.server none step.record).used ∧
    step.handled.checked = (judgeRecord e p step.server none step.record).checked
  matched : ∀ id ∈ step.handled.used, SearchMatches p step id
  checked : BearsOurName step → HasClaim step.record → step.handled.checked = true

/-- Records that are not ours are for searches, except those of the authority section. -/
def IsLookedUp (step : RxStep) : Prop :=
  ¬ IsSkipped step.record ∧ ¬ BearsOurName step ∧ step.record.part ≠ .ns

instance (step : RxStep) : Decidable (IsLookedUp step) := inferInstanceAs (Decidable (_ ∧ _))

/-- The search that is left when a record has been handled: the one that the latest record was for, unless that was an
address. -/
def searchLeftAfter (left : Option Nat) (step : RxStep) : Option Nat :=
  if IsLookedUp step then
    match step.server.findSearch step.record.name step.record.type p.key with
    | .found id => if IsAddress step.record then none else some id
    | _ => none
  else left

def searchLeft (before : List RxStep) : Option Nat := before.foldl (searchLeftAfter p) none

/-- Under one of our names there is no record when a search is left, no record of a service under the name of the host,
and no SRV record without a target. -/
structure IsApart (left : Option Nat) (step : RxStep) : Prop where
  own : BearsOurName step → ¬ IsSkipped step.record →
    step.record.type ∈ [WireType.ptr, .srv, .txt, .aaaa, .a].map WireType.code → left = none
  served : BearsOurName step → step.record.type ∈ [WireType.srv, .txt].map WireType.code → step.record.clas = 1 →
    step.record.name.service ≠ []
  target : BearsOurName step → step.record.type = WireType.srv.code → HasTarget p step.record

end

end EspFirmware.Spec

/-!
What received records come to: the items of TXT data, one winner of two who claim a name, and new names for the other.
-/

namespace EspFirmware.Spec
open EspFirmware.Lib EspFirmware.Mdns OutPacket

structure IsTxtString (s : CString) : Prop where
  some_ : 0 < s.length
  short : s.length ≤ 255

def lengthPrefixed (s : CString) : List (BitVec 8) := BitVec.ofNat 8 s.length :: s

def txtBytes (strings : List CString) : List (BitVec 8) := strings.flatMap lengthPrefixed

def keyAndValue (s : CString) : CString × CString := (s.takeWhile (· ≠ 61), (s.dropWhile (· ≠ 61)).drop 1)

def HasKey (s : CString) : Prop := s.head? ≠ some 61

instance (s : CString) : Decidable (HasKey s) := inferInstanceAs (Decidable (¬ _))

def keyedItems (strings : List CString) : List (CString × CString) := (strings.filter (HasKey ·)).map keyAndValue

def itemText (item : TxtItem) : CString × CString := (item.key, item.value.getD [])

/-- The data is behind a header of 12 bytes and the head of a record, in a packet whose length has 16 bits. -/
def Offered (data : List (BitVec 8)) : Prop := data.length + 22 < 65536

def DecodesItems (data : List (BitVec 8)) : Prop :=
  ∃ items, mdnsResultTxtCreate data = .done items ∧
    ∀ strings, (∀ s ∈ strings, IsTxtString s) → data = txtBytes strings → items.map itemText = keyedItems strings

def CutShort (data : List (BitVec 8)) : Prop :=
  ∃ strings b rest, (∀ s ∈ strings, IsTxtString s) ∧ data = txtBytes strings ++ b :: rest ∧ rest.length < b.toNat

def KeysAreClosed (data : List (BitVec 8)) : Prop :=
  ∀ strings s rest, (∀ t ∈ strings, IsTxtString t) → IsTxtString s → data = txtBytes strings ++ lengthPrefixed s ++ rest →
    61 ∉ s → rest.length ≤ 1

def KeysHaveNoZero (data : List (BitVec 8)) : Prop :=
  ∀ strings, (∀ s ∈ strings, IsTxtString s) → data = txtBytes strings → ∀ s ∈ strings, HasKey s → 0 ∉ s

/-- What a service may have: strings, keys without `=`, and items that a length byte can be put before. -/
structure IsTxtItem (item : CString × CString) : Prop where
  some_ : item.1 ≠ []
  key : 61 ∉ item.1
  noZero : 0 ∉ item.1 ∧ 0 ∉ item.2
  short : (txtItem item).length ≤ 255

structure TxtRecordFits (name : CString) (service : WireService) (p : OutPacket) : Prop where
  named : NameFits [name, service.service, service.proto, MDNS_DEFAULT_DOMAIN] p
  data : (mdnsAppendFqdn [name, service.service, service.proto, MDNS_DEFAULT_DOMAIN] p).2.index + 10 +
    (txtBytes (service.txt.map txtItem)).length < MDNS_MAX_PACKET_SIZE

def recordData (p : OutPacket) (start : Nat) : List (BitVec 8) :=
  Memory.load p.mem start ((p.mem (start - 2)).toNat * 256 + (p.mem (start - 1)).toNat)

def TxtListReadsBack (server : WireServer) (service : WireService) (name : CString) (flush bye : Bool) (p : OutPacket) :
    Prop :=
  ∃ items, mdnsResultTxtCreate (recordData (p.mdnsAppendTxtRecord server service flush bye).2
      ((mdnsAppendFqdn [name, service.service, service.proto, MDNS_DEFAULT_DOMAIN] p).2.index + 10)) = .done items ∧
    items.map itemText = service.txt

def OneWinner (ours theirs : Option Int) (same : Prop) : Prop :=
  ∃ r, ours = some r ∧ theirs = some (-r) ∧ (r = 0 ↔ same)

def TxtEncoding (server : WireServer) (service : WireService) (data : List (BitVec 8)) : Prop :=
  ∃ name flush bye p, mdnsGetServiceInstanceName server service = some name ∧
    (p.mdnsAppendTxtRecord server service flush bye).1 ≠ 0 ∧
    data = recordData (p.mdnsAppendTxtRecord server service flush bye).2
      ((mdnsAppendFqdn [name, service.service, service.proto, MDNS_DEFAULT_DOMAIN] p).2.index + 10)

/-- Two responders compare their SRV data and their TXT data, in whatever memory there is on the stack. -/
structure TieBroken (serverA : WireServer) (a : WireService) (serverB : WireServer) (b : WireService)
    (dataA dataB : List (BitVec 8)) : Prop where
  srv : OneWinner
    (some (mdnsCheckSrvCollision serverA a b.priority b.weight b.port serverB.hostname MDNS_DEFAULT_DOMAIN))
    (some (mdnsCheckSrvCollision serverB b a.priority a.weight a.port serverA.hostname MDNS_DEFAULT_DOMAIN))
    (srvBytes a.priority a.weight a.port serverA.hostname MDNS_DEFAULT_DOMAIN =
      srvBytes b.priority b.weight b.port serverB.hostname MDNS_DEFAULT_DOMAIN)
  txt : ∀ stackA stackB, OneWinner (mdnsCheckTxtCollision a dataB stackA) (mdnsCheckTxtCollision b dataA stackB)
    (dataA = dataB)

def wireString (s : CString) : List (BitVec 8) := BitVec.ofNat 8 s.length :: s.take (s.length % 256)

def txtWire (txt : List (CString × CString)) : List (BitVec 8) :=
  if txt = [] then [0] else txt.flatMap fun item => wireString (txtItem item)

def presumedLength (txt : List (CString × CString)) : Nat :=
  1 + txt.length * (txt.head?.map fun item => (txtItem item).length + 1).getD 0

/-- Each list is longer than what the other one presumes of itself, or shorter, and the other way around; or only one is,
and the bytes decide the same; or both are of the length presumed, and the bytes decide. -/
def TxtOneWinner (a b : List (CString × CString)) : Prop :=
  let lengthA := (txtWire a).length
  let lengthB := (txtWire b).length
  let order := memcmp (txtWire a) (txtWire b)
  txtWire a ≠ txtWire b ∧ presumedLength a < lengthB ∧ lengthA < presumedLength b ∨
  txtWire a ≠ txtWire b ∧ lengthB < presumedLength a ∧ presumedLength b < lengthA ∨
  lengthB = presumedLength a ∧ lengthA = presumedLength b ∧ lengthA = lengthB ∨
  lengthB = presumedLength a ∧ lengthA ≤ lengthB ∧
    (order < 0 ∧ lengthA < presumedLength b ∨ 0 < order ∧ presumedLength b < lengthA) ∨
  lengthA = presumedLength b ∧ lengthB ≤ lengthA ∧
    (order < 0 ∧ presumedLength a < lengthB ∨ 0 < order ∧ lengthB < presumedLength a)

instance (a b : List (CString × CString)) : Decidable (TxtOneWinner a b) := inferInstanceAs (Decidable (_ ∨ _))

def mangleRun : Nat → CString → Option (List MangledName)
  | 0, _ => some []
  | n + 1, name => (mdnsMangleName name).bind fun m => (mangleRun n m.text).map fun later => m :: later

def baseAndFirst (name : CString) : CString × Nat :=
  match strrchr 45 name with
  | none => (name, 2)
  | some p =>
      match strtol (name.drop (p + 1)) with
      | (suffix, []) => (name.take p, suffix.toNat + 1)
      | _ => (name, 2)

def numbered (base : CString) (number : Nat) : CString := base ++ [45] ++ decimalDigits number

/-- `n` new names, all different, each written inside of its memory and a label that can be read back. -/
def RenamesProgress (name : CString) (n : Nat) : Prop :=
  ∃ run, mangleRun n name = some run ∧ run.length = n ∧ (name :: run.map MangledName.text).Nodup ∧
    ∀ m ∈ run, m.text.length + 1 ≤ m.size ∧ (∃ number, m.text = numbered (baseAndFirst name).1 number) ∧
      m.text.length ≤ 63

def LastFits (name : CString) (n : Nat) : Prop :=
  n = 0 ∨ ((baseAndFirst name).2 + n - 1 < 2 ^ 31 ∧
    (numbered (baseAndFirst name).1 ((baseAndFirst name).2 + n - 1)).length ≤ 63)

instance (name : CString) (n : Nat) : Decidable (LastFits name n) := inferInstanceAs (Decidable (_ ∨ _))

end EspFirmware.Spec
