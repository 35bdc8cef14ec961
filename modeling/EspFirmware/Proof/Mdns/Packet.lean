import EspFirmware.Spec.MdnsPacket
import EspFirmware.Proof.Mdns.Name

/-!
Packets whose questions and records are appended whole are complete messages.
-/

namespace EspFirmware.Proof.Mdns
open EspFirmware.Lib EspFirmware.Mdns OutPacket

/-! ## Names -/

def nameBound (strings : List CString) : Nat := (strings.map fun s => min (s.length % 256) 63 + 1).sum + 1

structure Fitted (form : List (BitVec 8) → Prop) (p : OutPacket) (result : Nat × OutPacket) (bytes : List (BitVec 8)) :
    Prop where
  length : result.1 = bytes.length
  appends : Appends p result.2 bytes
  form : form bytes
  room : result.2.index ≤ MDNS_MAX_PACKET_SIZE

section
variable {p : OutPacket}

theorem reference_high (value : BitVec 16) : 0xC0 ≤ ((value ||| 0xC000).extractLsb' 8 8).toNat := by
  have parts : (value ||| 0xC000).extractLsb' 8 8 = value.extractLsb' 8 8 ||| 0xC0 := by
    rw [BitVec.extractLsb'_or]
    rfl
  rw [parts, BitVec.toNat_or]
  exact Nat.right_le_or

def cut (s : CString) : CString := s.take (s.length % 256)

theorem length_cut (s : CString) : (cut s).length = s.length % 256 := by
  unfold cut
  rw [List.length_take]
  exact Nat.min_eq_left (Nat.mod_le _ _)

theorem appendCut_spec {s : CString} (short : s.length % 256 ≠ 255)
    (room : p.index + s.length % 256 + 1 < MDNS_MAX_PACKET_SIZE) :
    (p.mdnsAppendString s).1 = (cut s).length + 1 ∧ Appends p (p.mdnsAppendString s).2 (labelBytes (cut s)) := by
  have below := Nat.mod_lt s.length (by decide : 256 > 0)
  have length := length_cut s
  unfold labelBytes
  rw [length]
  unfold mdnsAppendString
  dsimp only
  rw [if_neg (by omega), Nat.mod_eq_of_lt (by omega)]
  have first := (appendU8_spec (p := p) (v := BitVec.ofNat 8 (s.length % 256)) (by omega)).2
  have whole := first.trans (appends_store _ (cut s))
  rw [length] at whole
  exact ⟨rfl, whole⟩

theorem name_fitted (strings : List CString) (p : OutPacket) (fits : NameFits strings p) :
    ∃ bytes, Fitted WireName p (mdnsAppendFqdn strings p) bytes ∧ bytes.length ≤ nameBound strings := by
  induction strings generalizing p with
  | nil =>
      have room : p.index < MDNS_MAX_PACKET_SIZE := fits
      obtain ⟨one, appends⟩ := appendU8_spec (v := 0) room
      have next : (mdnsAppendFqdn [] p).2.index = p.index + 1 := appends.index
      exact ⟨[0], ⟨one, appends, .root, by omega⟩, Nat.le_refl _⟩
  | cons s rest ih =>
      rw [NameFits] at fits
      rw [mdnsAppendFqdn]
      cases is : p.findName (s :: rest) s (List.range p.index) with
      | unreadable =>
        rw [is] at fits
        exact absurd fits not_false
      | found place =>
        rw [is] at fits
        obtain ⟨two, appends⟩ := appendU16_spec (v := BitVec.ofNat 16 place ||| 0xC000) fits
        have next := appends.index
        refine ⟨[_, _], ⟨two, appends, .reference _ _ (reference_high _), Nat.le_trans (Nat.le_of_eq next) fits⟩, ?_⟩
        unfold nameBound
        rw [List.map_cons, List.sum_cons]
        show 2 ≤ _
        omega
      | none =>
        rw [is] at fits
        obtain ⟨nonempty, short, room, later⟩ := fits
        have limit : s.length % 256 < 64 := short
        have length := length_cut s
        obtain ⟨written, appends⟩ := appendCut_spec (p := p) (s := s) (by omega) room
        obtain ⟨bytes, fitted, bound⟩ := ih (p.mdnsAppendString s).2 later
        dsimp only
        rw [written, if_neg (Nat.succ_ne_zero _)]
        refine ⟨labelBytes (cut s) ++ bytes, ⟨?_, appends.trans fitted.appends, ?_, fitted.room⟩, ?_⟩
        · rw [List.length_append, fitted.length]
          rfl
        · exact .label (cut s) (by omega) (by omega) fitted.form
        · unfold nameBound at bound ⊢
          rw [List.length_append, List.map_cons, List.sum_cons]
          have : (labelBytes (cut s)).length = (cut s).length + 1 := rfl
          omega

theorem name_notBegun {strings : List CString} (none_ : NotBegun strings p) : mdnsAppendFqdn strings p = (0, p) := by
  cases strings with
  | nil =>
      have full : p.index ≥ MDNS_MAX_PACKET_SIZE := none_
      rw [mdnsAppendFqdn, mdnsAppendU8, if_pos full]
  | cons s rest =>
      rw [NotBegun] at none_
      rw [mdnsAppendFqdn]
      cases is : p.findName (s :: rest) s (List.range p.index) with
      | unreadable => rfl
      | found place =>
        rw [is] at none_
        dsimp only
        rw [mdnsAppendU16, if_pos none_]
      | none =>
        rw [is] at none_
        dsimp only
        rw [mdnsAppendString, if_pos none_, if_pos rfl]

theorem wireName_long {bytes : List (BitVec 8)} (name : WireName bytes) : 0 < bytes.length := by
  cases name with
  | root => exact Nat.zero_lt_one
  | reference high low is => exact Nat.zero_lt_two
  | label s nonempty short more => exact Nat.succ_pos _

/-! ## The parts of a record -/

theorem appendU32_spec {v : BitVec 32} (room : p.index + 3 < MDNS_MAX_PACKET_SIZE) :
    ∃ bytes, bytes.length = 4 ∧ Appends p (p.mdnsAppendU32 v).2 bytes := by
  unfold mdnsAppendU32
  rw [if_neg (by omega)]
  have first := (appendU8_spec (p := p) (v := v.extractLsb' 24 8) (by omega)).2
  have at1 := first.index
  rw [List.length_singleton] at at1
  have second := first.trans (appendU8_spec (v := v.extractLsb' 16 8) (by omega)).2
  have at2 := second.index
  rw [List.length_append, List.length_singleton, List.length_singleton] at at2
  have third := second.trans (appendU8_spec (v := v.extractLsb' 8 8) (by omega)).2
  have at3 := third.index
  rw [List.length_append, List.length_append, List.length_singleton, List.length_singleton, List.length_singleton] at at3
  exact ⟨_, rfl, third.trans (appendU8_spec (v := v.extractLsb' 0 8) (by omega)).2⟩

theorem appendType_spec {t : WireType} {f : Bool} {k : BitVec 32} (room : p.index + 10 < MDNS_MAX_PACKET_SIZE) :
    (p.mdnsAppendType t f k).1 = 10 ∧
      ∃ fields, fields.length = 8 ∧ Appends p (p.mdnsAppendType t f k).2 (fields ++ [0, 0]) := by
  unfold mdnsAppendType
  rw [if_neg (by omega)]
  refine ⟨rfl, ?_⟩
  have first := (appendU16_spec (p := p) (v := t.code) (by omega)).2
  have at1 : (p.mdnsAppendU16 t.code).2.index = p.index + 2 := first.index
  have second := first.trans (appendU16_spec (v := if f then 0x8001 else 0x0001) (by omega)).2
  have at2 : ((p.mdnsAppendU16 t.code).2.mdnsAppendU16 (if f then 0x8001 else 0x0001)).2.index = p.index + 4 :=
    second.index
  obtain ⟨bytes, four, appends⟩ := appendU32_spec
    (p := ((p.mdnsAppendU16 t.code).2.mdnsAppendU16 (if f then 0x8001 else 0x0001)).2) (v := k) (by omega)
  have third := second.trans appends
  have at3 := third.index
  rw [List.length_append, four] at at3
  refine ⟨_, ?_, third.trans (appendU16_spec (v := 0) ?_).2⟩
  · rw [List.length_append, four]
    rfl
  · rw [at3]
    show p.index + (4 + 4) + 1 < _
    omega

theorem wireU16_bytes {n : Nat} (small : n < 65536) :
    [(BitVec.ofNat 16 n).extractLsb' 8 8, (BitVec.ofNat 16 n).extractLsb' 0 8] = wireU16 n := by
  unfold wireU16
  congr 1
  · apply BitVec.eq_of_toNat_eq
    rw [BitVec.extractLsb'_toNat, BitVec.toNat_ofNat, BitVec.toNat_ofNat, Nat.shiftRight_eq_div_pow]
    omega
  · congr 1
    apply BitVec.eq_of_toNat_eq
    rw [BitVec.extractLsb'_toNat, BitVec.toNat_ofNat, BitVec.toNat_ofNat, Nat.shiftRight_zero]
    omega

theorem Appends.patch {p' : OutPacket} {front old data : List (BitVec 8)} {location : Nat} {v : BitVec 16}
    (appended : Appends p p' (front ++ (old ++ data))) (two : old.length = 2) (at_ : location = p.index + front.length)
    (room : location + 1 < MDNS_MAX_PACKET_SIZE) :
    Appends p (p'.mdnsSetU16 location v) (front ++ ([v.extractLsb' 8 8, v.extractLsb' 0 8] ++ data)) := by
  have bytes := appended.bytes
  simp only [List.length_append, Memory.load_append, two] at bytes
  have first := List.append_inj_left bytes (Memory.length_load _ _ _)
  have rest := List.append_inj_right bytes (Memory.length_load _ _ _)
  have last := List.append_inj_right rest ((Memory.length_load _ _ _).trans two.symm)
  unfold mdnsSetU16
  rw [if_neg (by omega)]
  refine ⟨?_, fun x below => ?_, ?_⟩
  · rw [appended.index]
    simp only [List.length_append, two, List.length_cons, List.length_nil]
  · exact (Memory.store_other p'.mem (.inl (by omega))).trans (appended.kept x below)
  · simp only [List.length_append, Memory.load_append, ← at_]
    rw [← at_] at last
    congr 1
    · exact (Memory.load_congr fun x _ below => Memory.store_other _ (.inl (by omega))).trans first
    · congr 1
      · exact Memory.load_store p'.mem location _
      · exact (Memory.load_congr fun x from_ _ => Memory.store_other _ (.inr from_)).trans last

/-! ## Records -/

def DataBytes (bytes : List (BitVec 8)) : Prop := 0 < bytes.length ∧ bytes.length < 65536

inductive OneRecord (p : OutPacket) (result : Nat × OutPacket) : Prop where
  | none (nothing : result = (0, p))
  | one (bytes : List (BitVec 8)) (some_ : 0 < result.1) (appends : Appends p result.2 bytes) (record : IsRecord bytes)
      (room : result.2.index ≤ MDNS_MAX_PACKET_SIZE)

variable {name : List CString} {type : WireType} {flush : Bool} {ttl : BitVec 32}

theorem record_rest {p p₁ : OutPacket} {part : List (BitVec 8)} {data : Nat × OutPacket} {bytes : List (BitVec 8)}
    (named : Appends p p₁ part) (room : p₁.index + 10 < MDNS_MAX_PACKET_SIZE)
    (fitted : Fitted DataBytes (p₁.mdnsAppendType type flush ttl).2 data bytes) :
    ∃ fields, fields.length = 8 ∧
      Appends p (data.2.mdnsSetU16 ((p₁.mdnsAppendType type flush ttl).2.index - 2) (BitVec.ofNat 16 data.1))
        ((part ++ fields) ++ (wireU16 bytes.length ++ bytes)) ∧
      (data.2.mdnsSetU16 ((p₁.mdnsAppendType type flush ttl).2.index - 2) (BitVec.ofNat 16 data.1)).index ≤
        MDNS_MAX_PACKET_SIZE := by
  obtain ⟨-, fields, eight, typed⟩ := appendType_spec (t := type) (f := flush) (k := ttl) room
  have next := typed.index
  have start := named.index
  have whole := (named.trans typed).trans fitted.appends
  rw [List.length_append, eight] at next
  have location : (p₁.mdnsAppendType type flush ttl).2.index - 2 = p.index + (part ++ fields).length := by
    rw [next, start, List.length_append, eight]
    show p.index + part.length + 10 - 2 = _
    omega
  have split : part ++ (fields ++ [0, 0]) ++ bytes = (part ++ fields) ++ ([0, 0] ++ bytes) := by
    simp only [List.append_assoc]
  rw [split] at whole
  have patched := whole.patch (v := BitVec.ofNat 16 data.1) rfl location (by rw [next]; show p₁.index + 10 - 2 + 1 < _; omega)
  rw [fitted.length, wireU16_bytes fitted.form.2] at patched
  rw [fitted.length]
  refine ⟨fields, eight, patched, ?_⟩
  unfold mdnsSetU16
  split
  · exact fitted.room
  · exact fitted.room

theorem record_appended {data : OutPacket → Nat × OutPacket} {bytes : List (BitVec 8)} (few : nameBound name < 256)
    (named : NameFits name p) (room : (mdnsAppendFqdn name p).2.index + 10 < MDNS_MAX_PACKET_SIZE)
    (fitted : Fitted DataBytes ((mdnsAppendFqdn name p).2.mdnsAppendType type flush ttl).2
      (data ((mdnsAppendFqdn name p).2.mdnsAppendType type flush ttl).2) bytes) :
    ∃ part fields, Fitted WireName p (mdnsAppendFqdn name p) part ∧ fields.length = 8 ∧
      0 < (appendRecord name type flush ttl data p).1 ∧
      Appends p (appendRecord name type flush ttl data p).2 ((part ++ fields) ++ (wireU16 bytes.length ++ bytes)) ∧
      (appendRecord name type flush ttl data p).2.index ≤ MDNS_MAX_PACKET_SIZE := by
  obtain ⟨part, namePart, bound⟩ := name_fitted name p named
  obtain ⟨ten, _⟩ := appendType_spec (t := type) (f := flush) (k := ttl) room
  obtain ⟨fields, eight, appends, last⟩ := record_rest namePart.appends room fitted
  have long := wireName_long namePart.form
  have length : (mdnsAppendFqdn name p).1 % 256 = part.length := by
    rw [namePart.length]
    exact Nat.mod_eq_of_lt (by omega)
  have is : appendRecord name type flush ttl data p =
      (part.length + 10 + (data ((mdnsAppendFqdn name p).2.mdnsAppendType type flush ttl).2).1,
        (data ((mdnsAppendFqdn name p).2.mdnsAppendType type flush ttl).2).2.mdnsSetU16
          (((mdnsAppendFqdn name p).2.mdnsAppendType type flush ttl).2.index - 2)
          (BitVec.ofNat 16 (data ((mdnsAppendFqdn name p).2.mdnsAppendType type flush ttl).2).1)) := by
    have some_ := fitted.form.1
    unfold appendRecord
    dsimp only
    rw [length, ten, fitted.length, if_neg (by omega), if_neg (by decide), if_neg (by omega)]
  rw [is]
  exact ⟨part, fields, namePart, eight, by omega, appends, last⟩

theorem record_whole {data : OutPacket → Nat × OutPacket} {dataFits : OutPacket → Prop}
    (spec : ∀ p, p.index < MDNS_MAX_PACKET_SIZE → dataFits p → ∃ bytes, Fitted DataBytes p (data p) bytes)
    (few : nameBound name < 256)
    (whole : RecordWhole name type flush ttl dataFits p) : OneRecord p (appendRecord name type flush ttl data p) := by
  rcases whole with nothing | ⟨named, room, fits⟩
  · refine .none ?_
    unfold appendRecord
    rw [name_notBegun nothing]
    rfl
  · obtain ⟨ten, fields, eight, typed⟩ := appendType_spec (t := type) (f := flush) (k := ttl) room
    have typedIndex := typed.index
    rw [List.length_append, eight] at typedIndex
    obtain ⟨bytes, dataFitted⟩ := spec _ (by rw [typedIndex]; exact room) fits
    obtain ⟨part, fields, fitted, eight, some_, appends, last⟩ := record_appended few named room dataFitted
    exact .one _ some_ appends ⟨part, fields, bytes, fitted.form, eight, dataFitted.form.2, (List.append_assoc _ _ _).symm⟩
      last

/-! ## Data -/

theorem Fitted.data {f : List (BitVec 8) → Prop} {result : Nat × OutPacket} {bytes : List (BitVec 8)}
    (fitted : Fitted f p result bytes) (some_ : 0 < bytes.length) : Fitted DataBytes p result bytes := by
  have next := fitted.appends.index
  have room := fitted.room
  have full : MDNS_MAX_PACKET_SIZE = 1460 := rfl
  exact ⟨fitted.length, fitted.appends, ⟨some_, by omega⟩, room⟩

theorem nameData_fitted {strings : List CString} (fits : NameFits strings p) (few : nameBound strings < 256) :
    ∃ bytes, Fitted DataBytes p (nameData strings p) bytes := by
  obtain ⟨bytes, fitted, bound⟩ := name_fitted strings p fits
  have length : (nameData strings p).1 = bytes.length := by
    show (mdnsAppendFqdn strings p).1 % 256 = _
    rw [fitted.length]
    exact Nat.mod_eq_of_lt (by omega)
  have same : Fitted WireName p (nameData strings p) bytes := ⟨length, fitted.appends, fitted.form, fitted.room⟩
  exact ⟨bytes, same.data (wireName_long fitted.form)⟩

theorem txtItems_spec (txt : List (CString × CString)) (n : Nat) (p : OutPacket) (room : p.index < MDNS_MAX_PACKET_SIZE)
    (fits : TxtFits txt p) :
    ∃ bytes, (txtItems txt n p).1 = some (n + bytes.length) ∧ Appends p (txtItems txt n p).2 bytes ∧
      (txtItems txt n p).2.index < MDNS_MAX_PACKET_SIZE := by
  induction txt generalizing n p with
  | nil => exact ⟨[], rfl, ⟨rfl, fun _ _ => rfl, rfl⟩, room⟩
  | cons item rest ih =>
      obtain ⟨short, space, later⟩ := fits
      obtain ⟨written, appends⟩ := appendCut_spec short space
      have length := length_cut (txtItem item)
      have next : (p.mdnsAppendString (txtItem item)).2.index = p.index + ((cut (txtItem item)).length + 1) := appends.index
      obtain ⟨bytes, total, more, last⟩ := ih (n + ((cut (txtItem item)).length + 1)) _ (by omega) later
      rw [txtItems]
      dsimp only
      rw [written, if_neg (Nat.succ_ne_zero _)]
      refine ⟨labelBytes (cut (txtItem item)) ++ bytes, ?_, appends.trans more, last⟩
      rw [total, List.length_append, Nat.add_assoc]
      rfl

theorem txtData_fitted {txt : List (CString × CString)} (room : p.index < MDNS_MAX_PACKET_SIZE) (fits : TxtFits txt p) :
    ∃ bytes, Fitted DataBytes p (txtData txt p) bytes := by
  obtain ⟨bytes, total, appends, last⟩ := txtItems_spec txt 0 p room fits
  rw [Nat.zero_add] at total
  unfold txtData
  generalize txtItems txt 0 p = result at total appends last
  obtain ⟨length, p'⟩ := result
  cases total
  cases bytes with
  | nil =>
      have one := appends.trans (appends_store p' [0])
      have fitted : Fitted (fun _ => True) p (1, ⟨Memory.store p'.mem p'.index [0], p'.index + 1⟩) [0] :=
        ⟨rfl, one, trivial, last⟩
      exact ⟨_, fitted.data Nat.zero_lt_one⟩
  | cons b rest =>
      have fitted : Fitted (fun _ => True) p ((b :: rest).length, p') (b :: rest) :=
        ⟨rfl, appends, trivial, Nat.le_of_lt last⟩
      exact ⟨_, fitted.data (Nat.succ_pos _)⟩

theorem addressData_fitted {bytes : List (BitVec 8)} (some_ : 0 < bytes.length)
    (fits : p.index + (bytes.length - 1) < MDNS_MAX_PACKET_SIZE) : Fitted DataBytes p (addressData bytes p) bytes := by
  unfold addressData
  rw [if_neg (by omega)]
  have fitted : Fitted (fun _ => True) p (bytes.length, ⟨Memory.store p.mem p.index bytes, p.index + bytes.length⟩) bytes :=
    ⟨rfl, appends_store p bytes, trivial, by show p.index + bytes.length ≤ _; omega⟩
  exact fitted.data some_

theorem nameBound_host (host : CString) : nameBound [host, MDNS_DEFAULT_DOMAIN] < 256 := by
  show min (host.length % 256) 63 + 1 + (6 + 0) + 1 < 256
  omega

theorem nameBound_service (service proto : CString) : nameBound [service, proto, MDNS_DEFAULT_DOMAIN] < 256 := by
  show min (service.length % 256) 63 + 1 + (min (proto.length % 256) 63 + 1 + (6 + 0)) + 1 < 256
  omega

theorem nameBound_instance (name service proto : CString) :
    nameBound [name, service, proto, MDNS_DEFAULT_DOMAIN] < 256 := by
  show min (name.length % 256) 63 + 1 + (min (service.length % 256) 63 + 1 +
    (min (proto.length % 256) 63 + 1 + (6 + 0))) + 1 < 256
  omega

theorem srvData_fitted {server : WireServer} {service : WireService} (fits : SrvFits server service p) :
    ∃ bytes, Fitted DataBytes p (srvData server service p) bytes := by
  obtain ⟨hostname, room, named⟩ := fits
  obtain ⟨two, first⟩ := appendU16_spec (p := p) (v := service.priority) (by omega)
  have at1 : (p.mdnsAppendU16 service.priority).2.index = p.index + 2 := first.index
  obtain ⟨two', second⟩ := appendU16_spec (p := (p.mdnsAppendU16 service.priority).2) (v := service.weight) (by omega)
  have at2 : ((p.mdnsAppendU16 service.priority).2.mdnsAppendU16 service.weight).2.index = p.index + 4 :=
    (first.trans second).index
  obtain ⟨two'', third⟩ := appendU16_spec
    (p := ((p.mdnsAppendU16 service.priority).2.mdnsAppendU16 service.weight).2) (v := service.port) (by omega)
  obtain ⟨bytes, fitted⟩ := nameData_fitted named (nameBound_host server.hostname)
  have whole := ((first.trans second).trans third).trans fitted.appends
  have some_ := fitted.form.1
  unfold srvData
  dsimp only
  rw [two, two', two'', if_neg (by decide), if_neg hostname, fitted.length, if_neg (by omega)]
  refine ⟨_, Fitted.data (f := fun _ => True) ⟨?_, whole, trivial, fitted.room⟩ ?_⟩
  · rw [List.length_append]
    show bytes.length + 6 = 6 + bytes.length
    omega
  · rw [List.length_append]
    omega

/-! ## Answers -/

structure Added (form : List (BitVec 8) → Prop) (p : OutPacket) (result : Nat × OutPacket)
    (items : List (List (BitVec 8))) : Prop where
  count : result.1 = items.length
  appends : Appends p result.2 items.flatten
  each : ∀ item ∈ items, form item
  room : result.2.index ≤ MDNS_MAX_PACKET_SIZE

theorem Appends.refl (p : OutPacket) : Appends p p [] := ⟨rfl, fun _ _ => rfl, rfl⟩

theorem added_none {form : List (BitVec 8) → Prop} (room : p.index ≤ MDNS_MAX_PACKET_SIZE) : Added form p (0, p) [] :=
  ⟨rfl, Appends.refl p, nofun, room⟩

theorem OneRecord.added {result : Nat × OutPacket} (one : OneRecord p result) (room : p.index ≤ MDNS_MAX_PACKET_SIZE) :
    ∃ items, Added IsRecord p (if result.1 > 0 then 1 else 0, result.2) items := by
  cases one with
  | none nothing =>
      rw [nothing]
      exact ⟨[], added_none room⟩
  | one bytes some_ appends record last =>
      rw [if_pos some_]
      refine ⟨[bytes], rfl, ?_, fun item member => List.mem_singleton.mp member ▸ record, last⟩
      rw [List.flatten_singleton]
      exact appends

theorem ptr_whole {instanceName service proto : CString} {bye : Bool} (whole : PtrWhole instanceName service proto bye p) :
    OneRecord p (p.mdnsAppendPtrRecord instanceName service proto bye) :=
  record_whole (fun _ _ fits => nameData_fitted fits (nameBound_instance _ _ _)) (nameBound_service _ _) whole

theorem service_whole {server : WireServer} {service : WireService} {d : OutPacket → Nat × OutPacket}
    {dataFits : OutPacket → Prop}
    (spec : ∀ p, p.index < MDNS_MAX_PACKET_SIZE → dataFits p → ∃ bytes, Fitted DataBytes p (d p) bytes)
    (whole : ServiceWhole server service type flush ttl dataFits p) :
    OneRecord p (match mdnsGetServiceInstanceName server service with
      | none => (0, p)
      | some name =>
          appendRecord [name, service.service, service.proto, MDNS_DEFAULT_DOMAIN] type flush ttl d p) := by
  unfold ServiceWhole at whole
  split
  · exact .none rfl
  · rename_i name is
    exact record_whole spec (nameBound_instance _ _ _) (whole name is)

theorem sdName_bound : nameBound sdName < 256 := by decide

theorem sdptr_whole {service : WireService} {flush : Bool} (whole : SdptrWhole service flush p) :
    OneRecord p (p.mdnsAppendSdptrRecord service flush) := by
  rcases whole with ⟨nothing, full⟩ | fits
  · refine .none ?_
    unfold mdnsAppendSdptrRecord
    rw [name_notBegun nothing]
    dsimp only
    rw [mdnsAppendType, if_pos full, if_pos rfl]
  -- as in the other records, the name is there when it fits
  have same : p.mdnsAppendSdptrRecord service flush =
      appendRecord sdName .ptr flush 4500 (nameData [service.service, service.proto, MDNS_DEFAULT_DOMAIN]) p := by
    obtain ⟨part, fitted, bound⟩ := name_fitted sdName p fits.1
    have long := wireName_long fitted.form
    have limit := sdName_bound
    have some_ : (mdnsAppendFqdn sdName p).1 % 256 ≠ 0 := by
      rw [fitted.length, Nat.mod_eq_of_lt (by omega)]
      omega
    unfold mdnsAppendSdptrRecord appendRecord
    dsimp only
    rw [if_neg some_]
  rw [same]
  exact record_whole (fun _ _ fits => nameData_fitted fits (nameBound_service _ _)) sdName_bound (.inr fits)

theorem address_whole {server : WireServer} {b : List (BitVec 8)} {bye : Bool} (some_ : 0 < b.length)
    (whole : AddressWhole server type b.length flush bye p) :
    OneRecord p (if server.hostname = [] then (0, p) else
      appendRecord [server.hostname, MDNS_DEFAULT_DOMAIN] type flush (if bye then 0 else 120) (addressData b) p) := by
  split
  · exact .none rfl
  · rename_i hostname
    exact record_whole (fun _ _ fits => ⟨b, addressData_fitted some_ fits⟩) (nameBound_host _) (whole hostname)

theorem addresses_whole {α : Type} {server : WireServer} {tcpip_if : Iface} {address : Iface → Option α} {ok : α → Bool}
    {record : OutPacket → α → Nat × OutPacket} {whole : OutPacket → Prop}
    (spec : ∀ p ip, whole p → OneRecord p (record p ip)) (room : p.index ≤ MDNS_MAX_PACKET_SIZE)
    (all : AddressesWhole server tcpip_if address ok record whole p) :
    ∃ items, Added IsRecord p (appendAddresses server tcpip_if address ok record p) items := by
  unfold appendAddresses
  split
  · exact ⟨[], added_none room⟩
  · rename_i ip is
    split
    · exact ⟨[], added_none room⟩
    · rename_i good
      obtain ⟨first, second⟩ := all ip is (Bool.not_eq_false _ ▸ good)
      cases spec p ip first with
      | none nothing =>
          rw [nothing]
          exact ⟨[], added_none room⟩
      | one bytes some_ appends isRecord last =>
          have one : Added IsRecord p (1, (record p ip).2) [bytes] := by
            refine ⟨rfl, ?_, fun item member => List.mem_singleton.mp member ▸ isRecord, last⟩
            rw [List.flatten_singleton]
            exact appends
          dsimp only
          rw [if_neg (by omega)]
          split
          · exact ⟨_, one⟩
          · rename_i dup
            split
            · exact ⟨_, one⟩
            · rename_i ip' found
              obtain ⟨other, isOther, there⟩ := Option.bind_eq_some_iff.mp found
              have later := second (by simpa using dup) other isOther (there ▸ rfl)
              cases spec (record p ip).2 ip' later with
              | none nothing =>
                  rw [nothing]
                  exact ⟨_, one⟩
              | one bytes' some' appends' isRecord' last' =>
                  rw [if_pos some']
                  refine ⟨[bytes, bytes'], rfl, ?_, ?_, last'⟩
                  · rw [List.flatten_cons, List.flatten_singleton]
                    exact appends.trans appends'
                  · intro item member
                    rcases List.mem_cons.mp member with rfl | member
                    · exact isRecord
                    · exact List.mem_singleton.mp member ▸ isRecord'

theorem answer_added {server : WireServer} {tcpip_if : Iface} {answer : WireAnswer} (room : p.index ≤ MDNS_MAX_PACKET_SIZE)
    (whole : AnswerWhole server tcpip_if answer p) :
    ∃ items, Added IsRecord p (p.mdnsAppendAnswer server tcpip_if answer) items := by
  obtain ⟨body, flush, bye⟩ := answer
  cases body with
  | ptr s => exact (ptr_whole whole).added room
  | customPtr instanceName service proto => exact (ptr_whole whole).added room
  | srv s =>
      have one := service_whole (d := srvData server s) (fun _ _ fits => srvData_fitted fits) whole
      exact one.added room
  | txt s =>
      have one := service_whole (d := txtData s.txt) (fun _ room fits => txtData_fitted room fits) whole
      exact one.added room
  | sdptr s => exact (sdptr_whole whole).added room
  | a =>
      unfold mdnsAppendAnswer
      dsimp only
      split
      · exact ⟨[], added_none room⟩
      · rename_i up
        refine addresses_whole (fun p ip each => ?_) room (whole (by simpa [Classical.or_iff_not_imp_left] using up))
        exact address_whole (b := [_, _, _, _]) (Nat.succ_pos 3) each
  | aaaa =>
      unfold mdnsAppendAnswer
      dsimp only
      split
      · exact ⟨[], added_none room⟩
      · rename_i up
        refine addresses_whole (fun p ip each => ?_) room (whole (by simpa [Classical.or_iff_not_imp_left] using up))
        have length : ip.toList.length = 16 := ip.length_toList
        exact address_whole (b := ip.toList) (by omega) (length.symm ▸ each)

def LongQuestion (bytes : List (BitVec 8)) : Prop := IsQuestion bytes ∧ 6 ≤ bytes.length

theorem question_name_long {strings : List CString} {bytes : List (BitVec 8)} (nonempty : strings ≠ [])
    (fits : NameFits strings p) (fitted : Fitted WireName p (mdnsAppendFqdn strings p) bytes) : 2 ≤ bytes.length := by
  have length := fitted.length
  cases strings with
  | nil => exact absurd rfl nonempty
  | cons s rest =>
      rw [NameFits] at fits
      rw [mdnsAppendFqdn] at length
      cases is : p.findName (s :: rest) s (List.range p.index) with
      | unreadable =>
        rw [is] at fits
        exact absurd fits not_false
      | found place =>
        rw [is] at length fits
        have two := (appendU16_spec (v := BitVec.ofNat 16 place ||| 0xC000) fits).1
        exact Nat.le_of_eq (two.symm.trans length)
      | none =>
        rw [is] at length fits
        obtain ⟨some_, short, room, -⟩ := fits
        have limit : s.length % 256 < 64 := short
        have some' := length_cut s
        have written := (appendCut_spec (p := p) (s := s) (by omega) room).1
        dsimp only at length
        rw [written, if_neg (Nat.succ_ne_zero _)] at length
        dsimp only at length
        omega

theorem question_added {q : WireQuestion} (room : p.index ≤ MDNS_MAX_PACKET_SIZE) (whole : QuestionWhole q p) :
    ∃ items, Added LongQuestion p (p.countQuestion q) items := by
  rcases whole with nothing | ⟨fits, some_, counted, space⟩
  · have is : p.mdnsAppendQuestion q = (0, p) := by
      unfold mdnsAppendQuestion
      rw [name_notBegun nothing]
      rfl
    refine ⟨[], ?_⟩
    unfold countQuestion
    rw [is]
    exact added_none room
  · obtain ⟨part, fitted, -⟩ := name_fitted (questionStrings q) p fits
    have long := question_name_long (List.append_ne_nil_of_right_ne_nil _ (List.cons_ne_nil _ _)) fits fitted
    rw [fitted.appends.index, Nat.add_sub_cancel_left] at some_ counted
    obtain ⟨two, first⟩ := appendU16_spec (p := (mdnsAppendFqdn (questionStrings q) p).2) (v := q.type) (by omega)
    have at1 : ((mdnsAppendFqdn (questionStrings q) p).2.mdnsAppendU16 q.type).2.index =
        (mdnsAppendFqdn (questionStrings q) p).2.index + 2 := first.index
    obtain ⟨two', second⟩ := appendU16_spec (p := ((mdnsAppendFqdn (questionStrings q) p).2.mdnsAppendU16 q.type).2)
      (v := if q.unicast then 0x8001 else 0x0001) (by omega)
    have at2 := second.index
    rw [at1] at at2
    obtain ⟨fields, four, appends⟩ : ∃ fields, fields.length = 4 ∧ Appends p _ (part ++ fields) :=
      ⟨_, rfl, fitted.appends.trans (first.trans second)⟩
    have is : p.mdnsAppendQuestion q = ((part.length % 256 + 2 + 2) % 256,
        (((mdnsAppendFqdn (questionStrings q) p).2.mdnsAppendU16 q.type).2.mdnsAppendU16
          (if q.unicast then 0x8001 else 0x0001)).2) := by
      unfold mdnsAppendQuestion
      dsimp only
      rw [fitted.length, two, two', if_neg some_]
    unfold countQuestion
    rw [is]
    have counts : (if (part.length % 256 + 2 + 2) % 256 > 0 then 1 else 0) = 1 := if_pos (by omega)
    refine ⟨[part ++ fields], counts, ?_, ?_, ?_⟩
    · rw [List.flatten_singleton]
      exact appends
    · intro item member
      cases List.mem_singleton.mp member
      refine ⟨⟨part, fields, fitted.form, four, rfl⟩, ?_⟩
      rw [List.length_append, four]
      exact Nat.add_le_add_right long 4
    · exact Nat.le_trans (Nat.le_of_eq at2) space

/-! ## Lists -/

theorem record_long {bytes : List (BitVec 8)} (record : IsRecord bytes) : 6 ≤ bytes.length := by
  obtain ⟨name, fields, data, -, eight, -, rfl⟩ := record
  simp only [List.length_append]
  omega

theorem flatten_long {form : List (BitVec 8) → Prop} {items : List (List (BitVec 8))}
    (long : ∀ bytes, form bytes → 6 ≤ bytes.length) (each : ∀ item ∈ items, form item) :
    6 * items.length ≤ items.flatten.length := by
  induction items with
  | nil => exact Nat.le_refl _
  | cons item rest ih =>
      have first := long item (each item List.mem_cons_self)
      have more := ih fun other member => each other (List.mem_cons_of_mem _ member)
      rw [List.flatten_cons, List.length_append, List.length_cons]
      omega

theorem appendAll_added {α : Type} {form : List (BitVec 8) → Prop} {append : OutPacket → α → Nat × OutPacket}
    {whole : α → OutPacket → Prop}
    (spec : ∀ p x, p.index ≤ MDNS_MAX_PACKET_SIZE → whole x p → ∃ items, Added form p (append p x) items)
    (xs : List α) (count : Nat) (p : OutPacket) (room : p.index ≤ MDNS_MAX_PACKET_SIZE)
    (each : EachWhole append whole xs p) :
    ∃ items : List (List (BitVec 8)), (appendAll append xs count p).1 % 256 = (count + items.length) % 256 ∧
      Appends p (appendAll append xs count p).2 items.flatten ∧ (∀ item ∈ items, form item) ∧
      (appendAll append xs count p).2.index ≤ MDNS_MAX_PACKET_SIZE ∧
      (count < 256 → (appendAll append xs count p).1 < 256) := by
  induction xs generalizing count p with
  | nil => exact ⟨[], rfl, Appends.refl p, nofun, room, id⟩
  | cons x rest ih =>
      obtain ⟨first, added⟩ := spec p x room each.1
      obtain ⟨items, total, appends, forms, last, small⟩ :=
        ih ((count + (append p x).1) % 256) (append p x).2 added.room each.2
      rw [appendAll]
      refine ⟨first ++ items, ?_, ?_, ?_, last, fun _ => small (Nat.mod_lt _ (by decide))⟩
      · rw [total, added.count, List.length_append]
        omega
      · rw [List.flatten_append]
        exact added.appends.trans appends
      · intro item member
        rcases List.mem_append.mp member with here | later
        · exact added.each item here
        · exact forms item later

/-! ## The message -/

structure Built (p : OutPacket) (header body : List (BitVec 8)) : Prop where
  index : p.index = MDNS_HEAD_LEN + body.length
  header : Memory.load p.mem 0 MDNS_HEAD_LEN = header
  body : Memory.load p.mem MDNS_HEAD_LEN body.length = body
  room : p.index ≤ MDNS_MAX_PACKET_SIZE

theorem Built.append {p' : OutPacket} {header body bytes : List (BitVec 8)} (built : Built p header body)
    (appends : Appends p p' bytes) (room : p'.index ≤ MDNS_MAX_PACKET_SIZE) : Built p' header (body ++ bytes) := by
  have start := built.index
  have twelve : MDNS_HEAD_LEN = 12 := rfl
  refine ⟨?_, ?_, ?_, room⟩
  · rw [appends.index, start, List.length_append, Nat.add_assoc]
  · exact (Memory.load_congr fun x _ below => appends.kept x (by omega)).trans built.header
  · rw [List.length_append, Memory.load_append, ← start, appends.bytes]
    congr 1
    exact (Memory.load_congr fun x _ below => appends.kept x (by omega)).trans built.body

theorem Built.set {front old rest body : List (BitVec 8)} {location : Nat} {v : BitVec 16}
    (built : Built p (front ++ (old ++ rest)) body) (two : old.length = 2) (at_ : location = front.length) :
    Built (p.mdnsSetU16 location v) (front ++ ([v.extractLsb' 8 8, v.extractLsb' 0 8] ++ rest)) body := by
  have twelve : MDNS_HEAD_LEN = 12 := rfl
  have full : MDNS_MAX_PACKET_SIZE = 1460 := rfl
  have length := congrArg List.length built.header
  rw [Memory.length_load, List.length_append, List.length_append, two] at length
  have header : Appends ⟨p.mem, 0⟩ ⟨p.mem, 12⟩ (front ++ (old ++ rest)) := by
    refine ⟨?_, nofun, ?_⟩
    · rw [List.length_append, List.length_append, two, ← length]
      rfl
    · rw [List.length_append, List.length_append, two, ← length]
      exact built.header
  have patched := header.patch (v := v) two (at_.trans (Nat.zero_add _).symm) (by omega)
  have bytes := patched.bytes
  have same : ([v.extractLsb' 8 8, v.extractLsb' 0 8] : List (BitVec 8)).length = 2 := rfl
  rw [List.length_append, List.length_append, same, ← length] at bytes
  unfold mdnsSetU16 at bytes ⊢
  rw [if_neg (by omega)] at bytes ⊢
  refine ⟨built.index, bytes, ?_, built.room⟩
  exact (Memory.load_congr fun x from_ _ => Memory.store_other _ (.inr (by rw [same]; omega))).trans built.body

theorem section_built {α : Type} {form : List (BitVec 8) → Prop} {append : OutPacket → α → Nat × OutPacket}
    {whole : α → OutPacket → Prop} {f r body : List (BitVec 8)} {xs : List α} {l : Nat}
    (long : ∀ bytes, form bytes → 6 ≤ bytes.length)
    (spec : ∀ p x, p.index ≤ MDNS_MAX_PACKET_SIZE → whole x p → ∃ items, Added form p (append p x) items)
    (built : Built p (f ++ ([0, 0] ++ r)) body) (at_ : l = f.length)
    (each : EachWhole append whole xs p) :
    ∃ items : List (List (BitVec 8)), (∀ item ∈ items, form item) ∧ items.length < 65536 ∧
      Built (appendSection append xs l p) (f ++ (wireU16 items.length ++ r)) (body ++ items.flatten) := by
  obtain ⟨items, total, appends, forms, last, small⟩ := appendAll_added spec xs 0 p built.room each
  have few := flatten_long long forms
  have next := appends.index
  have full : MDNS_MAX_PACKET_SIZE = 1460 := rfl
  have count : (appendAll append xs 0 p).1 = items.length := by
    have below := small (by decide)
    omega
  refine ⟨items, forms, by omega, ?_⟩
  have set := (built.append appends last).set (v := BitVec.ofNat 16 items.length) rfl at_
  rw [wireU16_bytes (by omega)] at set
  unfold appendSection
  dsimp only
  rw [count]
  exact set

def flagBytes (flags : BitVec 16) : List (BitVec 8) := [0, 0, flags.extractLsb' 8 8, flags.extractLsb' 0 8]

theorem start_built (flags : BitVec 16) (stale : Memory) :
    Built ((ofStale stale).mdnsSetU16 2 flags) (flagBytes flags ++ ([0, 0] ++ [0, 0, 0, 0, 0, 0])) [] := by
  have zeros : Built (ofStale stale) ([0, 0] ++ ([0, 0] ++ [0, 0, 0, 0, 0, 0, 0, 0])) [] :=
    ⟨rfl, rfl, rfl, (show 12 ≤ 1460 by decide)⟩
  exact zeros.set rfl rfl

/-- A packet into which everything is put whole is a complete message. -/
theorem dispatch_wellFormed (server : WireServer) (t : WirePacket) (stale : Memory)
    (whole : PacketWhole server t stale) : WellFormed (mdnsDispatchTxPacket server t stale).sent := by
  obtain ⟨questionsWhole, answersWhole, serversWhole, additionalWhole⟩ := whole
  have answer (p : OutPacket) (a : WireAnswer) (room : p.index ≤ MDNS_MAX_PACKET_SIZE)
      (each : AnswerWhole server t.tcpip_if a p) := answer_added room each
  obtain ⟨questions, areQuestions, few₁, built₁⟩ := section_built (l := 4) (fun _ long => long.2)
    (fun p q room each => question_added room each) (start_built t.flags stale) rfl questionsWhole
  obtain ⟨answers, areAnswers, few₂, built₂⟩ := section_built (l := 6) (r := [0, 0, 0, 0])
    (f := flagBytes t.flags ++ wireU16 questions.length) (fun _ => record_long) answer built₁ rfl answersWhole
  obtain ⟨servers, areServers, few₃, built₃⟩ := section_built (l := 8) (r := [0, 0])
    (f := flagBytes t.flags ++ wireU16 questions.length ++ wireU16 answers.length) (fun _ => record_long) answer built₂
    rfl serversWhole
  obtain ⟨additional, areAdditional, few₄, built₄⟩ := section_built (l := 10) (r := [])
    (f := flagBytes t.flags ++ wireU16 questions.length ++ wireU16 answers.length ++ wireU16 servers.length)
    (fun _ => record_long) answer built₃ rfl additionalWhole
  let m : DnsMessage := ⟨[t.flags.extractLsb' 8 8, t.flags.extractLsb' 0 8], questions, answers, servers, additional⟩
  have ok : m.Ok := by
    refine ⟨rfl, fun q member => (areQuestions q member).1, fun r member => ?_, fun l member => ?_⟩
    · rcases List.mem_append.mp member with here | later
      · exact areAnswers r here
      · rcases List.mem_append.mp later with here | later
        · exact areServers r here
        · exact areAdditional r later
    · simp only [List.mem_cons, List.not_mem_nil, or_false] at member
      rcases member with rfl | rfl | rfl | rfl
      · exact few₁
      · exact few₂
      · exact few₃
      · exact few₄
  have bytes : (mdnsDispatchTxPacket server t stale).sent = m.bytes := by
    have index : (mdnsDispatchTxPacket server t stale).index = _ := built₄.index
    have body : Memory.load (mdnsDispatchTxPacket server t stale).mem (0 + MDNS_HEAD_LEN) _ = _ :=
      (congrArg (fun start => Memory.load _ start _) (Nat.zero_add MDNS_HEAD_LEN)).trans built₄.body
    unfold sent
    rw [index, Memory.load_append, body]
    simp only [List.nil_append, List.append_assoc]
    exact congrArg (· ++ _) built₄.header
  refine ⟨?_, m, ok, bytes⟩
  unfold sent
  rw [Memory.length_load]
  exact built₄.room

def someServer (ip : Option (BitVec 32)) : WireServer := ⟨[101], [], fun _ => ⟨true, false, false, false, ip, none⟩⟩

def someService : WireService := ⟨[97], [95, 98], [95, 117, 100, 112], 0, 0, 80, [([99], [100])]⟩

theorem some_packet_wellFormed : WellFormed (mdnsDispatchTxPacket (someServer (some 0x0100A8C0))
    ⟨.sta, 0x8400, [⟨none, some [95, 98], some [95, 117, 100, 112], MDNS_DEFAULT_DOMAIN, 12, false⟩],
      [⟨.ptr someService, false, false⟩], [], [⟨.txt someService, true, false⟩, ⟨.a, true, false⟩]⟩ fun _ => 7).sent :=
  dispatch_wellFormed _ _ _ (by decide)

theorem wireU16_zero {n : Nat} (small : n < 65536) (zero : wireU16 n = [0, 0]) : n = 0 := by
  obtain ⟨high, low⟩ := List.cons.inj zero
  have high := congrArg BitVec.toNat high
  have low := congrArg BitVec.toNat (List.cons.inj low).1
  rw [BitVec.toNat_ofNat] at high low
  have : (0 : BitVec 8).toNat = 0 := rfl
  omega

theorem length_uncounted {m : DnsMessage} (ok : m.Ok) (zero : (m.bytes.drop 4).take 8 = List.replicate 8 0) :
    m.bytes.length = MDNS_HEAD_LEN := by
  obtain ⟨flags, questions, answers, servers, additional⟩ := m
  obtain ⟨a, b, rfl⟩ : ∃ a b, flags = [a, b] := by
    match flags, ok.flags with
    | [a, b], _ => exact ⟨a, b, rfl⟩
  have counts : wireU16 questions.length ++ wireU16 answers.length ++ wireU16 servers.length ++
      wireU16 additional.length = List.replicate 8 0 := zero
  have none_ {items : List (List (BitVec 8))} (one : items ∈ [questions, answers, servers, additional])
      (zero : wireU16 items.length = [0, 0]) : items = [] :=
    List.length_eq_zero_iff.mp (wireU16_zero (ok.counts items one) zero)
  simp only [wireU16, List.cons_append, List.nil_append, List.replicate, List.cons.injEq, and_true] at counts
  obtain ⟨q₁, q₂, a₁, a₂, s₁, s₂, d₁, d₂⟩ := counts
  cases none_ (by simp) (congrArg₂ (fun x y => [x, y]) q₁ q₂)
  cases none_ (by simp) (congrArg₂ (fun x y => [x, y]) a₁ a₂)
  cases none_ (by simp) (congrArg₂ (fun x y => [x, y]) s₁ s₂)
  cases none_ (by simp) (congrArg₂ (fun x y => [x, y]) d₁ d₂)
  rfl

def longItem : WireService := { someService with txt := [([99], List.replicate 253 100)] }

theorem long_item_left_over : ¬ WellFormed (mdnsDispatchTxPacket (someServer none)
    ⟨.sta, 0x8400, [], [⟨.txt longItem, true, false⟩], [], []⟩ fun _ => 0).sent := by
  rintro ⟨-, m, ok, bytes⟩
  have length := length_uncounted ok (bytes ▸ by decide +kernel)
  rw [← bytes] at length
  revert length
  decide +kernel

end

end EspFirmware.Proof.Mdns
