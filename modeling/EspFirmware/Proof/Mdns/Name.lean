import EspFirmware.Spec.MdnsPacket
import Mathlib.Data.List.TakeWhile
import Mathlib.Tactic.Linarith

/-!
Names that are appended can be read back: the reader comes over the labels that were written, and over those of the
name that is referred to.
-/

namespace EspFirmware.Proof.Mdns
open EspFirmware.Lib EspFirmware.Mdns

theorem tolower_eq_zero : ∀ c : BitVec 8, tolower c = 0 ↔ c = 0 := by decide

theorem tolower_eq_underscore : ∀ c : BitVec 8, tolower c = 95 ↔ c = 95 := by decide

structure StorableAt (i : Nat) (low : CString) : Prop where
  characters : ∀ c ∈ low, c ≠ 0
  notSub : low ≠ lowercase MDNS_SUB_STR
  separate : i = 1 → low.head? = some 95 ∨ low = lowercase MDNS_DEFAULT_DOMAIN

section
variable {name : MdnsName} {label : CString}

theorem addLabel_store (storable : StorableAt name.parts (lowercase label)) : name.addLabel label = name.store label := by
  have whole : cString label = label := by
    refine cString_of_not_mem fun member => ?_
    exact storable.characters (tolower 0) (List.mem_map_of_mem member) ((tolower_eq_zero 0).mpr rfl)
  have notSub : strcasecmp label MDNS_SUB_STR = false := by
    cases same : strcasecmp label MDNS_SUB_STR with
    | false => rfl
    | true => exact absurd (strcasecmp_iff.mp same) storable.notSub
  unfold MdnsName.addLabel
  dsimp only
  rw [whole, notSub, if_neg, if_neg Bool.false_ne_true]
  rintro ⟨second, first, notDomain, -⟩
  rcases storable.separate second with underscore | domain
  · refine first ?_
    cases label with
    | nil => cases underscore
    | cons c rest => exact congrArg some ((tolower_eq_underscore c).mp (Option.some.inj underscore))
  · rw [strcasecmp_iff.mpr domain] at notDomain
    cases notDomain

theorem store_parts (name : MdnsName) (s : CString) : (name.store s).parts = name.parts + 1 := by
  unfold MdnsName.store
  split <;> simp_all

end

section
variable {mem mem' : Memory} {size size' : Nat}

/-! What a step of the reading does: a terminator, a label, a reference. -/

section
variable {fuel start pos : Nat} {name : MdnsName}

theorem readFqdn_inside (inside : pos < size) :
    readFqdnFrom mem size (fuel + 1) start pos name =
      let len := (mem pos).toNat
      if len = 0 then .ok (pos + 1) name
      else if name.parts = 4 then .bad
      else if len < 0xC0 then
        if len > 63 then .bad
        else if pos + 1 + len > size then .outside
        else readFqdnFrom mem size fuel start (pos + 1 + len) (name.addLabel (Memory.load mem (pos + 1) len))
      else if pos + 1 ≥ size then .outside
      else
        let address := (len % 64) * 256 + (mem (pos + 1)).toNat
        if address ≥ start then .bad
        else
          match readFqdnFrom mem size fuel address address name with
          | .ok _ name => .ok (pos + 2) name
          | other => other :=
  if_neg (Nat.not_le.mpr inside)

theorem readFqdn_end (inside : pos < size) (zero : (mem pos).toNat = 0) :
    readFqdnFrom mem size (fuel + 1) start pos name = .ok (pos + 1) name := by
  rw [readFqdn_inside inside]
  exact if_pos zero

theorem readFqdn_label {len : Nat} (byte : (mem pos).toNat = len) (some_ : 0 < len) (parts : name.parts < 4)
    (short : len ≤ 63) (fits : pos + 1 + len ≤ size) :
    readFqdnFrom mem size (fuel + 1) start pos name =
      readFqdnFrom mem size fuel start (pos + 1 + len) (name.addLabel (Memory.load mem (pos + 1) len)) := by
  rw [readFqdn_inside (by omega)]
  dsimp only
  rw [byte, if_neg (by omega), if_neg (by omega), if_pos (by omega), if_neg (by omega), if_neg (by omega)]

theorem readFqdn_reference {len low address next : Nat} {name' : MdnsName} (byte : (mem pos).toNat = len)
    (parts : name.parts < 4) (long : 0xC0 ≤ len) (fits : pos + 1 < size) (second : (mem (pos + 1)).toNat = low)
    (is : (len % 64) * 256 + low = address) (before : address < start)
    (read : readFqdnFrom mem size fuel address address name = .ok next name') :
    readFqdnFrom mem size (fuel + 1) start pos name = .ok (pos + 2) name' := by
  rw [readFqdn_inside (by omega)]
  dsimp only
  rw [byte, if_neg (by omega), if_neg (by omega), if_neg (by omega), if_neg (by omega), second, is,
    if_neg (by omega), read]

end

theorem read_of_labels (same : ∀ x, x < size → mem' x = mem x) (larger : size ≤ size') {fuel fuel' start pos : Nat}
    {labels : List CString} {name : MdnsName} (whole : labelsFrom mem size fuel start pos = some labels)
    (enough : fuel ≤ fuel') (few : name.parts + labels.length ≤ 4)
    (storable : ∀ i label, labels[i]? = some label → StorableAt (name.parts + i) (lowercase label)) :
    ∃ next, readFqdnFrom mem' size' fuel' start pos name = .ok next (labels.foldl MdnsName.store name) := by
  induction fuel generalizing fuel' start pos labels name with
  | zero => cases whole
  | succ fuel ih =>
      obtain ⟨fuel', rfl⟩ : ∃ f, fuel' = f + 1 := ⟨fuel' - 1, by omega⟩
      rw [labelsFrom] at whole
      split at whole
      · cases whole
      · rename_i inside
        have byte : (mem' pos).toNat = (mem pos).toNat := congrArg BitVec.toNat (same pos (by omega))
        split at whole
        · rename_i zero
          cases whole
          exact ⟨_, readFqdn_end (by omega) (byte.trans zero)⟩
        · rename_i nonzero
          split at whole
          · rename_i short
            split at whole
            · cases whole
            · rename_i fits
              obtain ⟨more, rest, rfl⟩ := Option.map_eq_some_iff.mp whole
              have first := storable 0 _ rfl
              have loaded : Memory.load mem' (pos + 1) (mem pos).toNat = Memory.load mem (pos + 1) (mem pos).toNat :=
                Memory.load_congr fun x _ below => same x (by omega)
              rw [List.length_cons] at few
              rw [readFqdn_label byte (by omega) (by omega) (by omega) (by omega), loaded, addLabel_store first]
              refine ih rest (Nat.le_of_succ_le_succ enough) ?_ fun i label at_ => ?_
              · rw [store_parts]
                omega
              · rw [store_parts, Nat.add_assoc, Nat.add_comm 1 i]
                exact storable (i + 1) label at_
          · rename_i reference
            split at whole
            · cases whole
            · rename_i back
              have low : (mem' (pos + 1)).toNat = (mem (pos + 1)).toNat := congrArg BitVec.toNat (same (pos + 1) (by omega))
              split at whole
              · rename_i label more target
                cases whole
                obtain ⟨next, read⟩ := ih target (Nat.le_of_succ_le_succ enough) few storable
                rw [List.length_cons] at few
                exact ⟨_, readFqdn_reference byte (by omega) (by omega) (by omega) low rfl (by omega) read⟩
              · cases whole

end

structure Appends (p p' : OutPacket) (bytes : List (BitVec 8)) : Prop where
  index : p'.index = p.index + bytes.length
  kept : ∀ x, x < p.index → p'.mem x = p.mem x
  bytes : Memory.load p'.mem p.index bytes.length = bytes

section
variable {p p' p'' : OutPacket} {bytes : List (BitVec 8)}

theorem appends_store (p : OutPacket) (bytes : List (BitVec 8)) :
    Appends p ⟨Memory.store p.mem p.index bytes, p.index + bytes.length⟩ bytes :=
  ⟨rfl, fun _ below => Memory.store_other p.mem (.inl below), Memory.load_store p.mem p.index bytes⟩

theorem Appends.trans {more : List (BitVec 8)} (first : Appends p p' bytes) (second : Appends p' p'' more) :
    Appends p p'' (bytes ++ more) := by
  have next := first.index
  refine ⟨?_, fun x below => (second.kept x (by omega)).trans (first.kept x below), ?_⟩
  · rw [second.index, next, List.length_append, Nat.add_assoc]
  · rw [List.length_append, Memory.load_append, ← next, second.bytes]
    congr 1
    refine (Memory.load_congr fun x _ below => second.kept x (by omega)).trans first.bytes

theorem Appends.get (appended : Appends p p' bytes) {i : Nat} {b : BitVec 8} (at_ : bytes[i]? = some b) :
    p'.mem (p.index + i) = b := by
  have inside := (List.getElem?_eq_some_iff.mp at_).1
  rw [← appended.bytes] at at_
  unfold Memory.load at at_
  rw [List.getElem?_map, List.getElem?_range inside] at at_
  exact Option.some.inj at_

theorem appendU8_spec {v : BitVec 8} (room : p.index < MDNS_MAX_PACKET_SIZE) :
    (p.mdnsAppendU8 v).1 = 1 ∧ Appends p (p.mdnsAppendU8 v).2 [v] := by
  unfold OutPacket.mdnsAppendU8
  rw [if_neg (by omega)]
  exact ⟨rfl, appends_store p [v]⟩

theorem appendU16_spec {v : BitVec 16} (room : p.index + 1 < MDNS_MAX_PACKET_SIZE) :
    (p.mdnsAppendU16 v).1 = 2 ∧
      Appends p (p.mdnsAppendU16 v).2 [v.extractLsb' 8 8, v.extractLsb' 0 8] := by
  unfold OutPacket.mdnsAppendU16
  rw [if_neg (by omega)]
  have high := (appendU8_spec (p := p) (v := v.extractLsb' 8 8) (by omega)).2
  have next : (p.mdnsAppendU8 (v.extractLsb' 8 8)).2.index = p.index + 1 := high.index
  exact ⟨rfl, high.trans (appendU8_spec (by omega)).2⟩

def labelBytes (s : CString) : List (BitVec 8) := BitVec.ofNat 8 s.length :: s

theorem appendString_spec {s : CString} (short : s.length < 255) (room : p.index + s.length + 1 < MDNS_MAX_PACKET_SIZE) :
    (p.mdnsAppendString s).1 = s.length + 1 ∧ Appends p (p.mdnsAppendString s).2 (labelBytes s) := by
  have length : s.length % 256 = s.length := Nat.mod_eq_of_lt (by omega)
  unfold OutPacket.mdnsAppendString
  dsimp only
  rw [length, if_neg (by omega), List.take_length, Nat.mod_eq_of_lt (by omega)]
  have first := (appendU8_spec (p := p) (v := BitVec.ofNat 8 s.length) (by omega)).2
  exact ⟨rfl, first.trans (appends_store _ s)⟩

end

theorem reference_bytes {k : Nat} (small : k < 16384) :
    (((BitVec.ofNat 16 k ||| 0xC000).extractLsb' 8 8).toNat = 0xC0 + k / 256) ∧
      ((BitVec.ofNat 16 k ||| 0xC000).extractLsb' 0 8).toNat = k % 256 := by
  have value : (BitVec.ofNat 16 k ||| 0xC000).toNat = 2 ^ 14 * 3 + k := by
    rw [BitVec.toNat_or, BitVec.toNat_ofNat, Nat.mod_eq_of_lt (by omega), Nat.two_pow_add_eq_or_of_lt small, Nat.or_comm]
    rfl
  rw [BitVec.extractLsb'_toNat, BitVec.extractLsb'_toNat, value, Nat.shiftRight_eq_div_pow]
  omega

structure Readable (start : Nat) (strings : List CString) (p : OutPacket) (name : MdnsName) (added : Nat)
    (p' : OutPacket) (bytes : List (BitVec 8)) (labels : List CString) : Prop where
  added : added = bytes.length
  appends : Appends p p' bytes
  same : labels.map lowercase = strings.map lowercase
  long : strings ≠ [] → 2 ≤ bytes.length
  read : ∀ fuel, readFuel start + strings.length < fuel →
    readFqdnFrom p'.mem p'.index fuel start p.index name = .ok p'.index (labels.foldl MdnsName.store name)

section
variable {start : Nat} {p : OutPacket} {name : MdnsName}

theorem readable_end (room : p.index < MDNS_MAX_PACKET_SIZE) :
    Readable start [] p name (p.mdnsAppendU8 0).1 (p.mdnsAppendU8 0).2 [0] [] := by
  obtain ⟨one, appends⟩ := appendU8_spec (p := p) (v := 0) room
  refine ⟨one, appends, rfl, absurd rfl, fun fuel enough => ?_⟩
  obtain ⟨fuel, rfl⟩ : ∃ f, fuel = f + 1 := ⟨fuel - 1, by omega⟩
  have zero : (p.mdnsAppendU8 0).2.mem p.index = 0 := appends.get (i := 0) rfl
  have next : (p.mdnsAppendU8 0).2.index = p.index + 1 := appends.index
  rw [readFqdn_end (by omega) (congrArg BitVec.toNat zero), next]
  rfl

theorem readable_label {s : CString} {rest : List CString} {p' : OutPacket} {added : Nat} {bytes : List (BitVec 8)}
    {labels : List CString} (nonempty : s ≠ []) (short : s.length < MDNS_NAME_MAX_LEN) (parts : name.parts < 4)
    (storable : StorableAt name.parts (lowercase s)) (appended : Appends p p' (labelBytes s)) {p'' : OutPacket}
    (later : Readable start rest p' (name.store s) added p'' bytes labels) :
    Readable start (s :: rest) p name (s.length + 1 + added) p'' (labelBytes s ++ bytes) (s :: labels) := by
  have length : 0 < s.length := List.length_pos_iff.mpr nonempty
  have next : p'.index = p.index + (s.length + 1) := appended.index
  have whole := appended.trans later.appends
  have last := later.appends.index
  have limit : s.length < 64 := short
  refine ⟨?_, whole, congrArg (lowercase s :: ·) later.same, ?_, fun fuel enough => ?_⟩
  · rw [List.length_append, later.added]
    rfl
  · intro _
    rw [List.length_append]
    have : (labelBytes s).length = s.length + 1 := rfl
    omega
  · rw [List.length_cons] at enough
    obtain ⟨fuel, rfl⟩ : ∃ f, fuel = f + 1 := ⟨fuel - 1, by omega⟩
    have byte : (p''.mem p.index).toNat = s.length := by
      have first : p''.mem p.index = BitVec.ofNat 8 s.length := whole.get (i := 0) rfl
      rw [first, BitVec.toNat_ofNat]
      exact Nat.mod_eq_of_lt (by omega)
    have loaded : Memory.load p''.mem (p.index + 1) s.length = s := by
      have all := whole.bytes
      rw [List.length_append, Memory.load_append] at all
      have first := List.append_inj_left all (Memory.length_load _ _ _)
      rw [show (labelBytes s).length = 1 + s.length from Nat.add_comm _ _, Memory.load_append] at first
      have parts : Memory.load p''.mem p.index 1 ++ Memory.load p''.mem (p.index + 1) s.length =
          [BitVec.ofNat 8 s.length] ++ s := first
      exact List.append_inj_right parts rfl
    rw [readFqdn_label byte length parts (by omega) (by omega), loaded, addLabel_store storable]
    have rest := later.read fuel (by omega)
    rw [next, ← Nat.add_assoc, Nat.add_right_comm] at rest
    exact rest

theorem readable_reference {place : Nat} {strings labels : List CString} (after : start ≤ p.index)
    (room : p.index + 1 < MDNS_MAX_PACKET_SIZE) (before : place < start) (nonempty : strings ≠ [])
    (few : name.parts + strings.length ≤ 4)
    (storable : ∀ i s, strings[i]? = some s → StorableAt (name.parts + i) (lowercase s))
    (whole : nameIn p.mem start place = some labels) (same : labels.map lowercase = strings.map lowercase) :
    ∃ bytes, Readable start strings p name (p.mdnsAppendU16 (BitVec.ofNat 16 place ||| 0xC000)).1
      (p.mdnsAppendU16 (BitVec.ofNat 16 place ||| 0xC000)).2 bytes labels := by
  have full : MDNS_MAX_PACKET_SIZE = 1460 := rfl
  obtain ⟨two, appends⟩ := appendU16_spec (p := p) (v := BitVec.ofNat 16 place ||| 0xC000) room
  obtain ⟨high, low⟩ := reference_bytes (k := place) (by omega)
  generalize p.mdnsAppendU16 (BitVec.ofNat 16 place ||| 0xC000) = result at two appends ⊢
  have next : result.2.index = p.index + 2 := appends.index
  refine ⟨[_, _], two, appends, same, fun _ => Nat.le_refl 2, fun fuel enough => ?_⟩
  obtain ⟨fuel, rfl⟩ : ∃ f, fuel = f + 1 := ⟨fuel - 1, by omega⟩
  have length : labels.length = strings.length := by
    have lengths := congrArg List.length same
    rw [List.length_map, List.length_map] at lengths
    exact lengths
  have some_ : 0 < strings.length := List.length_pos_iff.mpr nonempty
  have kept (x : Nat) (below : x < start) : result.2.mem x = p.mem x := appends.kept x (by omega)
  have stored (i : Nat) (label : CString) (at_ : labels[i]? = some label) :
      StorableAt (name.parts + i) (lowercase label) := by
    have low := congrArg (fun l : List CString => l[i]?) same
    rw [List.getElem?_map, List.getElem?_map, at_] at low
    obtain ⟨s, there, is⟩ := Option.map_eq_some_iff.mp low.symm
    exact is ▸ storable i s there
  obtain ⟨_, read⟩ := read_of_labels kept (show start ≤ result.2.index by omega) whole
    (Nat.le_of_lt_succ (by omega : readFuel start < fuel + 1)) (by omega) stored
  have first : (result.2.mem p.index).toNat = 0xC0 + place / 256 := by
    have byte : result.2.mem p.index = _ := appends.get (i := 0) rfl
    rw [byte, high]
  have second : (result.2.mem (p.index + 1)).toNat = place % 256 := by rw [appends.get (i := 1) rfl, low]
  have address : (0xC0 + place / 256) % 64 * 256 + place % 256 = place := by omega
  rw [readFqdn_reference first (by omega) (by omega) (by omega) second address before read, next]

theorem append_readable (strings : List CString) (p : OutPacket) (name : MdnsName) (writes : Writes start strings p)
    (after : start ≤ p.index) (nonempty : ∀ s ∈ strings, s ≠ []) (few : name.parts + strings.length ≤ 4)
    (storable : ∀ i s, strings[i]? = some s → StorableAt (name.parts + i) (lowercase s)) :
    ∃ bytes labels, Readable start strings p name (OutPacket.mdnsAppendFqdn strings p).1
      (OutPacket.mdnsAppendFqdn strings p).2 bytes labels := by
  induction strings generalizing p name with
  | nil => exact ⟨_, _, readable_end writes⟩
  | cons s rest ih =>
      obtain ⟨short, found⟩ := writes
      rw [OutPacket.mdnsAppendFqdn]
      cases is : p.findName (s :: rest) s (List.range p.index) with
      | unreadable =>
        rw [is] at found
        exact absurd found not_false
      | found place =>
        rw [is] at found
        obtain ⟨room, before, whole⟩ := found
        obtain ⟨labels, whole, same⟩ := Option.map_eq_some_iff.mp whole
        obtain ⟨bytes, readable⟩ := readable_reference after room before (List.cons_ne_nil s rest) few storable whole same
        exact ⟨bytes, labels, readable⟩
      | none =>
        rw [is] at found
        obtain ⟨room, later⟩ := found
        have limit : s.length < 64 := short
        rw [List.length_cons] at few
        obtain ⟨written, appends⟩ := appendString_spec (p := p) (s := s) (by omega) room
        have next := appends.index
        obtain ⟨bytes, labels, readable⟩ := ih (p.mdnsAppendString s).2 (name.store s) later (by omega)
          (fun t member => nonempty t (List.mem_cons_of_mem _ member)) (by rw [store_parts]; omega) fun i t at_ => by
            rw [store_parts, Nat.add_assoc, Nat.add_comm 1 i]
            exact storable (i + 1) t at_
        have first : StorableAt name.parts (lowercase s) := storable 0 s rfl
        have label := readable_label (nonempty s List.mem_cons_self) short (by omega) first appends readable
        dsimp only
        rw [written, if_neg (Nat.succ_ne_zero _)]
        exact ⟨_, _, label⟩

end

theorem storableAt {i : Nat} {s : CString} (characters : ∀ c ∈ s, c ≠ 0) (notSub : strcasecmp s MDNS_SUB_STR = false)
    (separate : i = 1 → s.head? = some 95 ∨ s = MDNS_DEFAULT_DOMAIN) : StorableAt i (lowercase s) := by
  refine ⟨fun c member => ?_, fun same => ?_, fun second => ?_⟩
  · obtain ⟨d, there, rfl⟩ := List.mem_map.mp member
    exact fun zero => characters d there ((tolower_eq_zero d).mp zero)
  · rw [strcasecmp_iff.mpr same] at notSub
    cases notSub
  · rcases separate second with underscore | rfl
    · left
      cases s with
      | nil => cases underscore
      | cons c rest => exact congrArg some ((tolower_eq_underscore c).mpr (Option.some.inj underscore))
    · exact .inr rfl

structure PlacedStrings (strings : List CString) : Prop where
  each : ∀ s ∈ strings, ApiString s
  few : strings.length ≤ 4
  separate : ∀ s, strings[1]? = some s → s.head? = some 95 ∨ s = MDNS_DEFAULT_DOMAIN

theorem domain_apiString : ApiString MDNS_DEFAULT_DOMAIN := ⟨by decide, by decide, by decide⟩

theorem admitted_placed {name : ApiName} (admitted : name.Admitted) : PlacedStrings name.strings := by
  cases name with
  | host h =>
      refine ⟨?_, (show 2 ≤ 4 by decide), fun s is => .inr (Option.some.inj is).symm⟩
      simp only [ApiName.strings, List.forall_mem_cons, List.not_mem_nil, false_implies, implies_true, and_true]
      exact ⟨admitted, domain_apiString⟩
  | service s p =>
      refine ⟨?_, (show 3 ≤ 4 by decide), fun t is => .inl (Option.some.inj is ▸ admitted.2.underscore)⟩
      simp only [ApiName.strings, List.forall_mem_cons, List.not_mem_nil, false_implies, implies_true, and_true]
      exact ⟨admitted.1.toApiString, admitted.2.toApiString, domain_apiString⟩
  | ofInstance i s p =>
      refine ⟨?_, (show 4 ≤ 4 by decide), fun t is => .inl (Option.some.inj is ▸ admitted.2.1.underscore)⟩
      simp only [ApiName.strings, List.forall_mem_cons, List.not_mem_nil, false_implies, implies_true, and_true]
      exact ⟨admitted.1, admitted.2.1.toApiString, admitted.2.2.toApiString, domain_apiString⟩

theorem arrange_same {name : ApiName} {labels : List CString}
    (same : labels.map lowercase = name.strings.map lowercase) :
    (labels.foldl MdnsName.store .empty).parts ≠ 0 ∧
      (labels.foldl MdnsName.store .empty).arrange.Same name.fields := by
  cases name with
  | host h =>
      obtain ⟨a, rest, rfl, first, same⟩ := List.map_eq_cons_iff.mp same
      obtain ⟨b, rest, rfl, second, same⟩ := List.map_eq_cons_iff.mp same
      cases List.map_eq_nil_iff.mp same
      exact ⟨Nat.succ_ne_zero 1, rfl, strcasecmp_iff.mpr first, rfl, rfl, strcasecmp_iff.mpr second⟩
  | service s p =>
      obtain ⟨a, rest, rfl, first, same⟩ := List.map_eq_cons_iff.mp same
      obtain ⟨b, rest, rfl, second, same⟩ := List.map_eq_cons_iff.mp same
      obtain ⟨c, rest, rfl, third, same⟩ := List.map_eq_cons_iff.mp same
      cases List.map_eq_nil_iff.mp same
      exact ⟨Nat.succ_ne_zero 2, rfl, rfl, strcasecmp_iff.mpr first, strcasecmp_iff.mpr second,
        strcasecmp_iff.mpr third⟩
  | ofInstance i s p =>
      obtain ⟨a, rest, rfl, first, same⟩ := List.map_eq_cons_iff.mp same
      obtain ⟨b, rest, rfl, second, same⟩ := List.map_eq_cons_iff.mp same
      obtain ⟨c, rest, rfl, third, same⟩ := List.map_eq_cons_iff.mp same
      obtain ⟨d, rest, rfl, fourth, same⟩ := List.map_eq_cons_iff.mp same
      cases List.map_eq_nil_iff.mp same
      exact ⟨Nat.succ_ne_zero 3, rfl, strcasecmp_iff.mpr first, strcasecmp_iff.mpr second, strcasecmp_iff.mpr third,
        strcasecmp_iff.mpr fourth⟩

theorem domain_of_same {name : ApiName} {read : MdnsName} (same : read.Same name.fields) :
    strcasecmp read.domain MDNS_DEFAULT_DOMAIN = true := by
  cases name with
  | host h => exact same.domain
  | service s p => exact same.domain
  | ofInstance i s p => exact same.domain

theorem size_of_first {s : CString} {l : List CString} : s.length + 2 ≤ nameSize (s :: l) := by
  unfold nameSize
  rw [List.map_cons, List.sum_cons]
  omega

theorem append_noRoom {p : OutPacket} {strings : List CString} (short : ∀ s ∈ strings, s.length < 256)
    (full : NoRoom p strings) :
    (OutPacket.mdnsAppendFqdn strings p).1 = 0 ∧ p.index + nameSize strings ≥ MDNS_MAX_PACKET_SIZE := by
  cases strings with
  | nil =>
      have none_ : p.index ≥ MDNS_MAX_PACKET_SIZE := full
      refine ⟨?_, by omega⟩
      rw [OutPacket.mdnsAppendFqdn, OutPacket.mdnsAppendU8, if_pos none_]
  | cons s rest =>
      have size := size_of_first (s := s) (l := rest)
      have length := short s List.mem_cons_self
      rw [NoRoom] at full
      rw [OutPacket.mdnsAppendFqdn]
      cases is : p.findName (s :: rest) s (List.range p.index) with
      | unreadable =>
        rw [is] at full
        exact absurd full not_false
      | found place =>
        rw [is] at full
        refine ⟨?_, by omega⟩
        dsimp only
        rw [OutPacket.mdnsAppendU16, if_pos full]
      | none =>
        rw [is] at full
        refine ⟨?_, by omega⟩
        dsimp only
        rw [OutPacket.mdnsAppendString, Nat.mod_eq_of_lt length, if_pos full, if_pos rfl]

/-- A name that the API admits survives its encoding when it is encodable. -/
theorem name_survives (p : OutPacket) (name : ApiName) (admitted : name.Admitted) (encodable : Encodable p name) :
    NameSurvives p name := by
  have placed := admitted_placed admitted
  rcases encodable with full | ⟨notSub, writes⟩
  · have short (s : CString) (member : s ∈ name.strings) : s.length < 256 :=
      Nat.lt_of_le_of_lt (placed.each s member).short (by decide)
    obtain ⟨none_, room⟩ := append_noRoom short full
    exact ⟨fun some_ => absurd none_ some_, fun some_ => absurd none_ some_, fun _ => room⟩
  · have storable (i : Nat) (s : CString) (at_ : name.strings[i]? = some s) :
        StorableAt (MdnsName.empty.parts + i) (lowercase s) := by
      have member := List.mem_of_getElem? at_
      have index : MdnsName.empty.parts + i = i := Nat.zero_add i
      rw [index]
      refine storableAt (placed.each s member).characters (notSub s member) fun second => placed.separate s ?_
      rw [← second]
      exact at_
    obtain ⟨bytes, labels, readable⟩ := append_readable name.strings p .empty writes (Nat.le_refl _)
      (fun s member => List.length_pos_iff.mp (placed.each s member).nonempty)
      (by rw [Nat.add_comm]; exact placed.few) storable
    have nonempty : name.strings ≠ [] := by cases name <;> exact List.cons_ne_nil _ _
    have long := readable.long nonempty
    have few := placed.few
    have last := readable.appends.index
    obtain ⟨some_, same⟩ := arrange_same readable.same
    refine ⟨fun _ => ⟨_, ?_, same⟩, fun _ => readable.appends.kept, fun none_ => ?_⟩
    · have enough : readFuel p.index + name.strings.length < readFuel (OutPacket.mdnsAppendFqdn name.strings p).2.index := by
        unfold readFuel
        rw [last]
        nlinarith
      have read := readable.read _ enough
      unfold mdnsParseFqdn mdnsReadFqdn
      rw [read]
      dsimp only
      rw [if_neg some_, if_pos (.inl (domain_of_same same))]
    · rw [readable.added] at none_
      omega

def emptyPacket : OutPacket := ⟨fun _ => 0, 12⟩

def espName : ApiName := .host [101, 115, 112]

def httpName : ApiName := .service [95, 104, 116, 116, 112] [95, 116, 99, 112]

/-- The domain of the second name refers to that of the first. -/
theorem name_survives_reference :
    (OutPacket.mdnsAppendFqdn espName.strings emptyPacket).2.index = 23 ∧
      (OutPacket.mdnsAppendFqdn httpName.strings (OutPacket.mdnsAppendFqdn espName.strings emptyPacket).2).1 = 13 ∧
      NameSurvives (OutPacket.mdnsAppendFqdn espName.strings emptyPacket).2 httpName := by
  have admitted : httpName.Admitted :=
    ⟨⟨⟨by decide, by decide, by decide⟩, rfl⟩, ⟨by decide, by decide, by decide⟩, rfl⟩
  refine ⟨by decide, by decide, name_survives _ httpName admitted (.inr ⟨by decide, ?_⟩)⟩
  decide

def longName : ApiName := .host (List.replicate 64 97)

/-- The longest hostname is appended, and cannot be read. -/
theorem long_name_lost : longName.Admitted ∧ ¬ NameSurvives emptyPacket longName := by
  refine ⟨⟨by decide, by decide, by decide⟩, fun survives => ?_⟩
  obtain ⟨read, is, -⟩ := survives.readBack (by decide)
  have bad : mdnsParseFqdn (OutPacket.mdnsAppendFqdn longName.strings emptyPacket).2.mem
      (OutPacket.mdnsAppendFqdn longName.strings emptyPacket).2.index emptyPacket.index = .bad := by decide
  rw [bad] at is
  cases is

end EspFirmware.Proof.Mdns
