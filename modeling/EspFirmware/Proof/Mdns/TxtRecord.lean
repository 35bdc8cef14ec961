import EspFirmware.Proof.Mdns.Txt

/-!
The TXT data that is appended to a packet is the items of the service behind length bytes, except where an item has 255
bytes.
-/

namespace EspFirmware.Proof.Mdns
open EspFirmware.Lib EspFirmware.Mdns EspFirmware.Spec OutPacket

theorem cut_short {s : CString} (short : s.length < 256) : cut s = s := by
  unfold cut
  rw [Nat.mod_eq_of_lt short]
  exact List.take_of_length_le (Nat.le_refl _)

theorem txtItem_long (item : CString × CString) : 0 < (txtItem item).length := by
  unfold txtItem
  rw [List.length_append, List.length_append]
  exact Nat.lt_of_lt_of_le (Nat.lt_of_lt_of_le Nat.zero_lt_one (Nat.le_add_left _ _)) (Nat.le_add_right _ _)

section
variable {p : OutPacket} {txt : List (CString × CString)}

theorem txtItems_written (n : Nat) (short : ∀ item ∈ txt, (txtItem item).length < 255)
    (room : p.index + (txtBytes (txt.map txtItem)).length < MDNS_MAX_PACKET_SIZE) :
    (txtItems txt n p).1 = some (n + (txtBytes (txt.map txtItem)).length) ∧
      Appends p (txtItems txt n p).2 (txtBytes (txt.map txtItem)) := by
  induction txt generalizing n p with
  | nil => exact ⟨rfl, ⟨rfl, fun _ _ => rfl, rfl⟩⟩
  | cons item rest ih =>
      have small := short item List.mem_cons_self
      rw [List.map_cons, txtBytes_cons, List.length_append, length_lengthPrefixed] at room ⊢
      obtain ⟨written, appends⟩ := appendCut_spec (p := p) (s := txtItem item)
        (by rw [Nat.mod_eq_of_lt (by omega)]; omega) (by rw [Nat.mod_eq_of_lt (by omega)]; omega)
      rw [cut_short (by omega)] at written appends
      have next : (p.mdnsAppendString (txtItem item)).2.index = p.index + ((txtItem item).length + 1) := appends.index
      obtain ⟨total, more⟩ := ih (p := (p.mdnsAppendString (txtItem item)).2) (n + ((txtItem item).length + 1))
        (fun other inside => short other (List.mem_cons_of_mem _ inside)) (by omega)
      rw [txtItems]
      dsimp only
      rw [written, if_neg (Nat.succ_ne_zero _)]
      refine ⟨?_, appends.trans more⟩
      rw [total, Nat.add_assoc]

def txtRecordData (txt : List (CString × CString)) : List (BitVec 8) :=
  if txt = [] then [0] else txtBytes (txt.map txtItem)

theorem txtData_written (short : ∀ item ∈ txt, (txtItem item).length < 255)
    (room : p.index + (txtBytes (txt.map txtItem)).length < MDNS_MAX_PACKET_SIZE) :
    Fitted DataBytes p (txtData txt p) (txtRecordData txt) := by
  cases txt with
  | nil =>
      have one := appends_store p [0]
      have fitted : Fitted (fun _ => True) p (1, ⟨Memory.store p.mem p.index [0], p.index + 1⟩) [0] :=
        ⟨rfl, one, trivial, room⟩
      exact fitted.data Nat.zero_lt_one
  | cons item rest =>
      obtain ⟨total, appends⟩ := txtItems_written (p := p) 0 short room
      have some_ : 0 < (txtBytes ((item :: rest).map txtItem)).length := by
        rw [List.map_cons, txtBytes_cons, List.length_append, length_lengthPrefixed]
        omega
      have made : txtData (item :: rest) p =
          ((txtBytes ((item :: rest).map txtItem)).length, (txtItems (item :: rest) 0 p).2) := by
        unfold txtData
        generalize txtItems (item :: rest) 0 p = result at total
        obtain ⟨length, p'⟩ := result
        cases total
        rw [Nat.zero_add]
        generalize (txtBytes ((item :: rest).map txtItem)).length = k at some_
        cases k with
        | zero => exact absurd some_ (Nat.lt_irrefl 0)
        | succ k => rfl
      have is : txtRecordData (item :: rest) = txtBytes ((item :: rest).map txtItem) := if_neg (List.cons_ne_nil _ _)
      have fitted : Fitted (fun _ => True) p (txtData (item :: rest) p) (txtRecordData (item :: rest)) := by
        rw [made, is]
        refine ⟨rfl, appends, trivial, ?_⟩
        rw [appends.index]
        exact Nat.le_of_lt room
      exact fitted.data (by rw [is]; exact some_)

theorem recordData_written {p' : OutPacket} {front data : List (BitVec 8)} (small : data.length < 65536)
    (appended : Appends p p' (front ++ (wireU16 data.length ++ data))) :
    recordData p' (p.index + front.length + 2) = data := by
  have bytes := appended.bytes
  rw [List.length_append, List.length_append, Memory.load_append, Memory.load_append] at bytes
  have rest := List.append_inj_right bytes (Memory.length_load _ _ _)
  have length := List.append_inj_left rest (Memory.length_load _ _ _)
  have last := List.append_inj_right rest (Memory.length_load _ _ _)
  have high : p'.mem (p.index + front.length) = BitVec.ofNat 8 (data.length / 256) := (List.cons.inj length).1
  have low : p'.mem (p.index + front.length + 1) = BitVec.ofNat 8 (data.length % 256) :=
    (List.cons.inj (List.cons.inj length).2).1
  unfold recordData
  rw [Nat.add_sub_cancel, high, show p.index + front.length + 2 - 1 = p.index + front.length + 1 from rfl, low,
    BitVec.toNat_ofNat, BitVec.toNat_ofNat, Nat.mod_eq_of_lt (by omega : data.length / 256 < 2 ^ 8), Nat.mod_mod,
    Nat.div_add_mod']
  exact last

theorem recordData_none {start : Nat} (high : p.mem (start + 8) = 0) (low : p.mem (start + 8 + 1) = 0) :
    recordData p (start + 10) = [] := by
  unfold recordData
  change Memory.load p.mem (start + 10) ((p.mem (start + 8)).toNat * 256 + (p.mem (start + 8 + 1)).toNat) = []
  rw [high, low]
  rfl

theorem appendString_kept (s : CString) :
    p.index ≤ (p.mdnsAppendString s).2.index ∧ ∀ x, x < p.index → (p.mdnsAppendString s).2.mem x = p.mem x := by
  unfold mdnsAppendString
  dsimp only
  split
  · exact ⟨Nat.le_refl _, fun _ _ => rfl⟩
  · next room =>
      obtain ⟨_, first⟩ := appendU8_spec (p := p) (v := BitVec.ofNat 8 (s.length % 256)) (by omega)
      have next : (p.mdnsAppendU8 (BitVec.ofNat 8 (s.length % 256))).2.index = p.index + 1 := first.index
      refine ⟨?_, ?_⟩
      · change p.index ≤ (p.mdnsAppendU8 _).2.index + _
        omega
      · intro x below
        refine (Memory.store_other _ (Or.inl ?_)).trans (first.kept x below)
        omega

theorem txtItems_kept (n : Nat) : ∀ x, x < p.index → (txtItems txt n p).2.mem x = p.mem x := by
  induction txt generalizing n p with
  | nil => exact fun _ _ => rfl
  | cons item rest ih =>
      intro x below
      obtain ⟨further, kept⟩ := appendString_kept (p := p) (txtItem item)
      rw [txtItems]
      dsimp only
      split
      · exact kept x below
      · exact (ih _ x (by omega)).trans (kept x below)

theorem txtItems_stopped (n : Nat) (short : ∀ item ∈ txt, (txtItem item).length ≤ 255)
    (long : ∃ item ∈ txt, (txtItem item).length = 255)
    (room : p.index + (txtBytes (txt.map txtItem)).length < MDNS_MAX_PACKET_SIZE) : (txtItems txt n p).1 = none := by
  induction txt generalizing n p with
  | nil =>
      obtain ⟨_, none_, _⟩ := long
      cases none_
  | cons item rest ih =>
      have small := short item List.mem_cons_self
      rw [List.map_cons, txtBytes_cons, List.length_append, length_lengthPrefixed] at room
      rw [txtItems]
      dsimp only
      by_cases all : (txtItem item).length = 255
      · have zero : (p.mdnsAppendString (txtItem item)).1 = 0 := by
          unfold mdnsAppendString
          dsimp only
          rw [if_neg (by omega), all]
        rw [if_pos zero]
      · obtain ⟨written, appends⟩ := appendCut_spec (p := p) (s := txtItem item)
          (by rw [Nat.mod_eq_of_lt (by omega)]; omega) (by rw [Nat.mod_eq_of_lt (by omega)]; omega)
        rw [cut_short (by omega)] at written appends
        have next : (p.mdnsAppendString (txtItem item)).2.index = p.index + ((txtItem item).length + 1) := appends.index
        rw [written, if_neg (Nat.succ_ne_zero _)]
        refine ih _ (fun other inside => short other (List.mem_cons_of_mem _ inside)) ?_ (by omega)
        obtain ⟨other, inside, is⟩ := long
        rcases List.mem_cons.mp inside with rfl | later
        · exact absurd is all
        · exact ⟨other, later, is⟩

end

theorem txtItem_keyed {item : CString × CString} (is : IsTxtItem item) : HasKey (txtItem item) := by
  obtain ⟨key, value⟩ := item
  have some_ := is.some_
  have noEquals := is.key
  cases key with
  | nil => exact absurd rfl some_
  | cons b rest =>
      intro first
      cases first
      exact noEquals List.mem_cons_self

theorem txtItem_string {item : CString × CString} (is : IsTxtItem item) : IsTxtString (txtItem item) :=
  ⟨txtItem_long item, is.short⟩

theorem txtItem_closed (item : CString × CString) : 61 ∈ txtItem item := by
  unfold txtItem
  exact List.mem_append_left _ (List.mem_append_right _ (List.mem_singleton_self _))

theorem txtItem_noZero {item : CString × CString} (is : IsTxtItem item) : 0 ∉ txtItem item := by
  unfold txtItem
  rw [List.mem_append, List.mem_append, List.mem_singleton]
  rintro ((key | equals) | value)
  · exact is.noZero.1 key
  · exact absurd equals (by decide)
  · exact is.noZero.2 value

theorem keyAndValue_txtItem {item : CString × CString} (is : IsTxtItem item) : keyAndValue (txtItem item) = item := by
  obtain ⟨key, value⟩ := item
  have noEquals := is.key
  have all : ∀ b ∈ key, decide (b ≠ 61) = true := by
    intro b inside
    refine decide_eq_true ?_
    intro equals
    exact noEquals (equals ▸ inside)
  unfold keyAndValue txtItem
  rw [List.append_assoc, List.takeWhile_append_of_pos all, List.dropWhile_append_of_pos all]
  change (key ++ [], value) = (key, value)
  rw [List.append_nil]

theorem keyedItems_txtItems {txt : List (CString × CString)} (are : ∀ item ∈ txt, IsTxtItem item) :
    keyedItems (txt.map txtItem) = txt := by
  induction txt with
  | nil => rfl
  | cons item rest ih =>
      have is := are item List.mem_cons_self
      rw [List.map_cons, keyedItems_cons, if_pos (txtItem_keyed is), keyAndValue_txtItem is,
        ih fun other inside => are other (List.mem_cons_of_mem _ inside)]

theorem txtRecordData_decodes {txt : List (CString × CString)} (are : ∀ item ∈ txt, IsTxtItem item)
    (offered : Offered (txtRecordData txt)) :
    ∃ items, mdnsResultTxtCreate (txtRecordData txt) = .done items ∧ items.map itemText = txt := by
  unfold txtRecordData at offered ⊢
  by_cases nothing : txt = []
  · rw [if_pos nothing, nothing]
    exact ⟨[], rfl, rfl⟩
  · rw [if_neg nothing] at offered ⊢
    have strings : ∀ s ∈ txt.map txtItem, IsTxtString s := by
      intro s inside
      obtain ⟨item, listed, rfl⟩ := List.mem_map.mp inside
      exact txtItem_string (are item listed)
    have closed : KeysAreClosed (txtBytes (txt.map txtItem)) := by
      intro before s rest front isS parts open_
      obtain ⟨after, is, _⟩ := txtBytes_split strings front isS parts
      have inside : s ∈ txt.map txtItem := by
        rw [is]
        exact List.mem_append_right _ List.mem_cons_self
      obtain ⟨item, _, rfl⟩ := List.mem_map.mp inside
      exact absurd (txtItem_closed item) open_
    have noZero : KeysHaveNoZero (txtBytes (txt.map txtItem)) := by
      intro others othersAre same s inside _
      rw [← txtBytes_inj strings othersAre same] at inside
      obtain ⟨item, listed, rfl⟩ := List.mem_map.mp inside
      exact txtItem_noZero (are item listed)
    obtain ⟨items, made, texts⟩ := decodes_of_closed offered (Or.inr ⟨closed, noZero⟩)
    exact ⟨items, made, (texts _ strings rfl).trans (keyedItems_txtItems are)⟩

section
variable {server : WireServer} {service : WireService} {name : CString} {flush bye : Bool} {p : OutPacket}

theorem appendTxtRecord_named (named : mdnsGetServiceInstanceName server service = some name) :
    p.mdnsAppendTxtRecord server service flush bye =
      appendRecord [name, service.service, service.proto, MDNS_DEFAULT_DOMAIN] .txt flush (if bye then 0 else 4500)
        (txtData service.txt) p := by
  unfold mdnsAppendTxtRecord
  rw [named]

theorem short_reads_back (named : mdnsGetServiceInstanceName server service = some name)
    (are : ∀ item ∈ service.txt, IsTxtItem item) (fits : TxtRecordFits name service p)
    (short : ∀ item ∈ service.txt, (txtItem item).length ≠ 255) : TxtListReadsBack server service name flush bye p := by
  have room := fits.data
  obtain ⟨_, types, eightTypes, typed⟩ := appendType_spec (t := .txt) (f := flush) (k := if bye then 0 else 4500)
    (p := (mdnsAppendFqdn [name, service.service, service.proto, MDNS_DEFAULT_DOMAIN] p).2) (by omega)
  have typedIndex := typed.index
  rw [List.length_append, eightTypes] at typedIndex
  have lengths : ∀ item ∈ service.txt, (txtItem item).length < 255 := by
    intro item inside
    have bound := (are item inside).short
    have other := short item inside
    omega
  have fitted := txtData_written lengths (by rw [typedIndex]; exact room)
  obtain ⟨part, fields, partFitted, eight, _, appends, _⟩ := record_appended (nameBound_instance _ _ _) fits.named
    (by omega) fitted
  have start : (mdnsAppendFqdn [name, service.service, service.proto, MDNS_DEFAULT_DOMAIN] p).2.index + 10 =
      p.index + (part ++ fields).length + 2 := by
    rw [partFitted.appends.index, List.length_append, eight]
    omega
  have small := fitted.form.2
  have last := fitted.appends.index
  have full : MDNS_MAX_PACKET_SIZE = 1460 := rfl
  have most := fitted.room
  unfold TxtListReadsBack
  rw [appendTxtRecord_named named, start, recordData_written small appends]
  refine txtRecordData_decodes are ?_
  unfold Offered
  omega

theorem long_is_lost (named : mdnsGetServiceInstanceName server service = some name)
    (are : ∀ item ∈ service.txt, IsTxtItem item) (fits : TxtRecordFits name service p)
    (long : ∃ item ∈ service.txt, (txtItem item).length = 255) : ¬ TxtListReadsBack server service name flush bye p := by
  have room := fits.data
  obtain ⟨part, namePart, bound⟩ := name_fitted _ p fits.named
  have few := nameBound_instance name service.service service.proto
  have some_ := wireName_long namePart.form
  obtain ⟨ten, types, eight, typed⟩ := appendType_spec (t := .txt) (f := flush) (k := if bye then 0 else 4500)
    (p := (mdnsAppendFqdn [name, service.service, service.proto, MDNS_DEFAULT_DOMAIN] p).2) (by omega)
  have length : (mdnsAppendFqdn [name, service.service, service.proto, MDNS_DEFAULT_DOMAIN] p).1 % 256 = part.length := by
    rw [namePart.length]
    exact Nat.mod_eq_of_lt (by omega)
  have typedIndex := typed.index
  rw [List.length_append, eight] at typedIndex
  have bytes := typed.bytes
  rw [List.length_append, Memory.load_append, eight] at bytes
  have zeros := List.append_inj_right bytes ((Memory.length_load _ _ _).trans eight.symm)
  generalize typedIs : (mdnsAppendFqdn [name, service.service, service.proto, MDNS_DEFAULT_DOMAIN] p).2.mdnsAppendType
    .txt flush (if bye then 0 else 4500) = typedPacket at *
  have stopped := txtItems_stopped (p := typedPacket.2) 0 (fun item inside => (are item inside).short) long
    (by rw [typedIndex]; exact room)
  have kept : ∀ x, x < typedPacket.2.index → (txtItems service.txt 0 typedPacket.2).2.mem x = typedPacket.2.mem x :=
    txtItems_kept 0
  have failed : (txtData service.txt typedPacket.2).1 = 0 ∧
      (txtData service.txt typedPacket.2).2 = (txtItems service.txt 0 typedPacket.2).2 := by
    unfold txtData
    generalize txtItems service.txt 0 typedPacket.2 = result at stopped
    obtain ⟨total, p'⟩ := result
    cases stopped
    exact ⟨rfl, rfl⟩
  have record : (p.mdnsAppendTxtRecord server service flush bye).2 = (txtItems service.txt 0 typedPacket.2).2 := by
    rw [appendTxtRecord_named named]
    unfold appendRecord
    dsimp only
    rw [length, if_neg (by omega), typedIs, ten, if_neg (by decide), if_pos failed.1]
    exact failed.2
  -- the length of the data is still what `_mdns_append_type` put there
  have high : typedPacket.2.mem ((mdnsAppendFqdn [name, service.service, service.proto, MDNS_DEFAULT_DOMAIN] p).2.index + 8) =
      0 := (List.cons.inj zeros).1
  have low : typedPacket.2.mem
      ((mdnsAppendFqdn [name, service.service, service.proto, MDNS_DEFAULT_DOMAIN] p).2.index + 8 + 1) = 0 :=
    (List.cons.inj (List.cons.inj zeros).2).1
  have two : ([0, 0] : List (BitVec 8)).length = 2 := rfl
  rintro ⟨items, made, texts⟩
  rw [record, recordData_none ((kept _ (by omega)).trans high) ((kept _ (by omega)).trans low)] at made
  have none_ : mdnsResultTxtCreate [] = .done [] := by decide
  rw [none_] at made
  cases made
  obtain ⟨item, inside, _⟩ := long
  rw [← texts] at inside
  cases inside

end

/-- What is received comes to its items where nothing but one byte follows a string without `=` and no zero is in a
string with a key, or nothing is decoded; strings that have keys come to them nowhere else; and a list that is sent
comes back exactly if it has no item of 255 bytes. -/
theorem txt_items_decode (data : List (BitVec 8)) :
    (Offered data → CutShort data ∨ KeysAreClosed data ∧ KeysHaveNoZero data → DecodesItems data) ∧
    (∀ strings, (∀ s ∈ strings, IsTxtString s ∧ HasKey s) → Offered (txtBytes strings) →
      (DecodesItems (txtBytes strings) ↔ KeysAreClosed (txtBytes strings) ∧ ∀ s ∈ strings, 0 ∉ s)) ∧
    ∀ server service name flush bye p, mdnsGetServiceInstanceName server service = some name →
      (∀ item ∈ service.txt, IsTxtItem item) → TxtRecordFits name service p →
      (TxtListReadsBack server service name flush bye p ↔ ∀ item ∈ service.txt, (txtItem item).length ≠ 255) := by
  refine ⟨decodes_of_closed, ?_, ?_⟩
  · intro strings are offered
    have strings_ := fun s inside => (are s inside).1
    have keyed := fun s inside => (are s inside).2
    constructor
    · intro decodes
      have closed := closed_of_decodes offered strings_ keyed decodes
      exact ⟨closed, fun s inside => noZero_of_decodes offered strings_ closed decodes s inside (keyed s inside)⟩
    · rintro ⟨closed, noZero⟩
      refine decodes_of_closed offered (Or.inr ⟨closed, ?_⟩)
      intro others othersAre same s inside _
      rw [← txtBytes_inj strings_ othersAre same] at inside
      exact noZero s inside
  · intro server service name flush bye p named are fits
    constructor
    · intro back item inside long
      exact long_is_lost named are fits ⟨item, inside, long⟩ back
    · exact short_reads_back named are fits

def pairThenKey : List CString := [[97, 61, 98], [107, 101, 121]]

theorem txt_items_decode_pairThenKey : DecodesItems (txtBytes pairThenKey) := by
  have are : ∀ s ∈ pairThenKey, IsTxtString s := by
    intro s inside
    rcases List.mem_cons.mp inside with rfl | inside
    · exact ⟨by decide, by decide⟩
    · cases List.mem_singleton.mp inside
      exact ⟨by decide, by decide⟩
  refine (txt_items_decode _).1 (by unfold Offered; decide) (Or.inr ⟨?_, ?_⟩)
  · intro before s rest front isS parts open_
    obtain ⟨after, is, rfl⟩ := txtBytes_split are front isS parts
    cases before with
    | nil =>
        cases is
        exact absurd open_ (by decide)
    | cons first others =>
        obtain ⟨_, is⟩ := List.cons.inj is
        cases others with
        | nil =>
            cases is
            exact Nat.zero_le _
        | cons second others =>
            have short : 1 = (others ++ s :: after).length + 1 := congrArg List.length is
            rw [List.length_append, List.length_cons] at short
            omega
  · intro strings others same s inside _
    rw [← txtBytes_inj are others same] at inside
    revert s
    decide

def keyThenPair : List CString := [[107, 101, 121], [97, 61, 98]]

def threeForTwo : List CString := [[97, 98, 99], [2, 120, 61, 2, 121, 61]]

def zeroInValue : List CString := [[107, 61, 0, 120]]

/-- The second item is lost, with the first; a third one is written behind an array for two; and a value ends at a
zero. -/
theorem items_are_lost :
    mdnsResultTxtCreate (txtBytes keyThenPair) = .done [] ∧ ¬ DecodesItems (txtBytes keyThenPair) ∧
    mdnsResultTxtCreate (txtBytes threeForTwo) = .overrun ∧ ¬ DecodesItems (txtBytes threeForTwo) ∧
    mdnsResultTxtCreate (txtBytes zeroInValue) = .done [⟨[107], some []⟩] ∧ ¬ DecodesItems (txtBytes zeroInValue) := by
  have lost : mdnsResultTxtCreate (txtBytes keyThenPair) = .done [] := by decide
  have overrun : mdnsResultTxtCreate (txtBytes threeForTwo) = .overrun := by decide
  have ended : mdnsResultTxtCreate (txtBytes zeroInValue) = .done [⟨[107], some []⟩] := by decide
  refine ⟨lost, ?_, overrun, ?_, ended, ?_⟩
  · rintro ⟨items, made, texts⟩
    rw [lost] at made
    cases made
    have are : ∀ s ∈ keyThenPair, IsTxtString s := by
      intro s inside
      rcases List.mem_cons.mp inside with rfl | inside
      · exact ⟨by decide, by decide⟩
      · cases List.mem_singleton.mp inside
        exact ⟨by decide, by decide⟩
    exact absurd (texts keyThenPair are rfl) (by decide)
  · rintro ⟨items, made, _⟩
    rw [overrun] at made
    cases made
  · rintro ⟨items, made, texts⟩
    rw [ended] at made
    cases made
    have are : ∀ s ∈ zeroInValue, IsTxtString s := by
      intro s inside
      cases List.mem_singleton.mp inside
      exact ⟨by decide, by decide⟩
    exact absurd (texts zeroInValue are rfl) (by decide)

end EspFirmware.Proof.Mdns
