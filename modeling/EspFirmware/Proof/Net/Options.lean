import EspFirmware.Spec.Dhcps

/-!
The loop over the options of a DHCP message: what it looks at, and what it finds in options without padding.
-/

namespace EspFirmware.Proof.Net
open EspFirmware.Lib Memory EspFirmware.Net EspFirmware.Spec

theorem byte_load32 (m : Memory) (a : Nat) {k : Nat} (byte : k < 4) :
    (load32 m a >>> (8 * k)).setWidth 8 = m (a + k) := by
  apply BitVec.eq_of_getLsbD_eq
  intro i inside
  rw [BitVec.getLsbD_setWidth, BitVec.getLsbD_ushiftRight, getLsbD_load32 m a byte inside, decide_eq_true inside,
    Bool.true_and]

theorem ip4Bytes_load32 (m : Memory) (a : Nat) : ip4Bytes (load32 m a) = load m a 4 := by
  have zero := byte_load32 m a (k := 0) (by decide)
  rw [Nat.mul_zero, BitVec.ushiftRight_zero] at zero
  rw [ip4Bytes, zero, byte_load32 m a (k := 1) (by decide), byte_load32 m a (k := 2) (by decide),
    byte_load32 m a (k := 3) (by decide)]
  rfl

theorem ip4Bytes_injective {a b : Ip4Addr} (same : ip4Bytes a = ip4Bytes b) : a = b := by
  have read (w : Ip4Addr) : load (store32 (fun _ => 0) 0 w) 0 4 = ip4Bytes w := by
    rw [← ip4Bytes_load32, load32_store32]
  have stored (x : Nat) (inside : x < 4) : store32 (fun _ => 0) 0 a x = store32 (fun _ => 0) 0 b x := by
    have bytes := (read a).trans (same.trans (read b).symm)
    have at_ := congrArg (·[x]?) bytes
    simpa [load, inside] using at_
  rw [← load32_store32 (fun _ => 0) 0 a, ← load32_store32 (fun _ => 0) 0 b]
  exact load32_congr fun x _ inside => stored x inside

theorem ip4Bytes_eq_load {client : Ip4Addr} {m : Memory} {a : Nat} :
    ip4Bytes client = load m a 4 ↔ client = load32 m a := by
  rw [← ip4Bytes_load32]
  exact ⟨ip4Bytes_injective, congrArg ip4Bytes⟩

theorem lookType_places (m : Memory) (option : BitVec 8) (optptr : Nat) (type : BitVec 8) :
    (lookType option optptr type).places m = if option = DHCP_OPTION_MSG_TYPE then [optptr + 2] else [] := by
  unfold lookType
  split <;> rfl

theorem lookState_places (m : Memory) (client : Ip4Addr) (option : BitVec 8) (optptr : Nat) (state : DhcpsState) :
    (lookState client option optptr state).places m =
      if option = DHCP_OPTION_REQ_IPADDR then [optptr + 2, optptr + 3, optptr + 4, optptr + 5] else [] := by
  unfold lookState
  split <;> rfl

theorem round_places {m : Memory} {client : Ip4Addr} {optptr low : Nat} {type : BitVec 8} {state : DhcpsState}
    {end_ : Int} (from_ : low ≤ optptr) :
    (∀ place ∈ optptr :: ((lookType (m optptr) optptr type).places m ++
        ((lookState client (m optptr) optptr state).places m ++ [optptr + 1])), low ≤ place ∧ (place : Int) < end_) ↔
      ((optptr + reach (m optptr) : Nat) : Int) < end_ := by
  have none_left := List.forall_mem_nil fun place : Nat => low ≤ place ∧ (place : Int) < end_
  rw [lookType_places, lookState_places]
  unfold reach
  by_cases asked : m optptr = DHCP_OPTION_REQ_IPADDR
  · rw [asked, if_pos rfl, if_pos rfl, if_neg (by decide)]
    simp only [List.nil_append, List.cons_append, List.forall_mem_cons]
    constructor
    · intro all
      omega
    · intro last
      refine ⟨?_, ?_, ?_, ?_, ?_, ?_, none_left⟩ <;> omega
  · rw [if_neg asked, if_neg asked]
    split
    · simp only [List.cons_append, List.nil_append, List.forall_mem_cons]
      constructor
      · intro all
        omega
      · intro last
        refine ⟨?_, ?_, ?_, none_left⟩ <;> omega
    · simp only [List.nil_append, List.forall_mem_cons]
      constructor
      · intro all
        omega
      · intro last
        refine ⟨?_, ?_, none_left⟩ <;> omega

theorem parseLook_places {m : Memory} {client : Ip4Addr} {end_ : Int} {optptr : Nat} (type : BitVec 8)
    (state : DhcpsState) {low : Nat} (from_ : low ≤ optptr) :
    (∀ place ∈ (parseLook client end_ optptr type state).places m, low ≤ place ∧ (place : Int) < end_) ↔
      ∀ i ∈ optionsMet m end_ optptr, ((i + reach (m i) : Nat) : Int) < end_ := by
  fun_induction optionsMet m end_ optptr generalizing type state with
  | case1 optptr inside stop =>
      rw [parseLook, dif_pos inside, Look.places_bind, Look.value_byte, if_pos stop]
      simp [from_, inside]
  | case2 optptr inside more ih =>
      rw [parseLook, dif_pos inside, Look.places_bind, Look.value_byte, if_neg more, Look.places_bind, Look.places_bind,
        Look.places_bind, Look.value_byte]
      have rounds (first second rest : List Nat) :
          [optptr] ++ (first ++ (second ++ ([optptr + 1] ++ rest))) =
            (optptr :: (first ++ (second ++ [optptr + 1]))) ++ rest := by simp
      rw [Look.places_byte, Look.places_byte, rounds, List.forall_mem_append, round_places from_, ih _ _ (by omega)]
      exact (List.forall_mem_cons (p := fun i => ((i + reach (m i) : Nat) : Int) < end_)).symm
  | case3 optptr outside =>
      rw [parseLook, dif_neg outside]
      simp

theorem load_split {m : Memory} {a : Nat} {first rest : List (BitVec 8)}
    (all : load m a (first ++ rest).length = first ++ rest) :
    load m a first.length = first ∧ load m (a + first.length) rest.length = rest := by
  rw [List.length_append, load_append] at all
  exact List.append_inj all (length_load m a _)

theorem load_first {m : Memory} {a : Nat} {b : BitVec 8} {rest : List (BitVec 8)}
    (all : load m a (b :: rest).length = b :: rest) : m a = b := by
  have heads : load m a [b].length = [b] := (load_split all).1
  exact List.head_eq_of_cons_eq heads

theorem field_loaded {m : Memory} {a : Nat} {code : BitVec 8} {value rest : List (BitVec 8)}
    (all : load m a ((DhcpOption.field code value).bytes ++ rest).length = (DhcpOption.field code value).bytes ++ rest) :
    m a = code ∧ m (a + 1) = BitVec.ofNat 8 value.length ∧ load m (a + 2) value.length = value ∧
      load m (a + (value.length + 2)) rest.length = rest := by
  obtain ⟨option, behind⟩ := load_split all
  have parts : (DhcpOption.field code value).bytes = [code] ++ ([BitVec.ofNat 8 value.length] ++ value) := rfl
  rw [parts] at option behind
  obtain ⟨first, later⟩ := load_split option
  obtain ⟨second, third⟩ := load_split later
  exact ⟨List.head_eq_of_cons_eq first, List.head_eq_of_cons_eq second, third, behind⟩

def askedState (client : Ip4Addr) (state : DhcpsState) : Option (List (BitVec 8)) → DhcpsState
  | none => state
  | some address => if address = ip4Bytes client then .ack else .nak

theorem typeOf_cons (option : DhcpOption) (options : List DhcpOption) (type : BitVec 8) :
    (typeOf (option :: options)).getD type = (typeOf options).getD (option.type?.getD type) := by
  unfold typeOf
  rw [List.filterMap_cons]
  cases option.type? with
  | none => rfl
  | some own => rw [List.getLast?_cons, Option.getD_some, Option.getD_some]

theorem addressAsked_cons (client : Ip4Addr) (option : DhcpOption) (options : List DhcpOption) (state : DhcpsState) :
    askedState client state (addressAsked (option :: options)) =
      askedState client (askedState client state option.address?) (addressAsked options) := by
  unfold addressAsked
  rw [List.filterMap_cons]
  cases option.address? with
  | none => rfl
  | some own =>
      rw [List.getLast?_cons]
      cases (options.filterMap DhcpOption.address?).getLast? with
      | none => rfl
      | some last => rfl

theorem field_type {m : Memory} {a : Nat} {code : BitVec 8} {value : List (BitVec 8)}
    (long : code = DHCP_OPTION_MSG_TYPE → 1 ≤ value.length) (valueAt : load m a value.length = value) (type : BitVec 8) :
    (if code = DHCP_OPTION_MSG_TYPE then m a else type) = (DhcpOption.field code value).type?.getD type := by
  unfold DhcpOption.type?
  dsimp only
  by_cases typed : code = DHCP_OPTION_MSG_TYPE
  · rw [if_pos typed, if_pos typed]
    have some_ := long typed
    cases value with
    | nil => cases some_
    | cons first rest => exact load_first valueAt
  · rw [if_neg typed, if_neg typed]
    rfl

theorem field_address {m : Memory} {a : Nat} {client : Ip4Addr} {code : BitVec 8} {value : List (BitVec 8)}
    (long : code = DHCP_OPTION_REQ_IPADDR → 4 ≤ value.length) (valueAt : load m a value.length = value)
    (state : DhcpsState) :
    (if code = DHCP_OPTION_REQ_IPADDR then if client = load32 m a then DhcpsState.ack else .nak else state) =
      askedState client state (DhcpOption.field code value).address? := by
  unfold DhcpOption.address?
  dsimp only
  by_cases asked : code = DHCP_OPTION_REQ_IPADDR
  · rw [if_pos asked, if_pos asked]
    have four : (value.take 4).length = 4 := by
      rw [List.length_take]
      exact Nat.min_eq_left (long asked)
    have head : load m a 4 = value.take 4 := by
      rw [← List.take_append_drop 4 value] at valueAt
      have first := (load_split valueAt).1
      rwa [four] at first
    exact if_congr (by rw [← ip4Bytes_eq_load, head, eq_comm]) rfl rfl
  · rw [if_neg asked, if_neg asked]
    rfl

theorem parseLoop_options {m : Memory} {client : Ip4Addr} {trailing : List (BitVec 8)} (options : List DhcpOption)
    (valid : ∀ option ∈ options, option.Valid) (plain : ∀ option ∈ options, option.Plain) {end_ : Int} {optptr : Nat}
    {area : List (BitVec 8)} (bytes : area = options.flatMap DhcpOption.bytes ++ DHCP_OPTION_END :: trailing)
    (all : load m optptr area.length = area) (bound : end_ = optptr + area.length) (type : BitVec 8) (state : DhcpsState) :
    parseLoop m client end_ optptr type state =
      ((typeOf options).getD type, askedState client state (addressAsked options)) := by
  induction options generalizing optptr area type state with
  | nil =>
      have first : m optptr = DHCP_OPTION_END := by
        rw [bytes] at all
        exact load_first all
      have some_ : 0 < area.length := by simp [bytes]
      rw [parseLoop, dif_pos (by omega), if_pos first]
      rfl
  | cons option rest ih =>
      obtain ⟨ok, restOk⟩ := List.forall_mem_cons.mp valid
      obtain ⟨long, restLong⟩ := List.forall_mem_cons.mp plain
      cases option with
      | pad => exact long.elim
      | field code value =>
          rw [List.flatMap_cons, List.append_assoc] at bytes
          have length := congrArg List.length bytes
          rw [List.length_append] at length
          obtain ⟨codeAt, lengthAt, valueAt, behind⟩ := field_loaded (bytes ▸ all)
          have short : (BitVec.ofNat 8 value.length).toNat = value.length := by
            rw [BitVec.toNat_ofNat, Nat.mod_eq_of_lt ok.2.2]
          have own : (DhcpOption.field code value).bytes.length = value.length + 2 := rfl
          rw [parseLoop, dif_pos (by omega), if_neg (codeAt ▸ ok.2.1), lengthAt, short,
            ih restOk restLong rfl behind (by omega), typeOf_cons, addressAsked_cons, codeAt,
            field_type long.1 valueAt, field_address long.2 valueAt]

theorem parseOptions_eq {s : Dhcps} {m : Memory} {optptr : Nat} {len : BitVec 16} {type : BitVec 8} {state : DhcpsState}
    (loop : parseLoop m s.clientAddress (optptr + len.toInt) optptr 0 .idle = (type, state)) :
    parseOptions s m optptr len =
      if type = DHCPDISCOVER then .offer
      else if type = DHCPREQUEST then
        if state = .ack ∨ state = .nak then state else if s.renew then .ack else .nak
      else if type = DHCPDECLINE then .idle
      else if type = DHCPRELEASE then .release
      else state := by
  unfold parseOptions
  rw [loop]

theorem askedState_cases (client : Ip4Addr) (address : Option (List (BitVec 8))) :
    askedState client .idle address = .idle ∧ address = none ∨
      askedState client .idle address = .ack ∧ address = some (ip4Bytes client) ∨
      askedState client .idle address = .nak ∧ address ≠ none ∧ address ≠ some (ip4Bytes client) := by
  cases address with
  | none => exact .inl ⟨rfl, rfl⟩
  | some bytes =>
      unfold askedState
      by_cases same : bytes = ip4Bytes client
      · exact .inr (.inl ⟨if_pos same, congrArg some same⟩)
      · exact .inr (.inr ⟨if_neg same, Option.some_ne_none bytes, fun equal => same (Option.some.inj equal)⟩)

theorem stateRight_def (s : Dhcps) (options : List DhcpOption) (state : DhcpsState) :
    StateRight s options state ↔
      (state = .offer ↔ typeOf options = some DHCPDISCOVER) ∧
      (state = .ack ∨ state = .nak ↔ typeOf options = some DHCPREQUEST) ∧
      (typeOf options = some DHCPREQUEST → (state = .ack ↔
        addressAsked options = some (ip4Bytes s.clientAddress) ∨ addressAsked options = none ∧ s.renew = true)) ∧
      (state = .release ↔ typeOf options = some DHCPRELEASE) :=
  ⟨fun right => ⟨right.offer, right.answered, right.ack, right.release⟩,
    fun all => ⟨all.1, all.2.1, all.2.2.1, all.2.2.2⟩⟩

theorem stateRight_iff {s : Dhcps} {m : Memory} {optptr : Nat} {len : BitVec 16} {options : List DhcpOption}
    (wellFormed : WellFormed (optionArea m optptr len) options) (plain : ∀ option ∈ options, option.Plain) :
    StateRight s options (parseOptions s m optptr len) ↔ AsksKnown options := by
  obtain ⟨valid, trailing, bytes⟩ := wellFormed
  have length : (optionArea m optptr len).length = len.toInt.toNat := length_load m optptr _
  have some_ : 0 < (optionArea m optptr len).length := by
    rw [bytes, List.length_append, List.length_cons]
    omega
  have all : load m optptr (optionArea m optptr len).length = optionArea m optptr len := by rw [length, optionArea]
  have bound : (optptr + len.toInt : Int) = optptr + (optionArea m optptr len).length := by omega
  have loop : parseLoop m s.clientAddress (optptr + len.toInt) optptr 0 .idle = _ :=
    parseLoop_options options valid plain bytes all bound 0 .idle
  rw [parseOptions_eq loop, stateRight_def, AsksKnown]
  have known := askedState_cases s.clientAddress (addressAsked options)
  revert known
  generalize askedState s.clientAddress .idle (addressAsked options) = state
  intro known
  cases typed : typeOf options with
  | none =>
      rcases known with ⟨rfl, asked⟩ | ⟨rfl, asked⟩ | ⟨rfl, asked, -⟩
      · simp [asked, DHCPDISCOVER, DHCPREQUEST, DHCPDECLINE, DHCPRELEASE]
      · simp [asked, DHCPDISCOVER, DHCPREQUEST, DHCPDECLINE, DHCPRELEASE]
      · simp [asked, DHCPDISCOVER, DHCPREQUEST, DHCPDECLINE, DHCPRELEASE]
  | some type =>
      rw [Option.getD_some]
      by_cases discover : type = DHCPDISCOVER
      · subst discover
        simp [DHCPDISCOVER, DHCPREQUEST, DHCPDECLINE, DHCPRELEASE]
      by_cases request : type = DHCPREQUEST
      · subst request
        rcases known with ⟨rfl, asked⟩ | ⟨rfl, asked⟩ | ⟨rfl, asked, other⟩
        · cases renew : s.renew <;> simp [asked, DHCPDISCOVER, DHCPREQUEST, DHCPDECLINE, DHCPRELEASE]
        · simp [asked, DHCPDISCOVER, DHCPREQUEST, DHCPDECLINE, DHCPRELEASE]
        · simp [asked, other, DHCPDISCOVER, DHCPREQUEST, DHCPDECLINE, DHCPRELEASE]
      by_cases decline : type = DHCPDECLINE
      · subst decline
        simp [DHCPDISCOVER, DHCPREQUEST, DHCPDECLINE, DHCPRELEASE]
      by_cases release : type = DHCPRELEASE
      · subst release
        simp [DHCPDISCOVER, DHCPREQUEST, DHCPDECLINE, DHCPRELEASE]
      rcases known with ⟨rfl, asked⟩ | ⟨rfl, asked⟩ | ⟨rfl, asked, -⟩
      · simp [asked, discover, request, decline, release]
      · simp [asked, discover, request, decline, release]
      · simp [asked, discover, request, decline, release]

theorem optionsRight_of_known {s : Dhcps} {m : Memory} {optptr : Nat} {len : BitVec 16} (whole : Whole m optptr len)
    (known : ∀ options, WellFormed (optionArea m optptr len) options →
      (∀ option ∈ options, option.Plain) ∧ AsksKnown options) : OptionsRight s m optptr len where
  reads := (parseLook_places 0 .idle (Nat.le_refl optptr)).mpr whole
  right options wellFormed := (stateRight_iff wellFormed (known options wellFormed).1).mpr (known options wellFormed).2

/-- Options are parsed right if what is read of each is in the area, and a well-formed area is plain and asks what the
server knows; in a plain area, only then. -/
theorem optionsRight_of_plain_known (s : Dhcps) (m : Memory) (optptr : Nat) (len : BitVec 16) :
    (Whole m optptr len ∧ (∀ options, WellFormed (optionArea m optptr len) options →
      (∀ option ∈ options, option.Plain) ∧ AsksKnown options) → OptionsRight s m optptr len) ∧
    ((∀ options, WellFormed (optionArea m optptr len) options → ∀ option ∈ options, option.Plain) →
      OptionsRight s m optptr len →
      Whole m optptr len ∧ ∀ options, WellFormed (optionArea m optptr len) options → AsksKnown options) := by
  refine ⟨fun ⟨whole, known⟩ => optionsRight_of_known whole known, fun plain right => ⟨?_, fun options wellFormed => ?_⟩⟩
  · exact (parseLook_places 0 .idle (Nat.le_refl optptr)).mp right.reads
  · exact (stateRight_iff wellFormed (plain options wellFormed)).mp (right.right options wellFormed)

def paddedDiscover : List (BitVec 8) := [0, DHCP_OPTION_MSG_TYPE, 1, DHCPDISCOVER, DHCP_OPTION_END]

theorem padded_discover_missed : ¬ ∀ (s : Dhcps) (m : Memory) (optptr : Nat) (len : BitVec 16),
    OptionsRight s m optptr len := by
  intro all
  have right := (all ⟨0, 0, 0, 0, [], false, ⟨false, 0, 0⟩, 120, 0xFF, 0, 0, 0⟩ (fun i => paddedDiscover.getD i 0) 0 5).right
    [.pad, .field DHCP_OPTION_MSG_TYPE [DHCPDISCOVER]] ⟨by decide, [], by decide⟩
  have offered := right.offer.mpr (by decide)
  have loop : parseLoop (fun i => paddedDiscover.getD i 0) 0 5 0 0 .idle = (0, .idle) := by
    rw [parseLoop, dif_pos (by decide), if_neg (by decide), parseLoop, dif_neg (by decide)]
    rfl
  rw [parseOptions_eq loop] at offered
  cases offered

end EspFirmware.Proof.Net
