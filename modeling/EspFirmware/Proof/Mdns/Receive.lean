import EspFirmware.Proof.Mdns.Name
import EspFirmware.Spec.MdnsRecords

/-!
The record loop of `mdns_parse_packet` carries `search_result` from a record to the next. As long as no record under our
names comes then, each record is judged as if it were the only one.
-/

namespace EspFirmware.Proof.Mdns
open EspFirmware.Lib EspFirmware.Mdns EspFirmware.Spec

/-! ## Searches that are given an address -/

section
variable {x : RxSearch} {hostname : CString} {ip : IpAddr} {key k : Key} {name : MdnsName} {type : BitVec 16}

theorem any_modify {α : Type} {q : α → Bool} {f : α → α} (same : ∀ a, q (f a) = q a) (l : List α) (i : Nat) :
    (l.modify i f).any q = l.any q := by
  induction l generalizing i with
  | nil => cases i <;> rfl
  | cons a rest ih =>
      cases i with
      | zero =>
          change (f a :: rest).any q = (a :: rest).any q
          rw [List.any_cons, List.any_cons, same]
      | succ i =>
          change (a :: rest.modify i f).any q = (a :: rest).any q
          rw [List.any_cons, List.any_cons, ih]

theorem addIp_kept (r : RxResult) : (r.mdnsResultAddIp ip).key = r.key ∧ (r.mdnsResultAddIp ip).hostname = r.hostname := by
  unfold RxResult.mdnsResultAddIp
  split
  · exact ⟨rfl, rfl⟩
  · exact ⟨rfl, rfl⟩

theorem isFor_addIp : (x.mdnsSearchResultAddIp hostname ip k).isFor name type key = x.isFor name type key := by
  have fields : ∀ y : RxSearch, y.state = x.state → y.type = x.type → y.instanceName = x.instanceName →
      y.service = x.service → y.proto = x.proto →
      (y.result.any fun r => r.key = key ∧ RxResult.named r.hostname name.host) =
        (x.result.any fun r => r.key = key ∧ RxResult.named r.hostname name.host) →
      y.isFor name type key = x.isFor name type key := by
    intro y state types instances services protos results
    unfold RxSearch.isFor RxSearch.sameService
    rw [state, types, instances, services, protos, results]
  have modified (i : Nat) : ((x.result.modify i fun r => r.mdnsResultAddIp ip).any fun r =>
      r.key = key ∧ RxResult.named r.hostname name.host) =
        (x.result.any fun r => r.key = key ∧ RxResult.named r.hostname name.host) := by
    refine any_modify ?_ _ _
    intro r
    rw [(addIp_kept r).1, (addIp_kept r).2]
  unfold RxSearch.mdnsSearchResultAddIp
  split
  · split
    · exact fields _ rfl rfl rfl rfl rfl (modified _)
    · split
      · refine fields _ rfl rfl rfl rfl rfl ?_
        have none_ : RxResult.named none name.host = false := rfl
        unfold RxSearch.addResult RxSearch.emptyResult
        rw [List.any_cons, none_, decide_eq_false (by simp), Bool.false_or]
      · rfl
  · split
    · split
      · exact fields _ rfl rfl rfl rfl rfl (modified _)
      · rfl
    · rfl

theorem addIp_id : (x.mdnsSearchResultAddIp hostname ip k).id = x.id := by
  unfold RxSearch.mdnsSearchResultAddIp
  split
  · split
    · rfl
    · split
      · rfl
      · rfl
  · split
    · split
      · rfl
      · rfl
    · rfl

def SameSearches (old new : List RxSearch) : Prop :=
  ∀ y ∈ new, ∃ x ∈ old, x.id = y.id ∧ ∀ name type key, y.isFor name type key = x.isFor name type key

theorem findFrom_found {l : List RxSearch} {id : Nat} (found : mdnsSearchFindFrom name type key l = .found id) :
    ∃ x ∈ l, x.id = id ∧ x.isFor name type key = some true := by
  induction l with
  | nil => cases found
  | cons s rest ih =>
      unfold mdnsSearchFindFrom at found
      cases is : s.isFor name type key with
      | none =>
          rw [is] at found
          cases found
      | some matched =>
          rw [is] at found
          cases matched with
          | false =>
              obtain ⟨x, inside, same, itIs⟩ := ih found
              exact ⟨x, List.mem_cons_of_mem _ inside, same, itIs⟩
          | true =>
              cases found
              exact ⟨s, List.mem_cons_self, rfl, is⟩

theorem sameSearches_setSearch (hostname : CString) (ip : IpAddr) (k : Key) {old : List RxSearch} {s : RxServer}
    (same : SameSearches old s.search_once) (inside : x ∈ s.search_once) :
    SameSearches old (s.setSearch (x.mdnsSearchResultAddIp hostname ip k)).search_once := by
  intro y new
  obtain ⟨z, listed, is⟩ := List.mem_map.mp new
  split at is
  · obtain ⟨first, old_, id, itIs⟩ := same x inside
    rw [← is]
    exact ⟨first, old_, id.trans addIp_id.symm, fun _ _ _ => isFor_addIp.trans (itIs _ _ _)⟩
  · rw [← is]
    exact same z listed

theorem addIpFrom_matched (ip : IpAddr) (fuel : Nat) (found : SearchFound) {old : List RxSearch} {s : RxServer}
    (same : SameSearches old s.search_once)
    (first : ∀ id, found = .found id → ∃ x ∈ old, x.id = id ∧ x.isFor name type key = some true) :
    ∀ id ∈ (RxServer.addIpFrom name type key ip fuel found s).1,
      ∃ x ∈ old, x.id = id ∧ x.isFor name type key = some true := by
  induction fuel generalizing found s with
  | zero => exact fun _ inside => absurd inside List.not_mem_nil
  | succ fuel ih =>
      cases found with
      | fault => exact fun _ inside => absurd inside List.not_mem_nil
      | none => exact fun _ inside => absurd inside List.not_mem_nil
      | found id =>
          unfold RxServer.addIpFrom
          cases is : s.search id with
          | none => exact fun _ inside => absurd inside List.not_mem_nil
          | some x =>
              have listed : x ∈ s.search_once := List.mem_of_find?_eq_some is
              have kept := sameSearches_setSearch name.host ip key same listed
              intro other inside
              rcases List.mem_cons.mp inside with rfl | later
              · exact first other rfl
              · refine ih _ kept ?_ other later
                intro next found
                obtain ⟨y, after, id, itIs⟩ := findFrom_found found
                have member := (List.dropWhile_suffix _).subset (List.mem_of_mem_tail after)
                obtain ⟨z, old_, same, matches_⟩ := kept y member
                exact ⟨z, old_, same.trans id, (matches_ _ _ _).symm.trans itIs⟩

end

/-! ## One record -/

section
variable {e e' : RxEnv} {p : RxPacket} {s : RxServer} {r : RxRecord} {service : Option ServiceItem}

structure Carries (h : Handled) (left : Option Nat) : Prop where
  next : ∀ s' left', h.next = .go s' left' → left' = left

theorem carries_ignored {left : Option Nat} : Carries (Handled.ignored s left) left := by
  refine ⟨?_⟩
  intro s' left' is
  cases is
  rfl

theorem carries_compared {s : Option RxServer} {left : Option Nat} : Carries (Handled.compared s left) left := by
  refine ⟨?_⟩
  intro s' left' is
  cases s with
  | none => cases is
  | some s =>
      cases is
      rfl

theorem carries_fault {used : List Nat} {checked : Bool} {left : Option Nat} : Carries ⟨used, checked, .fault⟩ left := by
  refine ⟨?_⟩
  intro s' left' is
  cases is

theorem carries_go {used : List Nat} {checked : Bool} {left : Option Nat} : Carries ⟨used, checked, .go s left⟩ left := by
  refine ⟨?_⟩
  intro s' left' is
  cases is
  rfl

theorem carries_clear {used : List Nat} {checked : Bool} {left : Option Nat} : Carries ⟨used, checked, .clear s⟩ left := by
  refine ⟨?_⟩
  intro s' left' is
  cases is

def carried (r : RxRecord) (left : Option Nat) : Option Nat := if IsAddress r then none else left

theorem ptr_carries {left : Option Nat} {ours : Bool} : Carries (handlePtr p s left r ours service) left := by
  unfold handlePtr
  split
  · exact carries_fault
  · exact carries_ignored
  · split
    · split
      · exact carries_fault
      · exact carries_go
    · split
      · split
        · exact carries_ignored
        · exact carries_ignored
      · exact carries_ignored

theorem target_carries {left : Option Nat} {ours : Bool} {found : Option (RxSearch × Option Nat)} :
    Carries (srvTarget e p s left r ours service found) left := by
  unfold srvTarget
  dsimp only
  split
  · exact carries_fault
  · exact carries_go
  · split
    · exact carries_go
    · exact carries_go
    · split
      · exact carries_ignored
      · split
        · exact carries_ignored
        · split
          · exact carries_compared
          · split
            · exact carries_compared
            · split
              · exact carries_fault
              · exact carries_compared

theorem srv_carries {left : Option Nat} {ours : Bool} : Carries (handleSrv e p s left r ours service) left := by
  unfold handleSrv
  split
  · exact target_carries
  · split
    · exact carries_fault
    · split
      · split
        · exact carries_ignored
        · exact target_carries
      · exact target_carries

theorem txt_carries {left : Option Nat} {ours : Bool} : Carries (handleTxt e p s left r ours service) left := by
  unfold handleTxt
  dsimp only
  split
  · split
    · exact carries_ignored
    · unfold txtFound
      split
      · split
        · exact carries_ignored
        · exact carries_go
      · exact carries_go
    · exact carries_fault
  · split
    · exact carries_ignored
    · split
      · exact carries_compared
      · split
        · exact carries_compared
        · split
          · exact carries_fault
          · exact carries_compared

theorem address_carries {left : Option Nat} {ours : Bool} {protocol : IpProtocol} {type : RecordType} {size : Nat}
    {check : RxServer → List (BitVec 8) → Iface → Int} :
    Carries (handleAddress e p s left r ours protocol type size check) none := by
  unfold handleAddress
  dsimp only
  split
  · generalize RxServer.addIpFrom _ _ _ _ _ _ _ = result
    obtain ⟨used, s'⟩ := result
    cases s' with
    | none => exact carries_fault
    | some s' => exact carries_go
  · split
    · exact carries_ignored
    · generalize (if r.clas.toNat > 1 then (1 : Int) else _) = col
      split
      · exact carries_clear
      · split
        · exact carries_compared
        · split
          · exact carries_compared
          · exact carries_compared

theorem record_cases {left : Option Nat} {ours : Bool} {motive : Handled → Prop}
    (ptr : r.type = WireType.ptr.code → motive (handlePtr p s left r ours service))
    (srv : r.type = WireType.srv.code → motive (handleSrv e p s left r ours service))
    (txt : r.type = WireType.txt.code → motive (handleTxt e p s left r ours service))
    (aaaa : r.type = WireType.aaaa.code →
      motive (handleAddress e p s left r ours .v6 .aaaa 16 RxServer.mdnsCheckAaaaCollision))
    (a : r.type = WireType.a.code → motive (handleAddress e p s left r ours .v4 .a 4 RxServer.mdnsCheckACollision))
    (other : r.type ∉ [WireType.ptr, .srv, .txt, .aaaa, .a].map WireType.code → motive (.ignored s left)) :
    motive (handleRecord e p s left r ours service) := by
  unfold handleRecord
  split
  · exact ptr (by assumption)
  · split
    · exact srv (by assumption)
    · split
      · exact txt (by assumption)
      · split
        · exact aaaa (by assumption)
        · split
          · exact a (by assumption)
          · refine other ?_
            simp only [List.map_cons, List.map_nil, List.mem_cons, List.not_mem_nil]
            tauto

theorem not_address (t : WireType) (is : r.type = t.code) (other : t ∈ [WireType.ptr, .srv, .txt]) : ¬ IsAddress r := by
  unfold IsAddress
  rw [is]
  cases t with
  | ptr => decide
  | srv => decide
  | txt => decide
  | a => exact absurd other (by decide)
  | aaaa => exact absurd other (by decide)

theorem record_carries (e : RxEnv) (p : RxPacket) (s : RxServer) (left : Option Nat) (r : RxRecord) (ours : Bool)
    (service : Option ServiceItem) : Carries (handleRecord e p s left r ours service) (carried r left) := by
  unfold carried
  refine record_cases (motive := fun h => Carries h (if IsAddress r then none else left)) ?_ ?_ ?_ ?_ ?_ ?_
  · intro is
    rw [if_neg (not_address .ptr is (by decide))]
    exact ptr_carries
  · intro is
    rw [if_neg (not_address .srv is (by decide))]
    exact srv_carries
  · intro is
    rw [if_neg (not_address .txt is (by decide))]
    exact txt_carries
  · intro is
    rw [if_pos (.inl is)]
    exact address_carries
  · intro is
    rw [if_pos (.inr is)]
    exact address_carries
  · intro other
    rw [if_neg]
    · exact carries_ignored
    · rintro (is | is)
      · exact other (by rw [is]; decide)
      · exact other (by rw [is]; decide)

/-! ### What is not carried over -/

/-- The record goes to no search, and whether it is compared does not depend on what is random. -/
structure Settles (h : RxEnv → Handled) (checked : Bool) : Prop where
  used : ∀ e, (h e).used = []
  checked : ∀ e, (h e).checked = checked

theorem settles_ignored {left : Option Nat} : Settles (fun _ => .ignored s left) false := ⟨fun _ => rfl, fun _ => rfl⟩

theorem settles_compared {f : RxEnv → Option RxServer} {left : Option Nat} :
    Settles (fun e => .compared (f e) left) true :=
  ⟨fun _ => rfl, fun _ => rfl⟩

theorem ptr_settles {ours : Bool} : Settles (fun _ => handlePtr p s none r ours service) false := by
  unfold handlePtr
  dsimp only
  split
  · exact ⟨fun _ => rfl, fun _ => rfl⟩
  · exact settles_ignored
  · split
    · split
      · exact settles_ignored
      · exact settles_ignored
    · exact settles_ignored

def served (r : RxRecord) (service : Option ServiceItem) : Bool := r.clas ≠ 1 ∨ service.isSome

theorem served_none (large : ¬ r.clas.toNat > 1) (some_ : r.clas ≠ 0) : served r none = false := by
  have one : r.clas = 1 := by
    have positive : r.clas.toNat ≠ 0 := by
      intro zero
      exact some_ (BitVec.eq_of_toNat_eq zero)
    refine BitVec.eq_of_toNat_eq ?_
    change r.clas.toNat = 1
    omega
  unfold served
  rw [one]
  decide

theorem served_some {item : ServiceItem} : served r (some item) = true := decide_eq_true (Or.inr rfl)

theorem served_class (other : r.clas ≠ 1) : served r service = true := decide_eq_true (Or.inl other)

theorem served_large (large : r.clas.toNat > 1) : served r service = true := by
  refine served_class ?_
  intro one
  rw [one] at large
  exact absurd large (by decide)

theorem served_zero (zero : r.clas = 0) : served r service = true := by
  refine served_class ?_
  rw [zero]
  decide

theorem target_settles (p : RxPacket) (s : RxServer) (r : RxRecord) (service : Option ServiceItem) :
    ∃ checked, Settles (fun e => srvTarget e p s none r true service none) checked ∧
      (p.distributed = false → (∃ next name, p.parseName (r.data_ptr + MDNS_SRV_FQDN_OFFSET) = .ok next name) →
        checked = served r service) := by
  unfold srvTarget
  dsimp only
  cases target : p.parseName (r.data_ptr + MDNS_SRV_FQDN_OFFSET) with
  | outside =>
      refine ⟨false, ⟨fun _ => rfl, fun _ => rfl⟩, ?_⟩
      rintro _ ⟨_, _, is⟩
      cases is
  | bad =>
      refine ⟨false, ⟨fun _ => rfl, fun _ => rfl⟩, ?_⟩
      rintro _ ⟨_, _, is⟩
      cases is
  | ok next name =>
      dsimp only
      by_cases distributed : p.distributed = true
      · refine ⟨false, ?_, fun other => absurd (distributed.symm.trans other) (by decide)⟩
        simp only [if_pos distributed, Bool.true_eq_false, if_false]
        exact settles_ignored
      · simp only [if_neg distributed, Bool.true_eq_false, if_false]
        by_cases large : r.clas.toNat > 1
        · simp only [if_pos large]
          exact ⟨true, settles_compared, fun _ _ => (served_large large).symm⟩
        · simp only [if_neg large]
          by_cases zero : r.clas = 0
          · simp only [if_pos zero]
            exact ⟨true, settles_compared, fun _ _ => (served_zero zero).symm⟩
          · simp only [if_neg zero]
            cases service with
            | none => exact ⟨false, ⟨fun _ => rfl, fun _ => rfl⟩, fun _ _ => (served_none large zero).symm⟩
            | some item => exact ⟨true, settles_compared, fun _ _ => served_some.symm⟩

theorem txt_settles : Settles (fun e => handleTxt e p s none r true service) (served r service) := by
  unfold handleTxt
  dsimp only
  simp only [Bool.true_eq_false, if_false]
  by_cases large : r.clas.toNat > 1
  · simp only [if_pos large]
    rw [served_large large]
    exact settles_compared
  · simp only [if_neg large]
    by_cases zero : r.clas = 0
    · simp only [if_pos zero]
      rw [served_zero zero]
      exact settles_compared
    · simp only [if_neg zero]
      cases service with
      | none =>
          rw [served_none large zero]
          exact ⟨fun _ => rfl, fun _ => rfl⟩
      | some item =>
          rw [served_some]
          exact settles_compared

theorem address_settles {protocol : IpProtocol} {type : RecordType} {size : Nat}
    {check : RxServer → List (BitVec 8) → Iface → Int} :
    Settles (fun e => handleAddress e p s none r true protocol type size check) true := by
  unfold handleAddress
  dsimp only
  simp only [Bool.true_eq_false, if_false]
  generalize (if r.clas.toNat > 1 then (1 : Int) else _) = col
  by_cases two : col = 2
  · simp only [if_pos two]
    exact ⟨fun _ => rfl, fun _ => rfl⟩
  · simp only [if_neg two]
    by_cases one : col = 1
    · simp only [if_pos one]
      exact settles_compared
    · simp only [if_neg one]
      split
      · exact settles_compared
      · exact settles_compared

end

/-! ### Records for searches -/

section
variable {p : RxPacket} {s : RxServer} {r : RxRecord} {id : Nat}

/-- What is used does not depend on what is random, nothing is compared, and the searches used are `id` and those that an
address is for. -/
structure Serves (h : RxEnv → Handled) (matched : Nat → Prop) : Prop where
  same : ∀ e e', (h e).used = (h e').used
  checked : ∀ e, (h e).checked = false
  used : ∀ e, ∀ i ∈ (h e).used, matched i

theorem serves_constant {h : Handled} {matched : Nat → Prop} (checked : h.checked = false) (used : ∀ i ∈ h.used, matched i) :
    Serves (fun _ => h) matched := ⟨fun _ _ => rfl, fun _ => checked, fun _ => used⟩

theorem serves_nothing {next : RxNext} {matched : Nat → Prop} : Serves (fun _ => ⟨[], false, next⟩) matched :=
  serves_constant rfl fun _ inside => absurd inside List.not_mem_nil

theorem serves_one {next : RxNext} {matched : Nat → Prop} (is : matched id) : Serves (fun _ => ⟨[id], false, next⟩) matched := by
  refine serves_constant rfl ?_
  intro i inside
  rw [List.mem_singleton.mp inside]
  exact is

theorem search_id {x : RxSearch} (found : s.search id = some x) : x.id = id := by
  have is := List.find?_some found
  exact of_decide_eq_true is

theorem addPtr_id {x y : RxSearch} {host : CString} {key : Key} {i : Nat}
    (found : x.mdnsSearchResultAddPtr host key = some (y, i)) : y.id = x.id := by
  unfold RxSearch.mdnsSearchResultAddPtr at found
  split at found
  · cases found
    rfl
  · split at found
    · cases found
      rfl
    · cases found

theorem instanceResult_id {x y : RxSearch} {host : CString} {key : Key} {i : Nat}
    (found : x.instanceResult host key = some (y, i)) : y.id = x.id := by
  unfold RxSearch.instanceResult at found
  split at found
  · cases found
    rfl
  · exact addPtr_id found

theorem target_serves {matched : Nat → Prop} {x : RxSearch} {i : Option Nat} (is : matched x.id) :
    Serves (fun e => srvTarget e p s (some id) r false none (some (x, i))) matched := by
  unfold srvTarget
  dsimp only
  cases i with
  | none =>
      cases p.parseName (r.data_ptr + MDNS_SRV_FQDN_OFFSET) with
      | outside => exact serves_nothing
      | bad => exact serves_nothing
      | ok _ _ => exact serves_one is
  | some i =>
      cases p.parseName (r.data_ptr + MDNS_SRV_FQDN_OFFSET) with
      | outside => exact serves_one is
      | bad => exact serves_one is
      | ok _ _ => exact serves_one is

theorem ptr_serves {matched : Nat → Prop} (is : matched id) :
    Serves (fun _ => handlePtr p s (some id) r false none) matched := by
  unfold handlePtr
  dsimp only
  cases p.parseName r.data_ptr with
  | outside => exact serves_nothing
  | bad => exact serves_nothing
  | ok _ name =>
      dsimp only
      cases s.search id with
      | none => exact serves_nothing
      | some x => exact serves_one is

theorem srv_serves {matched : Nat → Prop} (is : matched id) :
    Serves (fun e => handleSrv e p s (some id) r false none) matched := by
  unfold handleSrv
  dsimp only
  cases found : s.search id with
  | none => exact serves_nothing
  | some x =>
      have itIs : matched x.id := by
        rw [search_id found]
        exact is
      dsimp only
      by_cases ptr : x.type = WireType.ptr.code
      · simp only [if_pos ptr]
        cases result : x.instanceResult r.name.host p.key with
        | none => exact serves_nothing
        | some y =>
            obtain ⟨y, i⟩ := y
            refine target_serves ?_
            rw [instanceResult_id result]
            exact itIs
      · simp only [if_neg ptr]
        exact target_serves itIs

theorem txtFound_serves {matched : Nat → Prop} {x : RxSearch} {txt : List TxtItem} (is : matched x.id) :
    Serves (fun _ => txtFound p s (some id) r x txt) matched := by
  unfold txtFound
  by_cases ptr : x.type = WireType.ptr.code
  · simp only [if_pos ptr]
    cases result : x.instanceResult r.name.host p.key with
    | none => exact serves_nothing
    | some y =>
        obtain ⟨y, i⟩ := y
        refine serves_one ?_
        rw [instanceResult_id result]
        exact is
  · simp only [if_neg ptr]
    exact serves_one is

theorem txt_serves {matched : Nat → Prop} (is : matched id) :
    Serves (fun e => handleTxt e p s (some id) r false none) matched := by
  unfold handleTxt
  dsimp only
  cases found : s.search id with
  | none =>
      cases mdnsResultTxtCreate (Memory.load p.mem r.data_ptr r.data_len) with
      | outside => exact serves_nothing
      | overrun => exact serves_nothing
      | done txt =>
          cases txt with
          | nil => exact serves_nothing
          | cons item rest => exact serves_nothing
  | some x =>
      have itIs : matched x.id := by
        rw [search_id found]
        exact is
      cases mdnsResultTxtCreate (Memory.load p.mem r.data_ptr r.data_len) with
      | outside => exact serves_nothing
      | overrun => exact serves_nothing
      | done txt =>
          cases txt with
          | nil => exact serves_nothing
          | cons item rest => exact txtFound_serves itIs

theorem address_serves {matched : Nat → Prop} {protocol : IpProtocol} {type : RecordType} {size : Nat}
    {check : RxServer → List (BitVec 8) → Iface → Int}
    (all : ∀ ip fuel, ∀ i ∈ (RxServer.addIpFrom r.name r.type p.key ip fuel (.found id) s).1, matched i) :
    Serves (fun e => handleAddress e p s (some id) r false protocol type size check) matched := by
  refine ⟨fun _ _ => rfl, fun _ => rfl, fun _ => ?_⟩
  exact all ⟨protocol, Memory.load p.mem r.data_ptr size⟩ (s.search_once.length + 1)

theorem record_serves (found : s.findSearch r.name r.type p.key = .found id) :
    Serves (fun e => handleRecord e p s (some id) r false none)
      fun i => ∃ x ∈ s.search_once, x.id = i ∧ x.isFor r.name r.type p.key = some true := by
  have is := findFrom_found found
  have same : SameSearches s.search_once s.search_once := fun y inside => ⟨y, inside, rfl, fun _ _ _ => rfl⟩
  have all (ip : IpAddr) (fuel : Nat) := addIpFrom_matched ip fuel (.found id) same fun i itIs => by
    cases itIs
    exact is
  unfold handleRecord
  by_cases ptr : r.type = WireType.ptr.code
  · simp only [if_pos ptr]
    exact ptr_serves is
  · simp only [if_neg ptr]
    by_cases srv : r.type = WireType.srv.code
    · simp only [if_pos srv]
      exact srv_serves is
    · simp only [if_neg srv]
      by_cases txt : r.type = WireType.txt.code
      · simp only [if_pos txt]
        exact txt_serves is
      · simp only [if_neg txt]
        by_cases aaaa : r.type = WireType.aaaa.code
        · simp only [if_pos aaaa]
          exact address_serves all
        · simp only [if_neg aaaa]
          by_cases a : r.type = WireType.a.code
          · simp only [if_pos a]
            exact address_serves all
          · simp only [if_neg a]
            exact serves_nothing

end

/-! ### Any record -/

section
variable {e : RxEnv} {p : RxPacket} {s : RxServer} {r : RxRecord} {left : Option Nat}

theorem stranger_settles : Settles (fun e => handleRecord e p s none r false none) false := by
  have target : Settles (fun e => handleSrv e p s none r false none) false := by
    unfold handleSrv srvTarget
    dsimp only
    cases p.parseName (r.data_ptr + MDNS_SRV_FQDN_OFFSET) with
    | outside => exact ⟨fun _ => rfl, fun _ => rfl⟩
    | bad => exact ⟨fun _ => rfl, fun _ => rfl⟩
    | ok _ _ => exact settles_ignored
  refine ⟨?_, ?_⟩
  · intro e
    exact record_cases (motive := fun h => h.used = []) (fun _ => ptr_settles.used e) (fun _ => target.used e)
      (fun _ => rfl) (fun _ => rfl) (fun _ => rfl) fun _ => rfl
  · intro e
    exact record_cases (motive := fun h => h.checked = false) (fun _ => ptr_settles.checked e) (fun _ => target.checked e)
      (fun _ => rfl) (fun _ => rfl) (fun _ => rfl) fun _ => rfl

theorem not_known (other : ∀ t : WireType, r.type ≠ t.code) {e : RxEnv} {ours : Bool} {service : Option ServiceItem} :
    handleRecord e p s left r ours service = .ignored s left :=
  record_cases (motive := fun h => h = .ignored s left) (fun is => absurd is (other _)) (fun is => absurd is (other _))
    (fun is => absurd is (other _)) (fun is => absurd is (other _)) (fun is => absurd is (other _)) fun _ => rfl

theorem not_claimed (other : ∀ t : WireType, r.type ≠ t.code) : ¬ HasClaim r := by
  rintro (is | is | is | is)
  · exact other _ is
  · exact other _ is
  · exact other _ is
  · exact other _ is

theorem handle_ptr (is : r.type = WireType.ptr.code) {ours : Bool} {service : Option ServiceItem} :
    handleRecord e p s left r ours service = handlePtr p s left r ours service := if_pos is

theorem handle_srv (is : r.type = WireType.srv.code) {ours : Bool} {service : Option ServiceItem} :
    handleRecord e p s left r ours service = handleSrv e p s left r ours service := by
  unfold handleRecord
  rw [if_neg (by rw [is]; decide), if_pos is]

theorem handle_txt (is : r.type = WireType.txt.code) {ours : Bool} {service : Option ServiceItem} :
    handleRecord e p s left r ours service = handleTxt e p s left r ours service := by
  unfold handleRecord
  rw [if_neg (by rw [is]; decide), if_neg (by rw [is]; decide), if_pos is]

theorem own_settles (p : RxPacket) (s : RxServer) (r : RxRecord) (service : Option ServiceItem)
    (distributed : p.distributed = false) :
    ∃ checked, Settles (fun e => handleRecord e p s none r true service) checked ∧
      (HasClaim r → (r.type = WireType.srv.code → HasTarget p r) →
        (r.type ∈ [WireType.srv, .txt].map WireType.code → served r service = true) → checked = true) := by
  by_cases ptr : r.type = WireType.ptr.code
  · simp only [handle_ptr ptr]
    refine ⟨false, ptr_settles, ?_⟩
    rintro (srv | txt | address)
    · exact absurd (ptr.symm.trans srv) (by decide)
    · exact absurd (ptr.symm.trans txt) (by decide)
    · exact absurd address (not_address .ptr ptr (by decide))
  · by_cases srv : r.type = WireType.srv.code
    · simp only [handle_srv srv]
      obtain ⟨checked, settles, claimed⟩ := target_settles p s r service
      refine ⟨checked, settles, ?_⟩
      intro _ target isServed
      rw [claimed distributed (target srv)]
      exact isServed (by rw [srv]; decide)
    · by_cases txt : r.type = WireType.txt.code
      · simp only [handle_txt txt]
        exact ⟨_, txt_settles, fun _ _ isServed => isServed (by rw [txt]; decide)⟩
      · unfold handleRecord
        simp only [if_neg ptr, if_neg srv, if_neg txt]
        by_cases aaaa : r.type = WireType.aaaa.code
        · simp only [if_pos aaaa]
          exact ⟨true, address_settles, fun _ _ _ => rfl⟩
        · simp only [if_neg aaaa]
          by_cases a : r.type = WireType.a.code
          · simp only [if_pos a]
            exact ⟨true, address_settles, fun _ _ _ => rfl⟩
          · simp only [if_neg a]
            refine ⟨false, settles_ignored, ?_⟩
            rintro (is | is | is | is)
            · exact absurd is srv
            · exact absurd is txt
            · exact absurd is aaaa
            · exact absurd is a

theorem own_service {name : MdnsName} (ours : s.mdnsNameIsOurs name = true) (service : name.service ≠ []) :
    name.proto ≠ [] ∧ (s.serviceItem name.service name.proto).isSome = true := by
  unfold RxServer.mdnsNameIsOurs at ours
  split at ours
  · cases ours
  · split at ours
    · next both => exact absurd both.1 service
    · split at ours
      · cases ours
      · next some_ =>
          refine ⟨fun none_ => some_ (.inr none_), ?_⟩
          cases found : s.serviceItem name.service name.proto with
          | none =>
              rw [found] at ours
              cases ours
          | some item => rfl

theorem skipped_other (skipped : IsSkipped r) (t : WireType) : r.type ≠ t.code := by
  rcases skipped with is | is
  · rw [is]
    cases t <;> decide
  · rw [is]
    cases t <;> decide

theorem authoritative_distributed (authoritative : p.authoritative = true) : p.distributed = false := by
  have flags : p.flags = MDNS_FLAGS_AUTHORITATIVE := of_decide_eq_true authoritative
  unfold RxPacket.distributed
  rw [flags]
  decide

theorem carried_none : carried r none = none := by
  unfold carried
  split
  · rfl
  · rfl

theorem settled_alone {checked : Bool} (here : Settles (fun e => judgeRecord e p s left r) checked)
    (first : Settles (fun e => judgeRecord e p s none r) checked)
    (claimed : BearsOurName ⟨r, s, judgeRecord e p s left r⟩ → HasClaim r → checked = true) :
    JudgedAlone p ⟨r, s, judgeRecord e p s left r⟩ := by
  refine ⟨?_, ?_, ?_⟩
  · intro e'
    exact ⟨(here.used e).trans (first.used e').symm, (here.checked e).trans (first.checked e').symm⟩
  · intro id inside
    rw [here.used e] at inside
    cases inside
  · intro own claim
    exact (here.checked e).trans (claimed own claim)

theorem skipped_judged (skipped : IsSkipped r) : JudgedAlone p ⟨r, s, judgeRecord e p s left r⟩ ∧
    Carries (judgeRecord e p s left r) (searchLeftAfter p left ⟨r, s, judgeRecord e p s left r⟩) := by
  have is (e : RxEnv) (left : Option Nat) : judgeRecord e p s left r = .ignored s left := if_pos skipped
  have settles (left : Option Nat) : Settles (fun e => judgeRecord e p s left r) false := by
    simp only [is]
    exact settles_ignored
  refine ⟨settled_alone (settles _) (settles _) fun _ claim => absurd claim (not_claimed (skipped_other skipped)), ?_⟩
  rw [show searchLeftAfter p left ⟨r, s, judgeRecord e p s left r⟩ = left from if_neg fun both => both.1 skipped, is]
  exact carries_ignored

theorem own_judged (authoritative : p.authoritative = true) (skipped : ¬ IsSkipped r)
    (ours : BearsOurName ⟨r, s, judgeRecord e p s left r⟩) (apart : IsApart p left ⟨r, s, judgeRecord e p s left r⟩) :
    JudgedAlone p ⟨r, s, judgeRecord e p s left r⟩ ∧
      Carries (judgeRecord e p s left r) (searchLeftAfter p left ⟨r, s, judgeRecord e p s left r⟩) := by
  rw [show searchLeftAfter p left ⟨r, s, judgeRecord e p s left r⟩ = left from if_neg fun both => both.2.1 ours]
  have is (e : RxEnv) (left : Option Nat) : judgeRecord e p s left r =
      handleRecord e p s left r true
        (if r.name.service ≠ [] ∧ r.name.proto ≠ [] then s.serviceItem r.name.service r.name.proto else none) := by
    unfold judgeRecord
    rw [if_neg (by exact skipped), if_pos (by exact ours)]
  obtain ⟨checked, settles, claimed⟩ := own_settles p s r
    (if r.name.service ≠ [] ∧ r.name.proto ≠ [] then s.serviceItem r.name.service r.name.proto else none)
    (authoritative_distributed authoritative)
  by_cases known : r.type ∈ [WireType.ptr, .srv, .txt, .aaaa, .a].map WireType.code
  · have nothing : left = none := apart.own ours skipped known
    subst nothing
    have here : Settles (fun e => judgeRecord e p s none r) checked := by
      simp only [is]
      exact settles
    refine ⟨settled_alone here here ?_, ?_⟩
    · intro _ claim
      refine claimed claim (apart.target ours) ?_
      intro serviceType
      by_cases one : r.clas = 1
      · have service : r.name.service ≠ [] := apart.served ours serviceType one
        obtain ⟨proto, found⟩ := own_service ours.2 service
        rw [if_pos ⟨service, proto⟩]
        exact decide_eq_true (.inr found)
      · exact served_class one
    · have carries := record_carries e p s none r true
        (if r.name.service ≠ [] ∧ r.name.proto ≠ [] then s.serviceItem r.name.service r.name.proto else none)
      rw [carried_none] at carries
      rw [is]
      exact carries
  · have other (t : WireType) : r.type ≠ t.code := by
      intro itIs
      rw [itIs] at known
      cases t <;> exact known (by decide)
    have settles (left : Option Nat) : Settles (fun e => judgeRecord e p s left r) false := by
      simp only [is, not_known other]
      exact settles_ignored
    refine ⟨settled_alone (settles _) (settles _) fun _ claim => absurd claim (not_claimed other), ?_⟩
    rw [is, not_known other]
    exact carries_ignored

theorem judgeRecord_searched (authoritative : p.authoritative = true) (skipped : ¬ IsSkipped r)
    (stranger : ¬ BearsOurName ⟨r, s, judgeRecord e p s left r⟩) (authority : ¬ r.part = .ns) (e : RxEnv)
    (left : Option Nat) :
    judgeRecord e p s left r =
      match s.findSearch r.name r.type p.key with
      | .fault => ⟨[], false, .fault⟩
      | .none => handleRecord e p s none r false none
      | .found id => handleRecord e p s (some id) r false none := by
  have handled : ¬ (p.authoritative = false ∨ r.part = .ns) := by
    rintro (other | other)
    · exact absurd (authoritative.symm.trans other) (by decide)
    · exact authority other
  unfold judgeRecord
  rw [if_neg (by exact skipped), if_neg (by exact stranger), if_neg handled]
  all_goals rfl

theorem searchLeft_searched (skipped : ¬ IsSkipped r) (stranger : ¬ BearsOurName ⟨r, s, judgeRecord e p s left r⟩)
    (authority : ¬ r.part = .ns) :
    searchLeftAfter p left ⟨r, s, judgeRecord e p s left r⟩ =
      match s.findSearch r.name r.type p.key with
      | .found id => carried r (some id)
      | _ => none := by
  unfold searchLeftAfter
  rw [if_pos ⟨skipped, stranger, authority⟩]
  rfl

theorem stranger_judged (authoritative : p.authoritative = true) (skipped : ¬ IsSkipped r)
    (stranger : ¬ BearsOurName ⟨r, s, judgeRecord e p s left r⟩) : JudgedAlone p ⟨r, s, judgeRecord e p s left r⟩ ∧
      Carries (judgeRecord e p s left r) (searchLeftAfter p left ⟨r, s, judgeRecord e p s left r⟩) := by
  by_cases authority : r.part = .ns
  · have is (e : RxEnv) (left : Option Nat) : judgeRecord e p s left r = .ignored s left := by
      unfold judgeRecord
      rw [if_neg (by exact skipped), if_neg (by exact stranger), if_pos (.inr authority)]
    have settles (left : Option Nat) : Settles (fun e => judgeRecord e p s left r) false := by
      simp only [is]
      exact settles_ignored
    refine ⟨settled_alone (settles _) (settles _) fun own _ => absurd own stranger, ?_⟩
    rw [show searchLeftAfter p left ⟨r, s, judgeRecord e p s left r⟩ = left from
      if_neg fun both => both.2.2 authority, is]
    exact carries_ignored
  · have is := judgeRecord_searched authoritative skipped stranger authority
    rw [searchLeft_searched skipped stranger authority]
    cases found : s.findSearch r.name r.type p.key with
    | fault =>
        simp only [found] at is
        have settles (left : Option Nat) : Settles (fun e => judgeRecord e p s left r) false := by
          simp only [is]
          exact ⟨fun _ => rfl, fun _ => rfl⟩
        refine ⟨settled_alone (settles _) (settles _) fun own _ => absurd own stranger, ?_⟩
        rw [is]
        exact carries_fault
    | none =>
        simp only [found] at is
        have settles (left : Option Nat) : Settles (fun e => judgeRecord e p s left r) false := by
          simp only [is]
          exact stranger_settles
        refine ⟨settled_alone (settles _) (settles _) fun own _ => absurd own stranger, ?_⟩
        have carries := record_carries e p s none r false none
        rw [carried_none] at carries
        rw [is]
        exact carries
    | found id =>
        simp only [found] at is
        have serves := record_serves found
        refine ⟨⟨?_, ?_, fun own => absurd own stranger⟩, ?_⟩
        · intro e'
          dsimp only
          rw [is, is]
          exact ⟨serves.same e e', (serves.checked e).trans (serves.checked e').symm⟩
        · intro i inside
          dsimp only at inside
          rw [is] at inside
          exact serves.used e i inside
        · rw [is]
          exact record_carries e p s (some id) r false none

theorem step_judged (authoritative : p.authoritative = true) (apart : IsApart p left ⟨r, s, judgeRecord e p s left r⟩) :
    JudgedAlone p ⟨r, s, judgeRecord e p s left r⟩ ∧
      Carries (judgeRecord e p s left r) (searchLeftAfter p left ⟨r, s, judgeRecord e p s left r⟩) := by
  by_cases skipped : IsSkipped r
  · exact skipped_judged skipped
  · by_cases ours : BearsOurName ⟨r, s, judgeRecord e p s left r⟩
    · exact own_judged authoritative skipped ours apart
    · exact stranger_judged authoritative skipped ours

end

/-! ## The message -/

section
variable {e : Nat → RxEnv} {p : RxPacket}

theorem records_judged {fuel content recordIndex : Nat} {s : RxServer} {left : Option Nat}
    (authoritative : p.authoritative = true)
    (apart : ∀ before step after, (recordsFrom e p fuel content recordIndex s left).1 = before ++ step :: after →
      IsApart p (before.foldl (searchLeftAfter p) left) step) :
    ∀ step ∈ (recordsFrom e p fuel content recordIndex s left).1, JudgedAlone p step := by
  induction fuel generalizing content recordIndex s left with
  | zero => exact fun _ inside => absurd inside List.not_mem_nil
  | succ fuel ih =>
      unfold recordsFrom at apart ⊢
      by_cases ended : content ≥ p.len
      · rw [if_pos ended]
        exact fun _ inside => absurd inside List.not_mem_nil
      · rw [if_neg ended] at apart ⊢
        cases read : p.readRecord content recordIndex with
        | outside => exact fun _ inside => absurd inside List.not_mem_nil
        | stop => exact fun _ inside => absurd inside List.not_mem_nil
        | ok next r =>
            simp only [read] at apart ⊢
            obtain ⟨judged, carries⟩ := step_judged authoritative (apart [] _ _ rfl)
            intro step inside
            rcases List.mem_cons.mp inside with rfl | later
            · exact judged
            · cases goesOn : (judgeRecord (e recordIndex) p s left r).next with
              | fault =>
                  simp only [goesOn] at later
                  cases later
              | clear s' =>
                  simp only [goesOn] at later
                  cases later
              | go s' left' =>
                  simp only [goesOn] at later apart
                  refine ih ?_ step later
                  intro before other after parts
                  have is := carries.next s' left' goesOn
                  rw [is] at parts ⊢
                  exact apart (_ :: before) other after (by rw [is, parts]; rfl)

theorem judged_alone (e : Nat → RxEnv) (p : RxPacket) (s : RxServer) (authoritative : p.authoritative = true)
    (apart : ∀ before step after, (mdnsParsePacket e p s).1 = before ++ step :: after →
      IsApart p (searchLeft p before) step) : ∀ step ∈ (mdnsParsePacket e p s).1, JudgedAlone p step := by
  have records : (mdnsParsePacket e p s).1 = [] ∨
      (mdnsParsePacket e p s).1 = (recordsFrom e p (p.len + 1) MDNS_HEAD_LEN 0 s none).1 := by
    unfold mdnsParsePacket
    split
    · exact .inl rfl
    · split
      · refine .inr ?_
        split
        · next done => rw [done]
        · rfl
      · exact .inl rfl
  rcases records with none_ | all
  · rw [none_]
    exact fun _ inside => absurd inside List.not_mem_nil
  · rw [all] at apart ⊢
    exact records_judged authoritative apart

end

def allApart (p : RxPacket) : Option Nat → List RxStep → Bool
  | _, [] => true
  | left, step :: rest =>
      (!decide (BearsOurName step) || left = none &&
        (step.record.type ∉ [WireType.srv, .txt].map WireType.code || step.record.name.service ≠ []) &&
        (step.record.type ≠ WireType.srv.code || HasTarget p step.record)) &&
        allApart p (searchLeftAfter p left step) rest

theorem apart_of_all {p : RxPacket} {left : Option Nat} {steps : List RxStep} (all : allApart p left steps = true) :
    ∀ before step after, steps = before ++ step :: after → IsApart p (before.foldl (searchLeftAfter p) left) step := by
  induction steps generalizing left with
  | nil =>
      intro before step after parts
      exact absurd (congrArg List.length parts) (by simp)
  | cons first rest ih =>
      intro before step after parts
      unfold allApart at all
      obtain ⟨here, later⟩ := Bool.and_eq_true_iff.mp all
      cases before with
      | nil =>
          cases parts
          simp only [Bool.or_eq_true, Bool.not_eq_true', decide_eq_false_iff_not, Bool.and_eq_true, decide_eq_true_eq]
            at here
          refine ⟨?_, ?_, ?_⟩
          · intro own _ _
            rcases here with other | ⟨⟨nothing, _⟩, _⟩
            · exact absurd own other
            · exact nothing
          · intro own serviceType _
            rcases here with other | ⟨⟨_, other | service⟩, _⟩
            · exact absurd own other
            · exact absurd serviceType other
            · exact service
          · intro own srv
            rcases here with other | ⟨_, other | target⟩
            · exact absurd own other
            · exact absurd srv other
            · exact target
      | cons other before =>
          obtain ⟨same, others⟩ := List.cons.inj parts
          subst same
          exact ih later before step after others

def someInstance : List (BitVec 8) :=
  [2, 95, 104, 2, 95, 116, 5, 108, 111, 99, 97, 108, 0, 0, 12, 0, 1, 0, 0, 0, 120, 0, 4, 1, 97, 192, 12]

def deniedHost : List (BitVec 8) := [1, 101, 5, 108, 111, 99, 97, 108, 0, 0, 1, 0, 1, 0, 0, 0, 120, 0, 4, 0, 0, 0, 0]

def twoAnswers (records : List (BitVec 8)) : RxPacket where
  key := ⟨.sta, .v4⟩
  src_port := MDNS_SERVICE_PORT
  mem := Memory.store (fun _ => 0) 0 ([0, 0, 132, 0, 0, 0, 0, 2, 0, 0, 0, 0] ++ records)
  len := 12 + records.length
  asksNothing := ⟨by rfl, by rfl⟩

def askingHost : RxServer where
  names := ⟨[101], [], fun _ => ⟨true, false, false, false, some 0x0100A8C0, none⟩⟩
  services := []
  search_once := [⟨0, .running, WireType.ptr.code, none, some [95, 104], some [95, 116], 0, 0, []⟩]
  responder := ⟨true, fun _ => ⟨.running, true, [], false, false, 0, none⟩, [], [], 0, 0, []⟩

def noChance : Nat → RxEnv := fun _ => ⟨fun _ => 0, fun _ => .all, fun _ => 0⟩

theorem judged_alone_hostFirst :
    (mdnsParsePacket noChance (twoAnswers (deniedHost ++ someInstance)) askingHost).1.length = 2 ∧
    ∀ step ∈ (mdnsParsePacket noChance (twoAnswers (deniedHost ++ someInstance)) askingHost).1,
      JudgedAlone (twoAnswers (deniedHost ++ someInstance)) step :=
  ⟨by decide,
    judged_alone noChance _ askingHost (by decide) (apart_of_all (by decide))⟩

/-- The address of our own name goes to the search for instances, and is not compared with ours. -/
theorem host_goes_to_search :
    (mdnsParsePacket noChance (twoAnswers (someInstance ++ deniedHost)) askingHost).1.map
      (fun step => (step.record.type, step.handled.used, step.handled.checked)) =
        [(WireType.ptr.code, [0], false), (WireType.a.code, [0], false)] ∧
    ¬ ∀ step ∈ (mdnsParsePacket noChance (twoAnswers (someInstance ++ deniedHost)) askingHost).1,
      JudgedAlone (twoAnswers (someInstance ++ deniedHost)) step := by
  refine ⟨by decide, ?_⟩
  intro all
  have missed : ((mdnsParsePacket noChance (twoAnswers (someInstance ++ deniedHost)) askingHost).1.any fun step =>
      decide (BearsOurName step ∧ IsAddress step.record) && !step.handled.checked) = true := by decide
  obtain ⟨step, inside, is⟩ := List.any_eq_true.mp missed
  obtain ⟨own, unchecked⟩ := Bool.and_eq_true_iff.mp is
  have both := of_decide_eq_true own
  rw [(all step inside).checked both.1 (.inr (.inr both.2))] at unchecked
  cases unchecked

end EspFirmware.Proof.Mdns
