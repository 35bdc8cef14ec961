import EspFirmware.Proof.Net.Leases
import Mathlib.Data.List.Nodup

/-!
Every message leaves the leases in order and is answered with the client's own address.
-/

namespace EspFirmware.Proof.Net
open EspFirmware.Lib Memory EspFirmware.Net EspFirmware.Spec

theorem parseLoop_type (m : Memory) (client client' : Ip4Addr) (end_ : Int) (optptr : Nat) (type : BitVec 8)
    (state state' : DhcpsState) :
    (parseLoop m client end_ optptr type state).1 = (parseLoop m client' end_ optptr type state').1 := by
  fun_induction parseLoop m client end_ optptr type state generalizing state' with
  | case1 optptr type state inside atEnd =>
      rw [parseLoop, dif_pos inside, if_pos atEnd]
  | case2 optptr type state inside notEnd ih =>
      conv_rhs => rw [parseLoop, dif_pos inside, if_neg notEnd]
      exact ih _
  | case3 optptr type state outside =>
      rw [parseLoop, dif_neg outside]

theorem parseLoop_state (m : Memory) (client : Ip4Addr) (end_ : Int) (optptr : Nat) (type : BitVec 8)
    {state : DhcpsState} (started : state ≠ .release) : (parseLoop m client end_ optptr type state).2 ≠ .release := by
  fun_induction parseLoop m client end_ optptr type state with
  | case1 => exact started
  | case2 optptr type state inside notEnd ih =>
      apply ih
      split
      · split <;> exact nofun
      · exact started
  | case3 => exact started

section
variable (s : Dhcps) (m : Memory) (len : BitVec 16)

theorem parseOptions_discover (discover : (parseLoop m s.clientAddress (((OPTIONS + 4 : Nat) : Int) + len.toInt)
    (OPTIONS + 4) 0 .idle).1 = DHCPDISCOVER) : parseOptions s m (OPTIONS + 4) len = .offer := by
  unfold parseOptions
  exact if_pos discover

theorem parseOptions_release (release : parseOptions s m (OPTIONS + 4) len = .release) :
    (parseLoop m s.clientAddress (((OPTIONS + 4 : Nat) : Int) + len.toInt) (OPTIONS + 4) 0 .idle).1 = DHCPRELEASE := by
  have state := parseLoop_state m s.clientAddress (((OPTIONS + 4 : Nat) : Int) + len.toInt) (OPTIONS + 4) 0
    (show DhcpsState.idle ≠ .release from nofun)
  unfold parseOptions at release
  dsimp only at release
  split at release
  · cases release
  split at release
  · split at release
    · exact absurd release state
    · split at release <;> cases release
  split at release
  · cases release
  split at release
  · assumption
  · exact absurd release state

end

section
variable (s : Dhcps) (m : Memory)

theorem createMsg_yiaddr : load32 (createMsg s m) YIADDR = s.clientAddress := by
  have stored := load32_store32 (store (store (store m 0 [DHCP_REPLY, DHCP_HTYPE_ETHERNET, 6, 0]) SECS [0, 0]) FLAGS
    [0x80, 0x00]) YIADDR s.clientAddress
  rw [← stored]
  apply load32_congr
  intro x low high
  simp only [YIADDR] at low high
  unfold createMsg
  rw [store32_other _ _ (by simp only [OPTIONS]; omega), fill_other _ _ (by simp only [OPTIONS]; omega),
    fill_other _ _ (by simp only [FILE]; omega), fill_other _ _ (by simp only [SNAME]; omega),
    fill_other _ _ (by simp only [GIADDR]; omega), fill_other _ _ (by simp only [SIADDR]; omega),
    fill_other _ _ (by simp only [CIADDR]; omega)]

theorem createMsg_chaddr : chaddrMac (createMsg s m) = chaddrMac m := by
  apply load_congr
  intro x low high
  simp only [CHADDR] at low high
  unfold createMsg
  rw [store32_other _ _ (by simp only [OPTIONS]; omega), fill_other _ _ (by simp only [OPTIONS]; omega),
    fill_other _ _ (by simp only [FILE]; omega), fill_other _ _ (by simp only [SNAME]; omega),
    fill_other _ _ (by simp only [GIADDR]; omega), fill_other _ _ (by simp only [SIADDR]; omega),
    fill_other _ _ (by simp only [CIADDR]; omega), store32_other _ _ (by simp only [YIADDR]; omega),
    store_other _ (by simp [FLAGS]; omega), store_other _ (by simp [SECS]; omega), store_other _ (by simp; omega)]

def answered (type : BitVec 8) (options : List (BitVec 8)) : Memory :=
  store (createMsg s m) (OPTIONS + 4) (addMsgType type ++ options)

variable {s m} {type : BitVec 8} {options : List (BitVec 8)}

theorem answered_type : answered s m type options (OPTIONS + 6) = type := by
  unfold answered store
  rw [if_pos ⟨by omega, by simp only [addMsgType, List.length_append, List.length_cons]; omega⟩]
  rfl

theorem answered_other {x : Nat} (before : x < OPTIONS + 4) : answered s m type options x = createMsg s m x :=
  store_other _ (Or.inl before)

theorem answered_yiaddr : load32 (answered s m type options) YIADDR = s.clientAddress := by
  rw [← createMsg_yiaddr s m]
  apply load32_congr
  intro x low high
  simp only [YIADDR] at low high
  exact answered_other (by simp only [OPTIONS]; omega)

theorem answered_chaddr : chaddrMac (answered s m type options) = chaddrMac m := by
  rw [← createMsg_chaddr s m]
  apply load_congr
  intro x low high
  simp only [CHADDR] at low high
  exact answered_other (by simp only [OPTIONS]; omega)

end

section
variable (s : Dhcps) (m : Memory) (len : Nat)

theorem sendOffer_message : (sendOffer s m len).message = answered s m DHCPOFFER (addOfferOptions s ++ addEnd) := by
  rw [answered, ← List.append_assoc, sendOffer, dhcpsPbufAlloc]

theorem sendAck_message : (sendAck s m len).message = answered s m DHCPACK (addOfferOptions s ++ addEnd) := by
  rw [answered, ← List.append_assoc, sendAck, dhcpsPbufAlloc]

theorem sendNak_message : (sendNak s m len).message = answered s m DHCPNAK addEnd := by
  rw [answered, sendNak, dhcpsPbufAlloc]

theorem sendOffer_type : Sent.type (sendOffer s m len) = DHCPOFFER := by
  rw [Sent.type, sendOffer_message, answered_type]

end

def answer (s : Dhcps) (m : Memory) (len : Nat) : Option DhcpsState → Option Sent
  | some .offer => some (sendOffer s m len)
  | some .ack => some (sendAck s m len)
  | some .nak => some (sendNak s m len)
  | _ => none

theorem answer_cases {s : Dhcps} {m : Memory} {len : Nat} {state : Option DhcpsState} {sent : Sent}
    (eq : answer s m len state = some sent) :
    ∃ type options, sent.message = answered s m type options ∧ (state = some .nak → type = DHCPNAK) := by
  unfold answer at eq
  split at eq
  · cases eq
    exact ⟨DHCPOFFER, _, sendOffer_message s m len, nofun⟩
  · cases eq
    exact ⟨DHCPACK, _, sendAck_message s m len, nofun⟩
  · cases eq
    exact ⟨DHCPNAK, _, sendNak_message s m len, fun _ => rfl⟩
  · cases eq

structure Range (net low high : Nat) (start : Dhcps) : Prop where
  startIp : Within net low low start.dhcpsPoll.startIp
  endIp : Within net high high start.dhcpsPoll.endIp
  order : low ≤ high
  server : host start.serverAddress < low ∨ high < host start.serverAddress

structure DhcpsInv (net low high : Nat) (start s : Dhcps) : Prop where
  poll : s.dhcpsPoll = start.dhcpsPoll
  cursor : Within net low (high + 1) s.clientAddressPlus
  leases : LeasesInv net low high s.allocated (leases s.plist)

/-- A number that the cursor does not get beyond, as no lease has it: that of a free address, or the one after the
range. -/
structure Ahead (high : Nat) (s : Dhcps) (limit : Nat) : Prop where
  cursor : host s.clientAddressPlus ≤ limit
  top : limit ≤ 255
  range : limit ≤ high + 1
  free : ∀ n ∈ s.plist, host n.pnode.ip ≠ limit

def HasRoom (high : Nat) (s : Dhcps) (mac : List (BitVec 8)) : Prop :=
  (∀ n ∈ s.plist, n.pnode.mac ≠ mac) → ∃ limit, Ahead high s limit

section
variable {net low high : Nat} {start s : Dhcps} {m : Memory} {len : BitVec 16}

theorem DhcpsInv.within (inv : DhcpsInv net low high start s) : ∀ n ∈ s.plist, Within net low high n.pnode.ip :=
  fun n member => inv.leases.within (leaseOf n) (List.mem_map_of_mem member)

theorem DhcpsInv.sorted (inv : DhcpsInv net low high start s) :
    (s.plist.map fun n => host n.pnode.ip).Pairwise (· < ·) := by
  have sorted := inv.leases.sorted
  unfold Net.leases at sorted
  rw [List.map_map] at sorted
  exact sorted

theorem DhcpsInv.shrunk (inv : DhcpsInv net low high start s) {s' : Dhcps} (poll : s'.dhcpsPoll = s.dhcpsPoll)
    (cursor : s'.clientAddressPlus = s.clientAddressPlus) (allocated : s'.allocated = s.allocated)
    (part : (Net.leases s'.plist).Sublist (Net.leases s.plist)) : DhcpsInv net low high start s' := by
  refine ⟨poll.trans inv.poll, ?_, ?_⟩
  · rw [cursor]
    exact inv.cursor
  · rw [allocated]
    exact inv.leases.sublist part

theorem within_of_inRange (range : Range net low high start) {a : Ip4Addr} (inRange : InRange start.dhcpsPoll a) :
    Within net low high a := by
  obtain ⟨above, below⟩ := inRange
  have first := range.startIp
  have last := range.endIp
  have number : networkNumber start.dhcpsPoll.startIp = networkNumber start.dhcpsPoll.endIp := by
    rw [networkNumber, networkNumber, first.network, last.network]
  have atStart := first.high
  have atStart' := first.low
  have atEnd := last.high
  have atEnd' := last.low
  have small := host_lt a
  have endSmall := host_lt start.dhcpsPoll.endIp
  rw [addressOf_eq, addressOf_eq] at above below
  have same : networkNumber a = networkNumber start.dhcpsPoll.startIp := by omega
  exact ⟨(network_eq_of_number same).trans first.network, by omega, by omega⟩

theorem inRange_of_within (range : Range net low high start) {a : Ip4Addr} (within : Within net low high a) :
    InRange start.dhcpsPoll a := by
  have first := range.startIp
  have last := range.endIp
  have atStart := first.high
  have atEnd := last.low
  have bottom := within.low
  have top := within.high
  exact ⟨(first.addressOf_le_iff within).mpr (by omega), (within.addressOf_le_iff last).mpr (by omega)⟩

theorem passes_check (range : Range net low high start) (positive : 0 < low) {a : Ip4Addr}
    (within : Within net low high a) :
    ¬ (a > start.dhcpsPoll.endIp ∨ a = 0) := by
  have top := within.high
  have last := range.endIp.low
  rintro (above | zero)
  · have := (range.endIp.lt_iff within).mp above
    omega
  · have bottom := within.low
    rw [zero, host] at bottom
    simp only [BitVec.ofNat_eq_ofNat, BitVec.toNat_ofNat] at bottom
    omega

def candidate (s : Dhcps) (search : Search) : Ip4Addr :=
  if search.clientAddressPlus > s.dhcpsPoll.endIp then search.firstAddress
  else if s.plist = [] then s.dhcpsPoll.startIp
  else search.clientAddress

theorem candidate_spec (range : Range net low high start) (inv : DhcpsInv net low high start s) {limit : Nat}
    (ahead : Ahead high s limit) {mac : List (BitVec 8)} {search : Search} (result : searchPool mac s.plist
      ⟨s.clientAddressPlus, s.clientAddressPlus, s.dhcpsPoll.startIp, false⟩ = (search, none)) :
    Within net low (high + 1) (candidate s search) ∧
      host (candidate s search) ∉ (s.plist.map fun n => host n.pnode.ip) ∧
      (high < host (candidate s search) →
        ∀ y, low ≤ y → y ≤ high → y ∈ s.plist.map fun n => host n.pnode.ip) := by
  have within := inv.within
  have nets := fun n member => (within n member).network
  have none_ := congrArg Prod.snd result
  have order := range.order
  have startNetwork : network s.dhcpsPoll.startIp = net := by
    rw [inv.poll]
    exact range.startIp.network
  have startHost : host s.dhcpsPoll.startIp = low := by
    rw [inv.poll]
    exact Nat.le_antisymm range.startIp.high range.startIp.low
  have cursor := @searchPool_cursor net limit ⟨s.clientAddressPlus, s.clientAddressPlus, s.dhcpsPoll.startIp, false⟩
    s.plist mac nets (fun n member _ => ahead.free n member) ahead.top inv.cursor.network ahead.cursor
  have skipped := searchPool_skip nets ahead.free ahead.top inv.cursor.network ahead.cursor rfl none_
  rw [result] at cursor skipped
  dsimp only at cursor skipped
  have hosts : ∀ x ∈ s.plist.map (fun n => host n.pnode.ip), low ≤ x ∧ x < high + 1 := by
    intro x member
    obtain ⟨n, listed, rfl⟩ := List.mem_map.mp member
    have bottom := (within n listed).low
    have top := (within n listed).high
    omega
  have above : ∀ x ∈ s.plist.map (fun n => host n.pnode.ip), low ≤ x := fun x member => (hosts x member).1
  have endHost := range.endIp.high
  have endHost' := range.endIp.low
  have beyond := range.endIp.lt_iff cursor
  rw [← inv.poll] at beyond endHost endHost'
  unfold candidate
  by_cases wrapped : search.clientAddressPlus > s.dhcpsPoll.endIp
  · have outside := beyond.mp wrapped
    have bound := cursor.high
    have top := ahead.top
    have gap := searchPool_firstGap within (by omega) inv.sorted startNetwork
      (fun n member => by rw [startHost]; exact (within n member).low) none_
    rw [result] at gap
    dsimp only at gap
    rw [if_neg Bool.false_ne_true, startHost] at gap
    rw [if_pos wrapped, gap.2]
    have bottom := le_firstGap (s.plist.map fun n => host n.pnode.ip) low
    have top := firstGap_le inv.sorted above (fun x member => (hosts x member).2) (by omega)
    refine ⟨⟨gap.1, by omega, by omega⟩, firstGap_not_mem inv.sorted above, ?_⟩
    intro full y lowest highest
    exact mem_of_lt_firstGap inv.sorted above lowest (by omega)
  · have inside := beyond.not.mp wrapped
    rw [if_neg wrapped]
    by_cases empty : s.plist = []
    · rw [if_pos empty, startHost, empty]
      refine ⟨⟨startNetwork, by omega, by omega⟩, List.not_mem_nil, fun far => ?_⟩
      omega
    · rw [if_neg empty, skipped.1]
      have low_ := cursor.low
      have bottom := inv.cursor.low
      refine ⟨⟨cursor.network, by omega, by omega⟩, ?_, fun far => ?_⟩
      · rw [skipped.2]
        exact skip_not_mem inv.sorted _
      · omega

theorem searchPool_own (inv : DhcpsInv net low high start s) {mac : List (BitVec 8)} {own : ListNode}
    (listed : own ∈ s.plist) (mine : own.pnode.mac = mac) :
    Within net low (high + 1) (searchPool mac s.plist
      ⟨s.clientAddressPlus, s.clientAddressPlus, s.dhcpsPoll.startIp, false⟩).1.clientAddressPlus := by
  have nets := fun n member => (inv.within n member).network
  by_cases before : host own.pnode.ip < host s.clientAddressPlus
  · rw [searchPool_before nets inv.sorted inv.cursor.network listed mine before]
    exact inv.cursor
  · -- no other client has its address
    have distinct : (s.plist.map fun n => host n.pnode.ip).Nodup := inv.sorted.imp Nat.ne_of_lt
    have free (n : ListNode) (member : n ∈ s.plist) (other : n.pnode.mac ≠ mac) :
        host n.pnode.ip ≠ host own.pnode.ip := by
      intro same
      have equal := List.inj_on_of_nodup_map distinct member listed same
      exact other (equal ▸ mine)
    have small := host_lt own.pnode.ip
    have cursor := @searchPool_cursor net _ ⟨s.clientAddressPlus, s.clientAddressPlus, s.dhcpsPoll.startIp, false⟩
      s.plist mac nets free (by omega) inv.cursor.network (by dsimp only; omega)
    have bottom := inv.cursor.low
    have top := (inv.within own listed).high
    have low_ := cursor.low
    have high_ := cursor.high
    dsimp only at low_
    exact ⟨cursor.network, by omega, by omega⟩

theorem parseMsg_cases (range : Range net low high start) (inv : DhcpsInv net low high start s)
    (hasRoom : HasRoom high s (chaddrMac m)) (cookie : load32 m OPTIONS = MAGIC_COOKIE) :
    (∃ s' pnode, parseMsg s m len = poolCheck s' m len pnode ∧ DhcpsInv net low high start s' ∧
      Leased s' (chaddrMac m) s'.clientAddress) ∨
    (∃ s', parseMsg s m len = poolCheck s' m len none ∧ DhcpsInv net low high start s' ∧ s'.plist = s.plist ∧
      s'.clientAddress > s'.dhcpsPoll.endIp ∧ AllLeased s start.dhcpsPoll) := by
  have within := inv.within
  have order := range.order
  unfold parseMsg
  rw [if_pos cookie]
  rcases result : searchPool (chaddrMac m) s.plist
      ⟨s.clientAddressPlus, s.clientAddressPlus, s.dhcpsPoll.startIp, false⟩ with ⟨search, _ | n⟩
  · have newMac := searchPool_none (congrArg Prod.snd result)
    obtain ⟨limit, ahead⟩ := hasRoom newMac
    obtain ⟨place, free, full⟩ := candidate_spec range inv ahead result
    have endHost := range.endIp.high
    have endHost' := range.endIp.low
    have bottom := place.low
    have top := place.high
    have beyond := range.endIp.lt_iff place
    have atEnd := place.eq_iff range.endIp
    rw [← inv.poll] at beyond atEnd endHost endHost'
    have start_ := range.startIp
    rw [← inv.poll] at start_
    dsimp only
    rw [← candidate]
    by_cases far : candidate s search > s.dhcpsPoll.endIp
    · have outside := beyond.mp far
      rw [if_pos far]
      refine .inr ⟨_, rfl, ⟨inv.poll, ⟨start_.network, start_.low, ?_⟩, inv.leases⟩, rfl, far, ?_⟩
      · dsimp only
        have := start_.high
        omega
      · intro a inRange
        have here := within_of_inRange range inRange
        obtain ⟨n, listed, same⟩ := List.mem_map.mp (full (by omega) (host a) here.low here.high)
        exact ⟨n.pnode.mac, n, listed, rfl, ((within n listed).eq_iff here).mpr same⟩
    · have inside := beyond.not.mp far
      have new : Within net low high (candidate s search) := ⟨place.network, bottom, by omega⟩
      rw [if_neg far]
      refine .inl ⟨_, _, rfl, ⟨inv.poll, ?_, ?_⟩, ?_⟩
      · dsimp only
        split
        · exact ⟨start_.network, start_.low, by have := start_.high; omega⟩
        · rename_i notLast
          have := atEnd.not.mp notLast
          have endSmall := host_lt s.dhcpsPoll.endIp
          have next := @next_host (candidate s search) (by omega)
          exact ⟨next.1.trans place.network, by omega, by omega⟩
      · exact inv.leases.inserted new free newMac
      · refine ⟨_, (nodeInsertToList_perm _ _).mem_iff.mpr List.mem_cons_self, rfl, rfl⟩
  · obtain ⟨member, mine⟩ := searchPool_some (congrArg Prod.snd result)
    have cursor := searchPool_own inv member mine
    rw [result] at cursor
    refine .inl ⟨_, _, rfl, ⟨inv.poll, cursor, ?_⟩, ?_⟩
    · rw [leases_setLeaseTimer]
      exact inv.leases
    · obtain ⟨n', listed, same⟩ : ∃ n' ∈ setLeaseTimer n.address (leaseTimer s) s.plist, leaseOf n' = leaseOf n := by
        have listed : leaseOf n ∈ leases (setLeaseTimer n.address (leaseTimer s) s.plist) := by
          rw [leases_setLeaseTimer]
          exact List.mem_map_of_mem member
        exact List.mem_map.mp listed
      injection same with _ sameIp sameMac
      exact ⟨n', listed, sameMac.trans mine, sameIp⟩

theorem leases_removeNode (s : Dhcps) (pnode : Option Nat) :
    (leases (removeNode s pnode).plist).Sublist (leases s.plist) := by
  cases pnode with
  | none => exact List.Sublist.refl _
  | some address => exact leases_removed address s.plist

theorem DhcpsInv.removed (inv : DhcpsInv net low high start s) (pnode : Option Nat) :
    DhcpsInv net low high start (removeNode s pnode) := by
  apply inv.shrunk
  · cases pnode <;> rfl
  · cases pnode <;> rfl
  · cases pnode <;> rfl
  · exact leases_removeNode s pnode

theorem poolCheck_inv (inv : DhcpsInv net low high start s) (pnode : Option Nat) :
    DhcpsInv net low high start (poolCheck s m len pnode).1 := by
  unfold poolCheck
  dsimp only
  split
  · exact inv.removed pnode
  · split
    · exact (inv.removed pnode).shrunk rfl rfl rfl (List.Sublist.refl _)
    · exact inv

theorem parseMsg_inv (range : Range net low high start) (inv : DhcpsInv net low high start s)
    (hasRoom : HasRoom high s (chaddrMac m)) (cookie : load32 m OPTIONS = MAGIC_COOKIE) :
    DhcpsInv net low high start (parseMsg s m len).1 := by
  rcases @parseMsg_cases net low high start s m len range inv hasRoom cookie with
    ⟨s', pnode, eq, after, -⟩ | ⟨s', eq, after, -⟩
  · rw [eq]
    exact poolCheck_inv after pnode
  · rw [eq]
    exact poolCheck_inv after none

inductive Outcome (net low high : Nat) (start s : Dhcps) (m : Memory) (len : BitVec 16) : Dhcps × Option DhcpsState → Prop
  | served (s' : Dhcps) (leased : Leased s' (chaddrMac m) s'.clientAddress)
      (kept : parseOptions s' m (OPTIONS + 4) len ≠ .release) :
      Outcome net low high start s m len (s', some (parseOptions s' m (OPTIONS + 4) len))
  | released (s₁ s' : Dhcps) (release : parseOptions s₁ m (OPTIONS + 4) len = .release) :
      Outcome net low high start s m len (s', some .release)
  | refused (s' : Dhcps) (full : AllLeased s start.dhcpsPoll) : Outcome net low high start s m len (s', some .nak)

theorem parseMsg_outcome (range : Range net low high start) (positive : 0 < low) (inv : DhcpsInv net low high start s)
    (hasRoom : HasRoom high s (chaddrMac m)) (cookie : load32 m OPTIONS = MAGIC_COOKIE) :
    Outcome net low high start s m len (parseMsg s m len) := by
  rcases @parseMsg_cases net low high start s m len range inv hasRoom cookie with
    ⟨s', pnode, eq, after, leased⟩ | ⟨s', eq, after, same, far, full⟩
  · have passes : ¬ (s'.clientAddress > s'.dhcpsPoll.endIp ∨ s'.clientAddress = 0) := by
      obtain ⟨n, listed, -, ip⟩ := leased
      rw [after.poll, ← ip]
      exact passes_check range positive (after.within n listed)
    rw [eq, poolCheck, if_neg passes]
    dsimp only
    split
    · rename_i release
      rw [release]
      exact .released s' _ release
    · rename_i kept
      exact .served s' leased kept
  · rw [eq, poolCheck, if_pos (.inl far)]
    exact .refused _ full

theorem handleDhcp_eq (s : Dhcps) {p : Pbuf} (after : Memory) (fits : 0 ≤ p.mallocLen) :
    handleDhcp s p after =
      let result := parseMsg s (p.message after) (BitVec.ofInt 16 (p.totLen.toInt - 240))
      (result.1, answer result.1 (p.message after) p.mallocLen.toNat result.2) := by
  unfold handleDhcp
  rw [if_neg (by omega)]
  dsimp only
  rcases parseMsg s (p.message after) (BitVec.ofInt 16 (p.totLen.toInt - 240)) with ⟨s', _ | state⟩
  · rfl
  · cases state <;> rfl

theorem optionsEnd {p : Pbuf} (fits : 0 ≤ p.mallocLen) :
    ((OPTIONS + 4 : Nat) : Int) + (BitVec.ofInt 16 (p.totLen.toInt - 240)).toInt = p.totLen.toInt := by
  have small := p.totLen.isLt
  have positive : 0 ≤ p.totLen.toInt ∧ p.totLen.toInt < 2 ^ 15 := by
    unfold Pbuf.mallocLen MSG_SIZE at fits
    rw [BitVec.toInt_eq_toNat_cond] at fits ⊢
    split at fits <;> split <;> omega
  rw [BitVec.toInt_ofInt, Int.bmod_eq_of_le (by omega) (by omega)]
  simp only [OPTIONS]
  omega

theorem handleDhcp_inv (range : Range net low high start) (inv : DhcpsInv net low high start s) (p : Pbuf)
    (after : Memory) (hasRoom : Accepted p after → HasRoom high s (chaddrMac (p.message after))) :
    DhcpsInv net low high start (handleDhcp s p after).1 := by
  by_cases fits : 0 ≤ p.mallocLen
  · rw [handleDhcp_eq s after fits]
    dsimp only
    by_cases cookie : load32 (p.message after) OPTIONS = MAGIC_COOKIE
    · exact parseMsg_inv range inv (hasRoom ⟨fits, cookie⟩) cookie
    · rw [parseMsg, if_neg cookie]
      exact inv
  · unfold handleDhcp
    rw [if_pos (by omega)]
    exact inv

theorem parsedType {p : Pbuf} (after : Memory) (fits : 0 ≤ p.mallocLen) (client : Ip4Addr) :
    (parseLoop (p.message after) client
      (((OPTIONS + 4 : Nat) : Int) + (BitVec.ofInt 16 (p.totLen.toInt - 240)).toInt) (OPTIONS + 4) 0 .idle).1 =
      messageType p after := by
  rw [optionsEnd fits, messageType]
  exact parseLoop_type _ _ _ _ _ _ _ _

theorem answerOk_of_inv (range : Range net low high start) (positive : 0 < low) (inv : DhcpsInv net low high start s)
    (p : Pbuf) (after : Memory) (hasRoom : HasRoom high s (chaddrMac (p.message after))) : AnswerOk start s p after := by
  constructor
  · intro sent eq type
    by_cases fits : 0 ≤ p.mallocLen
    · rw [handleDhcp_eq s after fits] at eq ⊢
      dsimp only at eq ⊢
      by_cases cookie : load32 (p.message after) OPTIONS = MAGIC_COOKIE
      · have outcome := @parseMsg_outcome net low high start s _ (BitVec.ofInt 16 (p.totLen.toInt - 240)) range positive
          inv hasRoom cookie
        generalize parseMsg s (p.message after) (BitVec.ofInt 16 (p.totLen.toInt - 240)) = result at outcome eq ⊢
        obtain ⟨sentType, options, message, nak⟩ := answer_cases eq
        have isType : sentType = DHCPOFFER ∨ sentType = DHCPACK := by
          rw [Sent.type, message, answered_type] at type
          exact type
        rw [Sent.yiaddr, message, answered_yiaddr, answered_chaddr]
        cases outcome with
        | served s' leased kept => exact ⟨rfl, leased⟩
        | released s₁ s' release => cases eq
        | refused s' full =>
            rw [nak rfl] at isType
            rcases isType with offer | ack
            · cases offer
            · cases ack
      · rw [parseMsg, if_neg cookie] at eq
        cases eq
    · unfold handleDhcp at eq
      rw [if_pos (by omega)] at eq
      cases eq
  · rintro ⟨fits, cookie⟩ notRelease - noLease
    rw [handleDhcp_eq s after fits] at noLease
    dsimp only at noLease
    have outcome := @parseMsg_outcome net low high start s _ (BitVec.ofInt 16 (p.totLen.toInt - 240)) range positive
          inv hasRoom cookie
    generalize parseMsg s (p.message after) (BitVec.ofInt 16 (p.totLen.toInt - 240)) = result at outcome noLease
    cases outcome with
    | served s' leased kept => exact absurd leased (noLease _)
    | released s₁ s' release =>
        have type := parseOptions_release s₁ _ _ release
        rw [parsedType after fits] at type
        exact absurd type notRelease
    | refused s' full => exact full
  · rintro ⟨fits, cookie⟩ discover notFull
    rw [handleDhcp_eq s after fits]
    dsimp only
    have outcome := @parseMsg_outcome net low high start s _ (BitVec.ofInt 16 (p.totLen.toInt - 240)) range positive
          inv hasRoom cookie
    generalize parseMsg s (p.message after) (BitVec.ofInt 16 (p.totLen.toInt - 240)) = result at outcome
    have offer (s' : Dhcps) : parseOptions s' (p.message after) (OPTIONS + 4)
        (BitVec.ofInt 16 (p.totLen.toInt - 240)) = .offer :=
      parseOptions_discover s' _ _ ((parsedType after fits s'.clientAddress).trans discover)
    cases outcome with
    | served s' leased kept =>
        dsimp only
        rw [offer s']
        exact ⟨sendOffer s' (p.message after) p.mallocLen.toNat, rfl, sendOffer_type _ _ _⟩
    | released s₁ s' release =>
        rw [offer s₁] at release
        cases release
    | refused s' full => exact absurd full notFull

theorem dhcpsCoarseTmr_inv (inv : DhcpsInv net low high start s) : DhcpsInv net low high start (dhcpsCoarseTmr s) := by
  have killed (s : Dhcps) : (killOldestDhcpsPool s).dhcpsPoll = s.dhcpsPoll ∧
      (killOldestDhcpsPool s).clientAddressPlus = s.clientAddressPlus ∧
      (killOldestDhcpsPool s).allocated = s.allocated := by
    unfold killOldestDhcpsPool
    split <;> exact ⟨rfl, rfl, rfl⟩
  have same : (dhcpsCoarseTmr s).dhcpsPoll = s.dhcpsPoll ∧
      (dhcpsCoarseTmr s).clientAddressPlus = s.clientAddressPlus ∧ (dhcpsCoarseTmr s).allocated = s.allocated := by
    unfold dhcpsCoarseTmr
    dsimp only
    split
    · exact killed _
    · exact ⟨rfl, rfl, rfl⟩
  exact inv.shrunk same.1 same.2.1 same.2.2 (leases_coarseTmr s)

theorem hasRoom_of_lt (inv : DhcpsInv net low high start s) (room : high < 255) (mac : List (BitVec 8)) :
    HasRoom high s mac :=
  fun _ => ⟨high + 1, inv.cursor.high, room, Nat.le_refl _, fun n member => by
    have top := (inv.within n member).high
    omega⟩

theorem runDhcps_inv (range : Range net low high start) (room : high < 255) (inv : DhcpsInv net low high start s)
    (events : List DhcpsEvent) : DhcpsInv net low high start (runDhcps events s) := by
  induction events generalizing s with
  | nil => exact inv
  | cons e rest ih =>
      cases e with
      | message p after => exact ih (handleDhcp_inv range inv p after fun _ => hasRoom_of_lt inv room _)
      | tick => exact ih (dhcpsCoarseTmr_inv inv)

theorem leasesOk_of_inv (range : Range net low high start) (inv : DhcpsInv net low high start s) :
    LeasesOk start s := by
  have within := inv.within
  constructor
  · rw [List.pairwise_map]
    have sorted := List.pairwise_map.mp inv.sorted
    exact sorted.imp_of_mem fun {n n'} member member' less =>
      ((within n member).addressOf_lt_iff (within n' member')).mpr less
  · have macs := inv.leases.macs
    unfold Net.leases at macs
    rw [List.map_map] at macs
    exact macs
  · intro n member
    exact inRange_of_within range (within n member)
  · intro n member same
    have bottom := (within n member).low
    have top := (within n member).high
    rw [same] at bottom top
    rcases range.server with before | behind <;> omega

end

theorem dhcpsStart_inv {net low high : Nat} {s : Dhcps} {ip : Ip4Addr} (empty : s.plist = [])
    (range : Range net low high (dhcpsStart s ip)) :
    DhcpsInv net low high (dhcpsStart s ip) (dhcpsStart s ip) := by
  have none_ : leases (dhcpsStart s ip).plist = [] := by
    unfold dhcpsStart
    dsimp only
    rw [empty]
    rfl
  have order := range.order
  refine ⟨rfl, ⟨range.startIp.network, range.startIp.low, range.startIp.high.trans (by omega)⟩, ?_⟩
  rw [none_]
  exact ⟨fun l member => (List.not_mem_nil member).elim, List.Pairwise.nil, List.nodup_nil, List.nodup_nil,
    fun l member => (List.not_mem_nil member).elim⟩

/-- In every run from an empty list the leases are in order, and every packet is answered as it should be. -/
theorem leases_unique (s : Dhcps) (ip : Ip4Addr) (empty : s.plist = [])
    (chosen : (dhcpsStart s ip).dhcpsPoll.enable = false) (events : List DhcpsEvent) :
    LeasesOk (dhcpsStart s ip) (runDhcps events (dhcpsStart s ip)) ∧
      ∀ p after, AnswerOk (dhcpsStart s ip) (runDhcps events (dhcpsStart s ip)) p after := by
  obtain ⟨low, startIp, endIp, positive, room, server⟩ := dhcpsPollSet_chosen chosen
  have range : Range (network ip) low (low + 99) (dhcpsStart s ip) := ⟨startIp, endIp, Nat.le_add_right low 99, server⟩
  have inv := runDhcps_inv range room (dhcpsStart_inv empty range) events
  exact ⟨leasesOk_of_inv range inv, fun p after => answerOk_of_inv range positive inv p after (hasRoom_of_lt inv room _)⟩

def unstarted : Dhcps := ⟨0, 0, 0, 0, [], false, ⟨false, 0, 0⟩, 120, 0xFF, 0, 0, 0⟩

def bareMessage (mac : BitVec 8) : List (BitVec 8) :=
  List.replicate CHADDR 0 ++ List.replicate 6 mac ++ List.replicate (OPTIONS - CHADDR - 6) 0 ++ [0x63, 0x82, 0x53, 0x63]

def typedPacket (mac type : BitVec 8) : Pbuf := ⟨bareMessage mac ++ [53, 1, type, 255], [], 244, Nat.le_of_eq rfl⟩

def threeClients : List DhcpsEvent :=
  [.message (typedPacket 1 DHCPDISCOVER) fun _ => 0, .message (typedPacket 2 DHCPDISCOVER) fun _ => 0,
    .message (typedPacket 1 DHCPRELEASE) fun _ => 0, .tick, .message (typedPacket 3 DHCPDISCOVER) fun _ => 0]

/-- The server at 192.168.4.1 has leased 192.168.4.3 and 192.168.4.4. -/
theorem leases_unique_three :
    LeasesOk (dhcpsStart unstarted 0x0104A8C0) (runDhcps threeClients (dhcpsStart unstarted 0x0104A8C0)) ∧
    (∀ p after, AnswerOk (dhcpsStart unstarted 0x0104A8C0)
      (runDhcps threeClients (dhcpsStart unstarted 0x0104A8C0)) p after) ∧
    ((runDhcps threeClients (dhcpsStart unstarted 0x0104A8C0)).plist.map fun n => n.pnode.ip) =
      [0x0304A8C0, 0x0404A8C0] := by
  obtain ⟨leases, answers⟩ := leases_unique unstarted 0x0104A8C0 rfl (by decide) threeClients
  exact ⟨leases, answers, by decide +kernel⟩

end EspFirmware.Proof.Net
