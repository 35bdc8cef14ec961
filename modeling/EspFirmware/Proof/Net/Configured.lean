import EspFirmware.Proof.Net.Dhcps

/-!
A configured range is kept to, unless it ends with its network and the cursor steps over the last address.
-/

namespace EspFirmware.Proof.Net
open EspFirmware.Lib Memory EspFirmware.Net EspFirmware.Spec

theorem toNat_htonl_shift (a : Ip4Addr) : (htonl a >>> 8).toNat = networkNumber a := by
  have small := host_lt a
  rw [BitVec.toNat_ushiftRight, Nat.shiftRight_eq_div_pow]
  have address : (htonl a).toNat = networkNumber a * 256 + host a := addressOf_eq a
  omega

theorem sameNetwork_iff {a b : Ip4Addr} : SameNetwork a b ↔ network a = network b := by
  unfold SameNetwork
  constructor
  · intro same
    have numbers := congrArg BitVec.toNat same
    rw [toNat_htonl_shift, toNat_htonl_shift] at numbers
    exact network_eq_of_number numbers
  · intro same
    apply BitVec.eq_of_toNat_eq
    rw [toNat_htonl_shift, toNat_htonl_shift, networkNumber, networkNumber, same]

theorem dhcpsPollSet_kept {poll : DhcpsLease} {ip : Ip4Addr} (kept : (dhcpsPollSet poll ip).enable = true) :
    dhcpsPollSet poll ip = poll ∧ network poll.startIp = network ip ∧ network poll.endIp = network ip ∧
      host poll.startIp ≤ host poll.endIp ∧ (host ip < host poll.startIp ∨ host poll.endIp < host ip) := by
  unfold dhcpsPollSet at kept ⊢
  dsimp only at kept ⊢
  split at kept
  · rename_i valid
    rw [if_pos valid]
    obtain ⟨-, outside, rest⟩ := valid
    obtain ⟨networks, few⟩ := not_or.mp rest
    obtain ⟨first, last⟩ := not_or.mp networks
    have startNetwork := sameNetwork_iff.mp (not_not.mp first)
    have endNetwork := sameNetwork_iff.mp (not_not.mp last)
    have startNumber : networkNumber poll.startIp = networkNumber ip := by rw [networkNumber, networkNumber, startNetwork]
    have endNumber : networkNumber poll.endIp = networkNumber ip := by rw [networkNumber, networkNumber, endNetwork]
    have startAddress : (htonl poll.startIp).toNat = networkNumber ip * 256 + host poll.startIp := by
      rw [← startNumber]
      exact addressOf_eq poll.startIp
    have endAddress : (htonl poll.endIp).toNat = networkNumber ip * 256 + host poll.endIp := by
      rw [← endNumber]
      exact addressOf_eq poll.endIp
    have ownAddress : (htonl ip).toNat = networkNumber ip * 256 + host ip := addressOf_eq ip
    have startSmall := host_lt poll.startIp
    have endSmall := host_lt poll.endIp
    have order : host poll.startIp ≤ host poll.endIp := by
      rw [gt_iff_lt, BitVec.lt_def, BitVec.toNat_sub, startAddress, endAddress] at few
      simp only [DHCPS_MAX_LEASE, BitVec.toNat_ofNat] at few
      omega
    rw [BitVec.le_def, BitVec.le_def, startAddress, endAddress, ownAddress] at outside
    exact ⟨rfl, startNetwork, endNetwork, order, by omega⟩
  · cases kept

section
variable {net low high : Nat} {start s : Dhcps}

theorem hasRoom_of_stays (range : Range net low high start) (inv : DhcpsInv net low high start s) {p : Pbuf}
    {after : Memory} (stays : CursorStays s (.message p after)) (accepted : Accepted p after) :
    HasRoom high s (chaddrMac (p.message after)) := by
  by_cases room : high < 255
  · exact hasRoom_of_lt inv room _
  intro newMac
  have endIp := range.endIp
  rw [← inv.poll] at endIp
  have endSmall := host_lt s.dhcpsPoll.endIp
  have endHigh := endIp.high
  have endLow := endIp.low
  have last : addressOf s.dhcpsPoll.endIp % 256 = 255 := by
    rw [addressOf_eq]
    omega
  obtain ⟨a, above, below, free⟩ := stays accepted (fun ip ⟨n, listed, mine, _⟩ => newMac n listed mine) last
  have numbers : networkNumber s.clientAddressPlus = networkNumber s.dhcpsPoll.endIp := by
    rw [networkNumber, networkNumber, inv.cursor.network, endIp.network]
  have small := host_lt a
  have cursorSmall := host_lt s.clientAddressPlus
  rw [addressOf_eq, addressOf_eq] at above below
  have same : networkNumber a = networkNumber s.dhcpsPoll.endIp := by omega
  have inNet : network a = net := (network_eq_of_number same).trans endIp.network
  refine ⟨host a, by omega, by omega, by omega, fun n listed equal => free n.pnode.mac ⟨n, listed, rfl, ?_⟩⟩
  exact (eq_iff_host ((inv.within n listed).network.trans inNet.symm)).mpr equal

theorem cursorStays_of_end {e : DhcpsEvent} (room : addressOf s.dhcpsPoll.endIp % 256 ≠ 255) : CursorStays s e := by
  cases e with
  | message p after => exact fun _ _ last => absurd last room
  | tick => trivial

theorem step_configured (range : Range net low high start) (inv : DhcpsInv net low high start s) (e : DhcpsEvent)
    (stays : CursorStays s e) : DhcpsInv net low high start (DhcpsEvent.run s e) := by
  cases e with
  | message p after => exact handleDhcp_inv range inv p after fun accepted => hasRoom_of_stays range inv stays accepted
  | tick => exact dhcpsCoarseTmr_inv inv

theorem run_configured (range : Range net low high start) (inv : DhcpsInv net low high start s)
    (events : List DhcpsEvent) (stays : EachDhcpsStep CursorStays events s) :
    DhcpsInv net low high start (runDhcps events s) := by
  induction events generalizing s with
  | nil => exact inv
  | cons e rest ih => exact ih (step_configured range inv e stays.1) (stays.2 _ rfl)

end

/-- In every run whose messages leave the cursor in the network, the leases are of the configured range. -/
theorem configured_range_honoured (s : Dhcps) (ip : Ip4Addr) (empty : s.plist = [])
    (kept : (dhcpsStart s ip).dhcpsPoll.enable = true) (events : List DhcpsEvent)
    (stays : EachDhcpsStep CursorStays events (dhcpsStart s ip)) :
    RangeHonoured s.dhcpsPoll ip (runDhcps events (dhcpsStart s ip)) := by
  obtain ⟨same, startNetwork, endNetwork, order, server⟩ := dhcpsPollSet_kept kept
  have poll : (dhcpsStart s ip).dhcpsPoll = s.dhcpsPoll := same
  have range : Range (network ip) (host s.dhcpsPoll.startIp) (host s.dhcpsPoll.endIp) (dhcpsStart s ip) := by
    constructor
    · rw [poll]
      exact ⟨startNetwork, Nat.le_refl _, Nat.le_refl _⟩
    · rw [poll]
      exact ⟨endNetwork, Nat.le_refl _, Nat.le_refl _⟩
    · exact order
    · exact server
  have inv := run_configured range (dhcpsStart_inv empty range) events stays
  intro n listed
  have within := inv.within n listed
  have inRange := inRange_of_within range within
  rw [poll] at inRange
  exact ⟨inRange, sameNetwork_iff.mpr within.network.symm⟩

def barePacket (mac : BitVec 8) : Pbuf := ⟨bareMessage mac, [], 240, Nat.le_of_eq rfl⟩

def twoClients : List DhcpsEvent :=
  [.message (barePacket 1) fun _ => 0, .message (barePacket 2) fun _ => 0]

def twoAddresses : Dhcps := { unstarted with dhcpsPoll := ⟨true, 0x0204A8C0, 0x0304A8C0⟩ }

theorem configured_range_honoured_two : RangeHonoured twoAddresses.dhcpsPoll 0x0104A8C0
    (runDhcps twoClients (dhcpsStart twoAddresses 0x0104A8C0)) := by
  have later : addressOf (DhcpsEvent.run (dhcpsStart twoAddresses 0x0104A8C0)
      (.message (barePacket 1) fun _ => 0)).dhcpsPoll.endIp % 256 ≠ 255 := by decide +kernel
  refine configured_range_honoured twoAddresses 0x0104A8C0 rfl (by decide) twoClients
    ⟨cursorStays_of_end (by decide), fun s' made => ?_⟩
  rw [← Option.some.inj made]
  exact ⟨cursorStays_of_end later, fun _ _ => trivial⟩

def lastOnly : Dhcps := { unstarted with dhcpsPoll := ⟨true, 0xFF04A8C0, 0xFF04A8C0⟩ }

theorem configured_range_left : ¬ ∀ (s : Dhcps) (ip : Ip4Addr), s.plist = [] →
    (dhcpsStart s ip).dhcpsPoll.enable = true → ∀ events,
      RangeHonoured s.dhcpsPoll ip (runDhcps events (dhcpsStart s ip)) := by
  intro all
  have honoured := all lastOnly 0x0104A8C0 rfl (by decide) twoClients
  have leased : (runDhcps twoClients (dhcpsStart lastOnly 0x0104A8C0)).plist.map (fun n => n.pnode.ip) =
      [0x0005A8C0, 0xFF04A8C0] := by decide +kernel
  obtain ⟨n, listed, beyond⟩ := List.mem_map.mp (leased ▸ List.mem_cons_self)
  have network := (honoured n listed).2
  rw [beyond] at network
  exact absurd (sameNetwork_iff.mp network) (by decide)

end EspFirmware.Proof.Net
