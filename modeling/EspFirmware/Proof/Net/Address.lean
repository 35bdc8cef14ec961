import EspFirmware.Spec.Dhcps
import Mathlib.Tactic.IntervalCases

/-!
Addresses of one network: the server compares them as words, and counts them up as numbers. Both go by the
last byte.
-/

namespace EspFirmware.Proof.Net
open EspFirmware.Lib EspFirmware.Net EspFirmware.Spec

def network (a : Ip4Addr) : Nat := a.toNat % 2 ^ 24

def host (a : Ip4Addr) : Nat := a.toNat / 2 ^ 24

theorem toNat_eq (a : Ip4Addr) : a.toNat = network a + 2 ^ 24 * host a := by
  unfold network host
  omega

theorem host_lt (a : Ip4Addr) : host a < 256 := by
  have := a.isLt
  unfold host
  omega

section
variable {a b : Ip4Addr}

theorem lt_iff_host (same : network a = network b) : a < b ↔ host a < host b := by
  have first := toNat_eq a
  have second := toNat_eq b
  have bound : network b < 2 ^ 24 := Nat.mod_lt _ (by decide)
  rw [BitVec.lt_def]
  omega

theorem eq_iff_host (same : network a = network b) : a = b ↔ host a = host b := by
  have first := toNat_eq a
  have second := toNat_eq b
  rw [BitVec.toNat_eq]
  omega

end

theorem htonl_eq (x : BitVec 32) :
    htonl x = x.extractLsb' 0 8 ++ x.extractLsb' 8 8 ++ x.extractLsb' 16 8 ++ x.extractLsb' 24 8 := by
  apply BitVec.eq_of_getLsbD_eq
  intro i inside
  simp only [htonl, BitVec.getLsbD_append, BitVec.getLsbD_extractLsb', BitVec.getLsbD_or, BitVec.getLsbD_and,
    BitVec.getLsbD_shiftLeft, BitVec.getLsbD_ushiftRight]
  interval_cases i <;> simp

def swapped (x : Nat) : Nat :=
  x % 256 * 2 ^ 24 + x / 2 ^ 8 % 256 * 2 ^ 16 + x / 2 ^ 16 % 256 * 2 ^ 8 + x / 2 ^ 24 % 256

theorem toNat_append_byte {w : Nat} (x : BitVec w) (b : BitVec 8) : (x ++ b).toNat = x.toNat * 256 + b.toNat := by
  rw [BitVec.toNat_append, ← Nat.shiftLeft_add_eq_or_of_lt b.isLt, Nat.shiftLeft_eq]

theorem toNat_htonl (x : BitVec 32) : (htonl x).toNat = swapped x.toNat := by
  rw [htonl_eq, toNat_append_byte, toNat_append_byte, toNat_append_byte]
  simp only [BitVec.extractLsb'_toNat, Nat.shiftRight_eq_div_pow, swapped]
  omega

theorem swapped_bytes {b₀ b₁ b₂ b₃ : Nat} (first : b₀ < 256) (second : b₁ < 256) (third : b₂ < 256)
    (last : b₃ < 256) : swapped (b₀ + 2 ^ 8 * b₁ + 2 ^ 16 * b₂ + 2 ^ 24 * b₃) =
      b₃ + 2 ^ 8 * b₂ + 2 ^ 16 * b₁ + 2 ^ 24 * b₀ := by
  have zero : (b₀ + 2 ^ 8 * b₁ + 2 ^ 16 * b₂ + 2 ^ 24 * b₃) % 256 = b₀ := by omega
  have one : (b₀ + 2 ^ 8 * b₁ + 2 ^ 16 * b₂ + 2 ^ 24 * b₃) / 2 ^ 8 % 256 = b₁ := by omega
  have two : (b₀ + 2 ^ 8 * b₁ + 2 ^ 16 * b₂ + 2 ^ 24 * b₃) / 2 ^ 16 % 256 = b₂ := by omega
  have three : (b₀ + 2 ^ 8 * b₁ + 2 ^ 16 * b₂ + 2 ^ 24 * b₃) / 2 ^ 24 % 256 = b₃ := by omega
  rw [swapped, zero, one, two, three]
  omega

def networkNumber (a : Ip4Addr) : Nat :=
  network a % 256 * 2 ^ 16 + network a / 2 ^ 8 % 256 * 2 ^ 8 + network a / 2 ^ 16

theorem network_bytes (a : Ip4Addr) :
    network a = network a % 256 + 2 ^ 8 * (network a / 2 ^ 8 % 256) + 2 ^ 16 * (network a / 2 ^ 16) ∧
      network a / 2 ^ 16 < 256 := by
  have bound : network a < 2 ^ 24 := Nat.mod_lt _ (by decide)
  omega

theorem network_eq_of_number {a b : Ip4Addr} (same : networkNumber a = networkNumber b) : network a = network b := by
  obtain ⟨bytes, top⟩ := network_bytes a
  obtain ⟨bytes', top'⟩ := network_bytes b
  have first := Nat.mod_lt (network a) (by decide : 0 < 256)
  have second := Nat.mod_lt (network a / 2 ^ 8) (by decide : 0 < 256)
  have first' := Nat.mod_lt (network b) (by decide : 0 < 256)
  have second' := Nat.mod_lt (network b / 2 ^ 8) (by decide : 0 < 256)
  rw [bytes, bytes']
  unfold networkNumber at same
  generalize network a % 256 = x at *
  generalize network a / 2 ^ 8 % 256 = y at *
  generalize network a / 2 ^ 16 = z at *
  generalize network b % 256 = x' at *
  generalize network b / 2 ^ 8 % 256 = y' at *
  generalize network b / 2 ^ 16 = z' at *
  omega

theorem addressOf_eq (a : Ip4Addr) : addressOf a = networkNumber a * 256 + host a := by
  obtain ⟨bytes, small⟩ := network_bytes a
  have swap := swapped_bytes (Nat.mod_lt (network a) (by decide : 0 < 256))
    (Nat.mod_lt (network a / 2 ^ 8) (by decide : 0 < 256)) small (host_lt a)
  rw [← bytes, ← toNat_eq] at swap
  rw [addressOf, toNat_htonl, swap, networkNumber]
  omega

theorem host_htonl {y : BitVec 32} {a : Ip4Addr} {d : Nat} (value : y.toNat = networkNumber a * 256 + d)
    (small : d < 256) : network (htonl y) = network a ∧ host (htonl y) = d := by
  obtain ⟨bytes, top⟩ := network_bytes a
  have bound : network a < 2 ^ 24 := Nat.mod_lt _ (by decide)
  have digits : y.toNat = d + 2 ^ 8 * (network a / 2 ^ 16) + 2 ^ 16 * (network a / 2 ^ 8 % 256) +
      2 ^ 24 * (network a % 256) := by
    rw [value, networkNumber]
    omega
  have back : (htonl y).toNat = network a + 2 ^ 24 * d := by
    rw [toNat_htonl, digits, swapped_bytes small top (Nat.mod_lt _ (by decide)) (Nat.mod_lt _ (by decide)), ← bytes]
  constructor
  · rw [network, back]
    omega
  · rw [host, back]
    omega

theorem networkNumber_lt (a : Ip4Addr) : networkNumber a < 2 ^ 24 := by
  have bound := (network_bytes a).2
  unfold networkNumber
  omega

theorem next_host {a : Ip4Addr} (room : host a < 255) :
    network (htonl (htonl a + 1)) = network a ∧ host (htonl (htonl a + 1)) = host a + 1 := by
  have number := networkNumber_lt a
  have address : (htonl a).toNat = networkNumber a * 256 + host a := addressOf_eq a
  have one : (1 : BitVec 32).toNat = 1 := rfl
  apply host_htonl
  · rw [BitVec.toNat_add, address, one]
    omega
  · omega

structure Within (net low high : Nat) (a : Ip4Addr) : Prop where
  network : network a = net
  low : low ≤ host a
  high : host a ≤ high

section
variable {net low high : Nat} {a b : Ip4Addr}

theorem Within.lt_iff (first : Within net low high a) {low' high' : Nat} (second : Within net low' high' b) :
    a < b ↔ host a < host b := lt_iff_host (first.network.trans second.network.symm)

theorem Within.eq_iff (first : Within net low high a) {low' high' : Nat} (second : Within net low' high' b) :
    a = b ↔ host a = host b := eq_iff_host (first.network.trans second.network.symm)

theorem Within.addressOf_lt_iff (first : Within net low high a) {low' high' : Nat} (second : Within net low' high' b) :
    addressOf a < addressOf b ↔ host a < host b := by
  have same : networkNumber a = networkNumber b := by
    rw [networkNumber, networkNumber, first.network, second.network]
  rw [addressOf_eq, addressOf_eq, same]
  omega

theorem Within.addressOf_le_iff (first : Within net low high a) {low' high' : Nat} (second : Within net low' high' b) :
    addressOf a ≤ addressOf b ↔ host a ≤ host b := by
  have same : networkNumber a = networkNumber b := by
    rw [networkNumber, networkNumber, first.network, second.network]
  rw [addressOf_eq, addressOf_eq, same]
  omega

end

theorem toNat_low_byte (x : BitVec 32) : (x &&& 0xFF#32).toNat = x.toNat % 256 := by
  rw [BitVec.toNat_and]
  exact Nat.and_two_pow_sub_one_eq_mod x.toNat 8

theorem or_low_byte (x : BitVec 32) (b : BitVec 8) :
    (x &&& 0xFFFFFF00#32) ||| b.setWidth 32 = x.extractLsb' 8 24 ++ b := by
  apply BitVec.eq_of_getLsbD_eq
  intro i inside
  simp only [BitVec.getLsbD_append, BitVec.getLsbD_extractLsb', BitVec.getLsbD_or, BitVec.getLsbD_and,
    BitVec.getLsbD_setWidth]
  interval_cases i <;> simp

theorem toNat_or_low_byte (x : BitVec 32) {l : BitVec 32} (small : l.toNat < 256) :
    ((x &&& 0xFFFFFF00#32) ||| l).toNat = x.toNat / 256 * 256 + l.toNat := by
  have byte : l = (l.setWidth 8).setWidth 32 := by
    apply BitVec.eq_of_toNat_eq
    simp only [BitVec.toNat_setWidth]
    omega
  have bound := x.isLt
  rw [byte, or_low_byte, toNat_append_byte]
  simp only [BitVec.extractLsb'_toNat, Nat.shiftRight_eq_div_pow, BitVec.toNat_setWidth]
  omega

theorem dhcpsPollSet_chosen {poll : DhcpsLease} {ip : Ip4Addr} (chosen : (dhcpsPollSet poll ip).enable = false) :
    ∃ low, Within (network ip) low low (dhcpsPollSet poll ip).startIp ∧
      Within (network ip) (low + 99) (low + 99) (dhcpsPollSet poll ip).endIp ∧
      0 < low ∧ low + 99 < 255 ∧ (host ip < low ∨ low + 99 < host ip) := by
  have address : (htonl ip).toNat = networkNumber ip * 256 + host ip := addressOf_eq ip
  have small := host_lt ip
  have one : (1 : BitVec 32).toNat = 1 := rfl
  have low : (htonl ip &&& 0xFF#32).toNat = host ip := by
    rw [toNat_low_byte, address]
    omega
  -- one address of the network, by its last byte
  have place {l : BitVec 32} {d : Nat} (value : l.toNat = d) (byte : d < 256) :
      Within (network ip) d d (htonl ((htonl ip &&& 0xFFFFFF00#32) ||| l)) := by
    have both := @host_htonl ((htonl ip &&& 0xFFFFFF00#32) ||| l) ip d (by
      rw [toNat_or_low_byte _ (by omega), address, value]
      omega) byte
    exact ⟨both.1, Nat.le_of_eq both.2.symm, Nat.le_of_eq both.2⟩
  unfold dhcpsPollSet at chosen ⊢
  dsimp only at chosen ⊢
  split at chosen
  · rename_i valid
    rw [valid.1] at chosen
    cases chosen
  · rename_i invalid
    rw [if_neg invalid]
    dsimp only
    have top : (htonl ip &&& 0xFF#32) ≥ 0x80#32 ↔ 128 ≤ host ip := by
      rw [ge_iff_le, BitVec.le_def, low]
      rfl
    by_cases upper : 128 ≤ host ip
    · rw [if_pos (top.mpr upper)]
      refine ⟨host ip - 100, place ?_ (by omega), place ?_ (by omega), by omega, by omega, by omega⟩
      · rw [BitVec.toNat_sub_of_le, low]
        · rfl
        · rw [BitVec.le_def, low]
          exact Nat.le_trans (by decide) upper
      · simp only [BitVec.toNat_sub, BitVec.toNat_add, low, one, DHCPS_MAX_LEASE, BitVec.toNat_ofNat]
        omega
    · rw [if_neg (fun above => upper (top.mp above))]
      refine ⟨host ip + 1, place ?_ (by omega), place ?_ (by omega), by omega, by omega, by omega⟩
      · simp only [BitVec.toNat_add, low, one]
        omega
      · simp only [BitVec.toNat_sub, BitVec.toNat_add, low, one, DHCPS_MAX_LEASE, BitVec.toNat_ofNat]
        omega

end EspFirmware.Proof.Net
