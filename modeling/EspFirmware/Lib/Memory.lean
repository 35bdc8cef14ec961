import Mathlib.Algebra.GroupWithZero.Nat
import Mathlib.Logic.Function.Basic

/-!
Memory as bytes, read and written in little-endian 32-bit words, and links: words that hold an address
below the top bit and a flag in it.
-/

namespace EspFirmware.Lib

abbrev Memory := Nat → BitVec 8

namespace Memory

def load32 (m : Memory) (a : Nat) : BitVec 32 := m (a + 3) ++ m (a + 2) ++ m (a + 1) ++ m a

def store32 (m : Memory) (a : Nat) (w : BitVec 32) : Memory := fun x =>
  if a ≤ x ∧ x < a + 4 then (w >>> (8 * (x - a))).setWidth 8 else m x

def fill (m : Memory) (a count : Nat) (b : BitVec 8) : Memory := fun x =>
  if a ≤ x ∧ x < a + count then b else m x

def copy (m : Memory) (target source count : Nat) : Memory := fun x =>
  if target ≤ x ∧ x < target + count then m (source + (x - target)) else m x

def load (m : Memory) (a count : Nat) : List (BitVec 8) := (List.range count).map fun i => m (a + i)

def store (m : Memory) (a : Nat) (bytes : List (BitVec 8)) : Memory := fun x =>
  if a ≤ x ∧ x < a + bytes.length then bytes.getD (x - a) 0 else m x

theorem load32_store32 (m : Memory) (a : Nat) (w : BitVec 32) : load32 (store32 m a w) a = w := by
  have byte (k : Nat) (small : k < 4) : store32 m a w (a + k) = (w >>> (8 * k)).setWidth 8 := by
    have inside : a ≤ a + k ∧ a + k < a + 4 := by omega
    rw [store32, if_pos inside, Nat.add_sub_cancel_left]
  have zero := byte 0 (by omega)
  rw [Nat.add_zero] at zero
  unfold load32
  rw [byte 3 (by omega), byte 2 (by omega), byte 1 (by omega), zero]
  apply BitVec.eq_of_getLsbD_eq
  intro i inside
  simp only [BitVec.getLsbD_append, BitVec.getLsbD_setWidth, BitVec.getLsbD_ushiftRight]
  by_cases first : i < 8
  · simp [first]
  · by_cases second : i - 8 < 8
    · have here : 8 + (i - 8) = i := by omega
      simp [first, second, here]
    · by_cases third : i - 8 - 8 < 8
      · have here : 16 + (i - 8 - 8) = i := by omega
        simp [first, second, third, here]
      · have fourth : i - 8 - 8 - 8 < 8 := by omega
        have here : 24 + (i - 8 - 8 - 8) = i := by omega
        simp [first, second, third, fourth, here]

theorem getLsbD_load32 (m : Memory) (a : Nat) {k i : Nat} (byte : k < 4) (inside : i < 8) :
    (load32 m a).getLsbD (8 * k + i) = (m (a + k)).getLsbD i := by
  change (m (a + 3) ++ m (a + 2) ++ m (a + 1) ++ m a : BitVec (8 + 8 + 8 + 8)).getLsbD (8 * k + i) = _
  simp only [BitVec.getLsbD_append]
  have cases_ : k = 0 ∨ k = 1 ∨ k = 2 ∨ k = 3 := by omega
  rcases cases_ with rfl | rfl | rfl | rfl
  · rw [if_pos (by omega), Nat.mul_zero, Nat.zero_add, Nat.add_zero]
  · rw [if_neg (by omega), if_pos (by omega), Nat.mul_one, Nat.add_sub_cancel_left]
  · rw [if_neg (by omega), if_neg (by omega), if_pos (by omega), show 8 * 2 + i - 8 - 8 = i by omega]
  · rw [if_neg (by omega), if_neg (by omega), if_neg (by omega), show 8 * 3 + i - 8 - 8 - 8 = i by omega]

theorem load32_congr {m m' : Memory} {a : Nat} (same : ∀ x, a ≤ x → x < a + 4 → m' x = m x) :
    load32 m' a = load32 m a := by
  unfold load32
  rw [same (a + 3) (by omega) (by omega), same (a + 2) (by omega) (by omega),
    same (a + 1) (by omega) (by omega), same a (by omega) (by omega)]

theorem store32_other (m : Memory) {a x : Nat} (w : BitVec 32) (outside : x < a ∨ a + 4 ≤ x) :
    store32 m a w x = m x := by
  unfold store32
  rw [if_neg (by omega)]

theorem load32_store32_of_apart (m : Memory) {a b : Nat} (w : BitVec 32) (apart : a + 4 ≤ b ∨ b + 4 ≤ a) :
    load32 (store32 m b w) a = load32 m a := by
  apply load32_congr
  intro x low high
  exact store32_other m w (by omega)

theorem fill_other (m : Memory) {a count x : Nat} (b : BitVec 8) (outside : x < a ∨ a + count ≤ x) :
    fill m a count b x = m x := by
  unfold fill
  rw [if_neg (by omega)]

theorem copy_other (m : Memory) {target source count x : Nat} (outside : x < target ∨ target + count ≤ x) :
    copy m target source count x = m x := by
  unfold copy
  rw [if_neg (by omega)]

theorem load_congr {m m' : Memory} {a count : Nat} (same : ∀ x, a ≤ x → x < a + count → m' x = m x) :
    load m' a count = load m a count := by
  apply List.map_congr_left
  intro i inside
  have bound := List.mem_range.mp inside
  exact same (a + i) (by omega) (by omega)

theorem store_other (m : Memory) {a x : Nat} {bytes : List (BitVec 8)} (outside : x < a ∨ a + bytes.length ≤ x) :
    store m a bytes x = m x := by
  unfold store
  rw [if_neg (by omega)]

theorem length_load (m : Memory) (a count : Nat) : (load m a count).length = count := by
  rw [load, List.length_map, List.length_range]

theorem load_store (m : Memory) (a : Nat) (bytes : List (BitVec 8)) : load (store m a bytes) a bytes.length = bytes := by
  apply List.ext_getElem
  · rw [length_load]
  · intro i inside bound
    rw [length_load] at inside
    simp only [load, List.getElem_map, List.getElem_range, store]
    rw [if_pos (by omega), Nat.add_sub_cancel_left, List.getD_eq_getElem?_getD, List.getElem?_eq_getElem bound,
      Option.getD_some]

theorem load_append (m : Memory) (a i j : Nat) : load m a (i + j) = load m a i ++ load m (a + i) j := by
  unfold load
  rw [List.range_add, List.map_append, List.map_map]
  congr 1
  apply List.map_congr_left
  intro k _
  rw [Function.comp_apply, Nat.add_assoc]

def topBit : BitVec 32 := 0x80000000

def link (a : Nat) (flag : Bool) : BitVec 32 := BitVec.ofNat 32 a ||| (if flag then topBit else 0)

theorem getLsbD_topBit {i : Nat} (inside : i < 32) : topBit.getLsbD i = decide (i = 31) := by
  have all : ∀ i : Fin 32, topBit.getLsbD i = decide (i.val = 31) := by decide
  exact all ⟨i, inside⟩

theorem getLsbD_flag (flag : Bool) {i : Nat} (inside : i < 32) :
    (if flag then topBit else 0).getLsbD i = (flag && decide (i = 31)) := by
  cases flag with
  | true => exact getLsbD_topBit inside
  | false => exact BitVec.getLsbD_zero

theorem getLsbD_link {a : Nat} (small : a < 2 ^ 31) (flag : Bool) {i : Nat} (inside : i < 32) :
    (link a flag).getLsbD i = if i = 31 then flag else a.testBit i := by
  have high : a.testBit 31 = false := Nat.testBit_lt_two_pow small
  rw [link, BitVec.getLsbD_or, BitVec.getLsbD_ofNat, getLsbD_flag flag inside]
  by_cases top : i = 31
  · subst top
    simp [high]
  · simp [top, inside]

theorem link_and_top {a : Nat} (small : a < 2 ^ 31) (flag : Bool) :
    link a flag &&& topBit = if flag then topBit else 0 := by
  apply BitVec.eq_of_getLsbD_eq
  intro i inside
  rw [BitVec.getLsbD_and, getLsbD_link small flag inside, getLsbD_topBit inside, getLsbD_flag flag inside]
  by_cases top : i = 31
  · simp [top]
  · simp [top]

theorem link_and_not_top {a : Nat} (small : a < 2 ^ 31) (flag : Bool) :
    link a flag &&& ~~~ topBit = link a false := by
  apply BitVec.eq_of_getLsbD_eq
  intro i inside
  rw [BitVec.getLsbD_and, BitVec.getLsbD_not, getLsbD_link small flag inside, getLsbD_link small false inside,
    getLsbD_topBit inside]
  by_cases top : i = 31
  · simp [top]
  · simp [top, inside]

theorem link_or_top {a : Nat} (small : a < 2 ^ 31) (flag : Bool) : link a flag ||| topBit = link a true := by
  apply BitVec.eq_of_getLsbD_eq
  intro i inside
  rw [BitVec.getLsbD_or, getLsbD_link small flag inside, getLsbD_link small true inside, getLsbD_topBit inside]
  by_cases top : i = 31
  · simp [top]
  · simp [top]

theorem toNat_link {a : Nat} (small : a < 2 ^ 31) : (link a false).toNat = a := by
  have plain : link a false = BitVec.ofNat 32 a := by simp [link]
  rw [plain, BitVec.toNat_ofNat, Nat.mod_eq_of_lt (by omega)]

end Memory

end EspFirmware.Lib
