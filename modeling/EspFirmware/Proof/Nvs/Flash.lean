import Mathlib.Data.List.FinRange
import Mathlib.Data.List.Nodup
import Mathlib.Data.Nat.Basic
import EspFirmware.Spec.PageScan

/-!
A packed table is an array of its elements: what a store changes, and that the elements determine the
words.
-/

namespace EspFirmware.Proof.Nvs
open EspFirmware.Nvs CompressedEnumTable

section
variable {nbits : Nat} (t : CompressedEnumTable)

theorem valueMask_eq (le : nbits ≤ 32) : valueMask nbits = BitVec.ofNat 32 (2 ^ nbits - 1) := by
  apply BitVec.eq_of_toNat_eq
  unfold valueMask
  rcases Nat.lt_or_eq_of_le le with lt | rfl
  · have small : 2 ^ nbits < 2 ^ 32 := Nat.pow_lt_pow_right (by decide) lt
    have pos : 0 < 2 ^ nbits := Nat.two_pow_pos nbits
    have shifted : ((1 : Word) <<< nbits).toNat = 2 ^ nbits := by
      rw [BitVec.toNat_shiftLeft, Nat.shiftLeft_eq, show (1 : Word).toNat = 1 from rfl, Nat.one_mul,
        Nat.mod_eq_of_lt small]
    rw [BitVec.toNat_sub, shifted, BitVec.toNat_ofNat, show (1 : Word).toNat = 1 from rfl]
    omega
  · decide

theorem getLsbD_valueMask (le : nbits ≤ 32) (k : Nat) :
    (valueMask nbits).getLsbD k = decide (k < nbits) := by
  rw [valueMask_eq le, BitVec.getLsbD_ofNat, Nat.testBit_two_pow_sub_one]
  by_cases inside : k < nbits
  · have below : k < 32 := by omega
    simp [inside, below]
  · simp [inside]

theorem getLsbD_get (le : nbits ≤ 32) (i k : Nat) : (get nbits t i).getLsbD k =
    (decide (k < nbits) && (t (getWordIndex nbits i)).getLsbD (i % (32 / nbits) * nbits + k)) := by
  simp only [CompressedEnumTable.get, BitVec.getLsbD_and, BitVec.getLsbD_ushiftRight,
    getLsbD_valueMask le, Bool.and_comm]

theorem offset_lt (pos : 0 < nbits) (divides : nbits ∣ 32) (i k : Nat) (inside : k < nbits) :
    i % (32 / nbits) * nbits + k < 32 := by
  have whole : 32 / nbits * nbits = 32 := Nat.div_mul_cancel divides
  have low : i % (32 / nbits) < 32 / nbits :=
    Nat.mod_lt _ (Nat.div_pos (Nat.le_of_dvd (by decide) divides) pos)
  calc i % (32 / nbits) * nbits + k < i % (32 / nbits) * nbits + nbits := by omega
    _ = (i % (32 / nbits) + 1) * nbits := by rw [Nat.add_mul, Nat.one_mul]
    _ ≤ 32 / nbits * nbits := Nat.mul_le_mul_right _ low
    _ = 32 := whole

theorem set_word_ne (i k : Nat) (v : Word) (other : k ≠ getWordIndex nbits i) :
    set nbits t i v k = t k := Function.update_of_ne other _ _

theorem getLsbD_set_word (divides : nbits ∣ 32) (i : Nat) {v : Word}
    (small : v.toNat < 2 ^ nbits) {b : Nat} (inside : b < 32) :
    (set nbits t i v (getWordIndex nbits i)).getLsbD b =
      if i % (32 / nbits) * nbits ≤ b ∧ b < i % (32 / nbits) * nbits + nbits then
        v.getLsbD (b - i % (32 / nbits) * nbits)
      else (t (getWordIndex nbits i)).getLsbD b := by
  have le : nbits ≤ 32 := Nat.le_of_dvd (by decide) divides
  have high (k : Nat) (out : nbits ≤ k) : v.getLsbD k = false :=
    Nat.testBit_lt_two_pow (Nat.lt_of_lt_of_le small (Nat.pow_le_pow_right (by decide) out))
  rw [CompressedEnumTable.set, Function.update_self]
  generalize i % (32 / nbits) * nbits = o
  simp only [BitVec.getLsbD_or, BitVec.getLsbD_and, BitVec.getLsbD_not, BitVec.getLsbD_shiftLeft,
    getLsbD_valueMask le]
  by_cases below : b < o
  · have out : ¬ (o ≤ b ∧ b < o + nbits) := by omega
    simp [inside, below, out]
  · by_cases within : b < o + nbits
    · have range : o ≤ b ∧ b < o + nbits := by omega
      have index : b - o < nbits := by omega
      simp [inside, below, range, index]
    · have out : ¬ (o ≤ b ∧ b < o + nbits) := by omega
      have index : ¬ b - o < nbits := by omega
      simp [inside, below, out, index, high (b - o) (by omega)]

theorem get_set_self (pos : 0 < nbits) (divides : nbits ∣ 32) (i : Nat) {v : Word}
    (small : v.toNat < 2 ^ nbits) : get nbits (set nbits t i v) i = v := by
  have le : nbits ≤ 32 := Nat.le_of_dvd (by decide) divides
  apply BitVec.eq_of_getLsbD_eq
  intro k bound
  rw [getLsbD_get _ le]
  by_cases inside : k < nbits
  · rw [getLsbD_set_word t divides i small (offset_lt pos divides i k inside), if_pos (by omega)]
    simp [inside, Nat.add_sub_cancel_left]
  · have high : v.getLsbD k = false :=
      Nat.testBit_lt_two_pow
        (Nat.lt_of_lt_of_le small (Nat.pow_le_pow_right (by decide) (Nat.le_of_not_lt inside)))
    simp [inside, high]

theorem get_set_of_ne (pos : 0 < nbits) (divides : nbits ∣ 32) {i j : Nat} (ne : j ≠ i) {v : Word}
    (small : v.toNat < 2 ^ nbits) : get nbits (set nbits t i v) j = get nbits t j := by
  have le : nbits ≤ 32 := Nat.le_of_dvd (by decide) divides
  apply BitVec.eq_of_getLsbD_eq
  intro k bound
  rw [getLsbD_get _ le, getLsbD_get _ le]
  by_cases inside : k < nbits
  · by_cases word : getWordIndex nbits j = getWordIndex nbits i
    · have positions : j % (32 / nbits) ≠ i % (32 / nbits) := by
        intro same
        apply ne
        rw [← Nat.div_add_mod j (32 / nbits), ← Nat.div_add_mod i (32 / nbits), same]
        unfold getWordIndex at word
        rw [word]
      have apart : ¬ (i % (32 / nbits) * nbits ≤ j % (32 / nbits) * nbits + k ∧
          j % (32 / nbits) * nbits + k < i % (32 / nbits) * nbits + nbits) := by
        rintro ⟨low, high⟩
        rcases Nat.lt_or_gt_of_ne positions with before | after
        · have := Nat.mul_le_mul_right nbits (Nat.succ_le_of_lt before)
          rw [Nat.succ_mul] at this
          omega
        · have := Nat.mul_le_mul_right nbits (Nat.succ_le_of_lt after)
          rw [Nat.succ_mul] at this
          omega
      rw [word, getLsbD_set_word t divides i small (offset_lt pos divides j k inside), if_neg apart]
    · rw [set_word_ne t i _ v word]
  · simp [inside]

theorem getWordIndex_lt (divides : nbits ∣ 32) {i nitems : Nat} (inside : i < nitems) :
    getWordIndex nbits i < wordCount nbits nitems := by
  have pos : 0 < nbits := Nat.pos_of_dvd_of_pos divides (by decide)
  have whole : 32 / nbits * nbits = 32 := Nat.div_mul_cancel divides
  have before : getWordIndex nbits i * 32 ≤ i * nbits := by
    calc getWordIndex nbits i * 32 = i / (32 / nbits) * (32 / nbits) * nbits := by
          rw [getWordIndex, Nat.mul_assoc, whole]
      _ ≤ i * nbits := Nat.mul_le_mul_right _ (Nat.div_mul_le_self _ _)
  have next : i * nbits + nbits ≤ nbits * nitems := by
    rw [← Nat.succ_mul, Nat.mul_comm nbits]
    exact Nat.mul_le_mul_right _ inside
  refine (Nat.le_div_iff_mul_le (by decide)).mpr ?_
  omega

/-- What is set is got, other elements stay, and only the word of the element changes, which is one of the table. -/
theorem table_is_array (divides : nbits ∣ 32) {nitems i : Nat} (inside : i < nitems) {v : Word}
    (small : v.toNat < 2 ^ nbits) :
    get nbits (set nbits t i v) i = v ∧
      (∀ j < nitems, j ≠ i → get nbits (set nbits t i v) j = get nbits t j) ∧
        (∀ k, k ≠ getWordIndex nbits i → set nbits t i v k = t k) ∧
          getWordIndex nbits i < wordCount nbits nitems := by
  have pos : 0 < nbits := Nat.pos_of_dvd_of_pos divides (by decide)
  refine ⟨get_set_self t pos divides i small, fun j _ other => get_set_of_ne t pos divides other small,
    fun k other => set_word_ne t i k v other, getWordIndex_lt divides inside⟩

theorem table_is_array_entries :
    get 2 (set 2 (fun _ => 0xFFFFFFFF) 17 2) 17 = 2 ∧
      (∀ j < 126, j ≠ 17 → get 2 (set 2 (fun _ => 0xFFFFFFFF) 17 2) j = get 2 (fun _ => 0xFFFFFFFF) j) ∧
        (∀ k, k ≠ getWordIndex 2 17 → set 2 (fun _ => 0xFFFFFFFF) 17 2 k = 0xFFFFFFFF) ∧
          getWordIndex 2 17 < wordCount 2 126 :=
  table_is_array (fun _ => 0xFFFFFFFF) (by decide) (by decide) (by decide)

end

theorem ofBits_toBits (state : EntryState) : EntryState.ofBits state.toBits = state := by
  cases state <;> decide

theorem entryState_set_self (t : CompressedEnumTable) (i : Nat) (state : EntryState) :
    entryState (setEntryState t i state) i = state := by
  have small : state.toBits.toNat < 2 ^ 2 := by cases state <;> decide
  rw [entryState, setEntryState, get_set_self t (by decide) (by decide) i small, ofBits_toBits]

theorem entryState_set_of_ne (t : CompressedEnumTable) {i j : Nat} (ne : j ≠ i) (state : EntryState) :
    entryState (setEntryState t i state) j = entryState t j := by
  have small : state.toBits.toNat < 2 ^ 2 := by cases state <;> decide
  rw [entryState, setEntryState, get_set_of_ne t (by decide) (by decide) ne small, entryState]

theorem entryState_set (t : CompressedEnumTable) (i j : Nat) (state : EntryState) :
    entryState (setEntryState t i state) j = if j = i then state else entryState t j := by
  split
  · rename_i same
    rw [same, entryState_set_self]
  · rename_i ne
    rw [entryState_set_of_ne t ne]

theorem entryState_congr {t t' : CompressedEnumTable} {i : Nat} (same : t (i / 16) = t' (i / 16)) :
    entryState t i = entryState t' i := by
  have word : t (getWordIndex 2 i) = t' (getWordIndex 2 i) := same
  rw [entryState, entryState, CompressedEnumTable.get, CompressedEnumTable.get, word]

theorem entryState_update (t r : CompressedEnumTable) (k i : Nat) :
    entryState (Function.update t k (r k)) i = if i / 16 = k then entryState r i else entryState t i := by
  split
  · rename_i inside
    apply entryState_congr
    rw [inside, Function.update_self]
  · rename_i outside
    exact entryState_congr (Function.update_of_ne outside _ _)

theorem toBits_entryState (t : CompressedEnumTable) (i : Nat) : (entryState t i).toBits = get 2 t i := by
  have four : ∀ w : Word, w.toNat < 4 → (EntryState.ofBits w).toBits = w := by
    intro w small
    have numeral : w = BitVec.ofNat 32 w.toNat := by simp
    rw [numeral]
    generalize w.toNat = v at small
    match v, small with
    | 0, _ => decide
    | 1, _ => decide
    | 2, _ => decide
    | 3, _ => decide
  apply four
  have masked : (get 2 t i).toNat ≤ (valueMask 2).toNat := by
    rw [CompressedEnumTable.get, BitVec.toNat_and]
    exact Nat.and_le_right
  exact Nat.lt_of_le_of_lt masked (by decide)

theorem getLsbD_word (t : CompressedEnumTable) (k : Nat) {b : Nat} (inside : b < 32) :
    (t k).getLsbD b = (entryState t (16 * k + b / 2)).toBits.getLsbD (b % 2) := by
  have word : getWordIndex 2 (16 * k + b / 2) = k := by
    unfold getWordIndex
    omega
  have position : (16 * k + b / 2) % (32 / 2) * 2 + b % 2 = b := by omega
  have low : b % 2 < 2 := Nat.mod_lt _ (by decide)
  rw [toBits_entryState, getLsbD_get t (by decide), word, position]
  simp [low]

theorem table_ext {t r : CompressedEnumTable} (same : ∀ i, entryState t i = entryState r i) : t = r := by
  funext k
  apply BitVec.eq_of_getLsbD_eq
  intro b inside
  rw [getLsbD_word t k inside, getLsbD_word r k inside, same]

def Clears (a b : EntryState) : Prop := ~~~ a.toBits &&& b.toBits = 0

instance (a b : EntryState) : Decidable (Clears a b) := inferInstanceAs (Decidable (_ = _))

theorem clears_refl (a : EntryState) : Clears a a := by cases a <;> decide

theorem clears_empty (a : EntryState) : Clears .empty a := by cases a <;> decide

theorem clears_erased (a : EntryState) : Clears a .erased := by cases a <;> decide

theorem word_clears {t r : CompressedEnumTable} {k : Nat}
    (clears : ∀ i, i / 16 = k → Clears (entryState t i) (entryState r i)) : ~~~ (t k) &&& r k = 0 := by
  apply BitVec.eq_of_getLsbD_eq
  intro b inside
  have bit := congrArg (BitVec.getLsbD · (b % 2)) (clears (16 * k + b / 2) (by omega))
  have low : b % 2 < 32 := by omega
  simp only [BitVec.getLsbD_and, BitVec.getLsbD_not, low, decide_true, Bool.true_and] at bit
  rw [BitVec.getLsbD_and, BitVec.getLsbD_not, getLsbD_word t k inside, getLsbD_word r k inside]
  simpa [inside] using bit

end EspFirmware.Proof.Nvs

/-!
What the writes to a sector do to its entries and their states.
-/

namespace EspFirmware.Proof.Nvs
open EspFirmware.Nvs EspFirmware.Spec EspFirmware.Lib Prog

def setState (s : Sector) (i : Nat) (state : EntryState) : Sector :=
  Function.update s (.table (i / 16)) (setEntryState (tableOf s) i state (i / 16))

theorem tableOf_setState (s : Sector) (i : Nat) (state : EntryState) :
    tableOf (setState s i state) = setEntryState (tableOf s) i state := by
  funext k
  by_cases word : k = i / 16
  · rw [word, tableOf, setState, Function.update_self]
  · have other : (Loc.table k) ≠ .table (i / 16) := fun same => word (Loc.table.inj same)
    rw [tableOf, setState, Function.update_of_ne other]
    have outside : k ≠ CompressedEnumTable.getWordIndex 2 i := word
    exact (set_word_ne (tableOf s) i k _ outside).symm

@[simp] theorem stateOf_setState (s : Sector) (i j : Nat) (state : EntryState) :
    stateOf (setState s i state) j = if j = i then state else stateOf s j := by
  rw [stateOf, tableOf_setState, entryState_set, stateOf]

@[simp] theorem setState_entry (s : Sector) (i j k : Nat) (state : EntryState) :
    setState s i state (.entry j k) = s (.entry j k) := by
  have other : Loc.entry j k ≠ .table (i / 16) := by simp
  exact Function.update_of_ne other _ _

@[simp] theorem setState_header (s : Sector) (i k : Nat) (state : EntryState) :
    setState s i state (.header k) = s (.header k) := by
  have other : Loc.header k ≠ .table (i / 16) := by simp
  exact Function.update_of_ne other _ _

theorem sector_ext {s s' : Sector} (header : ∀ k, s (.header k) = s' (.header k))
    (entry : ∀ i k, s (.entry i k) = s' (.entry i k)) (state : ∀ i, stateOf s i = stateOf s' i) : s = s' := by
  have table : tableOf s = tableOf s' := table_ext state
  funext loc
  cases loc with
  | header k => exact header k
  | table k => exact congrFun table k
  | entry i k => exact entry i k

theorem stateOf_updateTable (s : Sector) (k j : Nat) (w : Word) :
    stateOf (Function.update s (.table k) w) j = entryState (Function.update (tableOf s) k w) j := by
  have table : tableOf (Function.update s (.table k) w) = Function.update (tableOf s) k w := by
    funext x
    by_cases word : x = k
    · rw [word, Function.update_self, tableOf, Function.update_self]
    · have other : Loc.table x ≠ .table k := fun same => word (Loc.table.inj same)
      rw [Function.update_of_ne word, tableOf, Function.update_of_ne other, tableOf]
  rw [stateOf, table]

def setRange (s : Sector) (i : Nat) : Nat → EntryState → Sector
  | 0, _ => s
  | count + 1, state => setRange (setState s (i + count) state) i count state

theorem setRange_succ (s : Sector) (i count : Nat) (state : EntryState) :
    setRange s i (count + 1) state = setRange (setState s (i + count) state) i count state := rfl

@[simp] theorem stateOf_setRange (s : Sector) (i count j : Nat) (state : EntryState) :
    stateOf (setRange s i count state) j = if i ≤ j ∧ j < i + count then state else stateOf s j := by
  induction count generalizing s with
  | zero =>
      have outside : ¬ (i ≤ j ∧ j < i + 0) := by omega
      exact (if_neg outside).symm
  | succ count ih =>
      rw [setRange_succ, ih, stateOf_setState]
      by_cases last : j = i + count
      · have before : ¬ (i ≤ j ∧ j < i + count) := by omega
        have within : i ≤ j ∧ j < i + (count + 1) := by omega
        rw [if_neg before, if_pos last, if_pos within]
      · rw [if_neg last]
        by_cases within : i ≤ j ∧ j < i + count
        · have wider : i ≤ j ∧ j < i + (count + 1) := by omega
          rw [if_pos within, if_pos wider]
        · have out : ¬ (i ≤ j ∧ j < i + (count + 1)) := by omega
          rw [if_neg within, if_neg out]

@[simp] theorem setRange_entry (s : Sector) (i count j k : Nat) (state : EntryState) :
    setRange s i count state (.entry j k) = s (.entry j k) := by
  induction count generalizing s with
  | zero => rfl
  | succ count ih => rw [setRange_succ, ih, setState_entry]

@[simp] theorem setRange_header (s : Sector) (i count k : Nat) (state : EntryState) :
    setRange s i count state (.header k) = s (.header k) := by
  induction count generalizing s with
  | zero => rfl
  | succ count ih => rw [setRange_succ, ih, setState_header]

theorem setState_setRange (s : Sector) (i count : Nat) (state : EntryState) :
    setState (setRange s (i + 1) count state) i state = setRange s i (count + 1) state := by
  apply sector_ext
  · intro k
    simp
  · intro j k
    simp
  · intro j
    simp only [stateOf_setState, stateOf_setRange]
    by_cases first : j = i
    · have within : i ≤ j ∧ j < i + (count + 1) := by omega
      rw [if_pos first, if_pos within]
    · rw [if_neg first]
      by_cases within : i + 1 ≤ j ∧ j < i + 1 + count
      · have wider : i ≤ j ∧ j < i + (count + 1) := by omega
        rw [if_pos within, if_pos wider]
      · have out : ¬ (i ≤ j ∧ j < i + (count + 1)) := by omega
        rw [if_neg within, if_neg out]

abbrev wp {α : Type} (p : Page.PageM α) (post : Outcome EspErr α → Page → Sector → Prop) (cut : Sector → Prop)
    (pg : Page) (s : Sector) : Prop := Prog.wp SectorCall p post cut pg s

section
variable {post : Outcome EspErr Unit → Page → Sector → Prop} {cut : Sector → Prop} {pg : Page} {s : Sector}

theorem wp_writeWord {loc : Loc} {w : Word} (clears : ClearsBits s loc w)
    (now : SectorCall s [Function.update s loc w]) (done : post (.ok ()) pg (Function.update s loc w)) (stop : cut (Function.update s loc w)) :
    wp (Page.spiFlashWriteWord loc w) post cut pg s := by
  unfold Page.spiFlashWriteWord
  refine wp_bind (wp_read ?_)
  dsimp only
  have may : ¬ ~~~ (s loc) &&& w ≠ 0 := not_not_intro clears
  rw [if_neg may]
  exact wp_write now done stop

theorem wp_writeTable {k : Nat} {w : Word} (clears : ~~~ (tableOf s k) &&& w = 0)
    (done : post (.ok ()) pg (Function.update s (.table k) w)) (stop : cut (Function.update s (.table k) w)) :
    wp (Page.spiFlashWriteWord (.table k) w) post cut pg s :=
  wp_writeWord clears (.entryStates k w clears) done stop

theorem wp_orInvalid {α : Type} {p : Page.PageM α} {post : Outcome EspErr α → Page → Sector → Prop}
    (run : wp p (fun o pg s => match o with
      | .err e => post (.err e) { pg with mState := .invalid } s
      | o => post o pg s) cut pg s) : wp (Page.orInvalid p) post cut pg s := by
  unfold Page.orInvalid
  refine wp_bind (wp_attempt (wp_mono run ?_ fun _ stop => stop))
  intro o pg s ends
  cases o with
  | ok a => exact wp_pure a ends
  | err e => exact wp_bind (wp_modify (wp_throw e ends))
  | fault => exact ends

theorem wp_alterEntryState {i : Nat} {state : EntryState} (inside : i < ENTRY_COUNT)
    (table : pg.mEntryTable = tableOf s) (clears : Clears (stateOf s i) state)
    (done : post (.ok ()) { pg with mEntryTable := tableOf (setState s i state) } (setState s i state))
    (stop : cut (setState s i state)) : wp (Page.alterEntryState i state) post cut pg s := by
  unfold Page.alterEntryState
  refine wp_bind (wp_assert inside (wp_bind (wp_modify (wp_bind (wp_get (wp_orInvalid ?_))))))
  rw [tableOf_setState] at done
  have word : ~~~ (tableOf s (i / 16)) &&& setEntryState (tableOf s) i state (i / 16) = 0 := by
    apply word_clears
    intro j _
    rw [entryState_set]
    split
    · rename_i same
      rw [same]
      exact clears
    · exact clears_refl _
  rw [setState] at done stop
  rw [← table] at done stop
  exact wp_writeTable (by rw [table]; exact word) done stop

theorem wp_alterRangeLoop {s₀ : Sector} {b e : Nat} {state : EntryState}
    (clears : ∀ j, b ≤ j → j < e → Clears (stateOf s₀ j) state)
    (done : post (.ok ()) { pg with mEntryTable := tableOf (setRange s₀ b (e - b) state) }
      (setRange s₀ b (e - b) state))
    (stop : ∀ m, b ≤ m → m < e → cut (setRange s₀ m (e - m) state)) (count m wordIndex : Nat)
    (order : b + count ≤ m) (last : m ≤ e) (finished : count = 0 → m = b)
    (pending : ∀ j, b + count ≤ j → j < m → j / 16 = wordIndex)
    (word : 0 < count → wordIndex = (b + count - 1) / 16) :
    wp (Page.alterRangeLoop b state count wordIndex) post cut
      { pg with mEntryTable := tableOf (setRange s₀ (b + count) (e - (b + count)) state) }
      (setRange s₀ m (e - m) state) := by
  induction count generalizing m wordIndex with
  | zero =>
      rw [finished rfl, Nat.add_zero]
      exact wp_pure () done
  | succ count ih =>
      have index : wordIndex = (b + count) / 16 := word (Nat.succ_pos count)
      have table : setEntryState (tableOf (setRange s₀ (b + (count + 1)) (e - (b + (count + 1))) state))
          (b + count) state = tableOf (setRange s₀ (b + count) (e - (b + count)) state) := by
        have counts : e - (b + count) = (e - (b + (count + 1))) + 1 := by omega
        rw [← tableOf_setState, counts, ← Nat.add_assoc, setState_setRange]
      unfold Page.alterRangeLoop
      refine wp_bind (wp_modify ?_)
      dsimp only
      rw [table]
      by_cases write : count = 0 ∨ CompressedEnumTable.getWordIndex 2 (b + count - 1) ≠ wordIndex
      · have agree : ∀ j, j / 16 ≠ wordIndex → stateOf (setRange s₀ m (e - m) state) j =
            stateOf (setRange s₀ (b + count) (e - (b + count)) state) j := by
          intro j other
          have apart : ¬ (b + count ≤ j ∧ j < m) := by
            rintro ⟨low, high⟩
            by_cases now : j = b + count
            · exact other (by rw [now, index])
            · exact other (pending j (by omega) high)
          rw [stateOf_setRange, stateOf_setRange]
          by_cases within : m ≤ j ∧ j < m + (e - m)
          · rw [if_pos within, if_pos (by omega)]
          · rw [if_neg within, if_neg (by omega)]
        have written : Function.update (setRange s₀ m (e - m) state) (.table wordIndex)
            (tableOf (setRange s₀ (b + count) (e - (b + count)) state) wordIndex) =
              setRange s₀ (b + count) (e - (b + count)) state := by
          apply sector_ext
          · intro k
            rw [Function.update_of_ne (by simp), setRange_header, setRange_header]
          · intro i k
            rw [Function.update_of_ne (by simp), setRange_entry, setRange_entry]
          · intro j
            rw [stateOf_updateTable, entryState_update]
            split
            · rfl
            · rename_i other
              exact agree j other
        rw [if_pos write]
        refine wp_bind (wp_get (wp_bind (wp_writeTable ?_ ?_ ?_)))
        · change ~~~ (tableOf (setRange s₀ m (e - m) state) wordIndex) &&&
            tableOf (setRange s₀ (b + count) (e - (b + count)) state) wordIndex = 0
          apply word_clears
          intro j inside
          change Clears (stateOf (setRange s₀ m (e - m) state) j)
            (stateOf (setRange s₀ (b + count) (e - (b + count)) state) j)
          rw [stateOf_setRange, stateOf_setRange]
          by_cases within : m ≤ j ∧ j < m + (e - m)
          · rw [if_pos within, if_pos (by omega)]
            exact clears_refl _
          · rw [if_neg within]
            split
            · exact clears j (by omega) (by omega)
            · exact clears_refl _
        · dsimp only
          rw [written]
          exact ih (b + count) _ (Nat.le_refl _) (by omega) (by omega) (by omega) fun _ => rfl
        · dsimp only
          rw [written]
          exact stop (b + count) (by omega) (by omega)
      · rw [if_neg write]
        obtain ⟨more, same⟩ := not_or.mp write
        have same : (b + count - 1) / 16 = wordIndex := not_not.mp same
        refine ih m _ (by omega) last (fun zero => absurd zero more) ?_ fun _ => rfl
        intro j low high
        change j / 16 = (b + count - 1) / 16
        rw [same]
        by_cases now : j = b + count
        · rw [now, index]
        · exact pending j (by omega) high

theorem wp_alterEntryRangeState {b e : Nat} {state : EntryState} (nonempty : b < e) (inside : e ≤ ENTRY_COUNT)
    (table : pg.mEntryTable = tableOf s) (clears : ∀ j, b ≤ j → j < e → Clears (stateOf s j) state)
    (done : post (.ok ()) { pg with mEntryTable := tableOf (setRange s b (e - b) state) }
      (setRange s b (e - b) state))
    (stop : ∀ m, b ≤ m → m < e → cut (setRange s m (e - m) state)) :
    wp (Page.alterEntryRangeState b e state) post cut pg s := by
  unfold Page.alterEntryRangeState
  refine wp_bind (wp_assert inside (wp_bind (wp_assert nonempty ?_)))
  have total : b + (e - b) = e := by omega
  have start := wp_alterRangeLoop clears done stop (e - b) e ((e - 1) / 16) (by omega) (Nat.le_refl e)
    (by omega) (by omega) fun _ => by rw [total]
  rw [total, Nat.sub_self] at start
  have same : { pg with mEntryTable := tableOf (setRange s e 0 state) } = pg := by
    rw [setRange, ← table]
  rw [same] at start
  exact start

end

theorem put_other {words : List (Loc × Word)} {loc : Loc} (absent : loc ∉ words.map Prod.fst) (s : Sector) :
    put s words loc = s loc := by
  induction words generalizing s with
  | nil => rfl
  | cons x rest ih =>
      rw [List.map_cons, List.mem_cons, not_or] at absent
      rw [put, ih absent.2, Function.update_of_ne absent.1]

theorem put_mem {words : List (Loc × Word)} (distinct : (words.map Prod.fst).Nodup) {loc : Loc} {w : Word}
    (member : (loc, w) ∈ words) (s : Sector) : put s words loc = w := by
  induction words generalizing s with
  | nil => exact absurd member List.not_mem_nil
  | cons x rest ih =>
      rw [List.map_cons, List.nodup_cons] at distinct
      rcases List.mem_cons.mp member with rfl | later
      · rw [put, put_other distinct.1, Function.update_self]
      · exact ih distinct.2 later _

theorem last_puts (s : Sector) (words : List (Loc × Word)) : Prog.last s (puts s words) = put s words := by
  induction words generalizing s with
  | nil => rfl
  | cons x rest ih => exact ih _

theorem mem_puts {s x : Sector} {words : List (Loc × Word)} (member : x ∈ puts s words) :
    ∃ early late, words = early ++ late ∧ early ≠ [] ∧ x = put s early := by
  induction words generalizing s with
  | nil => exact absurd member List.not_mem_nil
  | cons y rest ih =>
      rcases List.mem_cons.mp member with rfl | later
      · exact ⟨[y], rest, rfl, List.cons_ne_nil _ _, rfl⟩
      · obtain ⟨early, late, split, -, eq⟩ := ih later
        exact ⟨y :: early, late, by rw [split, List.cons_append], List.cons_ne_nil _ _, eq⟩

theorem spiFlashWrite_ran (pg : Page) {s : Sector} {words : List (Loc × Word)} (distinct : (words.map Prod.fst).Nodup)
    (unwritten : ∀ loc ∈ words.map Prod.fst, s loc = blank) :
    Page.spiFlashWrite words pg s = ⟨.ok (), pg, put s words, puts s words⟩ := by
  induction words generalizing s with
  | nil => rfl
  | cons x rest ih =>
      rw [List.map_cons, List.nodup_cons] at distinct
      have clears : ¬ ~~~ (s x.1) &&& x.2 ≠ 0 := by
        rw [unwritten x.1 (by simp)]
        simp [blank]
      have now : Page.spiFlashWriteWord x.1 x.2 pg s =
          ⟨.ok (), pg, Function.update s x.1 x.2, [Function.update s x.1 x.2]⟩ := by
        have run : Page.spiFlashWriteWord x.1 x.2 pg s = (Prog.bind Prog.read fun s : Sector =>
            if ~~~ (s x.1) &&& x.2 ≠ 0 then Prog.throw EspErr.flashOpFail
            else Prog.write fun s => Function.update s x.1 x.2) pg s := rfl
        rw [run, Prog.bind, Prog.read]
        dsimp only
        rw [if_neg clears]
        rfl
      have later := ih (s := Function.update s x.1 x.2) distinct.2 (fun loc member => by
        have other : loc ≠ x.1 := fun same => distinct.1 (same ▸ member)
        rw [Function.update_of_ne other]
        exact unwritten loc (by simp [member]))
      change Prog.bind (Page.spiFlashWriteWord x.1 x.2) _ pg s = _
      unfold Prog.bind
      rw [now]
      dsimp only
      rw [later]
      rfl

theorem wp_spiFlashWrite {post : Outcome EspErr Unit → Page → Sector → Prop} {cut : Sector → Prop}
    {pg : Page} {s : Sector} {words : List (Loc × Word)} (distinct : (words.map Prod.fst).Nodup)
    (unwritten : ∀ loc ∈ words.map Prod.fst, s loc = blank) (now : SectorCall s (puts s words))
    (done : post (.ok ()) pg (put s words))
    (stop : ∀ early late, words = early ++ late → early ≠ [] → cut (put s early)) :
    wp (Page.spiFlashWrite words) post cut pg s := by
  refine wp_of_ran (spiFlashWrite_ran pg distinct unwritten) done (fun x step => ?_) (.single now)
    (last_puts s words).symm
  obtain ⟨early, late, split, nonempty, rfl⟩ := mem_puts step
  exact stop early late split nonempty

def SameBut (s s' : Sector) (lo hi : Nat) : Prop :=
  ∀ loc, (∀ j k, lo ≤ j → j < hi → loc ≠ .entry j k) → s' loc = s loc

namespace SameBut
variable {s s' : Sector} {lo hi : Nat}

theorem header (same : SameBut s s' lo hi) (k : Nat) : s' (.header k) = s (.header k) :=
  same _ fun _ _ _ _ => by simp

theorem table (same : SameBut s s' lo hi) : tableOf s' = tableOf s :=
  funext fun k => same _ fun _ _ _ _ => by simp

theorem state (same : SameBut s s' lo hi) (j : Nat) : stateOf s' j = stateOf s j := by
  rw [stateOf, same.table, stateOf]

theorem word (same : SameBut s s' lo hi) {j : Nat} (outside : j < lo ∨ hi ≤ j) (k : Nat) :
    s' (.entry j k) = s (.entry j k) := by
  apply same
  intro j' k' low high equal
  injection equal with index
  omega

theorem entry (same : SameBut s s' lo hi) {j : Nat} (outside : j < lo ∨ hi ≤ j) :
    Page.entryAt s' j = Page.entryAt s j := funext fun k => same.word outside k.val

end SameBut

theorem fst_entryWords (i : Nat) (item : Item) :
    (Page.entryWords i item).map Prod.fst = (List.finRange 8).map fun k => Loc.entry i k.val := by
  rw [Page.entryWords, List.map_map]
  rfl

theorem nodup_entryWords (i : Nat) (item : Item) : ((Page.entryWords i item).map Prod.fst).Nodup := by
  rw [fst_entryWords]
  apply (List.nodup_finRange 8).map
  intro a b same
  injection same with _ index
  exact Fin.ext index

theorem mem_entryRun {i : Nat} {items : List Item} {loc : Loc}
    (member : loc ∈ (entryRun i items).map Prod.fst) :
    ∃ j k, i ≤ j ∧ j < i + items.length ∧ loc = .entry j k := by
  obtain ⟨word, inside, rfl⟩ := List.mem_map.mp member
  obtain ⟨⟨item, k⟩, indexed, inside⟩ := List.mem_flatMap.mp inside
  obtain ⟨c, -, rfl⟩ := List.mem_map.mp inside
  obtain ⟨-, bound, -⟩ := List.mem_zipIdx indexed
  exact ⟨i + k, c.val, Nat.le_add_right i k, by omega, rfl⟩

theorem nodup_entryRun (i : Nat) (items : List Item) : ((entryRun i items).map Prod.fst).Nodup := by
  rw [entryRun, List.map_flatMap, List.nodup_flatMap]
  refine ⟨fun e _ => nodup_entryWords _ _, ?_⟩
  have increasing : items.zipIdx.Pairwise fun a b => a.2 < b.2 := by
    have indices : (items.zipIdx.map Prod.snd).Pairwise (· < ·) := by
      rw [List.zipIdx_map_snd]
      exact List.pairwise_lt_range'
    exact List.pairwise_map.mp indices
  refine increasing.imp ?_
  intro a b less
  change ((Page.entryWords (i + a.2) a.1).map Prod.fst).Disjoint ((Page.entryWords (i + b.2) b.1).map Prod.fst)
  rw [fst_entryWords, fst_entryWords, List.disjoint_left]
  intro loc left right
  obtain ⟨x, -, rfl⟩ := List.mem_map.mp left
  obtain ⟨y, -, same⟩ := List.mem_map.mp right
  injection same with index
  omega

theorem sameBut_put {i : Nat} {items : List Item} {early late : List (Loc × Word)}
    (split : entryRun i items = early ++ late) (s : Sector) :
    SameBut s (put s early) i (i + items.length) := by
  intro loc outside
  apply put_other
  intro member
  have inside : loc ∈ (entryRun i items).map Prod.fst := by
    rw [split, List.map_append]
    exact List.mem_append_left _ member
  obtain ⟨j, k, low, high, same⟩ := mem_entryRun inside
  exact outside j k low high same

theorem entryAt_put (s : Sector) (i : Nat) {items : List Item} {k : Nat} (inside : k < items.length) :
    Page.entryAt (put s (entryRun i items)) (i + k) = items[k] := by
  funext c
  apply put_mem (nodup_entryRun i items)
  refine List.mem_flatMap.mpr ⟨(items[k], k), ?_, ?_⟩
  · exact List.mem_zipIdx_iff_getElem?.mpr (List.getElem?_eq_getElem inside)
  · exact List.mem_map.mpr ⟨c, List.mem_finRange c, rfl⟩

theorem entriesAt_put (s : Sector) (i : Nat) (items : List Item) :
    entriesAt (put s (entryRun i items)) i items.length = items := by
  apply List.ext_getElem
  · rw [entriesAt, List.length_map, List.length_range]
  · intro k _ inside
    simp only [entriesAt, List.getElem_map, List.getElem_range, entryAt_put s i inside]

end EspFirmware.Proof.Nvs
