import Mathlib.Data.List.Basic
import Mathlib.Data.Nat.Find
import EspFirmware.Proof.Nvs.Flash

/-!
What the blocks of a hash list come to: the list of its live nodes.
-/

namespace EspFirmware.Proof.Nvs
open EspFirmware.Nvs

def isLive (node : HashListNode) : Bool := node.mIndex ≠ HashList.NO_INDEX

def live (list : HashList) : List HashListNode := list.flatten.filter isLive

theorem flatten_appendNode (node : HashListNode) (list : HashList) :
    (HashList.appendNode node list).flatten = list.flatten ++ [node] := by
  induction list using HashList.appendNode.induct with
  | case1 => rfl
  | case2 block room => simp [HashList.appendNode, room]
  | case3 block full => simp [HashList.appendNode, full]
  | case4 block rest more ih =>
      rw [HashList.appendNode]
      · simp [ih]
      · exact more

theorem live_insert (list : HashList) (hash : BitVec 24) {index : Nat} (small : index < 255) :
    live (list.insert hash index) = live list ++ [⟨BitVec.ofNat 8 index, hash⟩] := by
  have alive : isLive ⟨BitVec.ofNat 8 index, hash⟩ = true := by
    have differs : BitVec.ofNat 8 index ≠ HashList.NO_INDEX := by
      intro same
      have := congrArg BitVec.toNat same
      rw [BitVec.toNat_ofNat, show HashList.NO_INDEX.toNat = 255 from rfl] at this
      omega
    simpa [isLive] using differs
  simp [live, HashList.insert, flatten_appendNode, alive]

abbrev nodeOf (index : Nat) (node : HashListNode) : Bool := node.mIndex.toNat = index

theorem isLive_of_nodeOf {index : Nat} (small : index < 255) {node : HashListNode}
    (same : node.mIndex.toNat = index) : isLive node = true := by
  have differs : node.mIndex ≠ HashList.NO_INDEX := by
    intro dead
    rw [dead, show HashList.NO_INDEX.toNat = 255 from rfl] at same
    omega
  simpa [isLive] using differs

theorem eraseInBlock_none {index : Nat} {block : List HashListNode}
    (missing : HashList.eraseInBlock index block = none) : ∀ node ∈ block, node.mIndex.toNat ≠ index := by
  induction block with
  | nil => exact nofun
  | cons node rest ih =>
      unfold HashList.eraseInBlock at missing
      split at missing
      · contradiction
      · rename_i other
        rw [Option.map_eq_none_iff] at missing
        intro x member
        rcases List.mem_cons.mp member with rfl | later
        · exact other
        · exact ih missing x later

theorem eraseInBlock_some {index : Nat} (small : index < 255) {block block' : List HashListNode}
    (found : HashList.eraseInBlock index block = some block') :
    block'.filter isLive = (block.filter isLive).eraseP (nodeOf index) ∧
      (block.filter isLive).any (nodeOf index) = true := by
  induction block generalizing block' with
  | nil => contradiction
  | cons node rest ih =>
      unfold HashList.eraseInBlock at found
      split at found
      · rename_i same
        cases found
        have alive := isLive_of_nodeOf small same
        have dead : isLive { node with mIndex := HashList.NO_INDEX } = false := by simp [isLive]
        simp [alive, dead, nodeOf, same]
      · rename_i other
        obtain ⟨rest', inner, rfl⟩ := Option.map_eq_some_iff.mp found
        obtain ⟨filtered, some_⟩ := ih inner
        cases alive : isLive node with
        | true =>
            refine ⟨?_, ?_⟩
            · simp [alive, nodeOf, other, filtered]
            · simp only [List.filter_cons, alive, if_true, List.any_cons, some_, Bool.or_true]
        | false =>
            refine ⟨?_, ?_⟩
            · simp [alive, filtered]
            · simpa [alive] using some_

theorem live_erase {index : Nat} (small : index < 255) (list : HashList) :
    live (HashList.erase index list).1 = (live list).eraseP (nodeOf index) ∧
      (HashList.erase index list).2 = (live list).any (nodeOf index) := by
  induction list with
  | nil => exact ⟨rfl, rfl⟩
  | cons block rest ih =>
      unfold HashList.erase
      cases inner : HashList.eraseInBlock index block with
      | some block' =>
          obtain ⟨filtered, some_⟩ := eraseInBlock_some small inner
          obtain ⟨node, member, same⟩ := List.any_eq_true.mp some_
          refine ⟨?_, ?_⟩
          · simp only [live, List.flatten_cons, List.filter_append, filtered]
            rw [List.eraseP_append_left same _ member]
          · simp only [live, List.flatten_cons, List.filter_append, List.any_append, some_, Bool.true_or]
      | none =>
          have absent := eraseInBlock_none inner
          have skipped (tail : List HashListNode) :
              (block.filter isLive ++ tail).eraseP (nodeOf index) =
                block.filter isLive ++ tail.eraseP (nodeOf index) := by
            apply List.eraseP_append_right
            intro node member same
            exact absent node (List.mem_of_mem_filter member) (of_decide_eq_true same)
          have none_ : (block.filter isLive).any (nodeOf index) = false := by
            rw [List.any_eq_false]
            intro node member same
            exact absent node (List.mem_of_mem_filter member) (of_decide_eq_true same)
          dsimp only
          refine ⟨?_, ?_⟩
          · have total : live (block :: rest) = block.filter isLive ++ live rest := by simp [live]
            rw [total, skipped, ← ih.1]
            split
            · simp [live]
            · rename_i dead
              have empty : block.filter isLive = [] := by
                rw [List.filter_eq_nil_iff]
                intro node member alive
                exact dead (List.any_eq_true.mpr ⟨node, member, alive⟩)
              rw [empty, List.nil_append]
          · rw [ih.2]
            simp only [live, List.flatten_cons, List.filter_append, List.any_append, none_, Bool.false_or]

theorem find_eq (list : HashList) (start : Nat) (hash : BitVec 24) :
    list.find start hash = ((live list).find? fun node =>
      decide (start ≤ node.mIndex.toNat) && node.mHash == hash).map fun node => node.mIndex.toNat := by
  rw [HashList.find, live, List.find?_filter]
  congr 2
  funext node
  by_cases dead : node.mIndex = HashList.NO_INDEX
  · simp [isLive, dead]
  · have alive : (node.mIndex != HashList.NO_INDEX) = true := bne_iff_ne.mpr dead
    simp only [isLive, dead, alive, Bool.and_true, ne_eq, not_false_eq_true, decide_true, true_and,
      Bool.decide_eq_true]

end EspFirmware.Proof.Nvs

/-!
Segments one after the other, and the counters a page keeps about them.
-/

namespace EspFirmware.Proof.Nvs
open EspFirmware.Nvs EspFirmware.Spec EspFirmware.Lib

variable {env : Env}

@[simp] theorem size_nil : size [] = 0 := rfl

@[simp] theorem size_cons (seg : Seg) (segs : List Seg) : size (seg :: segs) = seg.size + size segs := by
  rw [size, List.map_cons, List.sum_cons, size]

@[simp] theorem size_append (a b : List Seg) : size (a ++ b) = size a + size b := by
  rw [size, List.map_append, List.sum_append, size, size]

@[simp] theorem size_gone : Seg.gone.size = 1 := rfl

@[simp] theorem size_item (r : Record) : (Seg.item r).size = r.body.length + 1 := rfl

@[simp] theorem size_torn (head : Item) (len : Nat) : (Seg.torn head len).size = len + 1 := rfl

theorem size_pos (seg : Seg) : 0 < seg.size := by cases seg <;> simp

abbrev gones (count : Nat) : List Seg := List.replicate count .gone

@[simp] theorem size_gones (count : Nat) : size (gones count) = count := by
  simp [size, gones]

theorem located_append (i : Nat) (a b : List Seg) :
    located i (a ++ b) = located i a ++ located (i + size a) b := by
  induction a generalizing i with
  | nil => rfl
  | cons seg rest ih =>
      cases seg <;>
        simp only [List.cons_append, located, ih, size_cons, size_gone, size_item, size_torn, Record.size,
          Nat.add_assoc]

@[simp] theorem located_gones (i count : Nat) : located i (gones count) = [] := by
  induction count generalizing i with
  | zero => rfl
  | succ count ih => exact ih (i + 1)

theorem located_bounds {i : Nat} {segs : List Seg} {x : Nat × Record} (member : x ∈ located i segs) :
    i ≤ x.1 ∧ x.1 + x.2.body.length < i + size segs := by
  induction segs generalizing i with
  | nil => exact absurd member List.not_mem_nil
  | cons seg rest ih =>
      rw [size_cons]
      cases seg with
      | gone =>
          have := ih member
          rw [size_gone]
          omega
      | item r =>
          rw [size_item]
          rcases List.mem_cons.mp member with rfl | later
          · dsimp only
            omega
          · have := ih later
            rw [Record.size] at this
            omega
      | torn head len =>
          have := ih member
          rw [size_torn]
          omega

theorem located_sorted (i : Nat) (segs : List Seg) : (located i segs).Pairwise fun a b => a.1 < b.1 := by
  induction segs generalizing i with
  | nil => exact List.Pairwise.nil
  | cons seg rest ih =>
      cases seg with
      | gone => exact ih _
      | item r =>
          refine List.pairwise_cons.mpr ⟨fun x later => ?_, ih _⟩
          have := (located_bounds later).1
          rw [Record.size] at this
          dsimp only
          omega
      | torn head len => exact ih _

theorem located_split {i : Nat} {segs : List Seg} {x : Nat × Record} (member : x ∈ located i segs) :
    ∃ a b, segs = a ++ .item x.2 :: b ∧ x.1 = i + size a := by
  induction segs generalizing i with
  | nil => exact absurd member List.not_mem_nil
  | cons seg rest ih =>
      have later (inside : x ∈ located (i + seg.size) rest) :
          ∃ a b, seg :: rest = a ++ .item x.2 :: b ∧ x.1 = i + size a := by
        obtain ⟨a, b, split, place⟩ := ih inside
        exact ⟨seg :: a, b, by rw [split, List.cons_append], by rw [place, size_cons, Nat.add_assoc]⟩
      cases seg with
      | gone => exact later member
      | item r =>
          rcases List.mem_cons.mp member with rfl | inside
          · exact ⟨[], rest, rfl, rfl⟩
          · exact later inside
      | torn head len => exact later member

def Agree (s s' : Sector) (lo hi : Nat) : Prop :=
  ∀ j, lo ≤ j → j < hi → stateOf s' j = stateOf s j ∧ Page.entryAt s' j = Page.entryAt s j

theorem entriesAt_congr {s s' : Sector} {i count : Nat}
    (same : ∀ j, i ≤ j → j < i + count → Page.entryAt s' j = Page.entryAt s j) :
    entriesAt s' i count = entriesAt s i count := by
  apply List.map_congr_left
  intro k inside
  exact same (i + k) (by omega) (by have := List.mem_range.mp inside; omega)

theorem itemAt_congr {s s' : Sector} {i : Nat} {r : Record} (agree : Agree s s' i (i + (r.body.length + 1)))
    (at_ : ItemAt env s i r) : ItemAt env s' i r where
  sound := at_.sound
  head := by rw [(agree i (by omega) (by omega)).2, at_.head]
  body := by
    rw [entriesAt_congr fun j low high => (agree j (by omega) (by omega)).2, at_.body]
  written k inside := by rw [(agree (i + k) (by omega) (by omega)).1, at_.written k inside]

theorem tornAt_congr {s s' : Sector} {i : Nat} {head : Item} {len : Nat}
    (agree : Agree s s' i (i + (len + 1))) (at_ : TornAt env s i head len) : TornAt env s' i head len where
  sound := at_.sound
  head := by rw [(agree i (by omega) (by omega)).2, at_.head]
  written := by rw [(agree i (by omega) (by omega)).1, at_.written]
  missing := by
    obtain ⟨k, inside, state⟩ := at_.missing
    exact ⟨k, inside, by rwa [(agree (i + k) (by omega) (by omega)).1]⟩

theorem segAt_congr {s s' : Sector} {i : Nat} {seg : Seg} (agree : Agree s s' i (i + seg.size))
    (at_ : SegAt env s i seg) : SegAt env s' i seg := by
  cases seg with
  | gone => exact (agree i (by omega) (by simp)).1.trans at_
  | item r => exact itemAt_congr agree at_
  | torn head len =>
      refine ⟨tornAt_congr agree at_.1, fun k inside => ?_⟩
      rw [(agree (i + k) (by omega) (by rw [size_torn]; omega)).1]
      exact at_.2 k inside

theorem holds_congr {s s' : Sector} {i : Nat} {segs : List Seg} (agree : Agree s s' i (i + size segs))
    (holds : Holds env s i segs) : Holds env s' i segs := by
  induction segs generalizing i with
  | nil => exact trivial
  | cons seg rest ih =>
      rw [size_cons] at agree
      refine ⟨segAt_congr (fun j low high => agree j low (by omega)) holds.1, ih ?_ holds.2⟩
      exact fun j low high => agree j (by omega) (by omega)

theorem holds_append {s : Sector} {i : Nat} {a b : List Seg} :
    Holds env s i (a ++ b) ↔ Holds env s i a ∧ Holds env s (i + size a) b := by
  induction a generalizing i with
  | nil => simp [Holds]
  | cons seg rest ih => simp only [List.cons_append, Holds, ih, size_cons, Nat.add_assoc, and_assoc]

theorem holds_gones {s : Sector} {i count : Nat} (erased : ∀ j, i ≤ j → j < i + count → stateOf s j = .erased) :
    Holds env s i (gones count) := by
  induction count generalizing i with
  | zero => exact trivial
  | succ count ih =>
      exact ⟨erased i (Nat.le_refl i) (by omega), ih fun j low high =>
        erased j (by rw [size_gone] at low; omega) (by rw [size_gone] at high; omega)⟩

theorem located_itemAt {s : Sector} {i : Nat} {segs : List Seg} (holds : Holds env s i segs)
    {x : Nat × Record} (member : x ∈ located i segs) : ItemAt env s x.1 x.2 := by
  obtain ⟨a, b, rfl, place⟩ := located_split member
  rw [place]
  exact (holds_append.mp holds).2.1

theorem holds_state {s : Sector} {i : Nat} {segs : List Seg} (holds : Holds env s i segs) {j : Nat}
    (low : i ≤ j) (high : j < i + size segs) : stateOf s j = .written ∨ stateOf s j = .erased := by
  induction segs generalizing i with
  | nil =>
      rw [size_nil] at high
      omega
  | cons seg rest ih =>
      by_cases later : i + seg.size ≤ j
      · exact ih holds.2 later (by rw [size_cons] at high; omega)
      · cases seg with
        | gone =>
            have here : j = i := by rw [size_gone] at later; omega
            rw [here]
            exact Or.inr holds.1
        | item r =>
            have written := holds.1.written (j - i) (by rw [size_item] at later; omega)
            rw [Nat.add_sub_cancel' low] at written
            exact Or.inl written
        | torn head len =>
            have states := holds.1.2 (j - i) (by rw [size_torn] at later; omega)
            rw [Nat.add_sub_cancel' low] at states
            exact states

def usedCount (s : Sector) : Nat := (List.range ENTRY_COUNT).countP fun i => stateOf s i = .written

def firstUsed (s : Sector) : Nat :=
  ((List.range ENTRY_COUNT).find? fun i => stateOf s i = .written).getD INVALID_ENTRY

theorem countP_range_change {p q : Nat → Bool} {n i : Nat} (inside : i < n) (before : p i = true)
    (after : q i = false) (others : ∀ j, j ≠ i → q j = p j) :
    (List.range n).countP p = (List.range n).countP q + 1 := by
  induction n with
  | zero => omega
  | succ n ih =>
      rw [List.range_succ, List.countP_append, List.countP_append, List.countP_singleton, List.countP_singleton]
      by_cases last : i = n
      · have same : (List.range n).countP q = (List.range n).countP p := by
          apply List.countP_congr
          intro j member
          rw [others j (by have := List.mem_range.mp member; omega)]
        rw [same, ← last, before, after]
        rfl
      · rw [ih (by omega), others n (by omega)]
        omega

def stateCount (state : EntryState) (s : Sector) : Nat :=
  (List.range ENTRY_COUNT).countP fun i => stateOf s i = state

theorem stateCount_le (state : EntryState) (s : Sector) : stateCount state s ≤ ENTRY_COUNT := by
  have bound := List.countP_le_length (p := fun i => decide (stateOf s i = state)) (l := List.range ENTRY_COUNT)
  rwa [List.length_range] at bound

theorem stateCount_set {s : Sector} {i : Nat} {state : EntryState} (inside : i < ENTRY_COUNT)
    (other : stateOf s i ≠ state) : stateCount state (setState s i state) = stateCount state s + 1 := by
  apply countP_range_change inside
  · simp
  · simpa using other
  · intro j other
    simp [other]

theorem stateCount_dropped {s : Sector} {i : Nat} {state : EntryState} (inside : i < ENTRY_COUNT)
    (here : stateOf s i = state) (state' : EntryState) (other : state' ≠ state) :
    stateCount state s = stateCount state (setState s i state') + 1 := by
  apply countP_range_change inside
  · simpa using here
  · simpa using other
  · intro j other
    simp [other]

theorem stateCount_congr {s s' : Sector} {state : EntryState}
    (same : ∀ j, stateOf s' j = state ↔ stateOf s j = state) : stateCount state s' = stateCount state s := by
  apply List.countP_congr
  intro j _
  simpa using same j

theorem stateCount_setRange {s : Sector} {i count : Nat} {state : EntryState} (fits : i + count ≤ ENTRY_COUNT)
    (others : ∀ j, i ≤ j → j < i + count → stateOf s j ≠ state) :
    stateCount state (setRange s i count state) = stateCount state s + count := by
  induction count generalizing s with
  | zero => rfl
  | succ count ih =>
      rw [setRange_succ, ih (by omega), stateCount_set (by omega) (others _ (by omega) (by omega))]
      · omega
      · intro j ge lt
        rw [stateOf_setState, if_neg (by omega)]
        exact others j ge (by omega)

theorem usedCount_le (s : Sector) : usedCount s ≤ ENTRY_COUNT := stateCount_le .written s

theorem usedCount_dropped {s : Sector} {i : Nat} (inside : i < ENTRY_COUNT) (state : stateOf s i = .written)
    (state' : EntryState) (other : state' ≠ .written) :
    usedCount s = usedCount (setState s i state') + 1 := stateCount_dropped inside state state' other

theorem usedCount_congr {s s' : Sector}
    (same : ∀ j, stateOf s' j = .written ↔ stateOf s j = .written) : usedCount s' = usedCount s :=
  stateCount_congr same

theorem firstUsed_eq {s : Sector} {i : Nat} (inside : i < ENTRY_COUNT) (written : stateOf s i = .written)
    (before : ∀ j, j < i → stateOf s j ≠ .written) : firstUsed s = i := by
  have found : (List.range ENTRY_COUNT).find? (fun i => decide (stateOf s i = .written)) = some i := by
    rw [List.find?_range_eq_some]
    exact ⟨by simpa using written, List.mem_range.mpr inside, fun j less => by simpa using before j less⟩
  rw [firstUsed, found]
  rfl

theorem firstUsed_none {s : Sector} (none_ : ∀ j, j < ENTRY_COUNT → stateOf s j ≠ .written) :
    firstUsed s = INVALID_ENTRY := by
  have found : (List.range ENTRY_COUNT).find? (fun i => decide (stateOf s i = .written)) = none := by
    rw [List.find?_range_eq_none]
    intro j inside
    simpa using none_ j inside
  rw [firstUsed, found]
  rfl

theorem firstUsed_cases (s : Sector) :
    (firstUsed s < ENTRY_COUNT ∧ stateOf s (firstUsed s) = .written ∧
      ∀ j, j < firstUsed s → stateOf s j ≠ .written) ∨
    (firstUsed s = INVALID_ENTRY ∧ ∀ j, j < ENTRY_COUNT → stateOf s j ≠ .written) := by
  by_cases used : ∃ j, j < ENTRY_COUNT ∧ stateOf s j = .written
  · left
    have least := Nat.find_spec used
    have below : ∀ j, j < Nat.find used → stateOf s j ≠ .written := by
      intro j less written
      exact Nat.find_min used less ⟨by omega, written⟩
    rw [firstUsed_eq least.1 least.2 below]
    exact ⟨least.1, least.2, below⟩
  · right
    have none_ : ∀ j, j < ENTRY_COUNT → stateOf s j ≠ .written := fun j inside written => used ⟨j, inside, written⟩
    exact ⟨firstUsed_none none_, none_⟩

theorem firstUsed_congr {s s' : Sector}
    (same : ∀ j, stateOf s' j = .written ↔ stateOf s j = .written) : firstUsed s' = firstUsed s := by
  have predicates : (fun i => decide (stateOf s' i = .written)) = fun i => decide (stateOf s i = .written) := by
    funext j
    rw [decide_eq_decide]
    exact same j
  rw [firstUsed, firstUsed, predicates]

theorem firstUsed_le {s : Sector} {i : Nat} (inside : i < ENTRY_COUNT) (written : stateOf s i = .written) :
    firstUsed s ≤ i := by
  rcases firstUsed_cases s with ⟨-, -, before⟩ | ⟨-, none_⟩
  · exact Nat.le_of_not_lt fun less => before i less written
  · exact absurd written (none_ i inside)

structure Synced (pg : Page) (s : Sector) : Prop where
  table : pg.mEntryTable = tableOf s
  used : pg.mUsedEntryCount = usedCount s
  first : pg.mFirstUsedEntry = firstUsed s

def Steady (pg : Page) : Prop :=
  pg.mErasedEntryCount = (List.range ENTRY_COUNT).countP fun i => entryState pg.mEntryTable i = .erased

theorem steady_iff {pg : Page} {s : Sector} (table : pg.mEntryTable = tableOf s) :
    Steady pg ↔ pg.mErasedEntryCount = stateCount .erased s := by
  rw [Steady, table, stateCount]
  rfl

end EspFirmware.Proof.Nvs
