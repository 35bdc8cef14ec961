import EspFirmware.Spec.PageScan
import EspFirmware.Proof.Nvs.Item
import EspFirmware.Proof.Nvs.Clean

/-!
`findItem` on a page that is in order finds what a plain scan finds: the hash list only lets it skip items
that do not match.
-/

namespace EspFirmware.Proof.Nvs
open EspFirmware.Nvs EspFirmware.Spec EspFirmware.Lib Prog

variable {env : Env}

theorem cString_eq (memory : List Byte) :
    cString memory = if memory.headD 0 = 0 then [] else memory.headD 0 :: cString memory.tail := by
  cases memory with
  | nil => rfl
  | cons b rest =>
      rw [cString, List.takeWhile_cons, List.headD_cons, List.tail_cons]
      by_cases zero : b = 0
      · rw [if_pos zero, if_neg (by simp [zero])]
      · rw [if_neg zero, if_pos (by simpa using zero), cString]

theorem strncmpEq_iff (n : Nat) (a b : List Byte) :
    Page.strncmpEq n a b = true ↔ (cString a).take n = (cString b).take n := by
  induction n generalizing a b with
  | zero => simp [Page.strncmpEq]
  | succ n ih =>
      rw [Page.strncmpEq, Bool.and_eq_true, Bool.or_eq_true, beq_iff_eq, beq_iff_eq, ih, cString_eq a, cString_eq b]
      by_cases zero : a.headD 0 = 0
      · rw [if_pos zero, zero]
        by_cases zero' : b.headD 0 = 0
        · rw [if_pos zero', zero']
          simp
        · rw [if_neg zero', List.take_succ_cons]
          constructor
          · exact fun same => absurd same.1.symm zero'
          · exact nofun
      · rw [if_neg zero]
        by_cases zero' : b.headD 0 = 0
        · rw [if_pos zero', zero']
          constructor
          · exact fun same => absurd same.1 zero
          · exact nofun
        · rw [if_neg zero', List.take_succ_cons, List.take_succ_cons, List.cons.injEq]
          exact and_congr_right fun _ => ⟨fun either => either.resolve_left zero, Or.inr⟩

theorem keyField_congr {a b : List Byte} (same : (cString a).take MAX_KEY_LENGTH = (cString b).take MAX_KEY_LENGTH) :
    keyField (some a) = keyField (some b) := by
  rw [keyField, same, keyField]

section
variable {nsIndex : Byte} {datatype : ItemType} {key : List Byte}

theorem hash_of_match {head : Item} {len : Nat} (sound : Sound env head len) (namespace_ : nsIndex ≠ NS_ANY)
    (matches_ : Page.matchItem nsIndex datatype (some key) head ≠ none) :
    env.itemHash (Item.make nsIndex datatype 0 (some key)) = env.itemHash head := by
  obtain ⟨ns, -, -, key_⟩ := make_fields nsIndex datatype 0 key
  unfold Page.matchItem at matches_
  split at matches_
  · exact absurd rfl matches_
  · rename_i inside
    split at matches_
    · exact absurd rfl matches_
    · rename_i same
      have equal : Page.strncmpEq MAX_KEY_LENGTH key head.key = true := by simpa using same
      have index : head.nsIndex = nsIndex := by
        by_contra other
        exact inside ⟨namespace_, other⟩
      rw [Env.itemHash, ns, key_, keyField_congr ((strncmpEq_iff _ _ _).mp equal), sound.key, Env.itemHash, index]

end

theorem matchItem_any (head : Item) : Page.matchItem NS_ANY ItemType.ANY none head = some (.ok ()) := by
  unfold Page.matchItem
  simp

section
variable {nsIndex : Byte} {datatype : ItemType} {key : Option (List Byte)}

theorem firstMatch_cons (x : Nat × Record) (rest : List (Nat × Record)) :
    firstMatch nsIndex datatype key (x :: rest) =
      match Page.matchItem nsIndex datatype key x.2.head with
      | none => firstMatch nsIndex datatype key rest
      | some (.error e) => .error e
      | some (.ok _) => .ok x := rfl

theorem firstMatch_skip {xs : List (Nat × Record)} (ys : List (Nat × Record))
    (none_ : ∀ x ∈ xs, Page.matchItem nsIndex datatype key x.2.head = none) :
    firstMatch nsIndex datatype key (xs ++ ys) = firstMatch nsIndex datatype key ys := by
  induction xs with
  | nil => rfl
  | cons x xs ih =>
      rw [List.cons_append, firstMatch_cons, none_ x List.mem_cons_self]
      exact ih fun y member => none_ y (List.mem_cons_of_mem _ member)

theorem firstMatch_none {xs : List (Nat × Record)}
    (none_ : ∀ x ∈ xs, Page.matchItem nsIndex datatype key x.2.head = none) :
    firstMatch nsIndex datatype key xs = .error .notFound := by
  have skip := firstMatch_skip [] none_
  rwa [List.append_nil] at skip

theorem firstMatch_mem {xs : List (Nat × Record)} {x : Nat × Record}
    (found : firstMatch nsIndex datatype key xs = .ok x) :
    x ∈ xs ∧ Page.matchItem nsIndex datatype key x.2.head = some (.ok ()) := by
  induction xs with
  | nil => exact absurd found (by simp [firstMatch])
  | cons y xs ih =>
      rw [firstMatch_cons] at found
      cases match_ : Page.matchItem nsIndex datatype key y.2.head with
      | none =>
          rw [match_] at found
          exact ⟨List.mem_cons_of_mem _ (ih found).1, (ih found).2⟩
      | some result =>
          cases result with
          | error e =>
              rw [match_] at found
              exact absurd found (by simp)
          | ok u =>
              rw [match_] at found
              injection found with same
              subst same
              exact ⟨List.mem_cons_self, match_⟩

end

theorem filter_located {a b : List Seg} {start : Nat} (at_ : size a = start) :
    (located 0 (a ++ b)).filter (fun x => decide (start ≤ x.1)) = located start b := by
  rw [located_append, Nat.zero_add, at_, List.filter_append]
  have early : (located 0 a).filter (fun x => decide (start ≤ x.1)) = [] := by
    rw [List.filter_eq_nil_iff]
    intro x member
    have := located_bounds member
    simpa using (by omega : x.1 < start)
  have late : (located start b).filter (fun x => decide (start ≤ x.1)) = located start b := by
    rw [List.filter_eq_self]
    intro x member
    have := located_bounds member
    simpa using this.1
  rw [early, late, List.nil_append]

section
variable {pg : Page} {s : Sector} {segs : List Seg}

theorem filter_beyond (start : Nat) (beyond : size segs ≤ start) :
    (located 0 segs).filter (fun x => decide (start ≤ x.1)) = [] := by
  rw [List.filter_eq_nil_iff]
  intro x member
  have := located_bounds member
  simpa using (by omega : x.1 < start)

theorem erased_of_none {i : Nat} (whole : Whole segs) (none_ : located i segs = []) (holds : Holds env s i segs)
    {j : Nat} (low : i ≤ j) (high : j < i + size segs) : stateOf s j = .erased := by
  induction segs generalizing i with
  | nil =>
      rw [size_nil] at high
      omega
  | cons seg segs ih =>
      cases seg with
      | gone =>
          by_cases first : j = i
          · rw [first]
            exact holds.1
          · rw [size_cons, size_gone] at high
            exact ih (fun seg member => whole seg (List.mem_cons_of_mem _ member)) none_ holds.2
              (by omega) (by omega)
      | item r => exact absurd none_ (List.cons_ne_nil _ _)
      | torn head len => exact absurd (whole _ List.mem_cons_self) Bool.false_ne_true

theorem Clean.firstItem (clean : Clean env pg s segs) :
    (firstUsed s = INVALID_ENTRY ∧ located 0 segs = []) ∨
      ∃ a r b, segs = a ++ .item r :: b ∧ size a = firstUsed s := by
  cases items : located 0 segs with
  | nil =>
      left
      refine ⟨firstUsed_none fun j inside written => ?_, rfl⟩
      have within := written_inside clean.free written
      rw [erased_of_none clean.whole items clean.holds (Nat.zero_le j) (by omega)] at written
      exact absurd written (by decide)
  | cons x rest =>
      right
      have member : x ∈ located 0 segs := by rw [items]; exact List.mem_cons_self
      obtain ⟨a, b, split, place⟩ := located_split member
      rw [Nat.zero_add] at place
      have at_ := located_itemAt clean.holds member
      have bounds := located_bounds member
      have fits := clean.fits
      refine ⟨a, x.2, b, split, ?_⟩
      rw [← place]
      refine (firstUsed_eq (by omega) (at_.written 0 (Nat.zero_le _)) fun j less written => ?_).symm
      have front : located 0 a = [] := by
        rw [split, located_item] at items
        cases before : located 0 a with
        | nil => rfl
        | cons y ys =>
            rw [before, List.cons_append] at items
            have first : y ∈ located 0 a := by
              rw [before]
              exact List.mem_cons_self
            have bound := located_bounds first
            rw [(List.cons.inj items).1] at bound
            omega
      have holds := (holds_append.mp (split ▸ clean.holds)).1
      have whole := (Whole.append.mp (split ▸ clean.whole)).1
      rw [erased_of_none whole front holds (Nat.zero_le j) (by omega)] at written
      exact absurd written (by decide)

end

def Finds (found : Page.Found) : Except EspErr (Nat × Record) → Prop
  | .ok x => found = ⟨.ok x.1, x.2.head⟩
  | .error e => found.result = .error e

section
variable {pg : Page} {s : Sector} {segs : List Seg} {nsIndex : Byte} {datatype : ItemType} {key : Option (List Byte)}
  {post : Outcome EspErr Page.Found → Page → Sector → Prop} {cut : Sector → Prop}

theorem Clean.state (clean : Clean env pg s segs) (i : Nat) : entryState pg.mEntryTable i = stateOf s i := by
  rw [clean.sync.table, stateOf]

theorem next_of_sound {head : Item} {len : Nat} (sound : Sound env head len) (i : Nat) :
    (if head.datatype.isVariable = true then i + head.span else i + 1) = i + (len + 1) := by
  split
  · rw [sound.span]
  · rename_i fixed
    rw [sound.short (Bool.eq_false_iff.mpr fixed)]

theorem wp_findLoop (clean : Clean env pg s segs) {end_ : Nat} (covers : size segs ≤ end_) (le : end_ ≤ ENTRY_COUNT)
    (fuel i : Nat) (item : Item) (before rest : List Seg) (split : segs = before ++ rest)
    (place : size before = i ∨ rest = [] ∧ size before ≤ i) (enough : 0 < fuel ∧ ENTRY_COUNT < fuel + i)
    (done : ∀ found, Finds found (firstMatch nsIndex datatype key (located i rest)) →
      (located i rest = [] → found.item = item) → post (.ok found) pg s) :
    wp (Page.findLoop env nsIndex datatype key end_ fuel i item) post cut pg s := by
  have limit : ENTRY_COUNT = 126 := rfl
  induction fuel generalizing i item before rest with
  | zero => omega
  | succ fuel ih =>
      unfold Page.findLoop
      by_cases pastEnd : end_ ≤ i
      · rw [if_pos pastEnd]
        have none_ : rest = [] := by
          rcases place with here | ⟨none_, -⟩
          · cases rest with
            | nil => rfl
            | cons seg rest =>
                have positive := size_pos seg
                rw [split, size_append, size_cons] at covers
                omega
          · exact none_
        subst none_
        exact wp_pure _ (done _ rfl fun _ => rfl)
      · rw [if_neg pastEnd]
        refine wp_bind (wp_getState (by omega) ?_)
        dsimp only
        rw [clean.state]
        cases rest with
        | nil =>
            have free := clean.free i (by
              rw [split, size_append, size_nil]
              rcases place with here | ⟨-, here⟩ <;> omega)
            rw [free.1, if_pos (by decide)]
            refine ih (i + 1) item before [] split (Or.inr ⟨rfl, ?_⟩) (by omega) done
            rcases place with here | ⟨-, here⟩ <;> omega
        | cons seg rest =>
            have here : size before = i := by
              rcases place with here | ⟨none_, -⟩
              · exact here
              · exact absurd none_ (List.cons_ne_nil _ _)
            have holds := clean.holds
            rw [split, holds_append, Nat.zero_add, here] at holds
            have at_ := holds.2.1
            cases seg with
            | gone =>
                have state : stateOf s i = .erased := at_
                rw [state, if_pos (by decide)]
                refine ih (i + 1) item (before ++ [.gone]) rest ?_ (Or.inl ?_) (by omega) done
                · rw [split, List.append_assoc]
                  rfl
                · rw [size_append, size_cons, size_nil, size_gone, here]
            | torn head len =>
                have whole := clean.whole (.torn head len) (by rw [split]; simp)
                exact absurd whole Bool.false_ne_true
            | item r =>
                have at_ : ItemAt env s i r := at_
                have written := at_.written 0 (Nat.zero_le _)
                rw [Nat.add_zero] at written
                rw [written, if_neg (by decide)]
                refine wp_bind (wp_readEntry (by omega) ?_)
                dsimp only
                rw [at_.head, if_neg (not_not_intro at_.sound.crc), next_of_sound at_.sound]
                cases match_ : Page.matchItem nsIndex datatype key r.head with
                | none =>
                    refine ih (i + (r.body.length + 1)) r.head (before ++ [.item r]) rest ?_ (Or.inl ?_) (by omega) ?_
                    · rw [split, List.append_assoc]
                      rfl
                    · rw [size_append, size_cons, size_nil, size_item, here]
                    · intro found finds _
                      refine done found ?_ fun none_ => absurd none_ (List.cons_ne_nil _ _)
                      rw [located, firstMatch_cons, match_]
                      exact finds
                | some result =>
                    cases result with
                    | error e =>
                        refine wp_pure _ (done _ ?_ fun none_ => absurd none_ (List.cons_ne_nil _ _))
                        rw [located, firstMatch_cons, match_]
                        rfl
                    | ok u =>
                        refine wp_pure _ (done _ ?_ fun none_ => absurd none_ (List.cons_ne_nil _ _))
                        rw [located, firstMatch_cons, match_]
                        rfl

def Boundary (segs : List Seg) (i : Nat) : Prop :=
  ∃ before rest, segs = before ++ rest ∧ (size before = i ∨ rest = [] ∧ size before ≤ i)

theorem boundary_zero (segs : List Seg) : Boundary segs 0 := ⟨[], segs, rfl, Or.inl rfl⟩

theorem boundary_next {a b : List Seg} {r : Record} :
    Boundary (a ++ .item r :: b) (size a + (r.body.length + 1)) := by
  refine ⟨a ++ [.item r], b, by simp, Or.inl ?_⟩
  rw [size_append, size_cons, size_nil, size_item]

theorem filter_rest {before rest : List Seg} {i : Nat} (place : size before = i ∨ rest = [] ∧ size before ≤ i) :
    (located 0 (before ++ rest)).filter (fun x => decide (i ≤ x.1)) = located i rest := by
  rcases place with here | ⟨none_, beyond⟩
  · exact filter_located here
  · subst none_
    rw [List.append_nil, filter_beyond i beyond]
    rfl

theorem Clean.start (clean : Clean env pg s segs) {i : Nat} (boundary : Boundary segs i) :
    ∃ before rest, segs = before ++ rest ∧
      (size before = (if pg.mFirstUsedEntry < i then i else pg.mFirstUsedEntry) ∨
        rest = [] ∧ size before ≤ (if pg.mFirstUsedEntry < i then i else pg.mFirstUsedEntry)) ∧
      (located 0 segs).filter (fun x => decide (i ≤ x.1)) =
        located (if pg.mFirstUsedEntry < i then i else pg.mFirstUsedEntry) rest := by
  have limit : ENTRY_COUNT = 126 := rfl
  have fits := clean.fits
  rw [clean.sync.first]
  split
  · obtain ⟨before, rest, split, place⟩ := boundary
    exact ⟨before, rest, split, place, by rw [split]; exact filter_rest place⟩
  · rename_i first
    rcases clean.firstItem with ⟨invalid, none_⟩ | ⟨a, r, b, split, place⟩
    · refine ⟨segs, [], (List.append_nil _).symm, Or.inr ⟨rfl, ?_⟩, ?_⟩
      · rw [invalid, INVALID_ENTRY]
        omega
      · rw [none_]
        rfl
    · refine ⟨a, .item r :: b, split, Or.inl place, ?_⟩
      have at_ := filter_located (b := .item r :: b) place
      rw [← split] at at_
      rw [← at_]
      apply List.filter_congr
      intro x member
      have written := (located_itemAt clean.holds member).written 0 (Nat.zero_le _)
      have bounds := located_bounds member
      have le := firstUsed_le (by omega) written
      rw [Nat.add_zero] at le
      rw [decide_eq_decide]
      omega

theorem find_nodes (start : Nat) (hash : BitVec 24) {xs : List (Nat × Record)}
    (index : ∀ x ∈ xs, (nodeFor env x).mIndex.toNat = x.1) :
    ((xs.map (nodeFor env)).find? fun node => decide (start ≤ node.mIndex.toNat) && node.mHash == hash).map
        (fun node => node.mIndex.toNat) =
      ((xs.filter fun x => decide (start ≤ x.1)).find? fun x => env.itemHash x.2.head == hash).map Prod.fst := by
  induction xs with
  | nil => rfl
  | cons x xs ih =>
      have rest := ih fun y member => index y (List.mem_cons_of_mem _ member)
      have here := index x List.mem_cons_self
      have hashed : (nodeFor env x).mHash = env.itemHash x.2.head := rfl
      rw [List.map_cons, List.find?_cons, here, hashed, List.filter_cons]
      by_cases inside : start ≤ x.1
      · rw [if_pos (decide_eq_true inside), List.find?_cons, decide_eq_true inside, Bool.true_and]
        cases env.itemHash x.2.head == hash with
        | true => exact congrArg some here
        | false => exact rest
      · rw [if_neg (by simpa using inside), decide_eq_false inside, Bool.false_and]
        exact rest

theorem Clean.find (clean : Clean env pg s segs) (start : Nat) (hash : BitVec 24) :
    pg.mHashList.find start hash = (((located 0 segs).filter fun x => decide (start ≤ x.1)).find? fun x =>
      env.itemHash x.2.head == hash).map Prod.fst := by
  have limit : ENTRY_COUNT = 126 := rfl
  have fits := clean.fits
  rw [find_eq, clean.hash]
  apply find_nodes
  intro x member
  have bounds := located_bounds member
  exact index_nodeFor _ _ (by omega)

theorem Clean.cached (clean : Clean env pg s segs) (datatype : ItemType) (key : List Byte) (namespace_ : nsIndex ≠ NS_ANY) {start : Nat}
    {before rest : List Seg} (split : segs = before ++ rest)
    (place : size before = start ∨ rest = [] ∧ size before ≤ start) :
    match (pg.mHashList.find start (env.itemHash (Item.make nsIndex datatype 0 (some key)))).filter
      (· < ENTRY_COUNT) with
    | none => firstMatch nsIndex datatype (some key) (located start rest) = .error .notFound
    | some i => ∃ before' rest', segs = before' ++ rest' ∧ size before' = i ∧ located start rest ≠ [] ∧
        firstMatch nsIndex datatype (some key) (located start rest) =
          firstMatch nsIndex datatype (some key) (located i rest') := by
  have fits := clean.fits
  have sound (x : Nat × Record) (member : x ∈ located start rest) : Sound env x.2.head x.2.body.length := by
    have filtered := filter_rest place
    rw [← split] at filtered
    rw [← filtered] at member
    exact (located_itemAt clean.holds (List.mem_of_mem_filter member)).sound
  rw [clean.find]
  have filtered := filter_rest place
  rw [← split] at filtered
  rw [filtered]
  cases found : (located start rest).find? fun x =>
      env.itemHash x.2.head == env.itemHash (Item.make nsIndex datatype 0 (some key)) with
  | none =>
      rw [Option.map_none, Option.filter_none]
      apply firstMatch_none
      intro x member
      by_contra matches_
      have same := hash_of_match (sound x member) namespace_ matches_
      have missing := List.find?_eq_none.mp found x member
      rw [same] at missing
      exact missing (beq_self_eq_true _)
  | some x =>
      obtain ⟨-, early, late, at_, misses⟩ := List.find?_eq_some_iff_append.mp found
      have member : x ∈ located start rest := by rw [at_]; simp
      have inside : x ∈ located 0 segs := by
        rw [← filtered] at member
        exact List.mem_of_mem_filter member
      have bounds := located_bounds inside
      rw [Option.map_some, Option.filter_some, if_pos (decide_eq_true (by omega))]
      obtain ⟨a, b, split', place'⟩ := located_split inside
      rw [Nat.zero_add] at place'
      refine ⟨a, .item x.2 :: b, split', place'.symm, List.ne_nil_of_mem member, ?_⟩
      have skip : ∀ y ∈ early, Page.matchItem nsIndex datatype (some key) y.2.head = none := by
        intro y before_
        by_contra matches_
        have same := hash_of_match (sound y (by rw [at_]; simp [before_])) namespace_ matches_
        have missing := misses y before_
        rw [same] at missing
        simp at missing
      rw [at_, firstMatch_skip _ skip]
      -- what is left after the items before `x` is what lies from `x` on
      have tail : x :: late = located x.1 (.item x.2 :: b) := by
        have whole : located start rest = (located 0 a).filter (fun y => decide (start ≤ y.1)) ++
            located x.1 (.item x.2 :: b) := by
          rw [← filtered, split', located_append, Nat.zero_add, ← place', List.filter_append]
          congr 1
          rw [List.filter_eq_self]
          intro y after
          have low := (located_bounds after).1
          rw [← filtered] at member
          have ge := (List.mem_filter.mp member).2
          simp only [decide_eq_true_eq] at ge ⊢
          omega
        have sorted := located_sorted 0 segs
        have nodup : (located start rest).Nodup := by
          rw [← filtered]
          exact (sorted.imp fun less => fun same => by rw [same] at less; omega).filter _
        rw [located] at whole ⊢
        rw [at_] at whole nodup
        have absent : x ∉ early := fun twice => (List.nodup_append.mp nodup).2.2 x twice x List.mem_cons_self rfl
        have absent' : x ∉ late := (List.nodup_cons.mp (List.nodup_append.mp nodup).2.1).1
        rw [((List.append_cons_inj_of_notMem absent absent').mp whole).2.2]
      rw [tail]

def Searched (st : PageState) : Prop := st = .active ∨ st = .full ∨ st = .freeing

theorem wp_findItem (clean : Clean env pg s segs) (searched : Searched pg.mState) {i : Nat} (boundary : Boundary segs i)
    (item : Item)
    (done : ∀ found, Finds found (scanFrom nsIndex datatype key i segs) →
      ((located 0 segs).filter (fun x => decide (i ≤ x.1)) = [] → found.item = item) → post (.ok found) pg s) :
    wp (Page.findItem env nsIndex datatype key i item) post cut pg s := by
  have limit : ENTRY_COUNT = 126 := rfl
  have fits := clean.fits
  unfold Page.findItem
  refine wp_bind (wp_get ?_)
  dsimp only
  by_cases beyond : ENTRY_COUNT ≤ i
  · rw [if_pos (Or.inr (Or.inr (Or.inr beyond)))]
    refine wp_pure _ (done _ ?_ fun _ => rfl)
    rw [scanFrom, filter_beyond i (by omega)]
    rfl
  · have open_ : ¬ (pg.mState = .corrupt ∨ pg.mState = .invalid ∨ pg.mState = .uninitialized ∨ ENTRY_COUNT ≤ i) := by
      rcases searched with state | state | state <;> simp [state, beyond]
    rw [if_neg open_]
    obtain ⟨before, rest, split, place, filtered⟩ := clean.start boundary
    generalize (if pg.mFirstUsedEntry < i then i else pg.mFirstUsedEntry) = start at place filtered ⊢
    have covers : size segs ≤ min pg.mNextFreeEntry ENTRY_COUNT := by
      have invalid : INVALID_ENTRY = 4294967295 := rfl
      rcases clean.next with next | ⟨next, -⟩ <;> omega
    have plain (started : Page.cachedStart env nsIndex datatype key pg start = some start) :
        wp (match Page.cachedStart env nsIndex datatype key pg start with
          | none => pure ⟨.error .notFound, item⟩
          | some start => Page.findLoop env nsIndex datatype key (min pg.mNextFreeEntry ENTRY_COUNT)
              (ENTRY_COUNT + 1) start item) post cut pg s := by
      rw [started]
      refine wp_findLoop clean covers (Nat.min_le_right _ _) _ start item before rest split place (by omega) ?_
      intro found finds same
      refine done found ?_ fun none_ => same (by rw [← filtered]; exact none_)
      rw [scanFrom, filtered]
      exact finds
    cases key with
    | none => exact plain (by simp [Page.cachedStart])
    | some key =>
        by_cases full : nsIndex ≠ NS_ANY ∧ datatype ≠ ItemType.ANY
        · have cached := clean.cached datatype key full.1 split place
          have started : Page.cachedStart env nsIndex datatype (some key) pg start =
              (pg.mHashList.find start (env.itemHash (Item.make nsIndex datatype 0 (some key)))).filter
                (· < ENTRY_COUNT) := if_pos ⟨full.1, full.2, rfl⟩
          rw [started]
          cases index : (pg.mHashList.find start (env.itemHash (Item.make nsIndex datatype 0 (some key)))).filter
              (· < ENTRY_COUNT) with
          | none =>
              rw [index] at cached
              refine wp_pure _ (done _ ?_ fun _ => rfl)
              rw [scanFrom, filtered, cached]
              rfl
          | some j =>
              rw [index] at cached
              obtain ⟨before', rest', split', place', some_, same⟩ := cached
              refine wp_findLoop clean covers (Nat.min_le_right _ _) _ j item before' rest' split' (Or.inl place')
                (by omega) ?_
              intro found finds _
              refine done found ?_ fun none_ => ?_
              · rw [scanFrom, filtered, same]
                exact finds
              · rw [filtered] at none_
                exact absurd none_ some_
        · exact plain (if_neg fun all => full ⟨all.1, all.2.1⟩)

end

end EspFirmware.Proof.Nvs
