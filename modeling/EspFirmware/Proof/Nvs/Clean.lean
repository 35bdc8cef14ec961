import EspFirmware.Proof.Nvs.Layout

/-!
`eraseEntryAndSpan`: the entries of an item become erased, last one first, and the counters follow.
-/

namespace EspFirmware.Proof.Nvs
open EspFirmware.Nvs EspFirmware.Spec EspFirmware.Lib Prog

section
variable {cut : Sector → Prop} {pg : Page} {s : Sector}

theorem wp_getState {post : Outcome EspErr EntryState → Page → Sector → Prop} {i : Nat}
    (inside : i < ENTRY_COUNT) (done : post (.ok (entryState pg.mEntryTable i)) pg s) :
    wp (Page.getState i) post cut pg s := by
  unfold Page.getState
  exact wp_bind (wp_assert inside (wp_bind (wp_get (wp_pure _ done))))

theorem wp_readEntry {post : Outcome EspErr Item → Page → Sector → Prop} {i : Nat}
    (inside : i < ENTRY_COUNT) (done : post (.ok (Page.entryAt s i)) pg s) :
    wp (Page.readEntry i) post cut pg s := by
  unfold Page.readEntry
  exact wp_bind (wp_assert inside (wp_bind (wp_read (wp_pure _ done))))

end

theorem dec16_succ {n : Nat} (small : n < ENTRY_COUNT) : Page.dec16 (n + 1) = n := by
  have limit : ENTRY_COUNT = 126 := rfl
  unfold Page.dec16
  omega

theorem inc16_small {n : Nat} (small : n < ENTRY_COUNT) : Page.inc16 n = n + 1 := by
  have limit : ENTRY_COUNT = 126 := rfl
  unfold Page.inc16
  omega

section
variable {env : Env} {post : Outcome EspErr Unit → Page → Sector → Prop} {cut : Sector → Prop} {pg : Page}
  {s : Sector}

theorem wp_countErased (i total : Nat) (fits : i + total ≤ ENTRY_COUNT) (table : pg.mEntryTable = tableOf s)
    (before : Nat)
    (done : ∀ c, (before + total < 2 ^ 16 → c = before + total) →
      post (.ok ()) { pg with mUsedEntryCount := usedCount (setRange s i total .erased), mErasedEntryCount := c } s)
    (count : Nat) (le : count ≤ total)
    (used : pg.mUsedEntryCount = usedCount (setRange s (i + count) (total - count) .erased))
    (erased : before + total < 2 ^ 16 → pg.mErasedEntryCount = before + (total - count)) :
    wp (Page.countErased i count) post cut pg s := by
  induction count generalizing pg with
  | zero =>
      refine wp_pure () ?_
      rw [Nat.add_zero, Nat.sub_zero] at used
      rw [Nat.sub_zero] at erased
      have final := done pg.mErasedEntryCount erased
      rw [← used] at final
      exact final
  | succ count ih =>
      have inside : i + count < ENTRY_COUNT := by omega
      unfold Page.countErased
      have counts : total - count = total - (count + 1) + 1 := by omega
      have oneMore : before + total < 2 ^ 16 → Page.inc16 pg.mErasedEntryCount = before + (total - count) := by
        intro small
        rw [erased small, Page.inc16]
        omega
      refine wp_bind (wp_getState inside (wp_bind (wp_modify (ih table done (by omega) ?_ oneMore))))
      have later : stateOf (setRange s (i + (count + 1)) (total - (count + 1)) .erased) (i + count) =
          stateOf s (i + count) := by
        rw [stateOf_setRange, if_neg (by omega)]
      dsimp only
      rw [used, table, ← stateOf, ← later, counts, ← setState_setRange, ← Nat.add_assoc]
      split
      · rename_i written
        have dropped := usedCount_dropped inside written .erased (by decide)
        have bound := usedCount_le (setRange s (i + count + 1) (total - (count + 1)) .erased)
        rw [Nat.add_assoc] at dropped bound ⊢
        rw [dropped, dec16_succ (by omega)]
      · rename_i other
        rw [Nat.add_assoc] at other ⊢
        apply Eq.symm
        apply usedCount_congr
        intro j
        rw [stateOf_setState]
        split
        · rename_i same
          rw [same]
          simpa using other
        · exact Iff.rfl

structure AfterErase (pg pg' : Page) (s' : Sector) (i len : Nat) : Prop where
  sync : Synced pg' s'
  hash : live pg'.mHashList = (live pg.mHashList).eraseP (nodeOf i)
  next : pg'.mNextFreeEntry = max pg.mNextFreeEntry (i + len + 1)
  state : pg'.mState = pg.mState
  seq : pg'.mSeqNumber = pg.mSeqNumber
  others : ∀ j, i + len < j → entryState pg'.mEntryTable j = entryState pg.mEntryTable j
  steady : (∀ k, k ≤ len → entryState pg.mEntryTable (i + k) ≠ .erased) → Steady pg → Steady pg'

def Reaches (pg : Page) (s : Sector) (i : Nat) : Prop :=
  ∀ j, i ≤ j → j < ENTRY_COUNT → stateOf s j = .written →
    ∃ k, i ≤ k ∧ k ≤ j ∧ k < pg.mNextFreeEntry ∧ stateOf s k = .written

theorem updateFirstUsedEntry_eq (pg : Page) {i len : Nat} (first : firstUsed s = i) (fits : i + len < ENTRY_COUNT)
    (reaches : Reaches pg s (i + len + 1)) (table : pg.mEntryTable = tableOf (setRange s i (len + 1) .erased)) :
    (Page.updateFirstUsedEntry i (len + 1) pg).mFirstUsedEntry = firstUsed (setRange s i (len + 1) .erased) := by
  have before : ∀ j, j < i + (len + 1) → stateOf (setRange s i (len + 1) .erased) j ≠ .written := by
    intro j less
    rw [stateOf_setRange]
    split
    · decide
    · rename_i outside
      rcases firstUsed_cases s with ⟨-, -, none_⟩ | ⟨-, none_⟩
      · exact none_ j (by omega)
      · exact none_ j (by omega)
  have later : ∀ j, i + (len + 1) ≤ j → stateOf (setRange s i (len + 1) .erased) j = stateOf s j := by
    intro j ge
    rw [stateOf_setRange, if_neg (by omega)]
  have drop : (List.range (min pg.mNextFreeEntry ENTRY_COUNT)).drop (i + (len + 1)) =
      List.range' (i + (len + 1)) (min pg.mNextFreeEntry ENTRY_COUNT - (i + (len + 1))) := by
    rw [List.range_eq_range', List.drop_range', Nat.zero_add, Nat.mul_one]
  unfold Page.updateFirstUsedEntry
  dsimp only
  rw [drop, table]
  cases found : (List.range' (i + (len + 1)) (min pg.mNextFreeEntry ENTRY_COUNT - (i + (len + 1)))).find?
      fun j => decide (entryState (tableOf (setRange s i (len + 1) .erased)) j = .written) with
  | some k =>
      obtain ⟨written, member, least⟩ := List.find?_range'_eq_some.mp found
      have range := List.mem_range'_1.mp member
      refine (firstUsed_eq (by omega) (of_decide_eq_true written) ?_).symm
      intro j less
      by_cases low : j < i + (len + 1)
      · exact before j low
      · have missing := least j (by omega) less
        rw [stateOf]
        simpa using missing
  | none =>
      rw [List.find?_range'_eq_none] at found
      refine (firstUsed_none ?_).symm
      intro j inside written
      by_cases low : j < i + (len + 1)
      · exact before j low written
      · rw [later j (by omega)] at written
        obtain ⟨k, ge, le, less, written⟩ := reaches j (by omega) inside written
        have missing := found k (by omega) (by omega)
        rw [← later k (by omega)] at written
        rw [← stateOf, written] at missing
        exact absurd missing (by decide)

abbrev counted (pg : Page) (s' : Sector) (hash : HashList) (c : Nat) : Page :=
  { pg with mHashList := hash, mUsedEntryCount := usedCount s', mErasedEntryCount := c,
            mEntryTable := tableOf s' }

theorem afterErase_eq {i len : Nat} {hash : HashList} {c : Nat} (sync : Synced pg s)
    (fits : i + len < ENTRY_COUNT) (written : stateOf s i = .written) (reaches : Reaches pg s (i + len + 1))
    (erased : live hash = (live pg.mHashList).eraseP (nodeOf i))
    (count : pg.mErasedEntryCount + (len + 1) < 2 ^ 16 → c = pg.mErasedEntryCount + (len + 1)) :
    AfterErase pg (Page.afterErase i (len + 1) (counted pg (setRange s i (len + 1) .erased) hash c))
      (setRange s i (len + 1) .erased) i len := by
  have first : (if i = pg.mFirstUsedEntry then
      Page.updateFirstUsedEntry i (len + 1) (counted pg (setRange s i (len + 1) .erased) hash c)
      else counted pg (setRange s i (len + 1) .erased) hash c) =
      { counted pg (setRange s i (len + 1) .erased) hash c with
        mFirstUsedEntry := firstUsed (setRange s i (len + 1) .erased) } := by
    split
    · rename_i same
      have update := updateFirstUsedEntry_eq (counted pg (setRange s i (len + 1) .erased) hash c)
        (sync.first.symm.trans same.symm) fits reaches rfl
      rw [← update]
      rfl
    · rename_i other
      rw [sync.first] at other
      have kept : firstUsed (setRange s i (len + 1) .erased) = firstUsed s := by
        have le := firstUsed_le (by omega) written
        rcases firstUsed_cases s with ⟨inside, used, before⟩ | ⟨-, none_⟩
        · refine firstUsed_eq inside ?_ ?_
          · rw [stateOf_setRange, if_neg (by omega)]
            exact used
          · intro j less
            rw [stateOf_setRange, if_neg (by omega)]
            exact before j less
        · exact absurd written (none_ i (by omega))
      rw [kept, ← sync.first]
  have steady : (∀ k, k ≤ len → entryState pg.mEntryTable (i + k) ≠ .erased) → Steady pg →
      c = stateCount .erased (setRange s i (len + 1) .erased) := by
    intro others before
    have limit : ENTRY_COUNT = 126 := rfl
    have bound := stateCount_le .erased s
    rw [steady_iff sync.table] at before
    rw [stateCount_setRange (by omega), ← before, count (by omega)]
    intro j ge lt
    have other := others (j - i) (by omega)
    rwa [Nat.add_sub_cancel' ge, sync.table, ← stateOf] at other
  have others : ∀ j, i + len < j →
      entryState (tableOf (setRange s i (len + 1) .erased)) j = entryState pg.mEntryTable j := by
    intro j later
    rw [sync.table, ← stateOf, ← stateOf, stateOf_setRange, if_neg (by omega)]
  unfold Page.afterErase
  dsimp only
  rw [first]
  dsimp only
  split
  · rename_i beyond
    exact ⟨⟨rfl, rfl, rfl⟩, erased, by dsimp only; omega, rfl, rfl, others, steady⟩
  · rename_i within
    exact ⟨⟨rfl, rfl, rfl⟩, erased, by dsimp only; omega, rfl, rfl, others, steady⟩

theorem wp_eraseEntryAndSpan {i len : Nat} {head : Item} (sync : Synced pg s)
    (at_ : Page.entryAt s i = head) (sound : Sound env head len) (written : stateOf s i = .written)
    (fits : i + len < ENTRY_COUNT) (known : (live pg.mHashList).any (nodeOf i) = true)
    (reaches : Reaches pg s (i + len + 1))
    (done : ∀ pg', AfterErase pg pg' (setRange s i (len + 1) .erased) i len →
      post (.ok ()) pg' (setRange s i (len + 1) .erased))
    (stop : ∀ m, i ≤ m → m < i + (len + 1) → cut (setRange s m (i + (len + 1) - m) .erased)) :
    wp (Page.eraseEntryAndSpan env i) post cut pg s := by
  have small : i < 255 := by
    have limit : ENTRY_COUNT = 126 := rfl
    omega
  obtain ⟨erased, found⟩ := live_erase small pg.mHashList
  unfold Page.eraseEntryAndSpan
  refine wp_bind (wp_getState (by omega) ?_)
  have state : entryState pg.mEntryTable i = .written := by rw [sync.table, ← stateOf, written]
  dsimp only
  rw [state]
  refine wp_bind (wp_assert (Or.inl rfl) ?_)
  rw [if_pos rfl]
  refine wp_bind (wp_readEntry (by omega) (wp_bind (wp_get (wp_bind (wp_modify ?_)))))
  dsimp only
  rw [at_, if_neg (not_not_intro sound.crc)]
  refine wp_bind (wp_assert (found.trans known) (wp_bind ?_))
  rw [sound.span]
  refine wp_countErased i (len + 1) (by omega) (by exact sync.table) pg.mErasedEntryCount ?_ (len + 1)
    (Nat.le_refl _) ?_ ?_
  · intro c count
    dsimp only
    split
    · rename_i single
      have none_ : len = 0 := by omega
      subst none_
      refine wp_bind (wp_alterEntryState (by omega) (by exact sync.table) (clears_erased _) ?_ ?_)
      · refine wp_modify (done _ ?_)
        exact afterErase_eq sync fits written reaches erased count
      · have whole := stop i (Nat.le_refl i) (by omega)
        rwa [Nat.add_sub_cancel_left] at whole
    · refine wp_bind (wp_alterEntryRangeState (by omega) (by omega) (by exact sync.table)
        (fun _ _ _ => clears_erased _) ?_ stop)
      rw [Nat.add_sub_cancel_left]
      refine wp_modify (done _ ?_)
      exact afterErase_eq sync fits written reaches erased count
  · rw [Nat.sub_self]
    exact sync.used
  · intro _
    rw [Nat.sub_self]
    rfl

end

end EspFirmware.Proof.Nvs

/-!
A page that is in order: its log has no torn items, and everything in RAM is as the sector says.
-/

namespace EspFirmware.Proof.Nvs
open EspFirmware.Nvs EspFirmware.Spec EspFirmware.Lib Prog

variable {env : Env}

structure HeaderAt (env : Env) (s : Sector) (st : PageState) (seq : Word) : Prop where
  state : s (.header 0) = st.toWord
  seq : s (.header 1) = seq
  crc : s (.header 7) = Page.headerCrc32 env s

def SameHeader (s s' : Sector) : Prop := ∀ k, s' (.header k) = s (.header k)

theorem SameHeader.refl (s : Sector) : SameHeader s s := fun _ => rfl

theorem SameHeader.trans {a b c : Sector} (ab : SameHeader a b) (bc : SameHeader b c) : SameHeader a c :=
  fun k => (bc k).trans (ab k)

theorem headerCrc32_congr {s s' : Sector} (same : SameHeader s s') :
    Page.headerCrc32 env s' = Page.headerCrc32 env s := by
  unfold Page.headerCrc32
  simp only [same _]

theorem HeaderAt.congr {s s' : Sector} {st : PageState} {seq : Word} (header : HeaderAt env s st seq)
    (same : SameHeader s s') : HeaderAt env s' st seq where
  state := (same 0).trans header.state
  seq := (same 1).trans header.seq
  crc := by rw [same 7, header.crc, headerCrc32_congr same]

def nodeFor (env : Env) (x : Nat × Record) : HashListNode := ⟨BitVec.ofNat 8 x.1, env.itemHash x.2.head⟩

def Whole (segs : List Seg) : Prop := ∀ seg ∈ segs, seg.whole = true

structure Clean (env : Env) (pg : Page) (s : Sector) (segs : List Seg) : Prop where
  sync : Synced pg s
  holds : Holds env s 0 segs
  whole : Whole segs
  fits : size segs ≤ ENTRY_COUNT
  free : Free s (size segs)
  hash : live pg.mHashList = (located 0 segs).map (nodeFor env)
  next : pg.mNextFreeEntry = size segs ∨
    (pg.mNextFreeEntry = INVALID_ENTRY ∧ (pg.mState = .active → size segs = ENTRY_COUNT))

/-- The fields of a page that only `load`, `erase` and the page state change, and the count of erased entries
where entries were not counted as erased twice. -/
structure Kept (twice : Prop) (pg pg' : Page) : Prop where
  state : pg'.mState = pg.mState
  seq : pg'.mSeqNumber = pg.mSeqNumber
  steady : ¬ twice → Steady pg → Steady pg'

abbrev SamePage (pg pg' : Page) : Prop := Kept False pg pg'

theorem Kept.refl (twice : Prop) (pg : Page) : Kept twice pg pg := ⟨rfl, rfl, fun _ steady => steady⟩

theorem Kept.trans {twice : Prop} {pg pg' pg'' : Page} (first : Kept twice pg pg') (second : Kept twice pg' pg'') :
    Kept twice pg pg'' :=
  ⟨second.state.trans first.state, second.seq.trans first.seq,
    fun once steady => second.steady once (first.steady once steady)⟩

theorem Kept.mono {twice twice' : Prop} {pg pg' : Page} (kept : Kept twice pg pg') (more : twice → twice') :
    Kept twice' pg pg' :=
  ⟨kept.state, kept.seq, fun once steady => kept.steady (fun both => once (more both)) steady⟩

theorem Whole.append {a b : List Seg} : Whole (a ++ b) ↔ Whole a ∧ Whole b := by
  unfold Whole
  simp only [List.mem_append, or_imp, forall_and]

theorem whole_gones (count : Nat) : Whole (gones count) := by
  intro seg member
  rw [List.eq_of_mem_replicate member]
  rfl

theorem Clean.laid {pg : Page} {s : Sector} {segs : List Seg} (clean : Clean env pg s segs) :
    Laid env s segs .free := ⟨clean.holds, clean.fits, clean.free⟩

theorem free_congr {s s' : Sector} {i : Nat} (states : ∀ j, i ≤ j → stateOf s' j = stateOf s j)
    (words : ∀ j k, i ≤ j → s' (.entry j k) = s (.entry j k)) (free : Free s i) : Free s' i := by
  intro j ge
  rw [states j ge]
  exact ⟨(free j ge).1, fun k => (words j k ge).trans ((free j ge).2 k)⟩

theorem free_mono {s : Sector} {i j : Nat} (free : Free s i) (le : i ≤ j) : Free s j :=
  fun k ge => free k (Nat.le_trans le ge)

theorem written_inside {s : Sector} {i j : Nat} (free : Free s i) (written : stateOf s j = .written) : j < i := by
  by_contra beyond
  have empty := (free j (Nat.le_of_not_lt beyond)).1
  rw [empty] at written
  exact absurd written (by decide)

theorem Clean.reaches {pg : Page} {s : Sector} {segs : List Seg} (clean : Clean env pg s segs) (i : Nat) :
    Reaches pg s i := by
  intro j ge inside written
  refine ⟨j, ge, Nat.le_refl j, ?_, written⟩
  have within := written_inside clean.free written
  have limit : ENTRY_COUNT = 126 := rfl
  rcases clean.next with next | ⟨next, -⟩
  · omega
  · rw [next, INVALID_ENTRY]
    omega

theorem index_nodeFor (env : Env) (x : Nat × Record) (small : x.1 < 256) : (nodeFor env x).mIndex.toNat = x.1 := by
  rw [nodeFor, BitVec.toNat_ofNat, Nat.mod_eq_of_lt small]

def erased (a : List Seg) (r : Record) (b : List Seg) : List Seg := a ++ gones (r.body.length + 1) ++ b

theorem size_erased (a : List Seg) (r : Record) (b : List Seg) :
    size (erased a r b) = size (a ++ .item r :: b) := by
  simp only [erased, size_append, size_cons, size_item, size_gones]
  omega

theorem located_erased (a : List Seg) (r : Record) (b : List Seg) :
    located 0 (erased a r b) = located 0 a ++ located (size a + (r.body.length + 1)) b := by
  rw [erased, located_append, located_append, located_gones, List.append_nil, size_append, size_gones,
    Nat.zero_add]

theorem located_item (a : List Seg) (r : Record) (b : List Seg) :
    located 0 (a ++ .item r :: b) =
      located 0 a ++ (size a, r) :: located (size a + (r.body.length + 1)) b := by
  rw [located_append, located, Nat.zero_add, Record.size]

theorem nodes_erased {a : List Seg} {r : Record} {b : List Seg}
    (fits : size (a ++ .item r :: b) ≤ ENTRY_COUNT) :
    ((located 0 (a ++ .item r :: b)).map (nodeFor env)).eraseP (nodeOf (size a)) =
      (located 0 (erased a r b)).map (nodeFor env) := by
  have limit : ENTRY_COUNT = 126 := rfl
  simp only [size_append, size_cons, size_item] at fits
  have here : nodeOf (size a) (nodeFor env (size a, r)) = true := by
    have index := index_nodeFor env (size a, r) (by dsimp only; omega)
    exact decide_eq_true index
  rw [located_item, located_erased, List.map_append, List.map_cons, List.map_append,
    List.eraseP_append_right, List.eraseP_cons_of_pos here]
  intro node member same
  obtain ⟨x, inside, rfl⟩ := List.mem_map.mp member
  have bounds := located_bounds inside
  have index := of_decide_eq_true same
  rw [index_nodeFor _ _ (by omega)] at index
  omega

section
variable {s : Sector} {a b : List Seg} {r : Record}

def erasing (s : Sector) (i len m : Nat) : Sector := setRange s m (i + (len + 1) - m) .erased

theorem sameHeader_erasing (s : Sector) (i len m : Nat) : SameHeader s (erasing s i len m) :=
  fun _ => setRange_header _ _ _ _ _

theorem agree_erasing {i len m lo hi : Nat} (low : i ≤ m) (outside : hi ≤ i ∨ i + (len + 1) ≤ lo) :
    Agree s (erasing s i len m) lo hi := by
  intro j ge lt
  refine ⟨?_, funext fun k => setRange_entry _ _ _ _ _ _⟩
  rw [erasing, stateOf_setRange, if_neg (by omega)]

theorem free_erasing {i len m e : Nat} (beyond : i + (len + 1) ≤ e) (free : Free s e) :
    Free (erasing s i len m) e := by
  refine free_congr (fun j ge => ?_) (fun j k _ => setRange_entry _ _ _ _ _ _) free
  rw [erasing, stateOf_setRange, if_neg (by omega)]

theorem tailAt_erasing {i len m e : Nat} {tail : Tail} (beyond : i + (len + 1) ≤ e) (low : i ≤ m)
    (at_ : TailAt env s e tail) : TailAt env (erasing s i len m) e tail := by
  have state (j : Nat) (ge : e ≤ j) : stateOf (erasing s i len m) j = stateOf s j := by
    rw [erasing, stateOf_setRange, if_neg (by omega)]
  cases tail with
  | free => exact free_erasing beyond at_
  | half =>
      obtain ⟨inside, empty, started, free⟩ := at_
      refine ⟨inside, (state e (Nat.le_refl e)).trans empty, ?_, free_erasing (by omega) free⟩
      rw [erasing, setRange_entry]
      exact started
  | cut head len' =>
      obtain ⟨inside, torn, free⟩ := at_
      exact ⟨inside, tornAt_congr (agree_erasing low (Or.inr beyond)) torn, free_erasing (by omega) free⟩

structure HeadAt (env : Env) (s : Sector) (i : Nat) (head : Item) (len : Nat) : Prop where
  sound : Sound env head len
  head : Page.entryAt s i = head
  written : stateOf s i = .written

variable {seg : Seg} {head : Item} {len : Nat} {tail : Tail}

theorem laid_gone (laid : Laid env s (a ++ seg :: b) tail) (span : seg.size = len + 1) :
    Laid env (erasing s (size a) len (size a)) (a ++ gones (len + 1) ++ b) tail := by
  obtain ⟨before, here, after⟩ := holds_append.mp laid.holds
  rw [Nat.zero_add, span] at after
  have total : size (a ++ gones (len + 1) ++ b) = size (a ++ seg :: b) := by
    simp only [size_append, size_cons, span, size_gones]
    omega
  refine ⟨?_, by rw [total]; exact laid.fits, ?_⟩
  · rw [List.append_assoc, holds_append, holds_append, size_gones, Nat.zero_add]
    refine ⟨?_, ?_, ?_⟩
    · refine holds_congr (agree_erasing (Nat.le_refl _) (Or.inl ?_)) before
      rw [Nat.zero_add]
    · apply holds_gones
      intro j ge lt
      rw [erasing, stateOf_setRange, if_pos (by omega)]
    · exact holds_congr (agree_erasing (Nat.le_refl _) (Or.inr (Nat.le_refl _))) after
  · rw [total]
    refine tailAt_erasing ?_ (Nat.le_refl _) laid.tail
    simp only [size_append, size_cons, span]
    omega

theorem laid_torn (laid : Laid env s (a ++ seg :: b) tail) (span : seg.size = len + 1)
    (at_ : HeadAt env s (size a) head len)
    (states : ∀ k, k ≤ len → stateOf s (size a + k) = .written ∨ stateOf s (size a + k) = .erased)
    {m : Nat} (low : size a < m) (high : m < size a + (len + 1)) :
    Laid env (erasing s (size a) len m) (a ++ .torn head len :: b) tail := by
  obtain ⟨before, -, after⟩ := holds_append.mp laid.holds
  rw [Nat.zero_add, span] at after
  have total : size (a ++ .torn head len :: b) = size (a ++ seg :: b) := by
    simp only [size_append, size_cons, span, size_torn]
  have entry : Page.entryAt (erasing s (size a) len m) (size a) = head := by
    rw [← at_.head]
    exact funext fun k => setRange_entry _ _ _ _ _ _
  have state (k : Nat) (inside : k ≤ len) : stateOf (erasing s (size a) len m) (size a + k) =
      if m ≤ size a + k then .erased else stateOf s (size a + k) := by
    rw [erasing, stateOf_setRange]
    by_cases reached : m ≤ size a + k
    · rw [if_pos (by omega), if_pos reached]
    · rw [if_neg (by omega), if_neg reached]
  refine ⟨?_, by rw [total]; exact laid.fits, ?_⟩
  · rw [holds_append, Nat.zero_add]
    refine ⟨?_, ⟨⟨at_.sound, entry, ?_, len, Nat.le_refl _, ?_⟩, fun k inside => ?_⟩, ?_⟩
    · refine holds_congr (agree_erasing (by omega) (Or.inl ?_)) before
      rw [Nat.zero_add]
    · have first := state 0 (Nat.zero_le _)
      rw [if_neg (by omega)] at first
      exact first.trans at_.written
    · rw [state _ (Nat.le_refl _), if_pos (by omega)]
      decide
    · rw [state k inside]
      split
      · exact Or.inr rfl
      · exact states k inside
    · exact holds_congr (agree_erasing (by omega) (Or.inr (Nat.le_refl _))) after
  · rw [total]
    refine tailAt_erasing ?_ (by omega) laid.tail
    simp only [size_append, size_cons, span]
    omega

theorem wp_eraseSeg {post : Outcome EspErr Unit → Page → Sector → Prop} {cut : Sector → Prop} {pg : Page}
    (laid : Laid env s (a ++ seg :: b) tail) (span : seg.size = len + 1) (at_ : HeadAt env s (size a) head len)
    (states : ∀ k, k ≤ len → stateOf s (size a + k) = .written ∨ stateOf s (size a + k) = .erased)
    (sync : Synced pg s) (known : (live pg.mHashList).any (nodeOf (size a)) = true)
    (reaches : Reaches pg s (size a + len + 1))
    (done : ∀ pg' s', AfterErase pg pg' s' (size a) len → SameHeader s s' →
      Laid env s' (a ++ gones (len + 1) ++ b) tail → post (.ok ()) pg' s')
    (stop : ∀ s' segs', SameHeader s s' → Laid env s' segs' tail →
      segs' = a ++ gones (len + 1) ++ b ∨ segs' = a ++ .torn head len :: b → cut s') :
    wp (Page.eraseEntryAndSpan env (size a)) post cut pg s := by
  have fits := laid.fits
  simp only [size_append, size_cons, span] at fits
  have gone := laid_gone laid span
  have wholeSpan : setRange s (size a) (len + 1) .erased = erasing s (size a) len (size a) := by
    rw [erasing, Nat.add_sub_cancel_left]
  refine wp_eraseEntryAndSpan sync at_.head at_.sound at_.written (by omega) known reaches ?_ ?_
  · intro pg' after
    rw [wholeSpan] at after ⊢
    exact done pg' _ after (sameHeader_erasing _ _ _ _) gone
  · intro m low high
    by_cases start : m = size a
    · subst start
      exact stop _ _ (sameHeader_erasing s _ _ _) gone (Or.inl rfl)
    · exact stop _ _ (sameHeader_erasing s _ _ _) (laid_torn laid span at_ states (by omega) high) (Or.inr rfl)

theorem ItemAt.headAt {i : Nat} (at_ : ItemAt env s i r) : HeadAt env s i r.head r.body.length :=
  ⟨at_.sound, at_.head, at_.written 0 (Nat.zero_le _)⟩

end

theorem wp_eraseItemAt {post : Outcome EspErr Unit → Page → Sector → Prop} {cut : Sector → Prop} {pg : Page}
    {s : Sector} {a b : List Seg} {r : Record} (clean : Clean env pg s (a ++ .item r :: b))
    (done : ∀ pg' s', Clean env pg' s' (erased a r b) → SamePage pg pg' → SameHeader s s' → post (.ok ()) pg' s')
    (stop : ∀ s' segs', SameHeader s s' → Laid env s' segs' .free →
      segs' = erased a r b ∨ segs' = a ++ .torn r.head r.body.length :: b → cut s') :
    wp (Page.eraseEntryAndSpan env (size a)) post cut pg s := by
  have limit : ENTRY_COUNT = 126 := rfl
  have fits := clean.fits
  have total : size a + r.body.length < size (a ++ .item r :: b) := by
    simp only [size_append, size_cons, size_item]
    omega
  obtain ⟨-, here, -⟩ := holds_append.mp clean.holds
  rw [Nat.zero_add] at here
  have here : ItemAt env s (size a) r := here
  have known : (live pg.mHashList).any (nodeOf (size a)) = true := by
    rw [clean.hash, located_item, List.map_append, List.map_cons, List.any_append, List.any_cons]
    have index := index_nodeFor env (size a, r) (by dsimp only; omega)
    have same : nodeOf (size a) (nodeFor env (size a, r)) = true := decide_eq_true index
    rw [same, Bool.true_or, Bool.or_true]
  refine wp_eraseSeg clean.laid rfl (ItemAt.headAt here) (fun k inside => Or.inl (here.written k inside)) clean.sync known
    (clean.reaches _) ?_ stop
  intro pg' s' after header gone
  have once : ∀ k, k ≤ r.body.length → entryState pg.mEntryTable (size a + k) ≠ .erased := by
    intro k inside
    rw [clean.sync.table, ← stateOf, here.written k inside]
    decide
  refine done pg' s' ⟨after.sync, gone.holds, ?_, gone.fits, gone.tail, ?_, ?_⟩
    ⟨after.state, after.seq, fun _ => after.steady once⟩ header
  · have whole := clean.whole
    rw [Whole.append] at whole
    rw [erased, Whole.append, Whole.append]
    exact ⟨⟨whole.1, whole_gones _⟩, fun seg member => whole.2 seg (List.mem_cons_of_mem _ member)⟩
  · rw [after.hash, clean.hash, nodes_erased fits]
  · rw [size_erased, after.next, after.state]
    rcases clean.next with next | ⟨next, full⟩
    · left
      omega
    · right
      refine ⟨?_, full⟩
      rw [next, INVALID_ENTRY]
      omega

end EspFirmware.Proof.Nvs
