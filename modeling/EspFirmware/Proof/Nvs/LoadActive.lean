import EspFirmware.Proof.Nvs.LoadFull
import EspFirmware.Spec.PageScan

/-!
Loading the log of the page that takes new items: what was started at its end is given up, and of items
with one hash the last one stays.
-/

namespace EspFirmware.Proof.Nvs
open EspFirmware.Nvs EspFirmware.Spec EspFirmware.Lib Prog

variable {env : Env}

def NextAt (pg : Page) (segs : List Seg) : Tail → Prop
  | .free => pg.mNextFreeEntry = size segs ∨ pg.mNextFreeEntry = INVALID_ENTRY ∧ size segs = ENTRY_COUNT
  | .half => pg.mNextFreeEntry = size segs
  | .cut _ len => (size segs < pg.mNextFreeEntry ∧ pg.mNextFreeEntry ≤ size segs + (len + 1)) ∨
      pg.mNextFreeEntry = INVALID_ENTRY ∧ size segs + (len + 1) = ENTRY_COUNT

section
variable {pg : Page} {s : Sector} {segs : List Seg} {tail : Tail}

theorem nextAt_found (laid : Laid env s segs tail) (table : pg.mEntryTable = tableOf s)
    (fresh : pg.mNextFreeEntry = INVALID_ENTRY) :
    NextAt { pg with mNextFreeEntry := ((List.range ENTRY_COUNT).find? fun i =>
      entryState pg.mEntryTable i = .empty).getD pg.mNextFreeEntry } segs tail := by
  have limit : ENTRY_COUNT = 126 := rfl
  have invalid : INVALID_ENTRY = 4294967295 := rfl
  have fits := laid.fits
  have log (i : Nat) (inside : i < size segs) : stateOf s i ≠ .empty := by
    have either := holds_state laid.holds (Nat.zero_le i) (by omega)
    rcases either with written | erased_
    · rw [written]
      decide
    · rw [erased_]
      decide
  have state (i : Nat) : entryState pg.mEntryTable i = stateOf s i := by rw [table, stateOf]
  cases found : (List.range ENTRY_COUNT).find? fun i => decide (entryState pg.mEntryTable i = .empty) with
  | some i =>
      rw [List.find?_range_eq_some] at found
      obtain ⟨empty, inside, before⟩ := found
      have inside := List.mem_range.mp inside
      have empty : stateOf s i = .empty := by simpa [state] using empty
      have before (j : Nat) (less : j < i) : stateOf s j ≠ .empty := by simpa [state] using before j less
      have beyond : size segs ≤ i := by
        by_contra within
        exact log i (by omega) empty
      rw [Option.getD_some]
      cases tail with
      | free =>
          left
          by_contra other
          exact before (size segs) (by dsimp only at other; omega) (laid.tail _ (Nat.le_refl _)).1
      | half =>
          by_contra other
          exact before (size segs) (by dsimp only [NextAt] at other; omega) laid.tail.2.1
      | cut head len =>
          obtain ⟨-, torn, free⟩ := laid.tail
          left
          have notHead : i ≠ size segs := by
            rintro rfl
            rw [torn.written] at empty
            exact absurd empty (by decide)
          refine ⟨by dsimp only; omega, ?_⟩
          by_contra far
          exact before _ (by dsimp only at far; omega) (free _ (Nat.le_refl _)).1
  | none =>
      rw [List.find?_range_eq_none] at found
      have none_ (i : Nat) (inside : i < ENTRY_COUNT) : stateOf s i ≠ .empty := by simpa [state] using found i inside
      rw [Option.getD_none]
      cases tail with
      | free =>
          right
          refine ⟨fresh, ?_⟩
          by_contra less
          exact none_ (size segs) (by omega) (laid.tail _ (Nat.le_refl _)).1
      | half =>
          exact absurd laid.tail.2.1 (none_ _ laid.tail.1)
      | cut head len =>
          obtain ⟨inside, torn, free⟩ := laid.tail
          right
          refine ⟨fresh, ?_⟩
          by_contra less
          exact none_ (size segs + (len + 1)) (by omega) (free _ (Nat.le_refl _)).1

theorem NextAt.reaches (next : NextAt pg segs tail) (laid : Laid env s segs tail) (settledEnd : tail ≠ .half) {j : Nat}
    (le : j ≤ size segs) : Reaches pg s j := by
  have limit : ENTRY_COUNT = 126 := rfl
  have invalid : INVALID_ENTRY = 4294967295 := rfl
  have fits := laid.fits
  intro k ge inside written
  cases tail with
  | free =>
      have within := written_inside laid.tail written
      exact ⟨k, ge, Nat.le_refl k, by rcases next with next | ⟨next, -⟩ <;> omega, written⟩
  | half => exact absurd rfl settledEnd
  | cut head len =>
      obtain ⟨-, torn, -⟩ := laid.tail
      by_cases within : k < size segs
      · refine ⟨k, ge, Nat.le_refl k, ?_, written⟩
        rcases next with next | ⟨next, -⟩ <;> omega
      · refine ⟨size segs, le, by omega, ?_, torn.written⟩
        rcases next with next | ⟨next, -⟩ <;> omega

end

section
variable {post : Outcome EspErr Unit → Page → Sector → Prop} {cut : Sector → Prop} {pg : Page} {s : Sector}
  {segs : List Seg} {head : Item} {len : Nat}

theorem usedCount_setErased {i : Nat} (inside : i < ENTRY_COUNT) : usedCount (setState s i .erased) =
    if stateOf s i = .written then Page.dec16 (usedCount s) else usedCount s := by
  split
  · rename_i written
    have dropped := usedCount_dropped inside written .erased (by decide)
    have bound := usedCount_le s
    rw [dropped, dec16_succ (by omega)]
  · rename_i other
    apply usedCount_congr
    intro j
    rw [stateOf_setState]
    split
    · rename_i same
      rw [same]
      simpa using other
    · exact Iff.rfl

theorem firstUsed_setErased {i : Nat}
    (either : stateOf s i ≠ .written ∨ ∃ k, k < i ∧ stateOf s k = .written) :
    firstUsed (setState s i .erased) = firstUsed s := by
  rcases firstUsed_cases s with ⟨within, written, before⟩ | ⟨none_, unused⟩
  · have other : firstUsed s ≠ i := by
      rintro rfl
      rcases either with unwritten | ⟨k, less, written'⟩
      · exact unwritten written
      · exact before k less written'
    refine firstUsed_eq within ?_ ?_
    · rw [stateOf_setState, if_neg other]
      exact written
    · intro j less
      rw [stateOf_setState]
      split
      · decide
      · exact before j less
  · rw [none_]
    refine firstUsed_none fun j inside' => ?_
    rw [stateOf_setState]
    split
    · decide
    · exact unused j inside'

theorem wp_giveUp {i : Nat} (sync : Synced pg s) (inside : i < ENTRY_COUNT)
    (either : stateOf s i ≠ .written ∨ ∃ k, k < i ∧ stateOf s k = .written) {p : Page.PageM Unit}
    (run : ∀ pg', Synced pg' (setState s i .erased) → pg'.mNextFreeEntry = i + 1 → pg'.mHashList = pg.mHashList →
      Kept (stateOf s i = .erased) pg pg' → wp p post cut pg' (setState s i .erased))
    (stop : cut (setState s i .erased)) :
    wp (do
      Page.orInvalid (Page.alterEntryState i .erased)
      modify fun pg' : Page =>
        { pg' with mNextFreeEntry := i + 1,
                   mUsedEntryCount :=
                     if entryState pg.mEntryTable i = .written then Page.dec16 pg'.mUsedEntryCount
                     else pg'.mUsedEntryCount,
                   mErasedEntryCount := Page.inc16 pg'.mErasedEntryCount }
      p) post cut pg s := by
  refine wp_bind (wp_orInvalid (wp_alterEntryState inside sync.table (clears_erased _) ?_ stop))
  refine wp_bind (wp_modify (run _ ⟨rfl, ?_, ?_⟩ rfl rfl ⟨rfl, rfl, fun once steady => ?_⟩))
  · dsimp only
    rw [sync.table, ← stateOf, sync.used, usedCount_setErased inside]
  · dsimp only
    rw [sync.first, firstUsed_setErased either]
  · have bound := stateCount_le .erased (setState s i .erased)
    rw [stateCount_set inside once] at bound
    have count := (steady_iff sync.table).mp steady
    rw [steady_iff (s := setState s i .erased) rfl, stateCount_set inside once, count, inc16_small bound]

theorem cut_setErased {i : Nat} (laid : Laid env s segs (.cut head len)) (low : size segs < i)
    (high : i < size segs + (len + 1)) : Laid env (setState s i .erased) segs (.cut head len) := by
  obtain ⟨inside, torn, free⟩ := laid.tail
  have state (j : Nat) (other : j ≠ i) : stateOf (setState s i .erased) j = stateOf s j := by
    rw [stateOf_setState, if_neg other]
  refine ⟨holds_congr (fun j _ lt => ⟨state j (by omega), funext fun k => setState_entry _ _ _ _ _⟩) laid.holds,
    laid.fits, inside, ⟨torn.sound, ?_, ?_, ?_⟩, ?_⟩
  · rw [← torn.head]
    exact funext fun k => setState_entry _ _ _ _ _
  · rw [state _ (by omega)]
    exact torn.written
  · obtain ⟨k, le, missing⟩ := torn.missing
    refine ⟨k, le, ?_⟩
    rw [stateOf_setState]
    split
    · decide
    · exact missing
  · exact free_congr (fun j ge => state j (by omega)) (fun j k _ => setState_entry _ _ _ _ _) free

/-- Entries of the item at the end that was not finished are erased already. -/
def EndErased (s : Sector) (segs : List Seg) (tail : Tail) : Prop :=
  ∃ head len k, tail = .cut head len ∧ k ≤ len ∧ stateOf s (size segs + k) = .erased

theorem EndErased.congr {s' : Sector} {segs' : List Seg} {tail : Tail} (ended : EndErased s' segs' tail)
    (sizes : size segs = size segs') (same : ∀ j, size segs ≤ j → stateOf s j = stateOf s' j) :
    EndErased s segs tail := by
  obtain ⟨head, len, k, cut_, inside, erased⟩ := ended
  refine ⟨head, len, k, cut_, inside, ?_⟩
  rw [same _ (Nat.le_add_right _ _), sizes]
  exact erased

theorem endErased_twice {tail : Tail} (ended : EndErased s segs tail) : CountedTwice s segs tail := by
  obtain ⟨head, len, k, cut_, inside, erased⟩ := ended
  exact .inr ⟨head, len, k, cut_, inside, .inl erased⟩

def EndStarted (pg : Page) (s : Sector) : Prop :=
  pg.mNextFreeEntry < ENTRY_COUNT ∧ s (.entry pg.mNextFreeEntry 0) ≠ blank

theorem endStarted_twice {tail : Tail} (laid : Laid env s segs tail) (table : pg.mEntryTable = tableOf s)
    (fresh : pg.mNextFreeEntry = INVALID_ENTRY)
    (begun : EndStarted { pg with mNextFreeEntry := ((List.range ENTRY_COUNT).find? fun i =>
      entryState pg.mEntryTable i = .empty).getD pg.mNextFreeEntry } s) (notHalf : tail ≠ .half) :
    CountedTwice s segs tail := by
  have limit : ENTRY_COUNT = 126 := rfl
  have invalid : INVALID_ENTRY = 4294967295 := rfl
  have next := nextAt_found laid table fresh
  obtain ⟨inside, started⟩ := begun
  cases found : (List.range ENTRY_COUNT).find? fun i => decide (entryState pg.mEntryTable i = .empty) with
  | none =>
      rw [found, Option.getD_none, fresh] at inside
      omega
  | some i =>
      rw [found, Option.getD_some] at next started
      rw [List.find?_range_eq_some, table] at found
      obtain ⟨empty, within, before⟩ := found
      have within := List.mem_range.mp within
      dsimp only at started
      cases tail with
      | half => exact absurd rfl notHalf
      | free =>
          have here : i = size segs := by rcases next with here | ⟨none_, -⟩ <;> dsimp only at * <;> omega
          rw [here] at started
          exact absurd ((laid.tail _ (Nat.le_refl _)).2 0) started
      | cut head len =>
          obtain ⟨-, -, free⟩ := laid.tail
          have range : size segs < i ∧ i ≤ size segs + (len + 1) := by
            rcases next with range | ⟨none_, -⟩
            · exact range
            · dsimp only at none_
              omega
          have notPast : i ≠ size segs + (len + 1) := by
            rintro rfl
            exact started ((free _ (Nat.le_refl _)).2 0)
          have place : size segs + (i - size segs) = i := by omega
          refine .inr ⟨head, len, i - size segs, rfl, by omega, .inr ⟨?_, fun j less => ?_, ?_⟩⟩
          · rw [place]
            exact of_decide_eq_true empty
          · rw [stateOf]
            simpa using before (size segs + j) (by omega)
          · rw [place]
            exact started

theorem wp_halfWrittenCut {twice : Prop} (fuel : Nat) (laid : Laid env s segs (.cut head len)) (sync : Synced pg s)
    (next : NextAt pg segs (.cut head len)) (enough : 0 < fuel ∧ ENTRY_COUNT < fuel + pg.mNextFreeEntry)
    (erased_ : EndErased s segs (.cut head len) → twice) (started : EndStarted pg s → twice)
    (finish : ∀ pg' s', Laid env s' segs (.cut head len) → Synced pg' s' → NextAt pg' segs (.cut head len) →
      (EndErased s' segs (.cut head len) → twice) → pg'.mHashList = pg.mHashList → Kept twice pg pg' →
      SameHeader s s' → post (.ok ()) pg' s')
    (stop : ∀ s', SameHeader s s' → Laid env s' segs (.cut head len) → cut s') :
    wp (Page.halfWrittenLoop fuel) post cut pg s := by
  have limit : ENTRY_COUNT = 126 := rfl
  induction fuel generalizing pg s with
  | zero => omega
  | succ fuel ih =>
      obtain ⟨inside, torn, free⟩ := laid.tail
      unfold Page.halfWrittenLoop
      refine wp_bind (wp_get ?_)
      dsimp only
      by_cases pastEnd : ENTRY_COUNT ≤ pg.mNextFreeEntry
      · rw [if_pos pastEnd]
        exact wp_pure _ (finish pg s laid sync next erased_ rfl (.refl _ pg) (.refl s))
      · rw [if_neg pastEnd]
        refine wp_bind (wp_read ?_)
        dsimp only
        by_cases unstarted : s (.entry pg.mNextFreeEntry 0) = blank
        · rw [if_pos unstarted]
          exact wp_pure _ (finish pg s laid sync next erased_ rfl (.refl _ pg) (.refl s))
        · rw [if_neg unstarted]
          have both : twice := started ⟨by omega, unstarted⟩
          have range : size segs < pg.mNextFreeEntry ∧ pg.mNextFreeEntry < size segs + (len + 1) := by
            have invalid : INVALID_ENTRY = 4294967295 := rfl
            rcases next with ⟨low, high⟩ | ⟨none_, -⟩
            · refine ⟨low, ?_⟩
              by_contra far
              have at_ : pg.mNextFreeEntry = size segs + (len + 1) := by omega
              rw [at_] at unstarted
              exact unstarted ((free _ (Nat.le_refl _)).2 0)
            · omega
          have cut_ := cut_setErased laid range.1 range.2
          have header : SameHeader s (setState s pg.mNextFreeEntry .erased) := fun k => setState_header _ _ _ _
          refine wp_giveUp sync (by omega) (Or.inr ⟨size segs, range.1, torn.written⟩) ?_ (stop _ header cut_)
          intro pg' sync' next' hash same
          refine ih cut_ sync' (Or.inl ⟨by omega, by omega⟩) (by omega) (fun _ => both) (fun _ => both) ?_ ?_
          · intro pg'' s'' laid' sync'' next'' erased' hash' same' header'
            exact finish pg'' s'' laid' sync'' next'' erased' (hash'.trans hash)
              ((same.mono fun _ => both).trans same') (header.trans header')
          · intro s'' header' laid'
            exact stop s'' (header.trans header') laid'

def SameSettled (segs : List Seg) (tail : Tail) (segs' : List Seg) (tail' : Tail) : Prop :=
  settled segs' ++ settleTail tail' = settled segs ++ settleTail tail

def HasTorn (segs : List Seg) : Prop := ∃ head len, Seg.torn head len ∈ segs

theorem HasTorn.cons {seg : Seg} {rest : List Seg} (torn : HasTorn rest) : HasTorn (seg :: rest) := by
  obtain ⟨head, len, member⟩ := torn
  exact ⟨head, len, List.mem_cons_of_mem _ member⟩

theorem wp_halfWrittenLoop {twice : Prop} {tail : Tail} (laid : Laid env s segs tail) (sync : Synced pg s)
    (next : NextAt pg segs tail) (torn : HasTorn segs → twice) (erased_ : EndErased s segs tail → twice)
    (started : EndStarted pg s → tail ≠ .half → twice)
    (finish : ∀ pg' s' segs' tail', Laid env s' segs' tail' → Synced pg' s' → NextAt pg' segs' tail' → tail' ≠ .half →
      SameSettled segs tail segs' tail' → (HasTorn segs' → twice) → (EndErased s' segs' tail' → twice) →
      pg'.mHashList = pg.mHashList → Kept twice pg pg' → SameHeader s s' → post (.ok ()) pg' s')
    (stop : ∀ s' segs' tail', SameHeader s s' → Laid env s' segs' tail' → SameSettled segs tail segs' tail' → cut s') :
    wp (Page.halfWrittenLoop (ENTRY_COUNT + 1)) post cut pg s := by
  have limit : ENTRY_COUNT = 126 := rfl
  have invalid : INVALID_ENTRY = 4294967295 := rfl
  cases tail with
  | free =>
      unfold Page.halfWrittenLoop
      refine wp_bind (wp_get ?_)
      dsimp only
      have here : post (.ok ()) pg s := finish pg s segs .free laid sync next nofun rfl torn erased_ rfl (.refl _ pg)
        (.refl s)
      by_cases pastEnd : ENTRY_COUNT ≤ pg.mNextFreeEntry
      · rw [if_pos pastEnd]
        exact wp_pure _ here
      · rw [if_neg pastEnd]
        refine wp_bind (wp_read ?_)
        dsimp only
        have at_ : pg.mNextFreeEntry = size segs := by
          rcases next with next | ⟨next, -⟩
          · exact next
          · omega
        rw [if_pos (by rw [at_]; exact (laid.tail _ (Nat.le_refl _)).2 0)]
        exact wp_pure _ here
  | half =>
      obtain ⟨inside, empty, started, free⟩ := laid.tail
      have at_ : pg.mNextFreeEntry = size segs := next
      have header : SameHeader s (setState s (size segs) .erased) := fun k => setState_header _ _ _ _
      have state (j : Nat) (other : j ≠ size segs) : stateOf (setState s (size segs) .erased) j = stateOf s j := by
        rw [stateOf_setState, if_neg other]
      have total : size (segs ++ [.gone]) = size segs + 1 := by rw [size_append, size_cons, size_gone, size_nil]
      have free' : Free (setState s (size segs) .erased) (size segs + 1) :=
        free_congr (fun j ge => state j (by omega)) (fun j k _ => setState_entry _ _ _ _ _) free
      have gone : Laid env (setState s (size segs) .erased) (segs ++ [.gone]) .free := by
        refine ⟨?_, by omega, ?_⟩
        · rw [holds_append, Nat.zero_add]
          refine ⟨holds_congr (fun j _ lt => ⟨state j (by omega), funext fun k => setState_entry _ _ _ _ _⟩) laid.holds,
            ?_, trivial⟩
          change stateOf _ _ = _
          rw [stateOf_setState, if_pos rfl]
        · rw [total]
          exact free'
      have same : SameSettled segs .half (segs ++ [.gone]) .free := by
        rw [SameSettled, settled_append]
        exact List.append_nil _
      unfold Page.halfWrittenLoop
      refine wp_bind (wp_get ?_)
      dsimp only
      rw [if_neg (by omega)]
      refine wp_bind (wp_read ?_)
      dsimp only
      rw [at_, if_neg started]
      refine wp_giveUp sync inside (Or.inl (by rw [empty]; decide)) ?_ (stop _ _ _ header gone same)
      intro pg' sync' next' hash samePage
      have here : post (.ok ()) pg' (setState s (size segs) .erased) := by
        refine finish pg' _ _ .free gone sync' (Or.inl ?_) nofun same ?_ ?_ hash (samePage.mono ?_) header
        · rw [next', total]
        · rintro ⟨head, len, member⟩
          exact torn ⟨head, len, by simpa using member⟩
        · rintro ⟨head, len, k, other, -⟩
          cases other
        · intro erased
          rw [empty] at erased
          cases erased
      unfold Page.halfWrittenLoop
      refine wp_bind (wp_get ?_)
      dsimp only
      by_cases pastEnd : ENTRY_COUNT ≤ pg'.mNextFreeEntry
      · rw [if_pos pastEnd]
        exact wp_pure _ here
      · rw [if_neg pastEnd]
        refine wp_bind (wp_read ?_)
        dsimp only
        rw [if_pos (by rw [next']; exact (free' _ (Nat.le_refl _)).2 0)]
        exact wp_pure _ here
  | cut head len =>
      have enough : 0 < ENTRY_COUNT + 1 ∧ ENTRY_COUNT < ENTRY_COUNT + 1 + pg.mNextFreeEntry := by omega
      refine wp_halfWrittenCut _ laid sync next enough erased_ (fun begun => started begun nofun) ?_ ?_
      · intro pg' s' laid' sync' next' erased' hash same header
        exact finish pg' s' segs _ laid' sync' next' nofun rfl torn erased' hash same header
      · intro s' header laid'
        exact stop s' segs _ header laid' rfl

end

section
variable {s : Sector} {segs : List Seg} {head : Item} {len : Nat}

theorem laid_cutGone (laid : Laid env s segs (.cut head len)) :
    Laid env (erasing s (size segs) len (size segs)) (segs ++ gones (len + 1)) .free := by
  obtain ⟨inside, torn, free⟩ := laid.tail
  have limit : ENTRY_COUNT = 126 := rfl
  have total : size (segs ++ gones (len + 1)) = size segs + (len + 1) := by rw [size_append, size_gones]
  refine ⟨?_, by omega, ?_⟩
  · rw [holds_append, Nat.zero_add]
    refine ⟨?_, ?_⟩
    · refine holds_congr (agree_erasing (Nat.le_refl _) (Or.inl ?_)) laid.holds
      rw [Nat.zero_add]
    · apply holds_gones
      intro j ge lt
      rw [erasing, stateOf_setRange, if_pos (by omega)]
  · rw [total]
    exact free_erasing (Nat.le_refl _) free

theorem laid_cutTorn (laid : Laid env s segs (.cut head len)) {m : Nat} (low : size segs < m)
    (high : m < size segs + (len + 1)) : Laid env (erasing s (size segs) len m) segs (.cut head len) := by
  obtain ⟨inside, torn, free⟩ := laid.tail
  refine ⟨?_, laid.fits, inside, ⟨torn.sound, ?_, ?_, len, Nat.le_refl _, ?_⟩, free_erasing (Nat.le_refl _) free⟩
  · refine holds_congr (agree_erasing (by omega) (Or.inl ?_)) laid.holds
    rw [Nat.zero_add]
  · rw [← torn.head]
    exact funext fun k => setRange_entry _ _ _ _ _ _
  · rw [erasing, stateOf_setRange, if_neg (by omega)]
    exact torn.written
  · rw [erasing, stateOf_setRange, if_pos (by omega)]
    decide

end

section
variable {post : Outcome EspErr Unit → Page → Sector → Prop} {cut : Sector → Prop} {pg : Page} {s : Sector}
  {done rest : List Seg} {tail : Tail}

theorem wp_dropTail {head : Item} {len : Nat} (progress : Progress env pg s done [] (.cut head len))
    (finish : ∀ pg' s', Progress env pg' s' (done ++ gones (len + 1)) [] .free →
      Kept (EndErased s done (.cut head len)) pg pg' → SameHeader s s' →
      pg'.mNextFreeEntry = max pg.mNextFreeEntry (size done + len + 1) → post (.ok ()) pg' s')
    (stop : ∀ s' segs' tail', SameHeader s s' → Laid env s' segs' tail' →
      SameSettled done (.cut head len) segs' tail' → cut s') :
    wp (Page.ignoreError (Page.eraseEntryAndSpan env (size done))) post cut (hashedPage env pg head (size done)) s := by
  have limit : ENTRY_COUNT = 126 := rfl
  have laid : Laid env s done (.cut head len) := by
    have laid := progress.laid
    rwa [List.append_nil] at laid
  obtain ⟨inside, torn, free⟩ := laid.tail
  obtain ⟨left, known⟩ := eraseP_inserted head (by omega) (by omega)
    progress.hash
  have gone := laid_cutGone laid
  have same : SameSettled done (.cut head len) (done ++ gones (len + 1)) .free := by
    rw [SameSettled, settled_append, settled_gones]
    exact List.append_nil _
  have wholeSpan : setRange s (size done) (len + 1) .erased = erasing s (size done) len (size done) := by
    rw [erasing, Nat.add_sub_cancel_left]
  refine wp_ignoreError (wp_eraseEntryAndSpan ⟨progress.sync.table, progress.sync.used, progress.sync.first⟩ torn.head
    torn.sound torn.written inside known ?_ ?_ ?_)
  · intro j ge within written
    exact absurd (written_inside free written) (by omega)
  · intro pg' after
    rw [wholeSpan] at after ⊢
    refine finish pg' _ ⟨by rw [List.append_nil]; exact gone, after.sync, ?_⟩
      ⟨after.state, after.seq, fun once => after.steady fun k within erased => once ⟨head, len, k, rfl, within, ?_⟩⟩
      (sameHeader_erasing _ _ _ _) after.next
    · rw [after.hash, left, located_append, Nat.zero_add, located_gones, List.append_nil]
    · rw [stateOf, ← progress.sync.table]
      exact erased
  · intro m low high
    by_cases start : m = size done
    · subst start
      exact stop _ _ _ (sameHeader_erasing s _ _ _) gone same
    · exact stop _ _ _ (sameHeader_erasing s _ _ _) (laid_cutTorn laid (by omega) high) rfl

theorem wp_dropDuplicate {a b : List Seg} {x r : Record} (progress : Progress env pg s (a ++ .item x :: b ++ [.item r]) rest tail)
    (reaches : Reaches pg s (size a + x.body.length + 1))
    (finish : ∀ pg' s', Progress env pg' s' (a ++ gones (x.body.length + 1) ++ b ++ [.item r]) rest tail →
      SamePage pg pg' → SameHeader s s' →
      pg'.mNextFreeEntry = max pg.mNextFreeEntry (size a + x.body.length + 1) →
      (∀ j, size a + x.body.length < j → stateOf s' j = stateOf s j) → post (.ok ()) pg' s')
    (stop : ∀ s' segs', SameHeader s s' → Laid env s' segs' tail →
      settled segs' = settled (a ++ gones (x.body.length + 1) ++ (b ++ [.item r] ++ rest)) → cut s') :
    wp (Page.ignoreError (Page.eraseEntryAndSpan env (size a))) post cut pg s := by
  have limit : ENTRY_COUNT = 126 := rfl
  have shape : a ++ .item x :: b ++ [.item r] ++ rest = a ++ .item x :: (b ++ [.item r] ++ rest) := by simp
  have laid := progress.laid
  rw [shape] at laid
  have fits := laid.fits
  have here := (holds_append.mp laid.holds).2.1
  rw [Nat.zero_add] at here
  have here : ItemAt env s (size a) x := here
  have small : size (a ++ .item x :: (b ++ [.item r])) ≤ ENTRY_COUNT := by
    simp only [size_append, size_cons, size_item, size_nil] at fits ⊢
    omega
  have hash : live pg.mHashList = (located 0 (a ++ .item x :: (b ++ [.item r]))).map (nodeFor env) := by
    rw [progress.hash]
    simp
  have known : (live pg.mHashList).any (nodeOf (size a)) = true := by
    have index := index_nodeFor env (size a, x) (by
      simp only [size_append, size_cons, size_item] at small
      dsimp only
      omega)
    have same : nodeOf (size a) (nodeFor env (size a, x)) = true := decide_eq_true index
    rw [hash, located_item, List.map_append, List.map_cons, List.any_append, List.any_cons, same, Bool.true_or,
      Bool.or_true]
  refine wp_ignoreError (wp_eraseSeg laid rfl (ItemAt.headAt here) (fun k inside => Or.inl (here.written k inside))
    progress.sync known reaches ?_ ?_)
  · intro pg' s' after header gone
    have once : ∀ k, k ≤ x.body.length → entryState pg.mEntryTable (size a + k) ≠ .erased := by
      intro k inside
      rw [progress.sync.table, ← stateOf, here.written k inside]
      decide
    refine finish pg' s' ⟨?_, after.sync, ?_⟩ ⟨after.state, after.seq, fun _ => after.steady once⟩ header after.next ?_
    · have same : a ++ gones (x.body.length + 1) ++ b ++ [.item r] ++ rest =
          a ++ gones (x.body.length + 1) ++ (b ++ [.item r] ++ rest) := by simp
      rw [same]
      exact gone
    · rw [after.hash, hash, nodes_erased small, erased]
      simp
    · intro j later
      rw [stateOf, ← after.sync.table, after.others j later, progress.sync.table, stateOf]
  · intro s' segs' header laid' either
    refine stop s' segs' header laid' ?_
    rcases either with rfl | rfl
    · rfl
    · exact settled_torn _ _ _ _

end

end EspFirmware.Proof.Nvs
