import EspFirmware.Proof.Nvs.Settle

namespace EspFirmware.Proof.Nvs
open EspFirmware.Nvs EspFirmware.Spec EspFirmware.Lib EspFirmware.Lib.Prog

variable {env : Env}

abbrev Started (pg : Page) : Prop := pg.mState ≠ .uninitialized

theorem started_spiFlashWriteWord (loc : Loc) (w : Word) : Keeps Started (Page.spiFlashWriteWord loc w) :=
  keeps_read.bind fun _ => (keeps_throw _).ite (keeps_write _)

theorem Started.orInvalid {α : Type} {p : Page.PageM α} (kept : Keeps Started p) : Keeps Started (Page.orInvalid p) := by
  refine kept.attempt.bind fun tried => ?_
  cases tried with
  | ok a => exact keeps_pure a
  | error e =>
      refine (keeps_modify fun pg _ => ?_).bind fun _ => keeps_throw e
      exact PageState.noConfusion

theorem Started.ignoreError {p : Page.PageM Unit} (kept : Keeps Started p) : Keeps Started (Page.ignoreError p) :=
  kept.attempt.bind fun _ => keeps_pure _

theorem started_getState (i : Nat) : Keeps Started (Page.getState i) :=
  (keeps_assert _).bind fun _ => keeps_get.bind fun _ => keeps_pure _

theorem started_readEntry (i : Nat) : Keeps Started (Page.readEntry i) :=
  (keeps_assert _).bind fun _ => keeps_read.bind fun _ => keeps_pure _

theorem started_alterEntryState (index : Nat) (state : EntryState) : Keeps Started (Page.alterEntryState index state) := by
  refine (keeps_assert _).bind fun _ => (keeps_modify fun _ started => by exact started).bind fun _ => keeps_get.bind fun _ => ?_
  exact Started.orInvalid (started_spiFlashWriteWord _ _)

theorem started_alterRangeLoop (begin : Nat) (state : EntryState) (count wordIndex : Nat) :
    Keeps Started (Page.alterRangeLoop begin state count wordIndex) := by
  induction count generalizing wordIndex with
  | zero => exact keeps_pure _
  | succ count ih =>
      refine (keeps_modify fun _ started => by exact started).bind fun _ => ?_
      refine Keeps.ite ?_ (ih _)
      exact keeps_get.bind fun _ => (started_spiFlashWriteWord _ _).bind fun _ => ih _

theorem started_alterEntryRangeState (begin end_ : Nat) (state : EntryState) :
    Keeps Started (Page.alterEntryRangeState begin end_ state) :=
  (keeps_assert _).bind fun _ => (keeps_assert _).bind fun _ => started_alterRangeLoop _ _ _ _

theorem started_countErased (index count : Nat) : Keeps Started (Page.countErased index count) := by
  induction count with
  | zero => exact keeps_pure _
  | succ count ih => exact (started_getState _).bind fun _ => (keeps_modify fun _ started => by exact started).bind fun _ => ih

theorem started_afterErase (index span : Nat) (pg : Page) (started : Started pg) :
    Started (Page.afterErase index span pg) := by
  unfold Page.afterErase Page.updateFirstUsedEntry
  dsimp only
  split <;> split <;> exact started

theorem started_eraseEntryAndSpan (index : Nat) : Keeps Started (Page.eraseEntryAndSpan env index) := by
  have after (span : Nat) : Keeps Started (Prog.modify (Page.afterErase index span) : Page.PageM Unit) :=
    keeps_modify (started_afterErase index span)
  refine (started_getState index).bind fun state => (keeps_assert _).bind fun _ => ?_
  refine Keeps.ite ?_ ((started_alterEntryState _ _).bind fun _ => after 1)
  refine (started_readEntry index).bind fun item => keeps_get.bind fun pg => ?_
  obtain ⟨hashList, found⟩ := HashList.erase index pg.mHashList
  refine (keeps_modify fun _ started => by exact started).bind fun _ => ?_
  refine Keeps.ite ?_ ?_
  · refine (started_alterEntryState _ _).attempt.bind fun altered => (keeps_modify fun _ started => by exact started).bind fun _ => ?_
    cases altered with
    | ok _ => exact after 1
    | error e => exact keeps_throw e
  · refine (keeps_assert _).bind fun _ => (started_countErased _ _).bind fun _ => ?_
    refine Keeps.ite ?_ ?_
    · exact (started_alterEntryState _ _).bind fun _ => after _
    · exact (started_alterEntryRangeState _ _ _).bind fun _ => after _

theorem started_findLoop (nsIndex : Byte) (datatype : ItemType) (key : Option (List Byte)) (end_ fuel i : Nat)
    (item : Item) : Keeps Started (Page.findLoop env nsIndex datatype key end_ fuel i item) := by
  induction fuel generalizing i item with
  | zero => exact keeps_fault
  | succ fuel ih =>
      refine Keeps.ite (keeps_pure _) ?_
      refine (started_getState i).bind fun state => ?_
      refine Keeps.ite (ih _ _) ?_
      refine (started_readEntry i).bind fun item => ?_
      refine Keeps.ite ?_ ?_
      · refine (Started.orInvalid (started_eraseEntryAndSpan i)).attempt.bind fun tried => ?_
        cases tried with
        | ok _ => exact ih _ _
        | error e => exact keeps_pure _
      · dsimp only
        cases Page.matchItem nsIndex datatype key item with
        | none => exact ih _ _
        | some matched =>
            cases matched with
            | ok _ => exact keeps_pure _
            | error e => exact keeps_pure _

theorem started_findItem (nsIndex : Byte) (datatype : ItemType) (key : Option (List Byte)) (itemIndex : Nat)
    (item : Item) : Keeps Started (Page.findItem env nsIndex datatype key itemIndex item) := by
  refine keeps_get.bind fun pg => Keeps.ite (keeps_pure _) ?_
  dsimp only
  cases Page.cachedStart env nsIndex datatype key pg _ with
  | none => exact keeps_pure _
  | some start => exact started_findLoop _ _ _ _ _ _ _

theorem started_halfWrittenLoop (fuel : Nat) : Keeps Started (Page.halfWrittenLoop fuel) := by
  induction fuel with
  | zero => exact keeps_fault
  | succ fuel ih =>
      refine keeps_get.bind fun pg => Keeps.ite (keeps_pure _) ?_
      refine keeps_read.bind fun s => Keeps.ite (keeps_pure _) ?_
      exact (Started.orInvalid (started_alterEntryState _ _)).bind fun _ =>
        (keeps_modify fun _ started => by exact started).bind fun _ => ih

theorem started_allWritten (count j : Nat) : Keeps Started (Page.allWritten count j) := by
  induction count generalizing j with
  | zero => exact keeps_pure _
  | succ count ih => exact (started_getState j).bind fun _ => Keeps.ite (ih _) (keeps_pure _)

theorem started_checkLoop (end_ fuel i : Nat) (item : Item) (lastItemIndex : Nat) :
    Keeps Started (Page.checkLoop env end_ fuel i item lastItemIndex) := by
  induction fuel generalizing i item lastItemIndex with
  | zero => exact keeps_fault
  | succ fuel ih =>
      refine Keeps.ite (keeps_pure _) ?_
      refine (started_getState i).bind fun state => Keeps.ite (ih _ _ _) ?_
      refine (started_readEntry i).bind fun item => Keeps.ite ?_ ?_
      · exact (Started.orInvalid (started_eraseEntryAndSpan i)).bind fun _ => ih _ _ _
      · refine (keeps_modify fun _ started => by exact started).bind fun _ => keeps_get.bind fun pg => ?_
        -- whether the item is whole is asked of items of variable length only
        refine Keeps.ite ((started_allWritten _ _).bind fun whole => ?_) ?_
        all_goals refine Keeps.ite ?_ ((Started.ignoreError (started_eraseEntryAndSpan i)).bind fun _ => ih _ _ _)
        all_goals cases pg.mHashList.find 0 (env.itemHash item) with
          | none => exact ih _ _ _
          | some duplicate =>
              refine Keeps.ite ?_ (ih _ _ _)
              exact (Started.ignoreError (started_eraseEntryAndSpan duplicate)).bind fun _ => ih _ _ _

theorem started_fullLoop (fuel i : Nat) : Keeps Started (Page.fullLoop env fuel i) := by
  induction fuel generalizing i with
  | zero => exact keeps_fault
  | succ fuel ih =>
      refine Keeps.ite (keeps_pure _) ?_
      refine (started_getState i).bind fun state => Keeps.ite (ih _) ?_
      refine (started_readEntry i).bind fun item => Keeps.ite ?_ ?_
      · exact (Started.orInvalid (started_eraseEntryAndSpan i)).bind fun _ => ih _
      · refine (keeps_assert _).bind fun _ => (keeps_modify fun _ started => by exact started).bind fun _ => ?_
        refine Keeps.ite ((started_allWritten _ _).bind fun whole => ?_) ?_
        all_goals refine Keeps.ite (ih _) ?_
        all_goals exact (Started.ignoreError (started_eraseEntryAndSpan i)).bind fun _ => ih _

theorem started_loadActive : Keeps Started (Page.loadActive env) := by
  refine (keeps_modify fun _ started => by exact started).bind fun _ => ?_
  refine (started_halfWrittenLoop _).bind fun _ => keeps_get.bind fun pg => ?_
  refine (started_checkLoop _ _ _ _ _).bind fun last => ?_
  obtain ⟨item, lastItemIndex⟩ := last
  refine Keeps.ite ?_ (keeps_pure _)
  refine (started_findItem _ _ _ _ _).bind fun found => ?_
  cases found.result with
  | ok index => exact Keeps.ite (Started.orInvalid (started_eraseEntryAndSpan index)) (keeps_pure _)
  | error e => exact keeps_pure _

theorem started_mLoadEntryTable : Keeps Started (Page.mLoadEntryTable env) := by
  refine keeps_read.bind fun s => (keeps_modify fun _ started => by exact started).bind fun _ => ?_
  refine (keeps_modify fun _ started => by exact started).bind fun _ => keeps_get.bind fun pg => ?_
  exact Keeps.ite started_loadActive (started_fullLoop _ _)

theorem ofWord_eq_uninitialized (w : Word) : PageState.ofWord w = .uninitialized ↔ w = blank := by
  have blank_ : blank = 0xFFFFFFFF := rfl
  unfold PageState.ofWord
  rw [blank_]
  constructor
  · intro named
    by_contra other
    rw [if_neg other] at named
    split at named
    · cases named
    · split at named
      · cases named
      · split at named
        · cases named
        · cases named
  · intro is
    rw [if_pos is]

theorem load_started {s : Sector} (state : s (.header 0) ≠ blank) : Started (loadedPage env s) := by
  have other : PageState.ofWord (s (.header 0)) ≠ .uninitialized := fun same => state ((ofWord_eq_uninitialized _).mp same)
  have table : Keeps Started (Page.ignoreError (Page.mLoadEntryTable env)) := Started.ignoreError started_mLoadEntryTable
  unfold loadedPage Page.load
  rw [bind_quiet rfl, bind_quiet rfl, if_neg other]
  split
  · rw [bind_quiet rfl]
    dsimp only
    rw [bind_quiet rfl]
    dsimp only
    generalize PageState.ofWord (s (.header 0)) = st at other ⊢
    cases st with
    | uninitialized => exact absurd rfl other
    | active => exact table _ _ (by simp)
    | full => exact table _ _ (by simp)
    | freeing => exact table _ _ (by simp)
    | corrupt => exact PageState.noConfusion
    | invalid => exact PageState.noConfusion
  · dsimp only
    rw [bind_quiet rfl]
    exact PageState.noConfusion

theorem load_erasedWord {s : Sector} (state : s (.header 0) = blank) :
    (loadedPage env s).mState = if Page.looksEmpty s then .uninitialized else .corrupt := by
  have named : PageState.ofWord (s (.header 0)) = .uninitialized := (ofWord_eq_uninitialized _).mpr state
  unfold loadedPage Page.load
  rw [bind_quiet rfl, bind_quiet rfl, if_pos named, bind_quiet rfl]
  dsimp only
  rw [bind_quiet rfl]
  dsimp only
  cases Page.looksEmpty s with
  | true => rfl
  | false => rfl

theorem looksEmpty_iff (s : Sector) :
    Page.looksEmpty s = true ↔ ∀ loc, InSector loc → inLine loc < 4 → s loc = blank := by
  unfold Page.looksEmpty
  simp only [List.all_eq_true, List.mem_range, Bool.and_eq_true, decide_eq_true_eq]
  constructor
  · intro all loc inside early
    cases loc with
    | header k => exact (all k early).1.1
    | table k => exact (all k early).1.2
    | entry i k => exact (all k early).2 i inside.1
  · intro all k early
    exact ⟨⟨all (.header k) (Nat.lt_trans early (by decide)) early, all (.table k) (Nat.lt_trans early (by decide)) early⟩,
      fun i inside => all (.entry i k) ⟨inside, Nat.lt_trans early (by decide)⟩ early⟩

theorem activatePage_erases {n : Nat} (m : PageManager n) (f : Flash n) {p : Fin n} {rest : List (Fin n)}
    (front : m.mFreePageList = p :: rest) (corrupt : (m.mPages p).mState = .corrupt) :
    (PageManager.activatePage m f).durable p = erasedSector := by
  unfold PageManager.activatePage
  rw [bind_quiet rfl, front]
  dsimp only
  rw [if_pos corrupt]
  exact Function.update_self ..

/-- Exactly the sectors with bytes that are not looked at are not taken right. -/
theorem taken_right_iff (env : Env) (s : Sector) : TakenRight env s ↔ ¬ HiddenBytes s := by
  have word (empty : IsEmpty s) : s (.header 0) = blank := empty (.header 0) (by decide)
  have looked (empty : IsEmpty s) : Page.looksEmpty s = true := (looksEmpty_iff s).mpr fun loc inside _ => empty loc inside
  constructor
  · intro right hidden
    obtain ⟨early, loc, inside, written⟩ := hidden
    have state : (loadedPage env s).mState = _ := load_erasedWord (early (.header 0) (by decide) (by decide))
    rw [(looksEmpty_iff s).mpr early, if_pos rfl] at state
    exact written (right.empty.mp state loc inside)
  · intro shown
    have empty_of_looks (state : s (.header 0) = blank) (looks : Page.looksEmpty s = true) : IsEmpty s := by
      intro loc inside
      by_contra written
      exact shown ⟨(looksEmpty_iff s).mp looks, loc, inside, written⟩
    constructor
    · constructor
      · intro uninitialized
        have state : s (.header 0) = blank := by
          by_contra other
          exact load_started other uninitialized
        rw [load_erasedWord state] at uninitialized
        refine empty_of_looks state ?_
        by_contra looks
        rw [if_neg looks] at uninitialized
        cases uninitialized
      · intro empty
        rw [load_erasedWord (word empty), if_pos (looked empty)]
    · intro state notEmpty
      have corrupt : (loadedPage env s).mState = .corrupt := by
        rw [load_erasedWord state, if_neg (fun looks => notEmpty (empty_of_looks state looks))]
      refine ⟨corrupt, fun n m f p rest front page _ => ?_⟩
      exact activatePage_erases m f front (by rw [page, corrupt])

/-- One byte at the end of an entry was written. -/
theorem hidden_byte_taken_for_empty :
    ¬ TakenRight Env.firmware (Function.update erasedSector (.entry 0 7) 0xFFFFFF00) := by
  intro right
  refine (taken_right_iff _ _).mp right ⟨fun loc _ early => ?_, .entry 0 7, by decide, ?_⟩
  · refine Function.update_of_ne ?_ _ _
    rintro rfl
    exact absurd early (by decide)
  · rw [Function.update_self]
    decide

end EspFirmware.Proof.Nvs

/-!
Loading the log of a page that is full or being freed.
-/

namespace EspFirmware.Proof.Nvs
open EspFirmware.Nvs EspFirmware.Spec EspFirmware.Lib Prog

variable {env : Env}

section
variable {cut : Sector → Prop} {pg : Page} {s : Sector}

theorem wp_ignoreError {p : Page.PageM Unit} {post : Outcome EspErr Unit → Page → Sector → Prop}
    (run : wp p (fun o pg s => match o with
      | .fault => post .fault pg s
      | _ => post (.ok ()) pg s) cut pg s) : wp (Page.ignoreError p) post cut pg s := by
  unfold Page.ignoreError
  refine wp_bind (wp_attempt (wp_mono run ?_ fun _ stop => stop))
  intro o pg s ends
  cases o with
  | ok a => exact wp_pure _ ends
  | err e => exact wp_pure _ ends
  | fault => exact ends

theorem wp_allWritten {post : Outcome EspErr Bool → Page → Sector → Prop} (table : pg.mEntryTable = tableOf s)
    (count j : Nat) (inside : j + count ≤ ENTRY_COUNT)
    (yes : (∀ k, k < count → stateOf s (j + k) = .written) → post (.ok true) pg s)
    (no : (∃ k, k < count ∧ stateOf s (j + k) ≠ .written) → post (.ok false) pg s) :
    wp (Page.allWritten count j) post cut pg s := by
  induction count generalizing j with
  | zero => exact wp_pure _ (yes fun _ less => absurd less (Nat.not_lt_zero _))
  | succ count ih =>
      unfold Page.allWritten
      refine wp_bind (wp_getState (by omega) ?_)
      dsimp only
      rw [table, ← stateOf]
      by_cases written : stateOf s j = .written
      · rw [if_pos written]
        refine ih (j + 1) (by omega) (fun all => yes fun k less => ?_) (fun found => ?_)
        · cases k with
          | zero => exact written
          | succ k =>
              rw [Nat.add_comm k 1, ← Nat.add_assoc]
              exact all k (by omega)
        · obtain ⟨k, less, other⟩ := found
          refine no ⟨k + 1, by omega, ?_⟩
          rw [Nat.add_comm k 1, ← Nat.add_assoc]
          exact other
      · rw [if_neg written]
        exact wp_pure _ (no ⟨0, Nat.succ_pos _, written⟩)

end

structure Progress (env : Env) (pg : Page) (s : Sector) (done rest : List Seg) (tail : Tail) : Prop where
  laid : Laid env s (done ++ rest) tail
  sync : Synced pg s
  hash : live pg.mHashList = (located 0 done).map (nodeFor env)

abbrev hashedPage (env : Env) (pg : Page) (head : Item) (i : Nat) : Page :=
  { pg with mHashList := pg.mHashList.insert (env.itemHash head) i }

section
variable {post : Outcome EspErr Unit → Page → Sector → Prop} {cut : Sector → Prop} {pg : Page} {s : Sector}
  {done rest : List Seg} {tail : Tail}

theorem Progress.here {seg : Seg} (progress : Progress env pg s done (seg :: rest) tail) :
    SegAt env s (size done) seg ∧ size done + seg.size ≤ ENTRY_COUNT := by
  have holds := (holds_append.mp progress.laid.holds).2.1
  have fits := progress.laid.fits
  rw [Nat.zero_add] at holds
  rw [size_append, size_cons] at fits
  exact ⟨holds, by omega⟩

theorem Progress.gone (progress : Progress env pg s done (.gone :: rest) tail) :
    Progress env pg s (done ++ [.gone]) rest tail := by
  refine ⟨by rw [List.append_assoc]; exact progress.laid, progress.sync, ?_⟩
  have none_ : located (0 + size done) [Seg.gone] = [] := rfl
  rw [located_append, none_, List.append_nil]
  exact progress.hash

theorem Progress.item {r : Record} (progress : Progress env pg s done (.item r :: rest) tail) :
    Progress env (hashedPage env pg r.head (size done)) s (done ++ [.item r]) rest tail := by
  have limit : ENTRY_COUNT = 126 := rfl
  have bound := progress.here.2
  rw [size_item] at bound
  refine ⟨by rw [List.append_assoc]; exact progress.laid,
    ⟨progress.sync.table, progress.sync.used, progress.sync.first⟩, ?_⟩
  rw [live_insert _ _ (by omega), progress.hash, located_append, Nat.zero_add, List.map_append]
  rfl

theorem eraseP_inserted (head : Item) (bound : size done < 255) (fits : size done ≤ ENTRY_COUNT)
    (hash : live pg.mHashList = (located 0 done).map (nodeFor env)) :
    (live (hashedPage env pg head (size done)).mHashList).eraseP (nodeOf (size done)) =
      (located 0 done).map (nodeFor env) ∧
      (live (hashedPage env pg head (size done)).mHashList).any (nodeOf (size done)) = true := by
  have limit : ENTRY_COUNT = 126 := rfl
  have index : nodeOf (size done) ⟨BitVec.ofNat 8 (size done), env.itemHash head⟩ = true := by
    apply decide_eq_true
    rw [BitVec.toNat_ofNat, Nat.mod_eq_of_lt (by omega)]
  rw [live_insert _ _ bound, hash]
  refine ⟨?_, ?_⟩
  · rw [List.eraseP_append_right, List.eraseP_cons_of_pos index, List.append_nil]
    intro node member same
    obtain ⟨x, inside, rfl⟩ := List.mem_map.mp member
    have bounds := located_bounds inside
    have place := of_decide_eq_true same
    rw [index_nodeFor _ _ (by omega)] at place
    omega
  · rw [List.any_append, List.any_cons, index, Bool.true_or, Bool.or_true]

theorem wp_dropTorn {head : Item} {len : Nat} (progress : Progress env pg s done (.torn head len :: rest) tail)
    (reaches : Reaches pg s (size done + len + 1))
    (finish : ∀ pg' s', Progress env pg' s' (done ++ gones (len + 1)) rest tail → Kept True pg pg' → SameHeader s s' →
      pg'.mNextFreeEntry = max pg.mNextFreeEntry (size done + len + 1) → post (.ok ()) pg' s')
    (stop : ∀ s' segs', SameHeader s s' → Laid env s' segs' tail →
      settled segs' = settled (done ++ .torn head len :: rest) → cut s') :
    wp (Page.ignoreError (Page.eraseEntryAndSpan env (size done))) post cut (hashedPage env pg head (size done)) s := by
  have limit : ENTRY_COUNT = 126 := rfl
  obtain ⟨⟨torn, states⟩, bound⟩ := progress.here
  rw [size_torn] at bound
  obtain ⟨left, known⟩ := eraseP_inserted head (by omega) (by omega)
    progress.hash
  refine wp_ignoreError (wp_eraseSeg progress.laid rfl ⟨torn.sound, torn.head, torn.written⟩ states
    ⟨progress.sync.table, progress.sync.used, progress.sync.first⟩ known reaches ?_ ?_)
  · intro pg' s' after header gone
    refine finish pg' s' ⟨gone, after.sync, ?_⟩ ⟨after.state, after.seq, fun once => absurd trivial once⟩ header after.next
    rw [after.hash, left, located_append, Nat.zero_add, located_gones, List.append_nil]
  · intro s' segs' header laid either
    refine stop s' segs' header laid ?_
    rcases either with rfl | rfl
    · exact (settled_torn _ _ _ _).symm
    · rfl

end

section
variable {post : Outcome EspErr Unit → Page → Sector → Prop} {cut : Sector → Prop} {pg : Page} {s : Sector}

theorem wp_fullLoop (fuel i : Nat) (done rest : List Seg) (progress : Progress env pg s done rest .free)
    (place : size done = i ∨ rest = [] ∧ size done ≤ i) (enough : 0 < fuel ∧ ENTRY_COUNT < fuel + i)
    (next : pg.mNextFreeEntry = INVALID_ENTRY)
    (finish : ∀ pg' s', Progress env pg' s' (done ++ settled rest) [] .free → Kept True pg pg' → SameHeader s s' →
      pg'.mNextFreeEntry = INVALID_ENTRY → post (.ok ()) pg' s')
    (stop : ∀ s' segs', SameHeader s s' → Laid env s' segs' .free → settled segs' = settled (done ++ rest) → cut s') :
    wp (Page.fullLoop env fuel i) post cut pg s := by
  have limit : ENTRY_COUNT = 126 := rfl
  have invalid : INVALID_ENTRY = 4294967295 := rfl
  induction fuel generalizing i done rest pg s with
  | zero => omega
  | succ fuel ih =>
      have fits := progress.laid.fits
      have reaches (j : Nat) : Reaches pg s j := by
        intro k ge inside written
        exact ⟨k, ge, Nat.le_refl k, by omega, written⟩
      unfold Page.fullLoop
      by_cases pastEnd : ENTRY_COUNT ≤ i
      · rw [if_pos pastEnd]
        have none_ : rest = [] := by
          rcases place with here | ⟨none_, -⟩
          · cases rest with
            | nil => rfl
            | cons seg rest =>
                have positive := size_pos seg
                rw [size_append, size_cons] at fits
                omega
          · exact none_
        subst none_
        refine wp_pure _ (finish pg s ?_ (.refl _ pg) (.refl s) next)
        rw [settled, List.flatMap_nil, List.append_nil]
        exact progress
      · rw [if_neg pastEnd]
        refine wp_bind (wp_getState (by omega) ?_)
        dsimp only
        rw [progress.sync.table, ← stateOf]
        cases rest with
        | nil =>
            have beyond : size done ≤ i := by rcases place with here | ⟨-, here⟩ <;> omega
            have free := progress.laid.tail i (by rw [List.append_nil]; exact beyond)
            rw [free.1, if_pos (by decide)]
            exact ih (i + 1) done [] progress (Or.inr ⟨rfl, by omega⟩) (by omega) next finish stop
        | cons seg rest =>
            have here : size done = i := by
              rcases place with here | ⟨none_, -⟩
              · exact here
              · exact absurd none_ (List.cons_ne_nil _ _)
            obtain ⟨at_, bound⟩ := progress.here
            rw [here] at at_ bound
            cases seg with
            | gone =>
                have state : stateOf s i = .erased := at_
                rw [state, if_pos (by decide)]
                refine ih (i + 1) (done ++ [.gone]) rest progress.gone (Or.inl ?_) (by omega) next ?_ ?_
                · rw [size_append, size_cons, size_nil, size_gone, here]
                · intro pg' s' final
                  rw [List.append_assoc] at final
                  exact finish pg' s' final
                · intro s' segs' header laid same
                  rw [List.append_assoc] at same
                  exact stop s' segs' header laid same
            | item r =>
                have at_ : ItemAt env s i r := at_
                rw [size_item] at bound
                have written := at_.written 0 (Nat.zero_le _)
                rw [Nat.add_zero] at written
                rw [written, if_neg (by decide)]
                refine wp_bind (wp_readEntry (by omega) ?_)
                dsimp only
                have spanPos : 0 < r.head.span := by rw [at_.sound.span]; omega
                rw [at_.head, if_neg (not_not_intro at_.sound.crc.symm)]
                refine wp_bind (wp_assert spanPos (wp_bind (wp_modify ?_)))
                dsimp only
                rw [← here]
                have continue_ : wp (Page.fullLoop env fuel (size done + r.head.span)) post cut
                    (hashedPage env pg r.head (size done)) s := by
                  rw [at_.sound.span]
                  refine ih (size done + (r.body.length + 1)) (done ++ [.item r]) rest progress.item (Or.inl ?_)
                    (by omega) next ?_ ?_
                  · rw [size_append, size_cons, size_nil, size_item]
                  · intro pg' s' final same
                    rw [List.append_assoc] at final
                    exact finish pg' s' final ⟨same.state, same.seq, same.steady⟩
                  · intro s' segs' header laid same
                    rw [List.append_assoc] at same
                    exact stop s' segs' header laid same
                split
                · refine wp_bind (wp_allWritten (by exact progress.sync.table) _ _ ?_ ?_ ?_)
                  · rw [at_.sound.span]
                    omega
                  · intro _
                    dsimp only
                    rw [if_pos rfl]
                    exact continue_
                  · rintro ⟨k, less, other⟩
                    rw [at_.sound.span] at less
                    exfalso
                    apply other
                    rw [here, Nat.add_assoc]
                    exact at_.written (1 + k) (by omega)
                · refine wp_bind (wp_pure _ ?_)
                  dsimp only
                  rw [if_pos rfl]
                  exact continue_
            | torn head len =>
                obtain ⟨torn, states⟩ := at_
                rw [size_torn] at bound
                rw [torn.written, if_neg (by decide)]
                refine wp_bind (wp_readEntry (by omega) ?_)
                dsimp only
                have spanPos : 0 < head.span := by rw [torn.sound.span]; omega
                rw [torn.head, if_neg (not_not_intro torn.sound.crc.symm)]
                refine wp_bind (wp_assert spanPos (wp_bind (wp_modify ?_)))
                dsimp only
                obtain ⟨k, inside, missing⟩ := torn.missing
                have later : 0 < k := by
                  rcases Nat.eq_zero_or_pos k with rfl | positive
                  · exact absurd torn.written missing
                  · exact positive
                have isVariable : head.datatype.isVariable = true := by
                  by_contra fixed
                  have := torn.sound.short (Bool.eq_false_iff.mpr fixed)
                  omega
                rw [if_pos isVariable]
                refine wp_bind (wp_allWritten (by exact progress.sync.table) _ _ ?_ ?_ ?_)
                · rw [torn.sound.span]
                  omega
                · intro all
                  rw [torn.sound.span] at all
                  exfalso
                  apply missing
                  have written := all (k - 1) (by omega)
                  have place : i + 1 + (k - 1) = i + k := by omega
                  rwa [place] at written
                · intro _
                  dsimp only
                  rw [if_neg (by decide), ← here]
                  refine wp_bind (wp_dropTorn progress (reaches _) ?_ ?_)
                  · intro pg' s' dropped same header next'
                    rw [torn.sound.span]
                    refine ih (size done + (len + 1)) (done ++ gones (len + 1)) rest dropped (Or.inl ?_) (by omega) ?_ ?_ ?_
                    · rw [size_append, size_gones]
                    · rw [next', next]
                      omega
                    · intro pg'' s'' final same' header'
                      rw [List.append_assoc] at final
                      exact finish pg'' s'' final (same.trans same')
                        (header.trans header')
                    · intro s'' segs' header' laid equal
                      refine stop s'' segs' (header.trans header') laid ?_
                      rw [equal, settled_torn]
                  · exact stop

end

end EspFirmware.Proof.Nvs
