import EspFirmware.Proof.Nvs.LoadActive

/-!
`load`: whatever log NVS left on a sector, the page is in order afterwards, and where the power goes out
meanwhile the log still comes to the same.
-/

namespace EspFirmware.Proof.Nvs
open EspFirmware.Nvs EspFirmware.Spec EspFirmware.Lib Prog

variable {env : Env}

theorem loaded_active (segs : List Seg) (tail : Tail) :
    loaded env .active segs tail = lastByHash env (settled segs ++ settleTail tail) := rfl

def LastAt (done : List Seg) (item : Item) (lastItemIndex : Nat) : Prop :=
  lastItemIndex = INVALID_ENTRY ∨ ∃ a r, done = a ++ [.item r] ∧ lastItemIndex = size a ∧ item = r.head

structure Sorted (env : Env) (done : List Seg) : Prop where
  whole : Whole done
  distinct : DistinctHashes env done

theorem Sorted.gones {done : List Seg} (sorted : Sorted env done) (count : Nat) : Sorted env (done ++ gones count) := by
  refine ⟨Whole.append.mpr ⟨sorted.whole, whole_gones count⟩, ?_⟩
  rw [DistinctHashes, records_append, records_gones, List.append_nil]
  exact sorted.distinct

theorem Sorted.loaded_eq {done : List Seg} (sorted : Sorted env done) (rest : List Seg) (tail : Tail) :
    loaded env .active (done ++ rest) tail = lastByHash env (done ++ (settled rest ++ settleTail tail)) := by
  rw [loaded_active, settled_append, settled_whole sorted.whole, List.append_assoc]

theorem Sorted.loaded_done {done : List Seg} (sorted : Sorted env done) :
    loaded env .active (done ++ []) .free = done := by
  rw [sorted.loaded_eq]
  change lastByHash env (done ++ []) = done
  rw [List.append_nil, lastByHash_distinct sorted.distinct]

theorem Sorted.item {done : List Seg} {r : Record} (sorted : Sorted env done) :
    Sorted env (lastByHash env (done ++ [.item r])) := by
  refine ⟨whole_lastByHash (Whole.append.mpr ⟨sorted.whole, ?_⟩), distinct_lastByHash _⟩
  intro seg member
  rw [List.mem_singleton.mp member]
  rfl

theorem Sorted.loaded_item {done : List Seg} {r : Record} (sorted : Sorted env done) (rest : List Seg) (tail : Tail) :
    loaded env .active (lastByHash env (done ++ [.item r]) ++ rest) tail =
      loaded env .active (done ++ .item r :: rest) tail := by
  rw [sorted.item.loaded_eq, lastByHash_front, sorted.loaded_eq, settled_cons, List.append_assoc, List.append_assoc]
  rfl

theorem NextAt.congr {pg pg' : Page} {segs segs' : List Seg} {tail : Tail} (next : NextAt pg segs tail)
    (same : pg'.mNextFreeEntry = pg.mNextFreeEntry) (total : size segs' = size segs) : NextAt pg' segs' tail := by
  unfold NextAt
  rw [same, total]
  exact next

theorem NextAt.beyond {pg : Page} {segs : List Seg} {tail : Tail} (next : NextAt pg segs tail)
    (settledEnd : tail ≠ .half) : size segs ≤ pg.mNextFreeEntry := by
  have limit : ENTRY_COUNT = 126 := rfl
  have invalid : INVALID_ENTRY = 4294967295 := rfl
  cases tail with
  | half => exact absurd rfl settledEnd
  | free => rcases next with next | ⟨next, all⟩ <;> omega
  | cut head len => rcases next with ⟨low, -⟩ | ⟨next, all⟩ <;> omega

theorem isVariable_of_torn {s : Sector} {i : Nat} {head : Item} {len : Nat} (torn : TornAt env s i head len) :
    head.datatype.isVariable = true := by
  obtain ⟨k, within, missing⟩ := torn.missing
  by_contra fixed
  have none_ := torn.sound.short (Bool.eq_false_iff.mpr fixed)
  obtain rfl : k = 0 := by omega
  exact missing torn.written

section
variable {post : Outcome EspErr (Item × Nat) → Page → Sector → Prop} {cut : Sector → Prop} {pg : Page} {s : Sector}

theorem Progress.find {done rest : List Seg} {tail : Tail} (progress : Progress env pg s done rest tail)
    (hash : BitVec 24) :
    pg.mHashList.find 0 hash = ((located 0 done).find? fun x => env.itemHash x.2.head == hash).map Prod.fst := by
  have limit : ENTRY_COUNT = 126 := rfl
  have fits := progress.laid.fits
  rw [size_append] at fits
  rw [find_eq, progress.hash, find_nodes 0 hash]
  · congr 2
    rw [List.filter_eq_self]
    intro x _
    exact decide_eq_true (Nat.zero_le _)
  · intro x member
    have bounds := located_bounds member
    exact index_nodeFor _ _ (by omega)

theorem wp_checkLoop {twice : Prop} {end_ : Nat} {tail : Tail} (settledEnd : tail ≠ .half) (fuel : Nat)
    (done rest : List Seg) (item : Item) (lastItemIndex : Nat) (progress : Progress env pg s done rest tail)
    (sorted : Sorted env done) (torn : HasTorn rest → twice) (erased_ : EndErased s (done ++ rest) tail → twice)
    (next : NextAt pg (done ++ rest) tail) (bounded : end_ = min pg.mNextFreeEntry ENTRY_COUNT)
    (enough : ENTRY_COUNT < fuel + size done) (last_ : LastAt done item lastItemIndex)
    (finish : ∀ pg' s' item' last',
      Progress env pg' s' (loaded env .active (done ++ rest) tail) [] .free →
      Sorted env (loaded env .active (done ++ rest) tail) →
      NextAt pg' (loaded env .active (done ++ rest) tail) .free →
      LastAt (loaded env .active (done ++ rest) tail) item' last' → Kept twice pg pg' → SameHeader s s' →
      post (.ok (item', last')) pg' s')
    (stop : ∀ s' segs' tail', SameHeader s s' → Laid env s' segs' tail' →
      loaded env .active segs' tail' = loaded env .active (done ++ rest) tail → cut s') :
    wp (Page.checkLoop env end_ fuel (size done) item lastItemIndex) post cut pg s := by
  have limit : ENTRY_COUNT = 126 := rfl
  have invalid : INVALID_ENTRY = 4294967295 := rfl
  induction fuel generalizing done rest pg s item lastItemIndex with
  | zero =>
      have fits := progress.laid.fits
      rw [size_append] at fits
      omega
  | succ fuel ih =>
      have fits := progress.laid.fits
      have table (i : Nat) : entryState pg.mEntryTable i = stateOf s i := by rw [progress.sync.table, stateOf]
      unfold Page.checkLoop
      cases rest with
      | nil =>
          cases tail with
          | half => exact absurd rfl settledEnd
          | free =>
              have pastEnd : end_ ≤ size done := by
                rw [bounded]
                rw [List.append_nil] at next
                rcases next with next | ⟨-, all⟩ <;> omega
              rw [if_pos pastEnd]
              rw [sorted.loaded_done] at finish
              rw [List.append_nil] at next
              exact wp_pure _ (finish pg s item lastItemIndex progress sorted next last_ (.refl _ pg) (.refl s))
          | cut head len =>
              have laid := progress.laid
              rw [List.append_nil] at laid next fits erased_
              obtain ⟨inside, torn, free⟩ := laid.tail
              have under : ¬ end_ ≤ size done := by
                rw [bounded]
                rcases next with ⟨low, -⟩ | ⟨none_, -⟩ <;> omega
              have target : loaded env .active (done ++ []) (.cut head len) = done ++ gones (len + 1) := by
                rw [sorted.loaded_eq]
                exact lastByHash_distinct (sorted.gones (len + 1)).distinct
              rw [if_neg under]
              refine wp_bind (wp_getState (by omega) ?_)
              dsimp only
              rw [table, torn.written, if_neg (by decide)]
              refine wp_bind (wp_readEntry (by omega) ?_)
              dsimp only
              rw [torn.head, if_neg (not_not_intro torn.sound.crc.symm)]
              refine wp_bind (wp_modify (wp_bind (wp_get ?_)))
              dsimp only
              have isVariable := isVariable_of_torn torn
              obtain ⟨k, within, missing⟩ := torn.missing
              rw [if_pos isVariable, if_pos isVariable]
              refine wp_bind (wp_allWritten (by exact progress.sync.table) _ _ ?_ ?_ ?_)
              · rw [torn.sound.span]
                omega
              · intro all
                rw [torn.sound.span] at all
                exact absurd (all k (by omega)) missing
              · intro _
                dsimp only
                rw [if_neg (by decide)]
                refine wp_bind (wp_dropTail progress ?_ ?_)
                · intro pg' s' dropped same header next'
                  rw [torn.sound.span]
                  obtain ⟨more, rfl⟩ : ∃ more, fuel = more + 1 := ⟨fuel - 1, by omega⟩
                  unfold Page.checkLoop
                  have pastEnd : end_ ≤ size done + (len + 1) := by
                    rw [bounded]
                    rcases next with ⟨-, high⟩ | ⟨-, all⟩ <;> omega
                  rw [if_pos pastEnd]
                  rw [target] at finish
                  refine wp_pure _ (finish pg' s' _ _ dropped (sorted.gones _) ?_ (Or.inl rfl) (same.mono erased_) header)
                  have total : size (done ++ gones (len + 1)) = size done + (len + 1) := by
                    rw [size_append, size_gones]
                  rcases next with ⟨low, high⟩ | ⟨none_, all⟩
                  · left
                    omega
                  · right
                    omega
                · intro s' segs' tail' header laid' same
                  refine stop s' segs' tail' header laid' ?_
                  rw [loaded_active, same, List.append_nil, loaded_active]
      | cons seg rest =>
          have tornRest : HasTorn rest → twice := fun later => torn later.cons
          obtain ⟨at_, bound⟩ := progress.here
          have positive := size_pos seg
          have under : ¬ end_ ≤ size done := by
            rw [bounded]
            rw [size_append, size_cons] at fits
            have more : size done < size (done ++ seg :: rest) := by
              rw [size_append, size_cons]
              omega
            cases tail with
            | half => exact absurd rfl settledEnd
            | free => rcases next with next | ⟨next, -⟩ <;> omega
            | cut head len => rcases next with ⟨low, -⟩ | ⟨next, -⟩ <;> omega
          rw [if_neg under]
          refine wp_bind (wp_getState (by omega) ?_)
          dsimp only
          rw [table]
          cases seg with
          | gone =>
              have state : stateOf s (size done) = .erased := at_
              have shape : done ++ .gone :: rest = done ++ [.gone] ++ rest := by simp
              rw [state, if_pos rfl]
              have total : size (done ++ [.gone]) = size done + 1 := by
                rw [size_append, size_cons, size_nil, size_gone]
              rw [← total]
              rw [shape] at next finish stop erased_
              have step := ih (done ++ [.gone]) rest item INVALID_ENTRY progress.gone (sorted.gones 1)
              exact step tornRest erased_ next bounded (by omega) (Or.inl rfl) finish stop
          | item r =>
              have at_ : ItemAt env s (size done) r := at_
              rw [size_item] at bound
              have written := at_.written 0 (Nat.zero_le _)
              rw [Nat.add_zero] at written
              rw [written, if_neg (by decide)]
              refine wp_bind (wp_readEntry (by omega) ?_)
              dsimp only
              rw [at_.head, if_neg (not_not_intro at_.sound.crc.symm)]
              refine wp_bind (wp_modify (wp_bind (wp_get ?_)))
              dsimp only
              have inserted := progress.item
              have shape : done ++ .item r :: rest = done ++ [.item r] ++ rest := by simp
              have span : (if r.head.datatype.isVariable = true then r.head.span else 1) = r.body.length + 1 := by
                split
                · exact at_.sound.span
                · rename_i fixed
                  rw [at_.sound.short (Bool.eq_false_iff.mpr fixed)]
              have isWhole (p : Bool → Page.PageM (Item × Nat))
                  (run : wp (p true) post cut (hashedPage env pg r.head (size done)) s) :
                  wp (do
                    let whole ← if r.head.datatype.isVariable = true then
                      Page.allWritten (if r.head.datatype.isVariable = true then r.head.span else 1) (size done)
                      else pure true
                    p whole) post cut (hashedPage env pg r.head (size done)) s := by
                rw [span]
                split
                · refine wp_bind (wp_allWritten (by exact progress.sync.table) _ _ (by omega) (fun _ => run) ?_)
                  rintro ⟨k, less, other⟩
                  exact absurd (at_.written k (by omega)) other
                · exact wp_bind (wp_pure _ run)
              rw [shape] at next
              have kept := sorted.loaded_item (r := r) rest tail
              have continue_ (pg' : Page) (s' : Sector) (a : List Seg)
                  (sortedIn : lastByHash env (done ++ [.item r]) = a ++ [.item r]) (total : size a = size done)
                  (progress' : Progress env pg' s' (a ++ [.item r]) rest tail) (same : Kept twice pg pg')
                  (header : SameHeader s s') (sameNext : pg'.mNextFreeEntry = pg.mNextFreeEntry)
                  (later : ∀ j, size done + (r.body.length + 1) ≤ j → stateOf s' j = stateOf s j) :
                  wp (Page.checkLoop env end_ fuel (size done + (r.body.length + 1)) r.head (size done)) post cut pg' s' := by
                have place : size (a ++ [.item r]) = size done + (r.body.length + 1) := by
                  rw [size_append, size_cons, size_nil, size_item, total]
                have sorted' := sorted.item (r := r)
                rw [sortedIn] at kept sorted'
                rw [← place]
                have sizes : size (done ++ .item r :: rest) = size (a ++ [.item r] ++ rest) := by
                  rw [shape, size_append, size_append _ rest, place, size_append, size_cons, size_nil, size_item]
                refine ih (a ++ [.item r]) rest r.head (size done) progress' sorted' tornRest
                  (fun ended => erased_ (ended.congr sizes fun j ge =>
                    (later j (by rw [sizes, size_append, place] at ge; omega)).symm))
                  (next.congr sameNext (by simp only [size_append, total])) (by rw [bounded, sameNext]) (by omega)
                  (Or.inr ⟨a, r, rfl, total.symm, rfl⟩) ?_ ?_
                · rw [kept]
                  intro pg'' s'' item' last' ended sortedEnd nextEnd lastEnd same' header'
                  exact finish pg'' s'' item' last' ended sortedEnd nextEnd lastEnd (same.trans same') (header.trans header')
                · rw [kept]
                  intro s'' segs' tail' header' laid'
                  exact stop s'' segs' tail' (header.trans header') laid'
              refine isWhole _ ?_
              rw [if_pos rfl, inserted.find, located_append, Nat.zero_add, List.find?_append, span]
              cases found : (located 0 done).find? fun x => env.itemHash x.2.head == env.itemHash r.head with
              | none =>
                  have new : hasHash env (env.itemHash r.head) done = false := by
                    rw [hasHash, records, List.any_map, List.any_eq_false]
                    intro x member
                    exact List.find?_eq_none.mp found x member
                  have itself : (located (size done) [.item r]).find?
                      (fun x => env.itemHash x.2.head == env.itemHash r.head) = some (size done, r) := by
                    exact List.find?_cons_of_pos (beq_self_eq_true (env.itemHash r.head))
                  rw [Option.none_or, itself, Option.map_some]
                  dsimp only
                  rw [if_neg (Nat.lt_irrefl _)]
                  exact wp_bind (wp_pure _ (continue_ _ s done (lastByHash_snoc_new sorted.distinct new) rfl inserted
                    ⟨rfl, rfl, fun _ steady => steady⟩ (.refl s) rfl fun _ _ => rfl))
              | some x =>
                  obtain ⟨i, x⟩ := x
                  have member := List.mem_of_find?_eq_some found
                  have matched := List.find?_some found
                  have sameHash : env.itemHash x.head = env.itemHash r.head := beq_iff_eq.mp matched
                  obtain ⟨a, b, parts, place⟩ := located_split member
                  dsimp only at parts place
                  rw [Nat.zero_add] at place
                  subst parts place
                  have less : size a < size (a ++ .item x :: b) := by
                    rw [size_append, size_cons, size_item]
                    omega
                  have sortedIn := lastByHash_snoc_old sorted.distinct sameHash
                  have shape' : a ++ gones (x.body.length + 1) ++ b ++ [.item r] ++ rest =
                      a ++ gones (x.body.length + 1) ++ (b ++ [.item r] ++ rest) := by simp
                  have laid := inserted.laid
                  rw [Option.some_or, Option.map_some]
                  dsimp only
                  rw [if_pos less]
                  refine wp_bind (wp_dropDuplicate inserted ?_ ?_ ?_)
                  · refine (NextAt.congr next rfl rfl).reaches laid settledEnd ?_
                    simp only [size_append, size_cons, size_item]
                    omega
                  · intro pg' s' dropped same header next' later
                    refine continue_ pg' s' _ sortedIn ?_ dropped
                      ⟨same.state, same.seq, fun _ steady => same.steady not_false steady⟩ header ?_ fun j ge => later j ?_
                    · simp only [size_append, size_cons, size_item, size_gones]
                      omega
                    · rw [next']
                      dsimp only
                      have beyond := next.beyond settledEnd
                      simp only [size_append, size_cons, size_item] at beyond
                      omega
                    · simp only [size_append, size_cons, size_item] at ge
                      omega
                  · intro s' segs' header laid' same
                    refine stop s' segs' tail header laid' ?_
                    rw [← kept, sortedIn, shape', loaded_active, same, loaded_active]
          | torn head len =>
              have both : twice := torn ⟨head, len, List.mem_cons_self⟩
              obtain ⟨torn, states⟩ := at_
              rw [size_torn] at bound
              rw [torn.written, if_neg (by decide)]
              refine wp_bind (wp_readEntry (by omega) ?_)
              dsimp only
              rw [torn.head, if_neg (not_not_intro torn.sound.crc.symm)]
              refine wp_bind (wp_modify (wp_bind (wp_get ?_)))
              dsimp only
              have isVariable := isVariable_of_torn torn
              obtain ⟨k, within, missing⟩ := torn.missing
              rw [if_pos isVariable, if_pos isVariable]
              refine wp_bind (wp_allWritten (by exact progress.sync.table) _ _ ?_ ?_ ?_)
              · rw [torn.sound.span]
                omega
              · intro all
                rw [torn.sound.span] at all
                exact absurd (all k (by omega)) missing
              · intro _
                dsimp only
                rw [if_neg (by decide)]
                have target : loaded env .active (done ++ gones (len + 1) ++ rest) tail =
                    loaded env .active (done ++ .torn head len :: rest) tail := by
                  rw [loaded_active, loaded_active, settled_torn]
                have total : size (done ++ gones (len + 1)) = size done + (len + 1) := by
                  rw [size_append, size_gones]
                have beyond := next.beyond settledEnd
                simp only [size_append, size_cons, size_torn] at beyond
                refine wp_bind (wp_dropTorn progress ?_ ?_ ?_)
                · refine next.reaches progress.laid settledEnd ?_
                  simp only [size_append, size_cons, size_torn]
                  omega
                · intro pg' s' dropped same header next'
                  have sameNext : pg'.mNextFreeEntry = pg.mNextFreeEntry := by omega
                  rw [torn.sound.span, ← total]
                  refine ih (done ++ gones (len + 1)) rest head INVALID_ENTRY dropped (sorted.gones _) (fun _ => both)
                    (fun _ => both) (next.congr sameNext ?_) (by rw [bounded, sameNext]) (by omega) (Or.inl rfl) ?_ ?_
                  · simp only [size_append, size_cons, size_torn, size_gones]
                    omega
                  · rw [target]
                    intro pg'' s'' item' last' ended sortedEnd nextEnd lastEnd same' header'
                    exact finish pg'' s'' item' last' ended sortedEnd nextEnd lastEnd
                      ((same.mono fun _ => both).trans same') (header.trans header')
                  · rw [target]
                    intro s'' segs' tail' header' laid'
                    exact stop s'' segs' tail' (header.trans header') laid'
                · intro s' segs' header laid' same
                  refine stop s' segs' tail header laid' ?_
                  rw [loaded_active, loaded_active, same]

end

section
variable {pg : Page} {s : Sector}

theorem matchItem_self (head : Item) :
    Page.matchItem head.nsIndex head.datatype (some head.key) head = some (.ok ()) := by
  have same : Page.strncmpEq MAX_KEY_LENGTH head.key head.key = true := (strncmpEq_iff _ _ _).mpr rfl
  unfold Page.matchItem
  rw [if_neg (fun other => other.2 rfl), if_neg (by simp [same]), if_neg (fun other => other.2 rfl)]

theorem Sorted.unique {a : List Seg} {r : Record} (sorted : Sorted env (a ++ [.item r])) (holds : Holds env s 0 (a ++ [.item r]))
    {x : Nat × Record} (found : scanFrom r.head.nsIndex r.head.datatype (some r.head.key) 0 (a ++ [.item r]) = .ok x) :
    x.1 = size a := by
  obtain ⟨member, matches_⟩ := scanFrom_mem found
  have last_ : (size a, r) ∈ located 0 (a ++ [.item r]) := by
    rw [located_item]
    exact List.mem_append_right _ List.mem_cons_self
  have soundX := (located_itemAt holds member).sound
  have soundR : Sound env r.head r.body.length := (located_itemAt holds last_).sound
  have hashX := hash_of_match soundX soundR.namespace_ (by rw [matches_]; exact Option.some_ne_none _)
  have hashR := hash_of_match soundR soundR.namespace_ (by rw [matchItem_self]; exact Option.some_ne_none _)
  rw [located_item] at member
  rcases List.mem_append.mp member with early | late
  · have distinct := sorted.distinct
    rw [DistinctHashes, records_append] at distinct
    have apart := (List.pairwise_append.mp distinct).2.2 x.2 (List.mem_map_of_mem early) r List.mem_cons_self
    exact absurd (hashX.symm.trans hashR) apart
  · rw [List.mem_singleton.mp late]

theorem Progress.clean {segs : List Seg} (progress : Progress env pg s segs [] .free) (whole : Whole segs)
    (next : pg.mNextFreeEntry = size segs ∨
      (pg.mNextFreeEntry = INVALID_ENTRY ∧ (pg.mState = .active → size segs = ENTRY_COUNT))) :
    Clean env pg s segs := by
  obtain ⟨laid, sync, hash⟩ := progress
  rw [List.append_nil] at laid
  exact ⟨sync, laid.holds, whole, laid.fits, laid.tail, hash, next⟩

end

section
variable {post : Outcome EspErr Unit → Page → Sector → Prop} {cut : Sector → Prop} {pg : Page} {s : Sector}
  {segs : List Seg} {tail : Tail}

theorem wp_loadActive (state : pg.mState = .active) (laid : Laid env s segs tail) (sync : Synced pg s)
    (hash : pg.mHashList = []) (next : pg.mNextFreeEntry = INVALID_ENTRY)
    (done : ∀ pg' s', Clean env pg' s' (loaded env .active segs tail) → Kept (CountedTwice s segs tail) pg pg' →
      SameHeader s s' → post (.ok ()) pg' s')
    (stop : ∀ s' segs' tail', SameHeader s s' → Laid env s' segs' tail' →
      loaded env .active segs' tail' = loaded env .active segs tail → cut s') :
    wp (Page.loadActive env) post cut pg s := by
  have limit : ENTRY_COUNT = 126 := rfl
  unfold Page.loadActive
  refine wp_bind (wp_modify (wp_bind ?_))
  refine wp_halfWrittenLoop laid ⟨sync.table, sync.used, sync.first⟩ (nextAt_found laid sync.table next) Or.inl
    endErased_twice (endStarted_twice laid sync.table next) ?_ ?_
  · intro pg₁ s₁ segs₁ tail₁ laid₁ sync₁ next₁ settledEnd settled₁ torn₁ erased₁ hash₁ same₁ header₁
    have target : loaded env .active segs₁ tail₁ = loaded env .active segs tail := by
      rw [loaded_active, settled₁, loaded_active]
    refine wp_bind (wp_get ?_)
    dsimp only
    have started : Progress env pg₁ s₁ [] segs₁ tail₁ := by
      refine ⟨laid₁, sync₁, ?_⟩
      rw [hash₁]
      dsimp only
      rw [hash]
      rfl
    refine wp_bind (wp_checkLoop settledEnd (ENTRY_COUNT + 1) [] segs₁ Page.blankItem INVALID_ENTRY started
      ⟨nofun, List.Pairwise.nil⟩ torn₁ erased₁ next₁ rfl (by rw [size_nil]; omega) (Or.inl rfl) ?_ ?_)
    · rw [List.nil_append, target]
      intro pg₂ s₂ item lastItemIndex progress sorted next₂ last_ same₂ header₂
      have clean : Clean env pg₂ s₂ (loaded env .active segs tail) := by
        refine progress.clean sorted.whole ?_
        rcases next₂ with here | ⟨none_, all⟩
        · exact Or.inl here
        · exact Or.inr ⟨none_, fun _ => all⟩
      have finished := done pg₂ s₂ clean
        ⟨same₂.state.trans same₁.state, same₂.seq.trans same₁.seq, fun once steady => (same₁.trans same₂).steady once steady⟩
        (header₁.trans header₂)
      dsimp only
      by_cases none_ : lastItemIndex = INVALID_ENTRY
      · rw [if_neg (not_not_intro none_)]
        exact wp_pure _ finished
      · rw [if_pos none_]
        obtain ⟨a, r, parts, place, isHead⟩ : ∃ a r, loaded env .active segs tail = a ++ [.item r] ∧
            lastItemIndex = size a ∧ item = r.head := by
          rcases last_ with invalid | known
          · exact absurd invalid none_
          · exact known
        have active : pg₂.mState = .active := (same₂.state.trans same₁.state).trans state
        subst isHead
        refine wp_bind (wp_findItem clean (Or.inl active) (boundary_zero _) _ ?_)
        intro found finds _
        dsimp only
        cases scanned : scanFrom r.head.nsIndex r.head.datatype (some r.head.key) 0 (loaded env .active segs tail) with
        | error e =>
            rw [scanned] at finds
            have eq : found.result = .error e := finds
            rw [eq]
            exact wp_pure _ finished
        | ok x =>
            rw [scanned] at finds
            have eq : found = ⟨.ok x.1, x.2.head⟩ := finds
            have holds := clean.holds
            rw [parts] at scanned sorted holds
            have same := sorted.unique holds scanned
            rw [eq]
            dsimp only
            rw [if_neg (by omega)]
            exact wp_pure _ finished
    · rw [List.nil_append, target]
      intro s' segs' tail' header
      exact stop s' segs' tail' (header₁.trans header)
  · intro s' segs' tail' header laid' settled'
    refine stop s' segs' tail' header laid' ?_
    rw [loaded_active, settled', loaded_active]

theorem gones_front (segs : List Seg) :
    (∃ count, segs = gones count) ∨ ∃ count seg rest, segs = gones count ++ seg :: rest ∧ seg ≠ .gone := by
  induction segs with
  | nil => exact Or.inl ⟨0, rfl⟩
  | cons seg segs ih =>
      by_cases gone : seg = .gone
      · subst gone
        rcases ih with ⟨count, rfl⟩ | ⟨count, seg, rest, rfl, other⟩
        · exact Or.inl ⟨count + 1, rfl⟩
        · exact Or.inr ⟨count + 1, seg, rest, rfl, other⟩
      · exact Or.inr ⟨0, seg, segs, rfl, gone⟩

theorem segAt_written {i : Nat} {seg : Seg} (at_ : SegAt env s i seg) (other : seg ≠ .gone) : stateOf s i = .written := by
  cases seg with
  | gone => exact absurd rfl other
  | item r => exact ItemAt.written at_ 0 (Nat.zero_le _)
  | torn head len => exact at_.1.written

theorem gones_erased {count i j : Nat} (holds : Holds env s i (gones count)) (low : i ≤ j) (high : j < i + count) :
    stateOf s j = .erased := by
  refine erased_of_none (whole_gones count) (located_gones i count) holds low ?_
  rw [size_gones]
  exact high

theorem firstUsed_front (laid : Laid env s segs .free) :
    ∃ count rest, segs = gones count ++ rest ∧ (count = firstUsed s ∨ rest = [] ∧ count ≤ firstUsed s) := by
  have limit : ENTRY_COUNT = 126 := rfl
  have invalid : INVALID_ENTRY = 4294967295 := rfl
  have fits := laid.fits
  rcases gones_front segs with ⟨count, rfl⟩ | ⟨count, seg, rest, rfl, other⟩
  · refine ⟨count, [], (List.append_nil _).symm, Or.inr ⟨rfl, ?_⟩⟩
    have none_ : firstUsed s = INVALID_ENTRY := by
      refine firstUsed_none fun j inside written => ?_
      have within := written_inside laid.tail written
      rw [size_gones] at within
      rw [gones_erased laid.holds (Nat.zero_le j) (by omega)] at written
      exact absurd written (by decide)
    rw [size_gones] at fits
    omega
  · refine ⟨count, seg :: rest, rfl, Or.inl ?_⟩
    obtain ⟨front, at_, -⟩ := holds_append.mp laid.holds
    rw [size_gones, Nat.zero_add] at at_
    have positive := size_pos seg
    rw [size_append, size_gones, size_cons] at fits
    refine (firstUsed_eq (by omega) (segAt_written at_ other) fun j less written => ?_).symm
    rw [gones_erased front (Nat.zero_le j) (by omega)] at written
    exact absurd written (by decide)

theorem wp_loadFull (state : pg.mState ≠ .active) (laid : Laid env s segs .free) (sync : Synced pg s)
    (hash : pg.mHashList = []) (next : pg.mNextFreeEntry = INVALID_ENTRY)
    (done : ∀ pg' s', Clean env pg' s' (settled segs) → Kept True pg pg' → SameHeader s s' → post (.ok ()) pg' s')
    (stop : ∀ s' segs', SameHeader s s' → Laid env s' segs' .free → settled segs' = settled segs → cut s') :
    wp (Page.fullLoop env (ENTRY_COUNT + 1) pg.mFirstUsedEntry) post cut pg s := by
  obtain ⟨count, rest, rfl, place⟩ := firstUsed_front laid
  have started : Progress env pg s (gones count) rest .free := by
    refine ⟨laid, sync, ?_⟩
    rw [hash, located_gones]
    rfl
  have front : settled (gones count ++ rest) = gones count ++ settled rest := by
    rw [settled_append, settled_gones]
  refine wp_fullLoop (ENTRY_COUNT + 1) pg.mFirstUsedEntry (gones count) rest started ?_ (by omega) next ?_ stop
  · rw [size_gones, sync.first]
    exact place
  · intro pg' s' progress same header next'
    rw [← front] at progress
    refine done pg' s' (progress.clean (whole_settled _) (Or.inr ⟨next', fun active => ?_⟩)) same header
    rw [same.state] at active
    exact absurd active state

theorem ofWord_toWord {st : PageState} (searched : Searched st) : PageState.ofWord st.toWord = st := by
  rcases searched with rfl | rfl | rfl <;> decide

theorem loaded_full {st : PageState} (state : st ≠ .active) (segs : List Seg) :
    loaded env st segs .free = settled segs := by
  unfold loaded
  rw [if_neg state]
  exact List.append_nil _

theorem wp_mLoadEntryTable (laid : Laid env s segs tail)
    (closed : pg.mState ≠ .active → tail = .free) (hash : pg.mHashList = []) (next : pg.mNextFreeEntry = INVALID_ENTRY)
    (first : pg.mFirstUsedEntry = INVALID_ENTRY)
    (done : ∀ pg' s', Clean env pg' s' (loaded env pg.mState segs tail) → Kept True pg pg' → SameHeader s s' →
      (pg.mState = .active → ¬ CountedTwice s segs tail → Steady pg') → post (.ok ()) pg' s')
    (stop : ∀ s' segs' tail', SameHeader s s' → Laid env s' segs' tail' → (pg.mState ≠ .active → tail' = .free) →
      loaded env pg.mState segs' tail' = loaded env pg.mState segs tail → cut s') :
    wp (Page.mLoadEntryTable env) post cut pg s := by
  unfold Page.mLoadEntryTable
  refine wp_bind (wp_read (wp_bind (wp_modify (wp_bind (wp_modify (wp_bind (wp_get ?_)))))))
  dsimp only
  have sync : Synced (Page.countEntries { pg with mEntryTable := fun k => s (.table k) }) s := by
    refine ⟨rfl, rfl, ?_⟩
    unfold Page.countEntries
    dsimp only
    rw [if_pos first]
    rfl
  by_cases active : pg.mState = .active
  · rw [if_pos (by exact active)]
    refine wp_loadActive (by exact active) laid sync hash next ?_ ?_
    · rw [active] at done
      intro pg' s' clean same header
      exact done pg' s' clean ⟨same.state, same.seq, fun once => absurd trivial once⟩ header
        fun _ once => same.steady once rfl
    · rw [active] at stop
      intro s' segs' tail' header laid' same
      exact stop s' segs' tail' header laid' (fun other => absurd rfl other) same
  · rw [if_neg (by exact active)]
    obtain rfl := closed active
    rw [loaded_full active] at done stop
    refine wp_loadFull (by exact active) laid sync hash next ?_ ?_
    · intro pg' s' clean same header
      exact done pg' s' clean ⟨same.state, same.seq, fun once => absurd trivial once⟩ header
        fun isActive => absurd isActive active
    · intro s' segs' header laid' same
      refine stop s' segs' .free header laid' (fun _ => rfl) ?_
      rw [loaded_full active]
      exact same

theorem wp_load_steady {st : PageState} {seq : Word} (header : HeaderAt env s st seq) (searched : Searched st)
    (laid : Laid env s segs tail) (closed : st ≠ .active → tail = .free)
    (done : ∀ pg' s', Clean env pg' s' (loaded env st segs tail) → pg'.mState = st → pg'.mSeqNumber = seq →
      HeaderAt env s' st seq → (st = .active → ¬ CountedTwice s segs tail → Steady pg') → post (.ok ()) pg' s')
    (stop : ∀ s' segs' tail', HeaderAt env s' st seq → Laid env s' segs' tail' → (st ≠ .active → tail' = .free) →
      loaded env st segs' tail' = loaded env st segs tail → cut s') :
    wp (Page.load env) post cut (Page.fresh env) s := by
  have initialized : st ≠ .uninitialized := by rcases searched with rfl | rfl | rfl <;> decide
  unfold Page.load
  refine wp_bind (wp_modify (wp_bind (wp_read ?_)))
  dsimp only
  rw [header.state, ofWord_toWord searched, if_neg initialized, if_pos header.crc, header.seq]
  refine wp_bind (wp_modify (wp_bind (wp_get ?_)))
  generalize start : Page.mk _ _ _ _ _ _ _ _ = pg
  have state : pg.mState = st := by rw [← start]
  have seqNumber : pg.mSeqNumber = seq := by rw [← start]
  have run : wp (Page.ignoreError (Page.mLoadEntryTable env)) post cut pg s := by
    refine wp_ignoreError (wp_mLoadEntryTable laid (by rw [state]; exact closed)
      (by rw [← start]; rfl) (by rw [← start]; rfl) (by rw [← start]; rfl) ?_ ?_)
    · intro pg' s' clean same header' steady
      rw [state] at clean steady
      exact done pg' s' clean (same.state.trans state) (same.seq.trans seqNumber) (header.congr header') steady
    · rw [state]
      intro s' segs' tail' header' laid' closed' same
      exact stop s' segs' tail' (header.congr header') laid' closed' same
  dsimp only
  rw [state]
  rcases searched with rfl | rfl | rfl
  · exact run
  · exact run
  · exact run

theorem wp_load {st : PageState} {seq : Word} (header : HeaderAt env s st seq) (searched : Searched st)
    (laid : Laid env s segs tail) (closed : st ≠ .active → tail = .free)
    (done : ∀ pg' s', Clean env pg' s' (loaded env st segs tail) → pg'.mState = st → pg'.mSeqNumber = seq →
      HeaderAt env s' st seq → post (.ok ()) pg' s')
    (stop : ∀ s' segs' tail', HeaderAt env s' st seq → Laid env s' segs' tail' → (st ≠ .active → tail' = .free) →
      loaded env st segs' tail' = loaded env st segs tail → cut s') :
    wp (Page.load env) post cut (Page.fresh env) s :=
  wp_load_steady header searched laid closed
    (fun pg' s' clean state seqNumber header' _ => done pg' s' clean state seqNumber header') stop

theorem looksEmpty_erased : Page.looksEmpty erasedSector = true := by
  unfold Page.looksEmpty erasedSector
  simp

theorem wp_load_erased (done : ∀ pg', BlankPage pg' → pg'.mSeqNumber = blank → post (.ok ()) pg' erasedSector) :
    wp (Page.load env) post cut (Page.fresh env) erasedSector := by
  unfold Page.load
  refine wp_bind (wp_modify (wp_bind (wp_read ?_)))
  dsimp only
  have state : PageState.ofWord (erasedSector (.header 0)) = .uninitialized := by decide
  rw [state, if_pos rfl, looksEmpty_erased]
  exact wp_bind (wp_modify (wp_bind (wp_get (wp_pure _ (done _ ⟨rfl, rfl, rfl, rfl, rfl⟩ rfl)))))

theorem wp_load_junk (junk : Junk env s) (done : post (.ok ()) { Page.fresh env with mState := .corrupt } s) :
    wp (Page.load env) post cut (Page.fresh env) s := by
  obtain ⟨active, crc⟩ := junk
  unfold Page.load
  refine wp_bind (wp_modify (wp_bind (wp_read ?_)))
  dsimp only
  have state : PageState.ofWord PageState.active.toWord = .active := by decide
  rw [active, state, if_neg (by decide), if_neg crc]
  exact wp_bind (wp_get (wp_modify done))

end

end EspFirmware.Proof.Nvs
