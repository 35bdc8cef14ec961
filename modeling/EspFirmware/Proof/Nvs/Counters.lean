import EspFirmware.Spec.PageScan
import EspFirmware.Proof.Nvs.Load
import EspFirmware.Proof.Nvs.PageOps

/-!
The counters of a page are those of its entry table, in every run in which no item is counted twice.
-/

namespace EspFirmware.Proof.Nvs
open EspFirmware.Nvs EspFirmware.Spec EspFirmware.Lib Prog

variable {env : Env} {pg : Page} {s : Sector} {segs : List Seg}

theorem length_located_le (i : Nat) (segs : List Seg) : (located i segs).length ≤ size segs := by
  induction segs generalizing i with
  | nil => exact Nat.le_refl 0
  | cons seg rest ih =>
      rw [size_cons]
      cases seg with
      | gone => exact Nat.le_trans (ih _) (Nat.le_add_left _ _)
      | item r =>
          have later := ih (i + r.size)
          rw [located, List.length_cons, size_item]
          omega
      | torn head len => exact Nat.le_trans (ih _) (Nat.le_add_left _ _)

theorem filter_first {i : Nat} {x : Nat × Record} {rest : List (Nat × Record)}
    (items : ((located 0 segs).filter fun x => decide (i ≤ x.1)) = x :: rest) :
    ∃ a b, segs = a ++ .item x.2 :: b ∧ x.1 = size a ∧ rest = located (size a + (x.2.body.length + 1)) b := by
  have chosen : x ∈ (located 0 segs).filter fun x => decide (i ≤ x.1) := by
    rw [items]
    exact List.mem_cons_self
  have low : i ≤ x.1 := of_decide_eq_true (List.mem_filter.mp chosen).2
  obtain ⟨a, b, split, place⟩ := located_split (List.mem_of_mem_filter chosen)
  rw [Nat.zero_add] at place
  refine ⟨a, b, split, place, ?_⟩
  have late : (located (size a + (x.2.body.length + 1)) b).filter (fun y => decide (i ≤ y.1)) =
      located (size a + (x.2.body.length + 1)) b := by
    rw [List.filter_eq_self]
    intro y member
    have bounds := located_bounds member
    exact decide_eq_true (by omega)
  have kept : decide (i ≤ (size a, x.2).1) = true := decide_eq_true (by rw [← place]; exact low)
  rw [split, located_item, List.filter_append, List.filter_cons, if_pos kept, late] at items
  -- an item before it from `i` on would come first
  cases early : (located 0 a).filter fun y => decide (i ≤ y.1) with
  | nil =>
      rw [early, List.nil_append] at items
      exact (List.cons.inj items).2.symm
  | cons y ys =>
      have before : y ∈ located 0 a := List.mem_of_mem_filter (by rw [early]; exact List.mem_cons_self)
      have bounds := located_bounds before
      rw [early, List.cons_append] at items
      rw [(List.cons.inj items).1] at bounds
      omega

theorem findItem_any (clean : Clean env pg s segs) (searched : Searched pg.mState) {i : Nat}
    (boundary : Boundary segs i) :
    ∃ found, Finds found (scanFrom NS_ANY ItemType.ANY none i segs) ∧
      (Page.findItem env NS_ANY ItemType.ANY none i Page.blankItem pg s).outcome = .ok found ∧
      (Page.findItem env NS_ANY ItemType.ANY none i Page.blankItem pg s).volatile = pg ∧
      (Page.findItem env NS_ANY ItemType.ANY none i Page.blankItem pg s).durable = s := by
  have run : wp (Page.findItem env NS_ANY ItemType.ANY none i Page.blankItem)
      (fun o pg' s' => ∃ found, Finds found (scanFrom NS_ANY ItemType.ANY none i segs) ∧ o = .ok found ∧
        pg' = pg ∧ s' = s) (fun _ => True) pg s :=
    wp_findItem clean searched boundary _ fun found finds _ => ⟨found, finds, rfl, rfl, rfl⟩
  exact run.ends

theorem foundItems_eq (clean : Clean env pg s segs) (searched : Searched pg.mState) (fuel i : Nat)
    (boundary : Boundary segs i)
    (enough : ((located 0 segs).filter fun x => decide (i ≤ x.1)).length < fuel) :
    foundItems env fuel i pg s =
      ((located 0 segs).filter fun x => decide (i ≤ x.1)).map fun x => (x.1, x.2.body.length + 1) := by
  induction fuel generalizing i with
  | zero => omega
  | succ fuel ih =>
      obtain ⟨found, finds, outcome, volatile, durable⟩ := findItem_any clean searched boundary
      rw [scanFrom] at finds
      rw [foundItems]
      simp only [outcome, volatile, durable]
      cases items : (located 0 segs).filter fun x => decide (i ≤ x.1) with
      | nil =>
          rw [items] at finds
          have result : found.result = .error .notFound := finds
          obtain ⟨_, item⟩ := found
          subst result
          rfl
      | cons x rest =>
          rw [items, firstMatch, matchItem_any] at finds
          have eq : found = ⟨.ok x.1, x.2.head⟩ := finds
          obtain ⟨a, b, split, place, later⟩ := filter_first items
          have member : x ∈ located 0 segs := by
            refine List.mem_of_mem_filter (p := fun x => decide (i ≤ x.1)) ?_
            rw [items]
            exact List.mem_cons_self
          have span := (located_itemAt clean.holds member).sound.span
          have next : ((located 0 segs).filter fun y => decide (x.1 + (x.2.body.length + 1) ≤ y.1)) = rest := by
            have total : size (a ++ [.item x.2]) = x.1 + (x.2.body.length + 1) := by
              rw [size_append, size_cons, size_nil, size_item, place]
            have behind := filter_located (b := b) total
            rw [List.append_assoc, List.singleton_append, ← split] at behind
            rw [behind, later, place]
          rw [items, List.length_cons] at enough
          subst eq
          dsimp only
          rw [span, ih, next, List.map_cons]
          · rw [split, place]
            exact boundary_next
          · rw [next]
            omega

theorem filter_span {i len : Nat} {p : Nat → Bool} (all : ∀ k, k ≤ len → p (i + k) = true) :
    (List.range' i (len + 1)).filter p = List.range' i (len + 1) := by
  rw [List.filter_eq_self]
  intro j member
  obtain ⟨low, high⟩ := List.mem_range'_1.mp member
  have here := all (j - i) (by omega)
  rwa [Nat.add_sub_cancel' low] at here

theorem spans_eq {i : Nat} (whole : Whole segs) (holds : Holds env s i segs) :
    ((located i segs).map fun x => (x.1, x.2.body.length + 1)).flatMap (fun x => List.range' x.1 x.2) =
      (List.range' i (size segs)).filter fun j => stateOf s j = .written := by
  induction segs generalizing i with
  | nil => rfl
  | cons seg rest ih =>
      have later := ih (fun seg member => whole seg (List.mem_cons_of_mem _ member)) holds.2
      rw [size_cons, ← List.range'_append_1, List.filter_append, ← later]
      cases seg with
      | gone =>
          have erased_ : stateOf s i = .erased := holds.1
          have none_ : (List.range' i Seg.gone.size).filter (fun j => stateOf s j = .written) = [] := by
            simp [erased_]
          rw [none_]
          rfl
      | item r =>
          have at_ : ItemAt env s i r := holds.1
          have all : (List.range' i (Seg.item r).size).filter (fun j => stateOf s j = .written) =
              List.range' i (r.body.length + 1) :=
            filter_span fun k inside => decide_eq_true (at_.written k inside)
          rw [all]
          rfl
      | torn head len => exact absurd (whole _ List.mem_cons_self) Bool.false_ne_true

theorem written_log (clean : Clean env pg s segs) :
    ((List.range ENTRY_COUNT).filter fun j => stateOf s j = .written) =
      (List.range' 0 (size segs)).filter fun j => stateOf s j = .written := by
  obtain ⟨more, total⟩ := Nat.exists_eq_add_of_le clean.fits
  have none_ : (List.range' (0 + size segs) more).filter (fun j => stateOf s j = .written) = [] := by
    rw [List.filter_eq_nil_iff]
    intro j member written
    have within := written_inside clean.free (of_decide_eq_true written)
    have := List.mem_range'_1.mp member
    omega
  rw [List.range_eq_range', total, ← List.range'_append_1, List.filter_append, none_, List.append_nil]

theorem entriesIn_active (active : pg.mState = .active) (table : pg.mEntryTable = tableOf s) (state : EntryState) :
    entriesIn state pg = (List.range ENTRY_COUNT).filter fun i => stateOf s i = state := by
  rw [entriesIn, tableInUse, if_pos (Or.inl active), table]
  rfl

theorem Clean.countersAgree (clean : Clean env pg s segs) (active : pg.mState = .active) (steady : Steady pg) :
    CountersAgree env pg s := by
  have entries := entriesIn_active active clean.sync.table
  have every : ((located 0 segs).filter fun x => decide (0 ≤ x.1)) = located 0 segs := by
    rw [List.filter_eq_self]
    exact fun x _ => decide_eq_true (Nat.zero_le _)
  refine ⟨?_, ?_, ?_, ?_⟩
  · rw [entries, ← List.countP_eq_length_filter, clean.sync.used]
    rfl
  · rw [entries, ← List.countP_eq_length_filter, (steady_iff clean.sync.table).mp steady]
    rfl
  · rw [entries, List.head?_filter, clean.sync.first]
    rfl
  · have short : ((located 0 segs).filter fun x => decide (0 ≤ x.1)).length < ENTRY_COUNT + 1 := by
      rw [every]
      exact Nat.lt_succ_of_le (Nat.le_trans (length_located_le 0 segs) clean.fits)
    rw [foundItems_eq clean (Or.inl active) _ 0 (boundary_zero segs) short, every, spans_eq clean.whole clean.holds,
      entries, written_log clean]

structure Unused (pg : Page) : Prop where
  state : pg.mState = .uninitialized ∨ pg.mState = .corrupt ∨ pg.mState = .invalid
  used : pg.mUsedEntryCount = 0
  erased : pg.mErasedEntryCount = 0
  first : pg.mFirstUsedEntry = INVALID_ENTRY

theorem Unused.entriesIn (unused : Unused pg) (state : EntryState) (other : state ≠ .empty) :
    entriesIn state pg = [] := by
  have table : tableInUse pg = fun _ => blank := by
    rw [tableInUse, if_neg]
    rcases unused.state with here | here | here <;> rw [here] <;> decide
  have empty (i : Nat) : entryState (fun _ => blank) i = .empty := stateOf_erased i
  rw [Spec.entriesIn, List.filter_eq_nil_iff]
  intro i _
  rw [table, empty]
  simpa using other.symm

theorem Unused.findItem (unused : Unused pg) (nsIndex : Byte) (datatype : ItemType) (key : Option (List Byte))
    (i : Nat) (item : Item) (s : Sector) :
    Page.findItem env nsIndex datatype key i item pg s = ⟨.ok ⟨.error .notFound, item⟩, pg, s, []⟩ := by
  have closed : pg.mState = .corrupt ∨ pg.mState = .invalid ∨ pg.mState = .uninitialized ∨ ENTRY_COUNT ≤ i := by
    rcases unused.state with here | here | here <;> simp [here]
  have got : (get : Page.PageM Page) pg s = ⟨.ok pg, pg, s, []⟩ := rfl
  unfold Page.findItem
  rw [bind_quiet got, if_pos closed]
  rfl

theorem Unused.countersAgree (unused : Unused pg) (s : Sector) : CountersAgree env pg s := by
  have none_ := unused.entriesIn .written (by decide)
  refine ⟨?_, ?_, ?_, ?_⟩
  · rw [none_, unused.used]
    rfl
  · rw [unused.entriesIn .erased (by decide), unused.erased]
    rfl
  · rw [none_, unused.first]
    rfl
  · rw [none_, foundItems, unused.findItem]
    rfl

def Rests (env : Env) (s : Sector) : Prop :=
  s = erasedSector ∨ Junk env s ∨ ∃ seq segs tail, HeaderAt env s .active seq ∧ Laid env s segs tail

inductive PageAt (env : Env) : Page → Sector → Prop where
  | empty {pg : Page} (blank_ : BlankPage pg) : PageAt env pg erasedSector
  | closed {s : Sector} {st : PageState} (rests : Rests env s) (state : st = .corrupt ∨ st = .invalid) :
      PageAt env { Page.fresh env with mState := st } s
  | active {pg : Page} {s : Sector} {seq : Word} {segs : List Seg} (clean : Clean env pg s segs)
      (state : pg.mState = .active) (header : HeaderAt env s .active seq) (steady : Steady pg) : PageAt env pg s

theorem PageAt.rests (at_ : PageAt env pg s) : Rests env s := by
  cases at_ with
  | empty _ => exact Or.inl rfl
  | closed rests _ => exact rests
  | active clean _ header _ => exact Or.inr (Or.inr ⟨_, _, _, header, clean.laid⟩)

theorem BlankPage.unused (blank_ : BlankPage pg) : Unused pg :=
  ⟨Or.inl blank_.state, blank_.used, blank_.erased, blank_.first⟩

theorem unused_closed (env : Env) {st : PageState} (state : st = .corrupt ∨ st = .invalid) :
    Unused { Page.fresh env with mState := st } :=
  ⟨Or.inr state, rfl, rfl, rfl⟩

theorem PageAt.fresh (rests : Rests env s) : PageAt env (Page.fresh env) s :=
  show PageAt env { Page.fresh env with mState := .invalid } s from .closed rests (Or.inr rfl)

theorem PageAt.countersAgree (at_ : PageAt env pg s) : CountersAgree env pg s := by
  cases at_ with
  | empty blank_ => exact blank_.unused.countersAgree erasedSector
  | closed _ state => exact (unused_closed env state).countersAgree s
  | active clean state _ steady => exact clean.countersAgree state steady

abbrev LeavesRight (env : Env) (p : Page.PageM Unit) (pg : Page) (s : Sector) : Prop :=
  wp p (fun o pg' s' => o ≠ .fault ∧ PageAt env pg' s') (Rests env) pg s

theorem ends_active {pg' : Page} {s' : Sector} {segs' : List Seg} {seq : Word} (clean : Clean env pg' s' segs')
    (active : pg.mState = .active) (header : HeaderAt env s .active seq) (steady : Steady pg) (same : SamePage pg pg')
    (sameHeader : SameHeader s s') : PageAt env pg' s' :=
  .active clean (same.state.trans active) (header.congr sameHeader) (same.steady not_false steady)

theorem wp_load_counters (rests : Rests env s) :
    wp (Page.load env) (fun o pg' s' => o ≠ .fault ∧ (CountedOnce env s → PageAt env pg' s')) (Rests env)
      (Page.fresh env) s := by
  rcases rests with rfl | junk | ⟨seq, segs, tail, header, laid⟩
  · exact wp_load_erased fun pg' blank_ _ => ⟨by simp, fun _ => .empty blank_⟩
  · exact wp_load_junk junk ⟨by simp, fun _ => .closed (Or.inr (Or.inl junk)) (Or.inl rfl)⟩
  · have stops {s' : Sector} {segs' : List Seg} {tail' : Tail} (header' : HeaderAt env s' .active seq)
        (laid' : Laid env s' segs' tail') : Rests env s' := Or.inr (Or.inr ⟨seq, segs', tail', header', laid'⟩)
    by_cases once : CountedOnce env s
    · obtain ⟨segs, tail, laid, notTwice⟩ := once header.state header.crc
      refine wp_load_steady header (Or.inl rfl) laid (fun other => absurd rfl other) ?_ ?_
      · intro pg' s' clean state _ header' steady
        exact ⟨by simp, fun _ => .active clean state header' (steady rfl notTwice)⟩
      · exact fun s' segs' tail' header' laid' _ _ => stops header' laid'
    · refine wp_load_steady header (Or.inl rfl) laid (fun other => absurd rfl other) ?_ ?_
      · exact fun pg' s' _ _ _ _ _ => ⟨by simp, fun isOnce => absurd isOnce once⟩
      · exact fun s' segs' tail' header' laid' _ _ => stops header' laid'

theorem mayStop_rests {seq : Word} {r : Record} (header : HeaderAt env s .active seq) :
    MayStop env (Rests env) s segs r where
  before s' tail sameHeader laid := Or.inr (Or.inr ⟨seq, segs, tail, header.congr sameHeader, laid⟩)
  complete s' sameHeader laid := Or.inr (Or.inr ⟨seq, _, .free, header.congr sameHeader, laid⟩)

section
variable {nsIndex : Byte} {datatype : ItemType} {key data : List Byte}

theorem ends_writeChecked {seq : Word} (clean : Clean env pg s segs) (active : pg.mState = .active)
    (header : HeaderAt env s .active seq) (steady : Steady pg) (named : nsIndex ≠ NS_ANY)
    (typed : Typed datatype data) : LeavesRight env (writeChecked env nsIndex datatype key data) pg s := by
  have stays : PageAt env pg s := .active clean active header steady
  refine wp_writeChecked clean active named typed (fun _ _ _ => mayStop_rests header) ?_ ?_ ?_ ?_
  · exact fun _ => ⟨by simp, stays⟩
  · exact fun _ _ => ⟨by simp, stays⟩
  · exact fun _ _ _ => ⟨by simp, stays⟩
  · intro _ _ _ pg' s' clean' same sameHeader
    exact ⟨by simp, ends_active clean' active header steady same sameHeader⟩

theorem ends_writeItem_closed {st : PageState} (rests : Rests env s) (state : st = .corrupt ∨ st = .invalid) :
    LeavesRight env (Page.writeItem env nsIndex datatype key data) { Page.fresh env with mState := st } s := by
  have stays (e : EspErr) : (Outcome.err e : Outcome EspErr Unit) ≠ .fault ∧
      PageAt env { Page.fresh env with mState := st } s := ⟨by simp, .closed rests state⟩
  rw [writeItem_eq]
  refine wp_bind (wp_get ?_)
  dsimp only
  rcases state with rfl | rfl
  · rw [if_neg (by decide), if_neg (by decide)]
    unfold writeChecked
    refine wp_bind (wp_get ?_)
    dsimp only
    rw [if_neg (by decide)]
    split
    · exact wp_bind (wp_throw _ (stays _))
    · split
      · exact wp_bind (wp_throw _ (stays _))
      · have none_ : (Page.fresh env).mNextFreeEntry = INVALID_ENTRY := rfl
        rw [if_pos (Or.inl none_)]
        exact wp_bind (wp_throw _ (stays _))
  · rw [if_pos rfl]
    exact wp_bind (wp_throw _ (stays _))

theorem ends_writeItem (at_ : PageAt env pg s) (named : nsIndex ≠ NS_ANY) (typed : Typed datatype data) :
    LeavesRight env (Page.writeItem env nsIndex datatype key data) pg s := by
  cases at_ with
  | empty blank_ =>
      refine wp_writeItem_blank blank_ ?_ ?_ ?_
      · intro pg' s' clean active _ header steady
        exact ends_writeChecked clean active header steady named typed
      · exact fun s' junk => Or.inr (Or.inl junk)
      · exact fun s' header laid => Or.inr (Or.inr ⟨_, _, _, header, laid⟩)
  | closed rests state => exact ends_writeItem_closed rests state
  | active clean active header steady =>
      exact wp_writeItem_active active (ends_writeChecked clean active header steady named typed)

end

theorem ends_eraseItem_unused {nsIndex : Byte} {datatype : ItemType} {key : Option (List Byte)} (unused : Unused pg)
    (at_ : PageAt env pg s) : LeavesRight env (Page.eraseItem env nsIndex datatype key) pg s := by
  unfold Page.eraseItem Page.findIndex
  refine wp_bind (wp_bind (wp_still (unused.findItem nsIndex datatype key 0 _ s) ?_))
  exact wp_throw _ ⟨by simp, at_⟩

theorem ends_eraseItem {nsIndex : Byte} {datatype : ItemType} {key : Option (List Byte)} (at_ : PageAt env pg s) :
    LeavesRight env (Page.eraseItem env nsIndex datatype key) pg s := by
  cases at_ with
  | empty blank_ => exact ends_eraseItem_unused blank_.unused (.empty blank_)
  | closed rests state => exact ends_eraseItem_unused (unused_closed env state) (.closed rests state)
  | active clean active header steady =>
      refine wp_eraseItem clean (Or.inl active) ?_ ?_ ?_
      · exact fun e _ => ⟨by simp, .active clean active header steady⟩
      · intro a r b _ _ pg' s' clean' same sameHeader
        exact ⟨by simp, ends_active clean' active header steady same sameHeader⟩
      · intro a r b _ _ s' segs' sameHeader laid _
        exact Or.inr (Or.inr ⟨_, segs', .free, header.congr sameHeader, laid⟩)

theorem copyItems_nothing {source : Page} {sourceS : Sector} (first : source.mFirstUsedEntry = INVALID_ENTRY)
    (at_ : PageAt env pg s) : LeavesRight env (Page.copyItems env source sourceS) pg s := by
  unfold Page.copyItems
  rw [if_pos first]
  exact wp_bind (wp_throw _ ⟨by simp, at_⟩)

theorem ends_copyItems {source : Page} {sourceS : Sector} (sourceAt : PageAt env source sourceS)
    (at_ : PageAt env pg s) (target : pg.mState = .uninitialized) :
    LeavesRight env (Page.copyItems env source sourceS) pg s := by
  cases sourceAt with
  | empty blank_ => exact copyItems_nothing blank_.first at_
  | closed _ state => exact copyItems_nothing (unused_closed env state).first at_
  | active clean _ _ _ =>
      cases at_ with
      | empty blank_ =>
          refine wp_copyItems clean blank_ ?_ ?_ ?_ ?_
          · exact fun _ => ⟨by simp, .empty blank_⟩
          · intro _ pg' s' clean' active _ header steady
            exact ⟨by simp, .active clean' active header steady⟩
          · exact fun s' junk => Or.inr (Or.inl junk)
          · exact fun s' k tail header laid => Or.inr (Or.inr ⟨_, _, tail, header, laid⟩)
      | closed _ state => rcases state with rfl | rfl <;> exact absurd target (by simp)
      | active _ active _ _ =>
          rw [active] at target
          exact absurd target (by decide)

section
variable {n : Nat} {run run' : PageRun n}

def PagesAt (env : Env) (run : PageRun n) : Prop := ∀ i, PageAt env (run.pages i) (run.flash i)

theorem ends_call (pagesAt : PagesAt env run) {made : PageCall n} (promised : made.Promised run) :
    wp (made.prog env run) (fun o pg s => o ≠ .fault ∧ (made.LoadsOnce env run → PageAt env pg s)) (Rests env)
      (made.before env run) (run.flash made.page) := by
  have always {p : Page.PageM Unit} {pg : Page} {s : Sector} (ends : LeavesRight env p pg s) :
      wp p (fun o pg s => o ≠ .fault ∧ (made.LoadsOnce env run → PageAt env pg s)) (Rests env) pg s :=
    wp_mono ends (fun o pg s right => ⟨right.1, fun _ => right.2⟩) fun _ rests => rests
  cases made with
  | load page => exact wp_load_counters (pagesAt page).rests
  | writeItem page nsIndex datatype key data =>
      exact always (ends_writeItem (pagesAt page) promised.1 promised.2)
  | eraseItem page nsIndex datatype key => exact always (ends_eraseItem (pagesAt page))
  | copyItems source other => exact always (ends_copyItems (pagesAt source) (pagesAt other) promised)

theorem pagesAt_restarted {flash : Fin n → Sector} (rests : ∀ i, Rests env (flash i)) :
    PagesAt env (.restarted env flash) := fun i => .fresh (rests i)

theorem rests_update (pagesAt : PagesAt env run) {page : Fin n} {s : Sector} (rests : Rests env s) (i : Fin n) :
    Rests env (Function.update run.flash page s i) := by
  by_cases here : i = page
  · subst here
    rw [Function.update_self]
    exact rests
  · rw [Function.update_of_ne here]
    exact (pagesAt i).rests

theorem pagesAt_event (event : PageEvent n) (pagesAt : PagesAt env run) (plain : event.Plain env run)
    (made : event.run env run = some run') : PagesAt env run' := by
  cases event with
  | call made_ =>
      obtain ⟨promised, once⟩ := plain
      obtain ⟨runs, right⟩ := (ends_call pagesAt promised).ends
      have finished : (made_.ran env run).outcome ≠ .fault := runs
      simp only [PageEvent.run, if_neg finished, Option.some.injEq] at made
      subst made
      intro i
      by_cases here : i = made_.page
      · subst here
        simp only [Function.update_self]
        exact right once
      · simp only [Function.update_of_ne here]
        exact pagesAt i
  | powerCut made_ count =>
      obtain ⟨s, reached, eq⟩ := Option.map_eq_some_iff.mp made
      subst eq
      refine pagesAt_restarted (rests_update pagesAt ?_)
      rcases List.mem_cons.mp (List.mem_of_getElem? reached) with rfl | step
      · exact (pagesAt made_.page).rests
      · exact (ends_call pagesAt plain).stops s step

theorem pagesAt_erased : PagesAt env (PageRun.restarted (n := n) env fun _ => erasedSector) :=
  pagesAt_restarted fun _ => Or.inl rfl

/-- In every run in which no page is loaded on which an item would be counted twice, the counters of every page are
those of its table. -/
theorem counters_agree {events : List (PageEvent n)}
    (plain : EachStep (PageEvent.run env) (PageEvent.Plain env) events (.restarted env fun _ => erasedSector))
    (reached : runSteps (PageEvent.run env) events (.restarted env fun _ => erasedSector) = some run) (i : Fin n) :
    CountersAgree env (run.pages i) (run.flash i) :=
  (runSteps_keeps (fun _ event _ pagesAt isPlain made => pagesAt_event event pagesAt isPlain made)
    pagesAt_erased plain reached i).countersAgree

end

theorem counters_agree_erased :
    ∃ run : PageRun 1, runSteps (PageEvent.run Env.firmware)
        [.powerCut (.load 0) 0, .call (.load 0), .call (.writeItem 0 1 ItemType.SZ [97] [98, 0]),
          .call (.eraseItem 0 1 ItemType.SZ (some [97]))] (.restarted Env.firmware fun _ => erasedSector) = some run ∧
      entriesIn .erased (run.pages 0) = [0, 1] ∧ CountersAgree Env.firmware (run.pages 0) (run.flash 0) := by
  refine ⟨_, rfl, by decide +kernel, ?_⟩
  refine counters_agree ?_ (Eq.refl (runSteps (PageEvent.run Env.firmware) [.powerCut (.load 0) 0, .call (.load 0),
    .call (.writeItem 0 1 ItemType.SZ [97] [98, 0]), .call (.eraseItem 0 1 ItemType.SZ (some [97]))] _)) 0
  refine ⟨trivial, fun _ restarted => ⟨⟨trivial, fun active _ => ?_⟩, fun _ _ =>
    ⟨⟨⟨by decide, Or.inl rfl⟩, trivial⟩, fun _ _ => ⟨⟨trivial, trivial⟩, fun _ _ => trivial⟩⟩⟩⟩
  cases restarted
  exact absurd active (by decide)

/-- The power goes out after the first word of an item's data: on loading the started entry is counted as erased, and
then again with the item. -/
theorem started_entry_counted_twice :
    ∃ run : PageRun 1, runSteps (PageEvent.run Env.firmware)
        [.call (.load 0), .powerCut (.writeItem 0 1 ItemType.SZ [97] [98, 0]) 18, .call (.load 0)]
        (.restarted Env.firmware fun _ => erasedSector) = some run ∧
      ¬ CountersAgree Env.firmware (run.pages 0) (run.flash 0) := by
  have differs : (runSteps (PageEvent.run (n := 1) Env.firmware)
      [.call (.load 0), .powerCut (.writeItem 0 1 ItemType.SZ [97] [98, 0]) 18, .call (.load 0)]
      (.restarted Env.firmware fun _ => erasedSector)).any (fun run =>
        decide ((run.pages 0).mErasedEntryCount ≠ (entriesIn .erased (run.pages 0)).length)) = true := by
    decide +kernel
  obtain ⟨run, reached, counts⟩ := (Option.any_eq_true _ _).mp differs
  exact ⟨run, reached, fun agree => of_decide_eq_true counts agree.erased⟩

end EspFirmware.Proof.Nvs
