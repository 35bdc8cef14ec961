import EspFirmware.Proof.Nvs.Clean

/-!
Writing entries at the free end of a page, and the item they are part of.
-/

namespace EspFirmware.Proof.Nvs
open EspFirmware.Nvs EspFirmware.Spec EspFirmware.Lib Prog

variable {env : Env}

theorem entryRun_single (i : Nat) (item : Item) : entryRun i [item] = Page.entryWords i item := by
  simp [entryRun]

def wrote (s : Sector) (i : Nat) (items : List Item) : Sector :=
  setRange (put s (entryRun i items)) i items.length .written

section
variable {s : Sector} {i : Nat} {items : List Item}

theorem sameBut_wholeRun (s : Sector) (i : Nat) (items : List Item) :
    SameBut s (put s (entryRun i items)) i (i + items.length) :=
  sameBut_put (List.append_nil _).symm s

theorem wrote_header (s : Sector) (i : Nat) (items : List Item) : SameHeader s (wrote s i items) := by
  intro k
  rw [wrote, setRange_header, (sameBut_wholeRun s i items).header]

theorem stateOf_wrote (s : Sector) (i : Nat) (items : List Item) (j : Nat) :
    stateOf (wrote s i items) j = if i ≤ j ∧ j < i + items.length then .written else stateOf s j := by
  rw [wrote, stateOf_setRange, (sameBut_wholeRun s i items).state]

theorem wrote_word {j : Nat} (outside : j < i ∨ i + items.length ≤ j) (k : Nat) :
    wrote s i items (.entry j k) = s (.entry j k) := by
  rw [wrote, setRange_entry, (sameBut_wholeRun s i items).word outside]

theorem agree_wrote {lo hi : Nat} (outside : hi ≤ i) : Agree s (wrote s i items) lo hi := by
  intro j ge lt
  refine ⟨?_, funext fun k => wrote_word (by omega) _⟩
  rw [stateOf_wrote, if_neg (by omega)]

theorem free_wrote (free : Free s i) : Free (wrote s i items) (i + items.length) := by
  refine free_congr (fun j ge => ?_) (fun j k ge => wrote_word (by omega) k) (free_mono free (Nat.le_add_right _ _))
  rw [stateOf_wrote, if_neg (by omega)]

theorem entriesAt_wrote (s : Sector) (i : Nat) (items : List Item) :
    entriesAt (wrote s i items) i items.length = items := by
  refine Eq.trans (entriesAt_congr fun j _ _ => ?_) (entriesAt_put s i items)
  exact funext fun k => setRange_entry _ _ _ _ _ _

theorem usedCount_wrote (fits : i + items.length ≤ ENTRY_COUNT) (free : Free s i) :
    usedCount (wrote s i items) = usedCount s + items.length := by
  have same := (sameBut_wholeRun s i items).state
  change stateCount .written _ = stateCount .written s + _
  rw [wrote, stateCount_setRange fits]
  · rw [stateCount_congr (s := s) fun j => by rw [same j]]
  · intro j ge _ written
    rw [same j, (free j ge).1] at written
    exact absurd written (by decide)

theorem erasedCount_wrote (items : List Item) (free : Free s i) :
    stateCount .erased (wrote s i items) = stateCount .erased s := by
  apply stateCount_congr
  intro j
  rw [stateOf_wrote]
  split
  · rename_i inside
    rw [(free j inside.1).1]
    decide
  · exact Iff.rfl

theorem steady_wrote {pg pg' : Page} (items : List Item) (sync : Synced pg s) (free : Free s i)
    (table : pg'.mEntryTable = tableOf (wrote s i items)) (same : pg'.mErasedEntryCount = pg.mErasedEntryCount)
    (steady : Steady pg) : Steady pg' := by
  rw [steady_iff table, same, erasedCount_wrote items free]
  exact (steady_iff sync.table).mp steady

theorem firstUsed_wrote (fits : i + items.length ≤ ENTRY_COUNT) (nonempty : items ≠ []) (free : Free s i) :
    firstUsed (wrote s i items) = if firstUsed s = INVALID_ENTRY then i else firstUsed s := by
  have positive := List.length_pos_iff.mpr nonempty
  have limit : ENTRY_COUNT = 126 := rfl
  rcases firstUsed_cases s with ⟨inside, written, before⟩ | ⟨none_, unused⟩
  · have below := written_inside free written
    rw [if_neg (by rw [INVALID_ENTRY]; omega)]
    refine firstUsed_eq inside ?_ fun j less => ?_
    · rw [stateOf_wrote, if_neg (by omega)]
      exact written
    · rw [stateOf_wrote, if_neg (by omega)]
      exact before j less
  · rw [if_pos none_]
    refine firstUsed_eq (by omega) ?_ fun j less => ?_
    · rw [stateOf_wrote, if_pos (by omega)]
    · rw [stateOf_wrote, if_neg (by omega)]
      exact unused j (by omega)

end

structure AfterWrite (pg pg' : Page) (s' : Sector) (next : Nat) : Prop where
  sync : Synced pg' s'
  hash : pg'.mHashList = pg.mHashList
  next : pg'.mNextFreeEntry = next
  same : SamePage pg pg'

section
variable {post : Outcome EspErr Unit → Page → Sector → Prop} {cut : Sector → Prop} {pg : Page} {s : Sector} {i : Nat}

theorem run_unwritten {items : List Item} (free : Free s i) {loc : Loc}
    (member : loc ∈ (entryRun i items).map Prod.fst) : s loc = blank := by
  obtain ⟨j, k, ge, -, rfl⟩ := mem_entryRun member
  exact (free j ge).2 k

theorem wp_writeRun {items : List Item} (fits : i + items.length ≤ ENTRY_COUNT) (free : Free s i)
    (done : post (.ok ()) pg (put s (entryRun i items)))
    (stop : ∀ early late, entryRun i items = early ++ late → early ≠ [] → cut (put s early)) :
    wp (Page.orInvalid (Page.spiFlashWrite (entryRun i items))) post cut pg s := by
  refine wp_orInvalid (wp_spiFlashWrite (nodup_entryRun i items) (fun loc member => run_unwritten free member)
    (.entries i items fits fun j k ge _ => (free j ge).2 k) done stop)

theorem wp_writeEntry {item : Item} (sync : Synced pg s) (next : pg.mNextFreeEntry = i) (inside : i < ENTRY_COUNT)
    (free : Free s i)
    (done : ∀ pg', AfterWrite pg pg' (wrote s i [item]) (i + 1) → post (.ok ()) pg' (wrote s i [item]))
    (stop : ∀ early late, entryRun i [item] = early ++ late → early ≠ [] → cut (put s early))
    (last_ : cut (wrote s i [item])) : wp (Page.writeEntry item) post cut pg s := by
  have one : i + [item].length ≤ ENTRY_COUNT := inside
  have table : pg.mEntryTable = tableOf (put s (entryRun i [item])) := by
    rw [sync.table, (sameBut_wholeRun s i [item]).table]
  have state : stateOf (put s (entryRun i [item])) i = .empty := by
    rw [(sameBut_wholeRun s i [item]).state, (free i (Nat.le_refl i)).1]
  unfold Page.writeEntry
  refine wp_bind (wp_get ?_)
  dsimp only
  rw [next, ← entryRun_single]
  refine wp_bind (wp_assert inside (wp_bind (wp_writeRun one free ?_ stop)))
  refine wp_bind (wp_alterEntryState inside table (by rw [state]; exact clears_empty _) ?_ last_)
  refine wp_modify (done _ ?_)
  have used := usedCount_wrote one free
  have first := firstUsed_wrote one (List.cons_ne_nil _ _) free
  have bound := usedCount_le (wrote s i [item])
  refine ⟨⟨rfl, ?_, ?_⟩, rfl, rfl, ⟨rfl, rfl, fun _ => steady_wrote [item] sync free rfl rfl⟩⟩
  · dsimp only
    rw [sync.used, used, inc16_small]
    · rfl
    · rw [used] at bound
      exact bound
  · dsimp only
    rw [first, sync.first]

theorem wp_writeEntryData {data : List Byte} (sync : Synced pg s) (next : pg.mNextFreeEntry = i)
    (wholePieces : data.length % ENTRY_SIZE = 0) (some_ : data ≠ []) (used_ : firstUsed s ≠ INVALID_ENTRY)
    (fits : i + (Page.dataEntries data).length ≤ ENTRY_COUNT) (free : Free s i)
    (done : ∀ pg', AfterWrite pg pg' (wrote s i (Page.dataEntries data)) (i + (Page.dataEntries data).length) →
      post (.ok ()) pg' (wrote s i (Page.dataEntries data)))
    (stop : ∀ early late, entryRun i (Page.dataEntries data) = early ++ late → early ≠ [] → cut (put s early))
    (last_ : ∀ m, i ≤ m → m < i + (Page.dataEntries data).length →
      cut (setRange (put s (entryRun i (Page.dataEntries data))) m (i + (Page.dataEntries data).length - m) .written)) :
    wp (Page.writeEntryData data) post cut pg s := by
  have limit : ENTRY_COUNT = 126 := rfl
  have positive : 0 < (Page.dataEntries data).length := by
    rw [Page.dataEntries, List.length_map, List.length_range]
    have := List.length_pos_iff.mpr some_
    rw [ENTRY_SIZE] at wholePieces ⊢
    omega
  have nonempty : Page.dataEntries data ≠ [] := List.length_pos_iff.mp positive
  have table : pg.mEntryTable = tableOf (put s (entryRun i (Page.dataEntries data))) := by
    rw [sync.table, (sameBut_wholeRun s i _).table]
  unfold Page.writeEntryData
  refine wp_bind (wp_get ?_)
  dsimp only
  rw [next]
  refine wp_bind (wp_assert wholePieces (wp_bind (wp_assert ?_ (wp_bind (wp_assert ?_ (wp_bind (wp_assert ?_ ?_)))))))
  · rw [INVALID_ENTRY]
    omega
  · rw [sync.first]
    exact used_
  · omega
  · refine wp_bind (wp_writeRun fits free (wp_bind ?_) stop)
    refine wp_alterEntryRangeState (by omega) fits table ?_ ?_ last_
    · intro j ge lt
      rw [(sameBut_wholeRun s i _).state, (free j ge).1]
      exact clears_empty _
    · rw [Nat.add_sub_cancel_left]
      refine wp_modify (done _ ?_)
      have used := usedCount_wrote fits free
      have first := firstUsed_wrote fits nonempty free
      have bound := usedCount_le (wrote s i (Page.dataEntries data))
      refine ⟨⟨rfl, ?_, ?_⟩, rfl, rfl, ⟨rfl, rfl, fun _ => steady_wrote (Page.dataEntries data) sync free rfl rfl⟩⟩
      · dsimp only
        rw [sync.used, used, Nat.mod_eq_of_lt]
        omega
      · dsimp only
        rw [first, sync.first, if_neg used_]

end

end EspFirmware.Proof.Nvs

/-!
An item on its way to the end of a log, entry by entry.
-/

namespace EspFirmware.Proof.Nvs
open EspFirmware.Nvs EspFirmware.Spec EspFirmware.Lib Prog

variable {env : Env}

def Record.entries (r : Record) : List Item := r.head :: r.body

@[simp] theorem length_entries (r : Record) : (Record.entries r).length = r.body.length + 1 := rfl

structure Fits (env : Env) (segs : List Seg) (r : Record) : Prop where
  sound : Sound env r.head r.body.length
  room : size segs + (r.body.length + 1) ≤ ENTRY_COUNT

structure Part (env : Env) (s : Sector) (segs : List Seg) (r : Record) (k : Nat) : Prop where
  holds : Holds env s 0 segs
  entries : entriesAt s (size segs) k = (Record.entries r).take k
  written : ∀ j, j < k → stateOf s (size segs + j) = .written
  free : Free s (size segs + k)

theorem entriesAt_succ (s : Sector) (i count : Nat) :
    entriesAt s i (count + 1) = Page.entryAt s i :: entriesAt s (i + 1) count := by
  rw [entriesAt, entriesAt, List.range_succ_eq_map, List.map_cons, List.map_map, Nat.add_zero]
  congr 1
  apply List.map_congr_left
  intro k _
  rw [Function.comp_apply, Nat.succ_eq_add_one, Nat.add_right_comm, Nat.add_assoc]

theorem entriesAt_append (s : Sector) (i a b : Nat) :
    entriesAt s i (a + b) = entriesAt s i a ++ entriesAt s (i + a) b := by
  rw [entriesAt, List.range_add, List.map_append, List.map_map, entriesAt, entriesAt]
  congr 1
  apply List.map_congr_left
  intro k _
  rw [Function.comp_apply, Nat.add_assoc]

section
variable {s : Sector} {segs : List Seg} {r : Record}

theorem Part.head {k : Nat} (part : Part env s segs r (k + 1)) : Page.entryAt s (size segs) = r.head := by
  have entries := part.entries
  rw [entriesAt_succ, Record.entries, List.take_succ_cons] at entries
  exact (List.cons.inj entries).1

theorem Part.holds_all (part : Part env s segs r (r.body.length + 1)) (fits : Fits env segs r) :
    Holds env s 0 (segs ++ [.item r]) := by
  rw [holds_append, Nat.zero_add]
  refine ⟨part.holds, ⟨fits.sound, part.head, ?_, fun k inside => part.written k (by omega)⟩, trivial⟩
  have entries := part.entries
  rw [entriesAt_succ, Record.entries, List.take_succ_cons, List.take_length] at entries
  exact (List.cons.inj entries).2

theorem Part.laid (part : Part env s segs r (r.body.length + 1)) (fits : Fits env segs r) :
    Laid env s (segs ++ [.item r]) .free := by
  refine ⟨part.holds_all fits, ?_, ?_⟩
  · rw [size_append, size_cons, size_item, size_nil]
    exact fits.room
  · change Free s (size _)
    rw [size_append, size_cons, size_item, size_nil]
    exact part.free

theorem Part.cut {k : Nat} (part : Part env s segs r (k + 1)) (fits : Fits env segs r) {s' : Sector}
    (early : Agree s s' 0 (size segs + (k + 1)))
    (late : ∀ j, size segs + (r.body.length + 1) ≤ j → stateOf s' j = stateOf s j ∧ ∀ k, s' (.entry j k) = s (.entry j k))
    (before : k < r.body.length + 1)
    (missing : ∃ j, j ≤ r.body.length ∧ stateOf s' (size segs + j) ≠ .written) :
    Laid env s' segs (.cut r.head r.body.length) := by
  have room := fits.room
  refine ⟨holds_congr (fun j low high => early j low (by omega)) part.holds, by omega, by omega,
    ⟨fits.sound, ?_, ?_, missing⟩, ?_⟩
  · rw [(early (size segs) (Nat.zero_le _) (by omega)).2, part.head]
  · rw [(early (size segs) (Nat.zero_le _) (by omega)).1]
    exact part.written 0 (Nat.succ_pos k)
  · refine free_congr (fun j ge => (late j ge).1) (fun j k ge => (late j ge).2 k) (free_mono part.free ?_)
    omega

theorem part_zero (holds : Holds env s 0 segs) (free : Free s (size segs)) : Part env s segs r 0 :=
  ⟨holds, rfl, fun _ less => absurd less (Nat.not_lt_zero _), free⟩

theorem Part.wrote {k : Nat} {items : List Item} (part : Part env s segs r k)
    (next : (Record.entries r).drop k = items ++ (Record.entries r).drop (k + items.length)) :
    Part env (wrote s (size segs + k) items) segs r (k + items.length) := by
  refine ⟨holds_congr (agree_wrote (by omega)) part.holds, ?_, ?_, ?_⟩
  · have early : entriesAt (Nvs.wrote s (size segs + k) items) (size segs) k = entriesAt s (size segs) k :=
      entriesAt_congr fun j _ lt => funext fun c => wrote_word (by omega) _
    rw [entriesAt_append, early, part.entries, entriesAt_wrote, List.take_add, next]
    congr 1
    rw [List.take_append_of_le_length (Nat.le_refl _), List.take_length]
  · intro j less
    rw [stateOf_wrote]
    split
    · rfl
    · exact part.written j (by omega)
  · rw [← Nat.add_assoc]
    exact free_wrote part.free

theorem head_ne_blank {head : Item} {len : Nat} (sound : Sound env head len) (small : len < ENTRY_COUNT) :
    head 0 ≠ blank := by
  have limit : ENTRY_COUNT = 126 := rfl
  intro same
  have span := sound.span
  rw [Item.span, same] at span
  have all : (byteOf blank 2).toNat = 255 := by decide
  omega

theorem Part.half (part : Part env s segs r 0) (fits : Fits env segs r) {early late : List (Loc × Word)}
    (split : entryRun (size segs + 0) [r.head] = early ++ late) (nonempty : early ≠ []) :
    Laid env (put s early) segs .half := by
  have room := fits.room
  have same := sameBut_put split s
  have first : put s early (.entry (size segs) 0) = r.head 0 := by
    rw [entryRun_single] at split
    apply put_mem
    · have distinct := nodup_entryWords (size segs + 0) r.head
      rw [split, List.map_append] at distinct
      exact distinct.of_append_left
    · cases early with
      | nil => exact absurd rfl nonempty
      | cons x rest =>
          have begin_ : Page.entryWords (size segs + 0) r.head =
              (.entry (size segs) 0, r.head 0) :: (Page.entryWords (size segs + 0) r.head).tail := rfl
          rw [begin_, List.cons_append] at split
          rw [(List.cons.inj split).1]
          exact List.mem_cons_self
  have states := part.free
  refine ⟨holds_congr (fun j _ high => ⟨same.state j, same.entry (by omega)⟩) part.holds, by omega, by omega,
    ?_, ?_, ?_⟩
  · rw [same.state]
    exact (states _ (Nat.le_refl _)).1
  · rw [first]
    exact head_ne_blank fits.sound (by omega)
  · refine free_congr (fun j _ => same.state j) (fun j k ge => same.word (Or.inr ?_) k)
      (free_mono part.free (by omega))
    exact ge

end

structure Writing (env : Env) (pg₀ pg : Page) (s₀ s : Sector) (segs : List Seg) (r : Record) (k : Nat) : Prop where
  part : Part env s segs r k
  sync : Synced pg s
  next : pg.mNextFreeEntry = size segs + k
  hash : pg.mHashList = pg₀.mHashList
  same : SamePage pg₀ pg
  header : SameHeader s₀ s

/-- Where the power may go out while the item is written: before it or with it complete. -/
structure MayStop (env : Env) (cut : Sector → Prop) (s₀ : Sector) (segs : List Seg) (r : Record) : Prop where
  before : ∀ s tail, SameHeader s₀ s → Laid env s segs tail → cut s
  complete : ∀ s, SameHeader s₀ s → Laid env s (segs ++ [.item r]) .free → cut s

section
variable {post : Outcome EspErr Unit → Page → Sector → Prop} {cut : Sector → Prop} {pg₀ pg : Page} {s₀ s : Sector}
  {segs : List Seg} {r : Record} {k : Nat}

theorem Writing.wrote {pg' : Page} {items : List Item} (writing : Writing env pg₀ pg s₀ s segs r k)
    (next : (Record.entries r).drop k = items ++ (Record.entries r).drop (k + items.length))
    (after : AfterWrite pg pg' (Nvs.wrote s (size segs + k) items) (size segs + k + items.length)) :
    Writing env pg₀ pg' s₀ (Nvs.wrote s (size segs + k) items) segs r (k + items.length) where
  part := writing.part.wrote next
  sync := after.sync
  next := by rw [after.next, Nat.add_assoc]
  hash := after.hash.trans writing.hash
  same := writing.same.trans after.same
  header := writing.header.trans (wrote_header _ _ _)

theorem MayStop.part (may : MayStop env cut s₀ segs r) (fits : Fits env segs r)
    (part : Part env s segs r (k + 1)) (header : SameHeader s₀ s) (inside : k < r.body.length + 1) : cut s := by
  by_cases complete : k = r.body.length
  · subst complete
    exact may.complete s header (part.laid fits)
  · refine may.before s (.cut r.head r.body.length) header (part.cut fits (fun _ _ _ => ⟨rfl, rfl⟩)
      (fun _ _ => ⟨rfl, fun _ => rfl⟩) inside ⟨k + 1, by omega, ?_⟩)
    rw [(part.free _ (Nat.le_refl _)).1]
    decide

theorem MayStop.words (may : MayStop env cut s₀ segs r) (fits : Fits env segs r)
    (part : Part env s segs r (k + 1)) (header : SameHeader s₀ s) (inside : k < r.body.length) {s' : Sector} {hi : Nat}
    (same : SameBut s s' (size segs + (k + 1)) hi) (bound : hi ≤ size segs + (r.body.length + 1)) : cut s' := by
  refine may.before s' (.cut r.head r.body.length) (header.trans same.header) (part.cut fits ?_ ?_ (by omega) ?_)
  · intro j _ high
    exact ⟨same.state j, same.entry (Or.inl high)⟩
  · intro j ge
    exact ⟨same.state j, fun c => same.word (Or.inr (by omega)) c⟩
  · refine ⟨k + 1, by omega, ?_⟩
    rw [same.state, (part.free _ (Nat.le_refl _)).1]
    decide

theorem wp_writeNext {item : Item} (fits : Fits env segs r) (may : MayStop env cut s₀ segs r)
    (writing : Writing env pg₀ pg s₀ s segs r k) (inside : k < r.body.length + 1)
    (now : (Record.entries r)[k]? = some item)
    (done : ∀ pg' s', Writing env pg₀ pg' s₀ s' segs r (k + 1) → post (.ok ()) pg' s') :
    wp (Page.writeEntry item) post cut pg s := by
  have room := fits.room
  have next : (Record.entries r).drop k = [item] ++ (Record.entries r).drop (k + [item].length) := by
    obtain ⟨bound, eq⟩ := List.getElem?_eq_some_iff.mp now
    rw [List.drop_eq_getElem_cons bound, eq]
    rfl
  have part := writing.part.wrote next
  refine wp_writeEntry writing.sync writing.next (by omega) writing.part.free ?_ ?_ ?_
  · intro pg' after
    exact done pg' _ (writing.wrote next after)
  · intro early late split nonempty
    cases k with
    | zero =>
        have head : item = r.head := by
          rw [Record.entries] at now
          exact (Option.some.inj now).symm
        rw [head] at split
        have header := writing.header.trans (sameBut_put split s).header
        exact may.before _ .half header (writing.part.half fits split nonempty)
    | succ k =>
        have same := sameBut_put split s
        refine may.words fits writing.part writing.header (by omega) same ?_
        rw [List.length_singleton]
        omega
  · exact may.part fits part (writing.header.trans (wrote_header _ _ _)) inside

theorem wp_writeData {data : List Byte} (fits : Fits env segs r) (may : MayStop env cut s₀ segs r)
    (writing : Writing env pg₀ pg s₀ s segs r (k + 1))
    (now : (Record.entries r).drop (k + 1) =
      Page.dataEntries data ++ (Record.entries r).drop (k + 1 + (Page.dataEntries data).length))
    (wholePieces : data.length % ENTRY_SIZE = 0) (some_ : 0 < data.length)
    (done : ∀ pg' s', Writing env pg₀ pg' s₀ s' segs r (k + 1 + (Page.dataEntries data).length) → post (.ok ()) pg' s') :
    wp (Page.writeEntryData data) post cut pg s := by
  have room := fits.room
  have limit : ENTRY_COUNT = 126 := rfl
  have count : k + (Page.dataEntries data).length ≤ r.body.length ∧ 0 < (Page.dataEntries data).length := by
    have lengths := congrArg List.length now
    simp only [List.length_drop, length_entries, List.length_append] at lengths
    have positive : 0 < (Page.dataEntries data).length := by
      rw [Page.dataEntries, List.length_map, List.length_range, ENTRY_SIZE]
      rw [ENTRY_SIZE] at wholePieces
      omega
    omega
  have first := writing.part.written 0 (Nat.succ_pos k)
  have used : firstUsed s ≠ INVALID_ENTRY := by
    have le := firstUsed_le (i := size segs) (by omega) first
    rw [INVALID_ENTRY]
    omega
  have part := writing.part.wrote now
  have same := sameBut_wholeRun s (size segs + (k + 1)) (Page.dataEntries data)
  refine wp_writeEntryData writing.sync writing.next wholePieces (List.length_pos_iff.mp some_) used (by omega)
    writing.part.free ?_ ?_ ?_
  · intro pg' after
    exact done pg' _ (writing.wrote now after)
  · intro early late split nonempty
    exact may.words fits writing.part writing.header (by omega) (sameBut_put split s) (by omega)
  · intro m low high
    by_cases all : m = size segs + (k + 1)
    · subst all
      rw [Nat.add_sub_cancel_left]
      rw [Nat.add_right_comm] at part
      exact may.part fits part (writing.header.trans (wrote_header _ _ _)) (by omega)
    · refine may.before _ (.cut r.head r.body.length) (writing.header.trans ?_)
        (writing.part.cut fits ?_ ?_ (by omega) ⟨k + 1, by omega, ?_⟩)
      · intro c
        rw [setRange_header, same.header]
      · intro j _ below
        refine ⟨?_, funext fun c => ?_⟩
        · rw [stateOf_setRange, if_neg (by omega), same.state]
        · exact (setRange_entry _ _ _ _ _ _).trans (same.word (Or.inl below) _)
      · intro j beyond
        refine ⟨?_, fun c => ?_⟩
        · rw [stateOf_setRange, if_neg (by omega), same.state]
        · exact (setRange_entry _ _ _ _ _ _).trans (same.word (Or.inr (by omega)) _)
      · rw [stateOf_setRange, if_neg (by omega), same.state, (writing.part.free _ (Nat.le_refl _)).1]
        decide

theorem Writing.clean (writing : Writing env pg₀ pg s₀ s segs r (r.body.length + 1)) (fits : Fits env segs r)
    (whole : Whole segs)
    (hash : live pg₀.mHashList = (located 0 segs).map (nodeFor env) ++ [nodeFor env (size segs, r)]) :
    Clean env pg s (segs ++ [.item r]) := by
  have laid := writing.part.laid fits
  refine ⟨writing.sync, laid.holds, ?_, laid.fits, laid.tail, ?_, Or.inl ?_⟩
  · rw [Whole.append]
    refine ⟨whole, fun seg member => ?_⟩
    rw [List.mem_singleton.mp member]
    rfl
  · rw [writing.hash, hash, located_append, List.map_append, Nat.zero_add]
    rfl
  · rw [writing.next, size_append, size_cons, size_item, size_nil]

end

end EspFirmware.Proof.Nvs
