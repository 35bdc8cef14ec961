import EspFirmware.Proof.Nvs.Item
import EspFirmware.Proof.Nvs.Write

/-!
`initialize` and `writeItem` of a page.
-/

namespace EspFirmware.Proof.Nvs
open EspFirmware.Nvs EspFirmware.Spec EspFirmware.Lib Prog

variable {env : Env}

def Junk (env : Env) (s : Sector) : Prop :=
  s (.header 0) = PageState.active.toWord ∧ s (.header 7) ≠ Page.headerCrc32 env s

def headerWords (env : Env) (seq : Word) : List Word :=
  [PageState.active.toWord, seq, blank, blank, blank, blank, blank,
    env.crc32 (wordBytes seq ++ List.replicate 20 0xFF)]

def headerRun (words : List Word) : List (Loc × Word) := words.zipIdx.map fun e => (.header e.2, e.1)

theorem nodup_headerRun (words : List Word) : ((headerRun words).map Prod.fst).Nodup := by
  rw [headerRun, List.map_map]
  have indices : (words.zipIdx.map Prod.snd).Nodup := by
    rw [List.zipIdx_map_snd]
    exact List.nodup_range'
  have composed : (Prod.fst ∘ fun e : Word × Nat => (Loc.header e.2, e.1)) = Loc.header ∘ Prod.snd := rfl
  rw [composed, ← List.map_map]
  exact indices.map fun a b same => Loc.header.inj same

theorem mem_headerRun {words : List Word} {loc : Loc} (member : loc ∈ (headerRun words).map Prod.fst) :
    ∃ k, loc = .header k := by
  obtain ⟨x, inside, rfl⟩ := List.mem_map.mp member
  obtain ⟨e, -, rfl⟩ := List.mem_map.mp inside
  exact ⟨e.2, rfl⟩

theorem put_headerRun {words : List Word} {early late : List (Loc × Word)} (split : headerRun words = early ++ late)
    (s : Sector) (k : Nat) :
    put s early (.header k) = if k < early.length then words.getD k blank else s (.header k) := by
  have length : early.length ≤ words.length := by
    have := congrArg List.length split
    rw [headerRun, List.length_map, List.length_zipIdx, List.length_append] at this
    omega
  have distinct := nodup_headerRun words
  rw [split, List.map_append] at distinct
  have at_ (j : Nat) (inside : j < early.length) : early[j] = (.header j, words.getD j blank) := by
    have get := congrArg (fun l => l[j]?) split
    rw [List.getElem?_append_left inside, List.getElem?_eq_getElem inside] at get
    rw [headerRun, List.getElem?_map, List.getElem?_zipIdx, List.getElem?_eq_getElem (by omega)] at get
    rw [← Option.some.inj get, List.getD_eq_getElem?_getD, List.getElem?_eq_getElem (by omega)]
    simp
  split
  · rename_i inside
    apply put_mem distinct.of_append_left
    rw [← at_ k inside]
    exact List.getElem_mem inside
  · rename_i outside
    apply put_other
    intro member
    obtain ⟨x, inside, same⟩ := List.mem_map.mp member
    obtain ⟨j, bound, rfl⟩ := List.getElem_of_mem inside
    rw [at_ j bound] at same
    exact outside ((Loc.header.inj same) ▸ bound)

theorem put_headerRun_other {words : List Word} {early late : List (Loc × Word)}
    (split : headerRun words = early ++ late) (s : Sector) (loc : Loc) (other : ∀ k, loc ≠ .header k) :
    put s early loc = s loc := by
  apply put_other
  intro member
  have inside : loc ∈ (headerRun words).map Prod.fst := by
    rw [split, List.map_append]
    exact List.mem_append_left _ member
  obtain ⟨k, same⟩ := mem_headerRun inside
  exact other k same

theorem stateOf_erased (i : Nat) : stateOf erasedSector i = .empty := by
  have word : tableOf erasedSector = fun _ => blank := rfl
  have bits : (entryState (fun _ => blank) i).toBits = EntryState.empty.toBits := by
    rw [toBits_entryState]
    apply BitVec.eq_of_getLsbD_eq
    intro k _
    rw [getLsbD_get _ (by decide)]
    by_cases low : k < 2
    · have inside : i % (32 / 2) * 2 + k < 32 := by omega
      have all : ∀ j, j < 32 → blank.getLsbD j = true := by decide
      rw [all _ inside]
      match k, low with
      | 0, _ => decide
      | 1, _ => decide
    · have high : EntryState.empty.toBits.getLsbD k = false := by
        apply Nat.testBit_lt_two_pow
        have : 2 ^ 2 ≤ 2 ^ k := Nat.pow_le_pow_right (by decide) (by omega)
        have three : EntryState.empty.toBits.toNat = 3 := rfl
        omega
      rw [high]
      simp [low]
  have injective : ∀ a b : EntryState, a.toBits = b.toBits → a = b := by
    intro a b
    cases a <;> cases b <;> decide
  rw [stateOf, word]
  exact injective _ _ bits

theorem free_erasedSector (i : Nat) : Free erasedSector i := fun j _ => ⟨stateOf_erased j, fun _ => rfl⟩

theorem headerCrc32_eq (s : Sector) (seq : Word) (first : s (.header 1) = seq)
    (rest : ∀ k, 2 ≤ k → k < 7 → s (.header k) = blank) :
    Page.headerCrc32 env s = env.crc32 (wordBytes seq ++ List.replicate 20 0xFF) := by
  have words : ((List.range 6).flatMap fun k => wordBytes (s (.header (k + 1)))) =
      wordBytes (s (.header 1)) ++ (wordBytes (s (.header 2)) ++ (wordBytes (s (.header 3)) ++
        (wordBytes (s (.header 4)) ++ (wordBytes (s (.header 5)) ++ (wordBytes (s (.header 6)) ++ []))))) := rfl
  rw [Page.headerCrc32, words, first, rest 2 (by decide) (by decide), rest 3 (by decide) (by decide),
    rest 4 (by decide) (by decide), rest 5 (by decide) (by decide), rest 6 (by decide) (by decide)]
  rfl

theorem headerWords_blank {seq : Word} {early late : List (Loc × Word)}
    (split : headerRun (headerWords env seq) = early ++ late) {k : Nat} (low : 2 ≤ k) (high : k < 7) :
    put erasedSector early (.header k) = blank := by
  rw [put_headerRun split]
  split
  · match k, low, high with
    | 2, _, _ => rfl
    | 3, _, _ => rfl
    | 4, _, _ => rfl
    | 5, _, _ => rfl
    | 6, _, _ => rfl
  · rfl

theorem headerWords_table {seq : Word} {early late : List (Loc × Word)}
    (split : headerRun (headerWords env seq) = early ++ late) :
    tableOf (put erasedSector early) = fun _ => blank := by
  funext k
  exact put_headerRun_other split erasedSector (.table k) fun _ => by simp

theorem headerWords_free {seq : Word} {early late : List (Loc × Word)}
    (split : headerRun (headerWords env seq) = early ++ late) : Free (put erasedSector early) 0 := by
  refine free_congr (fun j _ => ?_) (fun j k _ => put_headerRun_other split _ _ (fun _ => by simp)) (free_erasedSector 0)
  rw [stateOf, headerWords_table split]
  rfl

section
variable {post : Outcome EspErr Unit → Page → Sector → Prop} {cut : Sector → Prop} {pg : Page}

structure BlankPage (pg : Page) : Prop where
  state : pg.mState = .uninitialized
  used : pg.mUsedEntryCount = 0
  erased : pg.mErasedEntryCount = 0
  first : pg.mFirstUsedEntry = INVALID_ENTRY
  hash : pg.mHashList = []

theorem stateCount_none {s : Sector} {state : EntryState} (free : Free s 0) (other : state ≠ .empty) :
    stateCount state s = 0 := by
  rw [stateCount, List.countP_eq_zero]
  intro i _
  rw [(free i (Nat.zero_le i)).1]
  simpa using other.symm

theorem wp_initializePage (blank_ : BlankPage pg)
    (done : ∀ pg' s', Clean env pg' s' [] → pg'.mState = .active → pg'.mSeqNumber = pg.mSeqNumber →
      HeaderAt env s' .active pg.mSeqNumber → pg'.mNextFreeEntry = 0 → Steady pg' → post (.ok ()) pg' s')
    (junk : ∀ s', Junk env s' → cut s')
    (stop : ∀ s', HeaderAt env s' .active pg.mSeqNumber → Laid env s' [] .free → cut s') :
    wp (Page.initializePage env) post cut pg erasedSector := by
  have words : (.header 0, PageState.active.toWord) :: (.header 1, pg.mSeqNumber) ::
      ((List.range 5).map fun k => (Loc.header (k + 2), blank)) ++
        [(.header 7, env.crc32 (wordBytes pg.mSeqNumber ++ List.replicate 20 0xFF))] =
      headerRun (headerWords env pg.mSeqNumber) := rfl
  have header {early late : List (Loc × Word)} (split : headerRun (headerWords env pg.mSeqNumber) = early ++ late)
      (more : 2 ≤ early.length)
      (crc : put erasedSector early (.header 7) = env.crc32 (wordBytes pg.mSeqNumber ++ List.replicate 20 0xFF)) :
      HeaderAt env (put erasedSector early) .active pg.mSeqNumber := by
    have at_ := put_headerRun split erasedSector
    have first : put erasedSector early (.header 1) = pg.mSeqNumber := by
      rw [at_, if_pos (by omega)]
      rfl
    refine ⟨?_, first, ?_⟩
    · rw [at_, if_pos (by omega)]
      rfl
    · rw [crc, headerCrc32_eq _ _ first fun k low high => headerWords_blank split low high]
  have all : headerRun (headerWords env pg.mSeqNumber) = headerRun (headerWords env pg.mSeqNumber) ++ [] :=
    (List.append_nil _).symm
  have complete : HeaderAt env (put erasedSector (headerRun (headerWords env pg.mSeqNumber))) .active pg.mSeqNumber := by
    have eight : (headerRun (headerWords env pg.mSeqNumber)).length = 8 := rfl
    apply header all (by omega)
    rw [put_headerRun all, if_pos (by omega)]
    rfl
  unfold Page.initializePage
  refine wp_bind (wp_get (wp_bind (wp_assert blank_.state (wp_bind (wp_modify ?_)))))
  dsimp only
  rw [words]
  refine wp_bind (wp_orInvalid (wp_spiFlashWrite (nodup_headerRun _) (fun loc _ => rfl) (.header _ fun _ => rfl) ?_ ?_))
  · refine wp_modify (done _ _ ⟨⟨?_, ?_, ?_⟩, trivial, nofun, Nat.zero_le _, headerWords_free all, ?_, Or.inl rfl⟩ rfl rfl
      complete rfl ?_)
    · exact (headerWords_table all).symm
    · exact blank_.used.trans (stateCount_none (headerWords_free all) (by decide)).symm
    · refine blank_.first.trans (firstUsed_none fun j _ => ?_).symm
      rw [(headerWords_free all j (Nat.zero_le j)).1]
      decide
    · change live pg.mHashList = _
      rw [blank_.hash]
      rfl
    · rw [steady_iff (headerWords_table all).symm, stateCount_none (headerWords_free all) (by decide)]
      exact blank_.erased
  · intro early late split nonempty
    have positive := List.length_pos_iff.mpr nonempty
    have at_ := put_headerRun split erasedSector
    by_cases valid : put erasedSector early (.header 7) = Page.headerCrc32 env (put erasedSector early)
    · have more : 2 ≤ early.length := by
        by_contra short
        have one : early.length = 1 := by omega
        have none_ (k : Nat) (ge : 1 ≤ k) : put erasedSector early (.header k) = blank := by
          rw [at_, if_neg (by omega)]
          rfl
        rw [none_ 7 (by decide), headerCrc32_eq _ _ (none_ 1 (by decide)) fun k ge _ => none_ k (by omega)] at valid
        exact env.blankHeader valid.symm
      have first : put erasedSector early (.header 1) = pg.mSeqNumber := by
        rw [at_, if_pos (by omega)]
        rfl
      refine stop _ (header split more ?_) ⟨trivial, Nat.zero_le _, headerWords_free split⟩
      rw [valid, headerCrc32_eq _ _ first fun k low high => headerWords_blank split low high]
    · refine junk _ ⟨?_, valid⟩
      rw [at_, if_pos positive]
      rfl

end

section
variable (env : Env) (nsIndex : Byte) (datatype : ItemType) (key data : List Byte)

def writeEntries : Page.PageM Unit := do
  let item := Page.itemFor env nsIndex datatype key data
  modify fun pg =>
    { pg with mHashList := pg.mHashList.insert (env.itemHash item) pg.mNextFreeEntry }
  if datatype.isVariable then do
    Page.writeEntry item
    let left := data.length / ENTRY_SIZE * ENTRY_SIZE
    if left > 0 then Page.writeEntryData (data.take left)
    if left < data.length then Page.writeEntry (Page.tailEntry item (data.drop left))
  else do
    assert (data.length ≤ 8)
    Page.writeEntry item

def writeChecked : Page.PageM Unit := do
  let pg ← get
  if pg.mState = .full then throw .pageFull
  if (cString key).length > MAX_KEY_LENGTH then throw .keyTooLong
  if data.length > BLOB_MAX_SIZE then throw .valueTooLong
  if pg.mNextFreeEntry = INVALID_ENTRY ∨
      pg.mNextFreeEntry + Page.entriesCount datatype data.length > ENTRY_COUNT then throw .pageFull
  writeEntries env nsIndex datatype key data

theorem writeItem_eq : Page.writeItem env nsIndex datatype key data = (do
    let pg ← get
    if pg.mState = .invalid then throw .invalidState
    if pg.mState = .uninitialized then Page.initializePage env
    writeChecked env nsIndex datatype key data) := rfl

end

section
variable {post : Outcome EspErr Unit → Page → Sector → Prop} {cut : Sector → Prop} {pg : Page} {s : Sector}
  {segs : List Seg} {nsIndex : Byte} {datatype : ItemType} {key data : List Byte}

theorem entriesCount_small (small : data.length ≤ BLOB_MAX_SIZE) : Page.entriesCount datatype data.length ≤ 63 := by
  have most : BLOB_MAX_SIZE = 1984 := rfl
  unfold Page.entriesCount
  rw [ENTRY_SIZE]
  split <;> omega

theorem wp_writeEntries (clean : Clean env pg s segs) (next : pg.mNextFreeEntry = size segs)
    (named : nsIndex ≠ NS_ANY) (typed : Typed datatype data) (small : data.length ≤ BLOB_MAX_SIZE)
    (room : size segs + Page.entriesCount datatype data.length ≤ ENTRY_COUNT)
    (may : MayStop env cut s segs (recordFor env nsIndex datatype key data))
    (done : ∀ pg' s', Clean env pg' s' (segs ++ [.item (recordFor env nsIndex datatype key data)]) → SamePage pg pg' →
      SameHeader s s' → post (.ok ()) pg' s') :
    wp (writeEntries env nsIndex datatype key data) post cut pg s := by
  have limit : ENTRY_COUNT = 126 := rfl
  have count : Page.entriesCount datatype data.length ≤ 63 := entriesCount_small small
  have length : (bodyFor env nsIndex datatype key data).length + 1 = Page.entriesCount datatype data.length :=
    length_bodyFor
  have body : (recordFor env nsIndex datatype key data).body = bodyFor env nsIndex datatype key data := rfl
  have fits : Fits env segs (recordFor env nsIndex datatype key data) := by
    refine ⟨sound_recordFor named typed.small (by omega), ?_⟩
    rw [body]
    omega
  have finish (pg₁ : Page) (hashed : live pg₁.mHashList = (located 0 segs).map (nodeFor env) ++
      [nodeFor env (size segs, recordFor env nsIndex datatype key data)]) (same : SamePage pg pg₁) {pg' : Page}
      {s' : Sector} {k : Nat}
      (writing : Writing env pg₁ pg' s s' segs (recordFor env nsIndex datatype key data) k)
      (all : k = Page.entriesCount datatype data.length) : post (.ok ()) pg' s' := by
    rw [← length] at all
    subst all
    exact done pg' s' (writing.clean fits clean.whole hashed)
      (same.trans writing.same) writing.header
  unfold writeEntries
  refine wp_bind (wp_modify ?_)
  dsimp only
  generalize inserted : Page.mk _ _ _ _ _ _ _ _ = pg₁
  have hashed : live pg₁.mHashList = (located 0 segs).map (nodeFor env) ++
      [nodeFor env (size segs, recordFor env nsIndex datatype key data)] := by
    rw [← inserted]
    dsimp only
    rw [next, live_insert _ _ (by omega), clean.hash]
    rfl
  have same : SamePage pg pg₁ := by
    rw [← inserted]
    exact ⟨rfl, rfl, fun _ steady => steady⟩
  have start : Writing env pg₁ pg₁ s s segs (recordFor env nsIndex datatype key data) 0 := by
    refine ⟨part_zero clean.holds clean.free, ?_, ?_, rfl, .refl _ _, .refl s⟩
    · rw [← inserted]
      exact ⟨clean.sync.table, clean.sync.used, clean.sync.first⟩
    · rw [← inserted]
      exact next
  by_cases variable_ : datatype.isVariable = true
  · have tail (pg' : Page) (s' : Sector)
        (writing : Writing env pg₁ pg' s s' segs (recordFor env nsIndex datatype key data)
          (1 + data.length / ENTRY_SIZE)) :
        wp (if data.length / ENTRY_SIZE * ENTRY_SIZE < data.length then
            Page.writeEntry (Page.tailEntry (Page.itemFor env nsIndex datatype key data)
              (data.drop (data.length / ENTRY_SIZE * ENTRY_SIZE)))
          else pure ()) post cut pg' s' := by
      by_cases more : filled data < data.length
      · have enough : Page.entriesCount datatype data.length = 1 + data.length / ENTRY_SIZE + 1 := by
          rw [Page.entriesCount, if_pos variable_]
          rw [filled, ENTRY_SIZE] at more
          rw [ENTRY_SIZE]
          omega
        have now : (Record.entries (recordFor env nsIndex datatype key data))[1 + data.length / ENTRY_SIZE]? =
            some (Page.tailEntry (Page.itemFor env nsIndex datatype key data) (data.drop (filled data))) := by
          rw [Nat.add_comm, Record.entries, List.getElem?_cons_succ, body, bodyFor, if_pos variable_, if_pos more,
            List.getElem?_append_right (by rw [length_dataEntries, length_filled, filled, ENTRY_SIZE]; omega)]
          rw [length_dataEntries, length_filled, filled, ENTRY_SIZE, Nat.mul_div_cancel _ (by decide), Nat.sub_self]
          rfl
        rw [if_pos (by exact more)]
        refine wp_writeNext fits may writing (by rw [body]; omega) now ?_
        intro pg'' s'' written
        exact finish pg₁ hashed same written (by omega)
      · rw [if_neg (by exact more)]
        refine wp_pure () (finish pg₁ hashed same writing ?_)
        rw [Page.entriesCount, if_pos variable_]
        rw [filled, ENTRY_SIZE] at more
        rw [ENTRY_SIZE]
        omega
    rw [if_pos variable_]
    refine wp_bind (wp_writeNext fits may start (Nat.succ_pos _) rfl ?_)
    intro pg' s' writing
    by_cases some_ : filled data > 0
    · rw [if_pos (by exact some_)]
      have pieces : (data.take (filled data)).length % ENTRY_SIZE = 0 := by
        rw [length_filled, filled, Nat.mul_mod_left]
      have entries : 0 + 1 + (Page.dataEntries (data.take (filled data))).length = 1 + data.length / ENTRY_SIZE := by
        rw [length_dataEntries, length_filled, filled, ENTRY_SIZE, Nat.mul_div_cancel _ (by decide)]
      have now : (Record.entries (recordFor env nsIndex datatype key data)).drop (0 + 1) =
          Page.dataEntries (data.take (filled data)) ++ (Record.entries (recordFor env nsIndex datatype key data)).drop
            (0 + 1 + (Page.dataEntries (data.take (filled data))).length) := by
        rw [Nat.zero_add, Nat.add_comm 1, Record.entries, List.drop_succ_cons, List.drop_zero, List.drop_succ_cons, body,
          bodyFor, if_pos variable_, List.drop_left]
      have positive : 0 < (data.take (filled data)).length := by
        rw [length_filled]
        exact some_
      refine wp_bind (wp_writeData fits may writing now pieces positive ?_)
      intro pg'' s'' written
      refine tail pg'' s'' ?_
      rw [← entries]
      exact written
    · rw [if_neg (by exact some_)]
      have none_ : data.length / ENTRY_SIZE = 0 := by
        rw [filled, ENTRY_SIZE] at some_
        rw [ENTRY_SIZE]
        omega
      refine tail pg' s' ?_
      rw [none_]
      exact writing
  · rw [if_neg variable_]
    refine wp_bind (wp_assert (typed.small (Bool.eq_false_iff.mpr variable_)) ?_)
    refine wp_writeNext fits may start (Nat.succ_pos _) rfl ?_
    intro pg' s' writing
    refine finish pg₁ hashed same writing ?_
    rw [Page.entriesCount, if_neg variable_]

theorem wp_writeChecked (clean : Clean env pg s segs) (active : pg.mState = .active) (named : nsIndex ≠ NS_ANY)
    (typed : Typed datatype data)
    (may : (cString key).length ≤ MAX_KEY_LENGTH → data.length ≤ BLOB_MAX_SIZE →
      size segs + Page.entriesCount datatype data.length ≤ ENTRY_COUNT →
      MayStop env cut s segs (recordFor env nsIndex datatype key data))
    (long : MAX_KEY_LENGTH < (cString key).length → post (.err .keyTooLong) pg s)
    (large : (cString key).length ≤ MAX_KEY_LENGTH → BLOB_MAX_SIZE < data.length → post (.err .valueTooLong) pg s)
    (full : (cString key).length ≤ MAX_KEY_LENGTH → data.length ≤ BLOB_MAX_SIZE →
      ENTRY_COUNT < size segs + Page.entriesCount datatype data.length → post (.err .pageFull) pg s)
    (done : (cString key).length ≤ MAX_KEY_LENGTH → data.length ≤ BLOB_MAX_SIZE →
      size segs + Page.entriesCount datatype data.length ≤ ENTRY_COUNT →
      ∀ pg' s', Clean env pg' s' (segs ++ [.item (recordFor env nsIndex datatype key data)]) → SamePage pg pg' →
        SameHeader s s' → post (.ok ()) pg' s') :
    wp (writeChecked env nsIndex datatype key data) post cut pg s := by
  have limit : ENTRY_COUNT = 126 := rfl
  have invalid : INVALID_ENTRY = 4294967295 := rfl
  have fits := clean.fits
  have positive : 0 < Page.entriesCount datatype data.length := by
    rw [Page.entriesCount, ENTRY_SIZE]
    split <;> omega
  unfold writeChecked
  refine wp_bind (wp_get ?_)
  dsimp only
  rw [if_neg (by rw [active]; decide)]
  by_cases tooLong : (cString key).length > MAX_KEY_LENGTH
  · rw [if_pos tooLong]
    exact wp_bind (wp_throw _ (long tooLong))
  · rw [if_neg tooLong]
    by_cases tooLarge : data.length > BLOB_MAX_SIZE
    · rw [if_pos tooLarge]
      exact wp_bind (wp_throw _ (large (by omega) tooLarge))
    · rw [if_neg tooLarge]
      by_cases room : size segs + Page.entriesCount datatype data.length ≤ ENTRY_COUNT
      · have next : pg.mNextFreeEntry = size segs := by
          rcases clean.next with next | ⟨-, all⟩
          · exact next
          · have := all active
            omega
        rw [if_neg (by omega)]
        exact wp_writeEntries clean next named typed (by omega) room
          (may (by omega) (by omega) room) (done (by omega) (by omega) room)
      · have noRoom : pg.mNextFreeEntry = INVALID_ENTRY ∨
            pg.mNextFreeEntry + Page.entriesCount datatype data.length > ENTRY_COUNT := by
          rcases clean.next with next | ⟨next, -⟩
          · right
            omega
          · exact Or.inl next
        rw [if_pos noRoom]
        exact wp_bind (wp_throw _ (full (by omega) (by omega) (by omega)))

theorem wp_writeItem_active (active : pg.mState = .active)
    (run : wp (writeChecked env nsIndex datatype key data) post cut pg s) :
    wp (Page.writeItem env nsIndex datatype key data) post cut pg s := by
  rw [writeItem_eq]
  refine wp_bind (wp_get ?_)
  dsimp only
  rw [if_neg (by rw [active]; decide), if_neg (by rw [active]; decide)]
  exact run

theorem wp_writeItem_full (isFull : pg.mState = .full) (done : post (.err .pageFull) pg s) :
    wp (Page.writeItem env nsIndex datatype key data) post cut pg s := by
  rw [writeItem_eq]
  refine wp_bind (wp_get ?_)
  dsimp only
  rw [if_neg (by rw [isFull]; decide), if_neg (by rw [isFull]; decide)]
  unfold writeChecked
  refine wp_bind (wp_get ?_)
  dsimp only
  rw [if_pos isFull]
  exact wp_bind (wp_throw _ done)

theorem wp_writeItem_blank (blank_ : BlankPage pg)
    (run : ∀ pg' s', Clean env pg' s' [] → pg'.mState = .active → pg'.mSeqNumber = pg.mSeqNumber →
      HeaderAt env s' .active pg.mSeqNumber → Steady pg' → wp (writeChecked env nsIndex datatype key data) post cut pg' s')
    (junk : ∀ s', Junk env s' → cut s')
    (stop : ∀ s', HeaderAt env s' .active pg.mSeqNumber → Laid env s' [] .free → cut s') :
    wp (Page.writeItem env nsIndex datatype key data) post cut pg erasedSector := by
  rw [writeItem_eq]
  refine wp_bind (wp_get ?_)
  dsimp only
  rw [if_neg (by rw [blank_.state]; decide), if_pos blank_.state]
  refine wp_bind (wp_initializePage blank_ ?_ junk stop)
  intro pg' s' clean active seq header _ steady
  exact run pg' s' clean active seq header steady

end

end EspFirmware.Proof.Nvs
