import EspFirmware.Proof.Nvs.Find
import EspFirmware.Proof.Nvs.WriteItem

/-!
`eraseItem`, `readItem` and `copyItems` of a page that is in order.
-/

namespace EspFirmware.Proof.Nvs
open EspFirmware.Nvs EspFirmware.Spec EspFirmware.Lib Prog

variable {env : Env}

section
variable {pg : Page} {s : Sector} {segs : List Seg} {nsIndex : Byte} {datatype : ItemType} {key : Option (List Byte)}
  {cut : Sector → Prop}

theorem scanFrom_mem {x : Nat × Record} (found : scanFrom nsIndex datatype key 0 segs = .ok x) :
    x ∈ located 0 segs ∧ Page.matchItem nsIndex datatype key x.2.head = some (.ok ()) := by
  obtain ⟨member, matches_⟩ := firstMatch_mem found
  exact ⟨List.mem_of_mem_filter member, matches_⟩

theorem wp_findIndex {post : Outcome EspErr (Nat × Item) → Page → Sector → Prop} (clean : Clean env pg s segs)
    (searched : Searched pg.mState)
    (done : match scanFrom nsIndex datatype key 0 segs with
      | .ok x => post (.ok (x.1, x.2.head)) pg s
      | .error e => post (.err e) pg s) :
    wp (Page.findIndex env nsIndex datatype key) post cut pg s := by
  unfold Page.findIndex
  refine wp_bind (wp_findItem clean searched (boundary_zero segs) _ ?_)
  intro found finds _
  cases scanned : scanFrom nsIndex datatype key 0 segs with
  | ok x =>
      rw [scanned] at finds done
      have eq : found = ⟨.ok x.1, x.2.head⟩ := finds
      rw [eq]
      exact wp_pure _ done
  | error e =>
      rw [scanned] at finds done
      have eq : found.result = .error e := finds
      dsimp only
      rw [eq]
      exact wp_throw _ done

theorem wp_eraseItem {post : Outcome EspErr Unit → Page → Sector → Prop} (clean : Clean env pg s segs)
    (searched : Searched pg.mState)
    (missing : ∀ e, scanFrom nsIndex datatype key 0 segs = .error e → post (.err e) pg s)
    (done : ∀ a r b, segs = a ++ .item r :: b → scanFrom nsIndex datatype key 0 segs = .ok (size a, r) →
      ∀ pg' s', Clean env pg' s' (erased a r b) → SamePage pg pg' → SameHeader s s' → post (.ok ()) pg' s')
    (stop : ∀ a r b, segs = a ++ .item r :: b → scanFrom nsIndex datatype key 0 segs = .ok (size a, r) →
      ∀ s' segs', SameHeader s s' → Laid env s' segs' .free →
        segs' = erased a r b ∨ segs' = a ++ .torn r.head r.body.length :: b → cut s') :
    wp (Page.eraseItem env nsIndex datatype key) post cut pg s := by
  unfold Page.eraseItem
  refine wp_bind (wp_findIndex clean searched ?_)
  cases scanned : scanFrom nsIndex datatype key 0 segs with
  | error e => exact missing e scanned
  | ok x =>
      obtain ⟨a, b, split, place⟩ := located_split (scanFrom_mem scanned).1
      rw [Nat.zero_add] at place
      have eq : scanFrom nsIndex datatype key 0 segs = .ok (size a, x.2) := by rw [scanned, ← place]
      dsimp only
      rw [place]
      rw [split] at clean
      exact wp_eraseItemAt clean (done a x.2 b split eq) (stop a x.2 b split eq)

end

structure Valued (env : Env) (r : Record) (nsIndex : Byte) (datatype : ItemType) (key data : List Byte) : Prop where
  eq : r = recordFor env nsIndex datatype key data
  named : nsIndex ≠ NS_ANY
  typed : Typed datatype data
  shortKey : (cString key).length ≤ MAX_KEY_LENGTH
  small : data.length ≤ BLOB_MAX_SIZE

section
variable {r : Record} {nsIndex : Byte} {datatype : ItemType} {key data : List Byte}

theorem Valued.count (valued : Valued env r nsIndex datatype key data) :
    Page.entriesCount datatype data.length < 256 := by
  have : Page.entriesCount datatype data.length ≤ 63 := entriesCount_small valued.small
  omega

theorem Valued.fields (valued : Valued env r nsIndex datatype key data) : r.head.nsIndex = nsIndex ∧
    r.head.datatype = datatype ∧ r.head.span = r.body.length + 1 ∧ r.head.key = keyField (some key) := by
  rw [valued.eq]
  obtain ⟨ns, type, span, key_⟩ := itemFor_fields env nsIndex key valued.typed.small
    valued.count
  refine ⟨ns, type, ?_, key_⟩
  rw [recordFor]
  dsimp only
  rw [span, length_bodyFor]

theorem Valued.variable_ (valued : Valued env r nsIndex datatype key data) (isVariable : datatype.isVariable = true) :
    r.head.dataSize = data.length ∧ r.head.dataCrc32 = env.crc32 data ∧
      (r.body.flatMap Item.rawData).take data.length = data := by
  have most : BLOB_MAX_SIZE = 1984 := rfl
  have small := valued.small
  have item : r.head = env.sealItem ((Item.make nsIndex datatype
      (BitVec.ofNat 8 (Page.entriesCount datatype data.length)) (some key)).setVarLength data.length (env.crc32 data)) := by
    rw [valued.eq, recordFor, Page.itemFor, if_pos isVariable]
  refine ⟨?_, ?_, ?_⟩
  · have six : r.head 6 = (0xFFFF : BitVec 16) ++ BitVec.ofNat 16 data.length := by
      rw [item]
      rfl
    have low : ((0xFFFF : BitVec 16) ++ BitVec.ofNat 16 data.length).setWidth 16 = BitVec.ofNat 16 data.length := by
      apply BitVec.eq_of_getLsbD_eq
      intro i inside
      rw [BitVec.getLsbD_setWidth, BitVec.getLsbD_append]
      simp [inside]
    rw [Item.dataSize, six, low, BitVec.toNat_ofNat, Nat.mod_eq_of_lt (by omega)]
  · rw [item]
    rfl
  · rw [valued.eq]
    exact rawData_bodyFor isVariable

theorem Valued.fixed (valued : Valued env r nsIndex datatype key data) (notVariable : datatype.isVariable = false) :
    r.head.data.take data.length = data ∧ data.length = (datatype &&& 0x0F).toNat := by
  have small := valued.typed.small notVariable
  refine ⟨?_, ?_⟩
  · have item : r.head = env.sealItem ((Item.make nsIndex datatype
        (BitVec.ofNat 8 (Page.entriesCount datatype data.length)) (some key)).setData data) := by
      rw [valued.eq, recordFor, Page.itemFor, notVariable]
      rfl
    rw [item]
    exact data_setData _ small
  · rcases valued.typed with isVariable | ⟨-, length⟩
    · rw [notVariable] at isVariable
      exact absurd isVariable (by decide)
    · exact length

end

section
variable {pg : Page} {s : Sector} {segs : List Seg} {cut : Sector → Prop}

theorem wp_readEntries {post : Outcome EspErr (List Item) → Page → Sector → Prop} (count i : Nat)
    (inside : i + count ≤ ENTRY_COUNT) (done : post (.ok (entriesAt s i count)) pg s) :
    wp (Page.readEntries count i) post cut pg s := by
  induction count generalizing i post with
  | zero => exact wp_pure _ done
  | succ count ih =>
      unfold Page.readEntries
      refine wp_bind (wp_readEntry (by omega) (wp_bind (ih (i + 1) (by omega) (wp_pure _ ?_))))
      rw [entriesAt_succ] at done
      exact done

def readInto (datatype : ItemType) (value buffer : List Byte) : Except EspErr (List Byte) :=
  if datatype.isVariable then
    if buffer.length < value.length then .error .invalidLength else .ok (value ++ buffer.drop value.length)
  else if buffer.length ≠ value.length then .error .typeMismatch
  else .ok value

theorem wp_readItem {post : Outcome EspErr (List Byte) → Page → Sector → Prop} {nsIndex : Byte} {datatype : ItemType}
    {key buffer : List Byte} (clean : Clean env pg s segs) (searched : Searched pg.mState)
    (specific : datatype ≠ ItemType.ANY)
    (valued : ∀ x ∈ located 0 segs, ∃ ns ty k d, Valued env x.2 ns ty k d)
    (missing : ∀ e, scanFrom nsIndex datatype (some key) 0 segs = .error e → post (.err e) pg s)
    (done : ∀ x ns k value, scanFrom nsIndex datatype (some key) 0 segs = .ok x → Valued env x.2 ns datatype k value →
      match readInto datatype value buffer with
      | .ok result => post (.ok result) pg s
      | .error e => post (.err e) pg s) :
    wp (Page.readItem env nsIndex datatype key buffer) post cut pg s := by
  have limit : ENTRY_COUNT = 126 := rfl
  have fits := clean.fits
  unfold Page.readItem
  refine wp_bind (wp_get ?_)
  dsimp only
  rw [if_neg (by rcases searched with state | state | state <;> rw [state] <;> decide)]
  refine wp_bind (wp_findIndex clean searched ?_)
  cases scanned : scanFrom nsIndex datatype (some key) 0 segs with
  | error e => exact missing e scanned
  | ok x =>
      obtain ⟨member, matches_⟩ := scanFrom_mem scanned
      obtain ⟨ns, ty, k, value, isValue⟩ := valued x member
      have at_ := located_itemAt clean.holds member
      have bounds := located_bounds member
      have type : ty = datatype := by
        rw [← isValue.fields.2.1]
        unfold Page.matchItem at matches_
        split at matches_
        · exact absurd matches_ (by simp)
        · split at matches_
          · exact absurd matches_ (by simp)
          · split at matches_
            · exact absurd matches_ (by simp)
            · rename_i same
              by_contra other
              exact same ⟨specific, other⟩
      subst type
      have result := done x ns k value scanned isValue
      dsimp only
      unfold readInto at result
      by_cases isVariable : ty.isVariable = true
      · obtain ⟨size_, crc, content⟩ := isValue.variable_ isVariable
        rw [if_pos isVariable] at result ⊢
        rw [size_]
        by_cases short : buffer.length < value.length
        · rw [if_pos short] at result ⊢
          exact wp_throw _ result
        · rw [if_neg short] at result ⊢
          have body : entriesAt s (x.1 + 1) (x.2.head.span - 1) = x.2.body := by
            rw [isValue.fields.2.2.1, Nat.add_sub_cancel]
            exact at_.body
          refine wp_bind (wp_readEntries _ _ ?_ ?_)
          · rw [isValue.fields.2.2.1]
            omega
          · rw [body]
            dsimp only
            rw [content, List.take_append_of_le_length (Nat.le_refl _), List.take_length,
              if_neg (not_not_intro crc.symm)]
            exact wp_pure _ result
      · obtain ⟨content, length⟩ := isValue.fixed (Bool.eq_false_iff.mpr isVariable)
        have small := isValue.typed.small (Bool.eq_false_iff.mpr isVariable)
        rw [if_neg isVariable] at result ⊢
        rw [← length]
        by_cases other : buffer.length ≠ value.length
        · rw [if_pos other] at result ⊢
          exact wp_throw _ result
        · rw [if_neg other] at result ⊢
          have same := not_not.mp other
          rw [same, content, List.drop_of_length_le (by omega), List.append_nil]
          exact wp_pure _ result

end

theorem records_located (i : Nat) (segs : List Seg) : (located i segs).map Prod.snd = records segs := by
  have shift : ∀ i j, (located i segs).map Prod.snd = (located j segs).map Prod.snd := by
    induction segs with
    | nil => exact fun _ _ => rfl
    | cons seg segs ih =>
        intro i j
        cases seg with
        | gone => exact ih _ _
        | item r =>
            rw [located, located, List.map_cons, List.map_cons]
            exact congrArg (r :: ·) (ih _ _)
        | torn head len => exact ih _ _
  exact shift i 0

theorem records_cons_item (r : Record) (segs : List Seg) : records (.item r :: segs) = r :: records segs := by
  rw [records, located, List.map_cons, records_located]

theorem records_append (a b : List Seg) : records (a ++ b) = records a ++ records b := by
  rw [records, located_append, List.map_append, records_located, records_located]

theorem records_items (segs : List Seg) : records (items segs) = records segs := by
  induction segs with
  | nil => rfl
  | cons seg segs ih =>
      cases seg with
      | gone =>
          have skip : records (.gone :: segs) = records segs := records_located 1 segs
          rw [skip]
          exact ih
      | item r =>
          rw [records_cons_item, ← ih]
          exact records_cons_item r (items segs)
      | torn head len =>
          have skip : records (.torn head len :: segs) = records segs := records_located (0 + (len + 1)) segs
          rw [skip]
          exact ih

section
variable {post : Outcome EspErr Unit → Page → Sector → Prop} {cut : Sector → Prop} {source : Page} {sourceS : Sector}
  {segs : List Seg} {pg : Page} {s : Sector}

theorem wp_copySpan {pg₀ : Page} {s₀ : Sector} {copied : List Seg} {r : Record} (fits : Fits env copied r)
    (may : MayStop env cut s₀ copied r) {i : Nat} (at_ : ItemAt env sourceS i r)
    (inside : i + (r.body.length + 1) ≤ ENTRY_COUNT) (count k : Nat) (rest : k + count = r.body.length + 1)
    (writing : Writing env pg₀ pg s₀ s copied r k) (started : 0 < k)
    (done : ∀ pg' s', Writing env pg₀ pg' s₀ s' copied r (r.body.length + 1) → post (.ok ()) pg' s') :
    wp (Page.copySpan sourceS count (i + k)) post cut pg s := by
  induction count generalizing k pg s with
  | zero =>
      obtain rfl : k = r.body.length + 1 := by omega
      exact wp_pure _ (done pg s writing)
  | succ count ih =>
      unfold Page.copySpan
      have entry : (Record.entries r)[k]? = some (Page.entryAt sourceS (i + k)) := by
        obtain ⟨j, rfl⟩ : ∃ j, k = j + 1 := ⟨k - 1, by omega⟩
        have bound : j < (entriesAt sourceS (i + 1) r.body.length).length := by
          rw [entriesAt, List.length_map, List.length_range]
          omega
        rw [Record.entries, List.getElem?_cons_succ, ← at_.body, List.getElem?_eq_getElem bound]
        simp only [entriesAt, List.getElem_map, List.getElem_range]
        rw [Nat.add_assoc, Nat.add_comm 1 j]
      refine wp_bind (wp_assert (by omega) (wp_bind (wp_writeNext fits may writing (by omega) entry ?_)))
      intro pg' s' written
      exact ih (k + 1) (by omega) written (by omega)

theorem wp_copyLoop (clean : Clean env source sourceS segs) (fuel i : Nat) (before rest : List Seg)
    (split : segs = before ++ rest) (place : size before = i ∨ rest = [] ∧ size before ≤ i)
    (enough : 0 < fuel ∧ ENTRY_COUNT < fuel + i) {copied : List Seg} (target : Clean env pg s copied)
    (next : pg.mNextFreeEntry = size copied) (room : size copied + size rest ≤ ENTRY_COUNT)
    (done : ∀ pg' s', Clean env pg' s' (copied ++ items rest) → SamePage pg pg' → SameHeader s s' →
      post (.ok ()) pg' s')
    (stop : ∀ s' k tail, SameHeader s s' → Laid env s' (copied ++ (items rest).take k) tail → cut s') :
    wp (Page.copyLoop env source sourceS fuel i) post cut pg s := by
  have limit : ENTRY_COUNT = 126 := rfl
  have fits := clean.fits
  induction fuel generalizing i before rest copied pg s with
  | zero => omega
  | succ fuel ih =>
      unfold Page.copyLoop
      by_cases pastEnd : ENTRY_COUNT ≤ i
      · rw [if_pos pastEnd]
        have none_ : rest = [] := by
          rcases place with here | ⟨none_, -⟩
          · cases rest with
            | nil => rfl
            | cons seg rest =>
                have positive := size_pos seg
                rw [split, size_append, size_cons] at fits
                omega
          · exact none_
        subst none_
        refine wp_pure _ (done pg s ?_ (.refl _ pg) (.refl s))
        rw [items, List.filter_nil, List.append_nil]
        exact target
      · rw [if_neg pastEnd, clean.state]
        have unused (state : stateOf sourceS i ≠ .written) : i ≠ source.mFirstUsedEntry := by
          rw [clean.sync.first]
          intro same
          rcases firstUsed_cases sourceS with ⟨-, written, -⟩ | ⟨invalid, -⟩
          · exact state (same ▸ written)
          · rw [invalid, INVALID_ENTRY] at same
            omega
        cases rest with
        | nil =>
            have free := clean.free i (by
              rw [split, size_append, size_nil]
              rcases place with here | ⟨-, here⟩ <;> omega)
            have state : stateOf sourceS i ≠ .written := by rw [free.1]; decide
            rw [if_pos state]
            refine wp_bind (wp_assert (unused state) (ih (i + 1) before [] split (Or.inr ⟨rfl, ?_⟩) (by omega) target
              next room done stop))
            rcases place with here | ⟨-, here⟩ <;> omega
        | cons seg rest =>
            have here : size before = i := by
              rcases place with here | ⟨none_, -⟩
              · exact here
              · exact absurd none_ (List.cons_ne_nil _ _)
            have holds := clean.holds
            rw [split, holds_append, Nat.zero_add, here] at holds
            have at_ := holds.2.1
            cases seg with
            | gone =>
                have erased_ : stateOf sourceS i = .erased := at_
                have state : stateOf sourceS i ≠ .written := by rw [erased_]; decide
                rw [if_pos state]
                refine wp_bind (wp_assert (unused state) (ih (i + 1) (before ++ [.gone]) rest ?_ (Or.inl ?_) (by omega)
                  target next ?_ done stop))
                · rw [split, List.append_assoc]
                  rfl
                · rw [size_append, size_cons, size_nil, size_gone, here]
                · rw [size_cons, size_gone] at room
                  omega
            | torn head len =>
                have whole := clean.whole (.torn head len) (by rw [split]; simp)
                exact absurd whole Bool.false_ne_true
            | item r =>
                have at_ : ItemAt env sourceS i r := at_
                have written := at_.written 0 (Nat.zero_le _)
                rw [Nat.add_zero] at written
                have within : i + (r.body.length + 1) ≤ ENTRY_COUNT := by
                  rw [split, size_append, size_cons, size_item] at fits
                  omega
                rw [size_cons, size_item] at room
                have fits' : Fits env copied r := ⟨at_.sound, by omega⟩
                have may : MayStop env cut s copied r := by
                  refine ⟨fun s' tail header laid => stop s' 0 tail header ?_, fun s' header laid => stop s' 1 .free header ?_⟩
                  · rw [List.take_zero, List.append_nil]
                    exact laid
                  · exact laid
                rw [if_neg (not_not_intro written)]
                dsimp only
                rw [at_.head]
                refine wp_bind (wp_modify ?_)
                generalize inserted : Page.mk _ _ _ _ _ _ _ _ = pg₁
                have hashed : live pg₁.mHashList = (located 0 copied).map (nodeFor env) ++
                    [nodeFor env (size copied, r)] := by
                  rw [← inserted]
                  dsimp only
                  rw [next, live_insert _ _ (by omega), target.hash]
                  rfl
                have same : SamePage pg pg₁ := by
                  rw [← inserted]
                  exact ⟨rfl, rfl, fun _ steady => steady⟩
                have start : Writing env pg₁ pg₁ s s copied r 0 := by
                  refine ⟨part_zero target.holds target.free, ?_, ?_, rfl, .refl _ _, .refl s⟩
                  · rw [← inserted]
                    exact ⟨target.sync.table, target.sync.used, target.sync.first⟩
                  · rw [← inserted]
                    exact next
                refine wp_bind (wp_writeNext fits' may start (Nat.succ_pos _) rfl ?_)
                intro pg' s' first
                dsimp only
                rw [at_.sound.span, Nat.add_sub_cancel]
                refine wp_bind (wp_assert within (wp_bind ?_))
                refine wp_copySpan fits' may at_ within r.body.length 1 (Nat.add_comm _ _) first (by decide) ?_
                intro pg'' s'' all
                have complete := all.clean fits' target.whole hashed
                refine ih (i + (r.body.length + 1)) (before ++ [.item r]) rest ?_ (Or.inl ?_) (by omega) complete ?_ ?_ ?_ ?_
                · rw [split, List.append_assoc]
                  rfl
                · rw [size_append, size_cons, size_nil, size_item, here]
                · rw [all.next, size_append, size_cons, size_nil, size_item]
                · rw [size_append, size_cons, size_nil, size_item]
                  omega
                · intro pg₂ s₂ finished samePage header
                  refine done pg₂ s₂ ?_ ?_ (all.header.trans header)
                  · rw [List.append_assoc] at finished
                    exact finished
                  · exact (same.trans all.same).trans samePage
                · intro s₂ k tail header laid
                  refine stop s₂ (k + 1) tail (all.header.trans header) ?_
                  rw [List.append_assoc] at laid
                  exact laid

theorem wp_copyItems (clean : Clean env source sourceS segs) (blank_ : BlankPage pg)
    (nothing : records segs = [] → post (.err .notFound) pg erasedSector)
    (done : records segs ≠ [] → ∀ pg' s', Clean env pg' s' (items segs) → pg'.mState = .active →
      pg'.mSeqNumber = pg.mSeqNumber → HeaderAt env s' .active pg.mSeqNumber → Steady pg' → post (.ok ()) pg' s')
    (junk : ∀ s', Junk env s' → cut s')
    (stop : ∀ s' k tail, HeaderAt env s' .active pg.mSeqNumber → Laid env s' ((items segs).take k) tail → cut s') :
    wp (Page.copyItems env source sourceS) post cut pg erasedSector := by
  have limit : ENTRY_COUNT = 126 := rfl
  have fits := clean.fits
  unfold Page.copyItems
  rw [clean.sync.first]
  rcases clean.firstItem with ⟨invalid, none_⟩ | ⟨a, r, b, split, place⟩
  · rw [if_pos invalid]
    refine wp_bind (wp_throw _ (nothing ?_))
    rw [records, none_]
    rfl
  · have some_ : firstUsed sourceS ≠ INVALID_ENTRY := by
      rw [split, size_append, size_cons, size_item] at fits
      rw [← place, INVALID_ENTRY]
      omega
    have front : items segs = items (.item r :: b) := by
      have empty : items a = [] := by
        rw [items, List.filter_eq_nil_iff]
        intro seg member isItem
        cases seg with
        | gone => exact Bool.false_ne_true isItem
        | torn head len => exact Bool.false_ne_true isItem
        | item r' =>
            obtain ⟨a₁, a₂, rfl⟩ := List.append_of_mem member
            have inside : (size a₁, r') ∈ located 0 segs := by
              rw [split, located_append, located_item]
              simp
            have written := (located_itemAt clean.holds inside).written 0 (Nat.zero_le _)
            have bounds := located_bounds inside
            have le := firstUsed_le (by omega) written
            rw [← place, size_append, size_cons, size_item] at le
            omega
      rw [split, items, List.filter_append]
      change items a ++ _ = _
      rw [empty]
      rfl
    rw [if_neg some_]
    refine wp_bind (wp_get ?_)
    dsimp only
    rw [if_pos blank_.state]
    refine wp_bind (wp_initializePage blank_ ?_ junk fun s' header laid => stop s' 0 .free header laid)
    intro pg' s' target active seq header next steady
    refine wp_copyLoop clean _ _ a (.item r :: b) split (Or.inl place) (by omega) target next ?_ ?_ ?_
    · rw [size_nil]
      rw [split, size_append] at fits
      omega
    · intro pg₂ s₂ copied same sameHeader
      rw [List.nil_append, ← front] at copied
      refine done ?_ pg₂ s₂ copied (same.state.trans active) (same.seq.trans seq) (header.congr sameHeader)
        (same.steady not_false steady)
      rw [split, records_append, records_cons_item]
      simp
    · intro s₂ k tail sameHeader laid
      rw [List.nil_append, ← front] at laid
      exact stop s₂ k tail (header.congr sameHeader) laid

end

end EspFirmware.Proof.Nvs
