import EspFirmware.Proof.Nvs.Load
import EspFirmware.Spec.Pages

/-!
The operations of a page by what they do to its log, and what they leave behind when the power goes out.
-/

namespace EspFirmware.Proof.Nvs
open EspFirmware.Nvs EspFirmware.Spec EspFirmware.Lib Prog

variable {env : Env}

structure UsedPage (env : Env) (pg : Page) (s : Sector) (st : PageState) (seq : Word) (segs : List Seg) : Prop where
  clean : Clean env pg s segs
  state : pg.mState = st
  number : pg.mSeqNumber = seq
  header : HeaderAt env s st seq

def PageIs (env : Env) (pg : Page) (s : Sector) : Slot → Prop
  | .blank seq => BlankPage pg ∧ pg.mSeqNumber = seq ∧ s = erasedSector
  | .junk => pg.mState = .corrupt ∧ Junk env s
  | .used st seq segs => UsedPage env pg s st seq segs

structure UsedSector (env : Env) (s : Sector) (st : PageState) (seq : Word) (segs : List Seg) : Prop where
  header : HeaderAt env s st seq
  laid : ∃ segs₀ tail, Laid env s segs₀ tail ∧ (st ≠ .active → tail = .free) ∧ loaded env st segs₀ tail = segs

def Shows (env : Env) (s : Sector) : Slot → Prop
  | .blank _ => s = erasedSector
  | .junk => Junk env s
  | .used st seq segs => UsedSector env s st seq segs

theorem loaded_whole (st : PageState) {segs : List Seg} (whole : Whole segs) :
    loaded env st segs .free = if st = .active then lastByHash env segs else segs := by
  have settled_ : settled segs ++ settleTail .free = segs := by
    rw [settled_whole whole]
    exact List.append_nil segs
  unfold loaded
  rw [settled_]

theorem UsedPage.shows {pg : Page} {s : Sector} {st : PageState} {seq : Word} {segs : List Seg}
    (page : UsedPage env pg s st seq segs) : Shows env s ((Slot.used st seq segs).reload env) :=
  ⟨page.header, segs, .free, page.clean.laid, fun _ => rfl, rfl⟩

theorem PageIs.shows {pg : Page} {s : Sector} {slot : Slot} (page : PageIs env pg s slot) :
    Shows env s (slot.reload env) := by
  cases slot with
  | blank seq => exact page.2.2
  | junk => exact page.2
  | used st seq segs => exact UsedPage.shows page

theorem settleTail_gones (tail : Tail) : ∃ count, settleTail tail = gones count := by
  cases tail with
  | free => exact ⟨0, rfl⟩
  | half => exact ⟨1, rfl⟩
  | cut head len => exact ⟨len + 1, rfl⟩

theorem loaded_tail (env : Env) (segs : List Seg) (tail : Tail) :
    ∃ count, loaded env .active segs tail = loaded env .active (segs ++ gones count) .free := by
  obtain ⟨count, eq⟩ := settleTail_gones tail
  refine ⟨count, ?_⟩
  rw [loaded_active, loaded_active, eq, settled_append, settled_gones]
  exact congrArg _ (List.append_nil _).symm

inductive WriteStage (env : Env) (v : Value) : Slot → Slot → Prop where
  | header (seq : Word) : WriteStage env v (.blank seq) .junk
  | begun (seq : Word) (segs : List Seg) (count : Nat) :
      WriteStage env v (.used .active seq segs) (.used .active seq (segs ++ gones count))
  | begunFirst (seq : Word) (count : Nat) : WriteStage env v (.blank seq) (.used .active seq (gones count))
  | written (slot : Slot) : WriteStage env v slot (slot.write env v).2

structure Storable (v : Value) : Prop where
  named : v.nsIndex ≠ NS_ANY
  typed : Typed v.datatype v.data

section
variable {post : Outcome EspErr Unit → Page → Sector → Prop} {cut : Sector → Prop} {pg : Page} {s : Sector} {v : Value}

def Ends {ρ δ α : Type} (post : Outcome EspErr α → ρ → δ → Prop) (result : Except EspErr α) (r : ρ) (d : δ) : Prop :=
  match result with
  | .ok a => post (.ok a) r d
  | .error e => post (.err e) r d

theorem append_long {seq : Word} {segs : List Seg} (long : MAX_KEY_LENGTH < (cString v.key).length) :
    Slot.append env v seq segs = (.error .keyTooLong, .used .active seq segs) := by
  unfold Slot.append
  rw [if_pos long]

theorem append_large {seq : Word} {segs : List Seg} (short : (cString v.key).length ≤ MAX_KEY_LENGTH)
    (large : BLOB_MAX_SIZE < v.data.length) :
    Slot.append env v seq segs = (.error .valueTooLong, .used .active seq segs) := by
  unfold Slot.append
  rw [if_neg (by omega), if_pos large]

theorem append_full {seq : Word} {segs : List Seg} (short : (cString v.key).length ≤ MAX_KEY_LENGTH)
    (small : v.data.length ≤ BLOB_MAX_SIZE)
    (full : ENTRY_COUNT < size segs + Page.entriesCount v.datatype v.data.length) :
    Slot.append env v seq segs = (.error .pageFull, .used .active seq segs) := by
  unfold Slot.append
  rw [if_neg (by omega), if_neg (by omega), if_pos full]

theorem append_ok {seq : Word} {segs : List Seg} (short : (cString v.key).length ≤ MAX_KEY_LENGTH)
    (small : v.data.length ≤ BLOB_MAX_SIZE)
    (room : size segs + Page.entriesCount v.datatype v.data.length ≤ ENTRY_COUNT) :
    Slot.append env v seq segs = (.ok (), .used .active seq (segs ++ [.item (v.record env)])) := by
  unfold Slot.append
  rw [if_neg (by omega), if_neg (by omega), if_neg (by omega)]

theorem wp_append {seq : Word} {segs : List Seg} (storable : Storable v) (page : UsedPage env pg s .active seq segs)
    (done : ∀ pg' s', PageIs env pg' s' (Slot.append env v seq segs).2 →
      Ends post (Slot.append env v seq segs).1 pg' s')
    (begun : ∀ s' count, Shows env s' ((Slot.used .active seq (segs ++ gones count)).reload env) → cut s')
    (written : ∀ s', Shows env s' ((Slot.append env v seq segs).2.reload env) → cut s') :
    wp (writeChecked env v.nsIndex v.datatype v.key v.data) post cut pg s := by
  refine wp_writeChecked page.clean page.state storable.named storable.typed (fun short small room => ⟨?_, ?_⟩) ?_ ?_ ?_ ?_
  · intro s' tail header laid
    obtain ⟨count, eq⟩ := loaded_tail env segs tail
    exact begun s' count ⟨page.header.congr header, segs, tail, laid, fun other => absurd rfl other, eq⟩
  · intro s' header laid
    rw [append_ok short small room] at written
    exact written s' ⟨page.header.congr header, _, .free, laid, fun _ => rfl, rfl⟩
  · intro long
    rw [append_long long] at done
    exact done pg s page
  · intro short large
    rw [append_large short large] at done
    exact done pg s page
  · intro short small full
    rw [append_full short small full] at done
    exact done pg s page
  · intro short small room pg' s' clean same header
    rw [append_ok short small room] at done
    exact done pg' s' ⟨clean, same.state.trans page.state, same.seq.trans page.number, page.header.congr header⟩

def Slot.Writable : Slot → Prop
  | .blank _ => True
  | .used st _ _ => st = .active ∨ st = .full
  | .junk => False

theorem wp_writeSlot {slot : Slot} (storable : Storable v) (page : PageIs env pg s slot) (writable : Slot.Writable slot)
    (done : ∀ pg' s', PageIs env pg' s' (slot.write env v).2 → Ends post (slot.write env v).1 pg' s')
    (stop : ∀ s' slot', WriteStage env v slot slot' → Shows env s' (slot'.reload env) → cut s') :
    wp (Page.writeItem env v.nsIndex v.datatype v.key v.data) post cut pg s := by
  cases slot with
  | junk => exact writable.elim
  | blank seq =>
      obtain ⟨blank_, rfl, rfl⟩ := page
      refine wp_writeItem_blank blank_ ?_ (fun s' junk => stop s' .junk (.header _) junk) ?_
      · intro pg' s' clean active number header _
        refine wp_append storable ⟨clean, active, number, header⟩ done ?_ ?_
        · intro s'' count shows
          exact stop s'' _ (.begunFirst _ count) shows
        · intro s'' shows
          exact stop s'' _ (.written (.blank _)) shows
      · intro s' header laid
        exact stop s' _ (.begunFirst _ 0) ⟨header, [], .free, laid, fun _ => rfl, rfl⟩
  | used st seq segs =>
      have page : UsedPage env pg s st seq segs := page
      rcases writable with rfl | rfl
      · refine wp_writeItem_active page.state (wp_append storable page done ?_ ?_)
        · intro s' count shows
          exact stop s' _ (.begun _ _ count) shows
        · intro s' shows
          exact stop s' _ (.written (.used .active seq segs)) shows
      · exact wp_writeItem_full page.state (done pg s page)

def Slot.Searchable : Slot → Prop
  | .used st _ _ => Searched st
  | .blank _ => True
  | .junk => False

theorem wp_findItem_blank {post : Outcome EspErr Page.Found → Page → Sector → Prop} {nsIndex : Byte} {datatype : ItemType}
    {key : Option (List Byte)} {i : Nat} {item : Item} (state : pg.mState = .uninitialized)
    (done : post (.ok ⟨.error .notFound, item⟩) pg s) :
    wp (Page.findItem env nsIndex datatype key i item) post cut pg s := by
  unfold Page.findItem
  refine wp_bind (wp_get ?_)
  dsimp only
  rw [if_pos (Or.inr (Or.inr (Or.inl state)))]
  exact wp_pure _ done

theorem wp_findSlot {post : Outcome EspErr Page.Found → Page → Sector → Prop} {slot : Slot} {nsIndex : Byte}
    {datatype : ItemType} {key : Option (List Byte)} (page : PageIs env pg s slot) (searchable : Slot.Searchable slot)
    (item : Item) (done : ∀ found, Finds found (scanFrom nsIndex datatype key 0 slot.segs) → post (.ok found) pg s) :
    wp (Page.findItem env nsIndex datatype key 0 item) post cut pg s := by
  cases slot with
  | junk => exact searchable.elim
  | blank seq =>
      obtain ⟨blank_, -, -⟩ := page
      exact wp_findItem_blank blank_.state (done _ rfl)
  | used st seq segs =>
      have page : UsedPage env pg s st seq segs := page
      refine wp_findItem page.clean (by rw [page.state]; exact searchable) (boundary_zero segs) item ?_
      intro found finds _
      exact done found finds

theorem dropAt_other {pos : Nat} {i : Nat} {a : List Seg} (before : i + size a ≤ pos) (b : List Seg) :
    dropAt pos i (a ++ b) = a ++ dropAt pos (i + size a) b := by
  induction a generalizing i with
  | nil => rfl
  | cons seg a ih =>
      have positive := size_pos seg
      rw [size_cons, ← Nat.add_assoc] at before ⊢
      cases seg with
      | gone =>
          rw [List.cons_append, List.cons_append]
          exact congrArg _ (ih before)
      | torn head len =>
          rw [List.cons_append, List.cons_append]
          exact congrArg _ (ih before)
      | item r =>
          have other : i ≠ pos := by omega
          rw [List.cons_append, dropAt, if_neg other]
          exact congrArg _ (ih before)

theorem dropAt_item (a : List Seg) (r : Record) (b : List Seg) :
    dropAt (size a) 0 (a ++ .item r :: b) = erased a r b := by
  rw [dropAt_other (by omega), Nat.zero_add, dropAt, if_pos rfl, erased, List.append_assoc]
  rfl

theorem loaded_torn (st : PageState) (a b : List Seg) (r : Record) :
    loaded env st (a ++ .torn r.head r.body.length :: b) .free = loaded env st (erased a r b) .free := by
  unfold loaded
  rw [settled_torn]
  rfl

theorem wp_eraseSlot {slot : Slot} {nsIndex : Byte} {datatype : ItemType} {key : Option (List Byte)}
    (page : PageIs env pg s slot) (searchable : Slot.Searchable slot)
    (done : ∀ pg' s', PageIs env pg' s' (slot.erase nsIndex datatype key).2 →
      Ends post (slot.erase nsIndex datatype key).1 pg' s')
    (stop : ∀ s', (slot.erase nsIndex datatype key).1 = .ok () →
      Shows env s' ((slot.erase nsIndex datatype key).2.reload env) → cut s') :
    wp (Page.eraseItem env nsIndex datatype key) post cut pg s := by
  cases slot with
  | junk => exact searchable.elim
  | blank seq =>
      have blank_ := page.1
      unfold Page.eraseItem Page.findIndex
      refine wp_bind (wp_bind (wp_findItem_blank blank_.state (wp_throw _ ?_)))
      exact done pg s page
  | used st seq segs =>
      have page : UsedPage env pg s st seq segs := page
      unfold Slot.erase at done stop
      refine wp_eraseItem page.clean (by rw [page.state]; exact searchable) ?_ ?_ ?_
      · intro e scanned
        have scanned : scanFrom nsIndex datatype key 0 (Slot.used st seq segs).segs = .error e := scanned
        rw [scanned] at done
        exact done pg s page
      · intro a r b split scanned pg' s' clean same header
        have scanned : scanFrom nsIndex datatype key 0 (Slot.used st seq segs).segs = .ok (size a, r) := scanned
        rw [scanned] at done
        refine done pg' s' ?_
        dsimp only [Slot.segs, Slot.withSegs]
        rw [split, dropAt_item]
        exact ⟨clean, same.state.trans page.state, same.seq.trans page.number, page.header.congr header⟩
      · intro a r b split scanned s' segs' header laid either
        have scanned : scanFrom nsIndex datatype key 0 (Slot.used st seq segs).segs = .ok (size a, r) := scanned
        rw [scanned] at stop
        refine stop s' rfl ?_
        dsimp only [Slot.segs, Slot.withSegs]
        rw [split, dropAt_item]
        refine ⟨page.header.congr header, segs', .free, laid, fun _ => rfl, ?_⟩
        rcases either with rfl | rfl
        · rfl
        · exact loaded_torn st a b r

def IsValue (env : Env) (r : Record) : Prop := ∃ ns ty k d, Valued env r ns ty k d

theorem wp_readSlot {post : Outcome EspErr (List Byte) → Page → Sector → Prop} {slot : Slot} {nsIndex : Byte}
    {datatype : ItemType} {key buffer : List Byte} (page : PageIs env pg s slot) (searchable : Slot.Searchable slot)
    (specific : datatype ≠ ItemType.ANY) (values : ∀ r ∈ records slot.segs, IsValue env r)
    (missing : ∀ e, scanFrom nsIndex datatype (some key) 0 slot.segs = .error e → post (.err e) pg s)
    (done : ∀ x ns k value, scanFrom nsIndex datatype (some key) 0 slot.segs = .ok x →
      Valued env x.2 ns datatype k value → Ends post (readInto datatype value buffer) pg s) :
    wp (Page.readItem env nsIndex datatype key buffer) post cut pg s := by
  cases slot with
  | junk => exact searchable.elim
  | blank seq =>
      have blank_ := page.1
      unfold Page.readItem Page.findIndex
      refine wp_bind (wp_get ?_)
      dsimp only
      rw [if_neg (by rw [blank_.state]; decide)]
      exact wp_bind (wp_bind (wp_findItem_blank blank_.state (wp_throw _ (missing _ rfl))))
  | used st seq segs =>
      have page : UsedPage env pg s st seq segs := page
      refine wp_readItem page.clean (by rw [page.state]; exact searchable) specific ?_ missing ?_
      · intro x member
        exact values x.2 (List.mem_map_of_mem member)
      · intro x ns k value scanned valued
        have result := done x ns k value scanned valued
        unfold Ends at result
        cases read : readInto datatype value buffer with
        | ok a =>
            rw [read] at result
            exact result
        | error e =>
            rw [read] at result
            exact result

theorem Clean.marked {segs : List Seg} (clean : Clean env pg s segs) {st : PageState} (other : st ≠ .active) :
    Clean env { pg with mState := st } (Function.update s (.header 0) st.toWord) segs := by
  have entries (j k : Nat) : Function.update s (.header 0) st.toWord (.entry j k) = s (.entry j k) :=
    Function.update_of_ne (by simp) _ _
  have table : tableOf (Function.update s (.header 0) st.toWord) = tableOf s :=
    funext fun k => Function.update_of_ne (by simp) _ _
  have state (j : Nat) : stateOf (Function.update s (.header 0) st.toWord) j = stateOf s j := by
    rw [stateOf, table, stateOf]
  have used : usedCount (Function.update s (.header 0) st.toWord) = usedCount s :=
    usedCount_congr fun j => by rw [state]
  have first : firstUsed (Function.update s (.header 0) st.toWord) = firstUsed s :=
    firstUsed_congr fun j => by rw [state]
  refine ⟨⟨clean.sync.table.trans table.symm, clean.sync.used.trans used.symm, clean.sync.first.trans first.symm⟩,
    holds_congr (fun j _ _ => ⟨state j, funext fun k => entries j k⟩) clean.holds, clean.whole, clean.fits,
    free_congr (fun j _ => state j) (fun j k _ => entries j k) clean.free, clean.hash, ?_⟩
  rcases clean.next with next | ⟨next, -⟩
  · exact Or.inl next
  · exact Or.inr ⟨next, fun active => absurd active other⟩

theorem HeaderAt.marked {st st' : PageState} {seq : Word} (header : HeaderAt env s st seq) :
    HeaderAt env (Function.update s (.header 0) st'.toWord) st' seq := by
  have later (k : Nat) : Function.update s (.header 0) st'.toWord (.header (k + 1)) = s (.header (k + 1)) :=
    Function.update_of_ne (by simp) _ _
  refine ⟨Function.update_self _ _ _, (later 0).trans header.seq, ?_⟩
  rw [later 6, header.crc]
  unfold Page.headerCrc32
  simp only [later]

theorem wp_alterPageState {st st' : PageState} {seq : Word} {segs : List Seg} (page : UsedPage env pg s st seq segs)
    (clears : ~~~ st.toWord &&& st'.toWord = 0) (other : st' ≠ .active)
    (done : ∀ pg' s', UsedPage env pg' s' st' seq segs → post (.ok ()) pg' s')
    (stop : ∀ s', Shows env s' ((Slot.used st' seq segs).reload env) → cut s') :
    wp (Page.alterPageState st') post cut pg s := by
  have after : UsedPage env { pg with mState := st' } (Function.update s (.header 0) st'.toWord) st' seq segs :=
    ⟨page.clean.marked other, rfl, page.number, page.header.marked⟩
  have allowed : ClearsBits s (.header 0) st'.toWord := by
    unfold ClearsBits
    rw [page.header.state]
    exact clears
  unfold Page.alterPageState
  refine wp_bind (wp_orInvalid (wp_writeWord allowed (.pageState _ allowed) ?_ (stop _ after.shows)))
  exact wp_modify (done _ _ after)

theorem wp_markFull {seq : Word} {segs : List Seg} (page : UsedPage env pg s .active seq segs)
    (done : ∀ pg' s', UsedPage env pg' s' .full seq segs → post (.ok ()) pg' s')
    (stop : ∀ s', Shows env s' ((Slot.used .full seq segs).reload env) → cut s') :
    wp Page.markFull post cut pg s := by
  unfold Page.markFull
  refine wp_bind (wp_get ?_)
  dsimp only
  rw [if_neg (not_not_intro page.state)]
  exact wp_alterPageState page (by decide) (by decide) done stop

theorem wp_markFreeing {st : PageState} {seq : Word} {segs : List Seg} (page : UsedPage env pg s st seq segs)
    (either : st = .active ∨ st = .full)
    (done : ∀ pg' s', UsedPage env pg' s' .freeing seq segs → post (.ok ()) pg' s')
    (stop : ∀ s', Shows env s' ((Slot.used .freeing seq segs).reload env) → cut s') :
    wp Page.markFreeing post cut pg s := by
  unfold Page.markFreeing
  refine wp_bind (wp_get ?_)
  dsimp only
  have allowed : ¬ (pg.mState ≠ .full ∧ pg.mState ≠ .active) := by
    rintro ⟨notFull, notActive⟩
    rcases either with rfl | rfl
    · exact notActive page.state
    · exact notFull page.state
  rw [if_neg allowed]
  refine wp_alterPageState page ?_ (by decide) done stop
  rcases either with rfl | rfl <;> decide

theorem wp_erasePage (done : ∀ pg', BlankPage pg' → pg'.mSeqNumber = pg.mSeqNumber → post (.ok ()) pg' erasedSector)
    (stop : cut erasedSector) : wp Page.erase post cut pg s := by
  unfold Page.erase
  exact wp_bind (wp_write .erase (wp_modify (done _ ⟨rfl, rfl, rfl, rfl, rfl⟩ rfl)) stop)

inductive CopyStage (seq : Word) (segs : List Seg) : Slot → Prop where
  | header : CopyStage seq segs .junk
  | copied (done count : Nat) : CopyStage seq segs (.used .active seq ((items segs).take done ++ gones count))

theorem wp_copySlot {source : Page} {sourceS : Sector} {st : PageState} {seq seq' : Word} {segs : List Seg}
    (from_ : UsedPage env source sourceS st seq segs) (page : PageIs env pg s (.blank seq'))
    (nothing : records segs = [] → post (.err .notFound) pg s)
    (done : records segs ≠ [] → ∀ pg' s', UsedPage env pg' s' .active seq' (items segs) → post (.ok ()) pg' s')
    (stop : ∀ s' slot', CopyStage seq' segs slot' → Shows env s' (slot'.reload env) → cut s') :
    wp (Page.copyItems env source sourceS) post cut pg s := by
  obtain ⟨blank_, rfl, rfl⟩ := page
  refine wp_copyItems from_.clean blank_ nothing ?_ (fun s' junk => stop s' .junk .header junk) ?_
  · intro some_ pg' s' clean active number header _
    exact done some_ pg' s' ⟨clean, active, number, header⟩
  · intro s' k tail header laid
    obtain ⟨count, eq⟩ := loaded_tail env ((items segs).take k) tail
    exact stop s' _ (.copied k count) ⟨header, _, tail, laid, fun other => absurd rfl other, eq⟩

theorem wp_loadSlot {slot : Slot} (shows : Shows env s slot) (searchable : Slot.Searchable slot ∨ slot = .junk)
    (done : ∀ pg' s', PageIs env pg' s' slot.restart → post (.ok ()) pg' s')
    (stop : ∀ s', Shows env s' slot → cut s') : wp (Page.load env) post cut (Page.fresh env) s := by
  cases slot with
  | junk => exact wp_load_junk shows (done _ s ⟨rfl, shows⟩)
  | blank seq =>
      have empty : s = erasedSector := shows
      subst empty
      exact wp_load_erased fun pg' blank_ number => done pg' _ ⟨blank_, number, rfl⟩
  | used st seq segs =>
      obtain ⟨header, segs₀, tail, laid, closed, rfl⟩ := shows
      have searched : Searched st := by
        rcases searchable with searched | junk
        · exact searched
        · exact absurd junk (by simp)
      refine wp_load header searched laid closed ?_ ?_
      · intro pg' s' clean state number header'
        exact done pg' s' ⟨clean, state, number, header'⟩
      · intro s' segs' tail' header' laid' closed' same
        exact stop s' ⟨header', segs', tail', laid', closed', same⟩

end

theorem countP_segs {s : Sector} {segs : List Seg} {i : Nat} (holds : Holds env s i segs) (whole : Whole segs) :
    (List.range' i (size segs)).countP (fun j => decide (stateOf s j = .written)) = size (items segs) := by
  induction segs generalizing i with
  | nil => rfl
  | cons seg segs ih =>
      have rest := ih holds.2 fun seg member => whole seg (List.mem_cons_of_mem _ member)
      rw [size_cons, ← List.range'_append_1, List.countP_append, rest]
      cases seg with
      | torn head len => exact absurd (whole _ List.mem_cons_self) Bool.false_ne_true
      | gone =>
          have erased_ : stateOf s i = .erased := holds.1
          have none_ : (List.range' i (Seg.size .gone)).countP (fun j => decide (stateOf s j = .written)) = 0 := by
            rw [List.countP_eq_zero]
            intro j member
            have here : j = i := by
              rw [size_gone, List.range'_one] at member
              exact List.mem_singleton.mp member
            rw [here, erased_]
            decide
          rw [none_, Nat.zero_add]
          rfl
      | item r =>
          have at_ : ItemAt env s i r := holds.1
          have all : (List.range' i (Seg.size (.item r))).countP (fun j => decide (stateOf s j = .written)) =
              (List.range' i (Seg.size (.item r))).length := by
            rw [List.countP_eq_length]
            intro j member
            rw [List.mem_range'_1, size_item] at member
            have written := at_.written (j - i) (by omega)
            rw [Nat.add_sub_cancel' member.1] at written
            exact decide_eq_true written
          rw [all, List.length_range']
          exact (size_cons (.item r) (items segs)).symm

theorem Clean.inUse {pg : Page} {s : Sector} {segs : List Seg} (clean : Clean env pg s segs) :
    pg.mUsedEntryCount = size (items segs) := by
  have fits := clean.fits
  have split : List.range ENTRY_COUNT = List.range' 0 (size segs) ++ List.range' (0 + size segs) (ENTRY_COUNT - size segs) := by
    rw [List.range'_append_1, List.range_eq_range', Nat.add_sub_cancel' fits]
  have beyond : (List.range' (0 + size segs) (ENTRY_COUNT - size segs)).countP
      (fun j => decide (stateOf s j = .written)) = 0 := by
    rw [List.countP_eq_zero]
    intro j member
    rw [List.mem_range'_1] at member
    rw [(clean.free j (by omega)).1]
    decide
  rw [clean.sync.used, usedCount, split, List.countP_append, countP_segs clean.holds clean.whole, beyond, Nat.add_zero]

theorem PageIs.inUse {pg : Page} {s : Sector} {slot : Slot} (page : PageIs env pg s slot) (notJunk : slot ≠ .junk) :
    pg.mUsedEntryCount = slot.inUse := by
  cases slot with
  | junk => exact absurd rfl notJunk
  | blank seq => exact page.1.used
  | used st seq segs => exact (UsedPage.clean page).inUse

end EspFirmware.Proof.Nvs
