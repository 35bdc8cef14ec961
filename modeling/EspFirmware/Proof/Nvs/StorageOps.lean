import EspFirmware.Nvs.Storage
import EspFirmware.Proof.Nvs.PagesWrite

/-!
The operations of the store are those on the list of pages.
-/

namespace EspFirmware.Proof.Nvs
open EspFirmware.Nvs EspFirmware.Spec EspFirmware.Lib Prog

variable {env : Env} {n : Nat}

abbrev withManager (st : Storage n) (m : PageManager n) : Storage n := { st with mPageManager := m }

section
variable {α : Type} {post : Outcome EspErr α → Storage n → Flash n → Prop} {cut : Flash n → Prop} {st : Storage n}
  {f : Flash n}

theorem wp_onManager {p : PageManager.ManagerM n α}
    (run : Prog.wp FlashCall p (fun o m f => post o (withManager st m) f) cut st.mPageManager f) :
    Prog.wp FlashCall (Storage.onManager p) post cut st f := by
  refine wp_zoom rfl (fun x steps now => ?_) run
  rw [List.map_id'']
  · exact now
  · exact fun _ => rfl

theorem wp_storagePage {i : Fin n} {p : Page.PageM α}
    (run : wp p (fun o pg s => post o (withManager st (withPage st.mPageManager i pg)) (Function.update f i s))
      (fun s => cut (Function.update f i s)) (st.mPageManager.mPages i) (f i)) :
    Prog.wp FlashCall (Storage.onPage i p) post cut st f :=
  wp_onManager (wp_onPage run)

theorem withManager_self (st : Storage n) (f : Flash n) (i : Fin n) :
    withManager st (withPage st.mPageManager i (st.mPageManager.mPages i)) = st ∧ Function.update f i (f i) = f := by
  refine ⟨?_, Function.update_eq_self i f⟩
  unfold withManager withPage
  rw [Function.update_eq_self]

end

section
variable {cut : Flash n → Prop} {st : Storage n} {f : Flash n} {P : Pages n}

theorem wp_pageState {post : Outcome EspErr PageState → Storage n → Flash n → Prop} {page : Fin n}
    (done : post (.ok (st.mPageManager.mPages page).mState) st f) :
    Prog.wp FlashCall (Storage.onManager (PageManager.pageState page)) post cut st f := by
  refine wp_onManager ?_
  unfold PageManager.pageState
  exact wp_bind (wp_get (wp_pure _ done))

theorem wp_requireActive {post : Outcome EspErr Unit → Storage n → Flash n → Prop} (active : st.mState = .active)
    (done : post (.ok ()) st f) : Prog.wp FlashCall Storage.requireActive post cut st f := by
  unfold Storage.requireActive
  refine wp_bind (wp_get ?_)
  dsimp only
  rw [if_neg (not_not_intro active)]
  exact wp_pure _ done

section
variable {nsIndex : Byte} {datatype : ItemType} {key : Option (List Byte)}
  {post : Outcome EspErr (Option (Fin n × Item)) → Storage n → Flash n → Prop}

theorem wp_findPage (are : Are env st.mPageManager f P) (l : List (Fin n))
    (searchable : ∀ i ∈ l, Slot.Searchable (P.slots i))
    (done : post (.ok ((l.findSome? fun page =>
      match scanFrom nsIndex datatype key 0 (P.slots page).segs with
      | .ok x => some (page, x.2)
      | .error _ => none).map fun x => (x.1, x.2.head))) st f) :
    Prog.wp FlashCall (Storage.findPage env nsIndex datatype key l) post cut st f := by
  induction l with
  | nil => exact wp_pure _ done
  | cons page rest ih =>
      unfold Storage.findPage
      refine wp_bind (wp_storagePage (wp_findSlot (are.pages page) (searchable page List.mem_cons_self) _ ?_))
      intro found finds
      obtain ⟨same, sameFlash⟩ := withManager_self st f page
      dsimp only
      rw [same, sameFlash]
      rw [List.findSome?_cons] at done
      cases scanned : scanFrom nsIndex datatype key 0 (P.slots page).segs with
      | error e =>
          rw [scanned] at finds done
          have eq : found.result = .error e := finds
          rw [eq]
          exact ih (fun i member => searchable i (List.mem_cons_of_mem _ member)) done
      | ok x =>
          rw [scanned] at finds done
          have eq : found = ⟨.ok x.1, x.2.head⟩ := finds
          rw [eq]
          exact wp_pure _ done

theorem wp_storageFind (are : Are env st.mPageManager f P) (usable : Usable env P)
    (done : post (.ok ((P.find nsIndex datatype key).map fun x => (x.1, x.2.head))) st f) :
    Prog.wp FlashCall (Storage.findItem env nsIndex datatype key) post cut st f := by
  unfold Storage.findItem
  refine wp_bind (wp_get ?_)
  dsimp only
  rw [are.list]
  exact wp_findPage are P.list (fun i member => usable.searchable member) done

end

section
variable {v : Value} {post : Outcome EspErr Unit → Storage n → Flash n → Prop}

inductive StoreStage (env : Env) (v : Value) (P : Pages n) (page : Fin n) : Pages n → Prop where
  | first {slot : Slot} (stage : WriteStage env v (P.slots page) slot) : StoreStage env v P page (P.set page slot)
  | full {slot : Slot} (refused : (P.slots page).write env v = (.error .pageFull, slot)) :
      StoreStage env v P page (P.set page (slot.withState .full))
  | requested {slot : Slot} {Q : Pages n} (refused : (P.slots page).write env v = (.error .pageFull, slot))
      (stage : RequestStage (P.set page (slot.withState .full)) Q) : StoreStage env v P page Q
  | second {slot slot' : Slot} {M : Pages n} {w : Fin n} (refused : (P.slots page).write env v = (.error .pageFull, slot))
      (ok : (P.set page (slot.withState .full)).requestNewPage = .ok M) (last_ : M.list.getLast? = some w)
      (stage : WriteStage env v (M.slots w) slot') : StoreStage env v P page (M.set w slot')
  | done : StoreStage env v P page (P.writeItem env v page).2

theorem Ends.imp {ρ ρ' δ δ' α : Type} {post : Outcome EspErr α → ρ → δ → Prop} {post' : Outcome EspErr α → ρ' → δ' → Prop}
    {result : Except EspErr α} {r : ρ} {r' : ρ'} {d : δ} {d' : δ'} (ends : Ends post result r d)
    (imp : ∀ o, post o r d → post' o r' d') : Ends post' result r' d' := by
  cases result with
  | ok a => exact imp _ ends
  | error e => exact imp _ ends

theorem wp_storageWrite (storable : Storable v) (are : Are env st.mPageManager f P) {page : Fin n}
    (writable : Slot.Writable (P.slots page))
    (done : ∀ m' f', Are env m' f' (P.writeLast env v page).2 →
      Ends post (P.writeLast env v page).1 (withManager st m') f')
    (stop : ∀ f' slot, WriteStage env v (P.slots page) slot → Shown env f' (P.set page slot) → cut f') :
    Prog.wp FlashCall (Storage.onPage page (Page.writeItem env v.nsIndex v.datatype v.key v.data)) post cut st f := by
  refine wp_storagePage (wp_writeSlot storable (are.pages page) writable ?_ ?_)
  · intro pg' s' after
    exact (done _ _ (are.set after)).imp fun _ holds => holds
  · intro s' slot stage shows
    exact stop _ slot stage (are.shown.set shows)

theorem wp_fillUp (are : Are env st.mPageManager f P) {page : Fin n} (isOpen : Slot.Open (P.slots page))
    {q : Storage.StorageM n Unit}
    (run : ∀ m' f', Are env m' f' (P.set page ((P.slots page).withState .full)) →
      Prog.wp FlashCall q post cut (withManager st m') f')
    (stop : ∀ f', Shown env f' (P.set page ((P.slots page).withState .full)) → cut f') :
    Prog.wp FlashCall (do
      let state ← Storage.onManager (PageManager.pageState page)
      if state ≠ .full then Storage.onPage page Page.markFull
      q) post cut st f := by
  refine wp_bind (wp_pageState ?_)
  dsimp only
  have is_ := are.pages page
  cases slot : P.slots page with
  | blank seq =>
      rw [slot] at isOpen
      exact isOpen.elim
  | junk =>
      rw [slot] at isOpen
      exact isOpen.elim
  | used st' seq segs =>
      rw [slot] at is_ isOpen run stop
      have is_ : UsedPage env (st.mPageManager.mPages page) (f page) st' seq segs := is_
      rcases isOpen with rfl | rfl
      · rw [if_pos (by rw [is_.state]; decide)]
        refine wp_bind (wp_storagePage (wp_markFull is_ ?_ ?_))
        · intro pg' s' marked
          exact run _ _ (are.set marked)
        · intro s' shows
          exact stop _ (are.shown.set shows)
      · rw [if_neg (not_not_intro is_.state)]
        refine run st.mPageManager f ?_
        have same : P.set page ((Slot.used .full seq segs).withState .full) = P := by
          change P.set page (.used .full seq segs) = P
          rw [← slot]
          unfold Pages.set
          rw [Function.update_eq_self]
        rw [same]
        exact are

theorem set_set (page : Fin n) (a b : Slot) : (P.set page a).set page b = P.set page b := by
  unfold Pages.set
  dsimp only
  rw [Function.update_idem]

theorem wp_writeToPage (usable : Usable env P) (storable : Storable v) (are : Are env st.mPageManager f P) {page : Fin n}
    (last_ : P.list.getLast? = some page)
    (done : ∀ m' f', Are env m' f' (P.writeToPage env v page).2 →
      Ends post (P.writeToPage env v page).1 (withManager st m') f')
    (stop : ∀ f' Q, StoreStage env v P page Q → Shown env f' Q → cut f') :
    Prog.wp FlashCall (Storage.writeToPage env v.nsIndex v.datatype v.key v.data) post cut st f := by
  have member := List.mem_of_getLast? last_
  have result := write_result env v (usable.writable member)
  unfold Storage.writeToPage
  refine wp_bind (wp_onManager (wp_back are last_ ?_))
  refine wp_bind (wp_attempt (wp_storageWrite storable are (usable.writable member) ?_ ?_))
  · intro m₁ f₁ are₁
    unfold Pages.writeLast at are₁ ⊢
    unfold Pages.writeToPage Pages.writeLast at done
    generalize outcome : (P.slots page).write env v = written at result are₁ done ⊢
    cases result with
    | written short segs isOpen => exact wp_pure _ (done m₁ f₁ are₁)
    | refused segs isOpen =>
        rename_i slot e
        by_cases full : e = .pageFull
        · subst full
          dsimp only [Ends] at are₁ done ⊢
          have slotOf : (P.set page slot).slots page = slot := set_slots_self _ _
          have filled : (P.set page slot).set page (((P.set page slot).slots page).withState .full) =
              P.set page (slot.withState .full) := by rw [slotOf, set_set]
          rw [filled] at done
          have marked := withState_full isOpen
          have segs' := marked.2.trans segs
          have allOpen := usable.allOpen last_ segs' marked.1
          refine wp_fillUp are₁ (by rw [slotOf]; exact isOpen) ?_ ?_
          · rw [filled]
            intro m₂ f₂ are₂
            refine wp_bind (wp_onManager (wp_requestNewPage are₂ allOpen.usable.distinct allOpen.opened allOpen.usable.unused
              ?_ ?_ ?_))
            · intro e failed
              rw [failed] at done
              exact done m₂ f₂ are₂
            · intro m₃ f₃ M ok are₃
              rw [ok] at done
              obtain ⟨w, ready⟩ := Ready.requested usable last_ segs' marked.1 ok
              dsimp only at done
              rw [ready.last] at done
              have wInside := List.mem_of_getLast? ready.last
              refine wp_bind (wp_onManager (wp_back are₃ ready.last ?_))
              refine wp_bind (wp_attempt (wp_storageWrite storable are₃ (ready.usable.writable wInside) ?_ ?_))
              · intro m₄ f₄ are₄
                have result' := write_result env v (ready.usable.writable wInside)
                unfold Pages.writeLast at are₄ ⊢
                dsimp only at done
                generalize (M.slots w).write env v = written at result' are₄ done ⊢
                cases result' with
                | written short segs isOpen => exact wp_pure _ (done m₄ f₄ are₄)
                | refused segs isOpen =>
                    rename_i slot' e'
                    cases e' <;> exact wp_throw _ (done m₄ f₄ are₄)
              · intro f' slot' stage shown
                exact stop f' _ (.second outcome ok ready.last stage) shown
            · intro f' Q stage shown
              exact stop f' Q (.requested outcome stage) shown
          · rw [filled]
            intro f' shown
            exact stop f' _ (.full outcome) shown
        · cases e <;> first
            | exact absurd rfl full
            | exact wp_throw _ (done m₁ f₁ are₁)
  · intro f' slot stage shown
    exact stop f' _ (.first stage) shown

theorem wp_storageErase {nsIndex : Byte} {datatype : ItemType} {key : Option (List Byte)}
    (are : Are env st.mPageManager f P) {page : Fin n} (searchable : Slot.Searchable (P.slots page))
    (done : ∀ m' f', Are env m' f' (P.eraseFrom nsIndex datatype key page).2 →
      Ends post (P.eraseFrom nsIndex datatype key page).1 (withManager st m') f')
    (stop : ∀ f', Shown env f' (P.eraseFrom nsIndex datatype key page).2 → cut f') :
    Prog.wp FlashCall (Storage.onPage page (Page.eraseItem env nsIndex datatype key)) post cut st f := by
  refine wp_storagePage (wp_eraseSlot (are.pages page) searchable ?_ ?_)
  · intro pg' s' after
    exact (done _ _ (are.set after)).imp fun _ holds => holds
  · intro s' _ shows
    exact stop _ (are.shown.set shows)

theorem wp_eraseCopy (usable : Usable env P) (are : Are env st.mPageManager f P) {old : Fin n} {r : Record}
    (inside : P.oldPage v old ∈ P.list)
    (found : firstRecord v.nsIndex v.datatype (some v.key) (records (P.slots (P.oldPage v old)).segs) = .ok r)
    (done : ∀ m' f', Are env m' f' (P.eraseFrom v.nsIndex v.datatype (some v.key) (P.oldPage v old)).2 →
      post (.ok ()) (withManager st m') f')
    (stop : ∀ f', Shown env f' (P.eraseFrom v.nsIndex v.datatype (some v.key) (P.oldPage v old)).2 → cut f') :
    Prog.wp FlashCall (do
      match ← attempt (Storage.onPage (P.oldPage v old)
        (Page.eraseItem env v.nsIndex v.datatype (some v.key))) with
      | .ok _ => pure ()
      | .error .flashOpFail => throw .removeFailed
      | .error e => throw e) post cut st f := by
  obtain ⟨ok, -, -⟩ := eraseFrom_found usable inside found
  refine wp_bind (wp_attempt (wp_storageErase are (usable.searchable inside) ?_ stop))
  intro m' f' after
  rw [ok]
  exact wp_pure _ (done m' f' after)

theorem wp_eraseOldCopy (usable : Usable env P) (are : Are env st.mPageManager f P) {old : Fin n} {r : Record}
    (inside : P.oldPage v old ∈ P.list)
    (found : firstRecord v.nsIndex v.datatype (some v.key) (records (P.slots (P.oldPage v old)).segs) = .ok r)
    (member : old ∈ P.list ∨ ∃ seq, P.slots old = .blank seq)
    (again : ∀ seq, P.slots old = .blank seq → P.find v.nsIndex v.datatype (some v.key) ≠ none)
    (done : ∀ m' f', Are env m' f' (P.eraseFrom v.nsIndex v.datatype (some v.key) (P.oldPage v old)).2 →
      post (.ok ()) (withManager st m') f')
    (stop : ∀ f', Shown env f' (P.eraseFrom v.nsIndex v.datatype (some v.key) (P.oldPage v old)).2 → cut f') :
    Prog.wp FlashCall (Storage.eraseOldCopy env v.nsIndex v.datatype v.key old) post cut st f := by
  have erase := wp_eraseCopy usable are inside found done stop
  unfold Storage.eraseOldCopy
  refine wp_bind (wp_pageState ?_)
  dsimp only
  have is_ := are.pages old
  cases slot : P.slots old with
  | blank seq =>
      rw [slot] at is_
      have page : P.oldPage v old = ((P.find v.nsIndex v.datatype (some v.key)).map Prod.fst).getD old := by
        unfold Pages.oldPage
        rw [slot]
      rw [if_pos (Or.inl is_.1.state)]
      refine wp_bind (wp_storageFind are usable ?_)
      cases search : P.find v.nsIndex v.datatype (some v.key) with
      | none => exact absurd search (again seq slot)
      | some x =>
          have isPage : P.oldPage v old = x.1 := by rw [page, search, Option.map_some, Option.getD_some]
          refine wp_bind (wp_pure _ ?_)
          rw [isPage] at erase
          exact erase
  | junk =>
      rw [slot] at is_
      have page : P.oldPage v old = old := by
        unfold Pages.oldPage
        rw [slot]
      rw [if_neg (by rw [is_.1]; decide)]
      refine wp_bind (wp_pure _ ?_)
      rw [page] at erase
      exact erase
  | used st' seq segs =>
      have writable : Slot.Writable (P.slots old) := by
        rcases member with inList | ⟨seq', isBlank⟩
        · exact usable.writable inList
        · rw [slot] at isBlank
          exact absurd isBlank (by simp)
      rw [slot] at is_ writable
      have page : P.oldPage v old = old := by
        unfold Pages.oldPage
        rw [slot]
      have state : ¬ ((st.mPageManager.mPages old).mState = .uninitialized ∨
          (st.mPageManager.mPages old).mState = .invalid) := by
        rw [UsedPage.state is_]
        rcases writable with rfl | rfl <;> decide
      rw [if_neg state]
      refine wp_bind (wp_pure _ ?_)
      rw [page] at erase
      exact erase

theorem wp_storageWriteItem (usable : Usable env P) (storable : Storable v) (active : st.mState = .active)
    (are : Are env st.mPageManager f P) {page : Fin n} (last_ : P.list.getLast? = some page)
    (done : ∀ m' f', Are env m' f' (P.writeItem env v page).2 →
      Ends post (P.writeItem env v page).1 (withManager st m') f')
    (stop : ∀ f' Q, StoreStage env v P page Q → Shown env f' Q → cut f') :
    Prog.wp FlashCall (Storage.writeItem env v.nsIndex v.datatype v.key v.data) post cut st f := by
  have written := writeToPage_written (v := v) usable last_
  unfold Storage.writeItem
  refine wp_bind (wp_requireActive active (wp_bind (wp_storageFind are usable ?_)))
  refine wp_bind (wp_writeToPage usable storable are last_ ?_ stop)
  intro m₁ f₁ are₁
  have stages : ∀ f', Shown env f' (P.writeItem env v page).2 → cut f' := fun f' shown => stop f' _ .done shown
  unfold Pages.writeItem at done stages
  generalize P.writeToPage env v page = outcome at written are₁ done stages ⊢
  cases written with
  | failed usable' live => exact done m₁ f₁ are₁
  | stored ready short segs isOpen =>
      rename_i M w slot
      dsimp only [Ends] at done stages ⊢
      cases found : P.find v.nsIndex v.datatype (some v.key) with
      | none =>
          rw [found] at done
          exact wp_pure _ (done m₁ f₁ are₁)
      | some x =>
          obtain ⟨old, r⟩ := x
          rw [found] at done stages
          have wInside : w ∈ M.list := List.mem_of_getLast? ready.last
          obtain ⟨usable', -⟩ := ready.usable.written storable wInside short segs isOpen
          obtain ⟨inside, r', first⟩ := oldPage_found ready segs isOpen found
          have now : firstRecord v.nsIndex v.datatype (some v.key)
              (records ((M.set w slot).slots ((M.set w slot).oldPage v old)).segs) = .ok r' := by
            by_cases here : (M.set w slot).oldPage v old = w
            · rw [here] at first ⊢
              rw [set_slots_self, segs, records_snoc]
              exact firstRecord_append first _
            · rw [set_slots_other here]
              exact first
          have place : old ∈ (M.set w slot).list ∨ ∃ seq, (M.set w slot).slots old = .blank seq := by
            rcases ready.old old (find_some found).1 with ⟨stays, -⟩ | ⟨⟨seq, isBlank⟩, other, -⟩
            · exact Or.inl stays
            · exact Or.inr ⟨seq, by rw [set_slots_other other, isBlank]⟩
          obtain ⟨ok, -, -⟩ := eraseFrom_found usable' inside now
          refine wp_eraseOldCopy usable' (by exact are₁) inside now place ?_ ?_ stages
          · intro seq isBlank missing
            exact find_none missing inside r' now
          · intro m₂ f₂ are₂
            have ended := done m₂ f₂ are₂
            rw [ok] at ended
            exact ended

theorem wp_storageEraseItem {nsIndex : Byte} {datatype : ItemType} {key : List Byte} (usable : Usable env P)
    (active : st.mState = .active) (are : Are env st.mPageManager f P)
    (done : ∀ m' f', Are env m' f' (P.eraseItem nsIndex datatype (some key)).2 →
      Ends post (P.eraseItem nsIndex datatype (some key)).1 (withManager st m') f')
    (stop : ∀ f', Shown env f' (P.eraseItem nsIndex datatype (some key)).2 → cut f') :
    Prog.wp FlashCall (Storage.eraseItem env nsIndex datatype key) post cut st f := by
  unfold Storage.eraseItem
  refine wp_bind (wp_requireActive active (wp_bind (wp_storageFind are usable ?_)))
  unfold Pages.eraseItem at done stop
  cases found : P.find nsIndex datatype (some key) with
  | none =>
      rw [found] at done
      exact wp_throw _ (done _ f are)
  | some x =>
      rw [found] at done stop
      exact wp_storageErase are (usable.searchable (find_some found).1) done stop

theorem wp_storageReadItem {post : Outcome EspErr (List Byte) → Storage n → Flash n → Prop} {nsIndex : Byte}
    {datatype : ItemType} {key buffer : List Byte} (usable : Usable env P) (active : st.mState = .active)
    (are : Are env st.mPageManager f P) (specific : datatype ≠ ItemType.ANY)
    (missing : P.find nsIndex datatype (some key) = none → post (.err .notFound) st f)
    (done : ∀ page r ns k value, P.find nsIndex datatype (some key) = some (page, r) → Valued env r ns datatype k value →
      Ends post (readInto datatype value buffer) st f) :
    Prog.wp FlashCall (Storage.readItem env nsIndex datatype key buffer) post cut st f := by
  unfold Storage.readItem
  refine wp_bind (wp_requireActive active (wp_bind (wp_storageFind are usable ?_)))
  cases found : P.find nsIndex datatype (some key) with
  | none => exact wp_throw _ (missing found)
  | some x =>
      obtain ⟨page, r⟩ := x
      obtain ⟨member, first⟩ := find_some found
      obtain ⟨pos, scanned⟩ := scanFrom_firstRecord first
      obtain ⟨same, sameFlash⟩ := withManager_self st f page
      refine wp_storagePage (wp_readSlot (are.pages page) (usable.searchable member) specific (usable.valuesAt member) ?_ ?_)
      · intro e failed
        rw [scanned] at failed
        exact absurd failed (by simp)
      · intro y ns k value scanned' valued
        obtain rfl : y = (pos, r) := by
          rw [scanned] at scanned'
          exact (Except.ok.inj scanned').symm
        refine (done page r ns k value found valued).imp fun o holds => ?_
        dsimp only
        rw [same, sameFlash]
        exact holds

theorem wp_storageDataSize {post : Outcome EspErr Nat → Storage n → Flash n → Prop} {nsIndex : Byte}
    {datatype : ItemType} {key : List Byte} (usable : Usable env P) (active : st.mState = .active)
    (are : Are env st.mPageManager f P)
    (missing : P.find nsIndex datatype (some key) = none → post (.err .notFound) st f)
    (done : ∀ page r, P.find nsIndex datatype (some key) = some (page, r) → post (.ok r.head.dataSize) st f) :
    Prog.wp FlashCall (Storage.getItemDataSize env nsIndex datatype key) post cut st f := by
  unfold Storage.getItemDataSize
  refine wp_bind (wp_requireActive active (wp_bind (wp_storageFind are usable ?_)))
  cases found : P.find nsIndex datatype (some key) with
  | none => exact wp_throw _ (missing found)
  | some x => exact wp_pure _ (done x.1 x.2 found)

inductive Thinned (nsIndex : Byte) (slot : Slot) : Slot → Prop where
  | same : Thinned nsIndex slot slot
  | step {slot' : Slot} (before : Thinned nsIndex slot slot') :
      Thinned nsIndex slot (slot'.erase nsIndex ItemType.ANY none).2

theorem matchItem_namespace (nsIndex : Byte) (r : Record) : Page.matchItem nsIndex ItemType.ANY none r.head =
    if Pages.inNamespace nsIndex r then some (.ok ()) else none := by
  unfold Page.matchItem Pages.inNamespace
  by_cases any_ : nsIndex = NS_ANY
  · simp [any_]
  · by_cases same : r.head.nsIndex = nsIndex
    · simp [same]
    · simp [any_, same]

theorem dropWhere_none {p : Record → Bool} {segs : List Seg} (none_ : ∀ r ∈ records segs, p r = false) :
    dropWhere p segs = segs := by
  induction segs with
  | nil => rfl
  | cons seg segs ih =>
      have later : ∀ r ∈ records segs, p r = false := by
        intro r member
        refine none_ r ?_
        cases seg with
        | gone => rwa [records_skip rfl]
        | torn head len => rwa [records_skip rfl]
        | item r' =>
            rw [records_cons_item]
            exact List.mem_cons_of_mem _ member
      rw [dropWhere, List.flatMap_cons]
      change _ ++ dropWhere p segs = _
      rw [ih later]
      cases seg with
      | gone => rfl
      | torn head len => rfl
      | item r =>
          have kept := none_ r (by rw [records_cons_item]; exact List.mem_cons_self)
          simp [kept]

theorem dropWhere_append (p : Record → Bool) (a b : List Seg) : dropWhere p (a ++ b) = dropWhere p a ++ dropWhere p b :=
  List.flatMap_append

theorem dropWhere_gones (p : Record → Bool) (count : Nat) : dropWhere p (gones count) = gones count := by
  refine dropWhere_none fun r member => ?_
  rw [records_gones] at member
  exact absurd member List.not_mem_nil

theorem dropWhere_erased {p : Record → Bool} {r : Record} (chosen : p r = true) (a b : List Seg) :
    dropWhere p (erased a r b) = dropWhere p (a ++ .item r :: b) := by
  have here : dropWhere p (.item r :: b) = gones (r.body.length + 1) ++ dropWhere p b := by
    rw [dropWhere, List.flatMap_cons]
    dsimp only
    rw [if_pos chosen]
    rfl
  rw [erased, dropWhere_append, dropWhere_append, dropWhere_gones, dropWhere_append, here, List.append_assoc]

theorem length_records_le (segs : List Seg) : (records segs).length ≤ size segs := by
  induction segs with
  | nil => exact Nat.le_refl _
  | cons seg segs ih =>
      have positive := size_pos seg
      rw [size_cons]
      cases isItem : Seg.isItem seg with
      | false =>
          rw [records_skip isItem]
          omega
      | true =>
          cases seg with
          | gone => exact absurd isItem (by decide)
          | torn head len => exact absurd isItem Bool.false_ne_true
          | item r =>
              rw [records_cons_item, List.length_cons]
              omega

theorem firstRecord_namespace {nsIndex : Byte} {rs : List Record} {e : EspErr}
    (failed : firstRecord nsIndex ItemType.ANY none rs = .error e) :
    e = .notFound ∧ ∀ r ∈ rs, Pages.inNamespace nsIndex r = false := by
  induction rs with
  | nil => exact ⟨(Except.error.inj failed).symm, nofun⟩
  | cons x rs ih =>
      rw [firstRecord, matchItem_namespace] at failed
      cases chosen : Pages.inNamespace nsIndex x with
      | true =>
          rw [chosen, if_pos rfl] at failed
          exact absurd failed (by simp)
      | false =>
          rw [chosen, if_neg (by decide)] at failed
          obtain ⟨notFound, later⟩ := ih failed
          refine ⟨notFound, fun r member => ?_⟩
          rcases List.mem_cons.mp member with rfl | inside
          · exact chosen
          · exact later r inside

theorem erase_namespace (slot : Slot) (nsIndex : Byte) :
    (slot.erase nsIndex ItemType.ANY none = (.error .notFound, slot) ∧
      ∀ r ∈ records slot.segs, Pages.inNamespace nsIndex r = false) ∨
    ∃ a r b, slot.segs = a ++ .item r :: b ∧ Pages.inNamespace nsIndex r = true ∧
      slot.erase nsIndex ItemType.ANY none = (.ok (), slot.withSegs (erased a r b)) := by
  cases scanned : scanFrom nsIndex ItemType.ANY none 0 slot.segs with
  | error e =>
      left
      have failed : firstRecord nsIndex ItemType.ANY none (records slot.segs) = .error e := by
        rw [← scanFrom_records, scanned]
        rfl
      obtain ⟨rfl, none_⟩ := firstRecord_namespace failed
      refine ⟨?_, none_⟩
      unfold Slot.erase
      rw [scanned]
  | ok x =>
      right
      obtain ⟨member, matched⟩ := scanFrom_mem scanned
      obtain ⟨a, b, split, place⟩ := located_split member
      rw [Nat.zero_add] at place
      refine ⟨a, x.2, b, split, ?_, ?_⟩
      · rw [matchItem_namespace] at matched
        by_contra other
        rw [if_neg other] at matched
        exact absurd matched (by simp)
      · unfold Slot.erase
        rw [scanned]
        dsimp only
        rw [place, split, dropAt_item]

def Slot.thin (nsIndex : Byte) (slot : Slot) : Slot := slot.withSegs (dropWhere (Pages.inNamespace nsIndex) slot.segs)

theorem wp_eraseAllLoop {nsIndex : Byte} {page : Fin n} (fuel : Nat) (are : Are env st.mPageManager f P) {slot₀ : Slot}
    (searchable : Slot.Searchable (P.slots page)) (thinned : Thinned nsIndex slot₀ (P.slots page))
    (enough : (records (P.slots page).segs).countP (Pages.inNamespace nsIndex) < fuel)
    (done : ∀ m' f', Thinned nsIndex slot₀ (Slot.thin nsIndex (P.slots page)) →
      Are env m' f' (P.set page (Slot.thin nsIndex (P.slots page))) → post (.ok ()) (withManager st m') f')
    (stop : ∀ f' slot, Thinned nsIndex slot₀ slot → Shown env f' (P.set page slot) → cut f') :
    Prog.wp FlashCall (Storage.eraseAllLoop env nsIndex page fuel) post cut st f := by
  induction fuel generalizing P st f with
  | zero => omega
  | succ fuel ih =>
      unfold Storage.eraseAllLoop
      have after := Thinned.step thinned
      refine wp_bind (wp_attempt (wp_storageErase are searchable ?_ ?_))
      · intro m₁ f₁ are₁
        unfold Pages.eraseFrom at are₁ ⊢
        rcases erase_namespace (P.slots page) nsIndex with ⟨none_, absent⟩ | ⟨a, r, b, split, chosen, some_⟩
        · rw [none_] at are₁ ⊢
          have same : Slot.thin nsIndex (P.slots page) = P.slots page := by
            unfold Slot.thin
            rw [dropWhere_none absent]
            cases P.slots page <;> rfl
          rw [same] at done
          exact wp_pure _ (done m₁ f₁ thinned are₁)
        · rw [some_] at are₁ after ⊢
          have notEmpty : (P.slots page).segs ≠ [] := by
            rw [split]
            simp
          have segs := withSegs_segs notEmpty (erased a r b)
          generalize slot' : (P.slots page).withSegs (erased a r b) = slot at are₁ after segs ⊢
          have slotAt : (P.set page slot).slots page = slot := set_slots_self _ _
          have same : Slot.thin nsIndex slot = Slot.thin nsIndex (P.slots page) := by
            unfold Slot.thin
            rw [segs, dropWhere_erased chosen, ← split, ← slot']
            cases P.slots page <;> rfl
          have kind : Slot.Searchable slot := by
            rw [← slot']
            cases isSlot : P.slots page with
            | blank seq => exact trivial
            | junk =>
                rw [isSlot] at searchable
                exact searchable
            | used st seq segs =>
                rw [isSlot] at searchable
                exact searchable
          refine ih (P := P.set page slot) (by exact are₁) (by rw [slotAt]; exact kind) (by rw [slotAt]; exact after) ?_ ?_ ?_
          · rw [slotAt, segs, erased, records_append, records_append, records_gones, List.append_nil, List.countP_append]
            rw [split, records_append, records_cons_item, List.countP_append, List.countP_cons_of_pos chosen] at enough
            omega
          · rw [slotAt, set_set, same]
            exact done
          · intro f' slot'' thinned' shown
            rw [set_set] at shown
            exact stop f' slot'' thinned' shown
      · intro f' shown
        exact stop f' _ after shown

def Pages.thinOn (P : Pages n) (nsIndex : Byte) (l : List (Fin n)) : Pages n :=
  { Pages.eraseNamespace { P with list := l } nsIndex with list := P.list }

structure NamespaceStage (nsIndex : Byte) (P Q : Pages n) : Prop where
  list : Q.list = P.list
  slots : ∀ i, Thinned nsIndex (P.slots i) (Q.slots i)
  others : ∀ i, i ∉ P.list → Q.slots i = P.slots i

theorem wp_erasePages {P₀ : Pages n} {nsIndex : Byte} (l : List (Fin n)) (distinct : l.Nodup)
    (are : Are env st.mPageManager f P) (sub : ∀ i ∈ l, i ∈ P₀.list)
    (searchable : ∀ i ∈ l, Slot.Searchable (P.slots i))
    (todo : ∀ i ∈ l, P.slots i = P₀.slots i) (stage : NamespaceStage nsIndex P₀ P)
    (done : ∀ m' f', Are env m' f' (Pages.thinOn P nsIndex l) → post (.ok ()) (withManager st m') f')
    (stop : ∀ f' Q, NamespaceStage nsIndex P₀ Q → Shown env f' Q → cut f') :
    Prog.wp FlashCall (Storage.erasePages env nsIndex l) post cut st f := by
  have limit : ENTRY_COUNT = 126 := rfl
  induction l generalizing P st f with
  | nil => exact wp_pure _ (done _ f are)
  | cons page rest ih =>
      have here := searchable page List.mem_cons_self
      have inside := sub page List.mem_cons_self
      have few : (records (P.slots page).segs).countP (Pages.inNamespace nsIndex) < ENTRY_COUNT + 1 := by
        have count := List.countP_le_length (p := Pages.inNamespace nsIndex) (l := records (P.slots page).segs)
        have length := length_records_le (P.slots page).segs
        have is_ := are.pages page
        cases slot : P.slots page with
        | blank seq =>
            rw [slot] at count length
            exact Nat.lt_succ_of_le (Nat.le_trans (Nat.le_trans count length) (Nat.zero_le _))
        | junk =>
            rw [slot] at here
            exact here.elim
        | used st' seq segs =>
            rw [slot] at is_ count length
            have fits := (UsedPage.clean is_).fits
            change _ ≤ size segs at length
            omega
      have moved (slot : Slot) (thinned : Thinned nsIndex (P₀.slots page) slot) :
          NamespaceStage nsIndex P₀ (P.set page slot) := by
        refine ⟨stage.list, fun i => ?_, fun i outside => ?_⟩
        · by_cases same : i = page
          · subst same
            rw [set_slots_self]
            exact thinned
          · rw [set_slots_other same]
            exact stage.slots i
        · rw [set_slots_other (fun same => outside (by rw [same]; exact inside))]
          exact stage.others i outside
      have start := todo page List.mem_cons_self
      unfold Storage.erasePages
      refine wp_bind (wp_eraseAllLoop _ are here (by rw [start]; exact .same) few ?_ ?_)
      · intro m₁ f₁ all are₁
        have notRest := (List.nodup_cons.mp distinct).1
        have other {i : Fin n} (member : i ∈ rest) : (P.set page (Slot.thin nsIndex (P.slots page))).slots i = P.slots i :=
          set_slots_other (ne_of_mem_of_not_mem member notRest) _
        refine ih (P := P.set page (Slot.thin nsIndex (P.slots page))) (List.nodup_cons.mp distinct).2 (by exact are₁)
          (fun i member => sub i (List.mem_cons_of_mem _ member)) ?_ ?_ (moved _ all) ?_
        · intro i member
          rw [other member]
          exact searchable i (List.mem_cons_of_mem _ member)
        · intro i member
          rw [other member]
          exact todo i (List.mem_cons_of_mem _ member)
        · have eq : Pages.thinOn (P.set page (Slot.thin nsIndex (P.slots page))) nsIndex rest =
              Pages.thinOn P nsIndex (page :: rest) := by
            have slots (i : Fin n) :
                (if i ∈ rest then Slot.thin nsIndex ((P.set page (Slot.thin nsIndex (P.slots page))).slots i)
                  else (P.set page (Slot.thin nsIndex (P.slots page))).slots i) =
                if i ∈ page :: rest then Slot.thin nsIndex (P.slots i) else P.slots i := by
              by_cases same : i = page
              · subst same
                rw [if_neg notRest, if_pos List.mem_cons_self, set_slots_self]
              · rw [set_slots_other same]
                by_cases member : i ∈ rest
                · rw [if_pos member, if_pos (List.mem_cons_of_mem _ member)]
                · rw [if_neg member, if_neg (by simp [same, member])]
            exact congrArg (fun slots => ({ P with slots } : Pages n)) (funext slots)
          rw [eq]
          exact done
      · intro f' slot thinned shown
        exact stop f' _ (moved slot thinned) shown

theorem wp_storageEraseNamespace {nsIndex : Byte} (usable : Usable env P) (active : st.mState = .active)
    (are : Are env st.mPageManager f P)
    (done : ∀ m' f', Are env m' f' (P.eraseNamespace nsIndex) → post (.ok ()) (withManager st m') f')
    (stop : ∀ f' Q, NamespaceStage nsIndex P Q → Shown env f' Q → cut f') :
    Prog.wp FlashCall (Storage.eraseNamespace env nsIndex) post cut st f := by
  unfold Storage.eraseNamespace
  refine wp_bind (wp_requireActive active (wp_bind (wp_get ?_)))
  dsimp only
  rw [are.list]
  exact wp_erasePages P.list usable.distinctList are (fun _ member => member) (fun i member => usable.searchable member)
    (fun _ _ => rfl) ⟨rfl, fun _ => .same, fun _ _ => rfl⟩ done stop

end

end

end EspFirmware.Proof.Nvs
