import EspFirmware.Proof.Nvs.Slots
import Mathlib.Data.List.Nodup

/-!
`activatePage` and `requestNewPage` by what they do to the pages.
-/

namespace EspFirmware.Proof.Nvs
open EspFirmware.Nvs EspFirmware.Spec EspFirmware.Lib Prog

variable {env : Env} {n : Nat}

structure Are (env : Env) (m : PageManager n) (f : Flash n) (P : Pages n) : Prop where
  pages : ∀ i, PageIs env (m.mPages i) (f i) (P.slots i)
  list : m.mPageList = P.list
  free : m.mFreePageList = P.free
  next : m.mSeqNumber = P.next

def Shown (env : Env) (f : Flash n) (P : Pages n) : Prop := ∀ i, Shows env (f i) ((P.slots i).reload env)

abbrev withPage (m : PageManager n) (i : Fin n) (pg : Page) : PageManager n :=
  { m with mPages := Function.update m.mPages i pg }

section
variable {m : PageManager n} {f : Flash n} {P : Pages n}

theorem Are.shown (are : Are env m f P) : Shown env f P := fun i => (are.pages i).shows

theorem Are.set (are : Are env m f P) {i : Fin n} {pg : Page} {s : Sector} {slot : Slot} (page : PageIs env pg s slot) :
    Are env (withPage m i pg) (Function.update f i s) (P.set i slot) := by
  refine ⟨fun j => ?_, are.list, are.free, are.next⟩
  dsimp only [withPage, Pages.set]
  by_cases same : j = i
  · subst same
    rw [Function.update_self, Function.update_self, Function.update_self]
    exact page
  · rw [Function.update_of_ne same, Function.update_of_ne same, Function.update_of_ne same]
    exact are.pages j

theorem Shown.set (shown : Shown env f P) {i : Fin n} {s : Sector} {slot : Slot} (shows : Shows env s (slot.reload env)) :
    Shown env (Function.update f i s) (P.set i slot) := by
  intro j
  dsimp only [Pages.set]
  by_cases same : j = i
  · subst same
    rw [Function.update_self, Function.update_self]
    exact shows
  · rw [Function.update_of_ne same, Function.update_of_ne same]
    exact shown j

theorem Shown.congr {Q : Pages n} (shown : Shown env f P) (same : Q.slots = P.slots) : Shown env f Q := by
  intro i
  rw [same]
  exact shown i

theorem flashCall_lift {f : Flash n} {i : Fin n} (x : Sector) (steps : List Sector) (now : SectorCall x steps) :
    FlashCall (Function.update f i x) (steps.map fun y => Function.update f i y) := by
  refine ⟨i, steps, ?_, ?_⟩
  · rw [Function.update_self]
    exact now
  · simp only [Function.update_idem]

theorem wp_onPage {α : Type} {i : Fin n} {p : Page.PageM α} {post : Outcome EspErr α → PageManager n → Flash n → Prop}
    {cut : Flash n → Prop}
    (run : wp p (fun o pg s => post o (withPage m i pg) (Function.update f i s)) (fun s => cut (Function.update f i s))
      (m.mPages i) (f i)) :
    Prog.wp FlashCall (PageManager.onPage i p) post cut m f :=
  wp_zoom (Function.update_eq_self i f) flashCall_lift run

end

def Slot.Unused : Slot → Prop
  | .used _ _ _ => False
  | _ => True

section
variable {post : Outcome EspErr Unit → PageManager n → Flash n → Prop} {cut : Flash n → Prop} {m : PageManager n}
  {f : Flash n} {P : Pages n}

theorem wp_back {post : Outcome EspErr (Fin n) → PageManager n → Flash n → Prop} (are : Are env m f P) {page : Fin n}
    (last_ : P.list.getLast? = some page) (done : post (.ok page) m f) :
    Prog.wp FlashCall PageManager.back post cut m f := by
  unfold PageManager.back
  refine wp_bind (wp_get ?_)
  dsimp only
  rw [are.list, last_]
  exact wp_pure _ done

theorem Are.activated (are : Are env m f P) (p : Fin n) (rest : List (Fin n)) {seq : Word} (blank_ : P.slots p = .blank seq) :
    Are env
      { m with mFreePageList := rest, mPageList := m.mPageList ++ [p],
               mPages := Function.update m.mPages p ((m.mPages p).setSeqNumber m.mSeqNumber),
               mSeqNumber := m.mSeqNumber + 1 }
      f (P.activate p rest) := by
  refine ⟨fun j => ?_, ?_, rfl, ?_⟩
  · dsimp only [Pages.activate]
    by_cases same : j = p
    · subst same
      have page := are.pages j
      rw [blank_] at page
      obtain ⟨isBlank, -, empty⟩ := page
      rw [Function.update_self, Function.update_self, Page.setSeqNumber, if_pos isBlank.state]
      exact ⟨⟨isBlank.state, isBlank.used, isBlank.erased, isBlank.first, isBlank.hash⟩, are.next, empty⟩
    · rw [Function.update_of_ne same, Function.update_of_ne same]
      exact are.pages j
  · dsimp only [Pages.activate]
    rw [are.list]
  · dsimp only [Pages.activate]
    rw [are.next]

theorem activate_set (p : Fin n) (rest : List (Fin n)) (slot : Slot) :
    (P.set p slot).activate p rest = P.activate p rest := by
  unfold Pages.activate Pages.set
  dsimp only
  rw [Function.update_idem]

theorem wp_activatePage (are : Are env m f P) {p : Fin n} {rest : List (Fin n)} (some_ : P.free = p :: rest)
    (unused : Slot.Unused (P.slots p)) (done : ∀ m' f', Are env m' f' (P.activate p rest) → post (.ok ()) m' f')
    (stop : ∀ f', Shown env f' (P.activate p rest) → cut f') :
    Prog.wp FlashCall PageManager.activatePage post cut m f := by
  unfold PageManager.activatePage
  refine wp_bind (wp_get ?_)
  dsimp only
  rw [are.free, some_]
  dsimp only
  have page := are.pages p
  cases slot : P.slots p with
  | used st seq segs =>
      rw [slot] at unused
      exact unused.elim
  | blank seq =>
      rw [slot] at page
      have state : (m.mPages p).mState ≠ .corrupt := by
        rw [page.1.state]
        decide
      rw [if_neg state]
      exact wp_modify (done _ _ (are.activated _ _ slot))
  | junk =>
      rw [slot] at page
      rw [if_pos page.1]
      have erased_ : Shown env (Function.update f p erasedSector) (P.set p (.blank P.next)) := are.shown.set rfl
      refine wp_bind (wp_onPage (wp_erasePage ?_ (stop _ ?_)))
      · intro pg' blank_ number
        have blankPage : PageIs env pg' erasedSector (.blank (m.mPages p).mSeqNumber) := ⟨blank_, number, rfl⟩
        have set := are.set (i := p) blankPage
        have activated := set.activated p rest (Function.update_self _ _ _)
        rw [activate_set] at activated
        exact wp_modify (done _ _ activated)
      · exact erased_.congr rfl

def Pages.emptied (P : Pages n) (page target : Fin n) : Pages n :=
  (P.set target (P.moved page target)).set page (.blank (P.slots page).seq)

theorem wp_freePage (are : Are env m f P) {page target : Fin n} (last_ : P.list.getLast? = some target)
    (other : page ≠ target) {st : PageState} {seq seq' : Word} {segs : List Seg} (used : P.slots page = .used st seq segs)
    (empty : P.slots target = .blank seq')
    (done : ∀ m' f', Are env m' f' (Pages.emptied P page target) → post (.ok ()) m' f')
    (copying : ∀ f' slot', CopyStage seq' segs slot' → Shown env f' (P.set target slot') → cut f')
    (erased_ : ∀ f', Shown env f' (Pages.emptied P page target) → cut f') :
    Prog.wp FlashCall (PageManager.freePage env page) post cut m f := by
  have source := are.pages page
  rw [used] at source
  have source : UsedPage env (m.mPages page) (f page) st seq segs := source
  have into := are.pages target
  rw [empty] at into
  -- the erasure that follows the copy
  have finish (pg : Page) (s : Sector) (moved : PageIs env pg s (P.moved page target)) :
      Prog.wp FlashCall (PageManager.onPage page Page.erase) post cut (withPage m target pg) (Function.update f target s) := by
    have after := are.set (i := target) moved
    have number : (Function.update m.mPages target pg page).mSeqNumber = (P.slots page).seq := by
      rw [Function.update_of_ne other, used]
      exact source.number
    refine wp_onPage (wp_erasePage ?_ ?_)
    · intro pg' blank_ sameNumber
      exact done _ _ (after.set ⟨blank_, sameNumber.trans number, rfl⟩)
    · exact erased_ _ (after.shown.set rfl)
  have moved : P.moved page target = if records segs = [] then .blank seq' else .used .active seq' (items segs) := by
    unfold Pages.moved
    rw [used, empty]
    rfl
  unfold PageManager.freePage
  refine wp_bind (wp_back are last_ (wp_bind (wp_get (wp_bind (wp_read ?_)))))
  dsimp only
  refine wp_bind (wp_attempt (wp_onPage (wp_copySlot source into ?_ ?_ ?_)))
  · intro nothing
    dsimp only
    rw [if_pos nothing, ← empty] at moved
    exact finish _ _ (by rw [moved]; exact are.pages target)
  · intro some_ pg' s' copied
    dsimp only
    rw [if_neg some_] at moved
    exact finish pg' s' (by rw [moved]; exact copied)
  · intro s' slot' stage shows
    exact copying _ slot' stage (are.shown.set shows)

theorem size_items_records (segs : List Seg) : size (items segs) = ((records segs).map Record.size).sum := by
  induction segs with
  | nil => rfl
  | cons seg segs ih =>
      cases isItem : Seg.isItem seg with
      | false =>
          rw [records_skip isItem, ← ih, items, List.filter_cons_of_neg (by simp [isItem])]
          rfl
      | true =>
          cases seg with
          | gone => exact absurd isItem (by decide)
          | torn head len => exact absurd isItem Bool.false_ne_true
          | item r =>
              rw [records_cons_item, List.map_cons, List.sum_cons, ← ih, items, List.filter_cons_of_pos rfl, size_cons]
              rfl

def Slot.Open : Slot → Prop
  | .used st _ _ => st = .active ∨ st = .full
  | _ => False

def Pages.freeing (P : Pages n) (page : Fin n) : Pages n := P.set page ((P.slots page).withState .freeing)

inductive RequestStage (P : Pages n) : Pages n → Prop where
  | activated {p : Fin n} {rest : List (Fin n)} (some_ : P.free = p :: rest) : RequestStage P (P.activate p rest)
  | freeing {p page : Fin n} (one : P.free = [p]) (most : P.mostUnused = some page) :
      RequestStage P (Pages.freeing (P.activate p []) page)
  | copying {p page : Fin n} {slot : Slot} (one : P.free = [p]) (most : P.mostUnused = some page)
      (stage : CopyStage P.next (P.slots page).segs slot) :
      RequestStage P ((Pages.freeing (P.activate p []) page).set p slot)
  | done {Q : Pages n} (ok : P.requestNewPage = .ok Q) : RequestStage P Q

theorem mostUnused_mem {page : Fin n} (most : P.mostUnused = some page) : page ∈ P.list := by
  have run (l : List (Fin n)) (best : Option (Fin n) × Nat) (inside : ∀ i, best.1 = some i → i ∈ P.list)
      (sub : ∀ i ∈ l, i ∈ P.list) (i : Fin n)
      (found : (l.foldl (fun best page =>
        if best.2 < ENTRY_COUNT - (P.slots page).inUse then (some page, ENTRY_COUNT - (P.slots page).inUse)
        else best) best).1 = some i) : i ∈ P.list := by
    induction l generalizing best with
    | nil => exact inside i found
    | cons x l ih =>
        refine ih _ ?_ (fun j member => sub j (List.mem_cons_of_mem _ member)) found
        intro j
        dsimp only
        split
        · intro same
          rw [← Option.some.inj same]
          exact sub x List.mem_cons_self
        · exact inside j
  exact run P.list (none, 0) (fun i none_ => absurd none_ (by simp)) (fun i member => member) page most

theorem maxUnusedPage_eq (are : Are env m f P) (opened : ∀ i ∈ P.list, Slot.Open (P.slots i)) :
    (PageManager.maxUnusedPage m).1 = P.mostUnused := by
  have limit : ENTRY_COUNT = 126 := rfl
  unfold PageManager.maxUnusedPage Pages.mostUnused
  rw [are.list]
  congr 1
  refine List.foldl_ext _ _ _ fun best page member => ?_
  have used : (m.mPages page).mUsedEntryCount = (P.slots page).inUse := by
    refine (are.pages page).inUse ?_
    intro junk
    have isOpen := opened page member
    rw [junk] at isOpen
    exact isOpen
  have small : (m.mPages page).mUsedEntryCount ≤ ENTRY_COUNT := by
    have isOpen := opened page member
    have is_ := are.pages page
    cases slot : P.slots page with
    | blank seq =>
        rw [slot] at isOpen
        exact isOpen.elim
    | junk =>
        rw [slot] at isOpen
        exact isOpen.elim
    | used st seq segs =>
        rw [slot] at is_
        rw [(UsedPage.clean is_).sync.used]
        exact usedCount_le _
  have unused : (ENTRY_COUNT + 2 ^ 32 - (m.mPages page).mUsedEntryCount) % 2 ^ 32 = ENTRY_COUNT - (P.slots page).inUse := by
    rw [← used]
    omega
  dsimp only
  rw [unused]

theorem items_items (segs : List Seg) : items (items segs) = items segs := by
  rw [items, items, List.filter_filter]
  simp only [Bool.and_self]

theorem inUse_moved {page target : Fin n} {seq : Word} (empty : P.slots target = .blank seq) :
    (P.moved page target).inUse = (P.slots page).inUse := by
  unfold Pages.moved
  have sizes : size (items (P.slots page).segs) = ((records (P.slots page).segs).map Record.size).sum :=
    size_items_records _
  split
  · rename_i nothing
    rw [empty, Slot.inUse, Slot.inUse, sizes, nothing]
    rfl
  · exact congrArg size (items_items (P.slots page).segs)

theorem recycled {page target : Fin n} (other : page ≠ target) :
    (P.recycle page target).slots = (Pages.emptied (Pages.freeing P page) page target).slots := by
  have segs : ((Pages.freeing P page).slots page).segs = (P.slots page).segs ∧
      ((Pages.freeing P page).slots page).seq = (P.slots page).seq := by
    unfold Pages.freeing Pages.set
    dsimp only
    rw [Function.update_self]
    cases P.slots page <;> exact ⟨rfl, rfl⟩
  have into : (Pages.freeing P page).slots target = P.slots target := Function.update_of_ne other.symm _ _
  have moved : Pages.moved (Pages.freeing P page) page target = P.moved page target := by
    unfold Pages.moved
    rw [segs.1, into]
  unfold Pages.emptied
  rw [moved, segs.2]
  funext j
  unfold Pages.recycle Pages.freeing Pages.set
  dsimp only
  by_cases here : j = page
  · subst here
    rw [Function.update_self, Function.update_self]
  · rw [Function.update_of_ne here, Function.update_of_ne here]
    by_cases there : j = target
    · subst there
      rw [Function.update_self, Function.update_self]
    · rw [Function.update_of_ne there, Function.update_of_ne there, Function.update_of_ne here]

theorem wp_requestNewPage (are : Are env m f P) (distinct : (P.list ++ P.free).Nodup)
    (opened : ∀ i ∈ P.list, Slot.Open (P.slots i)) (unused : ∀ i ∈ P.free, Slot.Unused (P.slots i))
    (failed : ∀ e, P.requestNewPage = .error e → post (.err e) m f)
    (done : ∀ m' f' Q, P.requestNewPage = .ok Q → Are env m' f' Q → post (.ok ()) m' f')
    (stop : ∀ f' Q, RequestStage P Q → Shown env f' Q → cut f') :
    Prog.wp FlashCall (PageManager.requestNewPage env) post cut m f := by
  unfold PageManager.requestNewPage
  refine wp_bind (wp_get ?_)
  dsimp only
  rw [are.free, maxUnusedPage_eq are opened]
  cases free : P.free with
  | nil =>
      rw [if_pos rfl]
      refine wp_bind (wp_throw _ (failed _ ?_))
      unfold Pages.requestNewPage
      rw [free]
  | cons p rest =>
      rw [if_neg (List.cons_ne_nil _ _)]
      have takes := unused p (by rw [free]; exact List.mem_cons_self)
      cases rest with
      | cons q rest =>
          rw [if_pos (by simp)]
          have ok : P.requestNewPage = .ok (P.activate p (q :: rest)) := by
            unfold Pages.requestNewPage
            rw [free]
          exact wp_activatePage are free takes (fun m' f' after => done m' f' _ ok after)
            fun f' shown => stop f' _ (.activated free) shown
      | nil =>
          rw [if_neg (by simp)]
          cases most : P.mostUnused with
          | none =>
              refine wp_throw _ (failed _ ?_)
              unfold Pages.requestNewPage
              rw [free]
              dsimp only
              rw [most]
          | some page =>
              have ok : P.requestNewPage = .ok ((P.activate p []).recycle page p) := by
                unfold Pages.requestNewPage
                rw [free]
                dsimp only
                rw [most]
              have member := mostUnused_mem most
              have other : page ≠ p := by
                rintro rfl
                rw [free] at distinct
                exact (List.nodup_append.mp distinct).2.2 page member page List.mem_cons_self rfl
              have isOpen := opened page member
              obtain ⟨st, seq, segs, slot, either⟩ : ∃ st seq segs, P.slots page = .used st seq segs ∧
                  (st = .active ∨ st = .full) := by
                cases slot : P.slots page with
                | blank seq =>
                    rw [slot] at isOpen
                    exact isOpen.elim
                | junk =>
                    rw [slot] at isOpen
                    exact isOpen.elim
                | used st seq segs =>
                    rw [slot] at isOpen
                    exact ⟨st, seq, segs, rfl, isOpen⟩
              have slotAfter : (P.activate p []).slots page = .used st seq segs := by
                unfold Pages.activate
                dsimp only
                rw [Function.update_of_ne other, slot]
              have freeingEq : Pages.freeing (P.activate p []) page = (P.activate p []).set page (.used .freeing seq segs) := by
                unfold Pages.freeing
                rw [slotAfter]
                rfl
              have freeingSlot : (Pages.freeing (P.activate p []) page).slots page = .used .freeing seq segs := by
                rw [freeingEq]
                exact Function.update_self _ _ _
              have freeingBlank : (Pages.freeing (P.activate p []) page).slots p = .blank P.next := by
                rw [freeingEq]
                refine (Function.update_of_ne other.symm _ _).trans ?_
                exact Function.update_self _ _ _
              have last_ : (Pages.freeing (P.activate p []) page).list.getLast? = some p := List.getLast?_concat
              refine wp_bind (wp_activatePage are free takes ?_ fun f' shown => stop f' _ (.activated free) shown)
              intro m₁ f₁ are₁
              have is₁ := are₁.pages page
              rw [slotAfter] at is₁
              refine wp_bind (wp_get ?_)
              dsimp only
              refine wp_bind (wp_onPage (wp_markFreeing is₁ either ?_ ?_))
              · intro pg₂ s₂ marked
                have are₂ : Are env (withPage m₁ page pg₂) (Function.update f₁ page s₂)
                    (Pages.freeing (P.activate p []) page) := by
                  rw [freeingEq]
                  exact are₁.set marked
                refine wp_bind (wp_freePage are₂ last_ other freeingSlot freeingBlank ?_ ?_ ?_)
                · intro m₃ f₃ are₃
                  refine wp_bind (wp_back are₃ last_ (wp_bind (wp_get ?_)))
                  have before : (m₁.mPages page).mUsedEntryCount = (P.slots page).inUse := by
                    rw [slot]
                    exact (UsedPage.clean is₁).inUse
                  have same : ((Pages.freeing (P.activate p []) page).slots page).inUse = (P.slots page).inUse := by
                    rw [freeingSlot, slot]
                    rfl
                  have copied : (m₃.mPages p).mUsedEntryCount = (P.slots page).inUse := by
                    rw [← same, ← inUse_moved freeingBlank]
                    have is₃ := are₃.pages p
                    unfold Pages.emptied Pages.set at is₃
                    dsimp only at is₃
                    rw [Function.update_of_ne other.symm, Function.update_self] at is₃
                    refine is₃.inUse ?_
                    unfold Pages.moved
                    rw [freeingBlank]
                    split <;> simp
                  refine wp_bind (wp_assert (before.trans copied.symm) (wp_modify ?_))
                  refine done _ _ _ ok ⟨fun j => ?_, ?_, ?_, are₃.next⟩
                  · rw [recycled other]
                    exact are₃.pages j
                  · unfold PageManager.moveToFree
                    dsimp only
                    rw [are₃.list]
                    rfl
                  · unfold PageManager.moveToFree
                    dsimp only
                    rw [are₃.free]
                    rfl
                · intro f' slot' stage shown
                  refine stop f' _ (.copying free most ?_) shown
                  rw [slot]
                  exact stage
                · intro f' shown
                  exact stop f' _ (.done ok) (shown.congr (recycled other))
              · intro s' shows
                refine stop _ _ (.freeing free most) ?_
                rw [freeingEq]
                exact are₁.shown.set shows

end

end EspFirmware.Proof.Nvs
