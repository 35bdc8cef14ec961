import EspFirmware.Proof.Nvs.StorageOps
import EspFirmware.Spec.StoreRun

/-!
`PageManager::load`: what is done with the pages a restart finds.
-/

namespace EspFirmware.Proof.Nvs
open EspFirmware.Nvs EspFirmware.Spec EspFirmware.Lib Prog

variable {env : Env} {n : Nat}

def ShownAs (env : Env) (f : Flash n) (slots : Fin n → Slot) : Prop := ∀ i, Shows env (f i) (slots i)

theorem loaded_idem (st : PageState) (segs : List Seg) (tail : Tail) :
    loaded env st (loaded env st segs tail) .free = loaded env st segs tail := by
  have whole : Whole (settled segs ++ settleTail tail) := Whole.append.mpr ⟨whole_settled segs, whole_settleTail tail⟩
  by_cases active : st = .active
  · subst active
    rw [loaded_active segs, loaded_whole _ (whole_lastByHash whole), if_pos rfl, lastByHash_distinct (distinct_lastByHash _)]
  · have plain : loaded env st segs tail = settled segs ++ settleTail tail := if_neg active
    rw [plain, loaded_whole _ whole, if_neg active]

theorem Shows.stable {s : Sector} {slot : Slot} (shows : Shows env s slot) : slot.reload env = slot := by
  cases slot with
  | blank seq => rfl
  | junk => rfl
  | used st seq segs =>
      obtain ⟨-, segs₀, tail, -, -, rfl⟩ := shows
      exact congrArg _ (loaded_idem st segs₀ tail)

theorem shows_restart {s : Sector} {slot : Slot} : Shows env s slot.restart ↔ Shows env s slot := by
  cases slot with
  | blank seq => exact Iff.rfl
  | junk => exact Iff.rfl
  | used st seq segs => exact Iff.rfl

theorem reload_restart (slot : Slot) : slot.restart.reload env = (slot.reload env).restart := by
  cases slot with
  | blank seq => rfl
  | junk => rfl
  | used st seq segs => rfl

theorem PageIs.showsAgain {pg : Page} {s s' : Sector} {slot : Slot} (shows : Shows env s slot)
    (page : PageIs env pg s' slot.restart) : Shows env s' slot := by
  have now := page.shows
  rw [reload_restart, shows.stable] at now
  exact shows_restart.mp now

theorem takeWhile_congr {α : Type} {p q : α → Bool} {l : List α} (same : ∀ x ∈ l, p x = q x) :
    l.takeWhile p = l.takeWhile q ∧ l.dropWhile p = l.dropWhile q := by
  induction l with
  | nil => exact ⟨rfl, rfl⟩
  | cons x l ih =>
      obtain ⟨take, drop⟩ := ih fun y member => same y (List.mem_cons_of_mem _ member)
      rw [List.takeWhile_cons, List.takeWhile_cons, List.dropWhile_cons, List.dropWhile_cons, same x List.mem_cons_self,
        take, drop]
      exact ⟨rfl, rfl⟩

section
variable {post : Outcome EspErr Unit → PageManager n → Flash n → Prop} {cut : Flash n → Prop} {m : PageManager n}
  {f : Flash n} {slots : Fin n → Slot}

structure Loading (env : Env) (slots : Fin n → Slot) (todo : List (Fin n)) (m : PageManager n) (f : Flash n) (P : Pages n) :
    Prop where
  shown : ShownAs env f slots
  loaded : ∀ i, i ∉ todo → PageIs env (m.mPages i) (f i) (slots i).restart
  fresh : ∀ i ∈ todo, m.mPages i = Page.fresh env
  restarted : P.slots = fun i => (slots i).restart
  list : m.mPageList = P.list
  free : m.mFreePageList = P.free
  next : m.mSeqNumber = P.next
  used : ∀ i ∈ P.list, (slots i).isUsed = true ∧ i ∉ todo

theorem getSeqNumber_used {pg : Page} {s : Sector} {st : PageState} {seq : Word} {segs : List Seg} (searched : Searched st)
    (page : UsedPage env pg s st seq segs) : pg.getSeqNumber = some seq := by
  unfold Page.getSeqNumber
  rw [page.state, page.number]
  rcases searched with rfl | rfl | rfl <;> rfl

def Slot.Found (slot : Slot) : Prop := Slot.Searchable slot ∨ slot = .junk

theorem Slot.Found.searched {st : PageState} {seq : Word} {segs : List Seg} (found : Slot.Found (.used st seq segs)) :
    Searched st := by
  rcases found with searched | junk
  · exact searched
  · exact absurd junk (by simp)

theorem wp_loadPages {P : Pages n} (todo : List (Fin n)) (distinct : todo.Nodup) (found : ∀ i, Slot.Found (slots i))
    (loading : Loading env slots todo m f P)
    (done : ∀ m' f', ShownAs env f' slots → Are env m' f' (Pages.arrangeOn slots P todo) → post (.ok ()) m' f')
    (stop : ∀ f', ShownAs env f' slots → cut f') :
    Prog.wp FlashCall (PageManager.loadPages env todo) post cut m f := by
  induction todo generalizing m f P with
  | nil =>
      refine wp_pure _ (done m f loading.shown ⟨fun i => ?_, loading.list, loading.free, loading.next⟩)
      rw [Pages.arrangeOn, loading.restarted]
      exact loading.loaded i List.not_mem_nil
  | cons i rest ih =>
      obtain ⟨notRest, restDistinct⟩ := List.nodup_cons.mp distinct
      have shown (s : Sector) (shows : Shows env s (slots i)) : ShownAs env (Function.update f i s) slots := by
        intro j
        by_cases same : j = i
        · subst same
          rw [Function.update_self]
          exact shows
        · rw [Function.update_of_ne same]
          exact loading.shown j
      unfold PageManager.loadPages
      refine wp_bind (wp_onPage ?_)
      rw [loading.fresh i List.mem_cons_self]
      refine wp_loadSlot (loading.shown i) (found i) ?_ fun s' shows => stop _ (shown s' shows)
      intro pg s' page
      have shows := page.showsAgain (loading.shown i)
      have loaded (j : Fin n) (outside : j ∉ rest) :
          PageIs env (Function.update m.mPages i pg j) (Function.update f i s' j) (slots j).restart := by
        by_cases same : j = i
        · subst same
          rw [Function.update_self, Function.update_self]
          exact page
        · rw [Function.update_of_ne same, Function.update_of_ne same]
          exact loading.loaded j (by simp [same, outside])
      have fresh (j : Fin n) (inside : j ∈ rest) : Function.update m.mPages i pg j = Page.fresh env := by
        rw [Function.update_of_ne (ne_of_mem_of_not_mem inside notRest)]
        exact loading.fresh j (List.mem_cons_of_mem _ inside)
      refine wp_bind (wp_modify ?_)
      dsimp only
      rw [Function.update_self]
      have later (j : Fin n) (member : j ∈ P.list) : (slots j).isUsed = true ∧ j ∉ rest := by
        obtain ⟨used, outside⟩ := loading.used j member
        exact ⟨used, fun inside => outside (List.mem_cons_of_mem _ inside)⟩
      -- a page that is not in use goes to the free list
      have unused (isUsed : (slots i).isUsed = false) :
          Prog.wp FlashCall (PageManager.loadPages env rest) post cut
            { m with mPages := Function.update m.mPages i pg, mFreePageList := m.mFreePageList ++ [i] }
            (Function.update f i s') := by
        have eq : Pages.arrangeOn slots P (i :: rest) = Pages.arrangeOn slots { P with free := P.free ++ [i] } rest := by
          rw [Pages.arrangeOn, if_neg (by rw [isUsed]; decide)]
        rw [eq] at done
        refine ih (P := { P with free := P.free ++ [i] }) restDistinct
          ⟨shown s' shows, loaded, fresh, loading.restarted, loading.list, ?_, loading.next, later⟩ done
        dsimp only
        rw [loading.free]
      cases slot : slots i with
      | blank seq =>
          rw [slot] at page
          have none_ : pg.getSeqNumber = none := by
            unfold Page.getSeqNumber
            rw [page.1.state]
            rfl
          rw [none_]
          exact unused (by rw [slot]; rfl)
      | junk =>
          rw [slot] at page
          have none_ : pg.getSeqNumber = none := by
            unfold Page.getSeqNumber
            rw [page.1]
            rfl
          rw [none_]
          exact unused (by rw [slot]; rfl)
      | used st seq segs =>
          have kind := found i
          rw [slot] at page kind
          have number : pg.getSeqNumber = some seq := getSeqNumber_used kind.searched page
          have eq : Pages.arrangeOn slots P (i :: rest) =
              Pages.arrangeOn slots { P with list := Pages.insert slots i P.list } rest := by
            rw [Pages.arrangeOn, slot]
            rfl
          rw [number]
          rw [eq] at done
          have order : PageManager.insertPage (Function.update m.mPages i pg) i seq m.mPageList =
              Pages.insert slots i P.list := by
            have lower (j : Fin n) (member : j ∈ P.list) :
                (((Function.update m.mPages i pg j).getSeqNumber).all fun other => decide (other ≤ seq)) =
                  decide ((slots j).seq ≤ (slots i).seq) := by
              obtain ⟨used, outside⟩ := loading.used j member
              have other : j ≠ i := fun same => outside (by rw [same]; exact List.mem_cons_self)
              rw [Function.update_of_ne other, slot]
              have is_ := loading.loaded j outside
              have kind' := found j
              cases slot' : slots j with
              | blank seq' =>
                  rw [slot'] at used
                  exact absurd used Bool.false_ne_true
              | junk =>
                  rw [slot'] at used
                  exact absurd used Bool.false_ne_true
              | used st' seq' segs' =>
                  rw [slot'] at is_ kind'
                  rw [getSeqNumber_used kind'.searched is_]
                  rfl
            obtain ⟨take, drop⟩ := takeWhile_congr lower
            unfold PageManager.insertPage Pages.insert
            dsimp only
            rw [loading.list, take, drop]
          refine ih (P := { P with list := Pages.insert slots i P.list }) restDistinct
            ⟨shown s' shows, loaded, fresh, loading.restarted, order, loading.free, loading.next, ?_⟩ done
          intro j member
          unfold Pages.insert at member
          dsimp only at member
          rcases List.mem_append.mp member with early | late
          · exact later j (List.takeWhile_subset _ early)
          · rcases List.mem_cons.mp late with rfl | after
            · rw [slot]
              exact ⟨rfl, notRest⟩
            · exact later j (List.dropWhile_subset _ after)

theorem firstMatch_any (xs : List (Nat × Record)) : firstMatch NS_ANY ItemType.ANY none xs =
    match xs with
    | [] => .error .notFound
    | x :: _ => .ok x := by
  cases xs with
  | nil => rfl
  | cons x xs => rw [firstMatch, matchItem_any]

theorem wp_lastItemLoop {post : Outcome EspErr (Option Item) → PageManager n → Flash n → Prop} {page : Fin n}
    {st : PageState} {seq : Word} {segs : List Seg} (searched : Searched st)
    (is_ : UsedPage env (m.mPages page) (f page) st seq segs) (fuel : Nat) (before rest : List Seg)
    (split : segs = before ++ rest) (enough : (records rest).length < fuel) (last_ : Option Item)
    (reached : last_ = (records before).getLast?.map Record.head)
    (done : post (.ok ((records segs).getLast?.map Record.head)) m f) :
    Prog.wp FlashCall (PageManager.lastItemLoop env page fuel (size before) last_) post cut m f := by
  induction fuel generalizing before rest last_ with
  | zero => omega
  | succ fuel ih =>
      unfold PageManager.lastItemLoop
      have boundary : Boundary segs (size before) := ⟨before, rest, split, Or.inl rfl⟩
      refine wp_bind (wp_onPage (wp_findItem is_.clean (by rw [is_.state]; exact searched) boundary _ ?_))
      intro found finds sameItem
      have self : withPage m page (m.mPages page) = m := by
        unfold withPage
        rw [Function.update_eq_self]
      dsimp only
      rw [self, Function.update_eq_self]
      have filtered : (located 0 segs).filter (fun x => decide (size before ≤ x.1)) = located (size before) rest := by
        rw [split]
        exact filter_located rfl
      rw [scanFrom, filtered, firstMatch_any] at finds
      rw [filtered] at sameItem
      cases items_ : located (size before) rest with
      | nil =>
          rw [items_] at finds
          have eq : found.result = .error .notFound := finds
          have item := sameItem items_
          have none_ : records rest = [] := by rw [← records_located (size before), items_]; rfl
          rw [eq]
          dsimp only
          refine wp_pure _ ?_
          have result : (last_.map fun _ => found.item) = (records segs).getLast?.map Record.head := by
            rw [split, records_append, none_, List.append_nil, ← reached, item]
            cases last_ <;> rfl
          rw [result]
          exact done
      | cons x others =>
          rw [items_] at finds
          have eq : found = ⟨.ok x.1, x.2.head⟩ := finds
          have inside : x ∈ located (size before) rest := by rw [items_]; exact List.mem_cons_self
          obtain ⟨a, b, parts, place⟩ := located_split inside
          have none_ : located (size before) a = [] := by
            cases front : located (size before) a with
            | nil => rfl
            | cons y ys =>
                have same : y = x := by
                  rw [parts, located_append, front, List.cons_append] at items_
                  exact (List.cons.inj items_).1
                have member : y ∈ located (size before) a := by rw [front]; exact List.mem_cons_self
                have bounds := located_bounds member
                rw [same] at bounds
                omega
          have noRecords : records a = [] := by rw [← records_located (size before), none_]; rfl
          have sound : Sound env x.2.head x.2.body.length := by
            refine (located_itemAt is_.clean.holds (x := x) ?_).sound
            rw [split, located_append, Nat.zero_add]
            exact List.mem_append_right _ inside
          rw [eq]
          dsimp only
          have next : x.1 + x.2.head.span = size (before ++ a ++ [.item x.2]) := by
            rw [sound.span, place]
            simp only [size_append, size_cons, size_item, size_nil]
          have shape : segs = before ++ a ++ [.item x.2] ++ b := by
            rw [split, parts]
            simp
          rw [next]
          refine ih (before ++ a ++ [.item x.2]) b shape ?_ _ ?_
          · rw [parts, records_append, noRecords, records_cons_item, List.nil_append, List.length_cons] at enough
            omega
          · rw [records_snoc, List.getLast?_concat, Option.map_some]

theorem erase_failed {slot : Slot} {nsIndex : Byte} {datatype : ItemType} {key : Option (List Byte)} {e : EspErr}
    (failed : (slot.erase nsIndex datatype key).1 = .error e) : (slot.erase nsIndex datatype key).2 = slot := by
  unfold Slot.erase at failed ⊢
  cases scanned : scanFrom nsIndex datatype key 0 slot.segs with
  | ok x =>
      rw [scanned] at failed
      exact absurd failed (by simp)
  | error e' => rfl

theorem wp_eraseDuplicate {P : Pages n} (are : Are env m f P) (item : Item) (l : List (Fin n))
    (searchable : ∀ i ∈ l, Slot.Searchable (P.slots i))
    (done : ∀ m' f', Are env m' f' (P.eraseDuplicate item l) → post (.ok ()) m' f')
    (stop : ∀ f', Shown env f' (P.eraseDuplicate item l) → cut f') :
    Prog.wp FlashCall (PageManager.eraseDuplicate env item l) post cut m f := by
  induction l generalizing m f with
  | nil => exact wp_pure _ (done m f are)
  | cons page rest ih =>
      have rest_ (i : Fin n) (member : i ∈ rest) := searchable i (List.mem_cons_of_mem _ member)
      have here := searchable page List.mem_cons_self
      have is_ := are.pages page
      have freeing : ((m.mPages page).mState = .freeing) ↔ (P.slots page).isFreeing = true := by
        cases slot : P.slots page with
        | blank seq =>
            rw [slot] at is_
            rw [is_.1.state]
            exact ⟨fun wrong => absurd wrong (by decide), fun wrong => absurd wrong Bool.false_ne_true⟩
        | junk =>
            rw [slot] at here
            exact here.elim
        | used st seq segs =>
            rw [slot] at is_ here
            rw [UsedPage.state is_]
            rcases here with rfl | rfl | rfl
            · exact ⟨fun wrong => absurd wrong (by decide), fun wrong => absurd wrong Bool.false_ne_true⟩
            · exact ⟨fun wrong => absurd wrong (by decide), fun wrong => absurd wrong Bool.false_ne_true⟩
            · exact ⟨fun _ => rfl, fun _ => rfl⟩
      unfold PageManager.eraseDuplicate PageManager.pageState
      refine wp_bind (wp_bind (wp_get (wp_pure _ ?_)))
      dsimp only
      by_cases skipped : (P.slots page).isFreeing = true
      · have eq : P.eraseDuplicate item (page :: rest) = P.eraseDuplicate item rest := by
          rw [Pages.eraseDuplicate, if_pos skipped]
        rw [eq] at done stop
        rw [if_pos (freeing.mpr skipped)]
        exact ih are rest_ done stop
      · rw [if_neg (fun state => skipped (freeing.mp state))]
        unfold Pages.eraseDuplicate at done stop
        rw [if_neg skipped] at done stop
        have shape : P.eraseFrom item.nsIndex item.datatype (some item.key) page =
            (((P.slots page).erase item.nsIndex item.datatype (some item.key)).1,
              P.set page ((P.slots page).erase item.nsIndex item.datatype (some item.key)).2) := rfl
        rw [shape] at done stop
        refine wp_bind (wp_attempt (wp_onPage (wp_eraseSlot is_ here ?_ ?_)))
        · intro pg' s' after
          have are' := are.set (i := page) after
          cases result : ((P.slots page).erase item.nsIndex item.datatype (some item.key)).1 with
          | ok u =>
              rw [result] at done
              exact wp_pure _ (done _ _ are')
          | error e =>
              rw [result] at done stop
              have same : P.set page ((P.slots page).erase item.nsIndex item.datatype (some item.key)).2 = P := by
                rw [erase_failed result]
                unfold Pages.set
                rw [Function.update_eq_self]
              rw [same] at are'
              exact ih are' rest_ done stop
        · intro s' ok shows
          rw [ok] at stop
          exact stop _ (are.shown.set shows)

theorem wp_activatePage_none {P : Pages n} (are : Are env m f P) (none_ : P.free = [])
    (failed : post (.err .notEnoughSpace) m f) : Prog.wp FlashCall PageManager.activatePage post cut m f := by
  unfold PageManager.activatePage
  refine wp_bind (wp_get ?_)
  dsimp only
  rw [are.free, none_]
  exact wp_throw _ failed

inductive FinishStage (P : Pages n) (page last : Fin n) : Pages n → Prop where
  | discarded : FinishStage P page last (P.withoutCopy last)
  | activated {p : Fin n} {rest : List (Fin n)} (some_ : (P.withoutCopy last).free = p :: rest) :
      FinishStage P page last ((P.withoutCopy last).activate p rest)
  | copying {p : Fin n} {rest : List (Fin n)} {slot : Slot} (some_ : (P.withoutCopy last).free = p :: rest)
      (stage : CopyStage P.next (P.slots page).segs slot) :
      FinishStage P page last (((P.withoutCopy last).activate p rest).set p slot)
  | done : FinishStage P page last (P.finishFreeing page last).2

structure Listed (P : Pages n) : Prop where
  all : ∀ i, i ∈ P.list ++ P.free
  distinct : (P.list ++ P.free).Nodup
  listed : ∀ i ∈ P.list, ∃ st seq segs, P.slots i = .used st seq segs ∧ Searched st
  unused : ∀ i ∈ P.free, Slot.Unused (P.slots i)

theorem Listed.distinctList {P : Pages n} (listed : Listed P) : P.list.Nodup := (List.nodup_append.mp listed.distinct).1

theorem Listed.notFree {P : Pages n} (listed : Listed P) {i : Fin n} (member : i ∈ P.list) : i ∉ P.free := by
  intro free
  exact (List.nodup_append.mp listed.distinct).2.2 i member i free rfl

theorem Listed.discard {P : Pages n} (listed : Listed P) {page : Fin n} (member : page ∈ P.list) : Listed (P.discard page) := by
  have perm : (P.list.erase page ++ (P.free ++ [page])).Perm (P.list ++ P.free) := by
    rw [← List.append_assoc]
    refine List.perm_append_comm.trans ?_
    exact ((List.perm_cons_erase member).symm.append_right P.free)
  have other {i : Fin n} (apart : i ≠ page) : (P.discard page).slots i = P.slots i := Function.update_of_ne apart _ _
  refine ⟨fun i => perm.mem_iff.mpr (listed.all i), perm.nodup_iff.mpr listed.distinct, ?_, ?_⟩
  · intro i inside
    obtain ⟨apart, inside⟩ := (List.Nodup.mem_erase_iff listed.distinctList).mp inside
    rw [other apart]
    exact listed.listed i inside
  · intro i inside
    rcases List.mem_append.mp inside with early | late
    · have apart : i ≠ page := by
        rintro rfl
        exact listed.notFree member early
      rw [other apart]
      exact listed.unused i early
    · rw [List.mem_singleton.mp late]
      have here : (P.discard page).slots page = .blank (P.slots page).seq := Function.update_self _ _ _
      rw [here]
      exact trivial

theorem wp_finishFreeing {P : Pages n} (are : Are env m f P) (listed : Listed P) {page last : Fin n}
    (last_ : P.list.getLast? = some last) (member : page ∈ P.list) {seq : Word} {segs : List Seg}
    (slot : P.slots page = .used .freeing seq segs)
    (done : ∀ m' f', Are env m' f' (P.finishFreeing page last).2 → Ends post (P.finishFreeing page last).1 m' f')
    (stop : ∀ f' Q, FinishStage P page last Q → Shown env f' Q → cut f') :
    Prog.wp FlashCall (PageManager.finishFreeing env page) post cut m f := by
  have lastInside := List.mem_of_getLast? last_
  have same : (P.withoutCopy last).next = P.next := by
    unfold Pages.withoutCopy
    split <;> rfl
  -- what is left after the copy has been given up
  have finish (m₁ : PageManager n) (f₁ : Flash n) (are₁ : Are env m₁ f₁ (P.withoutCopy last))
      (listed₁ : Listed (P.withoutCopy last)) (member₁ : page ∈ (P.withoutCopy last).list)
      (slot₁ : (P.withoutCopy last).slots page = .used .freeing seq segs) :
      Prog.wp FlashCall (do
        PageManager.activatePage
        PageManager.freePage env page
        modify (PageManager.moveToFree page)) post cut m₁ f₁ := by
    have ended : FinishStage P page last (P.finishFreeing page last).2 := .done
    unfold Pages.finishFreeing at done ended
    dsimp only at done ended
    generalize keep : P.withoutCopy last = Q at are₁ listed₁ member₁ slot₁ same done ended
    cases free : Q.free with
    | nil =>
        rw [free] at done
        exact wp_bind (wp_activatePage_none are₁ free (done m₁ f₁ are₁))
    | cons p rest =>
        rw [free] at done ended
        have someFree : (P.withoutCopy last).free = p :: rest := by rw [keep, free]
        have other : page ≠ p := by
          rintro rfl
          exact listed₁.notFree member₁ (by rw [free]; exact List.mem_cons_self)
        have slotAfter : (Q.activate p rest).slots page = .used .freeing seq segs := by
          rw [activate_slots_other rest other, slot₁]
        refine wp_bind (wp_activatePage are₁ free (listed₁.unused p (by rw [free]; exact List.mem_cons_self)) ?_ ?_)
        · intro m₂ f₂ are₂
          refine wp_bind (wp_freePage are₂ List.getLast?_concat other slotAfter (activate_slots_self p rest) ?_ ?_ ?_)
          · intro m₃ f₃ are₃
            refine wp_modify (done _ _ ⟨fun j => are₃.pages j, ?_, ?_, are₃.next⟩)
            · unfold PageManager.moveToFree
              dsimp only
              rw [are₃.list]
              rfl
            · unfold PageManager.moveToFree
              dsimp only
              rw [are₃.free]
              rfl
          · intro f' slot' stage shown
            rw [same] at stage
            have at_ := @FinishStage.copying n P page last _ _ slot' someFree (by rw [slot]; exact stage)
            rw [keep] at at_
            exact stop f' _ at_ shown
          · intro f' shown
            exact stop f' _ ended (shown.congr rfl)
        · intro f' shown
          have at_ := @FinishStage.activated n P page last _ _ someFree
          rw [keep] at at_
          exact stop f' _ at_ shown
  have is_ := are.pages last
  obtain ⟨st, seq', segs', lastSlot, searched⟩ := listed.listed last lastInside
  rw [lastSlot] at is_
  have is_ : UsedPage env (m.mPages last) (f last) st seq' segs' := is_
  unfold PageManager.finishFreeing PageManager.pageState
  refine wp_bind (wp_back are last_ (wp_bind (wp_bind (wp_get (wp_pure _ ?_)))))
  dsimp only
  by_cases active : st = .active
  · subst active
    have apart : page ≠ last := by
      rintro rfl
      rw [slot] at lastSlot
      exact absurd (Slot.used.inj lastSlot).1 (by decide)
    have without : P.withoutCopy last = P.discard last := by
      unfold Pages.withoutCopy
      rw [lastSlot]
      rfl
    have stage : FinishStage P page last (P.withoutCopy last) := .discarded
    rw [without] at finish stage
    rw [if_pos is_.state]
    refine wp_bind (wp_onPage (wp_erasePage ?_ ?_))
    · intro pg' blank_ number
      have number' : pg'.mSeqNumber = (P.slots last).seq := by
        rw [number, is_.number, lastSlot]
        rfl
      have blankPage : PageIs env pg' erasedSector (.blank (P.slots last).seq) := ⟨blank_, number', rfl⟩
      have are' := are.set (i := last) blankPage
      refine wp_bind (wp_modify (finish _ _ ⟨are'.pages, ?_, ?_, are'.next⟩ (listed.discard lastInside) ?_ ?_))
      · unfold PageManager.moveToFree
        dsimp only
        rw [are.list]
        rfl
      · unfold PageManager.moveToFree
        dsimp only
        rw [are.free]
        rfl
      · exact (List.mem_erase_of_ne apart).mpr member
      · exact (Function.update_of_ne apart _ _).trans slot
    · have shown : Shown env (Function.update f last erasedSector) (P.set last (.blank (P.slots last).seq)) :=
        are.shown.set rfl
      exact stop _ _ stage (shown.congr rfl)
  · have without : P.withoutCopy last = P := by
      unfold Pages.withoutCopy
      rw [lastSlot]
      rcases searched with rfl | rfl | rfl
      · exact absurd rfl active
      · rfl
      · rfl
    rw [without] at finish
    rw [if_neg (by rw [is_.state]; exact active)]
    exact finish m f are listed member slot

end

end EspFirmware.Proof.Nvs
