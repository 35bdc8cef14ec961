import EspFirmware.Proof.Nvs.Restart

/-!
`Storage::init`: the pages are put in order and the namespaces are collected.
-/

namespace EspFirmware.Proof.Nvs
open EspFirmware.Nvs EspFirmware.Spec EspFirmware.Lib Prog

variable {env : Env} {n : Nat}

section
variable {slots : Fin n → Slot}

theorem insert_perm (i : Fin n) (list : List (Fin n)) : (Pages.insert slots i list).Perm (i :: list) := by
  unfold Pages.insert
  refine List.perm_middle.trans (List.Perm.cons i ?_)
  rw [List.takeWhile_append_dropWhile]

theorem arrangeOn_spec (P : Pages n) (l : List (Fin n)) :
    (Pages.arrangeOn slots P l).list.Perm (l.filter (fun i => (slots i).isUsed) ++ P.list) ∧
      (Pages.arrangeOn slots P l).free = P.free ++ l.filter (fun i => !(slots i).isUsed) ∧
      (Pages.arrangeOn slots P l).slots = P.slots ∧ (Pages.arrangeOn slots P l).next = P.next := by
  induction l generalizing P with
  | nil => exact ⟨.refl _, (List.append_nil _).symm, rfl, rfl⟩
  | cons i l ih =>
      unfold Pages.arrangeOn
      cases used : (slots i).isUsed with
      | true =>
          obtain ⟨list, free, same, next⟩ := ih { P with list := Pages.insert slots i P.list }
          rw [if_pos rfl]
          refine ⟨?_, ?_, same, next⟩
          · rw [List.filter_cons, if_pos used]
            refine list.trans (((insert_perm i P.list).append_left _).trans ?_)
            exact List.perm_middle
          · rw [free, List.filter_cons_of_neg (by simp [used])]
      | false =>
          obtain ⟨list, free, same, next⟩ := ih { P with free := P.free ++ [i] }
          rw [if_neg (by decide)]
          refine ⟨?_, ?_, same, next⟩
          · rw [List.filter_cons_of_neg (by simp [used])]
            exact list
          · rw [free, List.filter_cons_of_pos (by simp [used]), List.append_assoc]
            rfl

theorem arrange_slots : (Pages.arrange slots).slots = fun i => (slots i).restart := (arrangeOn_spec _ _).2.2.1

theorem mem_arrange_list {i : Fin n} : i ∈ (Pages.arrange slots).list ↔ (slots i).isUsed = true := by
  have perm := (@arrangeOn_spec n slots ⟨fun i => (slots i).restart, [], [], 0⟩ (List.finRange n)).1
  rw [List.append_nil] at perm
  rw [Pages.arrange, perm.mem_iff, List.mem_filter]
  exact and_iff_right (List.mem_finRange i)

theorem arrange_free : (Pages.arrange slots).free = (List.finRange n).filter fun i => !(slots i).isUsed :=
  (arrangeOn_spec _ _).2.1

theorem Listed.arrange (found : ∀ i, Slot.Found (slots i)) : Listed (Pages.arrange slots) := by
  have perm := (@arrangeOn_spec n slots ⟨fun i => (slots i).restart, [], [], 0⟩ (List.finRange n)).1
  rw [List.append_nil] at perm
  have both : ((Pages.arrange slots).list ++ (Pages.arrange slots).free).Perm (List.finRange n) := by
    rw [arrange_free]
    refine (perm.append_right _).trans ?_
    exact List.filter_append_perm _ _
  refine ⟨fun i => both.mem_iff.mpr (List.mem_finRange i), both.nodup_iff.mpr (List.nodup_finRange n), ?_, ?_⟩
  · intro i member
    have used := mem_arrange_list.mp member
    have kind := found i
    rw [arrange_slots]
    dsimp only
    cases slot : slots i with
    | blank seq =>
        rw [slot] at used
        exact absurd used Bool.false_ne_true
    | junk =>
        rw [slot] at used
        exact absurd used Bool.false_ne_true
    | used st seq segs =>
        rw [slot] at kind
        exact ⟨st, seq, segs, rfl, kind.searched⟩
  · intro i member
    rw [arrange_free, List.mem_filter] at member
    rw [arrange_slots]
    dsimp only
    cases slot : slots i with
    | blank seq => exact trivial
    | junk => exact trivial
    | used st seq segs =>
        rw [slot] at member
        exact absurd member.2 Bool.false_ne_true

end

structure SamePages (P Q : Pages n) : Prop where
  list : Q.list = P.list
  free : Q.free = P.free
  next : Q.next = P.next
  slots : ∀ i, Q.slots i = (P.slots i).withSegs (Q.slots i).segs
  others : ∀ i, i ∉ P.list → Q.slots i = P.slots i

theorem withSegs_self (slot : Slot) : slot.withSegs slot.segs = slot := by cases slot <;> rfl

theorem SamePages.refl (P : Pages n) : SamePages P P :=
  ⟨rfl, rfl, rfl, fun _ => (withSegs_self _).symm, fun _ _ => rfl⟩

theorem Listed.samePages {P Q : Pages n} (listed : Listed P) (same : SamePages P Q) : Listed Q := by
  refine ⟨fun i => by rw [same.list, same.free]; exact listed.all i, by rw [same.list, same.free]; exact listed.distinct, ?_, ?_⟩
  · intro i member
    rw [same.list] at member
    obtain ⟨st, seq, segs, slot, searched⟩ := listed.listed i member
    have now := same.slots i
    rw [slot] at now
    exact ⟨st, seq, (Q.slots i).segs, now, searched⟩
  · intro i member
    rw [same.free] at member
    rw [same.others i fun inside => listed.notFree inside member]
    exact listed.unused i member

theorem samePages_eraseDuplicate (P : Pages n) (item : Item) (l : List (Fin n)) (sub : ∀ i ∈ l, i ∈ P.list) :
    SamePages P (P.eraseDuplicate item l) := by
  induction l with
  | nil => exact .refl P
  | cons page rest ih =>
      have later := ih fun i member => sub i (List.mem_cons_of_mem _ member)
      unfold Pages.eraseDuplicate
      split
      · exact later
      · split
        · rename_i u Q found
          have eq : Q = P.set page ((P.slots page).erase item.nsIndex item.datatype (some item.key)).2 :=
            (congrArg Prod.snd found).symm
          have kind : ((P.slots page).erase item.nsIndex item.datatype (some item.key)).2 =
              (P.slots page).withSegs ((P.slots page).erase item.nsIndex item.datatype (some item.key)).2.segs := by
            unfold Slot.erase
            split
            · cases P.slots page <;> rfl
            · exact (withSegs_self _).symm
          subst eq
          refine ⟨rfl, rfl, rfl, fun i => ?_, fun i outside => ?_⟩
          · by_cases same : i = page
            · subst same
              rw [set_slots_self]
              exact kind
            · rw [set_slots_other same]
              exact (withSegs_self _).symm
          · exact set_slots_other (fun same => outside (by rw [same]; exact sub page List.mem_cons_self)) _
        · exact later

theorem samePages_withoutDuplicate (P : Pages n) (last : Fin n) : SamePages P (P.withoutDuplicate last) := by
  unfold Pages.withoutDuplicate
  split
  · exact .refl P
  · exact samePages_eraseDuplicate P _ _ fun i member => List.dropLast_subset _ member

inductive RestartStage (slots : Fin n → Slot) : Pages n → Prop where
  | found : RestartStage slots (Pages.arrange slots)
  | activated {p : Fin n} {rest : List (Fin n)} (none_ : (Pages.arrange slots).list = [])
      (some_ : (Pages.arrange slots).free = p :: rest) : RestartStage slots ((Pages.arrange slots).activate p rest)
  | unduplicated {last : Fin n} (last_ : (Pages.arrange slots).list.getLast? = some last) :
      RestartStage slots (((Pages.arrange slots).numbered last).withoutDuplicate last)
  | finishing {last page : Fin n} {Q : Pages n} (last_ : (Pages.arrange slots).list.getLast? = some last)
      (freeing : (((Pages.arrange slots).numbered last).withoutDuplicate last).list.find?
        (fun page => ((((Pages.arrange slots).numbered last).withoutDuplicate last).slots page).isFreeing) = some page)
      (stage : FinishStage (((Pages.arrange slots).numbered last).withoutDuplicate last) page last Q) :
      RestartStage slots Q

theorem ShownAs.shown {slots : Fin n → Slot} {f : Flash n} (shown : ShownAs env f slots) :
    Shown env f (Pages.arrange slots) := by
  intro i
  rw [arrange_slots]
  dsimp only
  rw [reload_restart, (shown i).stable]
  exact shows_restart.mpr (shown i)

theorem isFreeing_iff {pg : Page} {s : Sector} {slot : Slot} (page : PageIs env pg s slot) :
    decide (pg.mState = .freeing) = slot.isFreeing := by
  cases slot with
  | blank seq =>
      rw [page.1.state]
      rfl
  | junk =>
      rw [page.1]
      rfl
  | used st seq segs =>
      rw [UsedPage.state page]
      cases st <;> rfl

section
variable {post : Outcome EspErr Unit → PageManager n → Flash n → Prop} {cut : Flash n → Prop} {m : PageManager n}
  {f : Flash n} {slots : Fin n → Slot}

theorem find_freeing {P : Pages n} (are : Are env m f P) :
    (m.mPageList.find? fun page => decide ((m.mPages page).mState = .freeing)) =
      P.list.find? fun page => (P.slots page).isFreeing := by
  rw [are.list]
  congr 1
  funext page
  exact isFreeing_iff (are.pages page)

theorem wp_checkFree {P : Pages n} (are : Are env m f P)
    (done : Ends post (if P.free = [] then .error .noFreePages else .ok ()) m f) :
    Prog.wp FlashCall (do
      let m ← get
      if m.mFreePageList = [] then throw .noFreePages) post cut m f := by
  refine wp_bind (wp_get ?_)
  dsimp only
  rw [are.free]
  by_cases none_ : P.free = []
  · rw [if_pos none_] at done ⊢
    exact wp_throw _ done
  · rw [if_neg none_] at done ⊢
    exact wp_pure _ done

theorem wp_finish {P : Pages n} (are : Are env m f P) (listed : Listed P) {last : Fin n}
    (last_ : P.list.getLast? = some last)
    (done : ∀ m' f', Are env m' f' (P.finish last).2 → Ends post (P.finish last).1 m' f')
    (stop : ∀ f' page Q, (P.list.find? fun page => (P.slots page).isFreeing) = some page →
      FinishStage P page last Q → Shown env f' Q → cut f') :
    Prog.wp FlashCall (do
      let m ← get
      match m.mPageList.find? fun page => (m.mPages page).mState = .freeing with
      | none => pure ()
      | some page => PageManager.finishFreeing env page
      let m ← get
      if m.mFreePageList = [] then throw .noFreePages) post cut m f := by
  refine wp_bind (wp_get ?_)
  dsimp only
  rw [find_freeing are]
  unfold Pages.finish at done
  cases freeing : P.list.find? fun page => (P.slots page).isFreeing with
  | none =>
      rw [freeing] at done
      exact wp_checkFree are (done m f are)
  | some page =>
      rw [freeing] at done
      have member := List.mem_of_find?_eq_some freeing
      obtain ⟨seq, segs, slot⟩ : ∃ seq segs, P.slots page = .used .freeing seq segs := by
        obtain ⟨st, seq, segs, slot, searched⟩ := listed.listed page member
        have isFreeing := List.find?_some freeing
        rw [slot] at isFreeing
        cases st with
        | freeing => exact ⟨seq, segs, slot⟩
        | _ => exact absurd isFreeing Bool.false_ne_true
      refine wp_bind (wp_finishFreeing are listed last_ member slot ?_ fun f' Q stage shown => stop f' page Q freeing stage shown)
      intro m₁ f₁ are₁
      dsimp only at done
      generalize P.finishFreeing page last = result at are₁ done ⊢
      obtain ⟨outcome, Q⟩ := result
      cases outcome with
      | error e => exact done m₁ f₁ are₁
      | ok u => exact wp_checkFree are₁ (done m₁ f₁ are₁)

theorem wp_managerLoad (found : ∀ i, Slot.Found (slots i)) (shown : ShownAs env f slots)
    (done : ∀ m' f', Are env m' f' (Pages.restart slots).2 → Ends post (Pages.restart slots).1 m' f')
    (stop : ∀ f' Q, RestartStage slots Q → Shown env f' Q → cut f') :
    Prog.wp FlashCall (PageManager.load env) post cut m f := by
  have listed := Listed.arrange found
  unfold PageManager.load
  have start : Loading env slots (List.finRange n) ⟨fun _ => Page.fresh env, [], [], 0⟩ f
      ⟨fun i => (slots i).restart, [], [], 0⟩ :=
    ⟨shown, fun i outside => absurd (List.mem_finRange i) outside, fun _ _ => rfl, rfl, rfl, rfl, rfl,
      fun i member => absurd member List.not_mem_nil⟩
  refine wp_bind (wp_modify (wp_bind (wp_loadPages (List.finRange n) (List.nodup_finRange n) found start ?_ ?_)))
  · intro m₁ f₁ shown₁ are₁
    change Are env m₁ f₁ (Pages.arrange slots) at are₁
    refine wp_bind (wp_get ?_)
    dsimp only
    rw [are₁.list]
    unfold Pages.restart at done
    dsimp only at done
    cases last_ : (Pages.arrange slots).list.getLast? with
    | none =>
        rw [last_] at done
        have none_ : (Pages.arrange slots).list = [] := List.getLast?_eq_none_iff.mp last_
        cases free : (Pages.arrange slots).free with
        | nil =>
            rw [free] at done
            exact wp_activatePage_none are₁ free (done m₁ f₁ are₁)
        | cons p rest =>
            rw [free] at done
            refine wp_activatePage are₁ free (listed.unused p (by rw [free]; exact List.mem_cons_self)) done ?_
            intro f' shown'
            exact stop f' _ (.activated none_ free) shown'
    | some last =>
        rw [last_] at done
        have lastInside := List.mem_of_getLast? last_
        obtain ⟨st, seq, segs, slot, searched⟩ := listed.listed last lastInside
        have is_ := are₁.pages last
        rw [slot] at is_
        have is_ : UsedPage env (m₁.mPages last) (f₁ last) st seq segs := is_
        have few : (records segs).length < ENTRY_COUNT + 1 :=
          Nat.lt_succ_of_le (Nat.le_trans (length_records_le segs) is_.clean.fits)
        have numbered : Are env { m₁ with mSeqNumber := (m₁.mPages last).mSeqNumber + 1 } f₁
            ((Pages.arrange slots).numbered last) := by
          refine ⟨are₁.pages, are₁.list, are₁.free, ?_⟩
          dsimp only [Pages.numbered]
          rw [is_.number, slot]
          rfl
        have listed' : Listed ((Pages.arrange slots).numbered last) := ⟨listed.all, listed.distinct, listed.listed, listed.unused⟩
        have same := samePages_withoutDuplicate ((Pages.arrange slots).numbered last) last
        have listed'' := listed'.samePages same
        have lastAgain : (((Pages.arrange slots).numbered last).withoutDuplicate last).list.getLast? = some last := by
          rw [same.list]
          exact last_
        dsimp only at done
        have rest (m₂ : PageManager n) (f₂ : Flash n)
            (are₂ : Are env m₂ f₂ (((Pages.arrange slots).numbered last).withoutDuplicate last)) :=
          wp_finish are₂ listed'' lastAgain done
            fun f' page Q freeing stage shown' => stop f' Q (.finishing last_ freeing stage) shown'
        have unduplicated := RestartStage.unduplicated last_
        refine wp_bind (wp_modify (wp_bind (wp_lastItemLoop searched (by exact is_) (ENTRY_COUNT + 1) [] segs rfl few none rfl ?_)))
        rw [List.nil_append]
        dsimp only
        generalize whole : ((Pages.arrange slots).numbered last).withoutDuplicate last = U at rest unduplicated
        unfold Pages.withoutDuplicate at whole
        have slot' : ((Pages.arrange slots).numbered last).slots last = .used st seq segs := slot
        have segsEq : (Slot.used st seq segs).segs = segs := rfl
        rw [slot', segsEq] at whole
        cases items_ : (records segs).getLast? with
        | none =>
            rw [items_] at whole
            have whole : (Pages.arrange slots).numbered last = U := whole
            rw [← whole] at rest
            exact rest _ _ numbered
        | some r =>
            rw [items_] at whole
            rw [Option.map_some]
            have whole : ((Pages.arrange slots).numbered last).eraseDuplicate r.head
                (Pages.arrange slots).list.dropLast = U := whole
            refine wp_bind (wp_eraseDuplicate numbered r.head _ ?_ ?_ ?_)
            · intro i member
              obtain ⟨st', seq', segs', slot', searched'⟩ := listed.listed i (List.dropLast_subset _ member)
              change Slot.Searchable ((Pages.arrange slots).slots i)
              rw [slot']
              exact searched'
            · rw [whole]
              exact rest
            · rw [whole]
              exact fun f' shown' => stop f' U unduplicated shown'
  · intro f' shown'
    exact stop f' _ .found shown'.shown

end

def entryOf (r : Record) : NamespaceEntry := ⟨(cString r.head.key).take MAX_KEY_LENGTH, r.head.data.headD 0⟩

def namespacesOn : List Record → List NamespaceEntry
  | [] => []
  | r :: rest =>
      match Page.matchItem NS_INDEX ItemType.U8 none r.head with
      | none => namespacesOn rest
      | some (.error _) => []
      | some (.ok _) => entryOf r :: namespacesOn rest

def register (st : Storage n) (e : NamespaceEntry) : Storage n :=
  { st with mNamespaces := st.mNamespaces ++ [e],
            mNamespaceUsage := CompressedEnumTable.set 1 st.mNamespaceUsage e.mIndex.toNat 1 }

def Pages.namespaces (P : Pages n) : List NamespaceEntry :=
  P.list.flatMap fun i => namespacesOn (records (P.slots i).segs)

section
variable {post : Outcome EspErr Unit → Storage n → Flash n → Prop} {cut : Flash n → Prop} {st : Storage n} {f : Flash n}

theorem register_manager (st : Storage n) (es : List NamespaceEntry) :
    (es.foldl register st).mPageManager = st.mPageManager := by
  induction es generalizing st with
  | nil => rfl
  | cons e es ih => exact ih (register st e)

theorem firstMatch_namespaces (i : Nat) (segs : List Seg) :
    match firstMatch NS_INDEX ItemType.U8 none (located i segs) with
    | .error _ => namespacesOn (records segs) = []
    | .ok x => ∃ a b, segs = a ++ .item x.2 :: b ∧ x.1 = i + size a ∧
        namespacesOn (records segs) = entryOf x.2 :: namespacesOn (records b) := by
  induction segs generalizing i with
  | nil => rfl
  | cons seg segs ih =>
      have skip (other : seg.isItem = false) (here : located i (seg :: segs) = located (i + seg.size) segs) :
          match firstMatch NS_INDEX ItemType.U8 none (located i (seg :: segs)) with
          | .error _ => namespacesOn (records (seg :: segs)) = []
          | .ok x => ∃ a b, seg :: segs = a ++ .item x.2 :: b ∧ x.1 = i + size a ∧
              namespacesOn (records (seg :: segs)) = entryOf x.2 :: namespacesOn (records b) := by
        have later := ih (i + seg.size)
        rw [here, records_skip other]
        generalize firstMatch NS_INDEX ItemType.U8 none (located (i + seg.size) segs) = result at later ⊢
        cases result with
        | error e => exact later
        | ok x =>
            obtain ⟨a, b, split, place, known⟩ := later
            refine ⟨seg :: a, b, by rw [split, List.cons_append], ?_, known⟩
            rw [place, size_cons, Nat.add_assoc]
      cases seg with
      | gone => exact skip rfl rfl
      | torn head len => exact skip rfl rfl
      | item r =>
          rw [located, firstMatch, records_cons_item, namespacesOn]
          dsimp only
          cases matched : Page.matchItem NS_INDEX ItemType.U8 none r.head with
          | none =>
              have later := ih (i + r.size)
              dsimp only
              generalize firstMatch NS_INDEX ItemType.U8 none (located (i + r.size) segs) = result at later ⊢
              cases result with
              | error e => exact later
              | ok x =>
                  obtain ⟨a, b, split, place, known⟩ := later
                  refine ⟨.item r :: a, b, by rw [split, List.cons_append], ?_, known⟩
                  rw [place, size_cons, Nat.add_assoc]
                  rfl
          | some result =>
              cases result with
              | error e => rfl
              | ok u => exact ⟨[], segs, rfl, rfl, rfl⟩

theorem wp_namespaceLoop {page : Fin n} {st' : PageState} {seq : Word} {segs : List Seg} (searched : Searched st')
    (is_ : UsedPage env (st.mPageManager.mPages page) (f page) st' seq segs) (fuel : Nat) (before rest : List Seg)
    (split : segs = before ++ rest) (enough : (records rest).length < fuel)
    (done : post (.ok ()) ((namespacesOn (records rest)).foldl register st) f) :
    Prog.wp FlashCall (Storage.namespaceLoop env page fuel (size before)) post cut st f := by
  induction fuel generalizing before rest st with
  | zero => omega
  | succ fuel ih =>
      unfold Storage.namespaceLoop
      have boundary : Boundary segs (size before) := ⟨before, rest, split, Or.inl rfl⟩
      refine wp_bind (wp_storagePage (wp_findItem is_.clean (by rw [is_.state]; exact searched) boundary _ ?_))
      intro found finds _
      obtain ⟨same, sameFlash⟩ := withManager_self st f page
      dsimp only
      rw [same, sameFlash]
      have filtered : (located 0 segs).filter (fun x => decide (size before ≤ x.1)) = located (size before) rest := by
        rw [split]
        exact filter_located rfl
      rw [scanFrom, filtered] at finds
      have known := firstMatch_namespaces (size before) rest
      cases result : firstMatch NS_INDEX ItemType.U8 none (located (size before) rest) with
      | error e =>
          rw [result] at finds known
          have eq : found.result = .error e := finds
          have none_ : namespacesOn (records rest) = [] := known
          rw [eq]
          rw [none_] at done
          exact wp_pure _ done
      | ok x =>
          rw [result] at finds known
          have eq : found = ⟨.ok x.1, x.2.head⟩ := finds
          obtain ⟨a, b, parts, place, names⟩ := known
          rw [eq]
          dsimp only
          refine wp_bind (wp_modify ?_)
          have at_ : (x.1, x.2) ∈ located 0 segs := by
            rw [split, parts, ← List.append_assoc, located_item, size_append, place]
            exact List.mem_append_right _ List.mem_cons_self
          have sound := (located_itemAt is_.clean.holds at_).sound
          dsimp only at sound
          have next : x.1 + x.2.head.span = size (before ++ a ++ [.item x.2]) := by
            rw [sound.span, place]
            simp only [size_append, size_cons, size_item, size_nil]
          have shape : segs = before ++ a ++ [.item x.2] ++ b := by
            rw [split, parts]
            simp
          rw [next]
          rw [names, List.foldl_cons] at done
          refine ih (by exact is_) (before ++ a ++ [.item x.2]) b shape ?_ done
          rw [parts, records_append, records_cons_item, List.length_append, List.length_cons] at enough
          omega

theorem wp_loadNamespaces {P : Pages n} (are : Are env st.mPageManager f P) (l : List (Fin n))
    (searchable : ∀ i ∈ l, Slot.Searchable (P.slots i))
    (done : post (.ok ()) ((l.flatMap fun i => namespacesOn (records (P.slots i).segs)).foldl register st) f) :
    Prog.wp FlashCall (Storage.loadNamespaces env l) post cut st f := by
  induction l generalizing st with
  | nil => exact wp_pure _ done
  | cons page rest ih =>
      have here := searchable page List.mem_cons_self
      have is_ := are.pages page
      rw [List.flatMap_cons, List.foldl_append] at done
      have next (es : List NamespaceEntry)
          (done : post (.ok ()) ((rest.flatMap fun i => namespacesOn (records (P.slots i).segs)).foldl register
            (es.foldl register st)) f) :
          Prog.wp FlashCall (Storage.loadNamespaces env rest) post cut (es.foldl register st) f := by
        refine ih ?_ (fun i member => searchable i (List.mem_cons_of_mem _ member)) done
        rw [register_manager]
        exact are
      unfold Storage.loadNamespaces
      cases slot : P.slots page with
      | junk =>
          rw [slot] at here
          exact here.elim
      | blank seq =>
          rw [slot] at is_ done
          have blank_ : BlankPage (st.mPageManager.mPages page) := is_.1
          unfold Storage.namespaceLoop
          refine wp_bind (wp_bind (wp_storagePage (wp_findItem_blank blank_.state ?_)))
          obtain ⟨same, sameFlash⟩ := withManager_self st f page
          dsimp only
          rw [same, sameFlash]
          exact wp_pure _ (next [] done)
      | used st' seq segs =>
          rw [slot] at is_ here done
          have is_ : UsedPage env (st.mPageManager.mPages page) (f page) st' seq segs := is_
          have few : (records segs).length < ENTRY_COUNT + 1 :=
            Nat.lt_succ_of_le (Nat.le_trans (length_records_le segs) is_.clean.fits)
          exact wp_bind (wp_namespaceLoop here is_ (ENTRY_COUNT + 1) [] segs rfl few (next _ done))

def started (st : Storage n) (m : PageManager n) (P : Pages n) : Storage n :=
  let known := (Pages.namespaces P).foldl register
    { st with mPageManager := m, mNamespaces := [], mNamespaceUsage := fun _ => 0 }
  { known with
    mNamespaceUsage := CompressedEnumTable.set 1 (CompressedEnumTable.set 1 known.mNamespaceUsage 0 1) 255 1,
    mState := .active }

theorem wp_init {slots : Fin n → Slot} (found : ∀ i, Slot.Found (slots i)) (shown : ShownAs env f slots)
    (searchable : (Pages.restart slots).1 = .ok () →
      ∀ i ∈ (Pages.restart slots).2.list, Slot.Searchable ((Pages.restart slots).2.slots i))
    (done : ∀ m' f', Are env m' f' (Pages.restart slots).2 →
      match (Pages.restart slots).1 with
      | .ok _ => post (.ok ()) (started st m' (Pages.restart slots).2) f'
      | .error e => post (.err e) { st with mPageManager := m', mState := .invalid } f')
    (stop : ∀ f' Q, RestartStage slots Q → Shown env f' Q → cut f') :
    Prog.wp FlashCall (Storage.init env) post cut st f := by
  unfold Storage.init
  refine wp_bind (wp_attempt (wp_onManager (wp_managerLoad found shown ?_ stop)))
  intro m₁ f₁ are₁
  generalize Pages.restart slots = result at are₁ done searchable ⊢
  obtain ⟨outcome, P⟩ := result
  cases outcome with
  | error e => exact wp_bind (wp_modify (wp_throw _ (done m₁ f₁ are₁)))
  | ok u =>
      refine wp_bind (wp_modify (wp_bind (wp_get ?_)))
      dsimp only
      rw [are₁.list]
      refine wp_bind (wp_loadNamespaces (by exact are₁) P.list (searchable rfl) ?_)
      exact wp_modify (done m₁ f₁ are₁)

end

end EspFirmware.Proof.Nvs
