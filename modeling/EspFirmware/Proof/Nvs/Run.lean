import EspFirmware.Proof.Nvs.Calls

/-!
What holds in every state that a run of calls and power failures reaches.
-/

namespace EspFirmware.Proof.Nvs
open EspFirmware.Nvs EspFirmware.Spec EspFirmware.Lib Prog

variable {env : Env} {n : Nat}

inductive Writes (s : StoreState n) : StoreCall → Value → Prop where
  | item (v : Value) : Writes s (.writeItem v) v
  | name {nsName : List Byte} {ns : Nat} (unknown : named s nsName = none)
      (some_ : Storage.freeNamespaceIndex s.store.mNamespaceUsage = some ns) :
      Writes s (.createOrOpenNamespace nsName true) (namespaceValue nsName ns)

def Holding (env : Env) (kind : Record → Prop) (s : StoreState n) : Prop :=
  (∃ P, On env s P ∧ ∀ r ∈ P.live, kind r) ∨ ∃ slots, Off env s slots ∧ Image kind slots

section
variable {s t : StoreState n} {P Q : Pages n} {c : StoreCall} {kind : Record → Prop} {slots : Fin n → Slot}

theorem Image.and {kind' : Record → Prop} (image : Image kind slots) (image' : Image kind' slots) :
    Image (fun r => kind r ∧ kind' r) slots :=
  ⟨image.found, image.freeing, fun i r member => ⟨image.kinds i r member, image'.kinds i r member⟩⟩

def Fresh (env : Env) (kind : Record → Prop) (s : StoreState n) (c : StoreCall) : Prop :=
  ∀ v, Writes s c v → Value.Short v → kind (v.record env)

theorem Writes.storable {v : Value} (writes : Writes s c v) (proper : c.Proper) : Storable v := by
  cases writes with
  | item => exact ⟨proper.1, proper.2⟩
  | name => exact storable_namespace _ _

theorem CallStage.image (stage : CallStage env s P c Q) (usable : Usable env P) (proper : c.Proper)
    (all : ∀ r ∈ P.live, kind r) (fresh : Fresh env kind s c) : Image kind Q.slots := by
  have now := usable.image all
  cases stage with
  | start => exact now
  | restart stage => exact stage.image now.reload
  | store last_ stage =>
      exact stage.image usable ⟨proper.1, proper.2⟩ last_ all (fresh _ (.item _))
  | erase => exact now.fewer fewer_eraseItem
  | namespace_ stage => exact stage.image now
  | create unknown some_ last_ stage =>
      exact stage.image usable (storable_namespace _ _) last_ all (fresh _ (.name unknown some_))

theorem Stored.kinds {v : Value} {result : Except EspErr Unit × Pages n} (stored : Stored env v P result)
    (all : ∀ r ∈ P.live, kind r) (new : Value.Short v → kind (v.record env)) : ∀ r ∈ result.2.live, kind r := by
  intro r here
  cases stored with
  | added usable short missing live =>
      rcases List.mem_cons.mp (live.mem_iff.mp here) with rfl | old
      · exact new short
      · exact all r old
  | replaced usable short matched before live =>
      rcases List.mem_cons.mp (live.mem_iff.mp here) with rfl | old
      · exact new short
      · exact all r (before.mem_iff.mpr (List.mem_cons_of_mem _ old))
  | failed usable live => exact all r (live.mem_iff.mp here)

theorem live_kinds (image : Image kind P.slots) : ∀ r ∈ P.live, kind r := by
  intro r member
  obtain ⟨i, -, here⟩ := List.mem_flatMap.mp member
  exact image.kinds i r here

theorem InitEnds.holding {o : Outcome EspErr Answer} (ends : InitEnds env s slots o t) (image : Image kind slots) :
    Holding env kind t := by
  have after := (restart_stage slots).image image
  cases ends with
  | started ok on => exact Or.inl ⟨_, on, live_kinds after⟩
  | failed failed off => exact Or.inr ⟨_, off, after.reload⟩

theorem CallEnds.holding {o : Outcome EspErr Answer} (on : On env s P) (ends : CallEnds env s P c o t) (proper : c.Proper)
    (all : ∀ r ∈ P.live, kind r) (fresh : Fresh env kind s c) : Holding env kind t := by
  have now := on.usable.image all
  cases ends with
  | init ends => exact ends.holding now.reload
  | writeItem last_ on' names =>
      exact Or.inl ⟨_, on', (writeItem_stored on.usable ⟨proper.1, proper.2⟩ last_).kinds all (fresh _ (.item _))⟩
  | eraseItem on' names => exact Or.inl ⟨_, on', live_kinds (now.fewer fewer_eraseItem)⟩
  | eraseNamespace on' names =>
      refine Or.inl ⟨_, on', fun r member => all r ?_⟩
      rw [live_eraseNamespace] at member
      exact List.mem_of_mem_filter member
  | unread => exact Or.inl ⟨P, on, all⟩
  | read => exact Or.inl ⟨P, on, all⟩
  | unsized => exact Or.inl ⟨P, on, all⟩
  | sized => exact Or.inl ⟨P, on, all⟩
  | opened => exact Or.inl ⟨P, on, all⟩
  | unknown => exact Or.inl ⟨P, on, all⟩
  | noIndex => exact Or.inl ⟨P, on, all⟩
  | notCreated unknown some_ last_ failed on' names =>
      exact Or.inl ⟨_, on', (writeItem_stored on.usable (storable_namespace _ _) last_).kinds all
        (fresh _ (.name unknown some_))⟩
  | created unknown some_ last_ ok on' names =>
      exact Or.inl ⟨_, on', (writeItem_stored on.usable (storable_namespace _ _) last_).kinds all
        (fresh _ (.name unknown some_))⟩

theorem off_fresh {f : Flash n} (shown : Shown env f Q) (image : Image (IsValue env) Q.slots) :
    Off env ⟨Storage.fresh env, f⟩ fun i => (Q.slots i).reload env :=
  ⟨by simp [Storage.fresh], ⟨shown, image.reload⟩, Or.inl rfl⟩

theorem Off.after (off : Off env s slots) (c : StoreCall) :
    (c = .init ∧ InitEnds env s slots (c.run env s.store s.flash).outcome (s.after env c)) ∨
      c ≠ .init ∧ c.run env s.store s.flash = ⟨.err .notInitialized, s.store, s.flash, []⟩ := by
  by_cases init : c = .init
  · subst init
    exact Or.inl ⟨rfl, (wp_initCall off.boot).ends⟩
  · exact Or.inr ⟨init, refuses off.inactive init⟩

theorem Off.cut (off : Off env s slots) {count : Nat} {f : Flash n}
    (cut : cutAfter (c.run env) count s.store s.flash = some f) :
    ∃ Q, (Q.slots = slots ∨ RestartStage slots Q) ∧ Shown env f Q := by
  have same : Shown env s.flash ⟨slots, [], [], 0⟩ := by
    intro i
    dsimp only
    rw [(off.boot.shown i).stable]
    exact off.boot.shown i
  by_cases init : c = .init
  · subst init
    have stages : Prog.wp FlashCall (StoreCall.init.run env) (fun o st f => InitEnds env s slots o ⟨st, f⟩)
        (fun f => ∃ Q, (Q.slots = slots ∨ RestartStage slots Q) ∧ Shown env f Q) s.store s.flash := by
      refine wp_mono (wp_initCall off.boot) (fun _ _ _ => id) ?_
      rintro f ⟨Q, stage, shown⟩
      exact ⟨Q, Or.inr stage, shown⟩
    exact wp_cutAfter stages ⟨⟨slots, [], [], 0⟩, Or.inl rfl, same⟩ cut
  · unfold cutAfter at cut
    rw [refuses off.inactive init] at cut
    have here := List.mem_of_getElem? cut
    rw [List.mem_singleton.mp here]
    exact ⟨⟨slots, [], [], 0⟩, Or.inl rfl, same⟩

theorem On.cut (on : On env s P) (proper : c.Proper) {count : Nat} {f : Flash n}
    (cut : cutAfter (c.run env) count s.store s.flash = some f) : ∃ Q, CallStage env s P c Q ∧ Shown env f Q :=
  wp_cutAfter (on.runs proper) ⟨P, .start c, on.are.shown⟩ cut

theorem StoreStep.holding {e : StoreEvent} (step : StoreStep env s e t) (proper : e.call_.Proper)
    (holding : Holding env kind s) (fresh : Fresh env kind s e.call_) : Holding env kind t := by
  rcases holding with ⟨P, on, all⟩ | ⟨slots, off, image⟩
  · cases step with
    | call c => exact CallEnds.holding on (on.runs proper).ends proper all fresh
    | powerCut cut =>
        obtain ⟨Q, stage, shown⟩ := on.cut proper cut
        have values := stage.image on.usable proper on.usable.values
          fun v writes short => isValue_record (writes.storable proper) short
        exact Or.inr ⟨_, off_fresh shown values, (stage.image on.usable proper all fresh).reload⟩
  · cases step with
    | call c =>
        rcases off.after c with ⟨-, ends⟩ | ⟨-, ran⟩
        · exact ends.holding image
        · have same : s.after env c = s := by
            unfold StoreState.after
            rw [ran]
          rw [same]
          exact Or.inr ⟨slots, off, image⟩
    | powerCut cut =>
        obtain ⟨Q, stage, shown⟩ := off.cut cut
        have both : Image (fun r => IsValue env r ∧ kind r) Q.slots := by
          have before := off.boot.image.and image
          rcases stage with same | stage
          · rw [same]
            exact before
          · exact stage.image before
        exact Or.inr ⟨_, off_fresh shown (both.mono fun _ => And.left), (both.mono fun _ => And.right).reload⟩

theorem holding_erased (env : Env) (kind : Record → Prop) : Holding env kind (StoreState.erased (n := n) env) := by
  have image (kind : Record → Prop) : Image kind fun _ : Fin n => Slot.blank 0 :=
    ⟨fun _ => Or.inl trivial, nofun, fun _ _ => nofun⟩
  have boot : Bootable env (StoreState.erased (n := n) env).flash fun _ => Slot.blank 0 := ⟨fun _ => rfl, image _⟩
  exact Or.inr ⟨_, ⟨by simp [StoreState.erased, Storage.fresh], boot, Or.inl rfl⟩, image kind⟩

theorem StoreRun.holding {events : List StoreEvent} (run : StoreRun env (.erased env) events s) :
    Holding env (fun _ => True) s := by
  generalize start : StoreState.erased env = s₀ at run
  induction run with
  | nil =>
      subst start
      exact holding_erased env _
  | snoc _ proper step ih => exact StoreStep.holding step proper ih fun _ _ _ => trivial

end

end EspFirmware.Proof.Nvs

/-!
Flash is only written where it has not been written before, and bits are only cleared.
-/

namespace EspFirmware.Proof.Nvs
open EspFirmware.Nvs EspFirmware.Spec EspFirmware.Lib Prog

variable {env : Env} {n : Nat} {s : StoreState n}

def TablesAgree (s : StoreState n) : Prop :=
  ∀ i, (s.store.mPageManager.mPages i).mState ∈ [PageState.active, .full, .freeing] →
    (s.store.mPageManager.mPages i).mEntryTable = tableOf (s.flash i)

theorem PageIs.table {pg : Page} {f : Sector} {slot : Slot} (page : PageIs env pg f slot)
    (used : pg.mState ∈ [PageState.active, .full, .freeing]) : pg.mEntryTable = tableOf f := by
  cases slot with
  | blank seq =>
      rw [page.1.state] at used
      exact absurd used (by decide)
  | junk =>
      rw [page.1] at used
      exact absurd used (by decide)
  | used st seq segs => exact (UsedPage.clean page).sync.table

theorem Holding.tablesAgree {kind : Record → Prop} (holding : Holding env kind s) : TablesAgree s := by
  intro i used
  rcases holding with ⟨P, on, -⟩ | ⟨slots, off, -⟩
  · exact (on.are.pages i).table used
  · rcases off.pages with fresh | ⟨P, are⟩
    · rw [fresh] at used
      exact absurd used (by simp [Page.fresh])
    · exact (are.pages i).table used

theorem Holding.calls {kind : Record → Prop} (holding : Holding env kind s) {c : StoreCall} (proper : c.Proper) :
    Calls FlashCall s.flash (c.run env s.store s.flash).steps := by
  rcases holding with ⟨P, on, -⟩ | ⟨slots, off, -⟩
  · exact (on.runs proper).calls
  · by_cases init : c = .init
    · subst init
      exact (wp_initCall off.boot).calls
    · rw [refuses off.inactive init]
      exact .nil _

/-- Whatever happened before, a call writes entries only where nothing has been written and otherwise only
clears bits, and the tables of the pages in use are those on flash afterwards. -/
theorem flash_never_overwritten {events : List StoreEvent} (run : StoreRun env (.erased env) events s) {c : StoreCall}
    (proper : c.Proper) :
    Calls FlashCall s.flash (c.run env s.store s.flash).steps ∧ TablesAgree (s.after env c) := by
  have holding := StoreRun.holding run
  refine ⟨holding.calls proper, ?_⟩
  exact (StoreStep.holding (.call c) proper holding fun _ _ _ => trivial).tablesAgree

section
variable {P : Pages n} {slots : Fin n → Slot} {c : StoreCall}

theorem CallEnds.wrote {v : Value} {o : Outcome EspErr Answer} {t : StoreState n}
    (ends : CallEnds env s P (.writeItem v) o t) {page : Fin n} (last_ : P.list.getLast? = some page) :
    On env t (P.writeItem env v page).2 := by
  cases ends with
  | writeItem last' on names =>
      rw [last_] at last'
      cases last'
      exact on

theorem CallEnds.erased {nsIndex : Byte} {datatype : ItemType} {key : List Byte} {o : Outcome EspErr Answer}
    {t : StoreState n} (ends : CallEnds env s P (.eraseItem nsIndex datatype key) o t) :
    On env t (P.eraseItem nsIndex datatype (some key)).2 := by
  cases ends with
  | eraseItem on names => exact on

theorem InitEnds.on {o : Outcome EspErr Answer} {t : StoreState n} (ends : InitEnds env s slots o t)
    (ok : (Pages.restart slots).1 = .ok ()) : On env t (Pages.restart slots).2 := by
  cases ends with
  | started _ on => exact on
  | failed failed off =>
      rw [ok] at failed
      cases failed

theorem On.wrote (on : On env s P) {v : Value} (proper : (StoreCall.writeItem v).Proper) {page : Fin n}
    (last_ : P.list.getLast? = some page) : On env (s.after env (.writeItem v)) (P.writeItem env v page).2 :=
  (on.runs proper).ends.wrote last_

theorem On.restarted (on : On env s P) (ok : (Pages.restart fun i => (P.slots i).reload env).1 = .ok ()) :
    On env (StoreState.after env ⟨Storage.fresh env, s.flash⟩ .init)
      (Pages.restart fun i => (P.slots i).reload env).2 :=
  (wp_initCall (s := ⟨Storage.fresh env, s.flash⟩) on.boot).ends.on ok

theorem snoc_call {t : StoreState n} {events : List StoreEvent} (run : StoreRun env s events t) (proper : c.Proper) :
    StoreRun env s (events ++ [.call c]) (t.after env c) := .snoc run proper (.call c)

theorem snoc_cut {t u : StoreState n} {events : List StoreEvent} (run : StoreRun env s events t) (proper : c.Proper)
    {count : Nat} (cut : StoreStep env t (.powerCut c count) u) : StoreRun env s (events ++ [.powerCut c count]) u :=
  .snoc run proper cut

theorem On.page_erased (on : On env s P) {i : Fin n} (unused : (P.slots i).isUsed = false)
    (numbered : (P.slots i).seq ≠ 0xFFFFFFFF) : s.flash i = erasedSector := by
  have page := on.are.pages i
  cases slot : P.slots i with
  | blank seq =>
      rw [slot] at page
      exact page.2.2
  | junk =>
      rw [slot] at numbered
      exact absurd rfl numbered
  | used st seq segs =>
      rw [slot] at unused
      cases unused

theorem On.page_active (on : On env s P) {i : Fin n} (active : (P.slots i).isActive = true) :
    (s.store.mPageManager.mPages i).mState = .active := by
  have page := on.are.pages i
  cases slot : P.slots i with
  | blank seq =>
      rw [slot] at active
      cases active
  | junk =>
      rw [slot] at active
      cases active
  | used st seq segs =>
      rw [slot] at active page
      cases st with
      | active => exact UsedPage.state page
      | uninitialized | full | freeing | corrupt | invalid => cases active

theorem On.cutAtEnd (on : On env s P) (proper : c.Proper) {count : Nat}
    (steps : (c.run env s.store s.flash).steps.length = count) :
    StoreStep env s (.powerCut c count) ⟨Storage.fresh env, (s.after env c).flash⟩ := by
  have whole := wp_cutAfter_end (on.runs proper)
  rw [steps] at whole
  exact .powerCut whole

end

def shortValue (key value : Byte) : Value := ⟨1, ItemType.U8, [key], [value]⟩

def longValue (key : Byte) (size : Nat) : Value := ⟨1, ItemType.BLOB, [key], List.replicate size 0x55⟩

def fillPage : List StoreEvent :=
  [.call .init, .powerCut (.writeItem (shortValue 97 1)) 17, .call .init, .call (.writeItem (longValue 98 1984)),
    .call (.writeItem (longValue 99 1920)), .call (.eraseItem 1 ItemType.BLOB [98])]

def startedStore : StoreState 2 := (StoreState.erased Env.firmware).after Env.firmware .init

def startedPages : Pages 2 := (Pages.restart fun _ => .blank 0).2

def firstPage : Fin 2 := ⟨0, Nat.two_pos⟩

def cutPages : Pages 2 := (startedPages.writeItem Env.firmware (shortValue 97 1) firstPage).2

def restartedPages : Pages 2 := (Pages.restart fun i => (cutPages.slots i).reload Env.firmware).2

def longPages : Pages 2 := (restartedPages.writeItem Env.firmware (longValue 98 1984) firstPage).2

def fullPages : Pages 2 := (longPages.writeItem Env.firmware (longValue 99 1920) firstPage).2

def filledPages : Pages 2 := (fullPages.eraseItem 1 ItemType.BLOB (some [98])).2

def movedPages : Pages 2 := (filledPages.writeItem Env.firmware (longValue 100 1984) firstPage).2

theorem long_proper (key : Byte) (size : Nat) : (StoreCall.writeItem (longValue key size)).Proper :=
  ⟨show (1 : Byte) ≠ NS_ANY by decide, .inl rfl⟩

theorem filled_reached :
    ∃ s, StoreRun Env.firmware (.erased Env.firmware) fillPage s ∧ On Env.firmware s filledPages := by
  have proper : (StoreCall.writeItem (shortValue 97 1)).Proper := ⟨by decide, .inr (by decide)⟩
  have none_ : Bootable Env.firmware (StoreState.erased (n := 2) Env.firmware).flash fun _ => Slot.blank 0 :=
    ⟨fun _ => rfl, fun _ => .inl trivial, nofun, fun _ _ => nofun⟩
  have started : On Env.firmware startedStore startedPages := (wp_initCall none_).ends.on (by decide)
  have steps : ((StoreCall.writeItem (shortValue 97 1)).run Env.firmware startedStore.store
      startedStore.flash).steps.length = 17 := by decide +kernel
  have cut := started.cutAtEnd proper steps
  have first : startedPages.list.getLast? = some firstPage := by decide
  have written : On Env.firmware _ cutPages := started.wrote proper first
  have ok : (Pages.restart fun i => (cutPages.slots i).reload Env.firmware).1 = .ok () := by decide +kernel
  have restarted : On Env.firmware _ restartedPages := written.restarted ok
  have second : restartedPages.list.getLast? = some firstPage := by decide +kernel
  have long : On Env.firmware _ longPages := restarted.wrote (long_proper 98 1984) second
  have third : longPages.list.getLast? = some firstPage := by decide +kernel
  have full : On Env.firmware _ fullPages := long.wrote (long_proper 99 1920) third
  have erased : On Env.firmware _ filledPages := (full.runs (c := .eraseItem 1 ItemType.BLOB [98]) trivial).ends.erased
  have again := snoc_call (snoc_cut (snoc_call (.nil _) (c := .init) trivial) proper cut) (c := .init) trivial
  have run := snoc_call (snoc_call again (long_proper 98 1984)) (long_proper 99 1920)
  exact ⟨_, snoc_call run (c := .eraseItem 1 ItemType.BLOB [98]) trivial, erased⟩

/-- There is no room on the page, and what is left on it moves to the other page. -/
theorem flash_written_once_moved : ∃ s t : StoreState 2,
    StoreRun Env.firmware (.erased Env.firmware) fillPage s ∧
    t = s.after Env.firmware (.writeItem (longValue 100 1984)) ∧
    Calls FlashCall s.flash ((StoreCall.writeItem (longValue 100 1984)).run Env.firmware s.store s.flash).steps ∧
    TablesAgree t ∧ (s.store.mPageManager.mPages 0).mState = .active ∧ t.flash 0 = erasedSector ∧
    (t.store.mPageManager.mPages 1).mState = .active := by
  obtain ⟨s, run, filled⟩ := filled_reached
  obtain ⟨calls, agree⟩ := flash_never_overwritten run (long_proper 100 1984)
  have last_ : filledPages.list.getLast? = some firstPage := by decide +kernel
  have moved : On Env.firmware _ movedPages := filled.wrote (long_proper 100 1984) last_
  have before : (filledPages.slots 0).isActive = true := by decide +kernel
  have unused : (movedPages.slots 0).isUsed = false ∧ (movedPages.slots 0).seq ≠ 0xFFFFFFFF := by decide +kernel
  have after : (movedPages.slots 1).isActive = true := by decide +kernel
  exact ⟨s, _, run, rfl, calls, agree, filled.page_active before, moved.page_erased unused.1 unused.2,
    moved.page_active after⟩

/-- The table of a page that has not been used is whatever was in memory. -/
theorem unused_table_differs :
    StoreRun Env.firmware (.erased Env.firmware) [.call .init]
        ((StoreState.erased (n := 2) Env.firmware).after Env.firmware .init) ∧
      (((StoreState.erased (n := 2) Env.firmware).after Env.firmware .init).store.mPageManager.mPages 1).mEntryTable ≠
        tableOf (((StoreState.erased (n := 2) Env.firmware).after Env.firmware .init).flash 1) := by
  refine ⟨.snoc (.nil _) trivial (.call .init), fun same => ?_⟩
  have words :
      (((StoreState.erased (n := 2) Env.firmware).after Env.firmware .init).store.mPageManager.mPages 1).mEntryTable 0 ≠
        tableOf (((StoreState.erased (n := 2) Env.firmware).after Env.firmware .init).flash 1) 0 := by
    decide
  exact words (congrFun same 0)

end EspFirmware.Proof.Nvs
