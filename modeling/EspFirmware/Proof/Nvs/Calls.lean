import EspFirmware.Proof.Nvs.Image
import EspFirmware.Spec.StoreRun

/-!
What a call of `Storage` does, said once for every call: how it ends, and what flash shows if the power goes
out during it.
-/

namespace EspFirmware.Proof.Nvs
open EspFirmware.Nvs EspFirmware.Spec EspFirmware.Lib Prog

variable {env : Env} {n : Nat}

structure On (env : Env) (s : StoreState n) (P : Pages n) : Prop where
  active : s.store.mState = .active
  are : Are env s.store.mPageManager s.flash P
  usable : Usable env P

structure Bootable (env : Env) (f : Flash n) (slots : Fin n → Slot) : Prop where
  shown : ShownAs env f slots
  image : Image (IsValue env) slots

def PagesOff (env : Env) (s : StoreState n) : Prop :=
  s.store.mPageManager.mPages = (fun _ => Page.fresh env) ∨ ∃ P, Are env s.store.mPageManager s.flash P

structure Off (env : Env) (s : StoreState n) (slots : Fin n → Slot) : Prop where
  inactive : s.store.mState ≠ .active
  boot : Bootable env s.flash slots
  pages : PagesOff env s

theorem On.boot {s : StoreState n} {P : Pages n} (on : On env s P) :
    Bootable env s.flash fun i => (P.slots i).reload env :=
  ⟨on.are.shown, (on.usable.image on.usable.values).reload⟩

def SameNames (s t : StoreState n) : Prop :=
  t.store.mNamespaces = s.store.mNamespaces ∧ t.store.mNamespaceUsage = s.store.mNamespaceUsage

def outcomeOf {α β : Type} (f : α → β) : Except EspErr α → Outcome EspErr β
  | .ok a => .ok (f a)
  | .error e => .err e

inductive InitEnds (env : Env) (s : StoreState n) (slots : Fin n → Slot) : Outcome EspErr Answer → StoreState n → Prop where
  | started {m : PageManager n} {f : Flash n} (ok : (Pages.restart slots).1 = .ok ())
      (on : On env ⟨started s.store m (Pages.restart slots).2, f⟩ (Pages.restart slots).2) :
      InitEnds env s slots (.ok .done) ⟨started s.store m (Pages.restart slots).2, f⟩
  | failed {t : StoreState n} {e : EspErr} (failed : (Pages.restart slots).1 = .error e)
      (off : Off env t fun i => ((Pages.restart slots).2.slots i).reload env) :
      InitEnds env s slots (.err e) t

def namespaceValue (nsName : List Byte) (ns : Nat) : Value := ⟨NS_INDEX, ItemType.U8, nsName, [BitVec.ofNat 8 ns]⟩

def named (s : StoreState n) (nsName : List Byte) : Option NamespaceEntry :=
  s.store.mNamespaces.find? fun e => Page.strncmpEq MAX_KEY_LENGTH nsName e.mName

structure AddsName (nsName : List Byte) (ns : Nat) (s t : StoreState n) : Prop where
  names : t.store.mNamespaces = s.store.mNamespaces ++ [⟨(cString nsName).take MAX_KEY_LENGTH, BitVec.ofNat 8 ns⟩]
  usage : t.store.mNamespaceUsage = CompressedEnumTable.set 1 s.store.mNamespaceUsage ns 1

inductive CallEnds (env : Env) (s : StoreState n) (P : Pages n) : StoreCall → Outcome EspErr Answer → StoreState n → Prop where
  | init {o : Outcome EspErr Answer} {t : StoreState n} (ends : InitEnds env s (fun i => (P.slots i).reload env) o t) :
      CallEnds env s P .init o t
  | writeItem {v : Value} {page : Fin n} {t : StoreState n} (last_ : P.list.getLast? = some page)
      (on : On env t (P.writeItem env v page).2) (names : SameNames s t) :
      CallEnds env s P (.writeItem v) (outcomeOf (fun _ => .done) (P.writeItem env v page).1) t
  | eraseItem {nsIndex : Byte} {datatype : ItemType} {key : List Byte} {t : StoreState n}
      (on : On env t (P.eraseItem nsIndex datatype (some key)).2) (names : SameNames s t) :
      CallEnds env s P (.eraseItem nsIndex datatype key)
        (outcomeOf (fun _ => .done) (P.eraseItem nsIndex datatype (some key)).1) t
  | eraseNamespace {nsIndex : Byte} {t : StoreState n} (on : On env t (P.eraseNamespace nsIndex)) (names : SameNames s t) :
      CallEnds env s P (.eraseNamespace nsIndex) (.ok .done) t
  | unread {nsIndex : Byte} {datatype : ItemType} {key buffer : List Byte}
      (missing : P.find nsIndex datatype (some key) = none) :
      CallEnds env s P (.readItem nsIndex datatype key buffer) (.err .notFound) s
  | read {nsIndex : Byte} {datatype : ItemType} {key buffer : List Byte} {page : Fin n} {r : Record} {ns : Byte}
      {k value : List Byte} (found : P.find nsIndex datatype (some key) = some (page, r))
      (valued : Valued env r ns datatype k value) :
      CallEnds env s P (.readItem nsIndex datatype key buffer) (outcomeOf .bytes (readInto datatype value buffer)) s
  | unsized {nsIndex : Byte} {datatype : ItemType} {key : List Byte} (missing : P.find nsIndex datatype (some key) = none) :
      CallEnds env s P (.getItemDataSize nsIndex datatype key) (.err .notFound) s
  | sized {nsIndex : Byte} {datatype : ItemType} {key : List Byte} {page : Fin n} {r : Record}
      (found : P.find nsIndex datatype (some key) = some (page, r)) :
      CallEnds env s P (.getItemDataSize nsIndex datatype key) (.ok (.size r.head.dataSize)) s
  | opened {nsName : List Byte} {canCreate : Bool} {e : NamespaceEntry} (known : named s nsName = some e) :
      CallEnds env s P (.createOrOpenNamespace nsName canCreate) (.ok (.index e.mIndex)) s
  | unknown {nsName : List Byte} (unknown : named s nsName = none) :
      CallEnds env s P (.createOrOpenNamespace nsName false) (.err .notFound) s
  | noIndex {nsName : List Byte} (unknown : named s nsName = none)
      (none_ : Storage.freeNamespaceIndex s.store.mNamespaceUsage = none) :
      CallEnds env s P (.createOrOpenNamespace nsName true) (.err .notEnoughSpace) s
  | notCreated {nsName : List Byte} {ns : Nat} {page : Fin n} {e : EspErr} {t : StoreState n}
      (unknown : named s nsName = none) (some_ : Storage.freeNamespaceIndex s.store.mNamespaceUsage = some ns)
      (last_ : P.list.getLast? = some page) (failed : (P.writeItem env (namespaceValue nsName ns) page).1 = .error e)
      (on : On env t (P.writeItem env (namespaceValue nsName ns) page).2) (names : SameNames s t) :
      CallEnds env s P (.createOrOpenNamespace nsName true) (.err e) t
  | created {nsName : List Byte} {ns : Nat} {page : Fin n} {t : StoreState n}
      (unknown : named s nsName = none) (some_ : Storage.freeNamespaceIndex s.store.mNamespaceUsage = some ns)
      (last_ : P.list.getLast? = some page) (ok : (P.writeItem env (namespaceValue nsName ns) page).1 = .ok ())
      (on : On env t (P.writeItem env (namespaceValue nsName ns) page).2) (names : AddsName nsName ns s t) :
      CallEnds env s P (.createOrOpenNamespace nsName true) (.ok (.index (BitVec.ofNat 8 ns))) t

inductive CallStage (env : Env) (s : StoreState n) (P : Pages n) : StoreCall → Pages n → Prop where
  | start (c : StoreCall) : CallStage env s P c P
  | restart {Q : Pages n} (stage : RestartStage (fun i => (P.slots i).reload env) Q) : CallStage env s P .init Q
  | store {v : Value} {page : Fin n} {Q : Pages n} (last_ : P.list.getLast? = some page)
      (stage : StoreStage env v P page Q) : CallStage env s P (.writeItem v) Q
  | erase {nsIndex : Byte} {datatype : ItemType} {key : List Byte} :
      CallStage env s P (.eraseItem nsIndex datatype key) (P.eraseItem nsIndex datatype (some key)).2
  | namespace_ {nsIndex : Byte} {Q : Pages n} (stage : NamespaceStage nsIndex P Q) :
      CallStage env s P (.eraseNamespace nsIndex) Q
  | create {nsName : List Byte} {ns : Nat} {page : Fin n} {Q : Pages n} (unknown : named s nsName = none)
      (some_ : Storage.freeNamespaceIndex s.store.mNamespaceUsage = some ns) (last_ : P.list.getLast? = some page)
      (stage : StoreStage env (namespaceValue nsName ns) P page Q) :
      CallStage env s P (.createOrOpenNamespace nsName true) Q

theorem storable_namespace (nsName : List Byte) (ns : Nat) : Storable (namespaceValue nsName ns) :=
  ⟨show NS_INDEX ≠ NS_ANY by decide, Or.inr ⟨List.mem_cons_self, show 1 = (ItemType.U8 &&& 0x0F).toNat by decide⟩⟩

abbrev CallRuns (env : Env) (s : StoreState n) (P : Pages n) (c : StoreCall) : Prop :=
  Prog.wp FlashCall (c.run env) (fun o st f => CallEnds env s P c o ⟨st, f⟩)
    (fun f => ∃ Q, CallStage env s P c Q ∧ Shown env f Q) s.store s.flash

section
variable {s : StoreState n} {P : Pages n}

theorem started_on {m : PageManager n} {f : Flash n} {slots : Fin n → Slot} (image : Image (IsValue env) slots)
    (ok : (Pages.restart slots).1 = .ok ()) (are : Are env m f (Pages.restart slots).2) :
    On env ⟨started s.store m (Pages.restart slots).2, f⟩ (Pages.restart slots).2 := by
  refine ⟨rfl, ?_, restart_usable image (fun _ => id) ok⟩
  have manager : (started s.store m (Pages.restart slots).2).mPageManager = m := by
    unfold started
    exact register_manager _ _
  dsimp only
  rw [manager]
  exact are

theorem restart_off {m : PageManager n} {f : Flash n} {slots : Fin n → Slot} (image : Image (IsValue env) slots)
    (are : Are env m f (Pages.restart slots).2) :
    Off env ⟨{ s.store with mPageManager := m, mState := .invalid }, f⟩
      fun i => ((Pages.restart slots).2.slots i).reload env := by
  have image' := (restart_stage slots).image image
  exact ⟨by simp, ⟨are.shown, image'.reload⟩, Or.inr ⟨_, are⟩⟩

theorem wp_initCall {slots : Fin n → Slot} (boot : Bootable env s.flash slots) :
    Prog.wp FlashCall (StoreCall.init.run env) (fun o st f => InitEnds env s slots o ⟨st, f⟩)
      (fun f => ∃ Q, RestartStage slots Q ∧ Shown env f Q) s.store s.flash := by
  refine wp_bind (wp_init boot.image.found boot.shown ?_ ?_ ?_)
  · intro ok i member
    exact (restart_usable boot.image (fun _ => id) ok).searchable member
  · intro m' f' are
    cases result : (Pages.restart slots).1 with
    | ok u => exact wp_pure _ (.started result (started_on boot.image result are))
    | error e => exact .failed result (restart_off boot.image are)
  · intro f' Q stage shown
    exact ⟨Q, stage, shown⟩

theorem On.writeItem (on : On env s P) {v : Value} (storable : Storable v) : CallRuns env s P (.writeItem v) := by
  obtain ⟨-, page, -, last_⟩ := on.usable.last
  refine wp_bind (wp_storageWriteItem on.usable storable on.active on.are last_ ?_ ?_)
  · intro m' f' are
    have after : Usable env (P.writeItem env v page).2 := (writeItem_stored on.usable storable last_).usable
    have ends : CallEnds env s P (.writeItem v) _ ⟨withManager s.store m', f'⟩ :=
      .writeItem last_ ⟨on.active, are, after⟩ ⟨rfl, rfl⟩
    revert ends
    cases (P.writeItem env v page).1 with
    | ok u => exact fun ends => wp_pure _ ends
    | error e => exact id
  · intro f' Q stage shown
    exact ⟨Q, .store last_ stage, shown⟩

theorem On.eraseItem (on : On env s P) (nsIndex : Byte) (datatype : ItemType) (key : List Byte) :
    CallRuns env s P (.eraseItem nsIndex datatype key) := by
  refine wp_bind (wp_storageEraseItem on.usable on.active on.are ?_ ?_)
  · intro m' f' are
    have after : Usable env (P.eraseItem nsIndex datatype (some key)).2 := by
      rcases eraseItem_result on.usable nsIndex datatype (some key) with
        ⟨failed, -⟩ | ⟨page, r, -, -, usable, -⟩
      · rw [failed]
        exact on.usable
      · exact usable
    have ends : CallEnds env s P (.eraseItem nsIndex datatype key) _ ⟨withManager s.store m', f'⟩ :=
      .eraseItem ⟨on.active, are, after⟩ ⟨rfl, rfl⟩
    revert ends
    cases (P.eraseItem nsIndex datatype (some key)).1 with
    | ok u => exact fun ends => wp_pure _ ends
    | error e => exact id
  · intro f' shown
    exact ⟨_, .erase, shown⟩

theorem On.eraseNamespace (on : On env s P) (nsIndex : Byte) : CallRuns env s P (.eraseNamespace nsIndex) := by
  refine wp_bind (wp_storageEraseNamespace on.usable on.active on.are ?_ ?_)
  · intro m' f' are
    exact wp_pure _ (.eraseNamespace ⟨on.active, are, on.usable.eraseNamespace nsIndex⟩ ⟨rfl, rfl⟩)
  · intro f' Q stage shown
    exact ⟨Q, .namespace_ stage, shown⟩

theorem On.readItem (on : On env s P) (nsIndex : Byte) {datatype : ItemType} (specific : datatype ≠ ItemType.ANY)
    (key buffer : List Byte) : CallRuns env s P (.readItem nsIndex datatype key buffer) := by
  refine wp_bind (wp_storageReadItem on.usable on.active on.are specific (fun missing => .unread missing) ?_)
  intro page r ns k value found valued
  have ends : CallEnds env s P (.readItem nsIndex datatype key buffer) _ s := .read found valued
  revert ends
  cases readInto datatype value buffer with
  | ok data => exact fun ends => wp_pure _ ends
  | error e => exact id

theorem On.getItemDataSize (on : On env s P) (nsIndex : Byte) (datatype : ItemType) (key : List Byte) :
    CallRuns env s P (.getItemDataSize nsIndex datatype key) := by
  refine wp_bind (wp_storageDataSize on.usable on.active on.are (fun missing => .unsized missing) ?_)
  intro page r found
  exact wp_pure _ (.sized found)

theorem On.createOrOpenNamespace (on : On env s P) (nsName : List Byte) (canCreate : Bool) :
    CallRuns env s P (.createOrOpenNamespace nsName canCreate) := by
  refine wp_bind ?_
  unfold Storage.createOrOpenNamespace
  refine wp_bind (wp_requireActive on.active (wp_bind (wp_get ?_)))
  dsimp only
  cases known : s.store.mNamespaces.find? fun e => Page.strncmpEq MAX_KEY_LENGTH nsName e.mName with
  | some e => exact wp_pure _ (wp_pure _ (.opened known))
  | none =>
      cases canCreate with
      | false => exact wp_throw _ (.unknown known)
      | true =>
          rw [if_neg (by simp)]
          cases free : Storage.freeNamespaceIndex s.store.mNamespaceUsage with
          | none => exact wp_throw _ (.noIndex known free)
          | some ns =>
              obtain ⟨-, page, -, last_⟩ := on.usable.last
              have storable := storable_namespace nsName ns
              refine wp_bind (wp_storageWriteItem (v := namespaceValue nsName ns) on.usable storable on.active on.are
                last_ ?_ ?_)
              · intro m' f' are
                have after : Usable env (P.writeItem env (namespaceValue nsName ns) page).2 :=
                  (writeItem_stored on.usable storable last_).usable
                cases result : (P.writeItem env (namespaceValue nsName ns) page).1 with
                | error e => exact .notCreated known free last_ result ⟨on.active, are, after⟩ ⟨rfl, rfl⟩
                | ok u =>
                    refine wp_bind (wp_modify (wp_pure _ (wp_pure _ ?_)))
                    exact .created known free last_ result ⟨on.active, are, after⟩ ⟨rfl, rfl⟩
              · intro f' Q stage shown
                exact ⟨Q, .create known free last_ stage, shown⟩

theorem On.runs (on : On env s P) {c : StoreCall} (proper : c.Proper) : CallRuns env s P c := by
  cases c with
  | init =>
      refine wp_mono (wp_initCall on.boot) (fun o st f ends => .init ends) ?_
      rintro f ⟨Q, stage, shown⟩
      exact ⟨Q, .restart stage, shown⟩
  | writeItem v => exact on.writeItem ⟨proper.1, proper.2⟩
  | eraseItem nsIndex datatype key => exact on.eraseItem nsIndex datatype key
  | eraseNamespace nsIndex => exact on.eraseNamespace nsIndex
  | readItem nsIndex datatype key buffer => exact on.readItem nsIndex proper key buffer
  | getItemDataSize nsIndex datatype key => exact on.getItemDataSize nsIndex datatype key
  | createOrOpenNamespace nsName canCreate => exact on.createOrOpenNamespace nsName canCreate

theorem refuses {c : StoreCall} (inactive : s.store.mState ≠ .active) (notInit : c ≠ .init) :
    c.run env s.store s.flash = ⟨.err .notInitialized, s.store, s.flash, []⟩ := by
  have refused {α : Type} (rest : Storage.StorageM n α) :
      (Storage.requireActive >>= fun _ => rest) s.store s.flash = ⟨.err .notInitialized, s.store, s.flash, []⟩ := by
    change Prog.bind Storage.requireActive _ s.store s.flash = _
    have stops : Storage.requireActive s.store s.flash = ⟨.err .notInitialized, s.store, s.flash, []⟩ := by
      unfold Storage.requireActive
      change (if s.store.mState ≠ .active then throw .notInitialized else pure () : Storage.StorageM n Unit) _ _ = _
      rw [if_pos inactive]
      rfl
    unfold Prog.bind
    rw [stops]
  have then_ {α : Type} {p : Storage.StorageM n α} (refused : p s.store s.flash = ⟨.err .notInitialized, s.store, s.flash, []⟩)
      (next : α → Storage.StorageM n Answer) : (p >>= next) s.store s.flash = ⟨.err .notInitialized, s.store, s.flash, []⟩ := by
    change Prog.bind p next s.store s.flash = _
    unfold Prog.bind
    rw [refused]
  cases c with
  | init => exact absurd rfl notInit
  | writeItem v => exact then_ (refused _) _
  | eraseItem nsIndex datatype key => exact then_ (refused _) _
  | eraseNamespace nsIndex => exact then_ (refused _) _
  | readItem nsIndex datatype key buffer => exact then_ (refused _) _
  | getItemDataSize nsIndex datatype key => exact then_ (refused _) _
  | createOrOpenNamespace nsName canCreate => exact then_ (refused _) _

end

end EspFirmware.Proof.Nvs
