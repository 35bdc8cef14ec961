import EspFirmware.Proof.Nvs.Names

/-!
Every run of the `nvs_*` functions is a run of the store they are made on, and their calls are proper ones.
-/

namespace EspFirmware.Proof.Nvs
open EspFirmware.Nvs EspFirmware.Spec EspFirmware.Lib Prog

variable {env : Env} {n : Nat}

structure Reached (env : Env) (s : StoreState n) : Prop where
  run : ∃ events, StoreRun env (.erased env) events s
  names : ∃ nameOf, Named env nameOf s

section
variable {s : StoreState n} {c : StoreCall}

theorem Reached.step {e : StoreEvent} {t : StoreState n} (reached : Reached env s) (step : StoreStep env s e t)
    (proper : e.call_.Proper) (outside : StoreCall.Outside e.call_) : Reached env t := by
  obtain ⟨⟨events, run⟩, nameOf, named⟩ := reached
  exact ⟨⟨_, .snoc run proper step⟩, StoreStep.named step proper outside named⟩

theorem reached_erased (env : Env) : Reached env (StoreState.erased (n := n) env) :=
  ⟨⟨[], .nil _⟩, _, named_erased env⟩

theorem Reached.fresh (reached : Reached env s) : Reached env ⟨Storage.fresh env, s.flash⟩ :=
  reached.step (e := .powerCut .init 0) (.powerCut rfl) trivial trivial

theorem Reached.runs (reached : Reached env s) (proper : c.Proper) (outside : StoreCall.Outside c) :
    Prog.wp FlashCall (c.run env) (fun _ st f => Reached env ⟨st, f⟩) (fun f => Reached env ⟨Storage.fresh env, f⟩)
      s.store s.flash := by
  obtain ⟨events, run⟩ := reached.run
  have holding := StoreRun.holding run
  refine ⟨reached.step (.call c) proper outside, fun f step => ?_, holding.calls proper, ?_⟩
  · obtain ⟨k, at_⟩ := List.mem_iff_getElem?.mp step
    exact reached.step (e := .powerCut c (k + 1)) (.powerCut at_) proper outside
  · rcases holding with ⟨P, on, -⟩ | ⟨slots, off, -⟩
    · exact (on.runs proper).last
    · rcases off.after c with ⟨rfl, -⟩ | ⟨-, ran⟩
      · exact (wp_initCall off.boot).last
      · rw [ran]
        rfl

theorem CallEnds.index {P : Pages n} {nsName : List Byte} {canCreate : Bool} {o : Outcome EspErr Answer}
    {t : StoreState n} (ends : CallEnds env s P (.createOrOpenNamespace nsName canCreate) o t)
    {nameOf : Byte → List Byte} (registered : Registered nameOf s P) {i : Byte} (ok : o = .ok (.index i)) :
    ValidIndex i := by
  cases ends with
  | opened known =>
      cases ok
      exact (registered.entries _ (List.mem_of_find?_eq_some known)).1
  | created unknown some_ =>
      cases ok
      exact validIndex_new some_
  | unknown => cases ok
  | noIndex => cases ok
  | notCreated => cases ok

theorem Reached.index (reached : Reached env s) {nsName : List Byte} {canCreate : Bool} {i : Byte}
    (ok : ((StoreCall.createOrOpenNamespace nsName canCreate).run env s.store s.flash).outcome = .ok (.index i)) :
    ValidIndex i := by
  obtain ⟨nameOf, ⟨P, on, -, registered⟩ | ⟨slots, off, -⟩⟩ := reached.names
  · exact (on.runs (c := .createOrOpenNamespace nsName canCreate) trivial).ends.index registered ok
  · rw [refuses (c := .createOrOpenNamespace nsName canCreate) off.inactive nofun] at ok
    cases ok

end

structure ApiHolds (env : Env) (api : Api n) (f : Flash n) : Prop where
  reached : Reached env ⟨api.storage, f⟩
  handles : ∀ e ∈ api.sNvsHandles, ValidIndex e.mNsIndex

abbrev ApiRuns {α : Type} (env : Env) (p : Api.ApiM n α) (post : Outcome EspErr α → Api n → Flash n → Prop)
    (api : Api n) (f : Flash n) : Prop :=
  Prog.wp FlashCall p post (fun f => Reached env ⟨Storage.fresh env, f⟩) api f

section
variable {api : Api n} {f : Flash n}

theorem runs_onStorage {α : Type} {p : Storage.StorageM n α} {g : α → Answer} {c : StoreCall}
    {post : Outcome EspErr α → Api n → Flash n → Prop} (reached : Reached env ⟨api.storage, f⟩)
    (made : c.run env = p >>= fun x => pure (g x)) (proper : c.Proper) (outside : StoreCall.Outside c)
    (ends : ∀ o st f', Reached env ⟨st, f'⟩ → o.map g = (c.run env api.storage f).outcome →
      post o { api with storage := st } f') : ApiRuns env (Api.onStorage p) post api f := by
  have runs := reached.runs proper outside
  have exact_ : Prog.wp FlashCall (c.run env)
      (fun o st f' => Reached env ⟨st, f'⟩ ∧ o = (c.run env api.storage f).outcome)
      (fun f => Reached env ⟨Storage.fresh env, f⟩) api.storage f :=
    ⟨⟨runs.ends, rfl⟩, runs.stops, runs.calls, runs.last⟩
  nth_rewrite 1 [made] at exact_
  refine wp_zoom rfl (fun x steps call => by simpa using call) ?_
  exact wp_mono (wp_of_map exact_) (fun o st f' both => ends o st f' both.1 both.2) fun _ => id

theorem holds_onStorage {α : Type} {p : Storage.StorageM n α} {g : α → Answer} {c : StoreCall}
    (holds : ApiHolds env api f) (made : c.run env = p >>= fun x => pure (g x)) (proper : c.Proper)
    (outside : StoreCall.Outside c) : ApiRuns env (Api.onStorage p) (fun _ => ApiHolds env) api f :=
  runs_onStorage holds.reached made proper outside fun _ _ _ reached _ => ⟨reached, holds.handles⟩

theorem holds_then {α β : Type} {p : Api.ApiM n α} {g : α → β} (run : ApiRuns env p (fun _ => ApiHolds env) api f) :
    ApiRuns env (p >>= fun x => pure (g x)) (fun _ => ApiHolds env) api f := by
  refine wp_bind (wp_mono run (fun o api' f' holds => ?_) fun _ => id)
  cases o with
  | ok x => exact wp_pure _ holds
  | err e => exact holds
  | fault => exact holds

theorem runs_find {handle : Word} {post : Outcome EspErr HandleEntry → Api n → Flash n → Prop}
    (holds : ApiHolds env api f) (found : ∀ e, ValidIndex e.mNsIndex → post (.ok e) api f)
    (missing : post (.err .invalidHandle) api f) : ApiRuns env (Api.nvsFindNsHandle handle) post api f := by
  unfold Api.nvsFindNsHandle
  refine wp_bind (wp_get ?_)
  dsimp only
  cases entry : api.sNvsHandles.find? fun e => e.mHandle = handle with
  | none => exact wp_throw _ missing
  | some e => exact wp_pure _ (found e (holds.handles e (List.mem_of_find?_eq_some entry)))

theorem holds_through {α : Type} {handle : Word} {p : HandleEntry → Api.ApiM n α} (holds : ApiHolds env api f)
    (each : ∀ e, ValidIndex e.mNsIndex → ApiRuns env (p e) (fun _ => ApiHolds env) api f) :
    ApiRuns env (Api.nvsFindNsHandle handle >>= p) (fun _ => ApiHolds env) api f :=
  wp_bind (runs_find holds each holds)

theorem holds_guarded {α : Type} {handle : Word} {p : HandleEntry → Api.ApiM n α} (holds : ApiHolds env api f)
    (each : ∀ e, ValidIndex e.mNsIndex → ApiRuns env (p e) (fun _ => ApiHolds env) api f) :
    ApiRuns env (do
      let e ← Api.nvsFindNsHandle handle
      if e.mReadOnly then throw .readOnly
      p e) (fun _ => ApiHolds env) api f := by
  refine holds_through holds fun e valid => ?_
  cases readOnly : e.mReadOnly with
  | true => exact wp_bind (wp_throw _ holds)
  | false => exact wp_bind (wp_pure _ (each e valid))

theorem valid_proper {i : Byte} (valid : ValidIndex i) : i ≠ NS_ANY ∧ i ≠ NS_INDEX := by
  obtain ⟨low, high⟩ := valid
  constructor
  · rintro rfl
    exact absurd high (by decide)
  · rintro rfl
    exact absurd low (by decide)

theorem typed_int (t : IntType) (value : BitVec (8 * t.size)) : Typed (itemTypeOf t) (bytesOf t.size value) := by
  have length : (bytesOf t.size value).length = t.size := by simp [bytesOf]
  refine .inr ⟨?_, length.trans ?_⟩ <;> cases t <;> decide

theorem holds_write {datatype : ItemType} {key data : List Byte} {e : HandleEntry} (holds : ApiHolds env api f)
    (valid : ValidIndex e.mNsIndex) (typed : Typed datatype data) :
    ApiRuns env (Api.onStorage (Storage.writeItem env e.mNsIndex datatype key data)) (fun _ => ApiHolds env) api f :=
  holds_onStorage holds (c := .writeItem ⟨e.mNsIndex, datatype, key, data⟩) (g := fun _ => .done) rfl
    ⟨(valid_proper valid).1, typed⟩ (valid_proper valid).2

theorem holds_init (holds : ApiHolds env api f) :
    ApiRuns env (Api.nvsFlashInitCustom env) (fun _ => ApiHolds env) api f := by
  have init (api : Api n) (holds : ApiHolds env api f) :
      ApiRuns env (do
        Api.onStorage (Storage.init env)
        modify fun a => { a with inList := true }) (fun _ => ApiHolds env) api f := by
    refine wp_bind (wp_mono (holds_onStorage holds (c := .init) (g := fun _ => .done) rfl trivial trivial) ?_ fun _ => id)
    intro o api' f' holds'
    cases o with
    | ok u => exact wp_modify ⟨holds'.reached, holds'.handles⟩
    | err e => exact holds'
    | fault => exact holds'
  unfold Api.nvsFlashInitCustom
  refine wp_bind (wp_get ?_)
  dsimp only
  cases api.inList with
  | true => exact init api holds
  | false => exact wp_bind (wp_modify (init _ ⟨holds.reached.fresh, holds.handles⟩))

theorem holds_open {name : List Byte} {openMode : NvsOpenMode} (holds : ApiHolds env api f) :
    ApiRuns env (Api.nvsOpen env name openMode) (fun _ => ApiHolds env) api f := by
  unfold Api.nvsOpen
  refine wp_bind (wp_get ?_)
  dsimp only
  cases listed : api.inList with
  | false => exact wp_bind (wp_throw _ holds)
  | true =>
      refine wp_bind (runs_onStorage holds.reached (c := .createOrOpenNamespace name (openMode = .readWrite))
        (g := .index) rfl trivial trivial ?_)
      intro o st f' reached answer
      cases o with
      | err e => exact ⟨reached, holds.handles⟩
      | fault => exact ⟨reached, holds.handles⟩
      | ok i =>
          have valid : ValidIndex i := holds.reached.index answer.symm
          refine wp_bind (wp_get (wp_bind (wp_modify (wp_pure _ ⟨reached, fun e member => ?_⟩))))
          rcases List.mem_append.mp member with old | new
          · exact holds.handles e old
          · rw [List.mem_singleton.mp new]
            exact valid

theorem holds_get {type : ItemType} {handle : Word} {key : List Byte} {outValue : Option (List Byte)} {length : Option Nat}
    (specific : type ≠ ItemType.ANY) (holds : ApiHolds env api f) :
    ApiRuns env (Api.nvsGetStrOrBlob env type handle key outValue length) (fun _ => ApiHolds env) api f := by
  unfold Api.nvsGetStrOrBlob
  refine wp_bind (wp_attempt (runs_find holds (fun e valid => ?_) (wp_pure _ holds)))
  refine wp_bind (wp_attempt (wp_mono (holds_onStorage holds (c := .getItemDataSize e.mNsIndex type key) (g := .size)
    rfl trivial trivial) (fun o api f holds => ?_) fun _ => id))
  cases o with
  | err e => exact wp_pure _ holds
  | fault => exact holds
  | ok dataSize =>
      cases length with
      | none => exact wp_pure _ holds
      | some room =>
          cases outValue with
          | none => exact wp_pure _ holds
          | some buffer =>
              dsimp only
              by_cases short : room < dataSize
              · rw [if_pos short]
                exact wp_pure _ holds
              · rw [if_neg short]
                refine wp_bind (wp_attempt (wp_mono (holds_onStorage holds
                  (c := .readItem e.mNsIndex type key (buffer.take dataSize)) (g := .bytes) rfl specific trivial)
                  (fun o api f holds => ?_) fun _ => id))
                cases o with
                | ok data => exact wp_pure _ holds
                | err e => exact wp_pure _ holds
                | fault => exact holds

theorem holds_call (c : ApiCall) (holds : ApiHolds env api f) :
    ApiRuns env (c.run env) (fun _ => ApiHolds env) api f := by
  cases c with
  | nvsFlashInitCustom => exact holds_then (holds_init holds)
  | nvsFlashInit =>
      refine holds_then (wp_bind (wp_get ?_))
      dsimp only
      cases api.inList with
      | true => exact wp_pure _ holds
      | false => exact holds_init holds
  | nvsFlashDeinit =>
      refine holds_then (wp_bind (wp_get ?_))
      dsimp only
      cases api.inList with
      | true => exact wp_modify ⟨holds.reached.fresh, nofun⟩
      | false => exact wp_bind (wp_throw _ holds)
  | nvsOpen name openMode => exact holds_then (holds_open holds)
  | nvsClose handle =>
      exact holds_then (wp_modify ⟨holds.reached, fun e member => holds.handles e (List.mem_of_mem_eraseP member)⟩)
  | nvsCommit handle => exact holds_then (holds_through holds fun e valid => wp_pure _ holds)
  | nvsEraseKey handle key =>
      exact holds_then (holds_guarded holds fun e valid =>
        holds_onStorage holds (c := .eraseItem e.mNsIndex ItemType.ANY key) (g := fun _ => .done) rfl trivial trivial)
  | nvsEraseAll handle =>
      exact holds_then (holds_guarded holds fun e valid =>
        holds_onStorage holds (c := .eraseNamespace e.mNsIndex) (g := fun _ => .done) rfl trivial trivial)
  | nvsSet t handle key value =>
      exact holds_then (holds_guarded holds fun e valid => holds_write holds valid (typed_int t value))
  | nvsSetStr handle key value =>
      exact holds_then (holds_through holds fun e valid => holds_write holds valid (.inl rfl))
  | nvsSetBlob handle key value =>
      exact holds_then (holds_through holds fun e valid => holds_write holds valid (.inl rfl))
  | nvsGet t handle key outValue =>
      refine holds_then (holds_through holds fun e valid => ?_)
      refine holds_onStorage holds (c := .readItem e.mNsIndex (itemTypeOf t) key (bytesOf t.size outValue)) (g := .bytes)
        rfl ?_ trivial
      change itemTypeOf t ≠ ItemType.ANY
      cases t <;> decide
  | nvsGetStr handle key outValue length => exact holds_then (holds_get (by decide) holds)
  | nvsGetBlob handle key outValue length => exact holds_then (holds_get (by decide) holds)

end

section
variable {a b : ApiState n} {events : List ApiEvent}

theorem ApiStep.holds {e : ApiEvent} (step : ApiStep env a e b) (holds : ApiHolds env a.api a.flash) :
    ApiHolds env b.api b.flash := by
  cases step with
  | call c => exact (holds_call c holds).ends
  | powerCut cut => exact ⟨wp_cutAfter (holds_call _ holds) holds.reached.fresh cut, nofun⟩

theorem ApiRun.call (run : ApiRun env a events b) (c : ApiCall) : ApiRun env a (events ++ [.call c]) (b.after env c) :=
  .snoc run (.call c)

theorem ApiRun.holds (run : ApiRun env (.erased env) events a) : ApiHolds env a.api a.flash := by
  generalize start : ApiState.erased env = first at run
  induction run with
  | nil =>
      subst start
      exact ⟨reached_erased env, nofun⟩
  | snoc _ step ih => exact ApiStep.holds step ih

/-- What the application does is a run of proper calls of its storage, and its handles are for namespaces. -/
theorem api_refines_store (run : ApiRun env (.erased env) events a) :
    (∃ storeEvents, StoreRun env (.erased env) storeEvents a.store) ∧
      (∃ nameOf, Named env nameOf a.store) ∧ ∀ e ∈ a.api.sNvsHandles, ValidIndex e.mNsIndex :=
  have holds := ApiRun.holds run
  ⟨holds.reached.run, holds.reached.names, holds.handles⟩

/-- The functions of the application write no flash that has been written, their handles are for namespaces, and two
namespaces never have one index. -/
theorem api_keeps_store (run : ApiRun env (.erased env) events a) (c : ApiCall) :
    Calls FlashCall a.flash (c.run env a.api a.flash).steps ∧ TablesAgree (a.after env c).store ∧
      (∀ e ∈ (a.after env c).api.sNvsHandles, ValidIndex e.mNsIndex) ∧
      ((a.after env c).api.storage.mState = .active →
        ∀ e ∈ (a.after env c).api.storage.mNamespaces, ∀ e' ∈ (a.after env c).api.storage.mNamespaces,
          e.mIndex = e'.mIndex → e.mName = e'.mName) := by
  obtain ⟨⟨storeEvents, stored⟩, ⟨nameOf, named⟩, handles⟩ := api_refines_store (ApiRun.call run c)
  have calls := (holds_call c (ApiRun.holds run)).calls
  exact ⟨calls, (StoreRun.holding stored).tablesAgree, handles, named.apart⟩

end

def openedApi : ApiState 2 :=
  ((ApiState.erased Env.firmware).after Env.firmware .nvsFlashInit).after Env.firmware (.nvsOpen [97] .readWrite)

def cutApi : ApiState 2 :=
  ⟨Api.start Env.firmware, (cutAfter ((ApiCall.nvsSetStr 1 [107] [118]).run Env.firmware) 5 openedApi.api
    openedApi.flash).getD openedApi.flash⟩

def restartedApi : ApiState 2 := cutApi.after Env.firmware .nvsFlashInit

def namedApi : ApiState 2 := restartedApi.after Env.firmware (.nvsOpen [98] .readWrite)

/-- The power goes out while a string is written. Then another namespace is made beside the one there is. -/
theorem api_keeps_store_cut :
    ApiRun Env.firmware (.erased Env.firmware) [.call .nvsFlashInit, .call (.nvsOpen [97] .readWrite),
      .powerCut (.nvsSetStr 1 [107] [118]) 5, .call .nvsFlashInit] restartedApi ∧
    Calls FlashCall restartedApi.flash
      ((ApiCall.nvsOpen [98] .readWrite).run Env.firmware restartedApi.api restartedApi.flash).steps ∧
    TablesAgree namedApi.store ∧ (∀ e ∈ namedApi.api.sNvsHandles, ValidIndex e.mNsIndex) ∧
    (∀ e ∈ namedApi.api.storage.mNamespaces, ∀ e' ∈ namedApi.api.storage.mNamespaces,
      e.mIndex = e'.mIndex → e.mName = e'.mName) ∧
    namedApi.api.storage.mNamespaces = [⟨[97], 1⟩, ⟨[98], 2⟩] ∧ namedApi.api.sNvsHandles = [⟨1, false, 2⟩] := by
  have cut : ApiStep Env.firmware openedApi (.powerCut (.nvsSetStr 1 [107] [118]) 5) cutApi := by
    refine .powerCut ?_
    have some_ : (cutAfter ((ApiCall.nvsSetStr 1 [107] [118]).run Env.firmware) 5 openedApi.api
        openedApi.flash).isSome := by decide +kernel
    exact (Option.some_get some_).symm.trans (congrArg some (Option.get_eq_getD _))
  have opened : ApiRun Env.firmware (.erased Env.firmware) _ openedApi := ApiRun.call (ApiRun.call (.nil _) _) _
  have run : ApiRun Env.firmware (.erased Env.firmware) _ restartedApi := ApiRun.call (.snoc opened cut) .nvsFlashInit
  have made : restartedApi.after Env.firmware (.nvsOpen [98] .readWrite) = namedApi := rfl
  have kept := api_keeps_store run (.nvsOpen [98] .readWrite)
  rw [made] at kept
  obtain ⟨calls, tables, handles, names⟩ := kept
  have active : namedApi.api.storage.mState = .active := by decide +kernel
  have two : namedApi.api.storage.mNamespaces = [⟨[97], 1⟩, ⟨[98], 2⟩] := by decide +kernel
  have one : namedApi.api.sNvsHandles = [⟨1, false, 2⟩] := by decide +kernel
  exact ⟨run, calls, tables, handles, names active, two, one⟩

def StoreCall.Reads : StoreCall → Prop
  | .readItem _ _ _ _ | .getItemDataSize _ _ _ => True
  | _ => False

section
variable {s t : StoreState n} {P : Pages n} {c : StoreCall}

theorem CallEnds.reads {o : Outcome EspErr Answer} (ends : CallEnds env s P c o t) (reads : StoreCall.Reads c) :
    t = s := by
  cases ends with
  | unread => rfl
  | read => rfl
  | unsized => rfl
  | sized => rfl
  | init | writeItem | eraseItem | eraseNamespace | opened | unknown | noIndex | notCreated | created => exact reads.elim

theorem Reached.reads (reached : Reached env s) (proper : c.Proper) (reads : StoreCall.Reads c) : s.after env c = s := by
  obtain ⟨events, run⟩ := reached.run
  rcases StoreRun.holding run with ⟨P, on, -⟩ | ⟨slots, off, -⟩
  · exact CallEnds.reads (on.runs proper).ends reads
  · rcases off.after c with ⟨rfl, -⟩ | ⟨-, ran⟩
    · exact reads.elim
    · unfold StoreState.after
      rw [ran]

end

section
variable {api : Api n} {f : Flash n} {handle : Word} {e : HandleEntry}

abbrev Untouched {α : Type} (env : Env) (p : Api.ApiM n α) (api : Api n) (f : Flash n) : Prop :=
  ApiRuns env p (fun _ api' f' => api' = api ∧ f' = f) api f

theorem untouched_onStorage {α : Type} {p : Storage.StorageM n α} {g : α → Answer} {c : StoreCall}
    (reached : Reached env ⟨api.storage, f⟩) (made : c.run env = p >>= fun x => pure (g x)) (proper : c.Proper)
    (reads : StoreCall.Reads c) : 
    Untouched env (Api.onStorage p) api f := by
  have outside : StoreCall.Outside c := by
    cases c with
    | writeItem => exact reads.elim
    | init | eraseItem | eraseNamespace | readItem | getItemDataSize | createOrOpenNamespace => exact trivial
  have runs := reached.runs proper outside
  have same : Prog.wp FlashCall (c.run env) (fun _ st f' => (⟨st, f'⟩ : StoreState n) = ⟨api.storage, f⟩)
      (fun f => Reached env ⟨Storage.fresh env, f⟩) api.storage f :=
    ⟨reached.reads proper reads, runs.stops, runs.calls, runs.last⟩
  rw [made] at same
  refine wp_zoom rfl (fun x steps call => by simpa using call) ?_
  refine wp_mono (wp_of_map same) (fun o st f' equal => ?_) fun _ => id
  cases equal
  exact ⟨rfl, rfl⟩

theorem untouched_pure {α : Type} (x : α) : Untouched env (pure x) api f := wp_pure _ ⟨rfl, rfl⟩

theorem untouched_bind {α β : Type} {p : Api.ApiM n α} {q : α → Api.ApiM n β} (first : Untouched env p api f)
    (then_ : ∀ x, Untouched env (q x) api f) : Untouched env (p >>= q) api f := by
  refine wp_bind (wp_mono first (fun o api' f' same => ?_) fun _ => id)
  obtain ⟨rfl, rfl⟩ := same
  cases o with
  | ok x => exact then_ x
  | err e => exact ⟨rfl, rfl⟩
  | fault => exact ⟨rfl, rfl⟩

theorem untouched_attempt {α : Type} {p : Api.ApiM n α} (run : Untouched env p api f) :
    Untouched env (attempt p) api f := by
  refine wp_attempt (wp_mono run (fun o api' f' same => ?_) fun _ => id)
  cases o <;> exact same

theorem untouched_find (holds : ApiHolds env api f) : Untouched env (Api.nvsFindNsHandle handle) api f :=
  runs_find holds (fun _ _ => ⟨rfl, rfl⟩) ⟨rfl, rfl⟩

theorem untouched_read {datatype : ItemType} {key buffer : List Byte} {nsIndex : Byte} (holds : ApiHolds env api f)
    (specific : datatype ≠ ItemType.ANY) :
    Untouched env (Api.onStorage (Storage.readItem env nsIndex datatype key buffer)) api f :=
  untouched_onStorage (c := .readItem nsIndex datatype key buffer) (g := .bytes) holds.reached rfl specific trivial

theorem untouched_get {type : ItemType} {key : List Byte} {outValue : Option (List Byte)} {length : Option Nat}
    (specific : type ≠ ItemType.ANY) (holds : ApiHolds env api f) :
    Untouched env (Api.nvsGetStrOrBlob env type handle key outValue length) api f := by
  unfold Api.nvsGetStrOrBlob
  refine untouched_bind (untouched_attempt (untouched_find holds)) fun found => ?_
  cases found with
  | error e => exact untouched_pure _
  | ok e =>
      refine untouched_bind (untouched_attempt (untouched_onStorage (c := .getItemDataSize e.mNsIndex type key)
        (g := .size) holds.reached rfl trivial trivial)) fun sized => ?_
      cases sized with
      | error e => exact untouched_pure _
      | ok dataSize =>
          cases length with
          | none => exact untouched_pure _
          | some room =>
              cases outValue with
              | none => exact untouched_pure _
              | some buffer =>
                  dsimp only
                  by_cases short : room < dataSize
                  · rw [if_pos short]
                    exact untouched_pure _
                  · rw [if_neg short]
                    refine untouched_bind (untouched_attempt (untouched_read holds specific)) fun read => ?_
                    cases read with
                    | error e => exact untouched_pure _
                    | ok data => exact untouched_pure _

theorem refused_readOnly {α : Type} {p : HandleEntry → Api.ApiM n α}
    (found : (api.sNvsHandles.find? fun e => e.mHandle = handle) = some e) (readOnly : e.mReadOnly = true) :
    (do
      let e ← Api.nvsFindNsHandle handle
      if e.mReadOnly then throw .readOnly
      p e) api f = ⟨.err .readOnly, api, f, []⟩ := by
  have finds : Api.nvsFindNsHandle handle api f = ⟨.ok e, api, f, []⟩ := by
    unfold Api.nvsFindNsHandle
    rw [bind_quiet rfl, found]
    rfl
  rw [bind_quiet finds, if_pos readOnly]
  rfl

end

section
variable {a : ApiState n} {c : ApiCall}

theorem Untouched.store (run : Untouched env (c.run env) a.api a.flash) : (a.after env c).store = a.store := by
  obtain ⟨api, flash⟩ := run.ends
  unfold ApiState.after ApiState.store
  rw [api, flash]

theorem ApiHolds.readOnly (holds : ApiHolds env a.api a.flash) (readOnly : a.IsReadOnly c)
    (plain : c.setsData = false) :
    (c.modifies = true → (c.run env a.api a.flash).outcome = .err .readOnly) ∧ (a.after env c).store = a.store := by
  obtain ⟨handle, e, through, found, only⟩ := readOnly
  have refused (ran : c.run env a.api a.flash = ⟨.err .readOnly, a.api, a.flash, []⟩) :
      (c.modifies = true → (c.run env a.api a.flash).outcome = .err .readOnly) ∧ (a.after env c).store = a.store := by
    unfold ApiState.after
    rw [ran]
    exact ⟨fun _ => rfl, rfl⟩
  cases c with
  | nvsFlashInitCustom | nvsFlashInit | nvsFlashDeinit | nvsOpen => cases through
  | nvsSetStr | nvsSetBlob => cases plain
  | nvsClose => exact ⟨nofun, rfl⟩
  | nvsCommit => exact ⟨nofun, (untouched_bind (untouched_bind (untouched_find holds) fun _ => untouched_pure _)
      fun _ => untouched_pure _).store⟩
  | nvsGet t handle key outValue =>
      have specific : itemTypeOf t ≠ ItemType.ANY := by cases t <;> decide
      exact ⟨nofun, (untouched_bind (untouched_bind (untouched_find holds) fun _ => untouched_read holds specific)
        fun _ => untouched_pure _).store⟩
  | nvsGetStr => exact ⟨nofun, (untouched_bind (untouched_get (by decide) holds) fun _ => untouched_pure _).store⟩
  | nvsGetBlob => exact ⟨nofun, (untouched_bind (untouched_get (by decide) holds) fun _ => untouched_pure _).store⟩
  | nvsEraseKey handle key =>
      cases through
      exact refused (bind_err (refused_readOnly found only))
  | nvsEraseAll handle =>
      cases through
      exact refused (bind_err (refused_readOnly found only))
  | nvsSet t handle key value =>
      cases through
      exact refused (bind_err (refused_readOnly found only))

/-- Calls that go through read-only handles change nothing, as long as none sets a string or a blob. -/
theorem read_only_keeps {events : List ApiEvent} (run : ApiRun env (.erased env) events a) {calls : List ApiCall}
    (through : a.ReadOnlyCalls env calls) (plain : ∀ c ∈ calls, c.setsData = false) : a.KeepsContents env calls := by
  induction calls generalizing a events with
  | nil => exact trivial
  | cons c calls ih =>
      obtain ⟨readOnly, through⟩ := through
      obtain ⟨refused, same⟩ := (ApiRun.holds run).readOnly readOnly (plain c List.mem_cons_self)
      refine ⟨refused, congrArg (fun s => s.contents env) same, ih (ApiRun.call run c) through fun c' member => ?_⟩
      exact plain c' (List.mem_cons_of_mem _ member)

end

def readOnlyApi : ApiState 2 :=
  (openedApi.after Env.firmware (.nvsSetStr 1 [107] [118])).after Env.firmware (.nvsOpen [97] .readOnly)

def readOnlyCalls : List ApiCall :=
  [.nvsSet .u8 2 [107] 5, .nvsGetStr 2 [107] (some [0, 0]) (some 2), .nvsEraseAll 2, .nvsClose 2]

theorem readOnly_run : ApiRun Env.firmware (.erased Env.firmware)
    [.call .nvsFlashInit, .call (.nvsOpen [97] .readWrite), .call (.nvsSetStr 1 [107] [118]),
      .call (.nvsOpen [97] .readOnly)] readOnlyApi :=
  ApiRun.call (ApiRun.call (ApiRun.call (ApiRun.call (.nil _) _) _) _) _

/-- A number cannot be set, a string can be read, nothing can be erased, and the handle can be closed. -/
theorem read_only_keeps_string : readOnlyApi.KeepsContents Env.firmware readOnlyCalls ∧
    readOnlyApi.store.contents Env.firmware (1, [107]) = some (ItemType.SZ, [118, 0]) := by
  refine ⟨read_only_keeps readOnly_run ⟨?_, ?_, ?_, ?_, trivial⟩ (by decide), by decide +kernel⟩
  · exact ⟨2, ⟨2, true, 1⟩, rfl, by decide +kernel, rfl⟩
  · exact ⟨2, ⟨2, true, 1⟩, rfl, by decide +kernel, rfl⟩
  · exact ⟨2, ⟨2, true, 1⟩, rfl, by decide +kernel, rfl⟩
  · exact ⟨2, ⟨2, true, 1⟩, rfl, by decide +kernel, rfl⟩

/-- The string is set through the read-only handle. -/
theorem read_only_sets_string : readOnlyApi.ReadOnlyCalls Env.firmware [.nvsSetStr 2 [107] [119]] ∧
    ¬readOnlyApi.KeepsContents Env.firmware [.nvsSetStr 2 [107] [119]] := by
  refine ⟨⟨⟨2, ⟨2, true, 1⟩, rfl, by decide +kernel, rfl⟩, trivial⟩, fun kept => ?_⟩
  have before : readOnlyApi.store.contents Env.firmware (1, [107]) = some (ItemType.SZ, [118, 0]) := by decide +kernel
  have after : (readOnlyApi.after Env.firmware (.nvsSetStr 2 [107] [119])).store.contents Env.firmware (1, [107]) =
      some (ItemType.SZ, [119, 0]) := by decide +kernel
  rw [kept.2.1, before] at after
  exact absurd after (by decide)

end EspFirmware.Proof.Nvs
