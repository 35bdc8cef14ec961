import EspFirmware.Proof.Nvs.Counters
import EspFirmware.Proof.Nvs.Names

/-!
What is stored under each name, and what calls do to it.
-/

namespace EspFirmware.Proof.Nvs
open EspFirmware.Nvs EspFirmware.Spec EspFirmware.Lib Prog

variable {env : Env} {n : Nat}

/-! ## The records of a page -/

theorem length_located_lt {pg : Page} {s : Sector} {segs : List Seg} (clean : Clean env pg s segs) :
    ((located 0 segs).filter fun x => decide (0 ≤ x.1)).length < ENTRY_COUNT + 1 :=
  Nat.lt_succ_of_le ((List.length_filter_le _ _).trans ((length_located_le 0 segs).trans clean.fits))

theorem pageRecords_clean {pg : Page} {s : Sector} {segs : List Seg} (clean : Clean env pg s segs)
    (searched : Searched pg.mState) : pageRecords env pg s = records segs := by
  have every : ((located 0 segs).filter fun x => decide (0 ≤ x.1)) = located 0 segs := by
    rw [List.filter_eq_self]
    exact fun x _ => decide_eq_true (Nat.zero_le _)
  unfold pageRecords records
  rw [foundItems_eq clean searched _ 0 (boundary_zero segs) (length_located_lt clean), every, List.map_map]
  refine List.map_congr_left fun x member => ?_
  have at_ := located_itemAt clean.holds member
  change (⟨Page.entryAt s x.1, entriesAt s (x.1 + 1) x.2.body.length⟩ : Record) = x.2
  rw [at_.head, at_.body]

theorem pageRecords_writable {pg : Page} {s : Sector} {slot : Slot} (page : PageIs env pg s slot)
    (writable : Slot.Writable slot) : pageRecords env pg s = records slot.segs := by
  cases slot with
  | blank seq =>
      unfold pageRecords foundItems
      have none_ : Page.findItem env NS_ANY ItemType.ANY none 0 Page.blankItem pg s =
          ⟨.ok ⟨.error .notFound, Page.blankItem⟩, pg, s, []⟩ := by
        unfold Page.findItem
        rw [bind_quiet rfl]
        dsimp only
        rw [if_pos (Or.inr (Or.inr (Or.inl page.1.state)))]
        rfl
      rw [none_]
      rfl
  | junk => exact writable.elim
  | used st seq segs =>
      have used : UsedPage env pg s st seq segs := page
      refine pageRecords_clean used.clean ?_
      rw [used.state]
      exact writable.searchable

theorem On.records {s : StoreState n} {P : Pages n} (on : On env s P) : s.records env = P.live := by
  unfold StoreState.records Pages.live
  rw [on.are.list]
  refine List.flatMap_congr fun i member => ?_
  exact pageRecords_writable (on.are.pages i) (on.usable.writable member)

/-! ## Names of records -/

section
variable {r : Record} {nsIndex : Byte} {datatype : ItemType} {key data : List Byte}

theorem Valued.name (valued : Valued env r nsIndex datatype key data) : r.name = (nsIndex, cString key) := by
  obtain ⟨index, -, -, key_⟩ := valued.fields
  unfold Record.name
  rw [index, key_, cString_keyField, List.take_of_length_le valued.shortKey]

theorem Valued.entry (valued : Valued env r nsIndex datatype key data) :
    r.entry = ⟨(nsIndex, cString key), datatype, data⟩ := by
  have type := valued.fields.2.1
  have bytes : r.data = data := by
    unfold Record.data
    rw [type]
    cases variable_ : datatype.isVariable with
    | true =>
        obtain ⟨size, -, body⟩ := valued.variable_ variable_
        rw [if_pos rfl, size, body]
    | false =>
        obtain ⟨head, size⟩ := valued.fixed variable_
        rw [if_neg Bool.false_ne_true, ← size, head]
  unfold Record.entry
  rw [valued.name, type, bytes]

theorem IsValue.short (value : IsValue env r) : r.name.2.length ≤ MAX_KEY_LENGTH := by
  obtain ⟨ns, ty, k, d, valued⟩ := value
  rw [valued.name]
  exact valued.shortKey

theorem matchItem_eq (value : IsValue env r) (index : nsIndex ≠ NS_ANY) :
    Page.matchItem nsIndex datatype (some key) r.head =
      if r.name = (nsIndex, (cString key).take MAX_KEY_LENGTH) then
        if datatype ≠ ItemType.ANY ∧ r.head.datatype ≠ datatype then some (.error .typeMismatch) else some (.ok ())
      else none := by
  have whole : (cString r.head.key).take MAX_KEY_LENGTH = cString r.head.key := List.take_of_length_le value.short
  have same : (Page.strncmpEq MAX_KEY_LENGTH key r.head.key = true) ↔
      cString r.head.key = (cString key).take MAX_KEY_LENGTH := by
    rw [strncmpEq_iff, whole, eq_comm]
  unfold Page.matchItem Record.name
  by_cases other : r.head.nsIndex = nsIndex
  · rw [if_neg (fun both => both.2 other)]
    by_cases equal : Page.strncmpEq MAX_KEY_LENGTH key r.head.key = true
    · rw [if_neg (by simp [equal]), if_pos (Prod.ext other (same.mp equal))]
    · rw [if_pos (by simpa using equal), if_neg (fun name => equal (same.mpr (Prod.mk.inj name).2))]
  · rw [if_pos ⟨index, other⟩, if_neg (fun name => other (Prod.mk.inj name).1)]

end

/-! ## Lists of records with different names -/

def entries (rs : List Record) : List (Σ _ : Byte × List Byte, ItemType × List Byte) := rs.map Record.entry

def Apart (rs : List Record) : Prop := (entries rs).NodupKeys

def contentsOf (rs : List Record) (name : Byte × List Byte) : Option (ItemType × List Byte) := (entries rs).dlookup name

section
variable {rs rs' : List Record} {r : Record}

theorem Apart.subperm (apart : Apart rs) (sub : rs'.Subperm rs) : Apart rs' := by
  obtain ⟨l, perm, sub⟩ := sub
  exact (List.perm_nodupKeys (perm.map _)).mp (List.NodupKeys.sublist (sub.map _) apart)

theorem Apart.perm (apart : Apart rs) (perm : rs.Perm rs') : contentsOf rs = contentsOf rs' :=
  funext fun name => List.perm_dlookup name apart (perm.map _)

theorem contentsOf_cons (r : Record) (rs : List Record) :
    contentsOf (r :: rs) = Function.update (contentsOf rs) r.entry.1 (some r.entry.2) := by
  funext name
  by_cases same : name = r.entry.1
  · subst same
    rw [Function.update_self]
    exact List.dlookup_cons_eq _ _ _
  · rw [Function.update_of_ne same]
    exact List.dlookup_cons_ne _ _ same

theorem Apart.cons_none (apart : Apart (r :: rs)) : contentsOf rs r.name = none :=
  List.dlookup_eq_none.mpr (List.notMem_keys_of_nodupKeys_cons apart)

theorem Apart.mem_iff (apart : Apart rs) {name : Byte × List Byte} {value : ItemType × List Byte} :
    contentsOf rs name = some value ↔ ∃ r ∈ rs, r.entry = ⟨name, value⟩ :=
  (List.mem_dlookup_iff apart).trans List.mem_map

theorem Apart.cons (apart : Apart rs) (new : ∀ r' ∈ rs, r'.name ≠ r.name) : Apart (r :: rs) := by
  refine List.nodupKeys_cons.mpr ⟨fun member => ?_, apart⟩
  obtain ⟨b, there⟩ := List.mem_keys.mp member
  obtain ⟨r', inside, entry⟩ := List.mem_map.mp there
  exact new r' inside (congrArg Sigma.fst entry)

theorem Apart.eq (apart : Apart rs) {r' : Record} (member : r ∈ rs) (member' : r' ∈ rs) (same : r.name = r'.name) :
    r.entry = r'.entry :=
  List.NodupKeys.eq_of_fst_eq apart (List.mem_map_of_mem member) (List.mem_map_of_mem member') same

end

/-! ## Searching pages whose items have different names -/

section
variable {P : Pages n} {nsIndex : Byte} {datatype : ItemType} {key : List Byte}

def Asked (nsIndex : Byte) (datatype : ItemType) (key : List Byte) (r : Record) : Prop :=
  r.name = (nsIndex, (cString key).take MAX_KEY_LENGTH) ∧ (datatype = ItemType.ANY ∨ r.head.datatype = datatype)

theorem matched_iff {r : Record} (value : IsValue env r) (index : nsIndex ≠ NS_ANY) :
    Page.matchItem nsIndex datatype (some key) r.head = some (.ok ()) ↔ Asked nsIndex datatype key r := by
  rw [matchItem_eq value index, Asked]
  by_cases name : r.name = (nsIndex, (cString key).take MAX_KEY_LENGTH)
  · rw [if_pos name]
    by_cases type : datatype ≠ ItemType.ANY ∧ r.head.datatype ≠ datatype
    · rw [if_pos type]
      refine ⟨nofun, fun asked => ?_⟩
      rcases asked.2 with any | same
      · exact absurd any type.1
      · exact absurd same type.2
    · rw [if_neg type]
      refine ⟨fun _ => ⟨name, ?_⟩, fun _ => rfl⟩
      by_cases any : datatype = ItemType.ANY
      · exact .inl any
      · exact .inr (not_not.mp fun other => type ⟨any, other⟩)
  · rw [if_neg name]
    exact ⟨nofun, fun asked => absurd asked.1 name⟩

theorem find_asked (usable : Usable env P) (index : nsIndex ≠ NS_ANY) {page : Fin n} {r : Record}
    (found : P.find nsIndex datatype (some key) = some (page, r)) : r ∈ P.live ∧ Asked nsIndex datatype key r := by
  obtain ⟨listed, first⟩ := find_some found
  obtain ⟨member, matched⟩ := firstRecord_mem first
  have live : r ∈ P.live := List.mem_flatMap.mpr ⟨page, listed, member⟩
  exact ⟨live, (matched_iff (usable.values r live) index).mp matched⟩

theorem firstRecord_apart {rs : List Record} (apart : Apart rs) (values : ∀ r ∈ rs, IsValue env r)
    (index : nsIndex ≠ NS_ANY) {r : Record} (member : r ∈ rs) (asked : Asked nsIndex datatype key r) :
    ∃ r', firstRecord nsIndex datatype (some key) rs = .ok r' := by
  induction rs with
  | nil => exact absurd member List.not_mem_nil
  | cons x rs ih =>
      unfold firstRecord
      by_cases name : x.name = r.name
      · have same := apart.eq List.mem_cons_self member name
        have type : x.head.datatype = r.head.datatype := congrArg (fun e => e.2.1) same
        have here : Asked nsIndex datatype key x := ⟨name.trans asked.1, type ▸ asked.2⟩
        rw [(matched_iff (values x List.mem_cons_self) index).mpr here]
        exact ⟨x, rfl⟩
      · rw [matchItem_eq (values x List.mem_cons_self) index, if_neg (fun same => name (same.trans asked.1.symm))]
        refine ih (apart.subperm (List.sublist_cons_self x rs).subperm) (fun y inside => values y (.tail _ inside)) ?_
        exact (List.mem_cons.mp member).resolve_left fun same => name (congrArg Record.name same.symm)

theorem find_apart (usable : Usable env P) (apart : Apart P.live) (index : nsIndex ≠ NS_ANY) {r : Record}
    (live : r ∈ P.live) (asked : Asked nsIndex datatype key r) : P.find nsIndex datatype (some key) ≠ none := by
  intro missing
  obtain ⟨page, listed, member⟩ := List.mem_flatMap.mp live
  obtain ⟨rest, split⟩ := live_split usable.distinctList listed
  have sub : (records (P.slots page).segs).Subperm P.live :=
    (List.sublist_append_left _ _).subperm.trans split.1.symm.subperm
  obtain ⟨r', first⟩ := firstRecord_apart (apart.subperm sub) (usable.valuesAt listed) index member asked
  exact find_none missing listed r' first

end

/-! ## What calls do -/

def WholeKey (env : Env) (s : StoreState n) (nsIndex : Byte) (key : List Byte) : Prop :=
  (cString key).length ≤ MAX_KEY_LENGTH ∨ ∀ r ∈ s.records env, r.name ≠ (nsIndex, (cString key).take MAX_KEY_LENGTH)

def MapEffect (env : Env) (s : StoreState n) (o : Outcome EspErr Answer) (t : StoreState n) : StoreCall → Prop
  | .writeItem v =>
      o = .ok .done ∧ t.contents env =
          Function.update (s.contents env) (v.nsIndex, cString v.key) (some (v.datatype, v.data)) ∨
        ∃ e, o = .err e ∧ t.contents env = s.contents env
  | .eraseItem nsIndex datatype key =>
      (∃ value, s.contents env (nsIndex, cString key) = some value ∧ (datatype = ItemType.ANY ∨ value.1 = datatype) ∧
          o = .ok .done ∧ t.contents env = Function.update (s.contents env) (nsIndex, cString key) none) ∨
        (∀ value, s.contents env (nsIndex, cString key) = some value → datatype ≠ ItemType.ANY ∧ value.1 ≠ datatype) ∧
          o = .err .notFound ∧ t.contents env = s.contents env
  | .eraseNamespace nsIndex =>
      o = .ok .done ∧ t.contents env = fun name => if name.1 = nsIndex then none else s.contents env name
  | .readItem nsIndex datatype key buffer =>
      t = s ∧ ((∃ data, s.contents env (nsIndex, cString key) = some (datatype, data) ∧
          o = outcomeOf .bytes (readInto datatype data buffer)) ∨
        (∀ data, s.contents env (nsIndex, cString key) ≠ some (datatype, data)) ∧ o = .err .notFound)
  | _ => True

/-- The call does to the contents what it is for, or the store does not work and refuses it. -/
def ActsOnMap (env : Env) (s : StoreState n) (c : StoreCall) : Prop :=
  if s.store.mState = .active then MapEffect env s (c.run env s.store s.flash).outcome (s.after env c) c
  else c = .init ∨ (c.run env s.store s.flash).outcome = .err .notInitialized ∧ s.after env c = s

def StoreCall.AsksWhole (env : Env) (s : StoreState n) : StoreCall → Prop
  | .eraseItem nsIndex _ key | .readItem nsIndex _ key _ | .getItemDataSize nsIndex _ key =>
      nsIndex ≠ NS_ANY ∧ WholeKey env s nsIndex key
  | .eraseNamespace nsIndex => nsIndex ≠ NS_ANY
  | _ => True

/-- What is stored under the name of a value that is written is of its type. -/
def StoreCall.KeepsType (env : Env) (s : StoreState n) : StoreCall → Prop
  | .writeItem v => ∀ r ∈ s.records env, r.name = (v.nsIndex, cString v.key) → r.head.datatype = v.datatype
  | .createOrOpenNamespace nsName _ =>
      ∀ r ∈ s.records env, r.name = (NS_INDEX, cString nsName) → r.head.datatype = ItemType.U8
  | _ => True

section
variable {s t : StoreState n} {P Q : Pages n} {nsIndex : Byte} {datatype : ItemType} {key : List Byte}

theorem On.contents (on : On env s P) : s.contents env = contentsOf P.live := by
  funext name
  unfold StoreState.contents contentsOf entries
  rw [on.records]

theorem WholeKey.asked (whole : WholeKey env s nsIndex key) (on : On env s P) {r : Record} (live : r ∈ P.live) :
    Asked nsIndex datatype key r ↔
      r.name = (nsIndex, cString key) ∧ (datatype = ItemType.ANY ∨ r.head.datatype = datatype) := by
  refine and_congr_left fun _ => ?_
  rcases whole with short | absent
  · rw [List.take_of_length_le short]
  · refine iff_of_false (absent r (on.records ▸ live)) fun name => ?_
    have short : (cString key).length ≤ MAX_KEY_LENGTH := (Prod.mk.inj name).2 ▸ (on.usable.values r live).short
    rw [List.take_of_length_le short] at absent
    exact absent r (on.records ▸ live) name

theorem Stored.missing_name {v : Value} (on : On env s P) (storable : Storable v) (short : Value.Short v)
    (apart : Apart P.live) (type : ∀ r ∈ P.live, r.name = (v.nsIndex, cString v.key) → r.head.datatype = v.datatype)
    (missing : P.find v.nsIndex v.datatype (some v.key) = none) :
    ∀ r ∈ P.live, r.name ≠ (v.record env).name := by
  intro r live name
  rw [(valued_record env storable short).name] at name
  refine find_apart on.usable apart storable.named live ⟨?_, .inr (type r live name)⟩ missing
  rw [List.take_of_length_le short.key]
  exact name

theorem replaced_name {v : Value} (storable : Storable v) (short : Value.Short v) {r : Record} (value : IsValue env r)
    (matched : Page.matchItem v.nsIndex v.datatype (some v.key) r.head = some (.ok ())) :
    r.name = (v.nsIndex, cString v.key) := by
  have asked := (matched_iff value storable.named).mp matched
  rw [asked.1, List.take_of_length_le short.key]

theorem Stored.apart {v : Value} {result : Except EspErr Unit × Pages n} (on : On env s P) (storable : Storable v)
    (stored : Stored env v P result) (apart : Apart P.live)
    (type : ∀ r ∈ P.live, r.name = (v.nsIndex, cString v.key) → r.head.datatype = v.datatype) : Apart result.2.live := by
  cases stored with
  | added usable short missing live =>
      exact (apart.cons (Stored.missing_name on storable short apart type missing)).subperm live.subperm
  | replaced usable short matched before live =>
      rename_i r rest
      have apart' : Apart (r :: rest) := apart.subperm before.symm.subperm
      have name := replaced_name storable short (on.usable.values r (before.mem_iff.mpr List.mem_cons_self)) matched
      rw [← (valued_record env storable short).name] at name
      refine Apart.subperm ?_ live.subperm
      refine (apart'.subperm (List.sublist_cons_self r rest).subperm).cons fun r' member same => ?_
      refine List.notMem_keys_of_nodupKeys_cons apart' (List.mem_keys.mpr ⟨r'.entry.2, ?_⟩)
      exact List.mem_map.mpr ⟨r', member, Sigma.ext (same.trans name.symm) HEq.rfl⟩
  | failed usable live => exact apart.subperm live.subperm

theorem Stored.contents {v : Value} {result : Except EspErr Unit × Pages n} (on : On env s P) (storable : Storable v)
    (stored : Stored env v P result) (apart : Apart P.live)
    (type : ∀ r ∈ P.live, r.name = (v.nsIndex, cString v.key) → r.head.datatype = v.datatype) :
    result.1 = .ok () ∧ contentsOf result.2.live =
        Function.update (contentsOf P.live) (v.nsIndex, cString v.key) (some (v.datatype, v.data)) ∨
      ∃ e, result.1 = .error e ∧ contentsOf result.2.live = contentsOf P.live := by
  have apart' := stored.apart on storable apart type
  cases stored with
  | added usable short missing live =>
      refine .inl ⟨rfl, ?_⟩
      rw [apart'.perm live, contentsOf_cons, (valued_record env storable short).entry]
  | replaced usable short matched before live =>
      rename_i r rest
      have name := replaced_name storable short (on.usable.values r (before.mem_iff.mpr List.mem_cons_self)) matched
      have same : r.entry.1 = (v.nsIndex, cString v.key) := name
      refine .inl ⟨rfl, ?_⟩
      rw [apart'.perm live, apart.perm before, contentsOf_cons, contentsOf_cons, (valued_record env storable short).entry,
        same, Function.update_idem]
  | failed usable live => exact .inr ⟨_, rfl, (apart.perm live.symm).symm⟩

theorem erased_contents {r : Record} (apart : Apart P.live) (live : P.live.Perm (r :: Q.live)) :
    contentsOf Q.live = Function.update (contentsOf P.live) r.name none := by
  have gone : contentsOf Q.live r.name = none := (apart.subperm live.symm.subperm).cons_none
  have before : contentsOf P.live = Function.update (contentsOf Q.live) r.name (some r.entry.2) :=
    (apart.perm live).trans (contentsOf_cons r Q.live)
  rw [before, Function.update_idem, ← gone, Function.update_eq_self]

theorem namespace_contents (apart : Apart P.live) (index : nsIndex ≠ NS_ANY) :
    contentsOf (P.eraseNamespace nsIndex).live =
      fun name => if name.1 = nsIndex then none else contentsOf P.live name := by
  have apart' : Apart (P.eraseNamespace nsIndex).live := by
    rw [live_eraseNamespace]
    exact apart.subperm List.filter_sublist.subperm
  funext name
  refine Option.ext fun value => ?_
  rw [apart'.mem_iff, live_eraseNamespace]
  have inside (r : Record) (entry : r.entry = ⟨name, value⟩) :
      (!Pages.inNamespace nsIndex r) = true ↔ name.1 ≠ nsIndex := by
    have index_ : r.head.nsIndex = name.1 := congrArg (fun e => e.1.1) entry
    simp [Pages.inNamespace, index_, index]
  by_cases here : name.1 = nsIndex
  · rw [if_pos here]
    refine iff_of_false ?_ nofun
    rintro ⟨r, member, entry⟩
    exact (inside r entry).mp (List.mem_filter.mp member).2 here
  · rw [if_neg here, apart.mem_iff]
    refine exists_congr fun r => ⟨fun both => ⟨List.mem_of_mem_filter both.1, both.2⟩, fun both => ?_⟩
    exact ⟨List.mem_filter.mpr ⟨both.1, (inside r both.2).mpr here⟩, both.2⟩

/-- What is found under a whole key is what is stored under it, and where nothing is found nothing of the type is. -/
theorem found_contents (on : On env s P) (apart : Apart P.live) (index : nsIndex ≠ NS_ANY)
    (whole : WholeKey env s nsIndex key) {page : Fin n} {r : Record}
    (found : P.find nsIndex datatype (some key) = some (page, r)) :
    contentsOf P.live (nsIndex, cString key) = some (r.head.datatype, r.data) ∧
      (datatype = ItemType.ANY ∨ r.head.datatype = datatype) := by
  obtain ⟨live, asked⟩ := find_asked on.usable index found
  obtain ⟨name, type⟩ := (whole.asked on live).mp asked
  refine ⟨apart.mem_iff.mpr ⟨r, live, ?_⟩, type⟩
  rw [← name]
  rfl

theorem missing_contents (on : On env s P) (apart : Apart P.live) (index : nsIndex ≠ NS_ANY)
    (whole : WholeKey env s nsIndex key) (missing : P.find nsIndex datatype (some key) = none) :
    ∀ value, contentsOf P.live (nsIndex, cString key) = some value → datatype ≠ ItemType.ANY ∧ value.1 ≠ datatype := by
  intro value stored
  obtain ⟨r, live, entry⟩ := apart.mem_iff.mp stored
  have name : r.name = (nsIndex, cString key) := congrArg Sigma.fst entry
  have type : r.head.datatype = value.1 := congrArg (fun e => e.2.1) entry
  have none_ (asks : datatype = ItemType.ANY ∨ r.head.datatype = datatype) : False :=
    find_apart on.usable apart index live ((whole.asked on live).mpr ⟨name, asks⟩) missing
  exact ⟨fun any => none_ (.inl any), fun same => none_ (.inr (type.trans same))⟩

theorem CallEnds.mapEffect {c : StoreCall} {o : Outcome EspErr Answer} (on : On env s P) (apart : Apart P.live)
    (ends : CallEnds env s P c o t) (proper : c.Proper) (asks : StoreCall.AsksWhole env s c)
    (type : StoreCall.KeepsType env s c) : MapEffect env s o t c := by
  cases ends with
  | writeItem last_ on' names =>
      rename_i v page
      have storable : Storable v := ⟨proper.1, proper.2⟩
      have stored := writeItem_stored on.usable storable last_
      unfold MapEffect
      rw [on.contents, on'.contents]
      rcases stored.contents on storable apart (on.records ▸ type) with ⟨ok, after⟩ | ⟨e, failed, after⟩
      · rw [ok]
        exact .inl ⟨rfl, after⟩
      · rw [failed]
        exact .inr ⟨e, rfl, after⟩
  | eraseItem on' names =>
      rename_i nsIndex datatype key
      obtain ⟨index, whole⟩ := asks
      unfold MapEffect
      dsimp only
      rw [on.contents, on'.contents]
      rcases eraseItem_result on.usable nsIndex datatype (some key) with ⟨same, missing⟩ | ⟨page, r, found, ok, -, live⟩
      · rw [same]
        exact .inr ⟨missing_contents on apart index whole missing, rfl, rfl⟩
      · obtain ⟨stored, type⟩ := found_contents on apart index whole found
        obtain ⟨live', asked⟩ := find_asked on.usable index found
        have name : r.name = (nsIndex, cString key) := ((whole.asked on live').mp asked).1
        rw [ok, ← name]
        exact .inl ⟨_, name ▸ stored, type, rfl, erased_contents apart live⟩
  | eraseNamespace on' names =>
      unfold MapEffect
      rw [on.contents, on'.contents]
      exact ⟨rfl, namespace_contents apart asks⟩
  | unread missing =>
      unfold MapEffect
      rw [on.contents]
      refine ⟨rfl, .inr ⟨fun data stored => ?_, rfl⟩⟩
      exact (missing_contents on apart asks.1 asks.2 missing _ stored).2 rfl
  | read found valued =>
      unfold MapEffect
      rw [on.contents]
      have stored := (found_contents on apart asks.1 asks.2 found).1
      have entry := valued.entry
      have type := congrArg (fun e => e.2.1) entry
      have bytes := congrArg (fun e => e.2.2) entry
      dsimp only [Record.entry] at type bytes
      rw [type, bytes] at stored
      exact ⟨rfl, .inl ⟨_, stored, rfl⟩⟩
  | init ends => exact trivial
  | unsized => exact trivial
  | sized => exact trivial
  | opened => exact trivial
  | unknown => exact trivial
  | noIndex => exact trivial
  | notCreated => exact trivial
  | created => exact trivial

end

/-! ## Runs without power failures -/

def slotRecords (slots : Fin n → Slot) : List Record := (List.finRange n).flatMap fun i => records (slots i).segs

structure Shrinks (slots slots' : Fin n → Slot) : Prop where
  kept : ∀ i, (records (slots' i).segs).Subperm (records (slots i).segs)
  freeing : ∀ i, (slots' i).isFreeing = false

def MapHolds (env : Env) (s : StoreState n) : Prop :=
  (∃ P, On env s P ∧ Apart P.live) ∨
    ∃ slots, Off env s slots ∧ (∀ i, (slots i).isFreeing = false) ∧ Apart (slotRecords slots)

section
variable {s t : StoreState n} {P Q : Pages n} {slots slots' : Fin n → Slot} {c : StoreCall}

theorem Shrinks.subperm (shrinks : Shrinks slots slots') : (slotRecords slots').Subperm (slotRecords slots) := by
  unfold slotRecords
  induction List.finRange n with
  | nil => exact .refl _
  | cons i rest ih =>
      obtain ⟨l, perm, sub⟩ := shrinks.kept i
      obtain ⟨l', perm', sub'⟩ := ih
      exact ⟨l ++ l', perm.append perm', sub.append sub'⟩

theorem Usable.slotRecords (usable : Usable env P) : (slotRecords P.slots).Perm P.live := by
  have all : (List.finRange n).Perm (P.list ++ P.free) := by
    refine (List.perm_ext_iff_of_nodup (List.nodup_finRange n) usable.distinct).mpr fun i => ?_
    exact ⟨fun _ => usable.all i, fun _ => List.mem_finRange i⟩
  refine (all.flatMap_right _).trans ?_
  have none_ : P.free.flatMap (fun i => records (P.slots i).segs) = [] := by
    refine List.flatMap_eq_nil_iff.mpr fun i free => ?_
    rw [(usable.unused i free).segs]
    rfl
  rw [List.flatMap_append, none_, List.append_nil]
  rfl

theorem shrinks_fewer (freeing : ∀ i, (slots i).isFreeing = false) (fewer : ∀ i, Fewer (slots i) (slots' i)) :
    Shrinks slots slots' := by
  refine ⟨fun i => (fewer i).kept, fun i => ?_⟩
  rw [(fewer i).same, isFreeing_withSegs]
  exact freeing i

theorem shrinks_arrange (freeing : ∀ i, (slots i).isFreeing = false) : Shrinks slots (Pages.arrange slots).slots := by
  rw [arrange_slots]
  refine ⟨fun i => ?_, fun i => (isFreeing_restart _).trans (freeing i)⟩
  rw [segs_restart]

theorem Shrinks.trans {slots'' : Fin n → Slot} (first : Shrinks slots slots') (second : Shrinks slots' slots'') :
    Shrinks slots slots'' := ⟨fun i => (second.kept i).trans (first.kept i), second.freeing⟩

theorem shrinks_activate (freeing : ∀ i, (P.slots i).isFreeing = false) (p : Fin n) (rest : List (Fin n)) :
    Shrinks P.slots (P.activate p rest).slots := by
  refine ⟨fun i => ?_, fun i => ?_⟩
  · rcases eq_or_ne i p with rfl | other
    · rw [activate_slots_self]
      exact List.nil_subperm
    · rw [activate_slots_other rest other]
  · rcases eq_or_ne i p with rfl | other
    · rw [activate_slots_self]
      rfl
    · rw [activate_slots_other rest other]
      exact freeing i

theorem RestartStage.shrinks (stage : RestartStage slots Q) (freeing : ∀ i, (slots i).isFreeing = false) :
    Shrinks slots Q.slots := by
  have arranged := shrinks_arrange freeing
  have unduplicated (last : Fin n) :=
    arranged.trans (shrinks_fewer arranged.freeing
      (fewer_withoutDuplicate ((Pages.arrange slots).numbered last) last))
  cases stage with
  | found => exact arranged
  | activated none_ some_ => exact arranged.trans (shrinks_activate arranged.freeing _ _)
  | unduplicated last_ => exact unduplicated _
  | finishing last_ freeing' stage =>
      have yes := List.find?_some freeing'
      rw [(unduplicated _).freeing] at yes
      cases yes

theorem shrinks_reload (env : Env) (freeing : ∀ i, (slots i).isFreeing = false) : Shrinks slots fun i => (slots i).reload env :=
  ⟨fun i => (records_reload (slots i)).subperm, fun i => (isFreeing_reload _).trans (freeing i)⟩

theorem InitEnds.mapHolds {o : Outcome EspErr Answer} (ends : InitEnds env s slots o t)
    (freeing : ∀ i, (slots i).isFreeing = false) (apart : Apart (slotRecords slots)) : MapHolds env t := by
  have shrinks := (restart_stage slots).shrinks freeing
  have apart' := apart.subperm shrinks.subperm
  cases ends with
  | started ok on => exact .inl ⟨_, on, apart'.subperm on.usable.slotRecords.symm.subperm⟩
  | failed failed off =>
      have reload := shrinks_reload env shrinks.freeing
      exact .inr ⟨_, off, reload.freeing, apart'.subperm reload.subperm⟩

theorem Stored.mapHolds {v : Value} {result : Except EspErr Unit × Pages n} (stored : Stored env v P result)
    (on : On env s P) (storable : Storable v) (on' : On env t result.2) (apart : Apart P.live)
    (type : ∀ r ∈ s.records env, r.name = (v.nsIndex, cString v.key) → r.head.datatype = v.datatype) :
    MapHolds env t :=
  .inl ⟨_, on', stored.apart on storable apart (on.records ▸ type)⟩

theorem CallEnds.mapHolds {o : Outcome EspErr Answer} (on : On env s P) (apart : Apart P.live)
    (ends : CallEnds env s P c o t) (proper : c.Proper) (type : StoreCall.KeepsType env s c) : MapHolds env t := by
  have same : MapHolds env s := .inl ⟨P, on, apart⟩
  cases ends with
  | init ends =>
      have reload := shrinks_reload env on.usable.notFreeing
      exact ends.mapHolds reload.freeing
        ((apart.subperm on.usable.slotRecords.subperm).subperm reload.subperm)
  | writeItem last_ on' names =>
      have storable : Storable _ := ⟨proper.1, proper.2⟩
      exact (writeItem_stored on.usable storable last_).mapHolds on storable on' apart type
  | eraseItem on' names =>
      rename_i nsIndex datatype key
      refine .inl ⟨_, on', ?_⟩
      rcases eraseItem_result on.usable nsIndex datatype (some key) with ⟨same, -⟩ | ⟨page, r, -, -, -, live⟩
      · rw [same]
        exact apart
      · exact apart.subperm ((List.sublist_cons_self r _).subperm.trans live.symm.subperm)
  | eraseNamespace on' names =>
      refine .inl ⟨_, on', ?_⟩
      rw [live_eraseNamespace]
      exact apart.subperm List.filter_sublist.subperm
  | unread => exact same
  | read => exact same
  | unsized => exact same
  | sized => exact same
  | opened => exact same
  | unknown => exact same
  | noIndex => exact same
  | notCreated unknown some_ last_ failed on' names =>
      exact (writeItem_stored on.usable (storable_namespace _ _) last_).mapHolds on (storable_namespace _ _) on' apart type
  | created unknown some_ last_ ok on' names =>
      exact (writeItem_stored on.usable (storable_namespace _ _) last_).mapHolds on (storable_namespace _ _) on' apart type

theorem MapHolds.step (holds : MapHolds env s) (proper : c.Proper)
    (type : s.store.mState = .active → StoreCall.KeepsType env s c) : MapHolds env (s.after env c) := by
  rcases holds with ⟨P, on, apart⟩ | ⟨slots, off, freeing, apart⟩
  · exact CallEnds.mapHolds on apart (on.runs proper).ends proper (type on.active)
  · rcases off.after c with ⟨-, ends⟩ | ⟨-, ran⟩
    · exact ends.mapHolds freeing apart
    · have same : s.after env c = s := by
        unfold StoreState.after
        rw [ran]
      rw [same]
      exact .inr ⟨slots, off, freeing, apart⟩

theorem mapHolds_erased (env : Env) : MapHolds env (StoreState.erased (n := n) env) := by
  have off : Off env (StoreState.erased (n := n) env) fun _ => Slot.blank 0 :=
    ⟨by simp [StoreState.erased, Storage.fresh],
      ⟨fun _ => rfl, fun _ => .inl trivial, nofun, fun _ _ => nofun⟩, .inl rfl⟩
  have empty : slotRecords (fun _ : Fin n => Slot.blank 0) = [] := List.flatMap_eq_nil_iff.mpr fun _ _ => rfl
  refine .inr ⟨_, off, fun _ => rfl, ?_⟩
  rw [empty]
  exact List.nodupKeys_nil

def StoreCall.OneType (typeOf : Byte × List Byte → ItemType) : StoreCall → Prop
  | .writeItem v => v.datatype = typeOf (v.nsIndex, cString v.key)
  | .createOrOpenNamespace nsName _ => ItemType.U8 = typeOf (NS_INDEX, cString nsName)
  | _ => True

def TypeKind (typeOf : Byte × List Byte → ItemType) (r : Record) : Prop := r.head.datatype = typeOf r.name

variable {typeOf : Byte × List Byte → ItemType}

theorem StoreCall.OneType.fresh (one : StoreCall.OneType typeOf c) (proper : c.Proper) :
    Fresh env (TypeKind typeOf) s c := by
  intro v writes short
  have valued := valued_record env (writes.storable proper) short
  unfold TypeKind
  rw [valued.fields.2.1, valued.name]
  cases writes with
  | item => exact one
  | name => exact one

theorem Holding.keepsType (holding : Holding env (TypeKind typeOf) s) (active : s.store.mState = .active)
    (one : StoreCall.OneType typeOf c) : StoreCall.KeepsType env s c := by
  rcases holding with ⟨P, on, all⟩ | ⟨slots, off, -⟩
  · have typed (r : Record) (member : r ∈ s.records env) : r.head.datatype = typeOf r.name := all r (on.records ▸ member)
    cases c with
    | writeItem v =>
        intro r member name
        rw [typed r member, name]
        exact one.symm
    | createOrOpenNamespace nsName canCreate =>
        intro r member name
        rw [typed r member, name]
        exact one.symm
    | init | eraseItem | eraseNamespace | readItem | getItemDataSize => exact trivial
  · exact absurd active off.inactive

theorem MapHolds.actsOnMap (holds : MapHolds env s) (proper : c.Proper) (asks : StoreCall.AsksWhole env s c)
    (type : s.store.mState = .active → StoreCall.KeepsType env s c) : ActsOnMap env s c := by
  unfold ActsOnMap
  rcases holds with ⟨P, on, apart⟩ | ⟨slots, off, -⟩
  · rw [if_pos on.active]
    exact CallEnds.mapEffect on apart (on.runs proper).ends proper asks (type on.active)
  · rw [if_neg off.inactive]
    rcases off.after c with ⟨init, -⟩ | ⟨-, ran⟩
    · exact .inl init
    · right
      unfold StoreState.after
      rw [ran]
      exact ⟨rfl, rfl⟩

/-- A run without power failures, in which every name is used with one type. -/
def OneTyped (typeOf : Byte × List Byte → ItemType) (events : List StoreEvent) : Prop :=
  ∀ e ∈ events, (∃ c, e = .call c) ∧ StoreCall.OneType typeOf e.call_

theorem oneTyped_nil : OneTyped typeOf [] := nofun

theorem OneTyped.snoc {events : List StoreEvent} (one : OneTyped typeOf events) (type : StoreCall.OneType typeOf c) :
    OneTyped typeOf (events ++ [.call c]) := by
  intro e member
  rcases List.mem_append.mp member with old | new
  · exact one e old
  · rw [List.mem_singleton.mp new]
    exact ⟨⟨c, rfl⟩, type⟩

theorem run_mapHolds {events : List StoreEvent} (run : StoreRun env (.erased env) events s)
    (one : OneTyped typeOf events) : MapHolds env s ∧ Holding env (TypeKind typeOf) s := by
  generalize start : StoreState.erased env = s₀ at run
  induction run with
  | nil =>
      subst start
      exact ⟨mapHolds_erased env, holding_erased env _⟩
  | snoc run proper step ih =>
      obtain ⟨holds, holding⟩ := ih (fun e member => one e (List.mem_append_left _ member))
      obtain ⟨⟨c, call⟩, oneType⟩ := one _ (List.mem_append_right _ (List.mem_singleton_self _))
      subst call
      have typed := StoreStep.holding step proper holding (oneType.fresh proper)
      cases step with
      | call c => exact ⟨holds.step proper fun active => holding.keepsType active oneType, typed⟩

/-- In every state that calls reach, the next one does to the contents what it does to a map, as long as it does not
ask for a key that is cut to another one. -/
theorem store_is_map {events : List StoreEvent} (run : StoreRun env (.erased env) events s)
    (one : OneTyped typeOf events) (proper : c.Proper) (oneType : StoreCall.OneType typeOf c)
    (asks : StoreCall.AsksWhole env s c) : ActsOnMap env s c := by
  obtain ⟨holds, holding⟩ := run_mapHolds run one
  exact holds.actsOnMap proper asks fun active => holding.keepsType active oneType

end

def overwriteRun : List StoreEvent :=
  [.call .init, .call (.writeItem (longValue 98 1984)), .call (.writeItem (longValue 99 1920)),
    .call (.eraseItem 1 ItemType.BLOB [98])]

def firstBlob : Pages 2 := (startedPages.writeItem Env.firmware (longValue 98 1984) firstPage).2

def bothBlobs : Pages 2 := (firstBlob.writeItem Env.firmware (longValue 99 1920) firstPage).2

def secondBlob : Pages 2 := (bothBlobs.eraseItem 1 ItemType.BLOB (some [98])).2

def movedBlob : Pages 2 := (secondBlob.writeItem Env.firmware (longValue 99 1984) firstPage).2

def blobType (name : Byte × List Byte) : ItemType := if name.1 = NS_INDEX then ItemType.U8 else ItemType.BLOB

theorem long_type (key : Byte) (size : Nat) : StoreCall.OneType blobType (.writeItem (longValue key size)) := rfl

theorem overwrite_reached :
    ∃ s, StoreRun Env.firmware (.erased Env.firmware) overwriteRun s ∧ On Env.firmware s secondBlob := by
  have none_ : Bootable Env.firmware (StoreState.erased (n := 2) Env.firmware).flash fun _ => Slot.blank 0 :=
    ⟨fun _ => rfl, fun _ => .inl trivial, nofun, fun _ _ => nofun⟩
  have started : On Env.firmware startedStore startedPages := (wp_initCall none_).ends.on (by decide)
  have first : startedPages.list.getLast? = some firstPage := by decide
  have long : On Env.firmware _ firstBlob := started.wrote (long_proper 98 1984) first
  have second : firstBlob.list.getLast? = some firstPage := by decide +kernel
  have full : On Env.firmware _ bothBlobs := long.wrote (long_proper 99 1920) second
  have erased : On Env.firmware _ secondBlob := (full.runs (c := .eraseItem 1 ItemType.BLOB [98]) trivial).ends.erased
  have begun : StoreRun Env.firmware (.erased (n := 2) Env.firmware) _ _ := snoc_call (.nil _) (c := .init) trivial
  have run := snoc_call (snoc_call begun (long_proper 98 1984)) (long_proper 99 1920)
  exact ⟨_, snoc_call run (c := .eraseItem 1 ItemType.BLOB [98]) trivial, erased⟩

theorem overwrite_typed : OneTyped blobType overwriteRun :=
  (((oneTyped_nil.snoc (c := .init) trivial).snoc (long_type 98 1984)).snoc (long_type 99 1920)).snoc
    (c := .eraseItem 1 ItemType.BLOB [98]) trivial

/-- The value does not fit on its page, and the one that it replaces moves to the other page before it is erased. -/
theorem store_is_map_moved : ∃ s t : StoreState 2,
    StoreRun Env.firmware (.erased Env.firmware) overwriteRun s ∧
    t = s.after Env.firmware (.writeItem (longValue 99 1984)) ∧ ActsOnMap Env.firmware s (.writeItem (longValue 99 1984)) ∧
    (s.store.mPageManager.mPages 0).mState = .active ∧ t.flash 0 = erasedSector ∧
    (s.contents Env.firmware (1, [99])).map (fun value => value.2.length) = some 1920 ∧
    (t.contents Env.firmware (1, [99])).map (fun value => value.2.length) = some 1984 := by
  obtain ⟨s, run, erased⟩ := overwrite_reached
  have acts := store_is_map run overwrite_typed (long_proper 99 1984) (long_type 99 1984) trivial
  have last_ : secondBlob.list.getLast? = some firstPage := by decide +kernel
  have moved : On Env.firmware _ movedBlob := erased.wrote (long_proper 99 1984) last_
  have before : (secondBlob.slots 0).isActive = true := by decide +kernel
  have unused : (movedBlob.slots 0).isUsed = false ∧ (movedBlob.slots 0).seq ≠ 0xFFFFFFFF := by decide +kernel
  refine ⟨s, _, run, rfl, acts, erased.page_active before, moved.page_erased unused.1 unused.2, ?_, ?_⟩
  · rw [erased.contents]
    decide +kernel
  · rw [moved.contents]
    decide +kernel

def fullKey : List Byte := List.replicate MAX_KEY_LENGTH 97

def fullKeyStore : StoreState 2 := startedStore.after Env.firmware (.writeItem ⟨1, ItemType.U8, fullKey, [7]⟩)

theorem fullKey_run : StoreRun Env.firmware (.erased Env.firmware)
    [.call .init, .call (.writeItem ⟨1, ItemType.U8, fullKey, [7]⟩)] fullKeyStore := by
  have proper : (StoreCall.writeItem ⟨1, ItemType.U8, fullKey, [7]⟩).Proper := ⟨by decide, .inr (by decide)⟩
  exact snoc_call (snoc_call (.nil _) (c := .init) trivial) proper

theorem erases_absent {s : StoreState n} {nsIndex : Byte} {datatype : ItemType} {key : List Byte}
    (active : s.store.mState = .active) (absent : s.contents env (nsIndex, cString key) = none)
    (erased : ((StoreCall.eraseItem nsIndex datatype key).run env s.store s.flash).outcome = .ok .done) :
    ¬ActsOnMap env s (.eraseItem nsIndex datatype key) := by
  unfold ActsOnMap
  rw [if_pos active, erased]
  rintro (⟨value, stored, -⟩ | ⟨-, failed, -⟩)
  · rw [absent] at stored
    cases stored
  · cases failed

/-- The value of a key of 15 characters is erased under a longer one. -/
theorem cut_key_erases : StoreRun Env.firmware (.erased Env.firmware)
      [.call .init, .call (.writeItem ⟨1, ItemType.U8, fullKey, [7]⟩)] fullKeyStore ∧
    OneTyped (fun _ => ItemType.U8) [.call .init, .call (.writeItem ⟨1, ItemType.U8, fullKey, [7]⟩)] ∧
    ¬ActsOnMap Env.firmware fullKeyStore (.eraseItem 1 ItemType.U8 (fullKey ++ [98])) := by
  refine ⟨fullKey_run, ?_, erases_absent ?_ ?_ ?_⟩
  · exact (oneTyped_nil.snoc (c := .init) trivial).snoc (c := .writeItem _) rfl
  · decide +kernel
  · decide +kernel
  · decide +kernel

/-! ## Names that are not mixed up -/

def OwnEffect (env : Env) (s : StoreState n) (o : Outcome EspErr Answer) (t : StoreState n) : StoreCall → Prop
  | .readItem nsIndex datatype key buffer => ∀ data, o = .ok (.bytes data) →
      ∃ r ∈ s.records env, r.entry.1 = (nsIndex, cString key) ∧ readInto datatype r.data buffer = .ok data
  | .getItemDataSize nsIndex _ key => ∀ size, o = .ok (.size size) →
      ∃ r ∈ s.records env, r.entry.1 = (nsIndex, cString key) ∧ r.head.dataSize = size
  | .eraseItem nsIndex _ key => ∀ r ∈ s.records env, r.entry.1 ≠ (nsIndex, cString key) → r ∈ t.records env
  | _ => True

def Ordinary (e : StoreEvent) : Prop := ∃ c, e = .call c ∧ c ≠ .init ∧ StoreCall.Outside c

section
variable {s t u : StoreState n} {P Q : Pages n} {c : StoreCall} {nameOf : Byte → List Byte} {nsIndex : Byte}
  {datatype : ItemType} {key nsName : List Byte} {canCreate : Bool} {i j : Byte}

theorem found_own (on : On env s P) (index : nsIndex ≠ NS_ANY) (whole : WholeKey env s nsIndex key) {page : Fin n}
    {r : Record} (found : P.find nsIndex datatype (some key) = some (page, r)) :
    r ∈ s.records env ∧ r.entry.1 = (nsIndex, cString key) := by
  obtain ⟨live, asked⟩ := find_asked on.usable index found
  exact ⟨on.records ▸ live, ((whole.asked on live).mp asked).1⟩

theorem CallEnds.ownEffect {o : Outcome EspErr Answer} (on : On env s P) (ends : CallEnds env s P c o t)
    (whole : StoreCall.AsksWhole env s c) : OwnEffect env s o t c := by
  cases ends with
  | read found valued =>
      rename_i buffer page r ns k value
      intro data ok
      obtain ⟨member, name⟩ := found_own on whole.1 whole.2 found
      have bytes : r.data = value := congrArg (fun e => e.2.2) valued.entry
      refine ⟨r, member, name, ?_⟩
      rw [bytes]
      cases read : readInto _ value buffer with
      | ok result =>
          rw [read] at ok
          cases ok
          rfl
      | error e =>
          rw [read] at ok
          cases ok
  | sized found =>
      intro size ok
      cases ok
      obtain ⟨member, name⟩ := found_own on whole.1 whole.2 found
      exact ⟨_, member, name, rfl⟩
  | eraseItem on' names =>
      rename_i nsIndex datatype key
      intro r member other
      rw [on.records] at member
      rw [on'.records]
      rcases eraseItem_result on.usable nsIndex datatype (some key) with ⟨same, -⟩ | ⟨page, r', found, -, -, live⟩
      · rw [same]
        exact member
      · refine (List.mem_cons.mp (live.mem_iff.mp member)).resolve_left ?_
        rintro rfl
        exact other (found_own on whole.1 whole.2 found).2
  | unread => exact nofun
  | unsized => exact nofun
  | init ends => exact trivial
  | writeItem => exact trivial
  | eraseNamespace => exact trivial
  | opened => exact trivial
  | unknown => exact trivial
  | noIndex => exact trivial
  | notCreated => exact trivial
  | created => exact trivial

theorem Holding.ownEffect {kind : Record → Prop} (holding : Holding env kind s) (proper : c.Proper)
    (whole : StoreCall.AsksWhole env s c) : OwnEffect env s (c.run env s.store s.flash).outcome (s.after env c) c := by
  rcases holding with ⟨P, on, -⟩ | ⟨slots, off, -⟩
  · exact CallEnds.ownEffect on (on.runs proper).ends whole
  · rcases off.after c with ⟨rfl, -⟩ | ⟨-, ran⟩
    · exact trivial
    · have same : s.after env c = s := by
        unfold StoreState.after
        rw [ran]
      rw [ran, same]
      cases c with
      | readItem | getItemDataSize => exact nofun
      | eraseItem => exact fun r member _ => member
      | init | writeItem | eraseNamespace | createOrOpenNamespace => exact trivial

theorem SameNames.kept (same : SameNames s t) : s.store.mNamespaces ⊆ t.store.mNamespaces := by
  rw [same.1]
  exact List.Subset.refl _

theorem CallEnds.keepsNames {o : Outcome EspErr Answer} (ends : CallEnds env s P c o t) (notInit : c ≠ .init) :
    s.store.mNamespaces ⊆ t.store.mNamespaces := by
  cases ends with
  | init => exact absurd rfl notInit
  | writeItem last_ on names => exact names.kept
  | eraseItem on names => exact names.kept
  | eraseNamespace on names => exact names.kept
  | notCreated unknown some_ last_ failed on names => exact names.kept
  | created unknown some_ last_ ok on names =>
      rw [names.names]
      exact List.subset_append_left _ _
  | unread => exact List.Subset.refl _
  | read => exact List.Subset.refl _
  | unsized => exact List.Subset.refl _
  | sized => exact List.Subset.refl _
  | opened => exact List.Subset.refl _
  | unknown => exact List.Subset.refl _
  | noIndex => exact List.Subset.refl _

theorem Named.keepsNames (named : Named env nameOf s) (proper : c.Proper) (notInit : c ≠ .init) :
    s.store.mNamespaces ⊆ (s.after env c).store.mNamespaces := by
  rcases named with ⟨P, on, -, -⟩ | ⟨slots, off, -⟩
  · exact CallEnds.keepsNames (on.runs proper).ends notInit
  · have ran := ((off.after c).resolve_left fun both => notInit both.1).2
    unfold StoreState.after
    rw [ran]
    exact List.Subset.refl _

theorem CallEnds.listed (on : On env s P)
    (ends : CallEnds env s P (.createOrOpenNamespace nsName canCreate) (.ok (.index i)) t) :
    t.store.mState = .active ∧ ∃ e ∈ t.store.mNamespaces, e.mIndex = i ∧
      (cString e.mName).take MAX_KEY_LENGTH = (cString nsName).take MAX_KEY_LENGTH := by
  cases ends with
  | opened known =>
      have same := List.find?_some known
      exact ⟨on.active, _, List.mem_of_find?_eq_some known, rfl, ((strncmpEq_iff _ _ _).mp same).symm⟩
  | created unknown some_ last_ ok on' names =>
      rw [names.names]
      refine ⟨on'.active, _, List.mem_append_right _ (List.mem_singleton_self _), rfl, ?_⟩
      dsimp only
      rw [cString_of_not_mem fun nul => nul_not_mem_cString _ (List.mem_of_mem_take nul), List.take_take, Nat.min_self]

theorem Named.listed (named : Named env nameOf s)
    (ok : ((StoreCall.createOrOpenNamespace nsName canCreate).run env s.store s.flash).outcome = .ok (.index i)) :
    (s.after env (.createOrOpenNamespace nsName canCreate)).store.mState = .active ∧
      ∃ e ∈ (s.after env (.createOrOpenNamespace nsName canCreate)).store.mNamespaces, e.mIndex = i ∧
        (cString e.mName).take MAX_KEY_LENGTH = (cString nsName).take MAX_KEY_LENGTH := by
  rcases named with ⟨P, on, -, -⟩ | ⟨slots, off, -⟩
  · have ends := (on.runs (c := .createOrOpenNamespace nsName canCreate) trivial).ends
    rw [ok] at ends
    exact CallEnds.listed on ends
  · have ran := ((off.after (.createOrOpenNamespace nsName canCreate)).resolve_left nofun).2
    rw [ran] at ok
    cases ok

theorem run_named {events : List StoreEvent} (named : Named env nameOf s) (run : StoreRun env s events t)
    (ordinary : ∀ e ∈ events, Ordinary e) :
    s.store.mNamespaces ⊆ t.store.mNamespaces ∧ ∃ nameOf', Named env nameOf' t := by
  induction run with
  | nil => exact ⟨List.Subset.refl _, nameOf, named⟩
  | snoc run proper step ih =>
      obtain ⟨kept, nameOf', named'⟩ := ih fun e member => ordinary e (List.mem_append_left _ member)
      obtain ⟨c, rfl, notInit, outside⟩ := ordinary _ (List.mem_append_right _ (List.mem_singleton_self _))
      have named'' := StoreStep.named step proper outside named'
      cases step with
      | call c => exact ⟨List.Subset.trans kept (named'.keepsNames proper notInit), named''⟩

theorem run_reached {events : List StoreEvent} (run : StoreRun env (.erased env) events s)
    (outside : ∀ e ∈ events, StoreCall.Outside e.call_) : ∃ nameOf, Named env nameOf s := by
  generalize start : StoreState.erased env = s₀ at run
  induction run with
  | nil =>
      subst start
      exact ⟨_, named_erased env⟩
  | snoc run proper step ih =>
      obtain ⟨nameOf, named⟩ := ih fun e member => outside e (List.mem_append_left _ member)
      exact StoreStep.named step proper (outside _ (List.mem_append_right _ (List.mem_singleton_self _))) named

/-- In every state that calls and power failures reach, two namespaces that are opened one after the other have
different indices where their names differ in the first 15 characters, and what is read, sized or erased is stored
under the whole key as long as the key is not cut to another one. -/
theorem names_kept_apart {events : List StoreEvent} (run : StoreRun env (.erased env) events s)
    (outside : ∀ e ∈ events, StoreCall.Outside e.call_) :
    (∀ c : StoreCall, c.Proper → StoreCall.AsksWhole env s c →
      OwnEffect env s (c.run env s.store s.flash).outcome (s.after env c) c) ∧
    ∀ a b mayCreate mayCreate' later u i j,
      ((StoreCall.createOrOpenNamespace a mayCreate).run env s.store s.flash).outcome = .ok (.index i) →
      StoreRun env (s.after env (.createOrOpenNamespace a mayCreate)) later u → (∀ e ∈ later, Ordinary e) →
      ((StoreCall.createOrOpenNamespace b mayCreate').run env u.store u.flash).outcome = .ok (.index j) →
      (cString a).take MAX_KEY_LENGTH ≠ (cString b).take MAX_KEY_LENGTH → i ≠ j := by
  obtain ⟨nameOf, named⟩ := run_reached run outside
  refine ⟨fun c proper whole => named.holding.ownEffect proper whole, ?_⟩
  intro a b mayCreate mayCreate' later u i j opened run' ordinary opened' differ same
  obtain ⟨-, e, member, index, name⟩ := named.listed opened
  obtain ⟨nameOf₁, named₁⟩ := StoreStep.named (.call (.createOrOpenNamespace a mayCreate)) trivial trivial named
  obtain ⟨kept, nameOf₂, named₂⟩ := run_named named₁ run' ordinary
  obtain ⟨active, e', member', index', name'⟩ := named₂.listed opened'
  obtain ⟨nameOf₃, named₃⟩ := StoreStep.named (.call (.createOrOpenNamespace b mayCreate')) trivial trivial named₂
  have there := named₂.keepsNames (c := .createOrOpenNamespace b mayCreate') trivial nofun (kept member)
  have one := named₃.apart active e there e' member' (index.trans (same.trans index'.symm))
  rw [one] at name
  exact differ (name.symm.trans name')

end

def openedStore : StoreState 2 := fullKeyStore.after Env.firmware (.createOrOpenNamespace fullKey true)

def laterStore : StoreState 2 := openedStore.after Env.firmware (.writeItem ⟨1, ItemType.U8, [98], [8]⟩)

theorem fullKey_outside : ∀ e ∈ [StoreEvent.call .init, .call (.writeItem ⟨1, ItemType.U8, fullKey, [7]⟩)],
    StoreCall.Outside e.call_ := by
  simp [StoreCall.Outside, StoreEvent.call_, NS_INDEX]

theorem names_kept_apart_two :
    OwnEffect Env.firmware fullKeyStore (.ok (.bytes [7]))
      (fullKeyStore.after Env.firmware (.readItem 1 ItemType.U8 fullKey [0])) (.readItem 1 ItemType.U8 fullKey [0]) ∧
    ((StoreCall.createOrOpenNamespace fullKey true).run Env.firmware fullKeyStore.store fullKeyStore.flash).outcome =
      .ok (.index 1) ∧
    ((StoreCall.createOrOpenNamespace [98] true).run Env.firmware laterStore.store laterStore.flash).outcome =
      .ok (.index 2) ∧ (1 : Byte) ≠ 2 := by
  obtain ⟨own, differ⟩ := names_kept_apart fullKey_run fullKey_outside
  have read : ((StoreCall.readItem 1 ItemType.U8 fullKey [0]).run Env.firmware fullKeyStore.store
      fullKeyStore.flash).outcome = .ok (.bytes [7]) := by decide +kernel
  have opened : ((StoreCall.createOrOpenNamespace fullKey true).run Env.firmware fullKeyStore.store
      fullKeyStore.flash).outcome = .ok (.index 1) := by decide +kernel
  have opened' : ((StoreCall.createOrOpenNamespace [98] true).run Env.firmware laterStore.store
      laterStore.flash).outcome = .ok (.index 2) := by decide +kernel
  have proper : (StoreCall.writeItem ⟨1, ItemType.U8, [98], [8]⟩).Proper := ⟨by decide, .inr (by decide)⟩
  have later : StoreRun Env.firmware openedStore [.call (.writeItem ⟨1, ItemType.U8, [98], [8]⟩)] laterStore :=
    snoc_call (.nil _) proper
  refine ⟨?_, opened, opened', differ fullKey [98] true true _ _ 1 2 opened later ?_ opened' (by decide)⟩
  · rw [← read]
    exact own _ (show ItemType.U8 ≠ ItemType.ANY by decide) ⟨by decide, .inl (by decide)⟩
  · intro e member
    rw [List.mem_singleton.mp member]
    exact ⟨_, rfl, nofun, show (1 : Byte) ≠ NS_INDEX by decide⟩

theorem reads_other {s t : StoreState n} {nsIndex : Byte} {datatype : ItemType} {key buffer data : List Byte}
    (absent : ∀ r ∈ s.records env, r.entry.1 ≠ (nsIndex, cString key)) :
    ¬OwnEffect env s (.ok (.bytes data)) t (.readItem nsIndex datatype key buffer) := by
  intro own
  obtain ⟨r, member, name, -⟩ := own data rfl
  exact absent r member name

/-- With one more character two names open one namespace, and a key reads the value of another one. -/
theorem cut_names_mixed : fullKey ≠ fullKey ++ [98] ∧
    StoreRun Env.firmware (.erased Env.firmware)
      [.call .init, .call (.writeItem ⟨1, ItemType.U8, fullKey, [7]⟩)] fullKeyStore ∧
    ((StoreCall.createOrOpenNamespace fullKey true).run Env.firmware fullKeyStore.store fullKeyStore.flash).outcome =
      .ok (.index 1) ∧
    ((StoreCall.createOrOpenNamespace (fullKey ++ [98]) true).run Env.firmware openedStore.store
      openedStore.flash).outcome = .ok (.index 1) ∧
    ((StoreCall.readItem 1 ItemType.U8 (fullKey ++ [98]) [0]).run Env.firmware fullKeyStore.store
      fullKeyStore.flash).outcome = .ok (.bytes [7]) ∧
    ¬OwnEffect Env.firmware fullKeyStore (.ok (.bytes [7]))
      (fullKeyStore.after Env.firmware (.readItem 1 ItemType.U8 (fullKey ++ [98]) [0]))
      (.readItem 1 ItemType.U8 (fullKey ++ [98]) [0]) := by
  refine ⟨by decide, fullKey_run, ?_, ?_, ?_, reads_other ?_⟩
  · decide +kernel
  · decide +kernel
  · decide +kernel
  · decide +kernel

def StoreCall.KeptType (env : Env) (s : StoreState n) (c : StoreCall) : Prop :=
  s.store.mState = .active → StoreCall.KeepsType env s c

/-- Calls none of which writes a name that is stored with another type. -/
def TypedCalls (env : Env) : StoreState n → List StoreCall → Prop
  | _, [] => True
  | s, c :: calls => c.Proper ∧ StoreCall.KeptType env s c ∧ TypedCalls env (s.after env c) calls

/-- A value of another type is refused, one that is written is read, and no item is there twice. -/
structure TypesKept (env : Env) (s : StoreState n) (v : Value) : Prop where
  refused : (∃ r ∈ s.records env, r.name = (v.nsIndex, cString v.key) ∧ r.head.datatype ≠ v.datatype) →
    (∃ e, ((StoreCall.writeItem v).run env s.store s.flash).outcome = .err e) ∧
      (s.after env (.writeItem v)).contents env = s.contents env
  read : ((StoreCall.writeItem v).run env s.store s.flash).outcome = .ok .done → ∀ buffer,
    ((StoreCall.readItem v.nsIndex v.datatype v.key buffer).run env (s.after env (.writeItem v)).store
      (s.after env (.writeItem v)).flash).outcome = outcomeOf .bytes (readInto v.datatype v.data buffer)
  distinct : (s.after env (.writeItem v)).store.mState = .active →
    (((s.after env (.writeItem v)).records env).map fun r => (r.name, r.head.datatype)).Nodup

section
variable {s t : StoreState n} {P : Pages n} {c : StoreCall} {v : Value}

theorem mapHolds_typed {calls : List StoreCall} (holds : MapHolds env s) (typed : TypedCalls env s calls) :
    MapHolds env (calls.foldl (StoreState.after env) s) := by
  induction calls generalizing s with
  | nil => exact holds
  | cons c calls ih => exact ih (holds.step typed.1 typed.2.1) typed.2.2

theorem MapHolds.distinct (holds : MapHolds env s) (active : s.store.mState = .active) :
    ((s.records env).map fun r => (r.name, r.head.datatype)).Nodup := by
  rcases holds with ⟨P, on, apart⟩ | ⟨slots, off, -⟩
  · rw [on.records]
    refine List.Nodup.of_map Prod.fst ?_
    rw [List.map_map]
    have names : (entries P.live).keys.Nodup := apart
    unfold entries List.keys at names
    rw [List.map_map] at names
    exact names
  · exact absurd active off.inactive

theorem CallEnds.active {o : Outcome EspErr Answer} (ends : CallEnds env s P (.writeItem v) o t) :
    t.store.mState = .active := by
  cases ends with
  | writeItem last_ on' names => exact on'.active

theorem CallEnds.short {o : Outcome EspErr Answer} (on : On env s P) (ends : CallEnds env s P (.writeItem v) o t)
    (storable : Storable v) (ok : o = .ok .done) : Value.Short v := by
  cases ends with
  | writeItem last_ on' names =>
      have stored := writeItem_stored on.usable storable last_
      generalize P.writeItem env v _ = result at stored ok
      cases stored with
      | added usable short => exact short
      | replaced usable short => exact short
      | failed usable live => cases ok

theorem typed_specific {datatype : ItemType} {data : List Byte} (typed : Typed datatype data) :
    datatype ≠ ItemType.ANY := by
  rintro rfl
  rcases typed with variable_ | ⟨listed, -⟩
  · cases variable_
  · exact absurd listed (by decide)

theorem MapHolds.reads (holds : MapHolds env s) (proper : (StoreCall.writeItem v).Proper)
    (type : StoreCall.KeptType env s (.writeItem v))
    (ok : ((StoreCall.writeItem v).run env s.store s.flash).outcome = .ok .done) (buffer : List Byte) :
    ((StoreCall.readItem v.nsIndex v.datatype v.key buffer).run env (s.after env (.writeItem v)).store
      (s.after env (.writeItem v)).flash).outcome = outcomeOf .bytes (readInto v.datatype v.data buffer) := by
  have acts := holds.actsOnMap proper trivial type
  have after := holds.step proper type
  unfold ActsOnMap at acts
  rcases holds with ⟨P, on, -⟩ | ⟨slots, off, -⟩
  · have ends := (on.runs proper).ends
    have short := CallEnds.short on ends ⟨proper.1, proper.2⟩ ok
    rw [if_pos on.active, ok] at acts
    rcases acts with ⟨-, written⟩ | ⟨e, failed, -⟩
    · have reads := after.actsOnMap (c := .readItem v.nsIndex v.datatype v.key buffer) (typed_specific proper.2)
        ⟨proper.1, .inl short.key⟩ fun _ => trivial
      have active : (s.after env (.writeItem v)).store.mState = .active := CallEnds.active ends
      unfold ActsOnMap at reads
      rw [if_pos active] at reads
      obtain ⟨-, ⟨data, stored, read⟩ | ⟨missing, -⟩⟩ := reads
      · rw [written, Function.update_self] at stored
        cases stored
        exact read
      · exact absurd (by rw [written, Function.update_self]) (missing v.data)
    · cases failed
  · rw [refuses (c := .writeItem v) off.inactive nofun] at ok
    cases ok

end

def byteStore : StoreState 2 := startedStore.after Env.firmware (.writeItem ⟨1, ItemType.U8, [107], [1]⟩)

def retypedStore : StoreState 2 := byteStore.after Env.firmware (.eraseItem 1 ItemType.ANY [107])

theorem writes_other {s : StoreState n} {v : Value}
    (stored : ∃ r ∈ s.records env, r.name = (v.nsIndex, cString v.key) ∧ r.head.datatype ≠ v.datatype)
    (ok : ((StoreCall.writeItem v).run env s.store s.flash).outcome = .ok .done) : ¬TypesKept env s v := by
  intro kept
  obtain ⟨e, failed⟩ := (kept.refused stored).1
  rw [ok] at failed
  cases failed

end EspFirmware.Proof.Nvs
