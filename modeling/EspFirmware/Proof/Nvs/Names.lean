import EspFirmware.Proof.Nvs.Run

/-!
The names of namespaces: the items on flash, the list in RAM and the table of indices in use agree, as long
as no caller writes to namespace 0 itself.
-/

namespace EspFirmware.Proof.Nvs
open EspFirmware.Nvs EspFirmware.Spec EspFirmware.Lib Prog

variable {env : Env} {n : Nat}

def ValidIndex (i : Byte) : Prop := 1 ≤ i.toNat ∧ i.toNat ≤ 254

def NameKind (nameOf : Byte → List Byte) (r : Record) : Prop :=
  r.head.nsIndex = NS_INDEX →
    r.head.datatype = ItemType.U8 ∧ ValidIndex (entryOf r).mIndex ∧ nameOf (entryOf r).mIndex = (entryOf r).mName

theorem valued_record (env : Env) {v : Value} (storable : Storable v) (short : Value.Short v) :
    Valued env (v.record env) v.nsIndex v.datatype v.key v.data :=
  ⟨rfl, storable.named, storable.typed, short.key, short.data⟩

theorem entryOf_namespace {nsName : List Byte} {ns : Nat} (short : Value.Short (namespaceValue nsName ns)) :
    entryOf ((namespaceValue nsName ns).record env) = ⟨(cString nsName).take MAX_KEY_LENGTH, BitVec.ofNat 8 ns⟩ := by
  have valued := valued_record env (storable_namespace nsName ns) short
  obtain ⟨-, -, -, key⟩ := valued.fields
  have data := (valued.fixed (show ItemType.isVariable ItemType.U8 = false by decide)).1
  unfold entryOf
  rw [key, cString_keyField, List.take_take, Nat.min_self]
  have first : ((namespaceValue nsName ns).record env).head.data.headD 0 = BitVec.ofNat 8 ns := by
    have one : [BitVec.ofNat 8 ns] = ((namespaceValue nsName ns).record env).head.data.take 1 := data.symm
    cases bytes : ((namespaceValue nsName ns).record env).head.data with
    | nil =>
        rw [bytes] at one
        exact absurd one (by simp)
    | cons b rest =>
        rw [bytes] at one
        exact (List.cons.inj one).1.symm
  rw [first]
  rfl

theorem matchItem_index (r : Record) : Page.matchItem NS_INDEX ItemType.U8 none r.head =
    if r.head.nsIndex = NS_INDEX then
      if r.head.datatype = ItemType.U8 then some (.ok ()) else some (.error .typeMismatch)
    else none := by
  unfold Page.matchItem
  by_cases index : r.head.nsIndex = NS_INDEX
  · rw [if_neg (fun other => other.2 index), if_neg (by simp), if_pos index]
    by_cases type : r.head.datatype = ItemType.U8
    · rw [if_neg (fun other => other.2 type), if_pos type]
    · rw [if_pos ⟨by decide, type⟩, if_neg type]
  · rw [if_pos ⟨by decide, index⟩, if_neg index]

theorem namespacesOn_eq {rs : List Record} (kinds : ∀ r ∈ rs, r.head.nsIndex = NS_INDEX → r.head.datatype = ItemType.U8) :
    namespacesOn rs = (rs.filter fun r => r.head.nsIndex = NS_INDEX).map entryOf := by
  induction rs with
  | nil => rfl
  | cons r rs ih =>
      have rest := ih fun r' member => kinds r' (List.mem_cons_of_mem _ member)
      unfold namespacesOn
      rw [matchItem_index]
      by_cases index : r.head.nsIndex = NS_INDEX
      · rw [if_pos index, if_pos (kinds r List.mem_cons_self index), List.filter_cons_of_pos (by simpa using index),
          List.map_cons, rest]
      · rw [if_neg index, List.filter_cons_of_neg (by simpa using index), rest]

def indexRecords (rs : List Record) : List Record := rs.filter fun r => r.head.nsIndex = NS_INDEX

theorem namespaces_eq {P : Pages n} (kinds : ∀ r ∈ P.live, r.head.nsIndex = NS_INDEX → r.head.datatype = ItemType.U8) :
    Pages.namespaces P = (indexRecords P.live).map entryOf := by
  unfold Pages.namespaces Pages.live indexRecords
  rw [List.filter_flatMap, List.map_flatMap]
  refine List.flatMap_congr fun i member => ?_
  exact namespacesOn_eq fun r here => kinds r (List.mem_flatMap.mpr ⟨i, member, here⟩)

def inUse (s : StoreState n) (i : Nat) : Prop := CompressedEnumTable.get 1 s.store.mNamespaceUsage i = 1

theorem get_register (t : CompressedEnumTable) (i j : Nat) :
    CompressedEnumTable.get 1 (CompressedEnumTable.set 1 t i 1) j = if j = i then 1 else CompressedEnumTable.get 1 t j := by
  by_cases same : j = i
  · rw [if_pos same, same, get_set_self t (by decide) (by decide) i (by decide)]
  · rw [if_neg same, get_set_of_ne t (by decide) (by decide) same (by decide)]

theorem register_usage (st : Storage n) (es : List NamespaceEntry) (i : Nat)
    (known : CompressedEnumTable.get 1 st.mNamespaceUsage i = 1 ∨ ∃ e ∈ es, e.mIndex.toNat = i) :
    CompressedEnumTable.get 1 (es.foldl register st).mNamespaceUsage i = 1 := by
  induction es generalizing st with
  | nil =>
      rcases known with set | ⟨e, member, -⟩
      · exact set
      · exact absurd member List.not_mem_nil
  | cons e es ih =>
      refine ih (register st e) ?_
      have now : CompressedEnumTable.get 1 (register st e).mNamespaceUsage i =
          if i = e.mIndex.toNat then 1 else CompressedEnumTable.get 1 st.mNamespaceUsage i := get_register _ _ _
      rcases known with set | ⟨e', member, index⟩
      · left
        rw [now, set, ite_self]
      · rcases List.mem_cons.mp member with rfl | later
        · left
          rw [now, if_pos index.symm]
        · exact Or.inr ⟨e', later, index⟩

theorem register_names (st : Storage n) (es : List NamespaceEntry) :
    (es.foldl register st).mNamespaces = st.mNamespaces ++ es := by
  induction es generalizing st with
  | nil => exact (List.append_nil _).symm
  | cons e es ih =>
      rw [List.foldl_cons, ih]
      exact List.append_assoc _ [e] es

theorem started_names (st : Storage n) (m : PageManager n) (P : Pages n) :
    (started st m P).mNamespaces = Pages.namespaces P := by
  unfold started
  dsimp only
  rw [register_names, List.nil_append]

theorem started_usage (st : Storage n) (m : PageManager n) (P : Pages n) {e : NamespaceEntry}
    (member : e ∈ Pages.namespaces P) : CompressedEnumTable.get 1 (started st m P).mNamespaceUsage e.mIndex.toNat = 1 := by
  unfold started
  dsimp only
  rw [get_register, get_register, register_usage _ _ _ (Or.inr ⟨e, member, rfl⟩), ite_self, ite_self]

theorem freeNamespaceIndex_some {usage : CompressedEnumTable} {ns : Nat} (some_ : Storage.freeNamespaceIndex usage = some ns) :
    1 ≤ ns ∧ ns ≤ 254 ∧ CompressedEnumTable.get 1 usage ns = 0 := by
  unfold Storage.freeNamespaceIndex at some_
  have member := List.mem_of_find?_eq_some some_
  have free := List.find?_some some_
  rw [List.range_eq_range', List.drop_range', List.mem_range'_1] at member
  refine ⟨by omega, by omega, ?_⟩
  simpa using free

structure Registered (nameOf : Byte → List Byte) (s : StoreState n) (P : Pages n) : Prop where
  entries : ∀ e ∈ s.store.mNamespaces, ValidIndex e.mIndex ∧ nameOf e.mIndex = e.mName ∧ inUse s e.mIndex.toNat
  covered : ∀ r ∈ P.live, r.head.nsIndex = NS_INDEX → inUse s (entryOf r).mIndex.toNat

def Named (env : Env) (nameOf : Byte → List Byte) (s : StoreState n) : Prop :=
  (∃ P, On env s P ∧ (∀ r ∈ P.live, NameKind nameOf r) ∧ Registered nameOf s P) ∨
    ∃ slots, Off env s slots ∧ Image (NameKind nameOf) slots

def StoreCall.Outside : StoreCall → Prop
  | .writeItem v => v.nsIndex ≠ NS_INDEX
  | _ => True

section
variable {s t : StoreState n} {P Q : Pages n} {c : StoreCall} {nameOf : Byte → List Byte} {slots : Fin n → Slot}

theorem nameKind_other {v : Value} (storable : Storable v) (outside : v.nsIndex ≠ NS_INDEX) (short : Value.Short v) :
    NameKind nameOf (v.record env) := by
  intro index
  rw [(valued_record env storable short).fields.1] at index
  exact absurd index outside

theorem Registered.same (registered : Registered nameOf s P) (names : SameNames s t)
    (fewer : ∀ r ∈ Q.live, r.head.nsIndex = NS_INDEX → r ∈ P.live) : Registered nameOf t Q := by
  have usage (i : Nat) : inUse t i ↔ inUse s i := by rw [inUse, names.2, inUse]
  refine ⟨fun e member => ?_, fun r member index => ?_⟩
  · rw [names.1] at member
    obtain ⟨valid, name, used⟩ := registered.entries e member
    exact ⟨valid, name, (usage _).mpr used⟩
  · exact (usage _).mpr (registered.covered r (fewer r member index) index)

theorem InitEnds.named {o : Outcome EspErr Answer} (ends : InitEnds env s slots o t) (image : Image (NameKind nameOf) slots) :
    Named env nameOf t := by
  have after := (restart_stage slots).image image
  cases ends with
  | failed failed off => exact Or.inr ⟨_, off, after.reload⟩
  | started ok on =>
      rename_i m f
      have kinds := live_kinds after
      have list := namespaces_eq fun r member index => (kinds r member index).1
      refine Or.inl ⟨_, on, kinds, ⟨fun e member => ?_, fun r member index => ?_⟩⟩
      · dsimp only at member
        rw [started_names] at member
        have used := started_usage s.store m _ member
        rw [list] at member
        obtain ⟨r, chosen, rfl⟩ := List.mem_map.mp member
        obtain ⟨live, index⟩ := List.mem_filter.mp chosen
        obtain ⟨-, valid, name⟩ := kinds r live (by simpa using index)
        exact ⟨valid, name, used⟩
      · refine started_usage s.store _ _ ?_
        rw [list]
        exact List.mem_map_of_mem (List.mem_filter.mpr ⟨member, by simpa using index⟩)

def addName (nameOf : Byte → List Byte) (nsName : List Byte) (ns : Nat) : Byte → List Byte :=
  Function.update nameOf (BitVec.ofNat 8 ns) ((cString nsName).take MAX_KEY_LENGTH)

theorem unused_ne {ns : Nat} (some_ : Storage.freeNamespaceIndex s.store.mNamespaceUsage = some ns) {i : Byte}
    (used : inUse s i.toNat) : i ≠ BitVec.ofNat 8 ns := by
  obtain ⟨-, high, free⟩ := freeNamespaceIndex_some some_
  rintro rfl
  rw [inUse, BitVec.toNat_ofNat, Nat.mod_eq_of_lt (by omega), free] at used
  exact absurd used (by decide)

theorem NameKind.add {ns : Nat} {nsName : List Byte} (some_ : Storage.freeNamespaceIndex s.store.mNamespaceUsage = some ns)
    {r : Record} (kind : NameKind nameOf r) (used : r.head.nsIndex = NS_INDEX → inUse s (entryOf r).mIndex.toNat) :
    NameKind (addName nameOf nsName ns) r := by
  intro index
  obtain ⟨type, valid, name⟩ := kind index
  refine ⟨type, valid, ?_⟩
  rw [addName, Function.update_of_ne (unused_ne some_ (used index))]
  exact name

theorem validIndex_new {ns : Nat} (some_ : Storage.freeNamespaceIndex s.store.mNamespaceUsage = some ns) :
    ValidIndex (BitVec.ofNat 8 ns) := by
  obtain ⟨low, high, -⟩ := freeNamespaceIndex_some some_
  unfold ValidIndex
  rw [BitVec.toNat_ofNat, Nat.mod_eq_of_lt (by omega)]
  exact ⟨low, high⟩

theorem nameKind_new {ns : Nat} {nsName : List Byte} (some_ : Storage.freeNamespaceIndex s.store.mNamespaceUsage = some ns)
    (short : Value.Short (namespaceValue nsName ns)) :
    NameKind (addName nameOf nsName ns) ((namespaceValue nsName ns).record env) := by
  intro _
  have fields := (valued_record env (storable_namespace nsName ns) short).fields
  rw [entryOf_namespace short]
  exact ⟨fields.2.1, validIndex_new some_, Function.update_self _ _ _⟩

theorem Registered.add {ns : Nat} {nsName : List Byte} (registered : Registered nameOf s P)
    (some_ : Storage.freeNamespaceIndex s.store.mNamespaceUsage = some ns) :
    Registered (addName nameOf nsName ns) s P := by
  refine ⟨fun e member => ?_, registered.covered⟩
  obtain ⟨valid, name, used⟩ := registered.entries e member
  refine ⟨valid, ?_, used⟩
  rw [addName, Function.update_of_ne (unused_ne some_ used)]
  exact name

theorem Stored.named {v : Value} {result : Except EspErr Unit × Pages n} (stored : Stored env v P result) :
    ∀ r ∈ result.2.live, r = v.record env ∧ Value.Short v ∨ r ∈ P.live := by
  intro r here
  cases stored with
  | added usable short missing live =>
      rcases List.mem_cons.mp (live.mem_iff.mp here) with rfl | old
      · exact Or.inl ⟨rfl, short⟩
      · exact Or.inr old
  | replaced usable short matched before live =>
      rcases List.mem_cons.mp (live.mem_iff.mp here) with rfl | old
      · exact Or.inl ⟨rfl, short⟩
      · exact Or.inr (before.mem_iff.mpr (List.mem_cons_of_mem _ old))
  | failed usable live => exact Or.inr (live.mem_iff.mp here)

theorem live_eraseItem (usable : Usable env P) (nsIndex : Byte) (datatype : ItemType) (key : Option (List Byte)) :
    ∀ r ∈ (P.eraseItem nsIndex datatype key).2.live, r ∈ P.live :=
  live_kinds ((usable.image fun _ => id).fewer fewer_eraseItem)

theorem CallEnds.named {o : Outcome EspErr Answer} (on : On env s P) (ends : CallEnds env s P c o t) (proper : c.Proper)
    (outside : StoreCall.Outside c) (kinds : ∀ r ∈ P.live, NameKind nameOf r) (registered : Registered nameOf s P) :
    ∃ nameOf', Named env nameOf' t := by
  have quiet : ∃ nameOf', Named env nameOf' s := ⟨nameOf, Or.inl ⟨P, on, kinds, registered⟩⟩
  cases ends with
  | init ends => exact ⟨nameOf, ends.named (on.usable.image kinds).reload⟩
  | writeItem last_ on' names =>
      have storable : Storable _ := ⟨proper.1, proper.2⟩
      have stored := writeItem_stored on.usable storable last_
      refine ⟨nameOf, Or.inl ⟨_, on', stored.kinds kinds (nameKind_other storable outside), registered.same names ?_⟩⟩
      intro r member index
      rcases stored.named r member with ⟨rfl, short⟩ | old
      · rw [(valued_record env storable short).fields.1] at index
        exact absurd index outside
      · exact old
  | eraseItem on' names =>
      rename_i nsIndex datatype key
      have fewer := live_eraseItem on.usable nsIndex datatype (some key)
      exact ⟨nameOf, Or.inl ⟨_, on', fun r member => kinds r (fewer r member),
        registered.same names fun r member _ => fewer r member⟩⟩
  | eraseNamespace on' names =>
      rename_i nsIndex
      have fewer (r : Record) (member : r ∈ (P.eraseNamespace nsIndex).live) : r ∈ P.live := by
        rw [live_eraseNamespace] at member
        exact List.mem_of_mem_filter member
      exact ⟨nameOf, Or.inl ⟨_, on', fun r member => kinds r (fewer r member),
        registered.same names fun r member _ => fewer r member⟩⟩
  | unread => exact quiet
  | read => exact quiet
  | unsized => exact quiet
  | sized => exact quiet
  | opened => exact quiet
  | unknown => exact quiet
  | noIndex => exact quiet
  | notCreated unknown some_ last_ failed on' names =>
      rename_i nsName ns page e
      have stored := writeItem_stored on.usable (storable_namespace nsName ns) last_
      generalize P.writeItem env (namespaceValue nsName ns) page = result at stored failed on'
      cases stored with
      | added => exact absurd failed (by simp)
      | replaced => exact absurd failed (by simp)
      | failed usable live =>
          exact ⟨nameOf, Or.inl ⟨_, on', fun r member => kinds r (live.mem_iff.mp member),
            registered.same names fun r member _ => live.mem_iff.mp member⟩⟩
  | created unknown some_ last_ ok on' names =>
      rename_i nsName ns page
      have stored := writeItem_stored on.usable (storable_namespace nsName ns) last_
      have kinds' (r : Record) (member : r ∈ P.live) : NameKind (addName nameOf nsName ns) r :=
        (kinds r member).add some_ (registered.covered r member)
      have usage (i : Nat) (used : inUse s i) : inUse t i := by
        rw [inUse, names.usage, get_register, show CompressedEnumTable.get 1 _ i = 1 from used, ite_self]
      have small : (BitVec.ofNat 8 ns : Byte).toNat = ns := by
        obtain ⟨-, high, -⟩ := freeNamespaceIndex_some some_
        rw [BitVec.toNat_ofNat, Nat.mod_eq_of_lt (by omega)]
      have usedNew : inUse t (BitVec.ofNat 8 ns : Byte).toNat := by
        rw [inUse, names.usage, get_register, small, if_pos rfl]
      refine ⟨addName nameOf nsName ns, Or.inl ⟨_, on', stored.kinds kinds' (nameKind_new some_), ?_⟩⟩
      refine ⟨fun e member => ?_, fun r member index => ?_⟩
      · rw [names.names] at member
        rcases List.mem_append.mp member with old | new
        · obtain ⟨valid, name, used⟩ := (registered.add some_).entries e old
          exact ⟨valid, name, usage _ used⟩
        · rw [List.mem_singleton.mp new]
          exact ⟨validIndex_new some_, Function.update_self _ _ _, usedNew⟩
      · rcases stored.named r member with ⟨rfl, short⟩ | old
        · rw [entryOf_namespace short]
          exact usedNew
        · exact usage _ (registered.covered r old index)

theorem CallStage.named (stage : CallStage env s P c Q) (usable : Usable env P) (proper : c.Proper)
    (outside : StoreCall.Outside c) (kinds : ∀ r ∈ P.live, NameKind nameOf r) (registered : Registered nameOf s P) :
    ∃ nameOf', Image (NameKind nameOf') Q.slots := by
  cases stage with
  | create unknown some_ last_ stage =>
      rename_i nsName ns page
      refine ⟨addName nameOf nsName ns, stage.image usable (storable_namespace _ _) last_ ?_ (nameKind_new some_)⟩
      exact fun r member => (kinds r member).add some_ (registered.covered r member)
  | start => exact ⟨nameOf, usable.image kinds⟩
  | restart stage => exact ⟨nameOf, stage.image (usable.image kinds).reload⟩
  | store last_ stage =>
      have storable : Storable _ := ⟨proper.1, proper.2⟩
      exact ⟨nameOf, stage.image usable storable last_ kinds (nameKind_other storable outside)⟩
  | erase => exact ⟨nameOf, (usable.image kinds).fewer fewer_eraseItem⟩
  | namespace_ stage => exact ⟨nameOf, stage.image (usable.image kinds)⟩

theorem StoreStep.named {e : StoreEvent} (step : StoreStep env s e t) (proper : e.call_.Proper)
    (outside : StoreCall.Outside e.call_) (named : Named env nameOf s) : ∃ nameOf', Named env nameOf' t := by
  rcases named with ⟨P, on, kinds, registered⟩ | ⟨slots, off, image⟩
  · cases step with
    | call c => exact CallEnds.named on (on.runs proper).ends proper outside kinds registered
    | powerCut cut =>
        obtain ⟨Q, stage, shown⟩ := on.cut proper cut
        have values := stage.image on.usable proper on.usable.values
          fun v writes short => isValue_record (writes.storable proper) short
        obtain ⟨nameOf', image⟩ := stage.named on.usable proper outside kinds registered
        exact ⟨nameOf', Or.inr ⟨_, off_fresh shown values, image.reload⟩⟩
  · cases step with
    | call c =>
        rcases off.after c with ⟨-, ends⟩ | ⟨-, ran⟩
        · exact ⟨nameOf, ends.named image⟩
        · have same : s.after env c = s := by
            unfold StoreState.after
            rw [ran]
          rw [same]
          exact ⟨nameOf, Or.inr ⟨slots, off, image⟩⟩
    | powerCut cut =>
        obtain ⟨Q, stage, shown⟩ := off.cut cut
        have both : Image (fun r => IsValue env r ∧ NameKind nameOf r) Q.slots := by
          have before := off.boot.image.and image
          rcases stage with same | stage
          · rw [same]
            exact before
          · exact stage.image before
        exact ⟨nameOf, Or.inr ⟨_, off_fresh shown (both.mono fun _ => And.left), (both.mono fun _ => And.right).reload⟩⟩

theorem Named.holding (named : Named env nameOf s) : Holding env (NameKind nameOf) s := by
  rcases named with ⟨P, on, kinds, -⟩ | off
  · exact Or.inl ⟨P, on, kinds⟩
  · exact Or.inr off

theorem Named.apart (named : Named env nameOf s)
    (active : s.store.mState = .active) :
    ∀ e ∈ s.store.mNamespaces, ∀ e' ∈ s.store.mNamespaces, e.mIndex = e'.mIndex → e.mName = e'.mName := by
  rcases named with ⟨P, on, -, registered⟩ | ⟨slots, off, -⟩
  · intro e member e' member' same
    rw [← (registered.entries e member).2.1, same, (registered.entries e' member').2.1]
  · exact absurd active off.inactive

theorem named_erased (env : Env) : Named env (fun _ => []) (StoreState.erased (n := n) env) := by
  rcases holding_erased (n := n) env (NameKind fun _ => []) with ⟨P, on, -⟩ | off
  · exact absurd on.active (by simp [StoreState.erased, Storage.fresh])
  · exact Or.inr off

end

end EspFirmware.Proof.Nvs
