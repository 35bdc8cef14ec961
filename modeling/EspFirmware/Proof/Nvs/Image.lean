import EspFirmware.Proof.Nvs.Start

/-!
What flash holds at any moment of a run, whether or not the power goes out: pages a restart can work with,
at most one of them being freed.
-/

namespace EspFirmware.Proof.Nvs
open EspFirmware.Nvs EspFirmware.Spec

variable {env : Env} {n : Nat}

def latest (env : Env) : List Record → List Record
  | [] => []
  | r :: rest =>
      if rest.any fun x => env.itemHash x.head == env.itemHash r.head then latest env rest else r :: latest env rest

theorem records_lastByHash (segs : List Seg) : records (lastByHash env segs) = latest env (records segs) := by
  induction segs with
  | nil => rfl
  | cons seg segs ih =>
      cases seg with
      | gone => rw [lastByHash_skip rfl, records_skip rfl, records_skip rfl, ih]
      | torn head len => rw [lastByHash_skip rfl, records_skip rfl, records_skip rfl, ih]
      | item r =>
          rw [lastByHash_item, records_append, ih, records_cons_item, latest, hasHash]
          split
          · exact congrArg (· ++ latest env (records segs)) (records_gones r.size)
          · rw [records_cons_item, records_nil]
            rfl

theorem records_settled (segs : List Seg) : records (settled segs) = records segs := by
  induction segs with
  | nil => rfl
  | cons seg segs ih =>
      rw [settled_cons, records_append, ih]
      cases seg with
      | gone =>
          rw [records_skip rfl]
          rfl
      | torn head len =>
          rw [records_skip rfl]
          exact congrArg (· ++ records segs) (records_gones (len + 1))
      | item r =>
          rw [records_cons_item]
          rfl

theorem records_loaded (st : PageState) (segs : List Seg) :
    records (loaded env st segs .free) = if st = .active then latest env (records segs) else records segs := by
  unfold loaded
  have all : records (settled segs ++ settleTail .free) = records segs := by
    rw [settleTail, List.append_nil, records_settled]
  split
  · rw [records_lastByHash, all]
  · exact all

theorem latest_sublist (rs : List Record) : (latest env rs).Sublist rs := by
  induction rs with
  | nil => exact .slnil
  | cons r rs ih =>
      unfold latest
      split
      · exact ih.cons _
      · exact ih.cons_cons _

theorem records_reload (slot : Slot) : (records (slot.reload env).segs).Sublist (records slot.segs) := by
  cases slot with
  | blank seq => exact .slnil
  | junk => exact .slnil
  | used st seq segs =>
      change (records (loaded env st segs .free)).Sublist (records segs)
      rw [records_loaded]
      split
      · exact latest_sublist _
      · exact .refl _

structure Image (kind : Record → Prop) (slots : Fin n → Slot) : Prop where
  found : ∀ i, Slot.Found (slots i)
  freeing : ∀ i j, (slots i).isFreeing = true → (slots j).isFreeing = true → i = j
  kinds : ∀ i, ∀ r ∈ records (slots i).segs, kind r

section
variable {kind : Record → Prop} {slots slots' : Fin n → Slot}

theorem Image.update (image : Image kind slots) {i : Fin n} {slot : Slot} (found : Slot.Found slot)
    (notFreeing : slot.isFreeing = false) (kinds : ∀ r ∈ records slot.segs, kind r) :
    Image kind (Function.update slots i slot) := by
  refine ⟨fun j => ?_, fun j k => ?_, fun j => ?_⟩
  · rcases eq_or_ne j i with rfl | other
    · rw [Function.update_self]
      exact found
    · rw [Function.update_of_ne other]
      exact image.found j
  · rcases eq_or_ne j i with rfl | other
    · rw [Function.update_self, notFreeing]
      nofun
    · rcases eq_or_ne k i with rfl | other'
      · rw [Function.update_self, notFreeing]
        nofun
      · rw [Function.update_of_ne other, Function.update_of_ne other']
        exact image.freeing j k
  · rcases eq_or_ne j i with rfl | other
    · rw [Function.update_self]
      exact kinds
    · rw [Function.update_of_ne other]
      exact image.kinds j

theorem Image.shrink (image : Image kind slots) (found : ∀ i, Slot.Found (slots' i))
    (freeing : ∀ i, (slots' i).isFreeing = (slots i).isFreeing)
    (fewer : ∀ i, ∀ r ∈ records (slots' i).segs, r ∈ records (slots i).segs) : Image kind slots' := by
  refine ⟨found, fun i j => ?_, fun i r member => image.kinds i r (fewer i r member)⟩
  rw [freeing, freeing]
  exact image.freeing i j

theorem found_reload {slot : Slot} (found : Slot.Found slot) : Slot.Found (slot.reload env) := by
  cases slot with
  | blank seq => exact found
  | junk => exact found
  | used st seq segs => exact Or.inl found.searched

theorem isFreeing_reload (slot : Slot) : (slot.reload env).isFreeing = slot.isFreeing := by
  cases slot with
  | blank seq => rfl
  | junk => rfl
  | used st seq segs => cases st <;> rfl

theorem Image.reload (image : Image kind slots) : Image kind fun i => (slots i).reload env :=
  image.shrink (fun i => found_reload (image.found i)) (fun _ => isFreeing_reload _)
    fun _ _ member => (records_reload _).subset member

theorem found_restart {slot : Slot} (found : Slot.Found slot) : Slot.Found slot.restart := by
  cases slot with
  | blank seq => exact Or.inl trivial
  | junk => exact found
  | used st seq segs => exact found

theorem isFreeing_restart (slot : Slot) : slot.restart.isFreeing = slot.isFreeing := by cases slot <;> rfl

theorem segs_restart (slot : Slot) : slot.restart.segs = slot.segs := by cases slot <;> rfl

theorem Image.restart (image : Image kind slots) : Image kind fun i => (slots i).restart :=
  image.shrink (fun i => found_restart (image.found i)) (fun _ => isFreeing_restart _)
    fun _ _ member => by rwa [segs_restart] at member

theorem Image.mono {kind' : Record → Prop} (image : Image kind slots) (weaker : ∀ r, kind r → kind' r) :
    Image kind' slots :=
  ⟨image.found, image.freeing, fun i r member => weaker r (image.kinds i r member)⟩

end

theorem Slot.Writable.notFreeing {slot : Slot} (writable : Slot.Writable slot) : slot.isFreeing = false := by
  cases slot with
  | blank seq => rfl
  | junk => rfl
  | used st seq segs =>
      rcases writable with rfl | rfl
      · rfl
      · rfl

theorem Slot.Unused.found {slot : Slot} (unused : Slot.Unused slot) : Slot.Found slot := by
  cases slot with
  | blank seq => exact Or.inl trivial
  | junk => exact Or.inr rfl
  | used st seq segs => exact unused.elim

theorem Slot.Unused.notFreeing {slot : Slot} (unused : Slot.Unused slot) : slot.isFreeing = false := by
  cases slot with
  | blank seq => rfl
  | junk => rfl
  | used st seq segs => exact unused.elim

theorem Slot.Unused.segs {slot : Slot} (unused : Slot.Unused slot) : slot.segs = [] := by
  cases slot with
  | blank seq => rfl
  | junk => rfl
  | used st seq segs => exact unused.elim

section
variable {P : Pages n} {kind : Record → Prop}

theorem Usable.image (usable : Usable env P) (all : ∀ r ∈ P.live, kind r) : Image kind P.slots := by
  have cases_ (i : Fin n) : (i ∈ P.list ∧ Slot.Writable (P.slots i)) ∨ Slot.Unused (P.slots i) := by
    rcases List.mem_append.mp (usable.all i) with listed | free
    · exact Or.inl ⟨listed, usable.writable listed⟩
    · exact Or.inr (usable.unused i free)
  have notFreeing (i : Fin n) : (P.slots i).isFreeing = false := by
    rcases cases_ i with ⟨-, writable⟩ | unused
    · exact writable.notFreeing
    · exact Slot.Unused.notFreeing unused
  refine ⟨fun i => ?_, fun i j freeing => ?_, fun i r member => ?_⟩
  · rcases cases_ i with ⟨-, writable⟩ | unused
    · exact Or.inl writable.searchable
    · exact Slot.Unused.found unused
  · rw [notFreeing] at freeing
    exact absurd freeing Bool.false_ne_true
  · rcases cases_ i with ⟨listed, -⟩ | unused
    · exact all r (List.mem_flatMap.mpr ⟨i, listed, member⟩)
    · rw [Slot.Unused.segs unused] at member
      exact absurd member List.not_mem_nil

end

structure Fitting (kind : Record → Prop) (slot : Slot) : Prop where
  found : Slot.Found slot
  notFreeing : slot.isFreeing = false
  kinds : ∀ r ∈ records slot.segs, kind r

section
variable {P : Pages n} {kind : Record → Prop} {v : Value}

theorem Image.fit {slots : Fin n → Slot} (image : Image kind slots) {i : Fin n} {slot : Slot} (fitting : Fitting kind slot) :
    Image kind (Function.update slots i slot) := image.update fitting.found fitting.notFreeing fitting.kinds

theorem Slot.Writable.fitting {slot : Slot} (writable : Slot.Writable slot) (kinds : ∀ r ∈ records slot.segs, kind r) :
    Fitting kind slot := ⟨Or.inl writable.searchable, writable.notFreeing, kinds⟩

theorem fitting_junk : Fitting kind .junk := ⟨Or.inr rfl, rfl, nofun⟩

theorem fitting_blank (seq : Word) : Fitting kind (.blank seq) := ⟨Or.inl trivial, rfl, nofun⟩

theorem WriteStage.fitting {slot slot' : Slot} (stage : WriteStage env v slot slot') (writable : Slot.Writable slot)
    (kinds : ∀ r ∈ records slot.segs, kind r) (new : Value.Short v → kind (v.record env)) : Fitting kind slot' := by
  cases stage with
  | header seq => exact fitting_junk
  | begun seq segs count =>
      refine Slot.Writable.fitting (Or.inl rfl) fun r member => kinds r ?_
      change r ∈ records (segs ++ gones count) at member
      rwa [records_append, records_gones, List.append_nil] at member
  | begunFirst seq count =>
      refine Slot.Writable.fitting (Or.inl rfl) fun r member => ?_
      change r ∈ records (gones count) at member
      rw [records_gones] at member
      exact absurd member List.not_mem_nil
  | written =>
      have result : WriteResult env v slot (slot.write env v) := write_result env v writable
      generalize slot.write env v = written at result
      cases result with
      | written short segs isOpen =>
          refine isOpen.writable.fitting fun r member => ?_
          rw [segs, records_snoc] at member
          rcases List.mem_append.mp member with old | same
          · exact kinds r old
          · rw [List.mem_singleton.mp same]
            exact new short
      | refused segs isOpen =>
          refine isOpen.writable.fitting fun r member => ?_
          rw [segs] at member
          exact kinds r member

theorem CopyStage.fitting {seq : Word} {segs : List Seg} {slot : Slot} (stage : CopyStage seq segs slot)
    (kinds : ∀ r ∈ records segs, kind r) : Fitting kind slot := by
  cases stage with
  | header => exact fitting_junk
  | copied done count =>
      refine Slot.Writable.fitting (Or.inl rfl) fun r member => kinds r ?_
      change r ∈ records ((items segs).take done ++ gones count) at member
      rw [records_append, records_gones, List.append_nil] at member
      have all : r ∈ records (items segs) := by
        rw [← List.take_append_drop done (items segs), records_append]
        exact List.mem_append_left _ member
      rwa [records_items] at all

theorem Image.freeing_set {slots : Fin n → Slot} (image : Image kind slots) (none_ : ∀ i, (slots i).isFreeing = false)
    {page : Fin n} (isOpen : Slot.Open (slots page)) :
    Image kind (Function.update slots page ((slots page).withState .freeing)) := by
  have only (i : Fin n) (freeing : (Function.update slots page ((slots page).withState .freeing) i).isFreeing = true) :
      i = page := by
    rcases eq_or_ne i page with same | other
    · exact same
    · rw [Function.update_of_ne other, none_] at freeing
      exact absurd freeing Bool.false_ne_true
  refine ⟨fun i => ?_, fun i j first second => (only i first).trans (only j second).symm, fun i r member => ?_⟩
  · rcases eq_or_ne i page with rfl | other
    · rw [Function.update_self]
      revert isOpen
      cases slots i with
      | blank seq => exact fun isOpen => isOpen.elim
      | junk => exact fun isOpen => isOpen.elim
      | used st seq segs => exact fun _ => Or.inl (Or.inr (Or.inr rfl))
    · rw [Function.update_of_ne other]
      exact image.found i
  · rcases eq_or_ne i page with rfl | other
    · rw [Function.update_self] at member
      refine image.kinds i r ?_
      revert member
      cases slots i <;> exact id
    · rw [Function.update_of_ne other] at member
      exact image.kinds i r member

theorem Usable.notFreeing (usable : Usable env P) (i : Fin n) : (P.slots i).isFreeing = false := by
  rcases List.mem_append.mp (usable.all i) with listed | free
  · exact (usable.writable listed).notFreeing
  · exact Slot.Unused.notFreeing (usable.unused i free)

theorem RequestStage.image {Q : Pages n} (stage : RequestStage P Q) (allOpen : AllOpen env P)
    (all : ∀ r ∈ P.live, kind r) : Image kind Q.slots := by
  have usable := allOpen.usable
  have now := usable.image all
  have freed {p page : Fin n} (one : P.free = [p]) (most : P.mostUnused = some page) :
      Image kind (Pages.freeing (P.activate p []) page).slots := by
    have exchange := usable.exchange one most
    have active : Usable env (P.activate p []) := Usable.activate allOpen one
    have same : (P.activate p []).slots page = P.slots page := activate_slots_other [] exchange.other
    refine (now.fit (fitting_blank P.next)).freeing_set active.notFreeing ?_
    change Slot.Open ((P.activate p []).slots page)
    rw [same]
    exact allOpen.opened page exchange.member
  cases stage with
  | activated some_ => exact now.fit (fitting_blank P.next)
  | freeing one most => exact freed one most
  | copying one most stage =>
      refine (freed one most).fit (stage.fitting fun r member => all r ?_)
      exact List.mem_flatMap.mpr ⟨_, mostUnused_mem most, member⟩
  | done ok =>
      obtain ⟨usable', live⟩ := Usable.requested allOpen ok
      exact usable'.image fun r member => all r (live.mem_iff.mp member)

theorem live_at (all : ∀ r ∈ P.live, kind r) {i : Fin n} (member : i ∈ P.list) : ∀ r ∈ records (P.slots i).segs, kind r :=
  fun r here => all r (List.mem_flatMap.mpr ⟨i, member, here⟩)

theorem Usable.filled (usable : Usable env P) {page : Fin n} (last_ : P.list.getLast? = some page) {slot : Slot}
    (refused : (P.slots page).write env v = (.error .pageFull, slot)) :
    AllOpen env (P.set page (slot.withState .full)) ∧ (P.set page (slot.withState .full)).live.Perm P.live := by
  have member := List.mem_of_getLast? last_
  have result : WriteResult env v (P.slots page) ((P.slots page).write env v) := write_result env v (usable.writable member)
  rw [refused] at result
  cases result with
  | refused segs isOpen =>
      have full := withState_full isOpen
      exact ⟨usable.allOpen last_ (full.2.trans segs) full.1, (usable.refused member (full.2.trans segs) full.1).2⟩

theorem StoreStage.image {page : Fin n} {Q : Pages n} (stage : StoreStage env v P page Q) (usable : Usable env P)
    (storable : Storable v) (last_ : P.list.getLast? = some page) (all : ∀ r ∈ P.live, kind r)
    (new : Value.Short v → kind (v.record env)) : Image kind Q.slots := by
  have member := List.mem_of_getLast? last_
  have now := usable.image all
  cases stage with
  | first stage => exact now.fit (stage.fitting (usable.writable member) (live_at all member) new)
  | full refused =>
      obtain ⟨allOpen, live⟩ := usable.filled last_ refused
      exact allOpen.usable.image fun r here => all r (live.mem_iff.mp here)
  | requested refused stage =>
      obtain ⟨allOpen, live⟩ := usable.filled last_ refused
      exact stage.image allOpen fun r here => all r (live.mem_iff.mp here)
  | second refused ok newLast stage =>
      obtain ⟨allOpen, live⟩ := usable.filled last_ refused
      obtain ⟨usable', live'⟩ := Usable.requested allOpen ok
      have all' (r : Record) (here : r ∈ _) : kind r := all r (live.mem_iff.mp (live'.mem_iff.mp here))
      have member' := List.mem_of_getLast? newLast
      exact (usable'.image all').fit (stage.fitting (usable'.writable member') (live_at all' member') new)
  | done =>
      have stored : Stored env v P (P.writeItem env v page) := writeItem_stored usable storable last_
      generalize P.writeItem env v page = result at stored
      cases stored with
      | added usable' short missing live =>
          refine usable'.image fun r here => ?_
          rcases List.mem_cons.mp (live.mem_iff.mp here) with rfl | old
          · exact new short
          · exact all r old
      | replaced usable' short matched before live =>
          refine usable'.image fun r here => ?_
          rcases List.mem_cons.mp (live.mem_iff.mp here) with rfl | old
          · exact new short
          · exact all r (before.mem_iff.mpr (List.mem_cons_of_mem _ old))
      | failed usable' live => exact usable'.image fun r here => all r (live.mem_iff.mp here)

end

section
variable {P : Pages n} {kind : Record → Prop} {nsIndex : Byte} {datatype : ItemType} {key : Option (List Byte)}

structure Fewer (slot slot' : Slot) : Prop where
  same : slot' = slot.withSegs slot'.segs
  kept : (records slot'.segs).Subperm (records slot.segs)

theorem Fewer.refl (slot : Slot) : Fewer slot slot := ⟨(withSegs_self slot).symm, .refl _⟩

theorem withSegs_withSegs (slot : Slot) (a b : List Seg) : (slot.withSegs a).withSegs b = slot.withSegs b := by
  cases slot <;> rfl

theorem Fewer.trans {a b c : Slot} (first : Fewer a b) (second : Fewer b c) : Fewer a c := by
  refine ⟨?_, second.kept.trans first.kept⟩
  have step := second.same
  rw [first.same, withSegs_withSegs] at step
  exact step

theorem fewer_withSegs (slot : Slot) {segs : List Seg} (kept : (records segs).Subperm (records slot.segs)) :
    Fewer slot (slot.withSegs segs) := by
  cases slot with
  | blank seq => exact .refl _
  | junk => exact .refl _
  | used st seq segs' => exact ⟨rfl, kept⟩

theorem fewer_erase (slot : Slot) : Fewer slot (slot.erase nsIndex datatype key).2 := by
  unfold Slot.erase
  cases scanned : scanFrom nsIndex datatype key 0 slot.segs with
  | error e => exact .refl slot
  | ok x =>
      obtain ⟨pos, r⟩ := x
      exact fewer_withSegs slot ((List.sublist_cons_self r _).subperm.trans (records_dropAt scanned).symm.subperm)

theorem Thinned.fewer {slot slot' : Slot} (thinned : Thinned nsIndex slot slot') : Fewer slot slot' := by
  induction thinned with
  | same => exact .refl slot
  | step _ ih => exact ih.trans (fewer_erase _)

theorem Fewer.found {slot slot' : Slot} (fewer : Fewer slot slot') (found : Slot.Found slot) : Slot.Found slot' := by
  rw [fewer.same]
  cases slot with
  | blank seq => exact found
  | junk => exact found
  | used st seq segs => exact Or.inl found.searched

theorem isFreeing_withSegs (slot : Slot) (segs : List Seg) : (slot.withSegs segs).isFreeing = slot.isFreeing := by
  cases slot with
  | blank seq => rfl
  | junk => rfl
  | used st seq segs => cases st <;> rfl

theorem Image.fewer {slots slots' : Fin n → Slot} (image : Image kind slots) (fewer : ∀ i, Fewer (slots i) (slots' i)) :
    Image kind slots' := by
  refine image.shrink (fun i => (fewer i).found (image.found i)) (fun i => ?_) fun i _ member => (fewer i).kept.subset member
  rw [(fewer i).same, isFreeing_withSegs]

theorem fewer_set {page : Fin n} {slot : Slot} (fewer : Fewer (P.slots page) slot) (i : Fin n) :
    Fewer (P.slots i) ((P.set page slot).slots i) := by
  rcases eq_or_ne i page with rfl | other
  · rw [set_slots_self]
    exact fewer
  · rw [set_slots_other other]
    exact .refl _

theorem fewer_eraseFrom (page i : Fin n) : Fewer (P.slots i) ((P.eraseFrom nsIndex datatype key page).2.slots i) :=
  fewer_set (fewer_erase _) i

theorem fewer_eraseItem (i : Fin n) : Fewer (P.slots i) ((P.eraseItem nsIndex datatype key).2.slots i) := by
  unfold Pages.eraseItem
  cases P.find nsIndex datatype key with
  | none => exact .refl _
  | some found => exact fewer_eraseFrom found.1 i

theorem fewer_eraseDuplicate (P : Pages n) (item : Item) (l : List (Fin n)) (i : Fin n) :
    Fewer (P.slots i) ((P.eraseDuplicate item l).slots i) := by
  induction l with
  | nil => exact .refl _
  | cons page rest ih =>
      unfold Pages.eraseDuplicate
      split
      · exact ih
      · cases erased_ : P.eraseFrom item.nsIndex item.datatype (some item.key) page with
        | mk result Q =>
            cases result with
            | error e => exact ih
            | ok _ =>
                have here : Q = (P.eraseFrom item.nsIndex item.datatype (some item.key) page).2 := by rw [erased_]
                rw [here]
                exact fewer_eraseFrom page i

theorem fewer_withoutDuplicate (P : Pages n) (last i : Fin n) : Fewer (P.slots i) ((P.withoutDuplicate last).slots i) := by
  unfold Pages.withoutDuplicate
  cases (records (P.slots last).segs).getLast? with
  | none => exact .refl _
  | some r => exact fewer_eraseDuplicate P r.head _ i

theorem NamespaceStage.image {Q : Pages n} (stage : NamespaceStage nsIndex P Q) (image : Image kind P.slots) :
    Image kind Q.slots := image.fewer fun i => (stage.slots i).fewer

end

section
variable {P : Pages n} {kind : Record → Prop} {slots : Fin n → Slot}

theorem Image.arrange (image : Image kind slots) : Image kind (Pages.arrange slots).slots := by
  rw [arrange_slots]
  exact image.restart

theorem Image.unduplicated (image : Image kind slots) (last : Fin n) :
    Image kind (((Pages.arrange slots).numbered last).withoutDuplicate last).slots :=
  image.arrange.fewer fun i => fewer_withoutDuplicate ((Pages.arrange slots).numbered last) last i

theorem Image.withoutCopy (image : Image kind P.slots) (last : Fin n) : Image kind (P.withoutCopy last).slots := by
  unfold Pages.withoutCopy
  split
  · exact image.fit (fitting_blank _)
  · exact image

theorem Image.moved (image : Image kind P.slots) {page target : Fin n} {seq : Word} (empty : P.slots target = .blank seq) :
    Fitting kind (P.moved page target) := by
  have kinds : ∀ r ∈ records (P.moved page target).segs, kind r := by
    rw [records_moved empty]
    exact image.kinds page
  rcases moved_cases page empty with ⟨blank_, -⟩ | used
  · rw [blank_]
    exact fitting_blank seq
  · rw [used] at kinds ⊢
    exact Slot.Writable.fitting (Or.inl rfl) kinds

theorem Image.recycle (image : Image kind P.slots) {page target : Fin n} {seq : Word}
    (empty : P.slots target = .blank seq) : Image kind (P.recycle page target).slots :=
  (image.fit (image.moved empty)).fit (fitting_blank _)

theorem FinishStage.image {page last : Fin n} {Q : Pages n} (stage : FinishStage P page last Q)
    (image : Image kind P.slots) : Image kind Q.slots := by
  have without := image.withoutCopy last
  cases stage with
  | discarded => exact without
  | activated some_ => exact without.fit (fitting_blank _)
  | copying some_ stage => exact (without.fit (fitting_blank _)).fit (stage.fitting (image.kinds page))
  | done =>
      unfold Pages.finishFreeing
      dsimp only
      cases (P.withoutCopy last).free with
      | nil => exact without
      | cons p rest =>
          have activated : Image kind ((P.withoutCopy last).activate p rest).slots := without.fit (fitting_blank _)
          exact activated.recycle (activate_slots_self p rest)

theorem RestartStage.image {Q : Pages n} (stage : RestartStage slots Q) (image : Image kind slots) : Image kind Q.slots := by
  cases stage with
  | found => exact image.arrange
  | activated none_ some_ => exact image.arrange.fit (fitting_blank _)
  | unduplicated last_ => exact image.unduplicated _
  | finishing last_ freeing stage => exact stage.image (image.unduplicated _)

theorem finish_stage {last : Fin n} (P : Pages n) (page : Fin n)
    (freeing : (P.list.find? fun page => (P.slots page).isFreeing) = some page) :
    (P.finish last).2 = (P.finishFreeing page last).2 := by
  unfold Pages.finish
  rw [freeing]
  dsimp only
  cases P.finishFreeing page last with
  | mk result Q => cases result <;> rfl

theorem finish_none {last : Fin n} (P : Pages n) (none_ : (P.list.find? fun page => (P.slots page).isFreeing) = none) :
    (P.finish last).2 = P := by
  unfold Pages.finish
  rw [none_]

theorem restart_stage (slots : Fin n → Slot) : RestartStage slots (Pages.restart slots).2 := by
  unfold Pages.restart
  dsimp only
  cases last_ : (Pages.arrange slots).list.getLast? with
  | none =>
      dsimp only
      cases free : (Pages.arrange slots).free with
      | nil => exact .found
      | cons p rest => exact .activated (List.getLast?_eq_none_iff.mp last_) free
  | some last =>
      dsimp only
      cases freeing : (((Pages.arrange slots).numbered last).withoutDuplicate last).list.find?
          fun page => ((((Pages.arrange slots).numbered last).withoutDuplicate last).slots page).isFreeing with
      | none =>
          rw [finish_none _ freeing]
          exact .unduplicated last_
      | some page =>
          rw [finish_stage _ page freeing]
          exact .finishing last_ freeing .done

theorem Listed.open_ (listed : Listed P) {i : Fin n} (member : i ∈ P.list) (notFreeing : (P.slots i).isFreeing = false) :
    Slot.Open (P.slots i) := by
  obtain ⟨st, seq, segs, slot, searched⟩ := listed.listed i member
  rw [slot] at notFreeing ⊢
  rcases searched with rfl | rfl | rfl
  · exact Or.inl rfl
  · exact Or.inr rfl
  · exact absurd notFreeing (by simp [Slot.isFreeing])

theorem Listed.usable (listed : Listed P) (some_ : P.list ≠ []) (notFreeing : ∀ i ∈ P.list, (P.slots i).isFreeing = false)
    (values : ∀ r ∈ P.live, IsValue env r) : AllOpen env P := by
  have opened (i : Fin n) (member : i ∈ P.list) : Slot.Open (P.slots i) := listed.open_ member (notFreeing i member)
  exact ⟨⟨listed.all, listed.distinct, some_, fun i front => opened i (List.dropLast_subset _ front),
    fun i last_ => (opened i (List.mem_of_getLast? last_)).writable, listed.unused, values⟩, opened⟩

theorem Listed.withoutCopy (listed : Listed P) {last : Fin n} (member : last ∈ P.list) : Listed (P.withoutCopy last) := by
  unfold Pages.withoutCopy
  split
  · exact listed.discard member
  · exact listed

theorem isFreeing_not_active {slot : Slot} (freeing : slot.isFreeing = true) : slot.isActive = false := by
  cases slot with
  | blank seq => rfl
  | junk => rfl
  | used st seq segs =>
      cases st with
      | freeing => rfl
      | _ => exact absurd freeing (by simp [Slot.isFreeing])

theorem withoutCopy_page (listed : Listed P) {page : Fin n} (last : Fin n) (member : page ∈ P.list)
    (freeing : (P.slots page).isFreeing = true) :
    page ∈ (P.withoutCopy last).list ∧ (P.withoutCopy last).slots page = P.slots page := by
  unfold Pages.withoutCopy
  split
  · rename_i active
    have other : page ≠ last := by
      rintro rfl
      rw [isFreeing_not_active freeing] at active
      exact Bool.false_ne_true active
    exact ⟨(List.Nodup.mem_erase_iff listed.distinctList).mpr ⟨other, member⟩, Function.update_of_ne other _ _⟩
  · exact ⟨member, rfl⟩

theorem finishFreeing_cases (P : Pages n) (page last : Fin n) :
    (P.finishFreeing page last = (.error .notEnoughSpace, P.withoutCopy last) ∧ (P.withoutCopy last).free = []) ∨
      ∃ p rest, (P.withoutCopy last).free = p :: rest ∧
        P.finishFreeing page last = (.ok (), ((P.withoutCopy last).activate p rest).recycle page p) := by
  unfold Pages.finishFreeing
  dsimp only
  cases free : (P.withoutCopy last).free with
  | nil => exact Or.inl ⟨rfl, rfl⟩
  | cons p rest => exact Or.inr ⟨p, rest, rfl, rfl⟩

theorem finish_usable (listed : Listed P) (image : Image kind P.slots) (values : ∀ r, kind r → IsValue env r)
    {last : Fin n} (last_ : P.list.getLast? = some last) (ok : (P.finish last).1 = .ok ()) :
    Usable env (P.finish last).2 := by
  have live (Q : Pages n) (image' : Image kind Q.slots) : ∀ r ∈ Q.live, IsValue env r := by
    intro r member
    obtain ⟨i, -, here⟩ := List.mem_flatMap.mp member
    exact values r (image'.kinds i r here)
  cases freeing : P.list.find? fun page => (P.slots page).isFreeing with
  | none =>
      rw [finish_none P freeing]
      have none_ (i : Fin n) (member : i ∈ P.list) : (P.slots i).isFreeing = false := by
        have not_ := List.find?_eq_none.mp freeing i member
        exact Bool.eq_false_iff.mpr not_
      exact (listed.usable (List.ne_nil_of_mem (List.mem_of_getLast? last_)) none_ (live P image)).usable
  | some page =>
      rw [finish_stage P page freeing]
      have member := List.mem_of_find?_eq_some freeing
      have marked : (P.slots page).isFreeing = true := by simpa using List.find?_some freeing
      obtain ⟨stays, same⟩ := withoutCopy_page listed last member marked
      have listed' := listed.withoutCopy (List.mem_of_getLast? last_)
      have image' := image.withoutCopy last
      rcases finishFreeing_cases P page last with ⟨failed, -⟩ | ⟨p, rest, free, done⟩
      · unfold Pages.finish at ok
        rw [freeing] at ok
        dsimp only at ok
        rw [failed] at ok
        exact absurd ok (by simp)
      · rw [done]
        refine (exchange_of listed'.distinct free stays).usable listed'.all listed'.distinct ?_ listed'.unused (live _ image')
        intro i inside other
        refine listed'.open_ inside (Bool.eq_false_iff.mpr fun also => other ?_)
        rw [← same] at marked
        exact image'.freeing i page also marked

theorem restart_usable (image : Image kind slots) (values : ∀ r, kind r → IsValue env r)
    (ok : (Pages.restart slots).1 = .ok ()) : Usable env (Pages.restart slots).2 := by
  have listed : Listed (Pages.arrange slots) := .arrange image.found
  unfold Pages.restart at ok ⊢
  dsimp only at ok ⊢
  cases last_ : (Pages.arrange slots).list.getLast? with
  | none =>
      rw [last_] at ok
      dsimp only at ok ⊢
      have empty := List.getLast?_eq_none_iff.mp last_
      cases free : (Pages.arrange slots).free with
      | nil =>
          rw [free] at ok
          exact absurd ok (by simp)
      | cons p rest =>
          have distinct := listed.distinct
          have all := listed.all
          rw [empty, free, List.nil_append] at distinct all
          refine ⟨?_, ?_, ?_, ?_, ?_, ?_, ?_⟩
          · change ∀ i, i ∈ (Pages.arrange slots).list ++ [p] ++ rest
            rw [empty]
            exact all
          · change ((Pages.arrange slots).list ++ [p] ++ rest).Nodup
            rw [empty]
            exact distinct
          · exact List.append_ne_nil_of_right_ne_nil _ (by simp)
          · change ∀ i ∈ ((Pages.arrange slots).list ++ [p]).dropLast, _
            rw [empty]
            nofun
          · intro i end_
            change ((Pages.arrange slots).list ++ [p]).getLast? = some i at end_
            rw [List.getLast?_concat] at end_
            rw [← Option.some.inj end_, activate_slots_self]
            exact trivial
          · intro i inside
            have other : i ≠ p := by
              rintro rfl
              exact (List.nodup_cons.mp distinct).1 inside
            rw [activate_slots_other rest other]
            refine listed.unused i ?_
            rw [free]
            exact List.mem_cons_of_mem _ inside
          · intro r member
            obtain ⟨i, -, here⟩ := List.mem_flatMap.mp member
            have activated : Image kind ((Pages.arrange slots).activate p rest).slots := image.arrange.fit (fitting_blank _)
            exact values r (activated.kinds i r here)
  | some last =>
      rw [last_] at ok
      dsimp only at ok ⊢
      have numbered : Listed ((Pages.arrange slots).numbered last) :=
        ⟨listed.all, listed.distinct, listed.listed, listed.unused⟩
      have same := samePages_withoutDuplicate ((Pages.arrange slots).numbered last) last
      refine finish_usable (numbered.samePages same) (image.unduplicated last) values ?_ ok
      rw [same.list]
      exact last_

end

end EspFirmware.Proof.Nvs
