import EspFirmware.Proof.Nvs.Pages

/-!
Writing and erasing on the list of pages: the items of the store afterwards.
-/

namespace EspFirmware.Proof.Nvs
open EspFirmware.Nvs EspFirmware.Spec EspFirmware.Lib

variable {env : Env} {n : Nat} {P : Pages n} {v : Value}

structure Value.Short (v : Value) : Prop where
  key : (cString v.key).length ≤ MAX_KEY_LENGTH
  data : v.data.length ≤ BLOB_MAX_SIZE

theorem isValue_record (storable : Storable v) (short : Value.Short v) : IsValue env (v.record env) :=
  ⟨v.nsIndex, v.datatype, v.key, v.data, rfl, storable.named, storable.typed, short.key, short.data⟩

inductive WriteResult (env : Env) (v : Value) (slot : Slot) : Except EspErr Unit × Slot → Prop where
  | written {slot' : Slot} (short : Value.Short v) (segs : slot'.segs = slot.segs ++ [.item (v.record env)])
      (isOpen : Slot.Open slot') : WriteResult env v slot (.ok (), slot')
  | refused {slot' : Slot} {e : EspErr} (segs : slot'.segs = slot.segs) (isOpen : Slot.Open slot') :
      WriteResult env v slot (.error e, slot')

theorem append_result (env : Env) (v : Value) (seq : Word) (segs : List Seg) :
    WriteResult env v (.used .active seq segs) (Slot.append env v seq segs) := by
  unfold Slot.append
  split
  · exact .refused rfl (Or.inl rfl)
  · split
    · exact .refused rfl (Or.inl rfl)
    · split
      · exact .refused rfl (Or.inl rfl)
      · exact .written ⟨by omega, by omega⟩ rfl (Or.inl rfl)

theorem write_result (env : Env) (v : Value) {slot : Slot} (writable : Slot.Writable slot) : WriteResult env v slot (slot.write env v) := by
  cases slot with
  | junk => exact writable.elim
  | blank seq =>
      have result := append_result env v seq []
      change WriteResult env v _ (Slot.append env v seq [])
      generalize Slot.append env v seq [] = written at result ⊢
      cases result with
      | written short segs isOpen => exact .written short segs isOpen
      | refused segs isOpen => exact .refused segs isOpen
  | used st seq segs =>
      rcases writable with rfl | rfl
      · exact append_result env v seq segs
      · exact .refused rfl (Or.inr rfl)

theorem records_snoc (segs : List Seg) (r : Record) : records (segs ++ [.item r]) = records segs ++ [r] := by
  rw [records_append, records_cons_item]
  rfl

theorem scanFrom_firstRecord {nsIndex : Byte} {datatype : ItemType} {key : Option (List Byte)} {segs : List Seg} {r : Record}
    (found : firstRecord nsIndex datatype key (records segs) = .ok r) :
    ∃ pos, scanFrom nsIndex datatype key 0 segs = .ok (pos, r) := by
  rw [← scanFrom_records] at found
  cases scanned : scanFrom nsIndex datatype key 0 segs with
  | error e =>
      rw [scanned] at found
      exact absurd found (by simp [Except.map])
  | ok x =>
      rw [scanned] at found
      have same : x.2 = r := Except.ok.inj found
      exact ⟨x.1, by rw [← same]⟩

theorem records_dropAt {nsIndex : Byte} {datatype : ItemType} {key : Option (List Byte)} {segs : List Seg} {pos : Nat}
    {r : Record} (scanned : scanFrom nsIndex datatype key 0 segs = .ok (pos, r)) :
    (records segs).Perm (r :: records (dropAt pos 0 segs)) := by
  obtain ⟨a, b, split, place⟩ := located_split (scanFrom_mem scanned).1
  dsimp only at split place
  rw [Nat.zero_add] at place
  rw [place, split, dropAt_item, erased, records_append, records_append, records_append, records_cons_item, records_gones,
    List.append_nil]
  exact List.perm_middle

theorem withSegs_segs {slot : Slot} (notEmpty : slot.segs ≠ []) (segs : List Seg) : (slot.withSegs segs).segs = segs := by
  cases slot with
  | blank seq => exact absurd rfl notEmpty
  | junk => exact absurd rfl notEmpty
  | used st seq segs' => rfl

theorem withSegs_open {slot : Slot} {segs : List Seg} (isOpen : Slot.Open slot) : Slot.Open (slot.withSegs segs) := by
  cases slot with
  | blank seq => exact isOpen
  | junk => exact isOpen
  | used st seq segs' => exact isOpen

theorem withSegs_writable {slot : Slot} {segs : List Seg} (writable : Slot.Writable slot) :
    Slot.Writable (slot.withSegs segs) := by
  cases slot with
  | blank seq => exact writable
  | junk => exact writable
  | used st seq segs' => exact writable

theorem withState_full {slot : Slot} (isOpen : Slot.Open slot) :
    Slot.Open (slot.withState .full) ∧ (slot.withState .full).segs = slot.segs := by
  cases slot with
  | blank seq => exact isOpen.elim
  | junk => exact isOpen.elim
  | used st seq segs => exact ⟨Or.inr rfl, rfl⟩

section
variable {nsIndex : Byte} {datatype : ItemType} {key : Option (List Byte)}

theorem find_some {page : Fin n} {r : Record} (found : P.find nsIndex datatype key = some (page, r)) :
    page ∈ P.list ∧ firstRecord nsIndex datatype key (records (P.slots page).segs) = .ok r := by
  obtain ⟨i, member, here⟩ := List.exists_of_findSome?_eq_some found
  cases scanned : scanFrom nsIndex datatype key 0 (P.slots i).segs with
  | error e =>
      rw [scanned] at here
      exact absurd here (by simp)
  | ok x =>
      rw [scanned] at here
      obtain ⟨rfl, rfl⟩ := Prod.mk.inj (Option.some.inj here)
      refine ⟨member, ?_⟩
      rw [← scanFrom_records, scanned]
      rfl

theorem find_none (missing : P.find nsIndex datatype key = none) {i : Fin n} (member : i ∈ P.list) (r : Record) :
    firstRecord nsIndex datatype key (records (P.slots i).segs) ≠ .ok r := by
  intro found
  have here := List.findSome?_eq_none_iff.mp missing i member
  obtain ⟨pos, scanned⟩ := scanFrom_firstRecord found
  rw [scanned] at here
  exact absurd here (by simp)

end

section
variable {nsIndex : Byte} {datatype : ItemType} {key : Option (List Byte)}

theorem eraseFrom_found (usable : Usable env P) {page : Fin n} (member : page ∈ P.list) {r : Record}
    (found : firstRecord nsIndex datatype key (records (P.slots page).segs) = .ok r) :
    (P.eraseFrom nsIndex datatype key page).1 = .ok () ∧ Usable env (P.eraseFrom nsIndex datatype key page).2 ∧
      P.live.Perm (r :: (P.eraseFrom nsIndex datatype key page).2.live) := by
  obtain ⟨pos, scanned⟩ := scanFrom_firstRecord found
  have notEmpty : (P.slots page).segs ≠ [] := by
    intro empty
    rw [empty] at found
    exact absurd found (by simp [records, located, firstRecord])
  have eq : P.eraseFrom nsIndex datatype key page =
      (.ok (), P.set page ((P.slots page).withSegs (dropAt pos 0 (P.slots page).segs))) := by
    unfold Pages.eraseFrom Slot.erase
    rw [scanned]
  have dropped := records_dropAt scanned
  have left := withSegs_segs notEmpty (dropAt pos 0 (P.slots page).segs)
  rw [eq]
  refine ⟨rfl, ?_, ?_⟩
  · refine usable.set member (fun front => withSegs_open (usable.front page front)) (withSegs_writable (usable.writable member)) ?_
    rw [left]
    intro r' inside
    exact usable.valuesAt member r' (dropped.mem_iff.mpr (List.mem_cons_of_mem _ inside))
  · obtain ⟨rest, before, after⟩ := live_set usable.distinctList member
      ((P.slots page).withSegs (dropAt pos 0 (P.slots page).segs))
    rw [left] at after
    exact before.trans ((dropped.append_right rest).trans (after.symm.cons r))

theorem eraseItem_result (usable : Usable env P) (nsIndex : Byte) (datatype : ItemType) (key : Option (List Byte)) :
    ((P.eraseItem nsIndex datatype key) = (.error .notFound, P) ∧ P.find nsIndex datatype key = none) ∨
      ∃ page r, P.find nsIndex datatype key = some (page, r) ∧ (P.eraseItem nsIndex datatype key).1 = .ok () ∧
        Usable env (P.eraseItem nsIndex datatype key).2 ∧ P.live.Perm (r :: (P.eraseItem nsIndex datatype key).2.live) := by
  cases found : P.find nsIndex datatype key with
  | none =>
      left
      unfold Pages.eraseItem
      rw [found]
      exact ⟨rfl, rfl⟩
  | some x =>
      obtain ⟨page, r⟩ := x
      right
      refine ⟨page, r, rfl, ?_⟩
      obtain ⟨member, first⟩ := find_some found
      unfold Pages.eraseItem
      rw [found]
      exact eraseFrom_found usable member first

end

theorem Usable.written (usable : Usable env P) (storable : Storable v) {page : Fin n} (member : page ∈ P.list)
    {slot : Slot} (short : Value.Short v) (segs : slot.segs = (P.slots page).segs ++ [.item (v.record env)])
    (isOpen : Slot.Open slot) :
    Usable env (P.set page slot) ∧ (P.set page slot).live.Perm (v.record env :: P.live) := by
  refine ⟨usable.set member (fun _ => isOpen) isOpen.writable ?_, ?_⟩
  · rw [segs, records_snoc]
    intro r inside
    rcases List.mem_append.mp inside with old | new
    · exact usable.valuesAt member r old
    · rw [List.mem_singleton.mp new]
      exact isValue_record storable short
  · obtain ⟨rest, before, after⟩ := live_set usable.distinctList member slot
    rw [segs, records_snoc] at after
    refine after.trans (List.Perm.trans ?_ (before.symm.cons (v.record env)))
    exact List.perm_append_singleton _ _ |>.append_right rest

theorem Usable.refused (usable : Usable env P) {page : Fin n} (member : page ∈ P.list) {slot : Slot}
    (segs : slot.segs = (P.slots page).segs) (isOpen : Slot.Open slot) :
    Usable env (P.set page slot) ∧ (P.set page slot).live.Perm P.live := by
  refine ⟨usable.set member (fun _ => isOpen) isOpen.writable ?_, ?_⟩
  · rw [segs]
    exact usable.valuesAt member
  · obtain ⟨rest, before, after⟩ := live_set usable.distinctList member slot
    rw [segs] at after
    exact after.trans before.symm

theorem Usable.allOpen (usable : Usable env P) {page : Fin n} (last_ : P.list.getLast? = some page) {slot : Slot}
    (segs : slot.segs = (P.slots page).segs) (isOpen : Slot.Open slot) : AllOpen env (P.set page slot) := by
  have member := List.mem_of_getLast? last_
  refine ⟨(usable.refused member segs isOpen).1, ?_⟩
  obtain ⟨front, page', split, last'⟩ := usable.last
  obtain rfl : page' = page := by
    rw [last_] at last'
    exact (Option.some.inj last').symm
  intro i inside
  by_cases same : i = page'
  · subst same
    rw [set_slots_self]
    exact isOpen
  · rw [set_slots_other same]
    refine usable.front i ?_
    have inside : i ∈ P.list := inside
    rw [split, List.dropLast_concat]
    rw [split] at inside
    rcases List.mem_append.mp inside with early | late
    · exact early
    · exact absurd (List.mem_singleton.mp late) same

structure Ready (env : Env) (P M : Pages n) (w : Fin n) : Prop where
  usable : Usable env M
  last : M.list.getLast? = some w
  live : M.live.Perm P.live
  old : ∀ i ∈ P.list, (i ∈ M.list ∧ (M.slots i).segs = (P.slots i).segs) ∨
    ((∃ seq, M.slots i = .blank seq) ∧ i ≠ w ∧ records (M.slots w).segs = records (P.slots i).segs)

theorem Ready.refl (usable : Usable env P) {page : Fin n} (last_ : P.list.getLast? = some page) : Ready env P P page :=
  ⟨usable, last_, .refl _, fun _ member => Or.inl ⟨member, rfl⟩⟩

theorem Ready.requested (usable : Usable env P) {page : Fin n} (last_ : P.list.getLast? = some page) {slot : Slot}
    (segs : slot.segs = (P.slots page).segs) (isOpen : Slot.Open slot) {Q : Pages n}
    (ok : (P.set page slot).requestNewPage = .ok Q) : ∃ w, Ready env P Q w := by
  have member := List.mem_of_getLast? last_
  have allOpen := usable.allOpen last_ segs isOpen
  have same (i : Fin n) : ((P.set page slot).slots i).segs = (P.slots i).segs := by
    by_cases here : i = page
    · subst here
      rw [set_slots_self, segs]
    · rw [set_slots_other here]
  obtain ⟨usable', live⟩ := Usable.requested allOpen ok
  have live := live.trans (usable.refused member segs isOpen).2
  rcases requestNewPage_cases ok with ⟨p, rest, free, -, rfl⟩ | ⟨p, x, free, most, rfl⟩
  · refine ⟨p, usable', List.getLast?_concat, live, fun i inside => Or.inl ?_⟩
    have notNew : i ≠ p := by
      rintro rfl
      refine usable.notFree inside ?_
      have free : P.free = i :: rest := free
      rw [free]
      exact List.mem_cons_self
    refine ⟨List.mem_append_left _ inside, ?_⟩
    rw [activate_slots_other rest notNew]
    exact same i
  · have exchange := allOpen.usable.exchange free most
    refine ⟨p, usable', ?_, live, fun i inside => ?_⟩
    · rw [recycle_list [] exchange.member]
      exact List.getLast?_concat
    · by_cases moved : i = x
      · subst moved
        right
        refine ⟨⟨_, recycle_slots_page _ _⟩, exchange.other, ?_⟩
        rw [exchange.records_target, same i]
      · left
        refine ⟨?_, ?_⟩
        · rw [recycle_list [] exchange.member]
          exact List.mem_append_left _ ((List.mem_erase_of_ne moved).mpr inside)
        · rw [exchange.slots_other inside moved]
          exact same i

inductive Written (env : Env) (v : Value) (P : Pages n) : Except EspErr Unit × Pages n → Prop where
  | stored {M : Pages n} {w : Fin n} {slot : Slot} (ready : Ready env P M w) (short : Value.Short v)
      (segs : slot.segs = (M.slots w).segs ++ [.item (v.record env)]) (isOpen : Slot.Open slot) :
      Written env v P (.ok (), M.set w slot)
  | failed {M : Pages n} {e : EspErr} (usable : Usable env M) (live : M.live.Perm P.live) : Written env v P (.error e, M)

theorem written_last {M : Pages n} {w : Fin n} (ready : Ready env P M w) : Written env v P (M.writeLast env v w) := by
  have member := List.mem_of_getLast? ready.last
  have result := write_result env v (ready.usable.writable member)
  unfold Pages.writeLast
  generalize (M.slots w).write env v = outcome at result ⊢
  cases result with
  | written short segs isOpen => exact .stored ready short segs isOpen
  | refused segs isOpen =>
      obtain ⟨usable, live⟩ := ready.usable.refused member segs isOpen
      exact .failed usable (live.trans ready.live)

theorem writeToPage_written (usable : Usable env P) {page : Fin n} (last_ : P.list.getLast? = some page) :
    Written env v P (P.writeToPage env v page) := by
  have member := List.mem_of_getLast? last_
  have first := written_last (v := v) (Ready.refl usable last_)
  unfold Pages.writeToPage
  split
  · rename_i P' full
    have result := write_result env v (usable.writable member)
    unfold Pages.writeLast at full
    generalize (P.slots page).write env v = outcome at result full
    cases result with
    | written short segs isOpen => exact absurd full (by simp)
    | refused segs isOpen =>
        rename_i slot' e
        obtain rfl : P' = P.set page slot' := (congrArg Prod.snd full).symm
        have marked := withState_full isOpen
        have shape : (P.set page slot').set page (((P.set page slot').slots page).withState .full) =
            P.set page (slot'.withState .full) := by
          rw [set_slots_self]
          unfold Pages.set
          dsimp only
          rw [Function.update_idem]
        dsimp only
        rw [shape]
        have segs' := marked.2.trans segs
        split
        · obtain ⟨usable', live⟩ := usable.refused member segs' marked.1
          exact .failed usable' live
        · rename_i fresh ok
          obtain ⟨w, ready⟩ := Ready.requested usable last_ segs' marked.1 ok
          rw [ready.last]
          have second := written_last (v := v) ready
          dsimp only
          split
          · rename_i P'' full'
            rw [full'] at second
            cases second with
            | failed usable'' live => exact .failed usable'' live
          · exact second
  · exact first

inductive Stored (env : Env) (v : Value) (P : Pages n) : Except EspErr Unit × Pages n → Prop where
  | added {Q : Pages n} (usable : Usable env Q) (short : Value.Short v)
      (missing : P.find v.nsIndex v.datatype (some v.key) = none) (live : Q.live.Perm (v.record env :: P.live)) :
      Stored env v P (.ok (), Q)
  | replaced {Q : Pages n} {r : Record} {rest : List Record} (usable : Usable env Q) (short : Value.Short v)
      (matched : Page.matchItem v.nsIndex v.datatype (some v.key) r.head = some (.ok ())) (before : P.live.Perm (r :: rest))
      (live : Q.live.Perm (v.record env :: rest)) : Stored env v P (.ok (), Q)
  | failed {Q : Pages n} {e : EspErr} (usable : Usable env Q) (live : Q.live.Perm P.live) : Stored env v P (.error e, Q)

theorem oldPage_found {M : Pages n} {w : Fin n} {slot : Slot} (ready : Ready env P M w)
    (segs : slot.segs = (M.slots w).segs ++ [.item (v.record env)]) (isOpen : Slot.Open slot) {old : Fin n} {r : Record}
    (found : P.find v.nsIndex v.datatype (some v.key) = some (old, r)) :
    (M.set w slot).oldPage v old ∈ M.list ∧ ∃ r', firstRecord v.nsIndex v.datatype (some v.key)
      (records (M.slots ((M.set w slot).oldPage v old)).segs) = .ok r' := by
  obtain ⟨member, first⟩ := find_some found
  rcases ready.old old member with ⟨inside, same⟩ | ⟨⟨seq, isBlank⟩, other, same⟩
  · rw [← same] at first
    have stays : (M.set w slot).oldPage v old = old := by
      have notBlank (seq : Word) : (M.set w slot).slots old ≠ .blank seq := by
        intro isBlank
        by_cases here : old = w
        · subst here
          rw [set_slots_self] at isBlank
          rw [isBlank] at isOpen
          exact isOpen
        · rw [set_slots_other here] at isBlank
          rw [isBlank] at first
          exact absurd first (by simp [Slot.segs, records, located, firstRecord])
      unfold Pages.oldPage
      split
      · rename_i seq isBlank
        exact absurd isBlank (notBlank seq)
      · rfl
    rw [stays]
    exact ⟨inside, r, first⟩
  · rw [← same] at first
    have blank_ : (M.set w slot).slots old = .blank seq := by rw [set_slots_other other, isBlank]
    have wInside : w ∈ (M.set w slot).list := List.mem_of_getLast? ready.last
    have there : firstRecord v.nsIndex v.datatype (some v.key) (records ((M.set w slot).slots w).segs) = .ok r := by
      rw [set_slots_self, segs, records_snoc]
      exact firstRecord_append first _
    unfold Pages.oldPage
    rw [blank_]
    dsimp only
    cases again : (M.set w slot).find v.nsIndex v.datatype (some v.key) with
    | none => exact absurd there (find_none again wInside r)
    | some x =>
        obtain ⟨e, r'⟩ := x
        obtain ⟨inside, first'⟩ := find_some again
        rw [Option.map_some, Option.getD_some]
        refine ⟨inside, ?_⟩
        by_cases here : e = w
        · subst here
          exact ⟨r, first⟩
        · rw [set_slots_other here] at first'
          exact ⟨r', first'⟩

theorem writeItem_stored (usable : Usable env P) (storable : Storable v) {page : Fin n}
    (last_ : P.list.getLast? = some page) : Stored env v P (P.writeItem env v page) := by
  have written := writeToPage_written (v := v) usable last_
  unfold Pages.writeItem
  generalize P.writeToPage env v page = outcome at written ⊢
  cases written with
  | failed usable' live => exact .failed usable' live
  | stored ready short segs isOpen =>
      rename_i M w slot
      have wInside : w ∈ M.list := List.mem_of_getLast? ready.last
      obtain ⟨usable', live⟩ := ready.usable.written storable wInside short segs isOpen
      dsimp only
      cases found : P.find v.nsIndex v.datatype (some v.key) with
      | none => exact .added usable' short found (live.trans (ready.live.cons _))
      | some x =>
          obtain ⟨old, r⟩ := x
          obtain ⟨inside, r', first⟩ := oldPage_found ready segs isOpen found
          dsimp only
          generalize (M.set w slot).oldPage v old = e at inside first ⊢
          obtain ⟨member, matched⟩ := firstRecord_mem first
          have now : firstRecord v.nsIndex v.datatype (some v.key) (records ((M.set w slot).slots e).segs) = .ok r' := by
            by_cases here : e = w
            · subst here
              rw [set_slots_self, segs, records_snoc]
              exact firstRecord_append first _
            · rw [set_slots_other here]
              exact first
          have inside' : e ∈ (M.set w slot).list := inside
          obtain ⟨ok, usable'', erased_⟩ := eraseFrom_found usable' inside' now
          have among : r' ∈ M.live := List.mem_flatMap.mpr ⟨e, inside, member⟩
          obtain ⟨a, b, split⟩ := List.append_of_mem among
          have before : M.live.Perm (r' :: (a ++ b)) := by
            rw [split]
            exact List.perm_middle
          generalize (M.set w slot).eraseFrom v.nsIndex v.datatype (some v.key) e = result at ok usable'' erased_ ⊢
          obtain ⟨outcome, Q⟩ := result
          obtain rfl : outcome = .ok () := ok
          refine .replaced usable'' short matched (ready.live.symm.trans before) ?_
          refine List.Perm.cons_inv (a := r') ?_
          exact erased_.symm.trans (live.trans ((before.cons _).trans (List.Perm.swap _ _ _)))

theorem Stored.usable {result : Except EspErr Unit × Pages n} (stored : Stored env v P result) : Usable env result.2 := by
  cases stored with
  | added usable => exact usable
  | replaced usable => exact usable
  | failed usable => exact usable

theorem records_nil : records [] = [] := rfl

theorem records_dropWhere (p : Record → Bool) (segs : List Seg) :
    records (dropWhere p segs) = (records segs).filter fun r => !p r := by
  induction segs with
  | nil => rfl
  | cons seg segs ih =>
      rw [dropWhere, List.flatMap_cons, records_append]
      change _ ++ records (dropWhere p segs) = _
      rw [ih]
      cases seg with
      | gone => rw [records_skip rfl, records_skip rfl, records_nil, List.nil_append]
      | torn head len => rw [records_skip rfl, records_skip rfl, records_nil, List.nil_append]
      | item r =>
          rw [records_cons_item]
          dsimp only
          cases chosen : p r with
          | true =>
              have none_ : records (List.replicate r.size .gone) = [] := records_gones _
              rw [if_pos rfl, none_, List.nil_append, List.filter_cons_of_neg (by simp [chosen])]
          | false =>
              rw [if_neg (by decide), records_cons_item, records_nil, List.filter_cons_of_pos (by simp [chosen])]
              rfl

theorem live_eraseNamespace (nsIndex : Byte) :
    (P.eraseNamespace nsIndex).live = P.live.filter fun r => !Pages.inNamespace nsIndex r := by
  rw [Pages.live, Pages.live, List.filter_flatMap]
  refine List.flatMap_congr fun i member => ?_
  have slot : (P.eraseNamespace nsIndex).slots i =
      (P.slots i).withSegs (dropWhere (Pages.inNamespace nsIndex) (P.slots i).segs) := if_pos member
  rw [slot]
  cases P.slots i with
  | blank seq => rfl
  | junk => rfl
  | used st seq segs => exact records_dropWhere _ segs

theorem Usable.eraseNamespace (usable : Usable env P) (nsIndex : Byte) : Usable env (P.eraseNamespace nsIndex) := by
  have slot {i : Fin n} (member : i ∈ P.list) : (P.eraseNamespace nsIndex).slots i =
      (P.slots i).withSegs (dropWhere (Pages.inNamespace nsIndex) (P.slots i).segs) := if_pos member
  refine ⟨usable.all, usable.distinct, usable.some_, ?_, ?_, ?_, ?_⟩
  · intro i front
    rw [slot (List.dropLast_subset _ front)]
    exact withSegs_open (usable.front i front)
  · intro i last_
    rw [slot (List.mem_of_getLast? last_)]
    exact withSegs_writable (usable.back i last_)
  · intro i free
    have outside : i ∉ P.list := fun member => usable.notFree member free
    have same : (P.eraseNamespace nsIndex).slots i = P.slots i := if_neg outside
    rw [same]
    exact usable.unused i free
  · intro r inside
    rw [live_eraseNamespace] at inside
    exact usable.values r (List.mem_of_mem_filter inside)

end EspFirmware.Proof.Nvs
