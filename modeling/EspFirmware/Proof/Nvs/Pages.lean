import EspFirmware.Proof.Nvs.Manager

/-!
What the operations on the list of pages keep, and what they do to the items of the store.
-/

namespace EspFirmware.Proof.Nvs
open EspFirmware.Nvs EspFirmware.Spec

variable {env : Env} {n : Nat}

def firstRecord (nsIndex : Byte) (datatype : ItemType) (key : Option (List Byte)) : List Record → Except EspErr Record
  | [] => .error .notFound
  | r :: rest =>
      match Page.matchItem nsIndex datatype key r.head with
      | none => firstRecord nsIndex datatype key rest
      | some (.error e) => .error e
      | some (.ok _) => .ok r

section
variable {nsIndex : Byte} {datatype : ItemType} {key : Option (List Byte)}

theorem firstMatch_records (xs : List (Nat × Record)) :
    (firstMatch nsIndex datatype key xs).map Prod.snd = firstRecord nsIndex datatype key (xs.map Prod.snd) := by
  induction xs with
  | nil => rfl
  | cons x xs ih =>
      rw [List.map_cons, firstRecord, firstMatch]
      cases matched : Page.matchItem nsIndex datatype key x.2.head with
      | none => exact ih
      | some result => cases result <;> rfl

theorem scanFrom_records (segs : List Seg) :
    (scanFrom nsIndex datatype key 0 segs).map Prod.snd = firstRecord nsIndex datatype key (records segs) := by
  have all : (located 0 segs).filter (fun x => decide (0 ≤ x.1)) = located 0 segs := by
    rw [List.filter_eq_self]
    intro x _
    exact decide_eq_true (Nat.zero_le _)
  rw [scanFrom, all, firstMatch_records]
  rfl

theorem firstRecord_append {a : List Record} {r : Record} (found : firstRecord nsIndex datatype key a = .ok r)
    (b : List Record) : firstRecord nsIndex datatype key (a ++ b) = .ok r := by
  induction a with
  | nil => exact absurd found (by simp [firstRecord])
  | cons x a ih =>
      rw [List.cons_append, firstRecord]
      rw [firstRecord] at found
      cases matched : Page.matchItem nsIndex datatype key x.head with
      | none =>
          rw [matched] at found
          exact ih found
      | some result =>
          rw [matched] at found
          cases result <;> exact found

theorem firstRecord_mem {a : List Record} {r : Record} (found : firstRecord nsIndex datatype key a = .ok r) :
    r ∈ a ∧ Page.matchItem nsIndex datatype key r.head = some (.ok ()) := by
  induction a with
  | nil => exact absurd found (by simp [firstRecord])
  | cons x a ih =>
      rw [firstRecord] at found
      cases matched : Page.matchItem nsIndex datatype key x.head with
      | none =>
          rw [matched] at found
          obtain ⟨member, matches_⟩ := ih found
          exact ⟨List.mem_cons_of_mem _ member, matches_⟩
      | some result =>
          rw [matched] at found
          cases result with
          | error e => exact absurd found (by simp)
          | ok u =>
              obtain rfl := Except.ok.inj found
              exact ⟨List.mem_cons_self, matched⟩

end

/-- A list of pages that can be worked with: the last page takes items or is full, the others have been used,
and every page is in one of the lists. -/
structure Usable (env : Env) (P : Pages n) : Prop where
  all : ∀ i, i ∈ P.list ++ P.free
  distinct : (P.list ++ P.free).Nodup
  some_ : P.list ≠ []
  front : ∀ i ∈ P.list.dropLast, Slot.Open (P.slots i)
  back : ∀ i, P.list.getLast? = some i → Slot.Writable (P.slots i)
  unused : ∀ i ∈ P.free, Slot.Unused (P.slots i)
  values : ∀ r ∈ P.live, IsValue env r

theorem Slot.Open.writable {slot : Slot} (isOpen : Slot.Open slot) : Slot.Writable slot := by
  cases slot with
  | blank seq => exact isOpen.elim
  | junk => exact isOpen.elim
  | used st seq segs => exact isOpen

theorem Slot.Writable.searchable {slot : Slot} (writable : Slot.Writable slot) : Slot.Searchable slot := by
  cases slot with
  | blank seq => exact trivial
  | junk => exact writable.elim
  | used st seq segs =>
      rcases writable with active | full
      · exact Or.inl active
      · exact Or.inr (Or.inl full)

section
variable {P : Pages n}

theorem Usable.last (usable : Usable env P) : ∃ front page, P.list = front ++ [page] ∧ P.list.getLast? = some page := by
  obtain ⟨front, page, split⟩ := List.eq_nil_or_concat P.list |>.resolve_left usable.some_
  rw [List.concat_eq_append] at split
  exact ⟨front, page, split, by rw [split]; exact List.getLast?_concat⟩

theorem Usable.writable (usable : Usable env P) {i : Fin n} (member : i ∈ P.list) : Slot.Writable (P.slots i) := by
  obtain ⟨front, page, split, last_⟩ := usable.last
  rw [split] at member
  rcases List.mem_append.mp member with early | late
  · refine (usable.front i ?_).writable
    rw [split, List.dropLast_concat]
    exact early
  · rw [List.mem_singleton.mp late]
    exact usable.back page last_

theorem Usable.searchable (usable : Usable env P) {i : Fin n} (member : i ∈ P.list) : Slot.Searchable (P.slots i) :=
  (usable.writable member).searchable

theorem live_split (distinct : P.list.Nodup) {i : Fin n} (member : i ∈ P.list) :
    ∃ rest, P.live.Perm (records (P.slots i).segs ++ rest) ∧
      ∀ Q : Pages n, Q.list = P.list → (∀ j ∈ P.list, j ≠ i → Q.slots j = P.slots j) →
        Q.live.Perm (records (Q.slots i).segs ++ rest) := by
  obtain ⟨a, b, split⟩ := List.append_of_mem member
  have shape (Q : Pages n) (list : Q.list = P.list) (same : ∀ j ∈ P.list, j ≠ i → Q.slots j = P.slots j) :
      Q.live = a.flatMap (fun j => records (P.slots j).segs) ++
        (records (Q.slots i).segs ++ b.flatMap fun j => records (P.slots j).segs) := by
    rw [split] at distinct
    have outside : i ∉ a ∧ i ∉ b := by
      have parts := List.nodup_append.mp distinct
      refine ⟨fun inside => ?_, (List.nodup_cons.mp parts.2.1).1⟩
      exact parts.2.2 i inside i List.mem_cons_self rfl
    have others (l : List (Fin n)) (sub : ∀ j ∈ l, j ∈ P.list) (absent : i ∉ l) :
        l.flatMap (fun j => records (Q.slots j).segs) = l.flatMap fun j => records (P.slots j).segs := by
      refine List.flatMap_congr fun j inside => ?_
      rw [same j (sub j inside) fun eq => absent (eq ▸ inside)]
    rw [Pages.live, list, split, List.flatMap_append, List.flatMap_cons,
      others a (fun j inside => by rw [split]; exact List.mem_append_left _ inside) outside.1,
      others b (fun j inside => by
        rw [split]
        exact List.mem_append_right _ (List.mem_cons_of_mem _ inside)) outside.2]
  refine ⟨a.flatMap (fun j => records (P.slots j).segs) ++ b.flatMap fun j => records (P.slots j).segs, ?_, ?_⟩
  · rw [shape P rfl fun _ _ _ => rfl, ← List.append_assoc, ← List.append_assoc]
    exact List.perm_append_comm.append_right _
  · intro Q list same
    rw [shape Q list same, ← List.append_assoc, ← List.append_assoc]
    exact List.perm_append_comm.append_right _

theorem set_slots_self (i : Fin n) (slot : Slot) : (P.set i slot).slots i = slot := Function.update_self _ _ _

theorem set_slots_other {i j : Fin n} (other : j ≠ i) (slot : Slot) : (P.set i slot).slots j = P.slots j :=
  Function.update_of_ne other _ _

theorem live_set (distinct : P.list.Nodup) {i : Fin n} (member : i ∈ P.list) (slot : Slot) :
    ∃ rest, P.live.Perm (records (P.slots i).segs ++ rest) ∧ (P.set i slot).live.Perm (records slot.segs ++ rest) := by
  obtain ⟨rest, before, after⟩ := live_split distinct member
  have now := after (P.set i slot) rfl fun j _ other => set_slots_other other slot
  rw [set_slots_self] at now
  exact ⟨rest, before, now⟩

theorem Usable.distinctList (usable : Usable env P) : P.list.Nodup := (List.nodup_append.mp usable.distinct).1

theorem Usable.notFree (usable : Usable env P) {i : Fin n} (member : i ∈ P.list) : i ∉ P.free := by
  intro free
  exact (List.nodup_append.mp usable.distinct).2.2 i member i free rfl

theorem Usable.values_set (usable : Usable env P) {i : Fin n} (member : i ∈ P.list) {slot : Slot}
    (values : ∀ r ∈ records slot.segs, IsValue env r) : ∀ r ∈ (P.set i slot).live, IsValue env r := by
  obtain ⟨rest, before, after⟩ := live_set usable.distinctList member slot
  intro r inside
  rcases List.mem_append.mp (after.mem_iff.mp inside) with here | there
  · exact values r here
  · exact usable.values r (before.mem_iff.mpr (List.mem_append_right _ there))

theorem Usable.valuesAt (usable : Usable env P) {i : Fin n} (member : i ∈ P.list) :
    ∀ r ∈ records (P.slots i).segs, IsValue env r :=
  fun r inside => usable.values r (List.mem_flatMap.mpr ⟨i, member, inside⟩)

theorem Usable.set (usable : Usable env P) {i : Fin n} (member : i ∈ P.list) {slot : Slot}
    (isOpen : i ∈ P.list.dropLast → Slot.Open slot) (writable : Slot.Writable slot)
    (values : ∀ r ∈ records slot.segs, IsValue env r) : Usable env (P.set i slot) := by
  refine ⟨usable.all, usable.distinct, usable.some_, ?_, ?_, ?_, usable.values_set member values⟩
  · intro j inside
    by_cases same : j = i
    · subst same
      rw [set_slots_self]
      exact isOpen inside
    · rw [set_slots_other same]
      exact usable.front j inside
  · intro j last_
    by_cases same : j = i
    · subst same
      rw [set_slots_self]
      exact writable
    · rw [set_slots_other same]
      exact usable.back j last_
  · intro j inside
    have other : j ≠ i := by
      rintro rfl
      exact usable.notFree member inside
    rw [set_slots_other other]
    exact usable.unused j inside

theorem activate_slots_other {p j : Fin n} (rest : List (Fin n)) (other : j ≠ p) :
    (P.activate p rest).slots j = P.slots j := Function.update_of_ne other _ _

theorem activate_slots_self (p : Fin n) (rest : List (Fin n)) : (P.activate p rest).slots p = .blank P.next :=
  Function.update_self _ _ _

theorem live_activate {p : Fin n} {rest : List (Fin n)} (new : p ∉ P.list) : (P.activate p rest).live = P.live := by
  have front : P.list.flatMap (fun i => records ((P.activate p rest).slots i).segs) = P.live := by
    refine List.flatMap_congr fun j member => ?_
    rw [activate_slots_other rest (ne_of_mem_of_not_mem member new)]
  have shape : (P.activate p rest).live = P.list.flatMap (fun i => records ((P.activate p rest).slots i).segs) ++
      [p].flatMap fun i => records ((P.activate p rest).slots i).segs := List.flatMap_append
  rw [shape, front, List.flatMap_singleton, activate_slots_self]
  exact List.append_nil _

structure AllOpen (env : Env) (P : Pages n) : Prop where
  usable : Usable env P
  opened : ∀ i ∈ P.list, Slot.Open (P.slots i)

theorem Usable.activate {p : Fin n} {rest : List (Fin n)} (allOpen : AllOpen env P) (some_ : P.free = p :: rest) :
    Usable env (P.activate p rest) := by
  have usable := allOpen.usable
  have distinct := usable.distinct
  rw [some_] at distinct
  have new : p ∉ P.list := by
    intro member
    exact (List.nodup_append.mp distinct).2.2 p member p List.mem_cons_self rfl
  have lists : (P.activate p rest).list ++ (P.activate p rest).free = P.list ++ P.free := by
    rw [some_]
    exact List.append_assoc _ [p] rest
  have front : (P.activate p rest).list.dropLast = P.list := List.dropLast_concat
  refine ⟨by rw [lists]; exact usable.all, by rw [lists]; exact usable.distinct, List.append_ne_nil_of_right_ne_nil _ (by simp),
    ?_, ?_, ?_, ?_⟩
  · rw [front]
    intro j member
    rw [activate_slots_other rest (ne_of_mem_of_not_mem member new)]
    exact allOpen.opened j member
  · intro j last_
    have same : p = j := by
      have eq : (P.activate p rest).list.getLast? = some p := List.getLast?_concat
      rw [eq] at last_
      exact Option.some.inj last_
    rw [← same, activate_slots_self]
    exact trivial
  · intro j member
    have other : j ≠ p := by
      rintro rfl
      have parts := (List.nodup_append.mp distinct).2.1
      exact (List.nodup_cons.mp parts).1 member
    rw [activate_slots_other rest other]
    exact usable.unused j (by rw [some_]; exact List.mem_cons_of_mem _ member)
  · rw [live_activate new]
    exact usable.values

theorem moved_cases (page : Fin n) {target : Fin n} {seq : Word} (empty : P.slots target = .blank seq) :
    (P.moved page target = .blank seq ∧ records (P.slots page).segs = []) ∨
      P.moved page target = .used .active seq (items (P.slots page).segs) := by
  unfold Pages.moved
  rw [empty]
  by_cases nothing : records (P.slots page).segs = []
  · left
    rw [if_pos nothing]
    exact ⟨rfl, nothing⟩
  · right
    rw [if_neg nothing]
    rfl

theorem records_moved {page target : Fin n} {seq : Word} (empty : P.slots target = .blank seq) :
    records (P.moved page target).segs = records (P.slots page).segs := by
  rcases moved_cases page empty with ⟨same, nothing⟩ | same
  · rw [same, nothing]
    rfl
  · rw [same]
    exact records_items _

theorem recycle_slots_other {page target j : Fin n} (notPage : j ≠ page) (notTarget : j ≠ target) :
    (P.recycle page target).slots j = P.slots j := by
  unfold Pages.recycle
  dsimp only
  rw [Function.update_of_ne notPage, Function.update_of_ne notTarget]

theorem recycle_slots_page (page target : Fin n) : (P.recycle page target).slots page = .blank (P.slots page).seq :=
  Function.update_self _ _ _

theorem recycle_slots_target {page target : Fin n} (other : page ≠ target) :
    (P.recycle page target).slots target = P.moved page target := by
  unfold Pages.recycle
  dsimp only
  rw [Function.update_of_ne other.symm, Function.update_self]

theorem recycle_list {page p : Fin n} (rest : List (Fin n)) (member : page ∈ P.list) :
    ((P.activate p rest).recycle page p).list = P.list.erase page ++ [p] := by
  change (P.list ++ [p]).erase page = _
  exact List.erase_append_left _ member

structure Exchange (P : Pages n) (page p : Fin n) (rest : List (Fin n)) : Prop where
  free : P.free = p :: rest
  member : page ∈ P.list
  other : page ≠ p
  new : p ∉ P.list

theorem exchange_of {page p : Fin n} {rest : List (Fin n)} (distinct : (P.list ++ P.free).Nodup) (free : P.free = p :: rest)
    (member : page ∈ P.list) : Exchange P page p rest := by
  have new : p ∉ P.list := by
    intro inside
    refine (List.nodup_append.mp distinct).2.2 p inside p ?_ rfl
    rw [free]
    exact List.mem_cons_self
  exact ⟨free, member, ne_of_mem_of_not_mem member new, new⟩

theorem Usable.exchange (usable : Usable env P) {page p : Fin n} (one : P.free = [p]) (most : P.mostUnused = some page) :
    Exchange P page p [] := exchange_of usable.distinct one (mostUnused_mem most)

section
variable {page p : Fin n} {rest : List (Fin n)}

theorem Exchange.slots_other (exchange : Exchange P page p rest) {j : Fin n} (member : j ∈ P.list) (other : j ≠ page) :
    ((P.activate p rest).recycle page p).slots j = P.slots j := by
  have notNew := ne_of_mem_of_not_mem member exchange.new
  rw [recycle_slots_other other notNew, activate_slots_other _ notNew]

theorem Exchange.moved_slots (exchange : Exchange P page p rest) :
    ((P.activate p rest).recycle page p).slots p = (P.activate p rest).moved page p :=
  recycle_slots_target exchange.other

theorem Exchange.records_target (exchange : Exchange P page p rest) :
    records (((P.activate p rest).recycle page p).slots p).segs = records (P.slots page).segs := by
  rw [exchange.moved_slots, records_moved (activate_slots_self p rest), activate_slots_other rest exchange.other]

theorem Exchange.live (exchange : Exchange P page p rest) (distinct : P.list.Nodup) :
    ((P.activate p rest).recycle page p).live.Perm P.live := by
  have others : (P.list.erase page).flatMap (fun j => records (((P.activate p rest).recycle page p).slots j).segs) =
      (P.list.erase page).flatMap fun j => records (P.slots j).segs := by
    refine List.flatMap_congr fun j inside => ?_
    have parts := (List.Nodup.mem_erase_iff distinct).mp inside
    rw [exchange.slots_other parts.2 parts.1]
  have order : P.live.Perm (records (P.slots page).segs ++
      (P.list.erase page).flatMap fun j => records (P.slots j).segs) := by
    have perm := (List.perm_cons_erase exchange.member).flatMap_right fun j => records (P.slots j).segs
    rwa [List.flatMap_cons] at perm
  rw [Pages.live, recycle_list rest exchange.member, List.flatMap_append, others, List.flatMap_singleton,
    exchange.records_target]
  exact List.perm_append_comm.trans order.symm

theorem Exchange.lists (exchange : Exchange P page p rest) :
    (((P.activate p rest).recycle page p).list ++ ((P.activate p rest).recycle page p).free).Perm (P.list ++ P.free) := by
  have free : ((P.activate p rest).recycle page p).free = rest ++ [page] := rfl
  rw [recycle_list rest exchange.member, free, exchange.free]
  have first : (P.list.erase page ++ [p] ++ (rest ++ [page])).Perm (page :: P.list.erase page ++ (p :: rest)) := by
    have parts : (rest ++ [page]).Perm (page :: rest) := List.perm_append_singleton _ _
    have moved : (P.list.erase page ++ [p] ++ (page :: rest)).Perm (page :: (P.list.erase page ++ [p] ++ rest)) :=
      List.perm_middle
    refine (parts.append_left _).trans (moved.trans ?_)
    rw [List.append_assoc]
    exact .refl _
  exact first.trans ((List.perm_cons_erase exchange.member).symm.append_right _)

theorem Exchange.usable (exchange : Exchange P page p rest) (all : ∀ i, i ∈ P.list ++ P.free)
    (distinct : (P.list ++ P.free).Nodup) (opened : ∀ i ∈ P.list, i ≠ page → Slot.Open (P.slots i))
    (unused : ∀ i ∈ P.free, Slot.Unused (P.slots i)) (values : ∀ r ∈ P.live, IsValue env r) :
    Usable env ((P.activate p rest).recycle page p) := by
  have distinctList := (List.nodup_append.mp distinct).1
  have list := recycle_list (p := p) rest exchange.member
  refine ⟨fun i => exchange.lists.mem_iff.mpr (all i), exchange.lists.nodup_iff.mpr distinct, ?_, ?_, ?_, ?_, ?_⟩
  · rw [list]
    exact List.append_ne_nil_of_right_ne_nil _ (by simp)
  · rw [list, List.dropLast_concat]
    intro j inside
    have parts := (List.Nodup.mem_erase_iff distinctList).mp inside
    rw [exchange.slots_other parts.2 parts.1]
    exact opened j parts.2 parts.1
  · intro j last_
    rw [list, List.getLast?_concat] at last_
    rw [← Option.some.inj last_, exchange.moved_slots]
    rcases moved_cases page (activate_slots_self (P := P) p rest) with ⟨same, -⟩ | same
    · rw [same]
      exact trivial
    · rw [same]
      exact Or.inl rfl
  · intro j inside
    rcases List.mem_append.mp (show j ∈ rest ++ [page] from inside) with old | freed
    · have free : j ∈ P.free := by
        rw [exchange.free]
        exact List.mem_cons_of_mem _ old
      have notPage : j ≠ page := by
        rintro rfl
        exact (List.nodup_append.mp distinct).2.2 j exchange.member j free rfl
      have notNew : j ≠ p := by
        rintro rfl
        have once := (List.nodup_append.mp distinct).2.1
        rw [exchange.free] at once
        exact (List.nodup_cons.mp once).1 old
      rw [recycle_slots_other notPage notNew, activate_slots_other _ notNew]
      exact unused j free
    · rw [List.mem_singleton.mp freed, recycle_slots_page]
      exact trivial
  · intro r inside
    exact values r ((exchange.live distinctList).mem_iff.mp inside)

theorem Usable.recycle (exchange : Exchange P page p rest) (allOpen : AllOpen env P) :
    Usable env ((P.activate p rest).recycle page p) :=
  exchange.usable allOpen.usable.all allOpen.usable.distinct (fun i member _ => allOpen.opened i member)
    allOpen.usable.unused allOpen.usable.values

end

theorem requestNewPage_cases {Q : Pages n} (ok : P.requestNewPage = .ok Q) :
    (∃ p rest, P.free = p :: rest ∧ rest ≠ [] ∧ Q = P.activate p rest) ∨
      ∃ p page, P.free = [p] ∧ P.mostUnused = some page ∧ Q = (P.activate p []).recycle page p := by
  unfold Pages.requestNewPage at ok
  split at ok
  · exact absurd ok (by simp)
  · rename_i p free
    split at ok
    · exact absurd ok (by simp)
    · rename_i page most
      exact Or.inr ⟨p, page, free, most, (Except.ok.inj ok).symm⟩
  · rename_i p rest more free
    exact Or.inl ⟨p, rest, free, fun none_ => more (by rw [none_]), (Except.ok.inj ok).symm⟩

theorem Usable.requested {Q : Pages n} (allOpen : AllOpen env P) (ok : P.requestNewPage = .ok Q) :
    Usable env Q ∧ Q.live.Perm P.live := by
  rcases requestNewPage_cases ok with ⟨p, rest, free, -, rfl⟩ | ⟨p, page, free, most, rfl⟩
  · refine ⟨.activate allOpen free, ?_⟩
    rw [live_activate fun member => allOpen.usable.notFree member (by rw [free]; exact List.mem_cons_self)]
  · have exchange := allOpen.usable.exchange free most
    exact ⟨.recycle exchange allOpen, exchange.live allOpen.usable.distinctList⟩

end

end EspFirmware.Proof.Nvs
