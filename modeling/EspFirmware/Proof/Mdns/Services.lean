import EspFirmware.Spec.Mdns

/-!
Services are unique and bounded in every run in which adds do not overlap.
-/

namespace EspFirmware.Proof.Mdns
open EspFirmware.Lib EspFirmware.Mdns EspFirmware.Spec

def addedBy : SrvAction → Option SrvItem
  | .serviceAdd item => some item
  | _ => none

def pending {n : Nat} (s : SrvState n) : List SrvItem := (s.received.toList ++ s.action_queue).filterMap addedBy

def Fresh {n : Nat} (s : SrvState n) (service proto : CString) : Prop :=
  ∀ e ∈ s.services, e.matches service proto = false

inductive Phase (max : Nat) {n : Nat} (s : SrvState n) : Prop
  | quiet (tasks : ∀ i, (s.pc i).checked = false) (none_ : pending s = [])
  | checking (i : Fin n) (call : AddCall)
      (at_ : s.pc i = .lookUp call ∨ s.pc i = .create call ∧ Fresh s call.service call.proto)
      (others : ∀ j, j ≠ i → (s.pc j).checked = false) (none_ : pending s = []) (room : s.services.length < max)
      (short : call.service.length ≤ MDNS_NAME_MAX_LEN ∧ call.proto.length ≤ MDNS_NAME_MAX_LEN)
  | queued (item : SrvItem) (tasks : ∀ i, (s.pc i).checked = false) (one : pending s = [item])
      (room : s.services.length < max) (fresh : Fresh s item.service item.proto)

structure SrvInv (max : Nat) {n : Nat} (s : SrvState n) : Prop where
  ok : ServicesOk max s
  phase : Phase max s
  waits : ∀ i call k, s.pc i = .wait call k → call.id ∈ s.added ∨
    ∃ item ∈ pending s, item.call = call.id ∧ item.service = call.service ∧ item.proto = call.proto

section
variable {max n : Nat} {s s' : SrvState n} {i : Fin n} {pc : SrvPc} {call : AddCall}

theorem srv_goto_self (s : SrvState n) (i : Fin n) (pc : SrvPc) : (s.goto i pc).pc i = pc := if_pos rfl

theorem srv_goto_other {j : Fin n} (other : j ≠ i) : (s.goto i pc).pc j = s.pc j := if_neg other

theorem canAddFrom_iff {num : Nat} {services : List SrvItem} (below : num < max) :
    canAddFrom max num services = true ↔ num + services.length < max := by
  induction services generalizing num with
  | nil => simp only [canAddFrom, List.length_nil, Nat.add_zero, below]
  | cons e rest ih =>
      rw [canAddFrom, List.length_cons]
      split
      · simp only [Bool.false_eq_true, false_iff]
        omega
      · rw [ih (by omega)]
        omega

theorem canAdd_iff {services : List SrvItem} (some_ : 0 < max) :
    mdnsCanAddMoreServices max services = true ↔ services.length < max := by
  unfold mdnsCanAddMoreServices
  rw [canAddFrom_iff some_]
  omega

theorem get_none {service proto : CString} (none_ : mdnsGetServiceItem s.services service proto = none) :
    Fresh s service proto := by
  intro e member
  have := List.find?_eq_none.mp none_ e member
  simpa using this

theorem get_some {service proto : CString} {e : SrvItem} (found : mdnsGetServiceItem s.services service proto = some e) :
    ¬ Fresh s service proto := by
  intro fresh
  have matched := List.find?_some found
  have missed := fresh e (List.mem_of_find?_eq_some found)
  rw [matched] at missed
  cases missed

structure SameTask (old new : SrvPc) : Prop where
  before : old.checked = false
  after : new.checked = false
  waits : ∀ call k, new = .wait call k → ∃ k', old = .wait call k'

structure NoAdd (s s' : SrvState n) : Prop where
  services : s'.services.Sublist s.services
  pending : pending s' = pending s
  added : s'.added = s.added
  results : ∀ id, (id, EspErr.ok) ∈ s'.results → (id, EspErr.ok) ∈ s.results ∨ id ∈ s.added
  tasks : ∀ j, s'.pc j = s.pc j ∨ SameTask (s.pc j) (s'.pc j)

theorem NoAdd.checked (same : NoAdd s s') (j : Fin n) : (s'.pc j).checked = (s.pc j).checked := by
  rcases same.tasks j with equal | task
  · rw [equal]
  · rw [task.before, task.after]

theorem NoAdd.fresh (same : NoAdd s s') {service proto : CString} (fresh : Fresh s service proto) :
    Fresh s' service proto := fun e member => fresh e (same.services.subset member)

theorem NoAdd.phase (same : NoAdd s s') (phase : Phase max s) : Phase max s' := by
  have shorter := same.services.length_le
  cases phase with
  | quiet tasks none_ => exact .quiet (fun j => (same.checked j).trans (tasks j)) (same.pending.trans none_)
  | checking i call at_ others none_ room short =>
      have still : s'.pc i = s.pc i := by
        rcases same.tasks i with equal | task
        · exact equal
        · have before := task.before
          rcases at_ with at_ | ⟨at_, -⟩
          · rw [at_] at before
            cases before
          · rw [at_] at before
            cases before
      refine .checking i call ?_ (fun j other => (same.checked j).trans (others j other)) (same.pending.trans none_)
        (by omega) short
      rw [still]
      rcases at_ with at_ | ⟨at_, fresh⟩
      · exact .inl at_
      · exact .inr ⟨at_, same.fresh fresh⟩
  | queued item tasks one room fresh =>
      exact .queued item (fun j => (same.checked j).trans (tasks j)) (same.pending.trans one) (by omega)
        (same.fresh fresh)

theorem NoAdd.inv (same : NoAdd s s') (inv : SrvInv max s) : SrvInv max s' := by
  have shorter := same.services.length_le
  have bounded := inv.ok.bounded
  refine ⟨⟨inv.ok.unique.sublist same.services, by omega, ?_⟩, same.phase inv.phase, ?_⟩
  · intro id returned
    rw [same.added]
    rcases same.results id returned with old | new
    · exact inv.ok.added id old
    · exact new
  · intro j call k at_
    rw [same.added, same.pending]
    rcases same.tasks j with equal | task
    · exact inv.waits j call k (equal ▸ at_)
    · obtain ⟨k', before⟩ := task.waits call k at_
      exact inv.waits j call k' before

theorem noAdd_goto (task : SameTask (s.pc i) pc) (services : s'.services.Sublist s.services)
    (same : pending s' = pending s) (added : s'.added = s.added) (pcs : s'.pc = s.pc)
    (results : ∀ id, (id, EspErr.ok) ∈ s'.results → (id, EspErr.ok) ∈ s.results ∨ id ∈ s.added) :
    NoAdd s (s'.goto i pc) := by
  refine ⟨services, same, added, results, fun j => ?_⟩
  by_cases this : j = i
  · rw [this, srv_goto_self]
    exact .inr task
  · rw [srv_goto_other this, pcs]
    exact .inl rfl

theorem noAdd_finish (before : (s.pc i).checked = false) {err : EspErr} (told : err = .ok → call.id ∈ s.added)
    (services : s'.services.Sublist s.services) (same : pending s' = pending s) (added : s'.added = s.added)
    (pcs : s'.pc = s.pc) (results : s'.results = s.results) : NoAdd s (s'.finish i call err) := by
  show NoAdd s ({ s' with results := s'.results ++ [(call.id, err)] }.goto i .idle)
  refine noAdd_goto ⟨before, rfl, nofun⟩ services same added pcs ?_
  intro id returned
  dsimp only at returned
  rw [results] at returned
  rcases List.mem_append.mp returned with old | new
  · exact .inl old
  · cases List.mem_singleton.mp new
    exact .inr (told rfl)

theorem checked_phase (phase : Phase max s) (checked : (s.pc i).checked = true) :
    ∃ call, (s.pc i = .lookUp call ∨ s.pc i = .create call ∧ Fresh s call.service call.proto) ∧
      (∀ j, j ≠ i → (s.pc j).checked = false) ∧ pending s = [] ∧ s.services.length < max ∧
      call.service.length ≤ MDNS_NAME_MAX_LEN ∧ call.proto.length ≤ MDNS_NAME_MAX_LEN := by
  cases phase with
  | quiet tasks none_ =>
      rw [tasks i] at checked
      cases checked
  | checking k call at_ others none_ room short =>
      by_cases this : i = k
      · subst this
        exact ⟨call, at_, others, none_, room, short⟩
      · rw [others i this] at checked
        cases checked
  | queued item tasks one room fresh =>
      rw [tasks i] at checked
      cases checked

theorem not_adding (phase : Phase max s) (none_ : ¬ s.adding) :
    (∀ i, (s.pc i).checked = false) ∧ pending s = [] := by
  cases phase with
  | quiet tasks empty => exact ⟨tasks, empty⟩
  | checking i call at_ others empty room short =>
      refine absurd (.inl ⟨i, ?_⟩) none_
      rcases at_ with at_ | ⟨at_, -⟩
      · rw [at_]
        rfl
      · rw [at_]
        rfl
  | queued item tasks one room fresh =>
      have member : item ∈ pending s := by rw [one]; exact List.mem_singleton_self item
      obtain ⟨action, there, adds⟩ := List.mem_filterMap.mp member
      refine absurd (.inr ⟨action, there, ?_⟩) none_
      cases action with
      | serviceAdd _ => rfl
      | serviceDel _ => cases adds
      | servicesClear => cases adds

theorem others_goto (others : ∀ j, j ≠ i → (s.pc j).checked = false) (pcs : s'.pc = s.pc) :
    ∀ j, j ≠ i → ((s'.goto i pc).pc j).checked = false := by
  intro j other
  rw [srv_goto_other other, pcs]
  exact others j other

theorem all_goto (others : ∀ j, j ≠ i → (s.pc j).checked = false) (pcs : s'.pc = s.pc) (after : pc.checked = false) :
    ∀ j, ((s'.goto i pc).pc j).checked = false := by
  intro j
  by_cases this : j = i
  · rw [this, srv_goto_self]
    exact after
  · exact others_goto others pcs j this

theorem waits_goto (inv : SrvInv max s) (after : ∀ call k, pc ≠ .wait call k) (pcs : s'.pc = s.pc)
    (added : s'.added = s.added) (same : pending s' = pending s) :
    ∀ j call k, (s'.goto i pc).pc j = .wait call k → call.id ∈ (s'.goto i pc).added ∨
      ∃ item ∈ pending (s'.goto i pc), item.call = call.id ∧ item.service = call.service ∧ item.proto = call.proto := by
  intro j call k at_
  by_cases this : j = i
  · rw [this, srv_goto_self] at at_
    exact absurd at_ (after call k)
  · rw [srv_goto_other this, pcs] at at_
    show call.id ∈ s'.added ∨ ∃ item ∈ pending s', _
    rw [added, same]
    exact inv.waits j call k at_

theorem giveUp_inv (inv : SrvInv max s) (others : ∀ j, j ≠ i → (s.pc j).checked = false) (none_ : pending s = [])
    {err : EspErr} (failed : err ≠ .ok) : SrvInv max (s.finish i call err) := by
  refine ⟨⟨inv.ok.unique, inv.ok.bounded, ?_⟩, .quiet (all_goto others rfl rfl) none_, waits_goto inv nofun rfl rfl rfl⟩
  intro id returned
  rcases List.mem_append.mp returned with old | new
  · exact inv.ok.added id old
  · cases List.mem_singleton.mp new
    exact absurd rfl failed

theorem canAdd_inv (some_ : 0 < max) (inv : SrvInv max s) (at_ : s.pc i = .canAdd call) (safe : (s.pc i).MayCheck s) :
    SrvInv max (if mdnsCanAddMoreServices max s.services then s.goto i (.lookUp call) else s.finish i call .noMem) := by
  rw [at_] at safe
  obtain ⟨none_, short⟩ := safe
  obtain ⟨tasks, empty⟩ := not_adding inv.phase none_
  split
  · rename_i room
    refine ⟨⟨inv.ok.unique, inv.ok.bounded, inv.ok.added⟩, ?_, waits_goto inv nofun rfl rfl rfl⟩
    exact .checking i call (.inl (srv_goto_self s i _)) (others_goto (fun j _ => tasks j) rfl) empty
      ((canAdd_iff some_).mp room) short
  · exact giveUp_inv inv (fun j _ => tasks j) empty nofun

theorem lookUp_inv (inv : SrvInv max s) (at_ : s.pc i = .lookUp call) :
    SrvInv max (match mdnsGetServiceItem s.services call.service call.proto with
      | some _ => s.finish i call .invalidArg
      | none => s.goto i (.create call)) := by
  obtain ⟨call', place, others, empty, room, short⟩ := checked_phase inv.phase (i := i) (by rw [at_]; rfl)
  have same : call' = call := by
    rcases place with place | ⟨place, -⟩
    · rw [at_] at place
      cases place
      rfl
    · rw [at_] at place
      cases place
  subst same
  cases found : mdnsGetServiceItem s.services call'.service call'.proto with
  | some e => exact giveUp_inv inv others empty nofun
  | none =>
      refine ⟨⟨inv.ok.unique, inv.ok.bounded, inv.ok.added⟩, ?_, waits_goto inv nofun rfl rfl rfl⟩
      exact .checking i call' (.inr ⟨srv_goto_self s i _, get_none found⟩) (others_goto others rfl) empty room short

theorem create_inv (inv : SrvInv max s) (at_ : s.pc i = .create call) {malloc : Option Nat}
    (run : s.create i call malloc = some s') : SrvInv max s' := by
  obtain ⟨call', place, others, empty, room, short⟩ := checked_phase inv.phase (i := i) (by rw [at_]; rfl)
  have fresh : call' = call ∧ Fresh s call.service call.proto := by
    rcases place with place | ⟨place, fresh⟩
    · rw [at_] at place
      cases place
    · rw [at_] at place
      cases place
      exact ⟨rfl, fresh⟩
  obtain ⟨rfl, fresh⟩ := fresh
  unfold SrvState.create at run
  cases malloc with
  | none =>
      cases run
      exact giveUp_inv inv others empty nofun
  | some ptr =>
      dsimp only at run
      split at run
      · cases run
      · split at run
        · cases run
          exact giveUp_inv inv others empty nofun
        · have service := strndup_short (n := MDNS_NAME_BUF_LEN - 1) short.1
          have proto := strndup_short (n := MDNS_NAME_BUF_LEN - 1) short.2
          rw [service, proto] at run
          cases run
          have queue : (s.received.toList ++ (s.action_queue ++
              [SrvAction.serviceAdd ⟨ptr, call'.service, call'.proto, call'.id⟩])).filterMap addedBy =
              [⟨ptr, call'.service, call'.proto, call'.id⟩] := by
            rw [← List.append_assoc, List.filterMap_append]
            show pending s ++ _ = _
            rw [empty]
            rfl
          refine ⟨⟨inv.ok.unique, inv.ok.bounded, inv.ok.added⟩,
            .queued ⟨ptr, call'.service, call'.proto, call'.id⟩ (all_goto others rfl rfl) queue room fresh, ?_⟩
          intro j call k waiting
          by_cases this : j = i
          · rw [this, srv_goto_self] at waiting
            cases waiting
            refine .inr ⟨⟨ptr, call'.service, call'.proto, call'.id⟩, ?_, rfl, rfl, rfl⟩
            have only : pending ({ s with action_queue := s.action_queue ++
                [SrvAction.serviceAdd ⟨ptr, call'.service, call'.proto, call'.id⟩] }.goto i (.wait call' 0)) =
                [⟨ptr, call'.service, call'.proto, call'.id⟩] := queue
            rw [only]
            exact List.mem_singleton_self _
          · rw [srv_goto_other this] at waiting
            rcases inv.waits j call k waiting with old | ⟨item, there, -⟩
            · exact .inl old
            · rw [empty] at there
              cases there

theorem wait_noAdd (inv : SrvInv max s) {k : Nat} (at_ : s.pc i = .wait call k) : NoAdd s (s.wait call k i) := by
  have before : (s.pc i).checked = false := by rw [at_]; rfl
  unfold SrvState.wait
  cases found : mdnsGetServiceItem s.services call.service call.proto with
  | some e =>
      refine noAdd_finish before (fun _ => ?_) (List.Sublist.refl _) rfl rfl rfl rfl
      rcases inv.waits i call k at_ with old | ⟨item, there, -, service, proto⟩
      · exact old
      · have stale := get_some found
        rw [← service, ← proto] at stale
        refine absurd ?_ stale
        cases inv.phase with
        | quiet tasks empty =>
            rw [empty] at there
            cases there
        | checking j call at_ others empty room short =>
            rw [empty] at there
            cases there
        | queued only tasks one room fresh =>
            rw [one, List.mem_singleton] at there
            subst there
            exact fresh
  | none =>
      dsimp only
      split
      · refine noAdd_goto ⟨before, rfl, ?_⟩ (List.Sublist.refl _) rfl rfl rfl fun id old => .inl old
        intro call' k' same
        cases same
        exact ⟨k, at_⟩
      · exact noAdd_finish before nofun (List.Sublist.refl _) rfl rfl rfl rfl

theorem send_noAdd (before : (s.pc i).checked = false) {action : SrvAction} (other : addedBy action = none)
    (malloc : Option Nat) : NoAdd s (s.send i action malloc) := by
  unfold SrvState.send
  split
  · exact noAdd_goto ⟨before, rfl, nofun⟩ (List.Sublist.refl _) rfl rfl rfl fun id old => .inl old
  · refine noAdd_goto ⟨before, rfl, nofun⟩ (List.Sublist.refl _) ?_ rfl rfl fun id old => .inl old
    unfold pending
    rw [← List.append_assoc, List.filterMap_append, List.filterMap_cons, other]
    exact List.append_nil _

theorem next_inv (some_ : 0 < max) (inv : SrvInv max s) {malloc : Option Nat} (safe : (s.pc i).MayCheck s)
    (run : s.next max i malloc = some s') : SrvInv max s' := by
  unfold SrvState.next at run
  cases at_ : s.pc i with
  | idle =>
      rw [at_] at run
      cases run
  | canAdd call =>
      have checked := canAdd_inv some_ inv at_ safe
      rw [at_] at run
      dsimp only at run
      split at run
      · rename_i room
        rw [if_pos room] at checked
        cases run
        exact checked
      · rename_i none_
        rw [if_neg none_] at checked
        cases run
        exact checked
  | lookUp call =>
      have looked := lookUp_inv inv at_
      rw [at_] at run
      dsimp only at run
      split at run
      · rename_i found
        rw [found] at looked
        cases run
        exact looked
      · rename_i found
        rw [found] at looked
        cases run
        exact looked
  | create call =>
      rw [at_] at run
      exact create_inv inv at_ run
  | wait call k =>
      rw [at_] at run
      cases run
      exact (wait_noAdd inv at_).inv inv
  | find service proto =>
      have before : (s.pc i).checked = false := by rw [at_]; rfl
      rw [at_] at run
      dsimp only at run
      split at run
      · cases run
        refine NoAdd.inv (s := s) ?_ inv
        exact noAdd_goto ⟨before, rfl, nofun⟩ (List.Sublist.refl _) rfl rfl rfl fun id old => .inl old
      · cases run
        refine NoAdd.inv (s := s) ?_ inv
        exact noAdd_goto ⟨before, rfl, nofun⟩ (List.Sublist.refl _) rfl rfl rfl fun id old => .inl old
  | sendDel ptr =>
      rw [at_] at run
      cases run
      exact (send_noAdd (by rw [at_]; rfl) rfl malloc).inv inv
  | sendClear =>
      rw [at_] at run
      cases run
      exact (send_noAdd (by rw [at_]; rfl) rfl malloc).inv inv

theorem execute_inv (inv : SrvInv max s) {action : SrvAction} (at_ : s.received = some action)
    (run : { s with received := none }.execute action = some s') : SrvInv max s' := by
  cases action with
  | serviceAdd item =>
      cases run
      have first : pending s = item :: s.action_queue.filterMap addedBy := by
        unfold pending
        rw [at_]
        rfl
      have rest : s.action_queue.filterMap addedBy = [] ∧ (∀ j, (s.pc j).checked = false) ∧ s.services.length < max ∧
          Fresh s item.service item.proto := by
        cases inv.phase with
        | quiet tasks empty =>
            rw [first] at empty
            cases empty
        | checking j call at_ others empty room short =>
            rw [first] at empty
            cases empty
        | queued only tasks one room fresh =>
            rw [first] at one
            obtain ⟨rfl, none_⟩ := List.cons.inj one
            exact ⟨none_, tasks, room, fresh⟩
      obtain ⟨none_, tasks, room, fresh⟩ := rest
      refine ⟨⟨?_, room, fun id returned => List.mem_cons_of_mem _ (inv.ok.added id returned)⟩, .quiet tasks none_, ?_⟩
      · refine List.pairwise_cons.mpr ⟨fun e member => ?_, inv.ok.unique⟩
        have missed := fresh e member
        unfold SrvItem.matches at missed ⊢
        rw [strcasecmp_comm item.service, strcasecmp_comm item.proto]
        exact missed
      · intro j call k waiting
        rcases inv.waits j call k waiting with old | ⟨found, there, id, -⟩
        · exact .inl (List.mem_cons_of_mem _ old)
        · rw [first, none_, List.mem_singleton] at there
          subst there
          exact .inl (by rw [← id]; exact List.mem_cons_self)
  | serviceDel ptr =>
      have same : pending { s with received := none } = pending s := by
        unfold pending
        rw [at_]
        rfl
      unfold SrvState.execute at run
      dsimp only at run
      split at run
      · cases run
      · cases run
        exact NoAdd.inv (s := s) ⟨List.eraseP_sublist, same, rfl, fun id old => .inl old, fun j => .inl rfl⟩ inv
  | servicesClear =>
      have same : pending { s with received := none } = pending s := by
        unfold pending
        rw [at_]
        rfl
      cases run
      exact NoAdd.inv (s := s) ⟨List.nil_sublist _, same, rfl, fun id old => .inl old, fun j => .inl rfl⟩ inv

theorem srv_step (some_ : 0 < max) (inv : SrvInv max s) {e : SrvEvent n} (safe : e.Safe s)
    (run : e.run max s = some s') : SrvInv max s' := by
  cases e with
  | add i service proto port =>
      unfold SrvEvent.run at run
      dsimp only at run
      split at run
      · cases run
      · rename_i busy
        have at_ : s.pc i = .idle := Decidable.not_not.mp busy
        have before : (s.pc i).checked = false := by rw [at_]; rfl
        split at run
        · cases run
          refine NoAdd.inv (s := s) ?_ inv
          exact noAdd_finish before nofun (List.Sublist.refl _) rfl rfl rfl rfl
        · cases run
          refine NoAdd.inv (s := s) ?_ inv
          exact noAdd_goto ⟨before, rfl, nofun⟩ (List.Sublist.refl _) rfl rfl rfl fun id old => .inl old
  | remove i service proto =>
      unfold SrvEvent.run at run
      dsimp only at run
      split at run
      · cases run
      · rename_i busy
        have at_ : s.pc i = .idle := Decidable.not_not.mp busy
        split at run
        · cases run
          exact inv
        · cases run
          refine NoAdd.inv (s := s) ?_ inv
          exact noAdd_goto ⟨by rw [at_]; rfl, rfl, nofun⟩ (List.Sublist.refl _) rfl rfl rfl
            fun id old => .inl old
  | removeAll i =>
      unfold SrvEvent.run at run
      dsimp only at run
      split at run
      · cases run
      · rename_i busy
        have at_ : s.pc i = .idle := Decidable.not_not.mp busy
        split at run
        · cases run
          exact inv
        · cases run
          refine NoAdd.inv (s := s) ?_ inv
          exact noAdd_goto ⟨by rw [at_]; rfl, rfl, nofun⟩ (List.Sublist.refl _) rfl rfl rfl
            fun id old => .inl old
  | step i malloc => exact next_inv some_ inv safe run
  | receive =>
      unfold SrvEvent.run at run
      dsimp only at run
      split at run
      · rename_i action rest none_ queue
        cases run
        refine NoAdd.inv (s := s) ⟨List.Sublist.refl _, ?_, rfl, fun id old => .inl old, fun j => .inl rfl⟩ inv
        unfold pending
        rw [none_, queue]
        rfl
      · cases run
  | execute =>
      unfold SrvEvent.run at run
      dsimp only at run
      split at run
      · rename_i action at_
        exact execute_inv inv at_ run
      · cases run

theorem srvInv_start (max n : Nat) : SrvInv max (.start n) where
  ok := ⟨.nil, Nat.zero_le _, nofun⟩
  phase := .quiet (fun _ => rfl) rfl
  waits := nofun

end

/-- In a run in which no call makes its first check while another add is under way, for names that are not truncated,
services are unique and bounded, and no call is told that its service was added before it was. -/
theorem services_unique_bounded {n : Nat} (MDNS_MAX_SERVICES : Nat) (range : 0 < MDNS_MAX_SERVICES)
    (events : List (SrvEvent n)) (safe : EachStep (SrvEvent.run MDNS_MAX_SERVICES) SrvEvent.Safe events (.start n))
    (s : SrvState n) (run : runServices MDNS_MAX_SERVICES events (.start n) = some s) :
    ServicesOk MDNS_MAX_SERVICES s :=
  (runSteps_keeps (fun s e s' inv safe run => srv_step range inv safe run) (srvInv_start MDNS_MAX_SERVICES n) safe
    run).ok

def addHttp {n : Nat} (i : Fin n) : SrvEvent n := .add i [95, 104, 116, 116, 112] [95, 116, 99, 112] 80

def addTwice : List (SrvEvent 2) :=
  [addHttp 0, .step 0 none, .step 0 none, .step 0 (some 8), .receive, .execute, .step 0 none, addHttp 1, .step 1 none,
    .step 1 none]

theorem services_unique_bounded_addTwice :
    EachStep (SrvEvent.run 10) SrvEvent.Safe addTwice (.start 2) ∧
    ∃ s, runServices 10 addTwice (.start 2) = some s ∧ ServicesOk 10 s := by
  have safe : EachStep (SrvEvent.run 10) SrvEvent.Safe addTwice (.start 2) := by decide
  have some_ : (runServices 10 addTwice (.start 2)).isSome := by decide
  have run := (Option.some_get some_).symm
  exact ⟨safe, _, run, services_unique_bounded 10 (by decide) addTwice safe _ run⟩

def addAtOnce : List (SrvEvent 2) :=
  [addHttp 0, addHttp 1, .step 0 none, .step 1 none, .step 0 none, .step 1 none, .step 0 (some 8), .step 1 (some 16),
    .receive, .execute, .receive, .execute]

theorem service_added_twice :
    ∃ s, runServices 10 addAtOnce (.start 2) = some s ∧ ¬ ServicesOk 10 s := by
  have some_ : (runServices 10 addAtOnce (.start 2)).isSome := by decide
  refine ⟨_, (Option.some_get some_).symm, ?_⟩
  intro ok
  have unique := ok.unique
  clear ok
  revert some_
  decide

end EspFirmware.Proof.Mdns
