import EspFirmware.Proof.Mdns.Packets
import EspFirmware.Proof.Mdns.Searches
import Mathlib.Data.List.TakeWhile

/-!
Actions touch only what is there, in every run in which nothing is removed that something else refers to.
-/

namespace EspFirmware.Proof.Mdns
open EspFirmware.Lib EspFirmware.Mdns EspFirmware.Spec Responder MdnsState

def asked? : ApiPc → Option Nat
  | .query x => some x.id
  | .waiting x => some x
  | _ => none

structure HolderInv {n : Nat} (pc : Fin n → ApiPc) (freed : List Nat) (next : Nat) : Prop where
  held : ∀ i x, asked? (pc i) = some x → x < next ∧ x ∉ freed
  one : ∀ i j x, asked? (pc i) = some x → asked? (pc j) = some x → i = j
  nodup : freed.Nodup
  below : ∀ x ∈ freed, x < next

def packet? : MdnsAction → Option Nat
  | .txHandle p => some p.id
  | _ => none

def queuedFor {n : Nat} (s : MdnsState n) : List MdnsAction := s.received.toList ++ s.action_queue

structure PlainAction (a : MdnsAction) : Prop where
  search : a.search? = none
  added : added? a = none
  packet : packet? a = none

def servicePtrs (services : List SrvItem) : List Nat := services.map SrvItem.ptr

def known {n : Nat} (pc : Fin n → ApiPc) (next x : Nat) : Prop := x < next ∧ ∀ i y, pc i = .query y → y.id ≠ x

structure ActInv {n : Nat} (s : MdnsState n) : Prop where
  live : s.stale = []
  tx : TxInv (packetIds s.responder) ((queuedFor s).filterMap packet?) s.freedPackets s.responder.nextId
  actions : ∀ a ∈ queuedFor s, ∀ ptr, a.service? = some ptr → ptr ∈ servicePtrs s.services
  calls : ∀ i ptr, (s.pc i).service? = some ptr → ptr ∈ servicePtrs s.services
  searches : SearchInv (known s.pc s.nextObject) s.search_once (queuedFor s) s.released
  holders : HolderInv s.pc s.freedSearches s.nextObject
  plain : ∀ i a, s.pc i = .send a → PlainAction a

section
variable {n : Nat} {s : MdnsState n}

theorem ActInv.ok (inv : ActInv s) : LiveOk s := ⟨inv.live, inv.tx.freedNodup, inv.holders.nodup⟩

theorem ActInv.runOps (inv : ActInv s) (ops : List MdnsOp) : ActInv (s.runOps ops) := by
  induction ops generalizing s with
  | nil => exact inv
  | cons o rest ih =>
      have queued := (List.nodup_append.mp inv.tx.nodup).1
      have below (id : Nat) (member : id ∈ packetIds s.responder) : id < s.responder.nextId :=
        inv.tx.below id (List.mem_append_left _ member)
      exact ih { inv with tx := inv.tx.step ((NewIds.refl queued below).op o) }

variable {a : MdnsAction}

theorem queuedFor_received (received : s.received = some a) : queuedFor s = a :: s.action_queue := by
  unfold queuedFor
  rw [received]
  rfl

theorem ActInv.refersToLive (inv : ActInv s) (received : s.received = some a) : s.refersToLive a = true := by
  have member : a ∈ queuedFor s := queuedFor_received received ▸ List.mem_cons_self
  have service (ptr : Nat) (its : a.service? = some ptr) : (s.services.any fun item => item.ptr = ptr) = true := by
    obtain ⟨item, there, is⟩ := List.mem_map.mp (inv.actions a member ptr its)
    exact List.any_eq_true.mpr ⟨item, there, decide_eq_true is⟩
  have apart := (List.nodup_append.mp inv.searches.ids.nodup).2
  have search (x : Nat) (its : a.search? = some x) : decide (x ∉ s.released) = true := by
    have listed := inv.searches.listed a member x its
    exact decide_eq_true fun gone => (List.nodup_append.mp apart.1).2.2 x listed x gone rfl
  cases a with
  | serviceSet setter ptr => exact service ptr rfl
  | serviceDel ptr => exact service ptr rfl
  | searchAdd x =>
      have queued : x.id ∈ (queuedFor s).filterMap added? := List.mem_filterMap.mpr ⟨_, member, rfl⟩
      exact decide_eq_true fun gone => apart.2 x.id queued x.id (List.mem_append_right _ gone) rfl
  | searchSend x => exact search x rfl
  | searchEnd x => exact search x rfl
  | txHandle p =>
      have handed : p.id ∈ (queuedFor s).filterMap packet? := List.mem_filterMap.mpr ⟨_, member, rfl⟩
      exact decide_eq_true fun gone => inv.tx.apart p.id gone (List.mem_append_right _ handed)
  | systemEvent | hostnameSet | instanceSet | serviceAdd | servicesClear | rxHandle => rfl

theorem ActInv.taken (inv : ActInv s) (received : s.received = some a) : ActInv { s with received := none } where
  live := inv.live
  tx := by
    refine inv.tx.sublist (List.Sublist.append_left ?_ _)
    rw [queuedFor_received received]
    exact (List.sublist_cons_self _ _).filterMap packet?
  actions b member := inv.actions b (queuedFor_received received ▸ List.mem_cons_of_mem _ member)
  calls := inv.calls
  searches := (queuedFor_received received ▸ inv.searches).tail
  holders := inv.holders
  plain := inv.plain

theorem ActInv.txHandle {p : TxPacket} {memory : Bool} (inv : ActInv s) (received : s.received = some (.txHandle p)) :
    ActInv ({ s with received := none }.withResponder (s.responder.mdnsTxHandlePacket p memory)
      (p.id :: packetIds s.responder)) := by
  have tx := inv.tx
  rw [queuedFor_received received] at tx
  have same : (packetIds s.responder ++ (MdnsAction.txHandle p :: s.action_queue).filterMap packet?).Perm
      ((p.id :: packetIds s.responder) ++ s.action_queue.filterMap packet?) := List.perm_middle
  have moved := tx.perm same
  have nodup := List.nodup_cons.mp (List.nodup_append.mp moved.nodup).1
  have below (id : Nat) (member : id ∈ p.id :: packetIds s.responder) : id < s.responder.nextId :=
    moved.below id (List.mem_append_left _ member)
  have new := newIds_txHandle (p := p) (m := memory) nodup.2
    (fun id member => below id (List.mem_cons_of_mem _ member)) nodup.1 (below _ List.mem_cons_self)
  exact { inv.taken received with tx := moved.step new }

theorem ActInv.setServices {services : List SrvItem} (inv : ActInv s)
    (kept : ∀ ptr ∈ servicePtrs s.services, (∃ a ∈ queuedFor s, a.service? = some ptr) ∨
      (∃ i, (s.pc i).service? = some ptr) → ptr ∈ servicePtrs services) : ActInv { s with services := services } :=
  { inv with
    actions := fun a member ptr its => kept ptr (inv.actions a member ptr its) (.inl ⟨a, member, its⟩)
    calls := fun i ptr its => kept ptr (inv.calls i ptr its) (.inr ⟨i, its⟩) }

theorem ActInv.parseResults {found : List Nat} {authoritative : Bool} (inv : ActInv s)
    (free : authoritative = true → ∀ x ∈ found.foldl addResult s.search_once, x.done = true →
      ∀ a ∈ queuedFor s, a.search? ≠ some x.id) : ActInv (s.parseResults found authoritative) := by
  have results := inv.searches.results found
  unfold MdnsState.parseResults
  dsimp only
  split
  · rename_i is
    exact { inv with searches := results.finish Search.done (free is) rfl }
  · exact { inv with searches := results }

theorem ActInv.execute {ops : List MdnsOp} {memory authoritative : Bool} {found : List Nat} (inv : ActInv s)
    (received : s.received = some a) (may : s.MayExecute found authoritative a) :
    ActInv ({ s with received := none }.mdnsExecuteAction a ops memory found authoritative) := by
  have taken := inv.taken received
  have live : ({ s with received := none } : MdnsState n).refersToLive a = true := by
    refine Eq.trans ?_ (inv.refersToLive received)
    cases a <;> rfl
  unfold mdnsExecuteAction
  rw [if_pos live]
  cases a with
  | systemEvent | hostnameSet | instanceSet | serviceSet => exact taken.runOps ops
  | serviceAdd item =>
      refine ActInv.runOps (taken.setServices ?_) ops
      exact fun ptr there _ => List.mem_cons_of_mem _ there
  | serviceDel ptr =>
      refine ActInv.runOps (taken.setServices ?_) ops
      intro other there refers
      have differs : other ≠ ptr := by
        rintro rfl
        rcases refers with ⟨b, member, its⟩ | ⟨i, its⟩
        · exact may.1 b member its
        · exact may.2 i its
      obtain ⟨item, listed, rfl⟩ := List.mem_map.mp there
      refine List.mem_map_of_mem ((List.mem_eraseP_of_neg ?_).mpr listed)
      simpa using differs
  | servicesClear =>
      refine ActInv.runOps (taken.setServices ?_) ops
      intro ptr there refers
      obtain ⟨item, listed, rfl⟩ := List.mem_map.mp there
      rcases refers with ⟨b, member, its⟩ | ⟨i, its⟩
      · exact absurd its ((may item listed).1 b member)
      · exact absurd its ((may item listed).2 i)
  | searchAdd x => exact { taken with searches := (queuedFor_received received ▸ inv.searches).add }
  | searchSend x => exact taken
  | searchEnd x => exact { taken with searches := (queuedFor_received received ▸ inv.searches).end_ }
  | txHandle p => exact inv.txHandle received
  | rxHandle => exact (taken.parseResults may).runOps ops

end

def setPc {n : Nat} (pc : Fin n → ApiPc) (i : Fin n) (new : ApiPc) : Fin n → ApiPc := fun j => if j = i then new else pc j

section
variable {n : Nat} {pc : Fin n → ApiPc} {i : Fin n} {new : ApiPc} {freed : List Nat} {next : Nat}

theorem setPc_cases {p : Fin n → ApiPc} {a : ApiPc} (j : Fin n) :
    j = i ∧ setPc p i a j = a ∨ j ≠ i ∧ setPc p i a j = p j := by
  by_cases this : j = i
  · exact .inl ⟨this, if_pos this⟩
  · exact .inr ⟨this, if_neg this⟩

theorem HolderInv.keep {a : ApiPc} (inv : HolderInv pc freed next) (same : ∀ x, asked? a = some x → asked? (pc i) = some x) :
    HolderInv (setPc pc i a) freed next := by
  have before (j : Fin n) (x : Nat) (its : asked? (setPc pc i a j) = some x) : asked? (pc j) = some x := by
    rcases setPc_cases (p := pc) (i := i) (a := a) j with ⟨rfl, is⟩ | ⟨-, is⟩
    · exact same x (is ▸ its)
    · exact is ▸ its
  exact ⟨fun j x its => inv.held j x (before j x its), fun j k x its also => inv.one j k x (before j x its) (before k x also),
    inv.nodup, inv.below⟩

theorem HolderInv.more {next' : Nat} (inv : HolderInv pc freed next) (more : next ≤ next') : HolderInv pc freed next' :=
  ⟨fun j x its => ⟨Nat.lt_of_lt_of_le (inv.held j x its).1 more, (inv.held j x its).2⟩, inv.one, inv.nodup,
    fun x member => Nat.lt_of_lt_of_le (inv.below x member) more⟩

theorem HolderInv.make (inv : HolderInv pc freed next) (its : asked? new = some next) :
    HolderInv (setPc pc i new) freed (next + 1) := by
  have later (j : Fin n) : asked? (pc j) ≠ some next := fun same => Nat.lt_irrefl _ (inv.held j next same).1
  refine ⟨?_, ?_, inv.nodup, fun x member => Nat.lt_succ_of_lt (inv.below x member)⟩
  · intro j x asks
    rcases setPc_cases (p := pc) (i := i) (a := new) j with ⟨rfl, is⟩ | ⟨-, is⟩
    · rw [is, its] at asks
      cases asks
      exact ⟨Nat.lt_succ_self _, fun gone => Nat.lt_irrefl _ (inv.below _ gone)⟩
    · rw [is] at asks
      exact ⟨Nat.lt_succ_of_lt (inv.held j x asks).1, (inv.held j x asks).2⟩
  · intro j k x asks also
    rcases setPc_cases (p := pc) (i := i) (a := new) j with ⟨rfl, is⟩ | ⟨-, is⟩
    · rcases setPc_cases (p := pc) (i := j) (a := new) k with ⟨rfl, is'⟩ | ⟨-, is'⟩
      · rfl
      · rw [is, its] at asks
        rw [is', ← asks] at also
        exact absurd also (later k)
    · rw [is] at asks
      rcases setPc_cases (p := pc) (i := i) (a := new) k with ⟨rfl, is'⟩ | ⟨-, is'⟩
      · rw [is', its] at also
        exact absurd (asks.trans also.symm) (later j)
      · exact inv.one j k x asks (is' ▸ also)

theorem HolderInv.free {x : Nat} (inv : HolderInv pc freed next) (its : asked? (pc i) = some x)
    (none_ : asked? new = none) : HolderInv (setPc pc i new) (freed ++ [x]) next := by
  have kept := inv.keep (i := i) (a := new) fun y asks => absurd asks (none_ ▸ (Option.some_ne_none y).symm)
  refine ⟨?_, kept.one, ?_, ?_⟩
  · intro j y asks
    refine ⟨(kept.held j y asks).1, fun member => ?_⟩
    rcases List.mem_append.mp member with old | now
    · exact (kept.held j y asks).2 old
    · rw [List.mem_singleton.mp now] at asks
      rcases setPc_cases (p := pc) (i := i) (a := new) j with ⟨-, is⟩ | ⟨other, is⟩
      · rw [is, none_] at asks
        cases asks
      · exact other (inv.one j i x (is ▸ asks) its)
  · refine List.nodup_append.mpr ⟨inv.nodup, List.nodup_singleton _, ?_⟩
    rintro y gone _ member rfl
    rw [List.mem_singleton.mp member] at gone
    exact (inv.held i x its).2 gone
  · intro y member
    rcases List.mem_append.mp member with old | now
    · exact inv.below y old
    · rw [List.mem_singleton.mp now]
      exact (inv.held i x its).1

theorem known_setPc {next' : Nat} (more : next ≤ next') (fresh : ∀ y, new = .query y → next ≤ y.id) (x : Nat)
    (before : known pc next x) : known (setPc pc i new) next' x := by
  refine ⟨Nat.lt_of_lt_of_le before.1 more, fun j y is => ?_⟩
  rcases setPc_cases (p := pc) (i := i) (a := new) j with ⟨-, now⟩ | ⟨-, now⟩
  · have later := fresh y (now.symm.trans is)
    have := before.1
    omega
  · exact before.2 j y (now.symm.trans is)

end

section
variable {n : Nat} {s : MdnsState n} {i : Fin n} {a : MdnsAction}

theorem ActInv.goto {q : ApiPc} {next : Nat} (inv : ActInv s) (more : s.nextObject ≤ next)
    (service : ∀ ptr, q.service? = some ptr → ptr ∈ servicePtrs s.services)
    (is : q = .idle ∨ ∃ a, q = .send a ∧ PlainAction a) :
    ActInv ({ s with nextObject := next }.goto i q) := by
  have noSearch (x : Nat) (asks : asked? q = some x) : asked? (s.pc i) = some x := by
    rcases is with rfl | ⟨a, rfl, -⟩ <;> cases asks
  have noQuery (y : Search) (asks : q = .query y) : s.nextObject ≤ y.id := by
    rcases is with rfl | ⟨a, rfl, -⟩ <;> cases asks
  refine ⟨inv.live, inv.tx, inv.actions, ?_, ?_, ?_, ?_⟩
  · intro j ptr its
    rcases setPc_cases (p := s.pc) (i := i) (a := q) j with ⟨-, now⟩ | ⟨-, now⟩
    · exact service ptr (now ▸ its)
    · exact inv.calls j ptr (now ▸ its)
  · exact inv.searches.mono (known_setPc more noQuery)
  · exact (inv.holders.keep noSearch).more more
  · intro j b sends
    rcases setPc_cases (p := s.pc) (i := i) (a := q) j with ⟨-, now⟩ | ⟨-, now⟩
    · rcases is with rfl | ⟨a, rfl, plain⟩
      · cases now.symm.trans sends
      · cases now.symm.trans sends
        exact plain
    · exact inv.plain j b (now.symm.trans sends)

theorem ActInv.append (inv : ActInv s) (plain : PlainAction a)
    (service : ∀ ptr, a.service? = some ptr → ptr ∈ servicePtrs s.services) :
    ActInv { s with action_queue := s.action_queue ++ [a] } := by
  have queue : queuedFor { s with action_queue := s.action_queue ++ [a] } = queuedFor s ++ [a] :=
    (List.append_assoc _ _ _).symm
  refine ⟨inv.live, ?_, ?_, inv.calls, ?_, inv.holders, inv.plain⟩
  · rw [queue, List.filterMap_append, List.filterMap_cons_none plain.packet, List.filterMap_nil, List.append_nil]
    exact inv.tx
  · intro b member ptr its
    rw [queue] at member
    rcases List.mem_append.mp member with old | new
    · exact inv.actions b old ptr its
    · rw [List.mem_singleton.mp new] at its
      exact service ptr its
  · rw [queue]
    exact inv.searches.append plain.search plain.added

theorem ActInv.look {service proto : CString} {f : Nat → MdnsAction} {s' : MdnsState n} (inv : ActInv s)
    (its : ∀ ptr, (f ptr).service? = some ptr) (plain : ∀ ptr, PlainAction (f ptr))
    (ran : s.look i service proto f = some s') : ActInv s' := by
  unfold MdnsState.look at ran
  split at ran
  · cases ran
  · split at ran
    · cases ran
      exact inv
    · rename_i item found
      cases ran
      refine inv.goto (q := .send (f item.ptr)) (Nat.le_refl _) ?_ (.inr ⟨_, rfl, plain _⟩)
      intro ptr refers
      cases (its item.ptr).symm.trans refers
      exact List.mem_map_of_mem (List.mem_of_find?_eq_some found)

theorem ActInv.query {x : Search} (inv : ActInv s) (id : x.id = s.nextObject) :
    ActInv ({ s with nextObject := s.nextObject + 1 }.goto i (.query x)) := by
  refine ⟨inv.live, inv.tx, inv.actions, ?_, ?_, inv.holders.make (congrArg some id), ?_⟩
  · intro j ptr its
    rcases setPc_cases (p := s.pc) (i := i) (a := .query x) j with ⟨-, now⟩ | ⟨-, now⟩
    · cases (congrArg ApiPc.service? now).symm.trans its
    · exact inv.calls j ptr (now ▸ its)
  · refine inv.searches.mono (known_setPc (Nat.le_succ _) fun y is => ?_)
    cases is
    exact Nat.le_of_eq id.symm
  · intro j b sends
    rcases setPc_cases (p := s.pc) (i := i) (a := .query x) j with ⟨-, now⟩ | ⟨-, now⟩
    · cases now.symm.trans sends
    · exact inv.plain j b (now.symm.trans sends)

theorem ActInv.freeSearch {x : Nat} (inv : ActInv s) (its : asked? (s.pc i) = some x) :
    ActInv ({ s with freedSearches := s.freedSearches ++ [x] }.goto i .idle) := by
  have idle := inv.goto (i := i) (q := .idle) (Nat.le_refl _) (fun _ refers => by cases refers) (.inl rfl)
  exact { idle with holders := inv.holders.free its rfl }

theorem ActInv.queueSearch {x : Search} (inv : ActInv s) (is : s.pc i = .query x) :
    ActInv ({ s with action_queue := s.action_queue ++ [MdnsAction.searchAdd x] }.goto i (.waiting x.id)) := by
  have queue : queuedFor ({ s with action_queue := s.action_queue ++ [MdnsAction.searchAdd x] }.goto i (.waiting x.id)) =
      queuedFor s ++ [MdnsAction.searchAdd x] := (List.append_assoc _ _ _).symm
  have asks : asked? (s.pc i) = some x.id := congrArg asked? is
  refine ⟨inv.live, ?_, ?_, ?_, ?_, ?_, ?_⟩
  · rw [queue, List.filterMap_append]
    exact (List.append_nil ((queuedFor s).filterMap packet?)).symm ▸ inv.tx
  · intro b member ptr its
    rw [queue] at member
    rcases List.mem_append.mp member with old | new
    · exact inv.actions b old ptr its
    · cases List.mem_singleton.mp new
      cases its
  · intro j ptr its
    rcases setPc_cases (p := s.pc) (i := i) (a := .waiting x.id) j with ⟨-, now⟩ | ⟨-, now⟩
    · cases (congrArg ApiPc.service? now).symm.trans its
    · exact inv.calls j ptr (now ▸ its)
  · rw [queue]
    have waits : SearchInv (known (setPc s.pc i (.waiting x.id)) s.nextObject) s.search_once (queuedFor s) s.released :=
      inv.searches.mono (known_setPc (Nat.le_refl _) fun y is => by cases is)
    refine waits.appendAdd ?_ ⟨(inv.holders.held i x.id asks).1, ?_⟩
    · exact fun member => (inv.searches.ids.known x.id member).2 i x is rfl
    · intro j y queries same
      rcases setPc_cases (p := s.pc) (i := i) (a := .waiting x.id) j with ⟨-, now⟩ | ⟨other, now⟩
      · cases now.symm.trans queries
      · have also : asked? (s.pc j) = some x.id := by
          rw [now.symm.trans queries]
          exact congrArg some same
        exact other (inv.holders.one j i x.id also asks)
  · exact inv.holders.keep fun y waits => asks.trans waits
  · intro j b sends
    rcases setPc_cases (p := s.pc) (i := i) (a := .waiting x.id) j with ⟨-, now⟩ | ⟨-, now⟩
    · cases now.symm.trans sends
    · exact inv.plain j b (now.symm.trans sends)

theorem ActInv.send {memory : Bool} {s' : MdnsState n} (inv : ActInv s) (ran : s.send i memory = some s') :
    ActInv s' := by
  unfold MdnsState.send at ran
  dsimp only at ran
  split at ran
  · rename_i a is
    have idle (t : MdnsState n) (inv : ActInv t) : ActInv (t.goto i .idle) :=
      inv.goto (q := .idle) (Nat.le_refl _) (fun _ refers => by cases refers) (.inl rfl)
    split at ran
    · cases ran
      refine idle _ (inv.append (inv.plain i a is) fun ptr its => inv.calls i ptr ?_)
      rw [is]
      exact its
    · cases ran
      exact idle s inv
  · rename_i x is
    split at ran
    · cases ran
      exact inv.queueSearch is
    · cases ran
      exact inv.freeSearch (congrArg asked? is)
  · cases ran
  · cases ran

theorem ActInv.handOver {r : Responder} {q : TxPacket} (inv : ActInv s) (same : r.nextId = s.responder.nextId)
    (ids : (q.id :: packetIds r).Sublist (packetIds s.responder)) :
    ActInv { s with responder := r, action_queue := s.action_queue ++ [MdnsAction.txHandle q] } := by
  have queue : queuedFor { s with responder := r, action_queue := s.action_queue ++ [MdnsAction.txHandle q] } =
      queuedFor s ++ [MdnsAction.txHandle q] := (List.append_assoc _ _ _).symm
  refine ⟨inv.live, ?_, ?_, inv.calls, ?_, inv.holders, inv.plain⟩
  · rw [queue, List.filterMap_append, same]
    refine (inv.tx.sublist (ids.append_right _)).perm ?_
    show ([q.id] ++ (packetIds r ++ (queuedFor s).filterMap packet?)).Perm
      (packetIds r ++ ((queuedFor s).filterMap packet? ++ [q.id]))
    rw [← List.append_assoc (packetIds r)]
    exact List.perm_append_comm
  · intro b member ptr its
    rw [queue] at member
    rcases List.mem_append.mp member with old | new
    · exact inv.actions b old ptr its
    · cases List.mem_singleton.mp new
      cases its
  · rw [queue]
    exact inv.searches.append rfl rfl

theorem ActInv.schedulerRun {p : TxPacket} {memory : Bool} {seen : Bool × List TxPacket} (inv : ActInv s)
    (there : p.id ∈ packetIds s.responder) : ActInv (s.mdnsSchedulerRun p memory seen) := by
  have rest := List.dropWhile_sublist (fun q : TxPacket => decide (q.id ≠ p.id)) (l := s.responder.tx_queue)
  unfold MdnsState.mdnsSchedulerRun
  dsimp only
  split
  · rename_i q later found
    rw [found] at rest
    have ids := rest.map TxPacket.id
    split
    · split
      · exact inv.handOver rfl ids
      · exact { inv with tx := inv.tx.sublist (ids.append_right _) }
    · exact inv
  · rename_i empty
    have all := List.dropWhile_eq_nil_iff.mp empty
    obtain ⟨q, member, is⟩ := List.mem_map.mp there
    exact absurd is (of_decide_eq_true (all q member))

theorem searchRunFrom_queue (now : Nat) (noMemory : List Nat) (searches : List Search) (queue : List MdnsAction) :
    ∃ more, (searchRunFrom now noMemory searches queue).2 = queue ++ more ∧
      ∀ a ∈ more, a.service? = none ∧ packet? a = none := by
  induction searches generalizing queue with
  | nil => exact ⟨[], (List.append_nil _).symm, fun _ member => absurd member List.not_mem_nil⟩
  | cons x rest ih =>
      have one (taken : Bool) : ∀ a ∈ (x.turn now taken).2.toList, a.service? = none ∧ packet? a = none := by
        intro a member
        rcases turn_action x now taken with is | is | is
        · rw [is] at member
          cases member
        · rw [is] at member
          cases List.mem_singleton.mp member
          exact ⟨rfl, rfl⟩
        · rw [is] at member
          cases List.mem_singleton.mp member
          exact ⟨rfl, rfl⟩
      rw [searchRunFrom]
      obtain ⟨more, is, plain⟩ := ih (queue ++
        (x.turn now (x.id ∉ noMemory ∧ queue.length < MDNS_ACTION_QUEUE_LEN)).2.toList)
      refine ⟨_, is.trans (List.append_assoc _ _ _), fun a member => ?_⟩
      rcases List.mem_append.mp member with first | later
      · exact one _ a first
      · exact plain a later

theorem ActInv.searchRun {noMemory : List Nat} (inv : ActInv s) :
    ActInv { s with
      search_once := (searchRunFrom s.responder.now noMemory s.search_once s.action_queue).1
      action_queue := (searchRunFrom s.responder.now noMemory s.search_once s.action_queue).2 } := by
  have searches := inv.searches.run (t := s.responder.now) (m := noMemory) s.search_once [] s.action_queue
  obtain ⟨more, is, plain⟩ := searchRunFrom_queue s.responder.now noMemory s.search_once s.action_queue
  have noPackets : more.filterMap packet? = [] := List.filterMap_eq_nil_iff.mpr fun a member => (plain a member).2
  refine ⟨inv.live, ?_, ?_, inv.calls, searches, inv.holders, inv.plain⟩
  · unfold queuedFor
    rw [is, ← List.append_assoc, List.filterMap_append, noPackets, List.append_nil]
    exact inv.tx
  · intro a member ptr its
    unfold queuedFor at member
    rw [is, ← List.append_assoc] at member
    rcases List.mem_append.mp member with old | new
    · exact inv.actions a old ptr its
    · cases (plain a new).1.symm.trans its

theorem ActInv.event {e : ActEvent n} {s' : MdnsState n} (inv : ActInv s) (safe : e.Safe s) (ran : e.run s = some s') :
    ActInv s' := by
  cases e with
  | addService i service proto =>
      rw [ActEvent.run] at ran
      split at ran
      · cases ran
      · cases ran
        exact inv.goto (q := .send _) (Nat.le_succ _) (fun _ refers => by cases refers) (.inr ⟨_, rfl, rfl, rfl, rfl⟩)
  | setService i setter service proto =>
      exact inv.look (f := .serviceSet setter) (fun _ => rfl) (fun _ => ⟨rfl, rfl, rfl⟩) ran
  | removeService i service proto => exact inv.look (f := .serviceDel) (fun _ => rfl) (fun _ => ⟨rfl, rfl, rfl⟩) ran
  | removeAll i =>
      rw [ActEvent.run] at ran
      split at ran
      · cases ran
      · split at ran
        · cases ran
          exact inv
        · cases ran
          exact inv.goto (q := .send .servicesClear) (Nat.le_refl _) (fun _ refers => by cases refers)
            (.inr ⟨_, rfl, rfl, rfl, rfl⟩)
  | query i timeout max_results =>
      rw [ActEvent.run] at ran
      split at ran
      · cases ran
      · split at ran
        · cases ran
          exact inv
        · cases ran
          exact inv.query rfl
  | queryDone i =>
      rw [ActEvent.run] at ran
      split at ran
      · rename_i x waits
        split at ran
        · cases ran
          exact inv.freeSearch (congrArg asked? waits)
        · cases ran
      · cases ran
  | send i memory => exact inv.send ran
  | post a =>
      have posted (plain : PlainAction a) (none_ : a.service? = none)
          (ran : (if s.action_queue.length < MDNS_ACTION_QUEUE_LEN then
            some { s with action_queue := s.action_queue ++ [a] } else some s) = some s') : ActInv s' := by
        split at ran
        · cases ran
          exact inv.append plain fun ptr its => by cases none_.symm.trans its
        · cases ran
          exact inv
      cases a with
      | systemEvent | hostnameSet | instanceSet | rxHandle => exact posted ⟨rfl, rfl, rfl⟩ rfl ran
      | serviceAdd | serviceSet | serviceDel | servicesClear | searchAdd | searchSend | searchEnd | txHandle => cases ran
  | tick ms =>
      cases ran
      exact { inv with tx := inv.tx }
  | timerRead =>
      rw [ActEvent.run] at ran
      split at ran
      · cases ran
        exact { inv with tx := inv.tx }
      · cases ran
  | timerLocked memory seen =>
      rw [ActEvent.run] at ran
      split at ran
      · cases ran
      · rename_i p read
        cases ran
        have unlocked : ActInv { s with timer := none } := { inv with tx := inv.tx }
        exact unlocked.schedulerRun (safe p read)
  | searchRun noMemory =>
      rw [ActEvent.run] at ran
      split at ran
      · cases ran
        exact inv.searchRun
      · cases ran
  | receive =>
      rw [ActEvent.run] at ran
      split at ran
      · rename_i a rest none_ queue
        cases ran
        have same : queuedFor { s with received := some a, action_queue := rest } = queuedFor s := by
          unfold queuedFor
          rw [none_, queue]
          rfl
        exact ⟨inv.live, same ▸ inv.tx, same ▸ inv.actions, inv.calls, same ▸ inv.searches, inv.holders, inv.plain⟩
      · cases ran
  | execute ops memory found authoritative =>
      rw [ActEvent.run] at ran
      split at ran
      · rename_i a received
        cases ran
        exact inv.execute received (safe a received)
      · cases ran

end

theorem startActions_inv (n : Nat) : ActInv (MdnsState.start n Responder.start) where
  live := rfl
  tx := ⟨List.nodup_nil, nofun, List.nodup_nil, nofun, nofun⟩
  actions := nofun
  calls := nofun
  searches := ⟨⟨List.nodup_nil, nofun⟩, nofun, nofun, List.Pairwise.nil⟩
  holders := ⟨nofun, nofun, List.nodup_nil, nofun⟩
  plain := nofun

/-- Actions touch only what is there and nothing is freed twice, in every run in which nothing is removed that
something else refers to and the timer finds the packet it has read. -/
theorem actions_touch_live (n : Nat) (events : List (ActEvent n)) (s : MdnsState n)
    (run : runActions events (MdnsState.start n Responder.start) = some s)
    (safe : EachStep ActEvent.run ActEvent.Safe events (MdnsState.start n Responder.start)) : LiveOk s :=
  (runSteps_keeps (fun _ _ _ inv safe ran => ActInv.event inv safe ran) (startActions_inv n) safe run).ok

def executed (ops : List MdnsOp) : List (ActEvent 1) := [.send 0 true, .receive, .execute ops true [] false]

def addHttpService : List (ActEvent 1) :=
  .addService 0 [95, 104, 116, 116, 112] [95, 116, 99, 112] :: executed []

def setHttpPort : ActEvent 1 := .setService 0 .portSet [95, 104, 116, 116, 112] [95, 116, 99, 112]

def removeHttp : ActEvent 1 := .removeService 0 [95, 104, 116, 116, 112] [95, 116, 99, 112]

def oneAfterTheOther : List (ActEvent 1) :=
  [.post .hostnameSet, .receive, .execute [.setHostname, .pcbInit ⟨.sta, .v4⟩] true [] false] ++ addHttpService ++
    setHttpPort :: executed [.initPcbProbe ⟨.sta, .v4⟩ [0] true 0 .all] ++
    [.tick 200, .timerRead, .timerLocked true (false, []), .receive, .execute [] true [] false] ++
    removeHttp :: executed [.removeService 0] ++
    .query 0 100 1 :: executed [] ++
    [.searchRun [], .receive, .execute [] true [] false, .tick 200, .searchRun [], .receive,
      .execute [] true [] false, .queryDone 0]

theorem actions_touch_live_oneAfterTheOther :
    EachStep ActEvent.run ActEvent.Safe oneAfterTheOther (MdnsState.start 1 Responder.start) ∧
      ∃ s, runActions oneAfterTheOther (MdnsState.start 1 Responder.start) = some s ∧ s.freedSearches = [1] ∧ LiveOk s := by
  have safe : EachStep ActEvent.run ActEvent.Safe oneAfterTheOther (MdnsState.start 1 Responder.start) := by
    decide
  have some_ : (runActions oneAfterTheOther (MdnsState.start 1 Responder.start)).isSome := by decide
  have run := (Option.some_get some_).symm
  refine ⟨safe, _, run, ?_, actions_touch_live 1 oneAfterTheOther _ run safe⟩
  clear run
  revert some_
  decide

def setWhileRemoving : List (ActEvent 1) :=
  addHttpService ++ [removeHttp, .send 0 true, setHttpPort, .send 0 true, .receive, .execute [] true [] false, .receive,
    .execute [] true [] false]

theorem removed_service_set :
    ∃ s, runActions setWhileRemoving (MdnsState.start 1 Responder.start) = some s ∧ ¬ LiveOk s := by
  have some_ : (runActions setWhileRemoving (MdnsState.start 1 Responder.start)).isSome := by decide
  refine ⟨_, (Option.some_get some_).symm, ?_⟩
  intro ok
  have live := ok.live
  clear ok
  revert some_
  decide

end EspFirmware.Proof.Mdns
