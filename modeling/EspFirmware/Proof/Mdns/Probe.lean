import EspFirmware.Spec.Mdns

/-!
Names are probed three times before they are announced, in every run in which no probe begins on an interface of which
a packet has been handed over and not been handled.
-/

namespace EspFirmware.Proof.Mdns
open EspFirmware.Lib EspFirmware.Mdns EspFirmware.Spec Responder

def probesSent : PcbState → Option Nat
  | .probe1 => some 0
  | .probe2 => some 1
  | .probe3 => some 2
  | _ => none

def tag (p : TxPacket) : Nat × Key × Nat := (p.id, p.key, p.dispatched)

/-- A probing interface has no packet in flight but its latest probe. -/
structure FlightOk (packets : List TxPacket) (nextId : Nat) (pcbs : Key → Pcb) : Prop where
  ids : (packets.map TxPacket.id).Nodup
  below : ∀ p ∈ packets, p.id < nextId
  probing : ∀ p ∈ packets, ∀ n, probesSent (pcbs p.key).state = some n → (pcbs p.key).probe = some p.id ∧ n ≤ p.dispatched

section
variable {packets packets' : List TxPacket} {nextId nextId' : Nat} {pcbs pcbs' : Key → Pcb} {p : TxPacket}

theorem FlightOk.perm (ok : FlightOk packets nextId pcbs) (same : packets.Perm packets') :
    FlightOk packets' nextId pcbs where
  ids := (same.map TxPacket.id).nodup_iff.mp ok.ids
  below p member := ok.below p (same.mem_iff.mpr member)
  probing p member := ok.probing p (same.mem_iff.mpr member)

theorem FlightOk.cons (ok : FlightOk packets nextId pcbs) (fresh : ∀ q ∈ packets, q.id ≠ p.id) (below : p.id < nextId)
    (probing : ∀ n, probesSent (pcbs p.key).state = some n → (pcbs p.key).probe = some p.id ∧ n ≤ p.dispatched) :
    FlightOk (p :: packets) nextId pcbs where
  ids := by
    rw [List.map_cons, List.nodup_cons]
    refine ⟨?_, ok.ids⟩
    intro member
    obtain ⟨q, there, same⟩ := List.mem_map.mp member
    exact fresh q there same
  below q member := by
    rcases List.mem_cons.mp member with rfl | later
    · exact below
    · exact ok.below q later
  probing q member := by
    rcases List.mem_cons.mp member with rfl | later
    · exact probing
    · exact ok.probing q later

theorem FlightOk.mono (ok : FlightOk packets nextId pcbs) (fewer : (packets'.map tag).Sublist (packets.map tag))
    (more : nextId ≤ nextId')
    (states : ∀ k, probesSent (pcbs' k).state = none ∨
      probesSent (pcbs' k).state = probesSent (pcbs k).state ∧ (pcbs' k).probe = (pcbs k).probe) :
    FlightOk packets' nextId' pcbs' := by
  have old {q : TxPacket} (member : q ∈ packets') :
      ∃ p ∈ packets, p.id = q.id ∧ p.key = q.key ∧ p.dispatched = q.dispatched := by
    obtain ⟨p, there, same⟩ := List.mem_map.mp (fewer.subset (List.mem_map_of_mem member))
    unfold tag at same
    simp only [Prod.mk.injEq] at same
    exact ⟨p, there, same⟩
  refine ⟨?_, ?_, ?_⟩
  · have ids := fewer.map Prod.fst
    rw [List.map_map, List.map_map] at ids
    exact ok.ids.sublist ids
  · intro q member
    obtain ⟨p, there, id, -⟩ := old member
    have := ok.below p there
    omega
  · intro q member n sent
    obtain ⟨p, there, id, key, dispatched⟩ := old member
    rcases states q.key with none_ | ⟨same, probe⟩
    · rw [none_] at sent
      cases sent
    · rw [same, ← key] at sent
      rw [probe, ← id, ← key, ← dispatched]
      exact ok.probing p there n sent

theorem insertPacket_perm (p : TxPacket) (queue : List TxPacket) : (p :: queue).Perm (insertPacket p queue) := by
  induction queue with
  | nil => exact .refl _
  | cons q rest ih =>
      rw [insertPacket]
      split
      · exact .refl _
      · exact (List.Perm.swap q p rest).trans (ih.cons q)

end

def inFlight (r : Responder) : List TxPacket := r.tx_queue ++ r.handed

structure ProbeInv (r : Responder) : Prop where
  flight : FlightOk (inFlight r) r.nextId r.pcbs
  ok : r.ProbedThrice

structure Quieter (r r' : Responder) : Prop where
  queue : (r'.tx_queue.map tag).Sublist (r.tx_queue.map tag)
  handed : r'.handed = r.handed
  nextId : r'.nextId = r.nextId
  announced : r'.announced = r.announced
  states : ∀ k, probesSent (r'.pcbs k).state = none ∨
    probesSent (r'.pcbs k).state = probesSent (r.pcbs k).state ∧ (r'.pcbs k).probe = (r.pcbs k).probe

section
variable {r r' : Responder} {k : Key}

theorem Quieter.inv (quieter : Quieter r r') (inv : ProbeInv r) : ProbeInv r' := by
  refine ⟨inv.flight.mono ?_ (Nat.le_of_eq quieter.nextId.symm) quieter.states, ?_⟩
  · unfold inFlight
    rw [List.map_append, List.map_append, quieter.handed]
    exact quieter.queue.append (List.Sublist.refl _)
  · unfold ProbedThrice
    rw [quieter.announced]
    exact inv.ok

theorem setPcb_self (r : Responder) (k : Key) (pcb : Pcb) : (r.setPcb k pcb).pcbs k = pcb := if_pos rfl

theorem setPcb_other {pcb : Pcb} {j : Key} (other : j ≠ k) : (r.setPcb k pcb).pcbs j = r.pcbs j := if_neg other

theorem states_setPcb {pcb : Pcb} (change : probesSent pcb.state = none ∨
    probesSent pcb.state = probesSent (r.pcbs k).state ∧ pcb.probe = (r.pcbs k).probe) (j : Key) :
    probesSent ((r.setPcb k pcb).pcbs j).state = none ∨
      probesSent ((r.setPcb k pcb).pcbs j).state = probesSent (r.pcbs j).state ∧
        ((r.setPcb k pcb).pcbs j).probe = (r.pcbs j).probe := by
  by_cases this : j = k
  · rw [this, setPcb_self]
    exact change
  · rw [setPcb_other this]
    exact .inr ⟨rfl, rfl⟩

theorem keepPcb_inv {b : Pcb} (inv : ProbeInv r) (change : probesSent b.state = none ∨
    probesSent b.state = probesSent (r.pcbs k).state ∧ b.probe = (r.pcbs k).probe) : ProbeInv (r.setPcb k b) :=
  Quieter.inv (r := r) ⟨List.Sublist.refl _, rfl, rfl, rfl, states_setPcb change⟩ inv

theorem quieter_clearPcb (r : Responder) (k : Key) : Quieter r (r.mdnsClearPcbTxQueueHead k) :=
  ⟨List.filter_sublist.map tag, rfl, rfl, rfl, fun _ => .inr ⟨rfl, rfl⟩⟩

theorem tag_updateFirst (f : TxPacket → TxPacket) (same : ∀ q, tag (f q) = tag q) (queue : List TxPacket) :
    (updateFirst k f queue).map tag = queue.map tag := by
  induction queue with
  | nil => rfl
  | cons q rest ih =>
      rw [updateFirst]
      split
      · rw [List.map_cons, List.map_cons, same]
      · rw [List.map_cons, List.map_cons, ih]

theorem dropFromPacket_tag (service : Nat) (pcb : Pcb) (q : TxPacket) :
    tag (dropFromPacket service pcb q).2 = tag q ∧
      (probesSent (dropFromPacket service pcb q).1.state = none ∨
        (dropFromPacket service pcb q).1.state = pcb.state) ∧ (dropFromPacket service pcb q).1.probe = pcb.probe := by
  unfold dropFromPacket
  dsimp only
  split
  · exact ⟨rfl, .inr rfl, rfl⟩
  · split
    · split
      · refine ⟨rfl, ?_⟩
        dsimp only
        split
        · exact ⟨.inr rfl, rfl⟩
        · split
          · exact ⟨.inr rfl, rfl⟩
          · exact ⟨.inl rfl, rfl⟩
      · exact ⟨rfl, .inr rfl, rfl⟩
    · split
      · exact ⟨rfl, .inl rfl, rfl⟩
      · exact ⟨rfl, .inr rfl, rfl⟩

theorem dropFromQueue_spec (service : Nat) (queue : List TxPacket) (pcbs : Key → Pcb) :
    ((dropFromQueue service queue pcbs).2.map tag).Sublist (queue.map tag) ∧
      ∀ k, probesSent ((dropFromQueue service queue pcbs).1 k).state = none ∨
        probesSent ((dropFromQueue service queue pcbs).1 k).state = probesSent (pcbs k).state ∧
          ((dropFromQueue service queue pcbs).1 k).probe = (pcbs k).probe := by
  induction queue generalizing pcbs with
  | nil => exact ⟨List.Sublist.refl _, fun _ => .inr ⟨rfl, rfl⟩⟩
  | cons q rest ih =>
      obtain ⟨same, state, probe⟩ := dropFromPacket_tag service (pcbs q.key) q
      obtain ⟨fewer, states⟩ := ih fun j => if j = q.key then (dropFromPacket service (pcbs q.key) q).1 else pcbs j
      rw [dropFromQueue]
      refine ⟨?_, fun k => ?_⟩
      · dsimp only
        split
        · exact fewer.trans (List.sublist_cons_self _ _)
        · rw [List.map_cons, List.map_cons, same]
          exact fewer.cons_cons _
      · rcases states k with none_ | ⟨sent, latest⟩
        · exact .inl none_
        · by_cases this : k = q.key
          · subst this
            rw [if_pos rfl] at sent latest
            rcases state with none_ | kept
            · exact .inl (sent.trans none_)
            · rw [kept] at sent
              exact .inr ⟨sent, latest.trans probe⟩
          · rw [if_neg this] at sent latest
            exact .inr ⟨sent, latest⟩

theorem schedule_inv {p : TxPacket} {ms_after : Nat} (flight : FlightOk (inFlight r) r.nextId r.pcbs)
    (ok : r.ProbedThrice) (fresh : ∀ q ∈ inFlight r, q.id ≠ p.id) (below : p.id < r.nextId)
    (probing : ∀ n, probesSent (r.pcbs p.key).state = some n → (r.pcbs p.key).probe = some p.id ∧ n ≤ p.dispatched) :
    ProbeInv (r.mdnsScheduleTxPacket p ms_after) := by
  refine ⟨?_, ok⟩
  have added := flight.cons (p := { p with send_at := r.now + ms_after }) fresh below probing
  exact added.perm ((insertPacket_perm _ r.tx_queue).append_right r.handed)

theorem FlightOk.idle {packets : List TxPacket} {nextId : Nat} {pcbs pcbs' : Key → Pcb}
    (ok : FlightOk packets nextId pcbs) (idle : ∀ p ∈ packets, p.key ≠ k) (others : ∀ j, j ≠ k → pcbs' j = pcbs j) :
    FlightOk packets nextId pcbs' where
  ids := ok.ids
  below := ok.below
  probing p member := by
    rw [others p.key (idle p member)]
    exact ok.probing p member

theorem idle_clearPcb (none_ : r.NoneHanded k) : ∀ p ∈ inFlight (r.mdnsClearPcbTxQueueHead k), p.key ≠ k := by
  intro p member
  rcases List.mem_append.mp member with waiting | gone
  · have other := (List.mem_filter.mp waiting).2
    exact of_decide_eq_true other
  · exact none_ p gone

theorem setPcb_inv {pcb : Pcb} (inv : ProbeInv r) (idle : ∀ p ∈ inFlight r, p.key ≠ k) : ProbeInv (r.setPcb k pcb) :=
  ⟨inv.flight.idle idle fun _ other => setPcb_other other, inv.ok⟩

theorem createProbePacket_id (r : Responder) (k : Key) (services : List Nat) (include_ip : Bool) :
    (r.mdnsCreateProbePacket k services include_ip).id = r.nextId ∧
      (r.mdnsCreateProbePacket k services include_ip).key = k := by
  have kept (services : List Nat) (packet : TxPacket) :
      let made := services.foldl (fun (packet : TxPacket) service =>
        { packet with
          questions := if some service ∈ packet.questions then packet.questions else packet.questions ++ [some service]
          servers := mdnsAllocAnswer packet.servers .srv (some service) false }) packet
      made.id = packet.id ∧ made.key = packet.key := by
    induction services generalizing packet with
    | nil => exact ⟨rfl, rfl⟩
    | cons service rest ih => exact ih _
  have made := kept services (r.mdnsAllocPacketDefault k)
  unfold mdnsCreateProbePacket
  dsimp only at made ⊢
  split
  · exact made
  · exact made

theorem initPcbProbe_inv {services : List Nat} {probe_ip : Bool} {random : Nat} {memory : ProbeMemory}
    (inv : ProbeInv r) (none_ : r.NoneHanded k) : ProbeInv (r.mdnsInitPcbProbe k services probe_ip random memory) := by
  have cleared : ProbeInv (r.mdnsClearPcbTxQueueHead k) := (quieter_clearPcb r k).inv inv
  have idle := idle_clearPcb none_
  unfold mdnsInitPcbProbe
  dsimp only
  split
  · exact setPcb_inv cleared idle
  · generalize (if ((r.mdnsClearPcbTxQueueHead k).pcbs k).state.isProbing = true then _ else services) = services'
    split
    · exact setPcb_inv cleared idle
    · split
      · exact setPcb_inv cleared idle
      · obtain ⟨id, key⟩ := createProbePacket_id (r.mdnsClearPcbTxQueueHead k) k services'
          (((r.mdnsClearPcbTxQueueHead k).pcbs k).probe_ip || probe_ip)
        refine schedule_inv ?_ cleared.ok ?_ ?_ ?_
        · have more := cleared.flight.mono (List.Sublist.refl _) (Nat.le_succ r.nextId)
            fun _ => .inr ⟨rfl, rfl⟩
          exact more.idle idle fun _ other => setPcb_other other
        · intro q member
          rw [id]
          exact Nat.ne_of_lt (cleared.flight.below q member)
        · rw [id]
          exact Nat.lt_succ_self _
        · intro n sent
          rw [key, setPcb_self] at sent ⊢
          cases sent
          exact ⟨rfl, Nat.zero_le _⟩

theorem scheduleNew_inv {p : TxPacket} {ms_after : Nat} (inv : ProbeInv r) (id : p.id = r.nextId)
    (quiet : probesSent (r.pcbs p.key).state = none) :
    ProbeInv ({ r with nextId := r.nextId + 1 }.mdnsScheduleTxPacket p ms_after) := by
  refine schedule_inv ?_ inv.ok ?_ ?_ ?_
  · exact inv.flight.mono (List.Sublist.refl _) (Nat.le_succ _) fun _ => .inr ⟨rfl, rfl⟩
  · intro q member
    rw [id]
    exact Nat.ne_of_lt (inv.flight.below q member)
  · rw [id]
    exact Nat.lt_succ_self _
  · intro n sent
    rw [quiet] at sent
    cases sent

theorem addAnnouncement_tag (services : List Nat) (include_ip : Bool) (q : TxPacket) :
    tag (addAnnouncement services include_ip q) = tag q := by
  unfold addAnnouncement
  dsimp only
  split
  · rfl
  · rfl

theorem announcePcb_inv {services : List Nat} {include_ip : Bool} {random : Nat} {memory : ProbeMemory}
    (inv : ProbeInv r) (none_ : (r.pcbs k).pcb = true → (r.pcbs k).state.isProbing = true → r.NoneHanded k) :
    ProbeInv (r.mdnsAnnouncePcb k services include_ip random memory) := by
  have begun : ProbeInv (r.setPcb k { r.pcbs k with state := .announce1 }) := keepPcb_inv inv (.inl rfl)
  unfold mdnsAnnouncePcb
  dsimp only
  split
  · exact inv
  · rename_i up
    split
    · rename_i probing
      exact initPcbProbe_inv inv (none_ (by simpa using up) probing)
    · split
      · split
        · have same := tag_updateFirst (k := k) (addAnnouncement services include_ip)
            (addAnnouncement_tag services include_ip) r.tx_queue
          refine Quieter.inv (r := r) ⟨?_, rfl, rfl, rfl, states_setPcb (.inl rfl)⟩ inv
          exact same ▸ List.Sublist.refl _
        · exact inv
      · split
        · split
          · exact begun
          · refine scheduleNew_inv begun rfl ?_
            exact congrArg (fun pcb : Pcb => probesSent pcb.state) (setPcb_self r k _)
        · exact inv

theorem scheduleAnswer_inv {distributed : Bool} {answers additional : List OutAnswer} {ms_after : Nat}
    (inv : ProbeInv r) : ProbeInv (r.scheduleAnswer k distributed answers additional ms_after) := by
  unfold scheduleAnswer
  cases state : (r.pcbs k).state
  case announce1 | announce2 | announce3 | running =>
    refine scheduleNew_inv inv rfl ?_
    exact congrArg probesSent state
  all_goals exact inv

theorem removeScheduledAnswer_tag (k : Key) (type : RecordType) (service : Option Nat) :
    (r.mdnsRemoveScheduledAnswer k type service).tx_queue.map tag = r.tx_queue.map tag := by
  unfold mdnsRemoveScheduledAnswer
  rw [List.map_map]
  refine List.map_congr_left fun q _ => ?_
  rw [Function.comp_apply]
  split
  · rfl
  · rfl

theorem op_inv {o : MdnsOp} (inv : ProbeInv r) (safe : o.Safe r) : ProbeInv (o.run r) := by
  cases o with
  | setHostname => exact Quieter.inv (r := r) ⟨List.Sublist.refl _, rfl, rfl, rfl, fun _ => .inr ⟨rfl, rfl⟩⟩ inv
  | clearAll => exact Quieter.inv (r := r) ⟨List.nil_sublist _, rfl, rfl, rfl, fun _ => .inr ⟨rfl, rfl⟩⟩ inv
  | clearPcb k => exact (quieter_clearPcb r k).inv inv
  | clearOldProbe k => exact keepPcb_inv inv (.inr ⟨rfl, rfl⟩)
  | initPcbProbe k services probe_ip random memory => exact initPcbProbe_inv inv safe
  | announcePcb k services include_ip random memory => exact announcePcb_inv inv safe
  | answer k distributed answers additional ms_after => exact scheduleAnswer_inv inv
  | removeAnswer k type service =>
      refine Quieter.inv (r := r) ⟨?_, rfl, rfl, rfl, fun _ => .inr ⟨rfl, rfl⟩⟩ inv
      exact removeScheduledAnswer_tag (r := r) k type service ▸ List.Sublist.refl _
  | removeService service =>
      obtain ⟨fewer, states⟩ := dropFromQueue_spec service r.tx_queue r.pcbs
      exact Quieter.inv (r := r) ⟨fewer, rfl, rfl, rfl, states⟩ inv
  | pcbInit k => exact keepPcb_inv inv (.inr ⟨rfl, rfl⟩)
  | pcbDeinit k =>
      show ProbeInv (r.mdnsPcbDeinit k)
      unfold mdnsPcbDeinit
      split
      · exact keepPcb_inv inv (.inl rfl)
      · exact inv
  | pcbOff k => exact keepPcb_inv inv (.inl rfl)
  | pcbDup k => exact keepPcb_inv inv (.inl rfl)
  | failedProbe k => exact keepPcb_inv inv (.inr ⟨rfl, rfl⟩)

end

def flushOf : RecordType → Bool
  | .ptr | .sdptr => false
  | .a | .aaaa | .srv | .txt => true

def Flushed (answers : List OutAnswer) : Prop := ∀ x ∈ answers, x.flush = flushOf x.type

section
variable {answers : List OutAnswer} {x : OutAnswer}

theorem mem_allocAnswer (flushed : Flushed answers) (type : RecordType) (service : Option Nat) :
    x ∈ mdnsAllocAnswer answers type service (flushOf type) ↔ x ∈ answers ∨ x = ⟨type, service, flushOf type⟩ := by
  unfold mdnsAllocAnswer
  split
  · rename_i found
    obtain ⟨d, member, same⟩ := List.any_eq_true.mp found
    obtain ⟨sameType, sameService⟩ := of_decide_eq_true same
    have this : d = ⟨type, service, flushOf type⟩ := by rw [← sameType, ← sameService, ← flushed d member]
    constructor
    · exact .inl
    · rintro (there | rfl)
      · exact there
      · exact this ▸ member
  · rw [List.mem_append, List.mem_singleton]

theorem flushed_allocAnswer (flushed : Flushed answers) (type : RecordType) (service : Option Nat) :
    Flushed (mdnsAllocAnswer answers type service (flushOf type)) := by
  intro x member
  rcases (mem_allocAnswer flushed type service).mp member with old | rfl
  · exact flushed x old
  · rfl

theorem mem_announceService (flushed : Flushed answers) (service : Option Nat) :
    x ∈ announceService answers service ↔ x ∈ answers ∨ x ∈ (⟨.srv, service, false⟩ : OutAnswer).announcedAs := by
  have first := flushed_allocAnswer flushed .sdptr service
  have second := flushed_allocAnswer first .ptr service
  have third := flushed_allocAnswer second .srv service
  have members := mem_allocAnswer (x := x) third .txt service
  rw [mem_allocAnswer second, mem_allocAnswer first, mem_allocAnswer flushed] at members
  refine members.trans ?_
  simp only [OutAnswer.announcedAs, List.mem_cons, List.not_mem_nil, or_false, or_assoc]
  exact Iff.rfl

theorem mem_announceServer (flushed : Flushed answers) (s : OutAnswer) :
    x ∈ announceServer answers s ↔ x ∈ answers ∨ x ∈ s.announcedAs := by
  obtain ⟨type, service, flush⟩ := s
  cases type with
  | srv => exact mem_announceService flushed service
  | a => exact (mem_allocAnswer flushed .a none).trans (or_congr_right List.mem_singleton.symm)
  | aaaa => exact (mem_allocAnswer flushed .aaaa none).trans (or_congr_right List.mem_singleton.symm)
  | ptr | sdptr | txt => exact (or_iff_left List.not_mem_nil).symm

theorem flushed_announcedAs (s : OutAnswer) : Flushed s.announcedAs := by
  obtain ⟨type, service, flush⟩ := s
  unfold Flushed OutAnswer.announcedAs
  cases type <;> simp [flushOf]

theorem mem_foldl_announceServer (servers : List OutAnswer) (flushed : Flushed answers) :
    x ∈ servers.foldl announceServer answers ↔ x ∈ answers ∨ ∃ s ∈ servers, x ∈ s.announcedAs := by
  induction servers generalizing answers with
  | nil => simp
  | cons s rest ih =>
      have flushed' : Flushed (announceServer answers s) := by
        intro y member
        rcases (mem_announceServer flushed s).mp member with old | new
        · exact flushed y old
        · exact flushed_announcedAs s y new
      rw [List.foldl_cons, ih flushed', mem_announceServer flushed]
      simp only [List.mem_cons, exists_eq_or_imp, or_assoc]

end

structure Next (r : Responder) (p : TxPacket) : Prop where
  inv : ProbeInv r
  fresh : ∀ q ∈ inFlight r, q.id ≠ p.id
  below : p.id < r.nextId
  probing : ∀ n, probesSent (r.pcbs p.key).state = some n → (r.pcbs p.key).probe = some p.id ∧ n ≤ p.dispatched

section
variable {r : Responder} {p : TxPacket} {rest : List TxPacket}

theorem ProbeInv.next (inv : ProbeInv r) (handed : r.handed = p :: rest) : Next { r with handed := rest } p := by
  have moved : (inFlight r).Perm (p :: (r.tx_queue ++ rest)) := by
    unfold inFlight
    rw [handed]
    exact List.perm_middle
  have flight := inv.flight.perm moved
  have fewer : ((r.tx_queue ++ rest).map tag).Sublist ((p :: (r.tx_queue ++ rest)).map tag) :=
    (List.sublist_cons_self _ _).map tag
  refine ⟨⟨flight.mono fewer (Nat.le_refl _) fun _ => .inr ⟨rfl, rfl⟩, inv.ok⟩, ?_, ?_, ?_⟩
  · intro q member same
    have ids := flight.ids
    rw [List.map_cons, List.nodup_cons] at ids
    exact ids.1 (same ▸ List.mem_map_of_mem member)
  · exact flight.below p List.mem_cons_self
  · exact flight.probing p List.mem_cons_self

theorem Next.idle (next : Next r p) {n : Nat} (sent : probesSent (r.pcbs p.key).state = some n) :
    ∀ q ∈ inFlight r, q.key ≠ p.key := by
  intro q member same
  have its := (next.inv.flight.probing q member n (same ▸ sent)).1
  rw [same, (next.probing n sent).1] at its
  exact next.fresh q member (Option.some.inj its).symm

theorem Next.again {c : PcbState} {ms_after : Nat} (next : Next r p)
    (goesOn : (∃ n, probesSent (r.pcbs p.key).state = some n ∧
      ∀ m, probesSent c = some m → m ≤ n + 1) ∨ probesSent c = none) :
    ProbeInv ((r.mdnsScheduleTxPacket { p with dispatched := p.dispatched + 1 } ms_after).setState p.key c) := by
  have inv : ProbeInv (r.setPcb p.key { r.pcbs p.key with state := c }) := by
    rcases goesOn with ⟨n, sent, -⟩ | quiet
    · exact setPcb_inv next.inv (next.idle sent)
    · exact keepPcb_inv next.inv (.inl quiet)
  refine schedule_inv (r := r.setPcb p.key { r.pcbs p.key with state := c }) inv.flight inv.ok next.fresh next.below ?_
  intro m sent
  rw [setPcb_self] at sent ⊢
  rcases goesOn with ⟨n, before, most⟩ | quiet
  · obtain ⟨probe, enough⟩ := next.probing n before
    exact ⟨probe, Nat.le_trans (most m sent) (Nat.succ_le_succ enough)⟩
  · rw [quiet] at sent
    cases sent

theorem Next.announced (next : Next r p) (state : (r.pcbs p.key).state = .probe3) :
    (⟨{ p with dispatched := p.dispatched + 1 }, (r.pcbs p.key).probe, p.servers.foldl announceServer []⟩ :
      Announced).Ok := by
  obtain ⟨probe, enough⟩ := next.probing 2 (congrArg probesSent state)
  refine ⟨probe, Nat.succ_le_succ enough, fun x => ?_⟩
  have nothing : Flushed [] := fun _ member => absurd member List.not_mem_nil
  exact (mem_foldl_announceServer p.servers nothing).trans (or_iff_right List.not_mem_nil)

theorem announced_inv {a : Announced} (inv : ProbeInv r) (ok : a.Ok) :
    ProbeInv { r with announced := r.announced ++ [a] } := by
  refine ⟨inv.flight, fun b member => ?_⟩
  rcases List.mem_append.mp member with old | new
  · exact inv.ok b old
  · cases List.mem_singleton.mp new
    exact ok

theorem txHandle_inv (next : Next r p) (memory : Bool) : ProbeInv (r.mdnsTxHandlePacket p memory) := by
  unfold mdnsTxHandlePacket
  dsimp only
  cases state : (r.pcbs p.key).state with
  | probe1 =>
      refine next.again (c := .probe2) (.inl ⟨0, congrArg probesSent state, fun m is => ?_⟩)
      cases is
      exact Nat.le_refl _
  | probe2 =>
      refine next.again (c := .probe3) (.inl ⟨1, congrArg probesSent state, fun m is => ?_⟩)
      cases is
      exact Nat.le_refl _
  | probe3 =>
      cases memory with
      | false =>
          refine schedule_inv (p := { p with dispatched := p.dispatched + 1 }) next.inv.flight next.inv.ok next.fresh
            next.below fun n probing => ?_
          obtain ⟨probe, enough⟩ := next.probing n probing
          exact ⟨probe, Nat.le_succ_of_le enough⟩
      | true =>
          have recorded := announced_inv next.inv (next.announced state)
          have begun := keepPcb_inv (k := p.key)
            (b := ⟨.announce1, (r.pcbs p.key).pcb, [], false, false, 0, (r.pcbs p.key).probe⟩) recorded (.inl rfl)
          refine scheduleNew_inv (p := r.mdnsCreateAnnounceFromProbe p) begun rfl ?_
          exact congrArg (fun pcb : Pcb => probesSent pcb.state) (setPcb_self r p.key _)
  | announce1 => exact next.again (c := .announce2) (.inr rfl)
  | announce2 => exact next.again (c := .announce3) (.inr rfl)
  | announce3 => exact keepPcb_inv (b := { r.pcbs p.key with state := .running }) next.inv (.inl rfl)
  | off | dup | init | running => exact next.inv

theorem scheduler_inv (inv : ProbeInv r) (sent : Bool) : ProbeInv (r.mdnsSchedulerRun sent) := by
  unfold mdnsSchedulerRun
  split
  · exact inv
  · rename_i p rest queue
    split
    · refine ⟨inv.flight.perm ?_, inv.ok⟩
      unfold inFlight
      rw [queue]
      have moved : (p :: (rest ++ r.handed)).Perm ((rest ++ r.handed) ++ [p]) :=
        @List.perm_append_comm _ [p] _
      rw [List.append_assoc] at moved
      exact moved
    · exact inv

theorem event_inv {r' : Responder} {e : MdnsEvent} (inv : ProbeInv r) (safe : e.Safe r) (ran : e.run r = some r') :
    ProbeInv r' := by
  cases e with
  | op o =>
      cases ran
      exact op_inv inv safe
  | tick ms =>
      cases ran
      exact ⟨inv.flight, inv.ok⟩
  | scheduler sent =>
      cases ran
      exact scheduler_inv inv sent
  | txHandle memory =>
      rw [MdnsEvent.run] at ran
      split at ran
      · cases ran
      · rename_i p rest handed
        cases ran
        exact txHandle_inv (inv.next handed) memory

end

theorem start_inv : ProbeInv Responder.start :=
  ⟨⟨List.nodup_nil, fun _ member => absurd member List.not_mem_nil, fun _ member => absurd member List.not_mem_nil⟩,
    fun _ member => absurd member List.not_mem_nil⟩

def probing (sta : Key) : List MdnsEvent :=
  [.op .setHostname, .op (.pcbInit sta), .op (.initPcbProbe sta [7] true 0 .all), .tick 200, .scheduler true]

def handled : List MdnsEvent := [.txHandle true, .tick 300, .scheduler true]

/-- The host is renamed while the first probe is on its way: the packet that was handed over is sent twice and the new
probe once, and the names of the old one are announced. -/
def renamedWhileProbing : List MdnsEvent :=
  probing ⟨.sta, .v4⟩ ++
    [.op .clearAll, .op (.clearOldProbe ⟨.sta, .v4⟩), .op (.initPcbProbe ⟨.sta, .v4⟩ [7] true 0 .all)] ++
    handled ++ handled ++ handled

end EspFirmware.Proof.Mdns
