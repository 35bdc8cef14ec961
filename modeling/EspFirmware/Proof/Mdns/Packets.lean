import EspFirmware.Spec.Mdns
import EspFirmware.Proof.Mdns.Probe

/-!
The packets that are queued, handed over and freed: nothing that is freed comes back.
-/

namespace EspFirmware.Proof.Mdns
open EspFirmware.Lib EspFirmware.Mdns EspFirmware.Spec Responder MdnsState

structure NewIds (before : List Nat) (nextId : Nat) (r' : Responder) : Prop where
  more : nextId ≤ r'.nextId
  nodup : (packetIds r').Nodup
  below : ∀ id ∈ packetIds r', id < r'.nextId
  known : ∀ id ∈ packetIds r', id ∈ before ∨ nextId ≤ id

section
variable {r r' : Responder} {before : List Nat} {nextId : Nat} {k : Key}

theorem NewIds.refl (nodup : (packetIds r).Nodup) (below : ∀ id ∈ packetIds r, id < r.nextId) :
    NewIds (packetIds r) r.nextId r :=
  ⟨Nat.le_refl _, nodup, below, fun _ => .inl⟩

theorem NewIds.fewer (new : NewIds before nextId r) (queue : (packetIds r').Sublist (packetIds r))
    (same : r'.nextId = r.nextId) : NewIds before nextId r' where
  more := same ▸ new.more
  nodup := new.nodup.sublist queue
  below id member := same ▸ new.below id (queue.subset member)
  known id member := new.known id (queue.subset member)

theorem packetIds_schedule (p : TxPacket) (ms_after : Nat) :
    (p.id :: packetIds r).Perm (packetIds (r.mdnsScheduleTxPacket p ms_after)) :=
  (insertPacket_perm { p with send_at := r.now + ms_after } r.tx_queue).map TxPacket.id

theorem NewIds.schedule {p : TxPacket} {ms_after : Nat} (new : NewIds before nextId r) (fresh : p.id ∉ packetIds r)
    (below : p.id < r.nextId) (known : p.id ∈ before ∨ nextId ≤ p.id) :
    NewIds before nextId (r.mdnsScheduleTxPacket p ms_after) := by
  have perm := packetIds_schedule (r := r) p ms_after
  refine ⟨new.more, perm.nodup_iff.mp (List.nodup_cons.mpr ⟨fresh, new.nodup⟩), ?_, ?_⟩
  · intro id member
    rcases List.mem_cons.mp (perm.mem_iff.mpr member) with rfl | old
    · exact below
    · exact new.below id old
  · intro id member
    rcases List.mem_cons.mp (perm.mem_iff.mpr member) with rfl | old
    · exact known
    · exact new.known id old

theorem NewIds.scheduleNew {p : TxPacket} {ms_after : Nat} (new : NewIds before nextId r)
    (queue : r'.tx_queue = r.tx_queue) (next : r'.nextId = r.nextId + 1) (id : p.id = r.nextId) :
    NewIds before nextId (r'.mdnsScheduleTxPacket p ms_after) := by
  have same : packetIds r' = packetIds r := congrArg (List.map TxPacket.id) queue
  have more : NewIds before nextId r' := by
    refine ⟨?_, same ▸ new.nodup, fun id member => ?_, same ▸ new.known⟩
    · rw [next]
      exact Nat.le_succ_of_le new.more
    · rw [next]
      exact Nat.lt_succ_of_lt (new.below id (same ▸ member))
  refine more.schedule ?_ ?_ ?_
  · rw [id, same]
    exact fun member => Nat.lt_irrefl _ (new.below _ member)
  · rw [id, next]
    exact Nat.lt_succ_self _
  · rw [id]
    exact .inr new.more

theorem NewIds.clearPcb (new : NewIds before nextId r) : NewIds before nextId (r.mdnsClearPcbTxQueueHead k) :=
  new.fewer (List.filter_sublist.map TxPacket.id) rfl

theorem NewIds.initPcbProbe {services : List Nat} {probe_ip : Bool} {random : Nat} {memory : ProbeMemory}
    (new : NewIds before nextId r) : NewIds before nextId (r.mdnsInitPcbProbe k services probe_ip random memory) := by
  have cleared := new.clearPcb (k := k)
  unfold mdnsInitPcbProbe
  dsimp only
  split
  · exact cleared.fewer (List.Sublist.refl _) rfl
  · generalize (if ((r.mdnsClearPcbTxQueueHead k).pcbs k).state.isProbing = true then _ else services) = services'
    split
    · exact cleared.fewer (List.Sublist.refl _) rfl
    · split
      · exact cleared.fewer (List.Sublist.refl _) rfl
      · exact cleared.scheduleNew rfl rfl (createProbePacket_id _ _ _ _).1

theorem ids_of_tags {queue queue' : List TxPacket} (tags : (queue'.map tag).Sublist (queue.map tag)) :
    (queue'.map TxPacket.id).Sublist (queue.map TxPacket.id) := by
  have ids := tags.map Prod.fst
  rw [List.map_map, List.map_map] at ids
  exact ids

theorem NewIds.announcePcb {services : List Nat} {include_ip : Bool} {random : Nat} {memory : ProbeMemory}
    (new : NewIds before nextId r) : NewIds before nextId (r.mdnsAnnouncePcb k services include_ip random memory) := by
  have begun : NewIds before nextId (r.setPcb k { r.pcbs k with state := .announce1 }) :=
    new.fewer (List.Sublist.refl _) rfl
  unfold mdnsAnnouncePcb
  dsimp only
  split
  · exact new
  · split
    · exact new.initPcbProbe
    · split
      · split
        · have same := tag_updateFirst (k := k) (addAnnouncement services include_ip)
            (addAnnouncement_tag services include_ip) r.tx_queue
          exact new.fewer (ids_of_tags (same ▸ List.Sublist.refl _)) rfl
        · exact new
      · split
        · split
          · exact begun
          · exact begun.scheduleNew rfl rfl rfl
        · exact new

theorem NewIds.op (new : NewIds before nextId r) (o : MdnsOp) : NewIds before nextId (o.run r) := by
  cases o with
  | clearAll => exact new.fewer (List.nil_sublist _) rfl
  | clearPcb k => exact new.clearPcb
  | initPcbProbe k services probe_ip random memory => exact new.initPcbProbe
  | announcePcb k services include_ip random memory => exact new.announcePcb
  | answer k distributed answers additional ms_after =>
      show NewIds before nextId (r.scheduleAnswer k distributed answers additional ms_after)
      unfold scheduleAnswer
      split
      · exact new.scheduleNew rfl rfl rfl
      · exact new.scheduleNew rfl rfl rfl
      · exact new.scheduleNew rfl rfl rfl
      · exact new.scheduleNew rfl rfl rfl
      · exact new
  | removeAnswer k type service =>
      exact new.fewer (ids_of_tags (removeScheduledAnswer_tag (r := r) k type service ▸ List.Sublist.refl _)) rfl
  | removeService service => exact new.fewer (ids_of_tags (dropFromQueue_spec service r.tx_queue r.pcbs).1) rfl
  | pcbDeinit k =>
      show NewIds before nextId (r.mdnsPcbDeinit k)
      unfold mdnsPcbDeinit
      split
      · exact new.fewer (List.Sublist.refl _) rfl
      · exact new
  | setHostname | clearOldProbe | pcbInit | pcbOff | pcbDup | failedProbe => exact new.fewer (List.Sublist.refl _) rfl

theorem newIds_txHandle {p : TxPacket} {m : Bool} (nodup : (packetIds r).Nodup)
    (below : ∀ id ∈ packetIds r, id < r.nextId) (fresh : p.id ∉ packetIds r) (made : p.id < r.nextId) :
    NewIds (p.id :: packetIds r) r.nextId (r.mdnsTxHandlePacket p m) := by
  have new : NewIds (p.id :: packetIds r) r.nextId r :=
    ⟨Nat.le_refl _, nodup, below, fun _ member => .inl (List.mem_cons_of_mem _ member)⟩
  have again (ms_after : Nat) :
      NewIds (p.id :: packetIds r) r.nextId
        (r.mdnsScheduleTxPacket { p with dispatched := p.dispatched + 1 } ms_after) :=
    new.schedule fresh made (.inl List.mem_cons_self)
  unfold mdnsTxHandlePacket
  dsimp only
  cases (r.pcbs p.key).state with
  | probe1 => exact (again 250).fewer (List.Sublist.refl _) rfl
  | probe2 => exact (again 250).fewer (List.Sublist.refl _) rfl
  | probe3 =>
      cases m with
      | false => exact again 250
      | true => exact new.scheduleNew (p := r.mdnsCreateAnnounceFromProbe p) rfl rfl rfl
  | announce1 => exact (again 1000).fewer (List.Sublist.refl _) rfl
  | announce2 => exact (again 1000).fewer (List.Sublist.refl _) rfl
  | announce3 => exact new.fewer (List.Sublist.refl _) rfl
  | off | dup | init | running => exact new

end

structure TxInv (queued handed freed : List Nat) (nextId : Nat) : Prop where
  nodup : (queued ++ handed).Nodup
  below : ∀ id ∈ queued ++ handed, id < nextId
  freedNodup : freed.Nodup
  freedBelow : ∀ id ∈ freed, id < nextId
  apart : ∀ id ∈ freed, id ∉ queued ++ handed

section
variable {queued handed freed : List Nat} {nextId : Nat} {r' : Responder}

theorem TxInv.perm {queued' handed' : List Nat} (inv : TxInv queued handed freed nextId)
    (same : (queued ++ handed).Perm (queued' ++ handed')) : TxInv queued' handed' freed nextId where
  nodup := same.nodup_iff.mp inv.nodup
  below id member := inv.below id (same.mem_iff.mpr member)
  freedNodup := inv.freedNodup
  freedBelow := inv.freedBelow
  apart id gone member := inv.apart id gone (same.mem_iff.mpr member)

theorem TxInv.sublist {queued' handed' : List Nat} (inv : TxInv queued handed freed nextId)
    (fewer : (queued' ++ handed').Sublist (queued ++ handed)) : TxInv queued' handed' freed nextId where
  nodup := inv.nodup.sublist fewer
  below id member := inv.below id (fewer.subset member)
  freedNodup := inv.freedNodup
  freedBelow := inv.freedBelow
  apart id gone member := inv.apart id gone (fewer.subset member)

theorem TxInv.step (inv : TxInv queued handed freed nextId) (new : NewIds queued nextId r') :
    TxInv (packetIds r') handed (freed ++ queued.filter fun id => id ∉ packetIds r') r'.nextId := by
  have gone {id : Nat} (member : id ∈ queued.filter fun id => id ∉ packetIds r') : id ∈ queued ∧ id ∉ packetIds r' := by
    have both := List.mem_filter.mp member
    exact ⟨both.1, of_decide_eq_true both.2⟩
  obtain ⟨queuedNodup, handedNodup, disjoint⟩ := List.nodup_append.mp inv.nodup
  refine ⟨List.nodup_append.mpr ⟨new.nodup, handedNodup, ?_⟩, ?_, List.nodup_append.mpr ⟨inv.freedNodup, ?_, ?_⟩, ?_, ?_⟩
  · rintro id there _ also rfl
    rcases new.known id there with old | fresh
    · exact disjoint id old id also rfl
    · exact Nat.not_lt.mpr fresh (inv.below id (List.mem_append_right _ also))
  · intro id member
    rcases List.mem_append.mp member with there | also
    · exact new.below id there
    · exact Nat.lt_of_lt_of_le (inv.below id (List.mem_append_right _ also)) new.more
  · exact queuedNodup.sublist List.filter_sublist
  · rintro id before _ member rfl
    exact inv.apart id before (List.mem_append_left _ (gone member).1)
  · intro id member
    rcases List.mem_append.mp member with before | now
    · exact Nat.lt_of_lt_of_le (inv.freedBelow id before) new.more
    · exact Nat.lt_of_lt_of_le (inv.below id (List.mem_append_left _ (gone now).1)) new.more
  · intro id member there
    rcases List.mem_append.mp member with before | now
    · rcases List.mem_append.mp there with queued | also
      · rcases new.known id queued with old | fresh
        · exact inv.apart id before (List.mem_append_left _ old)
        · exact Nat.not_lt.mpr fresh (inv.freedBelow id before)
      · exact inv.apart id before (List.mem_append_right _ also)
    · rcases List.mem_append.mp there with queued | also
      · exact (gone now).2 queued
      · exact disjoint id (gone now).1 id also rfl

end

end EspFirmware.Proof.Mdns
