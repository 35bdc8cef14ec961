import EspFirmware.Spec.Dhcps

/-!
What a tick does to the list of leases.
-/

namespace EspFirmware.Proof.Net
open EspFirmware.Net EspFirmware.Spec

def Apart (plist : List ListNode) : Prop := (plist.map ListNode.address).Nodup

theorem nodeRemoveFromList_at {before after : List ListNode} {n : ListNode} (apart : Apart (before ++ n :: after)) :
    nodeRemoveFromList n.address (before ++ n :: after) = before ++ after := by
  induction before with
  | nil => simp [nodeRemoveFromList]
  | cons m before ih =>
      obtain ⟨fresh, later⟩ := List.nodup_cons.mp apart
      have other : m.address ≠ n.address := by
        intro same
        exact fresh (by simp [same])
      rw [List.cons_append, nodeRemoveFromList, if_neg other, ih later]
      rfl

theorem setLeaseTimer_other {address : Nat} {plist : List ListNode} (absent : address ∉ plist.map ListNode.address)
    (timer : BitVec 32) : setLeaseTimer address timer plist = plist := by
  unfold setLeaseTimer
  conv => rhs; rw [← List.map_id plist]
  apply List.map_congr_left
  intro m member
  have other : m.address ≠ address := fun same => absent (same ▸ List.mem_map_of_mem member)
  rw [if_neg other, id]

theorem setLeaseTimer_at {before after : List ListNode} {n : ListNode} (apart : Apart (before ++ n :: after))
    (timer : BitVec 32) :
    setLeaseTimer n.address timer (before ++ n :: after) =
      before ++ { n with pnode := { n.pnode with leaseTimer := timer } } :: after := by
  rw [Apart, List.map_append, List.map_cons, List.nodup_append, List.nodup_cons] at apart
  obtain ⟨-, ⟨absent, -⟩, disjoint⟩ := apart
  have early : n.address ∉ before.map ListNode.address := fun twice => disjoint _ twice _ List.mem_cons_self rfl
  have parts : setLeaseTimer n.address timer (before ++ n :: after) =
      setLeaseTimer n.address timer before ++ { n with pnode := { n.pnode with leaseTimer := timer } } ::
        setLeaseTimer n.address timer after := by
    simp [setLeaseTimer]
  rw [parts, setLeaseTimer_other early, setLeaseTimer_other absent]

theorem tickedLease_address {n m : ListNode} (ticked : tickedLease n = some m) : m.address = n.address := by
  unfold tickedLease at ticked
  split at ticked
  · cases ticked
  · cases ticked
    rfl

theorem foldl_tickNode (rest done : List ListNode) (num : BitVec 8) (apart : Apart (done ++ rest)) :
    rest.foldl tickNode (done ++ rest, num) =
      (done ++ rest.filterMap tickedLease, num + BitVec.ofNat 8 (rest.filterMap tickedLease).length) := by
  induction rest generalizing done num with
  | nil => simp
  | cons n rest ih =>
      rw [List.foldl_cons, tickNode]
      dsimp only
      by_cases expired : n.pnode.leaseTimer - 1 = 0
      · have gone : tickedLease n = none := if_pos expired
        have later : Apart (done ++ rest) :=
          apart.sublist ((List.Sublist.append_left (List.sublist_cons_self n rest) done).map _)
        rw [if_pos expired, nodeRemoveFromList_at apart, ih done num later, List.filterMap_cons_none gone]
      · have stays : tickedLease n =
            some { n with pnode := { n.pnode with leaseTimer := n.pnode.leaseTimer - 1 } } := if_neg expired
        rw [if_neg expired, setLeaseTimer_at apart, List.append_cons]
        have later : Apart
            ((done ++ [{ n with pnode := { n.pnode with leaseTimer := n.pnode.leaseTimer - 1 } }]) ++ rest) := by
          rw [Apart, List.append_assoc]
          simpa [Apart] using apart
        rw [ih _ (num + 1) later, List.filterMap_cons_some stays, List.length_cons, List.append_assoc]
        refine Prod.ext rfl ?_
        dsimp only
        rw [BitVec.add_assoc]
        congr 1
        rw [Nat.add_comm, BitVec.ofNat_add]
        rfl

section
variable {s : Dhcps}

theorem remaining_apart (apart : Apart s.plist) : Apart (remaining s) := by
  have addresses (plist : List ListNode) : ((plist.filterMap tickedLease).map ListNode.address).Sublist
      (plist.map ListNode.address) := by
    induction plist with
    | nil => exact List.Sublist.refl _
    | cons n plist ih =>
        cases ticked : tickedLease n with
        | none =>
            rw [List.filterMap_cons_none ticked]
            exact ih.cons n.address
        | some m =>
            rw [List.filterMap_cons_some ticked, List.map_cons, List.map_cons, tickedLease_address ticked]
            exact ih.cons_cons n.address
  exact List.Nodup.sublist (addresses s.plist) apart

theorem coarseTmr_eq (apart : Apart s.plist) :
    dhcpsCoarseTmr s = if (remaining s).length % 256 > MAX_STATION_NUM then
        killOldestDhcpsPool { s with plist := remaining s } else { s with plist := remaining s } := by
  have loop := foldl_tickNode s.plist [] 0 apart
  rw [List.nil_append] at loop
  unfold dhcpsCoarseTmr
  rw [loop, List.nil_append]
  dsimp only
  have count : (0 + BitVec.ofNat 8 (s.plist.filterMap tickedLease).length).toNat = (remaining s).length % 256 := by
    simp [remaining]
  rw [count]
  rfl

theorem oldest_spec (minp : ListNode) (nodes : List ListNode) :
    (oldest minp nodes = minp ∨ oldest minp nodes ∈ nodes) ∧
      (oldest minp nodes).pnode.leaseTimer ≤ minp.pnode.leaseTimer ∧
      ∀ n ∈ nodes, (oldest minp nodes).pnode.leaseTimer ≤ n.pnode.leaseTimer := by
  induction nodes generalizing minp with
  | nil => exact ⟨Or.inl rfl, BitVec.le_refl _, by simp⟩
  | cons p rest ih =>
      rw [oldest]
      by_cases less : p.pnode.leaseTimer < minp.pnode.leaseTimer
      · rw [if_pos less]
        obtain ⟨found, first, others⟩ := ih p
        refine ⟨Or.inr ?_, BitVec.le_trans first (BitVec.le_of_lt less), ?_⟩
        · rcases found with here | later
          · rw [here]
            exact List.mem_cons_self
          · exact List.mem_cons_of_mem p later
        · exact List.forall_mem_cons.mpr ⟨first, others⟩
      · rw [if_neg less]
        obtain ⟨found, first, others⟩ := ih minp
        refine ⟨found.imp id (List.mem_cons_of_mem p), first, List.forall_mem_cons.mpr ⟨?_, others⟩⟩
        exact BitVec.le_trans first (BitVec.not_lt.mp less)

theorem killOldest_eq {first second : ListNode} {rest : List ListNode} (apart : Apart (first :: second :: rest))
    (nodes : s.plist = first :: second :: rest) :
    ∃ before n after, second :: rest = before ++ n :: after ∧
      (∀ m ∈ second :: rest, n.pnode.leaseTimer ≤ m.pnode.leaseTimer) ∧
      (killOldestDhcpsPool s).plist = first :: (before ++ after) := by
  obtain ⟨found, -, least⟩ := oldest_spec second (second :: rest)
  have member : oldest second (second :: rest) ∈ second :: rest := by
    rcases found with here | later
    · rw [here]
      exact List.mem_cons_self
    · exact later
  obtain ⟨before, after, split⟩ := List.append_of_mem member
  refine ⟨before, _, after, split, least, ?_⟩
  have tailApart : Apart (before ++ oldest second (second :: rest) :: after) := by
    rw [← split]
    exact (List.nodup_cons.mp apart).2
  have removed := nodeRemoveFromList_at tailApart
  rw [← split] at removed
  unfold killOldestDhcpsPool
  rw [nodes]
  dsimp only
  rw [removed]

theorem killOldest_remaining (apart : Apart s.plist) {first second : ListNode} {rest : List ListNode}
    (nodes : remaining s = first :: second :: rest) (enough : (remaining s).length % 256 > MAX_STATION_NUM) :
    ∃ before n after, second :: rest = before ++ n :: after ∧
      (∀ m ∈ second :: rest, n.pnode.leaseTimer ≤ m.pnode.leaseTimer) ∧
      (dhcpsCoarseTmr s).plist = first :: (before ++ after) := by
  have apart' := remaining_apart apart
  rw [nodes] at apart'
  have killed := killOldest_eq (s := { s with plist := remaining s }) apart' nodes
  rw [coarseTmr_eq apart, if_pos enough]
  exact killed

theorem evicts_of_behind (apart : Apart s.plist) (behind : OldestBehindFirst s) : EvictsOldest s := by
  unfold EvictsOldest
  rcases behind with few | ⟨enough, later⟩
  · rw [if_pos few, coarseTmr_eq apart, if_neg (by omega)]
  · have many : ¬ (remaining s).length ≤ MAX_STATION_NUM := by omega
    rw [if_neg many]
    obtain ⟨first, second, rest, nodes⟩ : ∃ first second rest, remaining s = first :: second :: rest := by
      cases nodes : remaining s with
      | nil => simp [nodes] at many
      | cons first tail =>
          cases tail with
          | nil => simp [nodes, MAX_STATION_NUM] at many
          | cons second rest => exact ⟨first, second, rest, rfl⟩
    obtain ⟨before, n, after, split, least, left_⟩ := killOldest_remaining apart nodes enough
    obtain ⟨m, member, notMore⟩ := later first (second :: rest) nodes
    refine ⟨first :: before, n, after, by rw [nodes, split]; rfl, ?_, left_⟩
    rw [nodes]
    exact List.forall_mem_cons.mpr ⟨BitVec.le_trans (least m member) notMore, least⟩

theorem behind_of_evicts (apart : Apart s.plist) (evicts : EvictsOldest s) : OldestBehindFirst s := by
  unfold EvictsOldest at evicts
  by_cases few : (remaining s).length ≤ MAX_STATION_NUM
  · exact Or.inl few
  · rw [if_neg few] at evicts
    obtain ⟨before, n, after, split, least, left_⟩ := evicts
    have apart' := remaining_apart apart
    right
    by_cases enough : MAX_STATION_NUM < (remaining s).length % 256
    · refine ⟨enough, fun first rest nodes => ?_⟩
      by_contra none_
      have more (m : ListNode) (member : m ∈ rest) : ¬ m.pnode.leaseTimer ≤ first.pnode.leaseTimer :=
        fun notMore => none_ ⟨m, member, notMore⟩
      cases rest with
      | nil => simp [nodes, MAX_STATION_NUM] at few
      | cons second rest =>
          obtain ⟨_, _, _, _, _, kept⟩ := killOldest_remaining apart nodes enough
          -- only the first lease has the least time left, and it is still there
          have member : n ∈ first :: second :: rest := by
            rw [← nodes, split]
            simp
          have isFirst : n = first := by
            rcases List.mem_cons.mp member with here | later
            · exact here
            · exact absurd (least first (by rw [nodes]; exact List.mem_cons_self)) (more n later)
          have stays : n ∈ before ++ after := by
            rw [← left_, kept, isFirst]
            exact List.mem_cons_self
          rw [split, Apart, List.map_append, List.map_cons, List.perm_middle.nodup_iff, List.nodup_cons,
            ← List.map_append] at apart'
          exact apart'.1 (List.mem_map_of_mem stays)
    · rw [coarseTmr_eq apart, if_neg enough] at left_
      have lengths := congrArg List.length split
      dsimp only at left_
      rw [left_] at lengths
      simp at lengths

/-- A tick evicts the oldest lease exactly where it is not the first one alone. -/
theorem evicts_oldest_iff (apart : Apart s.plist) : EvictsOldest s ↔ OldestBehindFirst s :=
  ⟨behind_of_evicts apart, evicts_of_behind apart⟩

end

def leasesWith (timers : List (BitVec 32)) : Dhcps where
  serverAddress := 0
  dnsServer := 0
  clientAddress := 0
  clientAddressPlus := 0
  plist := timers.zipIdx.map fun t => ⟨t.2, BitVec.ofNat 32 t.2, [], t.1⟩
  renew := false
  dhcpsPoll := ⟨false, 0, 0⟩
  dhcpsLeaseTime := 0
  dhcpsOffer := 0
  dhcpsDns := 0
  gateway := 0
  allocated := timers.length

theorem evicts_second : EvictsOldest (leasesWith [5, 4, 9, 9, 9, 9, 9, 9, 9]) :=
  (evicts_oldest_iff (by unfold Apart; decide)).mpr
    (Or.inr ⟨by decide, fun first rest nodes => ⟨⟨1, 1, [], 3⟩, by
      have tail := (List.cons.inj nodes).2
      rw [← tail]
      decide, by
      have head := (List.cons.inj nodes).1
      rw [← head]
      decide⟩⟩)

/-- The first of nine leases has the least time left, and the second one is evicted. -/
theorem first_stays : ¬ EvictsOldest (leasesWith [4, 5, 9, 9, 9, 9, 9, 9, 9]) := by
  intro evicts
  rcases behind_of_evicts (by unfold Apart; decide) evicts with few | ⟨-, later⟩
  · exact absurd few (by decide)
  · obtain ⟨n, member, notMore⟩ := later _ _ rfl
    have more : ∀ m ∈ (remaining (leasesWith [4, 5, 9, 9, 9, 9, 9, 9, 9])).tail, ¬ m.pnode.leaseTimer ≤ 3 := by decide
    exact more n member notMore

end EspFirmware.Proof.Net
