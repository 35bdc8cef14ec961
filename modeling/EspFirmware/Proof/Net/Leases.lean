import EspFirmware.Proof.Net.Address
import EspFirmware.Lib.Gap

/-!
The list of leases under the operations of the server, and what the pass over it finds.
-/

namespace EspFirmware.Proof.Net
open EspFirmware.Lib EspFirmware.Net EspFirmware.Spec

structure Lease where
  address : Nat
  ip : Ip4Addr
  mac : List (BitVec 8)

def leaseOf (n : ListNode) : Lease := ⟨n.address, n.pnode.ip, n.pnode.mac⟩

def leases (plist : List ListNode) : List Lease := plist.map leaseOf

structure LeasesInv (net low high allocated : Nat) (ls : List Lease) : Prop where
  within : ∀ l ∈ ls, Within net low high l.ip
  sorted : (ls.map fun l => host l.ip).Pairwise (· < ·)
  macs : (ls.map Lease.mac).Nodup
  addresses : (ls.map Lease.address).Nodup
  fresh : ∀ l ∈ ls, l.address < allocated

section
variable {net low high allocated : Nat} {ls ls' : List Lease}

theorem LeasesInv.sublist (inv : LeasesInv net low high allocated ls) (part : ls'.Sublist ls) :
    LeasesInv net low high allocated ls' where
  within l member := inv.within l (part.subset member)
  sorted := inv.sorted.sublist (part.map _)
  macs := inv.macs.sublist (part.map _)
  addresses := inv.addresses.sublist (part.map _)
  fresh l member := inv.fresh l (part.subset member)

theorem leases_setLeaseTimer (address : Nat) (timer : BitVec 32) (plist : List ListNode) :
    leases (setLeaseTimer address timer plist) = leases plist := by
  unfold leases setLeaseTimer
  rw [List.map_map]
  apply List.map_congr_left
  intro n _
  rw [Function.comp_apply]
  split <;> rfl

theorem nodeRemoveFromList_sublist (pdelete : Nat) (plist : List ListNode) :
    (nodeRemoveFromList pdelete plist).Sublist plist := by
  induction plist with
  | nil => exact List.Sublist.refl _
  | cons n rest ih =>
      rw [nodeRemoveFromList]
      split
      · exact List.sublist_cons_self n rest
      · exact ih.cons_cons n

theorem leases_removed (pdelete : Nat) (plist : List ListNode) :
    (leases (nodeRemoveFromList pdelete plist)).Sublist (leases plist) :=
  (nodeRemoveFromList_sublist pdelete plist).map leaseOf

theorem nodeInsertToList_perm (pinsert : ListNode) (plist : List ListNode) :
    (nodeInsertToList pinsert plist).Perm (pinsert :: plist) := by
  induction plist with
  | nil => exact List.Perm.refl _
  | cons n rest ih =>
      rw [nodeInsertToList]
      split
      · exact List.Perm.refl _
      · exact (ih.cons n).trans (List.Perm.swap pinsert n rest)

theorem nodeInsertToList_sorted {pinsert : ListNode} {plist : List ListNode} {top : Nat}
    (new : Within net low top pinsert.pnode.ip) (within : ∀ n ∈ plist, Within net low top n.pnode.ip)
    (sorted : (plist.map fun n => host n.pnode.ip).Pairwise (· < ·))
    (free : host pinsert.pnode.ip ∉ plist.map fun n => host n.pnode.ip) :
    ((nodeInsertToList pinsert plist).map fun n => host n.pnode.ip).Pairwise (· < ·) := by
  induction plist with
  | nil => exact List.pairwise_singleton _ _
  | cons n rest ih =>
      have here := within n List.mem_cons_self
      rw [List.map_cons, List.pairwise_cons] at sorted
      rw [List.map_cons, List.mem_cons, not_or] at free
      rw [nodeInsertToList]
      by_cases before : pinsert.pnode.ip < n.pnode.ip
      · have less := (new.lt_iff here).mp before
        rw [if_pos before, List.map_cons, List.map_cons, List.pairwise_cons, List.pairwise_cons]
        refine ⟨?_, sorted⟩
        intro x member
        rcases List.mem_cons.mp member with rfl | later
        · exact less
        · exact less.trans (sorted.1 x later)
      · rw [if_neg before, List.map_cons, List.pairwise_cons]
        refine ⟨?_, ih (fun m member => within m (List.mem_cons_of_mem n member)) sorted.2 free.2⟩
        intro x member
        have old := ((nodeInsertToList_perm pinsert rest).map fun n => host n.pnode.ip).mem_iff.mp member
        rcases List.mem_cons.mp old with rfl | later
        · have less := (new.lt_iff here).not.mp before
          exact Nat.lt_of_le_of_ne (Nat.not_lt.mp less) (Ne.symm free.1)
        · exact sorted.1 x later

theorem LeasesInv.inserted {plist : List ListNode} {pool : DhcpsPool}
    (inv : LeasesInv net low high allocated (leases plist)) (new : Within net low high pool.ip)
    (free : host pool.ip ∉ plist.map fun n => host n.pnode.ip) (newMac : ∀ n ∈ plist, n.pnode.mac ≠ pool.mac) :
    LeasesInv net low high (allocated + 1) (leases (nodeInsertToList ⟨allocated, pool⟩ plist)) := by
  have perm := (nodeInsertToList_perm ⟨allocated, pool⟩ plist).map leaseOf
  have within : ∀ n ∈ plist, Within net low high n.pnode.ip :=
    fun n member => inv.within (leaseOf n) (List.mem_map_of_mem member)
  constructor
  · intro l member
    rcases List.mem_cons.mp (perm.mem_iff.mp member) with rfl | old
    · exact new
    · exact inv.within l old
  · have sorted := inv.sorted
    unfold leases at sorted ⊢
    rw [List.map_map] at sorted ⊢
    exact nodeInsertToList_sorted new within sorted free
  · refine ((perm.map Lease.mac).nodup_iff).mpr (List.nodup_cons.mpr ⟨?_, inv.macs⟩)
    intro member
    obtain ⟨l, old, same⟩ := List.mem_map.mp member
    obtain ⟨n, listed, rfl⟩ := List.mem_map.mp old
    exact newMac n listed same
  · refine ((perm.map Lease.address).nodup_iff).mpr (List.nodup_cons.mpr ⟨?_, inv.addresses⟩)
    intro member
    obtain ⟨l, old, same⟩ := List.mem_map.mp member
    have below := inv.fresh l old
    rw [same] at below
    exact Nat.lt_irrefl _ below
  · intro l member
    rcases List.mem_cons.mp (perm.mem_iff.mp member) with rfl | old
    · exact Nat.lt_succ_self allocated
    · exact (inv.fresh l old).trans (Nat.lt_succ_self allocated)

end

theorem leases_ticked (nodes plist : List ListNode) (num : BitVec 8) :
    (leases (nodes.foldl tickNode (plist, num)).1).Sublist (leases plist) := by
  induction nodes generalizing plist num with
  | nil => exact List.Sublist.refl _
  | cons n rest ih =>
      rw [List.foldl_cons, tickNode]
      dsimp only
      split
      · exact (ih _ _).trans (leases_removed n.address plist)
      · have later := ih (setLeaseTimer n.address (n.pnode.leaseTimer - 1) plist) (num + 1)
        rw [leases_setLeaseTimer] at later
        exact later

theorem leases_killed (s : Dhcps) : (leases (killOldestDhcpsPool s).plist).Sublist (leases s.plist) := by
  unfold killOldestDhcpsPool
  split
  · rename_i first second rest eq
    rw [eq]
    exact (leases_removed _ (second :: rest)).cons_cons (leaseOf first)
  · exact List.Sublist.refl _

theorem leases_coarseTmr (s : Dhcps) : (leases (dhcpsCoarseTmr s).plist).Sublist (leases s.plist) := by
  have ticked := leases_ticked s.plist s.plist 0
  unfold dhcpsCoarseTmr
  dsimp only
  split
  · exact (leases_killed _).trans ticked
  · exact ticked

section
variable {net low high limit : Nat} {search : Search} {pool : DhcpsPool} {plist : List ListNode} {mac : List (BitVec 8)}

theorem moveFirst_plus (search : Search) (pool : DhcpsPool) :
    (search.moveFirst pool).clientAddressPlus = search.clientAddressPlus ∧
      (search.moveFirst pool).clientAddress = search.clientAddress := by
  unfold Search.moveFirst
  split
  · exact ⟨rfl, rfl⟩
  · split <;> exact ⟨rfl, rfl⟩

theorem moveCursor_first (search : Search) (pool : DhcpsPool) :
    (search.moveCursor pool).firstAddress = search.firstAddress ∧ (search.moveCursor pool).flag = search.flag := by
  unfold Search.moveCursor
  split <;> exact ⟨rfl, rfl⟩

theorem pass_plus (here : network pool.ip = net) (cursor : network search.clientAddressPlus = net)
    (room : host pool.ip = host search.clientAddressPlus → host search.clientAddressPlus < 255) :
    network (search.pass pool).clientAddressPlus = net ∧
      host (search.pass pool).clientAddressPlus =
        if host pool.ip = host search.clientAddressPlus then host search.clientAddressPlus + 1
        else host search.clientAddressPlus := by
  have same := @eq_iff_host pool.ip search.clientAddressPlus (here.trans cursor.symm)
  rw [Search.pass, (moveFirst_plus _ pool).1, Search.moveCursor]
  by_cases met : pool.ip = search.clientAddressPlus
  · have next := @next_host search.clientAddressPlus (room (same.mp met))
    rw [if_pos met, if_pos (same.mp met)]
    exact ⟨next.1.trans cursor, next.2⟩
  · rw [if_neg met, if_neg (same.not.mp met)]
    exact ⟨cursor, rfl⟩

theorem pass_client (equal : search.clientAddress = search.clientAddressPlus) :
    (search.pass pool).clientAddress = (search.pass pool).clientAddressPlus := by
  rw [Search.pass, (moveFirst_plus _ pool).1, (moveFirst_plus _ pool).2, Search.moveCursor]
  split
  · rfl
  · exact equal

theorem pass_first_done (done : search.flag = true) :
    (search.pass pool).firstAddress = search.firstAddress ∧ (search.pass pool).flag = true := by
  have kept := moveCursor_first search pool
  rw [done] at kept
  rw [Search.pass, Search.moveFirst, if_pos kept.2]
  exact kept

theorem pass_first_found (searching : search.flag = false) (less : search.firstAddress < pool.ip) :
    (search.pass pool).firstAddress = search.firstAddress ∧ (search.pass pool).flag = true := by
  have kept := moveCursor_first search pool
  rw [searching] at kept
  rw [Search.pass, Search.moveFirst, kept.1, kept.2, if_neg Bool.false_ne_true, if_pos less]
  exact ⟨rfl, rfl⟩

theorem pass_first_next (searching : search.flag = false) (less : ¬ search.firstAddress < pool.ip) :
    (search.pass pool).firstAddress = htonl (htonl search.firstAddress + 1) ∧ (search.pass pool).flag = false := by
  have kept := moveCursor_first search pool
  rw [searching] at kept
  rw [Search.pass, Search.moveFirst, kept.1, kept.2, if_neg Bool.false_ne_true, if_neg less]
  exact ⟨rfl, rfl⟩

theorem searchPool_cons (mac : List (BitVec 8)) (n : ListNode) (rest : List ListNode) (search : Search) :
    searchPool mac (n :: rest) search =
      if n.pnode.mac = mac then (search, some n) else searchPool mac rest (search.pass n.pnode) := rfl

theorem searchPool_cursor (nets : ∀ n ∈ plist, network n.pnode.ip = net)
    (free : ∀ n ∈ plist, n.pnode.mac ≠ mac → host n.pnode.ip ≠ limit) (top : limit ≤ 255)
    (cursor : network search.clientAddressPlus = net) (below : host search.clientAddressPlus ≤ limit) :
    Within net (host search.clientAddressPlus) limit (searchPool mac plist search).1.clientAddressPlus := by
  induction plist generalizing search with
  | nil => exact ⟨cursor, Nat.le_refl _, below⟩
  | cons n rest ih =>
      rw [searchPool_cons]
      by_cases same : n.pnode.mac = mac
      · rw [if_pos same]
        exact ⟨cursor, Nat.le_refl _, below⟩
      · rw [if_neg same]
        have apart := free n List.mem_cons_self same
        obtain ⟨sameNetwork, moved⟩ := pass_plus (nets n List.mem_cons_self) cursor (by omega)
        have step : host search.clientAddressPlus ≤ host (search.pass n.pnode).clientAddressPlus ∧
            host (search.pass n.pnode).clientAddressPlus ≤ limit := by
          rw [moved]
          split <;> omega
        have later := ih (fun m member => nets m (List.mem_cons_of_mem n member))
          (fun m member => free m (List.mem_cons_of_mem n member)) sameNetwork step.2
        exact ⟨later.network, step.1.trans later.low, later.high⟩

theorem searchPool_before (nets : ∀ n ∈ plist, network n.pnode.ip = net)
    (sorted : (plist.map fun n => host n.pnode.ip).Pairwise (· < ·)) (cursor : network search.clientAddressPlus = net)
    {own : ListNode} (listed : own ∈ plist) (mine : own.pnode.mac = mac)
    (before : host own.pnode.ip < host search.clientAddressPlus) :
    (searchPool mac plist search).1.clientAddressPlus = search.clientAddressPlus := by
  induction plist generalizing search with
  | nil => cases listed
  | cons n rest ih =>
      rw [searchPool_cons]
      by_cases same : n.pnode.mac = mac
      · rw [if_pos same]
      · rw [if_neg same]
        rw [List.map_cons, List.pairwise_cons] at sorted
        have later : own ∈ rest := by
          rcases List.mem_cons.mp listed with rfl | later
          · exact absurd mine same
          · exact later
        have less := sorted.1 _ (List.mem_map_of_mem later)
        have other : n.pnode.ip ≠ search.clientAddressPlus := by
          intro met
          rw [met] at less
          omega
        have kept : (search.pass n.pnode).clientAddressPlus = search.clientAddressPlus := by
          rw [Search.pass, (moveFirst_plus _ _).1, Search.moveCursor, if_neg other]
        rw [← kept] at before cursor ⊢
        exact ih (fun m member => nets m (List.mem_cons_of_mem n member)) sorted.2 cursor later before

theorem searchPool_some {n : ListNode} (found : (searchPool mac plist search).2 = some n) :
    n ∈ plist ∧ n.pnode.mac = mac := by
  induction plist generalizing search with
  | nil => cases found
  | cons m rest ih =>
      rw [searchPool_cons] at found
      by_cases same : m.pnode.mac = mac
      · rw [if_pos same] at found
        cases found
        exact ⟨List.mem_cons_self, same⟩
      · rw [if_neg same] at found
        obtain ⟨member, mine⟩ := ih found
        exact ⟨List.mem_cons_of_mem m member, mine⟩

theorem searchPool_none (none_ : (searchPool mac plist search).2 = none) : ∀ n ∈ plist, n.pnode.mac ≠ mac := by
  induction plist generalizing search with
  | nil =>
      intro n member
      cases member
  | cons m rest ih =>
      rw [searchPool_cons] at none_
      by_cases same : m.pnode.mac = mac
      · rw [if_pos same] at none_
        cases none_
      · rw [if_neg same] at none_
        intro n member
        rcases List.mem_cons.mp member with rfl | later
        · exact same
        · exact ih none_ n later

theorem searchPool_skip (nets : ∀ n ∈ plist, network n.pnode.ip = net) (free : ∀ n ∈ plist, host n.pnode.ip ≠ limit)
    (top : limit ≤ 255) (cursor : network search.clientAddressPlus = net) (below : host search.clientAddressPlus ≤ limit)
    (equal : search.clientAddress = search.clientAddressPlus) (none_ : (searchPool mac plist search).2 = none) :
    (searchPool mac plist search).1.clientAddress = (searchPool mac plist search).1.clientAddressPlus ∧
      host (searchPool mac plist search).1.clientAddressPlus =
        skip (plist.map fun n => host n.pnode.ip) (host search.clientAddressPlus) := by
  induction plist generalizing search with
  | nil => exact ⟨equal, rfl⟩
  | cons n rest ih =>
      rw [searchPool_cons] at none_ ⊢
      by_cases same : n.pnode.mac = mac
      · rw [if_pos same] at none_
        cases none_
      · rw [if_neg same] at none_ ⊢
        have apart := free n List.mem_cons_self
        obtain ⟨sameNetwork, moved⟩ := pass_plus (nets n List.mem_cons_self) cursor (by omega)
        have step : host (search.pass n.pnode).clientAddressPlus ≤ limit := by
          rw [moved]
          split <;> omega
        have later := ih (fun m member => nets m (List.mem_cons_of_mem n member))
          (fun m member => free m (List.mem_cons_of_mem n member)) sameNetwork step (pass_client equal) none_
        rw [moved] at later
        exact later

theorem searchPool_firstGap (within : ∀ n ∈ plist, Within net low high n.pnode.ip) (room : high < 255)
    (sorted : (plist.map fun n => host n.pnode.ip).Pairwise (· < ·)) (first : network search.firstAddress = net)
    (above : ∀ n ∈ plist, host search.firstAddress ≤ host n.pnode.ip)
    (none_ : (searchPool mac plist search).2 = none) :
    network (searchPool mac plist search).1.firstAddress = net ∧
      host (searchPool mac plist search).1.firstAddress =
        if search.flag then host search.firstAddress
        else firstGap (plist.map fun n => host n.pnode.ip) (host search.firstAddress) := by
  induction plist generalizing search with
  | nil =>
      refine ⟨first, ?_⟩
      split <;> rfl
  | cons n rest ih =>
      have here := within n List.mem_cons_self
      have bottom := above n List.mem_cons_self
      have top := here.high
      have less := @lt_iff_host search.firstAddress n.pnode.ip (first.trans here.network.symm)
      rw [List.map_cons, List.pairwise_cons] at sorted
      rw [searchPool_cons] at none_ ⊢
      by_cases same : n.pnode.mac = mac
      · rw [if_pos same] at none_
        cases none_
      rw [if_neg same] at none_ ⊢
      have rest_ := @ih (search.pass n.pnode) (fun m member => within m (List.mem_cons_of_mem n member)) sorted.2
      have aboveRest : ∀ m ∈ rest, host n.pnode.ip < host m.pnode.ip :=
        fun m member => sorted.1 _ (List.mem_map_of_mem member)
      rw [List.map_cons, firstGap_cons]
      cases flag : search.flag with
      | true =>
          obtain ⟨kept, done⟩ := pass_first_done flag
          rw [kept, done] at rest_
          exact rest_ first (fun m member => above m (List.mem_cons_of_mem n member)) none_
      | false =>
          by_cases gap : search.firstAddress < n.pnode.ip
          · obtain ⟨kept, done⟩ := pass_first_found flag gap
            rw [kept, done] at rest_
            rw [if_neg Bool.false_ne_true, if_pos (less.mp gap)]
            exact rest_ first (fun m member => above m (List.mem_cons_of_mem n member)) none_
          · obtain ⟨moved, searching⟩ := pass_first_next flag gap
            have next := @next_host search.firstAddress (by omega)
            have equal : host search.firstAddress = host n.pnode.ip := by
              have := less.not.mp gap
              omega
            rw [moved, searching, next.1, next.2] at rest_
            rw [if_neg Bool.false_ne_true, if_neg (less.not.mp gap)]
            refine rest_ first ?_ none_
            intro m member
            have := aboveRest m member
            omega

end

end EspFirmware.Proof.Net
