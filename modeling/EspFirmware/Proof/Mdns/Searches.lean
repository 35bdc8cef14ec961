import EspFirmware.Spec.Mdns
import Mathlib.Data.List.Nodup

/-!
The searches that are to be added, run and released, and the actions about them.
-/

namespace EspFirmware.Proof.Mdns
open EspFirmware.Lib EspFirmware.Mdns EspFirmware.Spec Responder MdnsState

def added? : MdnsAction → Option Nat
  | .searchAdd x => some x.id
  | _ => none

def searchIds (searches : List Search) (pending : List MdnsAction) (released : List Nat) : List Nat :=
  pending.filterMap added? ++ (searches.map Search.id ++ released)

structure KnownIds (known : Nat → Prop) (ids : List Nat) : Prop where
  nodup : ids.Nodup
  known : ∀ x ∈ ids, known x

section
variable {known : Nat → Prop} {ids ids' : List Nat}

theorem KnownIds.perm (ok : KnownIds known ids) (same : ids.Perm ids') : KnownIds known ids' :=
  ⟨same.nodup_iff.mp ok.nodup, fun x member => ok.known x (same.mem_iff.mpr member)⟩

theorem KnownIds.sublist (ok : KnownIds known ids) (fewer : ids'.Sublist ids) : KnownIds known ids' :=
  ⟨ok.nodup.sublist fewer, fun x member => ok.known x (fewer.subset member)⟩

end

structure SearchInv (known : Nat → Prop) (searches : List Search) (pending : List MdnsAction) (released : List Nat) :
    Prop where
  ids : KnownIds known (searchIds searches pending released)
  listed : ∀ a ∈ pending, ∀ x, a.search? = some x → x ∈ searches.map Search.id
  ended : ∀ x ∈ searches, MdnsAction.searchEnd x.id ∈ pending → x.state = .off
  last : pending.Pairwise fun a b => ∀ x, a = .searchEnd x → b.search? ≠ some x

section
variable {known : Nat → Prop} {searches : List Search} {pending : List MdnsAction} {released : List Nat} {a : MdnsAction}

theorem SearchInv.nodup (inv : SearchInv known searches pending released) : (searches.map Search.id).Nodup :=
  (List.nodup_append.mp (List.nodup_append.mp inv.ids.nodup).2.1).1

theorem SearchInv.mono {known' : Nat → Prop} (inv : SearchInv known searches pending released)
    (more : ∀ x, known x → known' x) : SearchInv known' searches pending released :=
  ⟨⟨inv.ids.nodup, fun x member => more x (inv.ids.known x member)⟩, inv.listed, inv.ended, inv.last⟩

theorem SearchInv.tail (inv : SearchInv known searches (a :: pending) released) : SearchInv known searches pending released where
  ids := by
    refine inv.ids.sublist (List.Sublist.append_right ?_ _)
    exact (List.sublist_cons_self a pending).filterMap added?
  listed b member := inv.listed b (List.mem_cons_of_mem _ member)
  ended x member also := inv.ended x member (List.mem_cons_of_mem _ also)
  last := inv.last.of_cons

theorem SearchInv.append (inv : SearchInv known searches pending released) (none_ : a.search? = none)
    (noAdd : added? a = none) : SearchInv known searches (pending ++ [a]) released where
  ids := by
    have same : (pending ++ [a]).filterMap added? = pending.filterMap added? := by
      rw [List.filterMap_append, List.filterMap_cons_none noAdd, List.filterMap_nil, List.append_nil]
    unfold searchIds
    rw [same]
    exact inv.ids
  listed b member x about := by
    rcases List.mem_append.mp member with old | new
    · exact inv.listed b old x about
    · cases List.mem_singleton.mp new
      rw [none_] at about
      cases about
  ended x member also := by
    rcases List.mem_append.mp also with old | new
    · exact inv.ended x member old
    · rw [← List.mem_singleton.mp new] at none_
      cases none_
  last := by
    refine List.pairwise_append.mpr ⟨inv.last, List.pairwise_singleton _ _, ?_⟩
    intro b _ c member x _
    rw [List.mem_singleton.mp member, none_]
    exact (Option.some_ne_none x).symm

theorem SearchInv.appendAdd {x : Search} (inv : SearchInv known searches pending released)
    (fresh : x.id ∉ searchIds searches pending released) (new : known x.id) :
    SearchInv known searches (pending ++ [.searchAdd x]) released where
  ids := by
    have moved : (x.id :: searchIds searches pending released).Perm
        (searchIds searches (pending ++ [.searchAdd x]) released) := by
      unfold searchIds
      rw [List.filterMap_append, List.append_assoc]
      exact List.perm_middle.symm
    refine KnownIds.perm ⟨List.nodup_cons.mpr ⟨fresh, inv.ids.nodup⟩, fun y member => ?_⟩ moved
    rcases List.mem_cons.mp member with rfl | old
    · exact new
    · exact inv.ids.known y old
  listed b member y about := by
    rcases List.mem_append.mp member with old | new
    · exact inv.listed b old y about
    · cases List.mem_singleton.mp new
      cases about
  ended y member also := by
    rcases List.mem_append.mp also with old | new
    · exact inv.ended y member old
    · cases List.mem_singleton.mp new
  last := by
    refine List.pairwise_append.mpr ⟨inv.last, List.pairwise_singleton _ _, ?_⟩
    intro b _ c member y _
    rw [List.mem_singleton.mp member]
    exact (Option.some_ne_none y).symm

theorem SearchInv.add {x : Search} (inv : SearchInv known searches (.searchAdd x :: pending) released) :
    SearchInv known (x :: searches) pending released where
  ids := by
    have moved : (searchIds searches (.searchAdd x :: pending) released).Perm
        (searchIds (x :: searches) pending released) := List.perm_middle.symm
    exact inv.ids.perm moved
  listed b member y about := List.mem_cons_of_mem _ (inv.listed b (List.mem_cons_of_mem _ member) y about)
  ended y member also := by
    rcases List.mem_cons.mp member with rfl | old
    · have there := inv.listed _ (List.mem_cons_of_mem _ also) _ rfl
      have fresh := (List.nodup_cons.mp inv.ids.nodup).1
      exact absurd (List.mem_append_right _ (List.mem_append_left _ there)) fresh
    · exact inv.ended y old (List.mem_cons_of_mem _ also)
  last := inv.last.of_cons

theorem SearchInv.finish {released' : List Nat} (inv : SearchInv known searches pending released) (gone : Search → Bool)
    (free : ∀ x ∈ searches, gone x = true → ∀ a ∈ pending, a.search? ≠ some x.id)
    (given : released' = released ++ (searches.filter gone).map Search.id) :
    SearchInv known (searches.filter fun x => gone x = false) pending released' where
  ids := by
    subst given
    have parts : ((searches.filter fun x => gone x = false) ++ searches.filter gone).Perm searches := by
      have split := List.filter_append_perm gone searches
      refine List.Perm.trans List.perm_append_comm ?_
      have same : (fun x : Search => decide (gone x = false)) = fun x => !gone x := by
        funext x
        cases gone x <;> rfl
      rw [same]
      exact split
    have ids := parts.map Search.id
    rw [List.map_append] at ids
    have moved : (((searches.filter fun x => gone x = false).map Search.id) ++
        (released ++ (searches.filter gone).map Search.id)).Perm (searches.map Search.id ++ released) := by
      refine List.Perm.trans (List.Perm.append_left _ List.perm_append_comm) ?_
      rw [← List.append_assoc]
      exact ids.append_right _
    exact inv.ids.perm (moved.append_left _).symm
  listed a member x about := by
    obtain ⟨y, there, rfl⟩ := List.mem_map.mp (inv.listed a member x about)
    refine List.mem_map_of_mem (List.mem_filter.mpr ⟨there, ?_⟩)
    cases going : gone y with
    | false => rfl
    | true => exact absurd about (free y there going a member)
  ended x member := inv.ended x (List.mem_filter.mp member).1
  last := inv.last

theorem SearchInv.end_ {x : Nat} (inv : SearchInv known searches (.searchEnd x :: pending) released) :
    SearchInv known (searches.filter fun y => y.id ≠ x) pending (released ++ [x]) := by
  have there := inv.listed _ List.mem_cons_self x rfl
  have one : (searches.filter fun y => y.id = x).map Search.id = [x] := by
    have commute := List.filter_map (f := Search.id) (p := fun y => decide (y = x)) (l := searches)
    refine commute.symm.trans ?_
    rw [List.filter_eq, inv.nodup.count, if_pos there]
    rfl
  have finished := inv.tail.finish (fun y => y.id = x) ?_ (congrArg (released ++ ·) one.symm)
  · have same : (fun y : Search => decide (decide (y.id = x) = false)) = fun y => decide (y.id ≠ x) := by
      funext y
      by_cases is : y.id = x <;> simp [is]
    rw [same] at finished
    exact finished
  · intro y _ is a member
    rw [of_decide_eq_true is]
    exact (List.pairwise_cons.mp inv.last).1 a member x rfl

theorem SearchInv.results (inv : SearchInv known searches pending released) (found : List Nat) :
    SearchInv known (found.foldl addResult searches) pending released := by
  induction found generalizing searches with
  | nil => exact inv
  | cons id rest ih =>
      refine ih ?_
      have kept (x : Search) : ∃ num_results,
          (if x.id = id ∧ (x.max_results = 0 ∨ x.num_results < x.max_results) then
            { x with num_results := x.num_results + 1 } else x) = { x with num_results := num_results } := by
        split
        · exact ⟨_, rfl⟩
        · exact ⟨x.num_results, rfl⟩
      have ids : (addResult searches id).map Search.id = searches.map Search.id := by
        unfold addResult
        rw [List.map_map]
        refine List.map_congr_left fun x _ => ?_
        obtain ⟨num_results, is⟩ := kept x
        rw [Function.comp_apply, is]
      refine ⟨?_, fun a member x about => ids ▸ inv.listed a member x about, ?_, inv.last⟩
      · unfold searchIds
        rw [ids]
        exact inv.ids
      · intro x member
        obtain ⟨y, there, rfl⟩ := List.mem_map.mp member
        obtain ⟨num_results, is⟩ := kept y
        rw [is]
        exact inv.ended y there

theorem turn_action (x : Search) (now : Nat) (taken : Bool) : (x.turn now taken).2 = none ∨
    (x.turn now taken).2 = some (.searchSend x.id) ∨ (x.turn now taken).2 = some (.searchEnd x.id) := by
  unfold Search.turn
  split
  · exact .inl rfl
  · split
    · split
      · exact .inr (.inr rfl)
      · exact .inl rfl
    · split
      · split
        · exact .inr (.inl rfl)
        · exact .inl rfl
      · exact .inl rfl

theorem SearchInv.turn {before after : List Search} {x : Search}
    (inv : SearchInv known (before ++ x :: after) pending released) (now : Nat) (taken : Bool) :
    SearchInv known (before ++ (x.turn now taken).1 :: after) (pending ++ (x.turn now taken).2.toList) released := by
  -- what every turn that is not idle does
  have go (x' : Search) (action : Option MdnsAction) (id : x'.id = x.id) (on : x.state ≠ .off)
      (is : action = none ∨ action = some (.searchSend x.id) ∨
        action = some (.searchEnd x.id) ∧ x'.state = .off) :
      SearchInv known (before ++ x' :: after) (pending ++ action.toList) released := by
    have ids : (before ++ x' :: after).map Search.id = (before ++ x :: after).map Search.id := by
      rw [List.map_append, List.map_append, List.map_cons, List.map_cons, id]
    have notEnded : MdnsAction.searchEnd x.id ∉ pending := fun member =>
      on (inv.ended x (List.mem_append_right _ List.mem_cons_self) member)
    have noAdd : (pending ++ action.toList).filterMap added? = pending.filterMap added? := by
      rw [List.filterMap_append]
      rcases is with rfl | rfl | ⟨rfl, -⟩
      · exact List.append_nil _
      · exact List.append_nil _
      · exact List.append_nil _
    have about {a : MdnsAction} (member : a ∈ action.toList) : a.search? = some x.id := by
      rcases is with rfl | rfl | ⟨rfl, -⟩
      · cases member
      · cases List.mem_singleton.mp member
        rfl
      · cases List.mem_singleton.mp member
        rfl
    refine ⟨?_, ?_, ?_, ?_⟩
    · unfold searchIds
      rw [noAdd, ids]
      exact inv.ids
    · intro a member y its
      rw [ids]
      rcases List.mem_append.mp member with old | new
      · exact inv.listed a old y its
      · rw [about new] at its
        cases its
        exact List.mem_map_of_mem (List.mem_append_right _ List.mem_cons_self)
    · intro y member ending
      rcases List.mem_append.mp ending with old | new
      · rcases List.mem_append.mp member with there | there
        · exact inv.ended y (List.mem_append_left _ there) old
        · rcases List.mem_cons.mp there with rfl | there
          · rw [id] at old
            exact absurd old notEnded
          · exact inv.ended y (List.mem_append_right _ (List.mem_cons_of_mem _ there)) old
      · have this : y.id = x.id := Option.some.inj (about new)
        have same : y = x' := by
          have nodup : ((before ++ x' :: after).map Search.id).Nodup := by
            rw [ids]
            exact inv.nodup
          exact List.inj_on_of_nodup_map nodup member (List.mem_append_right _ List.mem_cons_self) (this.trans id.symm)
        rcases is with rfl | rfl | ⟨rfl, off⟩
        · cases new
        · cases List.mem_singleton.mp new
        · rw [same]
          exact off
    · refine List.pairwise_append.mpr ⟨inv.last, ?_, ?_⟩
      · cases action with
        | none => exact List.Pairwise.nil
        | some a => exact List.pairwise_singleton _ _
      · rintro a member b new y rfl its
        rw [about new] at its
        cases its
        exact notEnded member
  unfold Search.turn
  split
  · exact (List.append_nil pending).symm ▸ inv
  · rename_i on
    split
    · split
      · exact go _ _ rfl on (.inr (.inr ⟨rfl, rfl⟩))
      · exact go _ _ rfl on (.inl rfl)
    · split
      · split
        · exact go _ _ rfl on (.inr (.inl rfl))
        · exact go _ _ rfl on (.inl rfl)
      · exact (List.append_nil pending).symm ▸ inv

theorem SearchInv.run {first : List MdnsAction} {t : Nat} {m : List Nat} (todo before : List Search)
    (queue : List MdnsAction) (inv : SearchInv known (before ++ todo) (first ++ queue) released) :
    SearchInv known (before ++ (searchRunFrom t m todo queue).1)
      (first ++ (searchRunFrom t m todo queue).2) released := by
  induction todo generalizing before queue with
  | nil => exact inv
  | cons x rest ih =>
      rw [searchRunFrom]
      have turned := inv.turn t (x.id ∉ m ∧ queue.length < MDNS_ACTION_QUEUE_LEN)
      rw [List.append_assoc] at turned
      have rest := ih (before ++ [_]) _ (by rw [List.append_assoc]; exact turned)
      rw [List.append_assoc] at rest
      exact rest

end

end EspFirmware.Proof.Mdns
