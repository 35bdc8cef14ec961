import EspFirmware.Proof.Heap.Alloc

/-!
What `_heap_caps_free` does to the region of a block: the block becomes free and is joined with the free
blocks next to it.
-/

namespace EspFirmware.Proof.Heap
open EspFirmware.Lib Memory EspFirmware.Heap EspFirmware.Spec

def joinRight (size : Nat) : List Blk → List Blk
  | [] => [freeBlock size]
  | b :: post => if b.used then freeBlock size :: b :: post else freeBlock (size + b.size) :: post

def joined (pre : List Blk) (size : Nat) (post : List Blk) : List Blk :=
  match pre.getLast? with
  | some q => if q.used then pre ++ joinRight size post else pre.dropLast ++ joinRight (q.size + size) post
  | none => joinRight size post

theorem total_joinRight (size : Nat) (post : List Blk) : total (joinRight size post) = size + total post := by
  cases post with
  | nil => rfl
  | cons b post =>
      rw [joinRight]
      split
      · rw [total_cons, size_freeBlock]
      · rw [total_cons, total_cons, size_freeBlock, Nat.add_assoc]

theorem freeTotal_joinRight (size : Nat) (post : List Blk) :
    freeTotal (joinRight size post) = size + freeTotal post := by
  cases post with
  | nil => rfl
  | cons b post =>
      rw [joinRight]
      split
      · rw [freeTotal_free rfl, size_freeBlock]
      · rename_i unused
        rw [freeTotal_free rfl, freeTotal_free (by simpa using unused), size_freeBlock, Nat.add_assoc]

theorem firstFree_joinRight (a size : Nat) (post : List Blk) : firstFree a (joinRight size post) = a := by
  cases post with
  | nil => rfl
  | cons b post =>
      rw [joinRight]
      split <;> rfl

theorem joined_cases (pre : List Blk) (size : Nat) (post : List Blk) :
    (joined pre size post = pre ++ joinRight size post ∧ ∀ q, pre.getLast? = some q → q.used = true) ∨
      ∃ pre' q, pre = pre' ++ [q] ∧ q.used = false ∧ joined pre size post = pre' ++ joinRight (q.size + size) post := by
  unfold joined
  cases last : pre.getLast? with
  | none =>
      have empty : pre = [] := List.getLast?_eq_none_iff.mp last
      left
      exact ⟨by rw [empty]; rfl, nofun⟩
  | some q =>
      dsimp only
      cases used : q.used with
      | true =>
          left
          refine ⟨if_pos rfl, ?_⟩
          intro q' same
          rw [← Option.some.inj same]
          exact used
      | false =>
          right
          have split : pre = pre.dropLast ++ [q] := by
            obtain ⟨pre', rfl⟩ := List.getLast?_eq_some_iff.mp last
            simp
          exact ⟨pre.dropLast, q, split, used, if_neg (by simp)⟩

theorem total_joined (pre : List Blk) (size : Nat) (post : List Blk) :
    total (joined pre size post) = total pre + size + total post := by
  rcases joined_cases pre size post with ⟨eq, -⟩ | ⟨pre', q, rfl, -, eq⟩
  · rw [eq, total_append, total_joinRight, Nat.add_assoc]
  · rw [eq, total_append, total_joinRight, total_append, total_cons, total_nil]
    omega

theorem freeTotal_joined (pre : List Blk) (size : Nat) (post : List Blk) :
    freeTotal (joined pre size post) = freeTotal pre + size + freeTotal post := by
  rcases joined_cases pre size post with ⟨eq, -⟩ | ⟨pre', q, rfl, unused, eq⟩
  · rw [eq, freeTotal_append, freeTotal_joinRight, Nat.add_assoc]
  · rw [eq, freeTotal_append, freeTotal_joinRight, freeTotal_append, freeTotal_free unused]
    have none_ : freeTotal [] = 0 := rfl
    omega

section
variable {m : Memory} {prev a size : Nat} {post : List Blk}

def joinNext (m : Memory) (a next last : Nat) : Memory :=
  if last ≠ 0 ∧ ¬ memBlkIsUsed m next then memBlkSetPrev (memBlkSetNext m a last) last a else m

theorem joinNext_linked (linked : Linked m prev a (freeBlock size :: post))
    (small : a + size + total post < 2 ^ 31) (positive : 0 < a) :
    Linked (joinNext m a (a + size) (memBlkNext m (a + size))) prev a (joinRight size post) ∧
      Frame m (joinNext m a (a + size) (memBlkNext m (a + size))) a (a + size + total post + 4) := by
  have linked' := linked
  rw [linked_cons] at linked'
  obtain ⟨block, rest⟩ := linked'
  rw [size_freeBlock] at rest
  cases post with
  | nil =>
      have last := endAt_next rest.2
      rw [total_nil, Nat.add_zero] at last
      unfold joinNext
      rw [last, if_neg (by simp)]
      exact ⟨linked, fun _ _ => rfl⟩
  | cons b post =>
      rw [total_cons] at small
      rw [linked_cons] at rest
      obtain ⟨next, after⟩ := rest
      have room := next.room
      have head := head_ge b
      have last := memBlkNext_eq next (by omega)
      unfold joinNext
      rw [last, memBlkIsUsed_eq next (by omega), total_cons, joinRight]
      cases used : b.used with
      | true =>
          rw [if_neg (by simp), if_pos rfl]
          exact ⟨linked, fun _ _ => rfl⟩
      | false =>
          rw [if_pos ⟨by omega, by simp⟩, if_neg (by simp)]
          refine ⟨?_, (join_frame m (by omega)).mono (Nat.le_refl a) (by omega)⟩
          rw [free_eq next used] at linked
          exact linked_join linked (by omega)

end

theorem joinBlk_linked {m : Memory} {start size : Nat} {pre post : List Blk}
    (linked : Linked m 0 start (pre ++ freeBlock size :: post))
    (small : start + (total pre + size + total post) < 2 ^ 31) (positive : 0 < start) :
    Linked (joinBlk m (start + total pre)) 0 start (joined pre size post) ∧
      Frame m (joinBlk m (start + total pre)) start (start + (total pre + size + total post) + 4) := by
  have split := linked
  rw [linked_append] at split
  obtain ⟨before, here⟩ := split
  have block := (linked_cons.mp here).1
  have smallPrev : lastAddr 0 start pre < 2 ^ 31 := by
    have := lastAddr_le (Nat.zero_le start) pre
    omega
  have prevAddr : memBlkPrev m (start + total pre) = lastAddr 0 start pre := memBlkPrev_eq block smallPrev
  have nextAddr : memBlkNext m (start + total pre) = start + total pre + size := memBlkNext_eq block (by
    rw [size_freeBlock]
    omega)
  rcases joined_cases pre size post with ⟨eq, allUsed⟩ | ⟨pre', q, rfl, unused, eq⟩
  · -- nothing to join with on the left
    have alone : ¬ (lastAddr 0 start pre ≠ 0 ∧ ¬ memBlkIsUsed m (lastAddr 0 start pre) = true) := by
      rintro ⟨some_, unused⟩
      cases last : pre.getLast? with
      | none =>
          rw [List.getLast?_eq_none_iff.mp last] at some_
          exact some_ rfl
      | some q =>
          obtain ⟨pre', rfl⟩ := List.getLast?_eq_some_iff.mp last
          rw [run_append] at before
          have small' : lastAddr 0 start pre' < 2 ^ 31 := by
            have := lastAddr_le (Nat.zero_le start) pre'
            rw [total_append] at small
            omega
          rw [lastAddr_snoc, memBlkIsUsed_eq before.2.1 small'] at unused
          exact unused (allUsed q last)
    have unfolded : joinBlk m (start + total pre) =
        joinNext m (start + total pre) (start + total pre + size) (memBlkNext m (start + total pre + size)) := by
      unfold joinBlk joinNext
      dsimp only
      rw [prevAddr, nextAddr, if_neg alone, if_neg alone]
    obtain ⟨linked', frame⟩ := joinNext_linked here (by omega) (by omega)
    rw [unfolded, eq]
    refine ⟨linked_append.mpr ⟨run_before before fun x less => frame x (Or.inl less), linked'⟩, ?_⟩
    exact frame.mono (by omega) (by omega)
  · -- the block before is free and grows over this one
    have eqTotal : total (pre' ++ [q]) = total pre' + q.size := by simp
    rw [eqTotal] at small here prevAddr nextAddr ⊢
    rw [lastAddr_snoc] at here prevAddr
    rw [run_append] at before
    obtain ⟨before', blockQ, -⟩ := before
    have smallPrev' : lastAddr 0 start pre' < 2 ^ 31 := by
      have := lastAddr_le (Nat.zero_le start) pre'
      omega
    have room := blockQ.room
    have head := head_ge q
    have both : Linked m (lastAddr 0 start pre') (start + total pre')
        (freeBlock q.size :: freeBlock size :: post) := by
      rw [linked_cons, ← free_eq blockQ unused]
      exact ⟨blockQ, by rw [Nat.add_assoc]; exact here⟩
    have next : start + (total pre' + q.size) + size = start + total pre' + q.size + size := by omega
    rw [next] at nextAddr
    let m1 := memBlkSetPrev (memBlkSetNext m (start + total pre') (start + total pre' + q.size + size))
      (start + total pre' + q.size + size) (start + total pre')
    have linked1 : Linked m1 (lastAddr 0 start pre') (start + total pre') (freeBlock (q.size + size) :: post) :=
      linked_join both (by omega)
    have frame1 : Frame m m1 (start + total pre') (start + total pre' + q.size + size + 4) :=
      join_frame m (by omega)
    have lastAddr1 : memBlkNext m1 (start + total pre' + q.size + size) =
        memBlkNext m (start + total pre' + q.size + size) := by
      unfold memBlkNext
      rw [load32_congr fun x low high => frame1 x (Or.inr (by omega))]
    have joins : lastAddr 0 start (pre' ++ [q]) ≠ 0 ∧
        ¬ memBlkIsUsed m (lastAddr 0 start (pre' ++ [q])) = true := by
      rw [lastAddr_snoc, memBlkIsUsed_eq blockQ smallPrev', unused]
      exact ⟨by omega, by simp⟩
    rw [lastAddr_snoc] at joins
    have unfolded : joinBlk m (start + (total pre' + q.size)) =
        joinNext m1 (start + total pre') (start + total pre' + (q.size + size))
          (memBlkNext m1 (start + total pre' + (q.size + size))) := by
      have place : start + total pre' + (q.size + size) = start + total pre' + q.size + size := by omega
      rw [place, lastAddr1]
      unfold joinBlk joinNext
      dsimp only
      rw [prevAddr, nextAddr, if_pos joins, if_pos joins]
    obtain ⟨linked', frame⟩ := joinNext_linked linked1 (by omega) (by omega)
    rw [unfolded, eq]
    have whole := (frame1.mono (Nat.le_refl _) (by omega)).trans frame
    refine ⟨linked_append.mpr ⟨run_before before' fun x less => whole x (Or.inl less), linked'⟩, ?_⟩
    exact whole.mono (by omega) (by omega)

theorem firstFree_joined {m : Memory} {start : Nat} {pre post : List Blk} {b : Blk}
    (run : Run m 0 start (pre ++ b :: post)) (used : b.used = true) :
    (if start + total pre < firstFree start (pre ++ b :: post) then start + total pre
      else firstFree start (pre ++ b :: post)) = firstFree start (joined pre b.size post) := by
  rw [run_append] at run
  obtain ⟨before, block, -⟩ := run
  have room := block.room
  have head := head_ge b
  by_cases allUsed : ∀ c ∈ pre, c.used = true
  · have later : start + total pre < firstFree start (pre ++ b :: post) := by
      rw [firstFree_skip allUsed, firstFree, if_pos used]
      have := firstFree_ge (start + total pre + b.size) post
      omega
    rw [if_pos later]
    rcases joined_cases pre b.size post with ⟨eq, -⟩ | ⟨pre', q, rfl, unused, -⟩
    · rw [eq, firstFree_skip allUsed, firstFree_joinRight]
    · have := allUsed q (by simp)
      rw [unused] at this
      contradiction
  · have free : ∃ c ∈ pre, c.used = false := by
      obtain ⟨c, member, unused⟩ := not_forall₂.mp allUsed
      exact ⟨c, member, by simpa using unused⟩
    have earlier := firstFree_before before free (b :: post)
    rw [if_neg (by omega)]
    rcases joined_cases pre b.size post with ⟨eq, -⟩ | ⟨pre', q, rfl, unused, eq⟩
    · rw [eq]
      exact firstFree_stays free start _ _
    · rw [eq, List.append_assoc]
      by_cases allUsed' : ∀ c ∈ pre', c.used = true
      · rw [firstFree_skip allUsed', firstFree_skip allUsed', firstFree_joinRight]
        change firstFree (start + total pre') (q :: _) = _
        rw [firstFree, unused, if_neg (by simp)]
      · obtain ⟨c, member, unused'⟩ := not_forall₂.mp allUsed'
        exact firstFree_stays ⟨c, member, by simpa using unused'⟩ start _ _

theorem freeIn_spec {n : Nat} {h : HeapCaps n} {num : Fin n} {pre post : List Blk} {b : Blk}
    (inv : RegionInv h.memory (h.region num) (pre ++ b :: post)) (used : b.used = true) :
    let c := memStart (h.region num) + total pre
    Moved h (freeIn num c h) num (joined pre b.size post) ∧
      ((freeIn num c h).region num).minFreeBytes = (h.region num).minFreeBytes ∧
      (h.region num).freeBytes ≤ ((freeIn num c h).region num).freeBytes := by
  obtain ⟨bounds, linked, end_, freeBytes, freeBlk⟩ := inv
  have limit := bounds.limit
  have high := bounds.high
  have positive := bounds.positive
  have sizes : total (pre ++ b :: post) = total pre + b.size + total post := by simp [Nat.add_assoc]
  have split := linked
  rw [linked_append] at split
  obtain ⟨before, here⟩ := split
  have block := (linked_cons.mp here).1
  have smallPrev : lastAddr 0 (memStart (h.region num)) pre < 2 ^ 31 := by
    have := lastAddr_le (Nat.zero_le (memStart (h.region num))) pre
    omega
  -- the block is released
  let c := memStart (h.region num) + total pre
  let m1 := memBlkSetUntraced (memBlkSetUnused h.memory c) c
  have room := block.room
  have head := head_ge b
  have frame1 : Frame h.memory m1 c (c + 8) := by
    intro x outside
    rw [show m1 x = memBlkSetUnused h.memory c x from store32_other _ _ (by omega),
      show memBlkSetUnused h.memory c x = h.memory x from store32_other _ _ (by omega)]
  have linked1 : Linked m1 0 (memStart (h.region num)) (pre ++ freeBlock b.size :: post) := by
    rw [linked_append]
    exact ⟨run_before before fun x less => frame1 x (Or.inl less), release_linked here smallPrev (by omega)⟩
  -- and joined with its neighbours
  obtain ⟨linked2, frame2⟩ := joinBlk_linked linked1 (by omega) positive
  have frame : Frame h.memory (joinBlk m1 c) (memStart (h.region num)) (memEnd (h.region num) + 8) :=
    (frame1.mono (Nat.le_add_right _ _) (by omega)).trans (frame2.mono (Nat.le_refl _) (by omega))
  have linkSize : blkLinkSize h.memory c = b.size := blkLinkSize_eq block (by omega)
  have freeBound := freeTotal_le (pre ++ b :: post)
  have freeSum : freeTotal (joined pre b.size post) = (h.region num).freeBytes + b.size := by
    rw [freeTotal_joined, freeBytes, freeTotal_append, freeTotal_used used]
    omega
  have joinedBound := freeTotal_le (joined pre b.size post)
  rw [total_joined] at joinedBound
  let r' : HeapRegion :=
    { h.region num with
      freeBytes := wrap ((h.region num).freeBytes + blkLinkSize h.memory c),
      freeBlk := if c < (h.region num).freeBlk then c else (h.region num).freeBlk }
  have bytes : wrap ((h.region num).freeBytes + blkLinkSize h.memory c) = freeTotal (joined pre b.size post) := by
    rw [linkSize, freeSum, wrap, Nat.mod_eq_of_lt (by omega)]
  have same : SameRegion (h.region num) r' := ⟨rfl, rfl, rfl⟩
  have inv' : RegionInv (joinBlk m1 c) r' (joined pre b.size post) := by
    refine ⟨same.bounds bounds, ?_, ?_, bytes, ?_⟩
    · rw [same.memStart]
      exact linked2
    · rw [same.memStart, same.memEnd, total_joined]
      omega
    · rw [same.memStart]
      change (if c < (h.region num).freeBlk then c else (h.region num).freeBlk) = _
      rw [freeBlk]
      exact firstFree_joined linked.1 used
  have result : freeIn num c h = { h with memory := joinBlk m1 c, region := Function.update h.region num r' } := rfl
  refine ⟨result ▸ moved_of_region same frame inv', ?_, ?_⟩
  · rw [result]
    dsimp only
    rw [Function.update_self]
  · rw [result]
    dsimp only
    rw [Function.update_self]
    change _ ≤ wrap _
    rw [bytes, freeSum]
    exact Nat.le_add_right _ _

end EspFirmware.Proof.Heap
