import Mathlib.Data.List.Pairwise
import EspFirmware.Proof.Heap.Run

/-!
The representation invariant of the heap, from `heap_caps_init` on.
-/

namespace EspFirmware.Proof.Heap
open EspFirmware.Lib Memory EspFirmware.Heap EspFirmware.Spec

variable {n : Nat}

def addrs : Nat → List Blk → List Nat
  | _, [] => []
  | a, b :: bs => a :: addrs (a + b.size) bs

theorem addrs_cons (a : Nat) (b : Blk) (bs : List Blk) : addrs a (b :: bs) = a :: addrs (a + b.size) bs := rfl

theorem addrs_append (a : Nat) (as bs : List Blk) : addrs a (as ++ bs) = addrs a as ++ addrs (a + total as) bs := by
  induction as generalizing a with
  | nil => rfl
  | cons b as ih => rw [List.cons_append, addrs_cons, ih, addrs_cons, total_cons, List.cons_append, Nat.add_assoc]

theorem head_addrs (a : Nat) (bs : List Blk) : (addrs a bs ++ [a + total bs]).head? = some a := by
  cases bs with
  | nil => rfl
  | cons b bs => rfl

section
variable {m : Memory} {prev a : Nat} {bs : List Blk}

theorem addrs_bounds (run : Run m prev a bs) {x : Nat} (member : x ∈ addrs a bs) :
    a ≤ x ∧ x + 8 ≤ a + total bs := by
  induction bs generalizing prev a with
  | nil => exact absurd member List.not_mem_nil
  | cons b bs ih =>
      have room := run.1.room
      have head := head_ge b
      rw [total_cons]
      rcases List.mem_cons.mp member with rfl | later
      · omega
      · have := ih run.2 later
        omega

theorem addrs_increasing (run : Run m prev a bs) : (addrs a bs ++ [a + total bs]).Pairwise (· < ·) := by
  induction bs generalizing prev a with
  | nil => exact List.pairwise_singleton _ _
  | cons b bs ih =>
      have room := run.1.room
      have head := head_ge b
      have rest := ih run.2
      rw [total_cons, ← Nat.add_assoc]
      refine List.pairwise_cons.mpr ⟨fun x later => ?_, rest⟩
      rcases List.mem_append.mp later with inside | last
      · have := (addrs_bounds run.2 inside).1
        omega
      · have := List.mem_singleton.mp last
        omega

theorem addrs_chained (linked : Linked m prev a bs) (small : a + total bs < 2 ^ 31) :
    Chained m (addrs a bs ++ [a + total bs]) := by
  induction bs generalizing prev a with
  | nil => exact trivial
  | cons b bs ih =>
      rw [total_cons] at small
      rw [linked_cons] at linked
      obtain ⟨block, rest⟩ := linked
      have later := ih rest (by omega)
      have next := memBlkNext_eq block (by omega)
      rw [total_cons, ← Nat.add_assoc]
      cases bs with
      | nil =>
          refine ⟨⟨next, ?_⟩, trivial⟩
          have word := rest.2.1
          rw [total_nil, Nat.add_zero] at word
          change memBlkPrev m (a + b.size) = a
          rw [memBlkPrev, word, MEM_BLK_TAG, lastAddr, link_and_not_top (by omega), toNat_link (by omega)]
      | cons c cs => exact ⟨⟨next, memBlkPrev_eq rest.1.1 (by omega)⟩, later⟩

theorem addrs_free (run : Run m prev a bs) (smallPrev : prev < 2 ^ 31) (small : a + total bs < 2 ^ 31) :
    (((addrs a bs).filter fun b => !memBlkIsUsed m b).map (blkLinkSize m)).sum = freeTotal bs := by
  induction bs generalizing prev a with
  | nil => rfl
  | cons b bs ih =>
      rw [total_cons] at small
      have rest := ih run.2 (by omega) (by omega)
      have used := memBlkIsUsed_eq run.1 smallPrev
      have linkSize := blkLinkSize_eq run.1 (by omega)
      cases flag : b.used with
      | true =>
          rw [flag] at used
          rw [addrs_cons, List.filter_cons_of_neg (by simp [used]), rest, freeTotal_used flag]
      | false =>
          rw [flag] at used
          rw [addrs_cons, List.filter_cons_of_pos (by simp [used]), List.map_cons, List.sum_cons, rest, linkSize,
            freeTotal_free flag]

theorem addrs_neighbours (run : Run m prev a bs) (smallPrev : prev < 2 ^ 31) (small : a + total bs < 2 ^ 31)
    (settled : Settled bs) : NoFreeNeighbours m (addrs a bs) := by
  induction bs generalizing prev a with
  | nil => trivial
  | cons b bs ih =>
      rw [total_cons] at small
      obtain ⟨next, after⟩ := settled_cons.mp settled
      have rest := ih run.2 (by omega) (by omega) after
      cases bs with
      | nil => trivial
      | cons c bs =>
          refine ⟨?_, rest⟩
          rw [memBlkIsUsed_eq run.1 smallPrev, memBlkIsUsed_eq run.2.1 (by omega)]
          exact next c rfl

theorem addrs_find (run : Run m prev a bs) (smallPrev : prev < 2 ^ 31) (small : a + total bs < 2 ^ 31) :
    ((addrs a bs).find? fun b => !memBlkIsUsed m b).getD (a + total bs) = firstFree a bs := by
  induction bs generalizing prev a with
  | nil => rfl
  | cons b bs ih =>
      rw [total_cons] at small
      have rest := ih run.2 (by omega) (by omega)
      have used := memBlkIsUsed_eq run.1 smallPrev
      rw [addrs_cons, firstFree]
      cases flag : b.used with
      | true =>
          rw [flag] at used
          rw [List.find?_cons_of_neg (by simp [used]), total_cons, ← Nat.add_assoc, rest, if_pos rfl]
      | false =>
          rw [flag] at used
          rw [List.find?_cons_of_pos (by simp [used]), if_neg (by simp)]
          rfl

theorem addrs_tooSmall (run : Run m prev a bs) (smallPrev : prev < 2 ^ 31) (small : a + total bs < 2 ^ 31) {k : Nat} :
    TooSmall bs k ↔ ∀ x ∈ addrs a bs, memBlkIsUsed m x = false → blkLinkSize m x < k := by
  induction bs generalizing prev a with
  | nil => exact ⟨fun _ x none => absurd none List.not_mem_nil, fun _ b none => absurd none List.not_mem_nil⟩
  | cons b bs ih =>
      rw [total_cons] at small
      have rest := ih run.2 (by omega) (by omega)
      rw [TooSmall, List.forall_mem_cons, addrs_cons, List.forall_mem_cons, memBlkIsUsed_eq run.1 smallPrev,
        blkLinkSize_eq run.1 (by omega), ← rest, TooSmall]

theorem headers_apart (run : Run m prev a bs) (small : a + total bs < 2 ^ 31) :
    ((addrs a bs).map (headerArea m)).Pairwise Area.Apart ∧
      ∀ area ∈ (addrs a bs).map (headerArea m), a ≤ area.address ∧ area.address + area.size ≤ a + total bs := by
  induction bs generalizing prev a with
  | nil => exact ⟨List.Pairwise.nil, nofun⟩
  | cons b bs ih =>
      rw [total_cons] at small
      obtain ⟨apart, inside⟩ := ih run.2 (by omega)
      have room := run.1.room
      have first : headerArea m a = ⟨a, b.head⟩ := by
        rw [headerArea, memBlkIsTraced_eq run.1 (by omega), Blk.head]
      rw [addrs_cons, List.map_cons, first]
      refine ⟨List.pairwise_cons.mpr ⟨fun area later => Or.inl ?_, apart⟩, ?_⟩
      · have := (inside area later).1
        dsimp only
        omega
      · rw [total_cons]
        intro area member
        rcases List.mem_cons.mp member with rfl | later
        · dsimp only
          omega
        · have := inside area later
          omega

end

theorem ptrsOf_sorted {m : Memory} {prev a : Nat} {bs : List Blk} (run : Run m prev a bs) :
    (ptrsOf a bs).Pairwise fun x y => x.1 + x.2 ≤ y.1 := by
  induction bs generalizing prev a with
  | nil => exact List.Pairwise.nil
  | cons b bs ih =>
      have room := run.1.room
      cases used : b.used with
      | true =>
          rw [ptrsOf_used used]
          refine List.pairwise_cons.mpr ⟨fun x later => ?_, ih run.2⟩
          have := (ptrsOf_bounds run.2 later).1
          dsimp only
          omega
      | false =>
          rw [ptrsOf_free used]
          exact ih run.2

section
variable {h : HeapCaps n} {bs : Fin n → List Blk} {live : List Alloc}

def blocksOf (h : HeapCaps n) (bs : Fin n → List Blk) (num : Fin n) : List Nat :=
  addrs (memStart (h.region num)) (bs num)

theorem region_small (inv : HeapInv h bs) (num : Fin n) :
    memStart (h.region num) + total (bs num) + 8 < 2 ^ 31 + 8 ∧ memStart (h.region num) + total (bs num) < 2 ^ 31 := by
  have region := inv.regions num
  have end_ := region.end_
  have high := region.bounds.high
  have limit := region.bounds.limit
  omega

theorem regionHeaders_inside (inv : HeapInv h bs) (num : Fin n) {area : Area}
    (member : area ∈ regionHeaders h.memory (h.region num) (blocksOf h bs num)) :
    (h.region num).startAddr ≤ area.address ∧
      area.address + area.size ≤ (h.region num).startAddr + (h.region num).totalSize := by
  have region := inv.regions num
  have end_ := region.end_
  have low := region.bounds.low
  have high := region.bounds.high
  have order := region.bounds.order
  rcases List.mem_append.mp member with header | last
  · have := (headers_apart region.linked.1 (region_small inv num).2).2 area header
    omega
  · have eight : MEM_HEAD_SIZE = 8 := rfl
    rw [List.mem_singleton] at last
    subst last
    dsimp only
    omega

theorem regionHeaders_apart (inv : HeapInv h bs) (num : Fin n) :
    (regionHeaders h.memory (h.region num) (blocksOf h bs num)).Pairwise Area.Apart := by
  have region := inv.regions num
  obtain ⟨apart, inside⟩ := headers_apart region.linked.1 (region_small inv num).2
  refine List.pairwise_append.mpr ⟨apart, List.pairwise_singleton _ _, ?_⟩
  intro header member last isLast
  rw [List.mem_singleton] at isLast
  subst isLast
  have := (inside header member).2
  rw [region.end_] at this
  exact Or.inl this

theorem headers_all_apart (inv : HeapInv h bs) :
    ((List.finRange n).flatMap fun num =>
      regionHeaders h.memory (h.region num) (blocksOf h bs num)).Pairwise Area.Apart := by
  rw [List.pairwise_flatMap]
  refine ⟨fun num _ => regionHeaders_apart inv num, ?_⟩
  refine (List.nodup_finRange n).imp ?_
  intro i j different x inI y inJ
  have left := regionHeaders_inside inv i inI
  have right := regionHeaders_inside inv j inJ
  rcases inv.apart i j different with before | after
  · exact Or.inl (by omega)
  · exact Or.inr (by omega)

theorem ptrIn_inside (inv : HeapInv h bs) {num : Fin n} {x : Nat × Nat} (member : PtrIn h bs num x) :
    (h.region num).startAddr ≤ x.1 ∧ x.1 + x.2 ≤ (h.region num).startAddr + (h.region num).totalSize := by
  have range := ptrIn_bounds inv member
  have low := (inv.regions num).bounds.low
  have high := (inv.regions num).bounds.high
  omega

theorem ptrs_apart (inv : HeapInv h bs) {i j : Fin n} {x y : Nat × Nat} (inI : PtrIn h bs i x)
    (inJ : PtrIn h bs j y) (different : x.1 ≠ y.1) : x.1 + x.2 ≤ y.1 ∨ y.1 + y.2 ≤ x.1 := by
  by_cases here : i = j
  · subst here
    have sorted := ptrsOf_sorted (inv.regions i).linked.1
    have either : (ptrsOf (memStart (h.region i)) (bs i)).Pairwise
        fun x y => x.1 + x.2 ≤ y.1 ∨ y.1 + y.2 ≤ x.1 := sorted.imp Or.inl
    have : Std.Symm fun x y : Nat × Nat => x.1 + x.2 ≤ y.1 ∨ y.1 + y.2 ≤ x.1 := ⟨fun _ _ => Or.symm⟩
    exact either.forall inI inJ fun same => different (congrArg Prod.fst same)
  · have left := ptrIn_inside inv inI
    have right := ptrIn_inside inv inJ
    rcases inv.apart i j here with before | after
    · left
      omega
    · right
      omega

theorem live_apart (inv : HeapInv h bs) (live_ : LiveInv h bs live) :
    (live.map Alloc.area).Pairwise Area.Apart := by
  have distinct := live_.distinct
  rw [List.Nodup, List.pairwise_map] at distinct
  rw [List.pairwise_map]
  refine distinct.imp_of_mem ?_
  intro a b inLive inLive' different
  obtain ⟨i, room, inI, enough, -⟩ := live_.given a inLive
  obtain ⟨j, room', inJ, enough', -⟩ := live_.given b inLive'
  rcases ptrs_apart inv inI inJ different with before | after
  · left
    change a.ptr + a.size ≤ b.ptr
    dsimp only at before
    omega
  · right
    change b.ptr + b.size ≤ a.ptr
    dsimp only at after
    omega

theorem header_live_apart (inv : HeapInv h bs) {i num : Fin n} {area : Area} {ptr room size : Nat}
    (header : area ∈ regionHeaders h.memory (h.region i) (blocksOf h bs i)) (member : PtrIn h bs num (ptr, room))
    (enough : size ≤ room) : Area.Apart area ⟨ptr, size⟩ := by
  have range := ptrIn_bounds inv member
  dsimp only at range
  by_cases here : i = num
  · subst here
    obtain ⟨pre, b, post, split, -, place⟩ := ptrsOf_split member
    injection place with atPtr atRoom
    have run := (inv.regions i).linked.1
    have small := (region_small inv i).2
    rw [split, run_append] at run
    rw [split, total_append, total_cons] at small
    obtain ⟨before, block, after⟩ := run
    have roomB := block.room
    have first : headerArea h.memory (memStart (h.region i) + total pre) =
        ⟨memStart (h.region i) + total pre, b.head⟩ := by
      rw [headerArea, memBlkIsTraced_eq block (by omega), Blk.head]
    rcases List.mem_append.mp header with inBlocks | last
    · rw [blocksOf, split, addrs_append, addrs_cons, List.map_append, List.map_cons, first] at inBlocks
      rcases List.mem_append.mp inBlocks with early | later
      · have := ((headers_apart before (by omega)).2 area early).2
        left
        dsimp only
        omega
      · rcases List.mem_cons.mp later with rfl | late
        · left
          dsimp only
          omega
        · have := ((headers_apart after (by omega)).2 area late).1
          right
          dsimp only
          omega
    · rw [List.mem_singleton] at last
      subst last
      right
      dsimp only
      omega
  · have left := regionHeaders_inside inv i header
    have right := ptrIn_inside inv member
    dsimp only at right
    rcases inv.apart i num here with before | after
    · left
      dsimp only
      omega
    · right
      dsimp only
      omega

theorem alloc_ok (inv : HeapInv h bs) (live_ : LiveInv h bs live) {a : Alloc} (member : a ∈ live) :
    AllocOk h (blocksOf h bs) a := by
  obtain ⟨num, room, inRegion, enough, capable⟩ := live_.given a member
  obtain ⟨pre, b, post, split, used, place⟩ := ptrsOf_split inRegion
  injection place with atPtr atRoom
  have run := (inv.regions num).linked.1
  have small := (region_small inv num).2
  rw [split, run_append] at run
  rw [split, total_append, total_cons] at small
  have block := run.2.1
  have roomB := block.room
  have smallPrev : lastAddr 0 (memStart (h.region num)) pre < 2 ^ 31 := by
    have := lastAddr_le (Nat.zero_le (memStart (h.region num))) pre
    omega
  have traced : ptrIsTraced h.memory a.ptr = b.traced := by
    rw [atPtr]
    exact ptrIsTraced_eq block (by omega)
  have blk : ptr2blk a.ptr b.traced = memStart (h.region num) + total pre := by
    rw [atPtr, ptr2blk]
    exact Nat.add_sub_cancel _ _
  unfold AllocOk
  dsimp only
  rw [traced, blk]
  refine ⟨num, ?_, capable, ?_, atPtr, ?_⟩
  · rw [blocksOf, split, addrs_append]
    exact List.mem_append_right _ List.mem_cons_self
  · rw [memBlkIsUsed_eq block smallPrev, used]
  · rw [blkLinkSize_eq block (by omega)]
    change b.head + a.size ≤ b.size
    omega

end

theorem heapOk_of_inv {run : HeapRun n} {bs : Fin n → List Blk} (inv : RunInv run bs) :
    HeapOk run (blocksOf run.heap bs) := by
  refine ⟨?_, fun a member => alloc_ok inv.heap inv.live member, ?_, inv.minima.reached, inv.minima.least⟩
  · intro num
    have region := inv.heap.regions num
    have small := (region_small inv.heap num).2
    have end_ := region.end_
    have first := region.linked
    refine ⟨?_, ?_, ?_, ?_, ?_, ?_⟩
    · rw [← end_]
      exact addrs_chained region.linked small
    · rw [← end_]
      exact addrs_increasing region.linked.1
    · rw [← end_]
      exact head_addrs _ _
    · have order := region.bounds.order
      cases list : bs num with
      | nil =>
          rw [list, total_nil] at end_
          omega
      | cons b rest =>
          rw [list, linked_cons] at first
          exact memBlkPrev_eq first.1 (by decide)
    · rw [← end_]
      exact endAt_next region.linked.2
    · rw [region.freeBytes]
      exact (addrs_free region.linked.1 (by decide) small).symm
  · refine List.pairwise_append.mpr ⟨headers_all_apart inv.heap, live_apart inv.heap inv.live, ?_⟩
    intro header isHeader area isArea
    obtain ⟨i, -, header⟩ := List.mem_flatMap.mp isHeader
    obtain ⟨a, member, rfl⟩ := List.mem_map.mp isArea
    obtain ⟨num, room, inRegion, enough, -⟩ := inv.live.given a member
    exact header_live_apart inv.heap header inRegion enough

theorem returned_of_tidy {regions : Fin n → HeapRegion} {h : HeapCaps n} {bs : Fin n → List Blk} (inv : HeapInv h bs)
    (tidy : Tidy regions h bs []) (num : Fin n) :
    blocksOf h bs num = [memStart (h.region num)] ∧ memBlkIsUsed h.memory (memStart (h.region num)) = false ∧
      (h.region num).freeBytes = memEnd (regions num) - memStart (regions num) := by
  have region := inv.regions num
  have single := tidy.whole inv num
  have blocks := region.linked.1
  have free := region.freeBytes
  rw [single] at blocks free
  refine ⟨by rw [blocksOf, single]; rfl, ?_, ?_⟩
  · rw [memBlkIsUsed_eq blocks.1 (by decide)]
  · rw [free, freeTotal_free rfl, size_freeBlock, (tidy.place num).memStart, (tidy.place num).memEnd]
    rfl

theorem heapWhole_of_tidy {start : HeapCaps n} {run : HeapRun n} {bs : Fin n → List Blk}
    (fresh : ∀ num, (start.region num).freeBytes = memEnd (start.region num) - memStart (start.region num))
    (after : TidyRun start.region run bs) : HeapWhole start run (blocksOf run.heap bs) := by
  have inv := after.inv.heap
  have tidy := after.tidy
  have small (num) := (region_small inv num).2
  refine ⟨(heapOk_of_inv after.inv).regions, ?_, ?_, ?_, ?_⟩
  · intro num
    exact addrs_neighbours (inv.regions num).linked.1 (by decide) (small num) (tidy.settled num)
  · intro num
    have first := addrs_find (inv.regions num).linked.1 (by decide) (small num)
    rw [(inv.regions num).freeBlk, ← first, (inv.regions num).end_]
    rfl
  · intro size caps file line h' _ null num hasCaps
    have tooSmall := mallocLoop_null inv null num (List.mem_finRange num) hasCaps
    exact (addrs_tooSmall (inv.regions num).linked.1 (by decide) (small num)).mp tooSmall
  · intro none_ num
    rw [none_] at tidy
    rw [fresh num]
    exact returned_of_tidy inv tidy num

end EspFirmware.Proof.Heap
