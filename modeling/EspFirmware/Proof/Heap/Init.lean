import EspFirmware.Proof.Heap.Invariant

/-!
The heap from `heap_caps_init` on: every region starts as one free block, and the representation
invariant then holds in every run.
-/

namespace EspFirmware.Proof.Heap
open EspFirmware.Lib Memory EspFirmware.Heap EspFirmware.Spec

variable {n : Nat}

theorem link_false (a : Nat) : link a false = BitVec.ofNat 32 a := by
  simp [link]

def whole (r : HeapRegion) : Blk := freeBlock (memEnd r - memStart r)

section
variable {h : HeapCaps n} {num : Fin n}

theorem initRegion_others {i : Fin n} (other : i ≠ num) : (initRegion h num).region i = h.region i := by
  rw [initRegion]
  exact Function.update_of_ne other _ _

theorem initRegion_same (i : Fin n) : SameRegion (h.region i) ((initRegion h num).region i) := by
  by_cases here : i = num
  · subst here
    rw [initRegion]
    dsimp only
    rw [Function.update_self]
    exact ⟨rfl, rfl, rfl⟩
  · rw [initRegion_others here]
    exact ⟨rfl, rfl, rfl⟩

theorem initRegion_frame {x : Nat} (low : x < memStart (h.region num) ∨ memStart (h.region num) + 8 ≤ x)
    (high : x < memEnd (h.region num) ∨ memEnd (h.region num) + 8 ≤ x) :
    (initRegion h num).memory x = h.memory x := by
  rw [initRegion]
  dsimp only
  rw [store32_other _ _ (by omega), store32_other _ _ (by omega), store32_other _ _ (by omega),
    store32_other _ _ (by omega)]

theorem initRegion_linked (bounds : RegionBounds (h.region num)) (aligned : memEnd (h.region num) % 4 = 0) :
    Linked (initRegion h num).memory 0 (memStart (h.region num)) [whole (h.region num)] := by
  have order := bounds.order
  have end_ : memStart (h.region num) + (memEnd (h.region num) - memStart (h.region num)) =
      memEnd (h.region num) := by omega
  have start := bounds.aligned
  have size : total [whole (h.region num)] = memEnd (h.region num) - memStart (h.region num) := by
    rw [total_cons, total_nil, Nat.add_zero, whole]
  rw [Linked, size, end_]
  refine ⟨⟨⟨?_, ?_, (by intro traced; cases traced), ?_, ?_, fun _ => rfl⟩, trivial⟩, ?_, ?_⟩
  · rw [initRegion]
    dsimp only
    rw [load32_store32_of_apart _ _ (by omega), load32_store32_of_apart _ _ (by omega),
      load32_store32_of_apart _ _ (by omega), load32_store32]
    exact (link_false 0).symm
  · rw [whole, size_freeBlock, end_, initRegion]
    dsimp only
    rw [load32_store32_of_apart _ _ (by omega), load32_store32_of_apart _ _ (by omega), load32_store32]
    exact (link_false _).symm
  · rw [head_untraced rfl, whole]
    dsimp only
    omega
  · rw [whole]
    dsimp only
    omega
  · rw [initRegion]
    dsimp only
    rw [load32_store32_of_apart _ _ (by omega), load32_store32]
    exact (link_false _).symm
  · rw [initRegion]
    dsimp only
    rw [load32_store32]
    exact (link_false 0).symm

theorem initRegion_inv (bounds : RegionBounds (h.region num)) (aligned : memEnd (h.region num) % 4 = 0) :
    RegionInv (initRegion h num).memory ((initRegion h num).region num) [whole (h.region num)] ∧
      ((initRegion h num).region num).minFreeBytes = ((initRegion h num).region num).freeBytes := by
  have same := @initRegion_same n h num num
  have linked := initRegion_linked bounds aligned
  have order := bounds.order
  have limit := bounds.limit
  have high := bounds.high
  have block := (linked_cons.mp linked).1
  have linkSize := blkLinkSize_eq block (by rw [whole, size_freeBlock]; omega)
  have fields : (initRegion h num).region num = { h.region num with
      freeBlk := memStart (h.region num), freeBytes := (whole (h.region num)).size,
      minFreeBytes := (whole (h.region num)).size } := by
    rw [← linkSize, initRegion]
    dsimp only
    rw [Function.update_self]
  refine ⟨⟨same.bounds bounds, ?_, ?_, ?_, ?_⟩, ?_⟩
  · rw [same.memStart]
    exact linked
  · rw [same.memStart, same.memEnd, total_cons, total_nil, Nat.add_zero, whole]
    dsimp only
    omega
  · rw [fields, freeTotal_free rfl]
    rfl
  · rw [same.memStart, fields]
    rfl
  · rw [fields]

end

structure Started (h : HeapCaps n) (regions : Fin n → HeapRegion) (k : Nat) : Prop where
  same : ∀ i, SameRegion (regions i) (h.region i)
  done : ∀ i : Fin n, i.val < k → RegionInv h.memory (h.region i) [whole (regions i)] ∧
    (h.region i).minFreeBytes = (h.region i).freeBytes

theorem espHeapCapsInitRegion_inv {regions : Fin n → HeapRegion} (memory : Memory) (trace : Bool)
    (bounds : ∀ i, RegionBounds (regions i)) (aligned : ∀ i, memEnd (regions i) % 4 = 0)
    (apart : RegionsApart ⟨memory, regions, trace⟩) :
    Started (espHeapCapsInitRegion ⟨memory, regions, trace⟩) regions n := by
  refine foldl_finRange_invariant (fun k h => Started h regions k) initRegion _
    ⟨fun _ => ⟨rfl, rfl, rfl⟩, nofun⟩ fun num h started => ?_
  have same := started.same num
  have here := same.bounds (bounds num)
  have hereAligned : memEnd (h.region num) % 4 = 0 := by
    rw [same.memEnd]
    exact aligned num
  constructor
  · intro i
    have old := started.same i
    have new := @initRegion_same n h num i
    exact ⟨new.startAddr.trans old.startAddr, new.totalSize.trans old.totalSize, new.caps.trans old.caps⟩
  · intro i before
    by_cases now : i = num
    · subst now
      have inv := initRegion_inv here hereAligned
      rw [whole, same.memStart, same.memEnd] at inv
      exact inv
    · obtain ⟨inv, minimum⟩ := started.done i (by have := Fin.val_ne_of_ne now; omega)
      rw [initRegion_others now]
      refine ⟨regionInv_congr inv fun x inside => ?_, minimum⟩
      have mine := header_in_region inv inside
      have low := here.low
      have high := here.high
      have order := here.order
      have sep := apart i num now
      dsimp only at sep
      rw [← (started.same i).startAddr, ← (started.same i).totalSize, ← same.startAddr, ← same.totalSize] at sep
      exact initRegion_frame (by omega) (by omega)

section
variable {r : HeapRegion}

theorem memEnd_eq (limit : r.startAddr + r.totalSize < 2 ^ 31) :
    memEnd r = (r.startAddr + r.totalSize) / 4 * 4 - 8 := by
  have round : heapAlign (r.startAddr + r.totalSize) = (r.startAddr + r.totalSize + 3) / 4 * 4 := by
    rw [heapAlign, wrap, HEAP_ALIGN_SIZE, Nat.mod_eq_of_lt (by omega)]
  rw [memEnd, round, MEM_HEAD_SIZE]
  split
  · omega
  · omega

theorem memEnd_aligned (limit : r.startAddr + r.totalSize < 2 ^ 31) : memEnd r % 4 = 0 := by
  rw [memEnd_eq limit]
  omega

theorem regionBounds_of (positive : 0 < r.startAddr) (room : 32 ≤ r.totalSize)
    (limit : r.startAddr + r.totalSize < 2 ^ 31) : RegionBounds r := by
  have start : memStart r = (r.startAddr + 3) / 4 * 4 := by
    rw [memStart, heapAlign, wrap, HEAP_ALIGN_SIZE, Nat.mod_eq_of_lt (by omega)]
  have end_ := memEnd_eq limit
  constructor <;> omega

end

theorem heapRegions_place (fullIcache : Bool) (symbols : LinkerSymbols) (num : Fin (HEAP_REGIONS_MAX fullIcache)) :
    0 < (heapRegions fullIcache symbols num).startAddr ∧ 32 ≤ (heapRegions fullIcache symbols num).totalSize ∧
      (heapRegions fullIcache symbols num).startAddr + (heapRegions fullIcache symbols num).totalSize < 2 ^ 31 := by
  have iram := symbols.iram
  have dram := symbols.dram
  unfold heapRegions
  split
  · dsimp only
    omega
  · dsimp only
    omega

theorem heapRegions_apart (fullIcache : Bool) (symbols : LinkerSymbols) (memory : Memory) (trace : Bool) :
    RegionsApart ⟨memory, heapRegions fullIcache symbols, trace⟩ := by
  intro i j different
  have iram := symbols.iram
  have dram := symbols.dram
  have different := Fin.val_ne_of_ne different
  have count : HEAP_REGIONS_MAX fullIcache ≤ 2 := by
    cases fullIcache <;> decide
  have inI := i.isLt
  have inJ := j.isLt
  dsimp only [heapRegions]
  by_cases lastI : i.val + 1 = HEAP_REGIONS_MAX fullIcache
  · rw [if_pos lastI, if_neg (by omega)]
    left
    dsimp only
    omega
  · rw [if_neg lastI, if_pos (by omega)]
    right
    dsimp only
    omega

theorem heapCapsInit_inv (fullIcache : Bool) (symbols : LinkerSymbols) (memory : Memory) :
    RunInv (HeapRun.start (heapCapsInit fullIcache symbols memory))
      fun num => [whole (heapRegions fullIcache symbols num)] := by
  have place := heapRegions_place fullIcache symbols
  have apart := heapRegions_apart fullIcache symbols memory false
  have started := espHeapCapsInitRegion_inv memory false
    (fun i => regionBounds_of (place i).1 (place i).2.1 (place i).2.2)
    (fun i => memEnd_aligned (place i).2.2) apart
  refine ⟨⟨fun num => (started.done num num.isLt).1, ?_⟩, ⟨nofun, List.Pairwise.nil⟩, ?_⟩
  · intro i j different
    have sep := apart i j different
    dsimp only at sep
    rw [← (started.same i).startAddr, ← (started.same i).totalSize, ← (started.same j).startAddr,
      ← (started.same j).totalSize] at sep
    exact sep
  · have minimum (num) := (started.done num num.isLt).2
    refine ⟨List.mem_singleton_self _, fun num => ⟨_, List.mem_singleton_self _, (minimum num).symm⟩, ?_⟩
    intro num h member
    rw [List.mem_singleton.mp member]
    exact Nat.le_of_eq (minimum num)

theorem heapCapsInit_tidy (fullIcache : Bool) (symbols : LinkerSymbols) (memory : Memory) :
    TidyRun (heapCapsInit fullIcache symbols memory).region (HeapRun.start (heapCapsInit fullIcache symbols memory))
      fun num => [whole (heapRegions fullIcache symbols num)] := by
  refine ⟨heapCapsInit_inv fullIcache symbols memory, fun num => ⟨rfl, rfl, rfl⟩, fun num => settled_single _, ?_⟩
  intro num x member
  rw [PtrIn, ptrsOf_free rfl] at member
  cases member

/-- Every run of the heap from `heap_caps_init` on has a result, and keeps the representation. -/
theorem heap_representation (fullIcache : Bool) (symbols : LinkerSymbols) (memory : Memory) (events : List HeapEvent)
    (allowed : AllowedRun events (HeapRun.start (heapCapsInit fullIcache symbols memory))) :
    ∃ run blocks, runHeap events (HeapRun.start (heapCapsInit fullIcache symbols memory)) = some run ∧
      HeapOk run blocks := by
  obtain ⟨run, bs, eq, after⟩ := runHeap_keeps (heapCapsInit_tidy fullIcache symbols memory) events allowed
  exact ⟨run, blocksOf run.heap bs, eq, heapOk_of_inv after.inv⟩

def sampleSymbols : LinkerSymbols := ⟨0x40104000, 0x3FFE9000, by decide, by decide⟩

/-- A traced allocation, written to and freed with tracing off. -/
theorem heap_representation_traced :
    ∃ run blocks, runHeap [.trace true, .malloc 10 MALLOC_CAP_8BIT 7 42, .write 0x3FFE9019 1, .trace false,
        .free 0x3FFE9010] (HeapRun.start (heapCapsInit true sampleSymbols fun _ => 0)) = some run ∧
      HeapOk run blocks := by
  refine heap_representation true sampleSymbols (fun _ => 0) _ ⟨trivial, ?_⟩
  intro traced tracedEq
  refine ⟨(by decide : 10 < 2 ^ 31), fun given givenEq => ?_⟩
  have live : (runHeap [.trace true, .malloc 10 MALLOC_CAP_8BIT 7 42]
      (HeapRun.start (heapCapsInit true sampleSymbols fun _ => 0))).map HeapRun.live =
      some [⟨0x3FFE9010, 10, MALLOC_CAP_8BIT⟩] := by
    decide
  have given_live : given.live = [⟨0x3FFE9010, 10, MALLOC_CAP_8BIT⟩] := by
    rw [runHeap, tracedEq, Option.bind_some, runHeap, givenEq] at live
    exact Option.some.inj live
  refine ⟨⟨⟨0x3FFE9010, 10, MALLOC_CAP_8BIT⟩, by rw [given_live]; exact List.mem_singleton_self _, by decide⟩, ?_⟩
  rintro written writtenEq
  obtain rfl := Option.some.inj writtenEq
  refine ⟨trivial, ?_⟩
  rintro untraced untracedEq
  obtain rfl := Option.some.inj untracedEq
  refine ⟨Or.inr ?_, fun _ _ => trivial⟩
  change 0x3FFE9010 ∈ given.live.map Alloc.ptr
  rw [given_live]
  exact List.mem_singleton_self _

theorem heapCapsInit_freeBytes (fullIcache : Bool) (symbols : LinkerSymbols) (memory : Memory)
    (num : Fin (HEAP_REGIONS_MAX fullIcache)) :
    ((heapCapsInit fullIcache symbols memory).region num).freeBytes =
      memEnd ((heapCapsInit fullIcache symbols memory).region num) -
        memStart ((heapCapsInit fullIcache symbols memory).region num) := by
  have begun := heapCapsInit_tidy fullIcache symbols memory
  exact (returned_of_tidy begun.inv.heap begun.tidy num).2.2

/-- Whatever is allocated and given back in a run, the heap stays whole. -/
theorem heap_stays_whole (fullIcache : Bool) (symbols : LinkerSymbols) (memory : Memory) (events : List HeapEvent)
    (allowed : AllowedRun events (HeapRun.start (heapCapsInit fullIcache symbols memory))) :
    ∃ run blocks, runHeap events (HeapRun.start (heapCapsInit fullIcache symbols memory)) = some run ∧
      HeapWhole (heapCapsInit fullIcache symbols memory) run blocks := by
  obtain ⟨run, bs, eq, after⟩ := runHeap_keeps (heapCapsInit_tidy fullIcache symbols memory) events allowed
  exact ⟨run, blocksOf run.heap bs, eq, heapWhole_of_tidy (heapCapsInit_freeBytes fullIcache symbols memory) after⟩

/-- Two allocations, the first freed first. -/
theorem heap_stays_whole_twice :
    ∃ run blocks, runHeap [.malloc 10 MALLOC_CAP_8BIT 7 42, .malloc 20 MALLOC_CAP_8BIT 7 43, .free 0x3FFE9008,
        .free 0x3FFE901C] (HeapRun.start (heapCapsInit true sampleSymbols fun _ => 0)) = some run ∧
      HeapWhole (heapCapsInit true sampleSymbols fun _ => 0) run blocks := by
  refine heap_stays_whole true sampleSymbols (fun _ => 0) _ ⟨(by decide : 10 < 2 ^ 31), ?_⟩
  intro once onceEq
  refine ⟨(by decide : 20 < 2 ^ 31), fun twice twiceEq => ?_⟩
  have live : (runHeap [.malloc 10 MALLOC_CAP_8BIT 7 42, .malloc 20 MALLOC_CAP_8BIT 7 43]
      (HeapRun.start (heapCapsInit true sampleSymbols fun _ => 0))).map HeapRun.live =
      some [⟨0x3FFE901C, 20, MALLOC_CAP_8BIT⟩, ⟨0x3FFE9008, 10, MALLOC_CAP_8BIT⟩] := by
    decide
  have twice_live : twice.live = [⟨0x3FFE901C, 20, MALLOC_CAP_8BIT⟩, ⟨0x3FFE9008, 10, MALLOC_CAP_8BIT⟩] := by
    rw [runHeap, onceEq, Option.bind_some, runHeap, twiceEq] at live
    exact Option.some.inj live
  refine ⟨Or.inr (by rw [twice_live]; decide), ?_⟩
  rintro freed freedEq
  obtain rfl := Option.some.inj freedEq
  refine ⟨Or.inr ?_, fun _ _ => trivial⟩
  change 0x3FFE901C ∈ (twice.live.filter fun a => a.ptr ≠ 0x3FFE9008).map Alloc.ptr
  rw [twice_live]
  decide

end EspFirmware.Proof.Heap
