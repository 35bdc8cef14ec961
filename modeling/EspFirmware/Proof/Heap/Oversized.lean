import EspFirmware.Spec.Heap
import EspFirmware.Proof.Heap.Init

/-!
Requests of any size: what is counted without wrapping is served, and what wraps is served only where no free
block is as large as what is left of it.
-/

namespace EspFirmware.Proof.Heap
open EspFirmware.Lib Memory EspFirmware.Heap EspFirmware.Spec

variable {n : Nat} {regions : Fin n → HeapRegion} {h : HeapCaps n} {bs : Fin n → List Blk} {live : List Alloc}

theorem blocksFrom_eq {m : Memory} {prev a : Nat} {bs : List Blk} (run : Run m prev a bs)
    (small : a + total bs < 2 ^ 31) {fuel : Nat} (enough : bs.length < fuel) :
    blocksFrom m (a + total bs) fuel a = addrs a bs := by
  induction bs generalizing prev a fuel with
  | nil =>
      obtain ⟨fuel, rfl⟩ := Nat.exists_eq_succ_of_ne_zero (by omega : fuel ≠ 0)
      rw [total_nil, Nat.add_zero, Nat.succ_eq_add_one, blocksFrom, if_pos rfl, addrs]
  | cons b bs ih =>
      obtain ⟨fuel, rfl⟩ := Nat.exists_eq_succ_of_ne_zero (by omega : fuel ≠ 0)
      rw [total_cons] at small
      have room := run.1.room
      have head := head_ge b
      rw [total_cons, Nat.succ_eq_add_one, blocksFrom, if_neg (by omega), memBlkNext_eq run.1 (by omega), addrs_cons,
        ← Nat.add_assoc, ih run.2 (by omega) (by simpa using enough)]

theorem heapBlocks_eq (inv : HeapInv h bs) (num : Fin n) : heapBlocks h num = blocksOf h bs num := by
  have region := inv.regions num
  have small := (region_small inv num).2
  have count := length_le_total region.linked.1
  rw [heapBlocks, ← region.end_]
  exact blocksFrom_eq region.linked.1 small (by unfold ADDRESSES; omega)

theorem noBlockFor_iff (inv : HeapInv h bs) {bytes : Nat} {caps : Word} :
    NoBlockFor h bytes caps ↔ ∀ num, (h.region num).caps &&& caps = caps →
      TooSmall (bs num) (ptr2memblkSize (wrap bytes) h.trace) := by
  refine forall_congr' fun num => imp_congr_right fun _ => ?_
  rw [heapBlocks_eq inv]
  exact (addrs_tooSmall (inv.regions num).linked.1 (by decide) (region_small inv num).2).symm

theorem sized_of_fits (inv : HeapInv h bs) {bytes : Nat} {caps : Word} (fits : Fits h bytes caps) :
    Sized h bs bytes caps :=
  fits.imp id (noBlockFor_iff inv).mp

theorem eventSized_of_fitting {run : HeapRun n} (inv : HeapInv run.heap bs) {e : HeapEvent}
    (fitting : HeapEvent.Fitting run e) : EventSized run bs e := by
  cases e with
  | malloc => exact ⟨fitting.1, sized_of_fits inv fitting.2⟩
  | zalloc => exact ⟨fitting.1, sized_of_fits inv fitting.2⟩
  | calloc => exact sized_of_fits inv fitting.2.2
  | realloc => exact ⟨fitting.1, sized_of_fits inv fitting.2.1, fitting.2.2⟩
  | free => exact fitting
  | trace => exact fitting
  | write => exact fitting

theorem granted_of_ok {run : HeapRun n} {a : Alloc} {blocks : Fin n → List Nat} (ok : HeapOk run blocks)
    (newest : run.live = a :: live) : Granted run.heap live a := by
  have disjoint := ok.disjoint
  rw [newest, List.map_cons] at disjoint
  obtain ⟨-, lives, apart⟩ := List.pairwise_append.mp disjoint
  refine ⟨blocks, ok.regions, ok.allocs a (by rw [newest]; exact List.mem_cons_self), ?_, ?_⟩
  · intro num area member
    exact apart area (List.mem_flatMap.mpr ⟨num, List.mem_finRange num, member⟩) _ List.mem_cons_self
  · intro b member
    exact (List.pairwise_cons.mp lives).1 _ (List.mem_map_of_mem member)

theorem heapCapsMalloc_null (inv : HeapInv h bs) {size : Nat} {caps file line : Word} {h' : HeapCaps n}
    (null : heapCapsMalloc size caps file line h = some (h', 0)) :
    h' = h ∧ ∀ num, (h.region num).caps &&& caps = caps → TooSmall (bs num) (ptr2memblkSize size h.trace) := by
  have tooSmall := fun num => mallocLoop_null inv null num (List.mem_finRange num)
  have unchanged := mallocLoop_refused inv tooSmall file line (List.finRange n)
  rw [heapCapsMalloc, unchanged] at null
  exact ⟨(congrArg Prod.fst (Option.some.inj null)).symm, tooSmall⟩

theorem heapCapsZalloc_null {size : Nat} {caps file line : Word} {h' : HeapCaps n}
    (null : heapCapsZalloc size caps file line h = some (h', 0)) :
    heapCapsMalloc size caps file line h = some (h', 0) := by
  unfold heapCapsZalloc at null
  cases result : heapCapsMalloc size caps file line h with
  | none =>
      rw [result] at null
      cases null
  | some found =>
      obtain ⟨found, ptr⟩ := found
      rw [result] at null
      dsimp only at null
      have isNull := congrArg Prod.snd (Option.some.inj null)
      dsimp only at isNull
      rw [isNull, if_neg (not_not_intro rfl)] at null
      rw [← null, isNull]

section
variable {run : HeapRun n} {bytes : Nat} {caps : Word}

theorem TidyRun.served (before : TidyRun regions run bs) {h' : HeapCaps n} {ptr : Nat} {bs' : Fin n → List Blk}
    (result : Malloced run.heap h' bs bs' run.live ptr bytes caps)
    (tidy : Tidy regions h' bs' (given run.live ptr bytes caps)) (unchanged : ptr = 0 → h' = run.heap) :
    Served run bytes caps (some (h', ptr)) := by
  by_cases null : ptr = 0
  · left
    rw [unchanged null, null]
  · right
    have after := before.malloced result tidy
    rw [HeapRun.give, if_pos null] at after
    exact ⟨h', ptr, rfl, null, granted_of_ok (heapOk_of_inv after.inv) rfl⟩

theorem malloc_served (before : TidyRun regions run bs) (fits : Fits run.heap bytes caps) (file line : Word) :
    Served run bytes caps (heapCapsMalloc (wrap bytes) caps file line run.heap) := by
  have inv := before.inv
  obtain ⟨h', ptr, bs', eq, result, tidy⟩ := heapCapsMalloc_spec inv.heap inv.live before.tidy inv.minima.below
    (sized_of_fits inv.heap fits) file line
  rw [eq]
  refine before.served result tidy fun null => ?_
  rw [null] at eq
  exact (heapCapsMalloc_null inv.heap eq).1

theorem zalloc_served (before : TidyRun regions run bs) (fits : Fits run.heap bytes caps) (file line : Word) :
    Served run bytes caps (heapCapsZalloc (wrap bytes) caps file line run.heap) := by
  have inv := before.inv
  obtain ⟨h', ptr, bs', eq, result, tidy⟩ := heapCapsZalloc_spec inv.heap inv.live before.tidy inv.minima.below
    (sized_of_fits inv.heap fits) file line
  rw [eq]
  refine before.served result tidy fun null => ?_
  rw [null] at eq
  exact (heapCapsMalloc_null inv.heap (heapCapsZalloc_null eq)).1

end

theorem mallocFrom_sameRegion {num : Fin n} {size ptr : Nat} {caps file line : Word} {h' : HeapCaps n}
    (result : mallocFrom size caps file line num h = some (h', ptr)) (i : Fin n) :
    SameRegion (h.region i) (h'.region i) := by
  unfold mallocFrom at result
  dsimp only at result
  split at result
  · cases result
    exact ⟨rfl, rfl, rfl⟩
  split at result
  · cases result
    exact ⟨rfl, rfl, rfl⟩
  split at result
  · cases result
  split at result
  · cases result
    exact ⟨rfl, rfl, rfl⟩
  split at result
  · cases result
  · cases result
    by_cases here : i = num
    · subst here
      dsimp only
      rw [Function.update_self]
      exact ⟨rfl, rfl, rfl⟩
    · dsimp only
      rw [Function.update_of_ne here]
      exact ⟨rfl, rfl, rfl⟩

theorem mallocLoop_sameRegion {size ptr : Nat} {caps file line : Word} {nums : List (Fin n)} {h' : HeapCaps n}
    (result : mallocLoop size caps file line nums h = some (h', ptr)) (i : Fin n) :
    SameRegion (h.region i) (h'.region i) := by
  induction nums generalizing h with
  | nil =>
      cases result
      exact ⟨rfl, rfl, rfl⟩
  | cons num rest ih =>
      rw [mallocLoop] at result
      cases first : mallocFrom size caps file line num h with
      | none =>
          rw [first] at result
          cases result
      | some found =>
          have same := mallocFrom_sameRegion first i
          rw [first] at result
          dsimp only at result
          split at result
          · cases result
            exact same
          · exact same.trans (ih result)

theorem heapCapsZalloc_sameRegion {size ptr : Nat} {caps file line : Word} {h' : HeapCaps n}
    (result : heapCapsZalloc size caps file line h = some (h', ptr)) (i : Fin n) :
    SameRegion (h.region i) (h'.region i) := by
  unfold heapCapsZalloc at result
  split at result
  · cases result
  · rename_i found _ first
    have same := mallocLoop_sameRegion first i
    have heap := congrArg Prod.fst (Option.some.inj result)
    dsimp only at heap
    rw [← heap]
    split <;> exact same

theorem chained_linkSize {m : Memory} {blocks : List Nat} {last : Nat} (chained : Chained m (blocks ++ [last]))
    (increasing : (blocks ++ [last]).Pairwise (· < ·)) (small : last < 2 ^ 31) {blk : Nat} (member : blk ∈ blocks) :
    blkLinkSize m blk < 2 ^ 31 := by
  induction blocks with
  | nil => cases member
  | cons a rest ih =>
      obtain ⟨least, later⟩ := List.pairwise_cons.mp increasing
      cases member with
      | head =>
          have atEnd : blk < last := least last (List.mem_append_right _ List.mem_cons_self)
          cases rest with
          | nil =>
              have next : memBlkNext m blk = last := chained.1.1
              rw [blkLinkSize, next, minus]
              omega
          | cons b rest =>
              have next : memBlkNext m blk = b := chained.1.1
              have order : b < last :=
                (List.pairwise_cons.mp later).1 last (List.mem_append_right _ List.mem_cons_self)
              have here : blk < b := least b List.mem_cons_self
              rw [blkLinkSize, next, minus]
              omega
      | tail _ member =>
          cases rest with
          | nil => cases member
          | cons b rest => exact ih chained.2 later member

theorem granted_small {a : Alloc} (granted : Granted h live a) (small : ∀ num, memEnd (h.region num) < 2 ^ 31) :
    a.size < 2 ^ 31 := by
  obtain ⟨blocks, regions, block, -, -⟩ := granted
  obtain ⟨num, member, -, -, -, room⟩ := block
  have linkSize := chained_linkSize (regions num).chained (regions num).increasing (small num) member
  omega

section
variable {run : HeapRun n} {bytes : Nat} {caps : Word}

theorem fits_of_served (inv : HeapInv run.heap bs) {result : Option (HeapCaps n × Nat)}
    (served : Served run bytes caps result) (null : result = some (run.heap, 0) → NoBlockFor run.heap bytes caps)
    (same : ∀ h' ptr, result = some (h', ptr) → ∀ i, SameRegion (run.heap.region i) (h'.region i)) :
    Fits run.heap bytes caps := by
  rcases served with refused | ⟨h', ptr, found, -, granted⟩
  · exact .inr (null refused)
  · left
    have head : memBlkHeadSize run.heap.trace ≤ 16 := by
      cases run.heap.trace <;> decide
    have small := granted_small granted fun num => by
      have limit := (inv.regions num).bounds.limit
      have high := (inv.regions num).bounds.high
      rw [(same h' ptr found num).memEnd]
      omega
    dsimp only at small
    unfold Counted
    omega

theorem malloc_served_iff (before : TidyRun regions run bs) (bytes : Nat) (caps file line : Word) :
    Served run bytes caps (heapCapsMalloc (wrap bytes) caps file line run.heap) ↔ Fits run.heap bytes caps := by
  have inv := before.inv.heap
  refine ⟨fun served => fits_of_served inv served ?_ ?_, fun fits => malloc_served before fits file line⟩
  · intro null
    exact (noBlockFor_iff inv).mpr (heapCapsMalloc_null inv null).2
  · intro h' ptr found
    exact mallocLoop_sameRegion found

theorem zalloc_served_iff (before : TidyRun regions run bs) (bytes : Nat) (caps file line : Word) :
    Served run bytes caps (heapCapsZalloc (wrap bytes) caps file line run.heap) ↔ Fits run.heap bytes caps := by
  have inv := before.inv.heap
  refine ⟨fun served => fits_of_served inv served ?_ ?_, fun fits => zalloc_served before fits file line⟩
  · intro null
    exact (noBlockFor_iff inv).mpr (heapCapsMalloc_null inv (heapCapsZalloc_null null)).2
  · intro h' ptr found
    exact heapCapsZalloc_sameRegion found

theorem fittingRun_keeps (before : TidyRun regions run bs) {events : List HeapEvent}
    (fitting : EachHeapStep HeapEvent.Fitting events run) :
    ∃ run' bs', runHeap events run = some run' ∧ TidyRun regions run' bs' := by
  induction events generalizing run bs with
  | nil => exact ⟨run, bs, rfl, before⟩
  | cons e rest ih =>
      obtain ⟨run', bs', eq, after⟩ := heapEvent_keeps before (eventSized_of_fitting before.inv.heap fitting.1)
      obtain ⟨run'', bs'', eq', last⟩ := ih after (fitting.2 run' eq)
      exact ⟨run'', bs'', by rw [runHeap, eq]; exact eq', last⟩

end

/-- In every run whose requests fit, a request of any size is served exactly if it fits. -/
theorem fitting_requests_served (fullIcache : Bool) (symbols : LinkerSymbols) (memory : Memory)
    (events : List HeapEvent)
    (fitting : EachHeapStep HeapEvent.Fitting events (HeapRun.start (heapCapsInit fullIcache symbols memory))) :
    ∃ run, runHeap events (HeapRun.start (heapCapsInit fullIcache symbols memory)) = some run ∧
      ∀ size < 2 ^ 32, ∀ caps file line,
        (Served run size caps (heapCapsMalloc size caps file line run.heap) ↔ Fits run.heap size caps) ∧
        (Served run size caps (heapCapsZalloc size caps file line run.heap) ↔ Fits run.heap size caps) ∧
        ∀ count < 2 ^ 32, (Served run (count * size) caps (heapCapsCalloc count size caps file line run.heap) ↔
          Fits run.heap (count * size) caps) := by
  obtain ⟨run, bs, eq, after⟩ := fittingRun_keeps (heapCapsInit_tidy fullIcache symbols memory) fitting
  refine ⟨run, eq, fun size small caps file line => ⟨?_, ?_, fun count _ => ?_⟩⟩
  · have malloc := malloc_served_iff after size caps file line
    rwa [wrap, Nat.mod_eq_of_lt small] at malloc
  · have zalloc := zalloc_served_iff after size caps file line
    rwa [wrap, Nat.mod_eq_of_lt small] at zalloc
  · exact zalloc_served_iff after (count * size) caps file line

/-- A request for nearly all of the address space is refused, and a small one after it served. -/
theorem fitting_requests_served_two :
    ∃ run, runHeap [.calloc 0xF000 0x10000 MALLOC_CAP_8BIT 7 42, .malloc 10 MALLOC_CAP_8BIT 7 43]
        (HeapRun.start (heapCapsInit true sampleSymbols fun _ => 0)) = some run ∧
      ∀ size < 2 ^ 32, ∀ caps file line,
        (Served run size caps (heapCapsMalloc size caps file line run.heap) ↔ Fits run.heap size caps) ∧
        (Served run size caps (heapCapsZalloc size caps file line run.heap) ↔ Fits run.heap size caps) ∧
        ∀ count < 2 ^ 32, (Served run (count * size) caps (heapCapsCalloc count size caps file line run.heap) ↔
          Fits run.heap (count * size) caps) := by
  refine fitting_requests_served true sampleSymbols (fun _ => 0) _ ⟨⟨by decide, by decide, .inl ?_⟩, ?_⟩
  · unfold Counted
    decide
  · intro refused made
    refine ⟨⟨by decide, .inl ?_⟩, fun _ _ => trivial⟩
    have head : memBlkHeadSize refused.heap.trace ≤ 16 := by
      cases refused.heap.trace <;> decide
    unfold Counted
    omega

/-- Either size wraps to a block of eight bytes, all of them header, and the caller is given its end. -/
theorem oversized_requests_granted :
    let run := HeapRun.start (heapCapsInit true sampleSymbols fun _ => 0)
    (heapCapsCalloc 65536 65536 MALLOC_CAP_8BIT 7 42 run.heap).map Prod.snd = some 0x3FFE9008 ∧
      ¬ Served run (65536 * 65536) MALLOC_CAP_8BIT (heapCapsCalloc 65536 65536 MALLOC_CAP_8BIT 7 42 run.heap) ∧
      ¬ Served run 0xFFFFFFFF MALLOC_CAP_8BIT (heapCapsMalloc 0xFFFFFFFF MALLOC_CAP_8BIT 7 42 run.heap) := by
  have start := heapCapsInit_tidy true sampleSymbols fun _ => 0
  have unfit (bytes : Nat) (wraps : 2 ^ 32 ≤ bytes + 11)
      (small : ptr2memblkSize (wrap bytes) false ≤ 8) :
      ¬ Fits (heapCapsInit true sampleSymbols fun _ => 0) bytes MALLOC_CAP_8BIT := by
    rintro (counted | noBlock)
    · exact absurd counted (Nat.not_lt.mpr wraps)
    · have size := noBlock ⟨0, by decide⟩ (by decide) 0x3FFE9000 (by decide) (by decide)
      have large : 8 < blkLinkSize (heapCapsInit true sampleSymbols fun _ => 0).memory 0x3FFE9000 := by
        decide
      exact absurd (Nat.lt_of_lt_of_le size small) (Nat.not_lt.mpr (Nat.le_of_lt large))
  refine ⟨by decide, fun served => ?_, fun served => ?_⟩
  · exact unfit _ (by decide) (by decide) ((zalloc_served_iff start _ _ _ _).mp served)
  · exact unfit _ (by decide) (by decide) ((malloc_served_iff start 0xFFFFFFFF _ _ _).mp served)

end EspFirmware.Proof.Heap
