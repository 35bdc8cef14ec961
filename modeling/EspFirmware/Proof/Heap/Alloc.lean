import EspFirmware.Proof.Heap.Edit

/-!
The search for a free block, and what `_heap_caps_malloc` does to the region it finds one in.
-/

namespace EspFirmware.Proof.Heap
open EspFirmware.Lib Memory EspFirmware.Heap EspFirmware.Spec

section
variable {m : Memory} {prev a : Nat} {bs : List Blk}

theorem free_eq {b : Blk} (at_ : BlkAt m prev a b) (unused : b.used = false) : b = freeBlock b.size := by
  have untraced := at_.free unused
  cases b
  dsimp only at unused untraced ⊢
  rw [unused, untraced]

theorem skipUsed_eq (linked : Linked m prev a bs) (smallPrev : prev < 2 ^ 31) (small : a + total bs < 2 ^ 31)
    (positive : 0 < a) {fuel : Nat} (enough : bs.length < fuel) : skipUsed m fuel a = some (firstFree a bs) := by
  induction bs generalizing prev a fuel with
  | nil =>
      obtain ⟨fuel, rfl⟩ := Nat.exists_eq_succ_of_ne_zero (by omega : fuel ≠ 0)
      have atEnd := endAt_isEnd linked.2
      rw [total_nil, Nat.add_zero] at atEnd
      rw [skipUsed, if_neg (by simp [atEnd]), firstFree]
  | cons b bs ih =>
      obtain ⟨fuel, rfl⟩ := Nat.exists_eq_succ_of_ne_zero (by omega : fuel ≠ 0)
      rw [total_cons] at small
      rw [linked_cons] at linked
      obtain ⟨block, rest⟩ := linked
      have notEnd := memBlkIsEnd_eq block (by omega)
      rw [skipUsed, firstFree, memBlkIsUsed_eq block smallPrev, notEnd]
      cases used : b.used with
      | true =>
          rw [if_pos ⟨by omega, by decide, rfl⟩, memBlkNext_eq block (by omega), if_pos rfl]
          exact ih rest (by omega) (by omega) (by omega) (by simpa using enough)
      | false => rw [if_neg (by simp), if_neg (by simp)]

theorem findBlk_eq (linked : Linked m prev a bs) (smallPrev : prev < 2 ^ 31) (small : a + total bs < 2 ^ 31)
    (positive : 0 < a) (k fuel : Nat) (enough : bs.length < fuel) :
    findBlk m k fuel a = some (a + total bs) ∨
      ∃ pre s post, bs = pre ++ freeBlock s :: post ∧ k ≤ s ∧ findBlk m k fuel a = some (a + total pre) := by
  induction bs generalizing prev a fuel with
  | nil =>
      obtain ⟨fuel, rfl⟩ := Nat.exists_eq_succ_of_ne_zero (by omega : fuel ≠ 0)
      have atEnd := endAt_isEnd linked.2
      rw [total_nil, Nat.add_zero] at atEnd
      left
      rw [findBlk, if_neg (by simp [atEnd]), total_nil, Nat.add_zero]
  | cons b bs ih =>
      obtain ⟨fuel, rfl⟩ := Nat.exists_eq_succ_of_ne_zero (by omega : fuel ≠ 0)
      rw [total_cons] at small
      rw [linked_cons] at linked
      obtain ⟨block, rest⟩ := linked
      have notEnd := memBlkIsEnd_eq block (by omega)
      rw [findBlk, memBlkIsUsed_eq block smallPrev, notEnd, blkLinkSize_eq block (by omega)]
      by_cases skip : b.used = true ∨ b.size < k
      · rw [if_pos ⟨by omega, by decide, skip⟩, memBlkNext_eq block (by omega)]
        rcases ih rest (by omega) (by omega) (by omega) fuel (by simpa using enough) with atEnd | found
        · left
          rw [atEnd, total_cons, Nat.add_assoc]
        · obtain ⟨pre, s, post, rfl, large, found⟩ := found
          right
          exact ⟨b :: pre, s, post, rfl, large, by rw [found, total_cons, Nat.add_assoc]⟩
      · obtain ⟨unused, large⟩ := not_or.mp skip
        rw [if_neg (fun all => skip all.2.2)]
        right
        refine ⟨[], b.size, bs, ?_, by omega, rfl⟩
        rw [← free_eq block (by simpa using unused)]
        rfl

theorem findBlk_end (linked : Linked m prev a bs) (smallPrev : prev < 2 ^ 31) (small : a + total bs < 2 ^ 31)
    (positive : 0 < a) {k fuel : Nat} (enough : bs.length < fuel) (atEnd : findBlk m k fuel a = some (a + total bs)) :
    ∀ b ∈ bs, b.used = false → b.size < k := by
  induction bs generalizing prev a fuel with
  | nil =>
      intro b none
      cases none
  | cons b bs ih =>
      obtain ⟨fuel, rfl⟩ := Nat.exists_eq_succ_of_ne_zero (by omega : fuel ≠ 0)
      rw [total_cons] at small
      rw [linked_cons] at linked
      obtain ⟨block, rest⟩ := linked
      have room := block.room
      have head := head_ge b
      rw [Nat.succ_eq_add_one, findBlk, memBlkIsUsed_eq block smallPrev, memBlkIsEnd_eq block (by omega),
        blkLinkSize_eq block (by omega)] at atEnd
      by_cases skip : b.used = true ∨ b.size < k
      · rw [if_pos ⟨by omega, by decide, skip⟩, memBlkNext_eq block (by omega), total_cons, ← Nat.add_assoc] at atEnd
        have later := ih rest (by omega) (by omega) (by omega) (by simpa using enough) atEnd
        intro c member free
        cases member with
        | head =>
            rcases skip with used | tooSmall
            · rw [free] at used
              cases used
            · exact tooSmall
        | tail _ member => exact later c member free
      · rw [if_neg (fun all => skip all.2.2), total_cons] at atEnd
        have here := Option.some.inj atEnd
        omega

end

theorem firstFree_split (a : Nat) (bs : List Blk) :
    ∃ pre rest, bs = pre ++ rest ∧ firstFree a bs = a + total pre ∧ ∀ b ∈ pre, b.used = true := by
  induction bs generalizing a with
  | nil => exact ⟨[], [], rfl, rfl, nofun⟩
  | cons b bs ih =>
      cases used : b.used with
      | true =>
          obtain ⟨pre, rest, rfl, place, all⟩ := ih (a + b.size)
          refine ⟨b :: pre, rest, rfl, ?_, ?_⟩
          · rw [firstFree, used, if_pos rfl, place, total_cons, Nat.add_assoc]
          · intro c member
            rcases List.mem_cons.mp member with rfl | later
            · exact used
            · exact all c later
      | false => exact ⟨[], b :: bs, rfl, by simp [firstFree, used], nofun⟩

theorem firstFree_skip {pre : List Blk} (used : ∀ b ∈ pre, b.used = true) (a : Nat) (bs : List Blk) :
    firstFree a (pre ++ bs) = firstFree (a + total pre) bs := by
  induction pre generalizing a with
  | nil => rfl
  | cons b pre ih =>
      rw [List.cons_append, firstFree, if_pos (used b List.mem_cons_self),
        ih fun c member => used c (List.mem_cons_of_mem b member), total_cons, Nat.add_assoc]

theorem firstFree_stays {pre : List Blk} (free : ∃ b ∈ pre, b.used = false) (a : Nat) (bs cs : List Blk) :
    firstFree a (pre ++ bs) = firstFree a (pre ++ cs) := by
  induction pre generalizing a with
  | nil =>
      obtain ⟨b, member, -⟩ := free
      exact absurd member List.not_mem_nil
  | cons c pre ih =>
      rw [List.cons_append, List.cons_append, firstFree, firstFree]
      cases used : c.used with
      | true =>
          rw [if_pos rfl, if_pos rfl]
          obtain ⟨b, member, unused⟩ := free
          rcases List.mem_cons.mp member with rfl | later
          · rw [unused] at used
            contradiction
          · exact ih ⟨b, later, unused⟩ _
      | false => rfl

theorem firstFree_before {m : Memory} {prev a : Nat} {pre : List Blk} (run : Run m prev a pre)
    (free : ∃ b ∈ pre, b.used = false) (bs : List Blk) : firstFree a (pre ++ bs) < a + total pre := by
  induction pre generalizing prev a with
  | nil =>
      obtain ⟨b, member, -⟩ := free
      exact absurd member List.not_mem_nil
  | cons c pre ih =>
      have room := run.1.room
      have head := head_ge c
      rw [List.cons_append, firstFree, total_cons]
      cases used : c.used with
      | true =>
          obtain ⟨b, member, unused⟩ := free
          rcases List.mem_cons.mp member with rfl | later
          · rw [unused] at used
            contradiction
          · have := ih run.2 ⟨b, later, unused⟩
            rw [if_pos rfl]
            omega
      | false =>
          rw [if_neg (by simp)]
          omega

structure RegionBounds (r : HeapRegion) : Prop where
  low : r.startAddr ≤ memStart r
  positive : 0 < memStart r
  aligned : memStart r % 4 = 0
  order : memStart r + 8 ≤ memEnd r
  high : memEnd r + 8 ≤ r.startAddr + r.totalSize
  limit : r.startAddr + r.totalSize < 2 ^ 31

structure RegionInv (m : Memory) (r : HeapRegion) (bs : List Blk) : Prop where
  bounds : RegionBounds r
  linked : Linked m 0 (memStart r) bs
  end_ : memStart r + total bs = memEnd r
  freeBytes : r.freeBytes = freeTotal bs
  freeBlk : r.freeBlk = firstFree (memStart r) bs

structure SameRegion (r r' : HeapRegion) : Prop where
  startAddr : r'.startAddr = r.startAddr
  totalSize : r'.totalSize = r.totalSize
  caps : r'.caps = r.caps

theorem SameRegion.memStart {r r' : HeapRegion} (same : SameRegion r r') : memStart r' = memStart r := by
  rw [EspFirmware.Heap.memStart, same.startAddr, EspFirmware.Heap.memStart]

theorem SameRegion.memEnd {r r' : HeapRegion} (same : SameRegion r r') : memEnd r' = memEnd r := by
  rw [EspFirmware.Heap.memEnd, same.startAddr, same.totalSize, EspFirmware.Heap.memEnd]

theorem SameRegion.bounds {r r' : HeapRegion} (same : SameRegion r r') (bounds : RegionBounds r) :
    RegionBounds r' := by
  have start := same.memStart
  have end_ := same.memEnd
  have address := same.startAddr
  have size := same.totalSize
  obtain ⟨low, positive, aligned, order, high, limit⟩ := bounds
  constructor <;> omega

theorem length_le_total {m : Memory} {prev a : Nat} {bs : List Blk} (run : Run m prev a bs) :
    bs.length ≤ total bs := by
  induction bs generalizing prev a with
  | nil => exact Nat.le_refl 0
  | cons b bs ih =>
      have := ih run.2
      have := run.1.room
      have := head_ge b
      rw [List.length_cons, total_cons]
      omega

theorem ptr2memblkSize_eq {size : Nat} {trace : Bool} (fits : size + memBlkHeadSize trace + 3 < 2 ^ 32) :
    let k := ptr2memblkSize size trace
    size + memBlkHeadSize trace ≤ k ∧ k % 4 = 0 := by
  have head := head_ge ⟨0, true, trace⟩
  rw [Blk.head] at head
  dsimp only at head
  have four : HEAP_ALIGN_SIZE = 4 := rfl
  unfold ptr2memblkSize heapAlign wrap
  dsimp only
  rw [four]
  omega

theorem size_le_freeTotal {bs : List Blk} {b : Blk} (member : b ∈ bs) (free : b.used = false) :
    b.size ≤ freeTotal bs := by
  induction bs with
  | nil => cases member
  | cons c bs ih =>
      cases member with
      | head =>
          rw [freeTotal_free free]
          exact Nat.le_add_right _ _
      | tail _ member =>
          have rest := ih member
          cases used : c.used with
          | true =>
              rw [freeTotal_used used]
              exact rest
          | false =>
              rw [freeTotal_free used]
              omega

def TooSmall (bs : List Blk) (k : Nat) : Prop := ∀ b ∈ bs, b.used = false → b.size < k

theorem lastAddr_le {prev a : Nat} (le : prev ≤ a) (bs : List Blk) : lastAddr prev a bs ≤ a + total bs := by
  induction bs generalizing prev a with
  | nil => rw [lastAddr]; omega
  | cons b bs ih =>
      have := ih (Nat.le_add_right a b.size)
      rw [lastAddr_cons, total_cons]
      omega

def takeFound {n : Nat} (num : Fin n) (blk k : Nat) (file line : Word) (h : HeapCaps n) :
    Option (HeapCaps n × Nat) :=
  let r := h.region num
  let m := takeBlk h.memory blk k h.trace file line
  match if r.freeBlk = blk then skipUsed m ADDRESSES blk else some r.freeBlk with
  | none => none
  | some freeBlk =>
      let freeBytes := minus r.freeBytes (blkLinkSize m blk)
      let minFreeBytes := if freeBytes < r.minFreeBytes then freeBytes else r.minFreeBytes
      some ({ h with
              memory := m,
              region := Function.update h.region num
                { r with freeBlk := freeBlk, freeBytes := freeBytes, minFreeBytes := minFreeBytes } },
            blk2ptr blk h.trace)

theorem mallocFrom_cases {n : Nat} {h : HeapCaps n} {num : Fin n} {bs : List Blk}
    (inv : RegionInv h.memory (h.region num) bs) (size : Nat) (caps file line : Word) :
    let k := ptr2memblkSize size h.trace
    (mallocFrom size caps file line num h = some (h, 0) ∧
        ((h.region num).caps &&& caps = caps → TooSmall bs k)) ∨
      ∃ pre s post, bs = pre ++ freeBlock s :: post ∧ k ≤ s ∧ (h.region num).caps &&& caps = caps ∧
        mallocFrom size caps file line num h = takeFound num (memStart (h.region num) + total pre) k file line h := by
  have limit := inv.bounds.limit
  have high := inv.bounds.high
  have positive := inv.bounds.positive
  have end_ := inv.end_
  have count := length_le_total inv.linked.1
  unfold mallocFrom
  dsimp only
  by_cases lacks : (h.region num).caps &&& caps ≠ caps
  · left
    exact ⟨if_pos lacks, fun hasCaps => absurd hasCaps lacks⟩
  rw [if_neg lacks]
  by_cases tooLarge : (h.region num).freeBytes < ptr2memblkSize size h.trace
  · left
    refine ⟨if_pos tooLarge, fun _ b member free => ?_⟩
    have least := size_le_freeTotal member free
    rw [inv.freeBytes] at tooLarge
    omega
  rw [if_neg tooLarge]
  -- the search starts at the first free block
  obtain ⟨usedPre, rest, split, place, allUsed⟩ := firstFree_split (memStart (h.region num)) bs
  have linked := inv.linked
  rw [split, linked_append] at linked
  have totals : total bs = total usedPre + total rest := by rw [split, total_append]
  have smallPrev : lastAddr 0 (memStart (h.region num)) usedPre < 2 ^ 31 := by
    have := lastAddr_le (Nat.zero_le (memStart (h.region num))) usedPre
    omega
  have lengths : rest.length ≤ bs.length := by rw [split, List.length_append]; omega
  have enough : rest.length < ADDRESSES := by unfold ADDRESSES; omega
  rw [inv.freeBlk, place]
  rcases findBlk_eq linked.2 smallPrev (by omega) (by omega) (ptr2memblkSize size h.trace) ADDRESSES enough with
    atEnd | ⟨pre, s, post, rfl, fits, found⟩
  · left
    have last := endAt_isEnd linked.2.2
    refine ⟨?_, fun _ b member free => ?_⟩
    · rw [atEnd]
      dsimp only
      rw [if_pos (Or.inr last)]
    · rw [split] at member
      rcases List.mem_append.mp member with early | late
      · rw [allUsed b early] at free
        cases free
      · exact findBlk_end linked.2 smallPrev (by omega) (by omega) enough atEnd b late free
  · right
    have address : memStart (h.region num) + total usedPre + total pre =
        memStart (h.region num) + total (usedPre ++ pre) := by rw [total_append, Nat.add_assoc]
    refine ⟨usedPre ++ pre, s, post, by rw [split, List.append_assoc], fits, not_not.mp lacks, ?_⟩
    have block := linked.2
    rw [linked_append, linked_cons] at block
    have notEnd := memBlkIsEnd_eq block.2.1 (by rw [total_append, total_cons] at totals; omega)
    rw [found]
    dsimp only
    rw [if_neg (by rw [notEnd]; simp; omega), address, takeFound]
    dsimp only
    rewrite [inv.freeBlk, place]
    rfl

theorem takeFound_ptr {n : Nat} {h h' : HeapCaps n} {num : Fin n} {blk k ptr : Nat} {file line : Word}
    (taken : takeFound num blk k file line h = some (h', ptr)) : ptr = blk + memBlkHeadSize h.trace := by
  unfold takeFound at taken
  dsimp only at taken
  split at taken
  · cases taken
  · exact (congrArg Prod.snd (Option.some.inj taken)).symm

def takenSize (s k : Nat) (trace : Bool) : Nat := if k + memBlkHeadSize trace + MEM_BLK_MIN ≤ s then k else s

theorem taken_eq (s k : Nat) (trace : Bool) : ∃ rest, taken s k trace = ⟨takenSize s k trace, true, trace⟩ :: rest ∧
    (k ≤ s → freeTotal rest + takenSize s k trace = s ∧ total rest + takenSize s k trace = s) := by
  unfold taken takenSize
  split
  · exact ⟨[freeBlock (s - k)], rfl, fun le => by simp [freeTotal, total]; omega⟩
  · exact ⟨[], rfl, fun _ => by simp [freeTotal]⟩

structure Moved {n : Nat} (h h' : HeapCaps n) (num : Fin n) (bs' : List Blk) : Prop where
  trace : h'.trace = h.trace
  others : ∀ i, i ≠ num → h'.region i = h.region i
  same : SameRegion (h.region num) (h'.region num)
  frame : Frame h.memory h'.memory (memStart (h.region num)) (memEnd (h.region num) + 8)
  inv : RegionInv h'.memory (h'.region num) bs'

theorem moved_of_region {n : Nat} {h : HeapCaps n} {num : Fin n} {m' : Memory} {r' : HeapRegion} {bs' : List Blk}
    (same : SameRegion (h.region num) r')
    (frame : Frame h.memory m' (memStart (h.region num)) (memEnd (h.region num) + 8)) (inv : RegionInv m' r' bs') :
    Moved h { h with memory := m', region := Function.update h.region num r' } num bs' where
  trace := rfl
  others i other := Function.update_of_ne other _ _
  same := by
    dsimp only
    rw [Function.update_self]
    exact same
  frame := frame
  inv := by
    dsimp only
    rw [Function.update_self]
    exact inv

theorem takeBlk_region {m : Memory} {r : HeapRegion} {pre post : List Blk} {s k : Nat} {trace : Bool}
    (inv : RegionInv m r (pre ++ freeBlock s :: post)) (room : memBlkHeadSize trace ≤ k) (fits : k ≤ s)
    (aligned : k % 4 = 0) (file line : Word) :
    let c := memStart r + total pre
    let m' := takeBlk m c k trace file line
    let bs' := pre ++ (taken s k trace ++ post)
    Linked m' 0 (memStart r) bs' ∧ Frame m m' (memStart r) (memEnd r + 8) ∧
      blkLinkSize m' c = takenSize s k trace ∧ total bs' = total (pre ++ freeBlock s :: post) ∧
      freeTotal bs' + takenSize s k trace = freeTotal (pre ++ freeBlock s :: post) ∧
      (if r.freeBlk = c then skipUsed m' ADDRESSES c else some r.freeBlk) =
        some (firstFree (memStart r) bs') := by
  obtain ⟨bounds, linked, end_, -, freeBlk⟩ := inv
  have limit := bounds.limit
  have high := bounds.high
  have positive := bounds.positive
  rw [linked_append] at linked
  obtain ⟨before, here⟩ := linked
  have sizes : total (pre ++ freeBlock s :: post) = total pre + (s + total post) := by simp
  have smallPrev : lastAddr 0 (memStart r) pre < 2 ^ 31 := by
    have := lastAddr_le (Nat.zero_le (memStart r)) pre
    omega
  obtain ⟨linked', frame⟩ := takeBlk_linked file line here smallPrev (by omega) room fits aligned
  obtain ⟨rest, list, sums⟩ := taken_eq s k trace
  obtain ⟨freeSum, totalSum⟩ := sums fits
  have before' := run_before before fun x less => frame x (Or.inl less)
  have all : Linked (takeBlk m (memStart r + total pre) k trace file line) 0 (memStart r)
      (pre ++ (taken s k trace ++ post)) := linked_append.mpr ⟨before', linked'⟩
  have block := linked'
  rw [list, List.cons_append, linked_cons] at block
  have takenLe : takenSize s k trace ≤ s := by omega
  refine ⟨all, frame.mono (by omega) (by omega), ?_, ?_, ?_, ?_⟩
  · exact blkLinkSize_eq block.1 (by dsimp only; omega)
  · rw [list, sizes]
    simp only [total_append, total_cons, List.cons_append]
    omega
  · rw [list, freeTotal_append, freeTotal_append, freeTotal_used rfl, freeTotal_append, freeTotal_free rfl,
      size_freeBlock]
    omega
  · rw [freeBlk]
    by_cases usedBefore : ∀ b ∈ pre, b.used = true
    · have first : firstFree (memStart r) (pre ++ freeBlock s :: post) = memStart r + total pre := by
        rw [firstFree_skip usedBefore, firstFree]
        rfl
      have totals : total (taken s k trace ++ post) = s + total post := by
        rw [list, List.cons_append, total_cons, total_append]
        dsimp only
        omega
      have count := length_le_total linked'.1
      rw [if_pos first, firstFree_skip usedBefore]
      exact skipUsed_eq linked' smallPrev (by omega) (by omega) (by unfold ADDRESSES; omega)
    · obtain ⟨b, member, unused⟩ := not_forall₂.mp usedBefore
      have free : ∃ b ∈ pre, b.used = false := ⟨b, member, by simpa using unused⟩
      have earlier := firstFree_before before free (freeBlock s :: post)
      rw [if_neg (Nat.ne_of_lt earlier), firstFree_stays free _ _ (taken s k trace ++ post)]

theorem mallocFrom_spec {n : Nat} {h : HeapCaps n} {num : Fin n} {bs : List Blk}
    (inv : RegionInv h.memory (h.region num) bs) {size : Nat} (counted : size + memBlkHeadSize h.trace + 3 < 2 ^ 32)
    (caps file line : Word) :
    mallocFrom size caps file line num h = some (h, 0) ∨
      ∃ h' pre s post,
        let k := ptr2memblkSize size h.trace
        let ptr := memStart (h.region num) + total pre + memBlkHeadSize h.trace
        mallocFrom size caps file line num h = some (h', ptr) ∧ bs = pre ++ freeBlock s :: post ∧ k ≤ s ∧
        (h.region num).caps &&& caps = caps ∧ Moved h h' num (pre ++ (taken s k h.trace ++ post)) ∧
        (h'.region num).minFreeBytes = min (h.region num).minFreeBytes (h'.region num).freeBytes := by
  rcases mallocFrom_cases inv size caps file line with ⟨refused, -⟩ | ⟨pre, s, post, rfl, fits, hasCaps, found⟩
  · exact .inl refused
  right
  obtain ⟨room, aligned⟩ := ptr2memblkSize_eq counted
  have bounds := inv.bounds
  have limit := bounds.limit
  have high := bounds.high
  have end_ := inv.end_
  obtain ⟨linked', frame, linkSize, totals', freeSum, first⟩ :=
    takeBlk_region inv (by omega : memBlkHeadSize h.trace ≤ _) fits aligned file line
  have freeBytes := inv.freeBytes
  have freeBound := freeTotal_le (pre ++ freeBlock s :: post)
  have left_ : minus (h.region num).freeBytes (takenSize s (ptr2memblkSize size h.trace) h.trace) =
      freeTotal (pre ++ (taken s (ptr2memblkSize size h.trace) h.trace ++ post)) := by
    unfold minus
    omega
  let bs' := pre ++ (taken s (ptr2memblkSize size h.trace) h.trace ++ post)
  let m' := takeBlk h.memory (memStart (h.region num) + total pre) (ptr2memblkSize size h.trace) h.trace file line
  let r' : HeapRegion :=
    { h.region num with
      freeBlk := firstFree (memStart (h.region num)) bs', freeBytes := freeTotal bs',
      minFreeBytes :=
        if freeTotal bs' < (h.region num).minFreeBytes then freeTotal bs' else (h.region num).minFreeBytes }
  have same : SameRegion (h.region num) r' := ⟨rfl, rfl, rfl⟩
  have inv' : RegionInv m' r' bs' := by
    refine ⟨same.bounds bounds, ?_, ?_, rfl, ?_⟩
    · rw [same.memStart]
      exact linked'
    · rw [same.memStart, same.memEnd, totals']
      exact end_
    · rw [same.memStart]
  refine ⟨{ h with memory := m', region := Function.update h.region num r' }, pre, s, post, ?_, rfl, fits,
    hasCaps, moved_of_region same frame inv', ?_⟩
  · rw [found, takeFound]
    dsimp only
    rw [first]
    dsimp only
    rw [linkSize, left_]
    rfl
  · dsimp only
    rw [Function.update_self]
    change (if freeTotal bs' < (h.region num).minFreeBytes then freeTotal bs' else _) = min _ (freeTotal bs')
    split <;> omega

end EspFirmware.Proof.Heap
